import Mathlib.Data.List.Forall2

/-!
# Computations that may fail

A computation on a state ends in a value or in an error, and in the state
it has reached by then; a computation without state only ends in one of the
two. What is said of such computations is always said at one state: a
sequence goes on where its first part succeeds (`EStateM.bind_ok`), it
succeeds exactly when both its parts do (`EStateM.bind_eq_ok`), and a loop
whose every round succeeds is a loop of plain values.
-/

namespace Qudit

namespace EStateM

variable {ε σ α β : Type}

/-- What a sequence does is decided by its first part. -/
theorem bind_apply (x : EStateM ε σ α) (f : α → EStateM ε σ β) (s : σ) :
    (x >>= f) s = match x s with
      | .ok a s' => f a s'
      | .error e s' => .error e s' := rfl

theorem bind_ok {x : EStateM ε σ α} {f : α → EStateM ε σ β} {s t : σ} {a : α}
    (h : x s = .ok a t) : (x >>= f) s = f a t := by
  rw [bind_apply, h]

theorem bind_error {x : EStateM ε σ α} {f : α → EStateM ε σ β} {s t : σ} {e : ε}
    (h : x s = .error e t) : (x >>= f) s = .error e t := by
  rw [bind_apply, h]

/-- A sequence succeeds exactly when both parts do, one after the other. -/
theorem bind_eq_ok {x : EStateM ε σ α} {f : α → EStateM ε σ β} {s t : σ} {b : β} :
    (x >>= f) s = .ok b t ↔ ∃ a s', x s = .ok a s' ∧ f a s' = .ok b t := by
  rw [bind_apply]
  constructor
  · intro h
    cases hx : x s with
    | ok a s' => rw [hx] at h; exact ⟨a, s', rfl, h⟩
    | error e s' => rw [hx] at h; cases h
  · rintro ⟨a, s', hx, hf⟩
    rw [hx]
    exact hf

theorem pure_apply (a : α) (s : σ) : (pure a : EStateM ε σ α) s = .ok a s := rfl

theorem forM_nil (f : β → EStateM ε σ PUnit) (s : σ) : [].forM f s = .ok () s := rfl

theorem forM_cons (f : β → EStateM ε σ PUnit) (b : β) (bs : List β) :
    (b :: bs).forM f = f b >>= fun _ => bs.forM f := rfl

/-- A loop over two lists in a row is one loop after the other. -/
theorem forM_append (f : β → EStateM ε σ PUnit) (as bs : List β) (s : σ) :
    (as ++ bs).forM f s = (as.forM f >>= fun _ => bs.forM f) s := by
  induction as generalizing s with
  | nil => rfl
  | cons a as ih =>
    rw [List.cons_append, forM_cons, forM_cons, bind_apply, bind_apply, bind_apply]
    cases f a s with
    | ok u s' => exact ih s'
    | error e s' => rfl

/-- Rounds that do the same make loops that do the same. -/
theorem forM_congr {f g : β → EStateM ε σ PUnit} {bs : List β}
    (h : ∀ b ∈ bs, ∀ s, f b s = g b s) (s : σ) : bs.forM f s = bs.forM g s := by
  induction bs generalizing s with
  | nil => rfl
  | cons b bs ih =>
    rw [forM_cons, forM_cons, bind_apply, bind_apply, h b (by simp) s]
    cases g b s with
    | ok u s' => exact ih (fun c hc => h c (by simp [hc])) s'
    | error e s' => rfl

theorem forM_map (f : β → EStateM ε σ PUnit) (g : α → β) (as : List α) :
    (as.map g).forM f = as.forM fun a => f (g a) := by
  induction as with
  | nil => rfl
  | cons a as ih => rw [List.map_cons, forM_cons, forM_cons, ih]

/-- A loop whose every round reads the same from the state at hand collects
these readings. -/
theorem mapM_ok {f : β → EStateM ε σ α} {g : β → α} {bs : List β} {s : σ}
    (h : ∀ b ∈ bs, f b s = .ok (g b) s) : bs.mapM f s = .ok (bs.map g) s := by
  induction bs with
  | nil => rfl
  | cons b bs ih =>
    rw [List.mapM_cons, bind_ok (h b (by simp)), bind_ok (ih fun c hc => h c (by simp [hc]))]
    rfl

end EStateM

namespace Except

variable {ε α β : Type}

theorem bind_ok {x : Except ε α} {f : α → Except ε β} {a : α} (h : x = .ok a) :
    (x >>= f) = f a := by
  rw [h]; rfl

theorem bind_eq_ok {x : Except ε α} {f : α → Except ε β} {b : β} :
    (x >>= f) = .ok b ↔ ∃ a, x = .ok a ∧ f a = .ok b := by
  cases x with
  | ok a => exact ⟨fun h => ⟨a, rfl, h⟩, fun ⟨_, rfl, h⟩ => h⟩
  | error e =>
    constructor
    · intro h
      cases h
    · rintro ⟨_, h, -⟩
      cases h

/-- A check that is followed by something passes by itself. -/
theorem check_bind_eq_ok {x : Except ε PUnit} {f : PUnit → Except ε β} {b : β} :
    (x >>= f) = .ok b ↔ x = .ok () ∧ f () = .ok b :=
  bind_eq_ok.trans ⟨fun ⟨_, hx, hf⟩ => ⟨hx, hf⟩, fun ⟨hx, hf⟩ => ⟨(), hx, hf⟩⟩

/-- A loop in which every entry has a value collects these values. -/
theorem mapM_ok {f : β → Except ε α} {g : β → α} {bs : List β}
    (h : ∀ b ∈ bs, f b = .ok (g b)) : bs.mapM f = .ok (bs.map g) := by
  induction bs with
  | nil => rfl
  | cons b bs ih =>
    rw [List.mapM_cons, h b (by simp), ih fun c hc => h c (by simp [hc])]
    rfl

/-- What a loop collects are the values of its entries. -/
theorem eq_map_of_mapM_eq_ok {f : β → Except ε α} {g : β → α} {bs : List β} {as : List α}
    (h : bs.mapM f = .ok as) (hf : ∀ b ∈ bs, ∀ a, f b = .ok a → a = g b) : as = bs.map g := by
  induction bs generalizing as with
  | nil =>
    obtain ⟨⟩ := h
    rfl
  | cons b bs ih =>
    rw [List.mapM_cons] at h
    obtain ⟨a, ha, h⟩ := bind_eq_ok.mp h
    obtain ⟨rest, hrest, h⟩ := bind_eq_ok.mp h
    obtain ⟨⟩ := h
    rw [List.map_cons, hf b (by simp) a ha, ih hrest fun c hc => hf c (by simp [hc])]

/-- Whatever a loop collects is the value of one of its entries. -/
theorem exists_of_mem_mapM {f : β → Except ε α} {bs : List β} {as : List α}
    (h : bs.mapM f = .ok as) {a : α} (ha : a ∈ as) : ∃ b ∈ bs, f b = .ok a := by
  induction bs generalizing as with
  | nil =>
    obtain ⟨⟩ := h
    exact absurd ha List.not_mem_nil
  | cons b bs ih =>
    rw [List.mapM_cons] at h
    obtain ⟨a', ha', h⟩ := bind_eq_ok.mp h
    obtain ⟨rest, hrest, h⟩ := bind_eq_ok.mp h
    obtain ⟨⟩ := h
    obtain rfl | ha := List.mem_cons.mp ha
    · exact ⟨b, List.mem_cons_self, ha'⟩
    · obtain ⟨c, hc, hac⟩ := ih hrest ha
      exact ⟨c, List.mem_cons_of_mem _ hc, hac⟩

/-- A loop over other entries that give the same values, and errors under other
names, gives the same values and errors under these names. -/
theorem mapM_map_eq_mapError {γ : Type} {f : β → Except ε α} {g : γ → Except ε α} {h : β → γ}
    {name : ε → ε} (hg : ∀ b, g (h b) = (f b).mapError name) (bs : List β) :
    (bs.map h).mapM g = (bs.mapM f).mapError name := by
  induction bs with
  | nil => rfl
  | cons b bs ih =>
    rw [List.map_cons, List.mapM_cons, List.mapM_cons, hg, ih]
    cases f b with
    | error e => rfl
    | ok a =>
      cases bs.mapM f with
      | error e => rfl
      | ok as => rfl

/-- A loop in which every round has a value is a fold of these values. -/
theorem foldlM_ok {f : α → β → Except ε α} {g : α → β → α} {bs : List β}
    (h : ∀ b ∈ bs, ∀ a, f a b = .ok (g a b)) (a : α) :
    bs.foldlM f a = .ok (bs.foldl g a) := by
  induction bs generalizing a with
  | nil => rfl
  | cons b bs ih =>
    rw [List.foldlM_cons, bind_ok (h b (by simp) a)]
    exact ih (fun c hc => h c (by simp [hc])) _

/-- A loop of checks passes exactly when every check does. -/
theorem forM_eq_ok {f : β → Except ε PUnit} {bs : List β} :
    bs.forM f = .ok () ↔ ∀ b ∈ bs, f b = .ok () := by
  induction bs with
  | nil => exact ⟨fun _ _ h => absurd h (by simp), fun _ => rfl⟩
  | cons b bs ih =>
    show (f b >>= fun _ => bs.forM f) = .ok () ↔ _
    rw [check_bind_eq_ok, List.forall_mem_cons, ← ih]

end Except

end Qudit
