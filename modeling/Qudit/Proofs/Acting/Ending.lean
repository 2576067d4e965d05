import Qudit.Proofs.Acting.Sequence

/-!
# How acting ends

Acting ends in a value or in a failure, and in a session either way. What is
said of acting here is said of both endings. `Ends good bad` asks `good` of
the value and the session of a success, and `bad` of the failure and the
session of a failure; a sequence is treated in its order (`Ends.bind`).
`Keeps view` says that a part of the session is at the end what it was at the
start, whatever happens in between, and `Looks good` that all of the session
is, the only failure being a refusal.
-/

namespace Qudit

open Acting

variable {σ R α β γ : Type}

/-- Acting is refused, and meets no fault. -/
def Failure.IsError : Failure R → Prop
  | .error _ => True
  | .fault _ => False

namespace Acting

/-- The session that acting ends in, whether it succeeds or fails. -/
def sessionAfter : EStateM.Result (Failure R) (Session σ) α → Session σ
  | .ok _ s => s
  | .error _ s => s

/-- **How acting ends**: `good` holds of what it succeeds with, `bad` of what
it fails with. -/
def Ends (good : α → Session σ → Prop) (bad : Failure R → Session σ → Prop) :
    EStateM.Result (Failure R) (Session σ) α → Prop
  | .ok a s => good a s
  | .error e s => bad e s

namespace Ends

variable {good good' : α → Session σ → Prop} {bad bad' : Failure R → Session σ → Prop}

theorem mono {r : EStateM.Result (Failure R) (Session σ) α} (h : Ends good bad r)
    (hgood : ∀ a s, good a s → good' a s) (hbad : ∀ e s, bad e s → bad' e s) :
    Ends good' bad' r := by
  cases r with
  | ok a s => exact hgood a s h
  | error e s => exact hbad e s h

/-- **A sequence ends as its second part does**, or as its first part
fails. -/
theorem bind {x : Acting σ R α} {f : α → Acting σ R β} {s : Session σ}
    {last : β → Session σ → Prop} (h : Ends good bad (x s))
    (hf : ∀ a s', good a s' → Ends last bad (f a s')) : Ends last bad ((x >>= f) s) := by
  rw [EStateM.bind_apply]
  cases hx : x s with
  | ok a s' =>
    rw [hx] at h
    exact hf a s' h
  | error e s' =>
    rw [hx] at h
    exact h

/-- A check ends with its refusal or as what follows it. -/
theorem check {c : Prop} [Decidable c] {e : ActError R} {rest : PUnit → Acting σ R α}
    {s : Session σ} (hrefuse : c → bad (.error e) s) (hrest : ¬c → Ends good bad (rest ⟨⟩ s)) :
    Ends good bad ((if c then refuse e >>= rest else rest ⟨⟩) s) := by
  by_cases hc : c
  · rw [if_pos hc]
    exact hrefuse hc
  · rw [if_neg hc]
    exact hrest hc

/-- What is put back after a computation is put back at either end. -/
theorem restoringAxes {run : Acting σ R α} {s : Session σ}
    (h : Ends (fun a s' => good a { s' with axes := s.axes })
      (fun e s' => bad e { s' with axes := s.axes }) (run s)) :
    Ends good bad (Acting.restoringAxes run s) := by
  rw [restoringAxes_apply]
  cases hrun : run s with
  | ok a s' =>
    rw [hrun] at h
    exact h
  | error e s' =>
    rw [hrun] at h
    exact h

end Ends

/-- **The session that acting ends in**, be it with success or failure. -/
abbrev EndsIn (inv : Session σ → Prop) : EStateM.Result (Failure R) (Session σ) α → Prop :=
  Ends (fun _ => inv) fun _ => inv

theorem endsIn_iff {inv : Session σ → Prop} {r : EStateM.Result (Failure R) (Session σ) α} :
    EndsIn inv r ↔ inv (sessionAfter r) := by
  cases r with
  | ok a s => rfl
  | error e s => rfl

/-- **A computation leaves a part of the session as it was**, also where it
fails. -/
def Keeps (view : Session σ → γ) (run : Acting σ R α) : Prop :=
  ∀ s, view (sessionAfter (run s)) = view s

namespace Keeps

variable {view : Session σ → γ}

theorem pure (a : α) : Keeps view (pure a : Acting σ R α) := fun _ => rfl

theorem get : Keeps view (get : Acting σ R (Session σ)) := fun _ => rfl

theorem refuse (e : ActError R) : Keeps view (refuse e : Acting σ R α) := fun _ => rfl

theorem ofExcept (x : Except (ActError R) α) : Keeps view (ofExcept x : Acting σ R α) := by
  cases x with
  | ok a => exact .pure a
  | error e => exact .refuse e

theorem orFault (x : Except Fault α) : Keeps view (orFault x : Acting σ R α) := by
  cases x with
  | ok a => exact .pure a
  | error f => exact fun _ => rfl

theorem bind {x : Acting σ R α} {f : α → Acting σ R β} (hx : Keeps view x)
    (hf : ∀ a, Keeps view (f a)) : Keeps view (x >>= f) := by
  intro s
  have hx := hx s
  rw [EStateM.bind_apply]
  cases h : x s with
  | ok a s' =>
    rw [h] at hx
    exact (hf a s').trans hx
  | error e s' =>
    rw [h] at hx
    exact hx

/-- What is kept is the same at either end. -/
theorem iff_ends {run : Acting σ R α} : Keeps view run ↔
    ∀ s, Ends (fun _ t => view t = view s) (fun _ t => view t = view s) (run s) := by
  refine forall_congr' fun s => ?_
  cases run s with
  | ok a t => rfl
  | error e t => rfl

/-- With a part of the session, what is read off it is kept. -/
theorem map {δ : Type} {run : Acting σ R α} (h : Keeps view run) (f : γ → δ) :
    Keeps (fun s => f (view s)) run :=
  fun s => congrArg f (h s)

/-- A check leaves everything as it was. -/
theorem check {c : Prop} [Decidable c] {e : ActError R} {rest : PUnit → Acting σ R α}
    (hrest : Keeps view (rest ⟨⟩)) :
    Keeps view (if c then Acting.refuse e >>= rest else rest ⟨⟩) := by
  split_ifs
  · exact fun _ => rfl
  · exact hrest

end Keeps

/-- **A computation that only looks** at a session, where it ends: it changes
nothing, what it finds is `good`, and where it finds nothing it is refused. -/
abbrev Looks (good : α → Prop) (s : Session σ) :
    EStateM.Result (Failure R) (Session σ) α → Prop :=
  Ends (fun a t => t = s ∧ good a) fun e t => e.IsError ∧ t = s

namespace Looks

variable {good : α → Prop} {s : Session σ}

/-- **What follows a look starts from the same session.** -/
theorem bind {x : Acting σ R α} {f : α → Acting σ R β} {last : β → Session σ → Prop}
    {bad : Failure R → Session σ → Prop} (h : Looks good s (x s))
    (hrefuse : ∀ e : Failure R, e.IsError → bad e s)
    (hf : ∀ a, good a → Ends last bad (f a s)) : Ends last bad ((x >>= f) s) := by
  refine Ends.bind (h.mono (fun _ _ => id) ?_) ?_
  · rintro e _ ⟨he, rfl⟩
    exact hrefuse e he
  · rintro a _ ⟨rfl, ha⟩
    exact hf a ha

/-- A loop of looks only looks. -/
theorem mapM {f : β → Acting σ R α} {bs : List β}
    (h : ∀ b ∈ bs, Looks (fun _ => True) s (f b s)) :
    Looks (fun as => as.length = bs.length) s (bs.mapM f s) := by
  induction bs with
  | nil => exact ⟨rfl, rfl⟩
  | cons b bs ih =>
    rw [List.mapM_cons]
    refine Looks.bind (h b (by simp)) (fun _ he => ⟨he, rfl⟩) fun a _ => ?_
    refine Looks.bind (ih fun c hc => h c (by simp [hc])) (fun _ he => ⟨he, rfl⟩) fun as has => ?_
    exact ⟨rfl, congrArg (· + 1) has⟩

/-- Looking keeps every part of the session. -/
theorem keeps {good : Session σ → α → Prop} {x : Acting σ R α} {view : Session σ → γ}
    (h : ∀ s, Looks (good s) s (x s)) : Keeps view x :=
  Keeps.iff_ends.mpr fun s => (h s).mono (fun _ _ h => congrArg view h.1)
    fun _ _ h => congrArg view h.2

end Looks

/-- Axes that pass are distinct. -/
theorem checkDistinct_ends (as : List Nat) (s : Session σ) :
    Looks (fun _ => as.Nodup) s ((checkDistinct as : Acting σ R Unit) s) := by
  unfold checkDistinct
  cases h : allDistinct as with
  | true => exact ⟨rfl, (allDistinct_iff as).mp h⟩
  | false => exact ⟨trivial, rfl⟩

end Acting

end Qudit
