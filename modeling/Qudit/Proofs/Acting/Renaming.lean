import Qudit.Acting.BasisState
import Qudit.Proofs.Acting.Parallel

/-!
# Acting does not depend on names

Which sites an operation acts on is settled by the axes of the session. The names of
its qubits only tell which of them are the same, and so another choice of distinct
names makes no difference (`act_rename`): acting succeeds or fails as before, and
leaves the same session. This is so at every depth and for every tree, also for one
that no circuit admits. A failure may name an operation or a qubit, and then names it
by its new name.

The two runs start from one session and stay in one, so that the relation of
`Representation.Parallels` is equality here. What is left to show of a representation
is that its steps do not look at names (`parallels_rename`).
-/

namespace Qudit

open Acting Operation

variable {σ R α β : Type}

/-- **A computation that names no operation**, so that another choice of names leaves
it as it is, with its failures. -/
def Nameless (ρ : Relabelling) (run : Acting σ R α) : Prop :=
  ∀ s, Parallel ρ Eq Eq (run s) (run s)

namespace Nameless

variable {ρ : Relabelling}

theorem pure (a : α) : Nameless ρ (pure a : Acting σ R α) := fun _ => ⟨rfl, rfl⟩

theorem bind {x : Acting σ R α} {f : α → Acting σ R β} (hx : Nameless ρ x)
    (hf : ∀ a, Nameless ρ (f a)) : Nameless ρ (x >>= f) := by
  intro s
  refine (hx s).bind ?_
  rintro a s' _ rfl
  exact hf a s'

theorem forM {f : β → Acting σ R PUnit} (hf : ∀ b, Nameless ρ (f b)) (bs : List β) :
    Nameless ρ (bs.forM f) := by
  induction bs with
  | nil => exact .pure _
  | cons b bs ih => exact (hf b).bind fun _ => ih

theorem mapM {f : β → Acting σ R α} (hf : ∀ b, Nameless ρ (f b)) (bs : List β) :
    Nameless ρ (bs.mapM f) := by
  induction bs with
  | nil => exact .pure _
  | cons b bs ih =>
    rw [List.mapM_cons]
    exact (hf b).bind fun _ => ih.bind fun _ => .pure _

end Nameless

/-- **Renaming makes no difference to a representation** if measuring names no
operation and gates are applied by their axes. -/
theorem Representation.parallels_rename {rep : Representation σ R} {f : Nat ↪ Nat}
    (hperform : Nameless (.rename f) rep.perform)
    (hnative : ∀ g s, Parallel (.rename f) Eq Eq (rep.native g s)
      (rep.native (g.relabel (.rename f)) s)) :
    rep.Parallels (.rename f) (fun _ => Eq) Eq where
  axes_eq h := congrArg Session.axes h
  setAxes _ h := h ▸ rfl
  setAxes_bad _ h := h ▸ rfl
  stop h := h
  native := by
    rintro todo s _ g rfl
    exact hnative g s
  measure := by
    rintro todo s _ m - rfl
    refine measureInto_parallel rfl Iff.rfl rfl rfl (hperform s) (fun _ _ => id) ?_
    rintro s' _ bits - - - rfl
    rfl

/-! ## Amplitudes -/

theorem StateVector.parallels_rename [Scalar R] (f : Nat ↪ Nat) :
    (representation : Representation (State (Amplitude R)) R).Parallels (.rename f)
      (fun _ => Eq) Eq := by
  refine Representation.parallels_rename (fun s => ?_) fun g s => ?_
  · refine (perform_parallel (s := s) (t := s) rfl rfl rfl).mono ?_ ?_
    · rintro _ _ ⟨register, rfl, rfl⟩
      rfl
    · rintro _ _ ⟨advance, register, rfl, rfl⟩
      rfl
  · refine (native_parallel (s := s) (t := s) g rfl rfl).mono ?_ ?_ <;>
      rintro _ _ ⟨register, rfl, rfl⟩ <;> rfl

/-! ## Values -/

namespace BasisState

variable {ρ : Relabelling}

theorem nameless_valueAt (axis : Nat) : Nameless ρ (valueAt axis : Valued R Nat) := by
  intro s
  unfold valueAt
  rw [EStateM.bind_ok (get_apply s)]
  cases s.register[axis]? with
  | some value => exact ⟨rfl, rfl⟩
  | none => exact ⟨rfl, rfl⟩

theorem nameless_flipAt (axis : Nat) : Nameless ρ (flipAt axis : Valued R Unit) := by
  intro s
  unfold flipAt
  rw [EStateM.bind_ok (get_apply s)]
  split_ifs <;> exact ⟨rfl, rfl⟩

theorem nameless_triggered (controls : List (Nat × Bool)) :
    Nameless ρ (triggered controls : Valued R Bool) := by
  induction controls with
  | nil => exact .pure _
  | cons c cs ih => exact (nameless_valueAt c.1).bind fun _ => ih.bind fun _ => .pure _

theorem nameless_holdQubits (axes : List Nat) :
    Nameless ρ (holdQubits axes : Valued R Bool) := by
  induction axes with
  | nil => exact .pure _
  | cons a as ih =>
    refine (nameless_valueAt a).bind fun value => ?_
    split_ifs
    · exact .pure _
    · exact ih

theorem nameless_perform : Nameless ρ (perform : Valued R (List Nat)) :=
  .bind (fun _ => ⟨rfl, rfl⟩) fun as => .mapM nameless_valueAt as

/-- **A gate and its relabelling change the same values.** -/
theorem native_parallel (g : PlacedGate R) (s : Session (List Nat)) :
    Parallel ρ Eq Eq (native g s) (native (g.relabel ρ) s) := by
  unfold native
  rw [g.length_controls_relabel, g.length_targets_relabel, g.gate_relabel, g.configs_relabel]
  by_cases hdeclined : (!isFlip g.gate && !g.gate.isDiagonal) = true
  · rw [if_pos hdeclined, if_pos hdeclined]
    exact ⟨rfl, rfl⟩
  rw [if_neg hdeclined, if_neg hdeclined, EStateM.bind_ok (axes_apply s),
    EStateM.bind_ok (axes_apply s)]
  refine .check rfl rfl fun _ => (Parallel.checkDistinct rfl rfl s.axes).bind ?_
  rintro _ s _ rfl
  refine (Parallel.orFault rfl rfl _).bind ?_
  -- from here on the two runs are one computation, in which nothing is named
  rintro ⟨controls, targets⟩ s _ rfl
  refine Nameless.bind (nameless_triggered _) (fun fires => ?_) s
  have hflips : Nameless ρ (do
      if fires && isFlip g.gate then targets.forM flipAt
      return .applied : Valued R Outcome) := by
    dsimp only
    split_ifs
    · exact (Nameless.forM nameless_flipAt targets).bind fun _ => .pure _
    · exact .pure _
  by_cases hnamed : g.gate.isNamed = true
  · rw [if_pos hnamed]
    refine (nameless_holdQubits targets).bind fun holds => ?_
    cases holds with
    | false => exact .pure _
    | true => exact hflips
  · rw [if_neg hnamed]
    exact hflips

theorem parallels_rename (f : Nat ↪ Nat) :
    (representation : Representation (List Nat) R).Parallels (.rename f) (fun _ => Eq) Eq :=
  Representation.parallels_rename nameless_perform native_parallel

end BasisState

/-! ## Whole operations -/

/-- **How acting with a renamed operation ends**, where it is known how acting with the
operation does. -/
def Acting.renamed (f : Nat ↪ Nat) :
    EStateM.Result (Failure R) (Session σ) α → EStateM.Result (Failure R) (Session σ) α
  | .ok a s => .ok a s
  | .error e s => .error (e.relabel (.rename f)) s

/-- What is parallel in one session is the same, up to names. -/
theorem Acting.Parallel.eq_renamed {f : Nat ↪ Nat}
    {r r' : EStateM.Result (Failure R) (Session σ) α} (h : Parallel (.rename f) Eq Eq r r') :
    r' = renamed f r := by
  cases r with
  | ok a s =>
    obtain ⟨t, rfl, rfl⟩ := h.exists_ok
    rfl
  | error e s =>
    obtain ⟨t, rfl, rfl⟩ := h.exists_error
    rfl

/-- **Acting depends on axes and not on names.** Where all the qubits of an operation
are renamed, at every depth and distinct ones apart, acting with it from the same
session ends the same: it succeeds as before, or fails for the same reason with the
new names in it, and leaves the same register, axes, log and source. This is so for
every operation, on amplitudes and on values. -/
theorem act_rename [Scalar R] (f : Nat ↪ Nat) (op : Operation R) :
    (∀ s : Session (State (Amplitude R)),
      act StateVector.representation (op.relabel (.rename f)) s
        = renamed f (act StateVector.representation op s)) ∧
    ∀ s : Session (List Nat),
      act BasisState.representation (op.relabel (.rename f)) s
        = renamed f (act BasisState.representation op s) :=
  ⟨fun _ => ((StateVector.parallels_rename f).act [] rfl).eq_renamed,
    fun _ => ((BasisState.parallels_rename f).act [] rfl).eq_renamed⟩

/-- A composite that declares a qubit twice and then uses one that it does not declare:
its first part is recorded at the later axis, and its second part is refused. -/
example :
    let op : Operation Float := .composite "pair" [7, 7]
      [.measure (.plain "a" [7]), .measure (.plain "b" [8])]
    let s : Session (List Nat) := ⟨[2, 3], [0, 1], .empty, .ofWords #[]⟩
    let t : Session (List Nat) := { s with log := ⟨[("a", [3])]⟩ }
    act BasisState.representation op s
        = .error (.error (.unmappedQubit (.measure (.plain "b" [8])) 8)) t ∧
      act BasisState.representation (op.relabel (.rename ⟨Nat.succ, fun _ _ => Nat.succ.inj⟩)) s
        = .error (.error (.unmappedQubit (.measure (.plain "b" [9])) 9)) t :=
  ⟨rfl, rfl⟩

end Qudit
