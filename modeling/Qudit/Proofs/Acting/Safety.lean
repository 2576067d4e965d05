import Qudit.Proofs.Acting.OwnSteps
import Qudit.Proofs.Acting.Progress

/-!
# Acting meets no fault

Acting succeeds or is refused for a reason, and never meets a fault
(`act_never_faults`): no operation, however malformed, and no axes lead to a
position that does not exist, or to digits over a site of dimension zero. What
a gate has to come with is a configuration for each of its controls, and a
register of amplitudes has sites of positive dimension.

The two steps of a representation check what they rely on, whatever they are
given; as they leave the dimensions of the register alone, this goes on
through the tree.
-/

namespace Qudit

open Acting

variable {σ R α : Type}

/-- The parts of an exchange come with as many configurations as controls if
the exchange does. -/
theorem PlacedGate.length_configs_parts {g f : PlacedGate R} {flips : List (PlacedGate R)}
    (hconfigs : g.configs.length = g.controls.length) (hparts : g.parts = some flips)
    (hf : f ∈ flips) : f.configs.length = f.controls.length := by
  obtain ⟨-, a, b, -, rfl | rfl⟩ := eq_flip_of_mem_parts hparts hf
  · rfl
  · simp [flip, hconfigs]

/-- **The steps on amplitudes meet no fault**, and leave the dimensions of the
sites as they are. -/
theorem StateVector.preserves_dims [Scalar R] {dims : List Nat} (hpos : ∀ d ∈ dims, 0 < d) :
    (representation : Representation (State (Amplitude R)) R).Preserves
      (fun g => g.configs.length = g.controls.length) (fun _ s => s.register.dims = dims)
      Failure.IsError where
  setAxes _ h := h
  refuse _ h := h
  parts hg hparts _ hf := PlacedGate.length_configs_parts hg hparts hf
  native := by
    rintro _ s g hconfigs rfl
    refine (native_ends hconfigs).mono ?_ ?_
    · rintro _ _ ⟨-, controls, targets, matrix, state, -, -, -, -, -, -, -, hdims, rfl⟩
      exact hdims
    · rintro e _ ⟨he, rfl⟩
      exact ⟨he, rfl⟩
  measure := by
    rintro _ s m - rfl
    refine (measureInto_ends hpos m.key m.mask).mono ?_ ?_
    · rintro _ _ ⟨-, -, -, -, bits, -, rfl⟩
      exact State.dims_collapsed _ _ _
    · rintro e _ ⟨he, rfl⟩
      exact ⟨he, rfl⟩

/-- **The steps on values meet no fault.** -/
theorem BasisState.preserves_values :
    (representation : Representation (List Nat) R).Preserves (fun _ => True) (fun _ _ => True)
      Failure.IsError where
  setAxes _ h := h
  refuse _ h := h
  parts _ _ _ _ := trivial
  native := fun _ _ => (native_ends _ _).mono (fun _ _ _ => trivial) fun _ _ h => ⟨h.1, trivial⟩
  measure := fun m _ _ =>
    (measureInto_ends m.key m.mask _).mono (fun _ _ _ => trivial) fun _ _ h => ⟨h.1, trivial⟩

/-- **Acting succeeds or is refused.** -/
def NeverFaults (r : EStateM.Result (Failure R) (Session σ) Unit) : Prop :=
  (∃ t, r = .ok () t) ∨ ∃ e t, r = .error (.error e) t

theorem neverFaults_of_preserves {rep : Representation σ R} {admits : PlacedGate R → Prop}
    {inv : List PlacedMeasurement → Session σ → Prop}
    (hrep : rep.Preserves admits inv Failure.IsError) {op : Operation R}
    (hop : ∀ g, .gate g ∈ op.leaves → admits g) {s : Session σ} (hs : inv [] s) :
    NeverFaults (act rep op s) := by
  have hact := hrep.act hop hs
  cases hr : act rep op s with
  | ok u t => exact .inl ⟨t, rfl⟩
  | error e t =>
    rw [hr] at hact
    cases e with
    | error e => exact .inr ⟨e, t, rfl⟩
    | fault f => exact hact.1.elim

/-- **Acting never meets a fault**, whatever the operation, the axes and the log,
if its gates have as many configurations as controls: neither on amplitudes,
over sites of positive dimension, nor on values. -/
theorem act_never_faults (R : Type) [Scalar R] (op : Operation R)
    (hconfigs : ∀ g, .gate g ∈ op.leaves → g.configs.length = g.controls.length) :
    (∀ s : Session (State (Amplitude R)), (∀ d ∈ s.register.dims, 0 < d) →
      NeverFaults (act StateVector.representation op s)) ∧
    ∀ s : Session (List Nat), NeverFaults (act BasisState.representation op s) :=
  ⟨fun _ hpos => neverFaults_of_preserves (StateVector.preserves_dims hpos) hconfigs rfl,
    fun _ => neverFaults_of_preserves BasisState.preserves_values (fun _ _ => trivial) trivial⟩

/-- A composite with a bit flip of one qubit twice, which is refused once the
exchange before it is done. -/
theorem act_never_faults_malformed :
    let op : Operation Float := .composite "malformed" [4, 9] [.gate ⟨.swap, [4, 9], [], []⟩,
      .gate ⟨.x, [4, 4], [9], [true]⟩, .measure (.plain "m" [5])]
    let s : Session (State (Amplitude Float)) :=
      ⟨.atPosition [2, 3] 2, [1, 0], .empty, .ofWords #[]⟩
    (∀ g, .gate g ∈ op.leaves → g.configs.length = g.controls.length) ∧
      (∀ d ∈ s.register.dims, 0 < d) ∧
      NeverFaults (act StateVector.representation op s) ∧
      act BasisState.representation op ⟨[1, 0], [1, 0], .empty, .ofWords #[]⟩
        = .error (.error (.duplicateAxes [0, 1, 1])) ⟨[0, 1], [1, 0], .empty, .ofWords #[]⟩ := by
  intro op s
  have hconfigs : ∀ g, .gate g ∈ op.leaves → g.configs.length = g.controls.length := by
    intro g hg
    simp only [op, Operation.leaves, Operation.leavesOfList, List.singleton_append, List.mem_cons,
      Operation.gate.injEq, reduceCtorEq, List.not_mem_nil, or_false] at hg
    obtain rfl | rfl := hg <;> rfl
  have hpos : ∀ d ∈ s.register.dims, 0 < d := by
    show ∀ d ∈ [2, 3], 0 < d
    decide
  exact ⟨hconfigs, hpos, (act_never_faults Float op hconfigs).1 s hpos, rfl⟩

end Qudit
