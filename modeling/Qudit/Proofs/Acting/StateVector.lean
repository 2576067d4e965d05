import Qudit.Acting.StateVector
import Qudit.Proofs.Acting.Sequence
import Qudit.Proofs.Circuit.Fits
import Qudit.Proofs.Gate.OwnMatrix
import Qudit.Proofs.State.Measurement

/-!
# Acting on states with operations that fit

An operation that fits the register of a state, acting at its own qubits,
passes every check of the state-vector representation: measuring gets as far
as `State.measured` (`perform_ok`), and a placed gate as far as
`State.apply` with the matrix of the gate at its own targets and controls
(`native_ok`). The one thing that fitting does not give is that a custom
matrix has as many columns as rows.
-/

namespace Qudit

open Radix Kernel Acting

variable {R : Type} [Scalar R]

namespace PlacedGate.Fits

variable {dims : List Nat} {g : PlacedGate R}

/-- The sites of a gate that fits are a placement. -/
theorem placement (h : g.Fits dims) : Placement dims g.targets g.controls g.configs :=
  ⟨h.targets_lt, h.controls_lt, h.nodup, h.length_configs⟩

/-- The gate has a matrix over its first target. -/
theorem matrix_ok (h : g.Fits dims) :
    g.gate.matrix ((restrict dims g.targets).headD 2) = .ok g.gate.qubitMatrix := by
  refine Gate.matrix_eq_ok_iff.mpr ⟨fun hnamed => ?_, rfl⟩
  cases htargets : g.targets with
  | nil => exact absurd htargets h.targets_ne_nil
  | cons t ts => exact h.targets_two hnamed t (by simp [htargets])

end PlacedGate.Fits

namespace StateVector

variable {s : Session (State (Amplitude R))}

omit [Scalar R] in
theorem checkedAxes_ok (hlt : ∀ a ∈ s.axes, a < s.register.dims.length) (hnodup : s.axes.Nodup) :
    checkedAxes s = .ok s.axes s := by
  have hfind : s.axes.find? (fun axis => Nat.ble s.register.numSites axis) = none := by
    refine List.find?_eq_none.mpr fun a ha => ?_
    rw [Nat.ble_eq, Nat.not_le]
    exact hlt a ha
  unfold checkedAxes
  rw [EStateM.bind_ok (get_apply s)]
  simp only [hfind]
  rw [EStateM.bind_ok (checkDistinct_ok hnodup s)]
  rfl

omit [Scalar R] in
theorem onState_ok {α : Type} {run : OnState (Amplitude R) α} {a : α} {t : State (Amplitude R)}
    (h : run s.register = .ok a t) : onState run s = .ok a { s with register := t } := by
  unfold onState
  rw [h]

/-- **Measuring distinct axes that exist never fails.** -/
theorem perform_ok (hlt : ∀ a ∈ s.axes, a < s.register.dims.length) (hnodup : s.axes.Nodup)
    (hpos : ∀ d ∈ s.register.dims, 0 < d) :
    perform s = .ok (s.register.measured s.axes s.source.nextUnit.1)
      { s with
        register := s.register.collapsed s.axes (s.register.measured s.axes s.source.nextUnit.1)
        source := s.source.next.2 } := by
  unfold perform
  rw [EStateM.bind_ok (checkedAxes_ok hlt hnodup), onStateAndSource,
    State.measure_ok s.register hlt hpos s.source]

/-- What applying a gate comes to when the axes are sites of the state, each
once: the matrix has to be of the size of the target sites, and is then
applied. -/
theorem native_of_sites {g : PlacedGate R} {controls targets : List Nat}
    (haxes : s.axes = controls ++ targets) (hcontrols : controls.length = g.controls.length)
    (htargets : targets.length = g.targets.length)
    (hlt : ∀ a ∈ s.axes, a < s.register.dims.length) (hnodup : s.axes.Nodup) :
    native g s = (
      let dims := restrict s.register.dims targets
      match g.gate.matrix (dims.headD 2) with
      | .error e => refuse (.gate e)
      | .ok matrix => do
        if matrix.rows ≠ total dims ∨ matrix.cols ≠ total dims then
          refuse (.gateSize (total dims) matrix.rows)
        onState (State.apply matrix targets controls g.configs)
        return .applied : Vectorial R Outcome) s := by
  have hlen : s.axes.length = g.controls.length + g.targets.length := by
    rw [haxes, List.length_append, hcontrols, htargets]
  have hsplit : splitAfter g.controls.length s.axes = .ok (controls, targets) := by
    rw [splitAfter_of_le (by omega), haxes, ← hcontrols, List.take_left, List.drop_left]
  have hdims : targets.mapM (entryAt s.register.dims) = .ok (restrict s.register.dims targets) :=
    mapM_entryAt fun t ht => hlt t (haxes ▸ List.mem_append_right _ ht)
  unfold native
  rw [EStateM.bind_ok (checkedAxes_ok hlt hnodup), if_neg (not_not_intro hlen)]
  refine (EStateM.bind_ok (orFault_ok hsplit s)).trans ?_
  refine (EStateM.bind_ok (get_apply s)).trans ?_
  exact EStateM.bind_ok (orFault_ok hdims s)

/-- **A gate whose matrix is of the size of the target sites is applied.** -/
theorem native_of_matrix {g : PlacedGate R} {controls targets : List Nat}
    (haxes : s.axes = controls ++ targets) (hcontrols : controls.length = g.controls.length)
    (htargets : targets.length = g.targets.length)
    (hlt : ∀ a ∈ s.axes, a < s.register.dims.length) (hnodup : s.axes.Nodup)
    {matrix : Mat (Amplitude R)}
    (hmatrix : g.gate.matrix ((restrict s.register.dims targets).headD 2) = .ok matrix)
    (hrows : matrix.rows = total (restrict s.register.dims targets))
    (hcols : matrix.cols = total (restrict s.register.dims targets)) {t : State (Amplitude R)}
    (happly : State.apply matrix targets controls g.configs s.register = .ok () t) :
    native g s = .ok .applied { s with register := t } := by
  rw [native_of_sites haxes hcontrols htargets hlt hnodup]
  simp only [hmatrix]
  rw [if_neg (not_or.mpr ⟨not_not_intro hrows, not_not_intro hcols⟩)]
  exact EStateM.bind_ok (onState_ok happly)

/-- **A gate that fits is applied by its matrix**, at its own qubits. -/
theorem native_ok {g : PlacedGate R} (h : g.Fits s.register.dims)
    (hsquare : g.gate.OwnMatrix Mat.IsSquare) (haxes : s.axes = g.qubits)
    {t : State (Amplitude R)}
    (happly : State.apply g.gate.qubitMatrix g.targets g.controls g.configs s.register
      = .ok () t) :
    native g s = .ok .applied { s with register := t } :=
  native_of_matrix haxes rfl rfl (haxes ▸ h.qubits_lt) (haxes ▸ h.nodup) h.matrix_ok h.rows_eq
    ((Gate.isSquare_qubitMatrix hsquare).symm.trans h.rows_eq) happly

/-- A gate that fits can be applied to every state. -/
theorem exists_apply {g : PlacedGate R} {state : State (Amplitude R)} (h : g.Fits state.dims)
    (hsquare : g.gate.OwnMatrix Mat.IsSquare) :
    ∃ t, State.apply g.gate.qubitMatrix g.targets g.controls g.configs state = .ok () t ∧
      t.dims = state.dims ∧
      ∀ i < total state.dims, t.amp i = if Holds state.dims g.controls g.configs i
        then localImage g.gate.qubitMatrix
          ((List.range (total (restrict state.dims g.targets))).map fun k =>
            state.amp (moved state.dims g.targets i (digits k (restrict state.dims g.targets))))
          (slot state.dims g.targets i)
        else state.amp i :=
  State.apply_ok h.placement h.rows_eq
    ((Gate.isSquare_qubitMatrix hsquare).symm.trans h.rows_eq)

end StateVector

end Qudit
