import Qudit.Proofs.Acting.StateVector
import Qudit.Simulator

/-!
# The size of a matrix, when admitted and when applied

The matrix of a gate is measured twice: when a circuit is built, by its rows, and
when the gate acts on amplitudes, by its rows and columns. Both compare with the
number of basis states of the targets. So what is admitted is applied exactly when
the matrix is square, as it is for every named gate, and is otherwise refused for
its size (`act_admitted_gate`). The refusal then tells the same number twice, since
it is about the rows, which are right.
-/

namespace Qudit

open Radix Acting

variable {R : Type} [Scalar R]

/-- The matrix of a gate is square exactly when the one that it was given is. -/
theorem Gate.isSquare_qubitMatrix_iff {gate : Gate R} :
    gate.qubitMatrix.IsSquare ↔ gate.OwnMatrix Mat.IsSquare := by
  refine ⟨fun h => ?_, isSquare_qubitMatrix⟩
  cases gate with
  | custom matrix diagonal label => exact h
  | _ => trivial

/-- **A gate that fits is refused by its columns only.** -/
theorem StateVector.native_of_not_square {g : PlacedGate R} {s : Session (State (Amplitude R))}
    (h : g.Fits s.register.dims) (hsquare : ¬g.gate.OwnMatrix Mat.IsSquare)
    (haxes : s.axes = g.qubits) :
    native g s = .error (.error (.gateSize (total (restrict s.register.dims g.targets))
      (total (restrict s.register.dims g.targets)))) s := by
  have hcols : g.gate.qubitMatrix.cols ≠ total (restrict s.register.dims g.targets) :=
    fun hcols => hsquare (Gate.isSquare_qubitMatrix_iff.mp (h.rows_eq.trans hcols.symm))
  rw [native_of_sites haxes rfl rfl (haxes ▸ h.qubits_lt) (haxes ▸ h.nodup)]
  simp only [h.matrix_ok]
  rw [if_pos (.inr hcols), h.rows_eq]
  rfl

/-- **A gate that was admitted is applied exactly when its matrix is square.** Its
matrix has as many rows as its targets have basis states. If it has as many columns,
the gate is applied to every state of the register at its own qubits. If not, which
only a matrix of its own can come to, then the gate is refused for its size, the
state is as it was, and the refusal gives the expected number for the actual one. -/
theorem act_admitted_gate {dims : List Nat} {g : PlacedGate R}
    (hcheck : Circuit.check dims (.gate g) = .ok ()) {s : Session (State (Amplitude R))}
    (hdims : s.register.dims = dims) (haxes : s.axes = g.qubits) :
    g.gate.qubitMatrix.rows = total (restrict dims g.targets) ∧
      (g.gate.OwnMatrix Mat.IsSquare → ∃ state, state.dims = dims ∧
        act StateVector.representation (.gate g) s = .ok () { s with register := state }) ∧
      (¬g.gate.OwnMatrix Mat.IsSquare → act StateVector.representation (.gate g) s
        = .error (.error (.gateSize (total (restrict dims g.targets))
            (total (restrict dims g.targets)))) s) := by
  subst hdims
  obtain ⟨hfits⟩ := Circuit.check_eq_ok_iff.mp hcheck
  refine ⟨hfits.rows_eq, fun hsquare => ?_, fun hsquare => ?_⟩
  · obtain ⟨state, happly, hstate, -⟩ := StateVector.exists_apply hfits hsquare
    exact ⟨state, hstate, act_gate_of_applied (StateVector.native_ok hfits hsquare haxes happly)⟩
  · exact act_gate_of_failure (StateVector.native_of_not_square hfits hsquare haxes)

/-- A matrix with six rows and five columns on a qutrit and a qubit, beside a bit flip
of the qubit. -/
theorem act_admitted_gate_narrow :
    let narrow : PlacedGate Float := ⟨.ofMatrix ⟨6, 5, fun _ _ => 1⟩ "U", [0, 1], [], []⟩
    let flip : PlacedGate Float := .flip 1 [] []
    let s : Session (State (Amplitude Float)) := ⟨.atPosition [3, 2] 4, [], .empty, .ofWords #[]⟩
    Circuit.check [3, 2] (.gate narrow) = .ok () ∧ Circuit.check [3, 2] (.gate flip) = .ok () ∧
      ¬narrow.gate.OwnMatrix Mat.IsSquare ∧
      act StateVector.representation (.gate narrow) { s with axes := [0, 1] }
        = .error (.error (.gateSize 6 6)) { s with axes := [0, 1] } ∧
      ∃ state, state.dims = [3, 2] ∧
        act StateVector.representation (.gate flip) { s with axes := [1] }
          = .ok () { s with axes := [1], register := state } := by
  intro narrow flip s
  have hnarrow : Circuit.check [3, 2] (.gate narrow) = .ok () := rfl
  have hflip : Circuit.check [3, 2] (.gate flip) = .ok () := rfl
  have hsquare : ¬narrow.gate.OwnMatrix Mat.IsSquare := by
    show ¬(6 = 5)
    decide
  exact ⟨hnarrow, hflip, hsquare,
    (act_admitted_gate (s := { s with axes := [0, 1] }) hnarrow rfl rfl).2.2 hsquare,
    (act_admitted_gate (s := { s with axes := [1] }) hflip rfl rfl).2.1 trivial⟩

/-- **A circuit may be admitted and refused for the size of a matrix**: two rows are
right for a qubit, and three columns are not. -/
theorem admitted_gate_refused :
    let wide : Operation Float := .gate ⟨.ofMatrix ⟨2, 3, fun i j =>
      if i.val = j.val then 1 else 0⟩ "U", [0], [], []⟩
    Circuit.ofOperations [2] [wide] = .ok ⟨[2], [wide]⟩ ∧
      simulate ⟨[2], [wide]⟩ (.atPosition [2] 0) (.ofWords #[])
        = .error (.operation 0 (.gateSize 2 2)) (.ofWords #[]) :=
  ⟨rfl, rfl⟩

end Qudit
