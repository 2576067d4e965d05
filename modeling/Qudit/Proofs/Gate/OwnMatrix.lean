import Qudit.Proofs.Operation.Leaves

/-!
# Custom matrices

A named gate has the matrix that its name says; what a custom gate has is up
to whoever built it. `Gate.OwnMatrix` is a condition on the matrix of a
custom gate, and `Operation.OwnMatrices` the condition on all those of a
sequence of operations. The one that acting relies on is that they are
square.
-/

namespace Qudit

variable {R : Type}

/-- A matrix with as many columns as rows. -/
def Mat.IsSquare {α : Type} (m : Mat α) : Prop := m.rows = m.cols

namespace Gate

/-- What is asked of a gate that has a matrix of its own. Nothing is asked
of a named gate. -/
def OwnMatrix (P : Mat (Amplitude R) → Prop) : Gate R → Prop
  | custom matrix _ _ => P matrix
  | _ => True

theorem OwnMatrix.mono {P Q : Mat (Amplitude R) → Prop} (h : ∀ m, P m → Q m) {gate : Gate R}
    (hgate : gate.OwnMatrix P) : gate.OwnMatrix Q := by
  cases gate with
  | custom matrix diagonal label => exact h matrix hgate
  | _ => trivial

variable [Scalar R]

/-- A gate has one matrix, over the dimensions over which it has any. -/
theorem matrix_eq_ok_iff {gate : Gate R} {d : Nat} {m : Mat (Amplitude R)} :
    gate.matrix d = .ok m ↔ (gate.isNamed = true → d = 2) ∧ gate.qubitMatrix = m := by
  unfold matrix
  split_ifs with h
  · rw [Bool.and_eq_true, bne_iff_ne] at h
    exact ⟨fun h' => (by cases h'), fun h' => absurd (h'.1 h.1) h.2⟩
  · rw [Bool.and_eq_true, bne_iff_ne, not_and, not_not] at h
    exact ⟨fun h' => ⟨h, Except.ok.inj h'⟩, fun h' => congrArg Except.ok h'.2⟩

/-- The matrix of a named gate is square. -/
theorem isSquare_qubitMatrix {gate : Gate R} (h : gate.OwnMatrix Mat.IsSquare) :
    gate.qubitMatrix.IsSquare := by
  cases gate with
  | custom matrix diagonal label => exact h
  | _ => rfl

@[simp] theorem isNamed_dagger (gate : Gate R) : gate.dagger.isNamed = gate.isNamed := by
  cases gate <;> rfl

/-- The adjoint matrix has as many rows as the matrix has columns. -/
theorem rows_qubitMatrix_dagger (gate : Gate R) :
    gate.dagger.qubitMatrix.rows = gate.qubitMatrix.cols := by
  cases gate <;> rfl

/-- The adjoint matrix has as many columns as the matrix has rows. -/
theorem cols_qubitMatrix_dagger (gate : Gate R) :
    gate.dagger.qubitMatrix.cols = gate.qubitMatrix.rows := by
  cases gate <;> rfl

/-- The adjoint of a square custom matrix is square. -/
theorem OwnMatrix.isSquare_dagger {gate : Gate R} (h : gate.OwnMatrix Mat.IsSquare) :
    gate.dagger.OwnMatrix Mat.IsSquare := by
  cases gate with
  | custom matrix diagonal label => exact h.symm
  | _ => trivial

end Gate

/-- **What is asked of all the custom matrices of a sequence of
operations**, however deep they are nested. -/
def Operation.OwnMatrices (P : Mat (Amplitude R) → Prop) (ops : List (Operation R)) : Prop :=
  ∀ g, Operation.gate g ∈ Operation.leavesOfList ops → g.gate.OwnMatrix P

end Qudit
