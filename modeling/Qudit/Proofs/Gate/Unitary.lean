import Mathlib.Tactic.FinCases
import Qudit.Proofs.Gate.OwnMatrix
import Qudit.Proofs.Exact.Operator

/-!
# Unitary matrices and adjoint gates

A matrix is **unitary** when it is square and its adjoint is a left inverse;
without being square it is an **isometry**.
Over the real numbers the matrix of every named gate is unitary
(`Gate.isUnitary_qubitMatrix`), and `Gate.dagger` gives the gate of the
adjoint matrix whatever constructor it ends in
(`Gate.qubitMatrix_dagger`): the phase that stands for the adjoint of `s` has
the conjugate of the imaginary unit on its diagonal.
-/

namespace Qudit

namespace Mat

variable {α β : Type}

@[simp] theorem transposeMap_square (f : α → α) (a b c d : α) :
    (square a b c d).transposeMap f = square (f a) (f c) (f b) (f d) := by
  unfold transposeMap
  rw [square, square]
  congr 1
  funext i j
  split_ifs with hi hj hj <;> simp [hi, hj]

theorem coeff_transposeMap [Zero α] {f : α → α} (hf : f 0 = 0) (m : Mat α) (i j : Nat) :
    (m.transposeMap f).coeff i j = f (m.coeff j i) := by
  rw [coeff, coeff]
  by_cases h : j < m.rows ∧ i < m.cols
  · have h' : i < (m.transposeMap f).rows ∧ j < (m.transposeMap f).cols := h.symm
    rw [dif_pos h, dif_pos h']
    rfl
  · have h' : ¬(i < (m.transposeMap f).rows ∧ j < (m.transposeMap f).cols) := mt And.symm h
    rw [dif_neg h, dif_neg h', hf]

theorem coeff_entry [Zero α] (m : Mat α) (i : Fin m.rows) (j : Fin m.cols) :
    m.coeff i j = m.entry i j :=
  dif_pos ⟨i.isLt, j.isLt⟩

/-- **A unitary matrix**: a square one whose columns are orthonormal. -/
structure IsUnitary (m : Mat (Amplitude ℝ)) : Prop where
  /-- There are as many columns as rows. -/
  square : m.IsSquare
  /-- The product of the adjoint with the matrix is the identity. -/
  adjoint_mul : ∀ j k : Fin m.cols,
    ∑ i, (m.entry i j).conj * m.entry i k = if j = k then 1 else 0

/-- **A matrix with orthonormal columns.** It need not be square. -/
def IsIsometry (m : Mat (Amplitude ℝ)) : Prop :=
  ∀ j k : Fin m.cols, ∑ i, (m.entry i j).conj * m.entry i k = if j = k then 1 else 0

variable {m : Mat (Amplitude ℝ)}

theorem IsUnitary.isIsometry (h : m.IsUnitary) : m.IsIsometry := h.adjoint_mul

/-- The columns are orthonormal, read at positions. -/
theorem IsIsometry.sum_coeff (h : m.IsIsometry) {j k : Nat} (hj : j < m.cols) (hk : k < m.cols) :
    ∑ i ∈ Finset.range m.rows, (m.coeff i j).conj * m.coeff i k = if j = k then 1 else 0 := by
  have hcols := h ⟨j, hj⟩ ⟨k, hk⟩
  simp only [Fin.mk.injEq] at hcols
  rw [← hcols, Finset.sum_range]
  refine Finset.sum_congr rfl fun i _ => ?_
  rw [← m.coeff_entry, ← m.coeff_entry]

/-- A two by two matrix is unitary when its columns are orthonormal. -/
theorem isUnitary_square {a b c d : Amplitude ℝ} (hleft : a.conj * a + c.conj * c = 1)
    (hright : b.conj * b + d.conj * d = 1) (horth : a.conj * b + c.conj * d = 0)
    (horth' : b.conj * a + d.conj * c = 0) : (Mat.square a b c d).IsUnitary := by
  refine ⟨rfl, fun j k => ?_⟩
  show ∑ i : Fin 2, _ = _
  rw [Fin.sum_univ_two]
  obtain rfl | rfl : j = (0 : Fin 2) ∨ j = (1 : Fin 2) := Fin.exists_fin_two.mp ⟨j, rfl⟩
  · obtain rfl | rfl : k = (0 : Fin 2) ∨ k = (1 : Fin 2) := Fin.exists_fin_two.mp ⟨k, rfl⟩
    · exact hleft
    · exact horth
  · obtain rfl | rfl : k = (0 : Fin 2) ∨ k = (1 : Fin 2) := Fin.exists_fin_two.mp ⟨k, rfl⟩
    · exact horth'
    · exact hright

end Mat

namespace Scalar

theorem cos_mul_self_add_sin_mul_self (θ : ℝ) :
    Scalar.cos θ * Scalar.cos θ + Scalar.sin θ * Scalar.sin θ = 1 := by
  show Real.cos θ * Real.cos θ + Real.sin θ * Real.sin θ = 1
  rw [← sq, ← sq, Real.cos_sq_add_sin_sq]

/-- The two amplitudes of an even superposition. -/
theorem sqrtHalf_mul_self_add : (sqrtHalf : ℝ) * sqrtHalf + sqrtHalf * sqrtHalf = 1 := by
  have hhalf : (sqrtHalf : ℝ) * sqrtHalf = 1 / 2 := by
    show Real.sqrt (1 / ((2 : Nat) : ℝ)) * Real.sqrt (1 / ((2 : Nat) : ℝ)) = 1 / 2
    rw [Nat.cast_ofNat, Real.mul_self_sqrt (by norm_num)]
  rw [hhalf]
  norm_num

end Scalar

namespace Amplitude

@[simp] theorem conj_zero : (0 : Amplitude ℝ).conj = 0 := by
  ext <;> simp

@[simp] theorem conj_one : (1 : Amplitude ℝ).conj = 1 := by
  ext <;> simp

@[simp] theorem conj_neg (z : Amplitude ℝ) : (-z).conj = -z.conj := by
  ext <;> simp

@[simp] theorem conj_i : (i : Amplitude ℝ).conj = -i := by
  ext <;> simp

@[simp] theorem conj_ofReal (x : ℝ) : (ofReal x).conj = ofReal x := by
  ext <;> simp

theorem conj_ofAngle (θ : ℝ) : (ofAngle θ).conj = ofAngle (-θ) := by
  ext
  · exact (Real.cos_neg θ).symm
  · exact (Real.sin_neg θ).symm

theorem ofAngle_quarter : ofAngle (Gate.quarterTurn : ℝ) = i := by
  ext
  · show Real.cos (Real.pi / ((2 : Nat) : ℝ)) = 0
    rw [Nat.cast_ofNat, Real.cos_pi_div_two]
  · show Real.sin (Real.pi / ((2 : Nat) : ℝ)) = 1
    rw [Nat.cast_ofNat, Real.sin_pi_div_two]

/-- An amplitude at an angle has modulus one. -/
theorem conj_ofAngle_mul_ofAngle (θ : ℝ) : (ofAngle θ).conj * ofAngle θ = 1 := by
  rw [conj_mul_self]
  exact congrArg ofReal (Scalar.cos_mul_self_add_sin_mul_self θ)

end Amplitude

namespace Gate

@[simp] theorem transposeMap_swapMatrix :
    (swapMatrix : Mat (Amplitude ℝ)).transposeMap Amplitude.conj = swapMatrix := by
  rw [Mat.transposeMap, swapMatrix]
  congr 1
  funext i j
  have hi : i.val < 4 := i.isLt
  have hj : j.val < 4 := j.isLt
  have hsymm : i.val = j.val % 2 * 2 + j.val / 2 ↔ j.val = i.val % 2 * 2 + i.val / 2 := by omega
  show (if i.val = _ then (1 : Amplitude ℝ) else 0).conj = _
  rw [apply_ite Amplitude.conj, Amplitude.conj_one, Amplitude.conj_zero]
  exact ite_congr (propext hsymm) (fun _ => rfl) fun _ => rfl

/-- **The matrix of the adjoint gate is the adjoint matrix.** -/
theorem qubitMatrix_dagger (gate : Gate ℝ) :
    gate.dagger.qubitMatrix = gate.qubitMatrix.transposeMap Amplitude.conj := by
  cases gate with
  | x | y | z | h => simp [dagger, qubitMatrix, diagonalMatrix]
  | swap => exact transposeMap_swapMatrix.symm
  | s =>
    -- the adjoint is a phase by a quarter turn backwards
    simp only [dagger, qubitMatrix, diagonalMatrix, Mat.transposeMap_square]
    rw [← Amplitude.conj_ofAngle, Amplitude.ofAngle_quarter]
    simp
  | t | phase θ | rz θ =>
    simp [dagger, qubitMatrix, diagonalMatrix, Amplitude.conj_ofAngle, neg_div]
  | rx θ | ry θ =>
    simp only [dagger, qubitMatrix, Mat.transposeMap_square]
    congr 1 <;> ext <;> simp [Scalar.cos, Scalar.sin, neg_div]
  | custom matrix diagonal label => rfl

theorem OwnMatrix.isSquare {gate : Gate ℝ} (h : gate.OwnMatrix Mat.IsUnitary) :
    gate.OwnMatrix Mat.IsSquare :=
  h.mono fun _ h => h.square

/-- **The matrix of every gate is unitary**, if the custom ones are. -/
theorem isUnitary_qubitMatrix {gate : Gate ℝ} (h : gate.OwnMatrix Mat.IsUnitary) :
    gate.qubitMatrix.IsUnitary := by
  cases gate with
  | custom matrix diagonal label => exact h
  | swap =>
    refine ⟨rfl, ?_⟩
    show ∀ j k : Fin 4, ∑ i : Fin 4, _ = _
    intro j k
    rw [Fin.sum_univ_four]
    fin_cases j <;> fin_cases k <;> simp [qubitMatrix, swapMatrix]
  | h =>
    have hhalf := Scalar.sqrtHalf_mul_self_add
    refine Mat.isUnitary_square ?_ ?_ ?_ ?_ <;> ext <;> simp [hhalf]
  | x | y | z | s =>
    refine Mat.isUnitary_square ?_ ?_ ?_ ?_ <;> ext <;> simp
  | t | phase θ | rz θ =>
    refine Mat.isUnitary_square ?_ ?_ ?_ ?_ <;> simp [Amplitude.conj_ofAngle_mul_ofAngle]
  | rx θ | ry θ =>
    have hturn := Scalar.cos_mul_self_add_sin_mul_self (θ / 2)
    refine Mat.isUnitary_square ?_ ?_ ?_ ?_ <;> ext <;> simp
    · exact hturn
    · rw [add_comm, hturn]
    · ring
    · ring

/-- The columns of the matrix of every gate are orthonormal, if those of the
custom ones are. -/
theorem isIsometry_qubitMatrix {gate : Gate ℝ} (h : gate.OwnMatrix Mat.IsIsometry) :
    gate.qubitMatrix.IsIsometry := by
  cases gate with
  | custom matrix diagonal label => exact h
  | _ =>
    refine (isUnitary_qubitMatrix ?_).isIsometry
    trivial

end Gate

end Qudit
