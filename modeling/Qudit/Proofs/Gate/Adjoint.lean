import Mathlib.LinearAlgebra.Matrix.SemiringInverse
import Qudit.Proofs.Exact.Composition
import Qudit.Proofs.Gate.Columns

/-!
# The adjoint of a gate as a matrix

`Gate.dagger` may end in a gate of another name: the adjoint of `s` and that of `t` are
phases, and for the gates that turn by an angle it is the opposite angle. As matrices the
two are always each other's conjugate transpose (`Gate.matrix_dagger`), whether they are
named gates or custom ones of any shape, so that the adjoint of the adjoint has the
matrix of the gate even where it has another name.

For a named gate the adjoint is the inverse. What a gate declares of its own shape holds
of both matrices, if it is a named gate or was built from its matrix: a custom gate takes
its declaration over into its adjoint.
-/

namespace Qudit

@[simp] theorem Amplitude.conj_conj (z : Amplitude ℝ) : z.conj.conj = z := by
  ext <;> simp

namespace Mat

/-- Transposing and conjugating twice gives the matrix back. -/
theorem transposeMap_conj_conj (m : Mat (Amplitude ℝ)) :
    (m.transposeMap Amplitude.conj).transposeMap Amplitude.conj = m := by
  unfold transposeMap
  simp only [Amplitude.conj_conj]

/-- **The adjoint of a unitary matrix is its inverse**, on both sides. -/
theorem IsUnitary.exists_inverse {m : Mat (Amplitude ℝ)} (h : m.IsUnitary) :
    ∃ n, ∃ M N : Matrix (Fin n) (Fin n) (Amplitude ℝ),
      m = .ofMatrix M ∧ m.transposeMap Amplitude.conj = .ofMatrix N ∧ M * N = 1 ∧ N * M = 1 := by
  obtain ⟨n, cols, M⟩ := m
  obtain rfl : n = cols := h.square
  have hleft : Matrix.of (fun i j => (M j i).conj) * Matrix.of M = 1 := by
    ext i j : 1
    rw [Matrix.mul_apply, Matrix.one_apply]
    exact h.adjoint_mul i j
  exact ⟨n, M, fun i j => (M j i).conj, rfl, rfl, mul_eq_one_comm.mp hleft, hleft⟩

end Mat

namespace Gate

/-- The adjoint gate has the adjoint matrix, over the same dimensions. -/
theorem matrix_dagger_of_ok {gate : Gate ℝ} {d : Nat} {m : Mat (Amplitude ℝ)}
    (h : gate.matrix d = .ok m) :
    gate.dagger.matrix d = .ok (m.transposeMap Amplitude.conj) := by
  obtain ⟨hd, rfl⟩ := matrix_eq_ok_iff.mp h
  exact matrix_eq_ok_iff.mpr ⟨gate.isNamed_dagger ▸ hd, gate.qubitMatrix_dagger⟩

/-- **The adjoint of a gate is the adjoint as a matrix**, and that of the adjoint is the
gate again; it is the inverse if the gate is named. A named gate, and a custom gate built
from its matrix, has only zeros off the diagonal if it declares itself diagonal, and so
has its adjoint. -/
theorem matrix_dagger (gate : Gate ℝ) :
    (∀ d m, gate.matrix d = .ok m →
        gate.dagger.matrix d = .ok (m.transposeMap Amplitude.conj) ∧
        gate.dagger.dagger.matrix d = .ok m) ∧
      (gate.isNamed = true → ∃ n, ∃ M N : Matrix (Fin n) (Fin n) (Amplitude ℝ),
        gate.matrix 2 = .ok (.ofMatrix M) ∧ gate.dagger.matrix 2 = .ok (.ofMatrix N) ∧
          M * N = 1 ∧ N * M = 1) ∧
      ((gate.isNamed = true ∨ ∃ matrix label, gate = .ofMatrix matrix label) →
        gate.isDiagonal = true → ∀ d m n, gate.matrix d = .ok m → gate.dagger.matrix d = .ok n →
          ∀ i j, i ≠ j → m.coeff i j = 0 ∧ n.coeff i j = 0) := by
  refine ⟨fun d m h => ?_, fun hnamed => ?_, fun hbuilt hdiagonal d m n hm hn i j hij => ?_⟩
  · have hdagger := matrix_dagger_of_ok h
    exact ⟨hdagger, m.transposeMap_conj_conj ▸ matrix_dagger_of_ok hdagger⟩
  · have hunitary : gate.qubitMatrix.IsUnitary := isUnitary_qubitMatrix <| by
      cases gate with
      | custom matrix diagonal label => cases hnamed
      | _ => trivial
    obtain ⟨n, M, N, hM, hN, hright, hleft⟩ := hunitary.exists_inverse
    have hmatrix : gate.matrix 2 = .ok gate.qubitMatrix := matrix_eq_ok_iff.mpr ⟨fun _ => rfl, rfl⟩
    exact ⟨n, M, N, hM ▸ hmatrix, hN ▸ matrix_dagger_of_ok hmatrix, hright, hleft⟩
  · obtain rfl := Except.ok.inj ((matrix_dagger_of_ok hm).symm.trans hn)
    obtain ⟨-, rfl⟩ := matrix_eq_ok_iff.mp hm
    have hbuilt' : gate.BuiltFrom fun _ => True := by simpa [BuiltFrom] using hbuilt
    have hzero : ∀ i j, i ≠ j → gate.qubitMatrix.coeff i j = 0 :=
      fun i j => carries_of_isDiagonal hbuilt' hdiagonal j i
    refine ⟨hzero i j hij, ?_⟩
    rw [Mat.coeff_transposeMap Amplitude.conj_zero, hzero j i hij.symm, Amplitude.conj_zero]

/-- The adjoint of a quarter turn is a phase, and turns it back. -/
theorem matrix_dagger_quarter :
    let m : Mat (Amplitude ℝ) := .square 1 0 0 Amplitude.i
    (s : Gate ℝ).matrix 2 = .ok m ∧
      (phase (-quarterTurn) : Gate ℝ).matrix 2 = .ok (m.transposeMap Amplitude.conj) ∧
      (∃ n, ∃ M N : Matrix (Fin n) (Fin n) (Amplitude ℝ),
        (s : Gate ℝ).matrix 2 = .ok (.ofMatrix M) ∧
          (phase (-quarterTurn) : Gate ℝ).matrix 2 = .ok (.ofMatrix N) ∧ M * N = 1 ∧ N * M = 1) ∧
      ∀ i j, i ≠ j → m.coeff i j = 0 ∧ (m.transposeMap Amplitude.conj).coeff i j = 0 := by
  intro m
  have hm : (s : Gate ℝ).matrix 2 = .ok m := rfl
  obtain ⟨hadjoint, hinverse, hzero⟩ := matrix_dagger (s : Gate ℝ)
  have hdagger := (hadjoint 2 m hm).1
  exact ⟨hm, hdagger, hinverse rfl, hzero (.inl rfl) rfl 2 m _ hm hdagger⟩

end Gate

end Qudit
