import Qudit.Proofs.Gate.Unitary

/-!
# Columns with a single entry

A matrix takes a basis state to a multiple of a basis state where its column
has a single entry (`Mat.Carries`). The gates that a register of plain
values can follow are of this kind: a gate that declares itself diagonal
keeps every basis state, a bit flip flips the value, and an exchange swaps
two of them. What a custom gate declares can be trusted when the gate was
built from its matrix (`Gate.BuiltFrom`).
-/

namespace Qudit

open Radix

namespace Mat

variable {α : Type} [Zero α]

/-- **The column `j` of a matrix has no entry but the one in the row `k`.** -/
def Carries (m : Mat α) (j k : Nat) : Prop :=
  ∀ i, i ≠ k → m.coeff i j = 0

/-- The single entry of a column of a unitary matrix has modulus one. -/
theorem IsUnitary.normSq_of_carries {m : Mat (Amplitude ℝ)} (hm : m.IsUnitary) {j k : Nat}
    (hj : j < m.cols) (hk : k < m.rows) (h : m.Carries j k) : (m.coeff k j).normSq = 1 := by
  have hsum := hm.isIsometry.sum_coeff hj hj
  rw [if_pos rfl, Finset.sum_eq_single k (fun i _ hi => by rw [h i hi, mul_zero])
    (fun hk' => absurd (Finset.mem_range.mpr hk) hk'), Amplitude.conj_mul_self] at hsum
  exact congrArg Amplitude.re hsum

/-- A matrix carries where its entries off the row are zero. -/
theorem carries_of_entry {m : Mat α} {j k : Nat}
    (h : ∀ (i : Fin m.rows) (hj : j < m.cols), i.val ≠ k → m.entry i ⟨j, hj⟩ = 0) :
    m.Carries j k := by
  intro i hik
  unfold coeff
  split_ifs with hlt
  · exact h ⟨i, hlt.1⟩ hlt.2 hik
  · rfl

end Mat

namespace Gate

/-- **A named gate, or a custom gate built from a matrix with a property.** -/
def BuiltFrom {R : Type} [Scalar R] (P : Mat (Amplitude R) → Prop) (gate : Gate R) : Prop :=
  gate.isNamed = true ∨ ∃ m label, P m ∧ gate = .ofMatrix m label

theorem BuiltFrom.ownMatrix {R : Type} [Scalar R] {P : Mat (Amplitude R) → Prop} {gate : Gate R}
    (h : gate.BuiltFrom P) : gate.OwnMatrix P := by
  obtain hnamed | ⟨m, label, hm, rfl⟩ := h
  · cases gate with
    | custom matrix diagonal label => cases hnamed
    | _ => trivial
  · exact hm

/-- **A gate that declares itself diagonal keeps every basis state.** -/
theorem carries_of_isDiagonal {P : Mat (Amplitude ℝ) → Prop} {gate : Gate ℝ}
    (hbuilt : gate.BuiltFrom P) (h : gate.isDiagonal = true) (j : Nat) :
    gate.qubitMatrix.Carries j j := by
  have hdiagonal : ∀ a b : Amplitude ℝ, (diagonalMatrix a b).Carries j j := by
    intro a b
    refine Mat.carries_of_entry fun i hj hij => ?_
    have hi : i.val < 2 := i.isLt
    have hj : j < 2 := hj
    show (if i.val = 0 then if j = 0 then a else 0 else if j = 0 then 0 else b) = 0
    split_ifs
    · omega
    · rfl
    · rfl
    · omega
  obtain hnamed | ⟨m, label, -, rfl⟩ := hbuilt
  · cases gate with
    | z | s | t | phase θ | rz θ => exact hdiagonal _ _
    | custom matrix diagonal label => cases hnamed
    | x | y | h | swap | rx θ | ry θ => cases h
  · -- the declaration was computed from the matrix
    intro i hij
    exact Mat.coeff_of_offDiagonal (fun _ => Amplitude.isZero_iff.mp) h hij

/-- A bit flip takes each of the two values to the other one. -/
theorem carries_x {R : Type} [Scalar R] {v : Nat} (hv : v < 2) :
    (x : Gate R).qubitMatrix.Carries v (v ^^^ 1) := by
  refine Mat.carries_of_entry fun i hj hij => ?_
  have hi : i.val < 2 := i.isLt
  show (if i.val = 0 then if v = 0 then (0 : Amplitude R) else 1 else if v = 0 then 1 else 0) = 0
  obtain rfl | rfl : v = 0 ∨ v = 1 := by omega
  · rw [if_pos rfl, if_pos rfl, if_pos (show i.val = 0 by simp at hij; omega)]
  · rw [if_neg one_ne_zero, if_neg one_ne_zero, if_neg (show i.val ≠ 0 from hij)]

/-- An exchange takes two values to the same values in the other order. -/
theorem carries_swap {R : Type} [Scalar R] {a b : Nat} (ha : a < 2) (hb : b < 2) :
    (swap : Gate R).qubitMatrix.Carries (a * 2 + b) (b * 2 + a) := by
  refine Mat.carries_of_entry fun i hj hij => ?_
  have hi : i.val < 4 := i.isLt
  show (if a * 2 + b = i.val % 2 * 2 + i.val / 2 then (1 : Amplitude R) else 0) = 0
  rw [if_neg]
  omega

end Gate

/-- **What is asked of how all the custom gates of a sequence of operations
are built**, however deep they are nested. -/
def Operation.BuiltFrom {R : Type} [Scalar R] (P : Mat (Amplitude R) → Prop)
    (ops : List (Operation R)) : Prop :=
  ∀ g, Operation.gate g ∈ Operation.leavesOfList ops → g.gate.BuiltFrom P

end Qudit
