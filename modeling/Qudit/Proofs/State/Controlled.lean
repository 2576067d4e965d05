import Qudit.Proofs.Exact.Amplitude
import Qudit.Proofs.State.Apply

/-!
# A controlled operator, amplitude by amplitude

The kernel finds its blocks by starts and offsets, changes them in place
while later ones are still to be read, and has two ways to compute. None of
this can be seen in the result (`State.apply_controlled`): each new
amplitude is a formula in the **old** ones, at the positions that differ
from its own in the target digits only.

The scalars are not asked for any law. Sums are therefore written in the
order in which the kernel takes them, and the matrix that is zero off its
diagonal keeps its own formula: over floating point a sum with terms of
zero may differ from its only other term.
-/

namespace Qudit

open Radix Kernel

namespace Mat

variable {R : Type} [Scalar R]

/-- **A matrix is diagonal** when the squared modulus of every entry off its
diagonal is zero. -/
def IsDiagonal (m : Mat (Amplitude R)) : Prop :=
  ∀ i < m.rows, ∀ j < m.cols, i ≠ j → ((m.coeff i j).normSq == 0) = true

/-- The kernel scales exactly where the matrix is diagonal. -/
theorem offDiagonal_negligible_iff {m : Mat (Amplitude R)} :
    m.offDiagonal Negligible.negligible = true ↔ m.IsDiagonal :=
  offDiagonal_iff

end Mat

namespace Kernel

/-- A position belongs to its own block, at the slot of its target digits. -/
theorem moved_slot {dims targets : List Nat} {i : Nat} (hi : i < total dims)
    (ht : ∀ t ∈ targets, t < dims.length) :
    moved dims targets i (digits (slot dims targets i) (restrict dims targets)) = i := by
  rw [digits_slot hi ht, Placement.moved_restrict hi]

end Kernel

namespace State

variable {R : Type} [Scalar R]

/-- **A controlled operator computes its matrix on the target digits, where
the controls hold their configuration.** The matrix is applied at every
placement of its size, in whatever order the sites are listed and whatever
their dimensions. A position belongs to the row of its target digits
(`Kernel.slot`). If the matrix is diagonal, the new amplitude is the old one
times the diagonal entry of that row. Otherwise it is the sum of the row,
column after column, against the old amplitudes at the position with its
target digits replaced by those of the column. Where a control does not hold
its configuration, the amplitude stays. -/
theorem apply_controlled {s : State (Amplitude R)} {targets controls : List Nat}
    {configs : List Bool} (h : Placement s.dims targets controls configs)
    {m : Mat (Amplitude R)} (hrows : m.rows = total (restrict s.dims targets))
    (hcols : m.cols = total (restrict s.dims targets)) :
    ∃ t, State.apply m targets controls configs s = .ok () t ∧ t.dims = s.dims ∧
      ∀ i < total s.dims,
        (Holds s.dims controls configs i → m.IsDiagonal →
          t.amp i = s.amp i * m.coeff (slot s.dims targets i) (slot s.dims targets i)) ∧
        (Holds s.dims controls configs i → ¬m.IsDiagonal →
          t.amp i = (List.range (total (restrict s.dims targets))).foldl (fun acc j =>
            acc + m.coeff (slot s.dims targets i) j
              * s.amp (moved s.dims targets i (digits j (restrict s.dims targets)))) 0) ∧
        (¬Holds s.dims controls configs i → t.amp i = s.amp i) := by
  obtain ⟨t, hrun, hdims, hamp⟩ := apply_ok h hrows hcols
  refine ⟨t, hrun, hdims, fun i hi => ?_⟩
  rw [hamp i hi]
  refine ⟨fun hc hm => ?_, fun hc hm => ?_, fun hc => if_neg hc⟩
  · rw [if_pos hc, localImage, if_pos (Mat.offDiagonal_negligible_iff.mpr hm)]
    have hslot := slot_lt hi h.targets_lt
    -- the block holds the old amplitude of the position itself at its slot
    rw [List.getD_eq_getElem _ _ (by simpa using hslot), List.getElem_map, List.getElem_range,
      moved_slot hi h.targets_lt]
  · rw [if_pos hc, localImage, if_neg fun hdiag => hm (Mat.offDiagonal_negligible_iff.mp hdiag),
      Mat.rowProduct_map_range]

/-- A qutrit and two qubits, with an operator on the first qubit and then the qutrit, in this
order, controlled by the second qubit: the amplitude at `1, 1, 1` passes to `2, 0, 1` by the
entry of row `0, 2` and column `1, 1`, and positions where the control is clear keep theirs. -/
theorem apply_controlled_reversed :
    let s : State (Amplitude ℝ) := ⟨[3, 2, 2], #v[0, 0, 0, 0, 1, 0, 0, 1, 0, 0, 0, 0]⟩
    let m : Mat (Amplitude ℝ) := ⟨6, 6, fun i j => ⟨i.val, j.val⟩⟩
    Placement s.dims [1, 0] [2] [true] ∧ m.rows = total (restrict s.dims [1, 0]) ∧
      m.cols = total (restrict s.dims [1, 0]) ∧
      ∃ t, State.apply m [1, 0] [2] [true] s = .ok () t ∧ t.amp 9 = ⟨2, 4⟩ ∧ t.amp 4 = 1 := by
  intro s m
  have hplace : Placement s.dims [1, 0] [2] [true] := ⟨by decide, by decide, by decide, rfl⟩
  obtain ⟨t, hrun, -, hamp⟩ := apply_controlled hplace (m := m) rfl rfl
  have hdiag : ¬m.IsDiagonal := fun hm => by
    have hzero := eq_of_beq (hm 0 (by decide) 1 (by decide) (by decide))
    have hentry : m.coeff 0 1 = ⟨(0 : ℕ), (1 : ℕ)⟩ := rfl
    rw [hentry] at hzero
    norm_num [Amplitude.normSq] at hzero
  refine ⟨hplace, rfl, rfl, t, hrun, ?_, (hamp 4 (by decide)).2.2 (by decide)⟩
  rw [(hamp 9 (by decide)).2.1 (by decide) hdiag]
  have hslot : slot s.dims [1, 0] 9 = 2 := by decide
  have hcolumns : (List.range (total (restrict s.dims [1, 0]))).map
      (fun j => (j, moved s.dims [1, 0] 9 (digits j (restrict s.dims [1, 0]))))
        = [(0, 1), (1, 5), (2, 9), (3, 3), (4, 7), (5, 11)] := by decide
  rw [hslot]
  calc _ = [(0, 1), (1, 5), (2, 9), (3, 3), (4, 7), (5, 11)].foldl
        (fun acc p => acc + m.coeff 2 p.1 * s.amp p.2) 0 := by rw [← hcolumns, List.foldl_map]
    _ = 0 + m.coeff 2 0 * 0 + m.coeff 2 1 * 0 + m.coeff 2 2 * 0 + m.coeff 2 3 * 0
        + ⟨(2 : ℕ), (4 : ℕ)⟩ * 1 + m.coeff 2 5 * 0 := rfl
    _ = ⟨2, 4⟩ := by norm_num

end State

end Qudit
