import Qudit.Proofs.Exact.Amplitude
import Qudit.Proofs.Kernel.Image
import Qudit.Proofs.State.Apply

/-!
# Local operators in exact arithmetic

In a commutative semiring an operator is linear, and its coefficients are those that the kernel
computes with (`Kernel.computed`): the entries of the matrix, or its diagonal alone where the
entries off it are all passed over. Every local image is a row of them against the block
(`Kernel.localImage_eq_sum`), in whatever order it is summed. What the operator makes of a state
is then the `Kernel.image` of its amplitudes (`State.exists_apply_image`), and two operators in
a row make the image of the image (`State.exists_apply_apply`).

If negligible entries are zero, these are the coefficients of the matrix
(`Kernel.computed_eq_coeff`). An operator then acts on amplitudes as its matrix does
(`State.exists_apply_sum`), and is undone at the same placement by a matrix that is inverse to
its own (`State.apply_left_inverse`).
-/

namespace Qudit

open Radix Kernel

/-- **Negligible entries are zero**, so that nothing is lost when they are
passed over. -/
class LawfulNegligible (α : Type) [Zero α] [Negligible α] : Prop where
  /-- An entry that passes the test is zero. -/
  eq_zero : ∀ a : α, Negligible.negligible a = true → a = 0

instance : LawfulNegligible (Amplitude ℝ) := ⟨fun _ => Amplitude.negligible_iff.mp⟩

variable {α : Type}

/-- A matrix whose entries off its diagonal pass a test for zero has no other
coefficients. -/
theorem Mat.coeff_of_offDiagonal [Zero α] {absent : α → Bool}
    (habsent : ∀ a, absent a = true → a = 0) {m : Mat α} (h : m.offDiagonal absent = true)
    {i j : Nat} (hij : i ≠ j) : m.coeff i j = 0 := by
  by_cases hlt : i < m.rows ∧ j < m.cols
  · exact habsent _ (offDiagonal_iff.mp h i hlt.1 j hlt.2 hij)
  · exact dif_neg hlt

variable [CommSemiring α]

/-- Of coefficients all but one of which are zero, that one is left of the sum against a block. -/
theorem sum_mul_getD_of_single {c : Nat → α} {k : Nat} (hc : ∀ j, j ≠ k → c j = 0)
    (block : List α) :
    ∑ j ∈ Finset.range block.length, c j * block.getD j 0 = block.getD k 0 * c k := by
  rw [Finset.sum_eq_single k, mul_comm]
  · intro j _ hj
    rw [hc j hj, zero_mul]
  · intro hk
    rw [List.getD_eq_default _ _ (by simpa using hk), mul_zero]

theorem Mat.rowProduct_eq_sum (m : Mat α) (i : Nat) (block : List α) :
    m.rowProduct i block = ∑ j ∈ Finset.range block.length, m.coeff i j * block.getD j 0 := by
  induction block using List.reverseRecOn with
  | nil => rfl
  | append_singleton block a ih =>
    rw [rowProduct, List.zipIdx_append, List.foldl_append, ← rowProduct, ih, List.length_append,
      List.length_singleton, Finset.sum_range_succ]
    refine congrArg₂ (· + ·) (Finset.sum_congr rfl fun j hj => ?_) ?_
    · rw [List.getD_append _ _ _ _ (Finset.mem_range.mp hj)]
    · rw [List.getD_append_right _ _ _ _ le_rfl]
      simp

section

variable [Negligible α]

/-- **The coefficients that the kernel computes with**: those of the matrix, except that a
matrix whose entries off the diagonal are negligible is taken for its diagonal. -/
def Kernel.computed (m : Mat α) (i j : Nat) : α :=
  if m.offDiagonal Negligible.negligible ∧ i ≠ j then 0 else m.coeff i j

/-- **The local image is the product of a row and the block**, also where
the matrix is taken for its diagonal and the kernel only scales. -/
theorem Kernel.localImage_eq_sum (m : Mat α) (block : List α) (k : Nat) :
    localImage m block k
      = ∑ j ∈ Finset.range block.length, computed m k j * block.getD j 0 := by
  unfold localImage
  split_ifs with hdiag
  · -- the other columns contribute nothing
    have hrow := sum_mul_getD_of_single (c := computed m k)
      (fun j hj => if_pos ⟨hdiag, hj.symm⟩) block
    rw [hrow, computed, if_neg fun h => h.2 rfl]
  · rw [m.rowProduct_eq_sum]
    exact Finset.sum_congr rfl fun j _ => by rw [computed, if_neg fun h => hdiag h.1]

/-- Where negligible entries are zero, nothing is lost. -/
theorem Kernel.computed_eq_coeff [LawfulNegligible α] (m : Mat α) : computed m = m.coeff := by
  funext i j
  unfold computed
  split_ifs with h
  · exact (Mat.coeff_of_offDiagonal LawfulNegligible.eq_zero h.1 h.2).symm
  · rfl

end

namespace State

variable {targets controls : List Nat} {configs : List Bool}

section

variable [Negligible α]

/-- **A placed matrix makes the image of the amplitudes**, with the coefficients that the kernel
computes with. -/
theorem exists_apply_image {s : State α} (h : Placement s.dims targets controls configs)
    {m : Mat α} (hrows : m.rows = total (restrict s.dims targets))
    (hcols : m.cols = total (restrict s.dims targets)) :
    ∃ t, State.apply m targets controls configs s = .ok () t ∧ t.dims = s.dims ∧
      ∀ i < total s.dims,
        t.amp i = image s.dims targets controls configs (computed m) s.amp i := by
  obtain ⟨t, hrun, hdims, hamp⟩ := apply_ok h hrows hcols
  refine ⟨t, hrun, hdims, fun i hi => ?_⟩
  rw [hamp i hi, localImage_eq_sum]
  refine ite_congr rfl (fun _ => ?_) fun _ => rfl
  rw [List.length_map, List.length_range]
  refine Finset.sum_congr rfl fun j hj => ?_
  rw [List.getD_eq_getElem _ _ (by simpa using hj), List.getElem_map, List.getElem_range]

/-- **Two operators in a row make the image of the image.** -/
theorem exists_apply_apply {s : State α} {targets' controls' : List Nat} {configs' : List Bool}
    (h : Placement s.dims targets controls configs)
    (h' : Placement s.dims targets' controls' configs') {m n : Mat α}
    (hmrows : m.rows = total (restrict s.dims targets))
    (hmcols : m.cols = total (restrict s.dims targets))
    (hnrows : n.rows = total (restrict s.dims targets'))
    (hncols : n.cols = total (restrict s.dims targets')) :
    ∃ t u, State.apply m targets controls configs s = .ok () t ∧
      State.apply n targets' controls' configs' t = .ok () u ∧
      t.dims = s.dims ∧ u.dims = s.dims ∧
      ∀ i < total s.dims, u.amp i = image s.dims targets' controls' configs' (computed n)
        (image s.dims targets controls configs (computed m) s.amp) i := by
  obtain ⟨t, hrun, hdims, hamp⟩ := exists_apply_image h hmrows hmcols
  obtain ⟨u, hrun', hdims', hamp'⟩ := exists_apply_image (s := t) (m := n) (hdims.symm ▸ h')
    (hdims.symm ▸ hnrows) (hdims.symm ▸ hncols)
  rw [hdims] at hdims' hamp'
  refine ⟨t, u, hrun, hrun', hdims, hdims', fun i hi => ?_⟩
  rw [hamp' i hi]
  exact image_congr h'.targets_lt hi (fun _ _ _ _ => rfl)
    fun levels hl => hamp _ (moved_lt hi hl)

end

variable [Negligible α] [LawfulNegligible α]

/-- **A placed matrix acts on every block as the matrix does on a
vector.** -/
theorem exists_apply_sum {s : State α} (h : Placement s.dims targets controls configs) {m : Mat α}
    (hrows : m.rows = total (restrict s.dims targets))
    (hcols : m.cols = total (restrict s.dims targets)) :
    ∃ t, State.apply m targets controls configs s = .ok () t ∧ t.dims = s.dims ∧
      ∀ i < total s.dims, t.amp i = if Holds s.dims controls configs i
        then ∑ j ∈ Finset.range (total (restrict s.dims targets)),
          m.coeff (slot s.dims targets i) j
            * s.amp (moved s.dims targets i (digits j (restrict s.dims targets)))
        else s.amp i := by
  obtain ⟨t, hrun, hdims, hamp⟩ := exists_apply_image h hrows hcols
  rw [computed_eq_coeff] at hamp
  exact ⟨t, hrun, hdims, hamp⟩

/-- **An operator commutes with factors that are constant on its blocks.** -/
theorem exists_apply_of_factors {s s' t : State α} {m : Mat α} {f : Nat → α}
    (h : Placement s.dims targets controls configs)
    (hrows : m.rows = total (restrict s.dims targets))
    (hcols : m.cols = total (restrict s.dims targets))
    (hf : ∀ i < total s.dims, ∀ levels, Valid (restrict s.dims targets) levels →
      f (moved s.dims targets i levels) = f i)
    (hdims : s'.dims = s.dims) (hamp : ∀ i < total s.dims, s'.amp i = f i * s.amp i)
    (happly : State.apply m targets controls configs s = .ok () t) :
    ∃ t', State.apply m targets controls configs s' = .ok () t' ∧ t'.dims = s.dims ∧
      ∀ i < total s.dims, t'.amp i = f i * t.amp i := by
  obtain ⟨u, hrun, -, ht⟩ := exists_apply_sum h hrows hcols
  rw [happly] at hrun
  obtain ⟨⟩ := hrun
  obtain ⟨t', hrun', hdims', ht'⟩ := exists_apply_sum (s := s') (hdims.symm ▸ h)
    (hdims.symm ▸ hrows) (hdims.symm ▸ hcols)
  rw [hdims] at hdims' ht'
  refine ⟨t', hrun', hdims', fun i hi => ?_⟩
  rw [ht' i hi, ht i hi]
  split_ifs
  · rw [Finset.mul_sum]
    refine Finset.sum_congr rfl fun j hj => ?_
    have hvalid := valid_digits_of_lt (Finset.mem_range.mp hj)
    rw [hamp _ (moved_lt hi hvalid), hf i hi _ hvalid, mul_left_comm]
  · exact hamp i hi

/-- **A matrix is undone by its left inverse**, applied at the same
placement. -/
theorem apply_left_inverse {s : State α} (h : Placement s.dims targets controls configs)
    {m n : Mat α}
    (hmrows : m.rows = total (restrict s.dims targets))
    (hmcols : m.cols = total (restrict s.dims targets))
    (hnrows : n.rows = total (restrict s.dims targets))
    (hncols : n.cols = total (restrict s.dims targets))
    (hinv : ∀ i < total (restrict s.dims targets), ∀ j < total (restrict s.dims targets),
      ∑ k ∈ Finset.range (total (restrict s.dims targets)), n.coeff i k * m.coeff k j
        = if i = j then 1 else 0) :
    ∃ t, State.apply m targets controls configs s = .ok () t ∧ t.dims = s.dims ∧
      State.apply n targets controls configs t = .ok () s := by
  obtain ⟨t, u, hrun, hrun', hdims, hdims', hamp⟩ :=
    exists_apply_apply h h hmrows hmcols hnrows hncols
  have hu : u = s := by
    refine ext_amp hdims' fun i hi => ?_
    rw [hdims'] at hi
    rw [hamp i hi, computed_eq_coeff, computed_eq_coeff, h.image_image _ _ _ hi,
      image_congr h.targets_lt hi hinv fun _ _ => rfl, h.image_one _ hi]
  exact ⟨t, hrun, hdims, hu ▸ hrun'⟩

end State

end Qudit
