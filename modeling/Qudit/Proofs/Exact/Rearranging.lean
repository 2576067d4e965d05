import Qudit.Proofs.Gate.Unitary

/-!
# Operators that only rearrange amplitudes

A bit flip and an exchange of two qubits compute nothing: each row of their
matrices has one entry, which is one (`Mat.Moves`), and the new amplitude of
every basis state is the old one of another basis state
(`State.Rearranged`). This needs no more of the scalars than the laws of a
commutative ring and a comparison that does not confuse one with zero, so that
it is said for all of these (`ExactScalar`) and not for the real numbers only.

Rearrangements compose, the last one first (`State.Rearranged.trans`), and two
states that are rearranged in the same way are the same
(`State.Rearranged.eq`).
-/

namespace Qudit

open Radix Kernel

/-- **Scalars in exact arithmetic**: they form a commutative ring, and values
that compare equal are equal. -/
class ExactScalar (R : Type) extends Scalar R, CommRing R where
  /-- The comparison can be trusted. -/
  eq_of_beq : ∀ {x y : R}, (x == y) = true → x = y

/-- The real numbers are exact. This is no instance: over them amplitudes have
the structure of a ring already. -/
noncomputable abbrev ExactScalar.real : ExactScalar ℝ where
  toScalar := inferInstance
  __ := (inferInstance : CommRing ℝ)
  eq_of_beq h := of_decide_eq_true h

variable {R : Type}

namespace Amplitude

variable [ExactScalar R]

/-- **Amplitudes over exact scalars form a commutative ring.** -/
instance : CommRing (Amplitude R) where
  add_assoc z w v := by ext <;> simp [add_assoc]
  zero_add z := by ext <;> simp
  add_zero z := by ext <;> simp
  add_comm z w := by ext <;> simp [add_comm]
  neg_add_cancel z := by ext <;> simp
  mul_assoc z w v := by ext <;> simp <;> ring
  one_mul z := by ext <;> simp
  mul_one z := by ext <;> simp
  left_distrib z w v := by ext <;> simp <;> ring
  right_distrib z w v := by ext <;> simp <;> ring
  zero_mul z := by ext <;> simp
  mul_zero z := by ext <;> simp
  mul_comm z w := by ext <;> simp <;> ring
  nsmul := nsmulRec
  zsmul := zsmulRec

/-- Where one is passed over, there is no other amplitude than zero. -/
theorem eq_of_negligible_one (h : Negligible.negligible (1 : Amplitude R) = true)
    (z w : Amplitude R) : z = w := by
  have hone : (1 : R) = 0 := by
    have hnorm : (1 : Amplitude R).normSq = 0 := ExactScalar.eq_of_beq h
    simpa [normSq] using hnorm
  have hzero : ∀ x : R, x = 0 := fun x => by rw [← mul_one x, hone, mul_zero]
  ext
  · rw [hzero z.re, hzero w.re]
  · rw [hzero z.im, hzero w.im]

end Amplitude

/-! ## Matrices -/

/-- **Every row has one entry that is not zero**, and it is one. In the row `i`
it is in the column `f i`. -/
structure Mat.Moves [Scalar R] (m : Mat (Amplitude R)) (f : Nat → Nat) : Prop where
  /-- The column exists. -/
  lt : ∀ i < m.rows, f i < m.cols
  /-- The entries of the row. -/
  coeff_eq : ∀ i < m.rows, ∀ j < m.cols, m.coeff i j = if j = f i then 1 else 0

/-- **Such a matrix picks an amplitude of the block**, in both ways in which the
kernel computes. -/
theorem Kernel.localImage_of_moves [ExactScalar R] {m : Mat (Amplitude R)} {f : Nat → Nat}
    (h : m.Moves f)
    {block : List (Amplitude R)} (hlen : block.length = m.cols) {i : Nat} (hi : i < m.rows) :
    localImage m block i = block.getD (f i) 0 := by
  unfold localImage
  split_ifs with hdiag
  · by_cases hfi : i = f i
    · rw [h.coeff_eq i hi i (hfi ▸ h.lt i hi), if_pos hfi, mul_one, ← hfi]
    · -- the one entry is off the diagonal, and yet it is passed over
      have hrow := List.all_eq_true.mp hdiag ⟨i, hi⟩ (List.mem_finRange _)
      have hentry := List.all_eq_true.mp hrow ⟨f i, h.lt i hi⟩ (List.mem_finRange _)
      rw [Bool.or_eq_true, beq_iff_eq] at hentry
      have hone : m.entry ⟨i, hi⟩ ⟨f i, h.lt i hi⟩ = 1 := by
        rw [← m.coeff_entry, h.coeff_eq i hi _ (h.lt i hi), if_pos rfl]
      exact Amplitude.eq_of_negligible_one (hone ▸ hentry.resolve_left hfi) _ _
  · rw [m.rowProduct_eq_sum, Finset.sum_eq_single (f i)]
    · rw [h.coeff_eq i hi _ (h.lt i hi), if_pos rfl, one_mul]
    · intro j hj hne
      rw [h.coeff_eq i hi j (hlen ▸ Finset.mem_range.mp hj), if_neg hne, zero_mul]
    · exact fun hnot => absurd (Finset.mem_range.mpr (hlen ▸ h.lt i hi)) hnot

namespace Gate

variable [ExactScalar R]

theorem moves_x : (x : Gate R).qubitMatrix.Moves (· ^^^ 1) := by
  refine ⟨fun i hi => Nat.xor_lt_two_pow (n := 1) hi (by decide), fun i hi j hj => ?_⟩
  rw [Mat.coeff, dif_pos ⟨hi, hj⟩]
  have hi : i < 2 := hi
  have hj : j < 2 := hj
  show (if i = 0 then if j = 0 then (0 : Amplitude R) else 1 else if j = 0 then 1 else 0) = _
  obtain rfl | rfl : i = 0 ∨ i = 1 := by omega
  all_goals obtain rfl | rfl : j = 0 ∨ j = 1 := by omega
  all_goals simp

theorem moves_swap : (swap : Gate R).qubitMatrix.Moves fun k => k % 2 * 2 + k / 2 := by
  refine ⟨fun i hi => ?_, fun i hi j hj => ?_⟩
  · have hi : i < 4 := hi
    show i % 2 * 2 + i / 2 < 4
    omega
  · rw [Mat.coeff, dif_pos ⟨hi, hj⟩]
    rfl

end Gate

/-! ## States -/

namespace State

/-- **A state rearranged along `φ`**: the amplitude of the basis state with
digits `v` is that of the basis state with digits `φ v` before. -/
structure Rearranged [Scalar R] (φ : List Nat → List Nat) (s t : State (Amplitude R)) : Prop where
  /-- The register is the same. -/
  dims_eq : t.dims = s.dims
  /-- Where the amplitudes come from. -/
  amp_eq : ∀ i < total s.dims, t.amp i = s.amp (index (φ (digits i s.dims)) s.dims)

variable [ExactScalar R]

namespace Rearranged

variable {φ ψ : List Nat → List Nat} {s t t' u : State (Amplitude R)}

theorem refl (s : State (Amplitude R)) : Rearranged id s s :=
  ⟨rfl, fun i hi => by rw [id, index_digits_of_lt hi]⟩

/-- Of two rearrangements the last one is looked up first. -/
theorem trans (h : Rearranged φ s t) (h' : Rearranged ψ t u)
    (hψ : ∀ v, Valid s.dims v → Valid s.dims (ψ v)) : Rearranged (φ ∘ ψ) s u := by
  obtain ⟨ht, hamp⟩ := h
  obtain ⟨hu, hamp'⟩ := h'
  rw [ht] at hu hamp'
  refine ⟨hu, fun i hi => ?_⟩
  have hvalid := hψ _ (valid_digits_of_lt hi)
  rw [hamp' i hi, hamp _ (index_lt_total hvalid), digits_index hvalid, Function.comp]

/-- **States that are rearranged in the same way are the same.** -/
theorem eq (h : Rearranged φ s t) (h' : Rearranged ψ s t')
    (hφψ : ∀ v, Valid s.dims v → φ v = ψ v) : t = t' := by
  refine ext_amp (h.dims_eq.trans h'.dims_eq.symm) fun i hi => ?_
  rw [h.dims_eq] at hi
  rw [h.amp_eq i hi, h'.amp_eq i hi, hφψ _ (valid_digits_of_lt hi)]

end Rearranged

variable {s : State (Amplitude R)} {targets controls : List Nat} {configs : List Bool}

/-- **A matrix with such rows rearranges the amplitudes** of the blocks whose
controls hold their configuration. -/
theorem exists_apply_rearranged (h : Placement s.dims targets controls configs)
    {m : Mat (Amplitude R)} {f : Nat → Nat} (hm : m.Moves f)
    (hrows : m.rows = total (restrict s.dims targets))
    (hcols : m.cols = total (restrict s.dims targets)) (levels : List Nat → List Nat)
    (hlevels : ∀ v, Valid (restrict s.dims targets) v →
      digits (f (index v (restrict s.dims targets))) (restrict s.dims targets) = levels v) :
    ∃ t, State.apply m targets controls configs s = .ok () t ∧
      Rearranged (fun v => if restrict v controls = configs.map Bool.toNat
        then overwrite v targets (levels (restrict v targets)) else v) s t := by
  obtain ⟨t, hrun, hdims, hamp⟩ := apply_ok h hrows hcols
  refine ⟨t, hrun, hdims, fun i hi => ?_⟩
  rw [hamp i hi]
  split_ifs with hc
  · have hslot : slot s.dims targets i < m.rows := hrows ▸ slot_lt hi h.targets_lt
    have hf : f (slot s.dims targets i) < total (restrict s.dims targets) :=
      hcols ▸ hm.lt _ hslot
    rw [localImage_of_moves hm (by rw [List.length_map, List.length_range, hcols]) hslot,
      List.getD_eq_getElem _ _ (by simpa using hf), List.getElem_map, List.getElem_range, slot,
      hlevels _ (valid_restrict (valid_digits_of_lt hi) h.targets_lt), moved]
  · rw [index_digits_of_lt hi]

end State

end Qudit
