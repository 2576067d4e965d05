import Qudit.Proofs.Gate.Unitary

/-!
# Inner products of states

The inner product of two states of one register is preserved by every
operator whose matrix has orthonormal columns, whatever its placement
(`State.inner_apply_of_isometry`), and with it the norm (`State.inner_self`).

The step behind it is that an operator and its adjoint at the same placement
can be moved from one side of the product to the other
(`State.inner_apply_adjoint`). Both sides are sums over the positions whose
controls hold their configuration and over the places in the block of each;
exchanging a position with the place that it has in its block turns one into
the other (`Kernel.Placement.sum_blocks`).
-/

namespace Qudit

open Radix Kernel

namespace Amplitude

theorem conj_add (z w : Amplitude ℝ) : (z + w).conj = z.conj + w.conj := by
  ext
  · simp
  · simp [add_comm]

theorem conj_mul (z w : Amplitude ℝ) : (z * w).conj = z.conj * w.conj := by
  ext
  · simp
  · simp [add_comm]

theorem conj_sum {ι : Type} (S : Finset ι) (f : ι → Amplitude ℝ) :
    (∑ i ∈ S, f i).conj = ∑ i ∈ S, (f i).conj := by
  classical
  induction S using Finset.induction_on with
  | empty => simp
  | insert a S ha ih => rw [Finset.sum_insert ha, Finset.sum_insert ha, conj_add, ih]

theorem sum_ofReal (n : Nat) (f : Nat → ℝ) :
    ∑ i ∈ Finset.range n, ofReal (f i) = ofReal ((List.range n).map f).sum := by
  induction n with
  | zero => rfl
  | succ n ih =>
    rw [Finset.sum_range_succ, ih, List.range_succ, List.map_append, List.sum_append]
    ext <;> simp

end Amplitude

namespace Kernel.Placement

variable {dims targets controls : List Nat} {configs : List Bool}

/-- **A position and a place in its block can be exchanged**, and exchanged back:
the position at the place has the first one at the place that this had. -/
theorem exchange (h : Placement dims targets controls configs) {i j : Nat} (hi : i < total dims)
    (hj : j < total (restrict dims targets)) :
    slot dims targets (moved dims targets i (digits j (restrict dims targets))) = j ∧
      moved dims targets (moved dims targets i (digits j (restrict dims targets)))
        (digits (slot dims targets i) (restrict dims targets)) = i := by
  have hvalid := valid_digits_of_lt hj
  constructor
  · rw [h.slot_moved hi hvalid, index_digits_of_lt hj]
  · rw [digits_slot hi h.targets_lt, h.moved_back hi hvalid]

/-- **A sum over the blocks of a placement** stays the same when positions and
places are exchanged. -/
theorem sum_blocks {M : Type} [AddCommMonoid M] (h : Placement dims targets controls configs)
    (f : Nat → Nat → M) :
    ∑ i ∈ (Finset.range (total dims)).filter (Holds dims controls configs),
        ∑ j ∈ Finset.range (total (restrict dims targets)), f i j
      = ∑ i ∈ (Finset.range (total dims)).filter (Holds dims controls configs),
        ∑ j ∈ Finset.range (total (restrict dims targets)),
          f (moved dims targets i (digits j (restrict dims targets))) (slot dims targets i) := by
  rw [← Finset.sum_product', ← Finset.sum_product']
  set d := restrict dims targets
  set pairs := (Finset.range (total dims)).filter (Holds dims controls configs)
    ×ˢ Finset.range (total d)
  have hpairs : ∀ p ∈ pairs,
      (moved dims targets p.1 (digits p.2 d), slot dims targets p.1) ∈ pairs ∧
      slot dims targets (moved dims targets p.1 (digits p.2 d)) = p.2 ∧
      moved dims targets (moved dims targets p.1 (digits p.2 d)) (digits (slot dims targets p.1) d)
        = p.1 := by
    rintro ⟨i, j⟩ hp
    obtain ⟨hi, hj⟩ := Finset.mem_product.mp hp
    obtain ⟨hi, hc⟩ := Finset.mem_filter.mp hi
    have hi := Finset.mem_range.mp hi
    have hj := Finset.mem_range.mp hj
    have hvalid := valid_digits_of_lt hj
    refine ⟨Finset.mem_product.mpr ⟨Finset.mem_filter.mpr ⟨?_, ?_⟩, ?_⟩, h.exchange hi hj⟩
    · exact Finset.mem_range.mpr (moved_lt hi hvalid)
    · exact (h.holds_moved hi hvalid).mpr hc
    · exact Finset.mem_range.mpr (slot_lt hi h.targets_lt)
  exact Finset.sum_nbij' (fun p => (moved dims targets p.1 (digits p.2 d), slot dims targets p.1))
    (fun p => (moved dims targets p.1 (digits p.2 d), slot dims targets p.1))
    (fun p hp => (hpairs p hp).1) (fun p hp => (hpairs p hp).1)
    (fun p hp => Prod.ext (hpairs p hp).2.2 (hpairs p hp).2.1)
    (fun p hp => Prod.ext (hpairs p hp).2.2 (hpairs p hp).2.1)
    fun p hp => congrArg₂ f (hpairs p hp).2.2.symm (hpairs p hp).2.1.symm

end Kernel.Placement

namespace State

/-- **The inner product of two states** of one register. -/
noncomputable def inner (s t : State (Amplitude ℝ)) : Amplitude ℝ :=
  ∑ i ∈ Finset.range (total s.dims), (s.amp i).conj * t.amp i

/-- The inner product of a state with itself is the sum of its weights. -/
theorem inner_self (s : State (Amplitude ℝ)) :
    s.inner s = Amplitude.ofReal (Scalar.sum s.weights) := by
  rw [Scalar.sum_eq, weights_eq, inner, ← Amplitude.sum_ofReal]
  exact Finset.sum_congr rfl fun i _ => Amplitude.conj_mul_self _

variable {s t s' t' : State (Amplitude ℝ)} {targets controls : List Nat} {configs : List Bool}
  {m : Mat (Amplitude ℝ)}

/-- **An operator on one side is its adjoint on the other.** -/
theorem inner_apply_adjoint (h : Placement s.dims targets controls configs)
    (hrows : m.rows = total (restrict s.dims targets))
    (hcols : m.cols = total (restrict s.dims targets)) (hdims : t.dims = s.dims)
    (hs : State.apply m targets controls configs s = .ok () s')
    (ht : State.apply (m.transposeMap Amplitude.conj) targets controls configs t = .ok () t') :
    s'.inner t = s.inner t' := by
  obtain ⟨u, hrun, hu, hamp⟩ := exists_apply_sum h hrows hcols
  obtain ⟨v, hrun', hv, hamp'⟩ := exists_apply_sum (s := t) (m := m.transposeMap Amplitude.conj)
    (hdims.symm ▸ h) (hdims.symm ▸ hcols) (hdims.symm ▸ hrows)
  rw [hs] at hrun
  rw [ht] at hrun'
  obtain ⟨⟩ := hrun
  obtain ⟨⟩ := hrun'
  rw [hdims] at hamp'
  unfold inner
  rw [hu, ← Finset.sum_filter_add_sum_filter_not _ (Holds s.dims controls configs),
    ← Finset.sum_filter_add_sum_filter_not (Finset.range (total s.dims))
      (Holds s.dims controls configs) fun i => (s.amp i).conj * t'.amp i]
  refine congrArg₂ (· + ·) ?_ (Finset.sum_congr rfl fun i hi => ?_)
  · set d := restrict s.dims targets
    calc ∑ i ∈ (Finset.range (total s.dims)).filter (Holds s.dims controls configs),
          (s'.amp i).conj * t.amp i
        = ∑ i ∈ (Finset.range (total s.dims)).filter (Holds s.dims controls configs),
            ∑ j ∈ Finset.range (total d), (m.coeff (slot s.dims targets i) j).conj
              * (s.amp (moved s.dims targets i (digits j d))).conj * t.amp i := by
          refine Finset.sum_congr rfl fun i hi => ?_
          obtain ⟨hi, hc⟩ := Finset.mem_filter.mp hi
          rw [hamp i (Finset.mem_range.mp hi), if_pos hc, Amplitude.conj_sum, Finset.sum_mul]
          exact Finset.sum_congr rfl fun j _ => by rw [Amplitude.conj_mul]
      _ = ∑ i ∈ (Finset.range (total s.dims)).filter (Holds s.dims controls configs),
            ∑ j ∈ Finset.range (total d), (m.coeff j (slot s.dims targets i)).conj
              * (s.amp i).conj * t.amp (moved s.dims targets i (digits j d)) := by
          rw [h.sum_blocks]
          refine Finset.sum_congr rfl fun i hi => Finset.sum_congr rfl fun j hj => ?_
          obtain ⟨hplace, hback⟩ := h.exchange
            (Finset.mem_range.mp (Finset.mem_filter.mp hi).1) (Finset.mem_range.mp hj)
          rw [hplace, hback]
      _ = ∑ i ∈ (Finset.range (total s.dims)).filter (Holds s.dims controls configs),
            (s.amp i).conj * t'.amp i := by
          refine Finset.sum_congr rfl fun i hi => ?_
          obtain ⟨hi, hc⟩ := Finset.mem_filter.mp hi
          rw [hamp' i (Finset.mem_range.mp hi), if_pos hc, Finset.mul_sum]
          refine Finset.sum_congr rfl fun j _ => ?_
          rw [Mat.coeff_transposeMap Amplitude.conj_zero]
          ring
  · -- where the controls do not hold their configuration nothing is changed
    obtain ⟨hi, hc⟩ := Finset.mem_filter.mp hi
    have hi := Finset.mem_range.mp hi
    rw [hamp i hi, hamp' i hi, if_neg hc, if_neg hc]

/-- **A matrix with orthonormal columns preserves inner products.** -/
theorem inner_apply_of_isometry (h : Placement s.dims targets controls configs)
    (hrows : m.rows = total (restrict s.dims targets))
    (hcols : m.cols = total (restrict s.dims targets)) (hm : m.IsIsometry)
    (hdims : t.dims = s.dims)
    (hs : State.apply m targets controls configs s = .ok () s')
    (ht : State.apply m targets controls configs t = .ok () t') :
    s'.inner t' = s.inner t := by
  obtain ⟨u, hrun, hu, hback⟩ := apply_left_inverse (s := t) (m := m)
    (n := m.transposeMap Amplitude.conj) (hdims.symm ▸ h) (hdims.symm ▸ hrows)
    (hdims.symm ▸ hcols) (hdims.symm ▸ hcols) (hdims.symm ▸ hrows) fun i hi j hj => by
      rw [hdims] at hi hj ⊢
      rw [← hm.sum_coeff (hcols.symm ▸ hi) (hcols.symm ▸ hj), hrows]
      refine Finset.sum_congr rfl fun k _ => ?_
      rw [Mat.coeff_transposeMap Amplitude.conj_zero]
  rw [ht] at hrun
  obtain ⟨⟩ := hrun
  exact inner_apply_adjoint h hrows hcols (hu.trans hdims) hs hback

end State

end Qudit
