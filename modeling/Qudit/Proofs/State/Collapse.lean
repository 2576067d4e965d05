import Mathlib.Analysis.Real.Sqrt
import Qudit.Proofs.State.Outcomes

/-!
# What a collapse leaves

Collapsing onto values at some sites multiplies every amplitude by a number of its own position:
by zero where the digits disagree with the values, and by one common factor where they agree
(`State.amp_collapsed_eq_mul`). The factor is the inverse of the norm of what agrees, so that
what is left has norm one. An outcome at other sites has in it the weight that it had together
with the values, times the square of the factor (`State.weightOf_collapsed`).

A norm that is no larger than `State.tinyNorm` is taken for what rounding has left of nothing,
and not divided by: the factor is then one. What agrees stays as it was, however small, and the
zero vector is left only if all of it is zero. So every collapse drops what disagrees and scales
what agrees, and it brings the state to norm one where the norm of what agrees is above the bound
(`collapse_rescales`); below it the state that is left may be neither zero nor of norm one
(`collapse_keeps_tiny_norm`).
-/

namespace Qudit

open Radix Kernel

namespace Amplitude

theorem divReal_eq_mul (z : Amplitude ℝ) (x : ℝ) : z.divReal x = ofReal x⁻¹ * z := by
  ext
  · show z.re / x = x⁻¹ * z.re - 0 * z.im
    ring
  · show z.im / x = x⁻¹ * z.im + 0 * z.re
    ring

theorem normSq_ofReal (x : ℝ) : (ofReal x).normSq = x ^ 2 := by
  simp [normSq, sq]

end Amplitude

namespace Radix

/-- Values read at two lists of sites in a row are those of the one and those of the other. -/
theorem restrict_append_eq_iff {values sites others levels levels' : List Nat}
    (hlen : levels.length = sites.length) :
    restrict values (sites ++ others) = levels ++ levels'
      ↔ restrict values sites = levels ∧ restrict values others = levels' := by
  rw [restrict, List.map_append]
  constructor
  · exact fun h => List.append_inj h (by simpa using hlen.symm)
  · rintro ⟨rfl, rfl⟩
    rfl

end Radix

namespace State

variable {s : State (Amplitude ℝ)} {sites values others levels : List Nat}

/-! ## Amplitudes -/

theorem tinyNorm_pos : (0 : ℝ) < tinyNorm := by
  show 0 < 1 / ((1000000000000000 : Nat) : ℝ)
  norm_num

/-- The factor that an amplitude is dropped or kept by. -/
noncomputable def kept (agrees : Bool) : Amplitude ℝ := if agrees then 1 else 0

theorem amp_dropped_eq_mul (s : State (Amplitude ℝ)) (sites values : List Nat) {i : Nat}
    (hi : i < total s.dims) :
    (s.dropped sites values).amp i = kept (Agrees s.dims sites values i) * s.amp i := by
  rw [amp_dropped s sites values hi, kept, ite_mul, one_mul, zero_mul]

/-- The factor that brings what is left to norm one, unless there is too little
left. -/
noncomputable def rescaling (norm : ℝ) : Amplitude ℝ :=
  if tinyNorm < norm then Amplitude.ofReal norm⁻¹ else 1

theorem amp_collapsed_eq_mul (s : State (Amplitude ℝ)) (sites values : List Nat) {i : Nat}
    (hi : i < total s.dims) : (s.collapsed sites values).amp i
      = rescaling (s.keptNorm sites values) * kept (Agrees s.dims sites values i) * s.amp i := by
  rw [amp_collapsed s sites values hi, Amplitude.divReal_eq_mul,
    amp_dropped_eq_mul s sites values hi, rescaling, mul_assoc, ite_mul, one_mul]

/-- What agrees is multiplied by the factor. -/
theorem amp_collapsed_of_agrees {i : Nat} (hi : i < total s.dims)
    (hvalues : restrict (digits i s.dims) sites = values) :
    (s.collapsed sites values).amp i = rescaling (s.keptNorm sites values) * s.amp i := by
  rw [amp_collapsed_eq_mul s sites values hi, kept, if_pos (decide_eq_true hvalues), mul_one]

/-- The factor is a positive number. -/
theorem exists_rescaling_eq (norm : ℝ) : ∃ c : ℝ, 0 < c ∧ rescaling norm = Amplitude.ofReal c := by
  unfold rescaling
  split_ifs with htiny
  · exact ⟨norm⁻¹, inv_pos.mpr (tinyNorm_pos.trans htiny), rfl⟩
  · exact ⟨1, one_pos, rfl⟩

/-- **What is left by a collapse** are the amplitudes that agree with the outcome. -/
theorem amp_collapsed_ne_zero_iff {i : Nat} (hi : i < total s.dims) :
    (s.collapsed sites values).amp i ≠ 0
      ↔ restrict (digits i s.dims) sites = values ∧ s.amp i ≠ 0 := by
  have hdropped : (s.dropped sites values).amp i ≠ 0
      ↔ restrict (digits i s.dims) sites = values ∧ s.amp i ≠ 0 := by
    rw [amp_dropped s sites values hi]
    simp
  rw [amp_collapsed s sites values hi]
  split_ifs with htiny
  · rw [Ne, Amplitude.divReal_eq_zero (tinyNorm_pos.trans htiny).ne']
    exact hdropped
  · exact hdropped

/-- **A collapse leaves something exactly if the outcome has weight.** -/
theorem exists_amp_collapsed_ne_zero_iff :
    (∃ i < total (s.collapsed sites values).dims, (s.collapsed sites values).amp i ≠ 0)
      ↔ 0 < s.weightOf sites values := by
  rw [weightOf_pos_iff, dims_collapsed]
  exact exists_congr fun i => and_congr_right fun hi => amp_collapsed_ne_zero_iff hi

/-! ## Weights -/

/-- The weight of an outcome is the squared norm of what is not dropped. -/
theorem weightAt_agrees (s : State (Amplitude ℝ)) (sites values : List Nat) :
    s.weightAt (positionsWhere s.dims (Agrees s.dims sites values))
      = Scalar.sum (s.dropped sites values).weights := by
  have hamp : ∀ i ∈ List.range (total s.dims), ((s.dropped sites values).amp i).normSq
      = if Agrees s.dims sites values i = true then (s.amp i).normSq else 0 := by
    intro i hi
    rw [amp_dropped s sites values (List.mem_range.mp hi)]
    split_ifs
    · rfl
    · exact Amplitude.normSq_zero
  rw [weights_eq, weightAt, Scalar.sum_eq, Scalar.sum_eq, dims_dropped, List.map_congr_left hamp,
    List.sum_map_ite]
  simp

theorem keptNorm_eq (s : State (Amplitude ℝ)) (sites values : List Nat) :
    s.keptNorm sites values = √(s.weightOf sites values) := rfl

/-- The outcome at no sites has all the weight. -/
theorem weightOf_nil : s.weightOf [] [] = Scalar.sum s.weights := by
  rw [weightOf_of_positions s [] [] (List.range (total s.dims)) (by simp), weights_eq,
    Scalar.sum_eq]

/-- **Weights after a collapse** are those of the outcomes together with the values that were
collapsed onto, times the square of the common factor. -/
theorem weightOf_collapsed (hlen : values.length = sites.length) :
    (s.collapsed sites values).weightOf others levels
      = (rescaling (s.keptNorm sites values)).normSq
        * s.weightOf (sites ++ others) (values ++ levels) := by
  have hagree : (Finset.range (total s.dims)).filter
        (fun k => restrict (digits k s.dims) (sites ++ others) = values ++ levels)
      = ((Finset.range (total s.dims)).filter
        (fun k => restrict (digits k s.dims) others = levels)).filter
          fun k => restrict (digits k s.dims) sites = values := by
    rw [Finset.filter_filter]
    refine Finset.filter_congr fun k _ => ?_
    rw [restrict_append_eq_iff hlen, and_comm]
  -- what disagrees with the values has been dropped and adds nothing
  have hkept : ∀ k ∈ (Finset.range (total s.dims)).filter
        (fun k => restrict (digits k s.dims) others = levels),
      ((s.collapsed sites values).amp k).normSq ≠ 0 →
        restrict (digits k s.dims) sites = values := by
    intro k hk hne
    have hk := Finset.mem_range.mp (Finset.mem_filter.mp hk).1
    have hamp : (s.collapsed sites values).amp k ≠ 0 :=
      fun hzero => hne (Amplitude.normSq_eq_zero.mpr hzero)
    exact ((amp_collapsed_ne_zero_iff hk).mp hamp).1
  rw [weightOf_eq_sum, weightOf_eq_sum, dims_collapsed, hagree, Finset.mul_sum,
    ← Finset.sum_filter_of_ne hkept]
  refine Finset.sum_congr rfl fun k hk => ?_
  obtain ⟨hk, hvalues⟩ := Finset.mem_filter.mp hk
  rw [amp_collapsed_of_agrees (Finset.mem_range.mp (Finset.mem_filter.mp hk).1) hvalues,
    Amplitude.normSq_mul]

/-- The squared norm of what a collapse leaves. -/
theorem sum_weights_collapsed (hlen : values.length = sites.length) :
    Scalar.sum (s.collapsed sites values).weights
      = (rescaling (s.keptNorm sites values)).normSq * s.weightOf sites values := by
  rw [← weightOf_nil, weightOf_collapsed hlen, List.append_nil, List.append_nil]

section

variable (htiny : tinyNorm < √(s.weightOf sites values))

include htiny

theorem weightOf_pos_of_tinyNorm_lt : 0 < s.weightOf sites values :=
  Real.sqrt_pos.mp (tinyNorm_pos.trans htiny)

theorem normSq_rescaling :
    (rescaling (s.keptNorm sites values)).normSq = (s.weightOf sites values)⁻¹ := by
  rw [keptNorm_eq, rescaling, if_pos htiny, Amplitude.normSq_ofReal, inv_pow,
    Real.sq_sqrt (s.weightOf_nonneg sites values)]

/-- **Where the factor divides, weights after a collapse are conditional ones.** -/
theorem weightOf_collapsed_eq_div (hlen : values.length = sites.length) :
    (s.collapsed sites values).weightOf others levels
      = s.weightOf (sites ++ others) (values ++ levels) / s.weightOf sites values := by
  rw [weightOf_collapsed hlen, normSq_rescaling htiny, div_eq_inv_mul]

/-- Such a collapse leaves a state of norm one. -/
theorem sum_weights_collapsed_eq_one (hlen : values.length = sites.length) :
    Scalar.sum (s.collapsed sites values).weights = 1 := by
  rw [sum_weights_collapsed hlen, normSq_rescaling htiny,
    inv_mul_cancel₀ (weightOf_pos_of_tinyNorm_lt htiny).ne']

end

end State

open State

/-- **A collapse drops what disagrees and rescales the rest.** It ends whatever the values are;
amplitudes whose digits are not the values are zero, and the others are what they were times one
positive factor. If the norm of these is above `State.tinyNorm`, the state that is left has norm
one. Otherwise they are left as they are. Nothing is left only if there was nothing to keep. -/
theorem collapse_rescales {s : State (Amplitude ℝ)} {sites values : List Nat}
    (hsites : ∀ i ∈ sites, i < s.dims.length) (hlen : values.length = sites.length) :
    ∃ t, State.collapse sites values s = .ok () t ∧ t.dims = s.dims ∧
      (∀ i < total s.dims, restrict (digits i s.dims) sites ≠ values → t.amp i = 0) ∧
      (∃ c : ℝ, 0 < c ∧ ∀ i < total s.dims, restrict (digits i s.dims) sites = values →
        t.amp i = Amplitude.ofReal c * s.amp i) ∧
      (tinyNorm < √(s.weightOf sites values) → t.norm = 1) ∧
      (√(s.weightOf sites values) ≤ tinyNorm →
        ∀ i < total s.dims, restrict (digits i s.dims) sites = values → t.amp i = s.amp i) ∧
      ((∀ i < total s.dims, t.amp i = 0) ↔
        ∀ i < total s.dims, restrict (digits i s.dims) sites = values → s.amp i = 0) := by
  refine ⟨s.collapsed sites values, collapse_ok s hsites hlen, dims_collapsed s sites values,
    ?_, ?_, ?_, ?_, ?_⟩
  · intro i hi hvalues
    by_contra hne
    exact hvalues ((amp_collapsed_ne_zero_iff hi).mp hne).1
  · obtain ⟨c, hc, hfactor⟩ := exists_rescaling_eq (s.keptNorm sites values)
    exact ⟨c, hc, fun i hi hvalues => hfactor ▸ amp_collapsed_of_agrees hi hvalues⟩
  · intro htiny
    show √(Scalar.sum (s.collapsed sites values).weights) = 1
    rw [sum_weights_collapsed_eq_one htiny hlen, Real.sqrt_one]
  · intro htiny i hi hvalues
    rw [amp_collapsed_of_agrees hi hvalues, keptNorm_eq, rescaling, if_neg (not_lt.mpr htiny),
      one_mul]
  · refine forall_congr' fun i => forall_congr' fun hi => ?_
    have hleft : (s.collapsed sites values).amp i ≠ 0
        ↔ restrict (digits i s.dims) sites = values ∧ s.amp i ≠ 0 := amp_collapsed_ne_zero_iff hi
    rw [← not_iff_not, ← Ne, hleft, Classical.not_imp]

/-- A qubit and a qutrit collapsed at the qutrit: onto a value that two small amplitudes hold,
which leaves norm one, and onto one that no amplitude holds. -/
theorem collapse_rescales_qutrit :
    let s : State (Amplitude ℝ) :=
      ⟨[2, 3], #v[1, 0, ⟨3 / 1000, 0⟩, 0, 0, ⟨0, 4 / 1000⟩]⟩
    (∀ i ∈ [1], i < s.dims.length) ∧ [2].length = [1].length ∧
      (∃ t, State.collapse [1] [2] s = .ok () t ∧ t.norm = 1) ∧
      ∃ t, State.collapse [1] [1] s = .ok () t ∧ ∀ i < total s.dims, t.amp i = 0 := by
  intro s
  have hsites : ∀ i ∈ [1], i < s.dims.length := by decide
  have hsmall : s.weightOf [1] [2] = (1 / 200) ^ 2 := by
    have hamp : s.amp 2 = ⟨3 / 1000, 0⟩ := rfl
    have hamp' : s.amp 5 = ⟨0, 4 / 1000⟩ := rfl
    rw [weightOf_of_positions s _ _ [2, 5] (by decide), List.map_cons, List.map_singleton, hamp,
      hamp']
    norm_num [Amplitude.normSq]
  have hlen : [2].length = [1].length := rfl
  have hlen' : [1].length = [1].length := rfl
  refine ⟨hsites, hlen, ?_, ?_⟩
  · obtain ⟨t, hrun, -, -, -, hnorm, -⟩ := collapse_rescales hsites hlen
    refine ⟨t, hrun, hnorm ?_⟩
    rw [hsmall, Real.sqrt_sq (by norm_num)]
    show 1 / ((1000000000000000 : Nat) : ℝ) < _
    norm_num
  · obtain ⟨t, hrun, -, -, -, -, -, hzero⟩ := collapse_rescales hsites hlen'
    refine ⟨t, hrun, hzero.mpr fun i hi hvalues => ?_⟩
    have hpositions : i ∈ positionsWhere s.dims (Agrees s.dims [1] [1]) :=
      List.mem_filter.mpr ⟨List.mem_range.mpr hi, decide_eq_true hvalues⟩
    rw [show positionsWhere s.dims (Agrees s.dims [1] [1]) = [1, 4] by decide] at hpositions
    obtain rfl | rfl : i = 1 ∨ i = 4 := by simpa using hpositions
    · rfl
    · rfl

/-- **A collapse may leave a state that is neither zero nor of norm one**: a qubit collapsed onto
its second level, whose amplitude is a tenth of `State.tinyNorm`. -/
theorem collapse_keeps_tiny_norm :
    let s : State (Amplitude ℝ) := ⟨[2], #v[1, ⟨1 / 10 ^ 16, 0⟩]⟩
    s.amp 1 ≠ 0 ∧ ∃ t, State.collapse [0] [1] s = .ok () t ∧ t.amp 1 = s.amp 1 ∧
      t.norm = 1 / 10 ^ 16 ∧ t.norm ≠ 1 := by
  intro s
  have hlen : [1].length = [0].length := rfl
  have hsmall : s.amp 1 = ⟨1 / 10 ^ 16, 0⟩ := rfl
  have hnorm : s.keptNorm [0] [1] = 1 / 10 ^ 16 := by
    rw [keptNorm_eq, weightOf_of_positions s _ _ [1] (by decide), List.map_singleton, hsmall,
      List.sum_singleton, show (⟨1 / 10 ^ 16, 0⟩ : Amplitude ℝ) = .ofReal (1 / 10 ^ 16) from rfl,
      Amplitude.normSq_ofReal, Real.sqrt_sq (by positivity)]
  have hfactor : rescaling (s.keptNorm [0] [1]) = 1 := by
    rw [rescaling, if_neg]
    rw [hnorm, not_lt]
    show 1 / 10 ^ 16 ≤ 1 / ((1000000000000000 : Nat) : ℝ)
    norm_num
  have hleft : (s.collapsed [0] [1]).norm = 1 / 10 ^ 16 := by
    show √(Scalar.sum (s.collapsed [0] [1]).weights) = 1 / 10 ^ 16
    rw [sum_weights_collapsed hlen, hfactor, Amplitude.normSq_one, one_mul, ← keptNorm_eq, hnorm]
  refine ⟨fun hzero => ?_, s.collapsed [0] [1], collapse_ok s (by decide) hlen, ?_, hleft, ?_⟩
  · rw [hsmall] at hzero
    have hre := congrArg Amplitude.re hzero
    norm_num at hre
  · rw [amp_collapsed_of_agrees (by decide) (by decide), hfactor, one_mul]
  · rw [hleft]
    norm_num

end Qudit
