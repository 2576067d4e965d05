import Qudit.Proofs.State.Born
import Qudit.Proofs.State.Collapse
import Qudit.Proofs.State.Marginals

/-!
# Conditional weights

What is listed for an outcome after a collapse is what was listed for it together with the values
that were collapsed onto, divided by what was listed for these alone. Nothing is asked of the two
lists of sites, which may share sites and repeat them, nor of the norm of the state; only what the
collapse keeps has to be larger than `State.tinyNorm`.

In a state of norm one, measuring some sites and then others is thus the same as measuring all of
them at once, in the sense of `collapse_conditional`: the pairs of numbers of the unit interval for
which the two measurements give two outcomes measure as much as the single numbers for which the
one measurement gives both. A measurement compares the number it draws with the weights as they
are, so the norm matters to the first measurement; a collapse leaves norm one, so it never matters
to the second. This is why the two ways differ in a state of another norm (`joint_law_unscaled`).
-/

namespace Qudit

open MeasureTheory Radix

namespace State

variable {s t : State (Amplitude ℝ)} {sites values first second others : List Nat} {r : ℝ}

/-- **A number below the squared norm yields the outcome in whose share it is**, and the state
collapsed onto it. -/
theorem yields_iff_mem_share (hsites : ∀ i ∈ sites, i < s.dims.length)
    (hr : r ∈ Set.Ico 0 (Scalar.sum s.weights)) :
    s.Yields sites r values t ↔ r ∈ s.share sites values ∧ t = s.collapsed sites values := by
  have hpos : 0 ∉ restrict s.dims sites :=
    zero_notMem_restrict_of_sum_weights_ne_zero hsites (hr.1.trans_lt hr.2).ne'
  rw [yields_iff hsites hpos, ← measured_eq_iff hsites hr.1 hr.2, eq_comm (a := values)]

theorem volume_share (s : State (Amplitude ℝ)) (sites values : List Nat) :
    volume (s.share sites values) = ENNReal.ofReal (s.weightOf sites values) := by
  rw [share, Real.volume_Ico, add_sub_cancel_left]

/-- The numbers that yield an outcome, among those below a bound, are those of its share. -/
theorem setOf_yields_eq_inter (hsites : ∀ i ∈ sites, i < s.dims.length) {bound : ℝ}
    (hbound : bound ≤ Scalar.sum s.weights) :
    {r | r ∈ Set.Ico 0 bound ∧ ∃ t, s.Yields sites r values t}
      = Set.Ico 0 bound ∩ s.share sites values := by
  ext r
  refine and_congr_right fun hr => ?_
  have hbelow : r ∈ Set.Ico 0 (Scalar.sum s.weights) := ⟨hr.1, hr.2.trans_le hbound⟩
  constructor
  · rintro ⟨t, ht⟩
    exact ((yields_iff_mem_share hsites hbelow).mp ht).1
  · intro hshare
    exact ⟨_, (yields_iff_mem_share hsites hbelow).mpr ⟨hshare, rfl⟩⟩

/-- The pairs of numbers that yield two outcomes one after the other are a rectangle. -/
theorem setOf_yields_yields_eq_prod (hfirst : ∀ i ∈ first, i < s.dims.length)
    (hsecond : ∀ i ∈ second, i < s.dims.length) (hlen : values.length = first.length)
    (htiny : tinyNorm < √(s.weightOf first values)) {bound : ℝ}
    (hbound : bound ≤ Scalar.sum s.weights) :
    {r : ℝ × ℝ | r.1 ∈ Set.Ico 0 bound ∧ r.2 ∈ Set.Ico (0 : ℝ) 1 ∧
        ∃ t u, s.Yields first r.1 values t ∧ t.Yields second r.2 others u}
      = (Set.Ico 0 bound ∩ s.share first values)
          ×ˢ (s.collapsed first values).share second others := by
  -- after the first collapse the squared norm is one, so the second number may be any of the
  -- unit interval
  have hone := sum_weights_collapsed_eq_one htiny hlen
  have hsecond' : ∀ i ∈ second, i < (s.collapsed first values).dims.length := by
    rwa [dims_collapsed]
  have hbelow : ∀ r ∈ Set.Ico 0 bound, r ∈ Set.Ico 0 (Scalar.sum s.weights) :=
    fun r hr => ⟨hr.1, hr.2.trans_le hbound⟩
  ext ⟨r, r'⟩
  constructor
  · rintro ⟨hr, hr', t, u, ht, hu⟩
    obtain ⟨hshare, rfl⟩ := (yields_iff_mem_share hfirst (hbelow r hr)).mp ht
    exact ⟨⟨hr, hshare⟩, ((yields_iff_mem_share hsecond' (hone.symm ▸ hr')).mp hu).1⟩
  · rintro ⟨⟨hr, hshare⟩, hr'⟩
    have hbelow' := share_subset hsecond' hr'
    exact ⟨hr, hone ▸ hbelow', _, _, (yields_iff_mem_share hfirst (hbelow r hr)).mpr ⟨hshare, rfl⟩,
      (yields_iff_mem_share hsecond' hbelow').mpr ⟨hr', rfl⟩⟩

/-- In a state of norm one, shares lie in the unit interval. -/
theorem inter_share (hnorm : Scalar.sum s.weights = 1) (hsites : ∀ i ∈ sites, i < s.dims.length) :
    Set.Ico 0 1 ∩ s.share sites values = s.share sites values :=
  Set.inter_eq_right.mpr (hnorm ▸ share_subset hsites)

end State

open State

/-- **A collapse leaves the conditional weights.** Let `p` be listed for the values at the first
sites, with a square root above `State.tinyNorm`. After collapsing onto these values, `q / p` is
listed for an outcome at the second sites, where `q` was listed for the values and the outcome
at all these sites together. And in a state of norm one, with numbers drawn from the unit
interval, measuring the first sites and after them the second gives the values and then the
outcome as often as measuring all of them at once gives both. -/
theorem collapse_conditional {s : State (Amplitude ℝ)} {first second values : List Nat}
    (hfirst : ∀ i ∈ first, i < s.dims.length) (hsecond : ∀ i ∈ second, i < s.dims.length)
    (hvalues : Valid (restrict s.dims first) values) {p : ℝ} (hp : s.Lists first values p)
    (htiny : tinyNorm < √p) :
    ∃ t, State.collapse first values s = .ok () t ∧ t.dims = s.dims ∧
      ∀ others, Valid (restrict s.dims second) others → ∃ q,
        s.Lists (first ++ second) (values ++ others) q ∧ t.Lists second others (q / p) ∧
        (Scalar.sum s.weights = 1 →
          volume {r : ℝ × ℝ | r.1 ∈ Set.Ico (0 : ℝ) 1 ∧ r.2 ∈ Set.Ico (0 : ℝ) 1 ∧
              ∃ t u, s.Yields first r.1 values t ∧ t.Yields second r.2 others u}
            = volume {r | r ∈ Set.Ico (0 : ℝ) 1 ∧
              ∃ u, s.Yields (first ++ second) r (values ++ others) u}) := by
  obtain rfl := (lists_iff hfirst hvalues).mp hp
  have hlen : values.length = first.length := by simpa using hvalues.length_eq
  have hboth : ∀ i ∈ first ++ second, i < s.dims.length :=
    fun i hi => (List.mem_append.mp hi).elim (hfirst i) (hsecond i)
  have hpos := weightOf_pos_of_tinyNorm_lt htiny
  refine ⟨s.collapsed first values, collapse_ok s hfirst hlen, dims_collapsed s first values,
    fun others hothers => ?_⟩
  have hjoint : Valid (restrict s.dims (first ++ second)) (values ++ others) := by
    rw [restrict, List.map_append]
    exact List.rel_append hvalues hothers
  have hconditional : (s.collapsed first values).weightOf second others
      = s.weightOf (first ++ second) (values ++ others) / s.weightOf first values :=
    weightOf_collapsed_eq_div htiny hlen
  refine ⟨_, (lists_iff hboth hjoint).mpr rfl, ?_, fun hnorm => ?_⟩
  · rw [lists_iff (by rwa [dims_collapsed]) (by rwa [dims_collapsed]), hconditional]
  · rw [setOf_yields_yields_eq_prod hfirst hsecond hlen htiny hnorm.ge,
      setOf_yields_eq_inter hboth hnorm.ge, inter_share hnorm hfirst, inter_share hnorm hboth,
      Measure.volume_eq_prod, Measure.prod_prod, volume_share, volume_share, volume_share,
      ← ENNReal.ofReal_mul hpos.le, hconditional, mul_div_cancel₀ _ hpos.ne']

/-- A qutrit found on its middle level, and after it the qubit beside it, the qutrit again and the
qubit again: of the two amplitudes that are left the second has sixteen parts in twenty-five. -/
theorem collapse_conditional_overlap :
    let s : State (Amplitude ℝ) :=
      ⟨[2, 3], #v[0, ⟨3 / 13, 0⟩, ⟨0, 12 / 13⟩, 0, ⟨4 / 13, 0⟩, 0]⟩
    (∀ i ∈ [1], i < s.dims.length) ∧ (∀ i ∈ [0, 1, 0], i < s.dims.length) ∧
      Valid (restrict s.dims [1]) [1] ∧ s.Lists [1] [1] (25 / 169) ∧
      tinyNorm < √(25 / 169 : ℝ) ∧
      (∃ t, State.collapse [1] [1] s = .ok () t ∧ t.Lists [0, 1, 0] [1, 1, 1] (16 / 25)) ∧
      Scalar.sum s.weights = 1 ∧
      volume {r : ℝ × ℝ | r.1 ∈ Set.Ico (0 : ℝ) 1 ∧ r.2 ∈ Set.Ico (0 : ℝ) 1 ∧
          ∃ t u, s.Yields [1] r.1 [1] t ∧ t.Yields [0, 1, 0] r.2 [1, 1, 1] u}
        = ENNReal.ofReal (16 / 169) := by
  intro s
  have hfirst : ∀ i ∈ [1], i < s.dims.length := by decide
  have hsecond : ∀ i ∈ [0, 1, 0], i < s.dims.length := by decide
  have hboth : ∀ i ∈ [1] ++ [0, 1, 0], i < s.dims.length := by decide
  have hvalues : Valid [3] [1] := by simp [Valid]
  have hothers : Valid [2, 3, 2] [1, 1, 1] := by simp [Valid]
  have hjoint : Valid (restrict s.dims ([1] ++ [0, 1, 0])) ([1] ++ [1, 1, 1]) := by
    show Valid [3, 2, 3, 2] [1, 1, 1, 1]
    simp [Valid]
  have hamp : s.amp 1 = ⟨3 / 13, 0⟩ := rfl
  have hamp' : s.amp 4 = ⟨4 / 13, 0⟩ := rfl
  have hnorm : Scalar.sum s.weights = 1 := by
    have hweights : s.weights = [0, 9 / 169, 144 / 169, 0, 16 / 169, 0] := by
      show [_, _, _, _, _, _] = _
      norm_num [Amplitude.normSq]
    rw [hweights, Scalar.sum_eq]
    norm_num
  have hp : s.weightOf [1] [1] = 25 / 169 := by
    rw [weightOf_of_positions s _ _ [1, 4] (by decide), List.map_cons, List.map_singleton, hamp,
      hamp']
    norm_num [Amplitude.normSq]
  have hq : s.weightOf ([1] ++ [0, 1, 0]) ([1] ++ [1, 1, 1]) = 16 / 169 := by
    rw [weightOf_of_positions s _ _ [4] (by decide), List.map_singleton, hamp']
    norm_num [Amplitude.normSq]
  have hlisted : s.Lists [1] [1] (25 / 169) := (lists_iff hfirst hvalues).mpr hp.symm
  have htiny : tinyNorm < √(25 / 169 : ℝ) := by
    rw [show (25 / 169 : ℝ) = (5 / 13) ^ 2 by norm_num, Real.sqrt_sq (by norm_num)]
    show 1 / ((1000000000000000 : Nat) : ℝ) < 5 / 13
    norm_num
  obtain ⟨t, hrun, -, hall⟩ := collapse_conditional hfirst hsecond hvalues hlisted htiny
  obtain ⟨q, hlists, hleft, hvolume⟩ := hall [1, 1, 1] hothers
  obtain rfl := ((lists_iff hboth hjoint).mp hlists).trans hq
  have hvolume := hvolume hnorm
  rw [setOf_yields_eq_inter hboth hnorm.ge, inter_share hnorm hboth, volume_share, hq] at hvolume
  refine ⟨hfirst, hsecond, hvalues, hlisted, htiny, ⟨t, hrun, ?_⟩, hnorm, hvolume⟩
  rwa [show (16 / 169 : ℝ) / (25 / 169) = 16 / 25 by norm_num] at hleft

/-- Two amplitudes of weight one each, where the first qubit is zero. This is what the first qubit
is found to be, and the second is then zero or one in equal parts. Measured at once, both are
zero: the number drawn never reaches the second weight. -/
theorem joint_law_unscaled :
    let s : State (Amplitude ℝ) := ⟨[2, 2], #v[1, 1, 0, 0]⟩
    s.Lists [0] [0] 2 ∧ tinyNorm < √(2 : ℝ) ∧
      volume {r : ℝ × ℝ | r.1 ∈ Set.Ico (0 : ℝ) 1 ∧ r.2 ∈ Set.Ico (0 : ℝ) 1 ∧
          ∃ t u, s.Yields [0] r.1 [0] t ∧ t.Yields [1] r.2 [0] u}
        = ENNReal.ofReal (1 / 2) ∧
      volume {r | r ∈ Set.Ico (0 : ℝ) 1 ∧ ∃ u, s.Yields ([0] ++ [1]) r ([0] ++ [0]) u} = 1 := by
  intro s
  have hsites : ∀ i ∈ [0] ++ [1], i < s.dims.length := by decide
  have hfirst : ∀ i ∈ [0], i < s.dims.length := by decide
  have hsecond : ∀ i ∈ [1], i < s.dims.length := by decide
  have hamp : s.amp 0 = 1 := rfl
  have hamp' : s.amp 1 = 1 := rfl
  have hnorm : Scalar.sum s.weights = 2 := by
    have hweights : s.weights = [1, 1, 0, 0] := by
      show [_, _, _, _] = _
      norm_num [Amplitude.normSq]
    rw [hweights, Scalar.sum_eq]
    norm_num
  have hp : s.weightOf [0] [0] = 2 := by
    rw [weightOf_of_positions s _ _ [0, 1] (by decide), List.map_cons, List.map_singleton, hamp,
      hamp']
    norm_num [Amplitude.normSq]
  have hq : s.weightOf ([0] ++ [1]) ([0] ++ [0]) = 1 := by
    rw [weightOf_of_positions s _ _ [0] (by decide), List.map_singleton, hamp]
    norm_num [Amplitude.normSq]
  have htiny : tinyNorm < √(2 : ℝ) := by
    refine Real.lt_sqrt_of_sq_lt ?_
    show (1 / ((1000000000000000 : Nat) : ℝ)) ^ 2 < 2
    norm_num
  -- no outcome comes before either of the two
  have hshare : s.share [0] [0] = Set.Ico 0 2 := by
    have hbefore : s.weightBefore [0] [0] = 0 := Finset.sum_range_zero _
    rw [share, hbefore, hp, zero_add]
  have hshare' : s.share ([0] ++ [1]) ([0] ++ [0]) = Set.Ico 0 1 := by
    have hbefore : s.weightBefore ([0] ++ [1]) ([0] ++ [0]) = 0 := Finset.sum_range_zero _
    rw [share, hbefore, hq, zero_add]
  have hbound : (1 : ℝ) ≤ Scalar.sum s.weights := by
    rw [hnorm]
    norm_num
  refine ⟨(lists_iff hfirst (by simp [s, Valid])).mpr hp.symm, htiny, ?_, ?_⟩
  · rw [setOf_yields_yields_eq_prod hfirst hsecond rfl (hp ▸ htiny) hbound, hshare,
      Set.Ico_inter_Ico, Measure.volume_eq_prod, Measure.prod_prod, volume_share,
      weightOf_collapsed_eq_div (hp ▸ htiny) rfl, hp, hq, Real.volume_Ico]
    norm_num
  · rw [setOf_yields_eq_inter hsites hbound, hshare', Set.inter_self, Real.volume_Ico]
    norm_num

end Qudit
