import Mathlib.MeasureTheory.Measure.Lebesgue.Basic
import Qudit.Proofs.State.Outcomes

/-!
# The Born rule

In a state of norm one the weight of an outcome is the probability that measuring gives it,
when the number drawn is uniform on the unit interval (`measure_born`).

The numbers for which an outcome is given are its share of the interval (`State.share`). It
starts where the shares of the outcomes before it end, in row-major order of the values at the
sites as listed, and is as long as the weight of the outcome. Two translations meet in this:
the search for a number among running sums gives a position (`pick_eq_iff`), and a position is
written as the values at the listed sites and read back from them (`digits_index`). Values that
no position reads as have no weight, and their share is empty wherever it would start, so that
nothing has to be asked of an outcome.
-/

namespace Qudit

open MeasureTheory Radix

namespace State

/-- The sum of the weights of the outcomes before one, in row-major order. -/
noncomputable def weightBefore (s : State (Amplitude ℝ)) (sites values : List Nat) : ℝ :=
  ∑ j ∈ Finset.range (index values (restrict s.dims sites)),
    s.weightOf sites (digits j (restrict s.dims sites))

/-- **The share of an outcome**: the numbers from the sum of the weights before it on, as far
as its own weight reaches. -/
noncomputable def share (s : State (Amplitude ℝ)) (sites values : List Nat) : Set ℝ :=
  Set.Ico (s.weightBefore sites values) (s.weightBefore sites values + s.weightOf sites values)

variable {s : State (Amplitude ℝ)} {sites values : List Nat} {r : ℝ}

theorem weightOf_ne_zero_of_mem_share (h : r ∈ s.share sites values) :
    s.weightOf sites values ≠ 0 := by
  have hlt := h.1.trans_lt h.2
  exact (pos_of_lt_add_right hlt).ne'

/-- The share of an outcome ends where the shares of the outcomes after it start. -/
theorem weightBefore_add_weightOf (hvalid : Valid (restrict s.dims sites) values) :
    s.weightBefore sites values + s.weightOf sites values
      = ∑ j ∈ Finset.range (index values (restrict s.dims sites) + 1),
          s.weightOf sites (digits j (restrict s.dims sites)) := by
  rw [Finset.sum_range_succ, digits_index hvalid]
  rfl

/-- **An outcome is given for the numbers of its share**, among those below the squared
norm. -/
theorem measured_eq_iff (hsites : ∀ i ∈ sites, i < s.dims.length) (hr : 0 ≤ r)
    (hlt : r < Scalar.sum s.weights) :
    s.measured sites r = values ↔ r ∈ s.share sites values := by
  rw [← sum_weightOf hsites] at hlt
  have hpick := fun k => pick_eq_iff
    (fun j => s.weightOf_nonneg sites (digits j (restrict s.dims sites))) hr hlt (k := k)
  rw [measured_eq_digits s hsites]
  constructor
  · rintro rfl
    obtain ⟨hk, hle, hgt⟩ := (hpick _).mp rfl
    refine ⟨?_, ?_⟩
    · rwa [weightBefore, index_digits_of_lt hk]
    · rwa [weightBefore_add_weightOf (valid_digits_of_lt hk), index_digits_of_lt hk]
  · intro hmem
    have hvalid := valid_of_weightOf_ne_zero hsites (weightOf_ne_zero_of_mem_share hmem)
    have hgt := hmem.2
    rw [weightBefore_add_weightOf hvalid] at hgt
    rw [(hpick _).mpr ⟨index_lt_total hvalid, hmem.1, hgt⟩, digits_index hvalid]

/-- Shares lie below the squared norm. -/
theorem share_subset (hsites : ∀ i ∈ sites, i < s.dims.length) :
    s.share sites values ⊆ Set.Ico 0 (Scalar.sum s.weights) := by
  intro r hmem
  have hnonneg := fun j => s.weightOf_nonneg sites (digits j (restrict s.dims sites))
  have hvalid := valid_of_weightOf_ne_zero hsites (weightOf_ne_zero_of_mem_share hmem)
  refine ⟨(Finset.sum_nonneg fun j _ => hnonneg j).trans hmem.1, hmem.2.trans_le ?_⟩
  rw [weightBefore_add_weightOf hvalid, ← sum_weightOf hsites]
  exact monotone_sum_range hnonneg (index_lt_total hvalid)

/-- A register with an amplitude that is not zero has no site of dimension zero. -/
theorem zero_notMem_restrict_of_sum_weights_ne_zero (hsites : ∀ i ∈ sites, i < s.dims.length)
    (h : Scalar.sum s.weights ≠ 0) : 0 ∉ restrict s.dims sites := by
  intro hzero
  refine h ?_
  rw [weights_eq, (total_eq_zero_iff s.dims).mpr (mem_of_mem_restrict hsites hzero)]
  rfl

end State

open State

/-- **Measuring follows the Born rule.** In a state of norm one, the weights that are drawn
from are those of the outcomes. With a number of the unit interval drawn, an outcome is given
exactly if the number is in its share; and a measurement draws such a number from its source.
Each number is in one share, and shares hold no other numbers. So the numbers for which an
outcome is given measure as much as it weighs, and one without weight is never given. -/
theorem measure_born {s : State (Amplitude ℝ)} (hnorm : Scalar.sum s.weights = 1)
    {sites : List Nat} (hsites : ∀ i ∈ sites, i < s.dims.length) :
    s.marginal sites = .ok ((List.range (total (restrict s.dims sites))).map fun j =>
        s.weightOf sites (digits j (restrict s.dims sites))) ∧
      (∀ r ∈ Set.Ico (0 : ℝ) 1, ∀ values,
        (∃ t, s.Yields sites r values t) ↔ r ∈ s.share sites values) ∧
      (∀ source values, (∃ t source', State.measure (some sites) (s, source)
        = .ok values (t, source')) ↔ source.nextUnit.1 ∈ s.share sites values) ∧
      (∀ r ∈ Set.Ico (0 : ℝ) 1, ∃! values, r ∈ s.share sites values) ∧
      (∀ values, s.share sites values ⊆ Set.Ico 0 1) ∧
      (∀ values, volume {r | r ∈ Set.Ico (0 : ℝ) 1 ∧ ∃ t, s.Yields sites r values t}
        = ENNReal.ofReal (s.weightOf sites values)) ∧
      ∀ values, s.weightOf sites values = 0 →
        ∀ r ∈ Set.Ico (0 : ℝ) 1, ∀ t, ¬s.Yields sites r values t := by
  have hpos : 0 ∉ restrict s.dims sites :=
    zero_notMem_restrict_of_sum_weights_ne_zero hsites (hnorm ▸ one_ne_zero)
  have hmeasured : ∀ r ∈ Set.Ico (0 : ℝ) 1, ∀ values,
      s.measured sites r = values ↔ r ∈ s.share sites values :=
    fun r hr values => measured_eq_iff hsites hr.1 (hnorm.symm ▸ hr.2)
  have hyields : ∀ r ∈ Set.Ico (0 : ℝ) 1, ∀ values,
      (∃ t, s.Yields sites r values t) ↔ r ∈ s.share sites values := by
    intro r hr values
    rw [← hmeasured r hr]
    constructor
    · rintro ⟨t, ht⟩
      exact ((yields_iff hsites hpos).mp ht).1.symm
    · rintro rfl
      exact ⟨_, (yields_iff hsites hpos).mpr ⟨rfl, rfl⟩⟩
  have hsubset : ∀ values, s.share sites values ⊆ Set.Ico 0 1 :=
    fun values => hnorm ▸ share_subset hsites
  refine ⟨marginal_eq_weightOf hsites, hyields, ?_, ?_, hsubset, ?_, ?_⟩
  · intro source values
    refine Iff.trans ?_ (hyields source.nextUnit.1 (Source.unit_mem source.next.1) values)
    constructor
    · rintro ⟨t, source', hrun⟩
      exact ⟨t, (measure_eq_ok_iff.mp hrun).1⟩
    · rintro ⟨t, ht⟩
      exact ⟨t, _, measure_eq_ok_iff.mpr ⟨ht, rfl⟩⟩
  · intro r hr
    exact ⟨s.measured sites r, (hmeasured r hr _).mp rfl,
      fun values hvalues => ((hmeasured r hr values).mpr hvalues).symm⟩
  · intro values
    have hshare : {r | r ∈ Set.Ico (0 : ℝ) 1 ∧ ∃ t, s.Yields sites r values t}
        = s.share sites values := by
      ext r
      exact ⟨fun ⟨hr, ht⟩ => (hyields r hr values).mp ht,
        fun hr => ⟨hsubset values hr, (hyields r (hsubset values hr) values).mpr hr⟩⟩
    rw [hshare, share, Real.volume_Ico, add_sub_cancel_left]
  · intro values hzero r hr t ht
    exact weightOf_ne_zero_of_mem_share ((hyields r hr values).mp ⟨t, ht⟩) hzero

/-- A qubit and a qutrit, the qutrit measured before the qubit and once more after it: the
outcome of the heavier amplitude, and one in which the qutrit disagrees with itself. -/
theorem measure_born_repeated :
    let s : State (Amplitude ℝ) := ⟨[2, 3], #v[0, 0, ⟨3 / 5, 0⟩, ⟨0, 4 / 5⟩, 0, 0]⟩
    Scalar.sum s.weights = 1 ∧ (∀ i ∈ [1, 0, 1], i < s.dims.length) ∧
      volume {r | r ∈ Set.Ico (0 : ℝ) 1 ∧ ∃ t, s.Yields [1, 0, 1] r [0, 1, 0] t}
        = ENNReal.ofReal (16 / 25) ∧
      ∀ r ∈ Set.Ico (0 : ℝ) 1, ∀ t, ¬s.Yields [1, 0, 1] r [0, 1, 2] t := by
  intro s
  have hnorm : Scalar.sum s.weights = 1 := by
    have hweights : s.weights = [0, 0, 9 / 25, 16 / 25, 0, 0] := by
      show [_, _, _, _, _, _] = _
      norm_num [Amplitude.normSq]
    rw [hweights, Scalar.sum_eq]
    norm_num
  have hsites : ∀ i ∈ [1, 0, 1], i < s.dims.length := by decide
  have hheavy : s.weightOf [1, 0, 1] [0, 1, 0] = 16 / 25 := by
    have hamp : s.amp 3 = ⟨0, 4 / 5⟩ := rfl
    rw [weightOf_of_positions s _ _ [3] (by decide), List.map_singleton, hamp]
    norm_num [Amplitude.normSq]
  have hnone : s.weightOf [1, 0, 1] [0, 1, 2] = 0 :=
    weightOf_of_positions s _ _ [] (by decide)
  obtain ⟨-, -, -, -, -, hvolume, hnever⟩ := measure_born hnorm hsites
  exact ⟨hnorm, hsites, hheavy ▸ hvolume [0, 1, 0], hnever [0, 1, 2] hnone⟩

end Qudit
