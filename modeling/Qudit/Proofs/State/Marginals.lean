import Mathlib.Analysis.Real.Sqrt
import Qudit.Proofs.State.Outcomes

/-!
# Marginal weights at any sites

What is listed for some sites of a register is the weight of each of their outcomes, at the
row-major position of the outcome over the dimensions of the sites as listed
(`State.Lists`). The sites may come in any order, and one may come more than once; an outcome
that holds different values for it then stands in the list like the others, with no weight
(`State.weightOf_eq_zero_of_disagree`).

All of it is in `probs_eq_sums`. Every position of the register adds to one entry of the list
and to no other, so that the entries sum to the squared norm; and with every site listed once
and in order each entry is one squared modulus, which is what is given when no sites are listed
at all (`State.marginal_range`).
-/

namespace Qudit

namespace Radix

/-- A list of values that disagrees with itself on a site that is listed twice is not read
anywhere. -/
theorem restrict_ne_of_disagree {values sites levels : List Nat} {i j : Nat}
    (hsite : sites[i]? = sites[j]?) (hlevel : levels[i]? ≠ levels[j]?) :
    restrict values sites ≠ levels := by
  rintro rfl
  refine hlevel ?_
  rw [restrict, List.getElem?_map, List.getElem?_map, hsite]

end Radix

open Radix

namespace State

/-- **The weight that is listed for an outcome** at some sites, at its row-major position. -/
def Lists {R : Type} [Scalar R] (s : State (Amplitude R)) (sites values : List Nat) (w : R) :
    Prop :=
  ∃ weights, s.probs (some sites) = .ok weights ∧
    weights[index values (restrict s.dims sites)]? = some w

variable {s : State (Amplitude ℝ)} {sites values : List Nat} {w : ℝ}

/-- Among the weights in row-major order, that of an outcome stands at its position. -/
theorem getElem?_weights (hvalues : Valid (restrict s.dims sites) values) :
    ((List.range (total (restrict s.dims sites))).map fun j =>
        s.weightOf sites (digits j (restrict s.dims sites)))[index values (restrict s.dims sites)]?
      = some (s.weightOf sites values) := by
  rw [List.getElem?_map, List.getElem?_range (index_lt_total hvalues), Option.map_some,
    digits_index hvalues]

/-- What is listed for an outcome is its weight. -/
theorem lists_iff (hsites : ∀ i ∈ sites, i < s.dims.length)
    (hvalues : Valid (restrict s.dims sites) values) :
    s.Lists sites values w ↔ w = s.weightOf sites values := by
  constructor
  · rintro ⟨weights, hweights, hw⟩
    rw [probs, marginal_eq_weightOf hsites] at hweights
    obtain ⟨⟩ := hweights
    rw [getElem?_weights hvalues] at hw
    exact (Option.some.inj hw).symm
  · rintro rfl
    exact ⟨_, marginal_eq_weightOf hsites, getElem?_weights hvalues⟩

/-- An outcome that disagrees with itself on a site that is listed twice has no weight. -/
theorem weightOf_eq_zero_of_disagree {i j : Nat} (hsite : sites[i]? = sites[j]?)
    (hvalue : values[i]? ≠ values[j]?) : s.weightOf sites values = 0 := by
  rw [weightOf_eq_sum]
  refine Finset.sum_eq_zero fun k hk => ?_
  exact absurd (Finset.mem_filter.mp hk).2 (restrict_ne_of_disagree hsite hvalue)

/-- Over the real numbers the weights of all sites in order are the squared moduli. -/
theorem marginal_range : s.marginal (List.range s.numSites) = .ok s.weights :=
  marginal_range_of_zero_add s fun _ => zero_add _

end State

open State

/-- **The listed weights are sums of squared moduli, for every list of sites.** The list has one
entry for each combination of values at the sites. The entry of an outcome is the sum over the
positions whose digits at the sites are the outcome, which are none if the outcome disagrees
with itself on a site that is listed twice. All entries together give the squared norm. Where no
sites are listed the weights are those of all sites in order. -/
theorem probs_eq_sums {s : State (Amplitude ℝ)} {sites : List Nat}
    (hsites : ∀ i ∈ sites, i < s.dims.length) :
    ∃ weights, s.probs (some sites) = .ok weights ∧
      weights.length = (sites.map fun i => s.dims.getD i 0).prod ∧
      (∀ values, Valid (restrict s.dims sites) values →
        weights[index values (restrict s.dims sites)]? = some
          (∑ k ∈ (Finset.range (total s.dims)).filter
            (fun k => restrict (digits k s.dims) sites = values), (s.amp k).normSq)) ∧
      (∀ values, Valid (restrict s.dims sites) values →
        (∃ i j : Nat, sites[i]? = sites[j]? ∧ values[i]? ≠ values[j]?) →
        weights[index values (restrict s.dims sites)]? = some 0) ∧
      weights.sum = s.norm ^ 2 ∧
      s.probs none = s.probs (some (List.range s.numSites)) := by
  refine ⟨_, marginal_eq_weightOf hsites, ?_, ?_, ?_, ?_, marginal_range.symm⟩
  · rw [List.length_map, List.length_range, total_eq_prod, restrict]
  · intro values hvalues
    rw [getElem?_weights hvalues, weightOf_eq_sum]
  · rintro values hvalues ⟨i, j, hsite, hvalue⟩
    rw [getElem?_weights hvalues, weightOf_eq_zero_of_disagree hsite hvalue]
  · have hnonneg : 0 ≤ Scalar.sum s.weights := by
      rw [← sum_weightOf hsites]
      exact Finset.sum_nonneg fun j _ => s.weightOf_nonneg sites _
    rw [sum_map_range, sum_weightOf hsites]
    exact (Real.sq_sqrt hnonneg).symm

/-- A qubit and a qutrit, the qutrit listed before the qubit and once more after it: eighteen
entries, of which one holds the heavier amplitude, and none of those in which the qutrit
disagrees with itself holds anything. -/
theorem probs_eq_sums_repeated :
    let s : State (Amplitude ℝ) := ⟨[2, 3], #v[0, 0, ⟨3 / 5, 0⟩, ⟨0, 4 / 5⟩, 0, 0]⟩
    (∀ i ∈ [1, 0, 1], i < s.dims.length) ∧
      ∃ weights, s.probs (some [1, 0, 1]) = .ok weights ∧ weights.length = 18 ∧
        weights[index [0, 1, 0] [3, 2, 3]]? = some (16 / 25) ∧
        weights[index [0, 1, 2] [3, 2, 3]]? = some 0 := by
  intro s
  have hsites : ∀ i ∈ [1, 0, 1], i < s.dims.length := by decide
  have hfirst : Valid [3, 2, 3] [0, 1, 0] := by simp [Valid]
  have hsecond : Valid [3, 2, 3] [0, 1, 2] := by simp [Valid]
  obtain ⟨weights, hweights, hlength, hentry, hnone, -, -⟩ := probs_eq_sums hsites
  refine ⟨hsites, weights, hweights, hlength, ?_, ?_⟩
  · have hone : ∑ k ∈ (Finset.range (total s.dims)).filter
        (fun k => restrict (digits k s.dims) [1, 0, 1] = [0, 1, 0]), (s.amp k).normSq
        = 16 / 25 := by
      have hfilter : (Finset.range (total s.dims)).filter
          (fun k => restrict (digits k s.dims) [1, 0, 1] = [0, 1, 0]) = {3} := by decide
      have hamp : s.amp 3 = ⟨0, 4 / 5⟩ := rfl
      rw [hfilter, Finset.sum_singleton, hamp]
      norm_num [Amplitude.normSq]
    exact (hentry [0, 1, 0] hfirst).trans (congrArg some hone)
  · exact hnone [0, 1, 2] hsecond ⟨0, 2, rfl, by decide⟩

end Qudit
