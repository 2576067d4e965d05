import Mathlib.Algebra.BigOperators.Intervals
import Qudit.Proofs.Exact.Amplitude
import Qudit.State.Sampling

/-!
# Picking among weights

A number picks the first position at which the running sum of the weights exceeds it. In
exact arithmetic, and with weights that are not negative, the numbers that pick a position
form an interval: it starts at the sum of the weights before the position and is as long as
the weight there (`pick_eq_iff`). Positions without weight therefore have no numbers, and
the intervals follow one another up to the sum of all weights.

A number from there on is in no interval, and the last position is taken for it, whatever
its weight (`pick_of_sum_le`).
-/

namespace Qudit

/-- The number that a word stands for lies between zero and one. -/
theorem Source.unit_mem (w : UInt64) : 0 ≤ (Source.unit w : ℝ) ∧ (Source.unit w : ℝ) < 1 := by
  have hlt : (w >>> 11).toNat < 9007199254740992 := by
    rw [UInt64.toNat_shiftRight, Nat.shiftRight_eq_div_pow]
    have := w.toNat_lt
    show w.toNat / 2 ^ 11 < _
    omega
  have hcast : (((w >>> 11).toNat : Nat) : ℝ) < ((9007199254740992 : Nat) : ℝ) :=
    Nat.cast_lt.mpr hlt
  unfold Source.unit
  refine ⟨by positivity, (div_lt_one ?_).mpr hcast⟩
  norm_num

/-- Running sums of weights that are not negative never fall. -/
theorem monotone_sum_range {f : Nat → ℝ} (hf : ∀ j, 0 ≤ f j) :
    Monotone fun k => ∑ j ∈ Finset.range k, f j :=
  monotone_nat_of_le_succ fun k => by
    rw [Finset.sum_range_succ]
    exact le_add_of_nonneg_right (hf k)

/-- Where no position is found, the number is at least the sum of all weights. -/
theorem sum_le_of_firstAbove_eq_none {r acc : ℝ} {i : Nat} {weights : List ℝ} (hacc : acc ≤ r)
    (h : firstAbove r acc i weights = none) : acc + weights.sum ≤ r := by
  induction weights generalizing acc i with
  | nil => simpa using hacc
  | cons w ws ih =>
    rw [firstAbove] at h
    split_ifs at h with hlt
    rw [List.sum_cons, ← add_assoc]
    exact ih (not_lt.mp hlt) h

/-- **The position that is found** from a place on that the running sum has not exceeded the
number at. -/
theorem firstAbove_eq_some_iff {f : Nat → ℝ} (hf : ∀ j, 0 ≤ f j) {r : ℝ} {n i k : Nat}
    (hi : ∑ j ∈ Finset.range i, f j ≤ r) :
    firstAbove r (∑ j ∈ Finset.range i, f j) i ((List.range' i n).map f) = some k
      ↔ (i ≤ k ∧ k < i + n) ∧ ∑ j ∈ Finset.range k, f j ≤ r ∧
        r < ∑ j ∈ Finset.range (k + 1), f j := by
  induction n generalizing i with
  | zero =>
    constructor
    · intro h
      cases h
    · rintro ⟨⟨hik, hki⟩, -⟩
      omega
  | succ n ih =>
    rw [List.range'_succ, List.map_cons, firstAbove, ← Finset.sum_range_succ]
    split_ifs with hlt
    · constructor
      · rintro ⟨⟩
        exact ⟨⟨le_rfl, by omega⟩, hi, hlt⟩
      · -- a later position would have a running sum before it that is too large
        rintro ⟨⟨hik, -⟩, hk, -⟩
        have hki : k < i + 1 := (monotone_sum_range hf).reflect_lt (hk.trans_lt hlt)
        rw [show i = k by omega]
    · rw [ih (not_lt.mp hlt)]
      constructor
      · rintro ⟨⟨hik, hki⟩, hk⟩
        exact ⟨⟨by omega, by omega⟩, hk⟩
      · rintro ⟨⟨hik, hki⟩, hk, hk'⟩
        refine ⟨⟨Nat.lt_of_le_of_ne hik ?_, by omega⟩, hk, hk'⟩
        rintro rfl
        exact hlt hk'

variable {f : Nat → ℝ} {n : Nat} {r : ℝ}

/-- Picking among listed weights starts from nothing. -/
theorem pick_range (f : Nat → ℝ) (n : Nat) (r : ℝ) :
    pick ((List.range n).map f) r
      = (firstAbove r (∑ j ∈ Finset.range 0, f j) 0 ((List.range' 0 n).map f)).getD (n - 1) := by
  rw [Finset.sum_range_zero, ← List.range_eq_range', pick, List.length_map, List.length_range]

theorem sum_map_range (f : Nat → ℝ) (n : Nat) :
    ((List.range n).map f).sum = ∑ j ∈ Finset.range n, f j :=
  rfl

/-- **The numbers that pick a position** lie between the sum of the weights before it and the
sum that includes its own. -/
theorem pick_eq_iff (hf : ∀ j, 0 ≤ f j) (hr : 0 ≤ r) (hlt : r < ∑ j ∈ Finset.range n, f j)
    {k : Nat} :
    pick ((List.range n).map f) r = k
      ↔ k < n ∧ ∑ j ∈ Finset.range k, f j ≤ r ∧ r < ∑ j ∈ Finset.range (k + 1), f j := by
  have hstart : ∑ j ∈ Finset.range 0, f j ≤ r := by rwa [Finset.sum_range_zero]
  have hfound := fun k => firstAbove_eq_some_iff hf (n := n) (k := k) hstart
  rw [pick_range]
  cases hsearch : firstAbove r (∑ j ∈ Finset.range 0, f j) 0 ((List.range' 0 n).map f) with
  | none =>
    have hsum := sum_le_of_firstAbove_eq_none hstart hsearch
    rw [← List.range_eq_range', sum_map_range, Finset.sum_range_zero, zero_add] at hsum
    exact absurd hlt (not_lt.mpr hsum)
  | some j =>
    rw [hsearch] at hfound
    simpa using hfound k

/-- **From the sum of all weights on, the last position is taken.** -/
theorem pick_of_sum_le (hf : ∀ j, 0 ≤ f j) (hle : ∑ j ∈ Finset.range n, f j ≤ r) :
    pick ((List.range n).map f) r = n - 1 := by
  have hstart : ∑ j ∈ Finset.range 0, f j ≤ r := (monotone_sum_range hf (Nat.zero_le n)).trans hle
  rw [pick_range]
  cases hsearch : firstAbove r (∑ j ∈ Finset.range 0, f j) 0 ((List.range' 0 n).map f) with
  | none => rfl
  | some k =>
    obtain ⟨⟨-, hk⟩, -, hlt⟩ := (firstAbove_eq_some_iff hf hstart).mp hsearch
    have hsum := monotone_sum_range hf (show k + 1 ≤ n by omega)
    exact absurd (hlt.trans_le hsum) (not_lt.mpr hle)

end Qudit
