import Qudit.Proofs.State.Born
import Qudit.Proofs.State.Collapse

/-!
# Measuring to nothing

A state need not have norm one, but the number that a measurement draws is compared with
running sums of its weights as they are. Below the sum of all weights this finds an outcome
of positive weight. From there on no outcome is found and the last one is taken, which is
meant for what rounding leaves of the unit interval; nothing asks that the last outcome be
possible, nor that so little be left.

Collapsing onto an outcome without weight drops every amplitude, and there is no norm to
divide by. A state that is not zero is thus measured to the zero vector exactly when the
number drawn is too large and the last outcome is impossible
(`measure_of_any_norm`, `measure_to_zero_vector`).
-/

namespace Qudit

open Radix Kernel

namespace State

variable {s : State (Amplitude ℝ)} {sites values : List Nat} {r : ℝ}

/-- **A number below the sum of all weights gives an outcome that has weight.** -/
theorem weightOf_measured_pos (hsites : ∀ i ∈ sites, i < s.dims.length) (hr : 0 ≤ r)
    (hlt : r < Scalar.sum s.weights) : 0 < s.weightOf sites (s.measured sites r) := by
  have hshare : r ∈ s.share sites (s.measured sites r) := (measured_eq_iff hsites hr hlt).mp rfl
  exact (s.weightOf_nonneg sites _).lt_of_ne' (weightOf_ne_zero_of_mem_share hshare)

/-- **Any other number gives the last outcome**, whatever its weight. -/
theorem measured_of_sum_le (hsites : ∀ i ∈ sites, i < s.dims.length)
    (hpos : ∀ d ∈ s.dims, 0 < d) (hle : Scalar.sum s.weights ≤ r) :
    s.measured sites r = (restrict s.dims sites).map (· - 1) := by
  rw [← sum_weightOf hsites] at hle
  rw [measured_eq_digits s hsites, pick_of_sum_le
    (fun j => s.weightOf_nonneg sites (digits j (restrict s.dims sites))) hle,
    digits_total_sub_one (pos_restrict hpos hsites)]

end State

open State

/-- **Measuring leaves a state that is not zero exactly if the outcome has weight**, and the
outcome has weight whenever the number drawn is below the squared norm of the state. For any
other number the outcome is the last one, with the largest value at every site. -/
theorem measure_of_any_norm {s : State (Amplitude ℝ)} (hs : ∃ i < total s.dims, s.amp i ≠ 0)
    {sites : List Nat} (hsites : ∀ i ∈ sites, i < s.dims.length) {r : ℝ} (hr : 0 ≤ r) :
    ∃ values t, s.Yields sites r values t ∧
      (∀ source : Source, source.nextUnit.1 = r →
        State.measure (some sites) (s, source) = .ok values (t, source.next.2)) ∧
      (r < Scalar.sum s.weights → 0 < s.weightOf sites values) ∧
      (Scalar.sum s.weights ≤ r → values = (restrict s.dims sites).map (· - 1)) ∧
      ((∃ i < total t.dims, t.amp i ≠ 0) ↔ 0 < s.weightOf sites values) := by
  obtain ⟨i, hi, -⟩ := hs
  have hpos := pos_of_lt_total hi
  have hyields : s.Yields sites r (s.measured sites r)
      (s.collapsed sites (s.measured sites r)) :=
    (yields_iff hsites fun h0 => lt_irrefl 0 (pos_restrict hpos hsites 0 h0)).mpr ⟨rfl, rfl⟩
  refine ⟨_, _, hyields, ?_, weightOf_measured_pos hsites hr, measured_of_sum_le hsites hpos,
    exists_amp_collapsed_ne_zero_iff⟩
  rintro source rfl
  exact measure_eq_ok_iff.mpr ⟨hyields, rfl⟩

/-- A qutrit whose only amplitude is one half, on the middle level: a small number finds this
level, and a large one the empty level after it. -/
theorem measure_of_any_norm_qutrit :
    let s : State (Amplitude ℝ) := ⟨[3], #v[0, ⟨1 / 2, 0⟩, 0]⟩
    (∃ i < total s.dims, s.amp i ≠ 0) ∧ (∀ i ∈ [0], i < s.dims.length) ∧
      (∃ values t, s.Yields [0] (1 / 8) values t ∧ ∃ i < total t.dims, t.amp i ≠ 0) ∧
      ∃ t, s.Yields [0] (1 / 2) [2] t := by
  intro s
  have hamp : s.amp 1 = ⟨1 / 2, 0⟩ := rfl
  have hs : ∃ i < total s.dims, s.amp i ≠ 0 := by
    refine ⟨1, by decide, fun h => ?_⟩
    rw [hamp] at h
    have hre := congrArg Amplitude.re h
    norm_num at hre
  have hsites : ∀ i ∈ [0], i < s.dims.length := by decide
  have hsum : Scalar.sum s.weights = 1 / 4 := by
    have hweights : s.weights = [0, 1 / 4, 0] := by
      show [_, _, _] = _
      norm_num [Amplitude.normSq]
    rw [hweights, Scalar.sum_eq]
    norm_num
  refine ⟨hs, hsites, ?_, ?_⟩
  · obtain ⟨values, t, hyields, -, hweight, -, hleft⟩ :=
      measure_of_any_norm hs hsites (r := 1 / 8) (by norm_num)
    exact ⟨values, t, hyields, hleft.mpr (hweight (by rw [hsum]; norm_num))⟩
  · obtain ⟨values, t, hyields, -, -, hlast, -⟩ :=
      measure_of_any_norm hs hsites (r := 1 / 2) (by norm_num)
    obtain rfl := hlast (by rw [hsum]; norm_num)
    exact ⟨t, hyields⟩

/-- **A state that is not zero may be measured to the zero vector**: a qubit whose only
amplitude is one tenth, on the first level, where the number one half is drawn. -/
theorem measure_to_zero_vector :
    let s : State (Amplitude ℝ) := ⟨[2], #v[⟨1 / 10, 0⟩, 0]⟩
    let source : Source := .ofWords #[9223372036854775808]
    s.amp 0 ≠ 0 ∧ (source.nextUnit.1 : ℝ) = 1 / 2 ∧ s.weightOf [0] [1] = 0 ∧
      ∃ t, State.measure (some [0]) (s, source) = .ok [1] (t, source.next.2) ∧
        ∀ i < total t.dims, t.amp i = 0 := by
  intro s source
  have hsites : ∀ i ∈ [0], i < s.dims.length := by decide
  have hpos : ∀ d ∈ s.dims, 0 < d := by decide
  have hfirst : s.amp 0 = ⟨1 / 10, 0⟩ := rfl
  have hsecond : s.amp 1 = 0 := rfl
  have hdrawn : (source.nextUnit.1 : ℝ) = 1 / 2 := by
    have hword : ((9223372036854775808 : UInt64) >>> 11).toNat = 4503599627370496 := by decide
    show ((((9223372036854775808 : UInt64) >>> 11).toNat : Nat) : ℝ)
      / ((9007199254740992 : Nat) : ℝ) = 1 / 2
    rw [hword]
    norm_num
  have hsum : Scalar.sum s.weights ≤ 1 / 2 := by
    have hweights : s.weights = [1 / 100, 0] := by
      show [_, _] = _
      norm_num [Amplitude.normSq]
    rw [hweights, Scalar.sum_eq]
    norm_num
  have hmeasured : s.measured [0] (1 / 2) = [1] := measured_of_sum_le hsites hpos hsum
  have hnone : s.weightOf [0] [1] = 0 := by
    rw [weightOf_of_positions s _ _ [1] (by decide), List.map_singleton, hsecond,
      List.sum_singleton, Amplitude.normSq_zero]
  have hrun := measure_ok s hsites hpos source
  rw [hdrawn, hmeasured] at hrun
  refine ⟨fun h => ?_, hdrawn, hnone, _, hrun, fun i hi => ?_⟩
  · rw [hfirst] at h
    have hre := congrArg Amplitude.re h
    norm_num at hre
  · by_contra hne
    exact (exists_amp_collapsed_ne_zero_iff.mp ⟨i, hi, hne⟩).ne' hnone

end Qudit
