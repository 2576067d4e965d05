import Qudit.Proofs.Exact.Inner
import Qudit.Proofs.State.Measurement
import Qudit.Proofs.State.Picking

/-!
# Outcomes and their weights

An outcome at some sites is a list of values, one for each of them, and its weight is the sum
of the squared moduli of the amplitudes that agree with it (`State.weightOf`). The weights
that a measurement draws from are these, the outcomes in row-major order
(`State.marginal_eq_weightOf`), so that the position that a number picks names the outcome
(`State.measured_eq_digits`). `State.Yields` is a measurement with the number given, and
`State.yields_iff` says what comes of it.

In exact arithmetic weights are not negative, and an outcome has weight as soon as it agrees
with one amplitude that is not zero (`State.weightOf_pos_iff`). The sites may be listed more
than once: an outcome that holds different values for one site then agrees with nothing, and
still every position belongs to one outcome only (`State.sum_weightOf`).
-/

namespace Qudit

open Radix Kernel

namespace State

section

variable {R : Type} [Scalar R]

/-- **The weight of an outcome at some sites**: the sum of the squared moduli of the
amplitudes that agree with it. -/
def weightOf (s : State (Amplitude R)) (sites values : List Nat) : R :=
  s.weightAt (positionsWhere s.dims (Agrees s.dims sites values))

/-- A position belongs to the outcome with the digits that it has at the sites. -/
theorem slot_eq_iff {dims sites : List Nat} (hsites : ∀ i ∈ sites, i < dims.length) {k j : Nat}
    (hk : k < total dims) (hj : j < total (restrict dims sites)) :
    slot dims sites k = j ↔ restrict (digits k dims) sites = digits j (restrict dims sites) := by
  constructor
  · rintro rfl
    exact (digits_slot hk hsites).symm
  · intro h
    rw [slot, h, index_digits_of_lt hj]

variable {s t : State (Amplitude R)} {sites values : List Nat} {r : R}

/-- **The weights that are drawn from** are those of the outcomes, in row-major order. -/
theorem marginal_eq_weightOf (hsites : ∀ i ∈ sites, i < s.dims.length) :
    s.marginal sites = .ok ((List.range (total (restrict s.dims sites))).map fun j =>
      s.weightOf sites (digits j (restrict s.dims sites))) := by
  rw [marginal_ok s hsites]
  refine congrArg Except.ok (List.map_congr_left fun j hj => congrArg s.weightAt ?_)
  refine List.filter_congr fun k hk => ?_
  rw [Bool.eq_iff_iff, beq_iff_eq, decide_eq_true_eq]
  exact slot_eq_iff hsites (List.mem_range.mp hk) (List.mem_range.mp hj)

/-- **The position that is picked names the outcome.** -/
theorem measured_eq_digits (s : State (Amplitude R)) (hsites : ∀ i ∈ sites, i < s.dims.length)
    (r : R) :
    s.measured sites r = digits (pick ((List.range (total (restrict s.dims sites))).map fun j =>
      s.weightOf sites (digits j (restrict s.dims sites))) r) (restrict s.dims sites) := by
  have hweights := (marginal_ok s hsites).symm.trans (marginal_eq_weightOf hsites)
  injection hweights with hweights
  rw [measured, hweights]

/-- **Measuring the sites yields an outcome and leaves a state**, if the number `r` is
drawn. -/
def Yields (s : State (Amplitude R)) (sites : List Nat) (r : R) (values : List Nat)
    (t : State (Amplitude R)) : Prop :=
  ∃ weights dims, s.marginal sites = .ok weights ∧ s.siteDims (some sites) = .ok dims ∧
    observe sites weights dims r s = .ok values t

/-- What is yielded is an outcome and the state collapsed onto it. -/
theorem yields_iff (hsites : ∀ i ∈ sites, i < s.dims.length)
    (hpos : 0 ∉ restrict s.dims sites) :
    s.Yields sites r values t ↔ values = s.measured sites r ∧ t = s.collapsed sites values := by
  have hobserve : observe sites ((List.range (total (restrict s.dims sites))).map fun j =>
        s.weightAt (positionsWhere s.dims fun k => slot s.dims sites k == j))
      (restrict s.dims sites) r s
        = .ok (s.measured sites r) (s.collapsed sites (s.measured sites r)) := by
    rw [observe, outcome_eq, if_neg hpos]
    dsimp only
    rw [collapse_ok s hsites (by simp)]
    rfl
  constructor
  · rintro ⟨weights, dims, hweights, hdims, hrun⟩
    rw [marginal_ok s hsites] at hweights
    rw [siteDims, mapM_entryAt hsites] at hdims
    obtain ⟨⟩ := hweights
    obtain ⟨⟩ := hdims
    rw [hobserve] at hrun
    obtain ⟨⟩ := hrun
    exact ⟨rfl, rfl⟩
  · rintro ⟨rfl, rfl⟩
    exact ⟨_, _, marginal_ok s hsites, mapM_entryAt hsites, hobserve⟩

/-- **To measure is to draw a number and to see what it yields.** -/
theorem measure_eq_ok_iff {source source' : Source} :
    State.measure (some sites) (s, source) = .ok values (t, source')
      ↔ s.Yields sites source.nextUnit.1 values t ∧ source' = source.next.2 := by
  unfold State.measure Yields
  simp only [Option.getD_some]
  cases s.marginal sites with
  | error e => simp
  | ok weights =>
    cases s.siteDims (some sites) with
    | error e => simp
    | ok dims =>
      cases hrun : observe sites weights dims source.nextUnit.1 s with
      | error e u => simp [hrun]
      | ok levels u => simp [hrun, eq_comm, and_assoc]

end

/-! ## Exact weights -/

variable (s : State (Amplitude ℝ)) (sites values : List Nat)

/-- The weight of an outcome whose positions are known. -/
theorem weightOf_of_positions (positions : List Nat)
    (h : positionsWhere s.dims (Agrees s.dims sites values) = positions) :
    s.weightOf sites values = (positions.map fun k => (s.amp k).normSq).sum := by
  rw [weightOf, weightAt, h, Scalar.sum_eq]

theorem weightOf_eq_sum :
    s.weightOf sites values = ∑ k ∈ (Finset.range (total s.dims)).filter
      (fun k => restrict (digits k s.dims) sites = values), (s.amp k).normSq := by
  rw [weightOf_of_positions s sites values _ rfl, ← List.sum_toFinset _ (List.nodup_range.filter _),
    List.toFinset_filter, List.toFinset_range]
  simp only [decide_eq_true_eq]

theorem weightOf_nonneg : 0 ≤ s.weightOf sites values := by
  rw [weightOf_eq_sum]
  exact Finset.sum_nonneg fun k _ => (s.amp k).normSq_nonneg

variable {s sites values}

/-- **An outcome has weight exactly when it agrees with an amplitude that is not zero.** -/
theorem weightOf_pos_iff : 0 < s.weightOf sites values ↔
    ∃ k < total s.dims, restrict (digits k s.dims) sites = values ∧ s.amp k ≠ 0 := by
  rw [weightOf_eq_sum, Finset.sum_pos_iff_of_nonneg fun k _ => (s.amp k).normSq_nonneg]
  simp only [Finset.mem_filter, Finset.mem_range, and_assoc]
  refine exists_congr fun k => and_congr_right fun _ => and_congr_right fun _ => ?_
  rw [(s.amp k).normSq_nonneg.lt_iff_ne', Ne, Amplitude.normSq_eq_zero]

/-- Outcomes that the sites cannot hold have no weight. -/
theorem valid_of_weightOf_ne_zero (hsites : ∀ i ∈ sites, i < s.dims.length)
    (h : s.weightOf sites values ≠ 0) : Valid (restrict s.dims sites) values := by
  obtain ⟨k, hk, rfl, -⟩ := weightOf_pos_iff.mp ((s.weightOf_nonneg sites values).lt_of_ne' h)
  exact valid_restrict (valid_digits_of_lt hk) hsites

/-- **The weights of all outcomes add up to the squared norm.** -/
theorem sum_weightOf (hsites : ∀ i ∈ sites, i < s.dims.length) :
    ∑ j ∈ Finset.range (total (restrict s.dims sites)),
        s.weightOf sites (digits j (restrict s.dims sites))
      = Scalar.sum s.weights := by
  rw [Scalar.sum_eq, weights_eq, sum_map_range,
    ← Finset.sum_fiberwise_of_maps_to (g := slot s.dims sites)
      fun k hk => Finset.mem_range.mpr (slot_lt (Finset.mem_range.mp hk) hsites)]
  refine Finset.sum_congr rfl fun j hj => ?_
  rw [weightOf_eq_sum]
  refine Finset.sum_congr (Finset.filter_congr fun k hk => ?_) fun _ _ => rfl
  exact (slot_eq_iff hsites (Finset.mem_range.mp hk) (Finset.mem_range.mp hj)).symm

end State

end Qudit
