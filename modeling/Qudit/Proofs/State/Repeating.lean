import Qudit.Proofs.State.Conditional

/-!
# Measuring again

After a measurement every amplitude that is left agrees with the outcome at the measured sites:
the state is **settled** there (`State.Settled`). So it is on any of these sites, in any order and
however often each is listed (`State.Settled.part`). In a settled state of norm one the outcome has
all the weight, every number of the unit interval finds it, and collapsing onto it drops nothing
and divides by one (`State.Settled.certain`).

A measurement leaves norm one only if the outcome had a norm above `State.tinyNorm`, and nothing of
this is promised for an outcome that had less: the next measurement then compares its number with
weights that hardly add up to anything. Collapsing twice is another matter. What was not divided
the first time is as small the second time and is left alone again, so that the second collapse
changes nothing at any weight, and at any arguments: whether it comes to an end depends on the
dimensions only, and a collapse that does not is not followed by another (`collapse_twice`).
-/

namespace Qudit

open Radix Kernel

namespace State

variable {s t : State (Amplitude ℝ)} {sites values : List Nat}

/-- **Every amplitude that is not zero agrees with the values.** -/
def Settled (s : State (Amplitude ℝ)) (sites values : List Nat) : Prop :=
  ∀ i < total s.dims, s.amp i ≠ 0 → restrict (digits i s.dims) sites = values

/-- A collapse settles the sites. -/
theorem settled_collapsed (s : State (Amplitude ℝ)) (sites values : List Nat) :
    (s.collapsed sites values).Settled sites values := by
  intro i hi hne
  rw [dims_collapsed] at hi ⊢
  exact ((amp_collapsed_ne_zero_iff hi).mp hne).1

/-- What is read at some of the sites are the values there. -/
theorem restrict_part {levels : List Nat} {part : List (Nat × Nat)}
    (hpart : part ⊆ sites.zip (restrict levels sites)) :
    restrict levels (part.map Prod.fst) = part.map Prod.snd := by
  rw [restrict, ← List.map_prod_left_eq_zip] at hpart
  rw [restrict, List.map_map]
  refine List.map_congr_left fun p hp => ?_
  obtain ⟨i, -, rfl⟩ := List.mem_map.mp (hpart hp)
  rfl

/-- **Measuring the sites gives the values for certain**: they are the outcome whatever number is
drawn, and the state is left as it is. -/
structure Certain (s : State (Amplitude ℝ)) (sites values : List Nat) : Prop where
  /-- Every number of the unit interval yields the values. -/
  yields : ∀ r ∈ Set.Ico (0 : ℝ) 1, s.Yields sites r values s
  /-- Every source of random numbers does. -/
  measure : ∀ source, State.measure (some sites) (s, source) = .ok values (s, source.next.2)

theorem rescaling_one : rescaling 1 = 1 := by
  unfold rescaling
  rw [inv_one]
  exact ite_self _

namespace Settled

/-- A settled state is settled on any part of the sites. -/
theorem part (h : s.Settled sites values) {part : List (Nat × Nat)}
    (hpart : part ⊆ sites.zip values) : s.Settled (part.map Prod.fst) (part.map Prod.snd) := by
  intro i hi hne
  obtain rfl := h i hi hne
  exact restrict_part hpart

/-- What a state is settled on has all its weight. -/
theorem weightOf_eq (h : s.Settled sites values) :
    s.weightOf sites values = Scalar.sum s.weights := by
  rw [← weightOf_nil, weightOf_eq_sum, weightOf_eq_sum, Finset.sum_filter_of_ne,
    Finset.sum_filter_of_ne]
  · exact fun _ _ _ => rfl
  · exact fun i hi hne => h i (Finset.mem_range.mp hi) fun hzero =>
      hne (Amplitude.normSq_eq_zero.mpr hzero)

/-- Collapsing onto what a state is settled on only rescales it. -/
theorem collapsed_eq (h : s.Settled sites values)
    (hfactor : rescaling √(Scalar.sum s.weights) = 1) : s.collapsed sites values = s := by
  refine ext_amp (dims_collapsed s sites values) fun i hi => ?_
  rw [dims_collapsed] at hi
  rw [amp_collapsed_eq_mul s sites values hi, keptNorm_eq, h.weightOf_eq, hfactor, one_mul, kept]
  by_cases hzero : s.amp i = 0
  · rw [hzero, mul_zero]
  · rw [if_pos (decide_eq_true (h i hi hzero)), one_mul]

/-- Every number below the squared norm finds what a state is settled on. -/
theorem measured_eq (h : s.Settled sites values) (hsites : ∀ i ∈ sites, i < s.dims.length) {r : ℝ}
    (hr : r ∈ Set.Ico 0 (Scalar.sum s.weights)) : s.measured sites r = values := by
  -- the share of the values is as long as the interval that it lies in
  have hsubset : s.share sites values ⊆ Set.Ico 0 (Scalar.sum s.weights) := share_subset hsites
  rw [share, h.weightOf_eq,
    Set.Ico_subset_Ico_iff (lt_add_of_pos_right _ (hr.1.trans_lt hr.2))] at hsubset
  have hstart : s.weightBefore sites values = 0 :=
    le_antisymm (by simpa using hsubset.2) hsubset.1
  rw [measured_eq_iff hsites hr.1 hr.2, share, h.weightOf_eq, hstart, zero_add]
  exact hr

/-- **A state of norm one gives for certain what it is settled on.** -/
theorem certain (h : s.Settled sites values) (hsites : ∀ i ∈ sites, i < s.dims.length)
    (hnorm : Scalar.sum s.weights = 1) : s.Certain sites values := by
  have hpos : 0 ∉ restrict s.dims sites :=
    zero_notMem_restrict_of_sum_weights_ne_zero hsites (hnorm ▸ one_ne_zero)
  have hsame : s.collapsed sites values = s :=
    h.collapsed_eq (by rw [hnorm, Real.sqrt_one, rescaling_one])
  have hyields : ∀ r ∈ Set.Ico (0 : ℝ) 1, s.Yields sites r values s := by
    intro r hr
    rw [yields_iff hsites hpos]
    exact ⟨(h.measured_eq hsites (hnorm.symm ▸ hr)).symm, hsame.symm⟩
  exact ⟨hyields, fun source =>
    measure_eq_ok_iff.mpr ⟨hyields _ (Source.unit_mem source.next.1), rfl⟩⟩

end Settled

/-! ## Collapsing twice -/

/-- The state that a collapse leaves is the one that the next leaves. -/
theorem collapsed_collapsed (hlen : values.length = sites.length) :
    (s.collapsed sites values).collapsed sites values = s.collapsed sites values := by
  refine (settled_collapsed s sites values).collapsed_eq ?_
  -- the first collapse has left norm one, or a norm that is too small for the second as well
  by_cases htiny : tinyNorm < √(s.weightOf sites values)
  · rw [sum_weights_collapsed_eq_one htiny hlen, Real.sqrt_one, rescaling_one]
  · have hfactor : rescaling √(s.weightOf sites values) = 1 := by rw [rescaling, if_neg htiny]
    rw [sum_weights_collapsed hlen, keptNorm_eq, hfactor, Amplitude.normSq_one, one_mul, hfactor]

/-- **Collapsing twice is collapsing once**, whatever the sites and the values are. -/
theorem collapse_twice (s : State (Amplitude ℝ)) (sites values : List Nat) :
    (State.collapse sites values >>= fun _ => State.collapse sites values) s
      = State.collapse sites values s := by
  cases hrun : State.collapse sites values s with
  | error e t => exact EStateM.bind_error hrun
  | ok _ t =>
    rw [EStateM.bind_ok hrun]
    obtain ⟨hlen, htests, rfl⟩ := collapse_eq_ok_iff.mp hrun
    refine collapse_eq_ok_iff.mpr ⟨hlen, ?_, (collapsed_collapsed hlen).symm⟩
    rwa [dims_collapsed]

end State

open State

/-- **Measurements are repeatable.** If a measurement gives values of which the norm was above
`State.tinyNorm`, measuring the same sites again gives the same values for certain, and so does
measuring any of these sites, in any order: what is given are the values that were given for
them. And collapsing onto values twice leaves what collapsing once does, whatever their weight,
and fails as collapsing once does where there is nothing to collapse onto. -/
theorem measure_repeatable :
    (∀ {s t : State (Amplitude ℝ)} {sites values : List Nat} {source source' : Source} {p : ℝ},
      (∀ i ∈ sites, i < s.dims.length) →
      State.measure (some sites) (s, source) = .ok values (t, source') →
      s.Lists sites values p → tinyNorm < √p →
        t.Certain sites values ∧ ∀ part, part ⊆ sites.zip values →
          t.Certain (part.map Prod.fst) (part.map Prod.snd)) ∧
      ∀ (s : State (Amplitude ℝ)) (sites values : List Nat),
        (State.collapse sites values >>= fun _ => State.collapse sites values) s
          = State.collapse sites values s := by
  refine ⟨?_, collapse_twice⟩
  intro s t sites values source source' p hsites hrun hp htiny
  rw [measure_eq s hsites] at hrun
  split_ifs at hrun with hzero
  obtain ⟨⟩ := hrun
  -- the outcome is one that the sites can hold, so that what is listed for it is its weight
  have hvalues : Valid (restrict s.dims sites) (s.measured sites source.nextUnit.1) :=
    valid_digits (fun d hd => Nat.pos_of_ne_zero fun h0 => hzero (h0 ▸ hd)) _
  obtain rfl := (lists_iff hsites hvalues).mp hp
  have hsettled := settled_collapsed s sites (s.measured sites source.nextUnit.1)
  have hnorm := sum_weights_collapsed_eq_one htiny (length_measured s sites _)
  have hrange : ∀ i ∈ sites,
      i < (s.collapsed sites (s.measured sites source.nextUnit.1)).dims.length := by
    rwa [dims_collapsed]
  refine ⟨hsettled.certain hrange hnorm, fun part hpart => ?_⟩
  refine (hsettled.part hpart).certain (fun i hi => ?_) hnorm
  obtain ⟨⟨site, value⟩, hmem, rfl⟩ := List.mem_map.mp hi
  exact hrange site (List.of_mem_zip (hpart hmem)).1

/-- A qubit and a qutrit, the qutrit measured before the qubit: the smallest number passes over the
outcome without weight and finds the heavier amplitude, and so does any number after it, also with
the qubit first and the qutrit twice. -/
theorem measure_repeatable_qutrit :
    let s : State (Amplitude ℝ) := ⟨[2, 3], #v[0, 0, ⟨3 / 5, 0⟩, ⟨0, 4 / 5⟩, 0, 0]⟩
    let source : Source := .ofWords #[0]
    (∀ i ∈ [1, 0], i < s.dims.length) ∧ s.Lists [1, 0] [0, 1] (16 / 25) ∧
      tinyNorm < √(16 / 25 : ℝ) ∧
      ∃ t, State.measure (some [1, 0]) (s, source) = .ok [0, 1] (t, source.next.2) ∧
        t.Certain [1, 0] [0, 1] ∧ t.Certain [0, 1, 1] [1, 0, 0] := by
  intro s source
  have hsites : ∀ i ∈ [1, 0], i < s.dims.length := by decide
  have hpos : ∀ d ∈ s.dims, 0 < d := by decide
  have hvalues : Valid [3, 2] [0, 1] := by simp [Valid]
  have hnorm : Scalar.sum s.weights = 1 := by
    have hweights : s.weights = [0, 0, 9 / 25, 16 / 25, 0, 0] := by
      show [_, _, _, _, _, _] = _
      norm_num [Amplitude.normSq]
    rw [hweights, Scalar.sum_eq]
    norm_num
  have hheavy : s.weightOf [1, 0] [0, 1] = 16 / 25 := by
    have hamp : s.amp 3 = ⟨0, 4 / 5⟩ := rfl
    rw [weightOf_of_positions s _ _ [3] (by decide), List.map_singleton, hamp]
    norm_num [Amplitude.normSq]
  have hbefore : s.weightBefore [1, 0] [0, 1] = 0 := by
    have hamp : s.amp 0 = 0 := rfl
    show ∑ j ∈ Finset.range 1, s.weightOf [1, 0] (digits j [3, 2]) = 0
    rw [Finset.sum_range_one, weightOf_of_positions s _ _ [0] (by decide), List.map_singleton,
      hamp, List.sum_singleton, Amplitude.normSq_zero]
  have hdrawn : (source.nextUnit.1 : ℝ) = 0 := by
    show (((0 : UInt64) >>> 11).toNat : ℝ) / _ = 0
    rw [show ((0 : UInt64) >>> 11).toNat = 0 by decide, Nat.cast_zero, zero_div]
  have hmeasured : s.measured [1, 0] source.nextUnit.1 = [0, 1] := by
    rw [hdrawn, measured_eq_iff hsites le_rfl (hnorm.symm ▸ one_pos), share, hbefore, hheavy]
    norm_num
  have hlisted : s.Lists [1, 0] [0, 1] (16 / 25) := (lists_iff hsites hvalues).mpr hheavy.symm
  have htiny : tinyNorm < √(16 / 25 : ℝ) := by
    rw [show (16 / 25 : ℝ) = (4 / 5) ^ 2 by norm_num, Real.sqrt_sq (by norm_num)]
    show 1 / ((1000000000000000 : Nat) : ℝ) < 4 / 5
    norm_num
  have hrun := measure_ok s hsites hpos source
  rw [hmeasured] at hrun
  obtain ⟨hagain, hpart⟩ := measure_repeatable.1 hsites hrun hlisted htiny
  exact ⟨hsites, hlisted, htiny, _, hrun, hagain, hpart [(0, 1), (1, 0), (1, 0)] (by decide)⟩

end Qudit
