import Qudit.Proofs.State.Apply
import Qudit.State.Collapse

/-!
# What a measurement computes

Each step of measuring existing sites of a register has a closed form:
`marginal_ok` gives the weights of the outcomes, `outcome_eq` the outcome
that a random number picks among them, and `collapse_ok` the state that is
left (`State.collapsed`). `measure_eq` puts the three together; one number is
drawn, and over sites of positive dimension nothing fails (`measure_ok`). Sums
are taken in the order of the positions and nothing is asked of the scalars.

A collapse looks at the sites in order and only as far as the first
disagreement, so that it may come to an end with a site that does not exist.
The state that is left has the same closed form then (`collapse_eq_ok_iff`).
-/

namespace Qudit

open Radix Kernel

variable {R : Type} [Scalar R]

namespace State

/-- The sum of the squared moduli at the listed positions, in order. -/
def weightAt (s : State (Amplitude R)) (positions : List Nat) : R :=
  Scalar.sum (positions.map fun k => (s.amp k).normSq)

/-- The positions of a register that pass a test, in order. -/
abbrev positionsWhere (dims : List Nat) (test : Nat → Bool) : List Nat :=
  (List.range (total dims)).filter test

/-! ## Weights -/

/-- Adding to bins adds to each bin what belongs there. -/
theorem getElem?_foldl_modify {ι : Type} (bin : ι → Nat) (weight : ι → R) (ks : List ι)
    (bins : Array R) (j : Nat) :
    (ks.foldl (fun bins k => bins.modify (bin k) fun w => w + weight k) bins)[j]?
      = bins[j]?.map fun w => ((ks.filter fun k => bin k == j).map weight).foldl
          (fun acc x => acc + x) w := by
  induction ks generalizing bins with
  | nil => simp
  | cons k ks ih =>
    rw [List.foldl_cons, ih, Array.getElem?_modify]
    by_cases hk : bin k = j
    · rw [if_pos hk, Option.map_map, List.filter_cons_of_pos (by simpa using hk)]
      rfl
    · rw [if_neg hk, List.filter_cons_of_neg (by simpa using hk)]

/-- Adding to bins that there are meets no fault. -/
theorem foldlM_addAt {ι : Type} (bin : ι → Nat) (weight : ι → R) {ks : List ι} {bins : Array R}
    (h : ∀ k ∈ ks, bin k < bins.size) :
    ks.foldlM (fun bins k => addAt bins (bin k) (weight k)) bins
      = .ok (ks.foldl (fun bins k => bins.modify (bin k) fun w => w + weight k) bins) := by
  induction ks generalizing bins with
  | nil => rfl
  | cons k ks ih =>
    have hadd : addAt bins (bin k) (weight k) = .ok (bins.modify (bin k) fun w => w + weight k) :=
      if_pos (h k (by simp))
    rw [List.foldlM_cons, Except.bind_ok hadd, List.foldl_cons]
    exact ih fun j hj => by simpa using h j (by simp [hj])

/-- **The weight of an outcome is the sum of the squared moduli of its
positions.** -/
theorem marginal_ok (s : State (Amplitude R)) {sites : List Nat}
    (h : ∀ i ∈ sites, i < s.dims.length) :
    s.marginal sites = .ok ((List.range (total (restrict s.dims sites))).map fun j =>
      s.weightAt (positionsWhere s.dims fun k => slot s.dims sites k == j)) := by
  -- every position belongs to one of the outcomes
  have hbin : ∀ k ∈ List.finRange (total s.dims),
      index (restrict (digits k.val s.dims) sites) (restrict s.dims sites)
        < (Array.replicate (total (restrict s.dims sites)) (0 : R)).size := by
    intro k _
    rw [Array.size_replicate]
    exact slot_lt k.isLt h
  unfold marginal
  rw [Except.bind_ok (mapM_entryAt h)]
  refine (Except.bind_ok (foldlM_addAt _ (fun k => s.amps[k].normSq) hbin)).trans ?_
  refine congrArg Except.ok (List.ext_getElem? fun j => ?_)
  rw [Array.getElem?_toList, getElem?_foldl_modify (fun k : Fin (total s.dims) =>
    index (restrict (digits k.val s.dims) sites) (restrict s.dims sites))
    (fun k => s.amps[k].normSq)]
  rw [List.getElem?_map, Array.getElem?_replicate]
  by_cases hj : j < total (restrict s.dims sites)
  · rw [if_pos hj, List.getElem?_range hj]
    refine congrArg some ?_
    show List.foldl _ 0 _ = s.weightAt (positionsWhere s.dims fun k => slot s.dims sites k == j)
    unfold weightAt
    rw [Scalar.sum, positionsWhere, ← List.map_coe_finRange_eq_range, List.filter_map,
      List.map_map]
    refine congrArg (List.foldl _ _) (List.map_congr_left fun k _ => ?_)
    exact congrArg Amplitude.normSq (InPlace.ampAt_of_lt k.isLt).symm
  · rw [if_neg hj, List.getElem?_eq_none (by simpa using hj)]
    rfl

/-- With all sites read in order a position is its own outcome. -/
theorem slot_range {dims : List Nat} {k : Nat} (hk : k < total dims) :
    slot dims (List.range dims.length) k = k := by
  have hrange := restrict_range (digits k dims)
  rw [length_digits] at hrange
  rw [slot, hrange, restrict_range, index_digits_of_lt hk]

/-- **With all sites listed in order, each outcome is one basis state.** Its weight is its own
squared modulus, if adding this to zero gives it back. -/
theorem marginal_range_of_zero_add (s : State (Amplitude R))
    (hzero : ∀ z : Amplitude R, 0 + z.normSq = z.normSq) :
    s.marginal (List.range s.numSites) = .ok s.weights := by
  rw [numSites, marginal_ok s fun i => List.mem_range.mp, restrict_range, weights_eq]
  refine congrArg Except.ok (List.map_congr_left fun j hj => ?_)
  have hj := List.mem_range.mp hj
  have hpositions : (positionsWhere s.dims fun k => slot s.dims (List.range s.dims.length) k == j)
      = [j] := by
    rw [positionsWhere, List.filter_congr fun k hk => by rw [slot_range (List.mem_range.mp hk)],
      List.filter_beq, List.count_eq_one_of_mem List.nodup_range (List.mem_range.mpr hj)]
    rfl
  rw [hpositions]
  exact hzero (s.amp j)

/-- An outcome is found whatever the weights are, unless there is a site of
dimension zero. -/
theorem outcome_eq (weights : List R) (dims : List Nat) (r : R) :
    outcome weights dims r = if 0 ∈ dims then .error .zeroDimension
      else .ok (digits (pick weights r) dims) := by
  unfold outcome checkedDigits
  exact if_congr List.contains_iff_mem rfl rfl

/-! ## Collapse -/

/-- The test whether a position has the given digits at the sites. -/
abbrev Agrees (dims sites values : List Nat) (k : Nat) : Bool :=
  decide (restrict (digits k dims) sites = values)

/-- **The state without the amplitudes that disagree with the values.** -/
def dropped (s : State (Amplitude R)) (sites values : List Nat) : State (Amplitude R) :=
  ⟨s.dims, Vector.ofFn fun i => if Agrees s.dims sites values i then s.amp i else 0⟩

/-- The norm of what agrees with the values. -/
def keptNorm (s : State (Amplitude R)) (sites values : List Nat) : R :=
  Scalar.sqrt (s.weightAt (positionsWhere s.dims (Agrees s.dims sites values)))

/-- **The state collapsed onto the values.** -/
def collapsed (s : State (Amplitude R)) (sites values : List Nat) : State (Amplitude R) :=
  if tinyNorm < s.keptNorm sites values then
    ⟨s.dims, (s.dropped sites values).amps.map fun z => z.divReal (s.keptNorm sites values)⟩
  else s.dropped sites values

theorem amp_dropped (s : State (Amplitude R)) (sites values : List Nat) {i : Nat}
    (hi : i < total s.dims) :
    (s.dropped sites values).amp i = if Agrees s.dims sites values i then s.amp i else 0 := by
  unfold dropped
  rw [amp_mk _ hi, Vector.getElem_ofFn]

@[simp] theorem dims_dropped (s : State (Amplitude R)) (sites values : List Nat) :
    (s.dropped sites values).dims = s.dims := rfl

@[simp] theorem dims_collapsed (s : State (Amplitude R)) (sites values : List Nat) :
    (s.collapsed sites values).dims = s.dims := by
  unfold collapsed
  split_ifs <;> rfl

theorem amp_collapsed (s : State (Amplitude R)) (sites values : List Nat) {i : Nat}
    (hi : i < total s.dims) :
    (s.collapsed sites values).amp i = if tinyNorm < s.keptNorm sites values
      then ((s.dropped sites values).amp i).divReal (s.keptNorm sites values)
      else (s.dropped sites values).amp i := by
  unfold collapsed
  split_ifs
  · refine (amp_mk _ hi).trans ((Vector.getElem_map _ hi).trans ?_)
    exact congrArg (Amplitude.divReal · _) (InPlace.ampAt_of_lt hi).symm
  · rfl

/-- What is done at one position: the amplitude is counted if it agrees with the values, and
dropped otherwise. -/
def dropAt (dims sites values : List Nat) (weight : R) (k : Nat) :
    InPlace (Amplitude R) (total dims) R := do
  if ← InPlace.ofExcept (agrees (digits k dims) (sites.zip values)) then
    return weight + (← InPlace.read k).normSq
  else
    InPlace.write k 0
    return weight

/-- An amplitude that agrees is counted, and one that does not is dropped. -/
theorem dropAt_ok {dims sites values : List Nat} {k : Nat} {b : Bool} (hk : k < total dims)
    (htest : agrees (digits k dims) (sites.zip values) = .ok b) (weight : R)
    (amps : Vector (Amplitude R) (total dims)) :
    dropAt dims sites values weight k amps = if b then .ok (weight + (ampAt amps k).normSq) amps
      else .ok weight (amps.set k 0) := by
  unfold dropAt
  rw [EStateM.bind_ok (InPlace.ofExcept_ok htest amps)]
  cases b with
  | true =>
    rw [if_pos rfl, if_pos rfl, EStateM.bind_ok (InPlace.read_ok hk)]
    rfl
  | false =>
    rw [if_neg Bool.false_ne_true, if_neg Bool.false_ne_true,
      EStateM.bind_ok (InPlace.write_ok hk 0)]
    rfl

/-- Going through some positions drops the amplitudes that disagree there,
and adds up the others. An amplitude that is read has not been dropped
before. -/
theorem foldlM_dropAt {dims sites values : List Nat} {ks : List Nat}
    (hks : ∀ k ∈ ks, k < total dims)
    (htests : ∀ k ∈ ks, agrees (digits k dims) (sites.zip values)
      = .ok (Agrees dims sites values k))
    (acc : R) (amps : Vector (Amplitude R) (total dims)) :
    ∃ amps', ks.foldlM (dropAt dims sites values) acc amps
      = .ok (((ks.filter (Agrees dims sites values)).map fun k => (ampAt amps k).normSq).foldl
          (fun acc x => acc + x) acc) amps' ∧
      ∀ i, ampAt amps' i = if i ∈ ks ∧ Agrees dims sites values i = false then 0
        else ampAt amps i := by
  induction ks generalizing acc amps with
  | nil => exact ⟨amps, rfl, fun i => by simp⟩
  | cons k ks ih =>
    have hk := hks k (by simp)
    have ih := ih (fun j hj => hks j (by simp [hj])) fun j hj => htests j (by simp [hj])
    have hstep := dropAt_ok hk (htests k (by simp)) acc amps
    rw [List.foldlM_cons]
    cases hkeep : Agrees dims sites values k with
    | true =>
      obtain ⟨amps', hrun, hamps⟩ := ih (acc + (ampAt amps k).normSq) amps
      rw [hkeep, if_pos rfl] at hstep
      refine ⟨amps', ?_, fun i => ?_⟩
      · rw [EStateM.bind_ok hstep, hrun, List.filter_cons_of_pos hkeep, List.map_cons,
          List.foldl_cons]
      · rw [hamps]
        refine if_congr ⟨fun h => ⟨by simp [h.1], h.2⟩, fun h => ⟨?_, h.2⟩⟩ rfl rfl
        refine (List.mem_cons.mp h.1).resolve_left fun hik => ?_
        rw [hik, hkeep] at h
        cases h.2
    | false =>
      obtain ⟨amps', hrun, hamps⟩ := ih acc (amps.set k 0)
      rw [hkeep, if_neg Bool.false_ne_true] at hstep
      have hread : ∀ j, Agrees dims sites values j = true →
          ampAt (amps.set k 0) j = ampAt amps j := by
        intro j hj
        rw [InPlace.ampAt_set hk, if_neg]
        rintro rfl
        rw [hkeep] at hj
        cases hj
      refine ⟨amps', ?_, fun i => ?_⟩
      · rw [EStateM.bind_ok hstep, hrun, List.filter_cons_of_neg (by simpa using hkeep)]
        congr 2
        refine List.map_congr_left fun j hj => ?_
        rw [hread j (List.mem_filter.mp hj).2]
      · rw [hamps, InPlace.ampAt_set hk]
        by_cases hik : k = i
        · subst hik
          simp [hkeep]
        · rw [if_neg hik]
          refine if_congr (and_congr_left fun _ => ?_) rfl rfl
          rw [List.mem_cons, or_iff_right (Ne.symm hik)]

/-- Going through some positions without a fault, every test has had an answer. -/
theorem exists_agrees_of_foldlM_dropAt {dims sites values : List Nat} {ks : List Nat} {acc w : R}
    {amps amps' : Vector (Amplitude R) (total dims)}
    (h : ks.foldlM (dropAt dims sites values) acc amps = .ok w amps') :
    ∀ k ∈ ks, ∃ b, agrees (digits k dims) (sites.zip values) = .ok b := by
  induction ks generalizing acc amps with
  | nil => simp
  | cons k ks ih =>
    rw [List.foldlM_cons] at h
    obtain ⟨acc', amps₁, hstep, hrest⟩ := EStateM.bind_eq_ok.mp h
    refine List.forall_mem_cons.mpr ⟨?_, ih hrest⟩
    obtain ⟨b, amps₂, htest, -⟩ := EStateM.bind_eq_ok.mp hstep
    exact ⟨b, (InPlace.eq_ok_of_ofExcept htest).1⟩

section

variable (s : State (Amplitude R)) {sites values : List Nat}
  (htests : ∀ k < total s.dims, agrees (digits k s.dims) (sites.zip values)
    = .ok (Agrees s.dims sites values k))

include htests

theorem project_ok : (inPlace (project sites values) : OnState (Amplitude R) R) s
    = .ok (s.weightAt (positionsWhere s.dims (Agrees s.dims sites values)))
        (s.dropped sites values) := by
  obtain ⟨amps', hrun, hamps⟩ := foldlM_dropAt (fun k hk => List.mem_range.mp hk)
    (fun k hk => htests k (List.mem_range.mp hk)) (0 : R) s.amps
  have hdropped : (⟨s.dims, amps'⟩ : State (Amplitude R)) = s.dropped sites values := by
    refine ext_amp rfl fun i hi => ?_
    rw [amp_dropped s sites values hi, amp, hamps, amp]
    simp only [List.mem_range, hi, true_and]
    cases Agrees s.dims sites values i <;> rfl
  have hproject : project sites values s.dims s.amps
      = .ok (s.weightAt (positionsWhere s.dims (Agrees s.dims sites values))) amps' := hrun
  rw [inPlace, hproject, ← hdropped]

/-- Where every test has an answer, collapsing does not fail. -/
theorem collapse_of_agrees (hlen : values.length = sites.length) :
    collapse sites values s = .ok () (s.collapsed sites values) := by
  unfold collapse
  rw [if_neg (not_not_intro hlen.symm)]
  refine (EStateM.bind_ok (project_ok s htests)).trans ?_
  show (if tinyNorm < s.keptNorm sites values then _ else _ : OnState (Amplitude R) Unit) _ = _
  unfold collapsed
  split_ifs <;> rfl

end

/-- **Collapsing onto as many values as sites never fails**, whatever the
values are. -/
theorem collapse_ok (s : State (Amplitude R)) {sites values : List Nat}
    (hsites : ∀ i ∈ sites, i < s.dims.length) (hlen : values.length = sites.length) :
    collapse sites values s = .ok () (s.collapsed sites values) :=
  collapse_of_agrees s (fun _ _ => agrees_eq (by simpa using hsites) hlen) hlen

/-- **Collapsing comes to an end** exactly if there are as many values as sites and every test
has an answer, also where a site that does not exist is never looked at. -/
theorem collapse_eq_ok_iff {s t : State (Amplitude R)} {sites values : List Nat} :
    collapse sites values s = .ok () t ↔ values.length = sites.length ∧
      (∀ k < total s.dims, ∃ b, agrees (digits k s.dims) (sites.zip values) = .ok b) ∧
      t = s.collapsed sites values := by
  constructor
  · intro h
    have hlen : values.length = sites.length := by
      by_contra hne
      unfold collapse at h
      rw [if_pos (Ne.symm hne)] at h
      cases h
    have htests : ∀ k < total s.dims,
        ∃ b, agrees (digits k s.dims) (sites.zip values) = .ok b := by
      have hrun := h
      unfold collapse at hrun
      rw [if_neg (not_not_intro hlen.symm)] at hrun
      obtain ⟨w, u, hproject, -⟩ := EStateM.bind_eq_ok.mp hrun
      unfold inPlace at hproject
      cases hfold : project sites values s.dims s.amps with
      | error e amps => simp [hfold] at hproject
      | ok w' amps =>
        exact fun k hk => exists_agrees_of_foldlM_dropAt hfold k (List.mem_range.mpr hk)
    refine ⟨hlen, htests, ?_⟩
    rw [collapse_of_agrees s (fun k hk => agrees_of_exists hlen (htests k hk)) hlen] at h
    obtain ⟨⟩ := h
    rfl
  · rintro ⟨hlen, htests, rfl⟩
    exact collapse_of_agrees s (fun k hk => agrees_of_exists hlen (htests k hk)) hlen

/-- The outcome of a measurement that draws the number `r`. -/
def measured (s : State (Amplitude R)) (sites : List Nat) (r : R) : List Nat :=
  digits (pick ((List.range (total (restrict s.dims sites))).map fun j =>
    s.weightAt (positionsWhere s.dims fun k => slot s.dims sites k == j)) r)
    (restrict s.dims sites)

@[simp] theorem length_measured (s : State (Amplitude R)) (sites : List Nat) (r : R) :
    (s.measured sites r).length = sites.length := by
  simp [measured]

/-- Every outcome is a value that its site can hold. -/
theorem measured_lt (s : State (Amplitude R)) {sites : List Nat}
    (hsites : ∀ i ∈ sites, i < s.dims.length) (hpos : ∀ d ∈ s.dims, 0 < d) (r : R) :
    List.Forall₂ (fun site value => value < s.dims.getD site 0) sites (s.measured sites r) :=
  (List.forall₂_map_right_iff.mp (valid_digits (pos_restrict hpos hsites) _)).flip

/-- **What measuring existing sites does.** It draws one number, and leaves the
state collapsed onto the outcome; only a measured site of dimension zero has none. -/
theorem measure_eq (s : State (Amplitude R)) {sites : List Nat}
    (hsites : ∀ i ∈ sites, i < s.dims.length) (source : Source) :
    State.measure (some sites) (s, source) = if 0 ∈ restrict s.dims sites
      then .error .zeroDimension (s, source.next.2)
      else .ok (s.measured sites source.nextUnit.1)
        (s.collapsed sites (s.measured sites source.nextUnit.1), source.next.2) := by
  have hdims : s.siteDims (some sites) = .ok (restrict s.dims sites) := mapM_entryAt hsites
  simp only [State.measure, Option.getD_some, marginal_ok s hsites, hdims, observe, outcome_eq]
  split_ifs
  · rfl
  · dsimp only
    rw [collapse_ok s hsites (by simp)]
    rfl

/-- **Measuring existing sites never fails**, over sites of positive
dimension: it draws one number and leaves the state collapsed onto the
outcome. -/
theorem measure_ok (s : State (Amplitude R)) {sites : List Nat}
    (hsites : ∀ i ∈ sites, i < s.dims.length) (hpos : ∀ d ∈ s.dims, 0 < d) (source : Source) :
    State.measure (some sites) (s, source)
      = .ok (s.measured sites source.nextUnit.1)
          (s.collapsed sites (s.measured sites source.nextUnit.1), source.next.2) := by
  rw [measure_eq s hsites, if_neg fun h0 => absurd (pos_restrict hpos hsites 0 h0) (lt_irrefl 0)]

end State

end Qudit
