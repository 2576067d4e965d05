import Qudit.Proofs.Gate.Columns
import Qudit.Proofs.State.Measurement
import Qudit.Proofs.State.Picking

/-!
# States that are a basis state up to a phase

In exact arithmetic a state **depicts** digits when its one amplitude that is
not zero, of modulus one, is at their position. A unitary matrix whose column
for the digits at the targets has a single entry leads from such a state to
such a state (`Depicts.exists_apply`), and measuring one reads its digits and
leaves it as it is, whatever number is drawn (`Depicts.measured_eq`,
`Depicts.collapsed_eq`).
-/

namespace Qudit

open Radix Kernel

namespace State

/-- **Every amplitude multiplied by a factor.** -/
noncomputable def scaled (s : State (Amplitude ℝ)) (u : Amplitude ℝ) : State (Amplitude ℝ) :=
  ⟨s.dims, s.amps.map (u * ·)⟩

/-- **The state is the basis state of the given digits up to a phase.** -/
structure Depicts (s : State (Amplitude ℝ)) (values : List Nat) : Prop where
  /-- The sites can hold the digits. -/
  valid : Valid s.dims values
  /-- The amplitude at their position has modulus one, the others are zero. -/
  amp : ∃ u : Amplitude ℝ, u.normSq = 1 ∧
    ∀ i < total s.dims, s.amp i = if i = index values s.dims then u else 0

/-! ## Basis states -/

theorem firstBadLevel_of_valid {dims values : List Nat} (h : Valid dims values) (site : Nat) :
    firstBadLevel site (values.zip dims) = none := by
  induction h generalizing site with
  | nil => rfl
  | cons hv _ ih => rw [List.zip_cons_cons, firstBadLevel, if_pos hv, ih]

theorem product_ok {α : Type} [Zero α] [One α] {dims values : List Nat} (h : Valid dims values) :
    product dims values = .ok (atPosition (α := α) dims (index values dims)) := by
  unfold product
  rw [if_neg (not_not_intro h.length_eq.symm), firstBadLevel_of_valid h]

theorem amp_atPosition (dims : List Nat) (k : Nat) {i : Nat} (hi : i < total dims) :
    (atPosition (α := Amplitude ℝ) dims k).amp i = if i = k then 1 else 0 := by
  unfold atPosition
  rw [amp_mk _ hi, Vector.getElem_ofFn]

theorem depicts_atPosition {dims values : List Nat} (h : Valid dims values) :
    (atPosition dims (index values dims)).Depicts values :=
  ⟨h, 1, Amplitude.normSq_one, fun _ hi => amp_atPosition dims _ hi⟩

variable {s : State (Amplitude ℝ)} {values : List Nat}

/-- A state that depicts digits is a multiple of their basis state. -/
theorem Depicts.exists_scaled (h : s.Depicts values) :
    ∃ t u, product s.dims values = .ok t ∧ u.normSq = 1 ∧ s = t.scaled u := by
  obtain ⟨hvalid, u, hu, hamp⟩ := h
  refine ⟨_, u, product_ok hvalid, hu, ext_amp rfl fun i hi => ?_⟩
  rw [hamp i hi, scaled, atPosition, amp_mk _ hi, Vector.getElem_map, Vector.getElem_ofFn]
  split_ifs
  · rw [mul_one]
  · rw [mul_zero]

/-! ## Applying a matrix -/

variable {s : State (Amplitude ℝ)} {values targets controls : List Nat} {configs : List Bool}

/-- Of a state with one amplitude, a block has that amplitude or none. -/
theorem sum_block_of_single (h : Placement s.dims targets controls configs) {p : Nat}
    (hp : p < total s.dims) {u : Amplitude ℝ}
    (hamp : ∀ i < total s.dims, s.amp i = if i = p then u else 0) {i : Nat} (hi : i < total s.dims)
    (f : Nat → Amplitude ℝ) :
    ∑ j ∈ Finset.range (total (restrict s.dims targets)),
        f j * s.amp (moved s.dims targets i (digits j (restrict s.dims targets)))
      = if moved s.dims targets i (restrict (digits p s.dims) targets) = p
        then f (slot s.dims targets p) * u else 0 := by
  have hslot : slot s.dims targets p < total (restrict s.dims targets) := slot_lt hp h.targets_lt
  rw [Finset.sum_eq_single (slot s.dims targets p)]
  · rw [digits_slot hp h.targets_lt,
      hamp _ (moved_lt hi (valid_restrict (valid_digits_of_lt hp) h.targets_lt)), mul_ite, mul_zero]
  · intro j hj hne
    have hj := Finset.mem_range.mp hj
    rw [hamp _ (moved_lt hi (valid_digits_of_lt hj)), if_neg, mul_zero]
    rintro rfl
    exact hne (by rw [h.slot_moved hi (valid_digits_of_lt hj), index_digits_of_lt hj])
  · exact fun hnot => absurd (Finset.mem_range.mpr hslot) hnot

/-- **A placed matrix leads from digits to digits** where its column for the
digits at the targets has a single entry. -/
theorem Depicts.exists_apply (h : s.Depicts values)
    (hplace : Placement s.dims targets controls configs) {m : Mat (Amplitude ℝ)}
    (hm : m.IsUnitary) (hrows : m.rows = total (restrict s.dims targets)) {levels : List Nat}
    (hlevels : Valid (restrict s.dims targets) levels)
    (hcarries : m.Carries (index (restrict values targets) (restrict s.dims targets))
      (index levels (restrict s.dims targets))) :
    ∃ t, State.apply m targets controls configs s = .ok () t ∧ t.dims = s.dims ∧
      t.Depicts (if restrict values controls = configs.map Bool.toNat
        then overwrite values targets levels else values) := by
  obtain ⟨hvalid, u, hu, hamp⟩ := h
  have hcols : m.cols = total (restrict s.dims targets) := hm.square.symm.trans hrows
  obtain ⟨t, hrun, hdims, htamp⟩ := exists_apply_sum hplace hrows hcols
  refine ⟨t, hrun, hdims, ?_⟩
  obtain ⟨p, hp⟩ : ∃ p, p = index values s.dims := ⟨_, rfl⟩
  have hplt : p < total s.dims := hp ▸ index_lt_total hvalid
  have hdigits : digits p s.dims = values := hp ▸ digits_index hvalid
  rw [← hp] at hamp
  rw [← hdigits, ← slot] at hcarries
  have hrestrict := valid_restrict (valid_digits_of_lt hplt) hplace.targets_lt
  -- a position with digits of its own gets the entry of its row, if the block is that of `p`
  have htamp : ∀ i < total s.dims, t.amp i = if Holds s.dims controls configs i
      then if moved s.dims targets i (restrict (digits p s.dims) targets) = p
        then m.coeff (slot s.dims targets i) (slot s.dims targets p) * u else 0
      else if i = p then u else 0 := by
    intro i hi
    rw [htamp i hi, sum_block_of_single hplace hplt hamp hi, hamp i hi]
  rw [← hdigits]
  split_ifs with hc
  · -- the controls hold their configuration, and the digits are replaced
    refine ⟨hdims.symm ▸ valid_overwrite (valid_digits_of_lt hplt) hlevels,
      m.coeff (index levels (restrict s.dims targets)) (slot s.dims targets p) * u, ?_, ?_⟩
    · rw [Amplitude.normSq_mul, hu, mul_one]
      exact hm.normSq_of_carries (hcols.symm ▸ slot_lt hplt hplace.targets_lt)
        (hrows.symm ▸ index_lt_total hlevels) hcarries
    intro i hi
    rw [hdims] at hi
    rw [hdims, htamp i hi, ← moved]
    by_cases hiq : i = moved s.dims targets p levels
    · rw [if_pos hiq, hiq, if_pos ((hplace.holds_moved hplt hlevels).mpr hc),
        if_pos (hplace.moved_back hplt hlevels), hplace.slot_moved hplt hlevels]
    · rw [if_neg hiq]
      split_ifs with hci hback hip
      · rw [hcarries, zero_mul]
        intro hsame
        have hlevels' : levels = restrict (digits i s.dims) targets := by
          rw [← digits_slot hi hplace.targets_lt, hsame, digits_index hlevels]
        refine hiq ?_
        rw [hlevels', ← hback, hplace.moved_back hi hrestrict]
      · rfl
      · exact absurd (hip ▸ hc) hci
      · rfl
  · -- they do not, and the state is the same at every position
    refine ⟨hdims.symm ▸ valid_digits_of_lt hplt, u, hu, fun i hi => ?_⟩
    rw [hdims] at hi
    rw [hdims, htamp i hi, index_digits_of_lt hplt]
    by_cases hci : Holds s.dims controls configs i
    · have hip : i ≠ p := fun hip => hc (hip ▸ hci)
      have hback : moved s.dims targets i (restrict (digits p s.dims) targets) ≠ p :=
        fun hback => hc (hback ▸ (hplace.holds_moved hi hrestrict).mpr hci)
      rw [if_pos hci, if_neg hback, if_neg hip]
    · rw [if_neg hci]

/-! ## Measuring -/

/-- Of a state with one amplitude, positions weigh one or nothing. -/
theorem weightAt_of_single {p : Nat} {u : Amplitude ℝ} (hu : u.normSq = 1)
    (hamp : ∀ i < total s.dims, s.amp i = if i = p then u else 0) {positions : List Nat}
    (hlt : ∀ k ∈ positions, k < total s.dims) (hnodup : positions.Nodup) :
    s.weightAt positions = if p ∈ positions then 1 else 0 := by
  unfold weightAt
  rw [Scalar.sum_eq]
  induction positions with
  | nil => simp
  | cons k ks ih =>
    obtain ⟨hk, hks⟩ := List.nodup_cons.mp hnodup
    rw [List.map_cons, List.sum_cons, ih (fun j hj => hlt j (by simp [hj])) hks,
      hamp k (hlt k (by simp)), apply_ite Amplitude.normSq, hu, Amplitude.normSq_zero]
    by_cases hkp : k = p
    · subst hkp
      simp [hk]
    · simp [hkp, Ne.symm hkp]

/-- Among weights of which one is one and the others are zero, that one is
picked. -/
theorem pick_single {n p : Nat} (hp : p < n) {r : ℝ} (hr : 0 ≤ r) (hr1 : r < 1) :
    pick ((List.range n).map fun j => if j = p then (1 : ℝ) else 0) r = p := by
  have hweight : ∀ j, 0 ≤ if j = p then (1 : ℝ) else 0 := fun j => by
    split_ifs <;> norm_num
  have hsum : ∀ k, ∑ j ∈ Finset.range k, (if j = p then (1 : ℝ) else 0) = if p < k then 1 else 0 :=
    fun k => by simp
  refine (pick_eq_iff hweight hr ?_).mpr ⟨hp, ?_, ?_⟩
  · rwa [hsum, if_pos hp]
  · rwa [hsum, if_neg (lt_irrefl p)]
  · rwa [hsum, if_pos (Nat.lt_succ_self p)]

/-- **Measuring reads the digits**, whatever number is drawn. -/
theorem Depicts.measured_eq (h : s.Depicts values) {sites : List Nat}
    (hsites : ∀ i ∈ sites, i < s.dims.length) {r : ℝ} (hr : 0 ≤ r) (hr1 : r < 1) :
    s.measured sites r = restrict values sites := by
  obtain ⟨hvalid, u, hu, hamp⟩ := h
  set p := index values s.dims with hp
  have hplt : p < total s.dims := index_lt_total hvalid
  -- one outcome has all the weight
  have hweights : ∀ j, s.weightAt (positionsWhere s.dims fun k => slot s.dims sites k == j)
      = if j = slot s.dims sites p then 1 else 0 := by
    intro j
    rw [weightAt_of_single hu hamp (fun k hk => List.mem_range.mp (List.mem_filter.mp hk).1)
      (List.nodup_range.filter _)]
    refine if_congr ?_ rfl rfl
    rw [List.mem_filter, List.mem_range, beq_iff_eq, and_iff_right hplt]
    exact eq_comm
  unfold measured
  simp only [hweights]
  rw [pick_single (slot_lt hplt hsites) hr hr1, digits_slot hplt hsites, digits_index hvalid]

/-- **Collapsing onto the digits leaves the state as it is.** -/
theorem Depicts.collapsed_eq (h : s.Depicts values) (sites : List Nat) :
    s.collapsed sites (restrict values sites) = s := by
  obtain ⟨hvalid, u, hu, hamp⟩ := h
  set p := index values s.dims with hp
  have hplt : p < total s.dims := index_lt_total hvalid
  have hagrees : restrict (digits p s.dims) sites = restrict values sites := by
    rw [digits_index hvalid]
  have hnorm : s.keptNorm sites (restrict values sites) = 1 := by
    unfold keptNorm
    rw [weightAt_of_single hu hamp
      (fun k hk => List.mem_range.mp (List.mem_filter.mp hk).1) (List.nodup_range.filter _),
      if_pos (List.mem_filter.mpr ⟨List.mem_range.mpr hplt, decide_eq_true hagrees⟩)]
    exact Real.sqrt_one
  -- what agrees has norm one, which the division by the norm leaves as it is
  have htiny : (tinyNorm : ℝ) < 1 := by
    show 1 / ((1000000000000000 : Nat) : ℝ) < 1
    norm_num
  refine ext_amp (dims_collapsed s sites _) fun i hi => ?_
  rw [dims_collapsed] at hi
  rw [amp_collapsed s sites _ hi, hnorm, if_pos htiny, Amplitude.divReal_one,
    amp_dropped s sites _ hi, hamp i hi]
  split_ifs with hkeep hip hip
  · rfl
  · rfl
  · exact absurd (decide_eq_true (hip ▸ hagrees)) hkeep
  · rfl

end State

end Qudit
