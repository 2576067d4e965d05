import Mathlib.Algebra.BigOperators.Group.Finset.Basic
import Mathlib.Data.Set.Function
import Qudit.Proofs.Kernel.Apply

/-!
# The blocks partition the positions

A local operator visits the positions block by block, each block from its start on by the
offsets. Every position whose controls hold their configuration is visited in this way, once, and
no other position is (`Kernel.Placement.bijOn_start_add_offset`): this is what makes it safe to
write the amplitudes in place.

How many blocks there are is a matter of counting positions with prescribed digits. They are
themselves a block, that of the sites which are *not* prescribed, because moving one of them
along these sites leads to all the others (`Kernel.agreeing_perm`). So they are as many as those
sites have basis states, provided that the prescribed digits can be held at all. A control on a
site of dimension one whose configuration is one cannot, and then there is no block.
-/

namespace Qudit

namespace Radix

variable {dims sites levels values values' : List Nat}

/-- **The sites that are not listed**, in order. -/
def unlisted (dims sites : List Nat) : List Nat :=
  (List.range dims.length).filter fun i => !sites.contains i

theorem mem_unlisted {i : Nat} : i ∈ unlisted dims sites ↔ i < dims.length ∧ i ∉ sites := by
  rw [unlisted, List.mem_filter, List.mem_range, Bool.not_eq_true', List.contains_eq_mem,
    decide_eq_false_iff_not]

/-- The basis states of the sites that are not listed are counted by the product of the other
dimensions. -/
theorem total_restrict_unlisted (dims sites : List Nat) :
    total (restrict dims (unlisted dims sites))
      = ∏ i ∈ (Finset.range dims.length).filter (fun i => i ∉ sites), dims.getD i 0 := by
  have hnodup : (unlisted dims sites).Nodup := List.nodup_range.filter _
  have hset : (Finset.range dims.length).filter (fun i => i ∉ sites)
      = (unlisted dims sites).toFinset := by
    ext i
    rw [Finset.mem_filter, Finset.mem_range, List.mem_toFinset, mem_unlisted]
  rw [hset, List.prod_toFinset _ hnodup]
  rfl

/-- Lists of values agree at some sites exactly when they agree at each of them. -/
theorem restrict_eq_restrict_iff :
    restrict values sites = restrict values' sites
      ↔ ∀ i ∈ sites, values.getD i 0 = values'.getD i 0 :=
  List.map_inj_left

/-- Values that agree at the listed sites and at the others are the same. -/
theorem eq_of_restrict (sites : List Nat) (hlen : values.length = dims.length)
    (hlen' : values'.length = dims.length)
    (hsites : restrict values sites = restrict values' sites)
    (hothers : restrict values (unlisted dims sites) = restrict values' (unlisted dims sites)) :
    values = values' := by
  rw [← restrict_range values, ← restrict_range values', hlen, hlen', restrict_eq_restrict_iff]
  intro i hi
  by_cases hlisted : i ∈ sites
  · exact restrict_eq_restrict_iff.mp hsites i hlisted
  · exact restrict_eq_restrict_iff.mp hothers i (mem_unlisted.mpr ⟨List.mem_range.mp hi, hlisted⟩)

end Radix

open Radix

namespace Kernel

variable {dims sites levels targets controls : List Nat} {configs : List Bool}

/-! ## Counting positions with prescribed digits -/

/-- The positions with prescribed digits, in order. -/
def agreeing (dims sites levels : List Nat) : List Nat :=
  (List.range (total dims)).filter fun k => decide (restrict (digits k dims) sites = levels)

theorem mem_agreeing {k : Nat} :
    k ∈ agreeing dims sites levels ↔ k < total dims ∧ restrict (digits k dims) sites = levels := by
  rw [agreeing, List.mem_filter, List.mem_range, decide_eq_true_eq]

/-- The sites that are not listed can be targets by themselves. -/
theorem placement_unlisted (dims sites : List Nat) :
    Placement dims (unlisted dims sites) [] [] where
  targets_lt _ ht := (mem_unlisted.mp ht).1
  controls_lt _ hc := absurd hc List.not_mem_nil
  nodup := List.nodup_range.filter _
  length_configs := rfl

/-- **Positions with prescribed digits are a block** of the sites that are not listed. -/
theorem agreeing_perm {b : Nat} (hb : b ∈ agreeing dims sites levels) :
    (agreeing dims sites levels).Perm
      ((List.range (total (restrict dims (unlisted dims sites)))).map fun l =>
        moved dims (unlisted dims sites) b (digits l (restrict dims (unlisted dims sites)))) := by
  have hplace := placement_unlisted dims sites
  obtain ⟨hlt, hlevels⟩ := mem_agreeing.mp hb
  set others := unlisted dims sites with hothers
  have hdisjoint : ∀ i ∈ sites, i ∉ others := fun i hi hmem => (mem_unlisted.mp hmem).2 hi
  have hnodup : ((List.range (total (restrict dims others))).map fun l =>
      moved dims others b (digits l (restrict dims others))).Nodup :=
    List.Nodup.map_on (fun j hj k hk hjk => hplace.eq_of_moved_eq hlt (List.mem_range.mp hj)
      (List.mem_range.mp hk) hjk) List.nodup_range
  have hnodup' : (agreeing dims sites levels).Nodup := List.nodup_range.filter _
  refine (List.perm_ext_iff_of_nodup hnodup' hnodup).mpr fun i => ?_
  rw [mem_agreeing, List.mem_map]
  simp only [List.mem_range]
  constructor
  · rintro ⟨hi, hagree⟩
    refine ⟨slot dims others i, slot_lt hi hplace.targets_lt, ?_⟩
    have hvalid := valid_restrict (valid_digits_of_lt hi) hplace.targets_lt
    rw [digits_slot hi hplace.targets_lt]
    -- the position that is reached agrees with the given one at all sites
    refine digits_injective (moved_lt hlt hvalid) hi (eq_of_restrict sites
      (length_digits _ _) (length_digits _ _) ?_ ?_)
    · rw [restrict_moved_of_disjoint hdisjoint hlt hvalid, hlevels, hagree]
    · rw [← hothers, hplace.restrict_moved hlt hvalid]
  · rintro ⟨l, hl, rfl⟩
    have hvalid := valid_digits_of_lt hl
    exact ⟨moved_lt hlt hvalid,
      (restrict_moved_of_disjoint hdisjoint hlt hvalid).trans hlevels⟩

/-- Digits that the sites can hold are prescribed to some position. -/
theorem exists_mem_agreeing (hpos : ∀ d ∈ dims, 0 < d) (hnodup : sites.Nodup)
    (hsites : ∀ i ∈ sites, i < dims.length) (hlevels : Valid (restrict dims sites) levels) :
    ∃ b, b ∈ agreeing dims sites levels := by
  have hvalid := valid_overwrite (valid_replicate_zero hpos) hlevels
  refine ⟨_, mem_agreeing.mpr ⟨index_lt_total hvalid, ?_⟩⟩
  rw [digits_index hvalid]
  exact restrict_overwrite hnodup (by simpa using hsites) (by simpa using hlevels.length_eq)

/-- **Positions with prescribed digits are counted** by the dimensions of the other sites. -/
theorem length_agreeing (hpos : ∀ d ∈ dims, 0 < d) (hnodup : sites.Nodup)
    (hsites : ∀ i ∈ sites, i < dims.length) (hlevels : Valid (restrict dims sites) levels) :
    (agreeing dims sites levels).length
      = ∏ i ∈ (Finset.range dims.length).filter (fun i => i ∉ sites), dims.getD i 0 := by
  obtain ⟨b, hb⟩ := exists_mem_agreeing hpos hnodup hsites hlevels
  rw [(agreeing_perm hb).length_eq, List.length_map, List.length_range, total_restrict_unlisted]

/-! ## Blocks -/

namespace Placement

variable {starts : List Nat}

/-- **Starts and offsets reach the positions whose controls hold their configuration, and each of
them once.** -/
theorem bijOn_start_add_offset (h : Placement dims targets controls configs)
    (hs : Kernel.starts dims targets controls configs = .ok starts) :
    Set.BijOn (fun p : Nat × Nat => p.1 + (within dims targets).getD p.2 0)
      ({b | b ∈ starts} ×ˢ {k | k < (within dims targets).length})
      {i | i < total dims ∧ Holds dims controls configs i} := by
  have hslot : ∀ b k : Nat, k < (within dims targets).length →
      b + (within dims targets).getD k 0 ∈ slots dims targets b := by
    intro b k hk
    rw [List.getD_eq_getElem _ _ hk]
    exact List.mem_map_of_mem (List.getElem_mem hk)
  refine ⟨?_, ?_, ?_⟩
  · rintro ⟨b, k⟩ ⟨hb, hk⟩
    exact h.lt_and_holds_of_mem_slots hs hb (hslot b k hk)
  · rintro ⟨b, j⟩ ⟨hb, hj⟩ ⟨c, k⟩ ⟨hc, hk⟩ (hsum : b + _ = c + _)
    -- the sum is in one block only, and within a block the offsets are distinct
    have hstart := h.eq_start_of_mem_slots hs hc (hslot c k hk)
    rw [← hsum, h.eq_start_of_mem_slots hs hb (hslot b j hj)] at hstart
    subst hstart
    have hnodup := List.Nodup.of_map _ (h.nodup_slots hs hb)
    have hoffset := Nat.add_left_cancel hsum
    rw [List.getD_eq_getElem _ _ hj, List.getD_eq_getElem _ _ hk] at hoffset
    exact Prod.ext rfl (hnodup.getElem_inj_iff.mp hoffset)
  · rintro i ⟨hi, hc⟩
    have hk : slot dims targets i < (within dims targets).length := by
      simpa using slot_lt hi h.targets_lt
    refine ⟨(moved dims targets i (List.replicate targets.length 0), slot dims targets i),
      ⟨h.moved_zero_mem_starts hs hi hc, hk⟩, ?_⟩
    show _ + _ = i
    rw [List.getD_eq_getElem _ _ hk, List.getElem_map, List.getElem_range,
      digits_slot hi h.targets_lt,
      h.start_add_offset (valid_restrict (valid_digits_of_lt hi) h.targets_lt), moved_restrict hi]

/-- **The blocks are counted** by the dimensions of the sites that are neither targets nor
controls, where the controls can hold their configuration. -/
theorem length_starts (h : Placement dims targets controls configs)
    (hs : Kernel.starts dims targets controls configs = .ok starts) (hpos : ∀ d ∈ dims, 0 < d)
    (hconfigs : Valid (restrict dims controls) (configs.map Bool.toNat)) :
    starts.length = ∏ i ∈ (Finset.range dims.length).filter
      (fun i => i ∉ targets ∧ i ∉ controls), dims.getD i 0 := by
  rw [h.starts_ok] at hs
  obtain ⟨⟩ := hs
  have hzero := valid_restrict_zero (pos_restrict hpos h.targets_lt)
  have hvalid : Valid (restrict dims (targets ++ controls))
      (List.replicate targets.length 0 ++ configs.map Bool.toNat) := by
    rw [restrict, List.map_append]
    exact List.rel_append hzero hconfigs
  have hsites : ∀ i ∈ targets ++ controls, i < dims.length := fun i hi =>
    (List.mem_append.mp hi).elim (h.targets_lt i) (h.controls_lt i)
  refine (length_agreeing hpos (List.nodup_append_comm.mp h.nodup) hsites hvalid).trans ?_
  refine Finset.prod_congr (Finset.filter_congr fun i _ => ?_) fun _ _ => rfl
  rw [List.mem_append, not_or]

/-- There is no block where some control cannot hold its configuration. -/
theorem starts_eq_nil (h : Placement dims targets controls configs)
    (hs : Kernel.starts dims targets controls configs = .ok starts)
    (hconfigs : ¬Valid (restrict dims controls) (configs.map Bool.toNat)) : starts = [] := by
  refine List.eq_nil_iff_forall_not_mem.mpr fun b hb => hconfigs ?_
  obtain ⟨hlt, -, hc⟩ := (mem_starts h hs).mp hb
  exact hc ▸ valid_restrict (valid_digits_of_lt hlt) h.controls_lt

end Placement

/-- **The blocks partition the positions whose controls hold their configuration.** Over sites of
positive dimension, with distinct targets and controls that exist, there are as many offsets as
the targets have basis states, and adding an offset to a start is a bijection onto these
positions. The starts are strictly increasing. They are as many as the product of the dimensions
of the sites that are neither targets nor controls, if every configuration is below the dimension
of its control, and otherwise there are none. -/
theorem blocks_partition {dims targets controls : List Nat} {configs : List Bool}
    (hpos : ∀ d ∈ dims, 1 ≤ d) (h : Placement dims targets controls configs) :
    ∃ offsets starts, Kernel.offsets dims targets = .ok offsets ∧
      Kernel.starts dims targets controls configs = .ok starts ∧
      offsets.length = (targets.map fun t => dims.getD t 0).prod ∧
      Set.BijOn (fun p : Nat × Nat => p.1 + offsets.getD p.2 0)
        ({b | b ∈ starts} ×ˢ {k | k < offsets.length})
        {i | i < dims.prod ∧ Holds dims controls configs i} ∧
      starts.Pairwise (· < ·) ∧
      (Valid (restrict dims controls) (configs.map Bool.toNat) →
        starts.length = ∏ i ∈ (Finset.range dims.length).filter
          (fun i => i ∉ targets ∧ i ∉ controls), dims.getD i 0) ∧
      (¬Valid (restrict dims controls) (configs.map Bool.toNat) → starts.length = 0) := by
  have hs := h.starts_ok
  have hlen : (within dims targets).length = total (restrict dims targets) := by simp
  refine ⟨within dims targets, _, offsets_ok h.targets_lt, hs, hlen,
    h.bijOn_start_add_offset hs, List.pairwise_lt_range.filter _, h.length_starts hs hpos,
    fun hconfigs => ?_⟩
  rw [h.starts_eq_nil hs hconfigs, List.length_nil]

/-- Two qubits as targets, the second one first, around a qutrit that has to hold one, and beside
another qutrit: three blocks of four positions, interleaved. A control on a site of dimension one
leaves none. -/
theorem blocks_partition_interleaved :
    (∀ d ∈ [2, 3, 2, 3], 1 ≤ d) ∧ Placement [2, 3, 2, 3] [2, 0] [1] [true] ∧
      Set.BijOn (fun p : Nat × Nat => p.1 + [0, 18, 3, 21].getD p.2 0)
        ({b | b ∈ [6, 7, 8]} ×ˢ {k | k < 4})
        {i | i < 36 ∧ Holds [2, 3, 2, 3] [1] [true] i} ∧
      Placement [1, 2] [1] [0] [true] ∧ Kernel.starts [1, 2] [1] [0] [true] = .ok [] := by
  have hpos : ∀ d ∈ [2, 3, 2, 3], 1 ≤ d := by decide
  have hplace : Placement [2, 3, 2, 3] [2, 0] [1] [true] :=
    ⟨by decide, by decide, by decide, rfl⟩
  have hplace' : Placement [1, 2] [1] [0] [true] := ⟨by decide, by decide, by decide, rfl⟩
  obtain ⟨offsets, starts, hoffsets, hstarts, -, hbij, -⟩ := blocks_partition hpos hplace
  obtain ⟨-, starts', -, hstarts', -, -, -, -, hnone⟩ := blocks_partition (by decide) hplace'
  obtain ⟨⟩ : Except.ok [0, 18, 3, 21] = Except.ok offsets := hoffsets
  obtain ⟨⟩ : Except.ok [6, 7, 8] = Except.ok starts := hstarts
  refine ⟨hpos, hplace, hbij, hplace', hstarts'.trans (congrArg Except.ok ?_)⟩
  exact List.length_eq_zero_iff.mp (hnone (by simp [Valid]))

end Kernel

end Qudit
