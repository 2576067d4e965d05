import Qudit.Proofs.Kernel.InPlace
import Qudit.Proofs.Radix.Overwrite

/-!
# The blocks of a local operator

A local operator groups the positions by their digits away from its targets:
`moved` is the position reached from another one by replacing the target
digits, and the block of a position is everything it can be moved to. The
kernel enumerates blocks by their starts and offsets. `start_add_offset` says
that both descriptions agree, `moved_zero_mem_starts` that every position
whose controls hold their configuration is in a block, and
`eq_moved_zero_of_mem_starts` that it is in one block only.
-/

namespace Qudit

open Radix

namespace Kernel

/-- **Sites on which a local operator can be placed**: they exist and are
all distinct, and every control has its configuration. -/
structure Placement (dims targets controls : List Nat) (configs : List Bool) : Prop where
  /-- The targets exist. -/
  targets_lt : ∀ t ∈ targets, t < dims.length
  /-- The controls exist. -/
  controls_lt : ∀ c ∈ controls, c < dims.length
  /-- No site is listed twice. -/
  nodup : (controls ++ targets).Nodup
  /-- There is one configuration per control. -/
  length_configs : configs.length = controls.length

/-- Whether the controls hold their configuration at a position. -/
abbrev Holds (dims controls : List Nat) (configs : List Bool) (i : Nat) : Prop :=
  restrict (digits i dims) controls = configs.map Bool.toNat

/-- **The position with its target digits replaced.** -/
def moved (dims targets : List Nat) (i : Nat) (levels : List Nat) : Nat :=
  index (overwrite (digits i dims) targets levels) dims

/-- The row-major index of the digits that a position has at the targets. -/
def slot (dims targets : List Nat) (i : Nat) : Nat :=
  index (restrict (digits i dims) targets) (restrict dims targets)

/-! ## Offsets -/

@[simp] theorem offset_nil (dims levels : List Nat) : offset dims [] levels = 0 := by
  simp [offset]

theorem offset_cons (dims sites levels : List Nat) (s l : Nat) :
    offset dims (s :: sites) (l :: levels)
      = l * (strides dims).getD s 0 + offset dims sites levels := by
  have hacc : ∀ (ps : List (Nat × Nat)) (a : Nat),
      ps.foldl (fun acc p => acc + p.1 * (strides dims).getD p.2 0) a
        = a + ps.foldl (fun acc p => acc + p.1 * (strides dims).getD p.2 0) 0 := by
    intro ps
    induction ps with
    | nil => simp
    | cons p ps ih =>
      intro a
      rw [List.foldl_cons, List.foldl_cons, ih, ih (0 + _), Nat.zero_add, Nat.add_assoc]
  show ((levels.zip sites).foldl _ (0 + l * _)) = _
  rw [hacc, Nat.zero_add]
  rfl

/-- **The position splits into what the target digits contribute and the
rest.** -/
theorem index_overwrite {dims values sites levels : List Nat}
    (hlen : values.length = dims.length) (hsites : ∀ s ∈ sites, s < dims.length)
    (hnodup : sites.Nodup) (hlevels : levels.length = sites.length) :
    index (overwrite values sites levels) dims
      = index (overwrite values sites (List.replicate sites.length 0)) dims
        + offset dims sites levels := by
  induction sites generalizing levels with
  | nil => simp
  | cons s ss ih =>
    obtain _ | ⟨l, ls⟩ := levels
    · simp at hlevels
    obtain ⟨hs, hss⟩ := List.nodup_cons.mp hnodup
    have ih' := ih (fun t ht => hsites t (by simp [ht])) hss (by simpa using hlevels)
    rw [List.length_cons, List.replicate_succ, overwrite_cons, overwrite_cons,
      overwrite_set hs, overwrite_set hs, offset_cons]
    have hlength : ∀ levels, (overwrite values ss levels).length = dims.length := by
      simpa using hlen
    have hl := index_set (hlength ls) (hsites s (by simp)) l
    have h0 := index_set (hlength (List.replicate ss.length 0)) (hsites s (by simp)) 0
    rw [getD_overwrite_of_notMem hs] at hl h0
    omega

theorem offsets_ok {dims targets : List Nat} (h : ∀ t ∈ targets, t < dims.length) :
    offsets dims targets = .ok ((List.range (total (restrict dims targets))).map fun k =>
      offset dims targets (digits k (restrict dims targets))) := by
  unfold offsets
  rw [Except.bind_ok (mapM_entryAt h)]
  show Except.ok _ = _
  unfold basis
  rw [List.map_map]
  rfl

/-! ## Starts -/

/-- An answer of the check is the right one, also where it has not looked at every site. -/
theorem agrees_of_exists {values sites levels : List Nat} (hlen : levels.length = sites.length)
    (h : ∃ b, agrees values (sites.zip levels) = .ok b) :
    agrees values (sites.zip levels) = .ok (decide (restrict values sites = levels)) := by
  induction sites generalizing levels with
  | nil => rw [List.length_eq_zero_iff.mp hlen]; rfl
  | cons s ss ih =>
    obtain _ | ⟨l, ls⟩ := levels
    · simp at hlen
    obtain ⟨b, h⟩ := h
    have hs : s < values.length := by
      by_contra hs
      simp [agrees, entryAt, hs] at h
    simp only [List.zip_cons_cons, agrees, entryAt_of_lt hs, restrict_cons,
      List.getD_eq_getElem _ _ hs, List.cons.injEq] at h ⊢
    split_ifs at h ⊢ with hl
    · rw [ih (by simpa using hlen) ⟨b, h⟩]
      simp [hl]
    · simp [hl]

/-- At sites that exist the check has an answer. -/
theorem exists_agrees {values sites : List Nat} (hsites : ∀ s ∈ sites, s < values.length)
    (levels : List Nat) : ∃ b, agrees values (sites.zip levels) = .ok b := by
  induction sites generalizing levels with
  | nil => exact ⟨true, rfl⟩
  | cons s ss ih =>
    obtain _ | ⟨l, ls⟩ := levels
    · exact ⟨true, rfl⟩
    simp only [List.zip_cons_cons, agrees, entryAt_of_lt (hsites s (by simp))]
    split_ifs
    · exact ih (fun t ht => hsites t (by simp [ht])) ls
    · exact ⟨false, rfl⟩

/-- The check of prescribed digits compares them all at once. -/
theorem agrees_eq {values sites levels : List Nat} (hsites : ∀ s ∈ sites, s < values.length)
    (hlen : levels.length = sites.length) :
    agrees values (sites.zip levels) = .ok (decide (restrict values sites = levels)) :=
  agrees_of_exists hlen (exists_agrees hsites levels)

/-- Digits that agree with a list of prescriptions agree with the first ones of it. -/
theorem agrees_of_append {values : List Nat} {ps qs : List (Nat × Nat)}
    (h : agrees values (ps ++ qs) = .ok true) : agrees values ps = .ok true := by
  induction ps with
  | nil => rfl
  | cons p ps ih =>
    obtain ⟨site, level⟩ := p
    rw [List.cons_append] at h
    unfold agrees at h ⊢
    cases hentry : entryAt values site with
    | error e =>
      rw [hentry] at h
      cases h
    | ok v =>
      rw [hentry] at h
      dsimp only at h ⊢
      split_ifs at h ⊢ with hv
      · exact ih h
      · exact h

theorem matching_ok {dims sites levels : List Nat} (hsites : ∀ s ∈ sites, s < dims.length)
    (hlen : levels.length = sites.length) :
    matching dims sites levels = .ok ((List.range (total dims)).filter fun k =>
      decide (restrict (digits k dims) sites = levels)) :=
  select_eq_filter fun k _ => agrees_eq (by simpa using hsites) hlen

variable {dims targets controls : List Nat} {configs : List Bool}

namespace Placement

theorem targets_nodup (h : Placement dims targets controls configs) : targets.Nodup :=
  (List.nodup_append.mp h.nodup).2.1

theorem disjoint (h : Placement dims targets controls configs) :
    ∀ c ∈ controls, c ∉ targets := by
  intro c hc ht
  exact (List.nodup_append.mp h.nodup).2.2 c hc c ht rfl

theorem starts_ok (h : Placement dims targets controls configs) :
    starts dims targets controls configs = .ok ((List.range (total dims)).filter fun k =>
      decide (restrict (digits k dims) (targets ++ controls)
        = List.replicate targets.length 0 ++ configs.map Bool.toNat)) := by
  refine matching_ok (fun s hs => ?_) (by simp [h.length_configs])
  obtain hs | hs := List.mem_append.mp hs
  · exact h.targets_lt s hs
  · exact h.controls_lt s hs

end Placement

/-- A block starts where the targets hold zero and the controls their
configuration. -/
theorem mem_starts {starts : List Nat} (h : Placement dims targets controls configs)
    (hs : Kernel.starts dims targets controls configs = .ok starts) {b : Nat} :
    b ∈ starts ↔ b < total dims ∧
      restrict (digits b dims) targets = List.replicate targets.length 0 ∧
      Holds dims controls configs b := by
  rw [h.starts_ok] at hs
  injection hs with hs
  rw [← hs, List.mem_filter, List.mem_range, decide_eq_true_eq, restrict, List.map_append]
  refine and_congr_right fun _ => ?_
  constructor
  · intro happ
    exact List.append_inj happ (by simp)
  · rintro ⟨ht, hc⟩
    exact congrArg₂ (· ++ ·) ht hc

/-! ## Moving within a block -/

variable {i : Nat} {levels : List Nat}

theorem moved_lt (hi : i < total dims) (hl : Valid (restrict dims targets) levels) :
    moved dims targets i levels < total dims :=
  index_lt_total (valid_overwrite (valid_digits_of_lt hi) hl)

theorem digits_moved (hi : i < total dims) (hl : Valid (restrict dims targets) levels) :
    digits (moved dims targets i levels) dims = overwrite (digits i dims) targets levels :=
  digits_index (valid_overwrite (valid_digits_of_lt hi) hl)

theorem slot_lt (hi : i < total dims) (ht : ∀ t ∈ targets, t < dims.length) :
    slot dims targets i < total (restrict dims targets) :=
  index_lt_total (valid_restrict (valid_digits_of_lt hi) ht)

theorem digits_slot (hi : i < total dims) (ht : ∀ t ∈ targets, t < dims.length) :
    digits (slot dims targets i) (restrict dims targets) = restrict (digits i dims) targets :=
  digits_index (valid_restrict (valid_digits_of_lt hi) ht)

/-- Sites of a register with a position can hold zero. -/
theorem valid_zero (hi : i < total dims) (ht : ∀ t ∈ targets, t < dims.length) :
    Valid (restrict dims targets) (List.replicate targets.length 0) :=
  valid_restrict_zero (valid_restrict (valid_digits_of_lt hi) ht).pos

/-- Moving keeps the digits at all sites but the targets. -/
theorem restrict_moved_of_disjoint {sites : List Nat} (h : ∀ i ∈ sites, i ∉ targets)
    (hi : i < total dims) (hl : Valid (restrict dims targets) levels) :
    restrict (digits (moved dims targets i levels) dims) sites
      = restrict (digits i dims) sites := by
  rw [digits_moved hi hl, restrict_overwrite_of_disjoint h]

/-- Moving along other sites is not seen at the controls. -/
theorem holds_moved_of_disjoint (h : ∀ c ∈ controls, c ∉ targets) (hi : i < total dims)
    (hl : Valid (restrict dims targets) levels) :
    Holds dims controls configs (moved dims targets i levels) ↔ Holds dims controls configs i := by
  unfold Holds
  rw [restrict_moved_of_disjoint h hi hl]

/-- Moving along other sites keeps the digits at sites that a position is read by. -/
theorem slot_moved_of_disjoint {sites : List Nat} (h : ∀ i ∈ sites, i ∉ targets)
    (hi : i < total dims) (hl : Valid (restrict dims targets) levels) :
    slot dims sites (moved dims targets i levels) = slot dims sites i := by
  unfold slot
  rw [restrict_moved_of_disjoint h hi hl]

/-- Moves along sites apart from each other can be made in either order. -/
theorem moved_comm {others levels' : List Nat} (h : ∀ t ∈ targets, t ∉ others)
    (hi : i < total dims) (hl : Valid (restrict dims targets) levels)
    (hl' : Valid (restrict dims others) levels') :
    moved dims others (moved dims targets i levels) levels'
      = moved dims targets (moved dims others i levels') levels := by
  rw [moved, digits_moved hi hl, overwrite_comm h, moved, digits_moved hi hl']

namespace Placement

/-- Moving keeps the digits at the controls. -/
theorem holds_moved (h : Placement dims targets controls configs) (hi : i < total dims)
    (hl : Valid (restrict dims targets) levels) :
    Holds dims controls configs (moved dims targets i levels) ↔ Holds dims controls configs i :=
  holds_moved_of_disjoint h.disjoint hi hl

/-- The digits at the targets are the new ones. -/
theorem restrict_moved (h : Placement dims targets controls configs) (hi : i < total dims)
    (hl : Valid (restrict dims targets) levels) :
    restrict (digits (moved dims targets i levels) dims) targets = levels := by
  rw [digits_moved hi hl]
  exact restrict_overwrite h.targets_nodup (by simpa using h.targets_lt)
    (by simpa using hl.length_eq)

theorem slot_moved (h : Placement dims targets controls configs) (hi : i < total dims)
    (hl : Valid (restrict dims targets) levels) :
    slot dims targets (moved dims targets i levels) = index levels (restrict dims targets) := by
  unfold slot
  rw [h.restrict_moved hi hl]

/-- Of two moves the last one counts. -/
theorem moved_moved (h : Placement dims targets controls configs) (hi : i < total dims)
    {levels' : List Nat} (hl : Valid (restrict dims targets) levels)
    (hl' : Valid (restrict dims targets) levels') :
    moved dims targets (moved dims targets i levels) levels' = moved dims targets i levels' := by
  rw [moved, digits_moved hi hl, overwrite_overwrite h.targets_nodup
    (by simpa using hl.length_eq) (by simpa using hl'.length_eq), moved]

/-- Moves to different basis states of the targets lead to different positions. -/
theorem eq_of_moved_eq (h : Placement dims targets controls configs) (hi : i < total dims)
    {j k : Nat} (hj : j < total (restrict dims targets)) (hk : k < total (restrict dims targets))
    (hjk : moved dims targets i (digits j (restrict dims targets))
      = moved dims targets i (digits k (restrict dims targets))) : j = k := by
  -- the target digits of the two positions are the digits of `j` and of `k`
  have hdigits := congrArg (fun p => restrict (digits p dims) targets) hjk
  rw [h.restrict_moved hi (valid_digits_of_lt hj),
    h.restrict_moved hi (valid_digits_of_lt hk)] at hdigits
  exact digits_injective hj hk hdigits

/-- A position is reached from any other of its block. -/
theorem moved_restrict (hi : i < total dims) :
    moved dims targets i (restrict (digits i dims) targets) = i := by
  rw [moved, overwrite_restrict, index_digits_of_lt hi]

/-- Moving can be taken back. -/
theorem moved_back (h : Placement dims targets controls configs) (hi : i < total dims)
    (hl : Valid (restrict dims targets) levels) :
    moved dims targets (moved dims targets i levels) (restrict (digits i dims) targets) = i := by
  rw [h.moved_moved hi hl (valid_restrict (valid_digits_of_lt hi) h.targets_lt),
    moved_restrict hi]

/-- **The offset leads from the start of a block to every position of it.** -/
theorem start_add_offset (h : Placement dims targets controls configs)
    (hl : Valid (restrict dims targets) levels) :
    moved dims targets i (List.replicate targets.length 0) + offset dims targets levels
      = moved dims targets i levels := by
  rw [moved, moved, ← index_overwrite (by simp) h.targets_lt h.targets_nodup
    (by simpa using hl.length_eq)]

/-- **Every position whose controls hold their configuration is in a
block.** -/
theorem moved_zero_mem_starts (h : Placement dims targets controls configs) {starts : List Nat}
    (hs : Kernel.starts dims targets controls configs = .ok starts) (hi : i < total dims)
    (hc : Holds dims controls configs i) :
    moved dims targets i (List.replicate targets.length 0) ∈ starts :=
  have h0 := valid_zero hi h.targets_lt
  (mem_starts h hs).mpr
    ⟨moved_lt hi h0, h.restrict_moved hi h0, (h.holds_moved hi h0).mpr hc⟩

/-- The start of a block is reached from itself with zero at the targets. -/
theorem moved_zero_of_mem_starts (h : Placement dims targets controls configs)
    {starts : List Nat} (hs : Kernel.starts dims targets controls configs = .ok starts)
    {b : Nat} (hb : b ∈ starts) :
    moved dims targets b (List.replicate targets.length 0) = b := by
  obtain ⟨hlt, hzero, -⟩ := (mem_starts h hs).mp hb
  rw [← hzero, moved_restrict hlt]

/-- **A position is in one block only**: the block that starts where its
target digits are set to zero. -/
theorem eq_moved_zero_of_mem_starts (h : Placement dims targets controls configs)
    {starts : List Nat} (hs : Kernel.starts dims targets controls configs = .ok starts)
    {b : Nat} (hb : b ∈ starts) (hl : Valid (restrict dims targets) levels) :
    b + offset dims targets levels = moved dims targets b levels ∧
      moved dims targets (b + offset dims targets levels) (List.replicate targets.length 0)
        = b := by
  have hlt := ((mem_starts h hs).mp hb).1
  have hb0 := h.moved_zero_of_mem_starts hs hb
  have hadd : b + offset dims targets levels = moved dims targets b levels := by
    rw [← h.start_add_offset hl, hb0]
  refine ⟨hadd, ?_⟩
  rw [hadd, h.moved_moved hlt hl (valid_zero hlt h.targets_lt), hb0]

end Placement

end Kernel

end Qudit
