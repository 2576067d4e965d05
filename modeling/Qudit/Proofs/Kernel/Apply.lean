import Qudit.Proofs.Kernel.Blocks

/-!
# What a local operator computes

`Kernel.apply` succeeds on every placement of a matrix of the right size,
and `apply_ok` says with what result: a position whose controls do not hold
their configuration keeps its amplitude, and any other gets the entry of the
local image of its block that belongs to its own target digits. Nothing is
asked of the scalars; the two forms of `localImage` are the two ways in
which the kernel computes, and each of them is described by itself before
they are put together (`Placement.scale_ok`, `Placement.multiply_ok`).
-/

namespace Qudit

open Radix InPlace

namespace Kernel

variable {α : Type} [Zero α]

/-- **The amplitudes of the block of a position**, in the row-major order of
the target digits. -/
def block (dims targets : List Nat) (amps : Vector α (total dims)) (i : Nat) : List α :=
  (List.range (total (restrict dims targets))).map fun k =>
    ampAt amps (moved dims targets i (digits k (restrict dims targets)))

/-- The offsets of the positions of a block from its start. -/
abbrev within (dims targets : List Nat) : List Nat :=
  (List.range (total (restrict dims targets))).map fun k =>
    offset dims targets (digits k (restrict dims targets))

/-- The positions of a block, given by its start. -/
abbrev slots (dims targets : List Nat) (start : Nat) : List Nat :=
  (within dims targets).map fun o => start + o

variable {dims targets controls : List Nat} {configs : List Bool} {starts : List Nat}

namespace Placement

section

variable (h : Placement dims targets controls configs)
  (hs : Kernel.starts dims targets controls configs = .ok starts)

include h hs

theorem slots_eq {b : Nat} (hb : b ∈ starts) :
    slots dims targets b = (List.range (total (restrict dims targets))).map fun k =>
      moved dims targets b (digits k (restrict dims targets)) := by
  unfold slots
  rw [List.map_map]
  refine List.map_congr_left fun k hk => ?_
  exact (h.eq_moved_zero_of_mem_starts hs hb (valid_digits_of_lt (List.mem_range.mp hk))).1

/-- A position of a block comes from its own start. -/
theorem eq_start_of_mem_slots {b i : Nat} (hb : b ∈ starts) (hi : i ∈ slots dims targets b) :
    moved dims targets i (List.replicate targets.length 0) = b := by
  obtain ⟨o, ho, rfl⟩ := List.mem_map.mp hi
  obtain ⟨k, hk, rfl⟩ := List.mem_map.mp ho
  exact (h.eq_moved_zero_of_mem_starts hs hb (valid_digits_of_lt (List.mem_range.mp hk))).2

theorem lt_and_holds_of_mem_slots {b i : Nat} (hb : b ∈ starts)
    (hi : i ∈ slots dims targets b) : i < total dims ∧ Holds dims controls configs i := by
  rw [h.slots_eq hs hb] at hi
  obtain ⟨k, hk, rfl⟩ := List.mem_map.mp hi
  have hk := valid_digits_of_lt (List.mem_range.mp hk)
  obtain ⟨hlt, -, hc⟩ := (mem_starts h hs).mp hb
  exact ⟨moved_lt hlt hk, (h.holds_moved hlt hk).mpr hc⟩

theorem nodup_slots {b : Nat} (hb : b ∈ starts) : (slots dims targets b).Nodup := by
  rw [h.slots_eq hs hb]
  refine List.Nodup.map_on (fun j hj k hk hjk => ?_) List.nodup_range
  exact h.eq_of_moved_eq ((mem_starts h hs).mp hb).1 (List.mem_range.mp hj) (List.mem_range.mp hk)
    hjk

theorem nodup_starts : starts.Nodup := by
  have := h.starts_ok
  rw [hs] at this
  injection this with this
  rw [this]
  exact List.nodup_range.filter _

theorem pairwise_disjoint_slots :
    starts.Pairwise fun b c => List.Disjoint (slots dims targets b) (slots dims targets c) := by
  refine (h.nodup_starts hs).imp_of_mem fun {b c} hb hc hne i hib hic => hne ?_
  rw [← h.eq_start_of_mem_slots hs hb hib, h.eq_start_of_mem_slots hs hc hic]

/-- A block read from its start is the block read from any of its
positions. -/
theorem map_slots_moved_zero (amps : Vector α (total dims)) {i : Nat} (hi : i < total dims)
    (hc : Holds dims controls configs i) :
    (slots dims targets (moved dims targets i (List.replicate targets.length 0))).map (ampAt amps)
      = block dims targets amps i := by
  rw [h.slots_eq hs (h.moved_zero_mem_starts hs hi hc), List.map_map]
  refine List.map_congr_left fun k hk => ?_
  have hk := valid_digits_of_lt (List.mem_range.mp hk)
  exact congrArg (ampAt amps) (h.moved_moved hi (valid_zero hi h.targets_lt) hk)

/-- **A loop over all blocks** rewrites every position whose controls hold
their configuration, and no other. -/
theorem forM_blocks {f : Nat → InPlace α (total dims) Unit} {F : List α → Nat → α}
    (hf : ∀ b ∈ starts, ∀ amps, ∃ amps', f b amps = .ok () amps' ∧
      Rewrites (slots dims targets b) F amps amps') (amps : Vector α (total dims)) :
    ∃ amps', starts.forM f amps = .ok () amps' ∧
      ∀ i < total dims, ampAt amps' i = if Holds dims controls configs i
        then F (block dims targets amps i) (slot dims targets i) else ampAt amps i := by
  obtain ⟨amps', hrun, hin, hout⟩ := forM_rewrites hf (h.pairwise_disjoint_slots hs) amps
  refine ⟨amps', hrun, fun i hi => ?_⟩
  split_ifs with hc
  · have hb := h.moved_zero_mem_starts hs hi hc
    have hk : slot dims targets i < (slots dims targets
        (moved dims targets i (List.replicate targets.length 0))).length := by
      simpa using slot_lt hi h.targets_lt
    have hread := hin _ hb _ hk
    -- the position itself is the entry of its block at its own slot
    have hself : (slots dims targets
        (moved dims targets i (List.replicate targets.length 0)))[slot dims targets i] = i := by
      simp only [List.getElem_map, List.getElem_range]
      rw [digits_slot hi h.targets_lt,
        h.start_add_offset (valid_restrict (valid_digits_of_lt hi) h.targets_lt),
        moved_restrict hi]
    rwa [hself, h.map_slots_moved_zero hs amps hi hc] at hread
  · exact hout i fun b hb hmem => hc (h.lt_and_holds_of_mem_slots hs hb hmem).2

variable [Mul α]

/-- **Scaling all blocks** by the diagonal of a matrix, which is read once, before the first
block. -/
theorem scale_ok {m : Mat α} (hrows : m.rows = total (restrict dims targets))
    (hcols : m.cols = total (restrict dims targets)) (amps : Vector α (total dims)) :
    ∃ amps', scale m (within dims targets) starts amps = .ok () amps' ∧
      ∀ i < total dims, ampAt amps' i = if Holds dims controls configs i
        then (block dims targets amps i).getD (slot dims targets i) 0
          * m.coeff (slot dims targets i) (slot dims targets i)
        else ampAt amps i := by
  have hlen : (within dims targets).length = total (restrict dims targets) := by simp
  set diagonal := (List.range (within dims targets).length).map fun k => m.coeff k k
    with hdiagonal
  have hread : (List.range (within dims targets).length).mapM (fun k => m.entry? k k)
      = .ok diagonal :=
    Except.mapM_ok fun k hk => by
      have hk := List.mem_range.mp hk
      exact Mat.entry?_eq_coeff (by omega) (by omega)
  unfold scale
  rw [EStateM.bind_ok (ofExcept_ok hread amps)]
  obtain ⟨amps', hrun, hamps⟩ := h.forM_blocks hs (fun b hb now =>
    scaleBlock_rewrites diagonal
      (fun o ho => (h.lt_and_holds_of_mem_slots hs hb (List.mem_map_of_mem ho)).1)
      (List.Nodup.of_map _ (h.nodup_slots hs hb)) (by simp [hdiagonal]) now) amps
  refine ⟨amps', hrun, fun i hi => ?_⟩
  rw [hamps i hi]
  refine ite_congr rfl (fun _ => ?_) fun _ => rfl
  have hk : slot dims targets i < (within dims targets).length := by
    rw [hlen]
    exact slot_lt hi h.targets_lt
  have hentry : diagonal.getD (slot dims targets i) 0
      = m.coeff (slot dims targets i) (slot dims targets i) := by
    rw [hdiagonal, List.getD_eq_getElem _ _ (by simpa using hk), List.getElem_map,
      List.getElem_range]
  rw [hentry]

variable [Add α]

/-- **Multiplying all blocks** by a matrix. -/
theorem multiply_ok {m : Mat α} (hrows : m.rows = total (restrict dims targets))
    (hcols : m.cols = total (restrict dims targets)) (amps : Vector α (total dims)) :
    ∃ amps', multiply m (within dims targets) starts amps = .ok () amps' ∧
      ∀ i < total dims, ampAt amps' i = if Holds dims controls configs i
        then m.rowProduct (slot dims targets i) (block dims targets amps i)
        else ampAt amps i :=
  h.forM_blocks hs (fun b hb now => multiplyAt_rewrites
    (fun i hi => (h.lt_and_holds_of_mem_slots hs hb hi).1) (h.nodup_slots hs hb)
    (by simpa using hrows) (by simpa using hcols) now) amps

end

end Placement

variable [Add α] [Mul α] [Negligible α]

/-- **What a matrix makes of a block.** A matrix that is zero off its
diagonal scales each amplitude; any other is multiplied row by row. -/
def localImage (m : Mat α) (block : List α) (k : Nat) : α :=
  if m.offDiagonal Negligible.negligible then block.getD k 0 * m.coeff k k
  else m.rowProduct k block

/-- **A local operator computes the local image of every block whose
controls hold their configuration.** -/
theorem apply_ok (h : Placement dims targets controls configs) {m : Mat α}
    (hrows : m.rows = total (restrict dims targets))
    (hcols : m.cols = total (restrict dims targets)) (amps : Vector α (total dims)) :
    ∃ amps', Kernel.apply dims m targets controls configs amps = .ok () amps' ∧
      ∀ i < total dims, ampAt amps' i = if Holds dims controls configs i
        then localImage m (block dims targets amps i) (slot dims targets i)
        else ampAt amps i := by
  have hs := h.starts_ok
  unfold Kernel.apply
  rw [EStateM.bind_ok (ofExcept_ok (offsets_ok h.targets_lt) amps),
    EStateM.bind_ok (ofExcept_ok hs amps)]
  unfold localImage
  split_ifs with hdiag
  · exact h.scale_ok hs hrows hcols amps
  · exact h.multiply_ok hs hrows hcols amps

end Kernel

end Qudit
