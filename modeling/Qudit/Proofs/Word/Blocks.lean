import Qudit.Proofs.Kernel.Apply
import Qudit.Proofs.Radix.Order
import Qudit.Proofs.Word.Index

/-!
# Blocks in machine words

A local operator reaches the amplitudes of a block by adding offsets to a start, and an offset is
itself a sum of digits times strides. Here the kernel is written down for any `Arithmetic`, down to
the amplitudes that it changes (`Arithmetic.apply`), and it does what `Kernel.apply` does as soon as
the arithmetic is exact below a bound and the positions are counted below it
(`Arithmetic.ExactBelow.apply_eq`).

All sums have terms that are not negative, so the last value of each bounds what it passes through.
For an offset the last value is a position itself: that of the digits in question at the targets
and zero elsewhere. For a start and an offset it is the position reached within the block, since
every start holds zero at the targets. This is all that is used of the starts, and it holds
whatever the controls are: they may be listed twice, be among the targets, or be more or fewer than
their configurations.
-/

namespace Qudit

open Radix InPlace

/-! ## How far offsets lead -/

namespace Kernel

variable {dims targets controls levels values : List Nat} {b : Nat}

/-- From digits that hold zero at the targets an offset leads to a position. -/
theorem cleared_add_offset_lt (hvalues : Valid dims values) (hnodup : targets.Nodup)
    (ht : ∀ t ∈ targets, t < dims.length) (hl : Valid (restrict dims targets) levels) :
    index (overwrite values targets (List.replicate targets.length 0)) dims
      + offset dims targets levels < total dims := by
  rw [← index_overwrite hvalues.length_eq ht hnodup (by simpa using hl.length_eq)]
  exact index_lt_total (valid_overwrite hvalues hl)

/-- **An offset is a position.** -/
theorem offset_lt_total (hpos : ∀ d ∈ dims, 0 < d) (hnodup : targets.Nodup)
    (ht : ∀ t ∈ targets, t < dims.length) (hl : Valid (restrict dims targets) levels) :
    offset dims targets levels < total dims :=
  (Nat.le_add_left _ _).trans_lt (cleared_add_offset_lt (valid_digits hpos 0) hnodup ht hl)

/-- **A start and an offset make a position.** -/
theorem add_offset_lt_total (hb : b < total dims)
    (hzero : restrict (digits b dims) targets = List.replicate targets.length 0)
    (hnodup : targets.Nodup) (ht : ∀ t ∈ targets, t < dims.length)
    (hl : Valid (restrict dims targets) levels) : b + offset dims targets levels < total dims := by
  have hlt := cleared_add_offset_lt (valid_digits_of_lt hb) hnodup ht hl
  rwa [← hzero, overwrite_restrict, index_digits_of_lt hb] at hlt

/-- **Starts are found for any sites that exist,** and every start is a position that holds zero at
the targets. -/
theorem exists_starts (ht : ∀ t ∈ targets, t < dims.length) (hc : ∀ c ∈ controls, c < dims.length)
    (configs : List Bool) :
    ∃ starts, Kernel.starts dims targets controls configs = .ok starts ∧
      ∀ b ∈ starts, b < total dims ∧
        restrict (digits b dims) targets = List.replicate targets.length 0 := by
  have hsites : ∀ s ∈ targets ++ controls, s < dims.length := fun s hs =>
    (List.mem_append.mp hs).elim (ht s) (hc s)
  have htest : ∀ k ∈ List.range (total dims), ∃ answer,
      agrees (digits k dims) ((targets ++ controls).zip
        (List.replicate targets.length 0 ++ configs.map Bool.toNat)) = .ok answer :=
    fun k _ => exists_agrees (fun s hs => (hsites s hs).trans_eq (length_digits k dims).symm) _
  obtain ⟨starts, hstarts, hmem⟩ := exists_select htest
  refine ⟨starts, hstarts, fun b hb => ?_⟩
  obtain ⟨hb, hagrees⟩ := hmem b hb
  rw [List.zip_append (by simp)] at hagrees
  -- the targets come first among the prescriptions, and as many zeros with them
  have htargets := agrees_of_append hagrees
  rw [agrees_eq (by simpa using ht) (by simp), Except.ok.injEq, decide_eq_true_eq] at htargets
  exact ⟨List.mem_range.mp hb, htargets⟩

end Kernel

namespace Arithmetic

/-! ## The kernel -/

variable (A : Arithmetic)

/-- How far the position moves when the sites go from zero to `values`. -/
def offset (strides sites values : List Nat) : Except Fault Nat :=
  (values.zip sites).foldlM
    (fun acc p => do A.add acc (← A.mul p.1 (← entryAt strides p.2))) 0

/-- The offset of every basis state of the target sites from the start of its block. -/
def offsets (dims targets : List Nat) : Except Fault (List Nat) := do
  let strides ← A.strides dims
  let states ← A.basis (← targets.mapM (entryAt dims))
  states.mapM fun p => A.offset strides targets p.2

/-- The start of every block. -/
def starts (dims targets controls : List Nat) (configs : List Bool) :
    Except Fault (List Nat) := do
  let count ← A.total dims
  select (fun k => agrees (digits k dims) ((targets ++ controls).zip
    (List.replicate targets.length 0 ++ configs.map Bool.toNat))) (List.range count)

/-- The positions of the block with the given start. -/
def slots (offsets : List Nat) (start : Nat) : Except Fault (List Nat) :=
  offsets.mapM fun o => A.add start o

section

variable {α : Type} {n : Nat} [Zero α] [Add α] [Mul α]

/-- Multiplies every block by the matrix. -/
def multiply (m : Mat α) (offsets starts : List Nat) : InPlace α n Unit :=
  starts.forM fun start => do Kernel.multiplyAt m (← InPlace.ofExcept (A.slots offsets start))

/-- Scales every block by the diagonal of the matrix. -/
def scale (m : Mat α) (offsets starts : List Nat) : InPlace α n Unit := do
  let diagonal ← InPlace.ofExcept ((List.range offsets.length).mapM fun k => m.entry? k k)
  starts.forM fun start =>
    (offsets.zip diagonal).forM fun p => do
      Kernel.scaleAt (← InPlace.ofExcept (A.add start p.1)) p.2

/-- Applies a matrix on the targets, conditioned on the controls. -/
def apply [Negligible α] (dims : List Nat) (m : Mat α) (targets controls : List Nat)
    (configs : List Bool) : InPlace α (Radix.total dims) Unit := do
  let within ← InPlace.ofExcept (A.offsets dims targets)
  let blocks ← InPlace.ofExcept (A.starts dims targets controls configs)
  if m.offDiagonal Negligible.negligible then A.scale m within blocks
  else A.multiply m within blocks

end

/-! ## What is exact -/

variable {A} {bound : Nat} {dims targets controls levels : List Nat}

/-- The sum behind an offset, begun at any number. -/
theorem ExactBelow.foldlM_offset_eq (hA : A.ExactBelow bound)
    (ht : ∀ t ∈ targets, t < dims.length) (acc : Nat)
    (h : acc + Kernel.offset dims targets levels < bound) :
    (levels.zip targets).foldlM
        (fun acc p => do A.add acc (← A.mul p.1 (← entryAt (Radix.strides dims) p.2))) acc
      = .ok (acc + Kernel.offset dims targets levels) := by
  induction targets generalizing levels acc with
  | nil =>
    rw [List.zip_nil_right, Kernel.offset_nil]
    rfl
  | cons t ts ih =>
    obtain _ | ⟨l, ls⟩ := levels
    · rfl
    have hstride : entryAt (Radix.strides dims) t = .ok ((Radix.strides dims).getD t 0) :=
      entryAt_eq_getD (by simpa using ht t List.mem_cons_self)
    rw [Kernel.offset_cons, ← Nat.add_assoc] at h ⊢
    have hmul : l * (Radix.strides dims).getD t 0 < bound := by omega
    have hround : (do A.add acc (← A.mul l (← entryAt (Radix.strides dims) t)))
        = .ok (acc + l * (Radix.strides dims).getD t 0) := by
      rw [Except.bind_ok hstride, Except.bind_ok (hA.mul_eq hmul)]
      exact hA.add_eq (by omega)
    rw [List.zip_cons_cons, List.foldlM_cons, Except.bind_ok hround]
    exact ih (fun s hs => ht s (List.mem_cons_of_mem t hs)) _ h

section

variable (hA : A.ExactBelow bound) (hpos : ∀ d ∈ dims, 0 < d) (hbound : Radix.total dims < bound)

include hA hpos hbound

/-- **An offset is exact** if the positions are counted below the bound. -/
theorem ExactBelow.offset_eq (hnodup : targets.Nodup) (ht : ∀ t ∈ targets, t < dims.length)
    (hl : Valid (restrict dims targets) levels) :
    A.offset (Radix.strides dims) targets levels = .ok (Kernel.offset dims targets levels) := by
  have hlt := (Kernel.offset_lt_total hpos hnodup ht hl).trans hbound
  rw [← Nat.zero_add (Kernel.offset dims targets levels)] at hlt ⊢
  exact hA.foldlM_offset_eq ht 0 hlt

/-- **The offsets are exact.** -/
theorem ExactBelow.offsets_eq (hnodup : targets.Nodup) (ht : ∀ t ∈ targets, t < dims.length) :
    A.offsets dims targets = Kernel.offsets dims targets := by
  have hbasis := hA.basis_eq (pos_restrict hpos ht)
    ((total_restrict_le hpos hnodup ht).trans_lt hbound)
  rw [offsets, Kernel.offsets, Except.bind_ok (hA.strides_eq hpos hbound),
    Except.bind_ok (mapM_entryAt ht), Except.bind_ok hbasis, Except.bind_ok (mapM_entryAt ht)]
  exact Except.mapM_ok fun p hp => hA.offset_eq hpos hbound hnodup ht (mem_basis.mp hp).1

/-- **The starts are exact.** -/
theorem ExactBelow.starts_eq (targets controls : List Nat) (configs : List Bool) :
    A.starts dims targets controls configs = Kernel.starts dims targets controls configs := by
  rw [starts, Except.bind_ok (hA.total_eq hpos hbound)]
  rfl

omit hpos in
/-- **A start and an offset are added exactly.** -/
theorem ExactBelow.add_offset_eq (hnodup : targets.Nodup) (ht : ∀ t ∈ targets, t < dims.length)
    {b : Nat} (hb : b < Radix.total dims)
    (hzero : restrict (digits b dims) targets = List.replicate targets.length 0) :
    ∀ o ∈ Kernel.within dims targets, A.add b o = .ok (b + o) := by
  intro o ho
  obtain ⟨k, hk, rfl⟩ := List.mem_map.mp ho
  have hvalid := valid_digits_of_lt (List.mem_range.mp hk)
  exact hA.add_eq ((Kernel.add_offset_lt_total hb hzero hnodup ht hvalid).trans hbound)

end

variable {α : Type} {n : Nat} {offsets starts : List Nat} [Mul α]

/-- Blocks whose positions are exact are scaled as they are over the natural numbers. -/
theorem scale_eq (m : Mat α) (hadd : ∀ b ∈ starts, ∀ o ∈ offsets, A.add b o = .ok (b + o))
    (amps : Vector α n) : A.scale m offsets starts amps = Kernel.scale m offsets starts amps := by
  unfold scale Kernel.scale
  rw [EStateM.bind_apply, EStateM.bind_apply]
  -- the diagonal is read before any position is computed
  cases (InPlace.ofExcept ((List.range offsets.length).mapM fun k => m.entry? k k) :
      InPlace α n (List α)) amps with
  | error e amps' => rfl
  | ok diagonal amps' =>
    refine EStateM.forM_congr (fun b hb now => ?_) amps'
    refine EStateM.forM_congr (fun p hp now' => ?_) now
    exact EStateM.bind_ok (ofExcept_ok (hadd b hb p.1 (List.of_mem_zip hp).1) now')

variable [Zero α] [Add α]

/-- Blocks whose positions are exact are multiplied as they are over the natural numbers. -/
theorem multiply_eq (m : Mat α)
    (hslots : ∀ b ∈ starts, A.slots offsets b = .ok (offsets.map fun o => b + o))
    (amps : Vector α n) :
    A.multiply m offsets starts amps = Kernel.multiply m offsets starts amps :=
  EStateM.forM_congr (fun b hb now => EStateM.bind_ok (ofExcept_ok (hslots b hb) now)) amps

/-- **A local operator does the same with any arithmetic that is exact on its positions.** -/
theorem ExactBelow.apply_eq [Negligible α] (hA : A.ExactBelow bound) (hpos : ∀ d ∈ dims, 0 < d)
    (hbound : Radix.total dims < bound) (hnodup : targets.Nodup)
    (ht : ∀ t ∈ targets, t < dims.length) (hc : ∀ c ∈ controls, c < dims.length) (m : Mat α)
    (configs : List Bool) (amps : Vector α (Radix.total dims)) :
    A.apply dims m targets controls configs amps
      = Kernel.apply dims m targets controls configs amps := by
  obtain ⟨starts, hstarts, hzero⟩ := Kernel.exists_starts ht hc configs
  have hoffsets := Kernel.offsets_ok ht
  have hadd : ∀ b ∈ starts, ∀ o ∈ Kernel.within dims targets, A.add b o = .ok (b + o) :=
    fun b hb => hA.add_offset_eq hbound hnodup ht (hzero b hb).1 (hzero b hb).2
  unfold apply Kernel.apply
  rw [hA.offsets_eq hpos hbound hnodup ht, hA.starts_eq hpos hbound,
    EStateM.bind_ok (ofExcept_ok hoffsets amps), EStateM.bind_ok (ofExcept_ok hstarts amps),
    EStateM.bind_ok (ofExcept_ok hoffsets amps), EStateM.bind_ok (ofExcept_ok hstarts amps)]
  split_ifs
  · exact scale_eq m hadd amps
  · exact multiply_eq m (fun b hb => Except.mapM_ok (hadd b hb)) amps

end Arithmetic

end Qudit
