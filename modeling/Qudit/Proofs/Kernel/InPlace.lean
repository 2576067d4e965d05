import Mathlib.Data.List.GetD
import Mathlib.Data.List.Nodup
import Qudit.Kernel
import Qudit.Proofs.Computation

/-!
# What a block operation writes

A computation in place is described by the amplitudes before and after it,
read by `ampAt`. `Rewrites slots F` says that the amplitudes at `slots` were
replaced by what `F` makes of them, and that nothing else has changed.

Multiplying one block by a matrix is such a rewriting (`multiplyAt_rewrites`),
and so is scaling it (`scaleBlock_rewrites`). A loop of rewritings of
disjoint blocks rewrites each block as if it were the only one
(`forM_rewrites`): no block reads what another has written.
-/

namespace Qudit

variable {α β : Type} {n : Nat}

/-- The entry of a matrix at a position, zero where there is none. -/
def Mat.coeff [Zero α] (m : Mat α) (i j : Nat) : α :=
  if h : i < m.rows ∧ j < m.cols then m.entry ⟨i, h.1⟩ ⟨j, h.2⟩ else 0

theorem Mat.entry?_eq_coeff [Zero α] {m : Mat α} {i j : Nat} (hi : i < m.rows)
    (hj : j < m.cols) : m.entry? i j = .ok (m.coeff i j) := by
  rw [Mat.entry?, Mat.coeff, dif_pos hi, dif_pos hj, dif_pos ⟨hi, hj⟩]

/-- A test passed by every entry off the diagonal, coefficient by coefficient. -/
theorem Mat.offDiagonal_iff [Zero α] {absent : α → Bool} {m : Mat α} :
    m.offDiagonal absent = true ↔
      ∀ i < m.rows, ∀ j < m.cols, i ≠ j → absent (m.coeff i j) = true := by
  simp only [offDiagonal, List.all_eq_true, List.mem_finRange, true_imp_iff, Bool.or_eq_true,
    beq_iff_eq, or_iff_not_imp_left]
  constructor
  · intro h i hi j hj hne
    rw [coeff, dif_pos ⟨hi, hj⟩]
    exact h ⟨i, hi⟩ ⟨j, hj⟩ hne
  · intro h i j hne
    have hentry := h i i.isLt j j.isLt hne
    rwa [coeff, dif_pos ⟨i.isLt, j.isLt⟩] at hentry

/-- The product of a row of a matrix and a block, summed from zero in the
order of the columns. -/
def Mat.rowProduct [Zero α] [Add α] [Mul α] (m : Mat α) (i : Nat) (block : List α) : α :=
  block.zipIdx.foldl (fun acc p => acc + m.coeff i p.2 * p.1) 0

/-- The product with a block that is given column by column. -/
theorem Mat.rowProduct_map_range [Zero α] [Add α] [Mul α] (m : Mat α) (i n : Nat) (f : Nat → α) :
    m.rowProduct i ((List.range n).map f)
      = (List.range n).foldl (fun acc j => acc + m.coeff i j * f j) 0 := by
  have hzip : ((List.range n).map f).zipIdx = (List.range n).map fun j => (f j, j) :=
    List.ext_getElem (by simp) fun j _ _ => by simp
  rw [rowProduct, hzip, List.foldl_map]

/-- The amplitude at a position, zero where there is none. -/
def ampAt [Zero α] (amps : Vector α n) (i : Nat) : α := amps[i]?.getD 0

namespace InPlace

variable [Zero α]

theorem ampAt_of_lt {amps : Vector α n} {i : Nat} (h : i < n) : ampAt amps i = amps[i] := by
  unfold ampAt
  rw [Vector.getElem?_eq_getElem h, Option.getD_some]

theorem ampAt_set {amps : Vector α n} {i : Nat} (h : i < n) (a : α) (j : Nat) :
    ampAt (amps.set i a) j = if i = j then a else ampAt amps j := by
  unfold ampAt
  rw [Vector.getElem?_set]
  split_ifs with hij
  · rfl
  · rfl

/-- Amplitudes that are the same at every position are the same. -/
theorem ext_ampAt {old new : Vector α n} (h : ∀ i < n, ampAt old i = ampAt new i) :
    old = new := by
  refine Vector.ext fun i hi => ?_
  rw [← ampAt_of_lt hi, ← ampAt_of_lt hi, h i hi]

theorem read_ok {amps : Vector α n} {i : Nat} (h : i < n) :
    read i amps = .ok (ampAt amps i) amps := by
  unfold read
  rw [dif_pos h, ampAt_of_lt h]

omit [Zero α] in
theorem write_ok {amps : Vector α n} {i : Nat} (h : i < n) (a : α) :
    write i a amps = .ok () (amps.set i a) := by
  unfold write
  rw [dif_pos h]

omit [Zero α] in
theorem ofExcept_ok {x : Except Fault β} {b : β} (h : x = .ok b) (amps : Vector α n) :
    (ofExcept x : InPlace α n β) amps = .ok b amps := by
  rw [h]; rfl

omit [Zero α] in
theorem eq_ok_of_ofExcept {x : Except Fault β} {b : β} {amps amps' : Vector α n}
    (h : (ofExcept x : InPlace α n β) amps = .ok b amps') : x = .ok b ∧ amps' = amps := by
  cases x with
  | ok a =>
    obtain ⟨⟩ := h
    exact ⟨rfl, rfl⟩
  | error e => cases h

/-- **The amplitudes at `slots` are replaced by what `F` makes of them**, and
nothing else has changed. -/
structure Rewrites (slots : List Nat) (F : List α → Nat → α) (old new : Vector α n) :
    Prop where
  /-- Within the block the new amplitudes are those of `F`. -/
  inside : ∀ k (h : k < slots.length), ampAt new slots[k] = F (slots.map (ampAt old)) k
  /-- Outside the block nothing has changed. -/
  outside : ∀ i, i ∉ slots → ampAt new i = ampAt old i

/-- **Disjoint blocks are rewritten independently.** -/
theorem forM_rewrites {f : β → InPlace α n Unit} {slots : β → List Nat}
    {F : β → List α → Nat → α} {bs : List β}
    (hf : ∀ b ∈ bs, ∀ amps, ∃ amps', f b amps = .ok () amps' ∧
      Rewrites (slots b) (F b) amps amps')
    (hdisj : bs.Pairwise fun b c => List.Disjoint (slots b) (slots c)) (amps : Vector α n) :
    ∃ amps', bs.forM f amps = .ok () amps' ∧
      (∀ b ∈ bs, ∀ k (h : k < (slots b).length),
        ampAt amps' (slots b)[k] = F b ((slots b).map (ampAt amps)) k) ∧
      ∀ i, (∀ b ∈ bs, i ∉ slots b) → ampAt amps' i = ampAt amps i := by
  induction bs generalizing amps with
  | nil => exact ⟨amps, rfl, by simp, fun _ _ => rfl⟩
  | cons b bs ih =>
    obtain ⟨hb, hbs⟩ := List.pairwise_cons.mp hdisj
    obtain ⟨amps₁, hrun₁, hrew⟩ := hf b (by simp) amps
    obtain ⟨amps₂, hrun₂, hin, hout⟩ := ih (fun c hc => hf c (by simp [hc])) hbs amps₁
    refine ⟨amps₂, ?_, ?_, ?_⟩
    · rw [EStateM.forM_cons, EStateM.bind_ok hrun₁, hrun₂]
    · intro c hc k hk
      obtain rfl | hc := List.mem_cons.mp hc
      · -- the blocks that follow do not touch this one
        rw [hout _ fun d hd hmem => hb d hd (List.getElem_mem hk) hmem]
        exact hrew.inside k hk
      · -- the block before has not touched this one
        rw [hin c hc k hk]
        congr 1
        exact List.map_congr_left fun i hi =>
          hrew.outside i fun hib => hb c hc hib hi
    · intro i hi
      rw [hout i fun c hc => hi c (by simp [hc]), hrew.outside i (hi b (by simp))]

/-- A loop that replaces one amplitude in each round, and none twice. -/
theorem forM_rewrites_one {f : β → InPlace α n Unit} (pos : β → Nat) (val : β → α → α)
    {bs : List β}
    (hf : ∀ b ∈ bs, ∀ amps, ∃ h : pos b < n,
      f b amps = .ok () (amps.set (pos b) (val b (ampAt amps (pos b))) h))
    (hnodup : (bs.map pos).Nodup) (amps : Vector α n) :
    ∃ amps', bs.forM f amps = .ok () amps' ∧
      (∀ b ∈ bs, ampAt amps' (pos b) = val b (ampAt amps (pos b))) ∧
      ∀ i, i ∉ bs.map pos → ampAt amps' i = ampAt amps i := by
  have hstep : ∀ b ∈ bs, ∀ amps, ∃ amps', f b amps = .ok () amps' ∧
      Rewrites [pos b] (fun block _ => val b (block.headD 0)) amps amps' := by
    intro b hb amps
    obtain ⟨hpos, hrun⟩ := hf b hb amps
    refine ⟨_, hrun, fun k hk => ?_, fun i hi => ?_⟩
    · obtain rfl : k = 0 := by simpa using hk
      rw [ampAt_set]
      simp
    · rw [ampAt_set, if_neg fun h => hi (by simp [h])]
  have hdisj : bs.Pairwise fun b c => List.Disjoint [pos b] [pos c] := by
    refine (List.pairwise_map.mp hnodup).imp fun hne => ?_
    simpa using fun h => hne h.symm
  obtain ⟨amps', hrun, hin, hout⟩ := forM_rewrites hstep hdisj amps
  refine ⟨amps', hrun, fun b hb => hin b hb 0 (by simp), fun i hi => hout i fun b hb h => ?_⟩
  exact hi (List.mem_map.mpr ⟨b, hb, (List.mem_singleton.mp h).symm⟩)

end InPlace

namespace Kernel

open InPlace

variable [Zero α] [Add α] [Mul α]

theorem rowTimes_ok {m : Mat α} {i : Nat} {block : List α} (hi : i < m.rows)
    (hcols : block.length ≤ m.cols) : rowTimes m i block = .ok (m.rowProduct i block) := by
  refine Except.foldlM_ok (fun p hp acc => ?_) 0
  have hj : p.2 < m.cols := Nat.lt_of_lt_of_le (by simpa using List.snd_lt_of_mem_zipIdx hp) hcols
  rw [Mat.entry?_eq_coeff hi hj]
  rfl

/-- **A block is replaced by its product with the matrix.** -/
theorem multiplyAt_rewrites {m : Mat α} {slots : List Nat} (hrange : ∀ i ∈ slots, i < n)
    (hnodup : slots.Nodup) (hrows : m.rows = slots.length) (hcols : m.cols = slots.length)
    (amps : Vector α n) :
    ∃ amps', multiplyAt m slots amps = .ok () amps' ∧
      Rewrites slots (fun block k => m.rowProduct k block) amps amps' := by
  have hread : slots.mapM InPlace.read amps = .ok (slots.map (ampAt amps)) amps :=
    EStateM.mapM_ok fun i hi => read_ok (hrange i hi)
  have hwrite : ∀ p ∈ slots.zipIdx, ∀ now : Vector α n, ∃ h : p.1 < n,
      (do InPlace.write p.1 (← InPlace.ofExcept (rowTimes m p.2 (slots.map (ampAt amps)))) :
        InPlace α n Unit) now
        = .ok () (now.set p.1 (m.rowProduct p.2 (slots.map (ampAt amps))) h) := by
    intro p hp now
    have hk : p.2 < m.rows := by
      rw [hrows]
      simpa using List.snd_lt_of_mem_zipIdx hp
    have hslot : p.1 < n := hrange _ (List.fst_mem_of_mem_zipIdx hp)
    exact ⟨hslot, (EStateM.bind_ok (ofExcept_ok (rowTimes_ok hk (by simp [hcols])) now)).trans
      (write_ok hslot _)⟩
  have hpos : (slots.zipIdx.map Prod.fst).Nodup := by simpa using hnodup
  obtain ⟨amps', hrun, hin, hout⟩ := forM_rewrites_one Prod.fst
    (fun p _ => m.rowProduct p.2 (slots.map (ampAt amps))) hwrite hpos amps
  refine ⟨amps', (EStateM.bind_ok hread).trans hrun, fun k hk => ?_, fun i hi => ?_⟩
  · exact hin (slots[k], k) (List.mk_mem_zipIdx_iff_getElem?.mpr (List.getElem?_eq_getElem hk))
  · exact hout i (by simpa using hi)

omit [Add α] in
/-- **A block is scaled by the diagonal.** -/
theorem scaleBlock_rewrites {offsets : List Nat} (diagonal : List α) {start : Nat}
    (hrange : ∀ o ∈ offsets, start + o < n) (hnodup : offsets.Nodup)
    (hlen : diagonal.length = offsets.length) (amps : Vector α n) :
    ∃ amps', ((offsets.zip diagonal).forM fun p => scaleAt (start + p.1) p.2) amps
        = .ok () amps' ∧
      Rewrites (offsets.map fun o => start + o)
        (fun block k => block.getD k 0 * diagonal.getD k 0) amps amps' := by
  have hscale : ∀ p ∈ offsets.zip diagonal, ∀ now : Vector α n, ∃ h : start + p.1 < n,
      scaleAt (start + p.1) p.2 now
        = .ok () (now.set (start + p.1) (ampAt now (start + p.1) * p.2) h) := by
    intro p hp now
    have h : start + p.1 < n := hrange _ (List.of_mem_zip hp).1
    exact ⟨h, (EStateM.bind_ok (read_ok h)).trans (write_ok h _)⟩
  have hmap : (offsets.zip diagonal).map (fun p => start + p.1)
      = offsets.map fun o => start + o := by
    have hfst : (offsets.zip diagonal).map Prod.fst = offsets := List.map_fst_zip (by omega)
    conv_rhs => rw [← hfst]
    rw [List.map_map]
    rfl
  have hnodup' : (offsets.map fun o => start + o).Nodup :=
    hnodup.map fun a b h => Nat.add_left_cancel h
  obtain ⟨amps', hrun, hin, hout⟩ :=
    forM_rewrites_one (fun p : Nat × α => start + p.1) (fun p a => a * p.2) hscale
      (hmap ▸ hnodup') amps
  refine ⟨amps', hrun, fun k hk => ?_, fun i hi => hout i (hmap ▸ hi)⟩
  have hk' : k < offsets.length := by simpa using hk
  have hkd : k < diagonal.length := hlen ▸ hk'
  have := hin (offsets[k], diagonal[k]) (by
    have hz : k < (offsets.zip diagonal).length := by simp; omega
    rw [← List.getElem_zip (h := hz)]
    exact List.getElem_mem hz)
  simpa [List.getD_eq_getElem, hk', hkd] using this

end Kernel

end Qudit
