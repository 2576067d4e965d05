import Qudit.Proofs.State.Measurement
import Qudit.Proofs.Word.Blocks

/-!
# Index arithmetic never overflows

The weights of the outcomes at some sites are summed up in a row of bins, one for each combination
of values at these sites, and every amplitude is added to the bin at the position of its outcome
(`Arithmetic.marginal`). Sites that are listed once have no more basis states than the whole
register, so that their positions are words if its own are. A site listed twice would count twice,
and the bins of a register whose positions are words could then be too many.

Together with strides, positions and blocks these are all the places where indices are added or
multiplied. None of them leaves the words of 64 bits if the positions of the register are counted
by a word (`index_arithmetic_never_overflows`), and this bound cannot be raised: the number of
positions is itself among what is computed.
-/

namespace Qudit

open Radix

namespace Arithmetic

/-! ## Marginal weights -/

variable {R : Type} [Scalar R]

/-- The weight of every outcome at `sites`. -/
def marginal (A : Arithmetic) (s : State (Amplitude R)) (sites : List Nat) :
    Except Fault (List R) := do
  let dims ← sites.mapM (entryAt s.dims)
  let count ← A.total dims
  let positions ← A.basis s.dims
  let bins ← positions.foldlM
    (fun bins p => do
      let amp ← entryAt s.amps.toList p.1
      State.addAt bins (← A.index (restrict p.2 sites) dims) amp.normSq)
    (Array.replicate count 0)
  return bins.toList

variable {A : Arithmetic} {bound : Nat} {dims sites values : List Nat}

section

variable (hA : A.ExactBelow bound) (hpos : ∀ d ∈ dims, 0 < d) (hbound : Radix.total dims < bound)
  (hnodup : sites.Nodup) (hsites : ∀ i ∈ sites, i < dims.length)

include hA hpos hbound hnodup hsites

/-- **The number of outcomes is exact** at sites that are listed once. -/
theorem ExactBelow.total_restrict_eq :
    A.total (restrict dims sites) = .ok (Radix.total (restrict dims sites)) :=
  hA.total_eq (pos_restrict hpos hsites) ((total_restrict_le hpos hnodup hsites).trans_lt hbound)

/-- **The position of an outcome is exact** at sites that are listed once. -/
theorem ExactBelow.index_restrict_eq (hvalues : Valid dims values) :
    A.index (restrict values sites) (restrict dims sites)
      = .ok (Radix.index (restrict values sites) (restrict dims sites)) :=
  hA.index_eq_of_valid (valid_restrict hvalues hsites)
    ((total_restrict_le hpos hnodup hsites).trans_lt hbound)

end

/-- **Marginal weights are the same with any arithmetic that is exact on the positions.** -/
theorem ExactBelow.marginal_eq (s : State (Amplitude R)) (hA : A.ExactBelow bound)
    (hpos : ∀ d ∈ s.dims, 0 < d) (hbound : Radix.total s.dims < bound) (hnodup : sites.Nodup)
    (hsites : ∀ i ∈ sites, i < s.dims.length) : A.marginal s sites = s.marginal sites := by
  unfold marginal State.marginal
  rw [Except.bind_ok (mapM_entryAt hsites), Except.bind_ok (mapM_entryAt hsites),
    Except.bind_ok (hA.total_restrict_eq hpos hbound hnodup hsites),
    Except.bind_ok (hA.basis_eq hpos hbound), Radix.basis, ← List.map_coe_finRange_eq_range,
    List.map_map, List.foldlM_map]
  -- both loops run through the positions, and each round adds the same weight to the same bin
  refine congrArg (fun round => List.foldlM round _ _ >>= _) (funext fun bins => funext fun k => ?_)
  have hamp : entryAt s.amps.toList k.val = .ok s.amps[k] := by
    rw [entryAt_of_lt (by simp), Vector.getElem_toList]
    rfl
  exact (Except.bind_ok hamp).trans (Except.bind_ok
    (hA.index_restrict_eq hpos hbound hnodup hsites (valid_digits hpos k.val)))

end Arithmetic

/-! ## All of it together -/

/-- **Index arithmetic never overflows.** Take a register with sites of positive dimension whose
positions are counted by a word of 64 bits. Then no intermediate value is beyond the words, and
words that wrap round come to what is computed with numbers of any size: for the strides; for the
position of any digits the register can hold; for the offset of any digits at distinct targets, for
the starts of the blocks and for the sum of a start and an offset, hence for a local operator on
any amplitudes; and for the number of outcomes at distinct sites, the position of any outcome there
and the marginal weights of any amplitudes. -/
theorem index_arithmetic_never_overflows {R : Type} [Scalar R] {dims : List Nat}
    (hpos : ∀ d ∈ dims, 1 ≤ d) (hsize : dims.prod < 2 ^ 64) :
    NeverOverflows (·.strides dims) (.ok (strides dims)) ∧
    (∀ values, Valid dims values →
      NeverOverflows (·.index values dims) (.ok (index values dims))) ∧
    (∀ targets controls configs, targets.Nodup → (∀ t ∈ targets, t < dims.length) →
      (∀ c ∈ controls, c < dims.length) →
      (∀ levels, Valid (restrict dims targets) levels →
        NeverOverflows (·.offset (strides dims) targets levels)
          (.ok (Kernel.offset dims targets levels))) ∧
      (∃ offsets starts, Kernel.offsets dims targets = .ok offsets ∧
        Kernel.starts dims targets controls configs = .ok starts ∧
        NeverOverflows (·.offsets dims targets) (.ok offsets) ∧
        NeverOverflows (·.starts dims targets controls configs) (.ok starts) ∧
        ∀ b ∈ starts, NeverOverflows (·.slots offsets b) (.ok (offsets.map fun o => b + o))) ∧
      ∀ (m : Mat (Amplitude R)) (amps : Vector (Amplitude R) (total dims)),
        NeverOverflows (·.apply dims m targets controls configs amps)
          (Kernel.apply dims m targets controls configs amps)) ∧
    ∀ sites, sites.Nodup → (∀ i ∈ sites, i < dims.length) →
      NeverOverflows (·.total (restrict dims sites)) (.ok (restrict dims sites).prod) ∧
      (∀ values, Valid dims values →
        NeverOverflows (·.index (restrict values sites) (restrict dims sites))
          (.ok (index (restrict values sites) (restrict dims sites)))) ∧
      ∀ amps : Vector (Amplitude R) (total dims), ∃ weights,
        State.marginal ⟨dims, amps⟩ sites = .ok weights ∧
        NeverOverflows (·.marginal ⟨dims, amps⟩ sites) (.ok weights) := by
  refine ⟨.of_exactBelow fun A hA => hA.strides_eq hpos hsize, fun values hvalues =>
    .of_exactBelow fun A hA => hA.index_eq_of_valid hvalues hsize, ?_, ?_⟩
  · intro targets controls configs hnodup ht hc
    have hoffsets := Kernel.offsets_ok ht
    obtain ⟨starts, hstarts, hzero⟩ := Kernel.exists_starts ht hc configs
    refine ⟨fun levels hl => ?_, ⟨_, starts, hoffsets, hstarts, ?_, ?_, fun b hb => ?_⟩,
      fun m amps => ?_⟩
    · exact .of_exactBelow fun A hA => hA.offset_eq hpos hsize hnodup ht hl
    · exact .of_exactBelow fun A hA => (hA.offsets_eq hpos hsize hnodup ht).trans hoffsets
    · exact .of_exactBelow fun A hA =>
        (hA.starts_eq hpos hsize targets controls configs).trans hstarts
    · exact .of_exactBelow fun A hA => Except.mapM_ok
        (hA.add_offset_eq hsize hnodup ht (hzero b hb).1 (hzero b hb).2)
    · exact .of_exactBelow fun A hA => hA.apply_eq hpos hsize hnodup ht hc m configs amps
  · intro sites hnodup hsites
    refine ⟨?_, fun values hvalues => ?_,
      fun amps => ⟨_, State.marginal_ok ⟨dims, amps⟩ hsites, ?_⟩⟩
    · exact .of_exactBelow fun A hA => hA.total_restrict_eq hpos hsize hnodup hsites
    · exact .of_exactBelow fun A hA => hA.index_restrict_eq hpos hsize hnodup hsites hvalues
    · exact .of_exactBelow fun A hA =>
        (hA.marginal_eq ⟨dims, amps⟩ hpos hsize hnodup hsites).trans
          (State.marginal_ok ⟨dims, amps⟩ hsites)

/-- Seven sites with as many positions as the largest word says: their strides, the last position,
which all digits name at their largest, and an offset of the outer sites; the sums of starts and
offsets, with a control in between; and the positions of two sites in the other order. With one
position more, the number of positions wraps round to zero. -/
theorem index_arithmetic_never_overflows_largest :
    let dims := [3, 5, 17, 257, 641, 65537, 6700417]
    (∀ d ∈ dims, 1 ≤ d) ∧ dims.prod + 1 = 2 ^ 64 ∧
      Arithmetic.checked.strides dims = .ok [6148914691236517205, 1229782938247303441,
        72340172838076673, 281479271743489, 439125228929, 6700417, 1] ∧
      Arithmetic.wrapping.index [2, 4, 16, 256, 640, 65536, 6700416] dims
        = .ok 18446744073709551614 ∧
      Arithmetic.checked.offset (strides dims) [6, 0] [6700416, 2] = .ok 12297829382479734826 ∧
      (∃ offsets starts, Kernel.offsets dims [6, 0] = .ok offsets ∧
        Kernel.starts dims [6, 0] [3] [true] = .ok starts ∧
        ∀ b ∈ starts,
          Arithmetic.wrapping.slots offsets b = .ok (offsets.map fun o => b + o)) ∧
      Arithmetic.checked.total (restrict dims [6, 5]) = .ok 439125228929 ∧
      Arithmetic.checked.index [6700416, 65536] (restrict dims [6, 5]) = .ok 439125228928 ∧
      Arithmetic.wrapping.total [2 ^ 32, 2 ^ 32] = .ok 0 := by
  intro dims
  have hpos : ∀ d ∈ dims, 1 ≤ d := by decide
  have hsize : dims.prod < 2 ^ 64 := by decide
  have hvalues : Valid dims [2, 4, 16, 256, 640, 65536, 6700416] := by simp [Valid, dims]
  have hlevels : Valid (restrict dims [6, 0]) [6700416, 2] := by simp [Valid, dims]
  have hstride : strides dims = [6148914691236517205, 1229782938247303441, 72340172838076673,
      281479271743489, 439125228929, 6700417, 1] := by decide
  have hlast : index [2, 4, 16, 256, 640, 65536, 6700416] dims = 18446744073709551614 := by decide
  have houter : Kernel.offset dims [6, 0] [6700416, 2] = 12297829382479734826 := by decide
  have hcount : (restrict dims [6, 5]).prod = 439125228929 := by decide
  have hpair : restrict [2, 4, 16, 256, 640, 65536, 6700416] [6, 5] = [6700416, 65536] := rfl
  have hposition : index [6700416, 65536] (restrict dims [6, 5]) = 439125228928 := by decide
  obtain ⟨hstrides, hindex, hblocks, hmarginal⟩ :=
    index_arithmetic_never_overflows (R := Float) hpos hsize
  obtain ⟨hoffset, ⟨offsets, starts, hoffsets, hstarts, -, -, hslots⟩, -⟩ :=
    hblocks [6, 0] [3] [true] (by decide) (by decide) (by decide)
  obtain ⟨htotal, houtcome, -⟩ := hmarginal [6, 5] (by decide) (by decide)
  have houtcome := (houtcome _ hvalues).checked
  rw [hpair, hposition] at houtcome
  refine ⟨hpos, by decide, hstride ▸ hstrides.checked, hlast ▸ (hindex _ hvalues).wrapping,
    houter ▸ (hoffset _ hlevels).checked, ⟨offsets, starts, hoffsets, hstarts, fun b hb => ?_⟩,
    hcount ▸ htotal.checked, houtcome, rfl⟩
  exact (hslots b hb).wrapping

end Qudit
