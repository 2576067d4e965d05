import Qudit.Proofs.Radix.Strides
import Qudit.Proofs.Word.Blocks

/-!
# The positional system in machine words

Reading digits, writing them and the strides between them make up one positional system, and in
words of 64 bits they do so as long as a word can count the positions. Then nothing overflows for
digits in range (`index_order_isomorphism`), and digits out of range, which may well be read as a
number that is no word, are still read in the same way by the encoder and by the strides: both keep
the lowest bits of the same sum, or both refuse it (`strides_agree`).

Where the positions are too many, the system breaks down. The position of some digits is no word,
the list of all positions can come out empty (`index_beyond_words`), and a stride that has wrapped
round leads to other digits (`strides_beyond_words`).
-/

namespace Qudit

open Radix

/-! ## The offset of all sites -/

namespace Kernel

variable {dims values : List Nat}

/-- An offset is the sum of the values, each counted as often as the stride of its site says. -/
theorem offset_eq_sum (dims sites levels : List Nat) :
    offset dims sites levels
      = (List.zipWith (· * ·) levels (restrict (strides dims) sites)).sum := by
  induction sites generalizing levels with
  | nil => rw [offset_nil, restrict_nil, List.zipWith_nil_right, List.sum_nil]
  | cons s ss ih =>
    obtain _ | ⟨l, ls⟩ := levels
    · rfl
    · rw [offset_cons, restrict_cons, List.zipWith_cons_cons, List.sum_cons, ih]

/-- **The offset of all sites is a position.** -/
theorem offset_range (hlen : values.length = dims.length) :
    offset dims (List.range dims.length) values = index values dims := by
  rw [offset_eq_sum, ← length_strides dims, restrict_range, sum_mul_strides hlen]

end Kernel

namespace Arithmetic

variable {dims targets levels : List Nat}

/-- **An offset is computed as far as it is a word.** The values may be in range or not. -/
theorem computes_offset (ht : ∀ t ∈ targets, t < dims.length) :
    Computes (·.offset (Radix.strides dims) targets levels)
      (Kernel.offset dims targets levels) := by
  have hstride : ∀ p ∈ levels.zip targets,
      entryAt (Radix.strides dims) p.2 = .ok ((Radix.strides dims).getD p.2 0) := fun p hp =>
    entryAt_eq_getD (by simpa using ht p.2 (List.of_mem_zip hp).2)
  refine computes_foldlM (fun acc p hp => ?_) (fun acc p hp k hk => ?_) fun h => ?_
  · rw [Except.bind_ok (hstride p hp), wrapping_mul, Except.bind_ok rfl, wrapping_add,
      ← Nat.add_mod]
  · rw [Except.bind_ok (hstride p hp)] at hk
    exact checked_mul_bind_word? hk
  · have hsum := exactBelow_checked.foldlM_offset_eq ht 0 ((Nat.zero_add _).trans_lt h)
    rwa [Nat.zero_add] at hsum

end Arithmetic

namespace Radix

variable {dims : List Nat}

/-! ## The isomorphism of orders -/

/-- **Positions and digits are isomorphic as orders.** Take sites of positive dimension whose
positions are counted by a word of 64 bits. Every number is written in digits below the dimensions,
which are read as the number up to whole rounds of the register; digits below the dimensions are
read as a position, which is written with the same digits; and they come in lexicographic order
exactly when their positions do in the order of numbers. So the list of all positions holds every
valid digit vector with its position and is strictly increasing in the digits. None of it overflows.

Over a site of dimension zero the list is empty and no digit is asked for. With words that wrap
round this is so whatever the other dimensions are, with checked words as long as the dimensions in
front of the first zero have a word as their product. -/
theorem index_order_isomorphism (dims : List Nat) :
    ((∀ d ∈ dims, 1 ≤ d) → dims.prod < 2 ^ 64 →
      (∀ k, ∃ v, checkedDigits k dims = .ok v ∧ Valid dims v ∧
        NeverOverflows (·.index v dims) (.ok (k % dims.prod))) ∧
      (∀ v, Valid dims v → ∃ k < dims.prod,
        NeverOverflows (·.index v dims) (.ok k) ∧ checkedDigits k dims = .ok v) ∧
      (∀ v w j k, Valid dims v → Valid dims w → NeverOverflows (·.index v dims) (.ok j) →
        NeverOverflows (·.index w dims) (.ok k) → (v < w ↔ j < k)) ∧
      ∃ listed, NeverOverflows (·.basis dims) (.ok listed) ∧
        (listed.Pairwise fun p q => p.2 < q.2) ∧
        ∀ k v, (k, v) ∈ listed ↔ Valid dims v ∧ NeverOverflows (·.index v dims) (.ok k)) ∧
    (0 ∈ dims →
      Arithmetic.wrapping.basis dims = .ok [] ∧
      ((dims.takeWhile (0 < ·)).prod < 2 ^ 64 → Arithmetic.checked.basis dims = .ok [])) := by
  refine ⟨fun hpos hsize => ?_, fun hzero => ⟨Arithmetic.wrapping_basis_of_zero_mem hzero,
    Arithmetic.exactBelow_checked.basis_of_zero_mem hzero⟩⟩
  -- a computation that never overflows has one value only
  have hunique : ∀ {v k}, Valid dims v → NeverOverflows (·.index v dims) (.ok k) →
      k = index v dims := fun hv hk =>
    Except.ok.inj (hk.checked.symm.trans (NeverOverflows.index hv hsize).checked)
  refine ⟨fun k => ?_, fun v hv => ?_, fun v w j k hv hw hj hk => ?_, ?_⟩
  · have hv := valid_digits hpos k
    exact ⟨_, checkedDigits_of_pos hpos k, hv, index_digits hpos k ▸ .index hv hsize⟩
  · refine ⟨_, index_lt_total hv, .index hv hsize, ?_⟩
    rw [checkedDigits_of_pos hpos, digits_index hv]
  · rw [hunique hv hj, hunique hw hk, index_lt_index_iff hv hw]
  · refine ⟨basis dims, .of_exactBelow fun A hA => hA.basis_eq hpos hsize, pairwise_basis dims,
      fun k v => mem_basis.trans (and_congr_right fun hv => ⟨?_, fun hk => (hunique hv hk).symm⟩)⟩
    rintro rfl
    exact .index hv hsize

/-- A qutrit between two qubits: a number beyond the last position, a position and its digits,
two digit vectors of which the second is larger at the qutrit only; and the same sites with the
qutrit replaced by a site of dimension zero. -/
theorem index_order_isomorphism_qutrit :
    ((∀ d ∈ [2, 3, 2], 1 ≤ d) ∧ [2, 3, 2].prod < 2 ^ 64) ∧
      (∃ v, checkedDigits 22 [2, 3, 2] = .ok v ∧
        NeverOverflows (·.index v [2, 3, 2]) (.ok 10)) ∧
      (∃ k, NeverOverflows (·.index [1, 2, 0] [2, 3, 2]) (.ok k) ∧
        checkedDigits k [2, 3, 2] = .ok [1, 2, 0]) ∧
      ([1, 1, 1] < [1, 2, 0] ∧ 9 < 10) ∧
      (∃ listed, Arithmetic.wrapping.basis [2, 3, 2] = .ok listed ∧
        (listed.Pairwise fun p q => p.2 < q.2)) ∧
      0 ∈ [2, 0, 2] ∧ Arithmetic.checked.basis [2, 0, 2] = .ok [] := by
  have hpos : ∀ d ∈ [2, 3, 2], 1 ≤ d := by decide
  have hsize : [2, 3, 2].prod < 2 ^ 64 := by decide
  obtain ⟨hiso, -⟩ := index_order_isomorphism [2, 3, 2]
  obtain ⟨hdigits, hindex, horder, listed, hlisted, hpairwise, -⟩ := hiso hpos hsize
  obtain ⟨-, hzero⟩ := index_order_isomorphism [2, 0, 2]
  have hfirst : Valid [2, 3, 2] [1, 1, 1] := by simp [Valid]
  have hsecond : Valid [2, 3, 2] [1, 2, 0] := by simp [Valid]
  obtain ⟨v, hv, -, hread⟩ := hdigits 22
  obtain ⟨k, -, hk, hdigits⟩ := hindex _ hsecond
  have hlt : ([1, 1, 1] < [1, 2, 0]) ↔ 9 < 10 :=
    horder _ _ 9 10 hfirst hsecond ⟨by decide, by decide⟩ ⟨by decide, by decide⟩
  exact ⟨⟨hpos, hsize⟩, ⟨v, hv, hread⟩, ⟨k, hk, hdigits⟩, ⟨hlt.mpr (by decide), by decide⟩,
    ⟨listed, hlisted.wrapping, hpairwise⟩, by decide, (hzero (by decide)).2 (by decide)⟩

/-- **Positions beyond the words.** Two sites with more positions than words: the position of
digits that they can hold is not a word, so that it is refused, or read as the first position, which
is written with other digits. Where the positions are exactly one too many for a word, the list of
all of them comes out empty although there are digits to list. -/
theorem index_beyond_words :
    (∀ d ∈ [2 ^ 33, 2 ^ 32], 1 ≤ d) ∧ Valid [2 ^ 33, 2 ^ 32] [2 ^ 32, 0] ∧
      Arithmetic.checked.index [2 ^ 32, 0] [2 ^ 33, 2 ^ 32]
        = .error (.outOfRange (2 ^ 64) (2 ^ 64)) ∧
      Arithmetic.wrapping.index [2 ^ 32, 0] [2 ^ 33, 2 ^ 32] = .ok 0 ∧
      checkedDigits 0 [2 ^ 33, 2 ^ 32] = .ok [0, 0] ∧
      Valid [2 ^ 32, 2 ^ 32] [0, 0] ∧ Arithmetic.wrapping.basis [2 ^ 32, 2 ^ 32] = .ok [] := by
  refine ⟨by decide, by simp [Valid], rfl, rfl, rfl, by simp [Valid], rfl⟩

/-! ## Strides -/

/-- **Strides, reading and writing describe one positional system.** Take sites of positive
dimension whose positions are counted by a word of 64 bits. The strides do not overflow. Any numbers
at the sites, in range or not, are read as their sum weighted with the strides, and adding up that
sum in words comes to the same as reading does, be it a word or not; any number is written with the
digits that its quotients by the strides leave; and raising a digit in range by one moves the
position by exactly the stride of its site, without overflow, where the raised digits are found
again. -/
theorem strides_agree (hpos : ∀ d ∈ dims, 1 ≤ d) (hsize : dims.prod < 2 ^ 64) :
    ∃ s, NeverOverflows (·.strides dims) (.ok s) ∧ s.length = dims.length ∧
      (∀ v : List Nat, v.length = dims.length →
        Computes (·.index v dims) (List.zipWith (· * ·) v s).sum ∧
        Computes (·.offset s (List.range dims.length) v) (List.zipWith (· * ·) v s).sum) ∧
      (∀ k, ∃ v, checkedDigits k dims = .ok v ∧ v.length = dims.length ∧
        ∀ i < dims.length, 0 < s.getD i 0 ∧ v.getD i 0 = k / s.getD i 0 % dims.getD i 0) ∧
      (∀ v, Valid dims v → ∀ i < dims.length, v.getD i 0 + 1 < dims.getD i 0 →
        ∃ k, NeverOverflows (·.index v dims) (.ok k) ∧
          NeverOverflows (·.index (v.set i (v.getD i 0 + 1)) dims) (.ok (k + s.getD i 0)) ∧
          checkedDigits (k + s.getD i 0) dims = .ok (v.set i (v.getD i 0 + 1))) := by
  refine ⟨strides dims, .of_exactBelow fun A hA => hA.strides_eq hpos hsize, length_strides dims,
    fun v hlen => ?_, fun k => ?_, fun v hv i hi hroom => ⟨_, .index hv hsize, ?_, ?_⟩⟩
  · have hoffset : Computes (·.offset (strides dims) (List.range dims.length) v)
        (Kernel.offset dims (List.range dims.length) v) :=
      Arithmetic.computes_offset fun t ht => List.mem_range.mp ht
    rw [Kernel.offset_range hlen] at hoffset
    rw [sum_mul_strides hlen]
    exact ⟨Arithmetic.computes_index hpos hlen, hoffset⟩
  · exact ⟨_, checkedDigits_of_pos hpos k, length_digits k dims,
      fun i hi => ⟨stride_pos hpos hi, getD_digits hi k⟩⟩
  · rw [← index_raise hv.length_eq hi]
    exact .index (valid_set hv hroom) hsize
  · rw [checkedDigits_of_pos hpos, digits_add_stride hv hi hroom]

/-- Three sites of dimensions 3, 2 and 4, with strides 8, 4 and 1: numbers beyond the dimensions
that are read as 23 all the same, others that are read as more than a word can hold, the digits of
13, and one step of the first digit, which leads eight positions on. -/
theorem strides_agree_three_sites :
    ((∀ d ∈ [3, 2, 4], 1 ≤ d) ∧ [3, 2, 4].prod < 2 ^ 64) ∧
      ∃ s, Arithmetic.wrapping.strides [3, 2, 4] = .ok s ∧ s = [8, 4, 1] ∧
        Computes (·.index [0, 5, 3] [3, 2, 4]) 23 ∧
        Computes (·.offset s (List.range 3) [2 ^ 61, 1, 1]) (2 ^ 64 + 5) ∧
        (∃ v, checkedDigits 13 [3, 2, 4] = .ok v ∧ v.getD 1 0 = 13 / 4 % 2) ∧
        ∃ k, Arithmetic.checked.index [1, 1, 1] [3, 2, 4] = .ok k ∧
          Arithmetic.checked.index [2, 1, 1] [3, 2, 4] = .ok (k + 8) ∧
          checkedDigits (k + 8) [3, 2, 4] = .ok [2, 1, 1] := by
  have hpos : ∀ d ∈ [3, 2, 4], 1 ≤ d := by decide
  have hsize : [3, 2, 4].prod < 2 ^ 64 := by decide
  have hvalid : Valid [3, 2, 4] [1, 1, 1] := by simp [Valid]
  obtain ⟨s, hstrides, -, hsum, hdigits, hraise⟩ := strides_agree hpos hsize
  obtain rfl : [8, 4, 1] = s := Except.ok.inj hstrides.checked
  obtain ⟨v, hv, -, hentry⟩ := hdigits 13
  obtain ⟨k, hk, hraised, hread⟩ := hraise [1, 1, 1] hvalid 0 (by decide) (by decide)
  exact ⟨⟨hpos, hsize⟩, _, hstrides.wrapping, rfl, (hsum [0, 5, 3] rfl).1,
    (hsum [2 ^ 61, 1, 1] rfl).2, ⟨v, hv, (hentry 1 (by decide)).2⟩, k, hk.checked, hraised.checked,
    hread⟩

/-- **Strides beyond the words.** Three sites whose first stride is not a word, so that it is
refused, or wraps round to the second one. Half of the words' range is then written with the second
digit raised, where the quotient by the first stride asks for the first. -/
theorem strides_beyond_words :
    (∀ d ∈ [2, 3, 2 ^ 63], 1 ≤ d) ∧ 2 ^ 63 < [2, 3, 2 ^ 63].prod ∧
      Arithmetic.checked.strides [2, 3, 2 ^ 63]
        = .error (.outOfRange (3 * 2 ^ 63) (2 ^ 64)) ∧
      Arithmetic.wrapping.strides [2, 3, 2 ^ 63] = .ok [2 ^ 63, 2 ^ 63, 1] ∧
      checkedDigits (2 ^ 63) [2, 3, 2 ^ 63] = .ok [0, 1, 0] ∧ 0 ≠ 2 ^ 63 / 2 ^ 63 % 2 := by
  exact ⟨by decide, by decide, rfl, rfl, rfl, by decide⟩

end Radix

end Qudit
