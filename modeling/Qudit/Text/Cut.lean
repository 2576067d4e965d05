import Qudit.Fault

/-!
# Cutting texts

A text is cut at the first occurrence of a character (`Text.splitOnce`) or at
two places that are counted in bytes (`Text.between`). Not every number is
such a place: it may be larger than the text, or lie within a character that
takes several bytes.
-/

namespace Qudit.Text

/-- **What is before the first occurrence of a character, and what is after
it.** -/
def splitOnce (mark : Char) : List Char → Option (List Char × List Char)
  | [] => none
  | c :: cs =>
    if c = mark then some ([], cs)
    else (splitOnce mark cs).map fun parts => (c :: parts.1, parts.2)

/-- **The part of a text between two places**, in bytes, or the fault that
they are not places between characters, the first not after the second. -/
def between (s : String) (start stop : Nat) : Except Fault String :=
  if h : String.Pos.Raw.IsValid s ⟨start⟩ ∧ String.Pos.Raw.IsValid s ⟨stop⟩ ∧ start ≤ stop then
    .ok (String.extract ⟨⟨start⟩, h.1⟩ ⟨⟨stop⟩, h.2.1⟩)
  else .error (.textCut start stop)

/-- A list of characters is cut where the character has not occurred
before. -/
theorem splitOnce_eq_some_iff {mark : Char} {cs before after : List Char} :
    splitOnce mark cs = some (before, after) ↔ mark ∉ before ∧ cs = before ++ mark :: after := by
  induction cs generalizing before with
  | nil => simp [splitOnce]
  | cons c cs ih =>
    rw [splitOnce]
    by_cases hc : c = mark
    · rw [if_pos hc]
      subst hc
      cases before with
      | nil => simp
      | cons d before => simp +contextual [eq_comm]
    · rw [if_neg hc]
      cases before with
      | nil => simp [hc]
      | cons d before =>
        simp only [Option.map_eq_some_iff, Prod.mk.injEq, List.cons.injEq, Prod.exists,
          List.mem_cons, not_or, List.cons_append]
        constructor
        · rintro ⟨a, b, hsplit, ⟨rfl, rfl⟩, rfl⟩
          obtain ⟨hmark, hcs⟩ := ih.mp hsplit
          exact ⟨⟨Ne.symm hc, hmark⟩, rfl, hcs⟩
        · rintro ⟨⟨-, hmark⟩, rfl, hcs⟩
          exact ⟨before, after, ih.mpr ⟨hmark, hcs⟩, ⟨rfl, rfl⟩, rfl⟩

/-- A text put together from three parts has the second between the first and
the third. -/
theorem between_append (a b c : String) :
    between (a ++ b ++ c) a.utf8ByteSize (a ++ b).utf8ByteSize = .ok b := by
  have hstart : String.Pos.Raw.IsValid (a ++ b ++ c) ⟨a.utf8ByteSize⟩ :=
    (String.Pos.Raw.isValid_rawEndPos.append_right b).append_right c
  have hstop : String.Pos.Raw.IsValid (a ++ b ++ c) ⟨(a ++ b).utf8ByteSize⟩ :=
    String.Pos.Raw.isValid_rawEndPos.append_right c
  have hle : a.utf8ByteSize ≤ (a ++ b).utf8ByteSize := by
    rw [String.utf8ByteSize_append]
    exact Nat.le_add_right _ _
  rw [between, dif_pos ⟨hstart, hstop, hle⟩]
  refine congrArg Except.ok (String.toByteArray_inj.mp ?_)
  rw [String.toByteArray_extract]
  show ByteArray.extract (a ++ b ++ c).toByteArray a.utf8ByteSize (a ++ b).utf8ByteSize = _
  rw [String.append_assoc, String.toByteArray_append, String.toByteArray_append,
    String.utf8ByteSize_append]
  exact (ByteArray.extract_append_size_add (i := 0)).trans (ByteArray.extract_append_eq_left rfl)

end Qudit.Text
