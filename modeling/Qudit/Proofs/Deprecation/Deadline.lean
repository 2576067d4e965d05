import Mathlib.Data.List.Basic
import Qudit.Deprecation.Notice

/-!
# The texts that are deadlines

A text is a deadline when it is the letter `v`, a run of digits, a point and a run of
digits, and nothing around them (`Deadline.Written`). Reading accepts these texts and no
others (`Deadline.parse_eq_ok_iff`).

What is kept of such a text is the text and one number, the place of its first point. As
the letter and the point are one byte each and no digit is a point, cutting the text there
gives the two runs back, whatever their lengths (`Deadline.major_of_written`,
`Deadline.minor_of_written`). So a text has one such form at most: two forms would be two
ways to cut it at one place.
-/

namespace Qudit

/-- **A run of digits**: the digits of ASCII, at least one of them. -/
def DigitRun (a : String) : Prop := a ≠ "" ∧ ∀ c ∈ a.toList, '0' ≤ c ∧ c ≤ '9'

theorem isDigitRun_toList_iff {a : String} : isDigitRun a.toList = true ↔ DigitRun a := by
  have hdigit : ∀ c : Char, c.isDigit = true ↔ '0' ≤ c ∧ c ≤ '9' := fun c => by
    rw [Char.isDigit, Bool.and_eq_true, decide_eq_true_iff, decide_eq_true_iff]
    rfl
  unfold isDigitRun DigitRun
  simp [hdigit]

/-- No digit is a point. -/
theorem DigitRun.point_notMem {a : String} (h : DigitRun a) : '.' ∉ a.toList :=
  fun hmem => absurd (h.2 _ hmem) (by decide)

namespace Deadline

/-- **A text is written as a deadline**, with `a` before the point and `b` after it. -/
structure Written (s a b : String) : Prop where
  /-- There are digits before the point. -/
  major : DigitRun a
  /-- There are digits after the point. -/
  minor : DigitRun b
  /-- There is nothing else. -/
  eq : s = "v" ++ a ++ "." ++ b

variable {s a b : String} {d : Deadline}

/-! ## Reading -/

/-- **A text that is written as a deadline is read**, and the place of its point kept. -/
theorem parse_of_written (h : Written s a b) : parse s = .ok ⟨s, 1 + a.utf8ByteSize⟩ := by
  have hchars : s.toList = 'v' :: (a.toList ++ '.' :: b.toList) := by simp [h.eq]
  have hsplit : Text.splitOnce '.' (a.toList ++ '.' :: b.toList) = some (a.toList, b.toList) :=
    Text.splitOnce_eq_some_iff.mpr ⟨h.major.point_notMem, rfl⟩
  unfold parse parse?
  simp only [hchars, hsplit, isDigitRun_toList_iff.mpr h.major, isDigitRun_toList_iff.mpr h.minor,
    Bool.and_self, if_true, String.ofList_toList]

/-- **Only a text that is written as a deadline is read.** -/
theorem exists_written_of_parse (h : parse? s = some d) : ∃ a b, Written s a b := by
  unfold parse? at h
  split at h
  · rename_i rest hchars
    split at h
    · rename_i major minor hsplit
      split_ifs at h with hruns
      obtain ⟨hmajor, hminor⟩ := Bool.and_eq_true_iff.mp hruns
      obtain ⟨-, rfl⟩ := Text.splitOnce_eq_some_iff.mp hsplit
      refine ⟨String.ofList major, String.ofList minor, isDigitRun_toList_iff.mp ?_,
        isDigitRun_toList_iff.mp ?_, String.toList_inj.mp ?_⟩
      · rwa [String.toList_ofList]
      · rwa [String.toList_ofList]
      · simp [hchars]
    · cases h
  · cases h

/-- What a text is read as is determined by any way in which it is written. -/
theorem parse_eq_ok_iff :
    parse s = .ok d ↔ ∃ a b, Written s a b ∧ d = ⟨s, 1 + a.utf8ByteSize⟩ := by
  constructor
  · intro h
    have hread : ∃ e, parse? s = some e := by
      unfold parse at h
      cases hparse : parse? s with
      | none =>
        rw [hparse] at h
        cases h
      | some e => exact ⟨e, rfl⟩
    obtain ⟨e, he⟩ := hread
    obtain ⟨a, b, hwritten⟩ := exists_written_of_parse he
    exact ⟨a, b, hwritten, Except.ok.inj (h.symm.trans (parse_of_written hwritten))⟩
  · rintro ⟨a, b, hwritten, rfl⟩
    exact parse_of_written hwritten

/-- Any other text is refused. -/
theorem parse_of_not_written (h : ∀ a b, ¬Written s a b) :
    parse s = .error (.invalidDeadline s) := by
  unfold parse
  cases hparse : parse? s with
  | none => rfl
  | some d =>
    obtain ⟨a, b, hwritten⟩ := exists_written_of_parse hparse
    exact absurd hwritten (h a b)

/-! ## Cutting -/

/-- **Between the letter and the point there is the first run.** -/
theorem major_of_written (h : Written s a b) :
    Deadline.major ⟨s, 1 + a.utf8ByteSize⟩ = .ok a := by
  have hcut := Text.between_append "v" a ("." ++ b)
  rwa [← String.append_assoc, ← h.eq, String.utf8ByteSize_append] at hcut

/-- **Behind the point there is the second run.** -/
theorem minor_of_written (h : Written s a b) :
    Deadline.minor ⟨s, 1 + a.utf8ByteSize⟩ = .ok b := by
  have hcut := Text.between_append ("v" ++ a ++ ".") b ""
  rwa [String.append_empty, ← h.eq, String.utf8ByteSize_append, String.utf8ByteSize_append] at hcut

/-- **Exactly the texts that are written as deadlines are read**, and a text is written as
one in at most one way. What is read has the text that it was read from, and the runs are cut
out of this text at the place of the point. Any other text is refused, and the error carries
it. -/
theorem parse_written (s : String) :
    ((∃ d, parse s = .ok d) ↔ ∃ a b, Written s a b) ∧
      (∀ a b, Written s a b →
        (∀ a' b', Written s a' b' → a' = a ∧ b' = b) ∧
        ∃ d, parse s = .ok d ∧ d.text = s ∧ d.dot = ("v" ++ a).utf8ByteSize ∧
          d.major = .ok a ∧ d.minor = .ok b ∧ parse d.text = .ok d) ∧
      ((∀ a b, ¬Written s a b) → parse s = .error (.invalidDeadline s)) := by
  refine ⟨?_, fun a b h => ⟨fun a' b' h' => ?_, ?_⟩, parse_of_not_written⟩
  · constructor
    · rintro ⟨d, hd⟩
      obtain ⟨a, b, h, -⟩ := parse_eq_ok_iff.mp hd
      exact ⟨a, b, h⟩
    · rintro ⟨a, b, h⟩
      exact ⟨_, parse_of_written h⟩
  · -- both ways are read as one deadline, which is cut in one way
    have hsame := Except.ok.inj ((parse_of_written h').symm.trans (parse_of_written h))
    have hmajor := major_of_written h'
    have hminor := minor_of_written h'
    rw [hsame] at hmajor hminor
    exact ⟨Except.ok.inj (hmajor.symm.trans (major_of_written h)),
      Except.ok.inj (hminor.symm.trans (minor_of_written h))⟩
  · have hdot : 1 + a.utf8ByteSize = ("v" ++ a).utf8ByteSize := by
      rw [String.utf8ByteSize_append]
      rfl
    exact ⟨_, parse_of_written h, rfl, hdot, major_of_written h, minor_of_written h,
      parse_of_written h⟩

/-- Leading zeros are kept, and no number of digits is too large. -/
theorem parse_written_zeros :
    Written "v007.18446744073709551616" "007" "18446744073709551616" ∧
      ∃ d, parse "v007.18446744073709551616" = .ok d ∧ d.dot = 4 ∧ d.major = .ok "007" ∧
        d.minor = .ok "18446744073709551616" := by
  have h : Written "v007.18446744073709551616" "007" "18446744073709551616" :=
    ⟨isDigitRun_toList_iff.mp (by decide), isDigitRun_toList_iff.mp (by decide), by decide⟩
  obtain ⟨-, hread, -⟩ := parse_written "v007.18446744073709551616"
  obtain ⟨-, d, hd, -, hdot, hmajor, hminor, -⟩ := hread _ _ h
  exact ⟨h, d, hd, hdot, hmajor, hminor⟩

end Deadline

end Qudit
