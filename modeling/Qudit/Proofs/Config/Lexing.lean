import Mathlib.Data.List.Basic
import Qudit.Config.Token

/-!
# The tokens of a text

The tokens of a text are found one after the other: whatever follows it, a lexeme at the beginning
of a text is its first token, and the rest of the text gives the others (`Token.scan_token`), with
any blanks in front of each (`Token.scan_blanks`). Only for a number does it matter what follows,
because a number goes on as long as there are digits, places or an exponent
(`Token.EndsNumber`). As the decimal digits of a number do not begin with a zero that stands for
nothing, all of them are one token (`Token.first_toDigits`).
-/

namespace Qudit

theorem isDigit_toDigits (n : Nat) : ∀ c ∈ Nat.toDigits 10 n, c.isDigit = true :=
  fun _ => Nat.isDigit_of_mem_toDigits (by decide) (by decide)

theorem exists_toDigits_eq_cons (n : Nat) : ∃ c ds, Nat.toDigits 10 n = c :: ds :=
  List.exists_cons_of_ne_nil Nat.toDigits_ne_nil

/-- Decimal digits that begin with zero are those of zero. -/
theorem toDigits_of_zero_cons {n : Nat} {cs : List Char} (h : Nat.toDigits 10 n = '0' :: cs) :
    n = 0 := by
  induction n using Nat.strongRecOn generalizing cs with
  | ind n ih =>
    obtain hn | hn := Nat.lt_or_ge n 10
    · rw [Nat.toDigits_of_lt_base hn] at h
      exact Nat.digitChar_eq_zero.mp (List.cons.inj h).1
    · -- the first digit of a number is that of its tenth, which is not zero
      rw [Nat.toDigits_of_base_le (by decide) hn] at h
      obtain ⟨c, ds, hds⟩ := exists_toDigits_eq_cons (n / 10)
      rw [hds, List.cons_append] at h
      have := ih (n / 10) (by omega) (hds.trans (congrArg (· :: ds) (List.cons.inj h).1))
      omega

namespace Token

/-! ## The first token of a text -/

/-- A blank begins no token. -/
theorem first_of_blank {c : Char} (h : isBlank c = true) (cs : List Char) :
    first (c :: cs) = none := by
  simp only [isBlank, Bool.or_eq_true, beq_iff_eq] at h
  obtain ((rfl | rfl) | rfl) | rfl := h <;> rfl

theorem scan_nil : scan [] = some [] := by
  rw [scan]

/-- A blank in front of a text is passed over. -/
theorem scan_blank {c : Char} {cs : List Char} {ts : List Token} (h : isBlank c = true)
    (hcs : scan cs = some ts) : scan (c :: cs) = some ts := by
  rw [scan, if_pos h, hcs]

/-- **Blanks in front of a text are passed over.** -/
theorem scan_blanks {blanks cs : List Char} {ts : List Token}
    (hblanks : blanks.all isBlank = true) (hcs : scan cs = some ts) :
    scan (blanks ++ cs) = some ts := by
  induction blanks with
  | nil => exact hcs
  | cons c blanks ih =>
    rw [List.all_cons, Bool.and_eq_true] at hblanks
    exact scan_blank hblanks.1 (ih hblanks.2)

/-- **A text has its first token and those of what follows it.** -/
theorem scan_token {cs rest : List Char} {t : Token} {ts : List Token}
    (h : first cs = some (t, rest)) (hrest : scan rest = some ts) : scan cs = some (t :: ts) := by
  cases cs with
  | nil => exact absurd (length_first h) (Nat.not_lt_zero _)
  | cons c cs =>
    have hblank : ¬isBlank c = true := fun hblank => by
      rw [first_of_blank hblank] at h
      cases h
    rw [scan, if_neg hblank]
    split
    · rename_i hnone
      rw [hnone] at h
      cases h
    · rename_i hsome
      rw [hsome] at h
      obtain ⟨⟩ := h
      rw [hrest, Option.map_some]

/-! ## Numbers -/

/-- **A number ends before the rest of a text**: what follows is neither a digit nor the
beginning of places or of an exponent. -/
def EndsNumber (rest : List Char) : Prop :=
  ∀ c ∈ rest.head?, c.isDigit = false ∧ c ≠ '.' ∧ c ≠ 'e' ∧ c ≠ 'E'

variable {ds rest : List Char}

theorem EndsNumber.of_cons {c : Char} (hc : c.isDigit = false ∧ c ≠ '.' ∧ c ≠ 'e' ∧ c ≠ 'E') :
    EndsNumber (c :: rest) := by
  intro d hd
  obtain rfl : c = d := Option.some.inj hd
  exact hc

/-- A number ends before blanks. -/
theorem EndsNumber.blanks_append {blanks : List Char} (hrest : EndsNumber rest)
    (hblanks : blanks.all isBlank = true) : EndsNumber (blanks ++ rest) := by
  cases blanks with
  | nil => exact hrest
  | cons c blanks =>
    simp only [List.all_cons, isBlank, Bool.and_eq_true, Bool.or_eq_true, beq_iff_eq] at hblanks
    obtain ⟨((rfl | rfl) | rfl) | rfl, -⟩ := hblanks <;> exact .of_cons (by decide)

theorem spanDigits_append (hds : ∀ c ∈ ds, c.isDigit = true) (hrest : EndsNumber rest) :
    spanDigits (ds ++ rest) = (ds, rest) := by
  unfold spanDigits
  rw [List.takeWhile_append_of_pos hds, List.dropWhile_append_of_pos hds]
  cases rest with
  | nil => rw [List.takeWhile_nil, List.dropWhile_nil, List.append_nil]
  | cons c rest =>
    have hc : ¬c.isDigit = true := by
      rw [(hrest c rfl).1]
      exact Bool.false_ne_true
    rw [List.takeWhile_cons_of_neg hc, List.dropWhile_cons_of_neg hc, List.append_nil]

theorem scanDigits_append (hne : ds ≠ []) (hds : ∀ c ∈ ds, c.isDigit = true)
    (hrest : EndsNumber rest) : scanDigits (ds ++ rest) = some (ds, rest) := by
  rw [scanDigits, spanDigits_append hds hrest, if_neg (by simpa using hne)]

theorem scanPlaces_of_endsNumber (hrest : EndsNumber rest) : scanPlaces rest = some ([], rest) := by
  unfold scanPlaces
  split
  · exact absurd rfl (hrest '.' rfl).2.1
  · rfl

theorem scanExponent_of_endsNumber (hrest : EndsNumber rest) :
    scanExponent rest = some ([], rest) := by
  cases rest with
  | nil => rfl
  | cons c rest =>
    obtain ⟨-, -, he, hE⟩ := hrest c rfl
    simp only [scanExponent, he, hE, or_self, if_false]

/-- The decimal digits of a number are its whole part. -/
theorem scanWhole_toDigits (n : Nat) (hrest : EndsNumber rest) :
    scanWhole (Nat.toDigits 10 n ++ rest) = some (Nat.toDigits 10 n, rest) := by
  unfold scanWhole
  split
  · rename_i cs hcs
    -- only zero begins with zero, and then there are no other digits
    obtain ⟨c, ds, hds⟩ := exists_toDigits_eq_cons n
    rw [hds, List.cons_append] at hcs
    obtain ⟨rfl, rfl⟩ := List.cons.inj hcs
    obtain rfl := toDigits_of_zero_cons hds
    obtain ⟨-, rfl⟩ := List.cons.inj ((Nat.toDigits_zero 10).symm.trans hds)
    rw [hds]
    rfl
  · exact scanDigits_append Nat.toDigits_ne_nil (isDigit_toDigits n) hrest

theorem scanUnsigned_toDigits (n : Nat) (hrest : EndsNumber rest) :
    scanUnsigned (Nat.toDigits 10 n ++ rest) = some (Nat.toDigits 10 n, rest) := by
  simp only [scanUnsigned, scanWhole_toDigits n hrest, scanPlaces_of_endsNumber hrest,
    scanExponent_of_endsNumber hrest, Option.bind_eq_bind, Option.bind_some, List.append_nil,
    Option.pure_def]

theorem ne_of_isDigit {c d : Char} (hc : c.isDigit = true) (hd : d.isDigit = false) : c ≠ d := by
  rintro rfl
  rw [hc] at hd
  cases hd

/-- A text that begins with a digit begins with a number without a sign. -/
theorem first_of_isDigit {c : Char} (hc : c.isDigit = true) (cs : List Char) :
    first (c :: cs) = (scanUnsigned (c :: cs)).map fun r => (number r.1, r.2) := by
  have hnumber : scanNumber (c :: cs) = scanUnsigned (c :: cs) := by
    unfold scanNumber
    split
    · rename_i heq
      exact absurd (List.cons.inj heq).1 (ne_of_isDigit hc rfl)
    · rfl
  -- every other lexeme begins with a character that is no digit
  unfold first
  split
  case h_11 => rw [hnumber]
  all_goals
    rename_i heq
    exact absurd (List.cons.inj heq).1 (ne_of_isDigit hc rfl)

/-- **The decimal digits of a number are read as one token.** -/
theorem first_toDigits (n : Nat) (hrest : EndsNumber rest) :
    first (Nat.toDigits 10 n ++ rest) = some (number (Nat.toDigits 10 n), rest) := by
  obtain ⟨c, ds, hds⟩ := exists_toDigits_eq_cons n
  have hc : c.isDigit = true := isDigit_toDigits n c (hds ▸ List.mem_cons_self)
  have hread := scanUnsigned_toDigits n hrest
  rw [hds, List.cons_append] at hread ⊢
  rw [first_of_isDigit hc, hread]
  rfl

/-! ## Strings -/

/-- Whether a character stands for itself in a string. -/
def isPlain (c : Char) : Bool := c != '"' && c != '\\' && Nat.ble 0x20 c.toNat

/-- The string of a text, character by character. -/
def quoted (s : String) : Token := .string (s.toList.map .char)

theorem scanString_append {cs : List Char} (hcs : cs.all isPlain = true) (rest : List Char) :
    scanString (cs ++ '"' :: rest) = some (cs.map .char, rest) := by
  induction cs with
  | nil => rfl
  | cons c cs ih =>
    simp only [List.all_cons, isPlain, Bool.and_eq_true, bne_iff_ne, ne_eq, Nat.ble_eq] at hcs
    obtain ⟨⟨⟨hquote, hslash⟩, hcontrol⟩, hcs⟩ := hcs
    rw [List.cons_append, scanString.eq_def]
    split
    · rename_i heq
      cases heq
    · rename_i heq
      exact absurd (List.cons.inj heq).1 hquote
    · rename_i heq
      exact absurd (List.cons.inj heq).1 hslash
    · rename_i heq
      exact absurd (List.cons.inj heq).1 hslash
    · rename_i heq
      obtain ⟨rfl, rfl⟩ := List.cons.inj heq
      rw [if_neg (by simp [hslash, hcontrol]), ih hcs]
      rfl

/-- **A quoted text of plain characters is read as one token.** -/
theorem first_quoted {s : String} (hs : s.toList.all isPlain = true) (rest : List Char) :
    first ('"' :: (s.toList ++ '"' :: rest)) = some (quoted s, rest) := by
  show (scanString (s.toList ++ '"' :: rest)).map _ = _
  rw [scanString_append hs]
  rfl

/-- A string of characters is the text of these characters. -/
theorem textOf?_map_char (cs : List Char) : textOf? (cs.map .char) = some cs := by
  induction cs with
  | nil => rfl
  | cons c cs ih => rw [List.map_cons, textOf?, ih, Option.map_some]

end Token

end Qudit
