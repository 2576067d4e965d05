/-!
# Tokens of JSON texts

A JSON text is a sequence of **tokens** with blanks between them. Every token
is read strictly (`Token.scan`): a number has no leading zeros, a string no
control characters, and nothing else occurs outside strings.

The characters of a string are kept as they are written (`Unit16`), code
units apart, because a string that is passed over may hold half of a
surrogate pair and one that is read may not: `Token.textOf?` puts the units
together.
-/

namespace Qudit

/-- **A character of a string, or a code unit given by its number.** -/
inductive Unit16 where
  /-- A character. -/
  | char (c : Char)
  /-- A code unit. -/
  | code (n : Nat)
  deriving DecidableEq

/-- **A token.** -/
inductive Token where
  /-- Opens an object. -/
  | openBrace
  /-- Closes an object. -/
  | closeBrace
  /-- Opens a sequence. -/
  | openBracket
  /-- Closes a sequence. -/
  | closeBracket
  /-- Stands between a key and its value. -/
  | colon
  /-- Stands between entries. -/
  | comma
  /-- The value that stands for none. -/
  | null
  /-- A truth value. -/
  | bool (b : Bool)
  /-- A number, as it is written. -/
  | number (text : List Char)
  /-- A string, unit by unit. -/
  | string (units : List Unit16)
  deriving DecidableEq

namespace Token

/-- The four characters that may stand between tokens. -/
def isBlank (c : Char) : Bool := c == ' ' || c == '\n' || c == '\t' || c == '\r'

/-- The value of a hexadecimal digit. -/
def hexValue (c : Char) : Option Nat :=
  if c.isDigit then some (c.toNat - '0'.toNat)
  else if 'a' ≤ c ∧ c ≤ 'f' then some (c.toNat - 'a'.toNat + 10)
  else if 'A' ≤ c ∧ c ≤ 'F' then some (c.toNat - 'A'.toNat + 10)
  else none

/-- The number that four hexadecimal digits write. -/
def hex4 (a b c d : Char) : Option Nat := do
  let high := (← hexValue a) * 16 + (← hexValue b)
  let low := (← hexValue c) * 16 + (← hexValue d)
  return high * 256 + low

/-- The character that a letter stands for behind a backslash. -/
def escaped : Char → Option Char
  | '"' => some '"'
  | '\\' => some '\\'
  | '/' => some '/'
  | 'b' => some '\x08'
  | 'f' => some '\x0c'
  | 'n' => some '\n'
  | 'r' => some '\r'
  | 't' => some '\t'
  | _ => none

/-- The units of a string up to its closing quote, and what follows it. -/
def scanString : List Char → Option (List Unit16 × List Char)
  | [] => none
  | '"' :: rest => some ([], rest)
  | '\\' :: 'u' :: a :: b :: c :: d :: rest => do
    let n ← hex4 a b c d
    let (units, rest) ← scanString rest
    return (.code n :: units, rest)
  | '\\' :: e :: rest => do
    let c ← escaped e
    let (units, rest) ← scanString rest
    return (.char c :: units, rest)
  | c :: rest =>
    if c = '\\' ∨ c.toNat < 0x20 then none
    else do
      let (units, rest) ← scanString rest
      return (.char c :: units, rest)

/-- The digits at the beginning, and what follows them. -/
def spanDigits (cs : List Char) : List Char × List Char :=
  (cs.takeWhile Char.isDigit, cs.dropWhile Char.isDigit)

/-- A run of at least one digit at the beginning, and what follows it. -/
def scanDigits (cs : List Char) : Option (List Char × List Char) :=
  if (spanDigits cs).1.isEmpty then none else some (spanDigits cs)

/-- The whole part of a number: zero, or digits that do not begin with
one. -/
def scanWhole : List Char → Option (List Char × List Char)
  | '0' :: rest => some (['0'], rest)
  | cs => scanDigits cs

/-- The places of a number behind a point, if there is one. -/
def scanPlaces : List Char → Option (List Char × List Char)
  | '.' :: rest => do
    let (digits, rest) ← scanDigits rest
    return ('.' :: digits, rest)
  | cs => some ([], cs)

/-- The exponent of a number, if there is one. -/
def scanExponent : List Char → Option (List Char × List Char)
  | c :: rest =>
    if c = 'e' ∨ c = 'E' then
      match rest with
      | s :: more =>
        if s = '+' ∨ s = '-' then do
          let (digits, rest) ← scanDigits more
          return (c :: s :: digits, rest)
        else do
          let (digits, rest) ← scanDigits rest
          return (c :: digits, rest)
      | [] => none
    else some ([], c :: rest)
  | [] => some ([], [])

/-- A number without a sign, and what follows it. -/
def scanUnsigned (cs : List Char) : Option (List Char × List Char) := do
  let (whole, cs) ← scanWhole cs
  let (places, cs) ← scanPlaces cs
  let (exponent, cs) ← scanExponent cs
  return (whole ++ places ++ exponent, cs)

/-- A number, and what follows it. -/
def scanNumber : List Char → Option (List Char × List Char)
  | '-' :: rest => do
    let (text, rest) ← scanUnsigned rest
    return ('-' :: text, rest)
  | cs => scanUnsigned cs

/-- The token at the beginning, and what follows it. -/
def first : List Char → Option (Token × List Char)
  | '\x7b' :: cs => some (openBrace, cs)
  | '\x7d' :: cs => some (closeBrace, cs)
  | '[' :: cs => some (openBracket, cs)
  | ']' :: cs => some (closeBracket, cs)
  | ':' :: cs => some (colon, cs)
  | ',' :: cs => some (comma, cs)
  | '"' :: cs => (scanString cs).map fun r => (string r.1, r.2)
  | 'n' :: 'u' :: 'l' :: 'l' :: cs => some (null, cs)
  | 't' :: 'r' :: 'u' :: 'e' :: cs => some (bool true, cs)
  | 'f' :: 'a' :: 'l' :: 's' :: 'e' :: cs => some (bool false, cs)
  | cs => (scanNumber cs).map fun r => (number r.1, r.2)

/-- Reading a string takes characters. -/
theorem length_scanString {cs rest : List Char} {units : List Unit16}
    (h : scanString cs = some (units, rest)) : rest.length < cs.length := by
  fun_induction scanString cs generalizing units rest <;>
    simp only [Option.bind_eq_bind, Option.bind_eq_some_iff, Option.pure_def, Option.some.injEq,
      Prod.mk.injEq, reduceCtorEq] at h <;>
    grind

/-- Reading digits takes characters. -/
theorem length_scanDigits {cs ds rest : List Char} (h : scanDigits cs = some (ds, rest)) :
    rest.length < cs.length := by
  have hlen : cs.length =
      (cs.takeWhile Char.isDigit).length + (cs.dropWhile Char.isDigit).length := by
    rw [← List.length_append, List.takeWhile_append_dropWhile]
  unfold scanDigits spanDigits at h
  split at h
  · cases h
  · rename_i hne
    cases h
    have : 0 < (cs.takeWhile Char.isDigit).length := by
      simpa [List.length_pos_iff] using hne
    omega

/-- Reading the whole part of a number takes characters. -/
theorem length_scanWhole {cs ds rest : List Char} (h : scanWhole cs = some (ds, rest)) :
    rest.length < cs.length := by
  unfold scanWhole at h
  split at h
  · cases h; simp
  · exact length_scanDigits h

/-- Reading the places of a number takes characters away and adds none. -/
theorem length_scanPlaces {cs ds rest : List Char} (h : scanPlaces cs = some (ds, rest)) :
    rest.length ≤ cs.length := by
  unfold scanPlaces at h
  split at h
  · simp only [Option.bind_eq_bind, Option.bind_eq_some_iff] at h
    grind [→ length_scanDigits]
  · cases h; exact Nat.le_refl _

/-- Reading the exponent of a number takes characters away and adds none. -/
theorem length_scanExponent {cs ds rest : List Char} (h : scanExponent cs = some (ds, rest)) :
    rest.length ≤ cs.length := by
  unfold scanExponent at h
  split at h
  · split at h
    · split at h
      · split at h <;> simp only [Option.bind_eq_bind, Option.bind_eq_some_iff] at h <;>
          grind [→ length_scanDigits]
      · cases h
    · cases h; exact Nat.le_refl _
  · cases h; exact Nat.le_refl _

/-- Reading a number without a sign takes characters. -/
theorem length_scanUnsigned {cs ds rest : List Char} (h : scanUnsigned cs = some (ds, rest)) :
    rest.length < cs.length := by
  unfold scanUnsigned at h
  simp only [Option.bind_eq_bind, Option.bind_eq_some_iff] at h
  grind [→ length_scanWhole, → length_scanPlaces, → length_scanExponent]

/-- Reading a number takes characters. -/
theorem length_scanNumber {cs ds rest : List Char} (h : scanNumber cs = some (ds, rest)) :
    rest.length < cs.length := by
  unfold scanNumber at h
  split at h
  · simp only [Option.bind_eq_bind, Option.bind_eq_some_iff] at h
    grind [→ length_scanUnsigned]
  · exact length_scanUnsigned h

/-- A token takes characters. -/
theorem length_first {cs rest : List Char} {t : Token} (h : first cs = some (t, rest)) :
    rest.length < cs.length := by
  unfold first at h
  split at h <;> simp only [Option.map_eq_some_iff, Option.some.injEq, Prod.mk.injEq] at h <;>
    grind [→ length_scanString, → length_scanNumber]

/-- **The tokens of a text**, if it consists of tokens and blanks. -/
def scan (cs : List Char) : Option (List Token) :=
  match cs with
  | [] => some []
  | c :: rest =>
    if isBlank c then scan rest
    else
      match _h : first (c :: rest) with
      | none => none
      | some (t, rest) => (scan rest).map (t :: ·)
termination_by cs.length
decreasing_by
  · simp
  · exact length_first (by assumption)

/-- The text that units write. Two units that are the halves of a surrogate
pair are one character, and any other half is none. -/
def textOf? : List Unit16 → Option (List Char)
  | [] => some []
  | .char c :: rest => (textOf? rest).map (c :: ·)
  | .code high :: .code low :: rest =>
    if 0xd800 ≤ high ∧ high < 0xdc00 then
      if 0xdc00 ≤ low ∧ low < 0xe000 then
        (textOf? rest).map
          (Char.ofNat (0x10000 + (high - 0xd800) * 0x400 + (low - 0xdc00)) :: ·)
      else none
    else if 0xdc00 ≤ high ∧ high < 0xe000 then none
    else (textOf? (.code low :: rest)).map (Char.ofNat high :: ·)
  | .code n :: rest =>
    if 0xd800 ≤ n ∧ n < 0xe000 then none else (textOf? rest).map (Char.ofNat n :: ·)

end Token

end Qudit
