import Qudit.Config.Standard
import Qudit.Proofs.Config.Lexing

/-!
# Reading what is written

A configuration comes back from the text it was written as, with any library that keeps to its
documentation (`fromJson_toJson`): for every seed of 64 bits, for none, and for every policy.

`Library.Documented` says what is relied on. The text of a configuration is *standard JSON* for its
fields (`WritesObject`), with numbers in decimal digits and `null` for no number, and any standard
JSON text of fields that make up a configuration is parsed as this configuration – wherever its
blanks are and in whatever order the fields come. Nothing in it says that the fields of a
configuration make up this configuration again. That is a matter of the names that are declared:
those of the fields differ, every policy is found by its own name among all names of all policies,
and a seed is written as a number exactly if there is one (`ofFields?_fields`).

`Library.standard` keeps to the documentation (`documented_standard`). Printing and parsing meet at
the tokens of a text, `objectTokens`.
-/

namespace Qudit.Config

/-! ## Standard JSON -/

/-- Characters that may stand between tokens. -/
def Blank (cs : List Char) : Prop := cs.all Token.isBlank = true

instance : DecidablePred Blank := fun cs => inferInstanceAs (Decidable (cs.all _ = true))

/-- A text whose characters stand for themselves between quotes. -/
def Plain (s : String) : Prop := s.toList.all Token.isPlain = true

instance : DecidablePred Plain := fun s => inferInstanceAs (Decidable (s.toList.all _ = true))

/-- **Characters that write a value.** -/
inductive WritesValue : Value → List Char → Prop
  /-- No value is `null`. -/
  | null : WritesValue .null "null".toList
  /-- A number is written in decimal digits. -/
  | whole (n : UInt64) : WritesValue (.whole n) (Nat.toDigits 10 n.toNat)
  /-- A text is written between quotes. -/
  | text {s : String} (hs : Plain s) : WritesValue (.text s) ('"' :: (s.toList ++ ['"']))

/-- **Characters that write a field**: its name between quotes, a colon and its value, with blanks
around each. -/
inductive WritesField : String × Value → List Char → Prop
  | mk {key : String} {value : Value} {cs a b c d : List Char} (hkey : Plain key)
      (hvalue : WritesValue value cs) (ha : Blank a) (hb : Blank b) (hc : Blank c)
      (hd : Blank d) :
      WritesField (key, value)
        (a ++ '"' :: (key.toList ++ '"' :: (b ++ ':' :: (c ++ (cs ++ d)))))

/-- **Characters that write fields**, with commas in between. -/
inductive WritesFields : List (String × Value) → List Char → Prop
  /-- The last field. -/
  | last {field : String × Value} {cs : List Char} (h : WritesField field cs) :
      WritesFields [field] cs
  /-- A field before others. -/
  | more {field : String × Value} {rest : List (String × Value)} {cs ds : List Char}
      (h : WritesField field cs) (hrest : WritesFields rest ds) :
      WritesFields (field :: rest) (cs ++ ',' :: ds)

/-- **Characters that write an object** with the given fields. -/
inductive WritesObject : List (String × Value) → List Char → Prop
  /-- An object without fields. -/
  | empty {a b c : List Char} (ha : Blank a) (hb : Blank b) (hc : Blank c) :
      WritesObject [] (a ++ '\x7b' :: (b ++ '\x7d' :: c))
  /-- An object with fields. -/
  | fields {fields : List (String × Value)} {a cs b : List Char} (ha : Blank a)
      (h : WritesFields fields cs) (hb : Blank b) :
      WritesObject fields (a ++ '\x7b' :: (cs ++ '\x7d' :: b))

/-- **A library that keeps to its documentation.** -/
structure Library.Documented (lib : Library) : Prop where
  /-- A configuration is printed as standard JSON for its fields. -/
  pretty_writes : ∀ c : Config, ∃ json, lib.pretty c = .ok json ∧ WritesObject c.fields json.toList
  /-- Standard JSON for fields that make up a configuration is parsed as this configuration. -/
  parse_reads : ∀ {fields : List (String × Value)} {json : String} {c : Config},
    WritesObject fields json.toList → ofFields? fields = some c → lib.parse json = .ok c

/-! ## The names -/

/-- Every policy is found by its name. -/
theorem ofName?_name (p : Policy) : Policy.ofName? p.name = some p := by
  cases p <;> decide +kernel

theorem seed?_ofSeed (seed : Option UInt64) : (Value.ofSeed seed).seed? = some seed := by
  cases seed <;> rfl

section

variable {f : Fields} {value : Value}

theorem put_seed {seed : Option UInt64} (hf : f.seed = none) (h : value.seed? = some seed) :
    f.put (seedKey, value) = some { f with seed := some seed } := by
  rw [Fields.put, if_pos rfl, hf, h]
  rfl

theorem put_policy {policy : Policy} (hf : f.policy = none) (h : value.policy? = some policy) :
    f.put (policyKey, value) = some { f with policy := some policy } := by
  have hne : policyKey ≠ seedKey := by decide
  rw [Fields.put, if_neg hne, if_pos rfl, hf, h]
  rfl

end

/-- **The fields of a configuration make up this configuration.** -/
theorem ofFields?_fields (c : Config) : ofFields? c.fields = some c := by
  have hseed : Fields.put {} (seedKey, .ofSeed c.seed) = some { seed := some c.seed } :=
    put_seed rfl (seed?_ofSeed c.seed)
  have hpolicy : Fields.put { seed := some c.seed } (policyKey, .text c.policy.name)
      = some { seed := some c.seed, policy := some c.policy } :=
    put_policy rfl (ofName?_name c.policy)
  have hput : c.fields.foldlM Fields.put {}
      = some { seed := some c.seed, policy := some c.policy } := by
    rw [fields, List.foldlM_cons, hseed, Option.bind_eq_bind, Option.bind_some, List.foldlM_cons,
      hpolicy]
    rfl
  rw [ofFields?, hput]
  rfl

/-! ## The tokens of an object -/

open Token

/-- The token that writes a value. -/
def valueToken : Value → Token
  | .null => .null
  | .whole n => .number (Nat.toDigits 10 n.toNat)
  | .text s => .quoted s

/-- The tokens that write a field, in front of others. -/
def fieldTokens (field : String × Value) (ts : List Token) : List Token :=
  .quoted field.1 :: .colon :: valueToken field.2 :: ts

/-- **The tokens that write an object**, behind its first one. -/
def objectTokens : List (String × Value) → List Token
  | [] => [.closeBrace]
  | [field] => fieldTokens field [.closeBrace]
  | field :: rest => fieldTokens field (.comma :: objectTokens rest)

variable {field : String × Value} {fields : List (String × Value)} {cs rest : List Char}
  {ts : List Token}

/-- A value is one token. -/
theorem first_of_writesValue {value : Value} (h : WritesValue value cs)
    (hrest : EndsNumber rest) : first (cs ++ rest) = some (valueToken value, rest) := by
  cases h with
  | null => rfl
  | whole n => exact first_toDigits n.toNat hrest
  | text hs =>
    rw [List.cons_append, List.append_assoc]
    exact first_quoted hs rest

/-- A field is three tokens. -/
theorem scan_of_writesField (h : WritesField field cs) (hrest : EndsNumber rest)
    (hts : scan rest = some ts) : scan (cs ++ rest) = some (fieldTokens field ts) := by
  cases h with
  | mk hkey hvalue ha hb hc hd =>
    simp only [List.append_assoc, List.cons_append]
    refine scan_blanks ha <| scan_token (first_quoted hkey _) ?_
    refine scan_blanks hb <| scan_token rfl ?_
    refine scan_blanks hc <| scan_token (first_of_writesValue hvalue (hrest.blanks_append hd)) ?_
    exact scan_blanks hd hts

/-- **What writes an object consists of its tokens.** -/
theorem scan_of_writesObject (h : WritesObject fields cs) :
    scan cs = some (.openBrace :: objectTokens fields) := by
  have hclose {b : List Char} (hb : Blank b) : scan ('\x7d' :: b) = some [.closeBrace] := by
    refine scan_token rfl ?_
    rw [← List.append_nil b]
    exact scan_blanks hb scan_nil
  cases h with
  | empty ha hb hc => exact scan_blanks ha <| scan_token rfl <| scan_blanks hb <| hclose hc
  | fields ha h hb =>
    refine scan_blanks ha <| scan_token rfl ?_
    induction h with
    | last h => exact scan_of_writesField h (.of_cons (by decide)) (hclose hb)
    | @more field rest cs ds h hrest ih =>
      have hobject : objectTokens (field :: rest)
          = fieldTokens field (.comma :: objectTokens rest) := by
        cases hrest <;> rfl
      rw [hobject, List.append_assoc]
      exact scan_of_writesField h (.of_cons (by decide)) (scan_token rfl ih)

/-! ## Parsing -/

/-- The decimal digits of a number write it. -/
theorem numberOf_toDigits (n : Nat) : numberOf (Nat.toDigits 10 n) = n := by
  have h := Nat.ofDigitChars_ten_toDigits (n := n)
  rw [Nat.ofDigitChars_eq_foldl] at h
  simpa only [numberOf, Nat.mul_comm] using h

/-- **A number is read back from its decimal digits**, whatever its 64 bits are. -/
theorem wordOf?_toDigits (n : UInt64) : wordOf? (Nat.toDigits 10 n.toNat) = some n := by
  have hrun : isDigitRun (Nat.toDigits 10 n.toNat) = true := by
    rw [isDigitRun, Bool.and_eq_true, List.all_eq_true]
    exact ⟨by simp, isDigit_toDigits _⟩
  have hlt : Nat.blt n.toNat UInt64.size = true := Nat.ble_eq_true_of_le n.toNat_lt
  rw [wordOf?, numberOf_toDigits, hrun, hlt, UInt64.ofNat_toNat]
  rfl

theorem textOf?_quoted (s : String) : textOf? (s.toList.map .char) = some s := by
  rw [textOf?, textOf?_map_char, Option.map_some, String.ofList_toList]

theorem readValue_valueToken (value : Value) (ts : List Token) :
    readValue (valueToken value :: ts) = some (value, ts) := by
  cases value with
  | null => rfl
  | whole n => rw [valueToken, readValue, wordOf?_toDigits, Option.map_some]
  | text s => rw [valueToken, quoted, readValue, textOf?_quoted, Option.map_some]

variable {f g : Fields} {n : Nat}

/-- A field that can be taken is read. -/
theorem readField_valueToken (h : f.put field = some g) (ts : List Token) :
    readField f field.1 (valueToken field.2 :: ts) = some (g, ts) := by
  have hkey : keys.contains field.1 = true := by
    by_cases hseed : field.1 = seedKey
    · rw [hseed]; rfl
    by_cases hpolicy : field.1 = policyKey
    · rw [hpolicy]; rfl
    -- a field with any other name is never taken
    rw [Fields.put, if_neg hseed, if_neg hpolicy] at h
    cases h
  rw [readField, if_pos hkey, readValue_valueToken]
  show (do return (← f.put field, ts)) = _
  rw [h]
  rfl

/-- **The fields of an object are read one after the other**, to the last one. -/
theorem readFields_objectTokens (hne : fields ≠ []) (hn : fields.length ≤ n)
    (h : fields.foldlM Fields.put f = some g) :
    readFields n f (objectTokens fields) = some g.config := by
  induction fields generalizing f n with
  | nil => exact absurd rfl hne
  | cons field rest ih =>
    obtain ⟨n, rfl⟩ := Nat.exists_eq_add_of_le' (Nat.lt_of_lt_of_le (Nat.succ_pos _) hn)
    rw [List.foldlM_cons] at h
    obtain ⟨g', hput, hrest⟩ := Option.bind_eq_some_iff.mp h
    cases rest with
    | nil =>
      obtain rfl : g' = g := Option.some.inj hrest
      simp only [objectTokens, fieldTokens, readFields, quoted, textOf?_quoted,
        readField_valueToken hput, Option.bind_eq_bind, Option.bind_some, Option.pure_def]
    | cons next rest =>
      simp only [objectTokens, fieldTokens, readFields, quoted, textOf?_quoted,
        readField_valueToken hput, Option.bind_eq_bind, Option.bind_some]
      exact ih (List.cons_ne_nil _ _) (Nat.le_of_succ_le_succ hn) hrest

/-- **The tokens of fields that make up a configuration are read as this configuration.** -/
theorem ofTokens?_objectTokens {c : Config} (h : ofFields? fields = some c) :
    ofTokens? (.openBrace :: objectTokens fields) = some c := by
  obtain ⟨g, hput, hc⟩ := Option.bind_eq_some_iff.mp h
  obtain rfl : g.config = c := Option.some.inj hc
  cases fields with
  | nil =>
    obtain rfl : ({} : Fields) = g := Option.some.inj hput
    rfl
  | cons field rest =>
    have hlength : ∀ fields : List (String × Value),
        fields.length ≤ (objectTokens fields).length := by
      intro fields
      induction fields with
      | nil => exact Nat.zero_le _
      | cons field rest ih =>
        cases rest with
        | nil => exact Nat.le_add_left 1 3
        | cons next rest =>
          simp only [objectTokens, fieldTokens, List.length_cons] at ih ⊢
          omega
    have hread := readFields_objectTokens (List.cons_ne_nil field rest) (hlength _) hput
    cases rest <;> exact hread

/-! ## Printing -/

/-- A field whose texts are plain is printed as standard JSON, also with a line ended behind it. -/
theorem writesField_printField {key : String} {value : Value} {d : List Char} (hkey : Plain key)
    (hvalue : WritesValue value (printValue value)) (hd : Blank d) :
    WritesField (key, value) (printField (key, value) ++ d) := by
  have h := WritesField.mk (a := ['\n', ' ', ' ']) (b := []) (c := [' ']) hkey hvalue
    (by decide) (by decide) (by decide) hd
  simpa [printField, inQuotes] using h

/-- **The fields of a configuration are printed as standard JSON.** -/
theorem writesFields_printFields (c : Config) : WritesFields c.fields (printFields c.fields) := by
  have hseed : WritesValue (.ofSeed c.seed) (printValue (.ofSeed c.seed)) := by
    cases c.seed with
    | none => exact .null
    | some seed => exact .whole seed
  have hpolicy : WritesValue (.text c.policy.name) (printValue (.text c.policy.name)) :=
    .text (by cases c.policy <;> decide +kernel)
  have hfirst : WritesField (seedKey, .ofSeed c.seed)
      (printField (seedKey, .ofSeed c.seed) ++ []) :=
    writesField_printField (by decide) hseed (by decide)
  have hlast : WritesField (policyKey, .text c.policy.name)
      (printField (policyKey, .text c.policy.name) ++ ['\n']) :=
    writesField_printField (by decide) hpolicy (by decide)
  rw [List.append_nil] at hfirst
  exact .more hfirst (.last hlast)

/-- **The standard library keeps to the documentation.** -/
theorem documented_standard : Library.standard.Documented where
  pretty_writes c := by
    refine ⟨_, rfl, ?_⟩
    rw [String.toList_ofList]
    exact .fields (a := []) (b := []) (by decide) (writesFields_printFields c) (by decide)
  parse_reads {fields json c} hwrites hfields := by
    have hread : ofText? json = some c := by
      rw [ofText?, scan_of_writesObject hwrites]
      exact ofTokens?_objectTokens hfields
    show (ofText? json).elim _ _ = _
    rw [hread, Option.elim_some]

/-! ## There and back -/

/-- **A configuration comes back from its text.** With a library that keeps to its documentation,
every configuration has a text, and this text is read as the configuration. -/
theorem fromJson_toJson {lib : Library} (hlib : lib.Documented) (c : Config) :
    ∃ json, c.toJson lib = .ok json ∧ fromJson lib json = .ok c := by
  obtain ⟨json, hpretty, hwrites⟩ := hlib.pretty_writes c
  refine ⟨json, ?_, ?_⟩
  · rw [toJson, hpretty]
    rfl
  · rw [fromJson, hlib.parse_reads hwrites (ofFields?_fields c)]
    rfl

/-- The standard library with an odd seed above `2 ^ 53` and the policy of two names. -/
theorem fromJson_toJson_large_seed :
    Library.standard.Documented ∧
      ∃ json, toJson .standard ⟨some 9007199254740993, .warnOnce⟩ = .ok json ∧
        json = "\x7b\n  \"seed\": 9007199254740993,\n"
          ++ "  \"deprecation_policy\": \"warn_once\"\n\x7d" ∧
        fromJson .standard json = .ok ⟨some 9007199254740993, .warnOnce⟩ := by
  obtain ⟨json, hjson, hback⟩ :=
    fromJson_toJson documented_standard ⟨some 9007199254740993, .warnOnce⟩
  refine ⟨documented_standard, json, hjson, ?_, hback⟩
  exact Except.ok.inj (hjson.symm.trans rfl)

end Qudit.Config
