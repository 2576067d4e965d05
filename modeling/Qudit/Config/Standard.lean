import Qudit.Config.Basic
import Qudit.Config.Token

/-!
# A library of JSON texts

`Config.Library.standard` prints the fields of a configuration one to a line
and parses any JSON object with these fields, each at most once, among
fields that are passed over. A sequence may take the place of the object:
the values of the fields in order, from the end on left out. A policy may
also be an object with its name as the key and no value.

What is passed over still has to be JSON. It is followed bracket by bracket
(`skipValue`), so its nesting may have any depth.
-/

namespace Qudit.Config

/-! ## Printing -/

/-- The characters of a text between quotes. Names hold none that needs an
escape. -/
def inQuotes (s : String) : List Char := '"' :: (s.toList ++ ['"'])

/-- How the value of a field is printed. -/
def printValue : Value → List Char
  | .null => "null".toList
  | .whole n => Nat.toDigits 10 n.toNat
  | .text s => inQuotes s

/-- How a field is printed, on a line of its own. -/
def printField (field : String × Value) : List Char :=
  '\n' :: ' ' :: ' ' :: (inQuotes field.1 ++ ':' :: ' ' :: printValue field.2)

/-- How fields are printed, with the line of the closing bracket begun. -/
def printFields : List (String × Value) → List Char
  | [] => []
  | [field] => printField field ++ ['\n']
  | field :: rest => printField field ++ ',' :: printFields rest

/-! ## Passing over values -/

/-- What encloses a value that is passed over. -/
inductive Enclosing where
  /-- A sequence. -/
  | sequence
  /-- An object. -/
  | object

mutual

/-- Passes over a value and the rest of what encloses it, innermost
first. -/
def skipValue (outer : List Enclosing) : List Token → Option (List Token)
  | .openBracket :: .closeBracket :: ts => skipRest outer ts
  | .openBracket :: ts => skipValue (.sequence :: outer) ts
  | .openBrace :: .closeBrace :: ts => skipRest outer ts
  | .openBrace :: .string _ :: .colon :: ts => skipValue (.object :: outer) ts
  | .null :: ts => skipRest outer ts
  | .bool _ :: ts => skipRest outer ts
  | .number _ :: ts => skipRest outer ts
  | .string _ :: ts => skipRest outer ts
  | _ => none

/-- Passes over the rest of what encloses a value, innermost first. -/
def skipRest (outer : List Enclosing) (ts : List Token) : Option (List Token) :=
  match outer, ts with
  | [], ts => some ts
  | .sequence :: outer, .closeBracket :: ts => skipRest outer ts
  | .sequence :: outer, .comma :: ts => skipValue (.sequence :: outer) ts
  | .object :: outer, .closeBrace :: ts => skipRest outer ts
  | .object :: outer, .comma :: .string _ :: .colon :: ts => skipValue (.object :: outer) ts
  | _, _ => none

end

/-! ## Parsing -/

/-- The text of a string. -/
def textOf? (units : List Unit16) : Option String := (Token.textOf? units).map String.ofList

/-- The value at the beginning, and what follows it. An object with a key
and no value is read as the key. -/
def readValue : List Token → Option (Value × List Token)
  | .null :: ts => some (.null, ts)
  | .number digits :: ts => (wordOf? digits).map fun n => (.whole n, ts)
  | .string units :: ts => (textOf? units).map fun s => (.text s, ts)
  | .openBrace :: .string units :: .colon :: .null :: .closeBrace :: ts =>
    (textOf? units).map fun s => (.text s, ts)
  | _ => none

/-- The value of the field with a given name, and what follows it. A field
that does not exist is passed over. -/
def readField (f : Fields) (key : String) (ts : List Token) : Option (Fields × List Token) :=
  if keys.contains key then do
    let (value, ts) ← readValue ts
    return (← f.put (key, value), ts)
  else do
    return (f, ← skipValue [] ts)

/-- The fields of an object up to its end, at most `n` of them. -/
def readFields : Nat → Fields → List Token → Option Config
  | 0, _, _ => none
  | n + 1, f, ts =>
    match ts with
    | .string units :: .colon :: ts => do
      let (f, ts) ← readField f (← textOf? units) ts
      match ts with
      | .comma :: ts => readFields n f ts
      | [.closeBrace] => return f.config
      | _ => none
    | _ => none

/-- The entries of a sequence up to its end, for the fields with the given
names. -/
def readEntries : List String → Fields → List Token → Option Config
  | [], _, _ => none
  | key :: rest, f, ts => do
    let (value, ts) ← readValue ts
    let f ← f.put (key, value)
    match ts with
    | .comma :: ts => readEntries rest f ts
    | [.closeBracket] => return f.config
    | _ => none

/-- The configuration that tokens write. -/
def ofTokens? : List Token → Option Config
  | [.openBrace, .closeBrace] => some {}
  | .openBrace :: ts => readFields ts.length {} ts
  | [.openBracket, .closeBracket] => some {}
  | .openBracket :: ts => readEntries keys {} ts
  | _ => none

/-- The configuration that a text writes. -/
def ofText? (s : String) : Option Config := do ofTokens? (← Token.scan s.toList)

/-- **A library that prints and parses as described.** -/
def Library.standard : Library where
  pretty c := .ok (String.ofList ('\x7b' :: (printFields c.fields ++ ['\x7d'])))
  parse s := (ofText? s).elim (.error "not a configuration") .ok

end Qudit.Config
