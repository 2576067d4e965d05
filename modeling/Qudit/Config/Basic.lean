import Qudit.Deprecation.Notice

/-!
# Configurations

A **configuration** chooses the seed of a simulator – or leaves it open –
and a policy, and is kept as a JSON text. Printing and parsing JSON is the
business of a library (`Config.Library`). What a configuration declares to
it are names: those of its two fields and those of the policies, where a
policy is named by its variant in lower case, word by word (`snakeCase`),
and may have other names that are read but never written.

`Config.fields` is what there is to print, and `Config.ofFields?` what comes
of fields that were parsed: each of them is taken once and has to hold a
value of its kind, and a field left out has its default.
-/

namespace Qudit

/-- **A choice of a seed and a policy.** -/
structure Config where
  /-- The seed, if it is chosen. -/
  seed : Option UInt64 := none
  /-- The policy for deprecated uses. -/
  policy : Policy := .warn
  deriving DecidableEq

/-! ## Names -/

/-- A name in lower case, an underscore in front of each word but the first.
A word begins with a capital letter. -/
def snakeCase (name : String) : String :=
  match name.toList with
  | [] => ""
  | c :: cs =>
    String.ofList (c.toLower :: cs.flatMap fun d => if d.isUpper then ['_', d.toLower] else [d])

namespace Policy

/-- All policies. -/
def all : List Policy := [.warn, .warnOnce, .error]

/-- The variant that a policy is. -/
def variant : Policy → String
  | .warn => "Warn"
  | .warnOnce => "WarnOnce"
  | .error => "Error"

/-- The name of a policy in a configuration. -/
def name (p : Policy) : String := snakeCase p.variant

/-- The names that a policy is read by besides its own. -/
def aliases : Policy → List String
  | .warnOnce => ["once"]
  | _ => []

/-- The policy that a name in a configuration stands for. -/
def ofName? (name : String) : Option Policy :=
  all.find? fun p => name = p.name ∨ name ∈ p.aliases

end Policy

namespace Config

/-! ## Fields -/

/-- **The value of a field.** -/
inductive Value where
  /-- No value. -/
  | null
  /-- A number of 64 bits. -/
  | whole (n : UInt64)
  /-- A text. -/
  | text (s : String)
  deriving DecidableEq

namespace Value

/-- The value of a seed: a number, or none if the seed is left open. -/
def ofSeed : Option UInt64 → Value
  | some seed => .whole seed
  | none => .null

/-- The seed that a value stands for. -/
def seed? : Value → Option (Option UInt64)
  | .null => some none
  | .whole n => some (some n)
  | .text _ => none

/-- The policy that a value stands for by its name. -/
def policy? : Value → Option Policy
  | .text s => Policy.ofName? s
  | _ => none

end Value

/-- The field of the seed. -/
def seedKey : String := "seed"

/-- The field of the policy. -/
def policyKey : String := "deprecation_policy"

/-- The names of the fields, in order. -/
def keys : List String := [seedKey, policyKey]

/-- **The fields of a configuration**, with their names. -/
def fields (c : Config) : List (String × Value) :=
  [(seedKey, .ofSeed c.seed), (policyKey, .text c.policy.name)]

/-- The fields read so far. -/
structure Fields where
  /-- The seed field. -/
  seed : Option (Option UInt64) := none
  /-- The policy field. -/
  policy : Option Policy := none

namespace Fields

/-- Reads one more field. A field that was read before, one that does not
exist and a value of another kind are refused. -/
def put (f : Fields) (field : String × Value) : Option Fields :=
  if field.1 = seedKey then do
    guard f.seed.isNone
    return { f with seed := some (← field.2.seed?) }
  else if field.1 = policyKey then do
    guard f.policy.isNone
    return { f with policy := some (← field.2.policy?) }
  else none

/-- The configuration with the fields read and the defaults of the
others. -/
def config (f : Fields) : Config := ⟨f.seed.getD none, f.policy.getD .warn⟩

end Fields

/-- **The configuration with the given fields**, each at most once. -/
def ofFields? (fields : List (String × Value)) : Option Config := do
  return (← fields.foldlM Fields.put {}).config

/-! ## Numbers -/

/-- The number that a list of decimal digits writes. -/
def numberOf (digits : List Char) : Nat :=
  digits.foldl (fun acc c => acc * 10 + (c.toNat - '0'.toNat)) 0

/-- The 64-bit number that a run of decimal digits writes, if it is one. -/
def wordOf? (digits : List Char) : Option UInt64 :=
  if isDigitRun digits && Nat.blt (numberOf digits) UInt64.size then
    some (UInt64.ofNat (numberOf digits))
  else none

/-! ## Texts -/

/-- **A library that turns configurations into JSON texts and back.** What
it says of a failure is a text. -/
structure Library where
  /-- The text of a configuration, printed prettily. -/
  pretty : Config → Except String String
  /-- The configuration that a text writes. -/
  parse : String → Except String Config

end Config

/-- Why a configuration cannot be had. -/
inductive ConfigError where
  /-- The library refuses, for the reason it gives. -/
  | json (cause : String)
  /-- The setting of a variable is no number of 64 bits. -/
  | invalidSetting (name : String) (value : String)
  /-- The setting of the policy is no policy. -/
  | deprecation (e : DeprecationError)

/-- What is said of a configuration that cannot be had. -/
def ConfigError.message : ConfigError → String
  | .json cause => s!"invalid config JSON: {cause}"
  | .invalidSetting name value => s!"invalid {name}: {Text.quoted value}"
  | .deprecation e => e.message

namespace Config

/-- **The configuration that a JSON text writes.** -/
def fromJson (lib : Library) (json : String) : Except ConfigError Config :=
  (lib.parse json).mapError .json

/-- **The JSON text of a configuration.** -/
def toJson (lib : Library) (c : Config) : Except ConfigError String :=
  (lib.pretty c).mapError .json

end Config

end Qudit
