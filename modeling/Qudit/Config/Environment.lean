import Qudit.Config.Basic
import Qudit.Deprecation.Registry

/-!
# Configurations from the environment

The environment may set the seed and the policy by text. Blanks around the
number of the seed do not count, and it may have a plus sign. The seed is
read first, so of two settings that are wrong it is the one complained
about.
-/

namespace Qudit

namespace Config

/-- The variable that sets the seed. -/
def seedVariable : String := "YAO_SIM_SEED"

/-- The number that a setting of the seed writes. -/
def seedOfSetting? (value : String) : Option UInt64 :=
  match Text.trimList value.toList with
  | '+' :: digits => wordOf? digits
  | digits => wordOf? digits

/-- The seed that the environment sets. -/
def seedFromEnvironment : Option String → Except ConfigError (Option UInt64)
  | none => .ok none
  | some value =>
    match seedOfSetting? value with
    | some seed => .ok (some seed)
    | none => .error (.invalidSetting seedVariable value)

/-- **The configuration that the environment sets.** -/
def fromEnvironment (seed policy : Option String) : Except ConfigError Config := do
  let seed ← seedFromEnvironment seed
  match Policy.ofSetting policy with
  | .ok policy => return ⟨seed, policy⟩
  | .error e => throw (.deprecation e)

/-- Sets the policy of a configuration for all. -/
def applyPolicy (c : Config) : Reporting Unit := Registry.setPolicy c.policy

end Config

end Qudit
