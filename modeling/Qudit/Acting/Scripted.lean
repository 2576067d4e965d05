import Qudit.Acting.Basic
import Qudit.Operation.Text

/-!
# The scripted representation

The register keeps no state: it replays prepared outcomes and writes down
the gates it is given, each with the axes it was given them at, so that the
order in which operations are taken apart can be read off. It may be told to
refuse gates by their text, or to take no gate at all.
-/

namespace Qudit

/-- **A register that follows a script.** -/
structure Scripted where
  /-- The outcomes of the measurements to come. -/
  outcomes : List (List Nat)
  /-- Whether it takes gates. -/
  takesGates : Bool
  /-- The texts of the gates it refuses. -/
  refuses : List String
  /-- The gates it was given, with their axes. -/
  recorded : List (String × List Nat)

namespace Scripted

open Acting

/-- The next prepared outcome, whatever the axes. -/
def perform : Acting Scripted Float (List Nat) := do
  match (← get).register.outcomes with
  | [] => refuse (.refused "exhausted script")
  | outcome :: rest =>
    modify fun s => { s with register := { s.register with outcomes := rest } }
    return outcome

/-- Writes a gate down. Gates that have parts are left to them. -/
def native (g : PlacedGate Float) : Acting Scripted Float Outcome := do
  let s ← get
  if !s.register.takesGates || g.parts.isSome then return .notImplemented
  if s.register.refuses.contains g.gate.text then
    refuse (.refused s!"injected failure on {(Operation.gate g).text}")
  modify fun s =>
    { s with register :=
      { s.register with recorded := s.register.recorded ++ [(g.gate.text, s.axes)] } }
  return .applied

/-- **The representation by a script.** -/
def representation : Representation Scripted Float := ⟨perform, native⟩

end Scripted

end Qudit
