import Qudit.Acting.Basic

/-!
# The basis-state representation

The register is one value per site. Only gates that take basis states to
basis states are applied: bit flips change values, and gates declared
diagonal leave them alone, phases not being kept. Named gates act on sites
that hold zero or one, and are declined where a site holds more. Exchanges
are taken apart into bit flips, and measuring reads the values.
-/

namespace Qudit

namespace BasisState

open Acting

variable {R : Type} [Scalar R]

/-- Acting on a register that is a list of values. -/
abbrev Valued (R : Type) := Acting (List Nat) R

/-- The value at an axis. -/
def valueAt (axis : Nat) : Valued R Nat := do
  let values := (← get).register
  match values[axis]? with
  | some value => return value
  | none => refuse (.axisOutOfRange axis values.length)

/-- Exchanges zero and one at an axis. -/
def flipAt (axis : Nat) : Valued R Unit := do
  let values := (← get).register
  if axis < values.length then
    modify fun s => { s with register := values.modify axis fun v => v ^^^ 1 }
  else throw (.fault (.outOfRange axis values.length))

/-- Whether every control holds its configuration. -/
def triggered : List (Nat × Bool) → Valued R Bool
  | [] => return true
  | (axis, config) :: rest => do
    let value ← valueAt axis
    let others ← triggered rest
    return value == config.toNat && others

/-- Whether every site holds zero or one. The first that does not ends the
search. -/
def holdQubits : List Nat → Valued R Bool
  | [] => return true
  | axis :: rest => do
    if 2 ≤ (← valueAt axis) then return false else holdQubits rest

/-- Whether a gate is the bit flip. -/
def isFlip : Gate R → Bool
  | .x => true
  | _ => false

/-- Reads the values at the current axes. -/
def perform : Valued R (List Nat) := do
  (← axes).mapM valueAt

/-- Applies a bit flip or a diagonal gate. -/
def native (g : PlacedGate R) : Valued R Outcome := do
  if !isFlip g.gate && !g.gate.isDiagonal then return .notImplemented
  let axes ← axes
  if axes.length ≠ g.controls.length + g.targets.length then
    refuse (.axesMismatch (.gate g) (g.controls.length + g.targets.length) axes.length)
  checkDistinct axes
  let (controls, targets) ← orFault (splitAfter g.controls.length axes)
  let fires ← triggered (controls.zip g.configs)
  if g.gate.isNamed then
    if !(← holdQubits targets) then return .notImplemented
  if fires && isFlip g.gate then
    targets.forM flipAt
  return .applied

/-- **The representation of registers by one value per site.** -/
def representation : Representation (List Nat) R := ⟨perform, native⟩

end BasisState

end Qudit
