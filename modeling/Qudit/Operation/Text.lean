import Qudit.Gate.Text
import Qudit.Operation.Basic
import Qudit.Text.Quoted

/-!
# The text of an operation

An operation is written as what it does and the qubits it does it to, the
controls of a gate before the gate.
-/

namespace Qudit

/-- Qubits as they appear in a circuit. -/
def qubitsText (qubits : List Nat) : String := "q" ++ Text.bracketed qubits

/-- An operation as it appears in a circuit. -/
def Operation.text : Operation Float → String
  | .gate g =>
    if g.controls.isEmpty then s!"{g.gate.text} @ {qubitsText g.targets}"
    else s!"C({qubitsText g.controls}) {g.gate.text} @ {qubitsText g.targets}"
  | .measure m => s!"M({Text.quoted m.key}) @ {qubitsText m.qubits}"
  | .composite label qubits _ => s!"{label} @ {qubitsText qubits}"

/-- What is said of a mask that does not fit. -/
def MaskTooLong.message (e : MaskTooLong) : String :=
  s!"invert mask of length {e.maskLength} is longer than the {e.numQubits} measured qubits of "
    ++ Text.quoted e.key

end Qudit
