import Qudit.Gate.Basic

/-!
# Operations

An **operation** is a gate placed on qubits, a measurement recorded under a
key, or a composite: a labelled sequence of operations on the qubits it
declares. Qubits are numbers that name the sites of a register; where an
operation acts is decided when it is applied.

A measurement carries an invert mask. It is made with one entry per measured
qubit: `Measurement.withMask` pads a short mask and refuses a long one. The
qubits may be changed afterwards and the mask stays as it was made, so whoever
acts with a measurement has to look at the length of its mask again.

Composites and exchanges of two qubits stand for sequences of simpler
operations on the same qubits, `Operation.parts`. `Operation.keys` are the
keys that an operation records under, in the order of the records.
-/

namespace Qudit

/-- **A gate on target qubits, conditioned on control qubits.** -/
structure PlacedGate (R : Type) where
  /-- The gate. -/
  gate : Gate R
  /-- The qubits the gate acts on, in the order of its matrix. -/
  targets : List Nat
  /-- The qubits it is conditioned on. -/
  controls : List Nat
  /-- The value each control must hold: one for `true`, zero for `false`. -/
  configs : List Bool

/-- **A measurement of qubits, recorded under a key.** -/
structure Measurement where
  /-- The key of the record. -/
  key : String
  /-- The measured qubits. -/
  qubits : List Nat
  /-- Which outcomes are recorded inverted. -/
  mask : List Bool

/-- Why a mask does not fit a measurement: it has more entries than there
are qubits. -/
structure MaskTooLong where
  /-- The key of the measurement. -/
  key : String
  /-- The length of the mask. -/
  maskLength : Nat
  /-- The number of measured qubits. -/
  numQubits : Nat

/-- **An operation.** -/
inductive Operation (R : Type) where
  /-- A placed gate. -/
  | gate (g : PlacedGate R)
  /-- A measurement. -/
  | measure (m : Measurement)
  /-- A sequence of operations on the declared qubits, under a label. -/
  | composite (label : String) (qubits : List Nat) (body : List (Operation R))

namespace Measurement

/-- The measurement that records outcomes as they are. -/
def plain (key : String) (qubits : List Nat) : Measurement :=
  ⟨key, qubits, List.replicate qubits.length false⟩

/-- **The measurement with the given mask**, filled up with `false`. -/
def withMask (m : Measurement) (mask : List Bool) : Except MaskTooLong Measurement :=
  if mask.length ≤ m.qubits.length then
    .ok { m with mask := mask ++ List.replicate (m.qubits.length - mask.length) false }
  else .error ⟨m.key, mask.length, m.qubits.length⟩

end Measurement

namespace PlacedGate

variable {R : Type}

/-- The controls, then the targets. -/
def qubits (g : PlacedGate R) : List Nat := g.controls ++ g.targets

/-- A bit flip of one qubit under controls. -/
def flip (target : Nat) (controls : List Nat) (configs : List Bool) : PlacedGate R :=
  ⟨.x, [target], controls, configs⟩

/-- **An exchange of two qubits as three bit flips.** The controls of the
exchange condition the flip in the middle only. -/
def parts (g : PlacedGate R) : Option (List (PlacedGate R)) :=
  match g.gate, g.targets with
  | .swap, [a, b] =>
    some [flip a [b] [true], flip b (g.controls ++ [a]) (g.configs ++ [true]), flip a [b] [true]]
  | _, _ => none

end PlacedGate

namespace Operation

variable {R : Type}

/-- The qubits of an operation, in the order in which its axes are laid
out. -/
def qubits : Operation R → List Nat
  | gate g => g.qubits
  | measure m => m.qubits
  | composite _ qubits _ => qubits

/-- **The simpler operations that an operation stands for**, if it does. -/
def parts : Operation R → Option (List (Operation R))
  | gate g => g.parts.map (List.map gate)
  | measure _ => none
  | composite _ _ body => some body

mutual

/-- **The keys an operation records under**, in order. -/
def keys : Operation R → List String
  | gate _ => []
  | measure m => [m.key]
  | composite _ _ body => keysOfList body

/-- The keys a sequence of operations records under. -/
def keysOfList : List (Operation R) → List String
  | [] => []
  | op :: ops => op.keys ++ keysOfList ops

end

end Operation

end Qudit
