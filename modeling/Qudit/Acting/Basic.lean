import Qudit.Acting.Log
import Qudit.Deprecation.Notice
import Qudit.Operation.Basic
import Qudit.Source.Basic

/-!
# Acting on a register

Operations are applied one at a time in a **session**: a register in some
representation, the **axes** – the sites of the register that the qubits of
the current operation lie on, in the order of these qubits –, the log of
measurements and a random source. Acting either succeeds, or is refused for
a reason (`ActError`), or meets a fault; what was done before it ended
stays done (`Acting`).

A **representation** says how its register is measured at the current axes
and which placed gates it applies by itself; it may decline a gate. All else
is common to the representations. `measureInto` measures and records. An
operation that no representation applies as a whole is taken apart:
`inParts` lays the qubits of every part on the axes of the whole and applies
the parts in order, after which the axes are what they were. `act` tries the
representation first and the parts second, and refuses what neither applies.
-/

namespace Qudit

/-- **Why acting was refused.** -/
inductive ActError (R : Type) where
  /-- There is a record under the key already. -/
  | duplicateKey (key : String)
  /-- An invert mask has another length than the measured bits. -/
  | maskLength (mask bits : Nat)
  /-- There are more or fewer axes than the operation has qubits. -/
  | axesMismatch (op : Operation R) (qubits axes : Nat)
  /-- A part of a decomposed operation has a qubit that the whole has not. -/
  | unmappedQubit (op : Operation R) (qubit : Nat)
  /-- Some site is among the axes twice. -/
  | duplicateAxes (axes : List Nat)
  /-- An axis is no site of the register. -/
  | axisOutOfRange (axis sites : Nat)
  /-- A matrix has another size than the target sites together. -/
  | gateSize (expected actual : Nat)
  /-- Neither the representation nor a decomposition applies the
  operation. -/
  | cannotActOn (op : Operation R)
  /-- The representation refuses, for a reason of its own. -/
  | refused (reason : String)
  /-- The gate has no matrix over its sites. -/
  | gate (e : GateError R)
  /-- A deprecated way of recording was refused. -/
  | deprecation (e : DeprecationError)

/-- How acting ends where it does not succeed. -/
inductive Failure (R : Type) where
  /-- It is refused. -/
  | error (e : ActError R)
  /-- It meets a fault. -/
  | fault (f : Fault)

/-- **A register with what acting on it needs.** -/
structure Session (σ : Type) where
  /-- The register. -/
  register : σ
  /-- The sites that the qubits of the current operation lie on. -/
  axes : List Nat
  /-- The measurements recorded so far. -/
  log : Log
  /-- The random source. -/
  source : Source

/-- **Acting on a register.** A failure leaves the session as it is by
then. -/
abbrev Acting (σ R : Type) := EStateM (Failure R) (Session σ)

/-- Whether a strategy applied an operation or declined it. -/
inductive Outcome where
  /-- The operation is applied. -/
  | applied
  /-- Nothing was done. -/
  | notImplemented
  deriving DecidableEq

/-- **A representation of registers.** -/
structure Representation (σ R : Type) where
  /-- Measures the current axes. -/
  perform : Acting σ R (List Nat)
  /-- Applies a placed gate at the current axes, or declines it. -/
  native : PlacedGate R → Acting σ R Outcome

/-- Whether every site is listed once. -/
def allDistinct : List Nat → Bool
  | [] => true
  | a :: as => !as.contains a && allDistinct as

/-- Inverts an outcome. Only zero and one have an inverse. -/
def invertBit (bit : Nat) (inverted : Bool) : Nat :=
  if inverted && Nat.blt bit 2 then 1 - bit else bit

/-- **Inverts the outcomes that the mask marks.** -/
def applyMask {R : Type} (bits : List Nat) (mask : List Bool) :
    Except (ActError R) (List Nat) :=
  if bits.length ≠ mask.length then .error (.maskLength mask.length bits.length)
  else .ok (List.zipWith invertBit bits mask)

namespace Acting

variable {σ R α : Type}

/-- Refuses. -/
def refuse (e : ActError R) : Acting σ R α := throw (.error e)

/-- A result computed beside the session. -/
def ofExcept : Except (ActError R) α → Acting σ R α
  | .ok a => pure a
  | .error e => refuse e

/-- A result computed beside the session, where a fault ends acting. -/
def orFault : Except Fault α → Acting σ R α
  | .ok a => pure a
  | .error f => throw (.fault f)

/-- The current axes. -/
def axes : Acting σ R (List Nat) := do return (← get).axes

/-- Sets the axes. -/
def setAxes (axes : List Nat) : Acting σ R Unit := modify fun s => { s with axes }

/-- **Runs something and puts the axes back**, however it ends. -/
def restoringAxes (run : Acting σ R α) : Acting σ R α := fun s =>
  match run s with
  | .ok a s' => .ok a { s' with axes := s.axes }
  | .error e s' => .error e { s' with axes := s.axes }

/-- Fails unless every axis is a site of its own. -/
def checkDistinct (axes : List Nat) : Acting σ R Unit := do
  if !allDistinct axes then refuse (.duplicateAxes axes)

end Acting

open Acting

variable {σ R : Type}

/-- **Measures the current axes and records the outcome under a key**, with
the outcomes that the mask marks inverted. The key has to be new and the mask
as long as the axes, and both are checked before anything is measured. -/
def measureInto (rep : Representation σ R) (key : String) (mask : List Bool) :
    Acting σ R Unit := do
  if (← get).log.contains key then refuse (.duplicateKey key)
  let axes ← axes
  if mask.length ≠ axes.length then refuse (.maskLength mask.length axes.length)
  let bits ← rep.perform
  let corrected ← ofExcept (applyMask bits mask)
  modify fun s => { s with log := s.log.add key corrected }

/-- The axis that a qubit lies on, when the qubits lie on the axes in order.
A qubit listed twice lies on the later axis. -/
def axisOf (qubits axes : List Nat) (qubit : Nat) : Option Nat :=
  (qubits.zip axes).reverse.lookup qubit

/-- The axes of an operation whose qubits are among `qubits`, which lie on
`axes`. -/
def axesOf (qubits axes : List Nat) (op : Operation R) : Except (ActError R) (List Nat) :=
  op.qubits.mapM fun qubit =>
    match axisOf qubits axes qubit with
    | some axis => .ok axis
    | none => .error (.unmappedQubit op qubit)

/-- Applies one part of an operation, on the axes of its qubits. -/
def onPart (qubits axes : List Nat) (part : Operation R) (run : Acting σ R Unit) :
    Acting σ R Unit := do
  setAxes (← ofExcept (axesOf qubits axes part))
  run

/-- **Applies an operation by its parts**, each given with what applying it
does. -/
def inParts (op : Operation R) (parts : List (Operation R × Acting σ R Unit)) :
    Acting σ R Outcome := do
  let axes ← axes
  if op.qubits.length ≠ axes.length then
    refuse (.axesMismatch op op.qubits.length axes.length)
  checkDistinct axes
  restoringAxes (parts.forM fun p => onPart op.qubits axes p.1 p.2)
  return .applied

/-- What a representation does with an operation that does not record
itself, when `rest` is what taking the operation apart does. -/
def fallbackBy (rep : Representation σ R) (op : Operation R) (rest : Acting σ R Outcome) :
    Acting σ R Outcome :=
  match op with
  | .gate g => do
    match ← rep.native g with
    | .applied => return .applied
    | .notImplemented => rest
  | _ => rest

/-- What acting with an operation does, when `rest` is what taking it apart
does. -/
def actBy (rep : Representation σ R) (op : Operation R) (rest : Acting σ R Outcome) :
    Acting σ R Unit :=
  match op with
  | .measure m => do
    let axes ← axes
    if m.qubits.length ≠ axes.length then
      refuse (.axesMismatch (.measure m) m.qubits.length axes.length)
    measureInto rep m.key m.mask
  | op => do
    match ← fallbackBy rep op rest with
    | .applied => return ()
    | .notImplemented => refuse (.cannotActOn op)

mutual

/-- **Takes an operation apart**, or declines one that has no parts. The
parts of an exchange are bit flips, which have none themselves. -/
def byParts (rep : Representation σ R) : Operation R → Acting σ R Outcome
  | .gate g =>
    match g.parts with
    | some flips =>
      inParts (.gate g) (flips.map fun f =>
        (.gate f, actBy rep (.gate f) (return .notImplemented)))
    | none => return .notImplemented
  | .measure _ => return .notImplemented
  | .composite label qubits body => inParts (.composite label qubits body) (actions rep body)

/-- The operations of a sequence, each with what acting with it does. -/
def actions (rep : Representation σ R) :
    List (Operation R) → List (Operation R × Acting σ R Unit)
  | [] => []
  | op :: ops => (op, actBy rep op (byParts rep op)) :: actions rep ops

end

/-- What a representation does with an operation that does not record
itself: it applies it, or takes it apart, or declines it. -/
def fallback (rep : Representation σ R) (op : Operation R) : Acting σ R Outcome :=
  fallbackBy rep op (byParts rep op)

/-- **Acts with an operation on the register of a session.** -/
def act (rep : Representation σ R) (op : Operation R) : Acting σ R Unit :=
  actBy rep op (byParts rep op)

end Qudit
