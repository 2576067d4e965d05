import Qudit.Operation.Basic
import Qudit.Radix

/-!
# Circuits

A **circuit** is a register, given by the dimensions of its sites, and a
sequence of operations on it. `Circuit.ofOperations` admits a sequence only
if every operation fits the register and no measurement key is used twice;
the first thing that is wrong, in the order of the sequence, is the error.

What fits is decided operation by operation. A gate needs as many
configurations as controls, sites that exist and are all distinct, a target,
controls that are qubits, targets that are qubits if it is a named gate, and
a matrix of the size of its targets. A measurement and a composite need
distinct sites that exist, and the operations within a composite need to fit
and to stay among the qubits it declares.
-/

namespace Qudit

/-- **A sequence of operations on a register.** -/
structure Circuit (R : Type) where
  /-- The dimension of each site. -/
  dims : List Nat
  /-- The operations, in order. -/
  operations : List (Operation R)

/-- Why a sequence of operations is no circuit on a register. -/
inductive CircuitError (R : Type) where
  /-- A gate has more or fewer configurations than controls. -/
  | configLength (controls configs : Nat)
  /-- A site does not exist. -/
  | siteOutOfRange (site numSites : Nat)
  /-- Sites are listed more than once. -/
  | duplicateSites (sites repeated : List Nat)
  /-- Sites are targets and controls. -/
  | overlap (sites : List Nat)
  /-- A gate has no target. -/
  | noTargets (gate : Gate R)
  /-- A control is no qubit. -/
  | controlNotQubit (site dim : Nat)
  /-- A target of a named gate is no qubit. -/
  | targetNotQubit (site dim : Nat)
  /-- A matrix has another size than the target sites together. -/
  | matrixSize (expected actual : Nat)
  /-- A measurement key is used twice. -/
  | duplicateKey (key : String)
  /-- An operation within a composite uses a qubit that this does not
  declare. -/
  | qubitOutside (label : String) (declared : List Nat) (qubit : Nat)
  /-- A gate has no matrix over its sites. -/
  | gate (e : GateError R)

namespace Circuit

variable {R : Type}

/-- Puts a number into an increasing list, unless it is there. -/
def insertOnce (a : Nat) : List Nat → List Nat
  | [] => [a]
  | b :: bs => if a < b then a :: b :: bs else if a = b then b :: bs else b :: insertOnce a bs

/-- The numbers that a list has more than once, in increasing order. -/
def repeated : List Nat → List Nat
  | [] => []
  | a :: as => if as.contains a then insertOnce a (repeated as) else repeated as

/-- Fails at the first site that does not exist. -/
def checkInRange (dims sites : List Nat) : Except (CircuitError R) Unit :=
  match sites.find? fun site => Nat.ble dims.length site with
  | some site => .error (.siteOutOfRange site dims.length)
  | none => .ok ()

/-- Fails if a site is listed more than once. -/
def checkDistinct (sites : List Nat) : Except (CircuitError R) Unit :=
  if (repeated sites).isEmpty then .ok () else .error (.duplicateSites sites (repeated sites))

/-- Fails at the first of the sites that is no qubit. -/
def checkQubits (error : Nat → Nat → CircuitError R) (dims : List Nat) :
    List Nat → Except (CircuitError R) Unit
  | [] => .ok ()
  | site :: rest =>
    if dims.getD site 0 = 2 then checkQubits error dims rest
    else .error (error site (dims.getD site 0))

/-- Fails unless the matrix of a gate has as many rows as its target sites
have basis states together. The dimension it is taken over is that of the
first target. -/
def checkMatrix [Scalar R] (dims : List Nat) (gate : Gate R) (first : Nat) (targets : List Nat) :
    Except (CircuitError R) Unit :=
  match gate.matrix (dims.getD first 0) with
  | .error e => .error (.gate e)
  | .ok matrix =>
    let expected := Radix.total (Radix.restrict dims targets)
    if matrix.rows = expected then .ok () else .error (.matrixSize expected matrix.rows)

/-- **Whether a placed gate fits a register.** -/
def checkGate [Scalar R] (dims : List Nat) (g : PlacedGate R) :
    Except (CircuitError R) Unit := do
  if g.configs.length ≠ g.controls.length then
    throw (.configLength g.controls.length g.configs.length)
  checkInRange dims g.targets
  checkInRange dims g.controls
  checkDistinct g.targets
  checkDistinct g.controls
  let shared := (g.controls.filter g.targets.contains).foldr insertOnce []
  if !shared.isEmpty then throw (.overlap shared)
  match g.targets.head? with
  | none => throw (.noTargets g.gate)
  | some first =>
    checkQubits .controlNotQubit dims g.controls
    if g.gate.isNamed then checkQubits .targetNotQubit dims g.targets
    checkMatrix dims g.gate first g.targets

mutual

/-- **Whether an operation fits a register.** -/
def check [Scalar R] (dims : List Nat) : Operation R → Except (CircuitError R) Unit
  | .gate g => checkGate dims g
  | .measure m => do
    checkInRange dims m.qubits
    checkDistinct m.qubits
  | .composite label qubits body => do
    checkInRange dims qubits
    checkDistinct qubits
    checkBody dims label qubits body

/-- Whether the operations within a composite fit, and stay among its
qubits. -/
def checkBody [Scalar R] (dims : List Nat) (label : String) (declared : List Nat) :
    List (Operation R) → Except (CircuitError R) Unit
  | [] => .ok ()
  | op :: ops => do
    match op.qubits.find? fun qubit => !declared.contains qubit with
    | some qubit => throw (.qubitOutside label declared qubit)
    | none => check dims op
    checkBody dims label declared ops

end

/-- The first entry of a list that an earlier one equals. -/
def firstRepeated (seen : List String) : List String → Option String
  | [] => none
  | key :: keys => if seen.contains key then some key else firstRepeated (key :: seen) keys

/-- The measurement keys of a circuit, in order. -/
def keys (c : Circuit R) : List String := Operation.keysOfList c.operations

/-- **The circuit of a sequence of operations on a register.** -/
def ofOperations [Scalar R] (dims : List Nat) (operations : List (Operation R)) :
    Except (CircuitError R) (Circuit R) := do
  operations.forM (check dims)
  match firstRepeated [] (Operation.keysOfList operations) with
  | some key => throw (.duplicateKey key)
  | none => return ⟨dims, operations⟩

/-- The number of sites. -/
def numSites (c : Circuit R) : Nat := c.dims.length

/-- The number of basis states. -/
def size (c : Circuit R) : Nat := Radix.total c.dims

end Circuit

end Qudit
