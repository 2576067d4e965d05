import Qudit.Mat
import Qudit.Radix

/-!
# Local operators on a vector of amplitudes

A matrix on a few **target** sites, conditioned on the values of some
**control** sites, acts on the amplitudes of a whole register block by
block. A block is the positions that differ on the targets only; it starts
where the targets hold zero (`Kernel.starts`), and the matrix' own basis
state `k` lies at `Kernel.offsets[k]` from that start. Only the blocks whose
controls hold their configuration are visited.

The amplitudes are changed in place (`InPlace`), one block after the other,
so that a computation that meets a fault has done what came before it.
`Kernel.multiply` gathers each block and multiplies it by the matrix;
`Kernel.scale` is the short cut for a matrix that is zero off its diagonal,
where each amplitude is only scaled. `Kernel.apply` chooses between the two.
All of it asks of amplitudes no more than a sum, a product and the test for
an entry that contributes nothing (`Negligible`).
-/

namespace Qudit

/-- **The test for a matrix entry that contributes nothing.** -/
class Negligible (α : Type) where
  /-- Whether the entry contributes nothing. -/
  negligible : α → Bool

/-- **A computation on `n` amplitudes in place.** A fault ends it and leaves
the amplitudes as they are by then. -/
abbrev InPlace (α : Type) (n : Nat) := EStateM Fault (Vector α n)

namespace InPlace

variable {α β : Type} {n : Nat}

/-- The amplitude at a position. -/
def read (i : Nat) : InPlace α n α := fun amps =>
  if h : i < n then .ok amps[i] amps else .error (.outOfRange i n) amps

/-- Replaces the amplitude at a position. -/
def write (i : Nat) (a : α) : InPlace α n Unit := fun amps =>
  if h : i < n then .ok () (amps.set i a) else .error (.outOfRange i n) amps

/-- A value computed beside the amplitudes. -/
def ofExcept : Except Fault β → InPlace α n β
  | .ok b => pure b
  | .error e => throw e

end InPlace

namespace Kernel

variable {α : Type} {n : Nat}

/-- How far the position moves when the sites `sites` go from zero to
`values`. -/
def offset (dims sites values : List Nat) : Nat :=
  (values.zip sites).foldl (fun acc p => acc + p.1 * (Radix.strides dims).getD p.2 0) 0

/-- The offset of every basis state of the target sites from the start of
its block, in the row-major order of the targets as listed. -/
def offsets (dims targets : List Nat) : Except Fault (List Nat) := do
  let targetDims ← targets.mapM (entryAt dims)
  return (Radix.basis targetDims).map fun p => offset dims targets p.2

/-- The start of every block: the positions where the targets hold zero and
the controls hold their configuration. -/
def starts (dims targets controls : List Nat) (configs : List Bool) : Except Fault (List Nat) :=
  Radix.matching dims (targets ++ controls)
    (List.replicate targets.length 0 ++ configs.map Bool.toNat)

section

variable [Zero α] [Add α] [Mul α]

/-- The product of a row of the matrix and a block of amplitudes, summed
from zero in the order of the columns. -/
def rowTimes (m : Mat α) (i : Nat) (block : List α) : Except Fault α :=
  block.zipIdx.foldlM (fun acc p => do return acc + (← m.entry? i p.2) * p.1) 0

/-- **Multiplies the amplitudes at `slots` by the matrix.** All of them are
read before the first is written. -/
def multiplyAt (m : Mat α) (slots : List Nat) : InPlace α n Unit := do
  let block ← slots.mapM InPlace.read
  slots.zipIdx.forM fun p => do
    InPlace.write p.1 (← InPlace.ofExcept (rowTimes m p.2 block))

/-- Multiplies every block by the matrix. -/
def multiply (m : Mat α) (offsets starts : List Nat) : InPlace α n Unit :=
  starts.forM fun start => multiplyAt m (offsets.map fun o => start + o)

/-- Scales one amplitude. -/
def scaleAt (i : Nat) (factor : α) : InPlace α n Unit := do
  InPlace.write i ((← InPlace.read i) * factor)

/-- Scales every block by the diagonal of the matrix. -/
def scale (m : Mat α) (offsets starts : List Nat) : InPlace α n Unit := do
  let diagonal ← InPlace.ofExcept ((List.range offsets.length).mapM fun k => m.entry? k k)
  starts.forM fun start =>
    (offsets.zip diagonal).forM fun p => scaleAt (start + p.1) p.2

/-- **Applies a matrix on the targets, conditioned on the controls.** -/
def apply [Negligible α] (dims : List Nat) (m : Mat α) (targets controls : List Nat)
    (configs : List Bool) : InPlace α (Radix.total dims) Unit := do
  let within ← InPlace.ofExcept (offsets dims targets)
  let blocks ← InPlace.ofExcept (starts dims targets controls configs)
  if m.offDiagonal Negligible.negligible then scale m within blocks
  else multiply m within blocks

end

end Kernel

end Qudit
