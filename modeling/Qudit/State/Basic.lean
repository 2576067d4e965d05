import Qudit.Amplitude
import Qudit.Radix

/-!
# Register states

A **state** of a register holds one amplitude per basis state, at the
position that `Radix.index` gives it. The amplitudes are a vector of that
length, so every state has the right number of them; the functions that
build a state from outside say what is wrong with arguments that do not fit
(`State.ofAmplitudes`, `State.product`).

A state need not be of norm one: nothing that acts on it asks for it.
-/

namespace Qudit

/-- **A state of a register** with sites of the dimensions `dims`. -/
structure State (α : Type) where
  /-- The dimension of each site. -/
  dims : List Nat
  /-- The amplitude at each position. -/
  amps : Vector α (Radix.total dims)

namespace State

variable {α : Type}

/-- The number of sites. -/
def numSites (s : State α) : Nat := s.dims.length

/-- The number of basis states. -/
def size (s : State α) : Nat := Radix.total s.dims

/-- The state with the given amplitudes. -/
def ofAmplitudes (dims : List Nat) (amps : Array α) : Except Fault (State α) :=
  if h : amps.size = Radix.total dims then .ok ⟨dims, ⟨amps, h⟩⟩
  else .error (.amplitudeCount amps.size (Radix.total dims))

/-- The first site whose level it does not have, sites counted from `site`. -/
def firstBadLevel (site : Nat) : List (Nat × Nat) → Option Fault
  | [] => none
  | (level, dim) :: rest =>
    if level < dim then firstBadLevel (site + 1) rest
    else some (.levelOutOfRange site level dim)

/-- The amplitudes of the basis state at a position: one there, and zero
elsewhere. -/
def atPosition [Zero α] [One α] (dims : List Nat) (k : Nat) : State α :=
  ⟨dims, Vector.ofFn fun i => if i.val = k then 1 else 0⟩

/-- **The basis state in which each site holds its level.** -/
def product [Zero α] [One α] (dims levels : List Nat) : Except Fault (State α) :=
  if dims.length ≠ levels.length then .error .levelCount
  else
    match firstBadLevel 0 (levels.zip dims) with
    | some fault => .error fault
    | none => .ok (atPosition dims (Radix.index levels dims))

/-- The basis state in which each site holds zero. -/
def zero [Zero α] [One α] (dims : List Nat) : Except Fault (State α) :=
  product dims (List.replicate dims.length 0)

/-- The squared moduli of the amplitudes, in order of position. -/
def weights {R : Type} [Scalar R] (s : State (Amplitude R)) : List R :=
  s.amps.toList.map Amplitude.normSq

/-- The norm: the square root of the sum of the squared moduli. -/
def norm {R : Type} [Scalar R] (s : State (Amplitude R)) : R :=
  Scalar.sqrt (Scalar.sum s.weights)

end State

end Qudit
