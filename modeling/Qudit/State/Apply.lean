import Qudit.Kernel
import Qudit.State.Basic

/-!
# Computations on a register state

A computation on the amplitudes of a register is one on its state: the
dimensions stay as they are. `State.apply` is a local operator seen this
way, for amplitudes that are complex numbers or of any other kind that the
kernel can work on.
-/

namespace Qudit

/-- An entry contributes nothing when its squared modulus is zero. -/
instance {R : Type} [Scalar R] : Negligible (Amplitude R) := ⟨fun z => z.normSq == 0⟩

/-- A computation on a state. A fault ends it and leaves the state as it is
by then. -/
abbrev OnState (α : Type) := EStateM Fault (State α)

namespace State

variable {α β : Type}

/-- Runs a computation on the amplitudes. -/
def inPlace (run : (dims : List Nat) → InPlace α (Radix.total dims) β) : OnState α β := fun s =>
  match run s.dims s.amps with
  | .ok b amps => .ok b ⟨s.dims, amps⟩
  | .error e amps => .error e ⟨s.dims, amps⟩

/-- **Applies a matrix on target sites of a state, conditioned on control
sites.** -/
def apply [Zero α] [Add α] [Mul α] [Negligible α] (m : Mat α) (targets controls : List Nat)
    (configs : List Bool) : OnState α Unit :=
  inPlace fun dims => Kernel.apply dims m targets controls configs

end State

end Qudit
