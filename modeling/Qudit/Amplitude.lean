import Qudit.Scalar

/-!
# Amplitudes

An **amplitude** is a complex number given by its two parts. The operations
are the plain ones, part by part: no case is treated apart, so infinities
and NaN go through the formulas as any other scalar does.
-/

namespace Qudit

/-- **A complex number**, by its real and imaginary parts. -/
structure Amplitude (R : Type) where
  /-- The real part. -/
  re : R
  /-- The imaginary part. -/
  im : R
  deriving BEq

namespace Amplitude

variable {R : Type} [Scalar R]

instance : Zero (Amplitude R) := ⟨⟨0, 0⟩⟩

instance : One (Amplitude R) := ⟨⟨1, 0⟩⟩

instance : Add (Amplitude R) := ⟨fun z w => ⟨z.re + w.re, z.im + w.im⟩⟩

instance : Neg (Amplitude R) := ⟨fun z => ⟨-z.re, -z.im⟩⟩

instance : Mul (Amplitude R) :=
  ⟨fun z w => ⟨z.re * w.re - z.im * w.im, z.re * w.im + z.im * w.re⟩⟩

/-- The imaginary unit. -/
def i : Amplitude R := ⟨0, 1⟩

/-- A real number as an amplitude. -/
def ofReal (x : R) : Amplitude R := ⟨x, 0⟩

/-- The amplitude of modulus one at an angle. -/
def ofAngle (θ : R) : Amplitude R := ⟨Scalar.cos θ, Scalar.sin θ⟩

/-- The complex conjugate. -/
def conj (z : Amplitude R) : Amplitude R := ⟨z.re, -z.im⟩

/-- The squared modulus. -/
def normSq (z : Amplitude R) : R := z.re * z.re + z.im * z.im

/-- Division of both parts by a real number. -/
def divReal (z : Amplitude R) (x : R) : Amplitude R := ⟨z.re / x, z.im / x⟩

/-- Whether both parts are zero. -/
def isZero (z : Amplitude R) : Bool := z.re == 0 && z.im == 0

end Amplitude

end Qudit
