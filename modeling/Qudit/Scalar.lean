/-!
# Real scalars

Amplitudes, angles and probabilities are made of real numbers, and nothing
in the library depends on how these are represented: it asks for the field
operations, an order, the square root and the functions of an angle. A
computation runs over `Float`; statements of exact arithmetic read the same
definitions over the real numbers.

Two tests are part of the interface. `x == y` is how the scalar type itself
compares values – over `Float` a NaN differs from itself and the two zeros
agree – and `x < y` decides every comparison that steers a computation.
-/

namespace Qudit

/-- **A type of real scalars.** -/
class Scalar (R : Type) extends Zero R, One R, NatCast R, Add R, Sub R, Mul R, Div R, Neg R,
    LT R, BEq R where
  /-- Comparisons are decided. -/
  decidableLT : DecidableLT R
  /-- The square root. -/
  sqrt : R → R
  /-- The cosine of an angle in radians. -/
  cos : R → R
  /-- The sine of an angle in radians. -/
  sin : R → R
  /-- Half a turn, in radians. -/
  pi : R

namespace Scalar

variable {R : Type} [Scalar R]

instance : DecidableLT R := decidableLT

/-- One half. -/
def half : R := 1 / ((2 : Nat) : R)

/-- The square root of one half, the amplitude of an even superposition. -/
def sqrtHalf : R := sqrt half

/-- The sum of a list, from zero and from left to right. -/
def sum (xs : List R) : R := xs.foldl (fun acc x => acc + x) 0

end Scalar

/-- Binary floating point of double precision. -/
instance : Scalar Float where
  zero := 0
  one := 1
  natCast := Float.ofNat
  decidableLT := inferInstance
  sqrt := Float.sqrt
  cos := Float.cos
  sin := Float.sin
  pi := 3.14159265358979323846

end Qudit
