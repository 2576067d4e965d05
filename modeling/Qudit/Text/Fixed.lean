/-!
# Numbers with four places

An angle is written with four places after the point, rounded from its exact
value, a half going to the even neighbour. A double is `m · 2 ^ e` for whole
numbers `m` and `e` (`Text.mantissa`, `Text.exponent`), so the rounding is
one of a quotient of natural numbers (`Text.roundEven`). The sign is kept
also where the digits are all zero.
-/

namespace Qudit.Text

/-- The quotient rounded to the nearest whole number, a half to the even
one. -/
def roundEven (num den : Nat) : Nat :=
  let q := num / den
  let r := num % den
  if 2 * r < den then q
  else if den < 2 * r then q + 1
  else if q % 2 = 0 then q else q + 1

/-- The bits below the sign and the exponent. -/
def fraction (bits : UInt64) : Nat := bits.toNat % 0x10000000000000

/-- The eleven bits of the exponent. -/
def biased (bits : UInt64) : Nat := bits.toNat / 0x10000000000000 % 0x800

/-- Whether the sign bit is set. -/
def negative (bits : UInt64) : Bool := Nat.ble 0x8000000000000000 bits.toNat

/-- The whole number that a finite double is a multiple of a power of two
of. -/
def mantissa (bits : UInt64) : Nat :=
  if biased bits = 0 then fraction bits else 0x10000000000000 + fraction bits

/-- The exponent of that power of two. -/
def exponent (bits : UInt64) : Int :=
  if biased bits = 0 then -1074 else (biased bits : Int) - 1075

/-- The magnitude of a finite double in units of the fourth place. -/
def tenThousandths (bits : UInt64) : Nat :=
  roundEven ((mantissa bits <<< (exponent bits).toNat) * 10000) (1 <<< (-exponent bits).toNat)

/-- **A double with four places after the point.** -/
def fixed4 (x : Float) : String :=
  let bits := x.toBits
  if biased bits = 2047 then
    if fraction bits = 0 then (if negative bits then "-inf" else "inf") else "NaN"
  else
    let n := tenThousandths bits
    let places := toString (10000 + n % 10000)
    (if negative bits then "-" else "") ++ toString (n / 10000) ++ "."
      ++ String.ofList (places.toList.drop 1)

end Qudit.Text
