import Qudit.Radix

/-!
# Positions in machine words

Positions and strides are natural numbers of any size, and a machine
computes them in words of 64 bits. An `Arithmetic` is a way to add and
multiply that is told what to do with a result that is not a word:
`Arithmetic.checked` refuses it, and `Arithmetic.wrapping` drops what is
above the word.

The translations of `Radix` between digits and positions are written down
here for any arithmetic, as loops that make one sum or product after the
other. To write a position in digits is to divide only, which never leads
out of the words, so `Radix.checkedDigits` serves for every arithmetic.
-/

namespace Qudit

/-- **A way to add and to multiply numbers**, which may refuse to. -/
structure Arithmetic where
  /-- The sum of two numbers. -/
  add : Nat → Nat → Except Fault Nat
  /-- The product of two numbers. -/
  mul : Nat → Nat → Except Fault Nat

namespace Arithmetic

/-- A number that is a word of 64 bits, or the fault that it is not among
them. -/
def word? (n : Nat) : Except Fault Nat :=
  if n < UInt64.size then .ok n else .error (.outOfRange n UInt64.size)

/-- **Words that are checked**: a result that is not a word is refused. -/
def checked : Arithmetic where
  add a b := word? (a + b)
  mul a b := word? (a * b)

/-- **Words that wrap round**: of a result that is not a word the lowest 64
bits are kept. -/
def wrapping : Arithmetic where
  add a b := .ok (UInt64.ofNat a + UInt64.ofNat b).toNat
  mul a b := .ok (UInt64.ofNat a * UInt64.ofNat b).toNat

variable (A : Arithmetic)

/-- The product of the dimensions, from left to right. -/
def total (dims : List Nat) : Except Fault Nat := dims.foldlM A.mul 1

/-- The strides, from the last site to the first: each is the product of the
one after it and the dimension there. -/
def strides : List Nat → Except Fault (List Nat)
  | [] => .ok []
  | [_] => .ok [1]
  | _ :: d :: ds => do
    let rest ← strides (d :: ds)
    return (← A.mul (rest.headD 1) d) :: rest

/-- The position of the basis state with the given digits. What has been
read is multiplied by the next dimension before the next digit is added. -/
def index (values dims : List Nat) : Except Fault Nat :=
  (values.zip dims).foldlM (fun acc p => do A.add (← A.mul acc p.2) p.1) 0

/-- Every position with its digits, in order. -/
def basis (dims : List Nat) : Except Fault (List (Nat × List Nat)) := do
  (List.range (← A.total dims)).mapM fun k => do return (k, ← Radix.checkedDigits k dims)

end Arithmetic

end Qudit
