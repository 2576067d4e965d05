import Qudit.Scalar

/-!
# Random sources

A **source** is a stream of 64-bit words with the number of words already
taken from it. Drawing takes one word, so what a computation draws is a
function of the stream and of the place it has reached, and two computations
that draw the same words see the same outcomes.

A measurement needs a number between zero and one: `Source.unit` makes it of
the upper 53 bits of a word.
-/

namespace Qudit

/-- **A source of random words.** -/
structure Source where
  /-- The stream of words. -/
  word : Nat → UInt64
  /-- How many words have been taken. -/
  taken : Nat

namespace Source

/-- The source that replays the given words, and is zero after them. -/
def ofWords (words : Array UInt64) : Source := ⟨fun k => words.getD k 0, 0⟩

/-- **The next word, and the source after it.** -/
def next (s : Source) : UInt64 × Source := (s.word s.taken, { s with taken := s.taken + 1 })

/-- The number in the half-open interval from zero to one that a word
stands for: its upper 53 bits, as a fraction of their range. -/
def unit {R : Type} [Scalar R] (w : UInt64) : R :=
  (((w >>> 11).toNat : Nat) : R) / ((9007199254740992 : Nat) : R)

/-- A number between zero and one, and the source after it. -/
def nextUnit {R : Type} [Scalar R] (s : Source) : R × Source := (unit s.next.1, s.next.2)

/-- Drawing takes one word. -/
@[simp] theorem taken_next (s : Source) : s.next.2.taken = s.taken + 1 := rfl

/-- Drawing leaves the stream as it is. -/
@[simp] theorem word_next (s : Source) : s.next.2.word = s.word := rfl

end Source

end Qudit
