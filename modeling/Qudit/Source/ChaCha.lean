import Qudit.Source.Basic

/-!
# Seeded sources

A seed of 64 bits determines a whole stream. A linear congruential generator
with permuted output spreads the seed over a key of eight 32-bit words
(`ChaCha.keyOfSeed`), and the key drives a ChaCha stream of twelve rounds
whose blocks are numbered from zero (`ChaCha.block`). A 64-bit word of the
source is two consecutive words of the stream, the low one first.
-/

namespace Qudit

namespace ChaCha

/-- One step of the congruential generator. -/
def advance (s : UInt64) : UInt64 := s * 6364136223846793005 + 11634580027462260723

/-- Rotation to the right. -/
def rotateRight (x : UInt32) (k : UInt32) : UInt32 := x >>> k ||| x <<< (32 - k)

/-- Rotation to the left. -/
def rotateLeft (x : UInt32) (k : UInt32) : UInt32 := x <<< k ||| x >>> (32 - k)

/-- The output of the congruential generator: its state shifted upon itself,
and turned by its own five highest bits. -/
def output (s : UInt64) : UInt32 :=
  rotateRight (((s >>> 18 ^^^ s) >>> 27).toUInt32) (s >>> 59).toUInt32

/-- The first `n` outputs from a state on. -/
def outputs : Nat → UInt64 → List UInt32
  | 0, _ => []
  | n + 1, s => output (advance s) :: outputs n (advance s)

/-- The key that a seed is spread over. -/
def keyOfSeed (seed : UInt64) : List UInt32 := outputs 8 seed

/-- The sixteen words that a block is computed from and consists of. -/
abbrev Words := Vector UInt32 16

/-- Adds, mixes and turns the words at four places. -/
def quarterRound (a b c d : Fin 16) (v : Words) : Words :=
  let v := v.set a (v[a] + v[b])
  let v := v.set d (rotateLeft (v[d] ^^^ v[a]) 16)
  let v := v.set c (v[c] + v[d])
  let v := v.set b (rotateLeft (v[b] ^^^ v[c]) 12)
  let v := v.set a (v[a] + v[b])
  let v := v.set d (rotateLeft (v[d] ^^^ v[a]) 8)
  let v := v.set c (v[c] + v[d])
  v.set b (rotateLeft (v[b] ^^^ v[c]) 7)

/-- A round over the columns of the four by four square and one over its
diagonals. -/
def doubleRound (v : Words) : Words :=
  let v := quarterRound 0 4 8 12 v
  let v := quarterRound 1 5 9 13 v
  let v := quarterRound 2 6 10 14 v
  let v := quarterRound 3 7 11 15 v
  let v := quarterRound 0 5 10 15 v
  let v := quarterRound 1 6 11 12 v
  let v := quarterRound 2 7 8 13 v
  quarterRound 3 4 9 14 v

/-- The words a block is computed from: four constants, the key, the number
of the block in two words, and two words of zero. -/
def start (key : List UInt32) (number : UInt64) : Words :=
  let constants : List UInt32 := [0x61707865, 0x3320646e, 0x79622d32, 0x6b206574]
  let counter : List UInt32 := [number.toUInt32, (number >>> 32).toUInt32, 0, 0]
  Vector.ofFn fun i =>
    (constants ++ (List.range 8).map (fun k => key.getD k 0) ++ counter).getD i.val 0

/-- **A block of the stream**: twelve rounds, added to what they started
from. -/
def block (key : List UInt32) (number : UInt64) : Words :=
  let first := start key number
  let last := Nat.repeat doubleRound 6 first
  Vector.zipWith (fun a b => a + b) first last

/-- The 64-bit word of the stream with the given number. -/
def word (key : List UInt32) (k : Nat) : UInt64 :=
  let words := block key (UInt64.ofNat (k / 8))
  let low : Fin 16 := ⟨2 * (k % 8), by omega⟩
  let high : Fin 16 := ⟨2 * (k % 8) + 1, by omega⟩
  words[high].toUInt64 <<< 32 ||| words[low].toUInt64

end ChaCha

/-- **The source that a seed determines.** -/
def Source.ofSeed (seed : UInt64) : Source :=
  let key := ChaCha.keyOfSeed seed
  ⟨ChaCha.word key, 0⟩

end Qudit
