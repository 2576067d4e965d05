import Qudit.Text.Order

/-!
# Measurement logs

A **log** holds one record per key, in the order in which they were made. A
key is recorded once: what acts on a register asks `Log.contains` before it
adds a record.
-/

namespace Qudit

/-- **The records of measurements**, by key. -/
structure Log where
  /-- The records, in the order in which they were made. -/
  entries : List (String × List Nat)

namespace Log

/-- The log without records. -/
def empty : Log := ⟨[]⟩

/-- The record under a key. -/
def get? (log : Log) (key : String) : Option (List Nat) := log.entries.lookup key

/-- Whether there is a record under a key. -/
def contains (log : Log) (key : String) : Bool := (log.get? key).isSome

/-- The log with one more record. -/
def add (log : Log) (key : String) (bits : List Nat) : Log := ⟨log.entries ++ [(key, bits)]⟩

/-- The keys, in the order of the records. -/
def keys (log : Log) : List String := log.entries.map fun e => e.1

/-- The records sorted by key. -/
def sorted (log : Log) : List (String × List Nat) :=
  log.entries.foldl (fun acc e => Text.insertSorted e.1 e.2 acc) []

end Log

end Qudit
