/-!
# Faults

The arithmetic of a register is defined on part of its arguments only: a
site has to exist before its value can be read, a number has no digits
over a site of dimension zero, and a vector of amplitudes has as many
entries as the register has basis states. A text, likewise, is cut between
two of its characters. A **fault** says which of these preconditions a
caller did not meet. It is not one of the refusals a computation may answer
with (those are the errors of gates, circuits and acting); it marks the
place where there is nothing to compute.
-/

namespace Qudit

/-- **A precondition that was not met.** -/
inductive Fault where
  /-- Position `index` was asked of a sequence of `size` entries. -/
  | outOfRange (index size : Nat)
  /-- A number was to be written in digits over a site of dimension zero. -/
  | zeroDimension
  /-- A state was given `count` amplitudes for `total` basis states. -/
  | amplitudeCount (count total : Nat)
  /-- A product state was given more or fewer levels than sites. -/
  | levelCount
  /-- A product state was given a level that its site does not have. -/
  | levelOutOfRange (site level dim : Nat)
  /-- A collapse was given more or fewer values than sites. -/
  | valueCount
  /-- A text was to be cut at places that are not places between its
  characters, or not in this order. -/
  | textCut (start stop : Nat)
  deriving DecidableEq

/-- What is said of a fault in the arguments of a state or of a collapse.
A position out of range, a dimension of zero and a text that cannot be cut
go without words. -/
def Fault.message : Fault → Option String
  | .outOfRange _ _ | .zeroDimension | .textCut _ _ => none
  | .amplitudeCount count total =>
    some s!"data length {count} does not match product of dims {total}"
  | .levelCount => some "dims and levels must have the same length"
  | .levelOutOfRange site level dim =>
    some s!"level[{site}] = {level} is out of range for dim = {dim}"
  | .valueCount => some "locs and values must have the same length"

/-- The entry at a position, or the fault that there is none. -/
def entryAt {α : Type} (xs : List α) (i : Nat) : Except Fault α :=
  match xs[i]? with
  | some a => .ok a
  | none => .error (.outOfRange i xs.length)

/-- The first `n` entries and the ones after them, or the fault that there are
fewer. -/
def splitAfter {α : Type} (n : Nat) (xs : List α) : Except Fault (List α × List α) :=
  if n ≤ xs.length then .ok (xs.take n, xs.drop n) else .error (.outOfRange n xs.length)

/-- The entries that pass a test, in order. The test may meet a fault, and
the first one it meets is the result. -/
def select {α : Type} (test : α → Except Fault Bool) : List α → Except Fault (List α)
  | [] => .ok []
  | a :: as =>
    match test a with
    | .error e => .error e
    | .ok keep =>
      match select test as with
      | .error e => .error e
      | .ok rest => .ok (if keep then a :: rest else rest)

/-- A position in range is read. -/
theorem entryAt_of_lt {α : Type} {xs : List α} {i : Nat} (h : i < xs.length) :
    entryAt xs i = .ok xs[i] := by
  simp [entryAt, h]

/-- A list is split at a place that it has. -/
theorem splitAfter_of_le {α : Type} {n : Nat} {xs : List α} (h : n ≤ xs.length) :
    splitAfter n xs = .ok (xs.take n, xs.drop n) := by
  simp [splitAfter, h]

/-- A test that meets no fault selects as a filter does. -/
theorem select_eq_filter {α : Type} {test : α → Except Fault Bool} {keep : α → Bool}
    {xs : List α} (h : ∀ a ∈ xs, test a = .ok (keep a)) :
    select test xs = .ok (xs.filter keep) := by
  induction xs with
  | nil => rfl
  | cons a as ih =>
    simp only [select, h a (by simp), ih (fun b hb => h b (by simp [hb]))]
    cases hk : keep a <;> simp [hk]

/-- A test that always has an answer selects the entries that pass it. -/
theorem exists_select {α : Type} {test : α → Except Fault Bool} {xs : List α}
    (h : ∀ a ∈ xs, ∃ answer, test a = .ok answer) :
    ∃ ys, select test xs = .ok ys ∧ ∀ a ∈ ys, a ∈ xs ∧ test a = .ok true := by
  have htest : ∀ a ∈ xs, test a = .ok (test a matches .ok true) := by
    intro a ha
    obtain ⟨answer, hanswer⟩ := h a ha
    rw [hanswer]
    cases answer <;> rfl
  refine ⟨_, select_eq_filter htest, fun a ha => ?_⟩
  obtain ⟨ha, hpass⟩ := List.mem_filter.mp ha
  exact ⟨ha, (htest a ha).trans (congrArg Except.ok hpass)⟩

end Qudit
