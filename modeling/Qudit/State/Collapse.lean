import Qudit.State.Sampling

/-!
# Collapse onto an outcome

Collapsing onto values at some sites drops the amplitudes whose digits
disagree with them, and divides what is left by its norm (`State.collapse`).
The division is left out where the norm is no larger than `tinyNorm`: what is
left is then as good as nothing. `State.measure` draws an outcome and
collapses onto it; `State.observe` is the same with the random number given.
-/

namespace Qudit.State

variable {R : Type} [Scalar R]

/-- The norm above which a collapsed state is brought to norm one. -/
def tinyNorm : R := 1 / ((1000000000000000 : Nat) : R)

/-- **Drops every amplitude whose digits are not `values` at `sites`,** and
gives the sum of the squared moduli of the others. -/
def project (sites values : List Nat) (dims : List Nat) :
    InPlace (Amplitude R) (Radix.total dims) R :=
  (List.range (Radix.total dims)).foldlM
    (fun weight k => do
      if ← InPlace.ofExcept (Radix.agrees (Radix.digits k dims) (sites.zip values)) then
        return weight + (← InPlace.read k).normSq
      else
        InPlace.write k 0
        return weight)
    0

/-- **Collapses a state onto values at sites.** -/
def collapse (sites values : List Nat) : OnState (Amplitude R) Unit := do
  if sites.length ≠ values.length then throw .valueCount
  let norm := Scalar.sqrt (← inPlace (project sites values))
  if tinyNorm < norm then
    inPlace fun _ amps => .ok () (amps.map fun z => z.divReal norm)

/-- Collapses a state onto the outcome at `sites` that a random number picks
among the weights of the outcomes. -/
def observe (sites : List Nat) (weights : List R) (dims : List Nat) (r : R) :
    OnState (Amplitude R) (List Nat) := fun s =>
  match outcome weights dims r with
  | .error e => .error e s
  | .ok values =>
    match collapse sites values s with
    | .error e s' => .error e s'
    | .ok () s' => .ok values s'

/-- **Draws an outcome at the listed sites, or at all of them, and collapses
the state onto it.** -/
def measure (sites : Option (List Nat)) :
    EStateM Fault (State (Amplitude R) × Source) (List Nat) := fun (s, source) =>
  let sites := sites.getD (List.range s.numSites)
  match s.marginal sites, s.siteDims (some sites) with
  | .error e, _ | _, .error e => .error e (s, source)
  | .ok weights, .ok dims =>
    match observe sites weights dims source.nextUnit.1 s with
    | .error e s' => .error e (s', source.next.2)
    | .ok values s' => .ok values (s', source.next.2)

end Qudit.State
