import Qudit.Source.Basic
import Qudit.State.Marginal

/-!
# Sampling outcomes

An outcome is drawn by running through the weights and stopping at the first
position where their running sum exceeds a random number between zero and
one (`pick`). Where the weights add up to less than the number, the last
position is taken. `State.sample` draws outcomes without touching the state.
-/

namespace Qudit

variable {R : Type} [Scalar R]

/-- The first position, counted from `i`, at which the running sum of the
weights, from `acc` on, exceeds `r`. -/
def firstAbove (r : R) (acc : R) (i : Nat) : List R → Option Nat
  | [] => none
  | w :: ws => if r < acc + w then some i else firstAbove r (acc + w) (i + 1) ws

/-- **The position that a random number picks among weights.** -/
def pick (weights : List R) (r : R) : Nat :=
  (firstAbove r 0 0 weights).getD (weights.length - 1)

namespace State

/-- The outcome that a random number picks among the weights of outcomes
over sites of the given dimensions. -/
def outcome (weights : List R) (dims : List Nat) (r : R) : Except Fault (List Nat) :=
  Radix.checkedDigits (pick weights r) dims

/-- Draws `shots` outcomes. -/
def drawOutcomes (weights : List R) (dims : List Nat) :
    Nat → EStateM Fault Source (List (List Nat))
  | 0 => pure []
  | shots + 1 => fun source =>
    match outcome weights dims source.nextUnit.1 with
    | .error e => .error e source.next.2
    | .ok values =>
      (do return values :: (← drawOutcomes weights dims shots)) source.next.2

/-- The dimensions of the listed sites, or of all sites. -/
def siteDims (s : State (Amplitude R)) : Option (List Nat) → Except Fault (List Nat)
  | none => .ok s.dims
  | some sites => sites.mapM (entryAt s.dims)

/-- **Draws `shots` outcomes at the listed sites, or at all of them,** and
leaves the state as it is. -/
def sample (s : State (Amplitude R)) (sites : Option (List Nat)) (shots : Nat) :
    EStateM Fault Source (List (List Nat)) := fun source =>
  match s.probs sites, s.siteDims sites with
  | .ok weights, .ok dims => drawOutcomes weights dims shots source
  | .error e, _ | _, .error e => .error e source

end State

end Qudit
