import Qudit.State.Apply

/-!
# Marginal weights

The **weight** of an outcome at some sites is the sum of the squared moduli
of the amplitudes whose digits at these sites are the outcome; in a state of
norm one it is the probability of the outcome. The sites may be listed in
any order and more than once, and the outcomes are laid out row-major in the
order of the list: `State.marginal`.
-/

namespace Qudit.State

variable {R : Type} [Scalar R]

/-- Adds a weight to one of several sums, or meets the fault that there is no
such sum. -/
def addAt (bins : Array R) (i : Nat) (weight : R) : Except Fault (Array R) :=
  if i < bins.size then .ok (bins.modify i fun w => w + weight)
  else .error (.outOfRange i bins.size)

/-- **The weight of every outcome at `sites`.** Each amplitude adds to the
outcome it belongs to, in order of position. -/
def marginal (s : State (Amplitude R)) (sites : List Nat) : Except Fault (List R) := do
  let dims ← sites.mapM (entryAt s.dims)
  let bins ← (List.finRange (Radix.total s.dims)).foldlM
    (fun bins k =>
      addAt bins (Radix.index (Radix.restrict (Radix.digits k.val s.dims) sites) dims)
        s.amps[k].normSq)
    (Array.replicate (Radix.total dims) 0)
  return bins.toList

/-- The weights of all basis states, or of the outcomes at some sites. -/
def probs (s : State (Amplitude R)) : Option (List Nat) → Except Fault (List R)
  | none => .ok s.weights
  | some sites => s.marginal sites

end Qudit.State
