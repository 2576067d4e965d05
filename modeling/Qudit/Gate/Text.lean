import Qudit.Gate.Basic
import Qudit.Text.Fixed

/-!
# The text of a gate

A gate is written by its name, with the angle it turns by if it has one, or
by its label.
-/

namespace Qudit

/-- A gate as it appears in a circuit. -/
def Gate.text : Gate Float → String
  | .x => "X"
  | .y => "Y"
  | .z => "Z"
  | .h => "H"
  | .s => "S"
  | .t => "T"
  | .swap => "SWAP"
  | .phase θ => s!"Phase({Text.fixed4 θ})"
  | .rx θ => s!"Rx({Text.fixed4 θ})"
  | .ry θ => s!"Ry({Text.fixed4 θ})"
  | .rz θ => s!"Rz({Text.fixed4 θ})"
  | .custom _ _ label => label

/-- What is said of a gate without a matrix or a number of sites. -/
def GateError.message : GateError Float → String
  | .namedDimension gate dim => s!"named gate {gate.text} only supports d=2, got d={dim}"
  | .notSquare rows cols => s!"custom gate matrix must be square, got {rows}x{cols}"
  | .notAPower size dim => s!"matrix dimension {size} is not a power of d={dim}"

end Qudit
