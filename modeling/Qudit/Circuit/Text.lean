import Qudit.Circuit.Basic
import Qudit.Operation.Text

/-!
# The text of a circuit

A circuit is written as the number of its sites and one line per operation.
-/

namespace Qudit

/-- A circuit, line by line. -/
def Circuit.text (c : Circuit Float) : String :=
  s!"nqubits: {c.numSites}\n" ++ String.join (c.operations.map fun op => s!"  {op.text}\n")

/-- What is said of a sequence of operations that is no circuit. -/
def CircuitError.message : CircuitError Float → String
  | .configLength controls configs =>
    s!"control_configs length ({configs}) does not match control_locs length ({controls})"
  | .siteOutOfRange site numSites =>
    s!"location {site} is out of range (num_sites = {numSites})"
  | .duplicateSites sites repeated =>
    s!"locations {Text.bracketed repeated} appear more than once in {Text.bracketed sites}"
  | .overlap sites => s!"target_locs and control_locs overlap at locations: {Text.bracketed sites}"
  | .noTargets g => s!"gate {g.text} has no target locations"
  | .controlNotQubit site dim =>
    s!"control site at location {site} has dimension {dim} (must be 2)"
  | .targetNotQubit site dim =>
    s!"named gate target site at location {site} has dimension {dim} (must be 2)"
  | .matrixSize expected actual =>
    s!"gate matrix size {actual} does not match product of target site dimensions {expected}"
  | .duplicateKey key => s!"measurement key {Text.quoted key} is used more than once"
  | .qubitOutside label declared qubit =>
    s!"{label} declares qubits {Text.bracketed declared} but its body uses qubit {qubit}"
  | .gate e => e.message

end Qudit
