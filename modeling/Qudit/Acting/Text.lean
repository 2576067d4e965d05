import Qudit.Acting.Basic
import Qudit.Operation.Text

/-!
# The text of a refusal

A refusal names the operation it is about by the text that the operation has
in a circuit, and quotes keys. What a gate or a notice of deprecation says
for itself is passed on unchanged.
-/

namespace Qudit

/-- What is said of a refusal. -/
def ActError.message : ActError Float → String
  | .duplicateKey key => s!"measurement already logged to key {Text.quoted key}"
  | .maskLength mask bits => s!"invert mask of length {mask} does not match {bits} measured bits"
  | .axesMismatch op qubits axes =>
    s!"{op.text} acts on {qubits} qubits but {axes} axes are in scope"
  | .unmappedQubit op qubit =>
    s!"qubit {qubit} of {op.text} is not a qubit of the decomposed operation"
  | .duplicateAxes axes => s!"axes {Text.bracketed axes} name the same site more than once"
  | .axisOutOfRange axis sites =>
    s!"axis {axis} is out of range for a state with {sites} sites"
  | .gateSize expected actual =>
    s!"gate matrix size {actual} does not match product of target site dimensions {expected}"
  | .cannotActOn op => s!"no strategy can act on {op.text}"
  | .refused reason => s!"no strategy can act on {reason}"
  | .gate e => e.message
  | .deprecation e => e.message

end Qudit
