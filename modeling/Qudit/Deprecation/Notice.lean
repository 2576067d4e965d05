import Qudit.Deprecation.Deadline
import Qudit.Deprecation.Policy
import Qudit.Text.Quoted

/-!
# Notices of deprecation

A **notice** announces that something is deprecated: under which name, by
which deadline it goes, and what to do instead. Its `message` is what a
warning says, and two notices with one message are the same warning.
-/

namespace Qudit

/-- **A notice that something is deprecated.** -/
structure Notice where
  /-- The name of what is deprecated. -/
  name : String
  /-- What the message says was used. -/
  subject : String
  /-- The version by which it is removed. -/
  deadline : Deadline
  /-- What to do instead. -/
  fix : String
  deriving DecidableEq

/-- Why something to do with deprecation failed. -/
inductive DeprecationError where
  /-- A text is no deadline. -/
  | invalidDeadline (text : String)
  /-- What a notice is about was used, at a site, under a policy that
  refuses it. -/
  | deprecatedUse (notice : Notice) (site : String)
  /-- A text is no policy. -/
  | unknownPolicy (text : String)

/-- The deadline that a text spells, or the error that it spells none. -/
def Deadline.parse (s : String) : Except DeprecationError Deadline :=
  match Deadline.parse? s with
  | some d => .ok d
  | none => .error (.invalidDeadline s)

namespace Notice

/-- **The message of a notice.** -/
def message (n : Notice) : String :=
  s!"{n.subject} was used but is deprecated.\n"
    ++ s!"It will be removed in yao-sim {n.deadline.text}.\n{n.fix}\n"

/-- A notice about `subject` under a name. -/
def make (deadline fix name subject : String) : Except DeprecationError Notice :=
  (Deadline.parse deadline).map fun d => ⟨name, subject, d, fix⟩

/-- The notice about what has a name. -/
def ofName (deadline fix name : String) : Except DeprecationError Notice :=
  make deadline fix name name

/-- The notice about a parameter of a function. -/
def ofParameter (deadline fix function parameter : String) : Except DeprecationError Notice :=
  make deadline fix s!"{function}({parameter})" s!"The {parameter} parameter of {function}"

end Notice

/-- What is said of a failure to do with deprecation. -/
def DeprecationError.message : DeprecationError → String
  | .invalidDeadline text => s!"deadline should match vX.Y, got {Text.quoted text}"
  | .deprecatedUse notice site =>
    s!"yao-sim should not use deprecated functionality: {Text.trimEnd notice.message} (at {site})"
  | .unknownPolicy text =>
    s!"unknown deprecation policy {Text.quoted text}, expected warn, once or error"

/-- The policy that a text spells, or the error that it spells none. -/
def Policy.parse (s : String) : Except DeprecationError Policy :=
  match Policy.parse? s with
  | some p => .ok p
  | none => .error (.unknownPolicy (Policy.unknownText s))

/-- The policy that the environment asks for. Without a setting, every use
warns. -/
def Policy.ofSetting : Option String → Except DeprecationError Policy
  | some s => Policy.parse s
  | none => .ok .warn

end Qudit
