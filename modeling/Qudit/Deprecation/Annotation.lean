import Qudit.Deprecation.Registry
import Qudit.Text.Order

/-!
# Deprecated functions, parameters, types and attributes

What is deprecated is wrapped with its notice. A wrapper turns what it is
used with into a **use**: what is to be done, and the notice that stands
before it, if this use is a deprecated one. `Use.report` reports the use and
hands out what is to be done unless the use is refused, and `Use.run` does
it then, after the report.

A function is deprecated in every use, a parameter where the arguments match
it – they are adapted then –, a type whenever it is made, and a module by
attribute: asking for a deprecated attribute counts also where the module
has no such attribute. A wrapped function may do anything that can be done
with a registry, uses of its own included, so nothing is asked here of what
it gives; an attribute is a value that is just there.
-/

namespace Qudit

/-- **A use of something that may be deprecated.** -/
structure Use (γ : Type) where
  /-- The notice that stands before it. -/
  notice : Option Notice
  /-- What is to be done after the notice. -/
  body : γ

namespace Use

variable {β γ δ : Type}

/-- The use, with something else to be done after the notice. -/
def map (f : γ → δ) (u : Use γ) : Use δ := ⟨u.notice, f u.body⟩

/-- **Reports a use at a site**, and hands out what is to be done unless the
use is refused. -/
def report (u : Use γ) (site : String) : Reporting (Except DeprecationError γ) := do
  match u.notice with
  | none => return .ok u.body
  | some notice =>
    match ← Registry.report notice site with
    | .ok () => return .ok u.body
    | .error e => return .error e

/-- **Reports a use, and then does what is to be done**, unless the use is
refused. -/
def run (u : Use (Reporting β)) (site : String) : Reporting (Except DeprecationError β) := do
  match ← u.report site with
  | .ok action => return .ok (← action)
  | .error e => return .error e

end Use

/-- A function that is deprecated. -/
structure DeprecatedFunction (α γ : Type) where
  /-- The notice about the function. -/
  notice : Notice
  /-- The function. -/
  function : α → γ

/-- Calls a deprecated function. -/
def DeprecatedFunction.call {α γ : Type} (d : DeprecatedFunction α γ) (args : α) : Use γ :=
  ⟨some d.notice, d.function args⟩

/-- A function with a deprecated parameter. -/
structure DeprecatedParameter (α γ : Type) where
  /-- The notice about the parameter. -/
  notice : Notice
  /-- Whether arguments use the parameter. -/
  uses : α → Bool
  /-- Arguments to the same effect that do not use it. -/
  adapt : α → α
  /-- The function. -/
  function : α → γ

/-- Calls a function with a deprecated parameter. -/
def DeprecatedParameter.call {α γ : Type} (d : DeprecatedParameter α γ) (args : α) : Use γ :=
  if d.uses args then ⟨some d.notice, d.function (d.adapt args)⟩
  else ⟨none, d.function args⟩

/-- A type that is deprecated. -/
structure DeprecatedType (α γ : Type) where
  /-- The notice about the type. -/
  notice : Notice
  /-- The documentation of the type. -/
  docs : String
  /-- The function that makes a value of the type. -/
  make : α → γ

namespace DeprecatedType

variable {α γ : Type}

/-- Makes a value of a deprecated type. -/
def construct (d : DeprecatedType α γ) (args : α) : Use γ := ⟨some d.notice, d.make args⟩

/-- The documentation with the deprecation set before it. -/
def fullDocs (d : DeprecatedType α γ) : String :=
  "THIS TYPE IS DEPRECATED.\n\nIT WILL BE REMOVED IN `yao-sim " ++ d.notice.deadline.text
    ++ "`.\n\n" ++ d.notice.fix ++ "\n\n" ++ d.docs

end DeprecatedType

/-- **A module: named attributes**, sorted by name. -/
structure AttributeModule (β : Type) where
  /-- The name of the module. -/
  name : String
  /-- Its documentation. -/
  docs : String
  /-- Its attributes, by strictly increasing name. -/
  attributes : List (String × β)

namespace AttributeModule

variable {β : Type}

/-- The module without attributes. -/
def empty (name docs : String) : AttributeModule β := ⟨name, docs, []⟩

/-- The module with an attribute set. -/
def withAttribute (m : AttributeModule β) (name : String) (value : β) : AttributeModule β :=
  { m with attributes := Text.insertSorted name value m.attributes }

/-- The value of an attribute. -/
def get? (m : AttributeModule β) (name : String) : Option β := m.attributes.lookup name

/-- Whether there is an attribute of the name. -/
def contains (m : AttributeModule β) (name : String) : Bool := (m.get? name).isSome

end AttributeModule

/-- **A module some of whose attributes are deprecated.** -/
structure DeprecatedModule (β : Type) where
  /-- The module. -/
  base : AttributeModule β
  /-- The notices, by attribute, the latest first. The latest one for an
  attribute counts. -/
  notices : List (String × Notice)

namespace DeprecatedModule

variable {β : Type}

/-- Deprecates attributes of a module, each with its deadline and what to do
instead. The first deadline that is none is the error. -/
def ofAttributes (base : AttributeModule β) :
    List (String × String × String) → Except DeprecationError (DeprecatedModule β)
  | [] => .ok ⟨base, []⟩
  | (name, deadline, fix) :: rest => do
    let notice ← Notice.ofName deadline fix name
    let others ← ofAttributes base rest
    return { others with notices := others.notices ++ [(name, notice)] }

/-- The notice about an attribute, if it is deprecated. -/
def notice? (d : DeprecatedModule β) (name : String) : Option Notice := d.notices.lookup name

/-- Asks for an attribute. -/
def get (d : DeprecatedModule β) (name : String) : Use (Option β) :=
  ⟨d.notice? name, d.base.get? name⟩

end DeprecatedModule

end Qudit
