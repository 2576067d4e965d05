import Qudit.Deprecation.Annotation

/-!
# Scripts of deprecated uses

A **script** is a sequence of uses, changes of the policy and nested scopes
– with a policy of their own, or capturing the warnings given in them. What
a use does after its report is a script again, a **procedure** making a
value of the replies to it. The replies have the same nesting. Running a
script is running its commands from left to right on one registry:
`Script.run`.
-/

namespace Qudit

/-- **The reply to a command.** -/
inductive Reply (β : Type) where
  /-- The replies to what a use has done, and its value or why it was
  refused. -/
  | used (replies : List (Reply β)) (result : Except DeprecationError β)
  /-- The policy in effect. -/
  | policy (p : Policy)
  /-- The replies of a scope with a policy of its own. -/
  | within (replies : List (Reply β))
  /-- The replies of a capture, and the warnings it collected. -/
  | captured (replies : List (Reply β)) (warnings : List Warning)

/-- **What a wrapped function does**: commands `γ`, and a value made of the
replies to them. -/
structure Procedure (γ β : Type) where
  /-- The commands, in order. -/
  commands : List γ
  /-- The value. -/
  value : List (Reply β) → β

/-- **A command of a script** whose uses have values in `β`. -/
inductive Command (β : Type) where
  /-- A use at a site, of something that may be deprecated. -/
  | use (u : Use (Procedure (Command β) β)) (site : String)
  /-- Asks for the policy in effect. -/
  | policy
  /-- Sets the policy for all, and asks for the one in effect. -/
  | setPolicy (p : Policy)
  /-- Runs commands with a policy of their own. -/
  | within (p : Policy) (body : List (Command β))
  /-- Runs commands and collects their warnings. -/
  | capture (body : List (Command β))

variable {β : Type}

mutual

/-- Runs a command. -/
def Command.run : Command β → Reporting (Reply β)
  | .use ⟨notice, ⟨commands, value⟩⟩ site => do
    let action : Reporting (List (Reply β) × β) := do
      let replies ← Script.run commands
      return (replies, value replies)
    match ← Use.run ⟨notice, action⟩ site with
    | .ok (replies, b) => return .used replies (.ok b)
    | .error e => return .used [] (.error e)
  | .policy => do return .policy (← Registry.policy)
  | .setPolicy p => do
    Registry.setPolicy p
    return .policy (← Registry.policy)
  | .within p body => do return .within (← Reporting.within p (Script.run body))
  | .capture body => do
    let result ← Reporting.capture (Script.run body)
    return .captured result.1 result.2

/-- **Runs the commands of a script in order.** -/
def Script.run : List (Command β) → Reporting (List (Reply β))
  | [] => return []
  | c :: cs => do
    let reply ← c.run
    let replies ← Script.run cs
    return reply :: replies

end

namespace Procedure

/-- The procedure that has a value and does nothing else. -/
def giving (b : β) : Procedure (Command β) β := ⟨[], fun _ => b⟩

/-- **Runs a procedure.** -/
def run (p : Procedure (Command β) β) : Reporting β := do
  let replies ← Script.run p.commands
  return p.value replies

end Procedure

end Qudit
