import Qudit.Deprecation.Notice

/-!
# Reporting deprecated uses

A **registry** holds what decides the outcome of a deprecated use and what
uses leave behind: the policy set for all, the override of the innermost
scope, the lists of the captures that are open, the messages that have been
warned of once, and everything logged.

`Registry.report` is the outcome of one use. The policy in effect is the
override, else the one set for all, else the one the environment asks for
(`Registry.policy`). A use is refused under the policy `error` unless a
capture is open; a **warning** – the notice and the site of the use – goes to
the log and, if a capture is open, to the innermost one. `Reporting.within`
and `Reporting.capture` run a computation in a scope and leave the override
and the open captures as they found them.
-/

namespace Qudit

/-- **A warning of a deprecated use.** -/
structure Warning where
  /-- The notice about what was used. -/
  notice : Notice
  /-- Where it was used. -/
  site : String
  deriving DecidableEq

/-- **An entry of the log.** -/
inductive LogEntry where
  /-- A deprecated use was warned of. -/
  | warning (w : Warning)
  /-- The environment asks for an unknown policy, and `warn` takes its
  place. -/
  | fallback (cause : DeprecationError)

/-- **What deprecated uses depend on and leave behind.** -/
structure Registry where
  /-- The environment's setting of the policy. -/
  setting : Option String := none
  /-- The policy set for all. -/
  global : Option Policy := none
  /-- The policy of the innermost scope that sets one. -/
  override : Option Policy := none
  /-- The warnings of the captures that are open, innermost first and the
  latest warning first. -/
  captures : List (List Warning) := []
  /-- The messages warned of under `warnOnce`. -/
  emitted : List String := []
  /-- What was logged, the latest entry first. -/
  logged : List LogEntry := []

/-- A computation that deprecated uses are reported in. -/
abbrev Reporting := StateM Registry

namespace Registry

/-- The policy the environment asks for, with the entry that is logged where
it is unknown. -/
def fromSetting (setting : Option String) : Policy × List LogEntry :=
  match Policy.ofSetting setting with
  | .ok p => (p, [])
  | .error cause => (.warn, [.fallback cause])

/-- **The policy in effect.** The environment is asked once, when neither a
scope nor anyone has set a policy before. -/
def policy : Reporting Policy := fun r =>
  match r.override with
  | some p => (p, r)
  | none =>
    match r.global with
    | some p => (p, r)
    | none =>
      let asked := fromSetting r.setting
      (asked.1, { r with global := some asked.1, logged := asked.2 ++ r.logged })

/-- Sets the policy for all. -/
def setPolicy (p : Policy) : Reporting Unit := fun r => ((), { r with global := some p })

/-- Adds a warning to the innermost capture, if one is open. -/
def addToCapture (w : Warning) : List (List Warning) → List (List Warning)
  | [] => []
  | inner :: outer => (w :: inner) :: outer

/-- Logs a warning, and hands it to the innermost capture. -/
def emit (w : Warning) : Reporting Unit := fun r =>
  ((), { r with
    logged := .warning w :: r.logged
    captures := addToCapture w r.captures })

/-- **Reports a use of what a notice is about**, which stands at `site`. -/
def report (notice : Notice) (site : String) : Reporting (Except DeprecationError Unit) := do
  let capturing := !(← get).captures.isEmpty
  match ← policy with
  | .error =>
    if capturing then
      emit ⟨notice, site⟩
      return .ok ()
    else return .error (.deprecatedUse notice site)
  | .warnOnce =>
    if (← get).emitted.contains notice.message then return .ok ()
    else
      modify fun r => { r with emitted := notice.message :: r.emitted }
      emit ⟨notice, site⟩
      return .ok ()
  | .warn =>
    emit ⟨notice, site⟩
    return .ok ()

end Registry

namespace Reporting

variable {α : Type}

/-- **Runs a computation with a policy of its own.** -/
def within (p : Policy) (run : Reporting α) : Reporting α := fun r =>
  let result := run { r with override := some p }
  (result.1, { result.2 with override := r.override })

/-- **Runs a computation and collects its warnings**, in the order in which
they were given. -/
def capture (run : Reporting α) : Reporting (α × List Warning) := fun r =>
  let result := run { r with captures := [] :: r.captures }
  ((result.1, (result.2.captures.headD []).reverse),
    { result.2 with captures := result.2.captures.drop 1 })

end Reporting

end Qudit
