import Qudit.Proofs.Deprecation.Outcome

/-!
# The uses that a run of a script comes to

A script nests its uses in scopes and in what other uses do, and the replies to it are nested
the same way. What holds of every use of a run is said of the list of its **visits**
(`Script.visits`): each use, in the order in which they are reported, with the registry that
the run comes to it with and with the place where the use stands.

The place, a `Place`, is read off what the run has passed and not off the registry: the policy
of the innermost scope that sets one, the policy set for all last, and the captures around. The
first and the last end with their scopes, but a policy set for all within a scope stays set
after it; so what was run before a use counts for it wherever it stands. What a refused use
would have done is not run and does not count. Captures are numbered in the order in which they
are opened, which is also the order in which the replies show what they collected
(`Reply.allCollected`).

Everything is stated of scripts, a single command being the script of that command alone,
so that an induction over the nesting (`Script.induction`) has one statement to carry.
-/

namespace Qudit

variable {β : Type}

/-! ## What replies show -/

mutual

/-- The results of the uses that a reply shows. -/
@[simp] def Reply.results : Reply β → List (Except DeprecationError β)
  | .used replies result => result :: Reply.allResults replies
  | .policy _ => []
  | .within replies => Reply.allResults replies
  | .captured replies _ => Reply.allResults replies

/-- **The results of the uses that replies show**, in the order in which they were
reported. -/
@[simp] def Reply.allResults : List (Reply β) → List (Except DeprecationError β)
  | [] => []
  | reply :: replies => reply.results ++ Reply.allResults replies

end

mutual

/-- The lists of warnings that a reply shows. -/
@[simp] def Reply.collected : Reply β → List (List Warning)
  | .used replies _ => Reply.allCollected replies
  | .policy _ => []
  | .within replies => Reply.allCollected replies
  | .captured replies warnings => warnings :: Reply.allCollected replies

/-- **The lists of warnings that replies show**, one for each capture, in the order in
which the captures were opened. -/
@[simp] def Reply.allCollected : List (Reply β) → List (List Warning)
  | [] => []
  | reply :: replies => reply.collected ++ Reply.allCollected replies

end

namespace Reply

theorem allResults_append (as bs : List (Reply β)) :
    allResults (as ++ bs) = allResults as ++ allResults bs := by
  induction as with
  | nil => rfl
  | cons a as ih => simp [ih]

theorem allCollected_append (as bs : List (Reply β)) :
    allCollected (as ++ bs) = allCollected as ++ allCollected bs := by
  induction as with
  | nil => rfl
  | cons a as ih => simp [ih]

end Reply

/-! ## The place of a use -/

/-- **Where a command stands in a run.** -/
structure Place where
  /-- The policy of the innermost scope around that sets one. -/
  within : Option Policy := none
  /-- The policy that was set for all last. -/
  lastSet : Option Policy := none
  /-- The numbers of the captures around, the innermost first. -/
  captures : List Nat := []
  /-- How many captures were opened before. -/
  opened : Nat := 0

namespace Place

/-- The place in a scope that sets a policy. -/
def inside (x : Place) (p : Policy) : Place := { x with within := some p }

/-- The place in a capture that is opened here. -/
def capturing (x : Place) : Place :=
  { x with captures := x.opened :: x.captures, opened := x.opened + 1 }

variable (x : Place) (p : Policy)

@[simp] theorem captures_inside : (x.inside p).captures = x.captures := rfl

@[simp] theorem opened_inside : (x.inside p).opened = x.opened := rfl

@[simp] theorem captures_capturing : x.capturing.captures = x.opened :: x.captures := rfl

@[simp] theorem opened_capturing : x.capturing.opened = x.opened + 1 := rfl

end Place

/-! ## Visits -/

/-- **A use that a run comes to.** -/
structure Visit (β : Type) where
  /-- The use. -/
  use : Use (Procedure (Command β) β)
  /-- Its site. -/
  site : String
  /-- Where it stands in the run. -/
  place : Place
  /-- The registry that the run comes to it with. -/
  registry : Registry

namespace Visit

variable (v : Visit β)

/-- The registry that the report of the use leaves. -/
def reported : Registry := (v.use.report v.site v.registry).2

/-- **What the use comes to**: its value, or why it is refused. -/
def result : Except DeprecationError β :=
  ((v.use.map Procedure.run).run v.site v.registry).1

/-- The registry that the use leaves, with all that it does. -/
def after : Registry := ((v.use.map Procedure.run).run v.site v.registry).2

end Visit

mutual

/-- The uses that the run of a command comes to, which stands at a place and is run with a
registry, and the place after it. -/
def Command.walk : Command β → Place → Registry → List (Visit β) × Place
  | .use ⟨notice, ⟨commands, value⟩⟩ site, x, r =>
    let use : Use (Procedure (Command β) β) := ⟨notice, ⟨commands, value⟩⟩
    match use.report site r with
    | (.ok _, t) =>
      (⟨use, site, x, r⟩ :: (Script.walk commands x t).1, (Script.walk commands x t).2)
    | (.error _, _) => ([⟨use, site, x, r⟩], x)
  | .policy, x, _ => ([], x)
  | .setPolicy p, x, _ => ([], { x with lastSet := some p })
  | .within p body, x, r =>
    let inner := Script.walk body (x.inside p) { r with override := some p }
    (inner.1, { inner.2 with within := x.within })
  | .capture body, x, r =>
    let inner := Script.walk body x.capturing { r with captures := [] :: r.captures }
    (inner.1, { inner.2 with captures := x.captures })

/-- The uses that the run of a script comes to, and the place after it. -/
def Script.walk : List (Command β) → Place → Registry → List (Visit β) × Place
  | [], x, _ => ([], x)
  | c :: cs, x, r =>
    let first := c.walk x r
    let rest := Script.walk cs first.2 (c.run r).2
    (first.1 ++ rest.1, rest.2)

end

namespace Script

/-- **The uses that the run of a script comes to**, in the order in which they are
reported. -/
def visits (cs : List (Command β)) (x : Place) (r : Registry) : List (Visit β) := (walk cs x r).1

/-- **The place after a script**: what its run has passed counts, and its scopes have
ended. -/
def passed (cs : List (Command β)) (x : Place) (r : Registry) : Place := (walk cs x r).2

/-! ## Scripts one command at a time -/

/-- **Induction over the nesting of scripts**: a single command of every kind, and a
command before a script. -/
@[elab_as_elim]
theorem induction {Q : List (Command β) → Prop} (nil : Q [])
    (cons : ∀ c cs, Q [c] → Q cs → Q (c :: cs))
    (use : ∀ u site, Q u.body.commands → Q [.use u site])
    (policy : Q [.policy]) (setPolicy : ∀ p, Q [.setPolicy p])
    (within : ∀ p body, Q body → Q [.within p body])
    (capture : ∀ body, Q body → Q [.capture body]) (cs : List (Command β)) : Q cs :=
  @Command.rec_2 β (fun c => Q [c]) (fun u => Q u.body.commands) Q (fun p => Q p.commands) use
    policy
    setPolicy within capture (fun _ _ h => h) nil cons (fun _ _ h => h) cs

variable (c : Command β) (cs body : List (Command β)) (u : Use (Procedure (Command β) β))
  (site : String) (p : Policy) (x : Place) (r : Registry)

@[simp] theorem run_nil : run ([] : List (Command β)) r = ([], r) := rfl

theorem run_cons : run (c :: cs) r =
    ((run [c] r).1 ++ (run cs (run [c] r).2).1, (run cs (run [c] r).2).2) := rfl

@[simp] theorem run_policy :
    run ([.policy] : List (Command β)) r = ([.policy r.policy.1], r.policy.2) := rfl

@[simp] theorem run_setPolicy : run ([.setPolicy p] : List (Command β)) r =
    ([.policy (r.override.getD p)], { r with global := some p }) := by
  show ([Reply.policy (Registry.policy { r with global := some p }).1],
    (Registry.policy { r with global := some p }).2) = _
  unfold Registry.policy
  cases r.override <;> rfl

@[simp] theorem run_within : run [.within p body] r =
    ([.within (run body { r with override := some p }).1],
      { (run body { r with override := some p }).2 with override := r.override }) := rfl

@[simp] theorem run_capture : run [.capture body] r =
    ([.captured (run body { r with captures := [] :: r.captures }).1
        ((run body { r with captures := [] :: r.captures }).2.captures.headD []).reverse],
      { (run body { r with captures := [] :: r.captures }).2 with
        captures := (run body { r with captures := [] :: r.captures }).2.captures.drop 1 }) :=
  rfl

@[simp] theorem visits_nil : visits ([] : List (Command β)) x r = [] := rfl

@[simp] theorem passed_nil : passed ([] : List (Command β)) x r = x := rfl

theorem visits_cons :
    visits (c :: cs) x r = visits [c] x r ++ visits cs (passed [c] x r) (run [c] r).2 := by
  show (c.walk x r).1 ++ _ = ((c.walk x r).1 ++ []) ++ _
  rw [List.append_nil]
  rfl

theorem passed_cons :
    passed (c :: cs) x r = passed cs (passed [c] x r) (run [c] r).2 := rfl

@[simp] theorem visits_policy : visits ([.policy] : List (Command β)) x r = [] := rfl

@[simp] theorem passed_policy : passed ([.policy] : List (Command β)) x r = x := rfl

@[simp] theorem visits_setPolicy : visits ([.setPolicy p] : List (Command β)) x r = [] := rfl

@[simp] theorem passed_setPolicy :
    passed ([.setPolicy p] : List (Command β)) x r = { x with lastSet := some p } := rfl

@[simp] theorem visits_within : visits [.within p body] x r =
    visits body (x.inside p) { r with override := some p } :=
  List.append_nil _

@[simp] theorem passed_within : passed [.within p body] x r =
    { passed body (x.inside p) { r with override := some p } with within := x.within } := rfl

@[simp] theorem visits_capture : visits [.capture body] x r =
    visits body x.capturing { r with captures := [] :: r.captures } :=
  List.append_nil _

@[simp] theorem passed_capture : passed [.capture body] x r =
    { passed body x.capturing { r with captures := [] :: r.captures } with
      captures := x.captures } := rfl

/-! ### Uses -/

variable {u site r} {t : Registry} {e : DeprecationError}

/-- What a use does after its report, with the replies to it. -/
def replying (p : Procedure (Command β) β) : Reporting (List (Reply β) × β) := fun t =>
  (((run p.commands t).1, p.value (run p.commands t).1), (run p.commands t).2)

theorem run_use : run [.use u site] r = match (u.map replying).run site r with
    | (.ok (replies, b), t) => ([.used replies (.ok b)], t)
    | (.error e, t) => ([.used [] (.error e)], t) := by
  obtain ⟨notice, commands, value⟩ := u
  show StateT.run (run [.use ⟨notice, commands, value⟩ site]) r = match
    StateT.run (Use.run ⟨notice, replying ⟨commands, value⟩⟩ site) r with
    | (.ok (replies, b), t) => ([.used replies (.ok b)], t)
    | (.error e, t) => ([.used [] (.error e)], t)
  have hbody : (do let replies ← run commands; return (replies, value replies))
      = replying ⟨commands, value⟩ := rfl
  simp only [run, Command.run, StateT.run_bind, bind_assoc, hbody]
  rcases StateT.run (Use.run ⟨notice, replying ⟨commands, value⟩⟩ site) r with ⟨_ | ⟨replies, b⟩, t⟩
  · rfl
  · rfl

/-- **A use that is not refused** does after its report what there is to be done. -/
theorem run_use_of_ok (h : u.report site r = (.ok u.body, t)) : run [.use u site] r =
    ([.used (run u.body.commands t).1 (.ok (u.body.value (run u.body.commands t).1))],
      (run u.body.commands t).2) := by
  have hreport : (u.map replying).report site r = (.ok (u.map replying).body, t) := by
    rw [Use.report_map, h]
    rfl
  rw [run_use, Use.run_of_ok hreport]
  rfl

theorem run_use_of_error (h : u.report site r = (.error e, t)) :
    run [.use u site] r = ([.used [] (.error e)], t) := by
  have hreport : (u.map replying).report site r = (.error e, t) := by
    rw [Use.report_map, h]
    rfl
  rw [run_use, Use.run_of_error hreport]

theorem visits_use_of_ok (h : u.report site r = (.ok u.body, t)) :
    visits [.use u site] x r = ⟨u, site, x, r⟩ :: visits u.body.commands x t := by
  obtain ⟨notice, commands, value⟩ := u
  show (Command.walk _ x r).1 ++ [] = _
  rw [List.append_nil, Command.walk, h]
  rfl

theorem passed_use_of_ok (h : u.report site r = (.ok u.body, t)) :
    passed [.use u site] x r = passed u.body.commands x t := by
  obtain ⟨notice, commands, value⟩ := u
  show (Command.walk _ x r).2 = _
  rw [Command.walk, h]
  rfl

theorem visits_use_of_error (h : u.report site r = (.error e, t)) :
    visits [.use u site] x r = [⟨u, site, x, r⟩] := by
  obtain ⟨notice, commands, value⟩ := u
  show (Command.walk _ x r).1 ++ [] = _
  rw [List.append_nil, Command.walk, h]

theorem passed_use_of_error (h : u.report site r = (.error e, t)) :
    passed [.use u site] x r = x := by
  obtain ⟨notice, commands, value⟩ := u
  show (Command.walk _ x r).2 = _
  rw [Command.walk, h]

end Script

namespace Visit

variable {v : Visit β} {t : Registry} {e : DeprecationError}

/-- A use that is not refused has the value that its procedure has, run from the registry that
the report leaves. -/
theorem run_of_ok (h : v.use.report v.site v.registry = (.ok v.use.body, t)) :
    v.result = .ok (v.use.body.value (Script.run v.use.body.commands t).1) ∧
      v.after = (Script.run v.use.body.commands t).2 := by
  have hreport : (v.use.map Procedure.run).report v.site v.registry
      = (.ok (v.use.map Procedure.run).body, t) := by
    rw [Use.report_map, h]
    rfl
  rw [result, after, Use.run_of_ok hreport]
  exact ⟨rfl, rfl⟩

/-- A use that is refused has no value, and leaves the registry as the report does. -/
theorem run_of_error (h : v.use.report v.site v.registry = (.error e, t)) :
    v.result = .error e ∧ v.after = t := by
  have hreport : (v.use.map Procedure.run).report v.site v.registry = (.error e, t) := by
    rw [Use.report_map, h]
    rfl
  rw [result, after, Use.run_of_error hreport]
  exact ⟨rfl, rfl⟩

end Visit

/-- **The replies to a script show the results of the uses that its run comes to.** -/
theorem Script.allResults_run (cs : List (Command β)) (x : Place) (r : Registry) :
    Reply.allResults (run cs r).1 = (visits cs x r).map Visit.result := by
  induction cs using Script.induction generalizing x r with
  | nil => rfl
  | cons c cs hc hcs =>
    rw [run_cons, visits_cons, List.map_append, ← hc, ← hcs, Reply.allResults_append]
  | use u site ih =>
    obtain ⟨t, h⟩ | ⟨e, t, h⟩ := u.report_cases site r
    · have hresult := (Visit.run_of_ok (v := ⟨u, site, x, r⟩) h).1
      rw [run_use_of_ok h, visits_use_of_ok x h, List.map_cons, hresult, ← ih]
      simp
    · have hresult := (Visit.run_of_error (v := ⟨u, site, x, r⟩) h).1
      rw [run_use_of_error h, visits_use_of_error x h, List.map_singleton, hresult]
      rfl
  | policy => rfl
  | setPolicy p => rfl
  | within p body ih => simpa using ih (x.inside p) { r with override := some p }
  | capture body ih => simpa using ih x.capturing { r with captures := [] :: r.captures }

/-! ## The warnings of a visit -/

namespace Visit

variable (v : Visit β)

/-- **The warnings that a visit gives**, in order: what its report adds to the log. -/
def given : List Warning :=
  (v.reported.warnings.take (v.reported.warnings.length - v.registry.warnings.length)).reverse

theorem outcome : v.use.Outcome v.site v.registry (v.use.report v.site v.registry).1 v.reported :=
  v.use.report_outcome v.site v.registry

variable {v} in
theorem given_of_warnings {ws : List Warning}
    (h : v.reported.warnings = ws.reverse ++ v.registry.warnings) : v.given = ws := by
  rw [given, h, List.length_append, Nat.add_sub_cancel, List.take_left, List.reverse_reverse]

variable {v} in
/-- **What a visit gives**, if it is one to what a notice is about. -/
theorem given_eq {n : Notice} (hn : v.use.notice = some n) : v.given =
    if v.registry.policy.1 = .error ∧ v.registry.captures = [] ∨
      v.registry.policy.1 = .warnOnce ∧ n.message ∈ v.registry.emitted then []
    else [⟨n, v.site⟩] := by
  refine given_of_warnings ?_
  rw [v.outcome.warnings_eq hn]
  split <;> rfl

/-- What a visit gives is about its own use, and is given at most once. -/
theorem given_sublist : v.given.Sublist (v.use.warning v.site).toList := by
  obtain ⟨ws, hsub, hw, -⟩ := v.outcome.exists_warnings
  rwa [given_of_warnings hw]

variable {v} in
/-- A visit to what is not deprecated gives nothing. -/
theorem given_eq_nil (hn : v.use.notice = none) : v.given = [] := by
  have hsub := v.given_sublist
  rw [Use.warning, hn] at hsub
  exact List.sublist_nil.mp hsub

theorem warnings_reported : v.reported.warnings = v.given.reverse ++ v.registry.warnings := by
  obtain ⟨ws, -, hw, -⟩ := v.outcome.exists_warnings
  rw [given_of_warnings hw, hw]

/-- **The innermost capture receives what a visit gives.** -/
theorem captures_reported :
    v.reported.captures = Registry.addAll v.given v.registry.captures := by
  obtain ⟨ws, -, hw, hc⟩ := v.outcome.exists_warnings
  rw [given_of_warnings hw, hc]

end Visit

end Qudit
