import Qudit.Deprecation.Script

/-!
# What one use comes to

A use without a notice is not reported, and leaves the registry as it is. The report of any
other use is **refused**, **silent** or **warned of** (`Use.Outcome`), and which of the three
it is depends on three things in the registry: the policy in effect, whether a capture is
open, and whether the message has been warned of under `warnOnce`. All that is shown of whole
runs is shown from this one case distinction (`Use.report_outcome`).

What is to be done is handed out by the report unless it is refused, and is done afterwards,
with the registry that the report leaves (`Use.run_of_ok`, `Use.run_of_error`). Which notice a
use has, and what there is to be done, is said once for all wrappers (`Use.Calls`).
-/

namespace Qudit

variable {β γ δ : Type}

/-! ## Registries -/

/-- The warning that a log entry is, if it is one. -/
def LogEntry.warning? : LogEntry → Option Warning
  | .warning w => some w
  | .fallback _ => none

namespace Registry

/-- **The warnings in the log**, the latest first. -/
def warnings (r : Registry) : List Warning := r.logged.filterMap LogEntry.warning?

/-- The registry once the policy in effect has been asked for. -/
def settled (r : Registry) : Registry := r.policy.2

/-- The registry once a message has been noted as warned of. -/
def noted (r : Registry) (m : String) : Registry := { r with emitted := m :: r.emitted }

/-- The registry once a warning has been given. -/
def warned (r : Registry) (w : Warning) : Registry := (emit w r).2

/-- **The captures once warnings were given**, in order: the innermost one has them, the
latest first. -/
def addAll (ws : List Warning) (captures : List (List Warning)) : List (List Warning) :=
  captures.modifyHead (ws.reverse ++ ·)

@[simp] theorem addAll_nil (captures : List (List Warning)) : addAll [] captures = captures := by
  cases captures <;> rfl

theorem addAll_append (ws ws' : List Warning) (captures : List (List Warning)) :
    addAll (ws ++ ws') captures = addAll ws' (addAll ws captures) := by
  simp [addAll, Function.comp_def]

theorem addAll_singleton (w : Warning) (captures : List (List Warning)) :
    addAll [w] captures = addToCapture w captures := by
  cases captures <;> rfl

/-- What the environment adds to the log is no warning. -/
theorem filterMap_fromSetting (s : Option String) :
    (fromSetting s).2.filterMap LogEntry.warning? = [] := by
  unfold fromSetting
  cases Policy.ofSetting s <;> rfl

/-- **Asking for the policy** changes nothing, or it records the one that the environment
asks for. -/
theorem settled_cases (r : Registry) :
    r.settled = r ∨ r.override = none ∧ r.global = none ∧
      r.settled = { r with
        global := some (fromSetting r.setting).1
        logged := (fromSetting r.setting).2 ++ r.logged } := by
  unfold settled policy
  cases hover : r.override with
  | some p => exact .inl rfl
  | none =>
    cases hglobal : r.global with
    | some p => exact .inl rfl
    | none => exact .inr ⟨rfl, rfl, rfl⟩

variable (r : Registry) (m : String) (n : Notice) (w : Warning)

@[simp] theorem settled_setting : r.settled.setting = r.setting := by
  obtain h | ⟨-, -, h⟩ := r.settled_cases <;> rw [h]

@[simp] theorem settled_override : r.settled.override = r.override := by
  obtain h | ⟨-, -, h⟩ := r.settled_cases <;> rw [h]

@[simp] theorem settled_captures : r.settled.captures = r.captures := by
  obtain h | ⟨-, -, h⟩ := r.settled_cases <;> rw [h]

@[simp] theorem settled_emitted : r.settled.emitted = r.emitted := by
  obtain h | ⟨-, -, h⟩ := r.settled_cases <;> rw [h]

@[simp] theorem settled_warnings : r.settled.warnings = r.warnings := by
  obtain h | ⟨-, -, h⟩ := r.settled_cases
  · rw [h]
  · rw [h, warnings, List.filterMap_append, filterMap_fromSetting, List.nil_append, warnings]

@[simp] theorem noted_setting : (r.noted m).setting = r.setting := rfl

@[simp] theorem noted_global : (r.noted m).global = r.global := rfl

@[simp] theorem noted_override : (r.noted m).override = r.override := rfl

@[simp] theorem noted_captures : (r.noted m).captures = r.captures := rfl

@[simp] theorem noted_emitted : (r.noted m).emitted = m :: r.emitted := rfl

@[simp] theorem noted_warnings : (r.noted m).warnings = r.warnings := rfl

@[simp] theorem warned_setting : (r.warned w).setting = r.setting := rfl

@[simp] theorem warned_global : (r.warned w).global = r.global := rfl

@[simp] theorem warned_override : (r.warned w).override = r.override := rfl

@[simp] theorem warned_emitted : (r.warned w).emitted = r.emitted := rfl

@[simp] theorem warned_warnings : (r.warned w).warnings = w :: r.warnings := rfl

@[simp] theorem warned_captures : (r.warned w).captures = addAll [w] r.captures :=
  (addAll_singleton w r.captures).symm

/-! ## Reporting -/

theorem run_policy : StateT.run policy r = pure (r.policy.1, r.settled) := rfl

theorem run_emit : StateT.run (emit w) r = pure ((), r.warned w) := rfl

/-- **What a report comes to**, by the policy in effect. -/
theorem report_eq (site : String) : report n site r = match r.policy.1 with
    | .warn => (.ok (), r.settled.warned ⟨n, site⟩)
    | .warnOnce =>
      if n.message ∈ r.emitted then (.ok (), r.settled)
      else (.ok (), (r.settled.noted n.message).warned ⟨n, site⟩)
    | .error =>
      if r.captures = [] then (.error (.deprecatedUse n site), r.settled)
      else (.ok (), r.settled.warned ⟨n, site⟩) := by
  show StateT.run (report n site) r = _
  cases hp : r.policy.1 with
  | warn =>
    simp [report, run_policy, run_emit, hp]
    rfl
  | warnOnce =>
    by_cases hm : n.message ∈ r.emitted
    · simp [report, run_policy, hp, hm]
      rfl
    · simp [report, run_policy, run_emit, noted, hp, hm]
      rfl
  | error =>
    by_cases hc : r.captures = []
    · simp [report, run_policy, hp, hc]
      rfl
    · simp [report, run_policy, run_emit, hp, hc]
      rfl

end Registry

/-! ## The outcome of a report -/

namespace Use

/-- The warning that a use at a site may give, which is about its own notice. -/
def warning (u : Use γ) (site : String) : Option Warning := u.notice.map fun n => ⟨n, site⟩

/-- **What the report of a use comes to**: what it hands out, and the registry that it
leaves. -/
inductive Outcome (u : Use γ) (site : String) (r : Registry) :
    Except DeprecationError γ → Registry → Prop where
  /-- Nothing is deprecated. -/
  | plain (notice_eq : u.notice = none) : Outcome u site r (.ok u.body) r
  /-- The use is refused, as nothing captures it. -/
  | refused {n : Notice} (notice_eq : u.notice = some n) (policy_eq : r.policy.1 = .error)
      (captures_eq : r.captures = []) :
      Outcome u site r (.error (.deprecatedUse n site)) r.settled
  /-- The message has been warned of once. -/
  | silent {n : Notice} (notice_eq : u.notice = some n) (policy_eq : r.policy.1 = .warnOnce)
      (mem : n.message ∈ r.emitted) : Outcome u site r (.ok u.body) r.settled
  /-- The message is warned of for the first time under `warnOnce`, and that is noted. -/
  | first {n : Notice} (notice_eq : u.notice = some n) (policy_eq : r.policy.1 = .warnOnce)
      (notMem : n.message ∉ r.emitted) :
      Outcome u site r (.ok u.body) ((r.settled.noted n.message).warned ⟨n, site⟩)
  /-- Every use is warned of, or the use is captured and not refused. -/
  | warned {n : Notice} (notice_eq : u.notice = some n)
      (policy_eq : r.policy.1 = .warn ∨ r.policy.1 = .error ∧ r.captures ≠ []) :
      Outcome u site r (.ok u.body) (r.settled.warned ⟨n, site⟩)

/-- A use of what a notice is about is reported as the notice is. -/
theorem report_some (n : Notice) (body : γ) (site : String) (r : Registry) :
    Use.report ⟨some n, body⟩ site r =
      ((Registry.report n site r).1.map fun _ => body, (Registry.report n site r).2) := by
  show StateT.run (Use.report ⟨some n, body⟩ site) r = _
  rcases hreport : Registry.report n site r with ⟨reported, t⟩
  have hrun : StateT.run (Registry.report n site) r = pure (reported, t) := hreport
  simp only [Use.report, StateT.run_bind, hrun, pure_bind]
  cases reported <;> rfl

/-- **A report comes to one of the outcomes.** -/
theorem report_outcome (u : Use γ) (site : String) (r : Registry) :
    Outcome u site r (u.report site r).1 (u.report site r).2 := by
  obtain ⟨_ | n, body⟩ := u
  · exact .plain rfl
  · rw [report_some, Registry.report_eq]
    cases hp : r.policy.1 with
    | warn => exact .warned rfl (.inl hp)
    | warnOnce =>
      by_cases hm : n.message ∈ r.emitted
      · simp only [hm, if_true]
        exact .silent rfl hp hm
      · simp only [hm, if_false]
        exact .first rfl hp hm
    | error =>
      by_cases hc : r.captures = []
      · simp only [hc, if_true]
        exact .refused rfl hp hc
      · simp only [hc, if_false]
        exact .warned rfl (.inr ⟨hp, hc⟩)

namespace Outcome

variable {u : Use γ} {site : String} {r t : Registry} {res : Except DeprecationError γ}

/-- A report leaves the setting and the override, and of the policy for all no more than the
policy in effect. -/
theorem kept (h : Outcome u site r res t) :
    t.setting = r.setting ∧ t.override = r.override ∧
      (t.global = r.global ∨ t.global = r.settled.global) := by
  cases h <;> simp

/-- **A use warns at most once**, of its own notice, and the captures get what the log
gets. -/
theorem exists_warnings (h : Outcome u site r res t) : ∃ ws, ws.Sublist (u.warning site).toList ∧
    t.warnings = ws.reverse ++ r.warnings ∧ t.captures = Registry.addAll ws r.captures := by
  cases h with
  | plain => exact ⟨[], by simp⟩
  | refused => exact ⟨[], by simp⟩
  | silent => exact ⟨[], by simp⟩
  | @first n hn => exact ⟨[⟨n, site⟩], by simp [warning, hn]⟩
  | @warned n hn => exact ⟨[⟨n, site⟩], by simp [warning, hn]⟩

/-- **A use is refused exactly under the policy `error` with no capture open.** -/
theorem result_eq (h : Outcome u site r res t) {n : Notice} (hn : u.notice = some n) :
    res = if r.policy.1 = .error ∧ r.captures = [] then .error (.deprecatedUse n site)
      else .ok u.body := by
  cases h with
  | warned _ hp =>
    obtain hp | hp := hp <;> simp [hp]
  | _ => simp_all

/-- A refused use leaves nothing behind but that the policy was asked for. -/
theorem eq_settled (h : Outcome u site r res t) {n : Notice} (hn : u.notice = some n)
    (hp : r.policy.1 = .error) (hc : r.captures = []) : t = r.settled := by
  cases h <;> simp_all

/-- **Messages are noted by uses under `warnOnce` and by no others.** -/
theorem mem_emitted (h : Outcome u site r res t) (m : String) : m ∈ t.emitted ↔
    m ∈ r.emitted ∨ r.policy.1 = .warnOnce ∧ u.notice.map Notice.message = some m := by
  cases h with
  | plain hn => simp [hn]
  | refused _ hp => simp [hp]
  | @silent n hn hp hm =>
    have hmem : n.message = m → m ∈ r.emitted := fun h => h ▸ hm
    simpa [hn, hp] using hmem
  | first hn hp => simp [hn, hp, or_comm, eq_comm]
  | warned _ hp => obtain hp | hp := hp <;> simp [hp]

/-- **A use warns unless it is refused or its message is noted**, which counts under
`warnOnce` only. -/
theorem warnings_eq (h : Outcome u site r res t) {n : Notice} (hn : u.notice = some n) :
    t.warnings = (if r.policy.1 = .error ∧ r.captures = [] ∨
      r.policy.1 = .warnOnce ∧ n.message ∈ r.emitted then [] else [⟨n, site⟩]) ++ r.warnings := by
  cases h with
  | warned hm hp =>
    obtain hp | hp := hp <;> simp_all
  | _ => simp_all

end Outcome

/-! ## Doing what is to be done -/

variable {site : String} {r t : Registry} {e : DeprecationError}

/-- A report hands out what is to be done, or it refuses. -/
theorem report_cases (u : Use γ) (site : String) (r : Registry) :
    (∃ t, u.report site r = (.ok u.body, t)) ∨ ∃ e t, u.report site r = (.error e, t) := by
  have h := u.report_outcome site r
  rcases hreport : u.report site r with ⟨res, t⟩
  rw [hreport] at h
  cases h with
  | refused => exact .inr ⟨_, _, rfl⟩
  | _ => exact .inl ⟨_, rfl⟩

/-- The report of a use does not depend on what is to be done. -/
theorem report_map (u : Use γ) (f : γ → δ) (site : String) (r : Registry) :
    (u.map f).report site r = ((u.report site r).1.map f, (u.report site r).2) := by
  obtain ⟨_ | n, body⟩ := u
  · rfl
  · rw [map, report_some, report_some]
    cases (Registry.report n site r).1 <;> rfl

variable {u : Use (Reporting β)}

/-- **What is to be done is done with the registry that the report leaves.** -/
theorem run_of_ok (h : u.report site r = (.ok u.body, t)) :
    u.run site r = (.ok (u.body t).1, (u.body t).2) := by
  have hreport : StateT.run (u.report site) r = Pure.pure (.ok u.body, t) := h
  show StateT.run (u.run site) r = _
  rw [Use.run, StateT.run_bind, hreport, pure_bind]
  rfl

/-- **It is not done after a refusal.** -/
theorem run_of_error (h : u.report site r = (.error e, t)) : u.run site r = (.error e, t) := by
  have hreport : StateT.run (u.report site) r = Pure.pure (.error e, t) := h
  show StateT.run (u.run site) r = _
  rw [Use.run, StateT.run_bind, hreport, pure_bind]
  rfl

/-! ## The uses that wrappers make -/

/-- **What a wrapper makes of a call**: the notice that it reports, if it reports one, and
what is done after that. -/
inductive Calls : {γ : Type} → Use γ → Option Notice → γ → Prop where
  /-- A deprecated function reports its notice whenever it is called. -/
  | function {α γ : Type} (d : DeprecatedFunction α γ) (args : α) :
    Calls (d.call args) (some d.notice) (d.function args)
  /-- A function with a deprecated parameter reports it where the arguments use it. They are
  adapted then. -/
  | parameter {α γ : Type} (d : DeprecatedParameter α γ) {args : α} (uses : d.uses args = true) :
    Calls (d.call args) (some d.notice) (d.function (d.adapt args))
  /-- Where they do not use it, it reports nothing. -/
  | otherwise {α γ : Type} (d : DeprecatedParameter α γ) {args : α} (uses : d.uses args = false) :
    Calls (d.call args) none (d.function args)
  /-- A deprecated type reports its notice whenever it is made. -/
  | type {α γ : Type} (d : DeprecatedType α γ) (args : α) :
    Calls (d.construct args) (some d.notice) (d.make args)
  /-- A module reports the notice about an attribute, also if it does not have the attribute. -/
  | lookup {γ : Type} (d : DeprecatedModule γ) (name : String) :
    Calls (d.get name) (d.notice? name) (d.base.get? name)
  /-- What is done with it does not matter to the notice. -/
  | map {γ δ : Type} {u : Use γ} {n : Option Notice} {body : γ} (f : γ → δ)
      (h : Calls u n body) : Calls (u.map f) n (f body)

/-- **A wrapper's use has the notice that it reports, and what is done after that.** -/
theorem Calls.eq {u : Use γ} {n : Option Notice} {body : γ} (h : u.Calls n body) :
    u = ⟨n, body⟩ := by
  induction h with
  | function d args => rfl
  | parameter d uses => exact if_pos uses
  | otherwise d uses => exact if_neg (by simp [uses])
  | type d args => rfl
  | lookup d name => rfl
  | map f _ ih =>
    rw [ih]
    rfl

end Use

end Qudit
