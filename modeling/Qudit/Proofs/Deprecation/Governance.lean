import Qudit.Proofs.Deprecation.Captures

/-!
# Which policy governs a use, and what comes of it

Where a use stands in a run decides what it comes to. The policy in effect is that of the
innermost scope around the use that sets one, else the one set for all last before it, else
the one that the environment asks for (`Place.policy`); the use is refused exactly if that
policy is `error` and no capture is around (`Script.uses_governed`). A refused use does nothing:
whatever there was to be done, it would be the same. Any other use does what there is to be
done after it was reported.

The registry that a run comes to a use with and the place of the use are two accounts of
the same (`Registry.StandsAt`), and what one command does to them is the same. They differ
in one point: a registry in which nobody has set a policy holds, once it was asked for, the
one that the environment asks for. To a use this makes no difference, and a policy that is
set later takes its place.
-/

namespace Qudit

variable {β : Type}

/-- **The policy that the environment asks for**: the one that the setting spells, and
`warn` without a setting or where it spells none. -/
def Policy.ofEnvironment (setting : Option String) : Policy := (setting.bind parse?).getD .warn

/-- **The policy that governs a use at a place.** -/
def Place.policy (x : Place) (setting : Option String) : Policy :=
  (x.within.or x.lastSet).getD (Policy.ofEnvironment setting)

theorem Registry.fromSetting_fst (setting : Option String) :
    (fromSetting setting).1 = Policy.ofEnvironment setting := by
  cases setting with
  | none => rfl
  | some s =>
    unfold fromSetting Policy.ofEnvironment Policy.ofSetting Policy.parse
    cases h : Policy.parse? s <;> simp [h]

/-- **A registry agrees with a place** in a script that is run with an environment. -/
structure Registry.StandsAt (r : Registry) (x : Place) (setting : Option String) : Prop where
  /-- The environment stays. -/
  setting_eq : r.setting = setting
  /-- The override is the policy of the innermost scope that sets one. -/
  override_eq : r.override = x.within
  /-- The policy for all is the one set last. If none was set, it may be the one that the
  environment asks for. -/
  global_eq : r.global = x.lastSet ∨
    x.lastSet = none ∧ r.global = some (Policy.ofEnvironment setting)
  /-- The captures around are the ones that are open. -/
  length_eq : r.captures.length = x.captures.length

namespace Registry.StandsAt

variable {r t : Registry} {x : Place} {setting : Option String}

/-- **The policy in effect is the one that governs the place.** -/
theorem policy_eq (h : r.StandsAt x setting) : r.policy.1 = x.policy setting := by
  obtain ⟨rfl, hover, hglobal, -⟩ := h
  unfold Registry.policy Place.policy
  rw [← hover]
  cases r.override with
  | some p => rfl
  | none =>
    obtain hlast | ⟨hlast, henv⟩ := hglobal
    · rw [← hlast]
      cases r.global with
      | some p => rfl
      | none => exact fromSetting_fst r.setting
    · rw [hlast, henv]
      rfl

/-- A capture is open exactly if one is around. -/
theorem captures_eq_nil_iff (h : r.StandsAt x setting) : r.captures = [] ↔ x.captures = [] := by
  rw [← List.length_eq_zero_iff, h.length_eq, List.length_eq_zero_iff]

theorem settled (h : r.StandsAt x setting) : r.settled.StandsAt x setting := by
  refine ⟨by simp [h.setting_eq], by simp [h.override_eq], ?_, by simp [h.length_eq]⟩
  obtain heq | ⟨-, hnone, heq⟩ := r.settled_cases
  · rw [heq]
    exact h.global_eq
  · rw [heq, fromSetting_fst, h.setting_eq]
    obtain hlast | ⟨hlast, -⟩ := h.global_eq
    · exact .inr ⟨hlast.symm.trans hnone, rfl⟩
    · exact .inr ⟨hlast, rfl⟩

/-- A report leaves the registry where it stands. -/
theorem reported {u : Use (Procedure (Command β) β)} {site : String}
    {res : Except DeprecationError (Procedure (Command β) β)} (h : r.StandsAt x setting)
    (hreport : u.report site r = (res, t)) : t.StandsAt x setting := by
  have ho := u.report_outcome site r
  rw [hreport] at ho
  obtain ⟨hset, hover, hglobal⟩ := ho.kept
  obtain ⟨ws, -, -, hcaptures⟩ := ho.exists_warnings
  refine ⟨hset.trans h.setting_eq, hover.trans h.override_eq, ?_, ?_⟩
  · obtain hg | hg := hglobal
    · rw [hg]
      exact h.global_eq
    · rw [hg]
      exact h.settled.global_eq
  · rw [hcaptures, Registry.addAll, List.length_modifyHead]
    exact h.length_eq

/-! ## Scopes -/

theorem inside (h : r.StandsAt x setting) (p : Policy) :
    Registry.StandsAt { r with override := some p } (x.inside p) setting :=
  ⟨h.setting_eq, rfl, h.global_eq, h.length_eq⟩

/-- After a scope the override is the one before it, and so is the policy of the place. -/
theorem outside (h : r.StandsAt x setting) {y : Place} (ht : t.StandsAt y setting) :
    Registry.StandsAt { t with override := r.override } { y with within := x.within } setting :=
  ⟨ht.setting_eq, h.override_eq, ht.global_eq, ht.length_eq⟩

theorem capturing (h : r.StandsAt x setting) :
    Registry.StandsAt { r with captures := [] :: r.captures } x.capturing setting :=
  ⟨h.setting_eq, h.override_eq, h.global_eq, congrArg (· + 1) h.length_eq⟩

/-- After a capture the captures around it are open and no other. -/
theorem captured {y : Place} (ht : t.StandsAt y setting) {ks : List Nat}
    (hy : y.captures.length = ks.length + 1) :
    Registry.StandsAt { t with captures := t.captures.drop 1 } { y with captures := ks } setting :=
  ⟨ht.setting_eq, ht.override_eq, ht.global_eq, by simp [ht.length_eq, hy]⟩

/-! ## Runs -/

/-- **Running a script and passing it keep registry and place together.** -/
theorem run (h : r.StandsAt x setting) (cs : List (Command β)) :
    (Script.run cs r).2.StandsAt (Script.passed cs x r) setting := by
  induction cs using Script.induction generalizing x r with
  | nil => exact h
  | cons c cs hc hcs =>
    rw [Script.run_cons, Script.passed_cons]
    exact hcs (hc h)
  | use u site ih =>
    obtain ⟨t, ht⟩ | ⟨e, t, ht⟩ := u.report_cases site r
    · rw [Script.run_use_of_ok ht, Script.passed_use_of_ok x ht]
      exact ih (h.reported ht)
    · rw [Script.run_use_of_error ht, Script.passed_use_of_error x ht]
      exact h.reported ht
  | policy => exact h.settled
  | setPolicy p =>
    rw [Script.run_setPolicy]
    exact ⟨h.setting_eq, h.override_eq, .inl rfl, h.length_eq⟩
  | within p body ih =>
    rw [Script.run_within, Script.passed_within]
    exact h.outside (ih (h.inside p))
  | capture body ih =>
    rw [Script.run_capture, Script.passed_capture]
    refine (ih h.capturing).captured ?_
    rw [Script.captures_passed]
    rfl

/-- **A run comes to every use with a registry that agrees with the place of the use.** -/
theorem of_mem_visits (h : r.StandsAt x setting) {cs : List (Command β)} {v : Visit β}
    (hv : v ∈ Script.visits cs x r) : v.registry.StandsAt v.place setting := by
  induction cs using Script.induction generalizing x r with
  | nil => cases hv
  | cons c cs hc hcs =>
    rw [Script.visits_cons] at hv
    obtain hv | hv := List.mem_append.mp hv
    · exact hc h hv
    · exact hcs (h.run [c]) hv
  | use u site ih =>
    obtain ⟨t, ht⟩ | ⟨e, t, ht⟩ := u.report_cases site r
    · rw [Script.visits_use_of_ok x ht] at hv
      obtain rfl | hv := List.mem_cons.mp hv
      · exact h
      · exact ih (h.reported ht) hv
    · rw [Script.visits_use_of_error x ht] at hv
      obtain rfl := List.mem_singleton.mp hv
      exact h
  | policy => cases hv
  | setPolicy p => cases hv
  | within p body ih =>
    rw [Script.visits_within] at hv
    exact ih (h.inside p) hv
  | capture body ih =>
    rw [Script.visits_capture] at hv
    exact ih h.capturing hv

/-- A fresh registry stands at the beginning of a script. -/
theorem initial (setting : Option String) :
    Registry.StandsAt { setting := setting } {} setting :=
  ⟨rfl, rfl, .inl rfl, rfl⟩

end Registry.StandsAt

/-! ## The outcome of every use of a run -/

/-- **A deprecated use at a place is refused.** -/
def Place.Refuses (x : Place) (setting : Option String) : Prop :=
  x.policy setting = .error ∧ x.captures = []

instance (x : Place) (setting : Option String) : Decidable (x.Refuses setting) :=
  inferInstanceAs (Decidable (_ ∧ _))

/-- **A use of what a notice is about is governed by the policy of its place.** -/
structure Visit.Governed (setting : Option String) (n : Notice) (body : Procedure (Command β) β)
    (v : Visit β) : Prop where
  /-- The policy of the place is the one in effect. -/
  policy_eq : v.registry.policy.1 = v.place.policy setting
  /-- If that is `error` and no capture is around, the use is refused. -/
  refused : v.place.Refuses setting → v.result = .error (.deprecatedUse n v.site)
  /-- What there was to be done is not done: anything else in its place would have come to the
  same. -/
  not_run : v.place.Refuses setting → ∀ action : Reporting β,
    (v.use.map fun _ => action).run v.site v.registry = (v.result, v.after)
  /-- A refused use leaves no warning, no note of its message and nothing in a capture. -/
  unchanged : v.place.Refuses setting →
    v.after.record = v.registry.record ∧ v.after.captures = v.registry.captures
  /-- Otherwise what there is to be done is done, with the registry that the report of the
  notice leaves, and the use has the value that is made of the replies. -/
  runs : ¬v.place.Refuses setting → ∃ replies,
    Script.run body.commands (Registry.report n v.site v.registry).2 = (replies, v.after) ∧
      v.result = .ok (body.value replies)

theorem Registry.StandsAt.governed {v : Visit β} {setting : Option String}
    (h : v.registry.StandsAt v.place setting) {n : Notice} {body : Procedure (Command β) β}
    (hcalls : v.use.Calls (some n) body) : v.Governed setting n body := by
  have hn : v.use.notice = some n := by rw [hcalls.eq]
  have hbody : v.use.body = body := by rw [hcalls.eq]
  have hrefuses : v.registry.policy.1 = .error ∧ v.registry.captures = [] ↔
      v.place.Refuses setting := by
    rw [h.policy_eq, h.captures_eq_nil_iff, Place.Refuses]
  have hreport : v.use.report v.site v.registry
      = (if v.place.Refuses setting then .error (.deprecatedUse n v.site) else .ok v.use.body,
        v.reported) := by
    refine Prod.ext ?_ rfl
    simp only [v.outcome.result_eq hn, hrefuses]
  by_cases hr : v.place.Refuses setting
  · rw [if_pos hr] at hreport
    have hsettled := v.outcome.eq_settled hn (hrefuses.mpr hr).1 (hrefuses.mpr hr).2
    obtain ⟨hresult, hafter⟩ := Visit.run_of_error hreport
    refine ⟨h.policy_eq, fun _ => hresult, fun _ action => ?_, fun _ => ?_,
      fun hnot => absurd hr hnot⟩
    · have hmap : (v.use.map fun _ => action).report v.site v.registry
          = (.error (.deprecatedUse n v.site), v.reported) := by
        rw [Use.report_map, hreport]
        rfl
      rw [Use.run_of_error hmap, hresult, hafter]
    · rw [hafter, hsettled]
      exact ⟨Registry.settled_record _, Registry.settled_captures _⟩
  · rw [if_neg hr] at hreport
    obtain ⟨hresult, hafter⟩ := Visit.run_of_ok hreport
    have hreported : v.reported = (Registry.report n v.site v.registry).2 := by
      rw [Visit.reported, hcalls.eq, Use.report_some]
    refine ⟨h.policy_eq, fun hr' => absurd hr' hr, fun hr' => absurd hr' hr,
      fun hr' => absurd hr' hr, fun _ => ⟨_, ?_, hbody ▸ hresult⟩⟩
    rw [← hreported, ← hbody, hafter]
    rfl

namespace Script

/-- A script leaves the override as it is. -/
theorem run_override (cs : List (Command β)) (r : Registry) :
    (run cs r).2.override = r.override := by
  induction cs using Script.induction generalizing r with
  | nil => rfl
  | cons c cs hc hcs => rw [run_cons, hcs, hc]
  | use u site ih =>
    have hkept := (u.report_outcome site r).kept.2.1
    obtain ⟨t, h⟩ | ⟨e, t, h⟩ := u.report_cases site r
    · rw [h] at hkept
      rw [run_use_of_ok h, ih]
      exact hkept
    · rw [h] at hkept
      rw [run_use_of_error h]
      exact hkept
  | policy => exact r.settled_override
  | setPolicy p => rw [run_setPolicy]
  | within p body ih => rw [run_within]
  | capture body ih =>
    rw [run_capture]
    exact ih _

/-- **Every deprecated use of a run is governed by the policy of its place**, whichever
wrapper it comes from, and every scope leaves the override and the captures as they were. A use
that a wrapper does not report is not refused and leaves no trace of its own.

The replies show what the uses come to. What a scope with a policy of its own adds to the
innermost capture around it are the warnings given in it and not captured there. -/
theorem uses_governed (setting : Option String) (cs : List (Command β)) :
    let start : Registry := { setting := setting }
    let visited := visits cs {} start
    Reply.allResults (run cs start).1 = visited.map Visit.result ∧
      (∀ v ∈ visited, ∀ n body, v.use.Calls (some n) body → v.Governed setting n body) ∧
      (∀ v ∈ visited, ∀ body, v.use.Calls none body → ∃ replies,
        run body.commands v.registry = (replies, v.after) ∧ v.result = .ok (body.value replies)) ∧
      ∀ (p : Policy) (body : List (Command β)) (r : Registry),
        ((run [.within p body] r).2.override = r.override ∧
          (run [.within p body] r).2.captures = Registry.addAll
            (Visit.givenIn none (visits [.within p body] {} r)) r.captures) ∧
        (run [.capture body] r).2.override = r.override ∧
          (run [.capture body] r).2.captures = r.captures := by
  intro start visited
  refine ⟨allResults_run cs {} start, fun v hv n body hcalls => ?_, fun v _ body hcalls => ?_,
    fun p body r => ⟨⟨run_override _ _, captures_run .initial _ r⟩, run_override _ _, ?_⟩⟩
  · exact ((Registry.StandsAt.initial setting).of_mem_visits hv).governed hcalls
  · have hreport : v.use.report v.site v.registry = (.ok v.use.body, v.registry) := by
      rw [hcalls.eq]
      rfl
    have hbody : v.use.body = body := by rw [hcalls.eq]
    obtain ⟨hresult, hafter⟩ := Visit.run_of_ok hreport
    rw [hbody] at hresult hafter
    exact ⟨_, Prod.ext rfl hafter.symm, hresult⟩
  · rw [captures_run .initial, Visit.givenIn_eq_nil fun v hv =>
      innermost_ne_of_mem_capture .initial hv, Registry.addAll_nil]

/-- A session with a deprecated use of every kind: of a function, which sets another policy for
all when it is called, of a parameter under that policy and within a scope, of a type in a
capture, and of an attribute without one. -/
def session (n : Notice) : List (Command (Option Nat)) :=
  let function : DeprecatedFunction Nat (Procedure (Command (Option Nat)) (Option Nat)) :=
    ⟨n, fun k => ⟨[.setPolicy .error], fun _ => some k⟩⟩
  let parameter : DeprecatedParameter Nat (Procedure (Command (Option Nat)) (Option Nat)) :=
    ⟨n, fun k => k == 0, Nat.succ, fun k => .giving (some k)⟩
  let type : DeprecatedType Nat (Procedure (Command (Option Nat)) (Option Nat)) :=
    ⟨n, "", fun k => .giving (some k)⟩
  let attributes : DeprecatedModule Nat := ⟨.empty "module" "", [("old", n)]⟩
  [.use (function.call 1) "a", .within .warn [.use (parameter.call 0) "b"],
    .capture [.use (type.construct 2) "c"], .use ((attributes.get "old").map .giving) "d"]

theorem session_governed : ∃ n body, ∃ v ∈ visits (session n) {} { setting := some "once" },
    v.use.Calls (some n) body ∧ v.place.Refuses (some "once") ∧
      v.Governed (some "once") n body := by
  let n : Notice := ⟨"old", "old", ⟨"v0.4", 2⟩, "Use new."⟩
  let attributes : DeprecatedModule Nat := ⟨.empty "module" "", [("old", n)]⟩
  have hlast : ∃ v, (visits (session n) {} { setting := some "once" })[3]? = some v ∧
      v.use = (attributes.get "old").map .giving ∧ v.place.Refuses (some "once") :=
    ⟨_, rfl, rfl, by decide⟩
  obtain ⟨v, hv, huse, hrefuses⟩ := hlast
  have hcalls : v.use.Calls (some n) (.giving none) :=
    huse ▸ .map Procedure.giving (.lookup attributes "old")
  have hmem := List.mem_of_getElem? hv
  exact ⟨n, _, v, hmem, hcalls, hrefuses,
    (uses_governed (some "once") (session n)).2.1 v hmem n _ hcalls⟩

end Script

end Qudit
