import Qudit.Proofs.Deprecation.Record

/-!
# Once for each message

Of the uses of a run that `warnOnce` is in effect for and whose notices have one message,
the first warns and the later ones are silent, and none is refused
(`Script.first_use_warns`). That the message was warned of is noted with the first of them,
whether or not the warning is captured; and it is a note of the message alone, so that a
notice under another name is silenced as well.

Uses under the other policies do not come into this: they make no note and look for none.
So a message warned of under `warn` any number of times, or refused under `error`, is still
warned of under `warnOnce`, and is warned of under `warn` after that.
-/

namespace Qudit

variable {β : Type}

namespace Visit

/-- **A use under `warnOnce`** of what a notice with the message `m` is about. -/
def OnceFor (m : String) (v : Visit β) : Prop :=
  v.registry.policy.1 = .warnOnce ∧ v.use.notice.map Notice.message = some m

instance (m : String) (v : Visit β) : Decidable (v.OnceFor m) :=
  inferInstanceAs (Decidable (_ ∧ _))

variable {m : String} {v : Visit β}

/-- The notice that a use under `warnOnce` is about, and what the use gives. -/
theorem OnceFor.exists_given_eq (h : v.OnceFor m) : ∃ n, v.use.notice = some n ∧
    v.given = if m ∈ v.registry.emitted then [] else [⟨n, v.site⟩] := by
  obtain ⟨hp, hm⟩ := h
  obtain ⟨n, hn, rfl⟩ := Option.map_eq_some_iff.mp hm
  exact ⟨n, hn, by simp [given_eq hn, hp]⟩

/-- A use under `warnOnce` is not refused, and does what there is to be done. -/
theorem OnceFor.result_eq (h : v.OnceFor m) :
    v.result = .ok (v.use.body.value (Script.run v.use.body.commands v.reported).1) := by
  obtain ⟨n, hn, -⟩ := h.exists_given_eq
  have hallowed : (v.use.report v.site v.registry).1 = .ok v.use.body := by
    rw [v.outcome.result_eq hn, h.1, if_neg fun hr => nomatch hr.1]
  exact (run_of_ok (Prod.ext hallowed rfl)).1

namespace Follow

variable {vs : List (Visit β)} {a b : Record}

/-- **Once the message is noted, every use under `warnOnce` is silent.** -/
theorem given_eq_nil (h : Follow a vs b) (hm : m ∈ a.noted) :
    ∀ v ∈ vs, v.OnceFor m → v.given = [] := by
  induction h with
  | nil => exact fun v hv => nomatch hv
  | @cons v vs b _ ih =>
    intro w hw honce
    obtain rfl | hw := List.mem_cons.mp hw
    · obtain ⟨n, -, hgiven⟩ := honce.exists_given_eq
      exact hgiven.trans (if_pos hm)
    · exact ih ((v.outcome.mem_emitted m).mpr (.inl hm)) w hw honce

/-- **While the message is not noted, the first use under `warnOnce` gives its warning**,
and the later ones are silent. -/
theorem given_first (h : Follow a vs b) (hm : m ∉ a.noted) {first : Visit β}
    {later : List (Visit β)} (hfilter : vs.filter (fun v => v.OnceFor m) = first :: later) :
    m ∉ first.registry.emitted ∧ ∀ v ∈ later, v.given = [] := by
  induction h with
  | nil => cases hfilter
  | @cons v vs b hfollow ih =>
    -- the note is made by the first such use, and by no use before it
    have hnoted := v.outcome.mem_emitted m
    by_cases honce : v.OnceFor m
    · rw [List.filter_cons_of_pos (by simpa using honce)] at hfilter
      obtain ⟨rfl, rfl⟩ := List.cons.inj hfilter
      refine ⟨hm, fun w hw => ?_⟩
      obtain ⟨hw, honce'⟩ := List.mem_filter.mp hw
      exact hfollow.given_eq_nil (hnoted.mpr (.inr honce)) w hw (by simpa using honce')
    · rw [List.filter_cons_of_neg (by simpa using honce)] at hfilter
      exact ih (fun hmem => (hnoted.mp hmem).elim hm honce) hfilter

end Follow

end Visit

namespace Script

/-- **Each message is warned of once under `warnOnce`**: of the uses with one message that
`warnOnce` is in effect for, the first gives its warning, the later ones give none, and all
succeed. Uses that another policy is in effect for give theirs unless they are refused,
whatever was noted. Whichever wrapper a use comes from, its notice is the one of the wrapper.

What a use gives is what its report adds to the log and to the innermost capture. -/
theorem first_use_warns (setting : Option String) (cs : List (Command β)) (m : String) :
    let visited := visits cs {} { setting := setting }
    (∀ v ∈ visited, ∀ n body, v.use.Calls n body → v.use.notice = n ∧ v.use.body = body) ∧
    (∀ first later, visited.filter (fun v => v.OnceFor m) = first :: later →
      (∃ n, first.use.notice = some n ∧ first.given = [⟨n, first.site⟩]) ∧
        (∀ v ∈ later, v.given = []) ∧
        ∀ v ∈ first :: later, v.result
          = .ok (v.use.body.value (run v.use.body.commands v.reported).1)) ∧
    (∀ v ∈ visited, ∀ n, v.use.notice = some n → v.registry.policy.1 ≠ .warnOnce →
      v.given =
        if v.registry.policy.1 = .error ∧ v.registry.captures = [] then [] else [⟨n, v.site⟩]) ∧
    ∀ v ∈ visited, v.reported.warnings = v.given.reverse ++ v.registry.warnings ∧
      v.reported.captures = Registry.addAll v.given v.registry.captures := by
  intro visited
  refine ⟨fun v _ n body hcalls => ?_, fun first later hfilter => ?_, fun v _ n hn hp => ?_,
    fun v _ => ⟨v.warnings_reported, v.captures_reported⟩⟩
  · rw [hcalls.eq]
    exact ⟨rfl, rfl⟩
  · have hfollow := follow_visits cs {} { setting := setting }
    obtain ⟨hfirst, hlater⟩ := hfollow.given_first List.not_mem_nil hfilter
    have honce : ∀ v ∈ first :: later, v.OnceFor m := by
      intro v hv
      rw [← hfilter] at hv
      simpa using (List.mem_filter.mp hv).2
    refine ⟨?_, hlater, fun v hv => (honce v hv).result_eq⟩
    obtain ⟨n, hn, hgiven⟩ := (honce first List.mem_cons_self).exists_given_eq
    exact ⟨n, hn, hgiven.trans (if_neg hfirst)⟩
  · simp [Visit.given_eq hn, hp]

/-- A session in which two notices have one message, that of a parameter and that of a type.
`warnOnce` is in effect for the second, the third and the last use; the second is made within
the call of a function that is deprecated under a message of its own. -/
def mixedSession (parameter type other : Notice) : List (Command Nat) :=
  let f : DeprecatedParameter Nat (Procedure (Command Nat) Nat) :=
    ⟨parameter, fun _ => true, id, .giving⟩
  let t : DeprecatedType Nat (Procedure (Command Nat) Nat) := ⟨type, "", .giving⟩
  let g : DeprecatedFunction Nat (Procedure (Command Nat) Nat) :=
    ⟨other, fun k => ⟨[.use (t.construct k) "g"], fun _ => k⟩⟩
  [.within .warn [.use (f.call 0) "a"], .setPolicy .warnOnce, .capture [.use (g.call 1) "b"],
    .use (f.call 2) "c", .within .error [.use (f.call 3) "d", .capture [.use (t.construct 4) "e"]],
    .use (t.construct 5) "f"]

theorem mixedSession_first_use_warns : ∃ n m k : Notice, n.name ≠ m.name ∧
    ∃ first later, (visits (mixedSession n m k) {} {}).filter (fun v => v.OnceFor n.message)
      = first :: later ∧ later.map Visit.site = ["c", "f"] ∧ first.given = [⟨m, "g"⟩] ∧
        ∀ v ∈ later, v.given = [] := by
  let n : Notice := ⟨"f(x)", "The x parameter of f", ⟨"v0.4", 2⟩, "Use g."⟩
  let m : Notice := ⟨"T", "The x parameter of f", ⟨"v0.4", 2⟩, "Use g."⟩
  let k : Notice := ⟨"g", "g", ⟨"v0.4", 2⟩, "Use h."⟩
  have hvisits : ((visits (mixedSession n m k) {} {}).filter (fun v => v.OnceFor n.message)).map
      (fun v => (v.use.notice, v.site)) = [(some m, "g"), (some n, "c"), (some m, "f")] := by
    decide +kernel
  obtain ⟨first, later, hfilter, hfirst, hlater⟩ := List.map_eq_cons_iff.mp hvisits
  obtain ⟨⟨l, hl, hgiven⟩, hsilent, -⟩ :=
    (first_use_warns none (mixedSession n m k) n.message).2.1 first later hfilter
  obtain ⟨hnotice, hsite⟩ := Prod.mk.inj hfirst
  obtain rfl : m = l := Option.some.inj (hnotice.symm.trans hl)
  have hsites : later.map Visit.site = ["c", "f"] := by
    have hmap := congrArg (List.map Prod.snd) hlater
    rwa [List.map_map] at hmap
  rw [hsite] at hgiven
  exact ⟨n, m, k, by decide, first, later, hfilter, hsites, hgiven, hsilent⟩

end Script

end Qudit
