import Qudit.Proofs.Deprecation.Record

/-!
# Captured warnings are neither lost nor duplicated

Every warning that a run gives while a capture is open ends up in exactly one of the lists
that the captures return: in that of the innermost capture around the use, which is fixed
by where the use stands in the script. The list of the capture that is opened as number
`k` is what the visits with innermost capture `k` give, in order
(`Script.allCollected_run`), and all lists together are a permutation of what the captured
visits give (`Script.captured_exactly_once`).

What a scope gives to the captures around it is treated along with what it collects, as
the two meet at the commands of a capture: there, the list that the commands add to is the
one that was opened for them. The numbers of the captures keep the visits of different
captures apart – those around a command were given before, and its own are new.
-/

namespace Qudit

variable {β : Type}

namespace Visit

/-- The number of the capture that a visit gives its warnings to, if one is open. -/
def innermost (v : Visit β) : Option Nat := v.place.captures.head?

/-- **What the visits with a certain innermost capture give**, in order. -/
def givenIn (k : Option Nat) (vs : List (Visit β)) : List Warning :=
  (vs.filter fun v => v.innermost = k).flatMap given

variable {k : Option Nat} {v : Visit β} {vs : List (Visit β)}

theorem givenIn_append (vs ws : List (Visit β)) :
    givenIn k (vs ++ ws) = givenIn k vs ++ givenIn k ws := by
  rw [givenIn, List.filter_append, List.flatMap_append, givenIn, givenIn]

theorem givenIn_cons_of_eq (h : v.innermost = k) :
    givenIn k (v :: vs) = v.given ++ givenIn k vs := by
  rw [givenIn, List.filter_cons_of_pos (by simpa using h), List.flatMap_cons, givenIn]

theorem givenIn_cons_of_ne (h : v.innermost ≠ k) : givenIn k (v :: vs) = givenIn k vs := by
  rw [givenIn, List.filter_cons_of_neg (by simpa using h), givenIn]

theorem givenIn_eq_nil (h : ∀ v ∈ vs, v.innermost ≠ k) : givenIn k vs = [] := by
  rw [givenIn, List.filter_eq_nil_iff.mpr fun v hv => by simpa using h v hv, List.flatMap_nil]

end Visit

open Visit

namespace Script

variable {x : Place}

/-! ## The numbers of captures -/

/-- The captures around a script are around what comes after it. -/
theorem captures_passed (cs : List (Command β)) (x : Place) (r : Registry) :
    (passed cs x r).captures = x.captures := by
  induction cs using Script.induction generalizing x r with
  | nil => rfl
  | cons c cs hc hcs => rw [passed_cons, hcs, hc]
  | use u site ih =>
    obtain ⟨t, h⟩ | ⟨e, t, h⟩ := u.report_cases site r
    · rw [passed_use_of_ok x h, ih]
    · rw [passed_use_of_error x h]
  | policy => rfl
  | setPolicy p => rfl
  | within p body ih => exact ih (x.inside p) _
  | capture body ih => rfl

/-- Numbers are given on and on. -/
theorem opened_le_passed (cs : List (Command β)) (x : Place) (r : Registry) :
    x.opened ≤ (passed cs x r).opened := by
  induction cs using Script.induction generalizing x r with
  | nil => exact Nat.le_refl _
  | cons c cs hc hcs => exact Nat.le_trans (hc x r) (hcs _ _)
  | use u site ih =>
    obtain ⟨t, h⟩ | ⟨e, t, h⟩ := u.report_cases site r
    · rw [passed_use_of_ok x h]
      exact ih x t
    · exact Nat.le_of_eq (congrArg Place.opened (passed_use_of_error x h)).symm
  | policy => exact Nat.le_refl _
  | setPolicy p => exact Nat.le_refl _
  | within p body ih => exact ih (x.inside p) _
  | capture body ih => exact Nat.le_of_succ_le (ih x.capturing _)

end Script

/-- The captures around a place have numbers given before. -/
def Place.Numbered (x : Place) : Prop := ∀ k ∈ x.captures, k < x.opened

namespace Place.Numbered

variable {x : Place}

/-- No capture is around the beginning of a script. -/
theorem initial : Place.Numbered {} := fun _ hk => nomatch hk

theorem inside (hx : x.Numbered) (p : Policy) : (x.inside p).Numbered := hx

theorem capturing (hx : x.Numbered) : x.capturing.Numbered := by
  intro k hk
  obtain rfl | hk := List.mem_cons.mp hk
  · exact Nat.lt_succ_self _
  · exact Nat.lt_succ_of_lt (hx k hk)

theorem passed (hx : x.Numbered) (cs : List (Command β)) (r : Registry) :
    (Script.passed cs x r).Numbered := by
  intro k hk
  rw [Script.captures_passed] at hk
  exact Nat.lt_of_lt_of_le (hx k hk) (Script.opened_le_passed cs x r)

/-- A number that is not given yet is the number of no capture around. -/
theorem notMem (hx : x.Numbered) {k : Nat} (hk : x.opened ≤ k) : k ∉ x.captures :=
  fun hmem => Nat.not_lt.mpr hk (hx k hmem)

end Place.Numbered

namespace Script

variable {x : Place}

/-- **The innermost capture of a visit** is the one around the script or one that the
script opens. -/
theorem innermost_of_mem_visits {cs : List (Command β)} {r : Registry} {v : Visit β}
    (hv : v ∈ visits cs x r) : v.innermost = x.captures.head? ∨
      ∃ k, v.innermost = some k ∧ x.opened ≤ k ∧ k < (passed cs x r).opened := by
  induction cs using Script.induction generalizing x r with
  | nil => cases hv
  | cons c cs hc hcs =>
    rw [visits_cons] at hv
    rw [passed_cons]
    obtain hv | hv := List.mem_append.mp hv
    · obtain h | ⟨k, h, hle, hlt⟩ := hc hv
      · exact .inl h
      · exact .inr ⟨k, h, hle, Nat.lt_of_lt_of_le hlt (opened_le_passed cs _ _)⟩
    · obtain h | ⟨k, h, hle, hlt⟩ := hcs hv
      · rw [captures_passed] at h
        exact .inl h
      · exact .inr ⟨k, h, Nat.le_trans (opened_le_passed [c] x r) hle, hlt⟩
  | use u site ih =>
    obtain ⟨t, h⟩ | ⟨e, t, h⟩ := u.report_cases site r
    · rw [visits_use_of_ok x h] at hv
      rw [passed_use_of_ok x h]
      obtain rfl | hv := List.mem_cons.mp hv
      · exact .inl rfl
      · exact ih hv
    · rw [visits_use_of_error x h] at hv
      obtain rfl := List.mem_singleton.mp hv
      exact .inl rfl
  | policy => cases hv
  | setPolicy p => cases hv
  | within p body ih =>
    rw [visits_within] at hv
    exact ih hv
  | capture body ih =>
    rw [visits_capture] at hv
    obtain h | ⟨k, h, hle, hlt⟩ := ih hv
    · exact .inr ⟨x.opened, h, Nat.le_refl _, opened_le_passed body x.capturing _⟩
    · exact .inr ⟨k, h, Nat.le_of_succ_le hle, hlt⟩

/-- The visits to the commands of a capture are not captured by what is around it. -/
theorem innermost_ne_of_mem_capture (hx : x.Numbered) {body : List (Command β)} {r : Registry}
    {v : Visit β} (hv : v ∈ visits [.capture body] x r) :
    v.innermost ≠ x.captures.head? := by
  rw [visits_capture] at hv
  have hle : ∃ k, v.innermost = some k ∧ x.opened ≤ k := by
    obtain h | ⟨k, h, hle, -⟩ := innermost_of_mem_visits hv
    · exact ⟨x.opened, h, Nat.le_refl _⟩
    · exact ⟨k, h, Nat.le_of_succ_le hle⟩
  obtain ⟨k, h, hle⟩ := hle
  rw [h]
  exact fun heq => hx.notMem hle (List.mem_of_head? heq.symm)

/-- A script gives nothing to a capture that is neither around it nor its own. -/
theorem givenIn_visits_eq_nil {cs : List (Command β)} {r : Registry} {k : Nat}
    (hk : k ∉ x.captures) (hopened : k < x.opened ∨ (passed cs x r).opened ≤ k) :
    givenIn (some k) (visits cs x r) = [] := by
  refine givenIn_eq_nil fun v hv heq => ?_
  obtain h | ⟨j, h, hle, hlt⟩ := innermost_of_mem_visits hv
  · exact hk (List.mem_of_head? (h.symm.trans heq))
  · obtain rfl : j = k := Option.some.inj (h.symm.trans heq)
    omega

/-! ## What captures receive -/

/-- **What a script adds to the captures around it**: the innermost one gets its warnings,
except for those in captures of its own. -/
theorem captures_run (hx : x.Numbered) (cs : List (Command β)) (r : Registry) :
    (run cs r).2.captures =
      Registry.addAll (givenIn x.captures.head? (visits cs x r)) r.captures := by
  induction cs using Script.induction generalizing x r with
  | nil => simp [givenIn]
  | cons c cs hc hcs =>
    rw [run_cons, hcs (hx.passed [c] r), hc hx, visits_cons c cs, givenIn_append,
      Registry.addAll_append, captures_passed]
  | use u site ih =>
    have hreceived := captures_reported ⟨u, site, x, r⟩
    have hinner : (⟨u, site, x, r⟩ : Visit β).innermost = x.captures.head? := rfl
    obtain ⟨t, h⟩ | ⟨e, t, h⟩ := u.report_cases site r
    · have hreported : reported ⟨u, site, x, r⟩ = t := congrArg Prod.snd h
      rw [run_use_of_ok h, visits_use_of_ok x h, givenIn_cons_of_eq hinner, Registry.addAll_append,
        ih hx, ← hreceived, hreported]
    · have hreported : reported ⟨u, site, x, r⟩ = t := congrArg Prod.snd h
      rw [run_use_of_error h, visits_use_of_error x h, givenIn_cons_of_eq hinner,
        Registry.addAll_append, ← hreceived, hreported]
      simp [givenIn]
  | policy =>
    show r.settled.captures = _
    simp [givenIn]
  | setPolicy p => simp [givenIn]
  | within p body ih => simpa using ih (hx.inside p) { r with override := some p }
  | capture body ih =>
    -- what the commands give is in the list opened for them, and goes with it
    rw [givenIn_eq_nil fun v hv => innermost_ne_of_mem_capture hx hv, Registry.addAll_nil,
      run_capture]
    show (run body _).2.captures.drop 1 = r.captures
    rw [ih hx.capturing]
    rfl

/-- The numbers of the captures that a script opens. -/
def numbers (cs : List (Command β)) (x : Place) (r : Registry) : List Nat :=
  List.range' x.opened ((passed cs x r).opened - x.opened)

theorem mem_numbers {cs : List (Command β)} {r : Registry} {k : Nat} :
    k ∈ numbers cs x r ↔ x.opened ≤ k ∧ k < (passed cs x r).opened := by
  rw [numbers, List.mem_range'_1, Nat.add_sub_cancel' (opened_le_passed cs x r)]

/-- The captures of a command, and those of the ones after it. -/
theorem numbers_cons (c : Command β) (cs : List (Command β)) (x : Place) (r : Registry) :
    numbers (c :: cs) x r = numbers [c] x r ++ numbers cs (passed [c] x r) (run [c] r).2 := by
  have hfirst := opened_le_passed [c] x r
  have hrest := opened_le_passed cs (passed [c] x r) (run [c] r).2
  have hcount : (passed (c :: cs) x r).opened - x.opened
      = ((passed [c] x r).opened - x.opened)
        + ((passed cs (passed [c] x r) (run [c] r).2).opened - (passed [c] x r).opened) := by
    rw [passed_cons]
    omega
  rw [numbers, hcount, ← List.range'_append_1, Nat.add_sub_cancel' hfirst]
  rfl

/-- A capture and those that its commands open. -/
theorem numbers_capture (body : List (Command β)) (x : Place) (r : Registry) :
    numbers [.capture body] x r
      = x.opened :: numbers body x.capturing { r with captures := [] :: r.captures } := by
  have hle := opened_le_passed body x.capturing { r with captures := [] :: r.captures }
  have hcount : (passed body x.capturing { r with captures := [] :: r.captures }).opened - x.opened
      = (passed body x.capturing { r with captures := [] :: r.captures }).opened
        - x.capturing.opened + 1 := by
    rw [Place.opened_capturing] at hle ⊢
    omega
  refine (congrArg (List.range' x.opened) hcount).trans ?_
  rw [List.range'_succ]
  rfl

/-- **What the captures that a script opens collect**: the capture opened as number `k`
collects what the visits with innermost capture `k` give. -/
theorem allCollected_run (hx : x.Numbered) (cs : List (Command β)) (r : Registry) :
    Reply.allCollected (run cs r).1
      = (numbers cs x r).map fun k => givenIn (some k) (visits cs x r) := by
  induction cs using Script.induction generalizing x r with
  | nil => simp [numbers]
  | cons c cs hc hcs =>
    rw [run_cons, Reply.allCollected_append, hc hx, hcs (hx.passed [c] r), numbers_cons c cs,
      List.map_append, visits_cons c cs]
    -- the captures of the first command, and those of the others
    congr 1
    · refine List.map_congr_left fun k hk => ?_
      obtain ⟨hle, hlt⟩ := mem_numbers.mp hk
      have hnil : givenIn (some k) (visits cs (passed [c] x r) (run [c] r).2) = [] :=
        givenIn_visits_eq_nil (captures_passed [c] x r ▸ hx.notMem hle) (.inl hlt)
      rw [givenIn_append, hnil, List.append_nil]
    · refine List.map_congr_left fun k hk => ?_
      obtain ⟨hle, -⟩ := mem_numbers.mp hk
      have hnil : givenIn (some k) (visits [c] x r) = [] :=
        givenIn_visits_eq_nil (hx.notMem (Nat.le_trans (opened_le_passed [c] x r) hle)) (.inr hle)
      rw [givenIn_append, hnil, List.nil_append]
  | use u site ih =>
    obtain ⟨t, h⟩ | ⟨e, t, h⟩ := u.report_cases site r
    · have hreplies := ih hx t
      rw [run_use_of_ok h, visits_use_of_ok x h, numbers, passed_use_of_ok x h]
      rw [numbers] at hreplies
      simp only [Reply.allCollected, Reply.collected, List.append_nil, hreplies]
      refine List.map_congr_left fun k hk => (givenIn_cons_of_ne fun heq => ?_).symm
      exact hx.notMem (List.mem_range'_1.mp hk).1 (List.mem_of_head? heq)
    · rw [run_use_of_error h, numbers, passed_use_of_error x h, Nat.sub_self]
      rfl
  | policy => simp [numbers]
  | setPolicy p => simp [numbers]
  | within p body ih => simpa [numbers] using ih (hx.inside p) { r with override := some p }
  | capture body ih =>
    -- the list opened first is what the commands give outside captures of their own
    rw [numbers_capture, List.map_cons, visits_capture, ← ih hx.capturing, run_capture,
      captures_run hx.capturing]
    simp [Registry.addAll]

/-! ## The accounting of a run -/

/-- What goes to the captures with numbers below `n`, one capture after the other, is what
is given by the visits with such an innermost capture. -/
theorem flatten_givenIn_perm (n : Nat) (vs : List (Visit β)) :
    ((List.range n).map fun k => givenIn (some k) vs).flatten.Perm
      ((vs.filter fun v => v.innermost.any (· < n)).flatMap given) := by
  induction n with
  | zero => simp
  | succ n ih =>
    have hbelow : (vs.filter fun v => v.innermost.any (· < n + 1)).filter
        (fun v => v.innermost.any (· < n)) = vs.filter fun v => v.innermost.any (· < n) := by
      rw [List.filter_filter]
      refine List.filter_congr fun v _ => ?_
      cases v.innermost with
      | none => rfl
      | some k =>
        rw [Bool.eq_iff_iff]
        simp only [Option.any_some, Bool.and_eq_true, decide_eq_true_eq]
        omega
    have hlast : (vs.filter fun v => v.innermost.any (· < n + 1)).filter
        (fun v => !v.innermost.any (· < n)) = vs.filter fun v => v.innermost = some n := by
      rw [List.filter_filter]
      refine List.filter_congr fun v _ => ?_
      cases v.innermost with
      | none => rfl
      | some k =>
        rw [Bool.eq_iff_iff]
        simp only [Option.any_some, Bool.and_eq_true, Bool.not_eq_true', decide_eq_true_eq,
          decide_eq_false_iff_not, Option.some.injEq]
        omega
    have hsplit := List.filter_append_perm (fun v : Visit β => v.innermost.any (· < n))
      (vs.filter fun v => v.innermost.any (· < n + 1))
    rw [hbelow, hlast] at hsplit
    rw [List.range_succ, List.map_append, List.flatten_append]
    refine (ih.append_right _).trans ?_
    simpa [givenIn] using hsplit.flatMap_right given

/-- **Captured warnings are neither lost nor duplicated.** The lists that the captures
return are, for each capture in the order of opening, what is given by the visits that
have it as innermost capture; together they are a permutation of what is given by the
visits with any capture around.

A visit gives the warning of its own use, with its notice and its site, or nothing. It gives
none if there is no notice, if the use is refused, or if the message was noted and `warnOnce`
is in effect. What it gives is what its report adds to the log, and the log of the run has
nothing else added to it. -/
theorem captured_exactly_once (cs : List (Command β)) (r : Registry) :
    let lists := Reply.allCollected (run cs r).1
    let visited := visits cs {} r
    lists = (List.range (passed cs {} r).opened).map (fun k => givenIn (some k) visited) ∧
      lists.flatten.Perm ((visited.filter fun v => v.place.captures ≠ []).flatMap given) ∧
      (run cs r).2.warnings = (visited.flatMap given).reverse ++ r.warnings ∧
      ∀ v ∈ visited, (v.use.notice = none → v.given = []) ∧
        (∀ n, v.use.notice = some n → v.given =
          if v.registry.policy.1 = .error ∧ v.registry.captures = [] ∨
            v.registry.policy.1 = .warnOnce ∧ n.message ∈ v.registry.emitted then []
          else [⟨n, v.site⟩]) ∧
        v.reported.warnings = v.given.reverse ++ v.registry.warnings := by
  intro lists visited
  have hlists : lists = (List.range (passed cs {} r).opened).map
      fun k => givenIn (some k) visited := by
    rw [List.range_eq_range']
    exact allCollected_run Place.Numbered.initial cs r
  refine ⟨hlists, ?_, (follow_visits cs {} r).warnings_eq, fun v _ =>
    ⟨given_eq_nil, fun n => given_eq, v.warnings_reported⟩⟩
  rw [hlists]
  refine (flatten_givenIn_perm _ visited).trans (List.Perm.of_eq ?_)
  congr 1
  refine List.filter_congr fun v hv => ?_
  obtain h | ⟨k, h, -, hlt⟩ := innermost_of_mem_visits hv
  · have hnil : v.place.captures = [] := List.head?_eq_none_iff.mp h
    simp [h, hnil]
  · have hne : v.place.captures ≠ [] := List.ne_nil_of_mem (List.mem_of_head? h)
    simpa [h, hne] using hlt

/-- A function that calls another one in a capture of its own. -/
example (n m : Notice) :
    let inner : Use (Procedure (Command Nat) Nat) := ⟨some m, .giving 0⟩
    let outer : Use (Procedure (Command Nat) Nat) :=
      ⟨some n, [.capture [.use inner "b"], .use inner "c"], fun _ => 1⟩
    Reply.allCollected (run [.capture [.use outer "a"]] {}).1
      = [[⟨n, "a"⟩, ⟨m, "c"⟩], [⟨m, "b"⟩]] :=
  rfl

end Script

end Qudit
