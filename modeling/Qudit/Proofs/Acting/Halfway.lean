import Qudit.Proofs.Acting.RepeatedAxes
import Qudit.Proofs.Acting.Transparency

/-!
# Gates on values do all or nothing, or half an exchange

A register of values applies a gate once everything that it needs has been looked at, so
that a refusal comes before the first change. An exchange is different: it is three bit
flips, and a refusal of the second finds the first one made. The first and the last flip
look at the targets alone, and the controls come into the second only; so it is a control
that can stop an exchange halfway, by lying on an axis that is no site, or by being
listed twice among the qubits. `StopsHalfway` says exactly when this happens to a value:
the second target has to hold one, or else the first flip changes nothing.

An exchange that stops halfway has flipped its first target, and all other refusals of a
gate leave the session as it was (`act_gate_all_or_half`). That the axes are sites of
the register and no qubit is listed twice is enough for all or nothing.
-/

namespace Qudit

open Radix Acting

variable {R : Type}

namespace BasisState

variable {f g : PlacedGate R} {s : Session (List Nat)}

/-- **A gate that has no parts is applied as a whole, or changes nothing.** -/
theorem act_whole_ends (hparts : g.parts = none) (s : Session (List Nat)) :
    Ends (fun _ t => ∃ fires, Applies g s fires ∧ t = { s with
        register := if (fires && isFlip g.gate) = true
          then flippedAt s.register (s.axes.drop g.controls.length) else s.register })
      (fun e t => e.IsError ∧ t = s) (act representation (.gate g) s) := by
  have hends := native_ends g s
  cases hnative : native g s with
  | error e t =>
    rw [hnative] at hends
    rw [act_gate_of_failure hnative]
    exact hends
  | ok o t =>
    rw [hnative] at hends
    obtain ⟨rfl, rfl⟩ | ⟨rfl, happlies⟩ := hends
    · rw [act_gate_of_no_parts hnative hparts]
      exact ⟨trivial, rfl⟩
    · rw [act_gate_of_applied hnative]
      exact happlies

/-! ## A bit flip at any axes -/

/-- **A bit flip that can be made** at the axes of a session. -/
structure Flippable (f : PlacedGate R) (s : Session (List Nat)) : Prop where
  /-- There is one axis per qubit. -/
  length_eq : s.axes.length = f.qubits.length
  /-- No site is named twice. -/
  nodup : s.axes.Nodup
  /-- The axes are sites. -/
  lt : ∀ a ∈ s.axes, a < s.register.length
  /-- The targets hold zero or one. -/
  bits : ∀ a ∈ s.axes.drop f.controls.length, s.register.getD a 0 < 2

/-- **The values after a bit flip** at the axes of a session: those of the targets are
flipped if the controls hold their configuration. -/
def afterFlip (f : PlacedGate R) (s : Session (List Nat)) : List Nat :=
  if restrict s.register (s.axes.take f.controls.length) = f.configs.map Bool.toNat
  then flippedAt s.register (s.axes.drop f.controls.length) else s.register

/-- **A bit flip is made where it can be**, and is otherwise refused before anything has
changed. -/
theorem act_flip_ends (hx : f.gate = .x) (hconfigs : f.configs.length = f.controls.length)
    (s : Session (List Nat)) :
    Ends (fun _ t => Flippable f s ∧ t = { s with register := afterFlip f s })
      (fun e t => e.IsError ∧ ¬Flippable f s ∧ t = s) (act representation (.gate f) s) := by
  have hflip : isFlip f.gate = true := by rw [hx]; rfl
  by_cases h : Flippable f s
  · have hlen := h.length_eq.trans f.length_qubits
    have hdrop : ∀ a ∈ s.axes.drop f.controls.length, a < s.register.length :=
      fun a ha => h.lt a (List.mem_of_mem_drop ha)
    have hnative := native_of_sites hlen hconfigs
      (fun a ha => h.lt a (List.mem_of_mem_take ha)) h.nodup
      (fun _ a ha => ⟨hdrop a ha, h.bits a ha⟩) (.inl hflip)
    have hrun := forM_flipAt_ok (R := R) (s := s)
      ((List.drop_sublist f.controls.length s.axes).nodup h.nodup) hdrop
    have happlied : native f s = .ok .applied { s with register := afterFlip f s } := by
      rw [hnative, hflip, Bool.and_true, afterFlip]
      by_cases hc : restrict s.register (s.axes.take f.controls.length) = f.configs.map Bool.toNat
      · rw [if_pos (decide_eq_true hc), EStateM.bind_ok hrun, if_pos hc]
        rfl
      · rw [if_neg (by simpa using hc), if_neg hc]
        rfl
    rw [act_gate_of_applied happlied]
    exact ⟨h, rfl⟩
  · have hparts : f.parts = none := by
      unfold PlacedGate.parts
      rw [hx]
    refine (act_whole_ends hparts s).mono ?_ fun e t he => ⟨he.1, h, he.2⟩
    rintro _ t ⟨fires, happlies, -⟩
    -- what has been applied was possible
    have htargets := happlies.targets (by rw [hx]; rfl)
    refine absurd ⟨happlies.length_eq.trans f.length_qubits.symm, happlies.nodup, ?_,
      fun a ha => (htargets a ha).2⟩ h
    intro a ha
    rw [← List.take_append_drop f.controls.length s.axes] at ha
    obtain ha | ha := List.mem_append.mp ha
    · exact (happlies.controls hconfigs).1 a ha
    · exact (htargets a ha).1

/-! ## Where the flips of an exchange lie -/

/-- The axis that a qubit lies on, zero standing for that of a qubit that is not there. -/
def axisIn (qubits axes : List Nat) (q : Nat) : Nat := (axisOf qubits axes q).getD 0

theorem axisOf_eq_axisIn {qubits axes : List Nat} (hlen : axes.length = qubits.length) {q : Nat}
    (hq : q ∈ qubits) : axisOf qubits axes q = some (axisIn qubits axes q) := by
  obtain ⟨a, -, ha⟩ := exists_axisOf hlen hq
  rw [axisIn, ha]
  rfl

/-- Distinct qubits lie on the axes in order. -/
theorem map_axisIn {qubits axes : List Nat} (hnodup : qubits.Nodup)
    (hlen : axes.length = qubits.length) : qubits.map (axisIn qubits axes) = axes := by
  have hmap := map_axisAt hnodup hlen
  rw [← hmap]
  refine List.map_congr_left fun q hq => ?_
  rw [axisIn, axisOf_map _ hq]
  rfl

/-- **An exchange of the qubits `a` and `b`**, which lie on the axes `first` and
`second`. -/
structure Exchanges (g : PlacedGate R) (s : Session (List Nat)) (a b first second : Nat) :
    Prop where
  /-- The gate is an exchange. -/
  gate_eq : g.gate = .swap
  /-- The two qubits are its targets. -/
  targets_eq : g.targets = [a, b]
  /-- There is one axis per qubit. -/
  length_eq : s.axes.length = g.qubits.length
  /-- No site is named twice. -/
  nodup : s.axes.Nodup
  /-- The targets lie on the last two axes. -/
  drop_eq : s.axes.drop g.controls.length = [first, second]

/-- Every exchange that is begun is one of two qubits on two axes. -/
theorem exists_exchanges {a b : Nat} (hswap : g.gate = .swap) (htargets : g.targets = [a, b])
    (hlen : s.axes.length = g.qubits.length) (hnodup : s.axes.Nodup) :
    ∃ first second, Exchanges g s a b first second := by
  have htwo : (s.axes.drop g.controls.length).length = 2 := by
    rw [List.length_drop, hlen, g.length_qubits, htargets, Nat.add_sub_cancel_left]
    rfl
  obtain ⟨first, second, hdrop⟩ := List.length_eq_two.mp htwo
  exact ⟨first, second, hswap, htargets, hlen, hnodup, hdrop⟩

/-- The first and the last flip of an exchange look at the two targets only. -/
theorem flippable_outer_iff {a b x y : Nat} {u : Session (List Nat)} (haxes : u.axes = [y, x]) :
    Flippable (PlacedGate.flip a [b] [true] : PlacedGate R) u
      ↔ y ≠ x ∧ y < u.register.length ∧ x < u.register.length ∧ u.register.getD x 0 < 2 := by
  constructor
  · rintro ⟨-, hnodup, hlt, hbits⟩
    rw [haxes] at hnodup hlt hbits
    have hbit := hbits x (by simp [PlacedGate.flip])
    exact ⟨by simpa using hnodup, hlt y (by simp), hlt x (by simp), hbit⟩
  · rintro ⟨hne, hy, hx, hbit⟩
    refine ⟨by rw [haxes]; rfl, by simpa [haxes] using hne, ?_, ?_⟩
    · rw [haxes]
      simpa using ⟨hy, hx⟩
    · rw [haxes]
      simpa [PlacedGate.flip] using hbit

/-- **The values with the first of two sites flipped**, if the second one holds one. -/
def halfExchanged (values : List Nat) (first second : Nat) : List Nat :=
  if values.getD second 0 = 1 then values.set first (values.getD first 0 ^^^ 1) else values

/-- This is what the first and the last flip do. -/
theorem afterFlip_outer {a b x y : Nat} {u : Session (List Nat)} (haxes : u.axes = [y, x]) :
    afterFlip (PlacedGate.flip a [b] [true] : PlacedGate R) u = halfExchanged u.register x y := by
  unfold afterFlip halfExchanged
  rw [haxes]
  simp [PlacedGate.flip, flippedAt_singleton]

@[simp] theorem length_halfExchanged (values : List Nat) (first second : Nat) :
    (halfExchanged values first second).length = values.length := by
  unfold halfExchanged
  split_ifs <;> simp

theorem getD_halfExchanged_second {first second : Nat} (h : first ≠ second) (values : List Nat) :
    (halfExchanged values first second).getD second 0 = values.getD second 0 := by
  unfold halfExchanged
  split_ifs
  · rw [getD_set, if_neg fun heq => h heq.1]
  · rfl

theorem getD_halfExchanged_first_lt {values : List Nat} {first : Nat}
    (hlt : first < values.length) (hbit : values.getD first 0 < 2) (second : Nat) :
    (halfExchanged values first second).getD first 0 < 2 := by
  unfold halfExchanged
  split_ifs
  · rw [getD_set, if_pos ⟨rfl, hlt⟩]
    exact Nat.xor_lt_two_pow (n := 1) hbit (by decide)
  · exact hbit

@[simp] theorem length_afterFlip (f : PlacedGate R) (u : Session (List Nat)) :
    (afterFlip f u).length = u.register.length := by
  unfold afterFlip
  split_ifs
  · exact length_flippedAt _ _
  · rfl

/-- A flip keeps the values of all sites that are no targets. -/
theorem getD_afterFlip_of_notMem {u : Session (List Nat)} {site : Nat}
    (h : site ∉ u.axes.drop f.controls.length) :
    (afterFlip f u).getD site 0 = u.register.getD site 0 := by
  unfold afterFlip
  split_ifs
  · exact getD_overwrite_of_notMem h
  · rfl

namespace Exchanges

variable {a b first second : Nat} (h : Exchanges g s a b first second)

include h

theorem ne : first ≠ second := by
  have hdistinct : [first, second].Nodup := h.drop_eq ▸ (List.drop_sublist _ _).nodup h.nodup
  simpa using hdistinct

/-- The second target lies on the second of the two axes, and so does the first on the
first, unless they are the same. -/
theorem axisIn_targets : axisIn g.qubits s.axes b = second ∧
    (a ≠ b → axisIn g.qubits s.axes a = first) := by
  have hlen := h.length_eq.trans g.length_qubits
  have htake : (s.axes.take g.controls.length).length = g.controls.length := by
    rw [List.length_take]
    omega
  have happend := axisOf_append htake [a, b] [first, second]
  rw [← h.drop_eq, List.take_append_drop, h.drop_eq, ← h.targets_eq, ← PlacedGate.qubits,
    h.targets_eq] at happend
  refine ⟨?_, fun hab => ?_⟩
  · rw [axisIn, happend]
    simp [axisOf]
  · rw [axisIn, happend]
    simp [axisOf, List.lookup_cons, beq_false_of_ne hab]

/-- The flip in the middle has the qubits of the exchange, in the same order. -/
theorem qubits_middle :
    (PlacedGate.flip b (g.controls ++ [a]) (g.configs ++ [true]) : PlacedGate R).qubits
      = g.qubits := by
  simp [PlacedGate.flip, PlacedGate.qubits, h.targets_eq]

/-- Its target is the second one. -/
theorem drop_middle :
    (g.qubits.map (axisIn g.qubits s.axes)).drop (g.controls ++ [a]).length = [second] := by
  have hqubits : g.qubits = g.controls ++ [a] ++ [b] := by
    rw [PlacedGate.qubits, h.targets_eq, List.append_assoc, List.singleton_append]
  rw [← h.axisIn_targets.1, hqubits, List.map_append, List.drop_left' (List.length_map _)]
  rfl

/-- It looks at all axes of the exchange. -/
theorem flippable_middle_iff {u : Session (List Nat)}
    (haxes : u.axes = g.qubits.map (axisIn g.qubits s.axes))
    (hregister : u.register.length = s.register.length) :
    Flippable (PlacedGate.flip b (g.controls ++ [a]) (g.configs ++ [true]) : PlacedGate R) u
      ↔ (g.qubits.Nodup ∧ ∀ x ∈ s.axes, x < s.register.length) ∧
        u.register.getD second 0 < 2 := by
  have htarget : u.axes.drop (g.controls ++ [a]).length = [second] := by
    rw [haxes, h.drop_middle]
  constructor
  · rintro ⟨-, hdistinct, hlt, hbits⟩
    have hg : g.qubits.Nodup := List.Nodup.of_map _ (haxes ▸ hdistinct)
    rw [haxes, map_axisIn hg h.length_eq, hregister] at hlt
    exact ⟨⟨hg, hlt⟩, hbits second (by rw [PlacedGate.flip, htarget]; simp)⟩
  · rintro ⟨⟨hg, hlt⟩, hbit⟩
    rw [map_axisIn hg h.length_eq] at haxes
    refine ⟨by rw [haxes, h.length_eq, h.qubits_middle], haxes ▸ h.nodup, ?_, ?_⟩
    · rw [haxes, hregister]
      exact hlt
    · intro x hx
      rw [PlacedGate.flip, htarget, List.mem_singleton] at hx
      rwa [hx]

end Exchanges

/-! ## Halfway through an exchange -/

/-- **An exchange that stops halfway** at the axes of a session, once the site `first` has
been flipped: the site `second` holds one, so that the first flip is made, and the second
flip finds a qubit that is listed twice or an axis that is no site. -/
structure StopsHalfway (g : PlacedGate R) (s : Session (List Nat)) (first second : Nat) :
    Prop where
  /-- Two different qubits on the two axes are exchanged. -/
  exchanges : ∃ a b, a ≠ b ∧ Exchanges g s a b first second
  /-- The first axis is a site that holds zero or one. -/
  first_bit : first < s.register.length ∧ s.register.getD first 0 < 2
  /-- The second axis is a site that holds one. -/
  second_one : second < s.register.length ∧ s.register.getD second 0 = 1
  /-- Some qubit is listed twice, or some axis does not exist. -/
  stuck : ¬(g.qubits.Nodup ∧ ∀ x ∈ s.axes, x < s.register.length)

/-- The qubits and the axes are those of the exchange. -/
theorem Exchanges.of_stopsHalfway {a b first second x y : Nat} (h : Exchanges g s a b first second)
    (hhalf : StopsHalfway g s x y) : a ≠ b ∧ x = first ∧ y = second := by
  obtain ⟨c, d, hne, h'⟩ := hhalf.exchanges
  obtain ⟨rfl, rfl⟩ : a = c ∧ b = d := by simpa using h.targets_eq.symm.trans h'.targets_eq
  exact ⟨hne, by simpa using h'.drop_eq.symm.trans h.drop_eq⟩

/-- **How a gate that is refused leaves a session**: as it was, or with half an exchange
done. -/
def LeftBy (g : PlacedGate R) (s t : Session (List Nat)) : Prop :=
  (t = s ∧ ∀ first second, ¬StopsHalfway g s first second) ∨
    ∃ first second, StopsHalfway g s first second ∧
      t = { s with register := s.register.set first (s.register.getD first 0 ^^^ 1) }

/-- A first flip that is refused leaves all as it was. -/
theorem Exchanges.leftBy_first {a b first second : Nat} (h : Exchanges g s a b first second)
    (hstuck : ¬Flippable (PlacedGate.flip a [b] [true] : PlacedGate R)
      { s with axes := [second, axisIn g.qubits s.axes a] }) : LeftBy g s s := by
  refine .inl ⟨rfl, fun x y hhalf => hstuck ?_⟩
  obtain ⟨hab, rfl, rfl⟩ := h.of_stopsHalfway hhalf
  rw [h.axisIn_targets.2 hab, flippable_outer_iff rfl]
  exact ⟨h.ne.symm, hhalf.second_one.1, hhalf.first_bit⟩

/-- **A second flip that is refused leaves what the first one has done.** -/
theorem Exchanges.leftBy_middle {a b first second : Nat} (h : Exchanges g s a b first second)
    (hab : a ≠ b) (hfirst : first < s.register.length ∧ s.register.getD first 0 < 2)
    (hsecond : second < s.register.length)
    (hstuck : ¬((g.qubits.Nodup ∧ ∀ x ∈ s.axes, x < s.register.length) ∧
      s.register.getD second 0 < 2)) :
    LeftBy g s { s with register := halfExchanged s.register first second } := by
  unfold halfExchanged
  by_cases hone : s.register.getD second 0 = 1
  · rw [if_pos hone]
    exact .inr ⟨first, second, ⟨⟨a, b, hab, h⟩, hfirst, ⟨hsecond, hone⟩,
      fun hsites => hstuck ⟨hsites, by omega⟩⟩, rfl⟩
  · rw [if_neg hone]
    refine .inl ⟨rfl, fun x y hhalf => ?_⟩
    obtain ⟨-, -, rfl⟩ := h.of_stopsHalfway hhalf
    exact hone hhalf.second_one.2

/-- **The three flips of an exchange**, one after the other: only the second can be
refused once a value has changed, and it has looked at every axis if it is made. -/
theorem Exchanges.actEach_ends {a b first second : Nat} (h : Exchanges g s a b first second)
    (hconfigs : g.configs.length = g.controls.length) :
    Ends (fun _ _ => g.qubits.Nodup ∧ ∀ x ∈ s.axes, x < s.register.length)
      (fun (e : Failure R) t => e.IsError ∧ LeftBy g s { t with axes := s.axes })
      (actEach representation (axisIn g.qubits s.axes)
        [.gate (.flip a [b] [true]), .gate (.flip b (g.controls ++ [a]) (g.configs ++ [true])),
          .gate (.flip a [b] [true])] s) := by
  obtain ⟨hb, ha⟩ := h.axisIn_targets
  have houter : (Operation.gate (.flip a [b] [true]) : Operation R).qubits.map
      (axisIn g.qubits s.axes) = [second, axisIn g.qubits s.axes a] := by
    rw [← hb]
    rfl
  have hinner : (Operation.gate (.flip b (g.controls ++ [a]) (g.configs ++ [true])) :
      Operation R).qubits = g.qubits := h.qubits_middle
  rw [actEach_cons, houter]
  refine Ends.bind ((act_flip_ends rfl rfl _).mono (fun _ _ => id) ?_) ?_
  · rintro e _ ⟨he, hstuck, rfl⟩
    exact ⟨he, h.leftBy_first hstuck⟩
  rintro _ _ ⟨hmade, rfl⟩
  -- the first flip has been made, so that the targets are two sites
  obtain ⟨hne, hsecond, hfirst⟩ := (flippable_outer_iff rfl).mp hmade
  have hab : a ≠ b := fun hab => hne (hab ▸ hb.symm)
  rw [ha hab] at houter hne hfirst ⊢
  rw [afterFlip_outer rfl, actEach_cons, hinner]
  have hmiddle := h.flippable_middle_iff (u := { s with
      register := halfExchanged s.register first second
      axes := g.qubits.map (axisIn g.qubits s.axes) }) rfl (length_halfExchanged _ _ _)
  refine Ends.bind ((act_flip_ends rfl (by simp [PlacedGate.flip, hconfigs]) _).mono
    (fun _ _ => id) ?_) ?_
  · rintro e _ ⟨he, hstuck, rfl⟩
    rw [hmiddle, getD_halfExchanged_second h.ne] at hstuck
    exact ⟨he, h.leftBy_middle hab hfirst hsecond hstuck⟩
  rintro _ _ ⟨hmade, rfl⟩
  have hsites := (hmiddle.mp hmade).1
  rw [actEach_cons, houter]
  refine Ends.bind ((act_flip_ends rfl rfl _).mono (fun _ _ => id) ?_) ?_
  · rintro e _ ⟨he, hstuck, rfl⟩
    -- the second flip has kept the value of the first target
    refine absurd ((flippable_outer_iff rfl).mpr ⟨hne, ?_, ?_, ?_⟩) hstuck
    · simpa using hsecond
    · simpa using hfirst.1
    · rw [getD_afterFlip_of_notMem]
      · exact getD_halfExchanged_first_lt hfirst.1 hfirst.2 second
      · simpa only [PlacedGate.flip, h.drop_middle, List.mem_singleton] using h.ne
  · exact fun _ _ _ => hsites

/-! ## Whole or half -/

/-- **An exchange that is made has distinct qubits on axes that exist**, and one that is
refused leaves half of it at worst. -/
theorem act_exchange_ends {flips : List (PlacedGate R)} (hparts : g.parts = some flips)
    (hconfigs : g.configs.length = g.controls.length) (s : Session (List Nat)) :
    Ends (fun _ _ => g.qubits.Nodup ∧ ∀ x ∈ s.axes, x < s.register.length)
      (fun (e : Failure R) t => e.IsError ∧ LeftBy g s t) (act representation (.gate g) s) := by
  obtain ⟨hswap, a, b, htargets, rfl⟩ := PlacedGate.parts_eq_some hparts
  have hdeclined : native g s = .ok .notImplemented s :=
    native_declined (by rw [hswap]; rfl) (by rw [hswap]; rfl) s
  have hsome : g.parts.isSome = true := by rw [hparts]; rfl
  have hbegun : ∀ first second, StopsHalfway g s first second →
      s.axes.length = g.qubits.length ∧ s.axes.Nodup := by
    intro first second hhalf
    obtain ⟨_, _, _, h⟩ := hhalf.exchanges
    exact ⟨h.length_eq, h.nodup⟩
  by_cases hlen : s.axes.length = g.qubits.length
  · by_cases hnodup : s.axes.Nodup
    · obtain ⟨first, second, h⟩ := exists_exchanges hswap htargets hlen hnodup
      rw [act_gate_of_parts hdeclined hparts (fun q => axisOf_eq_axisIn hlen) hlen.symm hnodup]
      exact .restoringAxes (h.actEach_ends hconfigs)
    · rw [act_gate_of_inParts_error hdeclined hsome fun _ => inParts_of_repeated hlen hnodup]
      exact ⟨trivial, .inl ⟨rfl, fun _ _ hhalf => hnodup (hbegun _ _ hhalf).2⟩⟩
  · rw [act_gate_of_inParts_error hdeclined hsome fun _ => inParts_of_length_ne hlen]
    exact ⟨trivial, .inl ⟨rfl, fun _ _ hhalf => hlen (hbegun _ _ hhalf).1⟩⟩

/-- **Acting with a gate leaves half an exchange at worst**, and an exchange that stops
halfway is refused. -/
theorem act_gate_ends (hconfigs : g.configs.length = g.controls.length)
    (s : Session (List Nat)) :
    Ends (fun _ _ => ∀ first second, ¬StopsHalfway g s first second)
      (fun (e : Failure R) t => e.IsError ∧ LeftBy g s t) (act representation (.gate g) s) := by
  cases hparts : g.parts with
  | none =>
    have hwhole : ∀ first second, ¬StopsHalfway g s first second := by
      intro first second hhalf
      obtain ⟨a, b, -, h⟩ := hhalf.exchanges
      unfold PlacedGate.parts at hparts
      rw [h.gate_eq, h.targets_eq] at hparts
      cases hparts
    exact (act_whole_ends hparts s).mono (fun _ _ _ => hwhole)
      fun e t he => ⟨he.1, .inl ⟨he.2, hwhole⟩⟩
  | some flips =>
    exact (act_exchange_ends hparts hconfigs s).mono
      (fun _ _ hsites _ _ hhalf => hhalf.stuck hsites) fun _ _ => id

/-- **A gate that fails leaves all as it was, or half an exchange.** Half an exchange is
left exactly where one stops halfway: it is then always refused, and its first target has
been flipped. This cannot be at axes that are sites, if no qubit is listed twice. -/
theorem act_gate_all_or_half (g : PlacedGate R) (hconfigs : g.configs.length = g.controls.length)
    (s : Session (List Nat)) :
    (∀ e t, act representation (.gate g) s = .error e t →
      (∀ first second, ¬StopsHalfway g s first second) → t = s) ∧
    (∀ first second, StopsHalfway g s first second →
      ∃ e, act representation (.gate g) s = .error (.error e) { s with
        register := s.register.set first (s.register.getD first 0 ^^^ 1) }) ∧
    (g.qubits.Nodup → (∀ a ∈ s.axes, a < s.register.length) →
      ∀ e t, act representation (.gate g) s = .error e t → t = s) := by
  have hends := act_gate_ends hconfigs s
  have hwhole : ∀ e t, act representation (.gate g) s = .error e t →
      (∀ first second, ¬StopsHalfway g s first second) → t = s := by
    intro e t h hnone
    rw [h] at hends
    obtain ⟨-, ⟨rfl, -⟩ | ⟨first, second, hhalf, -⟩⟩ := hends
    · rfl
    · exact absurd hhalf (hnone first second)
  refine ⟨hwhole, fun first second hhalf => ?_, fun hnodup hlt e t h =>
    hwhole e t h fun _ _ hhalf => hhalf.stuck ⟨hnodup, hlt⟩⟩
  cases h : act representation (.gate g) s with
  | ok u t =>
    rw [h] at hends
    exact absurd hhalf (hends first second)
  | error e t =>
    rw [h] at hends
    obtain ⟨he, ⟨-, hnone⟩ | ⟨first', second', hhalf', rfl⟩⟩ := hends
    · exact absurd hhalf (hnone first second)
    · obtain ⟨a, b, -, hexchanges⟩ := hhalf.exchanges
      obtain ⟨-, rfl, rfl⟩ := hexchanges.of_stopsHalfway hhalf'
      cases e with
      | error e => exact ⟨e, rfl⟩
      | fault f => exact absurd he id

/-- An exchange under a control that is listed as a target as well: on distinct axes that
are sites it is refused, and its first target, at the axis `1`, has been flipped. -/
theorem act_gate_all_or_half_listed_twice :
    let g : PlacedGate Float := ⟨.swap, [4, 7], [4], [true]⟩
    let s : Session (List Nat) := ⟨[5, 0, 1], [0, 1, 2], ⟨[("m", [5])]⟩, .ofWords #[]⟩
    g.configs.length = g.controls.length ∧ StopsHalfway g s 1 2 ∧
      ∃ e, act representation (.gate g) s = .error (.error e) { s with register := [5, 1, 1] } := by
  intro g s
  have hexchanges : Exchanges g s 4 7 1 2 := ⟨rfl, rfl, rfl, by decide, rfl⟩
  have hhalf : StopsHalfway g s 1 2 :=
    ⟨⟨4, 7, by decide, hexchanges⟩, by decide, by decide, by decide⟩
  have hvalues : s.register.set 1 (s.register.getD 1 0 ^^^ 1) = [5, 1, 1] := by decide
  exact ⟨rfl, hhalf, hvalues ▸ (act_gate_all_or_half g rfl s).2.1 1 2 hhalf⟩

/-- **A refused exchange may change a value**: its control lies on an axis that is no
site, and this is found once the first target has been flipped. -/
theorem exchange_stops_halfway :
    let g : PlacedGate Float := ⟨.swap, [1, 2], [0], [true]⟩
    g.configs.length = g.controls.length ∧
      act representation (.gate g) ⟨[0, 1], [2, 0, 1], .empty, .ofWords #[]⟩
        = .error (.error (.axisOutOfRange 2 2)) ⟨[1, 1], [2, 0, 1], .empty, .ofWords #[]⟩ :=
  ⟨rfl, rfl⟩

end BasisState

end Qudit
