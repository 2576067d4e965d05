import Qudit.Proofs.Acting.Locality
import Qudit.Proofs.Acting.Primitive
import Qudit.Proofs.Acting.Transparency

/-!
# Which circuits act on values

A register of values can follow bit flips, exchanges, gates that are declared diagonal
and measurements, and nothing else. For an admitted circuit, each of whose operations is
acted with at its own qubits, there is one more thing that can go wrong: a measurement may
have a mask with more or fewer entries than it has qubits, which admission does not look
at. Acting succeeds if every gate is one of these, at whatever depth, and every mask fits;
otherwise it stops at the first leaf for which this does not hold, naming the gate or the
two lengths (`acts_iff_supported`). No other refusal can come up, since admission has
checked the axes, the dimensions and the keys.

What makes this work is that every site keeps a value that it can hold: a gate on qubits
would otherwise be declined although it is supported. The values are followed through the
steps that the register takes by itself (`steps`). These are the leaves, with each
exchange taken apart into its bit flips, and acting with the circuit is acting with them
up to the axes that are left at the end. As they fit the register when the leaves do, one
lemma on sequences of gates and measurements (`actEach_ends`) serves for both.
-/

namespace Qudit

open Radix Acting Operation

variable {σ R α : Type}

/-- Of two results that differ in the axes only, one ends as the other does, in all that
is not about the axes. -/
theorem Acting.SameButAxes.ends {r r' : EStateM.Result (Failure R) (Session σ) α}
    (h : SameButAxes r r') {good : α → Session σ → Prop} {bad : Failure R → Session σ → Prop}
    (hgood : ∀ a t axes, good a t → good a { t with axes := axes })
    (hbad : ∀ e t axes, bad e t → bad e { t with axes := axes }) (hr : Ends good bad r') :
    Ends good bad r := by
  cases r with
  | ok a s =>
    cases r' with
    | ok b t =>
      injection h s.axes with hab hst
      have hgood := hgood b t s.axes hr
      rwa [← hab, ← hst] at hgood
    | error e t => cases h []
  | error e s =>
    cases r' with
    | ok b t => cases h []
    | error e' t =>
      injection h s.axes with he hst
      have hbad := hbad e' t s.axes hr
      rwa [← he, ← hst] at hbad

variable [Scalar R] {dims : List Nat}

namespace Operation

/-- What fits keeps to the qubits that it declares. -/
theorem Fits.scoped {op : Operation R} (h : op.Fits dims) : op.Scoped := by
  induction op with
  | gate g => exact .gate g
  | measure m => exact .measure m
  | composite label qubits body ih =>
    obtain _ | _ | ⟨_, -, hnodup, hwithin, hinner⟩ := h
    exact .composite label hnodup hwithin fun op hop => ih op hop (hinner op hop)

/-- The leaves of what fits are gates and measurements that fit. -/
theorem Fits.of_mem_leaves {op leaf : Operation R} (h : op.Fits dims) (hleaf : leaf ∈ op.leaves) :
    leaf.Fits dims ∧ leaf.IsPrimitive := by
  induction op with
  | gate g =>
    obtain rfl := List.mem_singleton.mp hleaf
    cases h with
    | gate hg => exact ⟨.gate hg, .gate hg.length_configs⟩
  | measure m =>
    obtain rfl := List.mem_singleton.mp hleaf
    exact ⟨h, .measure m⟩
  | composite label qubits body ih =>
    obtain _ | _ | ⟨_, -, -, -, hinner⟩ := h
    obtain ⟨op, hop, hleaf⟩ := mem_leavesOfList.mp hleaf
    exact ih op hop (hinner op hop) hleaf

end Operation

/-- Acting with operations that fit is acting with their leaves. -/
theorem sameButAxes_of_fits (rep : Representation σ R) {ops : List (Operation R)}
    (hfits : ∀ op ∈ ops, op.Fits dims) (s : Session σ) :
    SameButAxes (actEach rep id ops s) (actEach rep id (leavesOfList ops) s) :=
  sameButAxes_leavesOfList (fun op hop t =>
    sameButAxes_leaves (hfits op hop).scoped (Set.injOn_id _) t) fun _ => rfl

namespace BasisState

/-! ## Leaves -/

omit [Scalar R] in
/-- **The leaves that a register of values can follow**: of the gates the bit flip, the
exchange and those that are declared diagonal, and measurements with masks that fit. -/
def supports : Operation R → Bool
  | .gate g => g.gate.changesValues || g.gate.isDiagonal
  | .measure m => m.FullMask
  | .composite _ _ _ => true

omit [Scalar R] in
/-- **Why a leaf is refused** that a register of values cannot follow: nothing acts with the
gate, or the mask does not fit. -/
def refusalOf : Operation R → ActError R
  | .measure m => .maskLength m.mask.length m.qubits.length
  | leaf => .cannotActOn leaf

omit [Scalar R] in
theorem supports_gate_iff {g : PlacedGate R} : supports (.gate g) = true ↔
    g.gate = .x ∨ g.gate = .swap ∨ g.gate.isDiagonal = true := by
  rw [supports, Bool.or_eq_true, ← or_assoc]
  refine or_congr_left ?_
  cases g.gate <;> simp [Gate.changesValues]

omit [Scalar R] in
theorem supports_measure_iff {m : Measurement} :
    supports (.measure m : Operation R) = true ↔ m.FullMask :=
  decide_eq_true_iff

variable {s : Session (List Nat)}

/-- **A gate or a measurement that fits is acted with if it is supported**, and the sites
keep values that they can hold; otherwise nothing happens. -/
theorem act_ends {op : Operation R} (hprimitive : op.IsPrimitive) (hfits : op.Fits dims)
    (hvalid : Valid dims s.register) (haxes : s.axes = op.qubits)
    (hkeys : (s.log.keys ++ op.keys).Nodup) :
    Ends (fun _ t => (Valid dims t.register ∧ t.log.keys = s.log.keys ++ op.keys) ∧
        supports op = true)
      (fun e t => t = s ∧ supports op = false ∧ e = .error (refusalOf op))
      (act representation op s) := by
  cases hprimitive with
  | @gate g _ =>
    obtain ⟨hg⟩ := hfits
    have hlog : s.log.keys = s.log.keys ++ (Operation.gate g).keys := (List.append_nil _).symm
    by_cases hx : g.gate = .x
    · rw [act_flip hg hx hvalid haxes]
      exact ⟨⟨PlacedGate.valid_flipped hg hx hvalid, hlog⟩, by rw [supports, hx]; rfl⟩
    by_cases hswap : g.gate = .swap
    · rw [act_exchange hg hswap hvalid haxes]
      refine ⟨⟨?_, hlog⟩, by rw [supports, hswap]; rfl⟩
      split_ifs
      · exact valid_overwrite hvalid (hg.carries_exchange hswap hvalid).1
      · exact hvalid
    cases hdiagonal : g.gate.isDiagonal with
    | true =>
      rw [act_diagonal hg hdiagonal hvalid haxes]
      exact ⟨⟨hvalid, hlog⟩, by rw [supports, hdiagonal, Bool.or_true]⟩
    | false =>
      have hchanges : g.gate.changesValues = false := by
        cases hgate : g.gate with
        | x => exact absurd hgate hx
        | swap => exact absurd hgate hswap
        | _ => rfl
      rw [act_unsupported hx hswap hdiagonal]
      exact ⟨rfl, by rw [supports, hchanges, hdiagonal]; rfl, rfl⟩
  | measure m =>
    obtain _ | ⟨hlt, -⟩ := hfits
    have hkey : m.key ∉ s.log.keys := fun hmem =>
      (List.nodup_append.mp hkeys).2.2 _ hmem _ (by simp [keys]) rfl
    have hlen : s.axes.length = m.qubits.length := congrArg List.length haxes
    have hread := perform_ok (R := R) (s := s) (by rw [haxes, hvalid.length_eq]; exact hlt)
    by_cases hmask : m.FullMask
    · rw [act_measure_ok hlen hkey hmask hread (length_restrict _ _)]
      exact ⟨⟨hvalid, Log.keys_add _ _ _⟩, decide_eq_true hmask⟩
    · rw [act_measure_of_mask hlen hkey hmask]
      exact ⟨rfl, decide_eq_false hmask, rfl⟩

/-- **Gates and measurements that fit are acted with up to the first that is not
supported**, and the sites keep values that they can hold. -/
theorem actEach_ends {ops : List (Operation R)} (hops : ∀ op ∈ ops, op.Fits dims ∧ op.IsPrimitive)
    (hvalid : Valid dims s.register) (hkeys : (s.log.keys ++ keysOfList ops).Nodup) :
    Ends (fun _ t => Valid dims t.register ∧ ops.find? (fun op => !supports op) = none)
      (fun e t => Valid dims t.register ∧ ∃ op, ops.find? (fun op => !supports op) = some op ∧
        e = .error (refusalOf op))
      (actEach representation id ops s) := by
  induction ops generalizing s with
  | nil => exact ⟨hvalid, rfl⟩
  | cons op ops ih =>
    obtain ⟨hfits, hprimitive⟩ := hops op (by simp)
    rw [keysOfList, ← List.append_assoc] at hkeys
    have hact := act_ends (s := { s with axes := op.qubits }) hprimitive hfits hvalid rfl
      (List.nodup_append.mp hkeys).1
    rw [actEach_cons, List.map_id]
    refine Ends.bind (hact.mono (fun _ _ => id) ?_) ?_
    · rintro e _ ⟨rfl, hsupports, rfl⟩
      exact ⟨hvalid, op, List.find?_cons_of_pos (by rw [hsupports]; rfl), rfl⟩
    · rintro _ t ⟨⟨hvalid, hlog⟩, hsupports⟩
      rw [List.find?_cons_of_neg (by rw [hsupports]; exact Bool.false_ne_true)]
      exact ih (fun o ho => hops o (by simp [ho])) hvalid (by rw [hlog]; exact hkeys)

/-! ## Steps -/

omit [Scalar R] in
/-- What a register of values does by itself in order to act with a leaf: the bit flips of
an exchange, and anything else as it is. -/
def stepsOf : Operation R → List (Operation R)
  | .gate g => (g.parts.getD [g]).map .gate
  | leaf => [leaf]

omit [Scalar R] in
/-- **The steps of a sequence of operations** on a register of values. -/
def steps (ops : List (Operation R)) : List (Operation R) :=
  (leavesOfList ops).flatMap stepsOf

omit [Scalar R] in
theorem keysOfList_stepsOf (leaf : Operation R) : keysOfList (stepsOf leaf) = leaf.keys := by
  cases leaf with
  | gate g =>
    rw [stepsOf, ← map_key_readings, readings_gates]
    rfl
  | measure m => rfl
  | composite label qubits body => exact List.append_nil _

omit [Scalar R] in
/-- The steps have the keys of the operations. -/
theorem keysOfList_steps (ops : List (Operation R)) : keysOfList (steps ops) = keysOfList ops := by
  rw [← keysOfList_leavesOfList ops, steps, keysOfList_eq_flatMap, keysOfList_eq_flatMap,
    List.flatMap_assoc]
  exact List.flatMap_congr fun leaf _ =>
    (keysOfList_eq_flatMap _).symm.trans (keysOfList_stepsOf leaf)

/-- The steps of a leaf that fits are gates and measurements that fit. -/
theorem fits_stepsOf {leaf step : Operation R} (hfits : leaf.Fits dims)
    (hprimitive : leaf.IsPrimitive) (hstep : step ∈ stepsOf leaf) :
    step.Fits dims ∧ step.IsPrimitive := by
  cases hprimitive with
  | @gate g hconfigs =>
    obtain ⟨f, hf, rfl⟩ := List.mem_map.mp hstep
    cases hparts : g.parts with
    | none =>
      rw [hparts] at hf
      obtain rfl := List.mem_singleton.mp hf
      exact ⟨hfits, .gate hconfigs⟩
    | some flips =>
      rw [hparts] at hf
      obtain ⟨hg⟩ := hfits
      have hfits := hg.of_mem_parts hparts hf
      exact ⟨.gate hfits, .gate hfits.length_configs⟩
  | measure m =>
    obtain rfl := List.mem_singleton.mp hstep
    exact ⟨hfits, .measure m⟩

/-- **Acting with a leaf is acting with its steps.** -/
theorem sameButAxes_stepsOf {leaf : Operation R} (hfits : leaf.Fits dims)
    (s : Session (List Nat)) :
    SameButAxes (act representation leaf { s with axes := leaf.qubits.map id })
      (actEach representation id (stepsOf leaf) s) := by
  have hself : SameButAxes (act representation leaf { s with axes := leaf.qubits.map id })
      (actEach representation id [leaf] s) := by
    rw [actEach_singleton]
    exact fun _ => rfl
  cases leaf with
  | gate g =>
    obtain ⟨hg⟩ := hfits
    rw [stepsOf]
    cases hparts : g.parts with
    | none => exact hself
    | some flips =>
      obtain ⟨hswap, -⟩ := PlacedGate.parts_eq_some hparts
      rw [act_gate_of_parts (m := id) (native_declined (by rw [hswap]; rfl) (by rw [hswap]; rfl) _)
        hparts (fun q hq => axisOf_map id hq) (List.length_map _).symm
        ((List.map_id _).symm ▸ hg.nodup), restoringAxes_eq_withAxes]
      exact (sameButAxes_withAxes _ _).trans (actEach_of_alike _ _ _ (alikeButAxes_withAxes s _))
  | measure m => exact hself
  | composite label qubits body => exact hself

/-- **Acting with operations that fit is acting with their steps**, but for the axes that
are left at the end. -/
theorem sameButAxes_steps {ops : List (Operation R)} (hfits : ∀ op ∈ ops, op.Fits dims)
    (s : Session (List Nat)) :
    SameButAxes (actEach representation id ops s) (actEach representation id (steps ops) s) := by
  refine (sameButAxes_of_fits representation hfits s).trans
    (sameButAxes_flatMap (fun leaf hleaf s => ?_) fun _ => rfl)
  obtain ⟨op, hop, hmem⟩ := mem_leavesOfList.mp hleaf
  exact sameButAxes_stepsOf ((hfits op hop).of_mem_leaves hmem).1 s

/-- The values are ones that the sites can hold after any number of steps. -/
theorem valid_of_steps {ops done : List (Operation R)} (hfits : ∀ op ∈ ops, op.Fits dims)
    {s : Session (List Nat)} (hvalid : Valid dims s.register)
    (hkeys : (s.log.keys ++ keysOfList ops).Nodup) (hdone : done <+: steps ops) :
    Valid dims (sessionAfter (actEach representation id done s)).register := by
  obtain ⟨rest, hrest⟩ := hdone
  have hsteps : ∀ step ∈ done, step.Fits dims ∧ step.IsPrimitive := by
    intro step hstep
    obtain ⟨leaf, hleaf, hmem⟩ := List.mem_flatMap.mp
      (hrest ▸ List.mem_append_left rest hstep : step ∈ steps ops)
    obtain ⟨op, hop, hleaf⟩ := mem_leavesOfList.mp hleaf
    obtain ⟨hfits, hprimitive⟩ := (hfits op hop).of_mem_leaves hleaf
    exact fits_stepsOf hfits hprimitive hmem
  rw [← keysOfList_steps, ← hrest, keysOfList_append, ← List.append_assoc] at hkeys
  have hends := actEach_ends hsteps hvalid (List.nodup_append.mp hkeys).1
  exact endsIn_iff.mp (hends.mono (fun _ _ h => h.1) fun _ _ h => h.1)

/-! ## Circuits -/

/-- **Exactly the supported circuits act on values.** Acting with the operations of an
admitted circuit, each at its own qubits, on values that the sites can hold, is acting
with their steps, and the sites hold values that they can hold after every step. It
succeeds if and only if every gate is a bit flip, an exchange or declared diagonal and
every mask fits, and otherwise is refused at the first leaf for which this does not hold:
a gate by its name, a mask by its length and the number of qubits. -/
theorem acts_iff_supported {ops : List (Operation R)} {c : Circuit R}
    (hc : Circuit.ofOperations dims ops = .ok c) {s : Session (List Nat)}
    (hvalid : Valid dims s.register) (hlog : s.log = .empty) :
    SameButAxes (actEach representation id ops s) (actEach representation id (steps ops) s) ∧
    (∀ done, done <+: steps ops →
      Valid dims (sessionAfter (actEach representation id done s)).register) ∧
    ((∃ t, actEach representation id ops s = .ok () t) ↔
      (∀ g, .gate g ∈ leavesOfList ops →
        g.gate = .x ∨ g.gate = .swap ∨ g.gate.isDiagonal = true) ∧
      ∀ m, .measure m ∈ leavesOfList ops → m.FullMask) ∧
    ∀ leaf, (leavesOfList ops).find? (fun leaf => !supports leaf) = some leaf →
      ∃ t, actEach representation id ops s = .error (.error (refusalOf leaf)) t := by
  obtain ⟨hfits, hkeys, -⟩ := Circuit.ofOperations_eq_ok_iff.mp hc
  have hkeys : (s.log.keys ++ keysOfList ops).Nodup := by rwa [hlog]
  have hleaves : ∀ leaf ∈ leavesOfList ops, leaf.Fits dims ∧ leaf.IsPrimitive := by
    intro leaf hleaf
    obtain ⟨op, hop, hmem⟩ := mem_leavesOfList.mp hleaf
    exact (hfits op hop).of_mem_leaves hmem
  have hsupported : (leavesOfList ops).find? (fun leaf => !supports leaf) = none ↔
      (∀ g, .gate g ∈ leavesOfList ops →
        g.gate = .x ∨ g.gate = .swap ∨ g.gate.isDiagonal = true) ∧
      ∀ m, .measure m ∈ leavesOfList ops → m.FullMask := by
    simp only [List.find?_eq_none, Bool.not_eq_true, Bool.not_eq_false']
    refine ⟨fun h => ⟨fun g hg => supports_gate_iff.mp (h _ hg),
      fun m hm => supports_measure_iff.mp (h _ hm)⟩, fun ⟨hgates, hmasks⟩ leaf hleaf => ?_⟩
    cases leaf with
    | gate g => exact supports_gate_iff.mpr (hgates g hleaf)
    | measure m => exact supports_measure_iff.mpr (hmasks m hleaf)
    | composite label qubits body => rfl
  -- the leaves end in one of two ways, and so does the circuit
  have hends : Ends (fun _ _ => (leavesOfList ops).find? (fun leaf => !supports leaf) = none)
      (fun e _ => ∃ leaf, (leavesOfList ops).find? (fun leaf => !supports leaf) = some leaf ∧
        e = .error (refusalOf leaf)) (actEach representation id ops s) := by
    refine (sameButAxes_of_fits representation hfits s).ends (fun _ _ _ => id) (fun _ _ _ => id) ?_
    exact (actEach_ends hleaves hvalid (by rwa [keysOfList_leavesOfList])).mono
      (fun _ _ h => h.2) fun _ _ h => h.2
  refine ⟨sameButAxes_steps hfits s, fun done => valid_of_steps hfits hvalid hkeys, ?_⟩
  rw [← hsupported]
  cases hrun : actEach representation id ops s with
  | ok u t =>
    rw [hrun] at hends
    have hnone : (leavesOfList ops).find? (fun leaf => !supports leaf) = none := hends
    refine ⟨⟨fun _ => hnone, fun _ => ⟨t, rfl⟩⟩, fun leaf hleaf => ?_⟩
    rw [hnone] at hleaf
    cases hleaf
  | error e t =>
    rw [hrun] at hends
    obtain ⟨first, hfirst, rfl⟩ := hends
    rw [hfirst]
    refine ⟨⟨fun ⟨_, h⟩ => (by cases h), fun h => (by cases h)⟩, fun leaf hleaf => ?_⟩
    obtain ⟨⟩ := hleaf
    exact ⟨t, rfl⟩

/-- An exchange and a phase flip within a composite, on two qubits and a qutrit, can be
followed. With a superposition between the two, one composite further in, the exchange is
made and the superposition is refused. -/
theorem acts_iff_supported_superposition :
    let exchange : Operation Float := .gate ⟨.swap, [0, 1], [], []⟩
    let phase : Operation Float := .gate ⟨.z, [1], [0], [false]⟩
    let superpose : Operation Float := .gate ⟨.h, [0], [], []⟩
    let followed : List (Operation Float) := [.composite "outer" [1, 0] [exchange, phase],
      .measure (.plain "m" [2, 0])]
    let refused : List (Operation Float) := [.composite "outer" [1, 0] [exchange,
      .composite "inner" [0] [superpose], phase], .measure (.plain "m" [2, 0])]
    let s : Session (List Nat) := ⟨[0, 1, 2], [], .empty, .ofWords #[]⟩
    Circuit.ofOperations [2, 2, 3] followed = .ok ⟨[2, 2, 3], followed⟩ ∧
      Circuit.ofOperations [2, 2, 3] refused = .ok ⟨[2, 2, 3], refused⟩ ∧
      Valid [2, 2, 3] s.register ∧ s.log = .empty ∧
      (∃ t, actEach representation id followed s = .ok () t) ∧
      (∃ t, actEach representation id refused s = .error (.error (.cannotActOn superpose)) t) ∧
      (actEach representation id refused s = .error (.error (.cannotActOn superpose)) { s with
        register := [1, 0, 2]
        axes := [1, 0] }) := by
  intro exchange phase superpose followed refused s
  have hfollowed : Circuit.ofOperations [2, 2, 3] followed = .ok ⟨[2, 2, 3], followed⟩ := rfl
  have hrefused : Circuit.ofOperations [2, 2, 3] refused = .ok ⟨[2, 2, 3], refused⟩ := rfl
  have hvalid : Valid [2, 2, 3] s.register := by simp [s, Valid]
  refine ⟨hfollowed, hrefused, hvalid, rfl, ?_, ?_, rfl⟩
  · have hleaves : leavesOfList followed = [exchange, phase, .measure (.plain "m" [2, 0])] := rfl
    refine (acts_iff_supported hfollowed hvalid rfl).2.2.1.mpr ⟨fun g hg => ?_, fun m hm => ?_⟩
    · simp only [hleaves, exchange, phase, List.mem_cons, Operation.gate.injEq, List.not_mem_nil,
        or_false, reduceCtorEq] at hg
      obtain rfl | rfl := hg
      · exact .inr (.inl rfl)
      · exact .inr (.inr rfl)
    · simp only [hleaves, exchange, phase, List.mem_cons, Operation.measure.injEq,
        List.not_mem_nil, or_false, false_or, reduceCtorEq] at hm
      obtain rfl := hm
      rfl
  · exact (acts_iff_supported hrefused hvalid rfl).2.2.2 superpose rfl

/-- A circuit without any gate in which a measurement was made for one qubit, and another
qubit was added to it afterwards, is admitted; yet acting with it is refused. -/
theorem short_mask_not_acted_with :
    let reading : Measurement := { Measurement.plain "m" [0] with qubits := [0, 1] }
    let ops : List (Operation Float) := [.measure reading]
    let s : Session (List Nat) := ⟨[0, 0], [], .empty, .ofWords #[]⟩
    Circuit.ofOperations [2, 2] ops = .ok ⟨[2, 2], ops⟩ ∧ Valid [2, 2] s.register ∧
      (∀ g, Operation.gate g ∉ leavesOfList ops) ∧
      actEach representation id ops s
        = .error (.error (.maskLength 1 2)) { s with axes := [0, 1] } := by
  intro reading ops s
  refine ⟨rfl, by simp [s, Valid], fun g hg => ?_, rfl⟩
  cases List.mem_singleton.mp hg

end BasisState

end Qudit
