import Qudit.Proofs.Acting.Parallel
import Qudit.Proofs.Simulation.Soundness

/-!
# Invert masks only change what is recorded

A circuit may be simulated with the invert masks of its measurements and without
them. Both simulations take the same way: the masks come into play where a record is
made, and nothing that follows looks at the values of a record. So they end in the
same state and with the same source, or fail at the same operation for the same
reason, and their logs have the same keys (`simulate_unmask`). Under a key the one log
has what the other has, with the outcomes inverted that the mask marks and that have
an inverse.

Both logs can be told from the outcomes that were measured, and this is what is
carried along: `Masked all todo` has the outcomes of the measurements of `all` that
precede those of `todo`.
-/

namespace Qudit

open Acting Operation

variable {σ R : Type}

/-! ## Masks and records -/

theorem invertBit_false (bit : Nat) : invertBit bit false = bit := rfl

/-- Without a mask the outcomes are recorded as they are. -/
theorem zipWith_invertBit_replicate (values : List Nat) :
    List.zipWith invertBit values (List.replicate values.length false) = values := by
  induction values with
  | nil => rfl
  | cons v vs ih =>
    rw [List.length_cons, List.replicate_succ, List.zipWith_cons_cons, ih, invertBit_false]

/-- **The masks that can be given to a measurement** are those with no more entries than
it has qubits. -/
theorem Measurement.withMask_eq_ok_iff {base m : Measurement} {given : List Bool} :
    base.withMask given = .ok m ↔ given.length ≤ base.qubits.length ∧
      m = { base with
        mask := given ++ List.replicate (base.qubits.length - given.length) false } := by
  unfold withMask
  split_ifs with hle
  · rw [Except.ok.injEq, eq_comm]
    simp [hle]
  · simp [hle]

/-- **A measurement has been given a mask exactly if it has one entry per qubit.** -/
theorem Measurement.exists_withMask_iff {m : Measurement} :
    (∃ (base : Measurement) (given : List Bool), base.withMask given = .ok m) ↔ m.FullMask := by
  constructor
  · rintro ⟨base, given, h⟩
    obtain ⟨hle, rfl⟩ := withMask_eq_ok_iff.mp h
    show (given ++ List.replicate (base.qubits.length - given.length) false).length
      = base.qubits.length
    rw [List.length_append, List.length_replicate, Nat.add_sub_cancel' hle]
  · intro h
    refine ⟨m, m.mask, withMask_eq_ok_iff.mpr ⟨Nat.le_of_eq h, ?_⟩⟩
    rw [h, Nat.sub_self, List.replicate_zero, List.append_nil]

/-- **What is recorded under a mask that was given**, which may be shorter than the
list of qubits: position for position the outcome, exchanged between zero and one
where the mask marks it. -/
theorem Measurement.getElem?_recorded {base m : Measurement} {given : List Bool}
    (h : base.withMask given = .ok m) {values : List Nat} (hlen : values.length = m.qubits.length)
    (i : Nat) : (List.zipWith invertBit values m.mask)[i]?
      = values[i]?.map fun v => if given[i]? = some true ∧ v < 2 then 1 - v else v := by
  obtain ⟨-, rfl⟩ := withMask_eq_ok_iff.mp h
  rw [List.getElem?_zipWith]
  cases hv : values[i]? with
  | none => rfl
  | some v =>
    have hi : i < base.qubits.length := hlen ▸ (List.getElem?_eq_some_iff.mp hv).1
    rw [List.getElem?_append]
    split_ifs with hgiven
    · rw [List.getElem?_eq_getElem hgiven]
      cases given[i] with
      | false => simp [invertBit]
      | true => simp [invertBit]
    · rw [List.getElem?_replicate, if_pos (by omega), List.getElem?_eq_none (by omega)]
      simp [invertBit]

/-- A record under a key that is used once is found under this key. -/
theorem Log.get?_of_mem {log : Log} (hnodup : log.keys.Nodup) {key : String} {values : List Nat}
    (h : (key, values) ∈ log.entries) : log.get? key = some values := by
  obtain ⟨entries⟩ := log
  induction entries with
  | nil => cases h
  | cons e es ih =>
    obtain ⟨hfresh, hrest⟩ := List.nodup_cons.mp hnodup
    rw [get?, List.lookup_cons]
    obtain rfl | h := List.mem_cons.mp h
    · rw [beq_self_eq_true]
    · have hne : key ≠ e.1 := fun heq => hfresh (List.mem_map.mpr ⟨_, h, heq⟩)
      rw [beq_false_of_ne hne]
      exact ih hrest h

/-! ## Two runs -/

/-- **The second of two sessions has made the same measurements without masks**: those
of `all` before `todo`. It is otherwise as the first is. -/
structure Masked (all todo : List Measurement) (s t : Session σ) : Prop where
  /-- The sessions differ in their logs only. -/
  eq : t = { s with log := t.log }
  /-- The measurements that were made, with their outcomes, are what is in both logs. -/
  made : ∃ taken : List (Measurement × List Nat), taken.map Prod.fst ++ todo = all ∧
    (∀ p ∈ taken, p.2.length = p.1.qubits.length ∧ p.1.FullMask) ∧
    s.log.entries = taken.map (fun p => (p.1.key, List.zipWith invertBit p.2 p.1.mask)) ∧
    t.log.entries = taken.map fun p => (p.1.key, p.2)
  /-- No key is used twice. -/
  nodup : t.log.keys.Nodup

namespace Masked

variable {all todo : List Measurement} {s t : Session σ}

theorem register_eq (h : Masked all todo s t) : s.register = t.register := by rw [h.eq]

theorem axes_eq (h : Masked all todo s t) : s.axes = t.axes := by rw [h.eq]

theorem source_eq (h : Masked all todo s t) : s.source = t.source := by rw [h.eq]

theorem keys_eq (h : Masked all todo s t) : s.log.keys = t.log.keys := by
  obtain ⟨taken, -, -, hs, ht⟩ := h.made
  rw [Log.keys, Log.keys, hs, ht, List.map_map, List.map_map]
  rfl

theorem empty (all : List Measurement) (register : σ) (axes : List Nat) (source : Source) :
    Masked all all ⟨register, axes, .empty, source⟩ ⟨register, axes, .empty, source⟩ :=
  ⟨rfl, ⟨[], rfl, fun _ h => absurd h List.not_mem_nil, rfl, rfl⟩, List.nodup_nil⟩

/-- **A measurement is recorded with its mask in the one log and without in the
other.** -/
theorem add {m : Measurement} (h : Masked all (m :: todo) s t) (hfresh : m.key ∉ t.log.keys)
    {bits : List Nat} (hlen : bits.length = m.qubits.length) (hmask : m.FullMask)
    (register : σ) (source : Source) :
    Masked all todo
      { s with
        register := register
        source := source
        log := s.log.add m.key (List.zipWith invertBit bits m.mask) }
      { t with
        register := register
        source := source
        log := t.log.add m.key bits } := by
  obtain ⟨heq, ⟨taken, hall, hlengths, hs, ht⟩, hnodup⟩ := h
  refine ⟨by rw [heq], ⟨taken ++ [(m, bits)], ?_, ?_, ?_, ?_⟩, ?_⟩
  · rw [← hall, List.map_append, List.append_assoc]
    rfl
  · intro p hp
    obtain hp | hp := List.mem_append.mp hp
    · exact hlengths p hp
    · rw [List.mem_singleton.mp hp]
      exact ⟨hlen, hmask⟩
  · rw [Log.add, hs, List.map_append]
    rfl
  · rw [Log.add, ht, List.map_append]
    rfl
  · rw [Log.keys_add, List.nodup_append_comm]
    exact List.nodup_cons.mpr ⟨hfresh, hnodup⟩

/-- Once everything has been measured, there are two records of each measurement. -/
theorem exists_records (h : Masked all [] s t) {m : Measurement} (hm : m ∈ all) :
    m.FullMask ∧ ∃ values, values.length = m.qubits.length ∧ t.log.get? m.key = some values ∧
      s.log.get? m.key = some (List.zipWith invertBit values m.mask) := by
  have hkeys := h.keys_eq
  obtain ⟨-, ⟨taken, hall, hlengths, hs, ht⟩, hnodup⟩ := h
  rw [List.append_nil] at hall
  rw [← hall] at hm
  obtain ⟨⟨m, values⟩, hmem, rfl⟩ := List.mem_map.mp hm
  obtain ⟨hlen, hmask⟩ := hlengths _ hmem
  refine ⟨hmask, values, hlen, Log.get?_of_mem hnodup ?_, Log.get?_of_mem (hkeys ▸ hnodup) ?_⟩
  · rw [ht]
    exact List.mem_map_of_mem hmem
  · rw [hs]
    exact List.mem_map_of_mem hmem

end Masked

variable [Scalar R]

/-- **Masks make no difference** to the steps on amplitudes but for what they record. -/
theorem StateVector.parallels_unmask (all : List Measurement) :
    (representation : Representation (State (Amplitude R)) R).Parallels .unmask (Masked all)
      fun s t => s.source = t.source where
  axes_eq := Masked.axes_eq
  setAxes axes h := ⟨by rw [h.eq], h.made, h.nodup⟩
  setAxes_bad _ h := h
  stop := Masked.source_eq
  native := by
    intro todo s t g h
    refine (native_parallel g h.register_eq h.axes_eq).mono ?_ ?_
    · rintro _ _ ⟨register, rfl, rfl⟩
      exact ⟨by rw [h.eq], h.made, h.nodup⟩
    · rintro _ _ ⟨register, rfl, rfl⟩
      exact h.source_eq
  measure := by
    intro todo s t m hqubits h
    have hperform : Parallel .unmask (Moved (fun source => source.next.2) s t)
        (fun s' t' => s'.source = t'.source) (perform s) (perform t) := by
      refine (perform_parallel h.register_eq h.axes_eq (by rw [h.source_eq])).mono
        (fun _ _ => id) ?_
      rintro _ _ ⟨advance, register, rfl, rfl⟩
      exact congrArg advance h.source_eq
    refine measureInto_parallel h.axes_eq (by rw [h.keys_eq]) (Relabelling.unmask.length_mask m)
      h.source_eq hperform ?_ ?_
    · rintro _ _ ⟨register, rfl, rfl⟩
      exact congrArg (fun source => source.next.2) h.source_eq
    · rintro _ _ bits hfresh hfull hlen ⟨register, rfl, rfl⟩
      have hmask : m.FullMask := hfull.trans hqubits.symm
      -- a mask of the length of the outcomes that marks none of them
      show Masked all todo _ { t with
        register := register
        source := t.source.next.2
        log := t.log.add m.key
          (List.zipWith invertBit bits (List.replicate m.mask.length false)) }
      rw [← hlen, zipWith_invertBit_replicate, h.source_eq]
      exact h.add hfresh (hlen.trans hmask) hmask register _

omit [Scalar R] in
/-- Without masks the qubits are the same. -/
theorem Operation.qubits_unmask (op : Operation R) : (op.relabel .unmask).qubits = op.qubits :=
  (op.qubits_relabel _).trans (List.map_id _)

/-- The failure of a run of the relabelled circuit, where that of the circuit is
given. -/
def RunFailure.relabel (ρ : Relabelling) : RunFailure R → RunFailure R
  | .operation position cause => .operation position (cause.relabel ρ)
  | e => e

/-- **Operations in a row, with masks and without**: both runs succeed, or both fail at
the same position and for the same reason. -/
theorem runOperations_unmask {all todo : List Measurement} {ops : List (Operation R)}
    {s t : Session (State (Amplitude R))} (h : Masked all (readings ops ++ todo) s t)
    (position : Nat) :
    (∃ s' t', runOperations StateVector.representation position ops s = .ok () s' ∧
      runOperations StateVector.representation position (ops.map (relabel .unmask)) t = .ok () t' ∧
      Masked all todo s' t') ∨
    ∃ e s' t', runOperations StateVector.representation position ops s = .error e s' ∧
      runOperations StateVector.representation position (ops.map (relabel .unmask)) t
        = .error (e.relabel .unmask) t' ∧ s'.source = t'.source := by
  induction ops generalizing s t position with
  | nil => exact .inl ⟨s, t, rfl, rfl, h⟩
  | cons op ops ih =>
    rw [readings_cons, List.append_assoc] at h
    have hparallels := StateVector.parallels_unmask (R := R) all
    have hact := hparallels.act _ (hparallels.setAxes op.qubits h)
    rw [List.map_cons, runOperations_cons, runOperations_cons, op.qubits_unmask]
    cases hs : Qudit.act StateVector.representation op { s with axes := op.qubits } with
    | ok u s' =>
      rw [hs] at hact
      obtain ⟨t', ht, h'⟩ := hact.exists_ok
      rw [ht]
      exact ih h' (position + 1)
    | error e s' =>
      rw [hs] at hact
      obtain ⟨t', ht, hsource⟩ := hact.exists_error
      rw [ht]
      cases e with
      | error e => exact .inr ⟨_, s', t', rfl, rfl, hsource⟩
      | fault f => exact .inr ⟨_, s', t', rfl, rfl, hsource⟩

/-! ## Circuits -/

/-- **The circuit without its masks.** -/
def Circuit.unmask (c : Circuit R) : Circuit R := ⟨c.dims, c.operations.map (relabel .unmask)⟩

/-- An operation fits with its masks exactly when it does without. -/
theorem Operation.fits_unmask_iff {dims : List Nat} {op : Operation R} :
    (op.relabel .unmask).Fits dims ↔ op.Fits dims := by
  induction op with
  | gate g =>
    show (Operation.gate (g.relabel .refl)).Fits dims ↔ _
    rw [g.relabel_refl]
  | measure m =>
    constructor <;> rintro (_ | ⟨hlt, hnodup⟩) <;> exact .measure hlt hnodup
  | composite label qubits body ih =>
    have hbody : (Operation.composite label qubits body).relabel .unmask
        = .composite label qubits (body.map (relabel .unmask)) := by
      show Operation.composite label (qubits.map id) (relabelOfList .unmask body) = _
      rw [List.map_id, relabelOfList_eq_map]
    rw [hbody]
    constructor
    · rintro (_ | _ | ⟨_, hlt, hnodup, hwithin, hinner⟩)
      simp only [List.forall_mem_map, qubits_unmask] at hwithin hinner
      exact .composite label hlt hnodup hwithin fun op hop => (ih op hop).mp (hinner op hop)
    · rintro (_ | _ | ⟨_, hlt, hnodup, hwithin, hinner⟩)
      refine .composite label hlt hnodup ?_ ?_
      · simpa only [List.forall_mem_map, qubits_unmask] using hwithin
      · simpa only [List.forall_mem_map] using fun op hop => (ih op hop).mpr (hinner op hop)

/-- **Masks make no difference to what is admitted as a circuit.** -/
theorem Circuit.ofOperations_unmask_iff (c : Circuit R) :
    ofOperations c.dims c.operations = .ok c
      ↔ ofOperations c.dims c.unmask.operations = .ok c.unmask := by
  have hkeys : keysOfList c.unmask.operations = keysOfList c.operations := by
    rw [keysOfList_eq_flatMap, unmask, List.flatMap_map, keysOfList_eq_flatMap]
    exact List.flatMap_congr fun op _ => op.keys_relabel _
  rw [ofOperations_eq_ok_iff, ofOperations_eq_ok_iff, hkeys]
  simp only [unmask, List.forall_mem_map, Operation.fits_unmask_iff, and_true]

/-- **The values recorded of a measurement with its mask**, where it is known what was
measured. The mask is the one that was given, which may be shorter than the list of
qubits. -/
structure Measurement.Inverts (m : Measurement) (measured recorded : List Nat) : Prop where
  /-- A value is measured at each qubit. -/
  length_measured : measured.length = m.qubits.length
  /-- So many are recorded. -/
  length_recorded : recorded.length = m.qubits.length
  /-- Zero and one are exchanged where the mask says so, and nothing else is changed. -/
  values : ∀ (base : Measurement) (given : List Bool), base.withMask given = .ok m →
    ∀ i : Nat, recorded[i]? =
      measured[i]?.map fun v => if given[i]? = some true ∧ v < 2 then 1 - v else v

/-- **How two simulations of a circuit end**, the first with the masks of its
measurements and the second without. -/
inductive SameButInverted (c : Circuit R) : EStateM.Result (RunFailure R) Source (Run R) →
    EStateM.Result (RunFailure R) Source (Run R) → Prop where
  /-- Both succeed, in the same state and with the same source. The logs have the same
  keys, and under the key of a measurement the one has what was measured and the other
  what its mask makes of it. -/
  | ok {masked plain : Run R} {rest : Source} (state : masked.state = plain.state)
      (keys : masked.log.keys = plain.log.keys)
      (records : ∀ m, .measure m ∈ leavesOfList c.operations → ∃ measured recorded,
        plain.log.get? m.key = some measured ∧ masked.log.get? m.key = some recorded ∧
        m.Inverts measured recorded) :
      SameButInverted c (.ok masked rest) (.ok plain rest)
  /-- Both fail for the same reason and with the same source. An operation that is named
  is named without its masks. -/
  | error (e : RunFailure R) (rest : Source) :
      SameButInverted c (.error e rest) (.error (e.relabel .unmask) rest)

omit [Scalar R] in
/-- If the first of them succeeds, so does the second. -/
theorem SameButInverted.exists_ok {c : Circuit R} {masked : Run R} {rest : Source}
    {r : EStateM.Result (RunFailure R) Source (Run R)} (h : SameButInverted c (.ok masked rest) r) :
    ∃ plain, r = .ok plain rest ∧ masked.state = plain.state ∧
      masked.log.keys = plain.log.keys ∧
      ∀ m, .measure m ∈ leavesOfList c.operations → ∃ measured recorded,
        plain.log.get? m.key = some measured ∧ masked.log.get? m.key = some recorded ∧
        m.Inverts measured recorded := by
  obtain ⟨state, keys, records⟩ := h
  exact ⟨_, rfl, state, keys, records⟩

omit [Scalar R] in
/-- The records of two runs that have made all measurements. -/
theorem Masked.exists_inverts {ops : List (Operation R)} {s t : Session σ}
    (h : Masked (readings ops) [] s t) {m : Measurement} (hm : .measure m ∈ leavesOfList ops) :
    ∃ measured recorded, t.log.get? m.key = some measured ∧ s.log.get? m.key = some recorded ∧
      m.Inverts measured recorded := by
  obtain ⟨hmask, values, hlen, ht, hs⟩ := h.exists_records (mem_readings.mpr hm)
  refine ⟨values, _, ht, hs, hlen, ?_, fun base given hgiven => ?_⟩
  · rw [List.length_zipWith, hlen, hmask, Nat.min_self]
  · exact Measurement.getElem?_recorded hgiven hlen

/-- **Masks only relabel what is recorded.** Whatever the initial state and the source,
simulating a circuit with the masks of its measurements and without them ends alike: in
the same state, with the same source, and with logs that differ in the outcomes that a
mask marks and in nothing else, or with the same failure. The one is admitted as a
circuit exactly when the other is. A measurement that was given a mask is without it the
one that was never given any. -/
theorem simulate_unmask (c : Circuit R) (initial : State (Amplitude R)) (source : Source) :
    (Circuit.ofOperations c.dims c.operations = .ok c
      ↔ Circuit.ofOperations c.dims c.unmask.operations = .ok c.unmask) ∧
    (∀ (base m : Measurement) (given : List Bool), base.withMask given = .ok m →
      Relabelling.unmask.measurement m = .plain base.key base.qubits) ∧
    SameButInverted c (simulate c initial source) (simulate c.unmask initial source) := by
  refine ⟨c.ofOperations_unmask_iff, fun base m given h => ?_, ?_⟩
  · rw [Relabelling.measurement_unmask (Measurement.exists_withMask_iff.mp ⟨base, given, h⟩)]
    obtain ⟨-, rfl⟩ := Measurement.withMask_eq_ok_iff.mp h
    rfl
  have hdims' : c.unmask.dims = c.dims := rfl
  unfold simulate
  rw [hdims']
  by_cases hdims : initial.dims = c.dims
  · have hstart : Masked (readings c.operations) (readings c.operations ++ [])
        ⟨initial, [], .empty, source⟩ ⟨initial, [], .empty, source⟩ := by
      rw [List.append_nil]
      exact .empty _ initial [] source
    rw [if_neg (not_not_intro hdims), if_neg (not_not_intro hdims), Circuit.unmask]
    obtain ⟨s, t, hs, ht, h⟩ | ⟨e, s, t, hs, ht, hsource⟩ := runOperations_unmask hstart 0
    · rw [hs, ht, h.eq]
      exact .ok rfl h.keys_eq fun m hm => h.exists_inverts hm
    · rw [hs, ht]
      show SameButInverted c (.error e s.source) (.error (e.relabel .unmask) t.source)
      rw [hsource]
      exact .error e t.source
  · rw [if_pos hdims, if_pos hdims]
    exact .error (.dimsMismatch c.dims initial.dims) source

/-- A qutrit and a qubit are read within a composite, with a mask that marks the qutrit and
has no entry for the qubit: what is recorded of the qubit is what was measured, and of the
qutrit a zero or a one is exchanged for the other. -/
theorem simulate_unmask_short_mask :
    let m : Measurement := ⟨"m", [1, 0], [true, false]⟩
    let c : Circuit Float :=
      ⟨[2, 3], [.gate ⟨.h, [0], [], []⟩, .composite "read" [1, 0] [.measure m]]⟩
    let initial : State (Amplitude Float) := .atPosition [2, 3] 1
    Measurement.withMask (.plain "m" [1, 0]) [true] = .ok m ∧
      Circuit.ofOperations [2, 3] c.operations = .ok c ∧
      ∃ masked plain rest, simulate c initial (.ofWords #[5]) = .ok masked rest ∧
        simulate c.unmask initial (.ofWords #[5]) = .ok plain rest ∧
        masked.state = plain.state ∧ ∃ measured recorded,
          plain.log.get? "m" = some measured ∧ masked.log.get? "m" = some recorded ∧
          recorded[0]? = measured[0]?.map (fun v => if v < 2 then 1 - v else v) ∧
          recorded[1]? = measured[1]? := by
  intro m c initial
  have hgiven : Measurement.withMask (.plain "m" [1, 0]) [true] = .ok m := rfl
  have hc : Circuit.ofOperations [2, 3] c.operations = .ok c := rfl
  obtain ⟨hfits, hkeys, -⟩ := Circuit.ofOperations_eq_ok_iff.mp hc
  have hsquare : OwnMatrices Mat.IsSquare c.operations := by
    intro g hg
    simp only [c, leavesOfList, leaves, List.append_nil, List.singleton_append, List.mem_cons,
      Operation.gate.injEq, List.not_mem_nil, or_false, reduceCtorEq] at hg
    obtain rfl := hg
    trivial
  have hread : m ∈ readings c.operations := List.mem_singleton_self m
  have hmasks : ∀ m ∈ readings c.operations, m.FullMask := by
    intro m' hm
    obtain rfl := List.mem_singleton.mp hm
    rfl
  obtain ⟨s, hrun, -⟩ := exists_actEach_of_fits (s := ⟨initial, [], .empty, .ofWords #[5]⟩)
    (by decide) hfits hsquare hmasks rfl hkeys
  have hmasked := simulate_of_actEach (c := c) rfl hrun
  have hsame := (simulate_unmask c initial (.ofWords #[5])).2.2
  rw [hmasked] at hsame
  obtain ⟨plain, hplain, hstate, -, hrecords⟩ := hsame.exists_ok
  obtain ⟨measured, recorded, hmeasured, hrecorded, hinverts⟩ := hrecords m (mem_readings.mp hread)
  refine ⟨hgiven, hc, _, plain, _, hmasked, hplain, hstate, measured, recorded, hmeasured,
    hrecorded, ?_, ?_⟩
  · simpa using hinverts.values _ _ hgiven 0
  · simpa using hinverts.values _ _ hgiven 1

end Qudit
