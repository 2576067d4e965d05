import Qudit.Proofs.Acting.OwnSteps
import Qudit.Proofs.Acting.Progress

/-!
# What acting records

The log only grows. Whatever the operation and the axes, acting with it leaves
the records that there were as they are and adds one record for each of its
first few measurements, in order; where it succeeds, for all of them
(`act_records`). No key is recorded twice: a measurement whose key is in the
log ends acting before anything is measured.

`Log.Adds` is what is carried along: the new log is the old one with a record
per measurement made so far. It is extended where a measurement finds its key
missing (`Log.Adds.add`), which is the only place where a log changes.
-/

namespace Qudit

open Acting

variable {σ R : Type}

/-- **A record of a measurement**: one value per measured qubit, which its site
admits. -/
structure RecordOf (admits : Nat → Nat → Prop) (m : PlacedMeasurement)
    (record : String × List Nat) : Prop where
  /-- It is under the key of the measurement. -/
  key_eq : record.1 = m.key
  /-- There is one value per qubit. -/
  length_eq : record.2.length = m.measurement.qubits.length
  /-- The values are admitted by the sites. -/
  values : List.Forall₂ admits m.axes record.2

/-- **A log with one more record per measurement made.** -/
structure Log.Adds (admits : Nat → Nat → Prop) (old : Log) (made : List PlacedMeasurement)
    (new : Log) : Prop where
  /-- The new records follow the old ones. -/
  added : ∃ records, new.entries = old.entries ++ records ∧
    List.Forall₂ (RecordOf admits) made records
  /-- No key is used twice. -/
  nodup : (made.map PlacedMeasurement.key).Nodup
  /-- No key was in use. -/
  fresh : ∀ m ∈ made, m.key ∉ old.keys

namespace Log.Adds

variable {admits : Nat → Nat → Prop} {old new : Log} {made : List PlacedMeasurement}

theorem nil (admits : Nat → Nat → Prop) (log : Log) : Adds admits log [] log :=
  ⟨⟨[], (List.append_nil _).symm, .nil⟩, List.nodup_nil, fun _ h => absurd h List.not_mem_nil⟩

theorem keys_of_records {records : List (String × List Nat)}
    (h : List.Forall₂ (RecordOf admits) made records) :
    records.map Prod.fst = made.map PlacedMeasurement.key := by
  induction h with
  | nil => rfl
  | cons h _ ih => rw [List.map_cons, List.map_cons, h.key_eq, ih]

/-- The keys in use are those that were and those of the measurements. -/
theorem keys_eq (h : Adds admits old made new) :
    new.keys = old.keys ++ made.map PlacedMeasurement.key := by
  obtain ⟨records, hentries, hrecords⟩ := h.added
  rw [keys, hentries, List.map_append, ← keys_of_records hrecords]
  rfl

/-- **A measurement under a new key adds a record.** -/
theorem add (h : Adds admits old made new) {m : PlacedMeasurement} (hkey : m.key ∉ new.keys)
    {values : List Nat} (hrecord : RecordOf admits m (m.key, values)) :
    Adds admits old (made ++ [m]) (new.add m.key values) := by
  rw [h.keys_eq, List.mem_append, not_or] at hkey
  obtain ⟨hold, hmade⟩ := hkey
  obtain ⟨records, hentries, hrecords⟩ := h.added
  refine ⟨⟨records ++ [(m.key, values)], ?_, ?_⟩, ?_, ?_⟩
  · rw [Log.add, hentries, List.append_assoc]
  · exact List.rel_append hrecords (.cons hrecord .nil)
  · rw [List.map_append, List.map_singleton, List.nodup_append_comm]
    exact List.nodup_cons.mpr ⟨hmade, h.nodup⟩
  · intro m' hm'
    obtain hm' | hm' := List.mem_append.mp hm'
    · exact h.fresh m' hm'
    · rwa [List.mem_singleton.mp hm']

end Log.Adds

/-! ## The two registers -/

/-- **A value that can be recorded of a site**: the site exists, and the value is
below its dimension, or a bit. -/
def RecordableAt (dims : List Nat) (site value : Nat) : Prop :=
  ∃ d, dims[site]? = some d ∧ value < max 2 d

/-- An outcome can be recorded of its site, inverted or not. -/
theorem recordableAt_invertBit {dims : List Nat} {site bit : Nat} (h : bit < dims.getD site 0)
    (inverted : Bool) : RecordableAt dims site (invertBit bit inverted) := by
  rw [List.getD_eq_getElem?_getD] at h
  cases hd : dims[site]? with
  | none =>
    rw [hd] at h
    exact absurd h (Nat.not_lt_zero bit)
  | some d =>
    rw [hd, Option.getD_some] at h
    refine ⟨d, hd, ?_⟩
    unfold invertBit
    split_ifs <;> omega

/-- Inverting outcomes changes what is known of each of them. -/
theorem forall₂_zipWith_invertBit {admits admits' : Nat → Nat → Prop} {sites bits : List Nat}
    {mask : List Bool} (h : List.Forall₂ admits sites bits) (hlen : mask.length = sites.length)
    (hinvert : ∀ site bit inverted, admits site bit → admits' site (invertBit bit inverted)) :
    List.Forall₂ admits' sites (List.zipWith invertBit bits mask) := by
  induction h generalizing mask with
  | nil => exact .nil
  | cons h _ ih =>
    obtain _ | ⟨inverted, mask⟩ := mask
    · simp at hlen
    · exact .cons (hinvert _ _ inverted h) (ih (by simpa using hlen))

/-- What is recorded of a measurement whose outcomes are known. -/
theorem RecordOf.of_bits {admits admits' : Nat → Nat → Prop} {m : Measurement}
    {axes bits : List Nat} (hlen : m.qubits.length = axes.length)
    (hmask : m.mask.length = axes.length) (h : List.Forall₂ admits axes bits)
    (hinvert : ∀ site bit inverted, admits site bit → admits' site (invertBit bit inverted)) :
    RecordOf admits' ⟨m, axes⟩ (m.key, List.zipWith invertBit bits m.mask) := by
  have hvalues := forall₂_zipWith_invertBit h hmask hinvert
  exact ⟨rfl, hvalues.length_eq.symm.trans hlen.symm, hvalues⟩

/-- **The steps on amplitudes record what they measure.** -/
theorem StateVector.preserves_records [Scalar R] {dims : List Nat} (hpos : ∀ d ∈ dims, 0 < d)
    (log : Log) :
    (representation : Representation (State (Amplitude R)) R).Preserves (fun _ => True)
      (fun made s => s.register.dims = dims ∧
        log.Adds (RecordableAt dims) made s.log)
      fun _ => True where
  setAxes _ h := h
  refuse _ _ := trivial
  parts _ _ _ _ := trivial
  native := by
    rintro made s g - ⟨hdims, hlog⟩
    refine (native_keeps_log g s).mono ?_ ?_
    · rintro _ t ⟨hdims', hlog'⟩
      exact ⟨hdims'.trans hdims, hlog' ▸ hlog⟩
    · rintro _ t ⟨hdims', hlog'⟩
      exact ⟨trivial, hdims'.trans hdims, hlog' ▸ hlog⟩
  measure := by
    rintro made s m hlen ⟨rfl, hlog⟩
    refine (measureInto_ends hpos m.key m.mask).mono ?_ ?_
    · rintro _ _ ⟨hkey, hmask, -, -, bits, hbits, rfl⟩
      exact ⟨State.dims_collapsed _ _ _, hlog.add (m := ⟨m, s.axes⟩) hkey
        (.of_bits hlen hmask hbits fun _ _ inverted h => recordableAt_invertBit h inverted)⟩
    · rintro e _ ⟨-, rfl⟩
      exact ⟨trivial, rfl, hlog⟩

/-- **The steps on amplitudes keep the dimensions and record keys in order**,
also over sites of dimension zero. -/
theorem StateVector.preserves_keys [Scalar R] (dims : List Nat) (keys : List String) :
    (representation : Representation (State (Amplitude R)) R).Preserves (fun _ => True)
      (fun made s => s.register.dims = dims ∧
        s.log.keys = keys ++ made.map PlacedMeasurement.key)
      fun _ => True where
  setAxes _ h := h
  refuse _ _ := trivial
  parts _ _ _ _ := trivial
  native := by
    rintro made s g - ⟨rfl, hkeys⟩
    refine (native_keeps_log g s).mono ?_ ?_
    · rintro _ t ⟨hdims, hlog⟩
      exact ⟨hdims, hlog ▸ hkeys⟩
    · rintro _ t ⟨hdims, hlog⟩
      exact ⟨trivial, hdims, hlog ▸ hkeys⟩
  measure := by
    rintro made s m hlen ⟨rfl, hkeys⟩
    refine (Qudit.measureInto_ends (perform_ends s) (fun _ he => .inl ⟨he, rfl⟩) ?_).mono ?_ ?_
    · rintro _ _ ⟨-, -, rfl, -⟩
      exact State.length_measured _ _ _
    · rintro _ _ ⟨-, -, _, _, ⟨-, -, -, rfl⟩, rfl⟩
      refine ⟨State.dims_collapsed _ _ _, ?_⟩
      rw [Log.keys_add, hkeys, List.map_append, List.append_assoc]
      rfl
    · rintro e _ (⟨-, rfl⟩ | ⟨-, rfl⟩) <;> exact ⟨trivial, rfl, hkeys⟩

/-- **The steps on values record what they measure.** -/
theorem BasisState.preserves_records (log : Log) :
    (representation : Representation (List Nat) R).Preserves (fun _ => True)
      (fun made s => log.Adds (fun _ _ => True) made s.log) fun _ => True where
  setAxes _ h := h
  refuse _ _ := trivial
  parts _ _ _ _ := trivial
  native := by
    rintro made s g - hlog
    refine (native_ends g s).mono ?_ ?_
    · rintro _ _ (⟨-, rfl⟩ | ⟨-, values, -, rfl⟩) <;> exact hlog
    · rintro _ _ ⟨-, rfl⟩
      exact ⟨trivial, hlog⟩
  measure := by
    rintro made s m hlen hlog
    refine (measureInto_ends m.key m.mask s).mono ?_ ?_
    · rintro _ _ ⟨hkey, hmask, bits, hbits, rfl⟩
      have hvalues : List.Forall₂ (fun _ _ => True) s.axes bits :=
        List.forall₂_iff_get.mpr ⟨hbits.symm, fun _ _ _ => trivial⟩
      exact hlog.add (m := ⟨m, s.axes⟩) hkey (.of_bits hlen hmask hvalues fun _ _ _ _ => trivial)
    · rintro e _ ⟨-, rfl⟩
      exact ⟨trivial, hlog⟩

/-! ## Whole operations -/

/-- **Where acting succeeds**, the dimensions are what they were, and the keys of the
operation follow those that there were. -/
theorem StateVector.dims_and_keys_of_act [Scalar R] {op : Operation R}
    {s t : Session (State (Amplitude R))} (h : act representation op s = .ok () t) :
    t.register.dims = s.register.dims ∧ t.log.keys = s.log.keys ++ op.keys := by
  have hact : GetsThrough _ _ [] (op.measurements s.axes) (act representation op s) :=
    (preserves_keys s.register.dims s.log.keys).act (fun _ _ => trivial)
      ⟨rfl, (List.append_nil _).symm⟩
  rw [h] at hact
  rwa [← Operation.keys_measurements s.axes op]

/-- So it is with operations one after the other. -/
theorem StateVector.dims_and_keys_of_actEach [Scalar R] {m : Nat → Nat} {ops : List (Operation R)}
    {s t : Session (State (Amplitude R))} (h : actEach representation m ops s = .ok () t) :
    t.register.dims = s.register.dims ∧
      t.log.keys = s.log.keys ++ Operation.keysOfList ops := by
  induction ops generalizing s with
  | nil =>
    obtain ⟨⟩ := h
    exact ⟨rfl, (List.append_nil _).symm⟩
  | cons op ops ih =>
    rw [actEach_cons] at h
    obtain ⟨_, u, hact, hrest⟩ := EStateM.bind_eq_ok.mp h
    obtain ⟨hdims, hkeys⟩ := dims_and_keys_of_act hact
    obtain ⟨hdims', hkeys'⟩ := ih hrest
    refine ⟨hdims'.trans hdims, ?_⟩
    rw [hkeys', hkeys, Operation.keysOfList, List.append_assoc]

/-- **What is in the log once acting with an operation has ended**: of its
measurements the first `k` have been recorded, as `records`. -/
structure RecordsFirst (admits : Nat → Nat → Prop) (op : Operation R) (s : Session σ)
    (r : EStateM.Result (Failure R) (Session σ) Unit) (k : Nat)
    (records : List (String × List Nat)) : Prop where
  /-- The records that there were are there as they were, and the new ones follow. -/
  entries_eq : (sessionAfter r).log.entries = s.log.entries ++ records
  /-- There are at most as many new records as the operation has keys. -/
  le : k ≤ op.keys.length
  /-- They are under the first keys of the operation, in order. -/
  keys_eq : records.map Prod.fst = op.keys.take k
  /-- Each of these keys is used once. -/
  nodup : (op.keys.take k).Nodup
  /-- None of them was in use. -/
  fresh : ∀ key ∈ op.keys.take k, key ∉ s.log.keys
  /-- Each record holds one value per measured qubit, which the site of the qubit
  admits. -/
  values : List.Forall₂ (RecordOf admits) ((op.measurements s.axes).take k) records
  /-- Where acting succeeds, everything has been recorded. -/
  complete : ∀ t, r = .ok () t → k = op.keys.length

/-- What is preserved by every step is what is in the log at the end. -/
theorem exists_recordsFirst {rep : Representation σ R} {admits : Nat → Nat → Prop}
    {inv : List PlacedMeasurement → Session σ → Prop} {op : Operation R} {s : Session σ}
    (hrep : rep.Preserves (fun _ => True) inv fun _ => True) (hs : inv [] s)
    (hinv : ∀ made t, inv made t → s.log.Adds admits made t.log) :
    ∃ k records, RecordsFirst admits op s (act rep op s) k records := by
  have hact : GetsThrough inv (fun _ => True) [] (op.measurements s.axes) (act rep op s) :=
    hrep.act (fun _ _ => trivial) hs
  -- the measurements that have been made are the first of those of the operation
  obtain ⟨k, hk, hadds, hcomplete⟩ : ∃ k ≤ (op.measurements s.axes).length,
      s.log.Adds admits ((op.measurements s.axes).take k) (sessionAfter (act rep op s)).log ∧
        ∀ t, act rep op s = .ok () t → k = (op.measurements s.axes).length := by
    cases hr : act rep op s with
    | ok u t =>
      rw [hr] at hact
      exact ⟨_, le_rfl, by rw [List.take_length]; exact hinv _ t hact, fun _ _ => rfl⟩
    | error e t =>
      rw [hr] at hact
      obtain ⟨-, done, hdone, ht⟩ := hact
      exact ⟨done.length, hdone.length_le, by
        rw [← List.prefix_iff_eq_take.mp hdone]; exact hinv _ t ht, fun _ h => nomatch h⟩
  obtain ⟨⟨records, hentries, hrecords⟩, hnodup, hfresh⟩ := hadds
  have hkeys : ((op.measurements s.axes).take k).map PlacedMeasurement.key = op.keys.take k := by
    rw [List.map_take, Operation.keys_measurements]
  have hlen : (op.measurements s.axes).length = op.keys.length := by
    rw [← Operation.keys_measurements s.axes op, List.length_map]
  exact ⟨k, records, {
    entries_eq := hentries
    le := hlen ▸ hk
    keys_eq := (Log.Adds.keys_of_records hrecords).trans hkeys
    nodup := hkeys ▸ hnodup
    fresh := by
      rw [← hkeys]
      intro key hkey
      obtain ⟨m, hm, rfl⟩ := List.mem_map.mp hkey
      exact hfresh m hm
    values := hrecords
    complete := fun t ht => (hcomplete t ht).trans hlen }⟩

/-- **The log only grows, by a record for each of the first few
measurements** – by one for each of them where acting succeeds –, whatever
the operation, the axes and the log. A register of amplitudes has sites of
positive dimension, and the values that it records are below the dimension of
their site, or bits. -/
theorem act_records (R : Type) [Scalar R] (op : Operation R) :
    (∀ s : Session (State (Amplitude R)), (∀ d ∈ s.register.dims, 0 < d) →
      ∃ k records, RecordsFirst (RecordableAt s.register.dims) op s
        (act StateVector.representation op s) k records) ∧
    ∀ s : Session (List Nat), ∃ k records, RecordsFirst (fun _ _ => True) op s
      (act BasisState.representation op s) k records := by
  refine ⟨fun s hpos => ?_, fun s => ?_⟩
  · exact exists_recordsFirst (StateVector.preserves_records hpos s.log) ⟨rfl, .nil _ s.log⟩
      fun _ _ h => h.2
  · exact exists_recordsFirst (BasisState.preserves_records s.log) (.nil _ s.log) fun _ _ h => h

/-- A key that comes up again after an inverted outcome: the two records made
before it stay as they are. -/
theorem act_records_repeated :
    let op : Operation Float := .composite "pair" [4, 7] [.measure (.plain "a" [7]),
      .composite "inverted" [4] [.measure ⟨"b", [4], [true]⟩, .measure (.plain "a" [4])]]
    let s : Session (State (Amplitude Float)) :=
      ⟨.atPosition [2, 3] 2, [0, 1], .empty, .ofWords #[]⟩
    (∀ d ∈ s.register.dims, 0 < d) ∧
      (∃ k records, RecordsFirst (RecordableAt s.register.dims) op s
        (act StateVector.representation op s) k records) ∧
      act BasisState.representation op ⟨[0, 2], [0, 1], .empty, .ofWords #[]⟩
        = .error (.error (.duplicateKey "a"))
          ⟨[0, 2], [0, 1], ⟨[("a", [2]), ("b", [1])]⟩, .ofWords #[]⟩ := by
  intro op s
  have hpos : ∀ d ∈ s.register.dims, 0 < d := by
    show ∀ d ∈ [2, 3], 0 < d
    decide
  exact ⟨hpos, (act_records Float op).1 s hpos, rfl⟩

end Qudit
