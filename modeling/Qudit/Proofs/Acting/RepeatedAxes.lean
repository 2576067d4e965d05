import Qudit.Proofs.Acting.OwnSteps

/-!
# Axes that name a site twice

Qubits are distinct, so the axes that they lie on should be. No type says so, and what
keeps an operation from acting on one site as if it were two is a check, made in several
places: a register of amplitudes checks the axes before it measures and before it applies
a gate, a register of values before it applies a gate, and whatever is taken apart is
checked before its first part. Where one of these is met, acting is refused and the
session stays as it was.

On amplitudes every operation meets one (`act_refuses_repeated_axes`, the first half). On
values all do but measurements: these read every axis by itself and record the value of
one site as if it were the values of two (the second half, and
`reading_repeated_axes_succeeds`).
-/

namespace Qudit

open Radix Acting

variable {σ R : Type}

namespace Operation

/-- **Axes that would do for an operation**, if they did not name a site twice. -/
structure Repeats (op : Operation R) (sites : Nat) (axes : List Nat) : Prop where
  /-- There is one axis per qubit. -/
  length_eq : axes.length = op.qubits.length
  /-- The axes exist. -/
  lt : ∀ a ∈ axes, a < sites
  /-- Some site is named twice. -/
  repeated : ¬axes.Nodup

/-- **An operation that there is a way to act with**, where `takes` tells the gates that
are applied, be it as a whole or by their parts. -/
inductive Supported (takes : PlacedGate R → Prop) (log : Log) : Operation R → Prop where
  /-- A gate that is applied. -/
  | gate {g : PlacedGate R} (taken : takes g) : Supported takes log (.gate g)
  /-- A measurement under a new key, with a mask of the right length. -/
  | measure {m : Measurement} (fresh : m.key ∉ log.keys) (full : m.FullMask) :
    Supported takes log (.measure m)
  /-- A composite. -/
  | composite (label : String) (qubits : List Nat) (body : List (Operation R)) :
    Supported takes log (.composite label qubits body)

end Operation

/-! ## What is taken apart -/

theorem Acting.checkDistinct_of_repeated {as : List Nat} (h : ¬as.Nodup) (s : Session σ) :
    (checkDistinct as : Acting σ R Unit) s = .error (.error (.duplicateAxes as)) s := by
  unfold checkDistinct
  rw [Bool.eq_false_iff.mpr (mt (allDistinct_iff as).mp h)]
  rfl

/-- Parts are not begun without one axis per qubit of the whole. -/
theorem inParts_of_length_ne {op : Operation R} {parts : List (Operation R × Acting σ R Unit)}
    {s : Session σ} (hlen : s.axes.length ≠ op.qubits.length) :
    inParts op parts s
      = .error (.error (.axesMismatch op op.qubits.length s.axes.length)) s := by
  unfold inParts
  rw [EStateM.bind_ok (axes_apply s), if_pos hlen.symm]
  rfl

/-- Parts are not begun at axes that name a site twice. -/
theorem inParts_of_repeated {op : Operation R} {parts : List (Operation R × Acting σ R Unit)}
    {s : Session σ} (hlen : s.axes.length = op.qubits.length) (h : ¬s.axes.Nodup) :
    inParts op parts s = .error (.error (.duplicateAxes s.axes)) s := by
  unfold inParts
  rw [EStateM.bind_ok (axes_apply s), if_neg (not_not_intro hlen.symm)]
  exact EStateM.bind_error (checkDistinct_of_repeated h s)

/-- **No composite is acted with at axes that name a site twice**, in any
representation. -/
theorem act_composite_of_repeated (rep : Representation σ R) (label : String)
    {qubits : List Nat} (body : List (Operation R)) {s : Session σ}
    (hlen : s.axes.length = qubits.length) (h : ¬s.axes.Nodup) :
    act rep (.composite label qubits body) s = .error (.error (.duplicateAxes s.axes)) s := by
  have hparts : byParts rep (.composite label qubits body) s
      = .error (.error (.duplicateAxes s.axes)) s := by
    rw [byParts]
    exact inParts_of_repeated hlen h
  exact EStateM.bind_error hparts

/-- An exchange that the representation declines is refused where its parts are not
begun. -/
theorem act_gate_of_inParts_error {rep : Representation σ R} {g : PlacedGate R}
    {s : Session σ} {e : Failure R} (hdeclined : rep.native g s = .ok .notImplemented s)
    (hparts : g.parts.isSome = true) (h : ∀ parts, inParts (.gate g) parts s = .error e s) :
    act rep (.gate g) s = .error e s := by
  obtain ⟨flips, hflips⟩ := Option.isSome_iff_exists.mp hparts
  rw [act_gate_of_declined hdeclined, byParts, hflips]
  exact EStateM.bind_error (h _)

/-- A measurement under a new key is refused where the register cannot be measured. -/
theorem act_measure_of_failure {rep : Representation σ R} {m : Measurement} {s s' : Session σ}
    {e : Failure R} (hlen : s.axes.length = m.qubits.length) (hkey : m.key ∉ s.log.keys)
    (hmask : m.FullMask) (hperform : rep.perform s = .error e s') :
    act rep (.measure m) s = .error e s' := by
  rw [act_measure_of_new hlen hkey, if_pos hmask]
  exact EStateM.bind_error hperform

/-! ## Amplitudes -/

namespace StateVector

variable {s : Session (State (Amplitude R))}

theorem checkedAxes_of_repeated (hlt : ∀ a ∈ s.axes, a < s.register.dims.length)
    (h : ¬s.axes.Nodup) : checkedAxes s = .error (.error (.duplicateAxes s.axes)) s := by
  have hfind : s.axes.find? (fun axis => Nat.ble s.register.numSites axis) = none := by
    refine List.find?_eq_none.mpr fun a ha => ?_
    rw [Nat.ble_eq, Nat.not_le]
    exact hlt a ha
  unfold checkedAxes
  rw [EStateM.bind_ok (get_apply s)]
  simp only [hfind]
  exact EStateM.bind_error (checkDistinct_of_repeated h s)

variable [Scalar R]

/-- On amplitudes, whatever there is a way to act with is refused. -/
theorem act_of_repeated {op : Operation R} (h : op.Repeats s.register.dims.length s.axes)
    {takes : PlacedGate R → Prop} (hop : op.Supported takes s.log) :
    act representation op s = .error (.error (.duplicateAxes s.axes)) s := by
  have hchecked := checkedAxes_of_repeated h.lt h.repeated
  cases hop with
  | gate => exact act_gate_of_failure (EStateM.bind_error hchecked)
  | measure fresh full =>
    exact act_measure_of_failure h.length_eq fresh full (EStateM.bind_error hchecked)
  | composite label qubits body =>
    exact act_composite_of_repeated _ label body h.length_eq h.repeated

end StateVector

/-! ## Values -/

namespace BasisState

variable {s : Session (List Nat)} {g : PlacedGate R}

/-- A gate that a register of values applies: a bit flip or one that is declared diagonal,
or an exchange of two qubits, which is taken apart. -/
def Takes (g : PlacedGate R) : Prop :=
  isFlip g.gate = true ∨ g.gate.isDiagonal = true ∨ g.parts.isSome = true

theorem native_of_repeated (htakes : isFlip g.gate = true ∨ g.gate.isDiagonal = true)
    (hlen : s.axes.length = g.qubits.length) (h : ¬s.axes.Nodup) :
    native g s = .error (.error (.duplicateAxes s.axes)) s := by
  have hdeclined : (!isFlip g.gate && !g.gate.isDiagonal) = false := by
    obtain htakes | htakes := htakes <;> simp [htakes]
  unfold native
  rw [hdeclined, if_neg Bool.false_ne_true, EStateM.bind_ok (axes_apply s),
    if_neg (not_not_intro (hlen.trans g.length_qubits))]
  exact EStateM.bind_error (checkDistinct_of_repeated h s)

/-- A gate that is taken by a register of values is refused. -/
theorem act_gate_of_repeated (htakes : Takes g) (hlen : s.axes.length = g.qubits.length)
    (h : ¬s.axes.Nodup) :
    act representation (.gate g) s = .error (.error (.duplicateAxes s.axes)) s := by
  by_cases hnative : isFlip g.gate = true ∨ g.gate.isDiagonal = true
  · exact act_gate_of_failure (native_of_repeated hnative hlen h)
  · obtain ⟨hflip, hdiagonal⟩ := not_or.mp hnative
    have hparts : g.parts.isSome = true := (htakes.resolve_left hflip).resolve_left hdiagonal
    exact act_gate_of_inParts_error
      (native_declined (Bool.eq_false_iff.mpr hflip) (Bool.eq_false_iff.mpr hdiagonal) s)
      hparts fun _ => inParts_of_repeated hlen h

/-- **A measurement is made at whatever axes exist**: nothing asks that they be
distinct. -/
theorem act_measure_of_lt {m : Measurement} (hlen : s.axes.length = m.qubits.length)
    (hlt : ∀ a ∈ s.axes, a < s.register.length) (hkey : m.key ∉ s.log.keys)
    (hmask : m.FullMask) :
    act (representation : Representation (List Nat) R) (.measure m) s = .ok () { s with
      log := s.log.add m.key (List.zipWith invertBit (restrict s.register s.axes) m.mask) } :=
  act_measure_ok hlen hkey hmask (perform_ok hlt) (length_restrict _ _)

end BasisState

/-- **Axes that name a site twice are refused**, and leave the session as it was, whatever
there is a way to act with: on amplitudes every gate, measurement and composite, on values
every gate that is taken and every composite. On values a measurement is not refused; it
records what it reads at the site once for each time that the site is named. -/
theorem act_refuses_repeated_axes (R : Type) [Scalar R] (op : Operation R) :
    (∀ s : Session (State (Amplitude R)), op.Repeats s.register.dims.length s.axes →
      op.Supported (fun _ => True) s.log →
      act StateVector.representation op s = .error (.error (.duplicateAxes s.axes)) s) ∧
    ∀ s : Session (List Nat), op.Repeats s.register.length s.axes →
      op.Supported BasisState.Takes s.log →
      act BasisState.representation op s = match op with
        | .measure m => .ok () { s with
            log := s.log.add m.key (List.zipWith invertBit (restrict s.register s.axes) m.mask) }
        | _ => .error (.error (.duplicateAxes s.axes)) s := by
  refine ⟨fun s h hop => StateVector.act_of_repeated h hop, fun s h hop => ?_⟩
  cases hop with
  | gate taken => exact BasisState.act_gate_of_repeated taken h.length_eq h.repeated
  | measure fresh full => exact BasisState.act_measure_of_lt h.length_eq h.lt fresh full
  | composite label qubits body =>
    exact act_composite_of_repeated _ label body h.length_eq h.repeated

/-- A controlled exchange at the axes `1, 0, 1` of three sites, and a measurement at
them. -/
theorem act_refuses_repeated_axes_exchange :
    let exchange : Operation Float := .gate ⟨.swap, [4, 7], [2], [true]⟩
    let reading : Operation Float := .measure ⟨"m", [2, 4, 7], [false, true, true]⟩
    let s : Session (State (Amplitude Float)) :=
      ⟨.atPosition [2, 3, 2] 1, [1, 0, 1], .empty, .ofWords #[]⟩
    let t : Session (List Nat) := ⟨[0, 1, 2], [1, 0, 1], .empty, .ofWords #[]⟩
    (∀ op ∈ [exchange, reading], op.Repeats 3 [1, 0, 1] ∧
      op.Supported (fun _ => True) s.log ∧ op.Supported BasisState.Takes t.log ∧
      act StateVector.representation op s = .error (.error (.duplicateAxes [1, 0, 1])) s) ∧
      act BasisState.representation exchange t = .error (.error (.duplicateAxes [1, 0, 1])) t ∧
      act BasisState.representation reading t
        = .ok () { t with log := ⟨[("m", [1, 1, 0])]⟩ } := by
  intro exchange reading s t
  have hrepeats : ∀ op ∈ [exchange, reading], op.Repeats 3 [1, 0, 1] := by
    intro op hop
    obtain rfl | rfl : op = exchange ∨ op = reading := by simpa using hop
    · exact ⟨rfl, by decide, by decide⟩
    · exact ⟨rfl, by decide, by decide⟩
  have hamplitudes : ∀ op ∈ [exchange, reading], op.Supported (fun _ => True) s.log := by
    intro op hop
    obtain rfl | rfl : op = exchange ∨ op = reading := by simpa using hop
    · exact .gate trivial
    · exact .measure List.not_mem_nil rfl
  have hvalues : ∀ op ∈ [exchange, reading], op.Supported BasisState.Takes t.log := by
    intro op hop
    obtain rfl | rfl : op = exchange ∨ op = reading := by simpa using hop
    · exact .gate (.inr (.inr rfl))
    · exact .measure List.not_mem_nil rfl
  refine ⟨fun op hop => ⟨hrepeats op hop, hamplitudes op hop, hvalues op hop,
    (act_refuses_repeated_axes Float op).1 s (hrepeats op hop) (hamplitudes op hop)⟩, ?_, ?_⟩
  · exact (act_refuses_repeated_axes Float exchange).2 t (hrepeats exchange (by simp))
      (hvalues exchange (by simp))
  · exact (act_refuses_repeated_axes Float reading).2 t (hrepeats reading (by simp))
      (hvalues reading (by simp))

/-- **One site may be read as two**: a register of one value is measured at the axes
`0, 0`, and two values are recorded. -/
theorem reading_repeated_axes_succeeds :
    let reading : Operation Float := .measure (.plain "m" [0, 1])
    reading.Repeats 1 [0, 0] ∧ reading.Supported BasisState.Takes .empty ∧
      act BasisState.representation reading ⟨[0], [0, 0], .empty, .ofWords #[]⟩
        = .ok () ⟨[0], [0, 0], ⟨[("m", [0, 0])]⟩, .ofWords #[]⟩ :=
  ⟨⟨rfl, by decide, by decide⟩, .measure List.not_mem_nil rfl, rfl⟩

end Qudit
