import Qudit.Acting.Basic
import Qudit.Proofs.Circuit.Parts

/-!
# Acting with operations one after the other

`actEach rep m` acts with a sequence of operations in order, each qubit
lying on the axis that `m` gives it. It is what acting with a composite
comes down to (`act_composite`): when the declared qubits lie on distinct
axes by `m`, and the operations of the body use declared qubits only, the
map that is rebuilt from qubits and axes is `m` again, on all of them.
-/

namespace Qudit

open Acting

variable {σ R α β : Type}

namespace Acting

@[simp] theorem get_apply (s : Session σ) :
    (get : Acting σ R (Session σ)) s = .ok s s := rfl

@[simp] theorem axes_apply (s : Session σ) : (axes : Acting σ R (List Nat)) s = .ok s.axes s := rfl

@[simp] theorem setAxes_apply (as : List Nat) (s : Session σ) :
    (setAxes as : Acting σ R Unit) s = .ok () { s with axes := as } := rfl

@[simp] theorem refuse_apply (e : ActError R) (s : Session σ) :
    (refuse e : Acting σ R α) s = .error (.error e) s := rfl

@[simp] theorem ofExcept_ok (a : α) (s : Session σ) :
    (ofExcept (.ok a) : Acting σ R α) s = .ok a s := rfl

theorem orFault_ok {x : Except Fault α} {a : α} (h : x = .ok a) (s : Session σ) :
    (orFault x : Acting σ R α) s = .ok a s := by
  rw [h]; rfl

theorem restoringAxes_apply (run : Acting σ R α) (s : Session σ) :
    restoringAxes run s = match run s with
      | .ok a s' => .ok a { s' with axes := s.axes }
      | .error e s' => .error e { s' with axes := s.axes } := rfl

theorem restoringAxes_ok {run : Acting σ R α} {s s' : Session σ} {a : α}
    (h : run s = .ok a s') : restoringAxes run s = .ok a { s' with axes := s.axes } := by
  rw [restoringAxes_apply, h]

theorem restoringAxes_eq_ok {run : Acting σ R α} {s t : Session σ} {a : α}
    (h : restoringAxes run s = .ok a t) :
    ∃ s', run s = .ok a s' ∧ t = { s' with axes := s.axes } := by
  rw [restoringAxes_apply] at h
  cases hrun : run s with
  | ok a' s' =>
    rw [hrun] at h
    obtain ⟨⟩ := h
    exact ⟨s', rfl, rfl⟩
  | error e s' =>
    rw [hrun] at h
    cases h

theorem allDistinct_iff (as : List Nat) : allDistinct as = true ↔ as.Nodup := by
  induction as with
  | nil => simp [allDistinct]
  | cons a as ih =>
    rw [allDistinct, Bool.and_eq_true, ih, List.nodup_cons]
    simp

theorem checkDistinct_ok {as : List Nat} (h : as.Nodup) (s : Session σ) :
    (checkDistinct as : Acting σ R Unit) s = .ok () s := by
  unfold checkDistinct
  rw [(allDistinct_iff as).mpr h]
  rfl

end Acting

/-- **Acts with operations one after the other**, each qubit on the axis
that `m` gives it. -/
def actEach (rep : Representation σ R) (m : Nat → Nat) (ops : List (Operation R)) :
    Acting σ R Unit :=
  ops.forM fun op => do
    setAxes (op.qubits.map m)
    act rep op

theorem actEach_cons (rep : Representation σ R) (m : Nat → Nat) (op : Operation R)
    (ops : List (Operation R)) (s : Session σ) :
    actEach rep m (op :: ops) s
      = (act rep op >>= fun _ => actEach rep m ops) { s with axes := op.qubits.map m } := rfl

theorem actEach_append (rep : Representation σ R) (m : Nat → Nat)
    (ops ops' : List (Operation R)) (s : Session σ) :
    actEach rep m (ops ++ ops') s
      = (actEach rep m ops >>= fun _ => actEach rep m ops') s :=
  EStateM.forM_append _ ops ops' s

theorem actEach_singleton (rep : Representation σ R) (m : Nat → Nat) (op : Operation R)
    (s : Session σ) : actEach rep m [op] s = act rep op { s with axes := op.qubits.map m } := by
  rw [actEach_cons, EStateM.bind_apply]
  cases act rep op { s with axes := op.qubits.map m } with
  | ok u t => rfl
  | error e t => rfl

theorem actions_eq_map (rep : Representation σ R) (ops : List (Operation R)) :
    actions rep ops = ops.map fun op => (op, act rep op) := by
  induction ops with
  | nil => rfl
  | cons op ops ih => rw [actions, ih]; rfl

/-! ## The axes of a part -/

/-- A qubit lies where `m` puts it if the qubits lie where `m` puts them. -/
theorem axisOf_map {qubits : List Nat} (m : Nat → Nat) {q : Nat} (hq : q ∈ qubits) :
    axisOf qubits (qubits.map m) q = some (m q) := by
  have hzip : qubits.zip (qubits.map m) = qubits.map fun r => (r, m r) := by
    simpa using List.zip_map' (f := id) (g := m) (l := qubits)
  unfold axisOf
  rw [hzip, ← List.map_reverse]
  have hq : q ∈ qubits.reverse := List.mem_reverse.mpr hq
  generalize qubits.reverse = rs at hq
  induction rs with
  | nil => simp at hq
  | cons r rs ih =>
    rw [List.map_cons, List.lookup_cons]
    by_cases hr : q = r
    · subst hr
      simp
    · rw [beq_false_of_ne hr]
      exact ih ((List.mem_cons.mp hq).resolve_left hr)

/-- Of qubits that are listed twice, the later ones count. -/
theorem axisOf_append {qubits axes : List Nat} (hlen : axes.length = qubits.length)
    (qubits' axes' : List Nat) (q : Nat) :
    axisOf (qubits ++ qubits') (axes ++ axes') q
      = (axisOf qubits' axes' q).or (axisOf qubits axes q) := by
  unfold axisOf
  rw [List.zip_append hlen.symm, List.reverse_append, List.lookup_append]

/-- Where a qubit lies is one of the axes. -/
theorem mem_of_axisOf {qubits axes : List Nat} {q a : Nat} (h : axisOf qubits axes q = some a) :
    a ∈ axes := by
  obtain ⟨before, after, heq, -⟩ := List.lookup_eq_some_iff.mp h
  have hmem : (q, a) ∈ qubits.zip axes := List.mem_reverse.mp (heq ▸ by simp)
  exact (List.of_mem_zip hmem).2

/-- A qubit among the qubits lies on one of their axes. -/
theorem exists_axisOf {qubits axes : List Nat} (hlen : axes.length = qubits.length) {q : Nat}
    (hq : q ∈ qubits) : ∃ a ∈ axes, axisOf qubits axes q = some a := by
  have hkeys : q ∈ (qubits.zip axes).map Prod.fst := by
    rwa [List.map_fst_zip (Nat.le_of_eq hlen.symm)]
  obtain ⟨p, hmem, hp⟩ := List.mem_map.mp hkeys
  cases h : axisOf qubits axes q with
  | none =>
    have hne := List.lookup_eq_none_iff.mp h p (List.mem_reverse.mpr hmem)
    simp [hp] at hne
  | some a => exact ⟨a, mem_of_axisOf h, rfl⟩

/-- Of qubits in two rows, those of the second lie on the axes of the second. -/
theorem exists_axisOf_append {qubits qubits' axes : List Nat}
    (hlen : axes.length = (qubits ++ qubits').length) {q : Nat} (hq : q ∈ qubits') :
    ∃ a ∈ axes.drop qubits.length, axisOf (qubits ++ qubits') axes q = some a := by
  rw [List.length_append] at hlen
  have htake : (axes.take qubits.length).length = qubits.length := by
    rw [List.length_take]
    omega
  have hdrop : (axes.drop qubits.length).length = qubits'.length := by
    rw [List.length_drop]
    omega
  obtain ⟨a, hmem, ha⟩ := exists_axisOf hdrop hq
  refine ⟨a, hmem, ?_⟩
  have happend := axisOf_append htake qubits' (axes.drop qubits.length) q
  rwa [List.take_append_drop, ha] at happend

/-- The axes of an operation whose qubits lie where `m` puts them. -/
theorem axesOf_eq_map {qubits axes : List Nat} {m : Nat → Nat} {op : Operation R}
    (h : ∀ q ∈ op.qubits, axisOf qubits axes q = some (m q)) :
    axesOf qubits axes op = .ok (op.qubits.map m) :=
  Except.mapM_ok fun q hq => by rw [h q hq]

/-- Applying parts is going through them with the axes of the whole put
back at the end. -/
theorem inParts_apply {op : Operation R} {parts : List (Operation R × Acting σ R Unit)}
    {s : Session σ} (hlen : op.qubits.length = s.axes.length) (hnodup : s.axes.Nodup) :
    inParts op parts s
      = (restoringAxes (parts.forM fun p => onPart op.qubits s.axes p.1 p.2) >>=
          fun _ => return .applied) s := by
  unfold inParts
  rw [EStateM.bind_ok (axes_apply s), if_neg (not_not_intro hlen)]
  exact EStateM.bind_ok (checkDistinct_ok hnodup s)

/-- Applying a part whose qubits lie where `m` puts them. -/
theorem onPart_eq {qubits axes : List Nat} {m : Nat → Nat} {part : Operation R}
    (h : ∀ q ∈ part.qubits, axisOf qubits axes q = some (m q)) (run : Acting σ R Unit)
    (s : Session σ) :
    onPart qubits axes part run s = run { s with axes := part.qubits.map m } := by
  unfold onPart
  rw [axesOf_eq_map h]
  rfl

/-- **Applying parts is acting with them one after the other**, each qubit on
the axis that it has in the whole. -/
theorem inParts_eq_actEach (rep : Representation σ R) (op : Operation R)
    {parts : List (Operation R)} {m : Nat → Nat} {s : Session σ}
    (hparts : ∀ p ∈ parts, ∀ q ∈ p.qubits, axisOf op.qubits s.axes q = some (m q))
    (hlen : op.qubits.length = s.axes.length) (hnodup : s.axes.Nodup) :
    inParts op (parts.map fun p => (p, act rep p)) s
      = (restoringAxes (actEach rep m parts) >>= fun _ => return .applied) s := by
  rw [inParts_apply hlen hnodup, EStateM.bind_apply, EStateM.bind_apply, restoringAxes_apply,
    restoringAxes_apply, EStateM.forM_map]
  -- the axes that are looked up for a part are those that `m` gives it
  have hloop : ∀ p ∈ parts, ∀ t : Session σ,
      onPart op.qubits s.axes p (act rep p) t
        = (do setAxes (p.qubits.map m); act rep p : Acting σ R Unit) t :=
    fun p hp t => onPart_eq (hparts p hp) _ t
  rw [EStateM.forM_congr hloop s]
  rfl

/-- An operation that was taken apart is applied. -/
theorem act_of_restoringAxes {op : Operation R} {run : Acting σ R Unit} {rest : Acting σ R Outcome}
    {s : Session σ} (h : rest s = (restoringAxes run >>= fun _ => return .applied) s) :
    (rest >>= fun o => match o with
      | .applied => return ()
      | .notImplemented => refuse (.cannotActOn op)) s = restoringAxes run s := by
  rw [EStateM.bind_apply, h, EStateM.bind_apply]
  cases restoringAxes run s with
  | ok u t => rfl
  | error e t => rfl

/-- **Acting with a composite is acting with its body**, each qubit on the
axis that it has in the composite. -/
theorem act_composite (rep : Representation σ R) (label : String) {qubits : List Nat}
    {body : List (Operation R)} {m : Nat → Nat} {s : Session σ}
    (hbody : ∀ op ∈ body, op.qubits ⊆ qubits) (haxes : s.axes = qubits.map m)
    (hnodup : s.axes.Nodup) :
    act rep (.composite label qubits body) s = restoringAxes (actEach rep m body) s := by
  have hparts : byParts rep (.composite label qubits body) s
      = (restoringAxes (actEach rep m body) >>= fun _ => return .applied) s := by
    rw [byParts, actions_eq_map]
    refine inParts_eq_actEach rep (.composite label qubits body) (fun p hp q hq => ?_)
      (by rw [haxes, List.length_map]; rfl) hnodup
    rw [haxes]
    exact axisOf_map m (hbody p hp hq)
  exact act_of_restoringAxes hparts

/-! ## Gates and measurements -/

namespace Log

theorem contains_iff_mem_keys (log : Log) (key : String) :
    log.contains key = true ↔ key ∈ log.keys := by
  obtain ⟨entries⟩ := log
  induction entries with
  | nil => simp [contains, get?, keys]
  | cons e es ih =>
    obtain ⟨k, bits⟩ := e
    rw [contains, get?, keys, List.lookup_cons, List.map_cons, List.mem_cons]
    by_cases hk : key = k
    · simp [hk]
    · rw [beq_false_of_ne hk]
      exact ih.trans (or_iff_right hk).symm

@[simp] theorem keys_add (log : Log) (key : String) (bits : List Nat) :
    (log.add key bits).keys = log.keys ++ [key] := by
  simp [keys, add]

end Log

/-- A gate that the representation applies is applied. -/
theorem act_gate_of_applied {rep : Representation σ R} {g : PlacedGate R} {s s' : Session σ}
    (h : rep.native g s = .ok .applied s') : act rep (.gate g) s = .ok () s' := by
  have hfallback : fallbackBy rep (.gate g) (byParts rep (.gate g)) s = .ok .applied s' :=
    EStateM.bind_ok h
  exact EStateM.bind_ok hfallback

/-- A gate that the representation refuses is refused. -/
theorem act_gate_of_failure {rep : Representation σ R} {g : PlacedGate R} {s s' : Session σ}
    {e : Failure R} (h : rep.native g s = .error e s') : act rep (.gate g) s = .error e s' := by
  have hfallback : fallbackBy rep (.gate g) (byParts rep (.gate g)) s = .error e s' :=
    EStateM.bind_error h
  exact EStateM.bind_error hfallback

/-- A gate that the representation declines is taken apart. -/
theorem act_gate_of_declined {rep : Representation σ R} {g : PlacedGate R} {s s' : Session σ}
    (h : rep.native g s = .ok .notImplemented s') :
    act rep (.gate g) s = (byParts rep (.gate g) >>= fun o => match o with
      | .applied => return ()
      | .notImplemented => refuse (.cannotActOn (.gate g))) s' := by
  have hfallback : fallbackBy rep (.gate g) (byParts rep (.gate g)) s
      = byParts rep (.gate g) s' := EStateM.bind_ok h
  show (fallbackBy rep (.gate g) (byParts rep (.gate g)) >>= fun o => match o with
    | .applied => return ()
    | .notImplemented => refuse (.cannotActOn (.gate g))) s = _
  rw [EStateM.bind_apply, EStateM.bind_apply, hfallback]

/-- Nothing acts with a gate that is declined and has no parts. -/
theorem act_gate_of_no_parts {rep : Representation σ R} {g : PlacedGate R} {s s' : Session σ}
    (h : rep.native g s = .ok .notImplemented s') (hparts : g.parts = none) :
    act rep (.gate g) s = .error (.error (.cannotActOn (.gate g))) s' := by
  rw [act_gate_of_declined h, byParts, hparts]
  rfl

/-- **Taking an exchange apart is acting with its bit flips**, each qubit on the
axis that it has in the exchange. -/
theorem byParts_of_parts {rep : Representation σ R} {g : PlacedGate R}
    {flips : List (PlacedGate R)} {m : Nat → Nat} {s : Session σ} (hparts : g.parts = some flips)
    (haxes : ∀ q ∈ g.qubits, axisOf g.qubits s.axes q = some (m q))
    (hlen : g.qubits.length = s.axes.length) (hnodup : s.axes.Nodup) :
    byParts rep (.gate g) s
      = (restoringAxes (actEach rep m (flips.map .gate)) >>= fun _ => return .applied) s := by
  rw [← inParts_eq_actEach rep (.gate g) ?_ hlen hnodup, byParts, hparts, List.map_map]
  · -- a bit flip has no parts of its own
    have hflips : flips.map (fun f => (Operation.gate f,
          actBy rep (.gate f) (return .notImplemented)))
        = flips.map ((fun p => (p, act rep p)) ∘ Operation.gate) := by
      refine List.map_congr_left fun f hf => ?_
      have hnone : f.parts = none := by
        unfold PlacedGate.parts
        rw [(PlacedGate.mem_parts hparts hf).1]
      rw [Function.comp, act, byParts, hnone]
    exact congrArg (fun ps => inParts (.gate g) ps s) hflips
  · intro p hp
    obtain ⟨f, hf, rfl⟩ := List.mem_map.mp hp
    exact fun q hq => haxes q ((PlacedGate.mem_parts hparts hf).2 hq)

/-- **Acting with an exchange that is declined is acting with its bit
flips**, each qubit on the axis that it has in the exchange. -/
theorem act_gate_of_parts {rep : Representation σ R} {g : PlacedGate R}
    {flips : List (PlacedGate R)} {m : Nat → Nat} {s : Session σ}
    (h : rep.native g s = .ok .notImplemented s) (hparts : g.parts = some flips)
    (haxes : ∀ q ∈ g.qubits, axisOf g.qubits s.axes q = some (m q))
    (hlen : g.qubits.length = s.axes.length) (hnodup : s.axes.Nodup) :
    act rep (.gate g) s = restoringAxes (actEach rep m (flips.map .gate)) s := by
  rw [act_gate_of_declined h]
  exact act_of_restoringAxes (byParts_of_parts hparts haxes hlen hnodup)

/-- What acting with a measurement does, at the axes of a session. -/
theorem act_measure (rep : Representation σ R) (m : Measurement) (s : Session σ) :
    act rep (.measure m) s = if m.qubits.length = s.axes.length
      then measureInto rep m.key m.mask s
      else .error (.error (.axesMismatch (.measure m) m.qubits.length s.axes.length)) s := by
  have hact : act rep (.measure m) s = (if m.qubits.length ≠ s.axes.length
      then (refuse (.axesMismatch (.measure m) m.qubits.length s.axes.length) :
        Acting σ R PUnit) >>= fun _ => measureInto rep m.key m.mask
      else measureInto rep m.key m.mask) s := rfl
  rw [hact]
  by_cases hlen : m.qubits.length = s.axes.length
  · rw [if_neg (not_not_intro hlen), if_pos hlen]
  · rw [if_pos hlen, if_neg hlen]
    rfl

/-- A measurement under a new key looks at the length of its mask, then measures, and
records what it is given. -/
theorem act_measure_of_new {rep : Representation σ R} {m : Measurement} {s : Session σ}
    (hlen : s.axes.length = m.qubits.length) (hkey : m.key ∉ s.log.keys) :
    act rep (.measure m) s = if m.FullMask
      then (rep.perform >>= fun bits => do
        let corrected ← ofExcept (applyMask bits m.mask)
        modify fun s => { s with log := s.log.add m.key corrected } : Acting σ R Unit) s
      else .error (.error (.maskLength m.mask.length m.qubits.length)) s := by
  have hcontains : s.log.contains m.key = false := by
    rw [Bool.eq_false_iff, ne_eq, Log.contains_iff_mem_keys]
    exact hkey
  rw [act_measure, if_pos hlen.symm]
  unfold measureInto
  rw [EStateM.bind_ok (get_apply s), hcontains]
  simp only [Bool.false_eq_true, if_false]
  rw [EStateM.bind_ok (axes_apply s)]
  by_cases hmask : m.FullMask
  · rw [if_neg (not_not_intro (hmask.trans hlen.symm)), if_pos hmask]
  · rw [if_pos fun heq => hmask (heq.trans hlen), if_neg hmask, hlen]
    rfl

/-- **A measurement under a new key is recorded**, once the register has
been measured. -/
theorem act_measure_ok {rep : Representation σ R} {m : Measurement} {s s' : Session σ}
    {bits : List Nat} (hlen : s.axes.length = m.qubits.length) (hkey : m.key ∉ s.log.keys)
    (hmask : m.FullMask) (hperform : rep.perform s = .ok bits s')
    (hbits : bits.length = s.axes.length) :
    act rep (.measure m) s
      = .ok () { s' with log := s'.log.add m.key (List.zipWith invertBit bits m.mask) } := by
  have happly : (applyMask bits m.mask : Except (ActError R) (List Nat))
      = .ok (List.zipWith invertBit bits m.mask) := by
    unfold applyMask
    rw [if_neg (not_not_intro ((hbits.trans hlen).trans hmask.symm))]
  rw [act_measure_of_new hlen hkey, if_pos hmask, EStateM.bind_ok hperform, happly]
  rfl

/-- **A mask of the wrong length is refused**, before anything is measured. -/
theorem act_measure_of_mask {rep : Representation σ R} {m : Measurement} {s : Session σ}
    (hlen : s.axes.length = m.qubits.length) (hkey : m.key ∉ s.log.keys) (hmask : ¬m.FullMask) :
    act rep (.measure m) s
      = .error (.error (.maskLength m.mask.length m.qubits.length)) s := by
  rw [act_measure_of_new hlen hkey, if_neg hmask]

/-- A measurement that is recorded has a new key. -/
theorem key_notMem_of_act_measure {rep : Representation σ R} {m : Measurement} {s s' : Session σ}
    (h : act rep (.measure m) s = .ok () s') : m.key ∉ s.log.keys := by
  intro hmem
  have hmeasure : measureInto rep m.key m.mask s = .error (.error (.duplicateKey m.key)) s := by
    unfold measureInto
    rw [EStateM.bind_ok (get_apply s), (Log.contains_iff_mem_keys _ _).mpr hmem]
    rfl
  rw [act_measure, hmeasure] at h
  split_ifs at h

/-- A measurement that is recorded has a mask of the right length. -/
theorem fullMask_of_act_measure {rep : Representation σ R} {m : Measurement} {s s' : Session σ}
    (hlen : s.axes.length = m.qubits.length) (h : act rep (.measure m) s = .ok () s') :
    m.FullMask := by
  by_contra hmask
  rw [act_measure_of_mask hlen (key_notMem_of_act_measure h) hmask] at h
  cases h

end Qudit
