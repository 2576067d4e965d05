import Qudit.Acting.StateVector
import Qudit.Proofs.Acting.Sequence
import Qudit.Proofs.Operation.Relabelling

/-!
# Acting in two sessions in parallel

An operation may be acted with in one session and its relabelling in another one.
Acting looks at qubits only to find the axes of parts, and these are the same for
both (`axesOf_relabel`). So the two runs take the same way, as long as the sessions
differ in nothing that the way depends on: in records under keys that are not used,
say, or in the words of the source that are not drawn.

`Parallel ρ good bad` says of the two ends that both succeed, with the same value, or
that both fail, where the second failure is the relabelled first one. In which
relation the sessions are then is left open, and need not be the same for both. The
relation may depend on the measurements that are still to be made, since this is what
a run uses up on its way: of the measurements of an operation, followed by `todo`,
only `todo` is left when acting with it succeeds. `Representation.Parallels` asks of
the two steps of a representation that they keep to the relation, and
`Representation.Parallels.act` carries it through a whole operation, by induction on
the tree.
-/

namespace Qudit

open Acting Operation

variable {σ R α β : Type}

namespace Acting

/-- **Two computations end in parallel**: both succeed with the same value, or the
second fails as the first does, up to names. -/
def Parallel (ρ : Relabelling) (good bad : Session σ → Session σ → Prop) :
    EStateM.Result (Failure R) (Session σ) α → EStateM.Result (Failure R) (Session σ) α → Prop
  | .ok a s, .ok b t => a = b ∧ good s t
  | .error e s, .error f t => f = e.relabel ρ ∧ bad s t
  | _, _ => False

/-- Two sessions that have only been looked at. -/
abbrev Still (s t s' t' : Session σ) : Prop := s = s' ∧ t = t'

/-- **Two sessions that have got the same register**, with sources that have been
advanced the same way. -/
abbrev Moved (advance : Source → Source) (s t s' t' : Session σ) : Prop :=
  ∃ register, s' = { s with register := register, source := advance s.source } ∧
    t' = { t with register := register, source := advance t.source }

namespace Parallel

variable {ρ : Relabelling} {good mid bad : Session σ → Session σ → Prop} {s t : Session σ}

theorem mono {bad' : Session σ → Session σ → Prop}
    {r r' : EStateM.Result (Failure R) (Session σ) α} (h : Parallel ρ mid bad r r')
    (hgood : ∀ s t, mid s t → good s t) (hbad : ∀ s t, bad s t → bad' s t) :
    Parallel ρ good bad' r r' := by
  cases r with
  | ok a s =>
    cases r' with
    | ok b t => exact ⟨h.1, hgood s t h.2⟩
    | error f t => exact h.elim
  | error e s =>
    cases r' with
    | ok b t => exact h.elim
    | error f t => exact ⟨h.1, hbad s t h.2⟩

/-- Where the first succeeds, the second does. -/
theorem exists_ok {r' : EStateM.Result (Failure R) (Session σ) α} {a : α}
    (h : Parallel ρ good bad (.ok a s) r') : ∃ t, r' = .ok a t ∧ good s t := by
  cases r' with
  | ok b t =>
    obtain ⟨rfl, hgood⟩ := h
    exact ⟨t, rfl, hgood⟩
  | error f t => exact h.elim

/-- Where the first fails, the second does. -/
theorem exists_error {r' : EStateM.Result (Failure R) (Session σ) α} {e : Failure R}
    (h : Parallel ρ good bad (.error e s) r') : ∃ t, r' = .error (e.relabel ρ) t ∧ bad s t := by
  cases r' with
  | ok b t => exact h.elim
  | error f t =>
    obtain ⟨rfl, hbad⟩ := h
    exact ⟨t, rfl, hbad⟩

theorem pure (h : good s t) (a : α) :
    Parallel ρ good bad ((pure a : Acting σ R α) s) ((pure a : Acting σ R α) t) :=
  ⟨rfl, h⟩

/-- **Sequences end in parallel if they start in parallel** and go on in parallel. -/
theorem bind {x y : Acting σ R α} {f g : α → Acting σ R β} (h : Parallel ρ mid bad (x s) (y t))
    (hfg : ∀ a s' t', mid s' t' → Parallel ρ good bad (f a s') (g a t')) :
    Parallel ρ good bad ((x >>= f) s) ((y >>= g) t) := by
  cases hx : x s with
  | ok a s' =>
    rw [hx] at h
    obtain ⟨t', hy, hmid⟩ := h.exists_ok
    rw [EStateM.bind_ok hx, EStateM.bind_ok hy]
    exact hfg a s' t' hmid
  | error e s' =>
    rw [hx] at h
    obtain ⟨t', hy, hbad⟩ := h.exists_error
    rw [EStateM.bind_error hx, EStateM.bind_error hy]
    exact ⟨rfl, hbad⟩

/-- A check refuses in both sessions or in neither. -/
theorem check {c : Prop} [Decidable c] {e e' : ActError R} {rest rest' : PUnit → Acting σ R α}
    (he : e' = e.relabel ρ) (hbad : bad s t)
    (h : ¬c → Parallel ρ good bad (rest ⟨⟩ s) (rest' ⟨⟩ t)) :
    Parallel ρ good bad ((if c then refuse e >>= rest else rest ⟨⟩) s)
      ((if c then refuse e' >>= rest' else rest' ⟨⟩) t) := by
  by_cases hc : c
  · rw [if_pos hc, if_pos hc]
    exact ⟨congrArg Failure.error he, hbad⟩
  · rw [if_neg hc, if_neg hc]
    exact h hc

/-- The axes are put back in both sessions, however the two end. -/
theorem restoringAxes {run run' : Acting σ R α} (haxes : s.axes = t.axes)
    (h : Parallel ρ good bad (run s) (run' t))
    (hgood : ∀ s' t' axes, good s' t' → good { s' with axes := axes } { t' with axes := axes })
    (hbad : ∀ s' t' axes, bad s' t' → bad { s' with axes := axes } { t' with axes := axes }) :
    Parallel ρ good bad (Acting.restoringAxes run s) (Acting.restoringAxes run' t) := by
  rw [restoringAxes_apply, restoringAxes_apply, haxes]
  cases hs : run s with
  | ok a s' =>
    rw [hs] at h
    obtain ⟨t', ht, hst⟩ := h.exists_ok
    rw [ht]
    exact ⟨rfl, hgood s' t' t.axes hst⟩
  | error e s' =>
    rw [hs] at h
    obtain ⟨t', ht, hst⟩ := h.exists_error
    rw [ht]
    exact ⟨rfl, hbad s' t' t.axes hst⟩

/-- Results computed beside the session are the same in both, up to names. -/
theorem ofExcept (hgood : good s t) (hbad : bad s t) (x : Except (ActError R) α) :
    Parallel ρ good bad (Acting.ofExcept x s)
      (Acting.ofExcept (x.mapError (ActError.relabel ρ)) t) := by
  cases x with
  | ok a => exact ⟨rfl, hgood⟩
  | error e => exact ⟨rfl, hbad⟩

theorem orFault (hgood : good s t) (hbad : bad s t) (x : Except Fault α) :
    Parallel (R := R) ρ good bad (Acting.orFault x s) (Acting.orFault x t) := by
  cases x with
  | ok a => exact ⟨rfl, hgood⟩
  | error f => exact ⟨rfl, hbad⟩

theorem checkDistinct (hgood : good s t) (hbad : bad s t) (as : List Nat) :
    Parallel (R := R) ρ good bad (Acting.checkDistinct as s) (Acting.checkDistinct as t) := by
  unfold Acting.checkDistinct
  cases allDistinct as with
  | true => exact ⟨rfl, hgood⟩
  | false => exact ⟨rfl, hbad⟩

end Parallel

end Acting

/-- **Measurements are recorded in parallel**, if the key is in both logs or in
neither, the masks have the same length, and measuring goes in parallel. What is
recorded is the outcome inverted by the one mask and by the other. -/
theorem measureInto_parallel {ρ : Relabelling} {rep : Representation σ R} {key : String}
    {mask mask' : List Bool} {good mid bad : Session σ → Session σ → Prop} {s t : Session σ}
    (haxes : s.axes = t.axes) (hkey : key ∈ s.log.keys ↔ key ∈ t.log.keys)
    (hmask : mask'.length = mask.length) (hbad : bad s t)
    (hperform : Parallel ρ mid bad (rep.perform s) (rep.perform t))
    (hmid : ∀ s' t', mid s' t' → bad s' t')
    (hadd : ∀ s' t' bits, key ∉ t.log.keys → mask.length = t.axes.length →
      bits.length = mask.length → mid s' t' →
      good { s' with log := s'.log.add key (List.zipWith invertBit bits mask) }
        { t' with log := t'.log.add key (List.zipWith invertBit bits mask') }) :
    Parallel ρ good bad (measureInto rep key mask s) (measureInto rep key mask' t) := by
  have hcontains : s.log.contains key = t.log.contains key := by
    rw [Bool.eq_iff_iff, Log.contains_iff_mem_keys, Log.contains_iff_mem_keys, hkey]
  unfold measureInto
  rw [EStateM.bind_ok (get_apply s), EStateM.bind_ok (get_apply t), hcontains]
  cases hfresh : t.log.contains key with
  | true => exact ⟨rfl, hbad⟩
  | false =>
    have hfresh : key ∉ t.log.keys := by
      rw [← Log.contains_iff_mem_keys, hfresh]
      exact Bool.false_ne_true
    simp only [Bool.false_eq_true, if_false]
    rw [EStateM.bind_ok (axes_apply s), EStateM.bind_ok (axes_apply t), haxes, hmask]
    refine .check rfl hbad fun hfull => hperform.bind fun bits s' t' hst => ?_
    unfold applyMask
    rw [hmask]
    by_cases hlen : bits.length = mask.length
    · rw [if_neg (not_not_intro hlen), if_neg (not_not_intro hlen)]
      exact ⟨rfl, hadd s' t' bits hfresh (not_not.mp hfull) hlen hst⟩
    · rw [if_pos hlen, if_pos hlen]
      exact ⟨rfl, hmid s' t' hst⟩

/-! ## Whole operations -/

/-- **The steps of a representation go in parallel in related sessions**, where the
relation may depend on the measurements that are still to be made. -/
structure Representation.Parallels (rep : Representation σ R) (ρ : Relabelling)
    (rel : List Measurement → Session σ → Session σ → Prop)
    (bad : Session σ → Session σ → Prop) : Prop where
  /-- The axes are the same. -/
  axes_eq : ∀ {todo s t}, rel todo s t → s.axes = t.axes
  /-- Which they are does not matter. -/
  setAxes : ∀ {todo s t} axes, rel todo s t →
    rel todo { s with axes := axes } { t with axes := axes }
  /-- Nor does it where acting has failed. -/
  setAxes_bad : ∀ {s t} axes, bad s t → bad { s with axes := axes } { t with axes := axes }
  /-- Acting may fail before anything is done. -/
  stop : ∀ {todo s t}, rel todo s t → bad s t
  /-- Gates are applied, declined or refused in both sessions. -/
  native : ∀ {todo s t} g, rel todo s t →
    Parallel ρ (rel todo) bad (rep.native g s) (rep.native (g.relabel ρ) t)
  /-- A measurement that is made is not still to be made. -/
  measure : ∀ {todo s t} m, m.qubits.length = t.axes.length → rel (m :: todo) s t →
    Parallel ρ (rel todo) bad (measureInto rep m.key m.mask s)
      (measureInto rep m.key (ρ.measurement m).mask t)

namespace Representation.Parallels

variable {rep : Representation σ R} {ρ : Relabelling}
  {rel : List Measurement → Session σ → Session σ → Prop} {bad : Session σ → Session σ → Prop}
  {todo : List Measurement} {s t : Session σ}

/-- The second of two parts is the relabelled first, and is acted with in parallel. -/
structure OfPart (ρ : Relabelling) (rel : List Measurement → Session σ → Session σ → Prop)
    (bad : Session σ → Session σ → Prop) (p q : Operation R × Acting σ R Unit) : Prop where
  /-- The operations are the same, up to names. -/
  eq : q.1 = p.1.relabel ρ
  /-- Acting goes in parallel. -/
  run : ∀ todo s t, rel (readings [p.1] ++ todo) s t →
    Parallel ρ (rel todo) bad (p.2 s) (q.2 t)

variable (h : rep.Parallels ρ rel bad)

include h

/-- A part is acted with in parallel on its own axes, if it has them. -/
theorem onPart {qubits axes : List Nat} {p q : Operation R × Acting σ R Unit}
    (hpart : OfPart ρ rel bad p q) (hst : rel (readings [p.1] ++ todo) s t) :
    Parallel ρ (rel todo) bad (onPart qubits axes p.1 p.2 s)
      (onPart (qubits.map ρ.qubit) axes q.1 q.2 t) := by
  unfold Qudit.onPart
  rw [hpart.eq, axesOf_relabel]
  refine (Parallel.ofExcept hst (h.stop hst) _).bind fun as s' t' hst' => ?_
  exact hpart.run todo { s' with axes := as } { t' with axes := as } (h.setAxes as hst')

/-- **Parts that are acted with in parallel are gone through in parallel.** -/
theorem forM_parts {qubits axes : List Nat} {ps qs : List (Operation R × Acting σ R Unit)}
    (hparts : List.Forall₂ (OfPart ρ rel bad) ps qs)
    (hst : rel (readings (ps.map Prod.fst) ++ todo) s t) :
    Parallel ρ (rel todo) bad ((ps.forM fun p => Qudit.onPart qubits axes p.1 p.2) s)
      ((qs.forM fun q => Qudit.onPart (qubits.map ρ.qubit) axes q.1 q.2) t) := by
  induction hparts generalizing s t with
  | nil => exact .pure hst ()
  | cons hpart _ ih =>
    rw [List.map_cons, readings_cons, List.append_assoc] at hst
    rw [EStateM.forM_cons, EStateM.forM_cons]
    exact (h.onPart hpart hst).bind fun _ s' t' hst' => ih hst'

/-- **An operation and its relabelling are taken apart in parallel.** -/
theorem inParts (op : Operation R) {ps qs : List (Operation R × Acting σ R Unit)}
    (hparts : List.Forall₂ (OfPart ρ rel bad) ps qs)
    (hst : rel (readings (ps.map Prod.fst) ++ todo) s t) :
    Parallel ρ (rel todo) bad (inParts op ps s) (inParts (op.relabel ρ) qs t) := by
  have hlen : (op.qubits.map ρ.qubit).length = op.qubits.length := List.length_map _
  unfold Qudit.inParts
  rw [EStateM.bind_ok (axes_apply s), EStateM.bind_ok (axes_apply t), h.axes_eq hst,
    op.qubits_relabel, hlen]
  refine .check rfl (h.stop hst) fun _ => ?_
  refine (Parallel.checkDistinct hst (h.stop hst) _).bind fun _ s' t' hst' => ?_
  refine (Parallel.restoringAxes (h.axes_eq hst') (h.forM_parts hparts hst')
    (fun _ _ axes => h.setAxes axes) fun _ _ axes => h.setAxes_bad axes).bind fun _ u v huv => ?_
  exact .pure huv _

/-- A gate and its relabelling are acted with in parallel, whatever else is done with
them once the representation has declined them. -/
theorem actBy_gate {g : PlacedGate R} {rest rest' : Acting σ R Outcome}
    (hrest : ∀ s t, rel todo s t → Parallel ρ (rel todo) bad (rest s) (rest' t))
    (hst : rel todo s t) : Parallel ρ (rel todo) bad (actBy rep (.gate g) rest s)
      (actBy rep (.gate (g.relabel ρ)) rest' t) := by
  have hfallback : Parallel ρ (rel todo) bad (fallbackBy rep (.gate g) rest s)
      (fallbackBy rep (.gate (g.relabel ρ)) rest' t) := by
    refine (h.native g hst).bind fun o s' t' hst' => ?_
    cases o with
    | applied => exact .pure hst' _
    | notImplemented => exact hrest s' t' hst'
  refine hfallback.bind fun o s' t' hst' => ?_
  cases o with
  | applied => exact .pure hst' _
  | notImplemented => exact ⟨rfl, h.stop hst'⟩

/-- So are the bit flips that stand for an exchange. -/
theorem byParts_gate {g : PlacedGate R} (hst : rel todo s t) :
    Parallel ρ (rel todo) bad (byParts rep (.gate g) s) (byParts rep (.gate (g.relabel ρ)) t) := by
  rw [byParts, byParts, g.parts_relabel]
  cases g.parts with
  | none => exact .pure hst _
  | some flips =>
    refine h.inParts (.gate g) ?_ ?_
    · rw [List.map_map, List.forall₂_map_left_iff, List.forall₂_map_right_iff, List.forall₂_same]
      exact fun f _ => ⟨rfl, fun todo s t hst => h.actBy_gate (fun _ _ hst => .pure hst _) hst⟩
    · -- the bit flips are gates, so together they measure nothing
      rwa [List.map_map, show Prod.fst ∘ _ = Operation.gate from rfl, readings_gates]

/-- **An operation and its relabelling are acted with in parallel** in related sessions,
and what is left to be measured in the end is what the operation does not measure. -/
theorem act {op : Operation R} (todo : List Measurement) (hst : rel (readings [op] ++ todo) s t) :
    Parallel ρ (rel todo) bad (act rep op s) (act rep (op.relabel ρ) t) := by
  induction op generalizing todo s t with
  | gate g => exact h.actBy_gate (fun _ _ hst => h.byParts_gate hst) hst
  | measure m =>
    rw [relabel, act_measure, act_measure, h.axes_eq hst, ρ.qubits_measurement, List.length_map,
      ρ.key_measurement]
    split_ifs with hlen
    · exact h.measure m hlen hst
    · exact ⟨rfl, h.stop hst⟩
  | composite label qubits body ih =>
    have hactions : List.Forall₂ (OfPart ρ rel bad) (actions rep body)
        (actions rep (relabelOfList ρ body)) := by
      rw [actions_eq_map, actions_eq_map, relabelOfList_eq_map, List.map_map,
        List.forall₂_map_left_iff, List.forall₂_map_right_iff, List.forall₂_same]
      exact fun op hop => ⟨rfl, fun todo s t hst => ih op hop todo hst⟩
    have hfst : (actions rep body).map Prod.fst = body := by
      rw [actions_eq_map, List.map_map]
      exact List.map_id _
    rw [readings_composite] at hst
    have hbody := h.inParts (.composite label qubits body) hactions (hfst.symm ▸ hst)
    refine Parallel.bind hbody fun o s' t' hst' => ?_
    cases o with
    | applied => exact .pure hst' _
    | notImplemented => exact ⟨rfl, h.stop hst'⟩

end Representation.Parallels

/-! ## Amplitudes -/

namespace StateVector

variable {ρ : Relabelling} {s t : Session (State (Amplitude R))}

theorem checkedAxes_parallel
    {bad : Session (State (Amplitude R)) → Session (State (Amplitude R)) → Prop}
    (hregister : s.register = t.register) (haxes : s.axes = t.axes) (hbad : bad s t) :
    Parallel ρ (Still s t) bad (checkedAxes s) (checkedAxes t) := by
  unfold checkedAxes
  rw [EStateM.bind_ok (get_apply s), EStateM.bind_ok (get_apply t), hregister, haxes]
  cases t.axes.find? fun axis => Nat.ble t.register.numSites axis with
  | some axis => exact ⟨rfl, hbad⟩
  | none => exact (Parallel.checkDistinct ⟨rfl, rfl⟩ hbad _).bind fun _ _ _ h => .pure h _

variable [Scalar R]

/-- **A gate and its relabelling do the same to equal registers**, whatever the log and
the source. -/
theorem native_parallel (g : PlacedGate R) (hregister : s.register = t.register)
    (haxes : s.axes = t.axes) :
    Parallel ρ (Moved id s t) (Moved id s t) (native g s) (native (g.relabel ρ) t) := by
  have hstill : Still s t s t := ⟨rfl, rfl⟩
  have hmoved : Moved id s t s t := ⟨s.register, rfl, by rw [hregister]; rfl⟩
  unfold native
  rw [g.length_controls_relabel, g.length_targets_relabel, g.gate_relabel, g.configs_relabel]
  refine (checkedAxes_parallel hregister haxes hmoved).bind ?_
  rintro as _ _ ⟨rfl, rfl⟩
  refine .check rfl hmoved fun _ => (Parallel.orFault hstill hmoved _).bind ?_
  rintro ⟨controls, targets⟩ _ _ ⟨rfl, rfl⟩
  dsimp only
  rw [EStateM.bind_ok (get_apply s), EStateM.bind_ok (get_apply t), hregister]
  refine (Parallel.orFault hstill hmoved _).bind ?_
  rintro dims _ _ ⟨rfl, rfl⟩
  cases g.gate.matrix (dims.headD 2) with
  | error e => exact ⟨rfl, hmoved⟩
  | ok matrix =>
    refine .check rfl hmoved fun _ => Parallel.bind ?_ fun _ _ _ h => .pure h _
    unfold onState
    rw [hregister]
    cases State.apply matrix targets controls g.configs t.register with
    | ok u register => exact ⟨rfl, register, rfl, rfl⟩
    | error f register => exact ⟨rfl, register, rfl, rfl⟩

/-- **A measurement does the same to equal registers** if the next words of the sources
are the same, whatever the log. A word is taken from both or from neither. -/
theorem perform_parallel (hregister : s.register = t.register) (haxes : s.axes = t.axes)
    (hword : s.source.next.1 = t.source.next.1) :
    Parallel ρ (Moved (fun source => source.next.2) s t)
      (fun s' t' => ∃ advance, Moved advance s t s' t') (perform s) (perform t) := by
  have hdraw : (s.source.nextUnit.1 : R) = t.source.nextUnit.1 :=
    congrArg Source.unit hword
  have hstop : ∃ advance, Moved advance s t s t :=
    ⟨id, s.register, rfl, by rw [hregister]; rfl⟩
  unfold perform
  refine (checkedAxes_parallel hregister haxes hstop).bind ?_
  rintro as _ _ ⟨rfl, rfl⟩
  unfold onStateAndSource State.measure
  simp only [hregister, hdraw, Option.getD_some]
  cases t.register.marginal as with
  | error e => exact ⟨rfl, id, t.register, by rw [← hregister]; rfl, rfl⟩
  | ok weights =>
    cases t.register.siteDims (some as) with
    | error e => exact ⟨rfl, id, t.register, by rw [← hregister]; rfl, rfl⟩
    | ok dims =>
      dsimp only
      cases State.observe as weights dims t.source.nextUnit.1 t.register with
      | error e register => exact ⟨rfl, fun source => source.next.2, register, rfl, rfl⟩
      | ok values register => exact ⟨rfl, register, rfl, rfl⟩

end StateVector

end Qudit
