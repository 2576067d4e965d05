import Qudit.Proofs.Acting.OwnSteps
import Qudit.Proofs.Acting.Progress

/-!
# Acting on values changes the targets of flips and exchanges only

Which sites an operation may change can be told beforehand: those that the targets of its
bit flips and exchanges lie on, where the axes of every part are found from those of the
composite around it (`Operation.Writes`). Acting on a register of values keeps the number
of the values and changes no other site, whether it succeeds or fails
(`BasisState.act_changes_targets`). So a site that is a control, a target of a diagonal
gate or a measured site, and nothing else, keeps its value, and so does a site that no
axis names (`Operation.Writes.mem_axes`).

Nothing is asked of the operation or the axes. Where a part has a qubit that its composite
has not, there are no axes to find and the part is not acted with. The one step at which
other sites could come in is an exchange, whose bit flips have its targets as controls;
that they lie where the targets lie, although a control may be listed as a target as well,
is because of two axes for one qubit the later one counts (`exists_axisOf_append`).
-/

namespace Qudit

open Acting

variable {σ R α β : Type}

/-! ## The sites that may change -/

/-- Whether a gate changes values: a bit flip and an exchange do. -/
def Gate.changesValues : Gate R → Bool
  | .x | .swap => true
  | _ => false

/-- **A site that an operation on the given axes may change**: a target of a bit flip or
of an exchange within it lies there. -/
inductive Operation.Writes (site : Nat) : Operation R → List Nat → Prop where
  /-- The gate flips or exchanges its targets, and the site is among their axes. -/
  | gate {g : PlacedGate R} {axes : List Nat} (changes : g.gate.changesValues = true)
      (length_eq : axes.length = g.qubits.length) (mem : site ∈ axes.drop g.controls.length) :
    Writes site (.gate g) axes
  /-- A part may change the site, on the axes that its qubits have in the composite. -/
  | composite {label : String} {qubits axes partAxes : List Nat} {body : List (Operation R)}
      {part : Operation R} (mem : part ∈ body) (axes_eq : axesOf qubits axes part = .ok partAxes)
      (writes : Writes site part partAxes) : Writes site (.composite label qubits body) axes

/-- The axes of a part are among those of the whole. -/
theorem subset_of_axesOf {qubits axes as : List Nat} {op : Operation R}
    (h : axesOf qubits axes op = .ok as) : as ⊆ axes := by
  intro a ha
  obtain ⟨q, -, hq⟩ := Except.exists_of_mem_mapM h ha
  cases haxis : axisOf qubits axes q with
  | none =>
    rw [haxis] at hq
    cases hq
  | some axis =>
    rw [haxis] at hq
    obtain ⟨⟩ := hq
    exact mem_of_axisOf haxis

/-- Only sites that the axes name may change. -/
theorem Operation.Writes.mem_axes {site : Nat} {op : Operation R} {axes : List Nat}
    (h : op.Writes site axes) : site ∈ axes := by
  induction h with
  | gate _ _ mem => exact List.mem_of_mem_drop mem
  | composite _ axes_eq _ ih => exact subset_of_axesOf axes_eq ih

/-- The bit flips that an exchange is taken apart into lie where its targets lie. -/
theorem PlacedGate.targets_subset_of_axesOf {g f : PlacedGate R} {flips : List (PlacedGate R)}
    {axes as : List Nat} (hparts : g.parts = some flips) (hf : f ∈ flips)
    (hlen : axes.length = g.qubits.length) (has : axesOf g.qubits axes (.gate f) = .ok as) :
    as.drop f.controls.length ⊆ axes.drop g.controls.length := by
  have htargets : f.targets ⊆ g.targets := by
    obtain ⟨-, a, b, htargets, rfl | rfl⟩ := eq_flip_of_mem_parts hparts hf <;>
      simp [flip, htargets]
  rw [eq_axesWithin_of_axesOf has, Operation.axesWithin]
  show ((f.controls ++ f.targets).map _).drop f.controls.length ⊆ _
  rw [List.map_append, List.drop_left' (List.length_map _)]
  intro a ha
  obtain ⟨t, ht, rfl⟩ := List.mem_map.mp ha
  obtain ⟨axis, hmem, haxis⟩ := exists_axisOf_append hlen (htargets ht)
  show (axisOf (g.controls ++ g.targets) axes t).getD 0 ∈ _
  rwa [haxis]

/-! ## Taking an operation apart -/

/-- **What every part keeps is kept by the whole**, each part being acted with on the axes
that are found for it. -/
theorem inParts_ends {inv : Session σ → Prop}
    (hset : ∀ {s} axes, inv s → inv { s with axes := axes }) {op : Operation R}
    {parts : List (Operation R × Acting σ R Unit)} {s : Session σ} (hs : inv s)
    (hparts : ∀ p ∈ parts, ∀ as, op.qubits.length = s.axes.length →
      axesOf op.qubits s.axes p.1 = .ok as → ∀ t, inv t → t.axes = as →
      EndsIn inv (p.2 t)) :
    EndsIn inv (inParts op parts s) := by
  unfold inParts
  rw [EStateM.bind_ok (axes_apply s)]
  refine .check (fun _ => hs) fun hlen => ?_
  refine (checkDistinct_ends s.axes s).bind (fun _ _ => hs) fun _ _ => ?_
  have hloop : ∀ ps ⊆ parts, ∀ t, inv t →
      EndsIn inv ((ps.forM fun p => onPart op.qubits s.axes p.1 p.2) t) := by
    intro ps hps
    induction ps with
    | nil => exact fun t ht => ht
    | cons p ps ih =>
      intro t ht
      rw [EStateM.forM_cons]
      obtain ⟨hp, hps⟩ := List.cons_subset.mp hps
      have hpart : EndsIn inv (onPart op.qubits s.axes p.1 p.2 t) := by
        unfold onPart
        cases has : axesOf op.qubits s.axes p.1 with
        | error e => exact ht
        | ok as => exact hparts p hp as (not_not.mp hlen) has _ (hset as ht) rfl
      exact hpart.bind fun _ u hu => ih hps u hu
  have hrun : EndsIn inv (restoringAxes (parts.forM fun p => onPart op.qubits s.axes p.1 p.2) s) :=
    .restoringAxes ((hloop parts (List.Subset.refl _) s hs).mono (fun _ _ => hset _)
      fun _ _ => hset _)
  exact hrun.bind fun _ _ => id

/-! ## Values -/

namespace BasisState

/-- **A session whose values differ from those of another at some sites at most.** -/
structure DiffersWithin (sites : Nat → Prop) (s t : Session (List Nat)) : Prop where
  /-- There are as many values. -/
  length_eq : t.register.length = s.register.length
  /-- The values of all other sites are the same. -/
  getElem?_eq : ∀ site, ¬sites site → t.register[site]? = s.register[site]?

namespace DiffersWithin

variable {sites sites' : Nat → Prop} {s t u : Session (List Nat)}

theorem of_register_eq (h : t.register = s.register) : DiffersWithin sites s t :=
  ⟨congrArg List.length h, fun _ _ => congrArg (·[_]?) h⟩

/-- Changes one after the other are changes within the same sites. -/
theorem trans (h : DiffersWithin sites s t) (h' : DiffersWithin sites' t u)
    (hsites : ∀ site, sites' site → sites site) : DiffersWithin sites s u :=
  ⟨h'.length_eq.trans h.length_eq, fun site hsite =>
    (h'.getElem?_eq site fun hs => hsite (hsites site hs)).trans (h.getElem?_eq site hsite)⟩

end DiffersWithin

variable {sites : Nat → Prop} {s : Session (List Nat)} {g : PlacedGate R}

theorem getElem?_flippedAt_of_notMem {values axes : List Nat} {site : Nat} (h : site ∉ axes) :
    (flippedAt values axes)[site]? = values[site]? := by
  by_cases hsite : site < values.length
  · have hsite' : site < (flippedAt values axes).length := by rwa [length_flippedAt]
    have hvalue : (flippedAt values axes).getD site 0 = values.getD site 0 :=
      Radix.getD_overwrite_of_notMem h
    rw [List.getElem?_eq_getElem hsite', List.getElem?_eq_getElem hsite]
    rw [List.getD_eq_getElem _ _ hsite] at hvalue
    exact congrArg some ((List.getD_eq_getElem _ _ hsite').symm.trans hvalue)
  · have hsite' : ¬site < (flippedAt values axes).length := by rwa [length_flippedAt]
    rw [List.getElem?_eq_none (by omega), List.getElem?_eq_none (by omega)]

/-- **A gate that the register applies changes the targets of a bit flip only**, and one
that it does not apply changes nothing. -/
theorem native_differs (h : isFlip g.gate = true → s.axes.length = g.qubits.length →
      ∀ site ∈ s.axes.drop g.controls.length, sites site) :
    Ends (fun o t => DiffersWithin sites s t ∧ (o = .notImplemented → t = s))
      (fun _ t => DiffersWithin sites s t) (native g s) := by
  refine (native_ends g s).mono ?_ fun _ _ he => .of_register_eq (congrArg Session.register he.2)
  rintro o t (⟨rfl, rfl⟩ | ⟨rfl, fires, happlies, rfl⟩)
  · exact ⟨.of_register_eq rfl, fun _ => rfl⟩
  · refine ⟨?_, fun h => nomatch h⟩
    by_cases hflips : (fires && isFlip g.gate) = true
    · rw [if_pos hflips]
      have hflip : isFlip g.gate = true := (Bool.and_eq_true_iff.mp hflips).2
      refine ⟨length_flippedAt _ _, fun site hsite => getElem?_flippedAt_of_notMem fun hmem => ?_⟩
      exact hsite (h hflip (happlies.length_eq.trans g.length_qubits.symm) site hmem)
    · rw [if_neg hflips]
      exact .of_register_eq rfl

/-- So it is with acting, if what is done with a gate that is declined changes no other
sites. -/
theorem actBy_gate_differs {rest : Valued R Outcome}
    (h : isFlip g.gate = true → s.axes.length = g.qubits.length →
      ∀ site ∈ s.axes.drop g.controls.length, sites site)
    (hrest : EndsIn (DiffersWithin sites s) (rest s)) :
    EndsIn (DiffersWithin sites s) (actBy representation (.gate g) rest s) := by
  have hfallback : EndsIn (DiffersWithin sites s) (fallbackBy representation (.gate g) rest s) := by
    refine (native_differs h).bind ?_
    rintro (_ | _) t ⟨ht, hdeclined⟩
    · exact ht
    · rw [hdeclined rfl]
      exact hrest
  refine hfallback.bind ?_
  rintro (_ | _) t ht
  · exact ht
  · exact ht

theorem changesValues_of_isFlip {gate : Gate R} (h : isFlip gate = true) :
    gate.changesValues = true := by
  cases gate <;> first | rfl | cases h

/-- The bit flips that an exchange is taken apart into change its targets only. -/
theorem byParts_gate_differs :
    EndsIn (DiffersWithin (fun site => (Operation.gate g).Writes site s.axes) s)
      (byParts (representation : Representation (List Nat) R) (.gate g) s) := by
  rw [byParts]
  cases hparts : g.parts with
  | none => exact DiffersWithin.of_register_eq rfl
  | some flips =>
    refine inParts_ends (fun _ h => h.trans (.of_register_eq rfl) fun _ => id)
      (.of_register_eq rfl) ?_
    intro p hp as hlen has t ht htaxes
    obtain ⟨f, hf, rfl⟩ := List.mem_map.mp hp
    have hswap : g.gate.changesValues = true := by
      rw [(PlacedGate.parts_eq_some hparts).1]
      rfl
    -- a flip changes its target, which lies where one of the targets of the exchange does
    have hflip : EndsIn (DiffersWithin (fun site => (Operation.gate g).Writes site s.axes) t)
        (actBy representation (.gate f) (return .notImplemented) t) := by
      refine actBy_gate_differs (fun _ _ site hsite => ?_) (DiffersWithin.of_register_eq rfl)
      rw [htaxes] at hsite
      exact .gate hswap hlen.symm
        (PlacedGate.targets_subset_of_axesOf hparts hf hlen.symm has hsite)
    exact hflip.mono (fun _ _ hu => ht.trans hu fun _ => id) fun _ _ hu => ht.trans hu fun _ => id

/-- **Acting changes only what the operation may change.** -/
theorem act_differs (op : Operation R) (s : Session (List Nat)) :
    EndsIn (DiffersWithin (fun site => op.Writes site s.axes) s) (act representation op s) := by
  induction op generalizing s with
  | gate g =>
    exact actBy_gate_differs (fun hflip hlen site hsite =>
      .gate (changesValues_of_isFlip hflip) hlen hsite) byParts_gate_differs
  | measure m =>
    rw [act_measure]
    split_ifs with hlen
    · refine (measureInto_ends m.key m.mask s).mono ?_ fun _ _ he =>
        .of_register_eq (congrArg Session.register he.2)
      rintro _ _ ⟨-, -, bits, -, rfl⟩
      exact .of_register_eq rfl
    · exact DiffersWithin.of_register_eq rfl
  | composite label qubits body ih =>
    have hbody : EndsIn
        (DiffersWithin (fun site => (Operation.composite label qubits body).Writes site s.axes) s)
        (byParts representation (.composite label qubits body) s) := by
      rw [byParts, actions_eq_map]
      refine inParts_ends (fun _ h => h.trans (.of_register_eq rfl) fun _ => id)
        (.of_register_eq rfl) ?_
      intro p hp as hlen has t ht htaxes
      obtain ⟨part, hpart, rfl⟩ := List.mem_map.mp hp
      -- what the part may change on its own axes, the composite may change on its
      have hsites : ∀ site, part.Writes site t.axes →
          (Operation.composite label qubits body).Writes site s.axes :=
        fun site hsite => .composite hpart has (htaxes ▸ hsite)
      exact (ih part hpart t).mono (fun _ _ hu => ht.trans hu hsites)
        fun _ _ hu => ht.trans hu hsites
    refine hbody.bind ?_
    rintro (_ | _) t ht
    · exact ht
    · exact ht

/-- **Acting on values keeps their number and changes targets of bit flips and exchanges
only**, whatever the operation, the axes, the log and the source, and whether it succeeds
or fails. A site that keeps its value is in particular every site that is no axis. -/
theorem act_changes_targets (op : Operation R) (s : Session (List Nat)) :
    (sessionAfter (act representation op s)).register.length = s.register.length ∧
      ∀ site, (sessionAfter (act representation op s)).register[site]? ≠ s.register[site]? →
        op.Writes site s.axes ∧ site ∈ s.axes := by
  have hdiffers := endsIn_iff.mp (act_differs op s)
  refine ⟨hdiffers.length_eq, fun site hsite => ?_⟩
  have hwrites := not_imp_comm.mp (hdiffers.getElem?_eq site) hsite
  exact ⟨hwrites, hwrites.mem_axes⟩

/-- An exchange two composites deep, and then a phase flip that is refused since its site
holds two: the values that have changed are those of the exchange, whose targets lie on the
axes `3` and `0`. -/
theorem act_changes_targets_exchange :
    let phase : Operation Float := .gate ⟨.z, [5], [7], [true]⟩
    let op : Operation Float := .composite "outer" [5, 7, 9] [.composite "inner" [9, 7]
      [.gate ⟨.swap, [7, 9], [], []⟩], phase]
    let s : Session (List Nat) := ⟨[1, 4, 2, 0], [2, 0, 3], .empty, .ofWords #[]⟩
    act representation op s = .error (.error (.cannotActOn phase)) { s with
        register := [0, 4, 2, 1] } ∧
      (sessionAfter (act representation op s)).register[3]? ≠ s.register[3]? ∧
      op.Writes 3 s.axes ∧ 3 ∈ s.axes := by
  intro phase op s
  have hact : act representation op s = .error (.error (.cannotActOn phase)) { s with
      register := [0, 4, 2, 1] } := rfl
  have hchanged : (sessionAfter (act representation op s)).register[3]? ≠ s.register[3]? := by
    rw [hact]
    decide
  exact ⟨hact, hchanged, (act_changes_targets op s).2 3 hchanged⟩

end BasisState

end Qudit
