import Qudit.Proofs.Acting.Ending

/-!
# How far acting gets

An operation measures at places that can be told beforehand: its
measurements, in the order of the tree, each with the axes that its qubits
lie on (`Operation.measurements`). Acting gets through all of them, or it ends
early and has then made the first few and no others.

What is preserved along the way is left open here. `Representation.Preserves`
asks of `inv` that it is carried from each step of a representation to the
next, where `inv made s` is about a session in which the measurements `made`
have been made; `Representation.Preserves.act` carries it through a whole
operation, by induction on the tree. Nothing is asked of the operation but what
`admits` asks of its gates.
-/

namespace Qudit

open Acting

variable {σ R α β : Type}

/-- **A measurement with the axes of its qubits.** -/
structure PlacedMeasurement where
  /-- The measurement. -/
  measurement : Measurement
  /-- The axes that its qubits lie on. -/
  axes : List Nat

/-- The key that a placed measurement is recorded under. -/
def PlacedMeasurement.key (m : PlacedMeasurement) : String := m.measurement.key

namespace Operation

/-- The axes of an operation whose qubits are among `qubits`, which lie on
`axes`. Zero stands for the axis of a qubit that is not among them. -/
def axesWithin (qubits axes : List Nat) (op : Operation R) : List Nat :=
  op.qubits.map fun q => (axisOf qubits axes q).getD 0

mutual

/-- **The measurements of an operation that lies on the given axes**, in the
order in which they are made. -/
def measurements (axes : List Nat) : Operation R → List PlacedMeasurement
  | .gate _ => []
  | .measure m => [⟨m, axes⟩]
  | .composite _ qubits body => measurementsOfList qubits axes body

/-- The measurements of a sequence of operations on qubits that lie on the
given axes. -/
def measurementsOfList (qubits axes : List Nat) : List (Operation R) → List PlacedMeasurement
  | [] => []
  | op :: ops =>
    measurements (axesWithin qubits axes op) op ++ measurementsOfList qubits axes ops

end

theorem keys_measurementsOfList {qubits axes : List Nat} {ops : List (Operation R)}
    (h : ∀ op ∈ ops, ∀ as, (op.measurements as).map PlacedMeasurement.key = op.keys) :
    (measurementsOfList qubits axes ops).map PlacedMeasurement.key = keysOfList ops := by
  induction ops with
  | nil => rfl
  | cons op ops ih =>
    rw [measurementsOfList, keysOfList, List.map_append, h op (by simp),
      ih fun o ho => h o (by simp [ho])]

/-- An operation records under the keys of its measurements. -/
theorem keys_measurements (axes : List Nat) (op : Operation R) :
    (op.measurements axes).map PlacedMeasurement.key = op.keys := by
  induction op generalizing axes with
  | gate g => rfl
  | measure m => rfl
  | composite label qubits body ih => exact keys_measurementsOfList ih

theorem measurementsOfList_gates (qubits axes : List Nat) (gs : List (PlacedGate R)) :
    measurementsOfList qubits axes (gs.map .gate) = [] := by
  induction gs with
  | nil => rfl
  | cons g gs ih => rw [List.map_cons, measurementsOfList, ih]; rfl

end Operation

/-- Axes that are found for a part are the axes of the part. -/
theorem eq_axesWithin_of_axesOf {qubits axes as : List Nat} {op : Operation R}
    (h : axesOf qubits axes op = .ok as) : as = op.axesWithin qubits axes := by
  refine Except.eq_map_of_mapM_eq_ok h fun q _ a ha => ?_
  cases hq : axisOf qubits axes q with
  | none =>
    rw [hq] at ha
    cases ha
  | some axis =>
    rw [hq] at ha
    obtain ⟨⟩ := ha
    rfl

/-- **Going through the measurements `todo`**, after `made`: where acting
succeeds it has made them all, and where it fails the first few of them. -/
def GetsThrough (inv : List PlacedMeasurement → Session σ → Prop) (bad : Failure R → Prop)
    (made todo : List PlacedMeasurement) : EStateM.Result (Failure R) (Session σ) α → Prop :=
  Ends (fun _ t => inv (made ++ todo) t)
    fun e t => bad e ∧ ∃ done, done <+: todo ∧ inv (made ++ done) t

/-- **What the steps of a representation preserve.** -/
structure Representation.Preserves (rep : Representation σ R) (admits : PlacedGate R → Prop)
    (inv : List PlacedMeasurement → Session σ → Prop) (bad : Failure R → Prop) : Prop where
  /-- The axes do not matter. -/
  setAxes : ∀ {made s} axes, inv made s → inv made { s with axes := axes }
  /-- Acting may be refused. -/
  refuse : ∀ e : Failure R, e.IsError → bad e
  /-- The parts of an exchange are admitted with it. -/
  parts : ∀ {g flips}, admits g → g.parts = some flips → ∀ f ∈ flips, admits f
  /-- Gates measure nothing. -/
  native : ∀ {made s g}, admits g → inv made s →
    Ends (fun _ t => inv made t) (fun e t => bad e ∧ inv made t) (rep.native g s)
  /-- A measurement is made, or nothing is. -/
  measure : ∀ {made s} (m : Measurement), m.qubits.length = s.axes.length → inv made s →
    Ends (fun _ t => inv (made ++ [⟨m, s.axes⟩]) t) (fun e t => bad e ∧ inv made t)
      (measureInto rep m.key m.mask s)

namespace GetsThrough

variable {inv : List PlacedMeasurement → Session σ → Prop} {bad : Failure R → Prop}
  {made todo rest : List PlacedMeasurement} {s : Session σ}

/-- Where acting ends at once, it has made none of what was to be made. -/
theorem stop (h : inv made s) {e : Failure R} (he : bad e) :
    bad e ∧ ∃ done, done <+: todo ∧ inv (made ++ done) s :=
  ⟨he, [], List.nil_prefix, by rwa [List.append_nil]⟩

/-- A single step makes all of it or none. -/
theorem of_step {r : EStateM.Result (Failure R) (Session σ) α}
    (h : Ends (fun _ t => inv (made ++ todo) t) (fun e t => bad e ∧ inv made t) r) :
    GetsThrough inv bad made todo r :=
  h.mono (fun _ _ => id) fun _ _ ht => stop ht.2 ht.1

theorem pure (h : inv made s) (a : α) :
    GetsThrough inv bad made [] ((pure a : Acting σ R α) s) := by
  show inv (made ++ []) s
  rwa [List.append_nil]

/-- **Of a sequence the second part goes on where the first has got to.** -/
theorem bind {x : Acting σ R α} {f : α → Acting σ R β} (h : GetsThrough inv bad made todo (x s))
    (hf : ∀ a t, inv (made ++ todo) t → GetsThrough inv bad (made ++ todo) rest (f a t)) :
    GetsThrough inv bad made (todo ++ rest) ((x >>= f) s) := by
  refine Ends.bind (h.mono (fun _ _ => id) ?_) fun a t ht => (hf a t ht).mono ?_ ?_
  · rintro e t ⟨he, done, hdone, ht⟩
    exact ⟨he, done, hdone.trans (List.prefix_append todo rest), ht⟩
  · intro b u hu
    rwa [← List.append_assoc]
  · rintro e u ⟨he, done, hdone, hu⟩
    exact ⟨he, todo ++ done, (List.prefix_append_right_inj todo).mpr hdone, by
      rwa [← List.append_assoc]⟩

/-- Steps that measure nothing do not show. -/
theorem bind_nil {x : Acting σ R α} {f : α → Acting σ R β} (h : GetsThrough inv bad made [] (x s))
    (hf : ∀ a t, inv made t → GetsThrough inv bad made todo (f a t)) :
    GetsThrough inv bad made todo ((x >>= f) s) :=
  h.bind fun a t ht => by
    rw [List.append_nil] at ht ⊢
    exact hf a t ht

end GetsThrough

namespace Representation.Preserves

variable {rep : Representation σ R} {admits : PlacedGate R → Prop}
  {inv : List PlacedMeasurement → Session σ → Prop} {bad : Failure R → Prop}
  {made todo : List PlacedMeasurement} {s : Session σ}
  (h : rep.Preserves admits inv bad)

include h

/-- A refusal has made none of what was to be made. -/
theorem refused (hs : inv made s) (e : ActError R) :
    GetsThrough inv bad made todo (.error (.error e) s : EStateM.Result _ _ α) :=
  GetsThrough.stop hs (h.refuse _ trivial)

/-- A part is acted with on its own axes, if it has them. -/
theorem onPart {qubits axes : List Nat} {part : Operation R} {run : Acting σ R Unit}
    (hrun : ∀ made t, inv made t → GetsThrough inv bad made (part.measurements t.axes) (run t))
    (hs : inv made s) :
    GetsThrough inv bad made (part.measurements (part.axesWithin qubits axes))
      (onPart qubits axes part run s) := by
  unfold Qudit.onPart
  cases has : axesOf qubits axes part with
  | error e => exact h.refused hs e
  | ok as =>
    rw [← eq_axesWithin_of_axesOf has]
    exact hrun made { s with axes := as } (h.setAxes as hs)

/-- **A loop over parts goes through the measurements of all of them.** -/
theorem forM_parts {qubits axes : List Nat} {parts : List (Operation R × Acting σ R Unit)}
    (hparts : ∀ p ∈ parts, ∀ made t, inv made t →
      GetsThrough inv bad made (p.1.measurements t.axes) (p.2 t)) (hs : inv made s) :
    GetsThrough inv bad made (Operation.measurementsOfList qubits axes (parts.map Prod.fst))
      ((parts.forM fun p => Qudit.onPart qubits axes p.1 p.2) s) := by
  induction parts generalizing made s with
  | nil => exact .pure hs ()
  | cons p ps ih =>
    rw [EStateM.forM_cons, List.map_cons, Operation.measurementsOfList]
    exact (h.onPart (hparts p (by simp)) hs).bind fun _ t ht =>
      ih (fun q hq => hparts q (by simp [hq])) ht

/-- **An operation that is taken apart goes through the measurements of its
parts.** -/
theorem inParts (op : Operation R) (parts : List (Operation R × Acting σ R Unit))
    (hparts : ∀ p ∈ parts, ∀ made t, inv made t →
      GetsThrough inv bad made (p.1.measurements t.axes) (p.2 t)) (hs : inv made s) :
    GetsThrough inv bad made
      (Operation.measurementsOfList op.qubits s.axes (parts.map Prod.fst))
      (inParts op parts s) := by
  unfold Qudit.inParts
  rw [EStateM.bind_ok (axes_apply s)]
  refine .check (fun _ => h.refused (α := Outcome) hs _) fun _ => ?_
  refine (checkDistinct_ends s.axes s).bind
    (fun e he => GetsThrough.stop hs (h.refuse e he)) fun _ _ => ?_
  rw [← List.append_nil (Operation.measurementsOfList _ _ _)]
  refine GetsThrough.bind (Ends.restoringAxes ?_) fun _ t ht => .pure ht _
  refine (h.forM_parts hparts hs).mono (fun _ _ ht => h.setAxes _ ht) ?_
  rintro e t ⟨he, done, hdone, ht⟩
  exact ⟨he, done, hdone, h.setAxes _ ht⟩

/-- A gate goes through no measurement, whatever else is done with it once
the representation has declined it. -/
theorem actBy_gate {g : PlacedGate R} {rest : Acting σ R Outcome} (hg : admits g)
    (hrest : ∀ made t, inv made t → GetsThrough inv bad made [] (rest t)) (hs : inv made s) :
    GetsThrough inv bad made [] (actBy rep (.gate g) rest s) := by
  have hnative : GetsThrough inv bad made [] (rep.native g s) :=
    .of_step (by rw [List.append_nil]; exact h.native hg hs)
  have hfallback : GetsThrough inv bad made [] (fallbackBy rep (.gate g) rest s) := by
    refine hnative.bind_nil fun o t ht => ?_
    cases o with
    | applied => exact .pure ht _
    | notImplemented => exact hrest _ _ ht
  refine hfallback.bind_nil fun o t ht => ?_
  cases o with
  | applied => exact .pure ht _
  | notImplemented => exact h.refused ht _

/-- Nor do the bit flips that stand for an exchange. -/
theorem byParts_gate {g : PlacedGate R} (hg : admits g) (hs : inv made s) :
    GetsThrough inv bad made [] (byParts rep (.gate g) s) := by
  rw [byParts]
  cases hparts : g.parts with
  | none => exact .pure hs _
  | some flips =>
    have hflips := h.inParts (.gate g) (flips.map fun f =>
      (.gate f, actBy rep (.gate f) (return .notImplemented))) (fun p hp made t ht => by
        obtain ⟨f, hf, rfl⟩ := List.mem_map.mp hp
        exact h.actBy_gate (h.parts hg hparts f hf) (fun _ _ hu => .pure hu _) ht) hs
    -- the bit flips are gates, so together they measure nothing
    rwa [List.map_map, show Prod.fst ∘ _ = Operation.gate from rfl,
      Operation.measurementsOfList_gates] at hflips

/-- **Acting with an operation goes through its measurements.** -/
theorem act {op : Operation R} (hop : ∀ g, .gate g ∈ op.leaves → admits g) (hs : inv made s) :
    GetsThrough inv bad made (op.measurements s.axes) (act rep op s) := by
  induction op generalizing made s with
  | gate g =>
    have hg := hop g (by simp [Operation.leaves])
    exact h.actBy_gate hg (fun _ _ ht => h.byParts_gate hg ht) hs
  | measure m =>
    rw [act_measure]
    split_ifs with hlen
    · exact .of_step (h.measure m hlen hs)
    · exact h.refused hs _
  | composite label qubits body ih =>
    have hactions : ∀ p ∈ actions rep body, ∀ made t, inv made t →
        GetsThrough inv bad made (p.1.measurements t.axes) (p.2 t) := by
      intro p hp made t ht
      rw [actions_eq_map] at hp
      obtain ⟨op, hmem, rfl⟩ := List.mem_map.mp hp
      exact ih op hmem (fun g hg => hop g (Operation.leaves_subset_leavesOfList hmem hg)) ht
    have hbody := h.inParts (.composite label qubits body) (actions rep body) hactions hs
    have hfst : (actions rep body).map Prod.fst = body := by
      rw [actions_eq_map, List.map_map]
      exact List.map_id _
    rw [hfst] at hbody
    rw [← List.append_nil (Operation.measurements _ _)]
    refine GetsThrough.bind hbody fun o t ht => ?_
    cases o with
    | applied => exact .pure ht _
    | notImplemented => exact h.refused ht _

end Representation.Preserves

end Qudit
