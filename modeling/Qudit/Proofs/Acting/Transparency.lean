import Mathlib.Data.List.GetD
import Mathlib.Data.List.Nodup
import Mathlib.Data.Set.Function
import Qudit.Acting.BasisState
import Qudit.Proofs.Acting.Sequence

/-!
# Composites are transparent

Acting with a composite is acting with its gates and measurements in order,
however deep they are nested (`act_composite_eq_leaves`). Every level of the
nesting lays the qubits of its parts on axes anew, and puts the axes back
when it ends. The first does not matter because all these maps are the one
of the outermost composite; the second does not because whatever comes next
sets its own axes before it does anything. What is left of the axes between
two steps is therefore irrelevant, and the proof compares results up to the
axes they end with (`SameButAxes`).
-/

namespace Qudit

open Acting

variable {σ R α β : Type}

namespace Acting

/-- The result with other axes at the end. -/
def withAxes (as : List Nat) :
    EStateM.Result (Failure R) (Session σ) α → EStateM.Result (Failure R) (Session σ) α
  | .ok a s => .ok a { s with axes := as }
  | .error e s => .error e { s with axes := as }

theorem restoringAxes_eq_withAxes (run : Acting σ R α) (s : Session σ) :
    restoringAxes run s = withAxes s.axes (run s) := by
  rw [restoringAxes_apply]
  cases run s with
  | ok a s' => rfl
  | error e s' => rfl

/-- Two sessions that differ at most in the axes. -/
def AlikeButAxes (s t : Session σ) : Prop :=
  ∀ as, { s with axes := as } = { t with axes := as }

/-- **Two results that differ at most in the axes they end with.** -/
def SameButAxes (r r' : EStateM.Result (Failure R) (Session σ) α) : Prop :=
  ∀ as, withAxes as r = withAxes as r'

theorem alikeButAxes_withAxes (s : Session σ) (as : List Nat) :
    AlikeButAxes { s with axes := as } s := fun _ => rfl

theorem sameButAxes_withAxes (r : EStateM.Result (Failure R) (Session σ) α) (as : List Nat) :
    SameButAxes (withAxes as r) r := by
  intro bs
  cases r with
  | ok a s => rfl
  | error e s => rfl

theorem SameButAxes.trans {r₁ r₂ r₃ : EStateM.Result (Failure R) (Session σ) α}
    (h : SameButAxes r₁ r₂) (h' : SameButAxes r₂ r₃) : SameButAxes r₁ r₃ :=
  fun as => (h as).trans (h' as)

/-- Sequences that are alike in both parts end alike, if the second part
does not depend on the axes it starts with. -/
theorem SameButAxes.bind {x y : Acting σ R α} {f g : α → Acting σ R β} {s t : Session σ}
    (h : SameButAxes (x s) (y t))
    (hfg : ∀ a s' t', AlikeButAxes s' t' → SameButAxes (f a s') (g a t')) :
    SameButAxes ((x >>= f) s) ((y >>= g) t) := by
  rw [EStateM.bind_apply, EStateM.bind_apply]
  cases hx : x s with
  | ok a s' =>
    cases hy : y t with
    | ok b t' =>
      rw [hx, hy] at h
      obtain rfl : a = b := by
        injection h []
      refine hfg a s' t' fun as => ?_
      injection h as
    | error e t' =>
      rw [hx, hy] at h
      cases h []
  | error e s' =>
    cases hy : y t with
    | ok b t' =>
      rw [hx, hy] at h
      cases h []
    | error e' t' =>
      rw [hx, hy] at h
      exact fun as => by
        injection h as with he hs
        show EStateM.Result.error e _ = EStateM.Result.error e' _
        rw [he, hs]

/-- Going through operations does not depend on the axes at the start. -/
theorem actEach_of_alike (rep : Representation σ R) (m : Nat → Nat) (ops : List (Operation R))
    {s t : Session σ} (h : AlikeButAxes s t) :
    SameButAxes (actEach rep m ops s) (actEach rep m ops t) := by
  obtain _ | ⟨op, ops⟩ := ops
  · exact fun as => congrArg (EStateM.Result.ok ()) (h as)
  · intro as
    rw [actEach_cons, actEach_cons, h (op.qubits.map m)]

end Acting

open Operation

/-- **Operations that act as others in their place do** act as all of these, one after
the other. -/
theorem sameButAxes_flatMap {rep : Representation σ R} {m : Nat → Nat}
    {ops : List (Operation R)} {f : Operation R → List (Operation R)}
    (h : ∀ op ∈ ops, ∀ s, SameButAxes (act rep op { s with axes := op.qubits.map m })
      (actEach rep m (f op) s))
    {s t : Session σ} (hst : AlikeButAxes s t) :
    SameButAxes (actEach rep m ops s) (actEach rep m (ops.flatMap f) t) := by
  induction ops generalizing s t with
  | nil => exact actEach_of_alike rep m [] hst
  | cons op ops ih =>
    rw [actEach_cons, List.flatMap_cons, actEach_append]
    refine SameButAxes.bind ((h op (by simp) s).trans (actEach_of_alike rep m _ hst)) ?_
    exact fun _ s' t' hst' => ih (fun op' hop' => h op' (by simp [hop'])) hst'

/-- A sequence of operations, each of which acts as its leaves do, acts as
the leaves of all of them. -/
theorem sameButAxes_leavesOfList {rep : Representation σ R} {m : Nat → Nat}
    {ops : List (Operation R)}
    (h : ∀ op ∈ ops, ∀ s, SameButAxes (act rep op { s with axes := op.qubits.map m })
      (actEach rep m op.leaves s))
    {s t : Session σ} (hst : AlikeButAxes s t) :
    SameButAxes (actEach rep m ops s) (actEach rep m (leavesOfList ops) t) := by
  rw [leavesOfList_eq_flatMap]
  exact sameButAxes_flatMap h hst

/-- **An operation acts as its leaves do**, wherever its qubits lie. The map
`m` is the same at every level of the tree. -/
theorem sameButAxes_leaves {rep : Representation σ R} {m : Nat → Nat} {op : Operation R}
    (hop : op.Scoped) (hm : Set.InjOn m {q | q ∈ op.qubits}) (s : Session σ) :
    SameButAxes (act rep op { s with axes := op.qubits.map m }) (actEach rep m op.leaves s) := by
  induction op generalizing s with
  | gate g =>
    rw [leaves, actEach_singleton]
    exact fun _ => rfl
  | measure μ =>
    rw [leaves, actEach_singleton]
    exact fun _ => rfl
  | composite label qubits body ih =>
    obtain _ | _ | ⟨_, hnodup, hwithin, hinner⟩ := hop
    have hdistinct : (qubits.map m).Nodup := List.Nodup.map_on hm hnodup
    rw [act_composite rep label hwithin rfl hdistinct, restoringAxes_eq_withAxes]
    refine (sameButAxes_withAxes _ _).trans ?_
    refine sameButAxes_leavesOfList (fun op hop s => ?_) (alikeButAxes_withAxes s _)
    exact ih op hop (hinner op hop) (hm.mono fun q hq => hwithin op hop hq) s

/-! ## From the axes of the composite -/

/-- The axis at the place that a qubit has among the qubits. -/
def axisAt (qubits axes : List Nat) (q : Nat) : Nat := axes.getD (qubits.idxOf q) 0

theorem map_axisAt {qubits axes : List Nat} (hnodup : qubits.Nodup)
    (hlen : axes.length = qubits.length) : qubits.map (axisAt qubits axes) = axes := by
  refine List.ext_getElem (by simpa using hlen.symm) fun i hi hi' => ?_
  rw [List.getElem_map, axisAt, hnodup.idxOf_getElem, List.getD_eq_getElem _ _ hi']

/-- **Composites are transparent.** A composite whose tree keeps to its
declared qubits, on as many distinct axes as it declares qubits, does what
its gates and measurements do one after the other, each on the axes of its
own qubits: the result is the same or the same failure, with the same
register, log and source, and the axes are put back. -/
theorem act_composite_eq_leaves (rep : Representation σ R) (label : String)
    (qubits : List Nat) (body : List (Operation R))
    (hscoped : (Operation.composite label qubits body).Scoped) (s : Session σ)
    (hlen : s.axes.length = qubits.length) (haxes : s.axes.Nodup) :
    act rep (.composite label qubits body) s
      = restoringAxes (actEach rep (axisAt qubits s.axes)
          (Operation.composite label qubits body).leaves) s := by
  obtain _ | _ | ⟨_, hnodup, hwithin, hinner⟩ := hscoped
  have hmap := map_axisAt hnodup hlen
  have hinj : Set.InjOn (axisAt qubits s.axes) {q | q ∈ qubits} := by
    have hdistinct : (qubits.map (axisAt qubits s.axes)).Nodup := hmap.symm ▸ haxes
    exact fun q hq r hr h => List.inj_on_of_nodup_map hdistinct hq hr h
  rw [act_composite rep label hwithin hmap.symm haxes, restoringAxes_eq_withAxes,
    restoringAxes_eq_withAxes]
  refine sameButAxes_leavesOfList (fun op hop t => ?_) (fun _ => rfl) s.axes
  exact sameButAxes_leaves (hinner op hop) (hinj.mono fun q hq => hwithin op hop hq) t

/-- A composite within a composite, on a register of two values whose axes
are listed in the other order: the bit flip under a control, the bit flip
and the measurement of the inner one are its leaves. -/
theorem act_composite_eq_leaves_nested :
    let body : List (Operation Float) := [.gate (.flip 5 [7] [true]),
      .composite "inner" [7] [.gate (.flip 7 [] []), .measure (.plain "m" [7])]]
    let s : Session (List Nat) := ⟨[1, 0], [1, 0], .empty, .ofWords #[]⟩
    (Operation.composite "outer" [5, 7] body).Scoped ∧
      s.axes.length = 2 ∧ s.axes.Nodup ∧
      act BasisState.representation (.composite "outer" [5, 7] body) s
        = restoringAxes (actEach BasisState.representation (axisAt [5, 7] s.axes)
            (Operation.composite "outer" [5, 7] body).leaves) s ∧
      act BasisState.representation (.composite "outer" [5, 7] body) s
        = .ok () ⟨[0, 1], [1, 0], ⟨[("m", [0])]⟩, .ofWords #[]⟩ := by
  intro body s
  have hinner : (Operation.composite "inner" [7]
      [.gate (.flip 7 [] []), .measure (.plain "m" [7])] : Operation Float).Scoped :=
    .composite "inner" (by decide) (by simp [Operation.qubits, PlacedGate.qubits,
      PlacedGate.flip, Measurement.plain]) (by
        intro op hop
        obtain rfl | hop := List.mem_cons.mp hop
        · exact .gate _
        · obtain rfl := List.mem_singleton.mp hop
          exact .measure _)
  have hscoped : (Operation.composite "outer" [5, 7] body).Scoped :=
    .composite "outer" (by decide) (by simp [body, Operation.qubits, PlacedGate.qubits,
      PlacedGate.flip]) (by
        intro op hop
        obtain rfl | hop := List.mem_cons.mp hop
        · exact .gate _
        · obtain rfl := List.mem_singleton.mp hop
          exact hinner)
  have hlen : s.axes.length = 2 := rfl
  have hnodup : s.axes.Nodup := by decide
  exact ⟨hscoped, hlen, hnodup,
    act_composite_eq_leaves BasisState.representation "outer" [5, 7] body hscoped s hlen hnodup,
    rfl⟩

end Qudit
