import Qudit.Proofs.Acting.Ending
import Qudit.Proofs.Acting.StateVector
import Qudit.Simulator

/-!
# A circuit that was admitted can be simulated

What `Circuit.ofOperations` checks once, over the whole tree of operations,
is enough for every check that acting makes later but one: a circuit is
simulated from every state of its register, whatever the random source,
exactly if every measurement has a mask with one entry per qubit
(`simulate_succeeds`). A measurement is made with such a mask, but its qubits
may be changed afterwards, and nobody looks at the mask before acting does.
Two more conditions are not checked when a circuit is built. A site of
dimension zero has no values to measure, and a custom gate has to be given a
square matrix.

The induction follows the tree. What it carries from one operation to the
next is the register, whose dimensions stay, and the log, which has got
exactly the keys of the operations so far: that the keys of the whole are
distinct is what lets every measurement find its own key new. Acting stops at
the first measurement whose mask does not fit, and can stop nowhere else.
-/

namespace Qudit

open Radix Acting Operation

variable {σ R : Type}

theorem runOperations_cons (rep : Representation σ R) (position : Nat) (op : Operation R)
    (ops : List (Operation R)) (s : Session σ) :
    runOperations rep position (op :: ops) s = match act rep op { s with axes := op.qubits } with
      | .ok () s' => runOperations rep (position + 1) ops s'
      | .error (.error e) s' => .error (.operation position e) s'
      | .error (.fault f) s' => .error (.fault f) s' := rfl

/-- **A sequence is run exactly when it is acted with**, operation by
operation at its own qubits. -/
theorem runOperations_eq_ok_iff {rep : Representation σ R} {ops : List (Operation R)}
    {s s' : Session σ} (position : Nat) :
    runOperations rep position ops s = .ok () s' ↔ actEach rep id ops s = .ok () s' := by
  induction ops generalizing s position with
  | nil =>
    rw [runOperations, actEach, EStateM.forM_nil, EStateM.pure_apply]
    simp
  | cons op ops ih =>
    rw [runOperations_cons, actEach_cons, List.map_id, EStateM.bind_apply]
    cases act rep op { s with axes := op.qubits } with
    | ok u t => exact ih (position + 1)
    | error e t => cases e <;> simp

variable [Scalar R]

/-- **A simulation succeeds exactly when acting does**, operation by operation;
the axes that are left at the end are not part of the result. -/
theorem simulate_eq_ok_iff {c : Circuit R} {initial : State (Amplitude R)}
    {source rest : Source} {run : Run R} :
    simulate c initial source = .ok run rest ↔ initial.dims = c.dims ∧ ∃ axes,
      actEach StateVector.representation id c.operations ⟨initial, [], .empty, source⟩
        = .ok () ⟨run.state, axes, run.log, rest⟩ := by
  unfold simulate
  by_cases hdims : initial.dims = c.dims
  · rw [if_neg (not_not_intro hdims)]
    simp only [← runOperations_eq_ok_iff 0, hdims, true_and]
    cases runOperations StateVector.representation 0 c.operations
        ⟨initial, [], .empty, source⟩ with
    | ok u s =>
      constructor
      · rintro ⟨⟩
        exact ⟨s.axes, rfl⟩
      · rintro ⟨axes, ⟨⟩⟩
        rfl
    | error e s => simp
  · rw [if_pos hdims]
    simp [hdims]

/-- A circuit whose operations can be acted with is simulated. -/
theorem simulate_of_actEach {c : Circuit R} {initial : State (Amplitude R)} {source : Source}
    {s' : Session (State (Amplitude R))} (hdims : initial.dims = c.dims)
    (h : actEach StateVector.representation id c.operations ⟨initial, [], .empty, source⟩
      = .ok () s') :
    simulate c initial source = .ok ⟨s'.register, s'.log⟩ s'.source :=
  simulate_eq_ok_iff.mpr ⟨hdims, s'.axes, h⟩

/-- What a simulation that succeeds has acted with. -/
theorem actEach_of_simulate {c : Circuit R} {initial : State (Amplitude R)}
    {source rest : Source} {run : Run R} (h : simulate c initial source = .ok run rest) :
    initial.dims = c.dims ∧ ∃ s, actEach StateVector.representation id c.operations
      ⟨initial, [], .empty, source⟩ = .ok () s ∧ s.register = run.state := by
  obtain ⟨hdims, axes, hrun⟩ := simulate_eq_ok_iff.mp h
  exact ⟨hdims, _, hrun, rfl⟩

omit [Scalar R] in
/-- **A failure is the failure of one operation**, which is named by its position. -/
theorem exists_runOperations_error {rep : Representation σ R} {ops : List (Operation R)}
    {s s' : Session σ} {e : ActError R} (position : Nat)
    (h : actEach rep id ops s = .error (.error e) s') :
    ∃ i, runOperations rep position ops s = .error (.operation i e) s' := by
  induction ops generalizing s position with
  | nil => cases h
  | cons op ops ih =>
    rw [actEach_cons, List.map_id, EStateM.bind_apply] at h
    rw [runOperations_cons]
    cases hact : act rep op { s with axes := op.qubits } with
    | ok u t =>
      rw [hact] at h
      exact ih (position + 1) h
    | error e' t =>
      rw [hact] at h
      obtain ⟨⟩ := h
      exact ⟨position, rfl⟩

omit [Scalar R] in
/-- The first measurement of a sequence whose mask does not fit is that of its first
operation, or else that of the others. -/
theorem find_readings_cons (p : Measurement → Bool) (op : Operation R) (ops : List (Operation R)) :
    (readings (op :: ops)).find? p = ((readings [op]).find? p).or ((readings ops).find? p) := by
  rw [readings_cons, List.find?_append]

/-- **How acting with what fits ends**: it has recorded under the given keys, or it has
stopped at the first of the given measurements whose mask does not fit. -/
def StopsAtMask (dims : List Nat) (keys : List String) (ms : List Measurement) :
    EStateM.Result (Failure R) (Session (State (Amplitude R))) Unit → Prop :=
  Ends
    (fun _ t => ms.find? (fun m => ¬m.FullMask) = none ∧ t.register.dims = dims ∧
      t.log.keys = keys)
    fun e _ => ∃ m, ms.find? (fun m => ¬m.FullMask) = some m ∧
      e = .error (.maskLength m.mask.length m.qubits.length)

/-- A sequence ends so if each of its operations does. -/
theorem actEach_stopsAtMask {ops : List (Operation R)} {dims : List Nat}
    (hops : ∀ op ∈ ops, ∀ s : Session (State (Amplitude R)), s.register.dims = dims →
      s.axes = op.qubits → (s.log.keys ++ op.keys).Nodup →
      StopsAtMask dims (s.log.keys ++ op.keys) (readings [op])
        (act StateVector.representation op s))
    {s : Session (State (Amplitude R))} (hdims : s.register.dims = dims)
    (hkeys : (s.log.keys ++ keysOfList ops).Nodup) :
    StopsAtMask dims (s.log.keys ++ keysOfList ops) (readings ops)
      (actEach StateVector.representation id ops s) := by
  induction ops generalizing s with
  | nil => exact ⟨rfl, hdims, (List.append_nil _).symm⟩
  | cons op ops ih =>
    rw [keysOfList, ← List.append_assoc] at hkeys ⊢
    have hact := hops op (by simp) { s with axes := op.qubits.map id } hdims (List.map_id _)
      (List.nodup_append.mp hkeys).1
    rw [actEach_cons]
    refine Ends.bind (hact.mono (fun _ _ => id) ?_) ?_
    · rintro e _ ⟨m, hm, rfl⟩
      exact ⟨m, by rw [find_readings_cons, hm]; rfl, rfl⟩
    · rintro _ t ⟨hnone, hdims, hlog⟩
      have hrest := ih (fun o ho => hops o (by simp [ho])) hdims (by rw [hlog]; exact hkeys)
      rw [find_readings_cons, hnone, ← hlog]
      exact hrest

/-- **An operation that fits is acted with at its own qubits**, if its keys are new, as
far as its masks fit. -/
theorem act_stopsAtMask {op : Operation R} {dims : List Nat} (hpos : ∀ d ∈ dims, 0 < d)
    (hfits : op.Fits dims) (hsquare : ∀ g, .gate g ∈ op.leaves → g.gate.OwnMatrix Mat.IsSquare)
    {s : Session (State (Amplitude R))} (hdims : s.register.dims = dims)
    (haxes : s.axes = op.qubits) (hkeys : (s.log.keys ++ op.keys).Nodup) :
    StopsAtMask dims (s.log.keys ++ op.keys) (readings [op])
      (act StateVector.representation op s) := by
  induction op generalizing s with
  | gate g =>
    obtain ⟨hg⟩ := hfits
    have hg : g.Fits s.register.dims := hdims ▸ hg
    have hown := hsquare g (by simp [leaves])
    obtain ⟨t, happly, ht, -⟩ := StateVector.exists_apply hg hown
    rw [act_gate_of_applied (StateVector.native_ok hg hown haxes happly)]
    exact ⟨rfl, ht.trans hdims, (List.append_nil _).symm⟩
  | measure m =>
    obtain _ | ⟨hlt, hnodup⟩ := hfits
    -- the log has the keys of the operations before, and all keys are distinct
    have hkey : m.key ∉ s.log.keys := by
      intro hmem
      exact (List.nodup_append.mp hkeys).2.2 _ hmem _ (by simp [keys]) rfl
    have hlen : s.axes.length = m.qubits.length := congrArg List.length haxes
    by_cases hmask : m.FullMask
    · have hperform := StateVector.perform_ok (s := s) (by rw [haxes, hdims]; exact hlt)
        (by rw [haxes]; exact hnodup) (hdims ▸ hpos)
      rw [act_measure_ok hlen hkey hmask hperform (by simp)]
      refine ⟨?_, (State.dims_collapsed _ _ _).trans hdims, Log.keys_add _ _ _⟩
      rw [readings_singleton_measure, List.find?_eq_none]
      simpa using hmask
    · rw [act_measure_of_mask hlen hkey hmask]
      exact ⟨m, List.find?_cons_of_pos (by simpa using hmask), rfl⟩
  | composite label qubits body ih =>
    obtain _ | _ | ⟨_, hlt, hnodup, hwithin, hinner⟩ := hfits
    have haxes : s.axes = qubits := haxes
    rw [act_composite _ label hwithin (haxes.trans (List.map_id _).symm) (haxes.symm ▸ hnodup),
      readings_composite]
    -- the operations of the body lie on their own qubits, as the composite does
    exact Ends.restoringAxes (actEach_stopsAtMask
      (fun op hop t ht htaxes htkeys => ih op hop (hinner op hop)
        (fun g hg => hsquare g (leaves_subset_leavesOfList hop hg)) ht htaxes htkeys) hdims hkeys)

/-- Operations that fit are acted with one after the other, if their keys are new and
distinct, as far as their masks fit. -/
theorem actEach_stopsAtMask_of_fits {ops : List (Operation R)} {dims : List Nat}
    (hpos : ∀ d ∈ dims, 0 < d) (hfits : ∀ op ∈ ops, op.Fits dims)
    (hsquare : OwnMatrices Mat.IsSquare ops) {s : Session (State (Amplitude R))}
    (hdims : s.register.dims = dims) (hkeys : (s.log.keys ++ keysOfList ops).Nodup) :
    StopsAtMask dims (s.log.keys ++ keysOfList ops) (readings ops)
      (actEach StateVector.representation id ops s) :=
  actEach_stopsAtMask (fun op hop _ hdims haxes hkeys => act_stopsAtMask hpos (hfits op hop)
    (fun g hg => hsquare g (leaves_subset_leavesOfList hop hg)) hdims haxes hkeys) hdims hkeys

/-- If all masks fit, they can be acted with. -/
theorem exists_actEach_of_fits {ops : List (Operation R)} {dims : List Nat}
    (hpos : ∀ d ∈ dims, 0 < d) (hfits : ∀ op ∈ ops, op.Fits dims)
    (hsquare : OwnMatrices Mat.IsSquare ops) (hmasks : ∀ m ∈ readings ops, m.FullMask)
    {s : Session (State (Amplitude R))} (hdims : s.register.dims = dims)
    (hkeys : (s.log.keys ++ keysOfList ops).Nodup) :
    ∃ s', actEach StateVector.representation id ops s = .ok () s' ∧ s'.register.dims = dims ∧
      s'.log.keys = s.log.keys ++ keysOfList ops := by
  have hends := actEach_stopsAtMask_of_fits hpos hfits hsquare hdims hkeys
  cases hrun : actEach StateVector.representation id ops s with
  | ok u t =>
    rw [hrun] at hends
    exact ⟨t, rfl, hends.2⟩
  | error e t =>
    rw [hrun] at hends
    obtain ⟨m, hm, -⟩ := hends
    exact absurd (hmasks m (List.mem_of_find?_eq_some hm)) (by simpa using List.find?_some hm)

/-- **Admission is sound for simulation, masks aside.** A sequence of operations that was
admitted as a circuit, over sites of positive dimension and with square custom matrices,
is simulated without an error or a fault from every state of its register and with every
random source, exactly if the mask of every measurement has one entry per qubit. Otherwise
the first measurement for which it has not is refused. -/
theorem simulate_succeeds {dims : List Nat} {ops : List (Operation R)} {c : Circuit R}
    (hpos : ∀ d ∈ dims, 0 < d) (hc : Circuit.ofOperations dims ops = .ok c)
    (hsquare : OwnMatrices Mat.IsSquare ops) (initial : State (Amplitude R))
    (hinitial : initial.dims = dims) (source : Source) :
    ((∃ run rest, simulate c initial source = .ok run rest) ↔ ∀ m ∈ readings ops, m.FullMask) ∧
      ∀ m, (readings ops).find? (fun m => ¬m.FullMask) = some m →
        ∃ position rest, simulate c initial source
          = .error (.operation position (.maskLength m.mask.length m.qubits.length)) rest := by
  obtain ⟨hfits, hkeys, rfl⟩ := Circuit.ofOperations_eq_ok_iff.mp hc
  have hends := actEach_stopsAtMask_of_fits (s := ⟨initial, [], .empty, source⟩) hpos hfits hsquare
    hinitial (by simpa [Log.empty, Log.keys] using hkeys)
  cases hrun : actEach StateVector.representation id ops ⟨initial, [], .empty, source⟩ with
  | ok u t =>
    rw [hrun] at hends
    obtain ⟨hnone, -⟩ := hends
    refine ⟨⟨fun _ => by simpa using hnone, fun _ => ⟨_, _, simulate_of_actEach hinitial hrun⟩⟩,
      fun m hm => ?_⟩
    rw [hnone] at hm
    cases hm
  | error e t =>
    rw [hrun] at hends
    obtain ⟨first, hfirst, rfl⟩ := hends
    obtain ⟨i, hi⟩ := exists_runOperations_error 0 hrun
    have hsimulate : simulate ⟨dims, ops⟩ initial source = .error (.operation i
        (.maskLength first.mask.length first.qubits.length)) t.source := by
      unfold simulate
      rw [if_neg (not_not_intro hinitial), hi]
    refine ⟨⟨?_, fun hmasks => ?_⟩, fun m hm => ?_⟩
    · rintro ⟨run, rest, h⟩
      rw [hsimulate] at h
      cases h
    · exact absurd (hmasks first (List.mem_of_find?_eq_some hfirst))
        (by simpa using List.find?_some hfirst)
    · rw [hfirst] at hm
      obtain ⟨⟩ := hm
      exact ⟨i, _, hsimulate⟩

/-- A qubit beside a qutrit: a controlled matrix on the qutrit and a
measurement of both, within a composite that lists them in the other order,
from a state without any amplitude. -/
theorem simulate_succeeds_qutrit :
    let shift : Mat (Amplitude Float) := ⟨3, 3, fun i j => if i.val = (j.val + 1) % 3 then 1 else 0⟩
    let ops : List (Operation Float) := [.gate ⟨.h, [0], [], []⟩,
      .composite "shift and read" [1, 0]
        [.gate ⟨.custom shift false "shift", [1], [0], [true]⟩, .measure (.plain "m" [1, 0])]]
    let initial : State (Amplitude Float) := ⟨[2, 3], Vector.replicate _ 0⟩
    (∀ d ∈ [2, 3], 0 < d) ∧ Circuit.ofOperations [2, 3] ops = .ok ⟨[2, 3], ops⟩ ∧
      OwnMatrices Mat.IsSquare ops ∧ initial.dims = [2, 3] ∧ (∀ m ∈ readings ops, m.FullMask) ∧
      ∃ run source', simulate ⟨[2, 3], ops⟩ initial (.ofWords #[]) = .ok run source' := by
  intro shift ops initial
  have hpos : ∀ d ∈ [2, 3], 0 < d := by decide
  have hc : Circuit.ofOperations [2, 3] ops = .ok ⟨[2, 3], ops⟩ := rfl
  have hsquare : OwnMatrices Mat.IsSquare ops := by
    intro g hg
    simp only [ops, leavesOfList, leaves, List.append_nil, List.singleton_append, List.mem_cons,
      Operation.gate.injEq, List.not_mem_nil, or_false, reduceCtorEq] at hg
    obtain rfl | rfl := hg
    · trivial
    · rfl
  have hmasks : ∀ m ∈ readings ops, m.FullMask := by
    intro m hm
    obtain rfl := List.mem_singleton.mp hm
    rfl
  exact ⟨hpos, hc, hsquare, rfl, hmasks,
    (simulate_succeeds hpos hc hsquare initial rfl _).1.mpr hmasks⟩

/-- A measurement made for one qubit, to which another is added afterwards, is admitted
and then refused. -/
theorem admitted_mask_refused :
    let reading : Measurement := { Measurement.plain "m" [0] with qubits := [0, 1] }
    let ops : List (Operation Float) := [.measure reading]
    let initial : State (Amplitude Float) := .atPosition [2, 2] 0
    Circuit.ofOperations [2, 2] ops = .ok ⟨[2, 2], ops⟩ ∧ OwnMatrices Mat.IsSquare ops ∧
      initial.dims = [2, 2] ∧
      simulate ⟨[2, 2], ops⟩ initial (.ofWords #[])
        = .error (.operation 0 (.maskLength 1 2)) (.ofWords #[]) := by
  intro reading ops initial
  refine ⟨rfl, fun g hg => ?_, rfl, rfl⟩
  cases List.mem_singleton.mp hg

end Qudit
