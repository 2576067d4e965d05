import Qudit.Proofs.Acting.BasisState
import Qudit.Proofs.Simulation.Soundness
import Qudit.Proofs.State.Depicts

/-!
# The state vector follows the values

In exact arithmetic, whatever a register of plain values does with the
operations of a circuit, the register of amplitudes does as well, started
from the basis state of the same values: it ends in the basis state of the
final values up to a phase, with the same log (`simulate_follows_values`).
What is asked is that the custom gates are built from unitary matrices, so
that a gate declared diagonal is diagonal.

`Follows` is the relation between the two sessions: the amplitudes depict the
values, and the logs are the same. The random sources have no part in it, as
a measurement of a basis state has one outcome whatever is drawn. Each
operation that succeeds on the values preserves the relation
(`exists_act_follows`), by induction on the tree of operations.
-/

namespace Qudit

open Radix Acting Operation

/-- **A session with amplitudes follows a session with values**: it depicts
the values and has the same log. -/
structure Follows (dims : List Nat) (b : Session (List Nat)) (s : Session (State (Amplitude ℝ))) :
    Prop where
  /-- The register has the given dimensions. -/
  dims_eq : s.register.dims = dims
  /-- The amplitudes depict the values. -/
  depicts : s.register.Depicts b.register
  /-- The same is recorded. -/
  log_eq : s.log = b.log

namespace Follows

variable {dims : List Nat} {b b' : Session (List Nat)} {s : Session (State (Amplitude ℝ))}

theorem valid (h : Follows dims b s) : Valid dims b.register :=
  h.dims_eq ▸ h.depicts.valid

/-- Gates preserve the relation. -/
theorem act_gate {g : PlacedGate ℝ} (h : Follows dims b s) (hfits : g.Fits dims)
    (hbuilt : g.gate.BuiltFrom Mat.IsUnitary) (hb : b.axes = g.qubits) (hs : s.axes = g.qubits)
    (hact : act BasisState.representation (.gate g) b = .ok () b') :
    ∃ s', act StateVector.representation (.gate g) s = .ok () s' ∧ Follows dims b' s' := by
  obtain ⟨levels, hlevels, hcarries, rfl⟩ :=
    BasisState.act_gate_eq_ok hfits hbuilt h.valid hb hact
  obtain ⟨rfl, hdepicts, hlog⟩ := h
  -- the column of the old values has one entry, in the row of the new ones
  have hunitary := Gate.isUnitary_qubitMatrix hbuilt.ownMatrix
  obtain ⟨t, happly, ht, hdepicts'⟩ :=
    hdepicts.exists_apply hfits.placement hunitary hfits.rows_eq hlevels hcarries
  exact ⟨_, act_gate_of_applied (StateVector.native_ok hfits hbuilt.ownMatrix.isSquare hs happly),
    ht, hdepicts', hlog⟩

/-- Measurements preserve the relation: the outcome is the values. -/
theorem act_measure {m : Measurement} (h : Follows dims b s) (hlt : ∀ q ∈ m.qubits, q < dims.length)
    (hnodup : m.qubits.Nodup) (hb : b.axes = m.qubits) (hs : s.axes = m.qubits)
    (hact : act BasisState.representation (.measure m : Operation ℝ) b = .ok () b') :
    ∃ s', act StateVector.representation (.measure m : Operation ℝ) s = .ok () s' ∧
      Follows dims b' s' := by
  have hkey := key_notMem_of_act_measure hact
  have hmask := fullMask_of_act_measure (congrArg List.length hb) hact
  have hread := BasisState.perform_ok (R := ℝ) (s := b)
    (by rw [hb, h.valid.length_eq]; exact hlt)
  rw [act_measure_ok (by rw [hb]) hkey hmask hread (by simp)] at hact
  obtain ⟨⟩ := hact
  obtain ⟨rfl, hdepicts, hlog⟩ := h
  have hunit := Source.unit_mem s.source.next.1
  have hperform := StateVector.perform_ok (s := s) (by rw [hs]; exact hlt)
    (by rw [hs]; exact hnodup)
    hdepicts.valid.pos
  -- all the weight is on the values, and no number drawn reaches past it
  have houtcome : s.register.measured s.axes s.source.nextUnit.1 = restrict b.register b.axes := by
    rw [hs, hb]
    exact hdepicts.measured_eq hlt hunit.1 hunit.2
  rw [houtcome, hb, ← hs, hdepicts.collapsed_eq] at hperform
  refine ⟨_, act_measure_ok (by rw [hs]) (by rw [hlog]; exact hkey) hmask hperform (by simp), rfl,
    hdepicts, ?_⟩
  rw [hs, hb, hlog]

end Follows

/-- Sequences preserve the relation if their operations do. -/
theorem exists_actEach_follows {dims : List Nat} {ops : List (Operation ℝ)}
    (hops : ∀ op ∈ ops, ∀ (b b' : Session (List Nat)) (s : Session (State (Amplitude ℝ))),
      Follows dims b s → b.axes = op.qubits → s.axes = op.qubits →
      act BasisState.representation op b = .ok () b' →
      ∃ s', act StateVector.representation op s = .ok () s' ∧ Follows dims b' s')
    {b b' : Session (List Nat)} {s : Session (State (Amplitude ℝ))} (h : Follows dims b s)
    (hrun : actEach BasisState.representation id ops b = .ok () b') :
    ∃ s', actEach StateVector.representation id ops s = .ok () s' ∧ Follows dims b' s' := by
  induction ops generalizing b s with
  | nil =>
    obtain ⟨⟩ := hrun
    exact ⟨s, rfl, h⟩
  | cons op ops ih =>
    rw [actEach_cons] at hrun
    obtain ⟨_, b₁, hact, hrest⟩ := EStateM.bind_eq_ok.mp hrun
    obtain ⟨s₁, hact', h₁⟩ := hops op (by simp) { b with axes := op.qubits.map id } b₁
      { s with axes := op.qubits.map id } ⟨h.dims_eq, h.depicts, h.log_eq⟩ (List.map_id _)
      (List.map_id _) hact
    obtain ⟨s₂, hrest', h₂⟩ := ih (fun o ho => hops o (by simp [ho])) h₁ hrest
    refine ⟨s₂, ?_, h₂⟩
    rw [actEach_cons, EStateM.bind_ok hact', hrest']

/-- **Every operation that succeeds on values succeeds on amplitudes**, and
the amplitudes follow. -/
theorem exists_act_follows {dims : List Nat} {op : Operation ℝ} (hfits : op.Fits dims)
    (hbuilt : ∀ g, .gate g ∈ op.leaves → g.gate.BuiltFrom Mat.IsUnitary)
    {b b' : Session (List Nat)} {s : Session (State (Amplitude ℝ))} (h : Follows dims b s)
    (hb : b.axes = op.qubits) (hs : s.axes = op.qubits)
    (hact : act BasisState.representation op b = .ok () b') :
    ∃ s', act StateVector.representation op s = .ok () s' ∧ Follows dims b' s' := by
  induction op generalizing b b' s with
  | gate g =>
    obtain ⟨hg⟩ := hfits
    exact h.act_gate hg (hbuilt g (by simp [leaves])) hb hs hact
  | measure m =>
    obtain _ | ⟨hlt, hnodup⟩ := hfits
    exact h.act_measure hlt hnodup hb hs hact
  | composite label qubits body ih =>
    obtain _ | _ | ⟨_, hlt, hnodup, hwithin, hinner⟩ := hfits
    have hb : b.axes = qubits := hb
    have hs : s.axes = qubits := hs
    rw [act_composite _ label hwithin (hb.trans (List.map_id _).symm) (hb.symm ▸ hnodup)] at hact
    obtain ⟨b₁, hrun, rfl⟩ := restoringAxes_eq_ok hact
    -- the body is run from the same pair of sessions, on both sides
    obtain ⟨s₁, hrun', h₁⟩ := exists_actEach_follows (fun op hop b b' s h hb hs hact =>
      ih op hop (hinner op hop) (fun g hg => hbuilt g (leaves_subset_leavesOfList hop hg))
        h hb hs hact) h hrun
    refine ⟨{ s₁ with axes := s.axes }, ?_, h₁.dims_eq, h₁.depicts, h₁.log_eq⟩
    rw [act_composite _ label hwithin (hs.trans (List.map_id _).symm) (hs.symm ▸ hnodup)]
    exact restoringAxes_ok hrun'

/-- **The simulation follows the values.** If the operations of a circuit
succeed on a register of values, then the circuit is simulated from the basis
state of these values, with whatever random source: the log is the same, and
the final state is the basis state of the final values up to a phase. -/
theorem simulate_follows_values {dims : List Nat} {ops : List (Operation ℝ)} {c : Circuit ℝ}
    (hc : Circuit.ofOperations dims ops = .ok c)
    (hbuilt : Operation.BuiltFrom Mat.IsUnitary ops) {start final : Session (List Nat)}
    (hvalid : Valid dims start.register) (hlog : start.log = .empty)
    (hrun : runOperations BasisState.representation 0 ops start = .ok () final)
    (source : Source) :
    ∃ initial, State.product dims start.register = .ok initial ∧
      ∃ run source', simulate c initial source = .ok run source' ∧ run.log = final.log ∧
        ∃ basis u, State.product dims final.register = .ok basis ∧ u.normSq = 1 ∧
          run.state = basis.scaled u := by
  obtain ⟨hfits, -, rfl⟩ := Circuit.ofOperations_eq_ok_iff.mp hc
  set initial : State (Amplitude ℝ) := .atPosition dims (index start.register dims)
  have hstart : Follows dims start ⟨initial, [], .empty, source⟩ :=
    ⟨rfl, State.depicts_atPosition hvalid, hlog.symm⟩
  obtain ⟨s', hrun', hfollows⟩ := exists_actEach_follows
    (fun op hop b b' s h hb hs hact => exists_act_follows (hfits op hop)
      (fun g hg => hbuilt g (leaves_subset_leavesOfList hop hg)) h hb hs hact)
    hstart ((runOperations_eq_ok_iff 0).mp hrun)
  obtain ⟨basis, u, hbasis, hu, hscaled⟩ := hfollows.depicts.exists_scaled
  rw [hfollows.dims_eq] at hbasis
  exact ⟨initial, State.product_ok hvalid, _, _, simulate_of_actEach rfl hrun',
    hfollows.log_eq, basis, u, hbasis, hu, hscaled⟩

/-- Two qubits and a qutrit: a bit flip under a control that holds zero, a
phase that depends on the value of the qutrit, and an exchange and an
inverted measurement within a composite. -/
theorem simulate_follows_values_qutrit :
    let turn : Mat (Amplitude ℝ) := ⟨3, 3, fun i j => if i = j then ![1, .i, -1] i else 0⟩
    let ops : List (Operation ℝ) := [.gate ⟨.x, [0], [1], [false]⟩,
      .gate ⟨.custom turn true "turn", [2], [0], [true]⟩,
      .composite "exchange and read" [1, 2, 0]
        [.gate ⟨.swap, [0, 1], [], []⟩, .measure ⟨"m", [2, 1, 0], [false, false, true]⟩]]
    let start : Session (List Nat) := ⟨[0, 0, 2], [], .empty, .ofWords #[]⟩
    let final : Session (List Nat) := ⟨[0, 1, 2], [1, 2, 0], ⟨[("m", [2, 1, 1])]⟩, .ofWords #[]⟩
    Circuit.ofOperations [2, 2, 3] ops = .ok ⟨[2, 2, 3], ops⟩ ∧
      Operation.BuiltFrom Mat.IsUnitary ops ∧ Valid [2, 2, 3] start.register ∧
      start.log = .empty ∧
      runOperations BasisState.representation 0 ops start = .ok () final ∧
      ∃ initial, State.product [2, 2, 3] start.register = .ok initial ∧
        ∃ run source', simulate ⟨[2, 2, 3], ops⟩ initial (.ofWords #[]) = .ok run source' ∧
          run.log = final.log ∧
          ∃ basis u, State.product [2, 2, 3] final.register = .ok basis ∧ u.normSq = 1 ∧
            run.state = basis.scaled u := by
  intro turn ops start final
  have hc : Circuit.ofOperations [2, 2, 3] ops = .ok ⟨[2, 2, 3], ops⟩ := rfl
  have hturn : turn.IsUnitary := by
    refine ⟨rfl, ?_⟩
    show ∀ j k : Fin 3, ∑ i : Fin 3, _ = _
    intro j k
    rw [Fin.sum_univ_three]
    fin_cases j <;> fin_cases k <;> ext <;> simp [turn]
  have hdiagonal : turn.offDiagonal Amplitude.isZero = true := by
    refine List.all_eq_true.mpr fun i _ => List.all_eq_true.mpr fun j _ => ?_
    rw [Bool.or_eq_true, beq_iff_eq, Amplitude.isZero_iff]
    exact or_iff_not_imp_left.mpr fun hij => if_neg fun h => hij (congrArg Fin.val h)
  have hbuilt : Operation.BuiltFrom Mat.IsUnitary ops := by
    intro g hg
    simp only [ops, leavesOfList, leaves, List.append_nil, List.singleton_append, List.mem_cons,
      Operation.gate.injEq, List.not_mem_nil, or_false, reduceCtorEq] at hg
    obtain rfl | rfl | rfl := hg
    · exact .inl rfl
    · refine .inr ⟨turn, "turn", hturn, ?_⟩
      unfold Gate.ofMatrix
      rw [hdiagonal]
    · exact .inl rfl
  have hvalid : Valid [2, 2, 3] start.register := by
    simp [start, Valid]
  have hrun : runOperations BasisState.representation 0 ops start = .ok () final := rfl
  exact ⟨hc, hbuilt, hvalid, rfl, hrun, simulate_follows_values hc hbuilt hvalid rfl hrun _⟩

end Qudit
