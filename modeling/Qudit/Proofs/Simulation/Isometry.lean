import Qudit.Proofs.Acting.OwnSteps
import Qudit.Proofs.Exact.Inner
import Qudit.Proofs.Simulation.Adjoint

/-!
# Simulation preserves inner products

In exact arithmetic, two runs of a circuit without measurements leave the
inner product of their states as it was, if the custom matrices have
orthonormal columns (`simulate_preserves_inner`); in particular a run leaves
the norm as it was. Runs are compared in pairs, and what the induction on the
tree carries from one operation to the next is the inner product of the two
registers.

A matrix with orthonormal columns may be taller than wide. A gate with such a
matrix passes when a circuit is built and is refused when it is acted with, so
that nothing is lost by speaking of runs that succeed; with square matrices
every run does.
-/

namespace Qudit

open Radix Acting Operation

/-- **A gate that fits and is acted with has been applied by its matrix**, at its
own qubits. -/
theorem StateVector.apply_of_act_gate {R : Type} [Scalar R] {g : PlacedGate R}
    {s s' : Session (State (Amplitude R))} (hfits : g.Fits s.register.dims)
    (haxes : s.axes = g.qubits) (h : act representation (.gate g) s = .ok () s') :
    g.gate.qubitMatrix.cols = total (restrict s.register.dims g.targets) ∧
      State.apply g.gate.qubitMatrix g.targets g.controls g.configs s.register
        = .ok () s'.register ∧
      s'.register.dims = s.register.dims := by
  obtain ⟨o, u, hfallback, hlast⟩ := EStateM.bind_eq_ok.mp h
  obtain ⟨o', v, hnative, hrest⟩ := EStateM.bind_eq_ok.mp hfallback
  have hends := native_ends (s := s) hfits.length_configs
  have hnative : native g s = .ok o' v := hnative
  rw [hnative] at hends
  obtain ⟨rfl, controls, targets, matrix, state, hsplit, hlen, -, hmatrix, -, hcols, happly, hdims,
    rfl⟩ := hends
  obtain ⟨⟩ := hrest
  obtain ⟨⟩ := hlast
  -- the axes are the controls and targets of the gate itself
  obtain ⟨rfl, rfl⟩ : controls = g.controls ∧ targets = g.targets :=
    List.append_inj' (hsplit.symm.trans haxes) hlen
  rw [hfits.matrix_ok] at hmatrix
  obtain ⟨⟩ := hmatrix
  exact ⟨hcols, happly, hdims⟩

/-- **Two sessions on registers with the same dimensions**, whose states have a
given inner product. -/
structure Paired (dims : List Nat) (z : Amplitude ℝ) (s t : Session (State (Amplitude ℝ))) :
    Prop where
  /-- The first register has the given dimensions. -/
  left : s.register.dims = dims
  /-- So has the second. -/
  right : t.register.dims = dims
  /-- The inner product is the given one. -/
  inner_eq : s.register.inner t.register = z

variable {dims : List Nat} {z : Amplitude ℝ} {s t s' t' : Session (State (Amplitude ℝ))}

/-- Gates preserve inner products. -/
theorem Paired.act_gate {g : PlacedGate ℝ} (h : Paired dims z s t) (hfits : g.Fits dims)
    (hm : g.gate.OwnMatrix Mat.IsIsometry) (hs : s.axes = g.qubits) (ht : t.axes = g.qubits)
    (hact : act StateVector.representation (.gate g) s = .ok () s')
    (hact' : act StateVector.representation (.gate g) t = .ok () t') : Paired dims z s' t' := by
  obtain ⟨rfl, hdims, rfl⟩ := h
  obtain ⟨hcols, happly, hleft⟩ := StateVector.apply_of_act_gate hfits hs hact
  obtain ⟨-, happly', hright⟩ := StateVector.apply_of_act_gate (hdims.symm ▸ hfits) ht hact'
  exact ⟨hleft, hright.trans hdims, State.inner_apply_of_isometry hfits.placement hfits.rows_eq
    hcols (Gate.isIsometry_qubitMatrix hm) hdims happly happly'⟩

/-- Sequences preserve inner products if their operations do. -/
theorem paired_actEach {ops : List (Operation ℝ)}
    (hops : ∀ op ∈ ops, ∀ s t s' t' : Session (State (Amplitude ℝ)), Paired dims z s t →
      s.axes = op.qubits → t.axes = op.qubits →
      act StateVector.representation op s = .ok () s' →
      act StateVector.representation op t = .ok () t' → Paired dims z s' t')
    (h : Paired dims z s t) (hrun : actEach StateVector.representation id ops s = .ok () s')
    (hrun' : actEach StateVector.representation id ops t = .ok () t') : Paired dims z s' t' := by
  induction ops generalizing s t with
  | nil =>
    obtain ⟨⟩ := hrun
    obtain ⟨⟩ := hrun'
    exact h
  | cons op ops ih =>
    rw [actEach_cons] at hrun hrun'
    obtain ⟨_, s₁, hact, hrest⟩ := EStateM.bind_eq_ok.mp hrun
    obtain ⟨_, t₁, hact', hrest'⟩ := EStateM.bind_eq_ok.mp hrun'
    have h₁ := hops op (by simp) { s with axes := op.qubits.map id }
      { t with axes := op.qubits.map id } s₁ t₁ ⟨h.left, h.right, h.inner_eq⟩ (List.map_id _)
      (List.map_id _) hact hact'
    exact ih (fun o ho => hops o (by simp [ho])) h₁ hrest hrest'

/-- **Operations without measurements preserve inner products**, if their custom
matrices have orthonormal columns. -/
theorem paired_act {op : Operation ℝ} (hfits : op.Fits dims) (hgates : ∀ m, .measure m ∉ op.leaves)
    (hm : ∀ g, .gate g ∈ op.leaves → g.gate.OwnMatrix Mat.IsIsometry) (h : Paired dims z s t)
    (hs : s.axes = op.qubits) (ht : t.axes = op.qubits)
    (hact : act StateVector.representation op s = .ok () s')
    (hact' : act StateVector.representation op t = .ok () t') : Paired dims z s' t' := by
  induction op generalizing s t s' t' with
  | gate g =>
    obtain ⟨hg⟩ := hfits
    exact h.act_gate hg (hm g (by simp [leaves])) hs ht hact hact'
  | measure m => exact absurd (by simp [leaves]) (hgates m)
  | composite label qubits body ih =>
    obtain _ | _ | ⟨_, hlt, hnodup, hwithin, hinner⟩ := hfits
    have hs : s.axes = qubits := hs
    have ht : t.axes = qubits := ht
    rw [act_composite _ label hwithin (hs.trans (List.map_id _).symm) (hs.symm ▸ hnodup)] at hact
    rw [act_composite _ label hwithin (ht.trans (List.map_id _).symm) (ht.symm ▸ hnodup)] at hact'
    obtain ⟨s₁, hrun, rfl⟩ := restoringAxes_eq_ok hact
    obtain ⟨t₁, hrun', rfl⟩ := restoringAxes_eq_ok hact'
    obtain ⟨hleft, hright, heq⟩ := paired_actEach (fun op hop _ _ _ _ h hs ht hact hact' =>
      ih op hop (hinner op hop) (fun m hmem => hgates m (leaves_subset_leavesOfList hop hmem))
        (fun g hg => hm g (leaves_subset_leavesOfList hop hg)) h hs ht hact hact') h hrun hrun'
    exact ⟨hleft, hright, heq⟩

/-- A square matrix with orthonormal columns is unitary. -/
theorem Gate.OwnMatrix.isUnitary {gate : Gate ℝ} (hsquare : gate.OwnMatrix Mat.IsSquare)
    (hm : gate.OwnMatrix Mat.IsIsometry) : gate.OwnMatrix Mat.IsUnitary := by
  cases gate with
  | custom matrix diagonal label => exact ⟨hsquare, hm⟩
  | _ => trivial

/-- **Simulation without measurements is unitary.** Any two runs of a circuit
without measurements whose custom matrices have orthonormal columns leave the
inner product of their states as it was, and each leaves the sum of the squared
moduli. If these matrices are square, the circuit runs from every state of its
register. -/
theorem simulate_preserves_inner {ops : List (Operation ℝ)} {c : Circuit ℝ}
    (hc : Circuit.ofOperations dims ops = .ok c)
    (hgates : ∀ m, Operation.measure m ∉ leavesOfList ops) (hm : OwnMatrices Mat.IsIsometry ops) :
    (∀ (s t : State (Amplitude ℝ)) (source source' rest rest' : Source) (run run' : Run ℝ),
      simulate c s source = .ok run rest → simulate c t source' = .ok run' rest' →
        run.state.inner run'.state = s.inner t) ∧
    (∀ (s : State (Amplitude ℝ)) (source rest : Source) (run : Run ℝ),
      simulate c s source = .ok run rest →
        Scalar.sum run.state.weights = Scalar.sum s.weights) ∧
    (OwnMatrices Mat.IsSquare ops → ∀ s : State (Amplitude ℝ), s.dims = dims → ∀ source,
      ∃ run, simulate c s source = .ok run source) := by
  obtain ⟨hfits, -, rfl⟩ := Circuit.ofOperations_eq_ok_iff.mp hc
  have hleaves : ∀ op ∈ ops, ∀ m, .measure m ∉ op.leaves :=
    fun op hop m hmem => hgates m (leaves_subset_leavesOfList hop hmem)
  have hpair : ∀ (s t : State (Amplitude ℝ)) (source source' rest rest' : Source)
      (run run' : Run ℝ), simulate ⟨dims, ops⟩ s source = .ok run rest →
        simulate ⟨dims, ops⟩ t source' = .ok run' rest' →
        run.state.inner run'.state = s.inner t := by
    intro s t source source' rest rest' run run' hrun hrun'
    obtain ⟨hs, s₁, hact, hstate⟩ := actEach_of_simulate hrun
    obtain ⟨ht, t₁, hact', hstate'⟩ := actEach_of_simulate hrun'
    rw [← hstate, ← hstate']
    exact (paired_actEach (fun op hop _ _ _ _ h => paired_act (hfits op hop) (hleaves op hop)
      (fun g hg => hm g (leaves_subset_leavesOfList hop hg)) h) ⟨hs, ht, rfl⟩ hact hact').inner_eq
  refine ⟨hpair, fun s source rest run hrun => ?_, fun hsquare s hs source => ?_⟩
  · have hself := hpair s s source source rest rest run run hrun hrun
    rw [State.inner_self, State.inner_self] at hself
    exact congrArg Amplitude.re hself
  · subst hs
    obtain ⟨b, -, hthere, -⟩ := exists_leads_list hfits fun op hop a ha =>
      exists_leads ha (hleaves op hop) fun g hg =>
        (hsquare g (leaves_subset_leavesOfList hop hg)).isUnitary
          (hm g (leaves_subset_leavesOfList hop hg))
    exact ⟨_, simulate_of_leads hthere source⟩

/-- A cyclic shift of a qutrit under a qubit that holds zero, between two turns
of the qubit, the second of which is in a composite with the shift. -/
theorem simulate_preserves_inner_qutrit :
    let shift : Mat (Amplitude ℝ) := ⟨3, 3, fun i j => if i.val = (j.val + 1) % 3 then 1 else 0⟩
    let ops : List (Operation ℝ) := [.gate ⟨.h, [0], [], []⟩,
      .composite "shift and turn" [1, 0]
        [.gate ⟨.ofMatrix shift "shift", [1], [0], [false]⟩, .gate ⟨.rx 1, [0], [], []⟩]]
    Circuit.ofOperations [2, 3] ops = .ok ⟨[2, 3], ops⟩ ∧
      (∀ m, Operation.measure m ∉ leavesOfList ops) ∧ OwnMatrices Mat.IsIsometry ops ∧
      OwnMatrices Mat.IsSquare ops ∧
      ∀ s t : State (Amplitude ℝ), s.dims = [2, 3] → t.dims = [2, 3] → ∀ source,
        ∃ run run', simulate ⟨[2, 3], ops⟩ s source = .ok run source ∧
          simulate ⟨[2, 3], ops⟩ t source = .ok run' source ∧
          run.state.inner run'.state = s.inner t ∧
          Scalar.sum run.state.weights = Scalar.sum s.weights := by
  intro shift ops
  have hc : Circuit.ofOperations [2, 3] ops = .ok ⟨[2, 3], ops⟩ := rfl
  have hgates : ∀ m, Operation.measure m ∉ leavesOfList ops := by
    simp [ops, leavesOfList, leaves]
  have hshift : shift.IsIsometry := by
    show ∀ j k : Fin 3, ∑ i : Fin 3, _ = _
    intro j k
    rw [Fin.sum_univ_three]
    fin_cases j <;> fin_cases k <;> simp [shift]
  have hown : ∀ {P : Mat (Amplitude ℝ) → Prop}, P shift → OwnMatrices P ops := by
    intro P hP g hg
    simp only [ops, leavesOfList, leaves, List.append_nil, List.singleton_append, List.mem_cons,
      Operation.gate.injEq, List.not_mem_nil, or_false] at hg
    obtain rfl | rfl | rfl := hg
    · trivial
    · exact hP
    · trivial
  have hsquare : OwnMatrices Mat.IsSquare ops := hown rfl
  obtain ⟨hinner, hnorm, hruns⟩ := simulate_preserves_inner hc hgates (hown hshift)
  refine ⟨hc, hgates, hown hshift, hsquare, fun s t hs ht source => ?_⟩
  obtain ⟨run, hrun⟩ := hruns hsquare s hs source
  obtain ⟨run', hrun'⟩ := hruns hsquare t ht source
  exact ⟨run, run', hrun, hrun', hinner s t source source source source run run' hrun hrun',
    hnorm s source source run hrun⟩

end Qudit
