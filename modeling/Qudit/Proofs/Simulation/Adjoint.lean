import Qudit.Proofs.Gate.Unitary
import Qudit.Proofs.Operation.Adjoint
import Qudit.Proofs.Simulation.Soundness

/-!
# The adjoint undoes a circuit

In exact arithmetic, simulating a circuit without measurements and then its
adjoint gives back every state that one starts from (`simulate_adjoint`).

The induction follows the tree of operations, and what it carries is one
statement about two sequences: the first leads from a register state to
another, and the second leads back. Neither the log nor the random source
takes part (`Leads`). At a leaf this is the adjoint matrix being the inverse
of a unitary one; for a sequence the ways back are put together in reverse
order, and a composite leads where its body does.

Unitary matrices are square. That the columns of a matrix are orthonormal is
not enough: a matrix with fewer columns than rows is admitted, as only its
rows are counted, and its adjoint is not (`isometry_adjoint_refused`).
-/

namespace Qudit

open Radix Acting Operation

variable {σ R : Type}

/-- **A sequence of operations leads from one register to another**,
whatever the rest of the session, and changes neither the log nor the random
source. -/
def Leads (rep : Representation σ R) (ops : List (Operation R)) (a b : σ) : Prop :=
  ∀ s : Session σ, s.register = a →
    ∃ axes, actEach rep id ops s = .ok () { s with register := b, axes := axes }

namespace Leads

variable {rep : Representation σ R} {ops ops' : List (Operation R)} {a b c : σ}

theorem nil (rep : Representation σ R) (a : σ) : Leads rep [] a a := by
  rintro s rfl
  exact ⟨s.axes, rfl⟩

theorem append (h : Leads rep ops a b) (h' : Leads rep ops' b c) :
    Leads rep (ops ++ ops') a c := by
  intro s hs
  obtain ⟨axes, hrun⟩ := h s hs
  obtain ⟨axes', hrun'⟩ := h' { s with register := b, axes := axes } rfl
  exact ⟨axes', by rw [actEach_append, EStateM.bind_ok hrun, hrun']⟩

/-- An operation that acts at its own qubits leads where it acts. -/
theorem of_act {op : Operation R}
    (h : ∀ s : Session σ, s.register = a → s.axes = op.qubits →
      act rep op s = .ok () { s with register := b }) : Leads rep [op] a b := by
  intro s hs
  refine ⟨op.qubits.map id, ?_⟩
  rw [actEach_cons, EStateM.bind_ok (h { s with axes := op.qubits.map id } hs (List.map_id _))]
  rfl

/-- A composite leads where its body does. -/
theorem composite (h : Leads rep ops a b) (label : String) {qubits : List Nat}
    (hnodup : qubits.Nodup) (hwithin : ∀ op ∈ ops, op.qubits ⊆ qubits) :
    Leads rep [.composite label qubits ops] a b := by
  refine of_act fun s hs haxes => ?_
  obtain ⟨axes, hrun⟩ := h s hs
  have haxes : s.axes = qubits := haxes
  rw [act_composite rep label hwithin (haxes.trans (List.map_id _).symm) (haxes.symm ▸ hnodup)]
  exact restoringAxes_ok hrun

end Leads

/-- **A unitary gate can be undone by its adjoint.** -/
theorem exists_leads_gate {g : PlacedGate ℝ} {a : State (Amplitude ℝ)} (hfits : g.Fits a.dims)
    (hunitary : g.gate.OwnMatrix Mat.IsUnitary) :
    ∃ b, b.dims = a.dims ∧ Leads StateVector.representation [.gate g] a b ∧
      Leads StateVector.representation [.gate g.adjoint] b a := by
  have hsquare : g.gate.OwnMatrix Mat.IsSquare := hunitary.isSquare
  have hcols := (Gate.isSquare_qubitMatrix hsquare).symm.trans hfits.rows_eq
  have hadjoint := hfits.adjoint hsquare
  obtain ⟨b, happly, hdims, hback⟩ := State.apply_left_inverse hfits.placement hfits.rows_eq hcols
    (n := g.gate.dagger.qubitMatrix) hadjoint.rows_eq
    ((Gate.cols_qubitMatrix_dagger _).trans hfits.rows_eq) fun i hi j hj => by
      rw [Gate.qubitMatrix_dagger]
      have hsum := (Gate.isUnitary_qubitMatrix hunitary).isIsometry.sum_coeff (j := i) (k := j)
        (hcols.symm ▸ hi) (hcols.symm ▸ hj)
      rw [hfits.rows_eq] at hsum
      rw [← hsum]
      refine Finset.sum_congr rfl fun k _ => ?_
      rw [Mat.coeff_transposeMap Amplitude.conj_zero]
  -- both matrices lie at the same placement, so both pass the checks of acting
  refine ⟨b, hdims, Leads.of_act fun s hs haxes => ?_, Leads.of_act fun s hs haxes => ?_⟩
  · subst hs
    exact act_gate_of_applied (StateVector.native_ok hfits hsquare haxes happly)
  · subst hs
    exact act_gate_of_applied
      (StateVector.native_ok (hdims ▸ hadjoint) hsquare.isSquare_dagger haxes hback)

/-- The ways back from the operations of a sequence, in reverse order, are
the way back from the sequence. -/
theorem exists_leads_list {ops : List (Operation ℝ)} {a : State (Amplitude ℝ)}
    (hfits : ∀ op ∈ ops, op.Fits a.dims)
    (hops : ∀ op ∈ ops, ∀ a : State (Amplitude ℝ), op.Fits a.dims →
      ∃ b, b.dims = a.dims ∧ Leads StateVector.representation [op] a b ∧
        Leads StateVector.representation [op.adjoint] b a) :
    ∃ b, b.dims = a.dims ∧ Leads StateVector.representation ops a b ∧
      Leads StateVector.representation (adjointOfList ops) b a := by
  induction ops generalizing a with
  | nil => exact ⟨a, rfl, .nil _ a, .nil _ a⟩
  | cons op ops ih =>
    obtain ⟨b, hdims, hthere, hback⟩ := hops op (by simp) a (hfits op (by simp))
    obtain ⟨c, hdims', hthere', hback'⟩ := ih (a := b)
      (fun o ho => hdims.symm ▸ hfits o (by simp [ho])) fun o ho => hops o (by simp [ho])
    -- on the way back the last operation comes first
    exact ⟨c, hdims'.trans hdims, hthere.append hthere', hback'.append hback⟩

/-- **What one leaf can undo, a tree of operations can undo.** -/
theorem exists_leads {op : Operation ℝ} {a : State (Amplitude ℝ)} (hfits : op.Fits a.dims)
    (hgates : ∀ m, .measure m ∉ op.leaves)
    (hunitary : ∀ g, .gate g ∈ op.leaves → g.gate.OwnMatrix Mat.IsUnitary) :
    ∃ b, b.dims = a.dims ∧ Leads StateVector.representation [op] a b ∧
      Leads StateVector.representation [op.adjoint] b a := by
  induction op generalizing a with
  | gate g =>
    obtain ⟨hg⟩ := hfits
    exact exists_leads_gate hg (hunitary g (by simp [leaves]))
  | measure m => exact absurd (by simp [leaves]) (hgates m)
  | composite label qubits body ih =>
    obtain _ | _ | ⟨_, hlt, hnodup, hwithin, hinner⟩ := hfits
    obtain ⟨b, hdims, hthere, hback⟩ := exists_leads_list hinner fun op hop a ha =>
      ih op hop ha (fun m hm => hgates m (leaves_subset_leavesOfList hop hm))
        fun g hg => hunitary g (leaves_subset_leavesOfList hop hg)
    refine ⟨b, hdims, hthere.composite label hnodup hwithin,
      hback.composite label hnodup fun op hop => ?_⟩
    obtain ⟨o, ho, rfl⟩ := mem_adjointOfList.mp hop
    rw [qubits_adjoint]
    exact hwithin o ho

/-- Simulating a sequence of operations from a state leads where the sequence
leads. -/
theorem simulate_of_leads {ops : List (Operation ℝ)} {a b : State (Amplitude ℝ)}
    (h : Leads StateVector.representation ops a b) (source : Source) :
    simulate ⟨a.dims, ops⟩ a source = .ok ⟨b, .empty⟩ source := by
  obtain ⟨axes, hrun⟩ := h ⟨a, [], .empty, source⟩ rfl
  exact simulate_of_actEach (c := ⟨a.dims, ops⟩) rfl hrun

/-- **The adjoint of a circuit undoes it.** The adjoint of a circuit without
measurements, all of whose custom matrices are unitary, is a circuit over the
same register, and simulated after the circuit it gives back the state that
the circuit was started from. -/
theorem simulate_adjoint {dims : List Nat} {ops : List (Operation ℝ)} {c : Circuit ℝ}
    (hc : Circuit.ofOperations dims ops = .ok c)
    (hgates : ∀ m, Operation.measure m ∉ leavesOfList ops)
    (hunitary : OwnMatrices Mat.IsUnitary ops) :
    ∃ c', Circuit.ofOperations dims (adjointOfList ops) = .ok c' ∧
      ∀ initial : State (Amplitude ℝ), initial.dims = dims → ∀ source,
        ∃ run, simulate c initial source = .ok run source ∧
          ∀ source', ∃ run', simulate c' run.state source' = .ok run' source' ∧
            run'.state = initial := by
  have hsquare : OwnMatrices Mat.IsSquare ops := fun g hg => (hunitary g hg).isSquare
  obtain ⟨hfits, -, rfl⟩ := Circuit.ofOperations_eq_ok_iff.mp hc
  refine ⟨_, Circuit.ofOperations_adjoint hc hsquare, ?_⟩
  rintro initial rfl source
  obtain ⟨b, hdims, hthere, hback⟩ := exists_leads_list hfits fun op hop a ha =>
    exists_leads ha (fun m hm => hgates m (leaves_subset_leavesOfList hop hm))
      fun g hg => hunitary g (leaves_subset_leavesOfList hop hg)
  refine ⟨_, simulate_of_leads hthere source, fun source' => ⟨⟨initial, .empty⟩, ?_, rfl⟩⟩
  rw [← hdims]
  exact simulate_of_leads hback source'

/-- A superposed qubit that conditions a cyclic shift of a qutrit, within a
composite that lists them in the other order and turns a phase. -/
theorem simulate_adjoint_qutrit :
    let shift : Mat (Amplitude ℝ) := ⟨3, 3, fun i j => if i.val = (j.val + 1) % 3 then 1 else 0⟩
    let ops : List (Operation ℝ) := [.gate ⟨.h, [0], [], []⟩,
      .composite "shift" [1, 0]
        [.gate ⟨.ofMatrix shift "shift", [1], [0], [true]⟩, .gate ⟨.s, [0], [], []⟩]]
    Circuit.ofOperations [2, 3] ops = .ok ⟨[2, 3], ops⟩ ∧
      (∀ m, Operation.measure m ∉ leavesOfList ops) ∧ OwnMatrices Mat.IsUnitary ops ∧
      ∃ c', Circuit.ofOperations [2, 3] (adjointOfList ops) = .ok c' ∧
        ∀ initial : State (Amplitude ℝ), initial.dims = [2, 3] → ∀ source,
          ∃ run, simulate ⟨[2, 3], ops⟩ initial source = .ok run source ∧
            ∀ source', ∃ run', simulate c' run.state source' = .ok run' source' ∧
              run'.state = initial := by
  intro shift ops
  have hc : Circuit.ofOperations [2, 3] ops = .ok ⟨[2, 3], ops⟩ := rfl
  have hgates : ∀ m, Operation.measure m ∉ leavesOfList ops := by
    simp [ops, leavesOfList, leaves]
  have hshift : shift.IsUnitary := by
    refine ⟨rfl, ?_⟩
    show ∀ j k : Fin 3, ∑ i : Fin 3, _ = _
    intro j k
    rw [Fin.sum_univ_three]
    fin_cases j <;> fin_cases k <;> simp [shift]
  have hunitary : OwnMatrices Mat.IsUnitary ops := by
    intro g hg
    simp only [ops, leavesOfList, leaves, List.append_nil, List.singleton_append, List.mem_cons,
      Operation.gate.injEq, List.not_mem_nil, or_false] at hg
    obtain rfl | rfl | rfl := hg
    · trivial
    · exact hshift
    · trivial
  exact ⟨hc, hgates, hunitary, simulate_adjoint hc hgates hunitary⟩

/-- A single column of length one on a qubit is admitted. Its adjoint has one row and is
not, and the column itself is refused when it comes to be simulated. -/
theorem isometry_adjoint_refused :
    let column : Mat (Amplitude ℝ) := ⟨2, 1, fun i _ => if i.val = 0 then 1 else 0⟩
    let ops : List (Operation ℝ) := [.gate ⟨.ofMatrix column "V", [0], [], []⟩]
    let initial : State (Amplitude ℝ) := .atPosition [2] 0
    Circuit.ofOperations [2] ops = .ok ⟨[2], ops⟩ ∧
      (∀ m, Operation.measure m ∉ leavesOfList ops) ∧ OwnMatrices Mat.IsIsometry ops ∧
      Circuit.ofOperations [2] (adjointOfList ops) = .error (.matrixSize 2 1) ∧
      simulate ⟨[2], ops⟩ initial (.ofWords #[])
        = .error (.operation 0 (.gateSize 2 2)) (.ofWords #[]) := by
  intro column ops initial
  have hcolumn : column.IsIsometry := by
    show ∀ j k : Fin 1, ∑ i : Fin 2, _ = _
    intro j k
    rw [Fin.sum_univ_two, Subsingleton.elim j k]
    simp [column]
  refine ⟨rfl, by simp [ops, leavesOfList, leaves], fun g hg => ?_, rfl, rfl⟩
  obtain ⟨⟩ := List.mem_singleton.mp hg
  exact hcolumn

end Qudit
