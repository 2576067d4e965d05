import Qudit.Proofs.Circuit.Fits
import Qudit.Proofs.Gate.OwnMatrix

/-!
# The adjoint of a sequence of operations

The adjoint runs the operations in reverse order, those of every composite
too, with each gate replaced by its adjoint at the same place. A measurement
has no adjoint and stays as it is. The adjoint of a circuit is one as well,
provided that its custom matrices are square
(`Circuit.ofOperations_adjoint`): it uses the same qubits, and the
same keys in reverse order.
-/

namespace Qudit

open Radix

variable {R : Type} [Scalar R]

/-- The gate replaced by its adjoint, at the same place. -/
def PlacedGate.adjoint (g : PlacedGate R) : PlacedGate R := { g with gate := g.gate.dagger }

/-- The adjoint of a gate fits where the gate does. -/
theorem PlacedGate.Fits.adjoint {g : PlacedGate R} {dims : List Nat} (h : g.Fits dims)
    (hsquare : g.gate.OwnMatrix Mat.IsSquare) : g.adjoint.Fits dims where
  length_configs := h.length_configs
  targets_lt := h.targets_lt
  controls_lt := h.controls_lt
  nodup := h.nodup
  targets_ne_nil := h.targets_ne_nil
  controls_two := h.controls_two
  targets_two hnamed := h.targets_two (g.gate.isNamed_dagger.symm.trans hnamed)
  rows_eq := by
    show g.gate.dagger.qubitMatrix.rows = _
    rw [g.gate.rows_qubitMatrix_dagger, ← Gate.isSquare_qubitMatrix hsquare]
    exact h.rows_eq

namespace Operation

mutual

/-- **The adjoint of an operation.** -/
def adjoint : Operation R → Operation R
  | .gate g => .gate g.adjoint
  | .measure m => .measure m
  | .composite label qubits body => .composite label qubits (adjointOfList body)

/-- **The adjoint of a sequence of operations**, in reverse order. -/
def adjointOfList : List (Operation R) → List (Operation R)
  | [] => []
  | op :: ops => adjointOfList ops ++ [op.adjoint]

end

theorem adjointOfList_eq (ops : List (Operation R)) :
    adjointOfList ops = (ops.map adjoint).reverse := by
  induction ops with
  | nil => rfl
  | cons op ops ih => rw [adjointOfList, ih, List.map_cons, List.reverse_cons]

theorem mem_adjointOfList {op : Operation R} {ops : List (Operation R)} :
    op ∈ adjointOfList ops ↔ ∃ o ∈ ops, o.adjoint = op := by
  rw [adjointOfList_eq, List.mem_reverse, List.mem_map]

@[simp] theorem qubits_adjoint (op : Operation R) : op.adjoint.qubits = op.qubits := by
  cases op <;> rfl

theorem keysOfList_adjointOfList {ops : List (Operation R)}
    (h : ∀ op ∈ ops, op.adjoint.keys = op.keys.reverse) :
    keysOfList (adjointOfList ops) = (keysOfList ops).reverse := by
  induction ops with
  | nil => rfl
  | cons op ops ih =>
    rw [adjointOfList, keysOfList_append, ih fun o ho => h o (by simp [ho]), keysOfList,
      keysOfList, keysOfList, h op (by simp), List.append_nil, List.reverse_append]

/-- The adjoint records under the same keys, in reverse order. -/
theorem keys_adjoint (op : Operation R) : op.adjoint.keys = op.keys.reverse := by
  induction op with
  | gate g => rfl
  | measure m => rfl
  | composite label qubits body ih => exact keysOfList_adjointOfList ih

/-- The adjoint of an operation fits where the operation does. -/
theorem Fits.adjoint {op : Operation R} {dims : List Nat} (hfits : op.Fits dims)
    (hsquare : ∀ g, .gate g ∈ op.leaves → g.gate.OwnMatrix Mat.IsSquare) :
    op.adjoint.Fits dims := by
  induction op with
  | gate g =>
    obtain ⟨hg⟩ := hfits
    exact .gate (hg.adjoint (hsquare g (by simp [leaves])))
  | measure m => exact hfits
  | composite label qubits body ih =>
    obtain _ | _ | ⟨_, hlt, hnodup, hwithin, hinner⟩ := hfits
    refine .composite label hlt hnodup (fun op hop => ?_) fun op hop => ?_
    · obtain ⟨o, ho, rfl⟩ := mem_adjointOfList.mp hop
      rw [qubits_adjoint]
      exact hwithin o ho
    · obtain ⟨o, ho, rfl⟩ := mem_adjointOfList.mp hop
      exact ih o ho (hinner o ho) fun g hg =>
        hsquare g (leaves_subset_leavesOfList ho hg)

end Operation

/-- **The adjoint of a circuit is a circuit.** -/
theorem Circuit.ofOperations_adjoint {dims : List Nat} {ops : List (Operation R)} {c : Circuit R}
    (hc : Circuit.ofOperations dims ops = .ok c)
    (hsquare : Operation.OwnMatrices Mat.IsSquare ops) :
    Circuit.ofOperations dims (Operation.adjointOfList ops)
      = .ok ⟨dims, Operation.adjointOfList ops⟩ := by
  obtain ⟨hfits, hkeys, -⟩ := ofOperations_eq_ok_iff.mp hc
  refine ofOperations_eq_ok_iff.mpr ⟨fun op hop => ?_, ?_, rfl⟩
  · obtain ⟨o, ho, rfl⟩ := Operation.mem_adjointOfList.mp hop
    exact (hfits o ho).adjoint fun g hg =>
      hsquare g (Operation.leaves_subset_leavesOfList ho hg)
  · rw [Operation.keysOfList_adjointOfList fun o _ => o.keys_adjoint]
    exact List.nodup_reverse.mpr hkeys

end Qudit
