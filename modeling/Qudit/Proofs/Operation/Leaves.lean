import Mathlib.Data.List.Basic
import Qudit.Operation.Basic

/-!
# The leaves of an operation

An operation is a tree: composites are its inner nodes, placed gates and
measurements its leaves. `Operation.leaves` lists these in the order in
which they are applied, and `Operation.induction` is the induction that
follows the tree: a composite may assume what it is to prove of every
operation of its body. `Operation.readings` are the measurements among the
leaves.

`Operation.Scoped` says that a tree keeps to the qubits it declares: no
composite declares a qubit twice, and the operations of its body use
declared qubits only. Nothing is asked of the leaves.
-/

namespace Qudit

variable {R : Type}

/-- **A measurement whose mask has one entry per measured qubit.** -/
def Measurement.FullMask (m : Measurement) : Prop := m.mask.length = m.qubits.length

instance (m : Measurement) : Decidable m.FullMask := inferInstanceAs (Decidable (_ = _))

namespace Operation

/-- Induction along the tree of an operation. -/
@[elab_as_elim, induction_eliminator]
theorem induction {motive : Operation R → Prop} (gate : ∀ g, motive (.gate g))
    (measure : ∀ m, motive (.measure m))
    (composite : ∀ label qubits body, (∀ op ∈ body, motive op) →
      motive (.composite label qubits body))
    (op : Operation R) : motive op :=
  match op with
  | .gate g => gate g
  | .measure m => measure m
  | .composite label qubits body =>
    composite label qubits body fun op _ => induction gate measure composite op

mutual

/-- **The gates and measurements of an operation**, in the order in which
they are applied. -/
def leaves : Operation R → List (Operation R)
  | .gate g => [.gate g]
  | .measure m => [.measure m]
  | .composite _ _ body => leavesOfList body

/-- The gates and measurements of a sequence of operations. -/
def leavesOfList : List (Operation R) → List (Operation R)
  | [] => []
  | op :: ops => op.leaves ++ leavesOfList ops

end

/-- **A tree that keeps to the qubits it declares.** -/
inductive Scoped : Operation R → Prop where
  /-- A placed gate declares nothing. -/
  | gate (g : PlacedGate R) : Scoped (.gate g)
  /-- A measurement declares nothing. -/
  | measure (m : Measurement) : Scoped (.measure m)
  /-- The declared qubits are distinct and those of the body are among
  them. -/
  | composite (label : String) {qubits : List Nat} {body : List (Operation R)}
      (nodup : qubits.Nodup) (within : ∀ op ∈ body, op.qubits ⊆ qubits)
      (inner : ∀ op ∈ body, Scoped op) : Scoped (.composite label qubits body)

theorem mem_leavesOfList {leaf : Operation R} {ops : List (Operation R)} :
    leaf ∈ leavesOfList ops ↔ ∃ op ∈ ops, leaf ∈ op.leaves := by
  induction ops with
  | nil => simp [leavesOfList]
  | cons op ops ih => simp [leavesOfList, ih]

/-- The leaves of an operation in a sequence are leaves of the sequence. -/
theorem leaves_subset_leavesOfList {op : Operation R} {ops : List (Operation R)} (h : op ∈ ops) :
    op.leaves ⊆ leavesOfList ops :=
  fun _ hleaf => mem_leavesOfList.mpr ⟨op, h, hleaf⟩

theorem leavesOfList_eq_flatMap (ops : List (Operation R)) :
    leavesOfList ops = ops.flatMap leaves := by
  induction ops with
  | nil => rfl
  | cons op ops ih => rw [leavesOfList, ih, List.flatMap_cons]

theorem keysOfList_eq_flatMap (ops : List (Operation R)) :
    keysOfList ops = ops.flatMap keys := by
  induction ops with
  | nil => rfl
  | cons op ops ih => rw [keysOfList, ih, List.flatMap_cons]

theorem keysOfList_append (ops ops' : List (Operation R)) :
    keysOfList (ops ++ ops') = keysOfList ops ++ keysOfList ops' := by
  rw [keysOfList_eq_flatMap, List.flatMap_append, ← keysOfList_eq_flatMap,
    ← keysOfList_eq_flatMap]

/-- The leaves of a sequence have the keys of the sequence. -/
theorem keysOfList_leavesOfList (ops : List (Operation R)) :
    keysOfList (leavesOfList ops) = keysOfList ops := by
  have hlist : ∀ ops : List (Operation R), (∀ op ∈ ops, op.leaves.flatMap keys = op.keys) →
      (leavesOfList ops).flatMap keys = keysOfList ops := by
    intro ops h
    rw [leavesOfList_eq_flatMap, keysOfList_eq_flatMap, List.flatMap_assoc]
    exact List.flatMap_congr h
  have hop : ∀ op : Operation R, op.leaves.flatMap keys = op.keys := by
    intro op
    induction op with
    | gate g => rfl
    | measure m => rfl
    | composite label qubits body ih => exact hlist body ih
  rw [keysOfList_eq_flatMap]
  exact hlist ops fun op _ => hop op

/-! ## Measurements -/

/-- The measurement that an operation is, if it is one. -/
def reading? : Operation R → Option Measurement
  | .measure m => some m
  | _ => none

/-- **The measurements of a sequence of operations**, in the order in which they are
made. -/
def readings (ops : List (Operation R)) : List Measurement :=
  (leavesOfList ops).filterMap reading?

theorem readings_cons (op : Operation R) (ops : List (Operation R)) :
    readings (op :: ops) = readings [op] ++ readings ops := by
  simp only [readings, leavesOfList, List.append_nil, List.filterMap_append]

theorem readings_singleton_measure (m : Measurement) :
    readings [(.measure m : Operation R)] = [m] := rfl

theorem readings_composite (label : String) (qubits : List Nat) (body : List (Operation R)) :
    readings [.composite label qubits body] = readings body := by
  simp only [readings, leavesOfList, leaves, List.append_nil]

theorem readings_gates (gs : List (PlacedGate R)) : readings (gs.map .gate) = [] := by
  induction gs with
  | nil => rfl
  | cons g gs ih =>
    rw [List.map_cons, readings_cons, ih]
    rfl

theorem mem_readings {m : Measurement} {ops : List (Operation R)} :
    m ∈ readings ops ↔ .measure m ∈ leavesOfList ops := by
  unfold readings
  rw [List.mem_filterMap]
  constructor
  · rintro ⟨_ | m' | _, hmem, hm⟩ <;> obtain ⟨⟩ := hm
    exact hmem
  · exact fun hmem => ⟨.measure m, hmem, rfl⟩

theorem readings_eq_flatMap (ops : List (Operation R)) :
    readings ops = ops.flatMap fun op => readings [op] := by
  induction ops with
  | nil => rfl
  | cons op ops ih => rw [readings_cons, ih, List.flatMap_cons]

/-- The keys of a sequence are those of its measurements. -/
theorem map_key_readings (ops : List (Operation R)) :
    (readings ops).map Measurement.key = keysOfList ops := by
  have hop : ∀ op : Operation R, (readings [op]).map Measurement.key = op.keys := by
    intro op
    induction op with
    | gate g => rfl
    | measure m => rfl
    | composite label qubits body ih =>
      rw [readings_composite, readings_eq_flatMap, List.map_flatMap, keys, keysOfList_eq_flatMap]
      exact List.flatMap_congr ih
  rw [readings_eq_flatMap, List.map_flatMap, keysOfList_eq_flatMap]
  exact List.flatMap_congr fun op _ => hop op

end Operation

end Qudit
