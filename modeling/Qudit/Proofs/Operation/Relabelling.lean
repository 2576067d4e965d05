import Mathlib.Logic.Embedding.Basic
import Qudit.Acting.Basic
import Qudit.Proofs.Computation
import Qudit.Proofs.Operation.Leaves

/-!
# Relabelled operations

A **relabelling** gives other names to the qubits of an operation, and may change
how its measurements are recorded; the keys of these and the shape of the tree
stay. Two relabellings matter. `Relabelling.rename f` renames every qubit, at
every depth: the targets and controls of gates, the qubits that are measured, and
those that composites declare. `Relabelling.unmask` keeps all names and takes
the invert masks off.

Distinct qubits keep distinct names, which is part of the type. This is what it
takes for a part of an operation to be found on the same axes as before
(`axesOf_relabel`), even where a composite declares a qubit twice or a part uses
one that was not declared.
-/

namespace Qudit

variable {R : Type}

/-- **A relabelling of qubits and measurements.** -/
structure Relabelling where
  /-- The new name of a qubit. -/
  qubit : Nat ↪ Nat
  /-- What a measurement becomes. -/
  measurement : Measurement → Measurement
  /-- The key stays. -/
  key_measurement : ∀ m, (measurement m).key = m.key
  /-- The measured qubits get their new names. -/
  qubits_measurement : ∀ m, (measurement m).qubits = m.qubits.map qubit
  /-- There are as many entries in the mask as before. -/
  length_mask : ∀ m, (measurement m).mask.length = m.mask.length

namespace Relabelling

/-- Everything keeps its name. -/
def refl : Relabelling :=
  ⟨.refl Nat, id, fun _ => rfl, fun m => (List.map_id m.qubits).symm, fun _ => rfl⟩

/-- **Qubits are renamed**, and masks stay. -/
def rename (f : Nat ↪ Nat) : Relabelling where
  qubit := f
  measurement m := ⟨m.key, m.qubits.map f, m.mask⟩
  key_measurement _ := rfl
  qubits_measurement _ := rfl
  length_mask _ := rfl

/-- **Masks are taken off**, and qubits keep their names. A mask of the wrong length gives
way to one of this length that marks nothing. -/
def unmask : Relabelling where
  qubit := .refl Nat
  measurement m := { m with mask := List.replicate m.mask.length false }
  key_measurement _ := rfl
  qubits_measurement m := (List.map_id m.qubits).symm
  length_mask _ := List.length_replicate

/-- A mask of the right length gives way to none. -/
theorem measurement_unmask {m : Measurement} (h : m.FullMask) :
    unmask.measurement m = .plain m.key m.qubits := by
  show Measurement.mk m.key m.qubits (List.replicate m.mask.length false) = _
  rw [h]
  rfl

end Relabelling

/-! ## Operations -/

/-- A gate placed on the renamed qubits. -/
def PlacedGate.relabel (ρ : Relabelling) (g : PlacedGate R) : PlacedGate R :=
  ⟨g.gate, g.targets.map ρ.qubit, g.controls.map ρ.qubit, g.configs⟩

namespace PlacedGate

variable (ρ : Relabelling) (g : PlacedGate R)

@[simp] theorem gate_relabel : (g.relabel ρ).gate = g.gate := rfl

@[simp] theorem configs_relabel : (g.relabel ρ).configs = g.configs := rfl

@[simp] theorem length_controls_relabel : (g.relabel ρ).controls.length = g.controls.length :=
  List.length_map _

@[simp] theorem length_targets_relabel : (g.relabel ρ).targets.length = g.targets.length :=
  List.length_map _

@[simp] theorem qubits_relabel : (g.relabel ρ).qubits = g.qubits.map ρ.qubit :=
  List.map_append.symm

theorem relabel_refl : g.relabel .refl = g := by
  show PlacedGate.mk g.gate (g.targets.map id) (g.controls.map id) g.configs = g
  rw [List.map_id, List.map_id]

/-- The bit flips of an exchange are renamed with it. -/
theorem parts_relabel : (g.relabel ρ).parts = g.parts.map (List.map (relabel ρ)) := by
  obtain ⟨gate, targets, controls, configs⟩ := g
  cases gate with
  | swap =>
    match targets with
    | [a, b] =>
      show some [_, flip (ρ.qubit b) (controls.map ρ.qubit ++ [ρ.qubit a]) (configs ++ [true]), _]
        = some [_, flip (ρ.qubit b) ((controls ++ [a]).map ρ.qubit) (configs ++ [true]), _]
      rw [List.map_append]
      rfl
    | [] | [_] | _ :: _ :: _ :: _ => rfl
  | _ => rfl

end PlacedGate

namespace Operation

mutual

/-- **The relabelled operation.** -/
def relabel (ρ : Relabelling) : Operation R → Operation R
  | .gate g => .gate (g.relabel ρ)
  | .measure m => .measure (ρ.measurement m)
  | .composite label qubits body =>
    .composite label (qubits.map ρ.qubit) (relabelOfList ρ body)

/-- A sequence of operations, each of them relabelled. -/
def relabelOfList (ρ : Relabelling) : List (Operation R) → List (Operation R)
  | [] => []
  | op :: ops => op.relabel ρ :: relabelOfList ρ ops

end

theorem relabelOfList_eq_map (ρ : Relabelling) (ops : List (Operation R)) :
    relabelOfList ρ ops = ops.map (relabel ρ) := by
  induction ops with
  | nil => rfl
  | cons op ops ih => rw [relabelOfList, ih, List.map_cons]

@[simp] theorem qubits_relabel (ρ : Relabelling) (op : Operation R) :
    (op.relabel ρ).qubits = op.qubits.map ρ.qubit := by
  cases op with
  | gate g => exact g.qubits_relabel ρ
  | measure m => exact ρ.qubits_measurement m
  | composite label qubits body => rfl

theorem relabel_refl (op : Operation R) : op.relabel .refl = op := by
  induction op with
  | gate g => rw [relabel, g.relabel_refl]
  | measure m => rfl
  | composite label qubits body ih =>
    show composite label (qubits.map id) (relabelOfList .refl body) = composite label qubits body
    rw [List.map_id, relabelOfList_eq_map, List.map_congr_left ih, List.map_id']

/-- An operation and its relabelling record under the same keys. -/
theorem keys_relabel (ρ : Relabelling) (op : Operation R) : (op.relabel ρ).keys = op.keys := by
  induction op with
  | gate g => rfl
  | measure m => exact congrArg (fun key => [key]) (ρ.key_measurement m)
  | composite label qubits body ih =>
    rw [relabel, keys, keys, relabelOfList_eq_map, keysOfList_eq_flatMap, List.flatMap_map,
      keysOfList_eq_flatMap]
    exact List.flatMap_congr ih

end Operation

/-! ## The axes of a part -/

/-- What is found under a name is found under its new name. -/
theorem lookup_map_embedding {α : Type} (f : Nat ↪ Nat) (q : Nat) (es : List (Nat × α)) :
    (es.map (Prod.map f id)).lookup (f q) = es.lookup q := by
  induction es with
  | nil => rfl
  | cons e es ih =>
    have hname : (f q == f e.1) = (q == e.1) := by
      rw [Bool.eq_iff_iff, beq_iff_eq, beq_iff_eq, f.apply_eq_iff_eq]
    rw [List.map_cons, List.lookup_cons, List.lookup_cons, ih, Prod.map_fst, hname]
    rfl

/-- **A renamed qubit lies where the qubit lay**, also among qubits that are listed
more than once. -/
theorem axisOf_map_embedding (f : Nat ↪ Nat) (qubits axes : List Nat) (q : Nat) :
    axisOf (qubits.map f) axes (f q) = axisOf qubits axes q := by
  unfold axisOf
  rw [List.zip_map_left, ← List.map_reverse, lookup_map_embedding]

/-- The refusal of the relabelled operation, where that of the operation is given. -/
def ActError.relabel (ρ : Relabelling) : ActError R → ActError R
  | .axesMismatch op qubits axes => .axesMismatch (op.relabel ρ) qubits axes
  | .unmappedQubit op qubit => .unmappedQubit (op.relabel ρ) (ρ.qubit qubit)
  | .cannotActOn op => .cannotActOn (op.relabel ρ)
  | e => e

/-- The failure of the relabelled operation. It is of the same kind; the operation and
the qubit that it names are renamed. -/
def Failure.relabel (ρ : Relabelling) : Failure R → Failure R
  | .error e => .error (e.relabel ρ)
  | .fault f => .fault f

theorem Failure.relabel_refl (e : Failure R) : e.relabel .refl = e := by
  cases e with
  | fault f => rfl
  | error e =>
    refine congrArg Failure.error ?_
    cases e with
    | axesMismatch op qubits axes => rw [ActError.relabel, op.relabel_refl]
    | unmappedQubit op qubit =>
      rw [ActError.relabel, op.relabel_refl]
      rfl
    | cannotActOn op => rw [ActError.relabel, op.relabel_refl]
    | _ => rfl

/-- **The axes of a part are those of the relabelled part**, if there are any. -/
theorem axesOf_relabel (ρ : Relabelling) (qubits axes : List Nat) (op : Operation R) :
    axesOf (qubits.map ρ.qubit) axes (op.relabel ρ)
      = (axesOf qubits axes op).mapError (ActError.relabel ρ) := by
  unfold axesOf
  rw [op.qubits_relabel]
  refine Except.mapM_map_eq_mapError (fun q => ?_) op.qubits
  rw [axisOf_map_embedding]
  cases axisOf qubits axes q with
  | some axis => rfl
  | none => rfl

end Qudit
