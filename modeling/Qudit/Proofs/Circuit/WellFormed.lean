import Qudit.Proofs.Circuit.Fits

/-!
# Well-formed sequences of operations

A circuit is checked level by level: an operation is compared with the composite
that it is directly in, and with no other. `Circuit.WellFormed` says without
levels what a sequence of operations has to be. It speaks of the operations that
occur anywhere in it (`Operation.OccursIn`), of all the composites around them, and
of the keys of the whole.

The two come to the same (`ofOperations_eq_ok_iff_wellFormed`). Of the two
directions, the way into the tree needs that what is declared further in is among
what is declared further out (`OccursIn.qubits_subset`), and the way back that
whatever occurs in a composite occurs where this does (`OccursIn.of_composite`).
-/

namespace Qudit

variable {R : Type}

namespace Operation

/-- **An operation occurs in a sequence**, be it as one of its operations or further
in, at any depth. -/
inductive OccursIn (op : Operation R) : List (Operation R) → Prop where
  /-- It is one of them. -/
  | here {ops : List (Operation R)} (mem : op ∈ ops) : OccursIn op ops
  /-- It occurs within a composite that is one of them. -/
  | within {ops : List (Operation R)} {label : String} {qubits : List Nat}
      {body : List (Operation R)} (mem : .composite label qubits body ∈ ops)
      (inner : OccursIn op body) : OccursIn op ops

namespace OccursIn

variable {op : Operation R} {ops : List (Operation R)}

/-- What occurs within a composite occurs where this does. -/
theorem of_composite {label : String} {qubits : List Nat} {body : List (Operation R)}
    (h : OccursIn (.composite label qubits body) ops) (hop : OccursIn op body) :
    OccursIn op ops := by
  induction h with
  | here mem => exact .within mem hop
  | within mem _ ih => exact .within mem ih

variable [Scalar R] {dims : List Nat}

/-- With the operations of a sequence, all that occurs in it fits. -/
theorem fits (h : OccursIn op ops) (hfits : ∀ o ∈ ops, o.Fits dims) : op.Fits dims := by
  induction h with
  | here mem => exact hfits op mem
  | within mem _ ih =>
    obtain _ | _ | ⟨_, -, -, -, hinner⟩ := hfits _ mem
    exact ih hinner

/-- **What occurs in a sequence stays among the qubits that its operations stay
among**, since every composite on the way declares some of these only. -/
theorem qubits_subset {declared : List Nat} (h : OccursIn op ops)
    (hfits : ∀ o ∈ ops, o.Fits dims) (hsub : ∀ o ∈ ops, o.qubits ⊆ declared) :
    op.qubits ⊆ declared := by
  induction h with
  | here mem => exact hsub op mem
  | within mem _ ih =>
    obtain _ | _ | ⟨_, -, -, hwithin, hinner⟩ := hfits _ mem
    exact ih hinner fun o ho => List.Subset.trans (hwithin o ho) (hsub _ mem)

end OccursIn

end Operation

open Operation

namespace Circuit

variable [Scalar R] {dims : List Nat} {ops : List (Operation R)}

/-- **A well-formed sequence of operations on a register.** -/
structure WellFormed (dims : List Nat) (ops : List (Operation R)) : Prop where
  /-- Every gate fits. -/
  gates : ∀ g, OccursIn (.gate g) ops → g.Fits dims
  /-- Every measurement is of sites that exist, each of them once. -/
  measurements : ∀ m, OccursIn (.measure m) ops →
    (∀ q ∈ m.qubits, q < dims.length) ∧ m.qubits.Nodup
  /-- Every composite declares sites that exist, each of them once. -/
  composites : ∀ label qubits body, OccursIn (.composite label qubits body) ops →
    (∀ q ∈ qubits, q < dims.length) ∧ qubits.Nodup
  /-- Every operation stays among the qubits of every composite around it. -/
  enclosed : ∀ label qubits body, OccursIn (.composite label qubits body) ops →
    ∀ op, OccursIn op body → op.qubits ⊆ qubits
  /-- No key is used twice, also not at different depths. -/
  keys : (keysOfList ops).Nodup

/-- In a well-formed sequence everything fits that occurs in it. -/
theorem WellFormed.fits (h : WellFormed dims ops) {op : Operation R} (hop : OccursIn op ops) :
    op.Fits dims := by
  induction op with
  | gate g => exact .gate (h.gates g hop)
  | measure m =>
    obtain ⟨hlt, hnodup⟩ := h.measurements m hop
    exact .measure hlt hnodup
  | composite label qubits body ih =>
    obtain ⟨hlt, hnodup⟩ := h.composites label qubits body hop
    exact .composite label hlt hnodup
      (fun o ho => h.enclosed label qubits body hop o (.here ho))
      fun o ho => ih o ho (hop.of_composite (.here ho))

/-- A sequence of operations that fit, with distinct keys, is well-formed. -/
theorem WellFormed.of_fits (hfits : ∀ op ∈ ops, op.Fits dims) (hkeys : (keysOfList ops).Nodup) :
    WellFormed dims ops where
  gates g hg := by
    obtain ⟨hg⟩ := hg.fits hfits
    exact hg
  measurements m hm := by
    obtain _ | ⟨hlt, hnodup⟩ := hm.fits hfits
    exact ⟨hlt, hnodup⟩
  composites label qubits body hc := by
    obtain _ | _ | ⟨_, hlt, hnodup, -, -⟩ := hc.fits hfits
    exact ⟨hlt, hnodup⟩
  enclosed label qubits body hc op hop := by
    obtain _ | _ | ⟨_, -, -, hwithin, hinner⟩ := hc.fits hfits
    exact hop.qubits_subset hinner hwithin
  keys := hkeys

/-- **Exactly the well-formed sequences are admitted as circuits**, and they are
kept as they are. -/
theorem ofOperations_eq_ok_iff_wellFormed (dims : List Nat) (ops : List (Operation R))
    (c : Circuit R) :
    ofOperations dims ops = .ok c ↔ WellFormed dims ops ∧ c = ⟨dims, ops⟩ := by
  rw [ofOperations_eq_ok_iff]
  constructor
  · rintro ⟨hfits, hkeys, hc⟩
    exact ⟨.of_fits hfits hkeys, hc⟩
  · rintro ⟨hwell, hc⟩
    exact ⟨fun op hop => hwell.fits (.here hop), hwell.keys, hc⟩

end Circuit

end Qudit
