import Mathlib.Logic.Relation
import Qudit.Proofs.Circuit.Fits

/-!
# Taking apart what fits

An exchange of two qubits and a composite stand for the operations that are their
parts. The parts of a composite are checked together with it. Those of an exchange are
not: they are bit flips that turn one of its targets into a control and lengthen the
list of its controls, and that they fit has to be derived from the exchange
(`PlacedGate.Fits.of_mem_parts`). It is due to the exchange being a named gate, so that
its targets are qubits and may be controls.

`Operation.StandsFor` is what a sequence of operations shares with an operation that it
may be put in the place of, as far as a check can tell: it passes the same check, uses no
other qubits and records under the same keys. The parts of an operation stand for it, and
so does every sequence that is reached by taking apart what can be taken apart, one
operation after the other (`Operation.Unfolds`).
-/

namespace Qudit

open Radix

variable {R : Type}

/-! ## The parts of an exchange -/

namespace PlacedGate

variable {g f : PlacedGate R} {flips : List (PlacedGate R)}

/-- A gate that has parts is an exchange of two qubits, and has these. -/
theorem parts_eq_some (hparts : g.parts = some flips) :
    g.gate = .swap ∧ ∃ a b, g.targets = [a, b] ∧
      flips = [flip a [b] [true], flip b (g.controls ++ [a]) (g.configs ++ [true]),
        flip a [b] [true]] := by
  unfold parts at hparts
  split at hparts
  · rename_i a b hgate htargets
    obtain ⟨⟩ := hparts
    exact ⟨hgate, a, b, htargets, rfl⟩
  · cases hparts

/-- The parts of an exchange of two qubits. -/
theorem parts_of_swap {a b : Nat} (hswap : g.gate = .swap) (htargets : g.targets = [a, b]) :
    g.parts = some [flip a [b] [true], flip b (g.controls ++ [a]) (g.configs ++ [true]),
      flip a [b] [true]] := by
  unfold parts
  rw [hswap, htargets]

/-- Each of the parts is a flip of the first target under the second one, or of the second
target under the first one and the controls of the exchange. -/
theorem eq_flip_of_mem_parts (hparts : g.parts = some flips) (hf : f ∈ flips) :
    g.gate = .swap ∧ ∃ a b, g.targets = [a, b] ∧
      (f = flip a [b] [true] ∨ f = flip b (g.controls ++ [a]) (g.configs ++ [true])) := by
  obtain ⟨hswap, a, b, htargets, rfl⟩ := parts_eq_some hparts
  refine ⟨hswap, a, b, htargets, ?_⟩
  simp only [List.mem_cons, List.not_mem_nil, or_false] at hf
  tauto

/-- The parts of an exchange are bit flips on its qubits. -/
theorem mem_parts (hparts : g.parts = some flips) (hf : f ∈ flips) :
    f.gate = .x ∧ f.qubits ⊆ g.qubits := by
  obtain ⟨-, a, b, htargets, rfl | rfl⟩ := eq_flip_of_mem_parts hparts hf <;>
    simp [flip, qubits, htargets]

variable [Scalar R] {dims : List Nat}

/-- A named gate is placed on qubits only. -/
theorem Fits.qubits_two (h : g.Fits dims) (hnamed : g.gate.isNamed = true) :
    ∀ q ∈ g.qubits, dims.getD q 0 = 2 := by
  intro q hq
  obtain hq | hq := List.mem_append.mp hq
  · exact h.controls_two q hq
  · exact h.targets_two hnamed q hq

/-- A bit flip of a qubit under qubits fits. -/
theorem fits_flip {t : Nat} {controls : List Nat} {configs : List Bool}
    (hlen : configs.length = controls.length) (hnodup : (controls ++ [t]).Nodup)
    (hlt : ∀ q ∈ controls ++ [t], q < dims.length)
    (htwo : ∀ q ∈ controls ++ [t], dims.getD q 0 = 2) :
    (flip t controls configs : PlacedGate R).Fits dims where
  length_configs := hlen
  targets_lt q hq := hlt q (List.mem_append_right _ hq)
  controls_lt q hq := hlt q (List.mem_append_left _ hq)
  nodup := hnodup
  targets_ne_nil := List.cons_ne_nil _ _
  controls_two q hq := htwo q (List.mem_append_left _ hq)
  targets_two _ q hq := htwo q (List.mem_append_right _ hq)
  rows_eq := by
    show 2 = total [dims.getD t 0]
    rw [htwo t (by simp)]
    rfl

/-- **The parts of an exchange that fits are bit flips that fit.** -/
theorem Fits.of_mem_parts (hfits : g.Fits dims) (hparts : g.parts = some flips)
    (hf : f ∈ flips) : f.Fits dims := by
  obtain ⟨hswap, a, b, htargets, hflip⟩ := eq_flip_of_mem_parts hparts hf
  -- all sites are qubits, and the targets differ from the controls and from each other
  have hqubits : g.qubits = g.controls ++ [a] ++ [b] := by
    rw [qubits, htargets, List.append_assoc, List.singleton_append]
  have hnodup : (g.controls ++ [a] ++ [b]).Nodup := hqubits ▸ hfits.nodup
  have hlt : ∀ q ∈ g.controls ++ [a] ++ [b], q < dims.length := hqubits ▸ hfits.qubits_lt
  have htwo : ∀ q ∈ g.controls ++ [a] ++ [b], dims.getD q 0 = 2 :=
    hqubits ▸ hfits.qubits_two (by rw [hswap]; rfl)
  have hne : b ≠ a := fun h =>
    (List.nodup_append.mp hnodup).2.2 a (by simp) b (by simp) h.symm
  obtain rfl | rfl := hflip
  · exact fits_flip rfl (by simpa using hne) (fun q hq => hlt q (by simp at hq ⊢; tauto))
      (fun q hq => htwo q (by simp at hq ⊢; tauto))
  · exact fits_flip (by simp [hfits.length_configs]) hnodup hlt htwo

end PlacedGate

/-! ## Taking operations apart -/

namespace Operation

variable {dims : List Nat} {op : Operation R} {parts : List (Operation R)}

/-- The keys of the parts of an operation, one after the other, are its keys. -/
theorem flatMap_keys_parts (hparts : op.parts = some parts) : parts.flatMap keys = op.keys := by
  cases op with
  | gate g =>
    obtain ⟨flips, -, rfl⟩ := Option.map_eq_some_iff.mp hparts
    rw [List.flatMap_map]
    exact List.flatMap_eq_nil_iff.mpr fun _ _ => rfl
  | measure m => cases hparts
  | composite label qubits body =>
    obtain ⟨⟩ := hparts
    exact (keysOfList_eq_flatMap _).symm

/-- **An operation has another one as a part.** -/
def HasPart (op p : Operation R) : Prop := ∃ parts, op.parts = some parts ∧ p ∈ parts

/-- **One operation of a sequence is taken apart**, and its parts take its place. -/
inductive Unfolds : List (Operation R) → List (Operation R) → Prop where
  /-- The operations before and after it stay. -/
  | intro (before after : List (Operation R)) {op : Operation R} {parts : List (Operation R)}
      (parts_eq : op.parts = some parts) :
      Unfolds (before ++ op :: after) (before ++ parts ++ after)

variable [Scalar R]

/-- **The parts of an operation that fits fit as well, on its own qubits.** -/
theorem Fits.of_mem_parts (hfits : op.Fits dims) (hparts : op.parts = some parts)
    {p : Operation R} (hp : p ∈ parts) : p.Fits dims ∧ p.qubits ⊆ op.qubits := by
  cases hfits with
  | gate hg =>
    obtain ⟨flips, hflips, rfl⟩ := Option.map_eq_some_iff.mp hparts
    obtain ⟨f, hf, rfl⟩ := List.mem_map.mp hp
    exact ⟨.gate (hg.of_mem_parts hflips hf), (PlacedGate.mem_parts hflips hf).2⟩
  | measure _ _ => cases hparts
  | composite _ _ _ within inner =>
    obtain ⟨⟩ := hparts
    exact ⟨inner p hp, within p hp⟩

/-- **A sequence of operations may stand in the place of an operation** on a register. -/
structure StandsFor (dims : List Nat) (op : Operation R) (ops : List (Operation R)) : Prop where
  /-- Nothing is found wrong with the operations. -/
  check : ∀ o ∈ ops, Circuit.check dims o = .ok ()
  /-- They use qubits of the operation only. -/
  qubits : ∀ o ∈ ops, o.qubits ⊆ op.qubits
  /-- They record under its keys, in the same order. -/
  keys : ops.flatMap Operation.keys = op.keys

namespace StandsFor

/-- The parts of an operation stand for it. -/
theorem of_parts (hcheck : Circuit.check dims op = .ok ()) (hparts : op.parts = some parts) :
    StandsFor dims op parts where
  check _ hp := Circuit.check_eq_ok_iff.mpr
    ((Circuit.check_eq_ok_iff.mp hcheck).of_mem_parts hparts hp).1
  qubits _ hp := ((Circuit.check_eq_ok_iff.mp hcheck).of_mem_parts hparts hp).2
  keys := flatMap_keys_parts hparts

/-- An operation stands for itself. -/
theorem self (hcheck : Circuit.check dims op = .ok ()) : StandsFor dims op [op] where
  check _ ho := List.mem_singleton.mp ho ▸ hcheck
  qubits _ ho := List.mem_singleton.mp ho ▸ List.Subset.refl _
  keys := List.flatMap_singleton _ _

/-- **In a sequence that stands for an operation, each member can be replaced** by a
sequence that stands for it. -/
theorem replace {before after os : List (Operation R)} {o : Operation R}
    (h : StandsFor dims op (before ++ o :: after)) (ho : StandsFor dims o os) :
    StandsFor dims op (before ++ os ++ after) := by
  have hmem : ∀ p ∈ before ++ os ++ after, p ∈ before ++ o :: after ∨ p ∈ os := by
    intro p hp
    simp only [List.mem_append, List.mem_cons] at hp ⊢
    tauto
  refine ⟨fun p hp => ?_, fun p hp => ?_, ?_⟩
  · obtain hp | hp := hmem p hp
    · exact h.check p hp
    · exact ho.check p hp
  · obtain hp | hp := hmem p hp
    · exact h.qubits p hp
    · exact List.Subset.trans (ho.qubits p hp) (h.qubits o (by simp))
  · rw [← h.keys, List.flatMap_append, List.flatMap_append, ho.keys, List.flatMap_append,
      List.flatMap_cons, List.append_assoc]

/-- **What stands for an operation still does so with one more operation taken apart.** -/
theorem unfolds {ops ops' : List (Operation R)} (h : StandsFor dims op ops)
    (hstep : Unfolds ops ops') : StandsFor dims op ops' := by
  obtain ⟨before, after, hparts⟩ := hstep
  exact h.replace (.of_parts (h.check _ (by simp)) hparts)

end StandsFor

/-- Everything within an operation that passes the check passes it, and stays among its
qubits. -/
theorem check_of_reflTransGen {o : Operation R} (hcheck : Circuit.check dims op = .ok ())
    (hreach : Relation.ReflTransGen HasPart op o) :
    Circuit.check dims o = .ok () ∧ o.qubits ⊆ op.qubits := by
  induction hreach with
  | refl => exact ⟨hcheck, List.Subset.refl _⟩
  | tail _ hpart ih =>
    obtain ⟨parts, hparts, hp⟩ := hpart
    have hstands := StandsFor.of_parts ih.1 hparts
    exact ⟨hstands.check _ hp, List.Subset.trans (hstands.qubits _ hp) ih.2⟩

/-- **What passes the check passes it in parts.** The parts of an operation that passes
stand for it, and so does every sequence that it can be unfolded into. Whatever is
reached from it part by part passes, stays among its qubits, and has parts, if any, that
stand for it in turn. -/
theorem standsFor_of_check (hcheck : Circuit.check dims op = .ok ()) :
    (∀ parts, op.parts = some parts → StandsFor dims op parts) ∧
      (∀ ops, Relation.ReflTransGen Unfolds [op] ops → StandsFor dims op ops) ∧
      ∀ o, Relation.ReflTransGen HasPart op o →
        Circuit.check dims o = .ok () ∧ o.qubits ⊆ op.qubits ∧
          ∀ parts, o.parts = some parts → StandsFor dims o parts := by
  refine ⟨fun parts hparts => .of_parts hcheck hparts, fun ops hrun => ?_, fun o hreach => ?_⟩
  · induction hrun with
    | refl => exact .self hcheck
    | tail _ hstep ih => exact ih.unfolds hstep
  · obtain ⟨ho, hqubits⟩ := check_of_reflTransGen hcheck hreach
    exact ⟨ho, hqubits, fun parts hparts => .of_parts ho hparts⟩

/-- An exchange under a control that has to be zero, within a composite that declares a
qutrit too, is unfolded into three bit flips. -/
theorem standsFor_of_check_nested :
    let dims := [2, 3, 2, 2]
    let exchange : PlacedGate Float := ⟨.swap, [0, 2], [3], [false]⟩
    let reading : Operation Float := .measure (.plain "m" [2, 1])
    let op : Operation Float := .composite "read exchanged" [3, 0, 1, 2] [.gate exchange, reading]
    let ops : List (Operation Float) := [.gate (.flip 0 [2] [true]),
      .gate (.flip 2 [3, 0] [false, true]), .gate (.flip 0 [2] [true]), reading]
    Circuit.check dims op = .ok () ∧ Relation.ReflTransGen Unfolds [op] ops ∧
      StandsFor dims op ops := by
  intro dims exchange reading op ops
  have hcheck : Circuit.check dims op = .ok () := rfl
  have hbody : op.parts = some [.gate exchange, reading] := rfl
  have hflips : (gate exchange).parts = some (ops.take 3) := rfl
  have hrun : Relation.ReflTransGen Unfolds [op] ops :=
    .tail (.single (.intro [] [] hbody)) (.intro [] [reading] hflips)
  exact ⟨hcheck, hrun, (standsFor_of_check hcheck).2.1 ops hrun⟩

end Operation

end Qudit
