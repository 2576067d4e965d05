import Qudit.Proofs.Acting.Halfway

/-!
# Gates at sites that do not exist

A register of amplitudes looks at all axes before it does anything. A register of values
never checks its axes as such: one that is no site is found when its value is read, so
that a gate is refused only where it reads the value. All controls are read, and so are
the targets of a named gate, which have to hold zero or one; an exchange reads every axis
in the second of its flips (`act_exchange_ends`).

What is never read are the targets of a custom gate. It is applied if it is declared
diagonal, and then there is nothing to do: the values stay, and the phases are not kept.
So it is applied at targets that are no sites as well (`act_of_overlooks`), and it is the
only gate that is (`act_gate_at_missing_site`).
-/

namespace Qudit

open Radix Acting

variable {R : Type}

namespace BasisState

variable {g : PlacedGate R} {s : Session (List Nat)}

/-- **A gate that does not look at its targets**: a custom one that is declared diagonal,
at distinct axes of which those of the controls exist. -/
structure Overlooks (g : PlacedGate R) (s : Session (List Nat)) : Prop where
  /-- The gate is a custom one. -/
  not_named : g.gate.isNamed = false
  /-- It is declared diagonal. -/
  diagonal : g.gate.isDiagonal = true
  /-- There is one axis per qubit. -/
  length_eq : s.axes.length = g.qubits.length
  /-- No site is named twice. -/
  nodup : s.axes.Nodup
  /-- The axes of the controls are sites. -/
  controls_lt : ∀ a ∈ s.axes.take g.controls.length, a < s.register.length

/-- A bit flip is a named gate. -/
theorem isFlip_of_not_named {gate : Gate R} (h : gate.isNamed = false) : isFlip gate = false := by
  cases gate with
  | custom matrix diagonal label => rfl
  | _ => cases h

/-- **A gate that does not look at its targets is applied**, whether they exist or not, and
changes nothing. -/
theorem act_of_overlooks (hconfigs : g.configs.length = g.controls.length)
    (h : Overlooks g s) : act representation (.gate g) s = .ok () s := by
  have hnamed : ¬g.gate.isNamed = true := by
    rw [h.not_named]
    exact Bool.false_ne_true
  have hnative := native_of_sites (h.length_eq.trans g.length_qubits) hconfigs h.controls_lt
    h.nodup (fun hn => absurd hn hnamed) (.inr h.diagonal)
  refine act_gate_of_applied (hnative.trans ?_)
  rw [isFlip_of_not_named h.not_named, Bool.and_false]
  rfl

/-- **A gate that succeeds has found its axes to exist**, or has not looked at its
targets. -/
theorem lt_or_overlooks_of_act_ok (hconfigs : g.configs.length = g.controls.length)
    {t : Session (List Nat)} (hact : act representation (.gate g) s = .ok () t) :
    (∀ a ∈ s.axes, a < s.register.length) ∨ Overlooks g s := by
  cases hparts : g.parts with
  | some flips =>
    have hends := act_exchange_ends hparts hconfigs s
    rw [hact] at hends
    exact .inl hends.2
  | none =>
    have hends := act_whole_ends hparts s
    rw [hact] at hends
    obtain ⟨fires, happlies, -⟩ := hends
    have hcontrols := (happlies.controls hconfigs).1
    cases hnamed : g.gate.isNamed with
    | true =>
      refine .inl fun a ha => ?_
      rw [← List.take_append_drop g.controls.length s.axes] at ha
      obtain ha | ha := List.mem_append.mp ha
      · exact hcontrols a ha
      · exact (happlies.targets hnamed a ha).1
    | false =>
      refine .inr ⟨hnamed, ?_, happlies.length_eq.trans g.length_qubits.symm, happlies.nodup,
        hcontrols⟩
      -- any other custom gate is declined, and has no parts
      by_contra hdiagonal
      have hdeclined : native g s = .ok .notImplemented s :=
        native_declined (isFlip_of_not_named hnamed) (Bool.eq_false_iff.mpr hdiagonal) s
      rw [act_gate_of_no_parts hdeclined hparts] at hact
      cases hact

end BasisState

namespace StateVector

variable {s : Session (State (Amplitude R))} {axis : Nat}

theorem checkedAxes_of_missing
    (h : s.axes.find? (fun axis => Nat.ble s.register.numSites axis) = some axis) :
    checkedAxes s = .error (.error (.axisOutOfRange axis s.register.numSites)) s := by
  unfold checkedAxes
  rw [EStateM.bind_ok (get_apply s)]
  simp only [h]
  rfl

/-- **A gate on amplitudes is refused at the first axis that does not exist.** -/
theorem act_gate_of_missing [Scalar R] (g : PlacedGate R)
    (h : s.axes.find? (fun axis => Nat.ble s.register.numSites axis) = some axis) :
    act representation (.gate g) s
      = .error (.error (.axisOutOfRange axis s.register.numSites)) s :=
  act_gate_of_failure (EStateM.bind_error (checkedAxes_of_missing h))

end StateVector

namespace BasisState

/-- **Where an axis does not exist, a gate on values is refused unless it does not look at
its targets**; such a gate succeeds and leaves everything as it was. A register of
amplitudes with as many sites refuses every gate at the same axes, because of the first
of them that does not exist. -/
theorem act_gate_at_missing_site [Scalar R] (g : PlacedGate R)
    (hconfigs : g.configs.length = g.controls.length) (s : Session (List Nat))
    (hmissing : ∃ a ∈ s.axes, s.register.length ≤ a) :
    (Overlooks g s → act representation (.gate g) s = .ok () s) ∧
    (¬Overlooks g s → ∃ e t, act representation (.gate g) s = .error (.error e) t) ∧
    ∃ a ∈ s.axes, s.register.length ≤ a ∧
      ∀ u : Session (State (Amplitude R)), u.axes = s.axes →
        u.register.dims.length = s.register.length →
        act StateVector.representation (.gate g) u
          = .error (.error (.axisOutOfRange a s.register.length)) u := by
  refine ⟨act_of_overlooks hconfigs, fun hlooks => ?_, ?_⟩
  · have hends := act_gate_ends hconfigs s
    cases hact : act representation (.gate g) s with
    | ok _ t =>
      obtain ⟨a, ha, hge⟩ := hmissing
      obtain hlt | h := lt_or_overlooks_of_act_ok hconfigs hact
      · exact absurd (hlt a ha) (Nat.not_lt.mpr hge)
      · exact absurd h hlooks
    | error e t =>
      rw [hact] at hends
      cases e with
      | error e => exact ⟨e, t, rfl⟩
      | fault f => exact absurd hends.1 id
  · obtain ⟨a, hfind⟩ : ∃ a, s.axes.find? (fun a => Nat.ble s.register.length a) = some a := by
      obtain ⟨a, ha, hge⟩ := hmissing
      exact Option.isSome_iff_exists.mp (List.find?_isSome.mpr ⟨a, ha, Nat.ble_eq.mpr hge⟩)
    refine ⟨a, List.mem_of_find?_eq_some hfind, Nat.ble_eq.mp (List.find?_some hfind), ?_⟩
    intro u haxes hsites
    rw [← haxes, ← hsites] at hfind
    rw [← hsites]
    exact StateVector.act_gate_of_missing g hfind

/-- A gate declared diagonal under a control, on three values: with its target at an axis
that is no site it is applied, and with its control there it is refused. -/
theorem act_gate_at_missing_site_custom :
    let g : PlacedGate Float := ⟨.custom (.square 1 0 0 (-1)) true "D", [4], [2], [true]⟩
    let s : Session (List Nat) := ⟨[5, 1, 0], [1, 7], ⟨[("m", [5])]⟩, .ofWords #[]⟩
    let t : Session (List Nat) := ⟨[5, 1, 0], [7, 1], ⟨[("m", [5])]⟩, .ofWords #[]⟩
    g.configs.length = g.controls.length ∧ (∃ a ∈ s.axes, s.register.length ≤ a) ∧
      (∃ a ∈ t.axes, t.register.length ≤ a) ∧ act representation (.gate g) s = .ok () s ∧
      ∃ e u, act representation (.gate g) t = .error (.error e) u := by
  intro g s t
  have hs : ∃ a ∈ s.axes, s.register.length ≤ a := ⟨7, by decide, by decide⟩
  have ht : ∃ a ∈ t.axes, t.register.length ≤ a := ⟨7, by decide, by decide⟩
  have hover : Overlooks g s := ⟨rfl, rfl, rfl, by decide, by decide⟩
  have hlooks : ¬Overlooks g t := fun h => absurd (h.controls_lt 7 (by decide)) (by decide)
  exact ⟨rfl, hs, ht, (act_gate_at_missing_site g rfl s hs).1 hover,
    (act_gate_at_missing_site g rfl t ht).2.1 hlooks⟩

/-- **A gate may succeed at a site that does not exist**: a phase flip, given by its matrix,
on a register of one value at the axis `3`. A register of two amplitudes refuses it. -/
theorem phase_flip_at_missing_site :
    let g : PlacedGate ℝ := ⟨.ofMatrix (.square 1 0 0 (-1)) "D", [0], [], []⟩
    let s : Session (List Nat) := ⟨[0], [3], .empty, .ofWords #[]⟩
    let u : Session (State (Amplitude ℝ)) := ⟨.atPosition [2] 0, [3], .empty, .ofWords #[]⟩
    g.configs.length = g.controls.length ∧ act representation (.gate g) s = .ok () s ∧
      act StateVector.representation (.gate g) u = .error (.error (.axisOutOfRange 3 1)) u := by
  intro g s u
  have hdiagonal : g.gate.isDiagonal = true := by
    refine List.all_eq_true.mpr fun i _ => List.all_eq_true.mpr fun j _ => ?_
    rw [Bool.or_eq_true, beq_iff_eq, Amplitude.isZero_iff]
    fin_cases i <;> fin_cases j <;> simp [Mat.square]
  have hover : Overlooks g s := ⟨rfl, hdiagonal, rfl, by decide, by decide⟩
  exact ⟨rfl, act_of_overlooks rfl hover, StateVector.act_gate_of_missing g rfl⟩

end BasisState

end Qudit
