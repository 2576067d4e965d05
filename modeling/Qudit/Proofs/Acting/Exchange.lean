import Qudit.Proofs.Acting.BasisState
import Qudit.Proofs.Acting.Primitive
import Qudit.Proofs.Acting.Transparency
import Qudit.Proofs.Exact.Rearranging

/-!
# An exchange of amplitudes and its parts

A register of amplitudes applies an exchange of two qubits by its matrix, under
all its controls at once. The three bit flips that an exchange stands for have
these controls in the middle only: where they do not hold, the flips before and
after still act, and have to cancel. In exact arithmetic both ways leave the
same session (`act_exchange_eq_parts`).

Bit flips and exchanges only rearrange amplitudes, so that each of them is
described by what it does to the digits of a basis state: `PlacedGate.flipped`
for a bit flip (`State.exists_apply_flip`), the digits of the targets in the
other order for an exchange (`State.exists_apply_exchange`). The comparison is
then one of digits, and that three flips exchange two of them is the same fact
that a register of plain values rests on (`PlacedGate.flipped_flipped_flipped`).
The targets have to be qubits, and the controls may be sites of any dimension.
-/

namespace Qudit

open Radix Kernel Acting

/-! ## On states -/

namespace PlacedGate

variable {R : Type} {dims : List Nat}

/-- Flipping a qubit keeps digits valid, whatever sites the controls are. -/
theorem valid_flipped_flip {t : Nat} (ht : dims.getD t 0 = 2) (controls : List Nat)
    (configs : List Bool) {values : List Nat} (h : Valid dims values) :
    Valid dims ((flip t controls configs : PlacedGate R).flipped values) := by
  have htlt : t < dims.length := by
    by_contra hnot
    rw [List.getD_eq_default _ _ (Nat.not_lt.mp hnot)] at ht
    cases ht
  have hlt := h.getD_lt htlt
  rw [ht] at hlt
  rw [flipped_flip]
  refine valid_set h ?_
  rw [ht]
  exact Nat.xor_lt_two_pow (n := 1) hlt (Bool.toNat_lt _)

end PlacedGate

variable {R : Type} [ExactScalar R]

namespace State

variable {s : State (Amplitude R)} {controls : List Nat} {configs : List Bool}

/-- **A bit flip rearranges the amplitudes**: each one comes from the digits
with the target flipped. -/
theorem exists_apply_flip {t : Nat} (h : Placement s.dims [t] controls configs)
    (htwo : s.dims.getD t 0 = 2) :
    ∃ u, State.apply (Gate.x : Gate R).qubitMatrix [t] controls configs s = .ok () u ∧
      Rearranged (.flip t controls configs : PlacedGate R).flipped s u := by
  have hdims : restrict s.dims [t] = [2] := by rw [restrict_cons, htwo, restrict_nil]
  refine exists_apply_rearranged h Gate.moves_x ?_ ?_ (List.map (· ^^^ 1)) ?_
  · rw [hdims]
    rfl
  · rw [hdims]
    rfl
  · rw [hdims]
    intro v hv
    obtain _ | ⟨hx, hnil⟩ := hv
    obtain ⟨⟩ := hnil
    rename_i x
    obtain rfl | rfl : x = 0 ∨ x = 1 := by omega
    · rfl
    · rfl

/-- **An exchange rearranges the amplitudes**: each one comes from the digits
with those of the targets in the other order. -/
theorem exists_apply_exchange {a b : Nat} (h : Placement s.dims [a, b] controls configs)
    (ha : s.dims.getD a 0 = 2) (hb : s.dims.getD b 0 = 2) :
    ∃ u, State.apply (Gate.swap : Gate R).qubitMatrix [a, b] controls configs s = .ok () u ∧
      Rearranged (fun v => if restrict v controls = configs.map Bool.toNat
        then overwrite v [a, b] (restrict v [a, b]).reverse else v) s u := by
  have hdims : restrict s.dims [a, b] = [2, 2] := by
    rw [restrict_cons, restrict_cons, ha, hb, restrict_nil]
  refine exists_apply_rearranged h Gate.moves_swap ?_ ?_ List.reverse ?_
  · rw [hdims]
    rfl
  · rw [hdims]
    rfl
  · rw [hdims]
    intro v hv
    obtain _ | ⟨hx, _ | ⟨hy, hnil⟩⟩ := hv
    obtain ⟨⟩ := hnil
    rename_i x y
    obtain rfl | rfl : x = 0 ∨ x = 1 := by omega
    all_goals obtain rfl | rfl : y = 0 ∨ y = 1 := by omega
    all_goals rfl

end State

/-! ## On sessions -/

/-- **A bit flip with its qubits on sites**: the sites that `m` gives them. -/
def PlacedGate.laidOn (m : Nat → Nat) (f : PlacedGate R) : PlacedGate R :=
  { f with
    targets := f.targets.map m
    controls := f.controls.map m }

namespace StateVector

/-- **A bit flip that can be applied** to a register of the dimensions `dims`,
with its qubits on the sites that `m` gives them. The target has to be a qubit,
the controls need not be. -/
structure FlipsOn (dims : List Nat) (m : Nat → Nat) (f : PlacedGate R) : Prop where
  /-- It is a bit flip. -/
  gate_eq : f.gate = .x
  /-- Of one qubit. -/
  exists_target : ∃ t, f.targets = [t] ∧ dims.getD (m t) 0 = 2
  /-- There is one configuration per control. -/
  length_configs : f.configs.length = f.controls.length
  /-- The sites exist. -/
  lt : ∀ q ∈ f.qubits, m q < dims.length
  /-- No site is named twice. -/
  nodup : (f.qubits.map m).Nodup

variable {dims : List Nat} {m : Nat → Nat} {f : PlacedGate R}

omit [ExactScalar R] in
theorem FlipsOn.exists_laidOn_eq (h : FlipsOn dims m f) :
    ∃ t, f.targets = [t] ∧ dims.getD (m t) 0 = 2 ∧
      f.laidOn m = .flip (m t) (f.controls.map m) f.configs := by
  obtain ⟨t, ht, htwo⟩ := h.exists_target
  refine ⟨t, ht, htwo, ?_⟩
  rw [PlacedGate.laidOn, h.gate_eq, ht]
  rfl

omit [ExactScalar R] in
/-- Flips keep digits valid, so that each of them looks up a basis state. -/
theorem valid_foldr_flipped {flips : List (PlacedGate R)} (hflips : ∀ f ∈ flips, FlipsOn dims m f)
    {values : List Nat} (hvalid : Valid dims values) :
    Valid dims (flips.foldr (fun f v => (f.laidOn m).flipped v) values) := by
  induction flips with
  | nil => exact hvalid
  | cons f fs ih =>
    obtain ⟨t, -, htwo, hlaid⟩ := (hflips f (by simp)).exists_laidOn_eq
    rw [List.foldr_cons, hlaid]
    exact PlacedGate.valid_flipped_flip htwo _ _ (ih fun e he => hflips e (by simp [he]))

variable {s : Session (State (Amplitude R))}

/-- **Acting with a bit flip rearranges the amplitudes**, and changes nothing
else. -/
theorem exists_act_flip (h : FlipsOn s.register.dims m f) (haxes : s.axes = f.qubits.map m) :
    ∃ u, act representation (.gate f) s = .ok () { s with register := u } ∧
      s.register.Rearranged (f.laidOn m).flipped u := by
  obtain ⟨t, ht, htwo, hlaid⟩ := h.exists_laidOn_eq
  have hqubits : f.qubits.map m = f.controls.map m ++ [m t] := by
    rw [PlacedGate.qubits, ht, List.map_append, List.map_singleton]
  have hlt : ∀ a ∈ s.axes, a < s.register.dims.length := by
    rw [haxes]
    exact List.forall_mem_map.mpr h.lt
  have hplacement : Placement s.register.dims [m t] (f.controls.map m) f.configs :=
    ⟨fun a ha => hlt a (haxes ▸ hqubits ▸ List.mem_append_right _ ha),
      fun c hc => hlt c (haxes ▸ hqubits ▸ List.mem_append_left _ hc), hqubits ▸ h.nodup,
      h.length_configs.trans (List.length_map _).symm⟩
  obtain ⟨u, happly, hu⟩ := State.exists_apply_flip hplacement htwo
  refine ⟨u, ?_, hlaid ▸ hu⟩
  have hdims : restrict s.register.dims [m t] = [2] := by
    rw [restrict_cons, htwo, restrict_nil]
  refine act_gate_of_applied (native_of_matrix (haxes.trans hqubits) (List.length_map _)
    (by rw [ht]; rfl) hlt (haxes ▸ h.nodup) ?_ ?_ ?_
    happly)
  · rw [hdims, h.gate_eq]
    rfl
  · rw [hdims]
    rfl
  · rw [hdims]
    rfl

/-- **Bit flips one after the other rearrange one after the other**, so that the
digits are flipped in the reverse order. -/
theorem exists_actEach_flips {flips : List (PlacedGate R)}
    (hflips : ∀ f ∈ flips, FlipsOn s.register.dims m f) :
    ∃ u axes, actEach representation m (flips.map .gate) s
        = .ok () { s with
            register := u
            axes := axes } ∧
      s.register.Rearranged (fun v => flips.foldr (fun f v => (f.laidOn m).flipped v) v) u := by
  induction flips generalizing s with
  | nil => exact ⟨s.register, s.axes, rfl, .refl _⟩
  | cons f fs ih =>
    have hfs : ∀ e ∈ fs, FlipsOn s.register.dims m e := fun e he => hflips e (by simp [he])
    obtain ⟨u, hact, hu⟩ := exists_act_flip (s := { s with axes := f.qubits.map m })
      (hflips f (by simp)) rfl
    obtain ⟨w, axes, hrest, hw⟩ := ih (s := { s with
      register := u
      axes := f.qubits.map m }) (hu.dims_eq ▸ hfs)
    refine ⟨w, axes, ?_, hu.trans hw fun _ hv => valid_foldr_flipped hfs hv⟩
    rw [List.map_cons, actEach_cons]
    exact (EStateM.bind_ok hact).trans hrest

/-- **Acting with an exchange rearranges the amplitudes**, and changes nothing
else. -/
theorem exists_act_exchange {g : PlacedGate R} (hswap : g.gate = .swap) {controls : List Nat}
    {a b : Nat} (haxes : s.axes = controls ++ [a, b])
    (hcontrols : controls.length = g.controls.length) (htargets : g.targets.length = 2)
    (hconfigs : g.configs.length = g.controls.length)
    (hlt : ∀ c ∈ s.axes, c < s.register.dims.length) (hnodup : s.axes.Nodup)
    (ha : s.register.dims.getD a 0 = 2) (hb : s.register.dims.getD b 0 = 2) :
    ∃ u, act representation (.gate g) s = .ok () { s with register := u } ∧
      s.register.Rearranged (fun v => if restrict v controls = g.configs.map Bool.toNat
        then overwrite v [a, b] (restrict v [a, b]).reverse else v) u := by
  have hplacement : Placement s.register.dims [a, b] controls g.configs :=
    ⟨fun t ht => hlt t (haxes ▸ List.mem_append_right _ ht),
      fun c hc => hlt c (haxes ▸ List.mem_append_left _ hc), haxes ▸ hnodup,
      hconfigs.trans hcontrols.symm⟩
  obtain ⟨u, happly, hu⟩ := State.exists_apply_exchange hplacement ha hb
  refine ⟨u, ?_, hu⟩
  have hdims : restrict s.register.dims [a, b] = [2, 2] := by
    rw [restrict_cons, restrict_cons, ha, hb, restrict_nil]
  refine act_gate_of_applied (native_of_matrix haxes hcontrols htargets.symm hlt hnodup
    ?_ ?_ ?_ happly)
  · rw [hdims, hswap]
    rfl
  · rw [hdims]
    rfl
  · rw [hdims]
    rfl

omit [ExactScalar R] in
/-- The bit flips of an exchange can be applied, if its targets lie on qubits. -/
theorem flipsOn_parts {controls : List Nat} {configs : List Bool} {a b : Nat}
    (hconfigs : configs.length = controls.length)
    (hlt : ∀ c ∈ controls.map m ++ [m a, m b], c < dims.length)
    (hnodup : (controls.map m ++ [m a, m b]).Nodup) (ha : dims.getD (m a) 0 = 2)
    (hb : dims.getD (m b) 0 = 2) {f : PlacedGate R}
    (hf : f ∈ [.flip a [b] [true], .flip b (controls ++ [a]) (configs ++ [true]),
      .flip a [b] [true]]) : FlipsOn dims m f := by
  have hne : m b ≠ m a := by
    have := (List.nodup_append.mp hnodup).2.1
    simpa [eq_comm] using this
  have houter : FlipsOn dims m (.flip a [b] [true] : PlacedGate R) := by
    refine ⟨rfl, ⟨a, rfl, ha⟩, rfl, fun q hq => hlt _ ?_,
      by simpa [PlacedGate.qubits, PlacedGate.flip] using hne⟩
    obtain rfl | rfl : q = b ∨ q = a := by simpa [PlacedGate.qubits, PlacedGate.flip] using hq
    all_goals simp
  have hmiddle : FlipsOn dims m
      (.flip b (controls ++ [a]) (configs ++ [true]) : PlacedGate R) := by
    refine ⟨rfl, ⟨b, rfl, hb⟩, by simp [PlacedGate.flip, hconfigs], fun q hq => hlt _ ?_,
      by simpa [PlacedGate.qubits, PlacedGate.flip] using hnodup⟩
    have hq : q ∈ controls ∨ q = a ∨ q = b := by
      simpa [PlacedGate.qubits, PlacedGate.flip] using hq
    obtain hq | rfl | rfl := hq
    · exact List.mem_append_left _ (List.mem_map_of_mem hq)
    · simp
    · simp
  simp only [List.mem_cons, List.not_mem_nil, or_false] at hf
  obtain rfl | rfl | rfl := hf
  · exact houter
  · exact hmiddle
  · exact houter

end StateVector

open StateVector

/-- **An exchange of two qubits and its parts leave the same session**, under
whatever controls and on whatever state. The register of amplitudes applies the
exchange by its matrix; taking it apart, or acting with its three bit flips one
after the other, each qubit on the axis that it has in the exchange, comes to the
same. Each amplitude is then the old one with the digits of the two targets
exchanged, where the controls hold their configuration, and the old one where
they do not. -/
theorem act_exchange_eq_parts {g : PlacedGate R} (hswap : g.gate = .swap)
    (htargets : g.targets.length = 2) (hconfigs : g.configs.length = g.controls.length)
    (hqubits : g.qubits.Nodup) {s : Session (State (Amplitude R))}
    (hsites : OnSites s (.gate g))
    (htwo : ∀ t ∈ s.axes.drop g.controls.length, s.register.dims.getD t 0 = 2) :
    ∃ parts t, (Operation.gate g).parts = some parts ∧ parts.length = 3 ∧
      act representation (.gate g) s = .ok () t ∧
      restoringAxes (actEach representation (axisAt g.qubits s.axes) parts) s = .ok () t ∧
      byParts representation (.gate g) s = .ok .applied t ∧
      s.register.Rearranged (fun v =>
        if restrict v (s.axes.take g.controls.length) = g.configs.map Bool.toNat
        then overwrite v (s.axes.drop g.controls.length)
          (restrict v (s.axes.drop g.controls.length)).reverse
        else v) t.register := by
  obtain ⟨a, b, hab⟩ := List.length_eq_two.mp htargets
  have hparts := PlacedGate.parts_of_swap hswap hab
  -- every qubit lies where `m` puts it
  obtain ⟨m, hm⟩ : ∃ m, m = axisAt g.qubits s.axes := ⟨_, rfl⟩
  have hlies : s.axes = g.qubits.map m := hm ▸ (map_axisAt hqubits hsites.length_eq).symm
  have haxes : s.axes = g.controls.map m ++ [m a, m b] := by
    rw [hlies, PlacedGate.qubits, hab, List.map_append]
    rfl
  have htake : s.axes.take g.controls.length = g.controls.map m := by
    rw [haxes, ← List.length_map m, List.take_left]
  have hdrop : s.axes.drop g.controls.length = [m a, m b] := by
    rw [haxes, ← List.length_map m, List.drop_left]
  rw [hdrop] at htwo
  rw [htake, hdrop, ← hm]
  have ha := htwo (m a) (by simp)
  have hb := htwo (m b) (by simp)
  have hlt : ∀ c ∈ g.controls.map m ++ [m a, m b], c < s.register.dims.length :=
    haxes ▸ hsites.lt
  have hnodup : (g.controls.map m ++ [m a, m b]).Nodup := haxes ▸ hsites.nodup
  obtain ⟨u, hact, hu⟩ := exists_act_exchange hswap haxes (List.length_map m) htargets hconfigs
    hsites.lt hsites.nodup ha hb
  obtain ⟨w, axes, hrun, hw⟩ := exists_actEach_flips fun f hf =>
    flipsOn_parts (R := R) hconfigs hlt hnodup ha hb hf
  -- both ways rearrange the amplitudes, and three flips exchange two digits
  obtain rfl : u = w := by
    refine hu.eq hw fun v hv => ?_
    obtain ⟨-, hne, hdisjoint⟩ := List.nodup_append.mp hnodup
    have hvalue : ∀ c ∈ [m a, m b], v.getD c 0 < 2 := fun c hc =>
      htwo c hc ▸ hv.getD_lt (hlt c (List.mem_append_right _ hc))
    rw [← PlacedGate.flipped_flipped_flipped (R := R)
      (show m a ≠ m b by simpa using hne) (fun h => hdisjoint (m a) h (m a) (by simp) rfl)
      (hv.length_eq ▸ hlt (m a) (by simp)) (hv.length_eq ▸ hlt (m b) (by simp))
      (hvalue (m a) (by simp)) (hvalue (m b) (by simp))]
    simp [PlacedGate.laidOn, PlacedGate.flip]
  have hrestored := restoringAxes_ok hrun
  refine ⟨_, _, congrArg (Option.map (List.map Operation.gate)) hparts, rfl, hact, hrestored,
    ?_, hu⟩
  have hsiteOf : ∀ q ∈ g.qubits, axisOf g.qubits s.axes q = some (m q) := fun q hq => by
    rw [hlies]
    exact axisOf_map m hq
  rw [byParts_of_parts hparts hsiteOf hsites.length_eq.symm hsites.nodup]
  exact EStateM.bind_ok hrestored

/-- An exchange of two qubits under a qutrit that has to hold zero, on axes in
another order than the sites, in a state with a different amplitude at every
position. -/
theorem act_exchange_eq_parts_qutrit :
    let g : PlacedGate ℝ := ⟨.swap, [7, 5], [4], [false]⟩
    let s : Session (State (Amplitude ℝ)) :=
      ⟨⟨[2, 3, 2], .ofFn fun i => .ofReal i.val⟩, [1, 2, 0], .empty, .ofWords #[]⟩
    g.gate = .swap ∧ g.targets.length = 2 ∧ g.configs.length = g.controls.length ∧
      g.qubits.Nodup ∧ OnSites s (.gate g) ∧
      (∀ t ∈ s.axes.drop g.controls.length, s.register.dims.getD t 0 = 2) ∧
      ∃ parts t, (Operation.gate g).parts = some parts ∧ parts.length = 3 ∧
        act representation (.gate g) s = .ok () t ∧
        restoringAxes (actEach representation (axisAt g.qubits s.axes) parts) s = .ok () t ∧
        byParts representation (.gate g) s = .ok .applied t ∧
        s.register.Rearranged (fun v =>
          if restrict v [1] = [0] then overwrite v [2, 0] (restrict v [2, 0]).reverse else v)
          t.register := by
  intro g s
  have hsites : OnSites s (.gate g) :=
    ⟨show ∀ a ∈ [1, 2, 0], a < 3 by decide, show [1, 2, 0].Nodup by decide, rfl⟩
  have htwo : ∀ t ∈ s.axes.drop g.controls.length, s.register.dims.getD t 0 = 2 := by
    show ∀ t ∈ [2, 0], [2, 3, 2].getD t 0 = 2
    decide
  have hqubits : g.qubits.Nodup := by
    show [4, 7, 5].Nodup
    decide
  exact ⟨rfl, rfl, rfl, hqubits, hsites, htwo,
    @act_exchange_eq_parts ℝ .real g rfl rfl rfl hqubits s hsites htwo⟩

end Qudit
