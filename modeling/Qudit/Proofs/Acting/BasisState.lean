import Qudit.Acting.BasisState
import Qudit.Proofs.Acting.Sequence
import Qudit.Proofs.Gate.Columns

/-!
# Acting on values with operations that fit

On a register of plain values an operation that fits reads and writes sites
that exist. Measuring reads the values at the axes (`perform_ok`). Of the
gates only bit flips and those declared diagonal are applied, and an exchange
is taken apart into three bit flips; every other gate is refused.

Where a gate is acted with, its values are either kept or replaced at the
targets, as the controls say, by values to which the matrix of the gate takes
them (`act_gate_eq_ok`). That matrix is not looked at by anything here: it is
what links this register to one of amplitudes.
-/

namespace Qudit

open Radix Acting

variable {R : Type}

namespace BasisState

variable {s : Session (List Nat)} {dims : List Nat}

/-! ## Reading and writing values -/

theorem valueAt_ok {axis : Nat} (h : axis < s.register.length) :
    (valueAt axis : Valued R Nat) s = .ok (s.register.getD axis 0) s := by
  unfold valueAt
  rw [EStateM.bind_ok (get_apply s)]
  simp only [List.getElem?_eq_getElem h, List.getD_eq_getElem _ _ h]
  rfl

theorem flipAt_ok {axis : Nat} (h : axis < s.register.length) :
    (flipAt axis : Valued R Unit) s
      = .ok () { s with register := s.register.set axis (s.register.getD axis 0 ^^^ 1) } := by
  have hmodify : s.register.modify axis (fun v => v ^^^ 1)
      = s.register.set axis (s.register.getD axis 0 ^^^ 1) := by
    rw [List.modify_eq_set, List.getD_eq_getElem?_getD]
    rfl
  unfold flipAt
  rw [EStateM.bind_ok (get_apply s)]
  simp only [if_pos h]
  rw [← hmodify]
  rfl

theorem triggered_ok {axes : List Nat} {configs : List Bool}
    (hlt : ∀ a ∈ axes, a < s.register.length) (hlen : configs.length = axes.length) :
    (triggered (axes.zip configs) : Valued R Bool) s
      = .ok (decide (restrict s.register axes = configs.map Bool.toNat)) s := by
  induction axes generalizing configs with
  | nil =>
    rw [List.length_eq_zero_iff.mp hlen]
    rfl
  | cons a as ih =>
    obtain _ | ⟨config, configs⟩ := configs
    · simp at hlen
    have ih := ih (fun b hb => hlt b (by simp [hb])) (by simpa using hlen)
    rw [List.zip_cons_cons, triggered, EStateM.bind_ok (valueAt_ok (hlt a (by simp))),
      EStateM.bind_ok ih]
    simp [EStateM.pure_apply, Bool.decide_and, beq_eq_decide]

theorem holdQubits_ok {axes : List Nat} (hlt : ∀ a ∈ axes, a < s.register.length)
    (htwo : ∀ a ∈ axes, s.register.getD a 0 < 2) :
    (holdQubits axes : Valued R Bool) s = .ok true s := by
  induction axes with
  | nil => rfl
  | cons a as ih =>
    rw [holdQubits, EStateM.bind_ok (valueAt_ok (hlt a (by simp))),
      if_neg (Nat.not_le.mpr (htwo a (by simp)))]
    exact ih (fun b hb => hlt b (by simp [hb])) fun b hb => htwo b (by simp [hb])

/-- **Measuring axes that exist reads their values.** -/
theorem perform_ok (hlt : ∀ a ∈ s.axes, a < s.register.length) :
    (perform : Valued R (List Nat)) s = .ok (restrict s.register s.axes) s := by
  unfold perform
  rw [EStateM.bind_ok (axes_apply s)]
  exact EStateM.mapM_ok fun a ha => valueAt_ok (hlt a ha)

/-! ## Single gates -/

variable {g : PlacedGate R}

/-- A gate that is no bit flip and is not declared diagonal is declined. -/
theorem native_declined (hflip : isFlip g.gate = false) (hdiagonal : g.gate.isDiagonal = false)
    (s : Session (List Nat)) : native g s = .ok .notImplemented s := by
  unfold native
  rw [hflip, hdiagonal]
  rfl

/-- A bit flip, or a gate that is declared diagonal, is applied at distinct axes if those of
the controls exist, and where it is named, those of the targets too and hold zero or one. -/
theorem native_of_sites (hlen : s.axes.length = g.controls.length + g.targets.length)
    (hconfigs : g.configs.length = g.controls.length)
    (hlt : ∀ a ∈ s.axes.take g.controls.length, a < s.register.length) (hnodup : s.axes.Nodup)
    (hbits : g.gate.isNamed = true → ∀ a ∈ s.axes.drop g.controls.length,
      a < s.register.length ∧ s.register.getD a 0 < 2)
    (h : isFlip g.gate = true ∨ g.gate.isDiagonal = true) :
    native g s = (do
      if decide (restrict s.register (s.axes.take g.controls.length)
          = g.configs.map Bool.toNat) && isFlip g.gate then
        (s.axes.drop g.controls.length).forM flipAt
      return .applied : Valued R Outcome) s := by
  have hle : g.controls.length ≤ s.axes.length := by omega
  have hsplit := splitAfter_of_le hle
  have htriggered : (triggered ((s.axes.take g.controls.length).zip g.configs) : Valued R Bool) s
      = .ok (decide (restrict s.register (s.axes.take g.controls.length)
          = g.configs.map Bool.toNat)) s :=
    triggered_ok hlt (by rw [hconfigs, List.length_take]; omega)
  -- the gate passes every check, and the targets of a named one hold zero or one
  have hdeclined : (!isFlip g.gate && !g.gate.isDiagonal) = false := by
    obtain h | h := h <;> simp [h]
  unfold native
  rw [hdeclined, if_neg Bool.false_ne_true, EStateM.bind_ok (axes_apply s),
    if_neg (not_not_intro hlen)]
  beta_reduce
  rw [EStateM.bind_ok (checkDistinct_ok hnodup s), EStateM.bind_ok (orFault_ok hsplit s)]
  refine (EStateM.bind_ok htriggered).trans ?_
  cases hnamed : g.gate.isNamed with
  | false => rfl
  | true =>
    have hholds : (holdQubits (s.axes.drop g.controls.length) : Valued R Bool) s = .ok true s :=
      holdQubits_ok (fun a ha => (hbits hnamed a ha).1) fun a ha => (hbits hnamed a ha).2
    rw [if_pos rfl, EStateM.bind_ok hholds]
    rfl

variable [Scalar R]

/-- A bit flip, or a gate that is declared diagonal, is applied at its own qubits if it
fits. -/
theorem native_ok (hfits : g.Fits dims) (hvalid : Valid dims s.register) (haxes : s.axes = g.qubits)
    (h : isFlip g.gate = true ∨ g.gate.isDiagonal = true) :
    native g s = (do
      if decide (restrict s.register g.controls = g.configs.map Bool.toNat) && isFlip g.gate then
        g.targets.forM flipAt
      return .applied : Valued R Outcome) s := by
  have htake : s.axes.take g.controls.length = g.controls := by rw [haxes]; exact List.take_left
  have hdrop : s.axes.drop g.controls.length = g.targets := by rw [haxes]; exact List.drop_left
  rw [native_of_sites (by rw [haxes]; exact List.length_append) hfits.length_configs ?_
    (haxes ▸ hfits.nodup) ?_ h, htake, hdrop]
  · rw [htake, hvalid.length_eq]
    exact hfits.controls_lt
  · rw [hdrop]
    intro hnamed t ht
    have := hvalid.getD_lt (hfits.targets_lt t ht)
    rw [hfits.targets_two hnamed t ht] at this
    exact ⟨hvalid.length_eq ▸ hfits.targets_lt t ht, this⟩

end BasisState

/-! ## Bit flips and exchanges -/

variable [Scalar R] {dims : List Nat} {g : PlacedGate R}

namespace PlacedGate

/-- **The values with the targets flipped**, if the controls hold their
configuration. -/
def flipped (g : PlacedGate R) (values : List Nat) : List Nat :=
  if restrict values g.controls = g.configs.map Bool.toNat then
    overwrite values g.targets ((restrict values g.targets).map (· ^^^ 1))
  else values

/-- The targets of a named gate are as many qubits as its matrix asks for. -/
theorem Fits.rows_of_named (h : g.Fits dims) (hnamed : g.gate.isNamed = true) :
    restrict dims g.targets = List.replicate g.targets.length 2 ∧
      g.gate.qubitMatrix.rows = 2 ^ g.targets.length := by
  have hdims : restrict dims g.targets = List.replicate g.targets.length 2 := by
    refine List.eq_replicate_iff.mpr ⟨length_restrict _ _, fun d hd => ?_⟩
    obtain ⟨t, ht, rfl⟩ := List.mem_map.mp hd
    exact h.targets_two hnamed t ht
  exact ⟨hdims, by rw [h.rows_eq, hdims, total_replicate]⟩

theorem Fits.exists_target_of_x (h : g.Fits dims) (hx : g.gate = .x) : ∃ t, g.targets = [t] := by
  obtain ⟨-, hrows⟩ := h.rows_of_named (by rw [hx]; rfl)
  rw [hx] at hrows
  have hone : 2 ^ 1 = 2 ^ g.targets.length := hrows
  exact List.length_eq_one_iff.mp (Nat.pow_right_injective le_rfl hone).symm

theorem Fits.exists_targets_of_swap (h : g.Fits dims) (hswap : g.gate = .swap) :
    ∃ a b, g.targets = [a, b] := by
  obtain ⟨-, hrows⟩ := h.rows_of_named (by rw [hswap]; rfl)
  rw [hswap] at hrows
  have htwo : 2 ^ 2 = 2 ^ g.targets.length := hrows
  exact List.length_eq_two.mp (Nat.pow_right_injective le_rfl htwo).symm

/-- The matrix of a bit flip takes the value at its target to the other
one. -/
theorem Fits.carries_flip (hfits : g.Fits dims) (hx : g.gate = .x) {values : List Nat}
    (hvalid : Valid dims values) :
    Valid (restrict dims g.targets) ((restrict values g.targets).map (· ^^^ 1)) ∧
      g.gate.qubitMatrix.Carries (index (restrict values g.targets) (restrict dims g.targets))
        (index ((restrict values g.targets).map (· ^^^ 1)) (restrict dims g.targets)) := by
  have hold := valid_restrict hvalid hfits.targets_lt
  obtain ⟨t, ht⟩ := hfits.exists_target_of_x hx
  have htwo : restrict dims g.targets = [2] := by
    rw [(hfits.rows_of_named (by rw [hx]; rfl)).1, ht]
    rfl
  rw [htwo, ht] at hold
  have hlt : values.getD t 0 < 2 := (List.forall₂_cons.mp hold).1
  rw [htwo, ht, hx]
  refine ⟨.cons (Nat.xor_lt_two_pow (n := 1) hlt (by decide)) .nil, ?_⟩
  simpa [index] using Gate.carries_x hlt

/-- The matrix of an exchange takes the values at its targets to the same
values in the other order. -/
theorem Fits.carries_exchange (hfits : g.Fits dims) (hswap : g.gate = .swap) {values : List Nat}
    (hvalid : Valid dims values) :
    Valid (restrict dims g.targets) (restrict values g.targets).reverse ∧
      g.gate.qubitMatrix.Carries (index (restrict values g.targets) (restrict dims g.targets))
        (index (restrict values g.targets).reverse (restrict dims g.targets)) := by
  have hold := valid_restrict hvalid hfits.targets_lt
  obtain ⟨a, b, ht⟩ := hfits.exists_targets_of_swap hswap
  have htwo : restrict dims g.targets = [2, 2] := by
    rw [(hfits.rows_of_named (by rw [hswap]; rfl)).1, ht]
    rfl
  rw [htwo, ht] at hold
  obtain ⟨ha, hold⟩ := List.forall₂_cons.mp hold
  have hb : values.getD b 0 < 2 := (List.forall₂_cons.mp hold).1
  rw [htwo, ht, hswap]
  refine ⟨.cons hb (.cons ha .nil), ?_⟩
  simpa [index] using Gate.carries_swap ha hb

/-- Flipping a qubit leaves every site with a value that it can hold. -/
theorem valid_flipped (hfits : g.Fits dims) (hx : g.gate = .x) {values : List Nat}
    (hvalid : Valid dims values) : Valid dims (g.flipped values) := by
  unfold flipped
  split_ifs
  · exact valid_overwrite hvalid (hfits.carries_flip hx hvalid).1
  · exact hvalid

omit [Scalar R] in
/-- A bit flip under controls adds their verdict to its target. -/
theorem flipped_flip (t : Nat) (controls : List Nat) (configs : List Bool) (values : List Nat) :
    (flip t controls configs : PlacedGate R).flipped values = values.set t (values.getD t 0
      ^^^ (decide (restrict values controls = configs.map Bool.toNat)).toNat) := by
  unfold flipped
  rw [flip]
  by_cases hc : restrict values controls = configs.map Bool.toNat
  · rw [if_pos hc, decide_eq_true hc]
    rfl
  · rw [if_neg hc, decide_eq_false hc, Bool.toNat_false, Nat.xor_zero]
    exact (overwrite_restrict values [t]).symm

omit [Scalar R] in
/-- **Three bit flips exchange two qubits**, if the controls of the one in
the middle hold their configuration, and otherwise undo each other. -/
theorem flipped_flipped_flipped {values controls : List Nat} {configs : List Bool} {a b : Nat}
    (hab : a ≠ b) (ha : a ∉ controls) (halt : a < values.length) (hblt : b < values.length)
    (ha2 : values.getD a 0 < 2) (hb2 : values.getD b 0 < 2) :
    (flip a [b] [true] : PlacedGate R).flipped
        ((flip b (controls ++ [a]) (configs ++ [true]) : PlacedGate R).flipped
          ((flip a [b] [true] : PlacedGate R).flipped values))
      = if restrict values controls = configs.map Bool.toNat
        then overwrite values [a, b] (restrict values [a, b]).reverse else values := by
  obtain ⟨x, hx⟩ : ∃ x, values.getD a 0 = x := ⟨_, rfl⟩
  obtain ⟨y, hy⟩ : ∃ y, values.getD b 0 = y := ⟨_, rfl⟩
  rw [hx] at ha2
  rw [hy] at hb2
  have hread : restrict values [a, b] = [x, y] := by
    rw [restrict_cons, restrict_cons, restrict_nil, hx, hy]
  have hbit : ∀ v < 2, (decide ([v] = [true].map Bool.toNat)).toNat = v := by decide
  -- the first flip adds the second qubit to the first
  have hfirst : (flip a [b] [true] : PlacedGate R).flipped values = values.set a (x ^^^ y) := by
    rw [flipped_flip, hx, restrict_cons, restrict_nil, hy, hbit y hb2]
  -- the second adds the sum to the second qubit, if the controls hold
  have hsecond : (flip b (controls ++ [a]) (configs ++ [true]) : PlacedGate R).flipped
        (values.set a (x ^^^ y))
      = (values.set a (x ^^^ y)).set b (if restrict values controls = configs.map Bool.toNat
        then x else y) := by
    have hcontrols : restrict (values.set a (x ^^^ y)) (controls ++ [a])
        = restrict values controls ++ [x ^^^ y] := by
      rw [restrict, List.map_append, ← restrict, restrict_set_of_notMem ha, List.map_singleton,
        getD_set, if_pos ⟨rfl, halt⟩]
    have hverdict : (restrict values controls ++ [x ^^^ y] = (configs ++ [true]).map Bool.toNat)
        ↔ restrict values controls = configs.map Bool.toNat ∧ x ^^^ y = 1 := by
      simp
    rw [flipped_flip, hcontrols, getD_set, if_neg fun h => hab h.1, hy]
    simp only [hverdict]
    congr 1
    by_cases hc : restrict values controls = configs.map Bool.toNat
    · simp only [hc, true_and, if_true]
      obtain rfl | rfl : x = 0 ∨ x = 1 := by omega
      all_goals obtain rfl | rfl : y = 0 ∨ y = 1 := by omega
      all_goals rfl
    · simp [hc]
  -- the third adds the new second qubit to the sum
  rw [hfirst, hsecond, hread]
  obtain ⟨z, hz⟩ : ∃ z, (if restrict values controls = configs.map Bool.toNat then x else y) = z :=
    ⟨_, rfl⟩
  have hz2 : z < 2 := by
    rw [← hz]
    split_ifs <;> assumption
  have hthird : (flip a [b] [true] : PlacedGate R).flipped ((values.set a (x ^^^ y)).set b z)
      = (values.set a (x ^^^ y ^^^ z)).set b z := by
    rw [flipped_flip, restrict_cons, restrict_nil, getD_set, getD_set, getD_set,
      if_neg fun h => hab h.1.symm, if_pos ⟨rfl, halt⟩,
      if_pos ⟨rfl, (List.length_set ..).symm ▸ hblt⟩, hbit z hz2, List.set_comm _ _ hab.symm,
      List.set_set]
  rw [hz, hthird]
  split_ifs at hz ⊢
  · rw [← hz, Nat.xor_comm x y, Nat.xor_assoc, Nat.xor_self, Nat.xor_zero]
    rfl
  · rw [← hz, Nat.xor_assoc, Nat.xor_self, Nat.xor_zero]
    refine Eq.trans ?_ (overwrite_restrict values [a, b])
    rw [hread]
    rfl

/-- **The parts of an exchange** are bit flips that fit, and together they
exchange its targets. -/
theorem Fits.exists_parts_of_swap (hfits : g.Fits dims) (hswap : g.gate = .swap) :
    ∃ flips, g.parts = some flips ∧ (∀ f ∈ flips, f.Fits dims ∧ f.gate = .x) ∧
      ∀ {values}, Valid dims values → flips.foldl (fun values f => f.flipped values) values
        = if restrict values g.controls = g.configs.map Bool.toNat
          then overwrite values g.targets (restrict values g.targets).reverse else values := by
  obtain ⟨a, b, ht⟩ := hfits.exists_targets_of_swap hswap
  -- all sites are qubits, and the targets differ from the controls and from each other
  have hqubits : g.qubits = g.controls ++ [a] ++ [b] := by
    rw [qubits, ht, List.append_assoc, List.singleton_append]
  have hnodup : (g.controls ++ [a] ++ [b]).Nodup := hqubits ▸ hfits.nodup
  have hlt : ∀ q ∈ g.controls ++ [a] ++ [b], q < dims.length := hqubits ▸ hfits.qubits_lt
  have htwo : ∀ q ∈ g.controls ++ [a] ++ [b], dims.getD q 0 = 2 :=
    hqubits ▸ hfits.qubits_two (by rw [hswap]; rfl)
  have hab : a ≠ b := (List.nodup_append.mp hnodup).2.2 a (by simp) b (by simp)
  have ha : a ∉ g.controls := fun ha =>
    (List.nodup_append.mp (List.nodup_append.mp hnodup).1).2.2 a ha a (by simp) rfl
  have hparts := parts_of_swap hswap ht
  refine ⟨_, hparts, fun f hf => ⟨hfits.of_mem_parts hparts hf, (mem_parts hparts hf).1⟩,
    fun hvalid => ?_⟩
  have hvalue : ∀ q ∈ g.controls ++ [a] ++ [b], _ < 2 :=
    fun q hq => htwo q hq ▸ hvalid.getD_lt (hlt q hq)
  rw [ht]
  exact flipped_flipped_flipped hab ha (hvalid.length_eq ▸ hlt a (by simp))
    (hvalid.length_eq ▸ hlt b (by simp)) (hvalue a (by simp)) (hvalue b (by simp))

end PlacedGate

namespace BasisState

variable {s : Session (List Nat)}

/-- **Acting with a bit flip flips its target**, if the controls hold their
configuration. -/
theorem act_flip (hfits : g.Fits dims) (hx : g.gate = .x) (hvalid : Valid dims s.register)
    (haxes : s.axes = g.qubits) :
    act representation (.gate g) s = .ok () { s with register := g.flipped s.register } := by
  obtain ⟨t, ht⟩ := hfits.exists_target_of_x hx
  have htlt : t < s.register.length := hvalid.length_eq ▸ hfits.targets_lt t (by simp [ht])
  refine act_gate_of_applied ((native_ok hfits hvalid haxes (.inl (by rw [hx]; rfl))).trans ?_)
  have hflip : isFlip g.gate = true := by rw [hx]; rfl
  rw [hflip, Bool.and_true, PlacedGate.flipped, ht]
  by_cases hc : restrict s.register g.controls = g.configs.map Bool.toNat
  · rw [if_pos (decide_eq_true hc), if_pos hc, EStateM.forM_cons]
    exact EStateM.bind_ok (EStateM.bind_ok (flipAt_ok htlt))
  · rw [if_neg (by simpa using hc), if_neg hc]
    rfl

/-- Acting with bit flips one after the other flips one after the other. -/
theorem actEach_flips {flips : List (PlacedGate R)}
    (hflips : ∀ f ∈ flips, f.Fits dims ∧ f.gate = .x) (hvalid : Valid dims s.register) :
    ∃ axes, actEach representation id (flips.map .gate) s = .ok () { s with
      register := flips.foldl (fun values f => f.flipped values) s.register
      axes := axes } := by
  induction flips generalizing s with
  | nil => exact ⟨s.axes, rfl⟩
  | cons f fs ih =>
    obtain ⟨hfits, hx⟩ := hflips f (by simp)
    have hact := act_flip (s := { s with axes := f.qubits.map id }) hfits hx hvalid (List.map_id _)
    obtain ⟨axes, hrest⟩ := ih (s := { s with
        register := f.flipped s.register
        axes := f.qubits.map id }) (fun e he => hflips e (by simp [he]))
      (PlacedGate.valid_flipped hfits hx hvalid)
    refine ⟨axes, ?_⟩
    rw [List.map_cons, actEach_cons]
    exact (EStateM.bind_ok hact).trans hrest

/-- **Acting with an exchange exchanges its targets**, if the controls hold
their configuration. -/
theorem act_exchange (hfits : g.Fits dims) (hswap : g.gate = .swap)
    (hvalid : Valid dims s.register) (haxes : s.axes = g.qubits) :
    act representation (.gate g) s = .ok () { s with
      register := if restrict s.register g.controls = g.configs.map Bool.toNat
        then overwrite s.register g.targets (restrict s.register g.targets).reverse
        else s.register } := by
  obtain ⟨flips, hparts, hflips, heffect⟩ := hfits.exists_parts_of_swap hswap
  have hdeclined : native g s = .ok .notImplemented s :=
    native_declined (by rw [hswap]; rfl) (by rw [hswap]; rfl) s
  -- the flips one after the other, with the axes put back at the end
  obtain ⟨axes, hrun⟩ := actEach_flips hflips hvalid
  have hlies : ∀ q ∈ g.qubits, axisOf g.qubits s.axes q = some (id q) := by
    intro q hq
    rw [haxes]
    simpa using axisOf_map id hq
  rw [act_gate_of_parts hdeclined hparts hlies (congrArg List.length haxes).symm
    (haxes ▸ hfits.nodup), restoringAxes_ok hrun, ← heffect hvalid]

/-- A gate that is declared diagonal keeps the values. -/
theorem act_diagonal (hfits : g.Fits dims) (hdiagonal : g.gate.isDiagonal = true)
    (hvalid : Valid dims s.register) (haxes : s.axes = g.qubits) :
    act representation (.gate g) s = .ok () s := by
  have hflip : isFlip g.gate = false := by
    cases hg : g.gate with
    | x => rw [hg] at hdiagonal; cases hdiagonal
    | _ => rfl
  refine act_gate_of_applied ((native_ok hfits hvalid haxes (.inr hdiagonal)).trans ?_)
  rw [hflip, Bool.and_false, if_neg Bool.false_ne_true]
  rfl

omit [Scalar R] in
/-- Every other gate is refused. -/
theorem act_unsupported (hx : g.gate ≠ .x) (hswap : g.gate ≠ .swap)
    (hdiagonal : g.gate.isDiagonal = false) (s : Session (List Nat)) :
    act representation (.gate g) s = .error (.error (.cannotActOn (.gate g))) s := by
  have hflip : isFlip g.gate = false := by
    cases hg : g.gate with
    | x => exact absurd hg hx
    | _ => rfl
  have hparts : g.parts = none := by
    unfold PlacedGate.parts
    split
    · rename_i hg _
      exact absurd hg hswap
    · rfl
  exact act_gate_of_no_parts (native_declined hflip hdiagonal s) hparts

/-- **Where a gate is acted with, its matrix takes the old values at the
targets to the new ones**, if the controls hold their configuration, and
nothing changes if they do not. -/
theorem act_gate_eq_ok {g : PlacedGate ℝ} {P : Mat (Amplitude ℝ) → Prop} (hfits : g.Fits dims)
    (hbuilt : g.gate.BuiltFrom P) (hvalid : Valid dims s.register) (haxes : s.axes = g.qubits)
    {s' : Session (List Nat)} (h : act representation (.gate g) s = .ok () s') :
    ∃ levels, Valid (restrict dims g.targets) levels ∧
      g.gate.qubitMatrix.Carries (index (restrict s.register g.targets) (restrict dims g.targets))
        (index levels (restrict dims g.targets)) ∧
      s' = { s with register := if restrict s.register g.controls = g.configs.map Bool.toNat
        then overwrite s.register g.targets levels else s.register } := by
  by_cases hdiagonal : g.gate.isDiagonal = true
  · rw [act_diagonal hfits hdiagonal hvalid haxes] at h
    obtain ⟨⟩ := h
    refine ⟨_, valid_restrict hvalid hfits.targets_lt,
      Gate.carries_of_isDiagonal hbuilt hdiagonal _, ?_⟩
    rw [overwrite_restrict, ite_self]
  · by_cases hx : g.gate = .x
    · rw [act_flip hfits hx hvalid haxes] at h
      obtain ⟨⟩ := h
      obtain ⟨hlevels, hcarries⟩ := hfits.carries_flip hx hvalid
      exact ⟨_, hlevels, hcarries, rfl⟩
    · by_cases hswap : g.gate = .swap
      · rw [act_exchange hfits hswap hvalid haxes] at h
        obtain ⟨⟩ := h
        obtain ⟨hlevels, hcarries⟩ := hfits.carries_exchange hswap hvalid
        exact ⟨_, hlevels, hcarries, rfl⟩
      · rw [act_unsupported hx hswap (Bool.eq_false_iff.mpr hdiagonal)] at h
        cases h

end BasisState

end Qudit
