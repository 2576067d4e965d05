import Qudit.Proofs.Acting.BasisState
import Qudit.Proofs.Acting.Ending
import Qudit.Proofs.Acting.StateVector

/-!
# What the representations do by themselves

Nothing is asked of an operation here: it may name sites that do not exist,
name one twice, or come with a matrix of any shape, and the axes may be any
list. What is established is that the two steps of a representation check
what they rely on before they change anything.

On a register of amplitudes over sites of positive dimension a step is either
refused, with the session as it was, or the axes are sites of the register, each
once, and the step does what it does for operations that fit
(`StateVector.measureInto_ends`, `StateVector.native_ends`). On a register of
values a measurement is refused or changes the log only
(`BasisState.measureInto_ends`), and a gate is refused, or declined, or flips
the axes of its targets, and this is all that it can change
(`BasisState.native_ends`).
-/

namespace Qudit

open Radix Kernel Acting

variable {σ R : Type}

/-- **A measurement is recorded under a new key**, with a mask as long as the axes, if
what measuring gives is as long as they are; otherwise it ends as measuring does. -/
theorem measureInto_ends {rep : Representation σ R} {key : String} {mask : List Bool}
    {s : Session σ} {good : List Nat → Session σ → Prop} {bad : Failure R → Session σ → Prop}
    (hperform : Ends good bad (rep.perform s)) (hrefuse : ∀ e : Failure R, e.IsError → bad e s)
    (hbits : ∀ bits t, good bits t → bits.length = s.axes.length) :
    Ends (fun _ u => key ∉ s.log.keys ∧ mask.length = s.axes.length ∧ ∃ bits t, good bits t ∧
        u = { t with log := t.log.add key (List.zipWith invertBit bits mask) })
      bad (measureInto rep key mask s) := by
  unfold measureInto
  rw [EStateM.bind_ok (get_apply s)]
  refine .check (fun _ => hrefuse _ trivial) fun hkey => ?_
  rw [Log.contains_iff_mem_keys] at hkey
  beta_reduce
  rw [EStateM.bind_ok (axes_apply s)]
  refine .check (fun _ => hrefuse _ trivial) fun hmask => ?_
  refine hperform.bind fun bits t hgood => ?_
  have hlen : (applyMask bits mask : Except (ActError R) (List Nat))
      = .ok (List.zipWith invertBit bits mask) := by
    unfold applyMask
    rw [if_neg (not_not_intro ((hbits bits t hgood).trans (not_not.mp hmask).symm))]
  rw [hlen]
  exact ⟨hkey, not_not.mp hmask, bits, t, hgood, rfl⟩

/-! ## Amplitudes -/

namespace StateVector

variable {s : Session (State (Amplitude R))}

/-- **The axes that pass are sites of the register**, each once. -/
theorem checkedAxes_ends (s : Session (State (Amplitude R))) :
    Looks (fun as => as = s.axes ∧ (∀ a ∈ s.axes, a < s.register.dims.length) ∧ s.axes.Nodup) s
      (checkedAxes s) := by
  unfold checkedAxes
  rw [EStateM.bind_ok (get_apply s)]
  cases hfind : s.axes.find? fun axis => Nat.ble s.register.numSites axis with
  | some axis =>
    exact ⟨trivial, rfl⟩
  | none =>
    have hlt : ∀ a ∈ s.axes, a < s.register.dims.length := by
      intro a ha
      have := List.find?_eq_none.mp hfind a ha
      rwa [Nat.ble_eq, Nat.not_le] at this
    exact (checkDistinct_ends s.axes s).bind (fun _ he => ⟨he, rfl⟩) fun _ hnodup =>
      ⟨rfl, rfl, hlt, hnodup⟩

variable [Scalar R]

/-- **Measuring is refused or measures sites of the register**; only a measured
site of dimension zero has no outcome, once a word has been drawn. -/
theorem perform_ends (s : Session (State (Amplitude R))) :
    Ends (fun bits t => (∀ a ∈ s.axes, a < s.register.dims.length) ∧ s.axes.Nodup ∧
        bits = s.register.measured s.axes s.source.nextUnit.1 ∧
        t = { s with register := s.register.collapsed s.axes bits, source := s.source.next.2 })
      (fun e t =>
        e.IsError ∧ t = s ∨ 0 ∈ s.register.dims ∧ t = { s with source := s.source.next.2 })
      (perform s) := by
  unfold perform
  refine (checkedAxes_ends s).bind (fun _ he => .inl ⟨he, rfl⟩) ?_
  rintro _ ⟨rfl, hlt, hnodup⟩
  rw [onStateAndSource, State.measure_eq s.register hlt]
  by_cases hzero : 0 ∈ restrict s.register.dims s.axes
  · rw [if_pos hzero]
    exact .inr ⟨mem_of_mem_restrict hlt hzero, rfl⟩
  · rw [if_neg hzero]
    exact ⟨hlt, hnodup, rfl, rfl⟩

/-- **Where measured sites are recorded**, each has a value below its
dimension. -/
theorem measureInto_ends (hpos : ∀ d ∈ s.register.dims, 0 < d) (key : String)
    (mask : List Bool) :
    Ends (fun _ t => key ∉ s.log.keys ∧ mask.length = s.axes.length ∧
        (∀ a ∈ s.axes, a < s.register.dims.length) ∧ s.axes.Nodup ∧ ∃ bits,
        List.Forall₂ (fun site value => value < s.register.dims.getD site 0) s.axes bits ∧
        t = { s with
          register := s.register.collapsed s.axes bits
          source := s.source.next.2
          log := s.log.add key (List.zipWith invertBit bits mask) })
      (fun e t => e.IsError ∧ t = s) (measureInto representation key mask s) := by
  refine (Qudit.measureInto_ends (perform_ends s) (fun _ he => .inl ⟨he, rfl⟩) ?_).mono ?_
    fun _ _ h => h.resolve_right fun h0 => absurd (hpos 0 h0.1) (lt_irrefl 0)
  · rintro _ _ ⟨-, -, rfl, -⟩
    exact State.length_measured _ _ _
  · rintro _ _ ⟨hkey, hmask, _, _, ⟨hlt, hnodup, rfl, rfl⟩, rfl⟩
    exact ⟨hkey, hmask, hlt, hnodup, _, s.register.measured_lt hlt hpos _, rfl⟩

/-- **A placed gate is refused or applied by its matrix** to sites of the
register, if it has as many configurations as controls. -/
theorem native_ends {g : PlacedGate R} (hconfigs : g.configs.length = g.controls.length) :
    Ends (fun o t => o = .applied ∧ ∃ controls targets matrix state,
        s.axes = controls ++ targets ∧ targets.length = g.targets.length ∧
        Placement s.register.dims targets controls g.configs ∧
        g.gate.matrix ((restrict s.register.dims targets).headD 2) = .ok matrix ∧
        matrix.rows = total (restrict s.register.dims targets) ∧
        matrix.cols = total (restrict s.register.dims targets) ∧
        State.apply matrix targets controls g.configs s.register = .ok () state ∧
        state.dims = s.register.dims ∧ t = { s with register := state })
      (fun e t => e.IsError ∧ t = s) (native g s) := by
  by_cases hsites : (∀ a ∈ s.axes, a < s.register.dims.length) ∧ s.axes.Nodup ∧
      s.axes.length = g.controls.length + g.targets.length
  · obtain ⟨hlt, hnodup, hlen⟩ := hsites
    obtain ⟨controls, targets, haxes, hcontrols⟩ :
        ∃ controls targets, s.axes = controls ++ targets ∧ controls.length = g.controls.length :=
      ⟨_, _, (List.take_append_drop g.controls.length s.axes).symm, by simp; omega⟩
    have htargets : targets.length = g.targets.length := by
      rw [haxes, List.length_append] at hlen
      omega
    have hplacement : Placement s.register.dims targets controls g.configs :=
      ⟨fun t ht => hlt t (by simp [haxes, ht]), fun c hc => hlt c (by simp [haxes, hc]),
        haxes ▸ hnodup, hconfigs.trans hcontrols.symm⟩
    rw [native_of_sites haxes hcontrols htargets hlt hnodup]
    dsimp only
    cases hmatrix : g.gate.matrix ((restrict s.register.dims targets).headD 2) with
    | error e => exact ⟨trivial, rfl⟩
    | ok matrix =>
      refine .check (fun _ => ⟨trivial, rfl⟩) fun hsize => ?_
      obtain ⟨hrows, hcols⟩ := not_or.mp hsize
      rw [not_not] at hrows hcols
      obtain ⟨state, happly, hdims, -⟩ := State.apply_ok hplacement hrows hcols
      rw [EStateM.bind_ok (onState_ok happly)]
      exact ⟨rfl, controls, targets, matrix, state, haxes, htargets, hplacement, hmatrix, hrows,
        hcols, happly, hdims, rfl⟩
  · unfold native
    refine (checkedAxes_ends s).bind (fun _ he => ⟨he, rfl⟩) ?_
    rintro _ ⟨rfl, hlt, hnodup⟩
    exact .check (fun _ => ⟨trivial, rfl⟩) fun hlen => absurd ⟨hlt, hnodup, not_not.mp hlen⟩ hsites

/-- Applying a matrix keeps everything but amplitudes, however it ends. -/
theorem keeps_apply (matrix : Mat (Amplitude R)) (targets controls : List Nat)
    (configs : List Bool) : Keeps (fun s => (s.axes, s.log, s.source, s.register.dims))
      (onState (State.apply matrix targets controls configs)) := by
  intro s
  unfold onState State.apply State.inPlace
  beta_reduce
  cases Kernel.apply s.register.dims matrix targets controls configs s.register.amps with
  | ok a amps => rfl
  | error f amps => rfl

/-- **A placed gate keeps everything but amplitudes**, whatever it is. -/
theorem keeps_native (g : PlacedGate R) :
    Keeps (fun s => (s.axes, s.log, s.source, s.register.dims)) (native g) := by
  refine .bind (Looks.keeps checkedAxes_ends) fun as => .check ?_
  refine .bind (.orFault _) fun sites => .bind .get fun s => .bind (.orFault _) fun dims => ?_
  split
  · exact .refuse _
  · exact .check (.bind (keeps_apply _ _ _ _) fun _ => .pure _)

/-- **A placed gate keeps the dimensions and the log**, however it ends. -/
theorem native_keeps_log (g : PlacedGate R) (s : Session (State (Amplitude R))) :
    Ends (fun _ t => t.register.dims = s.register.dims ∧ t.log = s.log)
      (fun _ t => t.register.dims = s.register.dims ∧ t.log = s.log) (native g s) := by
  have hkeeps := Keeps.iff_ends.mp ((keeps_native g).map fun v => (v.2.2.2, v.2.1)) s
  exact hkeeps.mono (fun _ _ h => Prod.mk.inj h) fun _ _ h => Prod.mk.inj h

end StateVector

/-! ## Values -/

namespace BasisState

variable {s : Session (List Nat)}

/-- **The values with those at the listed sites exchanged** between zero and one. -/
def flippedAt (values sites : List Nat) : List Nat :=
  overwrite values sites ((restrict values sites).map (· ^^^ 1))

@[simp] theorem length_flippedAt (values sites : List Nat) :
    (flippedAt values sites).length = values.length :=
  length_overwrite _ _ _

theorem flippedAt_singleton (values : List Nat) (site : Nat) :
    flippedAt values [site] = values.set site (values.getD site 0 ^^^ 1) := rfl

theorem flippedAt_cons {site : Nat} {sites : List Nat} (h : site ∉ sites) (values : List Nat) :
    flippedAt values (site :: sites)
      = flippedAt (values.set site (values.getD site 0 ^^^ 1)) sites := by
  unfold flippedAt
  rw [restrict_set_of_notMem h]
  rfl

/-- **What a look at a value finds**: the axis is a site, and the value is its. -/
theorem valueAt_ends (axis : Nat) (s : Session (List Nat)) :
    Looks (fun value => axis < s.register.length ∧ value = s.register.getD axis 0) s
      ((valueAt axis : Valued R Nat) s) := by
  unfold valueAt
  rw [EStateM.bind_ok (get_apply s)]
  cases h : s.register[axis]? with
  | none =>
    exact ⟨trivial, rfl⟩
  | some value =>
    exact ⟨rfl, (List.getElem?_eq_some_iff.mp h).1, by rw [List.getD_eq_getElem?_getD, h]; rfl⟩

/-- Controls that come with a configuration each are all read. -/
theorem triggered_ends (axes : List Nat) (configs : List Bool) (s : Session (List Nat)) :
    Looks (fun fires => configs.length = axes.length → (∀ a ∈ axes, a < s.register.length) ∧
        fires = decide (restrict s.register axes = configs.map Bool.toNat)) s
      ((triggered (axes.zip configs) : Valued R Bool) s) := by
  induction axes generalizing configs with
  | nil =>
    refine ⟨rfl, fun hlen => ⟨fun a ha => absurd ha List.not_mem_nil, ?_⟩⟩
    rw [List.length_eq_zero_iff.mp hlen]
    rfl
  | cons a as ih =>
    obtain _ | ⟨config, configs⟩ := configs
    · exact ⟨rfl, fun hlen => nomatch hlen⟩
    refine (valueAt_ends a s).bind (fun _ he => ⟨he, rfl⟩) ?_
    rintro _ ⟨ha, rfl⟩
    refine Looks.bind (ih configs) (fun _ he => ⟨he, rfl⟩) fun others hothers => ?_
    refine ⟨rfl, fun hlen => ?_⟩
    obtain ⟨has, rfl⟩ := hothers (by simpa using hlen)
    exact ⟨List.forall_mem_cons.mpr ⟨ha, has⟩, by simp [Bool.decide_and, beq_eq_decide]⟩

/-- Sites that are found to hold zero or one exist, and do. -/
theorem holdQubits_ends (axes : List Nat) (s : Session (List Nat)) :
    Looks (fun holds => holds = true →
        ∀ a ∈ axes, a < s.register.length ∧ s.register.getD a 0 < 2) s
      ((holdQubits axes : Valued R Bool) s) := by
  induction axes with
  | nil => exact ⟨rfl, fun _ a ha => absurd ha (List.not_mem_nil)⟩
  | cons a as ih =>
    refine (valueAt_ends a s).bind (fun _ he => ⟨he, rfl⟩) ?_
    rintro _ ⟨ha, rfl⟩
    split_ifs with htwo
    · exact ⟨rfl, fun h => nomatch h⟩
    · exact ih.mono (fun _ _ ⟨ht, hrest⟩ => ⟨ht, fun h =>
        List.forall_mem_cons.mpr ⟨⟨ha, Nat.lt_of_not_le htwo⟩, hrest h⟩⟩) fun _ _ => id

/-- Flipping distinct sites that exist never fails. -/
theorem forM_flipAt_ok {axes : List Nat} (hnodup : axes.Nodup)
    (h : ∀ a ∈ axes, a < s.register.length) :
    (axes.forM flipAt : Valued R Unit) s
      = .ok () { s with register := flippedAt s.register axes } := by
  induction axes generalizing s with
  | nil => rfl
  | cons a as ih =>
    obtain ⟨ha, has⟩ := List.nodup_cons.mp hnodup
    have hrun := ih (s := { s with register := s.register.set a (s.register.getD a 0 ^^^ 1) }) has
      (by simpa using fun b hb => h b (by simp [hb]))
    rw [EStateM.forM_cons, EStateM.bind_ok (flipAt_ok (h a (by simp))), hrun, flippedAt_cons ha]

/-- **Measuring is refused or reads one value per axis.** -/
theorem perform_ends (s : Session (List Nat)) :
    Looks (fun bits => bits.length = s.axes.length) s ((perform : Valued R (List Nat)) s) := by
  unfold perform
  rw [EStateM.bind_ok (axes_apply s)]
  exact Looks.mapM fun a _ => (valueAt_ends a s).mono (fun _ _ h => ⟨h.1, trivial⟩) fun _ _ => id

/-- Where measured sites are recorded, each has a value. -/
theorem measureInto_ends (key : String) (mask : List Bool) (s : Session (List Nat)) :
    Ends (fun _ t => key ∉ s.log.keys ∧ mask.length = s.axes.length ∧
        ∃ bits, bits.length = s.axes.length ∧
        t = { s with log := s.log.add key (List.zipWith invertBit bits mask) })
      (fun e t => e.IsError ∧ t = s)
      (measureInto (representation : Representation (List Nat) R) key mask s) := by
  refine (Qudit.measureInto_ends (perform_ends s) (fun _ he => ⟨he, rfl⟩) fun _ _ h => h.2).mono
    ?_ fun _ _ => id
  rintro _ _ ⟨hkey, hmask, bits, _, ⟨rfl, hbits⟩, rfl⟩
  exact ⟨hkey, hmask, bits, hbits, rfl⟩

/-- **What holds of a gate that a register of values applies by itself**; `fires` tells
whether its controls hold their configuration. -/
structure Applies (g : PlacedGate R) (s : Session (List Nat)) (fires : Bool) : Prop where
  /-- There is one axis per qubit. -/
  length_eq : s.axes.length = g.controls.length + g.targets.length
  /-- No site is named twice. -/
  nodup : s.axes.Nodup
  /-- Controls that come with a configuration each exist, and have been compared. -/
  controls : g.configs.length = g.controls.length →
    (∀ a ∈ s.axes.take g.controls.length, a < s.register.length) ∧
      fires = decide (restrict s.register (s.axes.take g.controls.length)
        = g.configs.map Bool.toNat)
  /-- The targets of a named gate exist, and hold zero or one. -/
  targets : g.gate.isNamed = true → ∀ a ∈ s.axes.drop g.controls.length,
    a < s.register.length ∧ s.register.getD a 0 < 2

/-- **A placed gate is refused or declined, or flips the axes of its targets**, if it is
a bit flip and its controls hold their configuration; otherwise nothing changes. -/
theorem native_ends (g : PlacedGate R) (s : Session (List Nat)) :
    Ends (fun o t => (o = .notImplemented ∧ t = s) ∨
        o = .applied ∧ ∃ fires, Applies g s fires ∧ t = { s with
          register := if (fires && isFlip g.gate) = true
            then flippedAt s.register (s.axes.drop g.controls.length) else s.register })
      (fun e t => e.IsError ∧ t = s) (native g s) := by
  have hrefuse : ∀ e : Failure R, e.IsError → e.IsError ∧ s = s := fun _ he => ⟨he, rfl⟩
  unfold native
  by_cases hdeclined : (!isFlip g.gate && !g.gate.isDiagonal) = true
  · rw [if_pos hdeclined]
    exact .inl ⟨rfl, rfl⟩
  rw [if_neg hdeclined, EStateM.bind_ok (axes_apply s)]
  refine .check (fun _ => ⟨trivial, rfl⟩) fun hlen => ?_
  have hlen := not_not.mp hlen
  refine (checkDistinct_ends s.axes s).bind hrefuse fun _ hnodup => ?_
  rw [EStateM.bind_ok (orFault_ok (splitAfter_of_le (by omega)) s)]
  refine (triggered_ends _ _ s).bind hrefuse fun fires hfires => ?_
  beta_reduce
  have hcontrols : (s.axes.take g.controls.length).length = g.controls.length := by
    rw [List.length_take]
    omega
  have hfires := fun hconfigs : g.configs.length = g.controls.length =>
    hfires (hconfigs.trans hcontrols.symm)
  by_cases hnamed : g.gate.isNamed = true
  · rw [if_pos hnamed]
    refine (holdQubits_ends _ s).bind hrefuse fun holds hlt => ?_
    cases holds with
    | false => exact .inl ⟨rfl, rfl⟩
    | true =>
      have happlies : Applies g s fires := ⟨hlen, hnodup, hfires, fun _ => hlt rfl⟩
      have hrun := forM_flipAt_ok (R := R) (s := s)
        ((List.drop_sublist g.controls.length s.axes).nodup hnodup) fun a ha => (hlt rfl a ha).1
      by_cases hflips : (fires && isFlip g.gate) = true
      · rw [if_neg (by simp), if_pos hflips, EStateM.bind_ok hrun]
        exact .inr ⟨rfl, fires, happlies, by rw [if_pos hflips]⟩
      · rw [if_neg (by simp), if_neg hflips]
        exact .inr ⟨rfl, fires, happlies, by rw [if_neg hflips]⟩
  · -- a bit flip is named, so no value is changed
    have hflip : ¬(fires && isFlip g.gate) = true := by
      cases hg : g.gate with
      | x => exact absurd (by rw [hg]; rfl) hnamed
      | _ => simp [isFlip]
    rw [if_neg hnamed, if_neg hflip]
    exact .inr ⟨rfl, fires, ⟨hlen, hnodup, hfires, fun h => absurd h hnamed⟩, by rw [if_neg hflip]⟩

end BasisState

end Qudit
