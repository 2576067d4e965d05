import Qudit.Proofs.Acting.OwnSteps

/-!
# Gates and measurements do all or nothing

On a register of amplitudes, an operation that is not a composite is either
applied or refused, and a refusal leaves the whole session as it was: the
amplitudes, the log, the axes, and the random source, from which nothing has
been drawn (`act_all_or_nothing`). Which of the two it is can be told before
acting, from what is asked of the axes, the log and the matrix
(`StateVector.Accepts`).

Nothing of this holds of composites, which stop at the first part that is
refused and keep what came before it.
-/

namespace Qudit

open Radix Kernel Acting

variable {R : Type} [Scalar R]

omit [Scalar R] in
/-- **A gate or a measurement**, the gate with a configuration for each of its
controls. -/
inductive Operation.IsPrimitive : Operation R → Prop where
  /-- A placed gate. -/
  | gate {g : PlacedGate R} (configs : g.configs.length = g.controls.length) :
    IsPrimitive (.gate g)
  /-- A measurement. -/
  | measure (m : Measurement) : IsPrimitive (.measure m)

namespace StateVector

omit [Scalar R] in
/-- **The axes are sites of the register**, each once, and as many as the
operation has qubits. -/
structure OnSites (s : Session (State (Amplitude R))) (op : Operation R) : Prop where
  /-- The axes exist. -/
  lt : ∀ a ∈ s.axes, a < s.register.dims.length
  /-- No site is named twice. -/
  nodup : s.axes.Nodup
  /-- There is one axis per qubit. -/
  length_eq : s.axes.length = op.qubits.length

/-- **What is asked of a gate or a measurement** before anything is changed or
drawn. -/
inductive Accepts (s : Session (State (Amplitude R))) : Operation R → Prop where
  /-- A gate has a matrix over its first target, and the matrix has as many rows
  and columns as the targets have basis states. -/
  | gate {g : PlacedGate R} {matrix : Mat (Amplitude R)} (sites : OnSites s (.gate g))
      (matrix_eq : g.gate.matrix
        ((restrict s.register.dims (s.axes.drop g.controls.length)).headD 2) = .ok matrix)
      (rows_eq : matrix.rows = total (restrict s.register.dims (s.axes.drop g.controls.length)))
      (cols_eq : matrix.cols = total (restrict s.register.dims (s.axes.drop g.controls.length))) :
    Accepts s (.gate g)
  /-- A measurement has a new key, and a mask with one entry per qubit. -/
  | measure {m : Measurement} (sites : OnSites s (.measure m)) (fresh : m.key ∉ s.log.keys)
      (full : m.FullMask) : Accepts s (.measure m)

variable {s : Session (State (Amplitude R))}

theorem Accepts.onSites {op : Operation R} (h : Accepts s op) : OnSites s op := by
  cases h with
  | gate sites => exact sites
  | measure sites => exact sites

/-- **A gate is accepted and applied, or refused.** -/
theorem act_gate_ends {g : PlacedGate R} (hconfigs : g.configs.length = g.controls.length) :
    Ends (fun _ _ => Accepts s (.gate g)) (fun e t => e.IsError ∧ t = s)
      (act representation (.gate g) s) := by
  -- a gate is never declined, so that its parts do not come into it
  have hfallback : Ends (fun o _ => o = .applied ∧ Accepts s (.gate g))
      (fun e t => e.IsError ∧ t = s)
      (fallbackBy representation (.gate g) (byParts representation (.gate g)) s) := by
    refine (native_ends hconfigs).bind ?_
    rintro _ _ ⟨rfl, controls, targets, matrix, state, haxes, hlen, hplacement, hmatrix, hrows,
      hcols, -, -, rfl⟩
    have hcontrols : controls.length = g.controls.length :=
      hplacement.length_configs.symm.trans hconfigs
    have hdrop : s.axes.drop g.controls.length = targets := by
      rw [haxes, ← hcontrols, List.drop_left]
    refine ⟨rfl, .gate ⟨?_, haxes ▸ hplacement.nodup, ?_⟩ (hdrop ▸ hmatrix) (hdrop ▸ hrows)
      (hdrop ▸ hcols)⟩
    · rw [haxes]
      intro a ha
      obtain ha | ha := List.mem_append.mp ha
      · exact hplacement.controls_lt a ha
      · exact hplacement.targets_lt a ha
    · rw [haxes, List.length_append, hcontrols, hlen]
      exact g.length_qubits.symm
  refine hfallback.bind ?_
  rintro _ _ ⟨rfl, haccepts⟩
  exact haccepts

/-- **A measurement is accepted and made, or refused.** -/
theorem act_measure_ends (hpos : ∀ d ∈ s.register.dims, 0 < d) (m : Measurement) :
    Ends (fun _ _ => Accepts s (.measure m)) (fun e t => e.IsError ∧ t = s)
      (act representation (.measure m) s) := by
  rw [act_measure]
  split_ifs with hlen
  · refine (measureInto_ends hpos m.key m.mask).mono ?_ fun _ _ => id
    rintro _ _ ⟨hkey, hmask, hlt, hnodup, -⟩
    exact .measure ⟨hlt, hnodup, hlen.symm⟩ hkey (hmask.trans hlen.symm)
  · exact ⟨trivial, rfl⟩

/-- What is accepted is not refused. -/
theorem Accepts.exists_act {op : Operation R} (h : Accepts s op) (hop : op.IsPrimitive)
    (hpos : ∀ d ∈ s.register.dims, 0 < d) : ∃ t, act representation op s = .ok () t := by
  cases h with
  | @gate g matrix sites hmatrix hrows hcols =>
    obtain ⟨hconfigs⟩ := hop
    have hlen : s.axes.length = g.controls.length + g.targets.length :=
      sites.length_eq.trans g.length_qubits
    have haxes := (List.take_append_drop g.controls.length s.axes).symm
    have hcontrols : (s.axes.take g.controls.length).length = g.controls.length := by
      rw [List.length_take]
      omega
    have hplacement : Placement s.register.dims (s.axes.drop g.controls.length)
        (s.axes.take g.controls.length) g.configs :=
      ⟨fun t ht => sites.lt t (List.mem_of_mem_drop ht),
        fun c hc => sites.lt c (List.mem_of_mem_take hc), haxes ▸ sites.nodup,
        hconfigs.trans hcontrols.symm⟩
    obtain ⟨state, happly, -⟩ := State.apply_ok hplacement hrows hcols
    exact ⟨_, act_gate_of_applied (native_of_matrix haxes hcontrols
      (by rw [List.length_drop]; omega) sites.lt sites.nodup hmatrix hrows hcols happly)⟩
  | @measure m sites hfresh hfull =>
    exact ⟨_, act_measure_ok sites.length_eq hfresh hfull (perform_ok sites.lt sites.nodup hpos)
      (State.length_measured _ _ _)⟩

end StateVector

open StateVector

/-- **A gate or a measurement does all or nothing** on a register of amplitudes
over sites of positive dimension, whatever the axes, the log and the source. It
succeeds exactly where it is accepted, the axes then being distinct sites of the
register, as many as it has qubits; otherwise it is refused, and the session is
as it was. -/
theorem act_all_or_nothing {op : Operation R} (hop : op.IsPrimitive)
    {s : Session (State (Amplitude R))} (hpos : ∀ d ∈ s.register.dims, 0 < d) :
    (Accepts s op ∧ OnSites s op ∧ ∃ t, act representation op s = .ok () t) ∨
      (¬Accepts s op ∧ ∃ e, act representation op s = .error (.error e) s) := by
  have hends : Ends (fun _ _ => Accepts s op) (fun e t => e.IsError ∧ t = s)
      (act representation op s) := by
    cases hop with
    | gate hconfigs => exact act_gate_ends hconfigs
    | measure m => exact act_measure_ends hpos m
  cases hact : act representation op s with
  | ok u t =>
    rw [hact] at hends
    exact .inl ⟨hends, hends.onSites, t, rfl⟩
  | error e t =>
    rw [hact] at hends
    obtain ⟨he, rfl⟩ := hends
    refine .inr ⟨fun haccepts => ?_, ?_⟩
    · obtain ⟨u, hu⟩ := haccepts.exists_act hop hpos
      rw [hact] at hu
      cases hu
    · cases e with
      | error e => exact ⟨e, rfl⟩
      | fault f => exact he.elim

/-- A measurement of a qubit and a qutrit under a key that is in the log, another with a
mask for one of them only, and an exchange of two qubits at the sites of a qubit and a
qutrit: all are refused, and nothing has been drawn. -/
theorem act_all_or_nothing_refused :
    let pair : Operation Float := .measure (.plain "m" [4, 5])
    let short : Operation Float := .measure ⟨"n", [4, 5], [false]⟩
    let exchange : Operation Float := .gate ⟨.swap, [4, 5], [], []⟩
    let s : Session (State (Amplitude Float)) :=
      ⟨.atPosition [2, 3] 4, [0, 1], ⟨[("m", [1, 1])]⟩, .ofWords #[1, 2]⟩
    (∀ op ∈ [pair, short, exchange], op.IsPrimitive) ∧ (∀ d ∈ s.register.dims, 0 < d) ∧
      (∀ op ∈ [pair, short, exchange],
        (Accepts s op ∧ OnSites s op ∧ ∃ t, act representation op s = .ok () t) ∨
          (¬Accepts s op ∧ ∃ e, act representation op s = .error (.error e) s)) ∧
      act representation pair s = .error (.error (.duplicateKey "m")) s ∧
      act representation short s = .error (.error (.maskLength 1 2)) s ∧
      act representation exchange s = .error (.error (.gateSize 6 4)) s := by
  intro pair short exchange s
  have hpos : ∀ d ∈ s.register.dims, 0 < d := by
    show ∀ d ∈ [2, 3], 0 < d
    decide
  have hprimitive : ∀ op ∈ [pair, short, exchange], op.IsPrimitive := by
    rw [List.forall_mem_cons, List.forall_mem_cons, List.forall_mem_singleton]
    exact ⟨.measure _, .measure _, .gate rfl⟩
  exact ⟨hprimitive, hpos, fun op hop => act_all_or_nothing (hprimitive op hop) hpos, rfl, rfl,
    rfl⟩

end Qudit
