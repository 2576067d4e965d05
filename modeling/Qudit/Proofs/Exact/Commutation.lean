import Qudit.Proofs.State.Collapse

/-!
# Operators and measurements of other sites

In exact arithmetic an operator with orthonormal columns and a measurement of
sites that it does not target can be exchanged (`apply_measure_comm`): the
same random number picks the same outcome, and the same state is left. The
controls of the operator may be among the measured sites.

The positions that agree with an outcome are whole blocks of the operator, for a
block differs on the targets only. Dropping the others therefore commutes with
the operator (`State.apply_dropped`), and so does bringing what is left to norm
one. As the operator preserves the norm of what is left, every outcome has the
same weight before and after it (`State.weightAt_apply`), so that the draws, the
norms and the test for a norm that is too small all come out the same.
-/

namespace Qudit

open Radix Kernel

namespace State

variable {s t : State (Amplitude ℝ)} {targets controls sites values : List Nat}
  {configs : List Bool} {m : Mat (Amplitude ℝ)}

section

variable (h : Placement s.dims targets controls configs)
  (hrows : m.rows = total (restrict s.dims targets))
  (hcols : m.cols = total (restrict s.dims targets)) (hdisjoint : ∀ i ∈ sites, i ∉ targets)
  (happly : State.apply m targets controls configs s = .ok () t)

include h hrows hcols happly

theorem dims_of_apply : t.dims = s.dims := by
  obtain ⟨u, hrun, hdims, -⟩ := apply_ok h hrows hcols
  rw [happly] at hrun
  obtain ⟨⟩ := hrun
  exact hdims

include hdisjoint

/-- **Factors that depend on the outcome only commute with the operator.** -/
theorem apply_of_factors {s' t' : State (Amplitude ℝ)} (f : Bool → Amplitude ℝ)
    (hs : s'.dims = s.dims) (ht : t'.dims = t.dims)
    (hs' : ∀ i < total s.dims, s'.amp i = f (Agrees s.dims sites values i) * s.amp i)
    (ht' : ∀ i < total t.dims, t'.amp i = f (Agrees t.dims sites values i) * t.amp i) :
    State.apply m targets controls configs s' = .ok () t' := by
  have hdims := dims_of_apply h hrows hcols happly
  obtain ⟨u, hrun, hu, hamp⟩ := exists_apply_of_factors h hrows hcols
    (f := fun i => f (Agrees s.dims sites values i))
    (fun i hi levels hl => by rw [Agrees, restrict_moved_of_disjoint hdisjoint hi hl]) hs hs' happly
  rw [hrun, ext_amp (hu.trans (ht.trans hdims).symm) fun i hi => ?_]
  rw [hu] at hi
  rw [hamp i hi, ht' i (hdims.symm ▸ hi), hdims]

/-- **Dropping what disagrees with an outcome commutes with an operator
elsewhere.** -/
theorem apply_dropped : State.apply m targets controls configs (s.dropped sites values)
    = .ok () (t.dropped sites values) :=
  apply_of_factors h hrows hcols hdisjoint happly kept (dims_dropped _ _ _) (dims_dropped _ _ _)
    (fun _ hi => amp_dropped_eq_mul s sites values hi)
    fun _ hi => amp_dropped_eq_mul t sites values hi

variable (hm : m.IsIsometry)

include hm

/-- **An operator elsewhere keeps the weight of every outcome.** -/
theorem weightAt_apply : t.weightAt (positionsWhere t.dims (Agrees t.dims sites values))
    = s.weightAt (positionsWhere s.dims (Agrees s.dims sites values)) := by
  have hinner := inner_apply_of_isometry (s := s.dropped sites values)
    (t := s.dropped sites values) h hrows hcols hm rfl
    (apply_dropped h hrows hcols hdisjoint happly) (apply_dropped h hrows hcols hdisjoint happly)
  rw [inner_self, inner_self] at hinner
  rw [weightAt_agrees, weightAt_agrees]
  exact congrArg Amplitude.re hinner

/-- **The same number picks the same outcome.** -/
theorem measured_apply (hsites : ∀ i ∈ sites, i < s.dims.length) (r : ℝ) :
    t.measured sites r = s.measured sites r := by
  have hdims := dims_of_apply h hrows hcols happly
  have hweight : ∀ values, t.weightOf sites values = s.weightOf sites values :=
    fun values => weightAt_apply h hrows hcols hdisjoint happly hm
  rw [measured_eq_digits t (hdims.symm ▸ hsites), measured_eq_digits s hsites, hdims]
  simp only [hweight]

/-- **Collapsing onto an outcome commutes with an operator elsewhere.** -/
theorem apply_collapsed : State.apply m targets controls configs (s.collapsed sites values)
    = .ok () (t.collapsed sites values) := by
  have hnorm : t.keptNorm sites values = s.keptNorm sites values :=
    congrArg Scalar.sqrt (weightAt_apply h hrows hcols hdisjoint happly hm)
  refine apply_of_factors h hrows hcols hdisjoint happly
    (fun agrees => rescaling (s.keptNorm sites values) * kept agrees) (dims_collapsed _ _ _)
    (dims_collapsed _ _ _) (fun _ hi => amp_collapsed_eq_mul s sites values hi) fun _ hi => ?_
  rw [amp_collapsed_eq_mul t sites values hi, hnorm]

end

/-- A computation on a state with a random source beside it, which it leaves
alone. -/
def besideSource {α β : Type} (run : OnState α β) : EStateM Fault (State α × Source) β :=
  fun (s, source) =>
    match run s with
    | .ok b t => .ok b (t, source)
    | .error f t => .error f (t, source)

theorem besideSource_ok {α β : Type} {run : OnState α β} {s t : State α} {b : β}
    (h : run s = .ok b t) (source : Source) :
    besideSource run (s, source) = .ok b (t, source) := by
  rw [besideSource, h]

end State

open State

/-- **An operator commutes with measurements of sites that it does not target.**
To measure once it is applied is to measure first and apply it then: with the
same draw the outcome is the same, and so is the state that is left. Over
measured sites of positive dimension there is an outcome, and one word is
drawn. -/
theorem apply_measure_comm {s : State (Amplitude ℝ)} {targets controls sites : List Nat}
    {configs : List Bool} {m : Mat (Amplitude ℝ)}
    (h : Placement s.dims targets controls configs) (hm : m.IsUnitary)
    (hrows : m.rows = total (restrict s.dims targets))
    (hsites : ∀ i ∈ sites, i < s.dims.length) (hdisjoint : ∀ i ∈ sites, i ∉ targets)
    (source : Source) :
    ∃ t, State.apply m targets controls configs s = .ok () t ∧
      State.measure (some sites) (t, source)
        = (do let values ← State.measure (some sites)
              besideSource (State.apply m targets controls configs)
              return values) (s, source) ∧
      ((∀ i ∈ sites, 0 < s.dims.getD i 0) →
        ∃ values u, State.measure (some sites) (t, source) = .ok values (u, source.next.2)) := by
  have hcols : m.cols = total (restrict s.dims targets) := hm.square.symm.trans hrows
  obtain ⟨t, happly, hdims, -⟩ := State.apply_ok h hrows hcols
  refine ⟨t, happly, ?_⟩
  have hmeasure := measure_eq t (hdims.symm ▸ hsites) source
  rw [hdims] at hmeasure
  rw [hmeasure, EStateM.bind_apply, measure_eq s hsites source]
  by_cases hzero : 0 ∈ restrict s.dims sites
  · -- a register with a site of dimension zero has no amplitudes
    rw [if_pos hzero, if_pos hzero]
    have hempty : total s.dims = 0 := (total_eq_zero_iff _).mpr (mem_of_mem_restrict hsites hzero)
    have hst : t = s := ext_amp hdims fun k hk => by
      rw [hdims, hempty] at hk
      exact absurd hk (Nat.not_lt_zero k)
    obtain ⟨i, hi, h0⟩ := List.mem_map.mp hzero
    exact ⟨by rw [hst], fun hpos => absurd h0 (hpos i hi).ne'⟩
  · rw [if_neg hzero, if_neg hzero,
      measured_apply h hrows hcols hdisjoint happly hm.isIsometry hsites]
    refine ⟨?_, fun _ => ⟨_, _, rfl⟩⟩
    have hcollapsed : State.apply m targets controls configs
          (s.collapsed sites (s.measured sites source.nextUnit.1))
        = .ok () (t.collapsed sites (s.measured sites source.nextUnit.1)) :=
      apply_collapsed h hrows hcols hdisjoint happly hm.isIsometry
    dsimp only
    rw [EStateM.bind_ok (besideSource_ok hcollapsed source.next.2), EStateM.pure_apply]

/-- A cyclic shift of a qutrit under a qubit that has to hold zero, and a
measurement of this qubit and a third site. -/
theorem apply_measure_comm_control :
    let shift : Mat (Amplitude ℝ) := ⟨3, 3, fun i j => if i.val = (j.val + 1) % 3 then 1 else 0⟩
    let s : State (Amplitude ℝ) := .atPosition [2, 3, 4] 5
    let source : Source := .ofWords #[7]
    Placement s.dims [1] [0] [false] ∧ shift.IsUnitary ∧
      shift.rows = total (restrict s.dims [1]) ∧ (∀ i ∈ [2, 0], i < s.dims.length) ∧
      (∀ i ∈ [2, 0], i ∉ [1]) ∧
      ∃ t values u, State.apply shift [1] [0] [false] s = .ok () t ∧
        State.measure (some [2, 0]) (t, source) = .ok values (u, source.next.2) ∧
        (do let values ← State.measure (some [2, 0])
            besideSource (State.apply shift [1] [0] [false])
            return values) (s, source) = .ok values (u, source.next.2) := by
  intro shift s source
  have hdims : s.dims = [2, 3, 4] := rfl
  have hplacement : Placement s.dims [1] [0] [false] :=
    ⟨by simp [hdims], by simp [hdims], by decide, rfl⟩
  have hshift : shift.IsUnitary := by
    refine ⟨rfl, ?_⟩
    show ∀ j k : Fin 3, ∑ i : Fin 3, _ = _
    intro j k
    rw [Fin.sum_univ_three]
    fin_cases j <;> fin_cases k <;> simp [shift]
  have hrows : shift.rows = total (restrict s.dims [1]) := rfl
  have hsites : ∀ i ∈ [2, 0], i < s.dims.length := by simp [hdims]
  have hdisjoint : ∀ i ∈ [2, 0], i ∉ [1] := by decide
  obtain ⟨t, happly, hcomm, hmeasure⟩ :=
    apply_measure_comm hplacement hshift hrows hsites hdisjoint source
  obtain ⟨values, u, hu⟩ := hmeasure (by simp [hdims])
  exact ⟨hplacement, hshift, hrows, hsites, hdisjoint, t, values, u, happly, hu,
    hcomm.symm.trans hu⟩

end Qudit
