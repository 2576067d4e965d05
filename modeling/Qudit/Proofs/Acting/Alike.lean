import Qudit.Proofs.Acting.Parallel

/-!
# Acting in two sessions alike

An operation may be acted with in two sessions that differ in something that
acting does not look at: in records under keys that it does not use, say, or in
the words of the source that it does not draw. Both runs then take the same way.
`Alike rel` says of their two ends that both succeed, with the same value and in
sessions that are again related, or that both fail for the same reason.

This is acting in parallel with an operation whose names stay as they are, where
nothing is said of the sessions of a failure. What the relation may depend on is
narrowed to the keys that are still to be recorded: of the keys of an operation,
followed by `todo`, only `todo` is left when acting with it succeeds.
`Representation.ActsAlike` asks of the two steps of a representation that they
keep to the relation, and `Representation.ActsAlike.act` carries it through a
whole operation.
-/

namespace Qudit

open Acting Operation

variable {σ R α β : Type}

namespace Acting

/-- **Two computations end alike**: both succeed with the same value and in
related sessions, or both fail for the same reason. -/
def Alike (rel : Session σ → Session σ → Prop) :
    EStateM.Result (Failure R) (Session σ) α → EStateM.Result (Failure R) (Session σ) α → Prop
  | .ok a s, .ok b t => a = b ∧ rel s t
  | .error e _, .error f _ => e = f
  | _, _ => False

/-- **To end alike is to end in parallel** where nothing is renamed. -/
theorem alike_iff_parallel {rel : Session σ → Session σ → Prop}
    {r r' : EStateM.Result (Failure R) (Session σ) α} :
    Alike rel r r' ↔ Parallel .refl rel (fun _ _ => True) r r' := by
  cases r with
  | ok a s =>
    cases r' with
    | ok b t => exact Iff.rfl
    | error f t => exact Iff.rfl
  | error e s =>
    cases r' with
    | ok b t => exact Iff.rfl
    | error f t =>
      show e = f ↔ f = e.relabel .refl ∧ True
      rw [e.relabel_refl, and_true, eq_comm]

namespace Alike

variable {rel mid : Session σ → Session σ → Prop} {s t : Session σ}

theorem of_parallel {bad : Session σ → Session σ → Prop}
    {r r' : EStateM.Result (Failure R) (Session σ) α} (h : Parallel .refl mid bad r r')
    (hrel : ∀ s t, mid s t → rel s t) : Alike rel r r' :=
  alike_iff_parallel.mpr (h.mono hrel fun _ _ _ => trivial)

theorem mono {r r' : EStateM.Result (Failure R) (Session σ) α} (h : Alike mid r r')
    (hrel : ∀ s t, mid s t → rel s t) : Alike rel r r' :=
  .of_parallel (alike_iff_parallel.mp h) hrel

/-- The session that one of them succeeds in is related to one that the other
succeeds in. -/
theorem exists_ok {r' : EStateM.Result (Failure R) (Session σ) α} {a : α}
    (h : Alike rel (.ok a s) r') : ∃ t, r' = .ok a t ∧ rel s t :=
  (alike_iff_parallel.mp h).exists_ok

theorem symm {r r' : EStateM.Result (Failure R) (Session σ) α} (h : Alike rel r r') :
    Alike (fun t s => rel s t) r' r := by
  cases r with
  | ok a s =>
    cases r' with
    | ok b t => exact ⟨h.1.symm, h.2⟩
    | error f t => exact h.elim
  | error e s =>
    cases r' with
    | ok b t => exact h.elim
    | error f t => exact Eq.symm h

/-- **Sequences end alike if they start alike** and go on alike. -/
theorem bind {x y : Acting σ R α} {f g : α → Acting σ R β} (h : Alike mid (x s) (y t))
    (hfg : ∀ a s' t', mid s' t' → Alike rel (f a s') (g a t')) :
    Alike rel ((x >>= f) s) ((y >>= g) t) :=
  alike_iff_parallel.mpr <| (alike_iff_parallel.mp h).bind fun a s' t' hst =>
    alike_iff_parallel.mp (hfg a s' t' hst)

end Alike

end Acting

/-- **Measurements are recorded alike**, if the key is in both logs or in neither
and measuring goes alike. -/
theorem measureInto_alike {rep : Representation σ R} {key : String} {mask : List Bool}
    {rel mid : Session σ → Session σ → Prop} {s t : Session σ} (haxes : s.axes = t.axes)
    (hkey : key ∈ s.log.keys ↔ key ∈ t.log.keys)
    (hperform : Alike mid (rep.perform s) (rep.perform t))
    (hadd : ∀ s' t' values, mid s' t' →
      rel { s' with log := s'.log.add key values } { t' with log := t'.log.add key values }) :
    Alike rel (measureInto rep key mask s) (measureInto rep key mask t) :=
  alike_iff_parallel.mpr <| measureInto_parallel haxes hkey rfl trivial
    (alike_iff_parallel.mp hperform) (fun _ _ _ => trivial)
    fun s' t' _ _ _ _ hst => hadd s' t' _ hst

/-! ## Whole operations -/

/-- **The steps of a representation go alike in related sessions**, where the
relation may depend on the keys that are still to be recorded. -/
structure Representation.ActsAlike (rep : Representation σ R)
    (rel : List String → Session σ → Session σ → Prop) : Prop where
  /-- The axes are the same. -/
  axes_eq : ∀ {todo s t}, rel todo s t → s.axes = t.axes
  /-- Which they are does not matter. -/
  setAxes : ∀ {todo s t} axes, rel todo s t →
    rel todo { s with axes := axes } { t with axes := axes }
  /-- Gates are applied, declined or refused in both sessions. -/
  native : ∀ {todo s t} g, rel todo s t → Alike (rel todo) (rep.native g s) (rep.native g t)
  /-- A measurement uses up its key. -/
  measure : ∀ {todo s t} (m : Measurement), rel (m.key :: todo) s t →
    Alike (rel todo) (measureInto rep m.key m.mask s) (measureInto rep m.key m.mask t)

namespace Representation.ActsAlike

variable {rep : Representation σ R} {rel : List String → Session σ → Session σ → Prop}
  {s t : Session σ} (h : rep.ActsAlike rel)

include h

/-- The relation is kept to in parallel, whatever the measurements are whose keys it
depends on. -/
theorem parallels (todo : List String) : rep.Parallels .refl
    (fun ms => rel (ms.map Measurement.key ++ todo)) fun _ _ => True where
  axes_eq := h.axes_eq
  setAxes := h.setAxes
  setAxes_bad _ _ := trivial
  stop _ := trivial
  native {_ _ _} g hst := by
    rw [g.relabel_refl]
    exact alike_iff_parallel.mp (h.native g hst)
  measure m _ hst := alike_iff_parallel.mp (h.measure m hst)

/-- **Related sessions are acted on alike**, and what is left to record in the
end is what the operation does not record. -/
theorem act {todo : List String} {op : Operation R} (hst : rel (op.keys ++ todo) s t) :
    Alike (rel todo) (act rep op s) (act rep op t) := by
  have hstart : rel ((readings [op] ++ []).map Measurement.key ++ todo) s t := by
    rwa [List.append_nil, map_key_readings, keysOfList, keysOfList, List.append_nil]
  have hact := (h.parallels todo).act [] hstart
  rw [op.relabel_refl] at hact
  exact alike_iff_parallel.mpr hact

/-- **So are they with operations one after the other.** -/
theorem actEach {todo : List String} {ops : List (Operation R)} (m : Nat → Nat)
    (hst : rel (keysOfList ops ++ todo) s t) :
    Alike (rel todo) (actEach rep m ops s) (actEach rep m ops t) := by
  induction ops generalizing s t with
  | nil => exact ⟨rfl, hst⟩
  | cons op ops ih =>
    rw [keysOfList, List.append_assoc] at hst
    rw [actEach_cons, actEach_cons]
    exact (h.act (h.setAxes _ hst)).bind fun _ s' t' hst' => ih hst'

end Representation.ActsAlike

/-! ## Amplitudes -/

namespace StateVector

variable [Scalar R] {s t : Session (State (Amplitude R))}

/-- **A gate does the same to equal registers**, whatever the log and the
source. -/
theorem native_alike (g : PlacedGate R) (hregister : s.register = t.register)
    (haxes : s.axes = t.axes) :
    Alike (fun s' t' => ∃ register, s' = { s with register := register } ∧
      t' = { t with register := register }) (native g s) (native g t) := by
  have hnative : Parallel .refl _ _ (native g s) (native (g.relabel .refl) t) :=
    native_parallel g hregister haxes
  rw [g.relabel_refl] at hnative
  exact .of_parallel hnative fun _ _ => id

/-- **A measurement does the same to equal registers** if the next words of the
sources are the same, whatever the log. -/
theorem perform_alike (hregister : s.register = t.register) (haxes : s.axes = t.axes)
    (hword : s.source.next.1 = t.source.next.1) :
    Alike (fun s' t' => ∃ register,
        s' = { s with register := register, source := s.source.next.2 } ∧
        t' = { t with register := register, source := t.source.next.2 })
      (perform s) (perform t) :=
  .of_parallel (perform_parallel hregister haxes hword) fun _ _ => id

end StateVector

end Qudit
