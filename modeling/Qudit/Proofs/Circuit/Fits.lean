import Mathlib.Data.List.Nodup
import Qudit.Circuit.Basic
import Qudit.Proofs.Computation
import Qudit.Proofs.Gate.OwnMatrix

/-!
# What fits a register

`PlacedGate.Fits` and `Operation.Fits` say without an order of checks what
an operation needs in order to be on a register. `Circuit.check` finds
nothing wrong exactly then (`check_eq_ok_iff`), and a sequence is admitted
as a circuit exactly when all its operations fit and no measurement key is
used twice (`ofOperations_eq_ok_iff`).
-/

namespace Qudit

open Radix

variable {R : Type} [Scalar R]

/-- **A placed gate that fits a register.** -/
structure PlacedGate.Fits (dims : List Nat) (g : PlacedGate R) : Prop where
  /-- There is one configuration per control. -/
  length_configs : g.configs.length = g.controls.length
  /-- The targets exist. -/
  targets_lt : ∀ t ∈ g.targets, t < dims.length
  /-- The controls exist. -/
  controls_lt : ∀ c ∈ g.controls, c < dims.length
  /-- No site is listed twice. -/
  nodup : g.qubits.Nodup
  /-- There is a target. -/
  targets_ne_nil : g.targets ≠ []
  /-- The controls are qubits. -/
  controls_two : ∀ c ∈ g.controls, dims.getD c 0 = 2
  /-- The targets of a named gate are qubits. -/
  targets_two : g.gate.isNamed = true → ∀ t ∈ g.targets, dims.getD t 0 = 2
  /-- The matrix has a row for every basis state of the targets. -/
  rows_eq : g.gate.qubitMatrix.rows = total (restrict dims g.targets)

omit [Scalar R] in
theorem PlacedGate.length_qubits (g : PlacedGate R) :
    g.qubits.length = g.controls.length + g.targets.length :=
  List.length_append

theorem PlacedGate.Fits.qubits_lt {dims : List Nat} {g : PlacedGate R} (h : g.Fits dims) :
    ∀ q ∈ g.qubits, q < dims.length := by
  intro q hq
  obtain hq | hq := List.mem_append.mp hq
  · exact h.controls_lt q hq
  · exact h.targets_lt q hq

/-- **An operation that fits a register**, together with all the operations
within it. -/
inductive Operation.Fits (dims : List Nat) : Operation R → Prop where
  /-- The gate fits. -/
  | gate {g : PlacedGate R} (fits : g.Fits dims) : Fits dims (.gate g)
  /-- The measured sites exist and are distinct. -/
  | measure {m : Measurement} (lt : ∀ q ∈ m.qubits, q < dims.length)
      (nodup : m.qubits.Nodup) : Fits dims (.measure m)
  /-- The declared sites exist and are distinct, and the operations within
  use declared sites and fit. -/
  | composite (label : String) {qubits : List Nat} {body : List (Operation R)}
      (lt : ∀ q ∈ qubits, q < dims.length) (nodup : qubits.Nodup)
      (within : ∀ op ∈ body, op.qubits ⊆ qubits) (inner : ∀ op ∈ body, Fits dims op) :
      Fits dims (.composite label qubits body)

namespace Circuit

variable {dims sites : List Nat}

/-! ## The single checks -/

/-- A refusal that is left out is a condition that holds. -/
theorem refuse_unless_eq_ok {ε α β : Type} {c : Prop} [Decidable c] {e : ε}
    {f : α → Except ε β} {x : Except ε β} {b : β} :
    (if c then (throw e : Except ε α) >>= f else x) = .ok b ↔ ¬c ∧ x = .ok b := by
  by_cases hc : c
  · rw [if_pos hc]
    exact ⟨fun h => (by cases h), fun h => absurd hc h.1⟩
  · rw [if_neg hc]
    exact ⟨fun h => ⟨hc, h⟩, fun h => h.2⟩

omit [Scalar R]

theorem checkInRange_eq_ok_iff :
    (checkInRange dims sites : Except (CircuitError R) Unit) = .ok ()
      ↔ ∀ s ∈ sites, s < dims.length := by
  unfold checkInRange
  cases hfind : sites.find? fun site => Nat.ble dims.length site with
  | none =>
    simp only [true_iff]
    intro s hs
    have := List.find?_eq_none.mp hfind s hs
    rw [Nat.ble_eq] at this
    omega
  | some s =>
    have hs := List.mem_of_find?_eq_some hfind
    have hle := List.find?_some hfind
    rw [Nat.ble_eq] at hle
    exact ⟨fun h => (by cases h), fun h => absurd (h s hs) (by omega)⟩

theorem insertOnce_ne_nil (a : Nat) (as : List Nat) : insertOnce a as ≠ [] := by
  cases as with
  | nil => exact List.cons_ne_nil _ _
  | cons b bs =>
    rw [insertOnce]
    split_ifs <;> exact List.cons_ne_nil _ _

theorem repeated_eq_nil_iff : repeated sites = [] ↔ sites.Nodup := by
  induction sites with
  | nil => simp [repeated]
  | cons a as ih =>
    rw [repeated, List.nodup_cons, ← ih]
    by_cases ha : a ∈ as
    · rw [if_pos (List.contains_iff_mem.mpr ha)]
      exact ⟨fun h => absurd h (insertOnce_ne_nil _ _), fun h => absurd ha h.1⟩
    · rw [if_neg (mt List.contains_iff_mem.mp ha)]
      exact ⟨fun h => ⟨ha, h⟩, fun h => h.2⟩

theorem checkDistinct_eq_ok_iff :
    (checkDistinct sites : Except (CircuitError R) Unit) = .ok () ↔ sites.Nodup := by
  unfold checkDistinct
  rw [← repeated_eq_nil_iff, ← List.isEmpty_iff]
  split_ifs with h
  · exact ⟨fun _ => h, fun _ => rfl⟩
  · exact ⟨fun h' => (by cases h'), fun h' => absurd h' h⟩

theorem foldr_insertOnce_eq_nil_iff (as : List Nat) :
    as.foldr insertOnce [] = [] ↔ as = [] := by
  cases as with
  | nil => exact Iff.rfl
  | cons a as =>
    rw [List.foldr_cons]
    exact ⟨fun h => absurd h (insertOnce_ne_nil _ _), fun h => absurd h (List.cons_ne_nil _ _)⟩

theorem checkQubits_eq_ok_iff {error : Nat → Nat → CircuitError R} :
    checkQubits error dims sites = .ok () ↔ ∀ s ∈ sites, dims.getD s 0 = 2 := by
  induction sites with
  | nil => simp [checkQubits]
  | cons s ss ih =>
    rw [checkQubits, List.forall_mem_cons]
    split_ifs with hs
    · rw [ih]
      exact ⟨fun h => ⟨hs, h⟩, fun h => h.2⟩
    · exact ⟨fun h => (by cases h), fun h => absurd h.1 hs⟩

variable [Scalar R]

theorem checkMatrix_eq_ok_iff {gate : Gate R} {first : Nat} :
    checkMatrix dims gate first sites = .ok ()
      ↔ (gate.isNamed = true → dims.getD first 0 = 2) ∧
        gate.qubitMatrix.rows = total (restrict dims sites) := by
  unfold checkMatrix
  cases hmatrix : gate.matrix (dims.getD first 0) with
  | error e =>
    refine ⟨fun h => (by cases h), fun ⟨hd, _⟩ => ?_⟩
    rw [Gate.matrix_eq_ok_iff.mpr ⟨hd, rfl⟩] at hmatrix
    cases hmatrix
  | ok m =>
    obtain ⟨hd, rfl⟩ := Gate.matrix_eq_ok_iff.mp hmatrix
    dsimp only
    split_ifs with hrows
    · exact ⟨fun _ => ⟨hd, hrows⟩, fun _ => rfl⟩
    · exact ⟨fun h => (by cases h), fun h => absurd h.2 hrows⟩

/-! ## Gates -/

/-- **The checks of a placed gate find nothing wrong exactly when it
fits.** -/
theorem checkGate_eq_ok_iff {g : PlacedGate R} :
    checkGate dims g = .ok () ↔ g.Fits dims := by
  have hshared : ¬(!((g.controls.filter g.targets.contains).foldr insertOnce []).isEmpty) = true
      ↔ ∀ c ∈ g.controls, c ∉ g.targets := by
    rw [Bool.not_eq_true, Bool.not_eq_false', List.isEmpty_iff, foldr_insertOnce_eq_nil_iff,
      List.filter_eq_nil_iff]
    simp
  unfold checkGate
  cases hhead : g.targets.head? with
  | none =>
    have hnil : g.targets = [] := List.head?_eq_none_iff.mp hhead
    simp only [refuse_unless_eq_ok, Except.check_bind_eq_ok]
    exact ⟨fun h => (by cases h.2.2.2.2.2.2), fun h => absurd hnil h.targets_ne_nil⟩
  | some first =>
    have hfirst : first ∈ g.targets := List.mem_of_mem_head? hhead
    have hqubits : g.qubits.Nodup ↔ g.targets.Nodup ∧ g.controls.Nodup ∧
        ∀ c ∈ g.controls, c ∉ g.targets := by
      rw [PlacedGate.qubits, List.nodup_append']
      exact ⟨fun ⟨hc, ht, hd⟩ => ⟨ht, hc, fun c hcc hct => hd hcc hct⟩,
        fun ⟨ht, hc, hd⟩ => ⟨hc, ht, fun c hcc hct => hd c hcc hct⟩⟩
    have hmatrix : (if g.gate.isNamed = true then
          checkQubits .targetNotQubit dims g.targets >>= fun _ =>
            checkMatrix dims g.gate first g.targets
        else checkMatrix dims g.gate first g.targets) = .ok ()
        ↔ (g.gate.isNamed = true → ∀ t ∈ g.targets, dims.getD t 0 = 2) ∧
          g.gate.qubitMatrix.rows = total (restrict dims g.targets) := by
      split_ifs with hnamed
      · rw [Except.check_bind_eq_ok, checkQubits_eq_ok_iff, checkMatrix_eq_ok_iff]
        exact ⟨fun h => ⟨fun _ => h.1, h.2.2⟩,
          fun h => ⟨h.1 hnamed, fun _ => h.1 hnamed first hfirst, h.2⟩⟩
      · rw [checkMatrix_eq_ok_iff]
        exact ⟨fun h => ⟨fun hn => absurd hn hnamed, h.2⟩,
          fun h => ⟨fun hn => absurd hn hnamed, h.2⟩⟩
    simp only [refuse_unless_eq_ok, Except.check_bind_eq_ok, checkInRange_eq_ok_iff,
      checkDistinct_eq_ok_iff, checkQubits_eq_ok_iff, hshared, hmatrix, not_not, ne_eq]
    constructor
    · rintro ⟨hlen, htlt, hclt, ht, hc, hdisj, hc2, ht2, hrows⟩
      exact ⟨hlen, htlt, hclt, hqubits.mpr ⟨ht, hc, hdisj⟩, List.ne_nil_of_mem hfirst, hc2,
        ht2, hrows⟩
    · intro h
      obtain ⟨ht, hc, hdisj⟩ := hqubits.mp h.nodup
      exact ⟨h.length_configs, h.targets_lt, h.controls_lt, ht, hc, hdisj, h.controls_two,
        h.targets_two, h.rows_eq⟩

/-! ## Operations -/

theorem checkBody_eq_ok_iff {label : String} {declared : List Nat} {ops : List (Operation R)} :
    checkBody dims label declared ops = .ok ()
      ↔ ∀ op ∈ ops, op.qubits ⊆ declared ∧ check dims op = .ok () := by
  induction ops with
  | nil => simp [checkBody]
  | cons op ops ih =>
    rw [checkBody, List.forall_mem_cons, ← ih]
    cases hfind : op.qubits.find? fun qubit => !declared.contains qubit with
    | none =>
      have hsub : op.qubits ⊆ declared := by
        intro q hq
        simpa using List.find?_eq_none.mp hfind q hq
      rw [Except.check_bind_eq_ok]
      exact ⟨fun ⟨hop, hops⟩ => ⟨⟨hsub, hop⟩, hops⟩, fun ⟨hop, hops⟩ => ⟨hop.2, hops⟩⟩
    | some q =>
      have hq := List.mem_of_find?_eq_some hfind
      have hnot := List.find?_some hfind
      rw [Except.check_bind_eq_ok]
      refine ⟨fun h => (by cases h.1), fun h => ?_⟩
      rw [List.contains_iff_mem.mpr (h.1.1 hq)] at hnot
      exact absurd hnot (by decide)

/-- **The checks of an operation find nothing wrong exactly when it fits.** -/
theorem check_eq_ok_iff {op : Operation R} : check dims op = .ok () ↔ op.Fits dims := by
  induction op with
  | gate g =>
    rw [check, checkGate_eq_ok_iff]
    exact ⟨.gate, fun h => by cases h; assumption⟩
  | measure m =>
    rw [check, Except.check_bind_eq_ok]
    simp only [checkInRange_eq_ok_iff, checkDistinct_eq_ok_iff]
    exact ⟨fun h => .measure h.1 h.2, fun h => by cases h; exact ⟨‹_›, ‹_›⟩⟩
  | composite label qubits body ih =>
    rw [check, Except.check_bind_eq_ok]
    simp only [Except.check_bind_eq_ok, checkInRange_eq_ok_iff, checkDistinct_eq_ok_iff,
      checkBody_eq_ok_iff]
    constructor
    · rintro ⟨hlt, hnodup, hbody⟩
      exact .composite label hlt hnodup (fun op hop => (hbody op hop).1)
        fun op hop => (ih op hop).mp (hbody op hop).2
    · rintro (_ | _ | ⟨_, hlt, hnodup, hwithin, hinner⟩)
      exact ⟨hlt, hnodup, fun op hop => ⟨hwithin op hop, (ih op hop).mpr (hinner op hop)⟩⟩

/-! ## Circuits -/

omit [Scalar R] in
theorem firstRepeated_eq_none_iff (seen keys : List String) :
    firstRepeated seen keys = none ↔ keys.Nodup ∧ ∀ k ∈ keys, k ∉ seen := by
  induction keys generalizing seen with
  | nil => simp [firstRepeated]
  | cons key keys ih =>
    rw [firstRepeated]
    by_cases hkey : key ∈ seen
    · rw [if_pos (List.contains_iff_mem.mpr hkey)]
      exact ⟨fun h => (by cases h), fun h => absurd hkey (h.2 key (by simp))⟩
    · rw [if_neg (mt List.contains_iff_mem.mp hkey), ih]
      simp only [List.mem_cons, not_or, List.nodup_cons, forall_eq_or_imp]
      constructor
      · rintro ⟨hnodup, hnew⟩
        exact ⟨⟨fun hmem => (hnew key hmem).1 rfl, hnodup⟩, hkey, fun k hk => (hnew k hk).2⟩
      · rintro ⟨⟨hnotin, hnodup⟩, -, hnew⟩
        exact ⟨hnodup, fun k hk => ⟨fun h => hnotin (h ▸ hk), hnew k hk⟩⟩

/-- **A sequence is admitted as a circuit exactly when all its operations
fit and its measurement keys are distinct**, and then it is kept as it is. -/
theorem ofOperations_eq_ok_iff {ops : List (Operation R)} {c : Circuit R} :
    ofOperations dims ops = .ok c
      ↔ (∀ op ∈ ops, op.Fits dims) ∧ (Operation.keysOfList ops).Nodup ∧ c = ⟨dims, ops⟩ := by
  unfold ofOperations
  rw [Except.check_bind_eq_ok]
  simp only [Except.forM_eq_ok, check_eq_ok_iff]
  refine and_congr_right fun _ => ?_
  have hkeys := firstRepeated_eq_none_iff [] (Operation.keysOfList ops)
  cases hfirst : firstRepeated [] (Operation.keysOfList ops) with
  | none =>
    have hnodup := (hkeys.mp hfirst).1
    exact ⟨fun h => ⟨hnodup, (Except.ok.inj h).symm⟩, fun h => by rw [h.2]; rfl⟩
  | some key =>
    refine ⟨fun h => (by cases h), fun h => ?_⟩
    rw [hkeys.mpr ⟨h.1, by simp⟩] at hfirst
    cases hfirst

end Circuit

end Qudit
