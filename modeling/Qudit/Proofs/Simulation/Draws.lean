import Qudit.Proofs.Acting.Alike
import Qudit.Proofs.Simulation.Soundness

/-!
# What a simulation draws

A simulation that succeeds has taken one word from the random source for every
measurement of the circuit, whatever the outcomes were, and with a source that
goes on with the same words it would have ended alike (`simulate_same`). Where a
circuit is sampled, the runs therefore take up the words of the source one block
after the other, and each run depends on its own block only (`logs_draws`,
`sample_draws`).

Both parts come out of one relation between two sessions, `Drawing`. Their sources
go on with the same words for as many measurements as there are still to be made,
and at which word they will then have arrived is already settled. A measurement
takes one word from each of them and is one measurement less to be made.
-/

namespace Qudit

open Acting Operation

variable {σ R : Type}

namespace Source

/-- The source from which `n` more words have been taken. -/
def skip (s : Source) (n : Nat) : Source := { s with taken := s.taken + n }

@[simp] theorem skip_zero (s : Source) : s.skip 0 = s := rfl

theorem skip_skip (s : Source) (m n : Nat) : (s.skip m).skip n = s.skip (m + n) :=
  congrArg (Source.mk s.word) (Nat.add_assoc _ _ _)

/-- After the next word there is one less to be taken. -/
theorem skip_next (s : Source) (n : Nat) : s.next.2.skip n = s.skip (n + 1) :=
  (s.skip_skip 1 n).trans (congrArg s.skip (Nat.add_comm 1 n))

/-- **Two sources go on with the same `n` words.** -/
def SameNext (n : Nat) (s t : Source) : Prop :=
  ∀ i < n, s.word (s.taken + i) = t.word (t.taken + i)

namespace SameNext

variable {n : Nat} {s t : Source}

theorem refl (n : Nat) (s : Source) : SameNext n s s := fun _ _ => rfl

theorem head (h : SameNext (n + 1) s t) : s.next.1 = t.next.1 := h 0 (Nat.succ_pos n)

theorem tail (h : SameNext (n + 1) s t) : SameNext n s.next.2 t.next.2 := by
  intro i hi
  have hword := h (i + 1) (Nat.succ_lt_succ hi)
  rwa [← Nat.add_assoc, ← Nat.add_assoc, Nat.add_right_comm, Nat.add_right_comm t.taken] at hword

end SameNext

end Source

open Source

/-- **Two sessions that draw the same**: they differ in their sources only, which go
on with the same words for the measurements to come, and will then be `left` and
`right`. -/
structure Drawing (left right : Source) (todo : List String) (s t : Session σ) : Prop where
  /-- The sessions differ in their sources only. -/
  eq : t = { s with source := t.source }
  /-- The source of the first at the end. -/
  left : s.source.skip todo.length = left
  /-- The source of the second at the end. -/
  right : t.source.skip todo.length = right
  /-- The words to be drawn are the same. -/
  same : SameNext todo.length s.source t.source

variable [Scalar R]

/-- **Words that are not drawn make no difference** to the steps on amplitudes, and
one is drawn for each measurement. -/
theorem StateVector.actsAlike_drawing (left right : Source) :
    (representation : Representation (State (Amplitude R)) R).ActsAlike (Drawing left right) where
  axes_eq := by
    rintro todo s t ⟨heq, -, -, -⟩
    rw [heq]
  setAxes := by
    rintro todo s t axes ⟨heq, hleft, hright, hsame⟩
    exact ⟨by rw [heq], hleft, hright, hsame⟩
  native := by
    rintro todo s t g ⟨heq, hleft, hright, hsame⟩
    refine (native_alike (s := s) (t := t) g (by rw [heq]) (by rw [heq])).mono ?_
    rintro _ _ ⟨register, rfl, rfl⟩
    exact ⟨by rw [heq], hleft, hright, hsame⟩
  measure := by
    rintro todo s t m ⟨heq, hleft, hright, hsame⟩
    refine measureInto_alike (s := s) (t := t) (by rw [heq]) (by rw [heq])
      (perform_alike (by rw [heq]) (by rw [heq]) hsame.head) ?_
    rintro _ _ values ⟨register, rfl, rfl⟩
    exact ⟨by rw [heq], (skip_next _ _).trans hleft, (skip_next _ _).trans hright, hsame.tail⟩

/-- **A simulation draws one word per measurement**, and goes the same way with any
source that goes on with the same words. -/
theorem simulate_same {c : Circuit R} {initial : State (Amplitude R)}
    {source source' rest : Source} {run : Run R} (h : simulate c initial source = .ok run rest)
    (hsame : SameNext c.keys.length source source') :
    rest = source.skip c.keys.length ∧
      simulate c initial source' = .ok run (source'.skip c.keys.length) := by
  obtain ⟨hdims, axes, hrun⟩ := simulate_eq_ok_iff.mp h
  have hstart : Drawing (source.skip c.keys.length) (source'.skip c.keys.length) (c.keys ++ [])
      ⟨initial, [], .empty, source⟩ ⟨initial, [], .empty, source'⟩ := by
    rw [List.append_nil]
    exact ⟨rfl, rfl, rfl, hsame⟩
  have halike := (StateVector.actsAlike_drawing _ _).actEach id hstart
  rw [hrun] at halike
  obtain ⟨t, ht, heq, hleft, hright, -⟩ := halike.exists_ok
  refine ⟨hleft, simulate_eq_ok_iff.mpr ⟨hdims, axes, ?_⟩⟩
  rw [ht, heq, ← hright]
  rfl

/-! ## Runs one after the other -/

namespace Simulator

/-- A simulator draws from its source. -/
theorem drawing_eq_ok {ε α : Type} {run : EStateM ε Source α} {sim sim' : Simulator} {a : α} :
    drawing run sim = .ok a sim' ↔ run sim.source = .ok a sim'.source := by
  unfold drawing
  cases run sim.source with
  | ok b source =>
    constructor
    · rintro ⟨⟩
      rfl
    · rintro ⟨⟩
      rfl
  | error e source => simp

/-- The state in which every site holds zero is made without drawing. -/
theorem zeroState_eq_ok {c : Circuit R} {sim sim' : Simulator} {initial : State (Amplitude R)} :
    zeroState c sim = .ok initial sim' ↔ State.zero c.dims = .ok initial ∧ sim' = sim := by
  unfold zeroState
  cases (State.zero c.dims : Except Fault (State (Amplitude R))) with
  | ok state =>
    constructor
    · rintro ⟨⟩
      exact ⟨rfl, rfl⟩
    · rintro ⟨⟨⟩, rfl⟩
      rfl
  | error f => exact ⟨fun h => (by cases h), fun h => (by cases h.1)⟩

/-- **Repeated runs take up the words of the source one block after the other**, a
word per measurement, and each of them is a run with the words of its own block. -/
theorem logs_draws {c : Circuit R} {initial : State (Amplitude R)} {n : Nat} {ls : List Log}
    {sim sim' : Simulator} (h : logs c initial n sim = .ok ls sim') :
    sim'.source = sim.source.skip (n * c.keys.length) ∧ ls.length = n ∧
      ∀ i < n, ∀ source, SameNext c.keys.length (sim.source.skip (i * c.keys.length)) source →
        ∃ run, simulate c initial source = .ok run (source.skip c.keys.length) ∧
          ls[i]? = some run.log := by
  induction n generalizing sim ls with
  | zero =>
    obtain ⟨⟩ := h
    exact ⟨by rw [Nat.zero_mul, skip_zero], rfl, fun i hi => absurd hi (Nat.not_lt_zero i)⟩
  | succ n ih =>
    obtain ⟨run, mid, hrun, h⟩ := EStateM.bind_eq_ok.mp h
    obtain ⟨rest, last, hrest, h⟩ := EStateM.bind_eq_ok.mp h
    obtain ⟨⟩ := h
    have hrun := drawing_eq_ok.mp hrun
    have hmid : mid.source = sim.source.skip c.keys.length :=
      (simulate_same hrun (.refl _ _)).1
    obtain ⟨hlast, hlength, hruns⟩ := ih hrest
    -- the blocks of the later runs come after the first block
    have hskip : ∀ k, mid.source.skip (k * c.keys.length)
        = sim.source.skip ((k + 1) * c.keys.length) := by
      intro k
      rw [hmid, skip_skip, Nat.succ_mul, Nat.add_comm]
    refine ⟨hlast.trans (hskip n), congrArg (· + 1) hlength, fun i hi source hsame => ?_⟩
    cases i with
    | zero =>
      rw [Nat.zero_mul, skip_zero] at hsame
      exact ⟨run, (simulate_same hrun hsame).2, rfl⟩
    | succ i =>
      rw [← hskip i] at hsame
      exact hruns i (Nat.lt_of_succ_lt_succ hi) source hsame

/-- What can be run with every source can be run repeatedly. -/
theorem exists_logs {c : Circuit R} {initial : State (Amplitude R)}
    (h : ∀ source, ∃ run rest, simulate c initial source = .ok run rest) (n : Nat)
    (sim : Simulator) : ∃ ls sim', logs c initial n sim = .ok ls sim' := by
  induction n generalizing sim with
  | zero => exact ⟨[], sim, rfl⟩
  | succ n ih =>
    obtain ⟨run, mid, hrun⟩ := h sim.source
    obtain ⟨rest, last, hrest⟩ := ih ⟨mid⟩
    have hfrom : runFrom c initial sim = .ok run ⟨mid⟩ := drawing_eq_ok.mpr hrun
    refine ⟨run.log :: rest, last, ?_⟩
    rw [logs, EStateM.bind_ok hfrom, EStateM.bind_ok hrest, EStateM.pure_apply]

end Simulator

/-- **One word is drawn per measurement, and runs are independent.** A simulation
that succeeds has drawn as many words as the circuit has measurements, whatever the
outcomes, and its result depends on these words only. A circuit that is sampled `n`
times draws as many words for each run, one run after the other, and the log of each
run is that of a single run from the state in which every site holds zero, with any
source that goes on with the words of this run. -/
theorem sample_draws (c : Circuit R) :
    (∀ initial source run rest, simulate c initial source = .ok run rest →
      rest = source.skip c.keys.length ∧
      ∀ source', SameNext c.keys.length source source' →
        simulate c initial source' = .ok run (source'.skip c.keys.length)) ∧
    ∀ n sim logs sim', Simulator.sample c n sim = .ok logs sim' →
      sim'.source = sim.source.skip (n * c.keys.length) ∧ logs.length = n ∧
      ∀ i < n, ∀ source, SameNext c.keys.length (sim.source.skip (i * c.keys.length)) source →
        ∃ run, Simulator.run c ⟨source⟩ = .ok run ⟨source.skip c.keys.length⟩ ∧
          logs[i]? = some run.log := by
  constructor
  · intro initial source run rest h
    exact ⟨(simulate_same h (.refl _ _)).1, fun source' hsame => (simulate_same h hsame).2⟩
  · intro n sim logs sim' h
    obtain ⟨initial, _, hzero, hlogs⟩ := EStateM.bind_eq_ok.mp h
    obtain ⟨hstate, rfl⟩ := Simulator.zeroState_eq_ok.mp hzero
    obtain ⟨hsource, hlength, hruns⟩ := Simulator.logs_draws hlogs
    refine ⟨hsource, hlength, fun i hi source hsame => ?_⟩
    obtain ⟨run, hrun, hlog⟩ := hruns i hi source hsame
    refine ⟨run, EStateM.bind_eq_ok.mpr ⟨initial, ⟨source⟩, ?_, ?_⟩, hlog⟩
    · exact Simulator.zeroState_eq_ok.mpr ⟨hstate, rfl⟩
    · exact Simulator.drawing_eq_ok.mpr hrun

/-- The second of two runs, each with two measurements, one of them deeper inside:
its log is that of a single run with the third and the fourth word, whatever comes
after these. -/
theorem sample_draws_second :
    let c : Circuit Float := ⟨[2, 3], [.gate ⟨.h, [0], [], []⟩, .composite "read" [1, 0]
      [.measure (.plain "qubit" [0]), .composite "deeper" [1] [.measure (.plain "qutrit" [1])]]]⟩
    let initial : State (Amplitude Float) := .atPosition [2, 3] 0
    ∃ logs sim' run, Simulator.sample c 2 ⟨.ofWords #[1, 2, 3, 4]⟩ = .ok logs sim' ∧
      sim'.source = (ofWords #[1, 2, 3, 4]).skip 4 ∧
      Simulator.run c ⟨.ofWords #[3, 4]⟩ = .ok run ⟨(ofWords #[3, 4]).skip 2⟩ ∧
      logs[1]? = some run.log ∧
      simulate c initial (.ofWords #[3, 4]) = .ok run ((ofWords #[3, 4]).skip 2) ∧
      simulate c initial (.ofWords #[3, 4, 5]) = .ok run ((ofWords #[3, 4, 5]).skip 2) := by
  intro c initial
  have hzero : State.zero c.dims = .ok initial := rfl
  have hc : Circuit.ofOperations c.dims c.operations = .ok c := rfl
  obtain ⟨hfits, hkeys, -⟩ := Circuit.ofOperations_eq_ok_iff.mp hc
  have hsquare : OwnMatrices Mat.IsSquare c.operations := by
    intro g hg
    simp only [c, leavesOfList, leaves, List.append_nil, List.singleton_append, List.mem_cons,
      Operation.gate.injEq, List.not_mem_nil, or_false, reduceCtorEq] at hg
    obtain rfl := hg
    trivial
  have hruns : ∀ source, ∃ run rest, simulate c initial source = .ok run rest := by
    intro source
    obtain ⟨s, hrun, -⟩ := exists_actEach_of_fits (s := ⟨initial, [], .empty, source⟩)
      (by decide) hfits hsquare (by decide) rfl hkeys
    exact ⟨_, _, simulate_of_actEach (c := c) rfl hrun⟩
  obtain ⟨logs, sim', hlogs⟩ := Simulator.exists_logs hruns 2 ⟨.ofWords #[1, 2, 3, 4]⟩
  have hsample : Simulator.sample c 2 ⟨.ofWords #[1, 2, 3, 4]⟩ = .ok logs sim' :=
    EStateM.bind_eq_ok.mpr ⟨initial, _, Simulator.zeroState_eq_ok.mpr ⟨hzero, rfl⟩, hlogs⟩
  obtain ⟨hone, hmany⟩ := sample_draws c
  obtain ⟨hsource, -, hblocks⟩ := hmany _ _ _ _ hsample
  -- the second block of the source has the words of the shorter one
  have hblock : SameNext 2 ((ofWords #[1, 2, 3, 4]).skip (1 * 2)) (.ofWords #[3, 4]) := by
    unfold SameNext
    decide
  obtain ⟨run, hrun, hlog⟩ := hblocks 1 (by decide) _ hblock
  obtain ⟨result, rest, hresult⟩ := hruns (.ofWords #[3, 4])
  obtain ⟨rfl, hsame⟩ := hone _ _ _ _ hresult
  have hresult' : Simulator.run c ⟨.ofWords #[3, 4]⟩ = .ok result ⟨(ofWords #[3, 4]).skip 2⟩ :=
    EStateM.bind_eq_ok.mpr ⟨initial, _, Simulator.zeroState_eq_ok.mpr ⟨hzero, rfl⟩,
      Simulator.drawing_eq_ok.mpr hresult⟩
  obtain ⟨⟩ : EStateM.Result.ok run _ = .ok result _ := hrun.symm.trans hresult'
  have hlonger : SameNext 2 (.ofWords #[3, 4]) (.ofWords #[3, 4, 5]) := by
    unfold SameNext
    decide
  exact ⟨logs, sim', run, hsample, hsource, hrun, hlog, hresult, hsame _ hlonger⟩

end Qudit
