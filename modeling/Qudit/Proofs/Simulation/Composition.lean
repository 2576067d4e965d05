import Qudit.Proofs.Acting.Alike
import Qudit.Proofs.Acting.Records
import Qudit.Proofs.Simulation.Soundness

/-!
# Simulating one circuit after another

A circuit whose operations are those of two circuits in a row is simulated as
these are, one after the other: the second starts from the state that the first
ends in, with the source that the first leaves, and the records of both together
are those of the whole (`simulate_append`).

The second run starts with an empty log, where the whole has the records of the
first part. Neither gates nor measurements look at records, except for whether
there is one under the key of a measurement. So the two runs go alike as long as
the keys to come are not among the records of the first part (`After`), and this
is what the whole being a circuit provides for.
-/

namespace Qudit

open Acting Operation

variable {σ R : Type}

namespace Log

/-- **The records of two logs**, those of the second after those of the first. -/
def append (log later : Log) : Log := ⟨log.entries ++ later.entries⟩

theorem append_empty (log : Log) : log.append .empty = log :=
  congrArg Log.mk (List.append_nil _)

@[simp] theorem keys_append (log later : Log) :
    (log.append later).keys = log.keys ++ later.keys :=
  List.map_append

theorem append_add (log later : Log) (key : String) (values : List Nat) :
    log.append (later.add key values) = (log.append later).add key values :=
  congrArg Log.mk (List.append_assoc _ _ _).symm

end Log

/-- **The second of two sessions comes after earlier records**, but is otherwise
as the first is; the keys `todo` are not among the earlier ones. -/
structure After (earlier : Log) (todo : List String) (s t : Session σ) : Prop where
  /-- The earlier records come before those of the first session. -/
  eq : t = { s with log := earlier.append s.log }
  /-- The keys to come are new. -/
  fresh : ∀ key ∈ todo, key ∉ earlier.keys

/-- Every operation is given its own axes, so that those at the start do not
matter. -/
theorem exists_actEach_setAxes {rep : Representation σ R} {m : Nat → Nat}
    {ops : List (Operation R)} {s t : Session σ} (axes : List Nat)
    (h : actEach rep m ops s = .ok () t) :
    ∃ axes', actEach rep m ops { s with axes := axes } = .ok () { t with axes := axes' } := by
  cases ops with
  | nil =>
    obtain ⟨⟩ := h
    exact ⟨axes, rfl⟩
  | cons op ops => exact ⟨t.axes, h⟩

variable [Scalar R]

/-- **Earlier records make no difference** to the steps on amplitudes. -/
theorem StateVector.actsAlike_after (earlier : Log) :
    (representation : Representation (State (Amplitude R)) R).ActsAlike (After earlier) where
  axes_eq := by
    rintro todo s t ⟨rfl, -⟩
    rfl
  setAxes := by
    rintro todo s t axes ⟨rfl, hfresh⟩
    exact ⟨rfl, hfresh⟩
  native := by
    rintro todo s t g ⟨rfl, hfresh⟩
    refine (native_alike (s := s) (t := { s with log := earlier.append s.log }) g rfl rfl).mono ?_
    rintro _ _ ⟨register, rfl, rfl⟩
    exact ⟨rfl, hfresh⟩
  measure := by
    rintro todo s t m ⟨rfl, hfresh⟩
    have hkey : m.key ∈ s.log.keys ↔ m.key ∈ (earlier.append s.log).keys := by
      rw [Log.keys_append, List.mem_append]
      exact (or_iff_right (hfresh m.key (by simp))).symm
    refine measureInto_alike (s := s) (t := { s with log := earlier.append s.log }) rfl hkey
      (perform_alike rfl rfl rfl) ?_
    rintro _ _ values ⟨register, rfl, rfl⟩
    refine ⟨?_, fun key hmem => hfresh key (List.mem_cons_of_mem _ hmem)⟩
    rw [Log.append_add]

/-- **Acting with an empty log goes as acting after earlier records does**, if the
keys to be recorded are new. -/
theorem actEach_after {ops : List (Operation R)} {s : Session (State (Amplitude R))}
    (hfresh : ∀ key ∈ keysOfList ops, key ∉ s.log.keys) :
    Alike (After s.log []) (actEach StateVector.representation id ops { s with log := .empty })
      (actEach StateVector.representation id ops s) := by
  refine (StateVector.actsAlike_after s.log).actEach id ⟨?_, ?_⟩
  · rw [Log.append_empty]
  · rwa [List.append_nil]

variable {c : Circuit R} {s t : Session (State (Amplitude R))}

/-- What has been acted with in a session can be simulated from there. -/
theorem exists_simulate_of_actEach (hdims : s.register.dims = c.dims)
    (hfresh : ∀ key ∈ c.keys, key ∉ s.log.keys)
    (h : actEach StateVector.representation id c.operations s = .ok () t) :
    ∃ log, t.log = s.log.append log ∧
      simulate c s.register s.source = .ok ⟨t.register, log⟩ t.source := by
  have hafter := (actEach_after hfresh).symm
  rw [h] at hafter
  obtain ⟨u, hu, rfl, -⟩ := hafter.exists_ok
  obtain ⟨axes, hrun⟩ := exists_actEach_setAxes [] hu
  exact ⟨u.log, rfl, simulate_eq_ok_iff.mpr ⟨hdims, axes, hrun⟩⟩

/-- What is simulated from a session can be acted with there. -/
theorem exists_actEach_of_simulate {run : Run R} {rest : Source}
    (hfresh : ∀ key ∈ c.keys, key ∉ s.log.keys)
    (h : simulate c s.register s.source = .ok run rest) :
    ∃ axes, actEach StateVector.representation id c.operations s
      = .ok () ⟨run.state, axes, s.log.append run.log, rest⟩ := by
  obtain ⟨-, axes, hrun⟩ := simulate_eq_ok_iff.mp h
  obtain ⟨axes', hrun'⟩ := exists_actEach_setAxes s.axes hrun
  have hafter := actEach_after hfresh
  rw [show actEach StateVector.representation id c.operations { s with log := .empty } = _
    from hrun'] at hafter
  obtain ⟨u, hu, rfl, -⟩ := hafter.exists_ok
  exact ⟨axes', hu⟩

/-- **A simulation of two sequences in a row is one of the first and then one of the
second**, if they have no key in common. -/
theorem simulate_append_eq_ok_iff {dims : List Nat} {a b : List (Operation R)}
    (hdisjoint : (keysOfList a).Disjoint (keysOfList b)) {initial : State (Amplitude R)}
    {source rest : Source} {run : Run R} :
    simulate ⟨dims, a ++ b⟩ initial source = .ok run rest ↔ ∃ first mid second,
      simulate ⟨dims, a⟩ initial source = .ok first mid ∧
      simulate ⟨dims, b⟩ first.state mid = .ok second rest ∧
      run = ⟨second.state, first.log.append second.log⟩ := by
  -- the first part has recorded its own keys and no others
  have hfresh : ∀ u : Session (State (Amplitude R)), u.log.keys = keysOfList a →
      ∀ key ∈ keysOfList b, key ∉ u.log.keys :=
    fun u hu key hb ha => hdisjoint (hu ▸ ha) hb
  rw [simulate_eq_ok_iff]
  simp only [actEach_append, EStateM.bind_eq_ok]
  constructor
  · rintro ⟨hdims, axes, _, u, ha, hb⟩
    obtain ⟨hudims, hukeys⟩ := StateVector.dims_and_keys_of_actEach ha
    obtain ⟨log, hlog, hsecond⟩ := exists_simulate_of_actEach (c := ⟨dims, b⟩)
      (hudims.trans hdims) (hfresh u hukeys) hb
    refine ⟨⟨u.register, u.log⟩, u.source, ⟨run.state, log⟩,
      simulate_of_actEach hdims ha, hsecond, ?_⟩
    rw [← hlog]
  · rintro ⟨first, mid, second, hfirst, hsecond, rfl⟩
    obtain ⟨hdims, axes, ha⟩ := simulate_eq_ok_iff.mp hfirst
    have hukeys := (StateVector.dims_and_keys_of_actEach ha).2
    obtain ⟨axes', hb⟩ := exists_actEach_of_simulate (c := ⟨dims, b⟩)
      (s := ⟨first.state, axes, first.log, mid⟩) (hfresh _ hukeys) hsecond
    exact ⟨hdims, axes', (), _, ha, hb⟩

/-- **The keys in the log of a run are those of the circuit**, in order. -/
theorem keys_of_simulate {initial : State (Amplitude R)} {source rest : Source} {run : Run R}
    (h : simulate c initial source = .ok run rest) : run.log.keys = c.keys := by
  obtain ⟨-, axes, hrun⟩ := simulate_eq_ok_iff.mp h
  exact (StateVector.dims_and_keys_of_actEach hrun).2

/-- **Simulation composes.** If two sequences in a row are a circuit, then each is one
as well. The whole is simulated exactly when the first part is simulated from the
initial state and the second from the state and with the source that the first
leaves. It then ends in the state and with the source of the second run, and its log
has the records of both runs, which have no key in common. -/
theorem simulate_append {dims : List Nat} {a b : List (Operation R)} {c : Circuit R}
    (hc : Circuit.ofOperations dims (a ++ b) = .ok c) (initial : State (Amplitude R))
    (source : Source) :
    Circuit.ofOperations dims a = .ok ⟨dims, a⟩ ∧
      Circuit.ofOperations dims b = .ok ⟨dims, b⟩ ∧
      (∀ run rest, simulate c initial source = .ok run rest ↔ ∃ first mid second,
        simulate ⟨dims, a⟩ initial source = .ok first mid ∧
        simulate ⟨dims, b⟩ first.state mid = .ok second rest ∧
        run = ⟨second.state, first.log.append second.log⟩) ∧
      ∀ first mid second rest, simulate ⟨dims, a⟩ initial source = .ok first mid →
        simulate ⟨dims, b⟩ first.state mid = .ok second rest →
        first.log.keys.Disjoint second.log.keys := by
  obtain ⟨hfits, hkeys, rfl⟩ := Circuit.ofOperations_eq_ok_iff.mp hc
  rw [keysOfList_append, List.nodup_append'] at hkeys
  obtain ⟨hnodup, hnodup', hdisjoint⟩ := hkeys
  have ha : Circuit.ofOperations dims a = .ok ⟨dims, a⟩ := Circuit.ofOperations_eq_ok_iff.mpr
    ⟨fun op hop => hfits op (List.mem_append_left b hop), hnodup, rfl⟩
  have hb : Circuit.ofOperations dims b = .ok ⟨dims, b⟩ := Circuit.ofOperations_eq_ok_iff.mpr
    ⟨fun op hop => hfits op (List.mem_append_right a hop), hnodup', rfl⟩
  refine ⟨ha, hb, fun run rest => simulate_append_eq_ok_iff hdisjoint, ?_⟩
  intro first mid second rest hfirst hsecond
  rw [keys_of_simulate hfirst, keys_of_simulate hsecond]
  exact hdisjoint

/-- A qubit that is read before and after a qutrit is turned along with it. -/
theorem simulate_append_readings :
    let shift : Mat (Amplitude Float) := ⟨3, 3, fun i j => if i.val = (j.val + 1) % 3 then 1 else 0⟩
    let a : List (Operation Float) := [.gate ⟨.h, [0], [], []⟩, .measure (.plain "before" [0])]
    let b : List (Operation Float) := [.composite "shift and read" [1, 0]
      [.gate ⟨.custom shift false "shift", [1], [0], [true]⟩, .measure (.plain "after" [0, 1])]]
    let initial : State (Amplitude Float) := .atPosition [2, 3] 0
    let source : Source := .ofWords #[7, 8]
    Circuit.ofOperations [2, 3] (a ++ b) = .ok ⟨[2, 3], a ++ b⟩ ∧
      ∃ run rest first mid second,
        simulate ⟨[2, 3], a ++ b⟩ initial source = .ok run rest ∧
        simulate ⟨[2, 3], a⟩ initial source = .ok first mid ∧
        simulate ⟨[2, 3], b⟩ first.state mid = .ok second rest ∧
        run = ⟨second.state, first.log.append second.log⟩ ∧
        first.log.keys.Disjoint second.log.keys := by
  intro shift a b initial source
  have hc : Circuit.ofOperations [2, 3] (a ++ b) = .ok ⟨[2, 3], a ++ b⟩ := rfl
  obtain ⟨hfits, hkeys, -⟩ := Circuit.ofOperations_eq_ok_iff.mp hc
  have hsquare : OwnMatrices Mat.IsSquare (a ++ b) := by
    intro g hg
    simp only [a, b, leavesOfList, leaves, List.append_nil, List.nil_append, List.cons_append,
      List.mem_cons, Operation.gate.injEq, List.not_mem_nil, or_false, reduceCtorEq,
      false_or] at hg
    obtain rfl | rfl := hg
    · trivial
    · rfl
  -- the whole is simulated, and with it both parts
  obtain ⟨s, hrun, -⟩ := exists_actEach_of_fits (s := ⟨initial, [], .empty, source⟩)
    (by decide) hfits hsquare (by decide) rfl hkeys
  have hwhole := simulate_of_actEach (c := ⟨[2, 3], a ++ b⟩) rfl hrun
  obtain ⟨-, -, hiff, hdisjoint⟩ := simulate_append hc initial source
  obtain ⟨first, mid, second, hfirst, hsecond, hlog⟩ := (hiff _ _).mp hwhole
  exact ⟨hc, _, _, first, mid, second, hwhole, hfirst, hsecond, hlog,
    hdisjoint first mid second _ hfirst hsecond⟩

end Qudit
