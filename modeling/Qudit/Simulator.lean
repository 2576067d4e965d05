import Qudit.Acting.StateVector
import Qudit.Acting.Text
import Qudit.Circuit.Basic
import Qudit.Source.ChaCha

/-!
# Simulation of circuits

A circuit is simulated by acting with its operations one after the other,
each at the sites that its own qubits name (`runOperations`). The state and
the log at the end are the result; the random source has advanced by what
was drawn, also where the run fails. A **simulator** keeps the source from
one run to the next.
-/

namespace Qudit

/-- How a run ends where it does not succeed. -/
inductive RunFailure (R : Type) where
  /-- The initial state is of another register than the circuit. -/
  | dimsMismatch (expected actual : List Nat)
  /-- An operation is refused. -/
  | operation (position : Nat) (cause : ActError R)
  /-- A fault is met. -/
  | fault (f : Fault)

/-- **The result of a run.** -/
structure Run (R : Type) where
  /-- The state at the end. -/
  state : State (Amplitude R)
  /-- The measurements recorded. -/
  log : Log

/-- **Acts with the operations of a sequence in order**, numbered from
`position`, each with its own qubits as axes. -/
def runOperations {σ R : Type} (rep : Representation σ R) (position : Nat) :
    List (Operation R) → EStateM (RunFailure R) (Session σ) Unit
  | [] => return ()
  | op :: ops => fun s =>
    match act rep op { s with axes := op.qubits } with
    | .ok () s' => runOperations rep (position + 1) ops s'
    | .error (.error e) s' => .error (.operation position e) s'
    | .error (.fault f) s' => .error (.fault f) s'

variable {R : Type} [Scalar R]

/-- **Simulates a circuit from an initial state.** -/
def simulate (c : Circuit R) (initial : State (Amplitude R)) :
    EStateM (RunFailure R) Source (Run R) := fun source =>
  if initial.dims ≠ c.dims then .error (.dimsMismatch c.dims initial.dims) source
  else
    match runOperations StateVector.representation 0 c.operations
        ⟨initial, [], .empty, source⟩ with
    | .ok () s => .ok ⟨s.register, s.log⟩ s.source
    | .error e s => .error e s.source

/-- **A simulator**: a random source kept between runs. -/
structure Simulator where
  /-- The source. -/
  source : Source

namespace Simulator

/-- The simulator with a seed. -/
def ofSeed (seed : UInt64) : Simulator := ⟨Source.ofSeed seed⟩

/-- A computation that draws from the source of a simulator. -/
def drawing {ε α : Type} (run : EStateM ε Source α) : EStateM ε Simulator α := fun sim =>
  match run sim.source with
  | .ok a source => .ok a ⟨source⟩
  | .error e source => .error e ⟨source⟩

/-- Runs a circuit from a state. -/
def runFrom (c : Circuit R) (initial : State (Amplitude R)) :
    EStateM (RunFailure R) Simulator (Run R) :=
  drawing (simulate c initial)

/-- The state in which every site of a circuit holds zero. -/
def zeroState (c : Circuit R) : EStateM (RunFailure R) Simulator (State (Amplitude R)) :=
  match State.zero c.dims with
  | .ok state => return state
  | .error f => throw (.fault f)

/-- Runs a circuit from the state in which every site holds zero. -/
def run (c : Circuit R) : EStateM (RunFailure R) Simulator (Run R) := do
  runFrom c (← zeroState c)

/-- The logs of repeated runs from a state. -/
def logs (c : Circuit R) (initial : State (Amplitude R)) :
    Nat → EStateM (RunFailure R) Simulator (List Log)
  | 0 => return []
  | n + 1 => do
    let result ← runFrom c initial
    let rest ← logs c initial n
    return result.log :: rest

/-- **The logs of `n` runs from the state in which every site holds zero.** -/
def sample (c : Circuit R) (n : Nat) : EStateM (RunFailure R) Simulator (List Log) := do
  logs c (← zeroState c) n

end Simulator

/-- What is said of a run that fails, except at a fault. -/
def RunFailure.message : RunFailure Float → Option String
  | .dimsMismatch expected actual =>
    some (s!"initial state has dims {Text.bracketed actual} but the circuit expects "
      ++ Text.bracketed expected)
  | .operation position cause => some s!"operation {position} failed: {cause.message}"
  | .fault f => f.message

end Qudit
