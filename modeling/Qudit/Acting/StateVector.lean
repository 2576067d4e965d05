import Qudit.Acting.Basic
import Qudit.Deprecation.Registry
import Qudit.State.Collapse

/-!
# The state-vector representation

The register is a state with all its amplitudes. Every placed gate is applied
by its matrix over the dimension of the first target site, which has to have
as many rows and columns as the target sites have basis states together;
measuring collapses the state. The axes have to be sites of the state, each
once, before either begins.
-/

namespace Qudit

namespace StateVector

open Acting

variable {R : Type} [Scalar R]

/-- Acting on a register that is a state. -/
abbrev Vectorial (R : Type) := Acting (State (Amplitude R)) R

/-- A computation on the state of a session. -/
def onState {α : Type} (run : OnState (Amplitude R) α) : Vectorial R α := fun s =>
  match run s.register with
  | .ok a state => .ok a { s with register := state }
  | .error f state => .error (.fault f) { s with register := state }

/-- A computation on the state and the random source of a session. -/
def onStateAndSource {α : Type} (run : EStateM Fault (State (Amplitude R) × Source) α) :
    Vectorial R α := fun s =>
  match run (s.register, s.source) with
  | .ok a (state, source) => .ok a { s with register := state, source }
  | .error f (state, source) => .error (.fault f) { s with register := state, source }

/-- **The current axes, if they are sites of the state and distinct.** -/
def checkedAxes : Vectorial R (List Nat) := do
  let s ← get
  match s.axes.find? fun axis => Nat.ble s.register.numSites axis with
  | some axis => refuse (.axisOutOfRange axis s.register.numSites)
  | none =>
    checkDistinct s.axes
    return s.axes

/-- Measures the current axes and collapses the state. -/
def perform : Vectorial R (List Nat) := do
  let axes ← checkedAxes
  onStateAndSource (State.measure (some axes))

/-- Applies a placed gate by its matrix. -/
def native (g : PlacedGate R) : Vectorial R Outcome := do
  let axes ← checkedAxes
  if axes.length ≠ g.controls.length + g.targets.length then
    refuse (.axesMismatch (.gate g) (g.controls.length + g.targets.length) axes.length)
  let (controls, targets) ← orFault (splitAfter g.controls.length axes)
  let dims ← orFault (targets.mapM (entryAt (← get).register.dims))
  match g.gate.matrix (dims.headD 2) with
  | .error e => refuse (.gate e)
  | .ok matrix =>
    if matrix.rows ≠ Radix.total dims ∨ matrix.cols ≠ Radix.total dims then
      refuse (.gateSize (Radix.total dims) matrix.rows)
    onState (State.apply matrix targets controls g.configs)
    return .applied

/-- **The representation of registers by their states.** -/
def representation : Representation (State (Amplitude R)) R := ⟨perform, native⟩

/-- The notice about recording results that were not measured. -/
def recordNotice : Except DeprecationError Notice :=
  Notice.ofName "v0.3" "Use `ActOnArgs::measure` so the state collapses consistently."
    "StateVectorArgs::record_measurement_result"

/-- Records bits under a new key without measuring. It is deprecated, and
the use at `site` is reported first. -/
def record {σ : Type} (s : Session σ) (key : String) (bits : List Nat) (site : String) :
    Reporting (Except (ActError R) (Session σ)) := do
  match recordNotice with
  | .error e => return .error (.deprecation e)
  | .ok notice =>
    match ← Registry.report notice site with
    | .error e => return .error (.deprecation e)
    | .ok () =>
      if s.log.contains key then return .error (.duplicateKey key)
      else return .ok { s with log := s.log.add key bits }

end StateVector

end Qudit
