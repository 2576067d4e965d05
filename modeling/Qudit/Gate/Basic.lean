import Qudit.Amplitude
import Qudit.Mat

/-!
# Gates

A **gate** is a qubit gate known by name – some of these turn by an angle –
or a matrix of its own with a label. A named gate has a matrix for sites of
dimension two only (`Gate.matrix`); a custom gate is the same matrix
everywhere, of whatever shape it was given.

`Gate.dagger` is the adjoint. It may change the constructor, the adjoint of
`s` being a phase, so that it agrees with the conjugate transpose as a
matrix and not as a name. `Gate.isDiagonal` is what a gate declares of
itself: a custom gate declares it when it is built (`Gate.ofMatrix`).
`Gate.numSites` is the number of sites of one dimension that a gate acts on,
found by running through the powers of that dimension (`powersFrom`).
-/

namespace Qudit

/-- **A gate**, over the scalars `R`. -/
inductive Gate (R : Type) where
  /-- The bit flip. -/
  | x
  /-- The bit and phase flip. -/
  | y
  /-- The phase flip. -/
  | z
  /-- The even superposition. -/
  | h
  /-- A quarter turn of the phase. -/
  | s
  /-- An eighth turn of the phase. -/
  | t
  /-- The exchange of two qubits. -/
  | swap
  /-- A turn of the phase of the upper level. -/
  | phase (θ : R)
  /-- A turn about the first axis. -/
  | rx (θ : R)
  /-- A turn about the second axis. -/
  | ry (θ : R)
  /-- A turn about the third axis. -/
  | rz (θ : R)
  /-- A matrix, whether it is declared diagonal, and its label. -/
  | custom (matrix : Mat (Amplitude R)) (diagonal : Bool) (label : String)
  deriving BEq

/-- Why a gate has no matrix, or no number of sites, over a dimension. -/
inductive GateError (R : Type) where
  /-- A named gate was asked for its matrix over sites that are no qubits. -/
  | namedDimension (gate : Gate R) (dim : Nat)
  /-- A custom matrix is not square. -/
  | notSquare (rows cols : Nat)
  /-- A custom matrix has a size that is no power of the dimension. -/
  | notAPower (size dim : Nat)

/-- The powers that a search for `size` runs through, from `p` on, each `d`
times the one before. It stops at the first that is not below `size`, and
at once where a power would not grow. -/
def powersFrom (d size p : Nat) (hp : 0 < p) : List Nat :=
  if h : p < size ∧ 1 < d then
    p :: powersFrom d size (p * d) (Nat.mul_pos hp (by omega))
  else [p]
termination_by size - p
decreasing_by
  have : p * 1 < p * d := Nat.mul_lt_mul_of_pos_left h.2 hp
  omega

/-- The powers of `d` that a search for `size` runs through. -/
def powersUpTo (d size : Nat) : List Nat :=
  powersFrom d size 1 Nat.one_pos

namespace Gate

variable {R : Type} [Scalar R]

/-- Whether the gate is one of the named qubit gates. -/
def isNamed : Gate R → Bool
  | custom _ _ _ => false
  | _ => true

/-- The custom gate with a matrix and a label. It is declared diagonal when
every entry off the diagonal is zero. -/
def ofMatrix (matrix : Mat (Amplitude R)) (label : String) : Gate R :=
  custom matrix (matrix.offDiagonal Amplitude.isZero) label

/-- Whether the gate declares itself diagonal. -/
def isDiagonal : Gate R → Bool
  | z | s | t | phase _ | rz _ => true
  | custom _ diagonal _ => diagonal
  | _ => false

/-- A quarter of a turn, in radians. -/
def quarterTurn : R := Scalar.pi / ((2 : Nat) : R)

/-- An eighth of a turn, in radians. -/
def eighthTurn : R := Scalar.pi / ((4 : Nat) : R)

/-- **The adjoint of a gate.** The label of a custom gate gains a dagger. -/
def dagger : Gate R → Gate R
  | s => phase (-quarterTurn)
  | t => phase (-eighthTurn)
  | phase θ => phase (-θ)
  | rx θ => rx (-θ)
  | ry θ => ry (-θ)
  | rz θ => rz (-θ)
  | custom matrix diagonal label =>
    custom (matrix.transposeMap Amplitude.conj) diagonal (label ++ "†")
  | gate => gate

/-- The diagonal two by two matrix with the given entries. -/
def diagonalMatrix (a b : Amplitude R) : Mat (Amplitude R) := Mat.square a 0 0 b

/-- The matrix that exchanges the values of two qubits. -/
def swapMatrix : Mat (Amplitude R) :=
  ⟨4, 4, fun i j => if j.val = i.val % 2 * 2 + i.val / 2 then 1 else 0⟩

/-- The matrix of a gate on qubits. -/
def qubitMatrix : Gate R → Mat (Amplitude R)
  | x => Mat.square 0 1 1 0
  | y => Mat.square 0 (-Amplitude.i) Amplitude.i 0
  | z => diagonalMatrix 1 (-1)
  | h =>
    let a := Amplitude.ofReal Scalar.sqrtHalf
    Mat.square a a a (-a)
  | s => diagonalMatrix 1 Amplitude.i
  | t => diagonalMatrix 1 (Amplitude.ofAngle eighthTurn)
  | swap => swapMatrix
  | phase θ => diagonalMatrix 1 (Amplitude.ofAngle θ)
  | rx θ =>
    let c := Amplitude.ofReal (Scalar.cos (θ / ((2 : Nat) : R)))
    let a : Amplitude R := ⟨0, -Scalar.sin (θ / ((2 : Nat) : R))⟩
    Mat.square c a a c
  | ry θ =>
    let c := Amplitude.ofReal (Scalar.cos (θ / ((2 : Nat) : R)))
    let a := Amplitude.ofReal (Scalar.sin (θ / ((2 : Nat) : R)))
    Mat.square c (-a) a c
  | rz θ =>
    diagonalMatrix (Amplitude.ofAngle (-θ / ((2 : Nat) : R)))
      (Amplitude.ofAngle (θ / ((2 : Nat) : R)))
  | custom matrix _ _ => matrix

/-- **The matrix of a gate over sites of dimension `d`.** -/
def matrix (gate : Gate R) (d : Nat) : Except (GateError R) (Mat (Amplitude R)) :=
  if gate.isNamed && d != 2 then .error (.namedDimension gate d) else .ok gate.qubitMatrix

/-- **The number of sites of dimension `d` that a gate acts on.** The number
of a custom gate is the exponent that makes its size a power of `d`. -/
def numSites (gate : Gate R) (d : Nat) : Except (GateError R) Nat :=
  match gate with
  | swap => .ok 2
  | custom matrix _ _ =>
    if matrix.rows != matrix.cols then .error (.notSquare matrix.rows matrix.cols)
    else
      let powers := powersUpTo d matrix.rows
      if powers.getLast? == some matrix.rows then .ok (powers.length - 1)
      else .error (.notAPower matrix.rows d)
  | _ => .ok 1

end Gate

end Qudit
