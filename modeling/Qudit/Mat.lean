import Qudit.Fault

/-!
# Rectangular matrices

A gate is a matrix of a size known only when the program runs, and it need
not even be square: a matrix here carries its own numbers of rows and
columns. Its entries are a function of the position, so that an equation
between matrices is one between entries; `Mat.entry?` reads at positions
that may be out of range.
-/

namespace Qudit

/-- **A matrix of any size.** -/
structure Mat (α : Type) where
  /-- The number of rows. -/
  rows : Nat
  /-- The number of columns. -/
  cols : Nat
  /-- The entry in a row and a column. -/
  entry : Fin rows → Fin cols → α

namespace Mat

variable {α : Type}

/-- The matrix with the given rows, if they are equally long. -/
def ofRows? (rows : Array (Array α)) : Option (Mat α) :=
  let cols := (rows.getD 0 #[]).size
  if h : ∀ i : Fin rows.size, rows[i].size = cols then
    some ⟨rows.size, cols, fun i j =>
      have : j.val < rows[i].size := by rw [h i]; exact j.isLt
      rows[i][j.val]⟩
  else none

/-- The two by two matrix with rows `a b` and `c d`. -/
def square (a b c d : α) : Mat α :=
  ⟨2, 2, fun i j =>
    if i.val = 0 then (if j.val = 0 then a else b) else (if j.val = 0 then c else d)⟩

/-- The entry at a position, or the fault that it is outside the matrix. -/
def entry? (m : Mat α) (i j : Nat) : Except Fault α :=
  if hi : i < m.rows then
    if hj : j < m.cols then .ok (m.entry ⟨i, hi⟩ ⟨j, hj⟩)
    else .error (.outOfRange j m.cols)
  else .error (.outOfRange i m.rows)

/-- The rows, each as the list of its entries. -/
def toRows (m : Mat α) : List (List α) :=
  (List.finRange m.rows).map fun i => (List.finRange m.cols).map fun j => m.entry i j

/-- Whether every entry off the diagonal passes the test `absent`. -/
def offDiagonal (absent : α → Bool) (m : Mat α) : Bool :=
  (List.finRange m.rows).all fun i =>
    (List.finRange m.cols).all fun j => i.val == j.val || absent (m.entry i j)

/-- The transposed matrix, with `f` applied to every entry. -/
def transposeMap (f : α → α) (m : Mat α) : Mat α :=
  ⟨m.cols, m.rows, fun i j => f (m.entry j i)⟩

instance [BEq α] : BEq (Mat α) where
  beq m n :=
    if h : m.rows = n.rows ∧ m.cols = n.cols then
      (List.finRange m.rows).all fun i =>
        (List.finRange m.cols).all fun j => m.entry i j == n.entry (i.cast h.1) (j.cast h.2)
    else false

end Mat

end Qudit
