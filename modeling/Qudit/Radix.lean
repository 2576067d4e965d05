import Qudit.Fault

/-!
# Mixed-radix positions

The basis states of a register are laid out in one row, the last site
varying fastest. With sites of different dimensions the position of a
basis state is a number in a **mixed radix**: its digits are the values the
sites hold, its radices their dimensions.

`Radix.index` reads digits as a number and `Radix.digits` writes a number
in digits; `Radix.strides` says how far the position moves when one site
goes up by one, and `Radix.total` counts the positions. `Radix.basis` lists
them with their digits, and `Radix.matching` those whose digits at chosen
sites are prescribed. A number has no digits over a site of dimension zero:
`Radix.checkedDigits` faults there, while `Radix.digits` is used only below
`Radix.total`, where no such site can occur.
-/

namespace Qudit.Radix

/-- The number of basis states: the product of the dimensions. -/
def total (dims : List Nat) : Nat :=
  dims.foldr (fun d t => d * t) 1

/-- For each site, the product of the dimensions after it. -/
def strides : List Nat → List Nat
  | [] => []
  | _ :: rest => total rest :: strides rest

/-- The position of the basis state with the given digits, first site most
significant. -/
def index (values dims : List Nat) : Nat :=
  (values.zip dims).foldl (fun acc p => acc * p.2 + p.1) 0

/-- The digits of `k` over `dims`, and what is left of `k` above them. -/
def split : List Nat → Nat → List Nat × Nat
  | [], k => ([], k)
  | d :: ds, k => ((split ds k).2 % d :: (split ds k).1, (split ds k).2 / d)

/-- **The digits of a position**, one per site. What lies above the first
site is dropped. -/
def digits (k : Nat) (dims : List Nat) : List Nat :=
  (split dims k).1

/-- The digits of any number, or the fault that some site has dimension
zero. -/
def checkedDigits (k : Nat) (dims : List Nat) : Except Fault (List Nat) :=
  if dims.contains 0 then .error .zeroDimension else .ok (digits k dims)

/-- The entries of a list at the listed sites, zero standing for those there
are not. -/
def restrict (values sites : List Nat) : List Nat := sites.map fun i => values.getD i 0

/-- Every position with its digits, in order. -/
def basis (dims : List Nat) : List (Nat × List Nat) :=
  (List.range (total dims)).map fun k => (k, digits k dims)

/-- Whether digits hold the prescribed value at each listed site. The sites
are looked at in order and only as far as the first disagreement, so a site
that does not exist is a fault only where the ones before it agree. -/
def agrees (values : List Nat) : List (Nat × Nat) → Except Fault Bool
  | [] => .ok true
  | (site, value) :: rest =>
    match entryAt values site with
    | .error e => .error e
    | .ok v => if v = value then agrees values rest else .ok false

/-- **The positions whose digits at `sites` are `values`**, in order. -/
def matching (dims sites values : List Nat) : Except Fault (List Nat) :=
  select (fun k => agrees (digits k dims) (sites.zip values)) (List.range (total dims))

@[simp] theorem total_nil : total [] = 1 := rfl

@[simp] theorem total_cons (d : Nat) (ds : List Nat) : total (d :: ds) = d * total ds := rfl

@[simp] theorem length_strides (dims : List Nat) : (strides dims).length = dims.length := by
  induction dims with
  | nil => rfl
  | cons d ds ih => simp [strides, ih]

/-- A position has one digit per site. -/
@[simp] theorem length_digits (k : Nat) (dims : List Nat) :
    (digits k dims).length = dims.length := by
  induction dims with
  | nil => rfl
  | cons d ds ih => simpa [digits, split] using ih

/-- There are no positions exactly when some site has dimension zero. -/
theorem total_eq_zero_iff (dims : List Nat) : total dims = 0 ↔ 0 ∈ dims := by
  induction dims with
  | nil => simp
  | cons d ds ih => rw [total_cons, Nat.mul_eq_zero, ih, List.mem_cons, eq_comm]

end Qudit.Radix
