import Mathlib.Tactic.Ring
import Qudit.Proofs.Radix.Order
import Qudit.Proofs.Radix.Overwrite

/-!
# Strides

A position is the sum of its digits, each counted as often as the stride of its site says
(`sum_mul_strides`), and a digit is read off a position by dividing by that stride
(`getD_digits`). Neither asks for digits in range: the first holds of any numbers at the sites,
and what lies above the first site is dropped by the second as it is by `Radix.digits`.

So one step of a digit is one stride of the position, in both directions: raising a digit moves
the position by the stride (`index_raise`), and moving the position by the stride raises the
digit, as long as the site can hold it (`digits_add_stride`).
-/

namespace Qudit.Radix

variable {dims values : List Nat} {i k : Nat}

/-- Strides are positive over sites of positive dimension. -/
theorem stride_pos (hpos : ∀ d ∈ dims, 0 < d) (hi : i < dims.length) :
    0 < (strides dims).getD i 0 := by
  induction dims generalizing i with
  | nil => simp at hi
  | cons d ds ih =>
    have hpos' : ∀ e ∈ ds, 0 < e := fun e he => hpos e (List.mem_cons_of_mem d he)
    obtain _ | i := i
    · exact total_pos hpos'
    · exact ih hpos' (by simpa using hi)

/-- **A position is the sum of its digits times the strides.** -/
theorem sum_mul_strides (hlen : values.length = dims.length) :
    (List.zipWith (· * ·) values (strides dims)).sum = index values dims := by
  induction dims generalizing values with
  | nil =>
    rw [List.length_eq_zero_iff.mp hlen]
    rfl
  | cons d ds ih =>
    obtain _ | ⟨v, vs⟩ := values
    · simp at hlen
    · have hlen' : vs.length = ds.length := by simpa using hlen
      rw [index_cons hlen', strides, List.zipWith_cons_cons, List.sum_cons, ih hlen']

/-- **A digit is the quotient by the stride of its site**, up to whole rounds of the site. -/
theorem getD_digits (hi : i < dims.length) (k : Nat) :
    (digits k dims).getD i 0 = k / (strides dims).getD i 0 % dims.getD i 0 := by
  induction dims generalizing i with
  | nil => simp at hi
  | cons d ds ih =>
    rw [digits_cons]
    obtain _ | i := i
    · rfl
    · exact ih (by simpa using hi)

/-- **Raising a digit moves the position by its stride.** -/
theorem index_raise (hlen : values.length = dims.length) (hi : i < dims.length) :
    index (values.set i (values.getD i 0 + 1)) dims
      = index values dims + (strides dims).getD i 0 := by
  have h := index_set hlen hi (values.getD i 0 + 1)
  rw [Nat.add_mul, Nat.one_mul] at h
  omega

/-- **Moving the position by a stride raises the digit**, if the site can hold it. -/
theorem digits_add_stride (h : Valid dims values) (hi : i < dims.length)
    (hroom : values.getD i 0 + 1 < dims.getD i 0) :
    digits (index values dims + (strides dims).getD i 0) dims
      = values.set i (values.getD i 0 + 1) := by
  rw [← index_raise h.length_eq hi, digits_index (valid_set h hroom)]

end Qudit.Radix
