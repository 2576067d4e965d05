import Mathlib.Data.List.Forall2
import Mathlib.Tactic.Ring
import Qudit.Proofs.Computation
import Qudit.Proofs.Radix.Digits

/-!
# The order of positions

Positions are numbered in the lexicographic order of their digits: of two digit vectors that a
register can hold, the one that comes first has the smaller position (`index_lt_index_iff`). So
the two translations between positions and digits are an isomorphism of orders, and the list of
all positions in order, `Radix.basis`, is the list of all valid digit vectors in lexicographic
order, each of them once (`pairwise_basis`, `mem_basis`).

Over a site of dimension zero there are neither positions nor valid digits, and the list is
empty. It is so before any digit is asked for, so that the listing never meets the fault of
writing a number over such a site (`checked_basis`).
-/

namespace Qudit.Radix

variable {dims v w : List Nat} {j k : Nat}

/-- Numbers of two places are compared at the first place, and at the second one where they agree
at the first. -/
theorem mul_add_lt_iff {a b t x y : Nat} (hx : x < t) (hy : y < t) :
    a * t + x < b * t + y ↔ a < b ∨ a = b ∧ x < y := by
  obtain h | rfl | h := Nat.lt_trichotomy a b
  · have hle : (a + 1) * t ≤ b * t := Nat.mul_le_mul_right t h
    have hsucc : (a + 1) * t = a * t + t := by ring
    exact iff_of_true (by omega) (.inl h)
  · simp
  · have hle : (b + 1) * t ≤ a * t := Nat.mul_le_mul_right t h
    have hsucc : (b + 1) * t = b * t + t := by ring
    exact iff_of_false (by omega) (by omega)

/-- **Positions are in the lexicographic order of their digits.** -/
theorem index_lt_index_iff (hv : Valid dims v) (hw : Valid dims w) :
    index v dims < index w dims ↔ v < w := by
  induction hv generalizing w with
  | nil =>
    cases hw
    simp
  | @cons a d vs ds ha hvs ih =>
    obtain _ | ⟨hb, hws⟩ := hw
    rw [index_cons hvs.length_eq, index_cons hws.length_eq,
      mul_add_lt_iff (index_lt_total hvs) (index_lt_total hws), ih hws, List.cons_lt_cons_iff]

theorem digits_lt_digits_iff (hj : j < total dims) (hk : k < total dims) :
    digits j dims < digits k dims ↔ j < k := by
  rw [← index_lt_index_iff (valid_digits_of_lt hj) (valid_digits_of_lt hk), index_digits_of_lt hj,
    index_digits_of_lt hk]

/-! ## The list of all positions -/

/-- **The list holds every valid digit vector**, with its position. -/
theorem mem_basis : (k, v) ∈ basis dims ↔ Valid dims v ∧ index v dims = k := by
  simp only [basis, List.mem_map, List.mem_range, Prod.mk.injEq]
  constructor
  · rintro ⟨j, hj, rfl, rfl⟩
    exact ⟨valid_digits_of_lt hj, index_digits_of_lt hj⟩
  · rintro ⟨hv, rfl⟩
    exact ⟨_, index_lt_total hv, rfl, digits_index hv⟩

/-- **The list is in lexicographic order**, and no digit vector is in it twice. -/
theorem pairwise_basis (dims : List Nat) : (basis dims).Pairwise fun p q => p.2 < q.2 := by
  refine List.pairwise_map.mpr (List.pairwise_lt_range.imp_of_mem fun {j k} hj hk hjk => ?_)
  exact (digits_lt_digits_iff (List.mem_range.mp hj) (List.mem_range.mp hk)).mpr hjk

/-! ## Sites of dimension zero -/

theorem checkedDigits_of_pos (hpos : ∀ d ∈ dims, 0 < d) (k : Nat) :
    checkedDigits k dims = .ok (digits k dims) := by
  have hzero : ¬dims.contains 0 = true := fun h =>
    Nat.lt_irrefl 0 (hpos 0 (List.contains_iff_mem.mp h))
  rw [checkedDigits, if_neg hzero]

theorem basis_of_zero_mem (h : 0 ∈ dims) : basis dims = [] := by
  rw [basis, (total_eq_zero_iff dims).mpr h]
  rfl

/-- **No digit of the list is asked for over a site of dimension zero.** -/
theorem checked_basis (dims : List Nat) :
    (List.range (total dims)).mapM (fun k => do return (k, ← checkedDigits k dims))
      = .ok (basis dims) :=
  Except.mapM_ok fun k hk => by
    rw [checkedDigits_of_pos (pos_of_lt_total (List.mem_range.mp hk))]
    rfl

end Qudit.Radix
