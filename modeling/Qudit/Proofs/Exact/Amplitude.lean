import Mathlib.Analysis.SpecialFunctions.Trigonometric.Basic
import Qudit.State.Apply

/-!
# Exact arithmetic

Over the real numbers amplitudes are the complex numbers. They form a
commutative ring on the operations of the model itself, so that what holds
in every such ring holds of what the model computes, and the tests of the
model are exact: an amplitude contributes nothing, or has both parts zero,
only if it is zero.
-/

namespace Qudit

/-- **The real numbers as scalars.** Two of them are equal when they are the
same number. -/
noncomputable instance : Scalar ℝ where
  toZero := inferInstance
  toOne := inferInstance
  toNatCast := inferInstance
  toAdd := inferInstance
  toSub := inferInstance
  toMul := inferInstance
  toDiv := inferInstance
  toNeg := inferInstance
  toLT := inferInstance
  beq x y := decide (x = y)
  decidableLT := inferInstance
  sqrt := Real.sqrt
  cos := Real.cos
  sin := Real.sin
  pi := Real.pi

instance Scalar.lawfulBEqReal : LawfulBEq ℝ where
  eq_of_beq h := of_decide_eq_true h
  rfl := decide_eq_true rfl

/-- The order in which a sum is taken does not matter. -/
theorem Scalar.sum_eq (xs : List ℝ) : Scalar.sum xs = xs.sum :=
  List.sum_eq_foldl.symm

namespace Amplitude

attribute [ext] Amplitude

section

variable {R : Type} [Scalar R]

@[simp] theorem zero_re : (0 : Amplitude R).re = 0 := rfl
@[simp] theorem zero_im : (0 : Amplitude R).im = 0 := rfl
@[simp] theorem one_re : (1 : Amplitude R).re = 1 := rfl
@[simp] theorem one_im : (1 : Amplitude R).im = 0 := rfl
@[simp] theorem add_re (z w : Amplitude R) : (z + w).re = z.re + w.re := rfl
@[simp] theorem add_im (z w : Amplitude R) : (z + w).im = z.im + w.im := rfl
@[simp] theorem neg_re (z : Amplitude R) : (-z).re = -z.re := rfl
@[simp] theorem neg_im (z : Amplitude R) : (-z).im = -z.im := rfl
@[simp] theorem mul_re (z w : Amplitude R) : (z * w).re = z.re * w.re - z.im * w.im := rfl
@[simp] theorem mul_im (z w : Amplitude R) : (z * w).im = z.re * w.im + z.im * w.re := rfl
@[simp] theorem i_re : (i : Amplitude R).re = 0 := rfl
@[simp] theorem i_im : (i : Amplitude R).im = 1 := rfl
@[simp] theorem ofReal_re (x : R) : (ofReal x).re = x := rfl
@[simp] theorem ofReal_im (x : R) : (ofReal x).im = 0 := rfl
@[simp] theorem ofAngle_re (θ : R) : (ofAngle θ).re = Scalar.cos θ := rfl
@[simp] theorem ofAngle_im (θ : R) : (ofAngle θ).im = Scalar.sin θ := rfl
@[simp] theorem conj_re (z : Amplitude R) : z.conj.re = z.re := rfl
@[simp] theorem conj_im (z : Amplitude R) : z.conj.im = -z.im := rfl

end

/-- **Amplitudes over the real numbers form a commutative ring**, with the
operations that the model computes with. -/
noncomputable instance : CommRing (Amplitude ℝ) where
  add_assoc z w v := by ext <;> simp [add_assoc]
  zero_add z := by ext <;> simp
  add_zero z := by ext <;> simp
  add_comm z w := by ext <;> simp [add_comm]
  neg_add_cancel z := by ext <;> simp
  mul_assoc z w v := by ext <;> simp <;> ring
  one_mul z := by ext <;> simp
  mul_one z := by ext <;> simp
  left_distrib z w v := by ext <;> simp <;> ring
  right_distrib z w v := by ext <;> simp <;> ring
  zero_mul z := by ext <;> simp
  mul_zero z := by ext <;> simp
  mul_comm z w := by ext <;> simp <;> ring
  nsmul := nsmulRec
  zsmul := zsmulRec

/-! ## The squared modulus -/

theorem conj_mul_self (z : Amplitude ℝ) : z.conj * z = ofReal z.normSq := by
  ext
  · simp [normSq]
  · simp [mul_comm]

@[simp] theorem normSq_one : (1 : Amplitude ℝ).normSq = 1 := by
  simp [normSq]

@[simp] theorem normSq_zero : (0 : Amplitude ℝ).normSq = 0 := by
  simp [normSq]

@[simp] theorem divReal_one (z : Amplitude ℝ) : z.divReal 1 = z := by
  ext <;> simp [divReal]

/-- Dividing by a number that is not zero keeps amplitudes from vanishing. -/
theorem divReal_eq_zero {z : Amplitude ℝ} {x : ℝ} (hx : x ≠ 0) : z.divReal x = 0 ↔ z = 0 := by
  constructor
  · intro h
    have hre : z.re / x = 0 := congrArg re h
    have him : z.im / x = 0 := congrArg im h
    exact Amplitude.ext ((div_eq_zero_iff.mp hre).resolve_right hx)
      ((div_eq_zero_iff.mp him).resolve_right hx)
  · rintro rfl
    exact Amplitude.ext (zero_div x) (zero_div x)

theorem normSq_mul (z w : Amplitude ℝ) : (z * w).normSq = z.normSq * w.normSq := by
  simp only [normSq, mul_re, mul_im]
  ring

theorem normSq_nonneg (z : Amplitude ℝ) : 0 ≤ z.normSq :=
  add_nonneg (mul_self_nonneg z.re) (mul_self_nonneg z.im)

theorem normSq_eq_zero {z : Amplitude ℝ} : z.normSq = 0 ↔ z = 0 := by
  unfold normSq
  rw [mul_self_add_mul_self_eq_zero]
  exact ⟨fun ⟨hre, him⟩ => Amplitude.ext hre him, fun h => by simp [h]⟩

theorem isZero_iff {z : Amplitude ℝ} : z.isZero = true ↔ z = 0 := by
  unfold isZero
  rw [Bool.and_eq_true, beq_iff_eq, beq_iff_eq]
  exact ⟨fun ⟨hre, him⟩ => Amplitude.ext hre him, fun h => by simp [h]⟩

theorem negligible_iff {z : Amplitude ℝ} : Negligible.negligible z = true ↔ z = 0 :=
  beq_iff_eq.trans normSq_eq_zero

end Amplitude

end Qudit
