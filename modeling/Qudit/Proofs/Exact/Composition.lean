import Mathlib.Data.Matrix.Mul
import Qudit.Proofs.Exact.Operator

/-!
# Operators in a row

In exact arithmetic two operators in a row obey two laws.

Independent operators can be exchanged (`State.apply_comm_of_apart`): neither has a target that
the other one reaches, as a target or as a control. Controls may be shared, and may ask for
different values at one site, so that never more than one of the operators does anything. The
matrices are any matrices of the right sizes, and not even the test by which the kernel tells a
diagonal matrix has to be right: an operator is linear also where it is taken for its diagonal.

Operators at one placement compose as their matrices do (`State.apply_mul`), and the identity
leaves every state as it is. Here the test matters, for a product of two matrices may be
diagonal where neither of them is. It has to be passed by zero only.
-/

namespace Qudit

open Radix Kernel

variable {α : Type} [CommSemiring α]

namespace Mat

/-- A square matrix as one whose size is known only when the program runs. -/
def ofMatrix {n : Nat} (M : Matrix (Fin n) (Fin n) α) : Mat α := ⟨n, n, M⟩

theorem coeff_ofMatrix {n : Nat} (M : Matrix (Fin n) (Fin n) α) (i j : Fin n) :
    (ofMatrix M).coeff i j = M i j :=
  dif_pos ⟨i.isLt, j.isLt⟩

/-- The coefficients of a product of matrices. -/
theorem coeff_ofMatrix_mul {n : Nat} (M N : Matrix (Fin n) (Fin n) α) {i j : Nat} (hi : i < n)
    (hj : j < n) :
    (ofMatrix (N * M)).coeff i j
      = ∑ k ∈ Finset.range n, (ofMatrix N).coeff i k * (ofMatrix M).coeff k j := by
  rw [Finset.sum_range]
  refine (coeff_ofMatrix (N * M) ⟨i, hi⟩ ⟨j, hj⟩).trans ((Matrix.mul_apply).trans ?_)
  refine Finset.sum_congr rfl fun k _ => ?_
  rw [← coeff_ofMatrix N, ← coeff_ofMatrix M]

/-- The coefficients of the identity. -/
theorem coeff_ofMatrix_one {n : Nat} {i j : Nat} (hi : i < n) (hj : j < n) :
    (ofMatrix (1 : Matrix (Fin n) (Fin n) α)).coeff i j = if i = j then 1 else 0 := by
  refine (coeff_ofMatrix 1 ⟨i, hi⟩ ⟨j, hj⟩).trans ?_
  rw [Matrix.one_apply]
  simp only [Fin.mk.injEq]

end Mat

/-- **The square matrices of the size of some sites**: their rows and columns are the basis
states of the sites. -/
abbrev SiteMatrix (α : Type) (dims sites : List Nat) : Type :=
  Matrix (Fin (total (restrict dims sites))) (Fin (total (restrict dims sites))) α

namespace State

variable [Negligible α] {s : State α} {targets controls : List Nat} {configs : List Bool}

/-- **Independent operators commute.** Where neither of two placed operators has a target among
the targets or the controls of the other, either order of applying them leaves the same
state. -/
theorem apply_comm_of_apart {targets' controls' : List Nat} {configs' : List Bool}
    (h : Placement s.dims targets controls configs)
    (h' : Placement s.dims targets' controls' configs')
    (hapart : ∀ t ∈ targets, t ∉ targets' ∧ t ∉ controls') (hapart' : ∀ t ∈ targets', t ∉ controls)
    {m n : Mat α} (hmrows : m.rows = total (restrict s.dims targets))
    (hmcols : m.cols = total (restrict s.dims targets))
    (hnrows : n.rows = total (restrict s.dims targets'))
    (hncols : n.cols = total (restrict s.dims targets')) :
    ∃ u, (do State.apply m targets controls configs
             State.apply n targets' controls' configs' : OnState α Unit) s = .ok () u ∧
      (do State.apply n targets' controls' configs'
          State.apply m targets controls configs : OnState α Unit) s = .ok () u := by
  obtain ⟨t, u, hfirst, hsecond, -, hu, hamp⟩ :=
    exists_apply_apply h h' hmrows hmcols hnrows hncols
  obtain ⟨t', u', hfirst', hsecond', -, hu', hamp'⟩ :=
    exists_apply_apply h' h hnrows hncols hmrows hmcols
  have hsame : u' = u := by
    refine ext_amp (hu'.trans hu.symm) fun i hi => ?_
    rw [hu'] at hi
    rw [hamp i hi, hamp' i hi]
    exact image_comm h'.targets_lt (fun t ht => (hapart t ht).1)
      (fun t ht ht' => hapart' t ht' ht) (fun t ht ht' => (hapart t ht').2 ht) _ _ _ hi
  exact ⟨u, (EStateM.bind_ok hfirst).trans hsecond,
    (EStateM.bind_ok hfirst').trans (hsame ▸ hsecond')⟩

/-- A qutrit and a qubit under one more qubit that has to hold one for the first operator and
zero for the second, with matrices that are not unitary. -/
theorem apply_comm_of_apart_contradictory :
    let s : State (Amplitude ℝ) := ⟨[2, 3, 2], Vector.ofFn fun i => ⟨i.val, 1⟩⟩
    let m : Mat (Amplitude ℝ) := ⟨3, 3, fun i j => ⟨i.val, j.val⟩⟩
    let n : Mat (Amplitude ℝ) := ⟨2, 2, fun i j => ⟨i.val + j.val, 2⟩⟩
    Placement s.dims [1] [0] [true] ∧ Placement s.dims [2] [0] [false] ∧
      (∀ t ∈ [1], t ∉ [2] ∧ t ∉ [0]) ∧ (∀ t ∈ [2], t ∉ [0]) ∧
      m.rows = total (restrict s.dims [1]) ∧ m.cols = total (restrict s.dims [1]) ∧
      n.rows = total (restrict s.dims [2]) ∧ n.cols = total (restrict s.dims [2]) ∧
      ∃ u, (do State.apply m [1] [0] [true]
               State.apply n [2] [0] [false] : OnState (Amplitude ℝ) Unit) s = .ok () u ∧
        (do State.apply n [2] [0] [false]
            State.apply m [1] [0] [true] : OnState (Amplitude ℝ) Unit) s = .ok () u := by
  intro s m n
  have h : Placement s.dims [1] [0] [true] := ⟨by decide, by decide, by decide, rfl⟩
  have h' : Placement s.dims [2] [0] [false] := ⟨by decide, by decide, by decide, rfl⟩
  have hapart : ∀ t ∈ [1], t ∉ [2] ∧ t ∉ [0] := by decide
  have hapart' : ∀ t ∈ [2], t ∉ [0] := by decide
  exact ⟨h, h', hapart, hapart', rfl, rfl, rfl, rfl,
    apply_comm_of_apart h h' hapart hapart' rfl rfl rfl rfl⟩

/-- **Operators at one placement compose as their matrices do.** To apply a matrix and then
another one is to apply their product, whichever of the three the kernel takes for a diagonal
matrix; and the identity leaves the state as it is. -/
theorem apply_mul [LawfulNegligible α] (h : Placement s.dims targets controls configs)
    (M N : SiteMatrix α s.dims targets) :
    (∃ u, (do State.apply (.ofMatrix M) targets controls configs
              State.apply (.ofMatrix N) targets controls configs : OnState α Unit) s = .ok () u ∧
        State.apply (.ofMatrix (N * M)) targets controls configs s = .ok () u) ∧
      State.apply (.ofMatrix (1 : SiteMatrix α s.dims targets)) targets controls configs s
        = .ok () s := by
  constructor
  · obtain ⟨t, u, hfirst, hsecond, -, hu, hamp⟩ :=
      exists_apply_apply (m := .ofMatrix M) (n := .ofMatrix N) h h rfl rfl rfl rfl
    obtain ⟨v, hrun, hv, hamp'⟩ := exists_apply_image (m := .ofMatrix (N * M)) h rfl rfl
    have hsame : v = u := by
      refine ext_amp (hv.trans hu.symm) fun i hi => ?_
      rw [hv] at hi
      rw [hamp i hi, hamp' i hi, computed_eq_coeff, computed_eq_coeff, computed_eq_coeff,
        h.image_image _ _ _ hi]
      exact image_congr h.targets_lt hi
        (fun j hj k hk => Mat.coeff_ofMatrix_mul M N hj hk) fun _ _ => rfl
    exact ⟨u, (EStateM.bind_ok hfirst).trans hsecond, hsame ▸ hrun⟩
  · obtain ⟨t, hrun, ht, hamp⟩ :=
      exists_apply_image (m := .ofMatrix (1 : SiteMatrix α s.dims targets)) h rfl rfl
    have hsame : t = s := by
      refine ext_amp ht fun i hi => ?_
      rw [ht] at hi
      rw [hamp i hi, computed_eq_coeff]
      exact (image_congr h.targets_lt hi (fun j hj k hk => Mat.coeff_ofMatrix_one hj hk)
        fun _ _ => rfl).trans (h.image_one _ hi)
    exact hsame ▸ hrun

/-- A flip of a qubit under a qutrit that has to hold one: its matrix is not diagonal and that
of two flips is, and two flips change nothing. -/
theorem apply_mul_flip :
    let s : State (Amplitude ℝ) := ⟨[2, 3], Vector.ofFn fun i => ⟨i.val, 1⟩⟩
    let flip : SiteMatrix (Amplitude ℝ) s.dims [0] := fun i j => if i = j then 0 else 1
    Placement s.dims [0] [1] [true] ∧ flip * flip = 1 ∧
      (do State.apply (.ofMatrix flip) [0] [1] [true]
          State.apply (.ofMatrix flip) [0] [1] [true] : OnState (Amplitude ℝ) Unit) s
        = .ok () s := by
  intro s flip
  have h : Placement s.dims [0] [1] [true] := ⟨by decide, by decide, by decide, rfl⟩
  have hflip : flip * flip = 1 := by
    ext i j : 1
    rw [Matrix.mul_apply, Matrix.one_apply]
    revert i j
    show ∀ i j : Fin 2, ∑ k : Fin 2, (if i = k then 0 else 1 : Amplitude ℝ)
      * (if k = j then 0 else 1) = if i = j then 1 else 0
    intro i j
    rw [Fin.sum_univ_two]
    fin_cases i <;> fin_cases j <;> simp
  obtain ⟨⟨u, htwice, hproduct⟩, hone⟩ := apply_mul h flip flip
  obtain ⟨⟩ : EStateM.Result.ok () u = EStateM.Result.ok () s :=
    hproduct.symm.trans (hflip ▸ hone)
  exact ⟨h, hflip, htwice⟩

end State

end Qudit
