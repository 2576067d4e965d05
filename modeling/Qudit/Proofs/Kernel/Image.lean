import Mathlib.Algebra.BigOperators.Group.Finset.Sigma
import Mathlib.Algebra.BigOperators.Ring.Finset
import Qudit.Proofs.Kernel.Blocks

/-!
# Operators as linear maps of amplitudes

What a local operator makes of the amplitudes of a register is a formula in its coefficients
(`Kernel.image`): an amplitude whose controls hold their configuration is replaced by a row of
coefficients against its own block, and any other one stays. Here the amplitudes are a function
of the position, and neither the enumeration of the blocks nor the order of the writes is left
in the formula.

Applied at one placement, operators compose as the matrices of their coefficients do
(`Kernel.Placement.image_image`). At two placements they can be exchanged, if neither reaches
the targets of the other (`Kernel.Placement.image_comm`): then an operator keeps the controls
and the target digits that the other one looks at, and a position is moved along both in either
order. The controls of the two may be the same sites.
-/

namespace Qudit

open Radix

namespace Kernel

variable {α : Type} [CommSemiring α]

/-- **The amplitudes that an operator makes of others**, given by its coefficients between the
basis states of the targets. -/
def image (dims targets controls : List Nat) (configs : List Bool) (c : Nat → Nat → α)
    (amps : Nat → α) (i : Nat) : α :=
  if Holds dims controls configs i then
    ∑ j ∈ Finset.range (total (restrict dims targets)),
      c (slot dims targets i) j * amps (moved dims targets i (digits j (restrict dims targets)))
  else amps i

variable {dims targets controls : List Nat} {configs : List Bool} {b c : Nat → Nat → α}
  {amps amps' : Nat → α} {i : Nat}

theorem image_of_holds (hc : Holds dims controls configs i) :
    image dims targets controls configs c amps i
      = ∑ j ∈ Finset.range (total (restrict dims targets)), c (slot dims targets i) j
          * amps (moved dims targets i (digits j (restrict dims targets))) :=
  if_pos hc

theorem image_of_not_holds (hc : ¬Holds dims controls configs i) :
    image dims targets controls configs c amps i = amps i :=
  if_neg hc

/-- Only coefficients between basis states of the targets and amplitudes of the block are looked
at. -/
theorem image_congr (ht : ∀ t ∈ targets, t < dims.length) (hi : i < total dims)
    (hcoeff : ∀ j < total (restrict dims targets), ∀ k < total (restrict dims targets),
      b j k = c j k)
    (hamps : ∀ levels, Valid (restrict dims targets) levels →
      amps (moved dims targets i levels) = amps' (moved dims targets i levels)) :
    image dims targets controls configs b amps i
      = image dims targets controls configs c amps' i := by
  unfold image
  refine ite_congr rfl (fun _ => Finset.sum_congr rfl fun j hj => ?_) fun _ => ?_
  · have hj := Finset.mem_range.mp hj
    rw [hcoeff _ (slot_lt hi ht) _ hj, hamps _ (valid_digits_of_lt hj)]
  · have hself := hamps _ (valid_restrict (valid_digits_of_lt hi) ht)
    rwa [Placement.moved_restrict hi] at hself

/-- **An operator is linear** in the amplitudes. -/
theorem image_sum (n : Nat) (a : Nat → α) (f : Nat → Nat → α) :
    image dims targets controls configs c (fun k => ∑ l ∈ Finset.range n, a l * f l k) i
      = ∑ l ∈ Finset.range n, a l * image dims targets controls configs c (f l) i := by
  by_cases hc : Holds dims controls configs i
  · simp only [image_of_holds hc, Finset.mul_sum]
    rw [Finset.sum_comm]
    exact Finset.sum_congr rfl fun l _ => Finset.sum_congr rfl fun j _ => mul_left_comm _ _ _
  · simp only [image_of_not_holds hc]

/-- **An operator sees through a move along sites that it does not reach.** -/
theorem image_moved {others levels : List Nat} (htargets : ∀ t ∈ targets, t ∉ others)
    (hcontrols : ∀ t ∈ controls, t ∉ others) (hi : i < total dims)
    (hl : Valid (restrict dims others) levels) :
    image dims targets controls configs c amps (moved dims others i levels)
      = image dims targets controls configs c (fun k => amps (moved dims others k levels)) i := by
  unfold image
  refine ite_congr ?_ (fun _ => Finset.sum_congr rfl fun j hj => ?_) fun _ => rfl
  · exact propext (holds_moved_of_disjoint hcontrols hi hl)
  · have hvalid := valid_digits_of_lt (Finset.mem_range.mp hj)
    rw [slot_moved_of_disjoint htargets hi hl, ← moved_comm htargets hi hvalid hl]

namespace Placement

/-- **At one placement, operators compose as their matrices do.** -/
theorem image_image (h : Placement dims targets controls configs) (b c : Nat → Nat → α)
    (amps : Nat → α) (hi : i < total dims) :
    image dims targets controls configs b (image dims targets controls configs c amps) i
      = image dims targets controls configs
          (fun j l => ∑ k ∈ Finset.range (total (restrict dims targets)), b j k * c k l)
          amps i := by
  by_cases hc : Holds dims controls configs i
  · rw [image_of_holds hc, image_of_holds hc]
    set d := restrict dims targets
    -- every amplitude of the block is a sum over the same block
    have hblock : ∀ k ∈ Finset.range (total d),
        image dims targets controls configs c amps (moved dims targets i (digits k d))
          = ∑ l ∈ Finset.range (total d), c k l * amps (moved dims targets i (digits l d)) := by
      intro k hk
      have hk := Finset.mem_range.mp hk
      have hvalid := valid_digits_of_lt hk
      rw [image_of_holds ((h.holds_moved hi hvalid).mpr hc), h.slot_moved hi hvalid,
        index_digits_of_lt hk]
      refine Finset.sum_congr rfl fun l hl => ?_
      rw [h.moved_moved hi hvalid (valid_digits_of_lt (Finset.mem_range.mp hl))]
    calc ∑ k ∈ Finset.range (total d), b (slot dims targets i) k
          * image dims targets controls configs c amps (moved dims targets i (digits k d))
        = ∑ k ∈ Finset.range (total d), ∑ l ∈ Finset.range (total d),
            b (slot dims targets i) k * c k l * amps (moved dims targets i (digits l d)) := by
          refine Finset.sum_congr rfl fun k hk => ?_
          rw [hblock k hk, Finset.mul_sum]
          exact Finset.sum_congr rfl fun l _ => (mul_assoc _ _ _).symm
      _ = ∑ l ∈ Finset.range (total d),
            (∑ k ∈ Finset.range (total d), b (slot dims targets i) k * c k l)
              * amps (moved dims targets i (digits l d)) := by
          rw [Finset.sum_comm]
          exact Finset.sum_congr rfl fun l _ => (Finset.sum_mul _ _ _).symm
  · rw [image_of_not_holds hc, image_of_not_holds hc, image_of_not_holds hc]

/-- The coefficients of the identity change nothing. -/
theorem image_one (h : Placement dims targets controls configs) (amps : Nat → α)
    (hi : i < total dims) :
    image dims targets controls configs (fun j k => if j = k then 1 else 0) amps i = amps i := by
  by_cases hc : Holds dims controls configs i
  · have hslot := slot_lt hi h.targets_lt
    rw [image_of_holds hc, Finset.sum_eq_single_of_mem _ (Finset.mem_range.mpr hslot)]
    · rw [if_pos rfl, one_mul, digits_slot hi h.targets_lt, moved_restrict hi]
    · intro j _ hj
      rw [if_neg hj.symm, zero_mul]
  · exact image_of_not_holds hc

end Placement

/-- **Operators that do not reach each other's targets can be exchanged.** -/
theorem image_comm {targets' controls' : List Nat} {configs' : List Bool}
    (htargets' : ∀ t ∈ targets', t < dims.length) (hapart : ∀ t ∈ targets, t ∉ targets')
    (hcontrols : ∀ t ∈ controls, t ∉ targets') (hcontrols' : ∀ t ∈ controls', t ∉ targets)
    (b c : Nat → Nat → α) (amps : Nat → α) (hi : i < total dims) :
    image dims targets controls configs b (image dims targets' controls' configs' c amps) i
      = image dims targets' controls' configs' c
          (image dims targets controls configs b amps) i := by
  by_cases hc : Holds dims controls configs i
  · -- a row of the first operator is a sum of moved amplitudes, along the block of the second
    calc image dims targets controls configs b (image dims targets' controls' configs' c amps) i
        = ∑ j ∈ Finset.range (total (restrict dims targets)), b (slot dims targets i) j
            * image dims targets' controls' configs' c
                (fun k => amps (moved dims targets k (digits j (restrict dims targets)))) i := by
          rw [image_of_holds hc]
          refine Finset.sum_congr rfl fun j hj => ?_
          rw [image_moved (fun t ht ht' => hapart t ht' ht) hcontrols' hi
            (valid_digits_of_lt (Finset.mem_range.mp hj))]
      _ = image dims targets' controls' configs' c
            (fun k => ∑ j ∈ Finset.range (total (restrict dims targets)),
              b (slot dims targets i) j
                * amps (moved dims targets k (digits j (restrict dims targets)))) i :=
          (image_sum _ _ _).symm
      _ = image dims targets' controls' configs' c
            (image dims targets controls configs b amps) i := by
          refine image_congr htargets' hi (fun _ _ _ _ => rfl) fun levels hl => ?_
          rw [image_of_holds ((holds_moved_of_disjoint hcontrols hi hl).mpr hc),
            slot_moved_of_disjoint hapart hi hl]
  · rw [image_of_not_holds hc]
    refine image_congr htargets' hi (fun _ _ _ _ => rfl) fun levels hl => ?_
    rw [image_of_not_holds fun hmoved => hc ((holds_moved_of_disjoint hcontrols hi hl).mp hmoved)]

end Kernel

end Qudit
