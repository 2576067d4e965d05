import Qudit.Proofs.Exact.Operator

/-!
# Scaling as a short cut for multiplying

A matrix that is zero off its diagonal need not be multiplied with anything: its product with a
block is the block with each amplitude scaled. The kernel takes this short cut, which reads the
diagonal once and writes each amplitude on its own, in place of gathering the blocks. In exact
arithmetic both loops leave the same amplitudes (`Kernel.scale_eq_multiply`), so that it makes
no difference by which test the kernel chooses between them.

The loops run over the same starts. These compare sites and configurations pair by pair, so that
where there are more controls than configurations, or more configurations than controls, those
left over are not looked at (`Kernel.starts_eq_take`).
-/

namespace Qudit

open Radix InPlace

variable {α : Type}

theorem Mat.coeff_of_entry [Zero α] {m : Mat α} (h : ∀ i j, i.val ≠ j.val → m.entry i j = 0)
    {i j : Nat} (hij : i ≠ j) : m.coeff i j = 0 := by
  unfold coeff
  split_ifs with hlt
  · exact h ⟨i, hlt.1⟩ ⟨j, hlt.2⟩ hij
  · rfl

namespace Kernel

variable {dims targets controls : List Nat} {configs : List Bool}

/-- **Only as many controls count as there are configurations**, and the other way round. -/
theorem starts_eq_take (dims targets controls : List Nat) (configs : List Bool) :
    starts dims targets controls configs
      = starts dims targets (controls.take (min controls.length configs.length))
          (configs.take (min controls.length configs.length)) := by
  have hzip : controls.zip (configs.map Bool.toNat)
      = (controls.take (min controls.length configs.length)).zip
          ((configs.take (min controls.length configs.length)).map Bool.toNat) := by
    rw [List.map_take, List.zip_eq_zip_take_min, List.length_map]
  unfold starts matching
  rw [List.zip_append (by simp), List.zip_append (by simp), hzip]

variable [CommSemiring α]

/-- **Scaling and multiplying agree on diagonal matrices.** At distinct sites that exist, with a
matrix of the size of the targets that is zero off its diagonal, both loops over the blocks come
to an end, and with the same amplitudes. So does the kernel, whichever of them its test for
entries that contribute nothing makes it take. -/
theorem scale_eq_multiply (htargets : ∀ t ∈ targets, t < dims.length)
    (hcontrols : ∀ c ∈ controls, c < dims.length) (hnodup : (controls ++ targets).Nodup)
    (configs : List Bool) {m : Mat α} (hrows : m.rows = total (restrict dims targets))
    (hcols : m.cols = total (restrict dims targets))
    (hdiag : ∀ i j, i.val ≠ j.val → m.entry i j = 0) (amps : Vector α (total dims)) :
    ∃ offsets starts amps', Kernel.offsets dims targets = .ok offsets ∧
      Kernel.starts dims targets controls configs = .ok starts ∧
      scale m offsets starts amps = .ok () amps' ∧
      multiply m offsets starts amps = .ok () amps' ∧
      ∀ [Negligible α], Kernel.apply dims m targets controls configs amps = .ok () amps' := by
  -- the controls that count are a placement with the targets
  set count := min controls.length configs.length with hcount
  have h : Placement dims targets (controls.take count) (configs.take count) :=
    ⟨htargets, fun c hc => hcontrols c (List.mem_of_mem_take hc),
      hnodup.sublist ((List.take_sublist _ _).append_right _),
      by rw [List.length_take, List.length_take]; omega⟩
  have hoffsets := offsets_ok htargets
  have hstarts := (starts_eq_take dims targets controls configs).trans h.starts_ok
  obtain ⟨scaled, hscale, hs⟩ := h.scale_ok h.starts_ok hrows hcols amps
  obtain ⟨multiplied, hmultiply, hm⟩ := h.multiply_ok h.starts_ok hrows hcols amps
  have hsame : multiplied = scaled := by
    refine ext_ampAt fun i hi => ?_
    rw [hm i hi, hs i hi, m.rowProduct_eq_sum,
      sum_mul_getD_of_single fun j hj => Mat.coeff_of_entry hdiag hj.symm]
  rw [hsame] at hmultiply
  refine ⟨_, _, scaled, hoffsets, hstarts, hscale, hmultiply, ?_⟩
  intro _
  unfold Kernel.apply
  rw [EStateM.bind_ok (ofExcept_ok hoffsets amps), EStateM.bind_ok (ofExcept_ok hstarts amps)]
  split_ifs
  · exact hscale
  · exact hmultiply

/-- Integers on a qutrit between two qubits, with one configuration for the two of them: the
first has to hold one, and the second is not looked at. -/
theorem scale_eq_multiply_qutrit :
    let m : Mat ℤ := ⟨3, 3, fun i j => if i.val = j.val then i.val + 2 else 0⟩
    let amps : Vector ℤ (total [2, 3, 2]) := Vector.ofFn fun i => i.val + 1
    (∀ t ∈ [1], t < [2, 3, 2].length) ∧ (∀ c ∈ [0, 2], c < [2, 3, 2].length) ∧
      ([0, 2] ++ [1]).Nodup ∧ m.rows = total (restrict [2, 3, 2] [1]) ∧
      m.cols = total (restrict [2, 3, 2] [1]) ∧ (∀ i j, i.val ≠ j.val → m.entry i j = 0) ∧
      ∃ amps', scale m [0, 2, 4] [6, 7] amps = .ok () amps' ∧
        multiply m [0, 2, 4] [6, 7] amps = .ok () amps' := by
  intro m amps
  have htargets : ∀ t ∈ [1], t < [2, 3, 2].length := by decide
  have hcontrols : ∀ c ∈ [0, 2], c < [2, 3, 2].length := by decide
  have hnodup : ([0, 2] ++ [1]).Nodup := by decide
  have hdiag : ∀ i j, i.val ≠ j.val → m.entry i j = 0 := fun _ _ hij => if_neg hij
  obtain ⟨offsets, starts, amps', hoffsets, hstarts, hscale, hmultiply, -⟩ :=
    scale_eq_multiply htargets hcontrols hnodup [true] (m := m) rfl rfl hdiag amps
  obtain rfl : [0, 2, 4] = offsets := Except.ok.inj hoffsets
  obtain rfl : [6, 7] = starts := Except.ok.inj hstarts
  exact ⟨htargets, hcontrols, hnodup, rfl, rfl, hdiag, amps', hscale, hmultiply⟩

end Kernel

end Qudit
