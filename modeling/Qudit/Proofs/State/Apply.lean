import Qudit.Proofs.Kernel.Apply
import Qudit.State.Apply

/-!
# Local operators on a register state

A state is read by its amplitudes (`State.amp`); two states of one register
with the same amplitudes are the same (`State.ext_amp`). Applying a matrix
at a placement succeeds and leaves the dimensions as they are, and the new
amplitudes are those of `Kernel.localImage` (`State.apply_ok`).
-/

namespace Qudit

open Radix Kernel

namespace State

variable {α : Type} [Zero α]

/-- The amplitude at a position, zero where there is none. -/
def amp (s : State α) (i : Nat) : α := ampAt s.amps i

/-- **States of one register with the same amplitudes are the same.** -/
theorem ext_amp {s t : State α} (hdims : s.dims = t.dims)
    (h : ∀ i < total s.dims, s.amp i = t.amp i) : s = t := by
  obtain ⟨dims, amps⟩ := s
  obtain ⟨dims', amps'⟩ := t
  obtain rfl : dims = dims' := hdims
  congr 1
  exact InPlace.ext_ampAt h

/-- The amplitude of a state given by its amplitudes. -/
theorem amp_mk {dims : List Nat} (amps : Vector α (total dims)) {i : Nat} (hi : i < total dims) :
    (⟨dims, amps⟩ : State α).amp i = amps[i] :=
  InPlace.ampAt_of_lt hi

theorem weights_eq {R : Type} [Scalar R] (s : State (Amplitude R)) :
    s.weights = (List.range (total s.dims)).map fun i => (s.amp i).normSq := by
  refine List.ext_getElem (by simp [weights]) fun i hi _ => ?_
  have hi : i < total s.dims := by simpa [weights] using hi
  simp only [weights, List.getElem_map, List.getElem_range, Vector.getElem_toList]
  exact congrArg Amplitude.normSq (InPlace.ampAt_of_lt hi).symm

variable [Add α] [Mul α] [Negligible α]

/-- **Applying a matrix at a placement** rewrites each block whose controls
hold their configuration, and leaves the rest of the state as it is. -/
theorem apply_ok {s : State α} {targets controls : List Nat} {configs : List Bool}
    (h : Placement s.dims targets controls configs) {m : Mat α}
    (hrows : m.rows = total (restrict s.dims targets))
    (hcols : m.cols = total (restrict s.dims targets)) :
    ∃ s', State.apply m targets controls configs s = .ok () s' ∧ s'.dims = s.dims ∧
      ∀ i < total s.dims, s'.amp i = if Holds s.dims controls configs i
        then localImage m ((List.range (total (restrict s.dims targets))).map fun k =>
          s.amp (moved s.dims targets i (digits k (restrict s.dims targets))))
          (slot s.dims targets i)
        else s.amp i := by
  obtain ⟨amps', hrun, hamps⟩ := Kernel.apply_ok h hrows hcols s.amps
  refine ⟨⟨s.dims, amps'⟩, ?_, rfl, hamps⟩
  unfold State.apply
  rw [inPlace, hrun]

end State

end Qudit
