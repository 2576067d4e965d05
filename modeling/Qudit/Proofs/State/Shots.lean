import Qudit.Proofs.Simulation.Draws
import Qudit.Proofs.State.Vanishing

/-!
# Drawing with and without a collapse

Outcomes can be drawn many at a time, which leaves the state as it is, or one at a time, each
with a collapse. The two go different ways: shots are drawn among weights that are computed once,
and where no sites are listed these are the squared moduli as they stand, read over the
dimensions of the register; a measurement lists all sites in this case and sums up the weight of
each outcome. And yet every shot is the outcome that a measurement of the same state gives for
the same word (`State.sample_eq_measure`), whatever the state is: its norm may be anything, and
from the zero vector as well an outcome is drawn, which is the last one.

Nothing is asked of the scalars but this: where no sites are listed, a squared modulus that is
added to zero must come out as it was. It does over the real numbers and in floating point, where
a squared modulus is never a negative zero.
-/

namespace Qudit

open Radix Kernel

variable {R : Type} [Scalar R]

namespace State

/-- **The sites that are measured**: those that are listed, or all of them in order. -/
def sitesRead (s : State (Amplitude R)) (sites : Option (List Nat)) : List Nat :=
  sites.getD (List.range s.numSites)

variable {s : State (Amplitude R)} {sites : Option (List Nat)}

omit [Scalar R] in
/-- Sites that are read exist, if those that are listed do. -/
theorem sitesRead_lt (hsites : ∀ listed, sites = some listed → ∀ i ∈ listed, i < s.dims.length) :
    ∀ i ∈ s.sitesRead sites, i < s.dims.length := by
  cases sites with
  | none => exact fun i hi => List.mem_range.mp hi
  | some listed => exact hsites listed rfl

/-- Measuring where no sites are listed is measuring all of them. -/
theorem measure_eq_measure_some (source : Source) :
    State.measure sites (s, source) = State.measure (some (s.sitesRead sites)) (s, source) := rfl

/-- **The weights that shots are drawn from** are those that a measurement draws from. -/
theorem probs_eq_marginal (hzero : sites = none → ∀ z : Amplitude R, 0 + z.normSq = z.normSq) :
    s.probs sites = s.marginal (s.sitesRead sites) := by
  cases sites with
  | none => exact (marginal_range_of_zero_add s (hzero rfl)).symm
  | some listed => rfl

omit [Scalar R] in
/-- The dimensions that outcomes are read over are those of the sites. -/
theorem siteDims_eq (hsites : ∀ i ∈ s.sitesRead sites, i < s.dims.length) :
    s.siteDims sites = .ok (restrict s.dims (s.sitesRead sites)) := by
  cases sites with
  | none => exact congrArg Except.ok (restrict_range s.dims).symm
  | some listed => exact mapM_entryAt hsites

/-- **Drawing outcomes takes one word for each of them**, and none of them depends on more than
its own word. -/
theorem drawOutcomes_eq (weights : List R) {dims : List Nat} (hpos : 0 ∉ dims) (shots : Nat)
    (source : Source) :
    drawOutcomes weights dims shots source
      = .ok ((List.range shots).map fun k =>
          digits (pick weights (source.skip k).nextUnit.1) dims) (source.skip shots) := by
  induction shots generalizing source with
  | zero => rfl
  | succ shots ih =>
    have hrest : ∀ k, source.next.2.skip k = source.skip (k + 1) := source.skip_next
    have houtcome : outcome weights dims source.nextUnit.1
        = .ok (digits (pick weights source.nextUnit.1) dims) := by
      rw [outcome_eq, if_neg hpos]
    simp only [drawOutcomes, houtcome]
    rw [EStateM.bind_ok (ih source.next.2), List.range_succ_eq_map, List.map_cons, List.map_map,
      hrest shots]
    simp only [hrest]
    rfl

/-- **Each shot is what a measurement reads** for the word that it draws. -/
theorem sample_eq_measured (hsites : ∀ i ∈ s.sitesRead sites, i < s.dims.length)
    (hpos : ∀ d ∈ s.dims, 0 < d)
    (hzero : sites = none → ∀ z : Amplitude R, 0 + z.normSq = z.normSq) (shots : Nat)
    (source : Source) :
    s.sample sites shots source
      = .ok ((List.range shots).map fun k =>
          s.measured (s.sitesRead sites) (source.skip k).nextUnit.1) (source.skip shots) := by
  have hdims : 0 ∉ restrict s.dims (s.sitesRead sites) :=
    fun h0 => absurd (pos_restrict hpos hsites 0 h0) (lt_irrefl 0)
  rw [sample, probs_eq_marginal hzero, marginal_ok s hsites, siteDims_eq hsites]
  exact drawOutcomes_eq _ hdims shots source

/-- **Shots and measurements agree.** Over sites of positive dimension, drawing any number of
shots at sites that exist, or at all sites, never fails, and takes one word for each shot. A
measurement at the same sites never fails either and takes one word. For a source whose next word
is the one that a shot has drawn, its outcome is this shot. Each value of an outcome is one that
its site can hold. -/
theorem sample_eq_measure (hpos : ∀ d ∈ s.dims, 0 < d) (sites : Option (List Nat))
    (hsites : ∀ listed, sites = some listed → ∀ i ∈ listed, i < s.dims.length)
    (hzero : sites = none → ∀ z : Amplitude R, 0 + z.normSq = z.normSq) (shots : Nat)
    (source : Source) :
    ∃ outcomes, s.sample sites shots source = .ok outcomes (source.skip shots) ∧
      outcomes.length = shots ∧
      ∀ k < shots, ∀ source' : Source, source'.next.1 = (source.skip k).next.1 →
        ∃ values t, State.measure sites (s, source') = .ok values (t, source'.skip 1) ∧
          outcomes[k]? = some values ∧
          List.Forall₂ (fun site value => value < s.dims.getD site 0) (s.sitesRead sites)
            values := by
  have hsites := sitesRead_lt hsites
  refine ⟨_, sample_eq_measured hsites hpos hzero shots source, by simp, ?_⟩
  intro k hk source' hword
  have hmeasure := measure_ok s hsites hpos source'
  refine ⟨_, _, (measure_eq_measure_some source').trans hmeasure, ?_,
    measured_lt s hsites hpos _⟩
  rw [List.getElem?_map, List.getElem?_range hk, Option.map_some, Source.nextUnit, ← hword]
  rfl

/-- The zero vector of a qubit and a qutrit, with all sites drawn and with the qutrit listed
twice: the second of three shots is what a measurement reads for the second word alone. With all
sites it is the last outcome. -/
theorem sample_eq_measure_zero_vector :
    let s : State (Amplitude ℝ) := ⟨[2, 3], #v[0, 0, 0, 0, 0, 0]⟩
    let source : Source := .ofWords #[7, 8, 9]
    (∀ d ∈ s.dims, 0 < d) ∧ (∀ z : Amplitude ℝ, 0 + z.normSq = z.normSq) ∧
      (∀ i ∈ [1, 0, 1], i < s.dims.length) ∧
      (∃ outcomes t, s.sample none 3 source = .ok outcomes (source.skip 3) ∧
        State.measure none (s, .ofWords #[8]) = .ok [1, 2] (t, (Source.ofWords #[8]).skip 1) ∧
        outcomes[1]? = some [1, 2]) ∧
      ∃ outcomes values t, s.sample (some [1, 0, 1]) 3 source = .ok outcomes (source.skip 3) ∧
        State.measure (some [1, 0, 1]) (s, .ofWords #[8])
          = .ok values (t, (Source.ofWords #[8]).skip 1) ∧
        outcomes[1]? = some values := by
  intro s source
  have hpos : ∀ d ∈ s.dims, 0 < d := by decide
  have hzero : ∀ z : Amplitude ℝ, 0 + z.normSq = z.normSq := fun _ => zero_add _
  have hsites : ∀ i ∈ [1, 0, 1], i < s.dims.length := by decide
  have hword : (Source.ofWords #[8]).next.1 = (source.skip 1).next.1 := rfl
  refine ⟨hpos, hzero, hsites, ?_, ?_⟩
  · obtain ⟨outcomes, hsample, -, hshots⟩ := sample_eq_measure hpos none
      (fun _ hlisted => by cases hlisted) (fun _ => hzero) 3 source
    obtain ⟨values, t, hmeasure, hshot, -⟩ := hshots 1 (by decide) _ hword
    have hsum : Scalar.sum s.weights = 0 := by
      have hweights : s.weights = [0, 0, 0, 0, 0, 0] := by
        show [_, _, _, _, _, _] = _
        simp
      rw [hweights, Scalar.sum_eq]
      simp
    have hall : ∀ i ∈ [0, 1], i < s.dims.length := by decide
    have hlast : s.measured [0, 1] (Source.ofWords #[8]).nextUnit.1 = [1, 2] :=
      measured_of_sum_le hall hpos (hsum.trans_le (Source.unit_mem _).1)
    have hread := measure_ok s hall hpos (.ofWords #[8])
    rw [hlast] at hread
    obtain ⟨⟩ := hmeasure.symm.trans hread
    exact ⟨outcomes, _, hsample, hmeasure, hshot⟩
  · obtain ⟨outcomes, hsample, -, hshots⟩ := sample_eq_measure hpos (some [1, 0, 1])
      (fun _ hlisted => Option.some.inj hlisted ▸ hsites) (fun hnone => by cases hnone) 3 source
    obtain ⟨values, t, hmeasure, hshot, -⟩ := hshots 1 (by decide) _ hword
    exact ⟨outcomes, values, t, hsample, hmeasure, hshot⟩

end State

end Qudit
