import Mathlib.Algebra.BigOperators.Group.List.Lemmas
import Mathlib.Data.List.Perm.Subperm
import Qudit.Proofs.Computation
import Qudit.Proofs.Radix.Digits

/-!
# Replacing the digits at some sites

A local operator sees a position as two things: the digits at its target
sites, and all the other digits. `Radix.restrict` reads the first;
`Radix.overwrite` replaces them and leaves the others. At distinct sites
that exist the two are inverse in the expected ways (`restrict_overwrite`,
`overwrite_restrict`, `overwrite_overwrite`), and the position splits into
a part that holds zero at the sites and an offset that depends on the
digits there only (`index_overwrite`).
-/

namespace Qudit.Radix

/-- **Digits with those at the listed sites replaced.** -/
def overwrite (values sites levels : List Nat) : List Nat :=
  (sites.zip levels).foldl (fun vs p => vs.set p.1 p.2) values

@[simp] theorem overwrite_nil (values levels : List Nat) : overwrite values [] levels = values :=
  rfl

@[simp] theorem overwrite_cons (values sites levels : List Nat) (s l : Nat) :
    overwrite values (s :: sites) (l :: levels) = overwrite (values.set s l) sites levels :=
  rfl

@[simp] theorem restrict_nil (values : List Nat) : restrict values [] = [] := rfl

@[simp] theorem restrict_cons (values sites : List Nat) (s : Nat) :
    restrict values (s :: sites) = values.getD s 0 :: restrict values sites := rfl

@[simp] theorem length_restrict (values sites : List Nat) :
    (restrict values sites).length = sites.length :=
  List.length_map _

/-- All sites in order read everything there is. -/
theorem restrict_range (values : List Nat) :
    restrict values (List.range values.length) = values := by
  refine List.ext_getElem (by simp) fun i _ hi => ?_
  simp only [restrict, List.getElem_map, List.getElem_range]
  exact List.getD_eq_getElem _ _ hi

/-- A site that exists is read without a fault. -/
theorem entryAt_eq_getD {values : List Nat} {i : Nat} (h : i < values.length) :
    entryAt values i = .ok (values.getD i 0) := by
  rw [entryAt_of_lt h, List.getD_eq_getElem _ _ h]

/-- Sites that exist are read without a fault. -/
theorem mapM_entryAt {values sites : List Nat} (h : ∀ i ∈ sites, i < values.length) :
    sites.mapM (entryAt values) = .ok (restrict values sites) :=
  Except.mapM_ok fun i hi => entryAt_eq_getD (h i hi)

/-- A value put at a site is read there, and other sites are read as before. -/
theorem getD_set (values : List Nat) (i j a : Nat) :
    (values.set i a).getD j 0 = if i = j ∧ i < values.length then a else values.getD j 0 := by
  rw [List.getD_eq_getElem?_getD, List.getD_eq_getElem?_getD, List.getElem?_set]
  by_cases hij : i = j
  · subst hij
    by_cases hi : i < values.length
    · simp [hi]
    · simp [hi]
  · simp [hij]

theorem restrict_set_of_notMem {values sites : List Nat} {i : Nat} (hi : i ∉ sites) (a : Nat) :
    restrict (values.set i a) sites = restrict values sites := by
  refine List.map_congr_left fun j hj => ?_
  rw [getD_set, if_neg]
  rintro ⟨rfl, -⟩
  exact hi hj

@[simp] theorem length_overwrite (values sites levels : List Nat) :
    (overwrite values sites levels).length = values.length := by
  induction sites generalizing values levels with
  | nil => rfl
  | cons s ss ih =>
    obtain _ | ⟨l, ls⟩ := levels
    · rfl
    · rw [overwrite_cons, ih, List.length_set]

/-- Sites that are not listed keep their digits. -/
theorem getD_overwrite_of_notMem {values sites levels : List Nat} {i : Nat} (hi : i ∉ sites) :
    (overwrite values sites levels).getD i 0 = values.getD i 0 := by
  induction sites generalizing values levels with
  | nil => rfl
  | cons s ss ih =>
    obtain _ | ⟨l, ls⟩ := levels
    · rfl
    · obtain ⟨hs, hss⟩ := List.ne_and_not_mem_of_not_mem_cons hi
      rw [overwrite_cons, ih hss, getD_set, if_neg (fun h => hs h.1.symm)]

theorem restrict_overwrite_of_disjoint {values sites levels others : List Nat}
    (h : ∀ i ∈ others, i ∉ sites) :
    restrict (overwrite values sites levels) others = restrict values others :=
  List.map_congr_left fun i hi => getD_overwrite_of_notMem (h i hi)

/-- **The replaced digits are read back**, at distinct sites that exist. -/
theorem restrict_overwrite {values sites levels : List Nat} (hnodup : sites.Nodup)
    (hsites : ∀ i ∈ sites, i < values.length) (hlen : levels.length = sites.length) :
    restrict (overwrite values sites levels) sites = levels := by
  induction sites generalizing values levels with
  | nil => rw [restrict_nil, List.length_eq_zero_iff.mp hlen]
  | cons s ss ih =>
    obtain _ | ⟨l, ls⟩ := levels
    · simp at hlen
    · obtain ⟨hs, hss⟩ := List.nodup_cons.mp hnodup
      rw [overwrite_cons, restrict_cons, getD_overwrite_of_notMem hs, getD_set,
        if_pos ⟨rfl, hsites s (by simp)⟩,
        ih hss (fun i hi => by simpa using hsites i (by simp [hi])) (by simpa using hlen)]

/-- Replacing digits by themselves changes nothing. -/
theorem overwrite_restrict (values sites : List Nat) :
    overwrite values sites (restrict values sites) = values := by
  induction sites with
  | nil => rfl
  | cons s ss ih =>
    rw [restrict_cons, overwrite_cons]
    have hset : values.set s (values.getD s 0) = values := by
      refine List.ext_getElem? fun j => ?_
      rw [List.getElem?_set]
      split_ifs with hj hs
      · simp [← hj, hs]
      · rw [← hj, List.getElem?_eq_none (by omega)]
      · rfl
    rw [hset, ih]

theorem overwrite_set {values sites levels : List Nat} {i : Nat} (hi : i ∉ sites) (a : Nat) :
    overwrite (values.set i a) sites levels = (overwrite values sites levels).set i a := by
  induction sites generalizing values levels with
  | nil => rfl
  | cons s ss ih =>
    obtain _ | ⟨l, ls⟩ := levels
    · rfl
    · obtain ⟨hs, hss⟩ := List.ne_and_not_mem_of_not_mem_cons hi
      rw [overwrite_cons, overwrite_cons, List.set_comm _ _ hs, ih hss]

/-- **The last replacement counts.** -/
theorem overwrite_overwrite {values sites levels levels' : List Nat} (hnodup : sites.Nodup)
    (hlen : levels.length = sites.length) (hlen' : levels'.length = sites.length) :
    overwrite (overwrite values sites levels) sites levels' = overwrite values sites levels' := by
  induction sites generalizing values levels levels' with
  | nil => rfl
  | cons s ss ih =>
    obtain _ | ⟨l, ls⟩ := levels
    · simp at hlen
    obtain _ | ⟨l', ls'⟩ := levels'
    · simp at hlen'
    obtain ⟨hs, hss⟩ := List.nodup_cons.mp hnodup
    rw [overwrite_cons, overwrite_cons, overwrite_cons, ← overwrite_set hs, List.set_set]
    exact ih hss (by simpa using hlen) (by simpa using hlen')

/-- Digits replaced at sites apart from each other are replaced in either order. -/
theorem overwrite_comm {values sites levels others levels' : List Nat}
    (h : ∀ i ∈ sites, i ∉ others) :
    overwrite (overwrite values sites levels) others levels'
      = overwrite (overwrite values others levels') sites levels := by
  induction sites generalizing values levels with
  | nil => rfl
  | cons s ss ih =>
    obtain _ | ⟨l, ls⟩ := levels
    · rfl
    rw [overwrite_cons, overwrite_cons, ih fun i hi => h i (by simp [hi]),
      overwrite_set (h s (by simp))]

/-! ## Valid digits -/

variable {dims values sites levels : List Nat}

theorem valid_set (h : Valid dims values) {i a : Nat} (ha : a < dims.getD i 0) :
    Valid dims (values.set i a) := by
  refine valid_of_getD_lt (by simpa using h.length_eq) fun j hj => ?_
  rw [getD_set]
  split_ifs with hij
  · exact hij.1 ▸ ha
  · exact h.getD_lt hj

theorem valid_overwrite (h : Valid dims values) (hl : Valid (restrict dims sites) levels) :
    Valid dims (overwrite values sites levels) := by
  induction sites generalizing values levels with
  | nil => exact h
  | cons s ss ih =>
    obtain _ | ⟨l, ls⟩ := levels
    · exact h
    · obtain ⟨hl, hls⟩ := List.forall₂_cons.mp hl
      exact ih (valid_set h hl) hls

theorem valid_restrict (h : Valid dims values) (hsites : ∀ i ∈ sites, i < dims.length) :
    Valid (restrict dims sites) (restrict values sites) := by
  induction sites with
  | nil => exact List.Forall₂.nil
  | cons s ss ih =>
    exact List.Forall₂.cons (h.getD_lt (hsites s (by simp)))
      (ih fun i hi => hsites i (by simp [hi]))

/-- What is read at sites that exist is among the values. -/
theorem mem_of_mem_restrict (hsites : ∀ i ∈ sites, i < values.length) {a : Nat}
    (ha : a ∈ restrict values sites) : a ∈ values := by
  obtain ⟨i, hi, rfl⟩ := List.mem_map.mp ha
  rw [List.getD_eq_getElem _ _ (hsites i hi)]
  exact List.getElem_mem _

/-- Sites that exist have a positive dimension where all sites have. -/
theorem pos_restrict (hpos : ∀ d ∈ dims, 0 < d) (hsites : ∀ i ∈ sites, i < dims.length) :
    ∀ d ∈ restrict dims sites, 0 < d :=
  fun d hd => hpos d (mem_of_mem_restrict hsites hd)

/-- **Some of the sites have no more basis states than all of them**, if none is listed twice. -/
theorem total_restrict_le (hpos : ∀ d ∈ dims, 0 < d) (hnodup : sites.Nodup)
    (hsites : ∀ i ∈ sites, i < dims.length) : total (restrict dims sites) ≤ total dims := by
  have hsubset : sites ⊆ List.range dims.length := fun i hi => List.mem_range.mpr (hsites i hi)
  obtain ⟨inOrder, hperm, hsublist⟩ := hnodup.subperm hsubset
  refine Nat.le_of_dvd (total_pos hpos) ?_
  calc total (restrict dims sites) = total (restrict dims inOrder) :=
        (hperm.map fun i => dims.getD i 0).prod_eq.symm
    _ ∣ total (restrict dims (List.range dims.length)) :=
        (hsublist.map fun i => dims.getD i 0).prod_dvd_prod
    _ = total dims := congrArg total (restrict_range dims)

/-- Zero can be held at sites that hold anything. -/
theorem valid_replicate_zero (hpos : ∀ d ∈ dims, 0 < d) :
    Valid dims (List.replicate dims.length 0) := by
  induction dims with
  | nil => exact List.Forall₂.nil
  | cons d ds ih =>
    exact List.Forall₂.cons (hpos d (by simp)) (ih fun e he => hpos e (by simp [he]))

/-- Zero can be held at the listed sites if they hold anything. -/
theorem valid_restrict_zero (hpos : ∀ d ∈ restrict dims sites, 0 < d) :
    Valid (restrict dims sites) (List.replicate sites.length 0) := by
  have hzero := valid_replicate_zero hpos
  rwa [length_restrict] at hzero

end Qudit.Radix
