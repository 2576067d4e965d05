import Mathlib.Data.List.TakeWhile
import Mathlib.Tactic.Ring
import Qudit.Arithmetic
import Qudit.Proofs.Radix.Order
import Qudit.Proofs.Radix.Overwrite

/-!
# Exact positions

In words of 64 bits strides and positions come to the same as over the natural numbers whenever the
arithmetic is exact below some bound (`Arithmetic.ExactBelow`) and their *last* value is below it.
That is not a matter of course, because a loop may well exceed its own result on the way. It holds
since every dimension is positive: each further site then multiplies what has been read by one at
least, and each further digit adds to it, so that no intermediate value is above the last one.

What becomes of a larger number is another matter, and depends on the arithmetic. `Computes` says
it of one number: words that wrap round keep its lowest 64 bits, and checked words refuse it.
-/

namespace Qudit

namespace Arithmetic

/-- **An arithmetic that is exact below a bound.** Nothing is said of results that reach it. -/
structure ExactBelow (A : Arithmetic) (bound : Nat) : Prop where
  /-- Sums below the bound are exact. -/
  add_eq : ∀ {a b : Nat}, a + b < bound → A.add a b = .ok (a + b)
  /-- Products below the bound are exact. -/
  mul_eq : ∀ {a b : Nat}, a * b < bound → A.mul a b = .ok (a * b)

theorem word?_eq_ok_iff {n k : Nat} : word? n = .ok k ↔ n < 2 ^ 64 ∧ k = n := by
  have hsize : UInt64.size = 2 ^ 64 := rfl
  rw [word?, hsize]
  split_ifs with h
  · simp only [h, true_and, Except.ok.injEq, eq_comm]
  · simp only [h, false_and]

theorem wrapping_add (a b : Nat) : wrapping.add a b = .ok ((a + b) % 2 ^ 64) := by
  show Except.ok (UInt64.ofNat a + UInt64.ofNat b).toNat = _
  rw [UInt64.toNat_add, UInt64.toNat_ofNat', UInt64.toNat_ofNat', ← Nat.add_mod]

theorem wrapping_mul (a b : Nat) : wrapping.mul a b = .ok (a * b % 2 ^ 64) := by
  show Except.ok (UInt64.ofNat a * UInt64.ofNat b).toNat = _
  rw [UInt64.toNat_mul, UInt64.toNat_ofNat', UInt64.toNat_ofNat', ← Nat.mul_mod]

theorem exactBelow_checked : checked.ExactBelow (2 ^ 64) where
  add_eq h := word?_eq_ok_iff.mpr ⟨h, rfl⟩
  mul_eq h := word?_eq_ok_iff.mpr ⟨h, rfl⟩

theorem exactBelow_wrapping : wrapping.ExactBelow (2 ^ 64) where
  add_eq h := by rw [wrapping_add, Nat.mod_eq_of_lt h]
  mul_eq h := by rw [wrapping_mul, Nat.mod_eq_of_lt h]

/-! ## What is exact -/

variable {A : Arithmetic} {bound : Nat} {dims values : List Nat}

/-- A product over positive dimensions, begun at any number. -/
theorem ExactBelow.foldlM_mul_eq (hA : A.ExactBelow bound) (hpos : ∀ d ∈ dims, 0 < d) (acc : Nat)
    (h : acc * Radix.total dims < bound) :
    dims.foldlM A.mul acc = .ok (acc * Radix.total dims) := by
  induction dims generalizing acc with
  | nil => rw [List.foldlM_nil, Radix.total_nil, Nat.mul_one]; rfl
  | cons d ds ih =>
    have hpos' : ∀ e ∈ ds, 0 < e := fun e he => hpos e (List.mem_cons_of_mem d he)
    rw [Radix.total_cons, ← Nat.mul_assoc] at h ⊢
    -- what is multiplied by the dimensions that follow only grows
    have hle : acc * d ≤ acc * d * Radix.total ds :=
      Nat.le_mul_of_pos_right _ (Radix.total_pos hpos')
    rw [List.foldlM_cons, Except.bind_ok (hA.mul_eq (hle.trans_lt h))]
    exact ih hpos' (acc * d) h

/-- **The number of positions is exact** below the bound. -/
theorem ExactBelow.total_eq (hA : A.ExactBelow bound) (hpos : ∀ d ∈ dims, 0 < d)
    (h : Radix.total dims < bound) : A.total dims = .ok (Radix.total dims) := by
  rw [← Nat.one_mul (Radix.total dims)] at h ⊢
  exact hA.foldlM_mul_eq hpos 1 h

/-- **Strides are exact** if the number of positions is below the bound. -/
theorem ExactBelow.strides_eq (hA : A.ExactBelow bound) (hpos : ∀ d ∈ dims, 0 < d)
    (h : Radix.total dims < bound) : A.strides dims = .ok (Radix.strides dims) := by
  induction dims with
  | nil => rfl
  | cons c ds ih =>
    -- the first dimension is in no stride, and without it there are no more positions
    have hle : Radix.total ds ≤ Radix.total (c :: ds) :=
      Nat.le_mul_of_pos_left _ (hpos c List.mem_cons_self)
    have hrest := ih (fun e he => hpos e (List.mem_cons_of_mem c he)) (hle.trans_lt h)
    cases ds with
    | nil => rfl
    | cons d ds =>
      have hmul : A.mul (Radix.total ds) d = .ok (Radix.total (d :: ds)) := by
        rw [Radix.total_cons, Nat.mul_comm d] at hle ⊢
        exact hA.mul_eq (hle.trans_lt h)
      rw [strides, Except.bind_ok hrest, Radix.strides, List.headD_cons, Except.bind_ok hmul]
      rfl

/-- Reading digits behind a number that has been read already. -/
theorem ExactBelow.foldlM_index_eq (hA : A.ExactBelow bound) (hpos : ∀ d ∈ dims, 0 < d)
    (hlen : values.length = dims.length) (acc : Nat)
    (h : acc * Radix.total dims + Radix.index values dims < bound) :
    (values.zip dims).foldlM (fun acc p => do A.add (← A.mul acc p.2) p.1) acc
      = .ok (acc * Radix.total dims + Radix.index values dims) := by
  induction dims generalizing values acc with
  | nil =>
    rw [List.zip_nil_right, List.foldlM_nil, Radix.total_nil, Radix.index_nil, Nat.mul_one]
    rfl
  | cons d ds ih =>
    obtain _ | ⟨v, vs⟩ := values
    · simp at hlen
    have hpos' : ∀ e ∈ ds, 0 < e := fun e he => hpos e (List.mem_cons_of_mem d he)
    have hlen' : vs.length = ds.length := by simpa using hlen
    have hstep : acc * Radix.total (d :: ds) + Radix.index (v :: vs) (d :: ds)
        = (acc * d + v) * Radix.total ds + Radix.index vs ds := by
      rw [Radix.total_cons, Radix.index_cons hlen']
      ring
    rw [hstep] at h ⊢
    -- what has been read so far is multiplied and added to only
    have hle : acc * d + v ≤ (acc * d + v) * Radix.total ds :=
      Nat.le_mul_of_pos_right _ (Radix.total_pos hpos')
    have hmul : acc * d < bound := by omega
    have hround : (do A.add (← A.mul acc d) v) = .ok (acc * d + v) :=
      (Except.bind_ok (hA.mul_eq hmul)).trans (hA.add_eq (by omega))
    rw [List.zip_cons_cons, List.foldlM_cons, Except.bind_ok hround]
    exact ih hpos' hlen' _ h

/-- **A position is exact** below the bound. -/
theorem ExactBelow.index_eq (hA : A.ExactBelow bound) (hpos : ∀ d ∈ dims, 0 < d)
    (hlen : values.length = dims.length) (h : Radix.index values dims < bound) :
    A.index values dims = .ok (Radix.index values dims) := by
  have hzero : 0 * Radix.total dims + Radix.index values dims = Radix.index values dims := by
    rw [Nat.zero_mul, Nat.zero_add]
  rw [← hzero] at h ⊢
  exact hA.foldlM_index_eq hpos hlen 0 h

/-- Digits that a register can hold are read exactly if its positions are counted below the
bound. -/
theorem ExactBelow.index_eq_of_valid (hA : A.ExactBelow bound) (hvalid : Radix.Valid dims values)
    (h : Radix.total dims < bound) : A.index values dims = .ok (Radix.index values dims) :=
  hA.index_eq hvalid.pos hvalid.length_eq ((Radix.index_lt_total hvalid).trans h)

/-- **The list of all positions is exact** if they are counted below the bound. -/
theorem ExactBelow.basis_eq (hA : A.ExactBelow bound) (hpos : ∀ d ∈ dims, 0 < d)
    (h : Radix.total dims < bound) : A.basis dims = .ok (Radix.basis dims) := by
  rw [basis, Except.bind_ok (hA.total_eq hpos h)]
  exact Radix.checked_basis dims

/-! ## Sites of dimension zero -/

/-- A product that is zero stays zero. -/
theorem ExactBelow.foldlM_mul_zero (hA : A.ExactBelow bound) (hbound : 0 < bound)
    (dims : List Nat) : dims.foldlM A.mul 0 = .ok 0 := by
  induction dims with
  | nil => rfl
  | cons d ds ih =>
    have hmul : A.mul 0 d = .ok 0 := by
      have h := hA.mul_eq (a := 0) (b := d) (by rwa [Nat.zero_mul])
      rwa [Nat.zero_mul] at h
    rw [List.foldlM_cons, Except.bind_ok hmul, ih]

/-- A product over dimensions of which one is zero, begun at any number. Only what comes before
the zero has to stay below the bound. -/
theorem ExactBelow.foldlM_mul_of_zero_mem (hA : A.ExactBelow bound) (hzero : 0 ∈ dims) (acc : Nat)
    (h : acc * (dims.takeWhile (0 < ·)).prod < bound) : dims.foldlM A.mul acc = .ok 0 := by
  induction dims generalizing acc with
  | nil => cases hzero
  | cons d ds ih =>
    obtain rfl | hd := Nat.eq_zero_or_pos d
    · have hbound : 0 < bound := Nat.zero_lt_of_lt h
      rw [List.foldlM_cons, Except.bind_ok (hA.mul_eq (by rwa [Nat.mul_zero])), Nat.mul_zero]
      exact hA.foldlM_mul_zero hbound ds
    · have hmem : 0 ∈ ds := (List.mem_cons.mp hzero).resolve_left (Nat.ne_of_lt hd)
      rw [List.takeWhile_cons_of_pos (by simpa using hd), List.prod_cons, ← Nat.mul_assoc] at h
      have hpos : 0 < (ds.takeWhile (0 < ·)).prod := Radix.total_pos fun e he => by
        simpa using List.mem_takeWhile_imp he
      have hle : acc * d ≤ acc * d * (ds.takeWhile (0 < ·)).prod := Nat.le_mul_of_pos_right _ hpos
      rw [List.foldlM_cons, Except.bind_ok (hA.mul_eq (hle.trans_lt h))]
      exact ih hmem (acc * d) h

/-- **Over a site of dimension zero the list of all positions is empty**, and no digit is asked
for. -/
theorem ExactBelow.basis_of_zero_mem (hA : A.ExactBelow bound) (hzero : 0 ∈ dims)
    (h : (dims.takeWhile (0 < ·)).prod < bound) : A.basis dims = .ok [] := by
  rw [← Nat.one_mul (dims.takeWhile (0 < ·)).prod] at h
  rw [basis, total, Except.bind_ok (hA.foldlM_mul_of_zero_mem hzero 1 h)]
  rfl

end Arithmetic

/-! ## Computations that never overflow -/

/-- **A computation that never overflows**: it comes to `value` with every sum and product checked
to be a word, and for that reason also with words that wrap round. -/
structure NeverOverflows {β : Type} (run : Arithmetic → β) (value : β) : Prop where
  /-- Every intermediate value is a word. -/
  checked : run .checked = value
  /-- Nothing is lost where results wrap round. -/
  wrapping : run .wrapping = value

/-- What every arithmetic comes to that is exact on words never overflows. -/
theorem NeverOverflows.of_exactBelow {β : Type} {run : Arithmetic → β} {value : β}
    (h : ∀ A : Arithmetic, A.ExactBelow (2 ^ 64) → run A = value) : NeverOverflows run value :=
  ⟨h _ Arithmetic.exactBelow_checked, h _ Arithmetic.exactBelow_wrapping⟩

/-- Digits that a register can hold are read without overflow. -/
theorem NeverOverflows.index {dims values : List Nat} (hvalid : Radix.Valid dims values)
    (h : Radix.total dims < 2 ^ 64) :
    NeverOverflows (·.index values dims) (.ok (Radix.index values dims)) :=
  .of_exactBelow fun _ hA => hA.index_eq_of_valid hvalid h

/-! ## Numbers that are no words -/

/-- **A computation of a number in words**: those that wrap round come to its lowest 64 bits, and
checked ones to the number itself if it is a word, else to a fault. -/
structure Computes (run : Arithmetic → Except Fault Nat) (n : Nat) : Prop where
  /-- The lowest 64 bits are kept. -/
  wrapping : run .wrapping = .ok (n % 2 ^ 64)
  /-- A number that is not a word is refused. -/
  checked : ∀ k, run .checked = .ok k ↔ k = n ∧ n < 2 ^ 64

namespace Arithmetic

section

variable {β : Type} {ps : List β} {f : Nat → β → Nat}

/-- A loop whose rounds keep the lowest bits keeps the lowest bits. -/
theorem foldlM_mod {step : Nat → β → Except Fault Nat}
    (hstep : ∀ acc, ∀ p ∈ ps, step (acc % 2 ^ 64) p = .ok (f acc p % 2 ^ 64)) (acc : Nat) :
    ps.foldlM step (acc % 2 ^ 64) = .ok (ps.foldl f acc % 2 ^ 64) := by
  induction ps generalizing acc with
  | nil => rfl
  | cons p ps ih =>
    rw [List.foldlM_cons, Except.bind_ok (hstep acc p List.mem_cons_self)]
    exact ih (fun acc q hq => hstep acc q (List.mem_cons_of_mem p hq)) (f acc p)

/-- A loop whose rounds are exact or refused is exact or refused. -/
theorem foldlM_exact {step : Nat → β → Except Fault Nat}
    (hstep : ∀ acc, ∀ p ∈ ps, ∀ k, step acc p = .ok k → k = f acc p ∧ k < 2 ^ 64)
    {acc k : Nat} (hacc : acc < 2 ^ 64) (h : ps.foldlM step acc = .ok k) :
    k = ps.foldl f acc ∧ k < 2 ^ 64 := by
  induction ps generalizing acc with
  | nil =>
    obtain rfl : acc = k := Except.ok.inj h
    exact ⟨rfl, hacc⟩
  | cons p ps ih =>
    obtain ⟨next, hnext, hrest⟩ := Except.bind_eq_ok.mp h
    obtain ⟨rfl, hlt⟩ := hstep acc p List.mem_cons_self next hnext
    exact ih (fun acc q hq => hstep acc q (List.mem_cons_of_mem p hq)) hlt hrest

/-- **A loop from zero computes a number** if its rounds keep the lowest bits or are exact or
refused, and if it goes through for a number that is a word. -/
theorem computes_foldlM {step : Arithmetic → Nat → β → Except Fault Nat}
    (hwrapping : ∀ acc, ∀ p ∈ ps, step .wrapping (acc % 2 ^ 64) p = .ok (f acc p % 2 ^ 64))
    (hchecked : ∀ acc, ∀ p ∈ ps, ∀ k, step .checked acc p = .ok k → k = f acc p ∧ k < 2 ^ 64)
    (hword : ps.foldl f 0 < 2 ^ 64 → ps.foldlM (step .checked) 0 = .ok (ps.foldl f 0)) :
    Computes (fun A => ps.foldlM (step A) 0) (ps.foldl f 0) where
  wrapping := foldlM_mod hwrapping 0
  checked k := by
    refine ⟨fun h => ?_, fun ⟨hk, h⟩ => hk ▸ hword h⟩
    obtain ⟨hk, hlt⟩ := foldlM_exact hchecked (by decide) h
    exact ⟨hk, hk ▸ hlt⟩

end

/-- A product and a sum that are checked one after the other are exact. -/
theorem checked_mul_bind_word? {a b k : Nat} {f : Nat → Nat}
    (h : (do word? (f (← checked.mul a b))) = .ok k) : k = f (a * b) ∧ k < 2 ^ 64 := by
  obtain ⟨product, hproduct, hsum⟩ := Except.bind_eq_ok.mp h
  obtain ⟨-, rfl⟩ := word?_eq_ok_iff.mp hproduct
  obtain ⟨hlt, rfl⟩ := word?_eq_ok_iff.mp hsum
  exact ⟨rfl, hlt⟩

theorem wrapping_total (dims : List Nat) :
    wrapping.total dims = .ok (Radix.total dims % 2 ^ 64) := by
  have hstep : ∀ acc, ∀ d ∈ dims, wrapping.mul (acc % 2 ^ 64) d = .ok (acc * d % 2 ^ 64) :=
    fun acc d _ => by rw [wrapping_mul, Nat.mod_mul_mod]
  rw [Radix.total_eq_prod, List.prod_eq_foldl]
  exact foldlM_mod hstep 1

/-- Words that wrap round count no positions over a site of dimension zero, whatever the other
dimensions are. -/
theorem wrapping_basis_of_zero_mem {dims : List Nat} (hzero : 0 ∈ dims) :
    wrapping.basis dims = .ok [] := by
  rw [basis, Except.bind_ok (wrapping_total dims), (Radix.total_eq_zero_iff dims).mpr hzero]
  rfl

/-- **A position is computed as far as it is a word.** The digits may be in range or not. -/
theorem computes_index {dims values : List Nat} (hpos : ∀ d ∈ dims, 0 < d)
    (hlen : values.length = dims.length) :
    Computes (·.index values dims) (Radix.index values dims) := by
  refine computes_foldlM (fun acc p _ => ?_) (fun acc p _ k hk => ?_)
    (exactBelow_checked.index_eq hpos hlen)
  · rw [wrapping_mul, Nat.mod_mul_mod, Except.bind_ok rfl, wrapping_add, Nat.mod_add_mod]
  · exact checked_mul_bind_word? hk

end Arithmetic

end Qudit
