import Mathlib.Algebra.Ring.Nat
import Qudit.Gate.Basic

/-!
# How many sites a custom gate acts on

A square custom matrix acts on as many sites of dimension `d` as the exponent says
that makes its size a power of `d`. The exponent is found by running through the
powers of `d` until one is not below the size; where powers would not grow, the run
is over at once. `SearchEnds` is what is true of the power at the end of the run,
whatever the size and the dimension are, and decides the answer: an exponent that
fits can only be the last one (`SearchEnds.isExponent_iff`).

The powers are natural numbers here. For a size below `2 ^ 32` a run in words of 64
bits goes through the same powers, for any dimension that is such a word
(`exists_wordSearch`): either the run has just begun, or `d` is itself not above the
power, and so below the size wherever one more round is made.
-/

namespace Qudit

/-- **The exponent that makes `size` a power of `d`**, if it has one. Over one or zero
only the empty product counts. -/
def IsExponent (d size n : Nat) : Prop :=
  2 ≤ d ∧ d ^ n = size ∨ d ≤ 1 ∧ size = 1 ∧ n = 0

/-- **A search for `size` ends at the power with exponent `n`.** -/
structure SearchEnds (d size n : Nat) : Prop where
  /-- The search goes on at every power before. -/
  before : ∀ i < n, d ^ i < size ∧ 1 < d
  /-- It does not go on from there. -/
  last : ¬(d ^ n < size ∧ 1 < d)

theorem powersFrom_of_lt {d size p : Nat} (hp : 0 < p) (h : p < size ∧ 1 < d) :
    powersFrom d size p hp
      = p :: powersFrom d size (p * d) (Nat.mul_pos hp (Nat.lt_of_succ_lt h.2)) := by
  rw [powersFrom, dif_pos h]

theorem powersFrom_of_not {d size p : Nat} (hp : 0 < p) (h : ¬(p < size ∧ 1 < d)) :
    powersFrom d size p hp = [p] := by
  rw [powersFrom, dif_neg h]

/-- The powers that a search runs through are the multiples of the first one by powers
of `d`, as far as it goes on. -/
theorem exists_powersFrom_eq (d size p : Nat) (hp : 0 < p) :
    ∃ n, powersFrom d size p hp = (List.range (n + 1)).map (fun i => p * d ^ i) ∧
      (∀ i < n, p * d ^ i < size ∧ 1 < d) ∧ ¬(p * d ^ n < size ∧ 1 < d) := by
  induction p, hp using powersFrom.induct d size with
  | case1 p hp h ih =>
    obtain ⟨n, hpowers, hbefore, hlast⟩ := ih
    have hstep : ∀ i, p * d ^ (i + 1) = p * d * d ^ i := fun i => by
      rw [Nat.pow_succ', Nat.mul_assoc]
    refine ⟨n + 1, ?_, fun i hi => ?_, by rwa [hstep]⟩
    · rw [powersFrom_of_lt hp h, hpowers, List.range_succ_eq_map (n := n + 1), List.map_cons,
        List.map_map, Nat.pow_zero, Nat.mul_one]
      exact congrArg (p :: ·) (List.map_congr_left fun i _ => (hstep i).symm)
    · cases i with
      | zero => rwa [Nat.pow_zero, Nat.mul_one]
      | succ i =>
        rw [hstep]
        exact hbefore i (Nat.lt_of_succ_lt_succ hi)
  | case2 p hp h =>
    refine ⟨0, ?_, fun i hi => absurd hi i.not_lt_zero, by rwa [Nat.pow_zero, Nat.mul_one]⟩
    rw [powersFrom_of_not hp h, List.range_one, List.map_singleton, Nat.pow_zero, Nat.mul_one]

/-- The powers that a search for `size` runs through. -/
theorem exists_powersUpTo_eq (d size : Nat) :
    ∃ n, powersUpTo d size = (List.range (n + 1)).map (d ^ ·) ∧ SearchEnds d size n := by
  obtain ⟨n, hpowers, hbefore, hlast⟩ := exists_powersFrom_eq d size 1 Nat.one_pos
  simp only [Nat.one_mul] at hpowers hbefore hlast
  exact ⟨n, hpowers, hbefore, hlast⟩

namespace SearchEnds

variable {d size n : Nat}

/-- Where powers do not grow, the search ends at the first one. -/
theorem eq_zero (h : SearchEnds d size n) (hd : d ≤ 1) : n = 0 := by
  by_contra hn
  have := (h.before 0 (Nat.pos_of_ne_zero hn)).2
  omega

/-- **No exponent fits but the one at which the search ends**, and this one fits if
the size has been met. -/
theorem isExponent_iff (h : SearchEnds d size n) (k : Nat) :
    IsExponent d size k ↔ d ^ n = size ∧ k = n := by
  by_cases hd : 1 < d
  · have hlast : ¬d ^ n < size := fun hlt => h.last ⟨hlt, hd⟩
    constructor
    · rintro (⟨-, hk⟩ | ⟨hd', -⟩)
      · -- before `n` powers are too small, and after it they are too large
        obtain hlt | rfl | hgt := Nat.lt_trichotomy k n
        · exact absurd hk (Nat.ne_of_lt (h.before k hlt).1)
        · exact ⟨hk, rfl⟩
        · have := Nat.pow_lt_pow_right hd hgt
          omega
      · omega
    · rintro ⟨hn, rfl⟩
      exact .inl ⟨hd, hn⟩
  · obtain rfl := h.eq_zero (by omega)
    rw [Nat.pow_zero]
    constructor
    · rintro (⟨hd', -⟩ | ⟨-, hsize, hk⟩)
      · omega
      · exact ⟨hsize.symm, hk⟩
    · rintro ⟨hsize, hk⟩
      exact .inr ⟨by omega, hsize.symm, hk⟩

/-- A search for a size below `2 ^ 32` takes no more than 32 rounds. -/
theorem le_of_size_lt (h : SearchEnds d size n) (hsize : size < 2 ^ 32) : n ≤ 32 := by
  cases n with
  | zero => omega
  | succ n =>
    obtain ⟨hlt, hd⟩ := h.before n n.lt_succ_self
    have hpow : 2 ^ n < 2 ^ 32 := calc
      2 ^ n ≤ d ^ n := Nat.pow_le_pow_left hd n
      _ < size := hlt
      _ < 2 ^ 32 := hsize
    exact (Nat.pow_lt_pow_iff_right (by decide)).mp hpow

end SearchEnds

/-! ## Words of 64 bits -/

/-- **A search in words of 64 bits**, from a power on, with all the powers that it runs
through. No product on the way exceeds a word. -/
inductive WordSearch (d size : UInt64) : UInt64 → List UInt64 → Prop where
  /-- The power is not below the size, or powers do not grow. -/
  | stop {p : UInt64} (last : ¬(p < size ∧ 1 < d)) : WordSearch d size p [p]
  /-- The search goes on at the next power. -/
  | round {p : UInt64} {powers : List UInt64} (lt : p < size) (grows : 1 < d)
      (fits : p.toNat * d.toNat < 2 ^ 64) (rest : WordSearch d size (p * d) powers) :
      WordSearch d size p (p :: powers)

/-- Words are compared as the numbers that they are. -/
theorem goesOn_iff {d size p : UInt64} :
    p < size ∧ 1 < d ↔ p.toNat < size.toNat ∧ 1 < d.toNat := by
  rw [UInt64.lt_iff_toNat_lt, UInt64.lt_iff_toNat_lt]
  rfl

/-- **A search in words runs through the same powers.** -/
theorem exists_wordSearch {d size : UInt64} (hsize : size.toNat < 2 ^ 32) {k : Nat} (hk : 0 < k)
    (hinv : k = 1 ∨ d.toNat ≤ k) {p : UInt64} (hp : p.toNat = k) :
    ∃ powers, WordSearch d size p powers ∧
      powers.map UInt64.toNat = powersFrom d.toNat size.toNat k hk := by
  -- the invariant is that the power is the first one or not below `d`
  induction k, hk using powersFrom.induct d.toNat size.toNat generalizing p with
  | case1 k hk h ih =>
    have hfits : k * d.toNat < 2 ^ 64 := by
      obtain rfl | hd := hinv
      · rw [Nat.one_mul]
        exact d.toNat_lt
      · calc
          k * d.toNat < 2 ^ 32 * 2 ^ 32 := Nat.mul_lt_mul'' (by omega) (by omega)
          _ = 2 ^ 64 := by decide
    have hnext : (p * d).toNat = k * d.toNat := by
      rw [UInt64.toNat_mul, hp, Nat.mod_eq_of_lt hfits]
    obtain ⟨powers, hrest, hpowers⟩ := ih (.inr (Nat.le_mul_of_pos_left _ hk)) hnext
    obtain ⟨hlt, hgrows⟩ := goesOn_iff.mpr (hp.symm ▸ h)
    refine ⟨p :: powers, .round hlt hgrows (hp ▸ hfits) hrest, ?_⟩
    rw [powersFrom_of_lt hk h, List.map_cons, hp, hpowers]
  | case2 k hk h =>
    refine ⟨[p], .stop (mt goesOn_iff.mp (hp.symm ▸ h)), ?_⟩
    rw [powersFrom_of_not hk h, List.map_singleton, hp]

/-- The search for a size below `2 ^ 32` can be made in words, and takes no more than 32
rounds. -/
theorem exists_wordSearch_powersUpTo (d : UInt64) {size : Nat} (hsize : size < 2 ^ 32) :
    ∃ powers, WordSearch d (.ofNat size) 1 powers ∧
      powers.map UInt64.toNat = powersUpTo d.toNat size ∧ powers.length ≤ 33 := by
  have hword : (UInt64.ofNat size).toNat = size := by
    rw [UInt64.toNat_ofNat']
    omega
  have hsize' : (UInt64.ofNat size).toNat < 2 ^ 32 := hword.symm ▸ hsize
  obtain ⟨powers, hsearch, hpowers⟩ := exists_wordSearch (d := d) (p := 1) hsize' Nat.one_pos
    (.inl rfl) rfl
  rw [hword, ← powersUpTo] at hpowers
  obtain ⟨n, hlist, hends⟩ := exists_powersUpTo_eq d.toNat size
  have hlength : powers.length = n + 1 := by
    rw [← List.length_map UInt64.toNat, hpowers, hlist, List.length_map, List.length_range]
  have hrounds := hends.le_of_size_lt hsize
  exact ⟨powers, hsearch, hpowers, by omega⟩

/-! ## The number of sites -/

namespace Gate

variable {R : Type} {matrix : Mat (Amplitude R)} {diagonal : Bool} {label : String} {d : Nat}

/-- The answer for a square matrix is read off the power at which the search ends. -/
theorem exists_numSites_eq (diagonal : Bool) (label : String) (d : Nat)
    (hsquare : matrix.rows = matrix.cols) :
    ∃ n, SearchEnds d matrix.rows n ∧
      (custom matrix diagonal label).numSites d
        = if d ^ n = matrix.rows then .ok n else .error (.notAPower matrix.rows d) := by
  obtain ⟨n, hpowers, hends⟩ := exists_powersUpTo_eq d matrix.rows
  refine ⟨n, hends, ?_⟩
  have hlast : (powersUpTo d matrix.rows).getLast? = some (d ^ n) := by
    rw [hpowers, List.range_succ, List.map_append, List.map_singleton, List.getLast?_concat]
  have hlength : (powersUpTo d matrix.rows).length - 1 = n := by
    rw [hpowers, List.length_map, List.length_range, Nat.add_sub_cancel]
  have hsame : (matrix.rows != matrix.cols) = false := by rw [hsquare, bne_self_eq_false]
  simp only [numSites, hsame, hlast, hlength, Bool.false_eq_true, if_false, beq_iff_eq,
    Option.some.injEq]

theorem numSites_eq_notSquare_iff :
    (custom matrix diagonal label).numSites d = .error (.notSquare matrix.rows matrix.cols)
      ↔ matrix.rows ≠ matrix.cols := by
  refine ⟨fun h hsquare => ?_, fun hne => if_pos (bne_iff_ne.mpr hne)⟩
  obtain ⟨n, -, hsites⟩ := exists_numSites_eq diagonal label d hsquare
  rw [hsites] at h
  split_ifs at h
  cases h

theorem numSites_eq_ok_iff (hsquare : matrix.rows = matrix.cols) (k : Nat) :
    (custom matrix diagonal label).numSites d = .ok k ↔ IsExponent d matrix.rows k := by
  obtain ⟨n, hends, hsites⟩ := exists_numSites_eq diagonal label d hsquare
  rw [hsites, hends.isExponent_iff]
  split_ifs with hn
  · exact ⟨fun h => ⟨hn, (Except.ok.inj h).symm⟩, fun h => congrArg Except.ok h.2.symm⟩
  · exact ⟨fun h => (by cases h), fun h => absurd h.1 hn⟩

theorem numSites_eq_notAPower_iff (hsquare : matrix.rows = matrix.cols) :
    (custom matrix diagonal label).numSites d = .error (.notAPower matrix.rows d)
      ↔ ∀ k, ¬IsExponent d matrix.rows k := by
  obtain ⟨n, hends, hsites⟩ := exists_numSites_eq diagonal label d hsquare
  rw [hsites]
  simp only [hends.isExponent_iff]
  split_ifs with hn
  · exact ⟨fun h => (by cases h), fun h => absurd ⟨hn, rfl⟩ (h n)⟩
  · exact ⟨fun _ _ h => hn h.1, fun _ => rfl⟩

/-- **The number of sites is the exponent that makes the size of the matrix a power of
the dimension.** It is refused for a matrix that is not square and for a size that is
no such power, and for nothing else. The search for it can be made in words of 64 bits:
it goes through the same powers there, and is over after 32 rounds. -/
theorem numSites_custom (matrix : Mat (Amplitude R)) (diagonal : Bool) (label : String)
    (d : UInt64) (hrows : matrix.rows < 2 ^ 32) :
    ((custom matrix diagonal label).numSites d.toNat
        = .error (.notSquare matrix.rows matrix.cols) ↔ matrix.rows ≠ matrix.cols) ∧
      (matrix.rows = matrix.cols →
        (∀ n, (custom matrix diagonal label).numSites d.toNat = .ok n
          ↔ IsExponent d.toNat matrix.rows n) ∧
        ((custom matrix diagonal label).numSites d.toNat
            = .error (.notAPower matrix.rows d.toNat)
          ↔ ∀ n, ¬IsExponent d.toNat matrix.rows n)) ∧
      ∃ powers, WordSearch d (.ofNat matrix.rows) 1 powers ∧
        powers.map UInt64.toNat = powersUpTo d.toNat matrix.rows ∧ powers.length ≤ 33 :=
  ⟨numSites_eq_notSquare_iff,
    fun hsquare => ⟨numSites_eq_ok_iff hsquare, numSites_eq_notAPower_iff hsquare⟩,
    exists_wordSearch_powersUpTo d hrows⟩

/-- Five rows over a dimension just below `2 ^ 64`: the search multiplies once, which no
word could take a second time, and finds no power. -/
theorem numSites_custom_huge :
    let matrix : Mat (Amplitude Float) := ⟨5, 5, fun _ _ => 0⟩
    let d : UInt64 := 0xffffffffffffffff
    matrix.rows < 2 ^ 32 ∧
      (custom matrix false "five").numSites d.toNat = .error (.notAPower 5 d.toNat) ∧
      ∃ powers, WordSearch d 5 1 powers ∧
        powers.map UInt64.toNat = powersUpTo d.toNat 5 ∧ powers.length ≤ 33 := by
  intro matrix d
  have hrows : matrix.rows < 2 ^ 32 := by decide
  obtain ⟨-, hsites, hsearch⟩ := numSites_custom matrix false "five" d hrows
  have hlarge : 5 < d.toNat := by decide
  refine ⟨hrows, (hsites rfl).2.mpr ?_, hsearch⟩
  rintro n (⟨-, hn⟩ | ⟨hd, -⟩)
  · cases n with
    | zero => cases hn
    | succ n =>
      have hpow : 5 < d.toNat ^ (n + 1) :=
        Nat.lt_of_lt_of_le hlarge (Nat.le_self_pow n.succ_ne_zero d.toNat)
      exact Nat.ne_of_gt hpow hn
  · omega

end Gate

end Qudit
