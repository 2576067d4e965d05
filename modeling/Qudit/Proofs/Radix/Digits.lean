import Mathlib.Data.List.Forall2
import Mathlib.Data.List.GetD
import Mathlib.Tactic.Ring
import Qudit.Radix

/-!
# Digits and positions

Over sites of positive dimension, positions and digit vectors are two names
for the same thing. `Radix.Valid` says which digit vectors a register can
hold; `valid_digits` and `index_lt_total` say that the two translations
stay within positions and valid digits, and `index_digits` and
`digits_index` that each undoes the other.

All of it rests on how both translations treat the first site: its digit
counts blocks of `Radix.total` of the sites after it (`digits_cons`,
`index_cons`). `index_set` is the same fact for any site: moving one digit
moves the position by that many strides.
-/

namespace Qudit.Radix

/-- **Digits that a register can hold**: one per site, each below the
dimension of its site. -/
def Valid (dims values : List Nat) : Prop := List.Forall₂ (· < ·) values dims

theorem Valid.length_eq {dims values : List Nat} (h : Valid dims values) :
    values.length = dims.length :=
  List.Forall₂.length_eq h

/-- Where digits can be held, every site has a positive dimension. -/
theorem Valid.pos {dims values : List Nat} (h : Valid dims values) :
    ∀ d ∈ dims, 0 < d := by
  induction h with
  | nil => simp
  | cons hv _ ih =>
    intro d hd
    obtain rfl | hd := List.mem_cons.mp hd
    · exact Nat.zero_lt_of_lt hv
    · exact ih d hd

/-- A digit is below the dimension of its site. -/
theorem Valid.getD_lt {dims values : List Nat} (h : Valid dims values) {i : Nat}
    (hi : i < dims.length) : values.getD i 0 < dims.getD i 0 := by
  have hi' : i < values.length := h.length_eq ▸ hi
  have := (List.forall₂_iff_get.mp h).2 i hi' hi
  simpa [List.getD_eq_getElem, hi, hi'] using this

/-- Digits are valid as soon as there is one per site and each is below its
dimension. -/
theorem valid_of_getD_lt {dims values : List Nat} (hlen : values.length = dims.length)
    (h : ∀ i < dims.length, values.getD i 0 < dims.getD i 0) : Valid dims values := by
  refine List.forall₂_iff_get.mpr ⟨hlen, fun i hv hd => ?_⟩
  have := h i hd
  simpa [List.getD_eq_getElem, hv, hd] using this

/-- The positions are counted by the product of the dimensions. -/
theorem total_eq_prod (dims : List Nat) : total dims = dims.prod := rfl

/-- Sites of one dimension have a power of it as many positions. -/
theorem total_replicate (n d : Nat) : total (List.replicate n d) = d ^ n := by
  induction n with
  | zero => rfl
  | succ n ih => rw [List.replicate_succ, total_cons, ih, Nat.pow_succ, Nat.mul_comm]

/-- A register with a position has no site of dimension zero. -/
theorem pos_of_lt_total {dims : List Nat} {k : Nat} (hk : k < total dims) :
    ∀ d ∈ dims, 0 < d := by
  intro d hd
  refine Nat.pos_of_ne_zero fun h0 => ?_
  rw [(total_eq_zero_iff dims).mpr (h0 ▸ hd)] at hk
  exact Nat.not_lt_zero k hk

/-- A register without a site of dimension zero has a position. -/
theorem total_pos {dims : List Nat} (hpos : ∀ d ∈ dims, 0 < d) : 0 < total dims :=
  Nat.pos_of_ne_zero fun h => Nat.lt_irrefl 0 (hpos 0 ((total_eq_zero_iff dims).mp h))

/-! ## The first site -/

theorem split_snd (dims : List Nat) (k : Nat) : (split dims k).2 = k / total dims := by
  induction dims with
  | nil => rw [total_nil, Nat.div_one]; rfl
  | cons d ds ih =>
    show (split ds k).2 / d = _
    rw [ih, total_cons, Nat.div_div_eq_div_mul, Nat.mul_comm]

@[simp] theorem digits_nil (k : Nat) : digits k [] = [] := rfl

theorem digits_cons (k d : Nat) (ds : List Nat) :
    digits k (d :: ds) = k / total ds % d :: digits k ds := by
  show (split ds k).2 % d :: digits k ds = _
  rw [split_snd]

@[simp] theorem index_nil (values : List Nat) : index values [] = 0 := by
  simp [index]

/-- What is read before the digits counts whole rounds of the register. -/
theorem foldl_index (values dims : List Nat) (hlen : values.length = dims.length) (acc : Nat) :
    (values.zip dims).foldl (fun acc p => acc * p.2 + p.1) acc
      = acc * total dims + index values dims := by
  induction dims generalizing values acc with
  | nil => simp
  | cons d ds ih =>
    obtain _ | ⟨v, vs⟩ := values
    · simp at hlen
    · have hlen' : vs.length = ds.length := by simpa using hlen
      simp only [index, List.zip_cons_cons, List.foldl_cons, total_cons]
      rw [ih vs hlen' (acc * d + v), ih vs hlen' (0 * d + v)]
      ring

theorem index_cons {v d : Nat} {vs ds : List Nat} (hlen : vs.length = ds.length) :
    index (v :: vs) (d :: ds) = v * total ds + index vs ds := by
  show ((vs.zip ds).foldl (fun acc p => acc * p.2 + p.1) (0 * d + v)) = _
  rw [foldl_index vs ds hlen, Nat.zero_mul, Nat.zero_add]

/-! ## The two translations -/

/-- Valid digits name a position. -/
theorem index_lt_total {dims values : List Nat} (h : Valid dims values) :
    index values dims < total dims := by
  induction h with
  | nil => simp
  | @cons v d vs ds hv hvs ih =>
    rw [index_cons hvs.length_eq, total_cons]
    calc v * total ds + index vs ds < v * total ds + total ds := Nat.add_lt_add_left ih _
      _ = (v + 1) * total ds := by ring
      _ ≤ d * total ds := Nat.mul_le_mul_right _ hv

/-- The digits of any number are valid over sites of positive dimension. -/
theorem valid_digits {dims : List Nat} (hpos : ∀ d ∈ dims, 0 < d) (k : Nat) :
    Valid dims (digits k dims) := by
  induction dims with
  | nil => exact List.Forall₂.nil
  | cons d ds ih =>
    rw [digits_cons]
    exact List.Forall₂.cons (Nat.mod_lt _ (hpos d (by simp)))
      (ih fun e he => hpos e (by simp [he]))

theorem valid_digits_of_lt {dims : List Nat} {k : Nat} (hk : k < total dims) :
    Valid dims (digits k dims) :=
  valid_digits (pos_of_lt_total hk) k

/-- **Reading the digits of a number gives it back**, up to whole rounds of
the register. -/
theorem index_digits {dims : List Nat} (hpos : ∀ d ∈ dims, 0 < d) (k : Nat) :
    index (digits k dims) dims = k % total dims := by
  induction dims with
  | nil => rw [digits_nil, index_nil, total_nil, Nat.mod_one]
  | cons d ds ih =>
    rw [digits_cons, index_cons (length_digits k ds), ih fun e he => hpos e (by simp [he]),
      total_cons, Nat.mul_comm d, Nat.mod_mul]
    ring

theorem index_digits_of_lt {dims : List Nat} {k : Nat} (hk : k < total dims) :
    index (digits k dims) dims = k := by
  rw [index_digits (pos_of_lt_total hk), Nat.mod_eq_of_lt hk]

/-- Whole rounds of the register leave the digits as they are. -/
theorem digits_mul_total_add (dims : List Nat) (a k : Nat) :
    digits (a * total dims + k) dims = digits k dims := by
  induction dims generalizing a with
  | nil => rfl
  | cons d ds ih =>
    rw [digits_cons, digits_cons, total_cons, ← Nat.mul_assoc, ih]
    obtain h0 | h0 := Nat.eq_zero_or_pos (total ds)
    · rw [h0, Nat.mul_zero, Nat.zero_add]
    · rw [Nat.mul_comm (a * d), Nat.mul_add_div h0, Nat.mul_add_mod_self_right]

/-- **The digits of the position that valid digits name are these digits.** -/
theorem digits_index {dims values : List Nat} (h : Valid dims values) :
    digits (index values dims) dims = values := by
  induction h with
  | nil => rfl
  | @cons v d vs ds hv hvs ih =>
    have hlt := index_lt_total hvs
    rw [index_cons hvs.length_eq, digits_cons, digits_mul_total_add, ih,
      Nat.mul_comm, Nat.mul_add_div (Nat.zero_lt_of_lt hlt), Nat.div_eq_of_lt hlt,
      Nat.add_zero, Nat.mod_eq_of_lt hv]

/-- Positions with the same digits are the same. -/
theorem digits_injective {dims : List Nat} {j k : Nat} (hj : j < total dims)
    (hk : k < total dims) (h : digits j dims = digits k dims) : j = k := by
  rw [← index_digits_of_lt hj, ← index_digits_of_lt hk, h]

/-- The digits of the last position are the largest ones. -/
theorem digits_total_sub_one {dims : List Nat} (hpos : ∀ d ∈ dims, 0 < d) :
    digits (total dims - 1) dims = dims.map (· - 1) := by
  have hlast : Valid dims (dims.map (· - 1)) ∧ index (dims.map (· - 1)) dims + 1 = total dims := by
    induction dims with
    | nil => exact ⟨.nil, rfl⟩
    | cons d ds ih =>
      obtain ⟨hvalid, hindex⟩ := ih fun e he => hpos e (by simp [he])
      have hd : 0 < d := hpos d (by simp)
      refine ⟨.cons (Nat.sub_lt hd Nat.one_pos) hvalid, ?_⟩
      rw [List.map_cons, index_cons (by simp), Nat.add_assoc, hindex, total_cons]
      calc (d - 1) * total ds + total ds = (d - 1 + 1) * total ds := by ring
        _ = d * total ds := by rw [Nat.sub_add_cancel hd]
  rw [← hlast.2, Nat.add_sub_cancel, digits_index hlast.1]

/-! ## Strides -/

/-- **Moving one digit moves the position by its stride.** -/
theorem index_set {dims values : List Nat} (hlen : values.length = dims.length) {i : Nat}
    (hi : i < dims.length) (a : Nat) :
    index (values.set i a) dims + values.getD i 0 * (strides dims).getD i 0
      = index values dims + a * (strides dims).getD i 0 := by
  induction dims generalizing values i with
  | nil => simp at hi
  | cons d ds ih =>
    obtain _ | ⟨v, vs⟩ := values
    · simp at hlen
    · have hlen' : vs.length = ds.length := by simpa using hlen
      obtain _ | i := i
      · simp only [List.set_cons_zero, index_cons hlen', List.getD_cons_zero, strides]
        ring
      · have hi' : i < ds.length := by simpa using hi
        have := ih hlen' hi'
        simp only [List.set_cons_succ, List.getD_cons_succ, strides]
        rw [index_cons (by simpa using hlen'), index_cons hlen']
        omega

end Qudit.Radix
