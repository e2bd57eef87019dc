import WutherCore.Data.Louds
import Mathlib.Data.List.Range
import Mathlib.Tactic.Ring

/-!
# Bits in words of 64

`bitsOf` is the string of the bits of a list of words, the lowest bit of a word first.  The number of
`true`s before a position is found word by word; the `true` number `i` of a word is the lowest bit that is
left when the lowest one has been cleared `i` times (`Cleared`).
-/

namespace WutherCore.Data

open Louds

/-- The bits of a word. -/
def wordBits (w : UInt64) : List Bool := (List.range 64).map w.toNat.testBit

/-- The bits of a list of words. -/
def bitsOf (bm : List UInt64) : List Bool := bm.flatMap wordBits

@[simp] theorem length_wordBits (w : UInt64) : (wordBits w).length = 64 := by simp [wordBits]

@[simp] theorem length_bitsOf (bm : List UInt64) : (bitsOf bm).length = 64 * bm.length := by
  induction bm with
  | nil => rfl
  | cons w bm ih =>
    rw [bitsOf, List.flatMap_cons, List.length_append, length_wordBits, ← bitsOf, ih, List.length_cons]
    omega

theorem getElem?_wordBits (w : UInt64) (i : Nat) :
    (wordBits w)[i]? = if i < 64 then some (w.toNat.testBit i) else none := by
  rw [wordBits, List.getElem?_map]
  split_ifs with h
  · rw [List.getElem?_range h]
    rfl
  · rw [List.getElem?_eq_none (by simpa using h)]
    rfl

theorem bitsOf_cons (w : UInt64) (bm : List UInt64) : bitsOf (w :: bm) = wordBits w ++ bitsOf bm := rfl

theorem getElem?_bitsOf (bm : List UInt64) (i : Nat) :
    (bitsOf bm)[i]? = bm[i / 64]?.map fun w => w.toNat.testBit (i % 64) := by
  induction bm generalizing i with
  | nil => rfl
  | cons w bm ih =>
    rw [bitsOf_cons]
    rcases Nat.lt_or_ge i 64 with h | h
    · rw [List.getElem?_append_left (by simpa using h), getElem?_wordBits, if_pos h, Nat.div_eq_of_lt h,
        Nat.mod_eq_of_lt h]
      rfl
    · obtain ⟨k, rfl⟩ := Nat.exists_eq_add_of_le h
      rw [List.getElem?_append_right (by simp), length_wordBits, Nat.add_sub_cancel_left, ih,
        Nat.add_div_left k (by decide), Nat.add_mod_left]
      rfl

/-! ### Counting word by word -/

/-- The number of `true`s of a word. -/
def popcount (w : UInt64) : Nat := (wordBits w).count true

theorem popcount_le (w : UInt64) : popcount w ≤ 64 := by
  have h := List.count_le_length (a := true) (l := wordBits w)
  rwa [length_wordBits] at h

theorem drop_bitsOf (bm : List UInt64) (k : Nat) : (bitsOf bm).drop (64 * k) = bitsOf (bm.drop k) := by
  induction k generalizing bm with
  | zero => rfl
  | succ k ih =>
    cases bm with
    | nil => simp [bitsOf]
    | cons w bm =>
      rw [List.drop_succ_cons, ← ih, bitsOf_cons, show 64 * (k + 1) = 64 + 64 * k by omega, ← List.drop_drop,
        List.drop_left' (length_wordBits w)]

variable {bm : List UInt64} {k r : Nat} {w : UInt64}

theorem drop_eq_cons (h : bm[k]? = some w) : bm.drop k = w :: bm.drop (k + 1) := by
  obtain ⟨hk, rfl⟩ := List.getElem?_eq_some_iff.1 h
  exact List.drop_eq_getElem_cons hk

theorem ones_bitsOf (h : bm[k]? = some w) (hr : r ≤ 64) :
    ones (bitsOf bm) (64 * k + r) = ones (bitsOf bm) (64 * k) + ones (wordBits w) r := by
  have hdrop : ((bitsOf bm).drop (64 * k)).take r = (wordBits w).take r := by
    rw [drop_bitsOf, drop_eq_cons h, bitsOf_cons, List.take_append_of_le_length (by simpa using hr)]
  rw [ones, List.take_add, List.count_append, hdrop]
  rfl

theorem ones_bitsOf_succ (h : bm[k]? = some w) :
    ones (bitsOf bm) (64 * (k + 1)) = ones (bitsOf bm) (64 * k) + popcount w := by
  have hw : (wordBits w).take 64 = wordBits w := List.take_of_length_le (by simp)
  rw [Nat.mul_add, Nat.mul_one, ones_bitsOf h (le_refl 64), ones, ones, hw]
  rfl

theorem toNat_mask (hr : r < 64) : ((1 : UInt64) <<< UInt64.ofNat r - 1).toNat = 2 ^ r - 1 := by
  have hpow : 2 ^ r < 2 ^ 64 := Nat.pow_lt_pow_right (by decide) hr
  have hshift : ((1 : UInt64) <<< UInt64.ofNat r).toNat = 2 ^ r := by
    have hamount : (UInt64.ofNat r).toNat % 64 = r := by
      rw [UInt64.toNat_ofNat']
      omega
    rw [UInt64.toNat_shiftLeft, hamount]
    show 1 <<< r % 2 ^ 64 = 2 ^ r
    rw [Nat.one_shiftLeft, Nat.mod_eq_of_lt hpow]
  rw [UInt64.toNat_sub_of_le, hshift]
  · rfl
  · rw [UInt64.le_iff_toNat_le, hshift]
    exact Nat.two_pow_pos r

theorem popcount_and_mask (w : UInt64) (hr : r < 64) :
    popcount (w &&& (1 <<< UInt64.ofNat r - 1)) = ones (wordBits w) r := by
  have hbit (j : Nat) : (w &&& (1 <<< UInt64.ofNat r - 1)).toNat.testBit j = (w.toNat.testBit j && decide (j < r)) := by
    rw [UInt64.toNat_and, toNat_mask hr, Nat.testBit_and, Nat.testBit_two_pow_sub_one]
  have hsplit : List.range 64 = List.range r ++ (List.range (64 - r)).map (r + ·) := by
    rw [← List.range_add, Nat.add_sub_cancel' hr.le]
  have htake : (wordBits w).take r = (List.range r).map w.toNat.testBit := by
    rw [wordBits, hsplit, List.map_append, List.take_left' (by simp)]
  rw [popcount, ones, htake, wordBits, hsplit, List.map_append, List.map_map, List.count_append]
  have hlow : (List.range r).map (w &&& (1 <<< UInt64.ofNat r - 1)).toNat.testBit =
      (List.range r).map w.toNat.testBit := by
    apply List.map_congr_left
    intro j hj
    rw [hbit, decide_eq_true (List.mem_range.1 hj), Bool.and_true]
  have hhigh : ((List.range (64 - r)).map
      ((w &&& (1 <<< UInt64.ofNat r - 1)).toNat.testBit ∘ (r + ·))).count true = 0 := by
    apply List.count_eq_zero_of_not_mem
    rw [List.mem_map]
    rintro ⟨j, -, hj⟩
    rw [Function.comp_apply, hbit, decide_eq_false (by omega), Bool.and_false] at hj
    cases hj
  rw [hlow, hhigh, Nat.add_zero]

/-! ### The lowest bits of a word -/

theorem exists_lowest {n : Nat} (h : 0 < n) : ∃ t q, n = 2 ^ (t + 1) * q + 2 ^ t := by
  induction n using Nat.strongRecOn with
  | _ n ih =>
    rcases Nat.mod_two_eq_zero_or_one n with hn | hn
    · obtain ⟨t, q, hhalf⟩ := ih (n / 2) (by omega) (by omega)
      refine ⟨t + 1, q, ?_⟩
      have htwo : n = 2 * (n / 2) := by omega
      rw [htwo, hhalf]
      ring
    · refine ⟨0, n / 2, ?_⟩
      rw [Nat.pow_zero, Nat.zero_add, Nat.pow_one]
      omega

theorem testBit_lowest (t q j : Nat) :
    (2 ^ (t + 1) * q + 2 ^ t).testBit j = if j < t + 1 then decide (j = t) else q.testBit (j - (t + 1)) := by
  rw [Nat.testBit_two_pow_mul_add _ (Nat.pow_lt_pow_right (by decide) (Nat.lt_succ_self t)), Nat.testBit_two_pow]
  simp only [eq_comm]

theorem testBit_clear_lowest (t q j : Nat) :
    ((2 ^ (t + 1) * q + 2 ^ t) &&& (2 ^ (t + 1) * q + 2 ^ t - 1)).testBit j =
      ((2 ^ (t + 1) * q + 2 ^ t).testBit j && decide (j ≠ t)) := by
  have hpos := Nat.two_pow_pos t
  have hlt : 2 ^ t - 1 < 2 ^ (t + 1) := by
    have := Nat.pow_lt_pow_right (by decide : 1 < 2) (Nat.lt_succ_self t)
    omega
  rw [Nat.testBit_and, Nat.add_sub_assoc (Nat.succ_le_of_lt hpos), testBit_lowest,
    Nat.testBit_two_pow_mul_add _ hlt, Nat.testBit_two_pow_sub_one]
  split_ifs with hj
  · by_cases hjt : j = t
    · simp [hjt]
    · simp [hjt]
  · have hjt : j ≠ t := by omega
    simp [hjt]

/-- The bits of the number that are left when the first `i` ones have been cleared. -/
def Cleared (bits : List Bool) (i n : Nat) : Prop :=
  ∀ j, n.testBit j = true ↔ bits[j]? = some true ∧ i ≤ ones bits j

theorem cleared_wordBits (w : UInt64) : Cleared (wordBits w) 0 w.toNat := by
  intro j
  rw [getElem?_wordBits]
  split_ifs with hj
  · simp
  · have hlt : w.toNat < 2 ^ j := w.toNat_lt.trans_le (Nat.pow_le_pow_right (by decide) (by omega))
    simp [Nat.testBit_lt_two_pow hlt]

variable {bits : List Bool} {i n : Nat}

theorem Cleared.pos (h : Cleared bits i n) (hi : i < bits.count true) : 0 < n := by
  obtain ⟨p, hp, hones⟩ := exists_isOne hi
  have hbit := (h p).2 ⟨hp, hones.ge⟩
  exact Nat.pos_of_ne_zero fun h0 => by simp [h0] at hbit

theorem Cleared.lowest {t q : Nat} (h : Cleared bits i n) (hn : n = 2 ^ (t + 1) * q + 2 ^ t) : IsOne bits i t := by
  have hbit (j : Nat) : n.testBit j = if j < t + 1 then decide (j = t) else q.testBit (j - (t + 1)) := by
    rw [hn, testBit_lowest]
  obtain ⟨ht, hle⟩ := (h t).1 (by rw [hbit, if_pos (Nat.lt_succ_self t)]; exact decide_eq_true rfl)
  refine ⟨ht, ?_⟩
  by_contra hne
  -- an earlier one would be left as well
  obtain ⟨p, hp, hones⟩ := exists_isOne (show i < bits.count true by
    have : ones bits (t + 1) ≤ bits.count true := ones_le_count (t + 1)
    rw [ones_succ ht] at this
    omega)
  have hlt : p < t := by
    by_contra hge
    have := ones_mono bits (Nat.le_of_not_lt hge)
    omega
  have hpbit := (h p).2 ⟨hp, hones.ge⟩
  rw [hbit, if_pos (by omega)] at hpbit
  exact absurd (of_decide_eq_true hpbit) hlt.ne

theorem Cleared.clear (h : Cleared bits i n) (hn : 0 < n) : Cleared bits (i + 1) (n &&& (n - 1)) := by
  obtain ⟨t, q, hlow⟩ := exists_lowest hn
  have hone := h.lowest hlow
  intro j
  rw [hlow, testBit_clear_lowest, ← hlow, Bool.and_eq_true, h j, decide_eq_true_eq]
  constructor
  · rintro ⟨⟨hj, hle⟩, hne⟩
    refine ⟨hj, ?_⟩
    rcases Nat.eq_or_lt_of_le hle with heq | hlt
    · exact absurd (IsOne.unique ⟨hj, heq.symm⟩ hone) hne
    · exact hlt
  · rintro ⟨hj, hle⟩
    refine ⟨⟨hj, by omega⟩, ?_⟩
    rintro rfl
    rw [hone.2] at hle
    omega

theorem isOne_bitsOf {t : Nat} (h : bm[k]? = some w) (hone : IsOne (wordBits w) i t) :
    IsOne (bitsOf bm) (ones (bitsOf bm) (64 * k) + i) (64 * k + t) := by
  have ht : t < 64 := by
    have := hone.lt_length
    rwa [length_wordBits] at this
  have hbit := hone.1
  rw [getElem?_wordBits, if_pos ht] at hbit
  constructor
  · rw [getElem?_bitsOf, show (64 * k + t) / 64 = k by omega, show (64 * k + t) % 64 = t by omega, h]
    exact hbit
  · rw [ones_bitsOf h ht.le, hone.2]

theorem getElem?_of_drop {words : List UInt64} (h : bm.drop k = w :: words) :
    bm[k]? = some w ∧ bm.drop (k + 1) = words := by
  constructor
  · rw [← Nat.add_zero k, ← List.getElem?_drop, h]
    rfl
  · rw [← List.drop_drop, h]
    rfl

end WutherCore.Data
