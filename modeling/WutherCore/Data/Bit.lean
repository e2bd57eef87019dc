import Mathlib

/-!
# The bits of a byte

`bit b i` is bit `i` of a byte, the lowest first.  A byte is its bits (`eq_of_bit`), and each operation
on bytes is one on bits.
-/

namespace WutherCore.Data

instance instLawfulBEqUInt8 : LawfulBEq UInt8 := inferInstance

/-- Bytes in the order of their values. -/
instance instLinearOrderUInt8 : LinearOrder UInt8 where
  le_refl := UInt8.le_refl
  le_trans _ _ _ := UInt8.le_trans
  le_antisymm _ _ := UInt8.le_antisymm
  le_total := UInt8.le_total
  lt_iff_le_not_ge a b := by
    rw [UInt8.lt_iff_toNat_lt, UInt8.le_iff_toNat_le, UInt8.le_iff_toNat_le]
    omega
  toDecidableLE := inferInstance
  toDecidableEq := inferInstance
  toDecidableLT := inferInstance

/-- Bit `i` of the byte. -/
def bit (b : UInt8) (i : Nat) : Bool := b.toBitVec.getLsbD i

/-- The byte `1 << i`. -/
def bitMask (i : Nat) : UInt8 := UInt8.ofNat (2 ^ i)

theorem eq_of_bit {a b : UInt8} (h : ∀ i < 8, bit a i = bit b i) : a = b := by
  rw [← UInt8.toBitVec_inj]
  exact BitVec.eq_of_getLsbD_eq fun i hi => h i hi

@[simp] theorem bit_or (a b : UInt8) (i : Nat) : bit (a ||| b) i = (bit a i || bit b i) := by
  simp [bit]

@[simp] theorem bit_and (a b : UInt8) (i : Nat) : bit (a &&& b) i = (bit a i && bit b i) := by
  simp [bit]

theorem bit_not (a : UInt8) {i : Nat} (hi : i < 8) : bit (~~~a) i = !bit a i := by
  simp [bit, hi]

@[simp] theorem bit_zero (i : Nat) : bit 0 i = false := by simp [bit]

theorem bit_bitMask {i j : Nat} (hi : i < 8) : bit (bitMask i) j = decide (i = j) := by
  have h : ∀ i < 8, ∀ j < 8, bit (bitMask i) j = decide (i = j) := by decide +kernel
  by_cases hj : j < 8
  · exact h i hi j hj
  · rw [bit, BitVec.getLsbD_of_ge _ _ (Nat.le_of_not_lt hj), eq_comm, decide_eq_false_iff_not]
    omega

theorem and_bitMask_ne_zero {b : UInt8} {i : Nat} (hi : i < 8) : (b &&& bitMask i ≠ 0) ↔ bit b i = true := by
  constructor
  · intro h
    by_contra hb
    apply h
    apply eq_of_bit
    intro j _
    rw [bit_and, bit_bitMask hi, bit_zero]
    by_cases hij : i = j
    · rw [← hij, Bool.eq_false_iff.2 hb, Bool.false_and]
    · rw [decide_eq_false hij, Bool.and_false]
  · intro hb h
    have hbit := congrArg (bit · i) h
    simp [bit_bitMask hi, hb] at hbit

theorem and_eq_right_iff {b m : UInt8} : b &&& m = m ↔ ∀ i < 8, bit m i = true → bit b i = true := by
  constructor
  · intro h i _ hm
    have hbit := congrArg (bit · i) h
    rw [bit_and, hm, Bool.and_true] at hbit
    exact hbit
  · intro h
    apply eq_of_bit
    intro i hi
    rw [bit_and]
    cases hm : bit m i with
    | false => rw [Bool.and_false]
    | true => rw [h i hi hm, Bool.and_true]

/-- `u8::count_ones`. -/
def countOnes (b : UInt8) : Nat := (List.range 8).countP (bit b)

theorem length_le_countOnes {b : UInt8} {l : List Nat} (hl : l.Nodup)
    (h : ∀ i ∈ l, i < 8 ∧ bit b i = true) : l.length ≤ countOnes b := by
  rw [countOnes, List.countP_eq_length_filter]
  apply (List.Nodup.subperm hl _).length_le
  intro i hi
  rw [List.mem_filter, List.mem_range]
  exact h i hi

end WutherCore.Data
