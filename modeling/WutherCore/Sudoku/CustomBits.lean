import Mathlib
import WutherCore.Data.Bit
import WutherCore.Data.Keyed
import WutherCore.Text.Str

/-!
# Custom byte layouts

A custom layout is written as eight letters, one for each bit of a byte from the highest to the lowest:
two `x`, which mark a hint, two `p` for the number of a clue and four `v` for its cell.  `CustomBits`
holds the places of the letters; that they are eight different ones is a field, so that every fact about
a layout follows from it.

A hint has both of its `x` bits, padding lacks one of them, and the other bits are read back one by one.
-/

namespace WutherCore.Sudoku

open WutherCore.Text WutherCore.Data

/-- The places of the letters of a custom pattern. -/
structure CustomBits where
  x0 : Nat
  x1 : Nat
  p0 : Nat
  p1 : Nat
  v0 : Nat
  v1 : Nat
  v2 : Nat
  v3 : Nat
  nodup : [x0, x1, p0, p1, v0, v1, v2, v3].Nodup
  lt : ∀ i ∈ [x0, x1, p0, p1, v0, v1, v2, v3], i < 8

/-- The bits of a letter in a pattern: the first character is bit 7. -/
def bitsOf (c : Char) (pattern : Str) : List Nat :=
  (pattern.zipIdx.filter fun p => p.1 == c).map fun p => 7 - p.2

namespace CustomBits

variable (b : CustomBits)

/-- The bits of a hint. -/
def xMask : UInt8 := bitMask b.x0 ||| bitMask b.x1

/-- The bit set when the condition holds. -/
def setIf (c : Bool) (i : Nat) (out : UInt8) : UInt8 := if c then out ||| bitMask i else out

/-- The `x` bits, without the one that `drop` names. -/
def xPart : Option Nat → UInt8
  | none => b.xMask
  | some 0 => b.xMask &&& ~~~bitMask b.x0
  | some _ => b.xMask &&& ~~~bitMask b.x1

/-- `encode_bits`: the number and the cell of a clue in the bits of the pattern, without one of the two
`x` bits when `drop` names it. -/
def encodeBits (val pos : UInt8) (drop : Option Nat) : UInt8 :=
  let out := b.xPart drop
  let out := setIf (val &&& 2 != 0) b.p0 out
  let out := setIf (val &&& 1 != 0) b.p1 out
  let out := setIf (pos >>> 3 &&& 1 != 0) b.v0 out
  let out := setIf (pos >>> 2 &&& 1 != 0) b.v1 out
  let out := setIf (pos >>> 1 &&& 1 != 0) b.v2 out
  setIf (pos >>> 0 &&& 1 != 0) b.v3 out

/-- The number and the cell read back from a byte, as `val << 4 | pos`. -/
def decodeBits (byte : UInt8) : UInt8 :=
  let val : UInt8 := (if byte &&& bitMask b.p0 != 0 then 2 else 0) |||
    (if byte &&& bitMask b.p1 != 0 then 1 else 0)
  let pos : UInt8 := (if byte &&& bitMask b.v0 != 0 then 8 else 0) |||
    (if byte &&& bitMask b.v1 != 0 then 4 else 0) |||
    (if byte &&& bitMask b.v2 != 0 then 2 else 0) ||| (if byte &&& bitMask b.v3 != 0 then 1 else 0)
  val <<< 4 ||| pos

/-- The padding of a layout: the bytes that lack one `x` bit and have at least five ones, in order. -/
def paddingPool : List UInt8 :=
  Vec.dedup (Vec.sort (((List.range 2).flatMap fun drop => (List.range 4).flatMap fun val =>
    (List.range 16).map fun pos => b.encodeBits (UInt8.ofNat val) (UInt8.ofNat pos) (some drop)).filter
      fun byte => 5 ≤ countOnes byte))

/-! ### The bits of an encoding -/

theorem bit_setIf {c : Bool} {i : Nat} (hi : i < 8) (out : UInt8) (j : Nat) :
    bit (setIf c i out) j = (bit out j || c && decide (i = j)) := by
  cases c <;> simp [setIf, bit_bitMask hi]

theorem bit_xMask (j : Nat) : bit b.xMask j = (decide (b.x0 = j) || decide (b.x1 = j)) := by
  rw [xMask, bit_or, bit_bitMask (b.lt _ (by simp)), bit_bitMask (b.lt _ (by simp))]

theorem bit_encodeBits_none (val pos : UInt8) (j : Nat) :
    bit (b.encodeBits val pos none) j =
      (decide (b.x0 = j) || decide (b.x1 = j) ||
        (val &&& 2 != 0) && decide (b.p0 = j) || (val &&& 1 != 0) && decide (b.p1 = j) ||
        (pos >>> 3 &&& 1 != 0) && decide (b.v0 = j) || (pos >>> 2 &&& 1 != 0) && decide (b.v1 = j) ||
        (pos >>> 1 &&& 1 != 0) && decide (b.v2 = j) || (pos >>> 0 &&& 1 != 0) && decide (b.v3 = j)) := by
  have hlt := b.lt
  simp only [List.forall_mem_cons] at hlt
  obtain ⟨-, -, hp0, hp1, hv0, hv1, hv2, hv3, -⟩ := hlt
  simp only [encodeBits, bit_setIf hp0, bit_setIf hp1, bit_setIf hv0, bit_setIf hv1, bit_setIf hv2,
    bit_setIf hv3, xPart, bit_xMask]

theorem bit_encodeBits_some (val pos : UInt8) (drop : Nat) {j : Nat} (hj : j < 8) :
    bit (b.encodeBits val pos (some drop)) j =
      ((decide (b.x0 = j) || decide (b.x1 = j)) && !decide ((if drop = 0 then b.x0 else b.x1) = j) ||
        (val &&& 2 != 0) && decide (b.p0 = j) || (val &&& 1 != 0) && decide (b.p1 = j) ||
        (pos >>> 3 &&& 1 != 0) && decide (b.v0 = j) || (pos >>> 2 &&& 1 != 0) && decide (b.v1 = j) ||
        (pos >>> 1 &&& 1 != 0) && decide (b.v2 = j) || (pos >>> 0 &&& 1 != 0) && decide (b.v3 = j)) := by
  have hlt := b.lt
  simp only [List.forall_mem_cons] at hlt
  obtain ⟨hx0, hx1, hp0, hp1, hv0, hv1, hv2, hv3, -⟩ := hlt
  cases drop with
  | zero =>
    simp only [encodeBits, bit_setIf hp0, bit_setIf hp1, bit_setIf hv0, bit_setIf hv1, bit_setIf hv2,
      bit_setIf hv3, xPart, bit_and, bit_xMask, bit_not _ hj, bit_bitMask hx0, if_true]
  | succ drop =>
    simp only [encodeBits, bit_setIf hp0, bit_setIf hp1, bit_setIf hv0, bit_setIf hv1, bit_setIf hv2,
      bit_setIf hv3, xPart, bit_and, bit_xMask, bit_not _ hj, bit_bitMask hx1, Nat.succ_ne_zero, if_false]

theorem and_xMask_iff {byte : UInt8} :
    byte &&& b.xMask = b.xMask ↔ bit byte b.x0 = true ∧ bit byte b.x1 = true := by
  rw [and_eq_right_iff]
  constructor
  · intro h
    exact ⟨h _ (b.lt _ (by simp)) (by simp [bit_xMask]), h _ (b.lt _ (by simp)) (by simp [bit_xMask])⟩
  · rintro ⟨h0, h1⟩ i _ hi
    rw [bit_xMask, Bool.or_eq_true, decide_eq_true_iff, decide_eq_true_iff] at hi
    rcases hi with rfl | rfl
    · exact h0
    · exact h1

theorem encodeBits_hint (val pos : UInt8) : b.encodeBits val pos none &&& b.xMask = b.xMask := by
  rw [and_xMask_iff, bit_encodeBits_none, bit_encodeBits_none]
  simp only [decide_true, Bool.true_or, Bool.or_true, and_self]

theorem ne_x {i : Nat} (hi : i ∈ [b.p0, b.p1, b.v0, b.v1, b.v2, b.v3]) : i ≠ b.x0 ∧ i ≠ b.x1 := by
  have hnodup := b.nodup
  rw [List.nodup_cons, List.nodup_cons] at hnodup
  constructor
  · rintro rfl
    exact hnodup.1 (List.mem_cons_of_mem _ hi)
  · rintro rfl
    exact hnodup.2.1 hi

theorem x0_ne_x1 : b.x0 ≠ b.x1 := by
  have hnodup := b.nodup
  rw [List.nodup_cons] at hnodup
  exact fun h => hnodup.1 (h ▸ List.mem_cons_self)

theorem bit_encodeBits_some_x (val pos : UInt8) (drop : Nat) {j : Nat} (hj : j = b.x0 ∨ j = b.x1) :
    bit (b.encodeBits val pos (some drop)) j = !decide ((if drop = 0 then b.x0 else b.x1) = j) := by
  have hne : ∀ i ∈ [b.p0, b.p1, b.v0, b.v1, b.v2, b.v3], decide (i = j) = false := by
    intro i hi
    rw [decide_eq_false_iff_not]
    rcases hj with rfl | rfl
    · exact (b.ne_x hi).1
    · exact (b.ne_x hi).2
  have hx : (decide (b.x0 = j) || decide (b.x1 = j)) = true := by
    rcases hj with rfl | rfl <;> simp
  have hlt : j < 8 := by
    rcases hj with rfl | rfl
    · exact b.lt _ (by simp)
    · exact b.lt _ (by simp)
  simp only [List.forall_mem_cons] at hne
  obtain ⟨hp0, hp1, hv0, hv1, hv2, hv3, -⟩ := hne
  rw [bit_encodeBits_some b val pos drop hlt, hx, hp0, hp1, hv0, hv1, hv2, hv3]
  simp only [Bool.true_and, Bool.and_false, Bool.or_false]

theorem encodeBits_padding (val pos : UInt8) (drop : Nat) :
    b.encodeBits val pos (some drop) &&& b.xMask ≠ b.xMask := by
  rw [Ne, and_xMask_iff, bit_encodeBits_some_x b _ _ _ (.inl rfl), bit_encodeBits_some_x b _ _ _ (.inr rfl)]
  rintro ⟨h0, h1⟩
  by_cases hdrop : drop = 0
  · simp [hdrop] at h0
  · simp [hdrop] at h1

/-! ### Reading a hint -/

theorem val_bits (val : UInt8) :
    ((if val &&& 2 != 0 then (2 : UInt8) else 0) ||| if val &&& 1 != 0 then 1 else 0) = val &&& 3 := by
  revert val
  decide +kernel

theorem pos_bits (pos : UInt8) :
    ((if pos >>> 3 &&& 1 != 0 then (8 : UInt8) else 0) ||| (if pos >>> 2 &&& 1 != 0 then 4 else 0) |||
      (if pos >>> 1 &&& 1 != 0 then 2 else 0) ||| if pos >>> 0 &&& 1 != 0 then 1 else 0) =
        pos &&& 15 := by
  revert pos
  decide +kernel

theorem bit_encodeBits_at (val pos : UInt8) :
    bit (b.encodeBits val pos none) b.p0 = (val &&& 2 != 0) ∧
    bit (b.encodeBits val pos none) b.p1 = (val &&& 1 != 0) ∧
    bit (b.encodeBits val pos none) b.v0 = (pos >>> 3 &&& 1 != 0) ∧
    bit (b.encodeBits val pos none) b.v1 = (pos >>> 2 &&& 1 != 0) ∧
    bit (b.encodeBits val pos none) b.v2 = (pos >>> 1 &&& 1 != 0) ∧
    bit (b.encodeBits val pos none) b.v3 = (pos >>> 0 &&& 1 != 0) := by
  have hnodup := b.nodup
  simp only [List.nodup_cons, List.mem_cons, not_or, List.not_mem_nil, not_false_eq_true,
    List.nodup_nil, and_true] at hnodup
  obtain ⟨⟨-, h1, h2, h3, h4, h5, h6⟩, ⟨h7, h8, h9, h10, h11, h12⟩, ⟨h13, h14, h15, h16, h17⟩,
    ⟨h18, h19, h20, h21⟩, ⟨h22, h23, h24⟩, ⟨h25, h26⟩, h27⟩ := hnodup
  simp only [bit_encodeBits_none, decide_eq_false h1, decide_eq_false h2, decide_eq_false h3,
    decide_eq_false h4, decide_eq_false h5, decide_eq_false h6, decide_eq_false h7, decide_eq_false h8,
    decide_eq_false h9, decide_eq_false h10, decide_eq_false h11, decide_eq_false h12,
    decide_eq_false h13, decide_eq_false h14, decide_eq_false h15, decide_eq_false h16,
    decide_eq_false h17, decide_eq_false h18, decide_eq_false h19, decide_eq_false h20,
    decide_eq_false h21, decide_eq_false h22, decide_eq_false h23, decide_eq_false h24,
    decide_eq_false h25, decide_eq_false h26, decide_eq_false h27,
    decide_eq_false (Ne.symm h13), decide_eq_false (Ne.symm h14), decide_eq_false (Ne.symm h15),
    decide_eq_false (Ne.symm h16), decide_eq_false (Ne.symm h17), decide_eq_false (Ne.symm h18),
    decide_eq_false (Ne.symm h19), decide_eq_false (Ne.symm h20), decide_eq_false (Ne.symm h21),
    decide_eq_false (Ne.symm h22), decide_eq_false (Ne.symm h23), decide_eq_false (Ne.symm h24),
    decide_eq_false (Ne.symm h25), decide_eq_false (Ne.symm h26), decide_eq_false (Ne.symm h27),
    decide_true, Bool.and_true, Bool.and_false, Bool.or_false, Bool.false_or, and_self]

/-- **A hint is read back to the number and the cell it was made of.** -/
theorem decodeBits_encodeBits (val pos : UInt8) :
    b.decodeBits (b.encodeBits val pos none) = (val &&& 3) <<< 4 ||| pos &&& 15 := by
  have hlt := b.lt
  simp only [List.forall_mem_cons] at hlt
  obtain ⟨-, -, hp0, hp1, hv0, hv1, hv2, hv3, -⟩ := hlt
  have hread : ∀ {i : Nat} (hi : i < 8) (byte : UInt8), (byte &&& bitMask i != 0) = bit byte i := by
    intro i hi byte
    rw [Bool.eq_iff_iff, bne_iff_ne]
    exact and_bitMask_ne_zero hi
  obtain ⟨h1, h2, h3, h4, h5, h6⟩ := b.bit_encodeBits_at val pos
  rw [decodeBits, hread hp0, hread hp1, hread hv0, hread hv1, hread hv2, hread hv3, h1, h2, h3, h4,
    h5, h6, val_bits, pos_bits]

/-! ### The padding -/

theorem mem_paddingPool {byte : UInt8} : byte ∈ b.paddingPool ↔ 5 ≤ countOnes byte ∧
    ∃ drop < 2, ∃ val < 4, ∃ pos < 16,
      b.encodeBits (UInt8.ofNat val) (UInt8.ofNat pos) (some drop) = byte := by
  rw [paddingPool, Vec.mem_dedup_sort, List.mem_filter, decide_eq_true_iff, and_comm]
  simp only [List.mem_flatMap, List.mem_map, List.mem_range]

theorem padding_not_hint {byte : UInt8} (h : byte ∈ b.paddingPool) : byte &&& b.xMask ≠ b.xMask := by
  obtain ⟨-, drop, -, val, -, pos, -, rfl⟩ := b.mem_paddingPool.1 h
  exact b.encodeBits_padding _ _ _

theorem full_mem_paddingPool {drop : Nat} (hdrop : drop < 2) :
    b.encodeBits 3 15 (some drop) ∈ b.paddingPool := by
  rw [mem_paddingPool]
  refine ⟨?_, drop, hdrop, 3, by decide, 15, by decide, rfl⟩
  -- six of them are the letters `p` and `v`
  have hnodup : [b.p0, b.p1, b.v0, b.v1, b.v2, b.v3].Nodup := by
    have h := b.nodup
    rw [List.nodup_cons, List.nodup_cons] at h
    exact h.2.2
  have hsix : 6 ≤ countOnes (b.encodeBits 3 15 (some drop)) := by
    refine length_le_countOnes hnodup ?_
    intro i hi
    have hlt : i < 8 := b.lt i (List.mem_cons_of_mem _ (List.mem_cons_of_mem _ hi))
    refine ⟨hlt, ?_⟩
    rw [bit_encodeBits_some b _ _ _ hlt]
    have hbits : ((3 : UInt8) &&& 2 != 0) = true ∧ ((3 : UInt8) &&& 1 != 0) = true ∧
        ((15 : UInt8) >>> 3 &&& 1 != 0) = true ∧ ((15 : UInt8) >>> 2 &&& 1 != 0) = true ∧
        ((15 : UInt8) >>> 1 &&& 1 != 0) = true ∧ ((15 : UInt8) >>> 0 &&& 1 != 0) = true := by
      decide
    obtain ⟨h1, h2, h3, h4, h5, h6⟩ := hbits
    simp only [List.mem_cons, List.not_mem_nil, or_false] at hi
    rw [h1, h2, h3, h4, h5, h6]
    rcases hi with rfl | rfl | rfl | rfl | rfl | rfl <;>
      simp only [decide_true, Bool.true_and, Bool.true_or, Bool.or_true]
  omega

theorem exists_mem_paddingPool_ne (byte : UInt8) : ∃ other ∈ b.paddingPool, other ≠ byte := by
  by_contra h
  push Not at h
  -- the two paddings with seven ones differ in the bits they lack
  have h0 := h _ (b.full_mem_paddingPool (show 0 < 2 by decide))
  have h1 := h _ (b.full_mem_paddingPool (show 1 < 2 by decide))
  have hbit := congrArg (bit · b.x0) (h0.trans h1.symm)
  rw [bit_encodeBits_some_x b _ _ _ (.inl rfl), bit_encodeBits_some_x b _ _ _ (.inl rfl)] at hbit
  simp [b.x0_ne_x1.symm] at hbit

/-! ### The places of a pattern -/

theorem mem_bitsOf {c : Char} {pattern : Str} {i : Nat} :
    i ∈ bitsOf c pattern ↔ ∃ j, pattern[j]? = some c ∧ 7 - j = i := by
  simp only [bitsOf, List.mem_map, List.mem_filter, beq_iff_eq, Prod.exists, List.mk_mem_zipIdx_iff_getElem?]
  constructor
  · rintro ⟨a, j, ⟨hj, rfl⟩, rfl⟩
    exact ⟨j, hj, rfl⟩
  · rintro ⟨j, hj, rfl⟩
    exact ⟨c, j, ⟨hj, rfl⟩, rfl⟩

theorem bitsOf_nodup (c : Char) {pattern : Str} (hlen : pattern.length = 8) :
    (bitsOf c pattern).Nodup := by
  have hall : (pattern.zipIdx.map fun p => 7 - p.2).Nodup := by
    have hmap : pattern.zipIdx.map (fun p => 7 - p.2) = (List.range 8).map fun i => 7 - i := by
      have hsnd := List.map_map (l := pattern.zipIdx) (g := fun i => 7 - i) (f := Prod.snd)
      rw [List.zipIdx_map_snd, hlen, ← List.range_eq_range'] at hsnd
      exact hsnd.symm
    rw [hmap]
    decide
  exact hall.sublist (List.filter_sublist.map _)

theorem bitsOf_disjoint {c d : Char} (hcd : c ≠ d) {pattern : Str} (hlen : pattern.length = 8) :
    (bitsOf c pattern).Disjoint (bitsOf d pattern) := by
  intro i hc hd
  obtain ⟨j, hj, rfl⟩ := mem_bitsOf.1 hc
  obtain ⟨k, hk, hjk⟩ := mem_bitsOf.1 hd
  have hj8 : j < pattern.length := (List.getElem?_eq_some_iff.1 hj).1
  have hk8 : k < pattern.length := (List.getElem?_eq_some_iff.1 hk).1
  have hsame : j = k := by omega
  rw [hsame, hk] at hj
  exact hcd (Option.some.inj hj).symm

theorem places_nodup {pattern : Str} (hlen : pattern.length = 8) :
    (bitsOf 'x' pattern ++ (bitsOf 'p' pattern ++ bitsOf 'v' pattern)).Nodup := by
  rw [List.nodup_append', List.nodup_append']
  refine ⟨bitsOf_nodup _ hlen, ⟨bitsOf_nodup _ hlen, bitsOf_nodup _ hlen,
    bitsOf_disjoint (by decide) hlen⟩, ?_⟩
  rw [List.disjoint_append_right]
  exact ⟨bitsOf_disjoint (by decide) hlen, bitsOf_disjoint (by decide) hlen⟩

theorem places_lt (pattern : Str) {i : Nat}
    (hi : i ∈ bitsOf 'x' pattern ++ (bitsOf 'p' pattern ++ bitsOf 'v' pattern)) : i < 8 := by
  simp only [List.mem_append, mem_bitsOf] at hi
  rcases hi with ⟨j, -, rfl⟩ | ⟨j, -, rfl⟩ | ⟨j, -, rfl⟩ <;> omega

/-- The places of the letters of a pattern with two `x`, two `p` and four `v`. -/
def ofPattern (pattern : Str) (hlen : pattern.length = 8) : Option CustomBits :=
  match hx : bitsOf 'x' pattern, hp : bitsOf 'p' pattern, hv : bitsOf 'v' pattern with
  | [x0, x1], [p0, p1], [v0, v1, v2, v3] =>
    some {
      x0, x1, p0, p1, v0, v1, v2, v3
      nodup := by
        have h := places_nodup hlen
        rwa [hx, hp, hv] at h
      lt := by
        intro i hi
        apply places_lt pattern
        rw [hx, hp, hv]
        exact hi }
  | _, _, _ => none

theorem length_bitsOf (c : Char) (pattern : Str) : (bitsOf c pattern).length = pattern.count c := by
  have hsnd : (pattern.zipIdx.map Prod.fst).countP (· == c) = pattern.count c := by
    rw [List.zipIdx_map_fst, List.count]
  rw [bitsOf, List.length_map, ← List.countP_eq_length_filter, ← hsnd, List.countP_map]
  rfl

end CustomBits

end WutherCore.Sudoku
