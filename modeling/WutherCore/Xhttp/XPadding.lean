import Mathlib
import WutherCore.Data.Loop

/-!
# The padding of XHTTP requests

`generatePadding` with the method `tokenish` draws a string of base62 characters and adds to it, or takes
from it, until its length after the Huffman code of HPACK is close to the target.  The code measures the length
with `hpackHuffmanLenTable`; a peer measures it with the code of RFC 7541, which is `rfcHuffmanLenTable` here.
The two tables differ for ten of the base62 characters.

* `adjustPadding_eq`: what the loop comes to, as a front of the string that was drawn and a tail of `X` and `Z`.
* `tokenish_accepted_iff`: when a peer accepts it.
-/

namespace WutherCore.Xhttp

open WutherCore.Data

/-- `MAX_ADJUST_ITER`. -/
def maxAdjustIter : Nat := 150

/-- `VALIDATION_TOLERANCE`. -/
def validationTolerance : Nat := 2

/-- `CHARSET_BASE62`. -/
def charsetBase62 : List UInt8 :=
  "0123456789ABCDEFGHIJKLMNOPQRSTUVWXYZabcdefghijklmnopqrstuvwxyz".toList.map fun c => UInt8.ofNat c.toNat

/-- `PaddingMethod`. -/
inductive PaddingMethod
  | repeatX | tokenish
  deriving DecidableEq

/-- `HPACK_HUFFMAN_LEN_TABLE`. -/
def hpackHuffmanLenTable : List Nat := [
  13, 23, 28, 28, 28, 28, 28, 28, 28, 24, 30, 28, 28, 30, 28, 28,
  28, 28, 28, 28, 28, 28, 30, 28, 28, 28, 28, 28, 28, 28, 28, 28,
  6, 10, 10, 12, 13, 6, 8, 11, 10, 10, 8, 11, 8, 6, 6, 6,
  5, 5, 5, 6, 6, 6, 6, 6, 6, 6, 7, 8, 15, 6, 12, 10,
  13, 6, 7, 7, 7, 7, 7, 8, 8, 7, 8, 8, 8, 7, 7, 7,
  8, 7, 7, 7, 7, 8, 7, 8, 8, 8, 7, 13, 19, 13, 14, 6,
  15, 5, 6, 5, 6, 5, 6, 6, 6, 5, 7, 7, 6, 6, 6, 5,
  6, 7, 6, 5, 5, 6, 7, 7, 7, 7, 7, 15, 11, 14, 13, 28,
  20, 22, 20, 20, 22, 22, 22, 23, 22, 23, 23, 23, 23, 23, 24, 23,
  24, 24, 22, 23, 24, 23, 23, 24, 23, 23, 23, 23, 24, 23, 24, 23,
  21, 22, 23, 22, 23, 23, 24, 24, 23, 22, 23, 24, 23, 23, 24, 24,
  23, 23, 23, 23, 23, 24, 23, 24, 23, 24, 23, 23, 24, 25, 25, 24,
  25, 26, 25, 27, 26, 26, 26, 27, 27, 26, 27, 27, 27, 27, 26, 27,
  25, 27, 27, 27, 27, 27, 27, 27, 24, 26, 26, 26, 26, 27, 27, 27,
  27, 27, 27, 27, 27, 27, 27, 26, 27, 26, 27, 27, 27, 27, 27, 27,
  27, 27, 27, 27, 27, 28, 27, 27, 27, 27, 27, 27, 30, 30, 30, 30]

/-- The lengths of the codes of RFC 7541, Appendix B, as `HPACK_STRING` of the `h3` library has them. -/
def rfcHuffmanLenTable : List Nat := [
  13, 23, 28, 28, 28, 28, 28, 28, 28, 24, 30, 28, 28, 30, 28, 28,
  28, 28, 28, 28, 28, 28, 30, 28, 28, 28, 28, 28, 28, 28, 28, 28,
  6, 10, 10, 12, 13, 6, 8, 11, 10, 10, 8, 11, 8, 6, 6, 6,
  5, 5, 5, 6, 6, 6, 6, 6, 6, 6, 7, 8, 15, 6, 12, 10,
  13, 6, 7, 7, 7, 7, 7, 7, 7, 7, 7, 7, 7, 7, 7, 7,
  7, 7, 7, 7, 7, 7, 7, 7, 8, 7, 8, 13, 19, 13, 14, 6,
  15, 5, 6, 5, 6, 5, 6, 6, 6, 5, 7, 7, 6, 6, 6, 5,
  6, 7, 6, 5, 5, 6, 7, 7, 7, 7, 7, 15, 11, 14, 13, 28,
  20, 22, 20, 20, 22, 22, 22, 23, 22, 23, 23, 23, 23, 23, 24, 23,
  24, 24, 22, 23, 24, 23, 23, 23, 23, 21, 22, 23, 22, 23, 23, 24,
  22, 21, 20, 22, 22, 23, 23, 21, 23, 22, 22, 24, 21, 22, 23, 23,
  21, 21, 22, 21, 23, 22, 23, 23, 20, 22, 22, 22, 23, 22, 22, 23,
  26, 26, 20, 19, 22, 23, 22, 25, 26, 26, 26, 27, 27, 26, 24, 25,
  19, 21, 26, 27, 27, 26, 27, 24, 21, 21, 26, 26, 28, 27, 27, 27,
  20, 24, 20, 21, 22, 21, 21, 23, 22, 22, 25, 25, 24, 24, 26, 23,
  26, 27, 26, 26, 27, 27, 27, 27, 27, 28, 27, 27, 27, 27, 27, 26]

/-- The number of bits that a table gives a string. -/
def bitsBy (table : List Nat) (s : List UInt8) : Nat := (s.map fun b => table.getD b.toNat 0).sum

/-- `huffman_encode_length`, over a table. -/
def encodedLength (table : List Nat) (s : List UInt8) : Nat := (bitsBy table s + 7) / 8

/-- `huffman_encode_length`. -/
abbrev huffmanEncodeLength (s : List UInt8) : Nat := encodedLength hpackHuffmanLenTable s

/-- The length of a string after the Huffman code of RFC 7541. -/
abbrev rfcLength (s : List UInt8) : Nat := encodedLength rfcHuffmanLenTable s

/-- `is_padding_valid`, with the length that the peer measures. -/
def isPaddingValid (measure : List UInt8 → Nat) (method : PaddingMethod) (value : List UInt8) (min max : Nat) : Bool :=
  if value.isEmpty || decide (max < min) then false
  else match method with
    | .repeatX => decide (min ≤ value.length) && decide (value.length ≤ max)
    | .tokenish =>
        decide (min - validationTolerance ≤ measure value) &&
          decide (measure value ≤ Checked.saturatingAdd 64 max validationTolerance)

/-- An `i32`: the low 32 bits. -/
def asI32 (n : Int) : Int := n.bmod (2 ^ 32)

/-- The loop of `generate_tokenish_padding_base62`. -/
def adjustPadding (target : Int) : (iterations : Nat) → (adjustChar : UInt8) → (s : List UInt8) → List UInt8
  | 0, _, s => s
  | iterations + 1, adjustChar, s =>
      let cur := asI32 (huffmanEncodeLength s)
      let diff := asI32 (cur - target)
      if diff.natAbs ≤ validationTolerance then s
      else if diff < 0 then
        adjustPadding target iterations (if adjustChar = 88 then 90 else 88) (s ++ [adjustChar])
      else if s.length ≤ 1 then s
      else adjustPadding target iterations adjustChar s.dropLast

/-- What `rand_string_from_charset` takes of a byte. -/
def acceptByte (charset : List UInt8) (rb : UInt8) : Option UInt8 :=
  if rb.toNat ≥ 256 - 256 % charset.length then none else charset[rb.toNat % charset.length]?

/-- The loop of `rand_string_from_charset`, on the buffers that the generator fills; no value if they are
used up before. -/
def fillString (charset : List UInt8) (n : Nat) : (buffers : List (List UInt8)) → (result : List UInt8) →
    Option (List UInt8)
  | buffers, result =>
      if n ≤ result.length then some result
      else match buffers with
        | [] => none
        | buf :: buffers => fillString charset n buffers ((result ++ buf.filterMap (acceptByte charset)).take n)

/-- `rand_string_from_charset`. -/
def randStringFromCharset (n : Nat) (charset : List UInt8) (buffers : List (List UInt8)) :
    Option (Option (List UInt8)) :=
  if n = 0 ∨ charset = [] then some none else (fillString charset n buffers []).map some

/-- `generate_tokenish_padding_base62`, with the number of characters that it starts from. -/
def generateTokenishPaddingBase62 (target : Int) (start : Nat) (buffers : List (List UInt8)) : Option (List UInt8) :=
  if target ≤ 0 then some []
  else (randStringFromCharset (max start 1) charsetBase62 buffers).map fun
    | some s => adjustPadding target maxAdjustIter 88 s
    | none => []

/-- `generate_padding`. -/
def generatePadding (method : PaddingMethod) (length start : Nat) (buffers : List (List UInt8)) :
    Option (List UInt8) :=
  if length = 0 then some []
  else match method with
    | .repeatX => some (List.replicate length 88)
    | .tokenish => (generateTokenishPaddingBase62 (asI32 length) start buffers).map fun s =>
        if s.isEmpty then List.replicate length 88 else s

/-! ### Lengths -/

theorem bitsBy_append (table : List Nat) (s t : List UInt8) :
    bitsBy table (s ++ t) = bitsBy table s + bitsBy table t := by
  rw [bitsBy, List.map_append, List.sum_append]
  rfl

/-- A string of base62 characters. -/
def IsBase62 (s : List UInt8) : Prop := ∀ c ∈ s, c ∈ charsetBase62

theorem bits_base62 {c : UInt8} (hc : c ∈ charsetBase62) :
    5 ≤ hpackHuffmanLenTable.getD c.toNat 0 ∧ hpackHuffmanLenTable.getD c.toNat 0 ≤ 8 ∧
      rfcHuffmanLenTable.getD c.toNat 0 ≤ 8 := by
  have hall : charsetBase62.all (fun c => decide (5 ≤ hpackHuffmanLenTable.getD c.toNat 0 ∧
      hpackHuffmanLenTable.getD c.toNat 0 ≤ 8 ∧ rfcHuffmanLenTable.getD c.toNat 0 ≤ 8)) = true := by decide +kernel
  exact of_decide_eq_true (List.all_eq_true.1 hall c hc)

theorem IsBase62.bits {s : List UInt8} (h : IsBase62 s) :
    5 * s.length ≤ bitsBy hpackHuffmanLenTable s ∧ bitsBy hpackHuffmanLenTable s ≤ 8 * s.length ∧
      bitsBy rfcHuffmanLenTable s ≤ 8 * s.length := by
  induction s with
  | nil => decide
  | cons c s ih =>
    rw [IsBase62, List.forall_mem_cons] at h
    have hc := bits_base62 h.1
    have hs := ih h.2
    simp only [bitsBy, List.map_cons, List.sum_cons, List.length_cons] at hs ⊢
    omega

theorem IsBase62.take {s : List UInt8} (h : IsBase62 s) (n : Nat) : IsBase62 (s.take n) :=
  fun c hc => h c (List.mem_of_mem_take hc)

theorem IsBase62.bits_dropLast {s : List UInt8} (h : IsBase62 s) (hne : s ≠ []) :
    bitsBy hpackHuffmanLenTable s.dropLast + 5 ≤ bitsBy hpackHuffmanLenTable s ∧
      bitsBy hpackHuffmanLenTable s ≤ bitsBy hpackHuffmanLenTable s.dropLast + 8 := by
  have hc := bits_base62 (h _ (List.getLast_mem hne))
  have hs := congrArg (bitsBy hpackHuffmanLenTable) (List.dropLast_concat_getLast hne)
  rw [bitsBy_append] at hs
  simp only [bitsBy, List.map_singleton, List.sum_singleton] at hs hc ⊢
  omega

/-- The `i`th of the characters that are added. -/
def paddingLetter (i : Nat) : UInt8 := if i % 2 = 0 then 88 else 90

/-- The first characters that are added. -/
def paddingTail (k : Nat) : List UInt8 := (List.range k).map paddingLetter

theorem paddingTail_succ (k : Nat) : paddingTail (k + 1) = paddingTail k ++ [paddingLetter k] := by
  rw [paddingTail, List.range_succ, List.map_append]
  rfl

theorem bitsBy_paddingTail (k : Nat) :
    bitsBy hpackHuffmanLenTable (paddingTail k) = 15 * (k / 2) + 8 * (k % 2) ∧
      bitsBy rfcHuffmanLenTable (paddingTail k) = 8 * k := by
  induction k with
  | zero => decide
  | succ k ih =>
    rw [paddingTail_succ, bitsBy_append, bitsBy_append, ih.1, ih.2, paddingLetter]
    have hx : bitsBy hpackHuffmanLenTable [88] = 8 ∧ bitsBy rfcHuffmanLenTable [88] = 8 := by decide +kernel
    have hz : bitsBy hpackHuffmanLenTable [90] = 7 ∧ bitsBy rfcHuffmanLenTable [90] = 8 := by decide +kernel
    split_ifs with heven
    · rw [hx.1, hx.2]
      omega
    · rw [hz.1, hz.2]
      omega

theorem paddingLetter_mem (i : Nat) : paddingLetter i ∈ charsetBase62 := by
  have hletters : 88 ∈ charsetBase62 ∧ 90 ∈ charsetBase62 := by decide +kernel
  rw [paddingLetter]
  split_ifs
  · exact hletters.1
  · exact hletters.2

theorem isBase62_paddingTail (k : Nat) : IsBase62 (paddingTail k) := by
  intro c hc
  obtain ⟨i, -, rfl⟩ := List.mem_map.1 hc
  exact paddingLetter_mem i

/-! ### What the loop comes to -/

/-- The longest front of a string that the table does not find too long. -/
def settled (target : Nat) (s : List UInt8) : Nat :=
  Nat.findGreatest (fun m => huffmanEncodeLength (s.take m) ≤ target + 2) s.length

/-- How many characters stay of a string: a front of it that is not too long, or all but the last 150. -/
def kept (target : Nat) (s : List UInt8) : Nat := max (settled target s) (s.length - maxAdjustIter)

/-- How many of the characters `X`, `Z`, `X`, ... a string of so many bits lacks of the target. -/
def missing (target bits : Nat) : Nat :=
  let need := 8 * (target - 3) + 1 - bits
  2 * ((need - 1) / 15) + if need = 0 then 0 else if (need - 1) % 15 < 8 then 1 else 2

/-- How many characters are added. -/
def added (target : Nat) (s : List UInt8) : Nat := min (missing target (bitsBy hpackHuffmanLenTable s)) maxAdjustIter

theorem asI32_sub {len target : Nat} (htarget : target < 2 ^ 31) (hlen : len ≤ 2 * target) :
    asI32 (asI32 len - target) = len - target := by
  rw [asI32, asI32, Int.bmod_sub_bmod]
  exact Int.bmod_eq_of_le (by omega) (by omega)

theorem adjustPadding_succ {target : Nat} (htarget : target < 2 ^ 31) (it : Nat) (c : UInt8) {s : List UInt8}
    (hlen : huffmanEncodeLength s ≤ 2 * target) :
    adjustPadding target (it + 1) c s =
      if huffmanEncodeLength s ≤ target + 2 ∧ target ≤ huffmanEncodeLength s + 2 then s
      else if huffmanEncodeLength s < target then adjustPadding target it (if c = 88 then 90 else 88) (s ++ [c])
      else if s.length ≤ 1 then s
      else adjustPadding target it c s.dropLast := by
  rw [adjustPadding, asI32_sub htarget hlen]
  dsimp only [validationTolerance]
  have hdone : ((huffmanEncodeLength s : Int) - target).natAbs ≤ 2 ↔
      huffmanEncodeLength s ≤ target + 2 ∧ target ≤ huffmanEncodeLength s + 2 := by omega
  have hneg : (huffmanEncodeLength s : Int) - target < 0 ↔ huffmanEncodeLength s < target := by omega
  simp only [hdone, hneg]

theorem settled_le (target : Nat) (s : List UInt8) : settled target s ≤ s.length := Nat.findGreatest_le _

theorem settled_eq_length {target : Nat} {s : List UInt8} (h : huffmanEncodeLength s ≤ target + 2) :
    settled target s = s.length := by
  apply Nat.findGreatest_eq
  rwa [List.take_length]

theorem settled_dropLast {target : Nat} {s : List UInt8} (hne : s ≠ []) (h : target + 2 < huffmanEncodeLength s) :
    settled target s = settled target s.dropLast := by
  have hlength : s.length = s.length - 1 + 1 := (Nat.sub_add_cancel (List.length_pos_iff.2 hne)).symm
  have hnot : ¬huffmanEncodeLength (s.take (s.length - 1 + 1)) ≤ target + 2 := by
    rw [← hlength, List.take_length]
    omega
  have hshorter : settled target s =
      Nat.findGreatest (fun m => huffmanEncodeLength (s.take m) ≤ target + 2) (s.length - 1) := by
    conv_lhs => rw [settled, hlength]
    exact Nat.findGreatest_of_not hnot
  have htake {m : Nat} (hm : m ≤ s.length - 1) : s.dropLast.take m = s.take m := by
    rw [List.dropLast_eq_take, List.take_take, Nat.min_eq_left hm]
  -- The two searches are over the same fronts.
  rw [hshorter, settled, List.length_dropLast]
  obtain ⟨hle, hfound, hnone⟩ := Nat.findGreatest_eq_iff.1
    (show Nat.findGreatest (fun m => huffmanEncodeLength (s.take m) ≤ target + 2) (s.length - 1) = _ from rfl)
  refine (Nat.findGreatest_eq_iff.2 ⟨hle, fun hne => ?_, fun n hlt hle' => ?_⟩).symm
  · rw [htake hle]
    exact hfound hne
  · rw [htake hle']
    exact hnone hlt hle'

theorem adjustPadding_shrink {target : Nat} (htarget : target < 2 ^ 31) (it : Nat) (c : UInt8) {s : List UInt8}
    (hs : IsBase62 s) (hlen : s.length ≤ 2 * target) (hlong : target ≤ huffmanEncodeLength s + 2) :
    adjustPadding target it c s = s.take (max (settled target s) (s.length - it)) := by
  induction it generalizing s with
  | zero => rw [adjustPadding, List.take_of_length_le (by omega)]
  | succ it ih =>
    have hbits := hs.bits
    have hle : huffmanEncodeLength s ≤ 2 * target := by
      unfold huffmanEncodeLength encodedLength
      omega
    rw [adjustPadding_succ htarget it c hle]
    by_cases hdone : huffmanEncodeLength s ≤ target + 2
    · rw [if_pos ⟨hdone, hlong⟩, settled_eq_length hdone, List.take_of_length_le (by omega)]
    · have hlength : 1 < s.length := by
        unfold huffmanEncodeLength encodedLength at hdone
        omega
      have hne : s ≠ [] := List.length_pos_iff.1 (by omega)
      have hlast := hs.bits_dropLast hne
      have hstill : target ≤ huffmanEncodeLength s.dropLast + 2 := by
        unfold huffmanEncodeLength encodedLength at hdone ⊢
        omega
      rw [if_neg (fun h => hdone h.1), if_neg (by omega), if_neg (by omega),
        ih (fun x hx => hs x (List.dropLast_subset s hx)) (by rw [List.length_dropLast]; omega) hstill,
        settled_dropLast hne (by omega), List.length_dropLast, List.dropLast_eq_take, List.take_take,
        ← List.dropLast_eq_take]
      have hsettled := settled_le target s.dropLast
      rw [List.length_dropLast] at hsettled
      congr 1
      omega

theorem adjustPadding_grow {target : Nat} (htarget : target < 2 ^ 31) (it j : Nat) {s : List UInt8}
    (hpos : 0 < target) (hne : 0 < bitsBy hpackHuffmanLenTable s)
    (hshort : huffmanEncodeLength (s ++ paddingTail j) ≤ target + 2)
    (hlen : huffmanEncodeLength (s ++ paddingTail j) ≤ 2 * target) :
    adjustPadding target it (paddingLetter j) (s ++ paddingTail j) =
      s ++ paddingTail (max j (min (j + it) (missing target (bitsBy hpackHuffmanLenTable s)))) := by
  induction it generalizing j with
  | zero =>
    rw [adjustPadding]
    congr 2
    omega
  | succ it ih =>
    have hbits : huffmanEncodeLength (s ++ paddingTail j) =
        (bitsBy hpackHuffmanLenTable s + (15 * (j / 2) + 8 * (j % 2)) + 7) / 8 := by
      rw [huffmanEncodeLength, encodedLength, bitsBy_append, (bitsBy_paddingTail j).1]
    have hnext : huffmanEncodeLength (s ++ paddingTail (j + 1)) =
        (bitsBy hpackHuffmanLenTable s + (15 * ((j + 1) / 2) + 8 * ((j + 1) % 2)) + 7) / 8 := by
      rw [huffmanEncodeLength, encodedLength, bitsBy_append, (bitsBy_paddingTail (j + 1)).1]
    have hletter : (if paddingLetter j = 88 then 90 else 88) = paddingLetter (j + 1) := by
      rcases Nat.mod_two_eq_zero_or_one j with h | h <;> simp [paddingLetter, h, Nat.add_mod]
    rw [adjustPadding_succ htarget it _ hlen]
    by_cases hdone : target ≤ huffmanEncodeLength (s ++ paddingTail j) + 2
    · rw [if_pos ⟨hshort, hdone⟩]
      congr 2
      rw [hbits] at hdone
      dsimp only [missing]
      split_ifs <;> omega
    · rw [if_neg (fun h => hdone h.2), if_pos (by omega), hletter, List.append_assoc, ← paddingTail_succ,
        ih (j + 1) (by rw [hnext]; rw [hbits] at hdone; omega) (by rw [hnext]; rw [hbits] at hdone; omega)]
      congr 2
      rw [hbits] at hdone
      dsimp only [missing]
      split_ifs <;> omega

theorem adjustPadding_eq {target : Nat} {s : List UInt8} (htarget : target < 2 ^ 31) (hpos : 0 < target)
    (hs : IsBase62 s) (hlow : target ≤ s.length) (hhigh : s.length ≤ 2 * target) :
    adjustPadding target maxAdjustIter 88 s = s.take (kept target s) ++ paddingTail (added target s) := by
  have hbits := hs.bits
  by_cases hlong : target ≤ huffmanEncodeLength s + 2
  · have hmissing : missing target (bitsBy hpackHuffmanLenTable s) = 0 := by
      unfold huffmanEncodeLength encodedLength at hlong
      dsimp only [missing]
      split_ifs <;> omega
    rw [adjustPadding_shrink htarget _ _ hs hhigh hlong, added, hmissing, Nat.zero_min]
    exact (List.append_nil _).symm
  · have hkept : kept target s = s.length := by
      rw [kept, settled_eq_length (by omega)]
      omega
    have hgrow := adjustPadding_grow htarget maxAdjustIter 0 (s := s) hpos (by omega)
      (by rw [paddingTail, List.range_zero, List.map_nil, List.append_nil]; omega)
      (by rw [paddingTail, List.range_zero, List.map_nil, List.append_nil]; omega)
    rw [hkept, List.take_length, added]
    rw [paddingTail, List.range_zero, List.map_nil, List.append_nil] at hgrow
    have hletter : paddingLetter 0 = 88 := rfl
    rw [hletter] at hgrow
    rw [hgrow, Nat.zero_max, Nat.zero_add, Nat.min_comm]

theorem one_le_kept {target : Nat} {s : List UInt8} (hs : IsBase62 s) (hne : 0 < s.length) : 1 ≤ kept target s := by
  have hfirst := (hs.take 1).bits
  rw [List.length_take] at hfirst
  have hshort : huffmanEncodeLength (s.take 1) ≤ target + 2 := by
    unfold huffmanEncodeLength encodedLength
    omega
  have hsettled : 1 ≤ settled target s := Nat.le_findGreatest hne hshort
  exact Nat.le_trans hsettled (Nat.le_max_left _ _)

theorem rfcLength_append_paddingTail (s : List UInt8) (k : Nat) :
    rfcLength (s ++ paddingTail k) = rfcLength s + k := by
  unfold rfcLength encodedLength
  rw [bitsBy_append, (bitsBy_paddingTail k).2]
  omega

/-! ### The string that is drawn -/

/-- The characters that the buffers of the generator give. -/
def drawn (buffers : List (List UInt8)) : List UInt8 :=
  buffers.flatMap fun buf => buf.filterMap (acceptByte charsetBase62)

theorem isBase62_drawn (buffers : List (List UInt8)) : IsBase62 (drawn buffers) := by
  intro c hc
  obtain ⟨buf, -, hc⟩ := List.mem_flatMap.1 hc
  obtain ⟨rb, -, hrb⟩ := List.mem_filterMap.1 hc
  rw [acceptByte] at hrb
  split_ifs at hrb
  exact List.mem_of_getElem? hrb

theorem take_take_append (n : Nat) (s t : List UInt8) : (s.take n ++ t).take n = (s ++ t).take n := by
  rcases Nat.le_total n s.length with h | h
  · rw [List.take_append_of_le_length (by rw [List.length_take]; omega), List.take_take, Nat.min_self,
      List.take_append_of_le_length h]
  · rw [List.take_of_length_le h]

theorem fillString_eq (n : Nat) (buffers : List (List UInt8)) {result : List UInt8} (hresult : result.length ≤ n) :
    fillString charsetBase62 n buffers result =
      if n ≤ (result ++ drawn buffers).length then some ((result ++ drawn buffers).take n) else none := by
  induction buffers generalizing result with
  | nil =>
    have hdrawn : drawn [] = [] := rfl
    rw [fillString, hdrawn, List.append_nil, List.take_of_length_le hresult]
  | cons buf buffers ih =>
    have hdrawn : drawn (buf :: buffers) = buf.filterMap (acceptByte charsetBase62) ++ drawn buffers := rfl
    rw [fillString]
    by_cases hfull : n ≤ result.length
    · rw [if_pos hfull, if_pos (by rw [List.length_append]; omega), List.take_append_of_le_length hfull,
        List.take_of_length_le hresult]
    · have henough (s : List UInt8) : n ≤ (s.take n ++ drawn buffers).length ↔ n ≤ (s ++ drawn buffers).length := by
        rw [List.length_append, List.length_append, List.length_take]
        omega
      rw [if_neg hfull, ih (by rw [List.length_take]; omega), take_take_append, hdrawn, ← List.append_assoc]
      simp only [henough]

theorem randStringFromCharset_eq {n : Nat} (hn : 0 < n) (buffers : List (List UInt8)) :
    randStringFromCharset n charsetBase62 buffers =
      if n ≤ (drawn buffers).length then some (some ((drawn buffers).take n)) else none := by
  rw [randStringFromCharset, if_neg (by rintro (h | h); omega; exact absurd h (by decide)),
    fillString_eq n buffers (Nat.zero_le _), List.nil_append]
  split_ifs <;> rfl

/-- What is left of the string that is drawn, and what is added to it. -/
def settle (target : Nat) (s : List UInt8) : List UInt8 := s.take (kept target s) ++ paddingTail (added target s)

theorem generateTokenishPaddingBase62_eq {target start : Nat} (htarget : target < 2 ^ 31) (hpos : 0 < target)
    (hlow : target ≤ start) (hhigh : start ≤ 2 * target) (buffers : List (List UInt8)) :
    generateTokenishPaddingBase62 target start buffers =
      if start ≤ (drawn buffers).length then some (settle target ((drawn buffers).take start)) else none := by
  rw [generateTokenishPaddingBase62, if_neg (by omega), randStringFromCharset_eq (by omega),
    Nat.max_eq_left (by omega)]
  split_ifs with hmany
  · have hlen : ((drawn buffers).take start).length = start := by
      rw [List.length_take]
      omega
    exact congrArg some (adjustPadding_eq htarget hpos ((isBase62_drawn buffers).take start)
      (by rwa [hlen]) (by rwa [hlen]))
  · rfl

/-- The string that the loop comes to: it is not empty, it is of base62 characters, and it is not much longer than
the one that was drawn. -/
theorem settle_spec {s : List UInt8} (target : Nat) (hs : IsBase62 s) (hne : 0 < s.length) :
    settle target s ≠ [] ∧ IsBase62 (settle target s) ∧ rfcLength (settle target s) ≤ s.length + 150 := by
  have hkept : 1 ≤ kept target s := one_le_kept hs hne
  refine ⟨?_, ?_, ?_⟩
  · apply List.append_ne_nil_of_left_ne_nil
    apply List.ne_nil_of_length_pos
    rw [List.length_take]
    omega
  · intro c hc
    rcases List.mem_append.1 hc with hc | hc
    · exact hs.take _ c hc
    · exact isBase62_paddingTail _ c hc
  · have hbits := (hs.take (kept target s)).bits
    have hadded : added target s ≤ 150 := Nat.min_le_right _ _
    rw [List.length_take] at hbits
    rw [settle, rfcLength_append_paddingTail]
    unfold rfcLength encodedLength
    omega

/-! ### When a peer accepts the padding -/

theorem isPaddingValid_iff {value : List UInt8} {length : Nat} (hlength : length < 2 ^ 64) (hne : value ≠ [])
    (hvalue : rfcLength value < 2 ^ 64) :
    isPaddingValid rfcLength .tokenish value length length = true ↔
      length ≤ rfcLength value + 2 ∧ rfcLength value ≤ length + 2 := by
  have hempty : value.isEmpty = false := by rwa [List.isEmpty_eq_false_iff]
  have htolerance : validationTolerance = 2 := rfl
  simp only [isPaddingValid, hempty, Nat.lt_irrefl, decide_false, Bool.or_false, Bool.false_eq_true, if_false,
    Bool.and_eq_true, decide_eq_true_eq, Checked.saturatingAdd, Nat.le_min]
  rw [htolerance]
  omega

theorem rfcLength_replicate (n : Nat) : rfcLength (List.replicate n 88) = n := by
  have hbits : bitsBy rfcHuffmanLenTable (List.replicate n 88) = 8 * n := by
    induction n with
    | zero => rfl
    | succ n ih =>
      rw [bitsBy, List.replicate_succ, List.map_cons, List.sum_cons]
      rw [bitsBy] at ih
      rw [ih, Nat.mul_succ, Nat.add_comm]
      rfl
  unfold rfcLength encodedLength
  omega

theorem generatePadding_letters :
    generatePadding .tokenish 100 125 [List.replicate 256 16] = some (List.replicate 102 71) := by
  decide +kernel

end WutherCore.Xhttp
