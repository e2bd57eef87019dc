import Mathlib.Data.List.Basic
import WutherCore.Data.Framing
import WutherCore.Text.Radix

/-!
# Fields of a byte buffer

A buffer is a list of bytes.  `byteAt` and `beAt` read a byte and a big-endian number at an offset,
`writeAt` and `putBE` write them in place.  A write is seen by the reads of the same field, and by no
read of another one.  `u8At`, `u16At` and `checkedSlice` have no value outside the buffer.
-/

namespace WutherCore.Data

open WutherCore.Text (digitsBE toBytesBE ofBytesBE toBytesBE_length ofBytesBE_toBytesBE)

/-- `buf[i]`. -/
def byteAt (buf : List UInt8) (i : Nat) : UInt8 := buf.getD i 0

/-- `buf[off..off + bytes.len()].copy_from_slice(bytes)`. -/
def writeAt (buf : List UInt8) (off : Nat) (bytes : List UInt8) : List UInt8 :=
  buf.take off ++ (bytes ++ buf.drop (off + bytes.length))

/-- The big-endian number in the `n` bytes at `off`. -/
def beAt (n : Nat) (buf : List UInt8) (off : Nat) : Nat := ofBytesBE (slice buf off (off + n))

/-- Writes a number, cut to `n` bytes, at `off`. -/
def putBE (n : Nat) (buf : List UInt8) (off v : Nat) : List UInt8 := writeAt buf off (toBytesBE n v)

variable {buf rest bytes : List UInt8} {off i j n v : Nat}

@[simp] theorem length_writeAt (h : off + bytes.length ≤ buf.length) :
    (writeAt buf off bytes).length = buf.length := by
  simp only [writeAt, List.length_append, List.length_take, List.length_drop]
  omega

theorem writeAt_append_left (h : off + bytes.length ≤ buf.length) :
    writeAt (buf ++ rest) off bytes = writeAt buf off bytes ++ rest := by
  simp only [writeAt, List.take_append_of_le_length (show off ≤ buf.length by omega),
    List.drop_append_of_le_length h, List.append_assoc]

theorem getElem?_writeAt_of_outside (h : off + bytes.length ≤ buf.length)
    (hi : i < off ∨ off + bytes.length ≤ i) : (writeAt buf off bytes)[i]? = buf[i]? := by
  have hlen : (buf.take off).length = off := by
    rw [List.length_take]
    omega
  unfold writeAt
  rcases hi with hi | hi
  · rw [List.getElem?_append_left (by omega), List.getElem?_take_of_lt hi]
  · have hsub : off + bytes.length + (i - off - bytes.length) = i := by omega
    rw [List.getElem?_append_right (by omega), List.getElem?_append_right (by omega),
      List.getElem?_drop, hlen, hsub]

theorem byteAt_writeAt_of_outside (h : off + bytes.length ≤ buf.length)
    (hi : i < off ∨ off + bytes.length ≤ i) : byteAt (writeAt buf off bytes) i = byteAt buf i := by
  unfold byteAt
  rw [List.getD_eq_getElem?_getD, List.getD_eq_getElem?_getD, getElem?_writeAt_of_outside h hi]

theorem byteAt_writeAt_one {b : UInt8} (h : off < buf.length) : byteAt (writeAt buf off [b]) off = b := by
  have hlen : (buf.take off).length = off := by
    rw [List.length_take]
    omega
  unfold byteAt writeAt
  rw [List.getD_eq_getElem?_getD, List.getElem?_append_right (by omega), hlen]
  simp

theorem byteAt_append_left (h : i < buf.length) : byteAt (buf ++ rest) i = byteAt buf i := by
  unfold byteAt
  rw [List.getD_eq_getElem?_getD, List.getD_eq_getElem?_getD, List.getElem?_append_left h]

theorem getElem?_slice (l : List UInt8) (i j k : Nat) :
    (slice l i j)[k]? = if k < j - i then l[i + k]? else none := by
  rw [slice, List.getElem?_take, List.getElem?_drop]

theorem byteAt_eq_getElem? (h : i < buf.length) : buf[i]? = some (byteAt buf i) := by
  rw [byteAt, List.getD_eq_getElem?_getD, List.getElem?_eq_getElem h, Option.getD_some]

theorem slice_congr {buf' : List UInt8} (h : j ≤ buf.length) (h' : j ≤ buf'.length)
    (hb : ∀ k, i ≤ k → k < j → byteAt buf k = byteAt buf' k) : slice buf i j = slice buf' i j := by
  apply List.ext_getElem?
  intro k
  rw [getElem?_slice, getElem?_slice]
  split
  · rw [byteAt_eq_getElem? (by omega), byteAt_eq_getElem? (by omega), hb _ (by omega) (by omega)]
  · rfl

theorem byteAt_slice {k : Nat} (h : i + k < j) : byteAt (slice buf i j) k = byteAt buf (i + k) := by
  unfold byteAt
  rw [List.getD_eq_getElem?_getD, List.getD_eq_getElem?_getD, getElem?_slice, if_pos (by omega)]

theorem slice_slice {k m : Nat} (h : i + m ≤ j) :
    slice (slice buf i j) k m = slice buf (i + k) (i + m) := by
  apply List.ext_getElem?
  intro l
  rw [getElem?_slice, getElem?_slice, getElem?_slice]
  by_cases hl : l < m - k
  · rw [if_pos hl, if_pos (by omega), if_pos (by omega), Nat.add_assoc]
  · rw [if_neg hl, if_neg (by omega)]

theorem slice_writeAt_self (h : off + bytes.length ≤ buf.length) (hj : off + bytes.length = j) :
    slice (writeAt buf off bytes) off j = bytes := by
  have hlen : (buf.take off).length = off := by
    rw [List.length_take]
    omega
  exact slice_middle hlen hj

theorem slice_writeAt_of_disjoint (h : off + bytes.length ≤ buf.length)
    (hij : j ≤ off ∨ off + bytes.length ≤ i) :
    slice (writeAt buf off bytes) i j = slice buf i j := by
  apply List.ext_getElem?
  intro k
  rw [getElem?_slice, getElem?_slice]
  split
  · exact getElem?_writeAt_of_outside h (by omega)
  · rfl

theorem drop_writeAt (h : off + bytes.length ≤ buf.length) (hn : off + bytes.length ≤ n) :
    (writeAt buf off bytes).drop n = buf.drop n := by
  apply List.ext_getElem?
  intro k
  rw [List.getElem?_drop, List.getElem?_drop]
  exact getElem?_writeAt_of_outside h (by omega)

theorem writeAt_writeAt {more : List UInt8} (h : off + bytes.length + more.length ≤ buf.length)
    (hi : i = off + bytes.length) : writeAt (writeAt buf off bytes) i more = writeAt buf off (bytes ++ more) := by
  have hlen : (buf.take off ++ bytes).length = i := by
    rw [List.length_append, List.length_take, hi]
    omega
  have htake : (writeAt buf off bytes).take i = buf.take off ++ bytes := by
    rw [writeAt, ← List.append_assoc]
    exact List.take_left' hlen
  have hdrop : (writeAt buf off bytes).drop (i + more.length) = buf.drop (i + more.length) :=
    drop_writeAt (by omega) (by omega)
  rw [writeAt, htake, hdrop, writeAt, List.length_append, hi]
  simp only [List.append_assoc, Nat.add_assoc]

/-! ### Numbers -/

@[simp] theorem length_putBE (h : off + n ≤ buf.length) : (putBE n buf off v).length = buf.length :=
  length_writeAt (by simpa using h)

theorem byteAt_putBE_of_outside (h : off + n ≤ buf.length) (hi : i < off ∨ off + n ≤ i) :
    byteAt (putBE n buf off v) i = byteAt buf i :=
  byteAt_writeAt_of_outside (by simpa using h) (by simpa using hi)

theorem drop_putBE (h : off + n ≤ buf.length) (hi : off + n ≤ i) :
    (putBE n buf off v).drop i = buf.drop i :=
  drop_writeAt (by simpa using h) (by simpa using hi)

theorem beAt_putBE_self (h : off + n ≤ buf.length) (hv : v < 256 ^ n) :
    beAt n (putBE n buf off v) off = v := by
  unfold beAt putBE
  rw [slice_writeAt_self (by simpa using h) (by simp), ofBytesBE_toBytesBE hv]

theorem beAt_putBE_u16 (h : off + 2 ≤ buf.length) :
    beAt 2 (putBE 2 buf off (v % 2 ^ 16)) off = v % 2 ^ 16 :=
  beAt_putBE_self h (Nat.mod_lt _ (by decide))

theorem beAt_writeAt_of_disjoint {m : Nat} (h : off + bytes.length ≤ buf.length)
    (hij : i + m ≤ off ∨ off + bytes.length ≤ i) :
    beAt m (writeAt buf off bytes) i = beAt m buf i := by
  unfold beAt
  rw [slice_writeAt_of_disjoint h hij]

theorem beAt_putBE_of_disjoint {m : Nat} (h : off + n ≤ buf.length) (hij : i + m ≤ off ∨ off + n ≤ i) :
    beAt m (putBE n buf off v) i = beAt m buf i :=
  beAt_writeAt_of_disjoint (by simpa using h) (by simpa using hij)

theorem beAt_append_left (h : i + n ≤ buf.length) : beAt n (buf ++ rest) i = beAt n buf i := by
  unfold beAt
  rw [slice_append_left h]

theorem beAt_congr {buf' : List UInt8} (h : i + n ≤ buf.length) (h' : i + n ≤ buf'.length)
    (hb : ∀ k, i ≤ k → k < i + n → byteAt buf k = byteAt buf' k) : beAt n buf i = beAt n buf' i := by
  unfold beAt
  rw [slice_congr h h' hb]

theorem beAt_slice {k : Nat} (h : i + (k + n) ≤ j) : beAt n (slice buf i j) k = beAt n buf (i + k) := by
  unfold beAt
  rw [slice_slice h, Nat.add_assoc]

theorem beAt_lt (h : off + n ≤ buf.length) : beAt n buf off < 256 ^ n := by
  have hlt := Text.ofBytesBE_lt (slice buf off (off + n))
  rwa [slice_length h, Nat.add_sub_cancel_left] at hlt

/-! ### Reads that may fail -/

/-- The byte at an index. -/
def u8At (buf : List UInt8) (i : Nat) : Option Nat := buf[i]?.map UInt8.toNat

/-- `u16::from_be_bytes` of the bytes at an index. -/
def u16At (buf : List UInt8) (i : Nat) : Option Nat := do
  let high ← u8At buf i
  let low ← u8At buf (i + 1)
  return high * 256 + low

theorem u8At_isSome (buf : List UInt8) (i : Nat) (h : i < buf.length) : ∃ n, u8At buf i = some n :=
  ⟨_, by rw [u8At, List.getElem?_eq_getElem h]; rfl⟩

theorem u16At_isSome (buf : List UInt8) (i : Nat) (h : i + 1 < buf.length) : ∃ n, u16At buf i = some n := by
  obtain ⟨a, ha⟩ := u8At_isSome buf i (by omega)
  obtain ⟨b, hb⟩ := u8At_isSome buf (i + 1) h
  exact ⟨_, by rw [u16At, ha, hb]; rfl⟩

theorem u16At_congr {buf' : List UInt8} (h : buf'[i]? = buf[i]?) (h' : buf'[i + 1]? = buf[i + 1]?) :
    u16At buf' i = u16At buf i := by
  unfold u16At u8At
  rw [h, h']

theorem u8At_of_eq (pre post : List UInt8) {b : UInt8} (hbuf : buf = pre ++ b :: post)
    (hi : i = pre.length) : u8At buf i = some b.toNat := by
  subst hbuf hi
  simp [u8At]

theorem toBytesBE_two (n : Nat) :
    toBytesBE 2 n = [UInt8.ofNat (n / 256 % 256), UInt8.ofNat (n % 256)] := by
  simp [toBytesBE, digitsBE]

theorem u16At_of_eq (pre post : List UInt8) (hbuf : buf = pre ++ (toBytesBE 2 n ++ post))
    (hi : i = pre.length) (hn : n < 2 ^ 16) : u16At buf i = some n := by
  rw [toBytesBE_two] at hbuf
  have hhigh := u8At_of_eq pre _ hbuf hi
  have hlow : u8At buf (i + 1) = some (UInt8.ofNat (n % 256)).toNat := by
    apply u8At_of_eq (pre ++ [UInt8.ofNat (n / 256 % 256)]) post
    · rw [hbuf, List.append_assoc]
      rfl
    · rw [hi, List.length_append, List.length_singleton]
  rw [u16At, hhigh, hlow]
  simp only [Option.bind_eq_bind, Option.bind_some, UInt8.toNat_ofNat', Option.pure_def]
  congr 1
  omega

/-- `&buf[i..j]`. -/
def checkedSlice (buf : List UInt8) (i j : Nat) : Option (List UInt8) :=
  if i ≤ j ∧ j ≤ buf.length then some (slice buf i j) else none

theorem checkedSlice_eq (hij : i ≤ j) (hj : j ≤ buf.length) : checkedSlice buf i j = some (slice buf i j) :=
  if_pos ⟨hij, hj⟩

theorem checkedSlice_take (h : n ≤ buf.length) :
    checkedSlice buf 0 n = some (buf.take n) := by
  rw [checkedSlice_eq (Nat.zero_le n) h, slice, List.drop_zero, Nat.sub_zero]

theorem checkedSlice_drop (h : n ≤ buf.length) :
    checkedSlice buf n buf.length = some (buf.drop n) := by
  rw [checkedSlice_eq h (Nat.le_refl _), slice, List.take_of_length_le (by rw [List.length_drop])]

end WutherCore.Data
