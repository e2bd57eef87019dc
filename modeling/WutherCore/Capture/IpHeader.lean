import WutherCore.Capture.GsoSplit

/-!
# IP headers and their checksum

`ipFixedLen`, `ipHeaderLen`, `ipTotalLen` and `ipProto` read the header of an IPv4 or IPv6 packet, which
the version tells apart.

The checksum of a list of bytes is zero when its words add up to a positive multiple of `2 ^ 16 - 1`.  A
field of two bytes at an even offset takes the checksum of the bytes with the field cleared: then the
checksum of all of them is zero (`internetChecksum_putBE`), which is what a receiver looks for.
-/

namespace WutherCore.Data

variable {buf bytes : List UInt8} {off i j n v : Nat}

theorem slice_writeAt_inside {k : Nat} (hj : j ≤ buf.length) (h : i + k + bytes.length ≤ j) :
    slice (writeAt buf (i + k) bytes) i j = writeAt (slice buf i j) k bytes := by
  have hbuf : i + k + bytes.length ≤ buf.length := by omega
  have hlen : (slice buf i j).length = j - i := slice_length hj
  apply List.ext_getElem?
  intro l
  rw [getElem?_slice]
  by_cases hin : k ≤ l ∧ l < k + bytes.length
  · -- both read the bytes that are written
    have hl : l = k + (l - k) := by omega
    rw [if_pos (by omega), hl]
    have hself := congrArg (·[l - k]?) (slice_writeAt_self hbuf rfl)
    have hinner : slice (writeAt (slice buf i j) k bytes) k (k + bytes.length) = bytes :=
      slice_writeAt_self (by omega) rfl
    have hself' := congrArg (·[l - k]?) hinner
    simp only [getElem?_slice] at hself hself'
    rw [if_pos (by omega)] at hself hself'
    rw [hself', ← hself]
    congr 1
    omega
  · have hout : (writeAt (slice buf i j) k bytes)[l]? = (slice buf i j)[l]? :=
      getElem?_writeAt_of_outside (by omega) (by omega)
    rw [hout, getElem?_slice]
    split
    · exact getElem?_writeAt_of_outside hbuf (by omega)
    · rfl

theorem slice_putBE_inside {k : Nat} (hj : j ≤ buf.length) (h : i + k + n ≤ j) :
    slice (putBE n buf (i + k) v) i j = putBE n (slice buf i j) k v :=
  slice_writeAt_inside hj (by simpa using h)

theorem putBE_putBE {w : Nat} (h : off + n ≤ buf.length) :
    putBE n (putBE n buf off w) off v = putBE n buf off v := by
  have hlen : (buf.take off).length = off := by
    rw [List.length_take]
    omega
  have hdrop := drop_putBE (v := w) h (Nat.le_refl (off + n))
  have htake : (putBE n buf off w).take off = buf.take off := by
    unfold putBE writeAt
    exact List.take_left' hlen
  unfold putBE at hdrop htake ⊢
  rw [writeAt, htake, Text.toBytesBE_length, hdrop, writeAt, Text.toBytesBE_length]

end WutherCore.Data

namespace WutherCore.Capture.Gso

open WutherCore.Data

/-! ### The fields of the header -/

/-- The length of the fields that every header of the version has. -/
def ipFixedLen (pkt : Packet) : Nat := if byteAt pkt 0 >>> 4 = 4 then 20 else 40

/-- `header_len` of the packet. -/
def ipHeaderLen (pkt : Packet) : Nat := if byteAt pkt 0 >>> 4 = 4 then ipv4HeaderLen pkt else 40

/-- `total_len` of the packet. -/
def ipTotalLen (pkt : Packet) : Nat :=
  if byteAt pkt 0 >>> 4 = 4 then beAt 2 pkt 2 else 40 + beAt 2 pkt 4

/-- `next_header` of the packet. -/
def ipProto (pkt : Packet) : UInt8 := if byteAt pkt 0 >>> 4 = 4 then byteAt pkt 9 else byteAt pkt 6

/-! ### The checksum -/

variable {buf front : List UInt8} {off n v : Nat}

theorem wordSum_append {a b : List UInt8} (h : a.length % 2 = 0) :
    wordSum (a ++ b) = wordSum a + wordSum b := by
  induction a using wordSum.induct with
  | case1 x y rest ih =>
    have hrest : rest.length % 2 = 0 := by
      rw [List.length_cons, List.length_cons] at h
      omega
    simp only [List.cons_append, wordSum, ih hrest]
    omega
  | case2 x => simp at h
  | case3 => simp [wordSum]

theorem wordSum_le (l : List UInt8) : wordSum l ≤ 0xffff * ((l.length + 1) / 2) := by
  induction l using wordSum.induct with
  | case1 x y rest ih =>
    have hx := x.toNat_lt
    have hy := y.toNat_lt
    have hlen : ((x :: y :: rest).length + 1) / 2 = (rest.length + 1) / 2 + 1 := by
      rw [List.length_cons, List.length_cons]
      omega
    rw [wordSum, hlen]
    omega
  | case2 x =>
    have hx := x.toNat_lt
    simp only [wordSum, List.length_singleton]
    omega
  | case3 => simp [wordSum]

theorem wordSum_toBytesBE (hv : v < 2 ^ 16) : wordSum (Text.toBytesBE 2 v) = v := by
  rw [toBytesBE_two, wordSum, wordSum, UInt8.toNat_ofNat', UInt8.toNat_ofNat']
  omega

theorem wordSum_putBE (heven : off % 2 = 0) (h : off + 2 ≤ buf.length) (hv : v < 2 ^ 16) :
    wordSum (putBE 2 buf off v) = wordSum (putBE 2 buf off 0) + v := by
  have hlen : (buf.take off).length = off := by
    rw [List.length_take]
    omega
  have hsplit : ∀ w < 2 ^ 16, wordSum (putBE 2 buf off w) =
      wordSum (buf.take off) + (w + wordSum (buf.drop (off + 2))) := by
    intro w hw
    unfold putBE writeAt
    rw [wordSum_append (by omega), wordSum_append (by rw [Text.toBytesBE_length]), wordSum_toBytesBE hw,
      Text.toBytesBE_length]
  rw [hsplit v hv, hsplit 0 (by decide)]
  omega

theorem internetChecksum_spec {l : List UInt8} (h : wordSum l < 2 ^ 32) :
    internetChecksum l < 2 ^ 16 ∧ (wordSum l + internetChecksum l) % 0xffff = 0 ∧
      0 < wordSum l + internetChecksum l := by
  unfold internetChecksum
  dsimp only
  omega

theorem internetChecksum_eq_zero {l : List UInt8} (h : wordSum l < 2 ^ 32) (hpos : 0 < wordSum l)
    (hmod : wordSum l % 0xffff = 0) : internetChecksum l = 0 := by
  unfold internetChecksum
  dsimp only
  omega

/-- **A checksum that is filled in is the right one.**  The field is in `buf`, behind the words of
`front`. -/
theorem internetChecksum_putBE (hfront : front.length % 2 = 0) (heven : off % 2 = 0)
    (h : off + 2 ≤ buf.length) (hlen : front.length + buf.length < 2 ^ 17) :
    internetChecksum (front ++ putBE 2 buf off (internetChecksum (front ++ putBE 2 buf off 0))) = 0 := by
  have hbound : ∀ w, wordSum (front ++ putBE 2 buf off w) < 2 ^ 32 := by
    intro w
    have hle := wordSum_le (front ++ putBE 2 buf off w)
    rw [List.length_append, length_putBE h] at hle
    omega
  obtain ⟨hlt, hmod, hpos⟩ := internetChecksum_spec (hbound 0)
  have hsum : wordSum (front ++ putBE 2 buf off (internetChecksum (front ++ putBE 2 buf off 0))) =
      wordSum (front ++ putBE 2 buf off 0) + internetChecksum (front ++ putBE 2 buf off 0) := by
    rw [wordSum_append hfront, wordSum_putBE heven h hlt, wordSum_append hfront]
    omega
  apply internetChecksum_eq_zero (hbound _)
  · rw [hsum]
    exact hpos
  · rw [hsum]
    exact hmod

end WutherCore.Capture.Gso
