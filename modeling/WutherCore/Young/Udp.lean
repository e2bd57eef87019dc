import WutherCore.Data.Except
import WutherCore.Young.Wire

/-!
# UDP fragments of the Young protocol

A UDP payload is cut into fragments that fit into a datagram, `encode_udp_fragments`, or into fragments
with padding, `encode_udp_fragments_padded`; `decode_udp_fragment` and `decode_udp_fragment_padded` read
one fragment.

* `UdpMode`: which of the two codecs a session uses.
* `Fragmented`: what the datagrams of a payload are, for a receiver.
* `encodeUdp_fragmented`: the datagrams of either encoder are such, and fit into the given size.
-/

namespace WutherCore.Young

open WutherCore.Text WutherCore.Data

/-- `MAX_UDP_PAYLOAD_BYTES`. -/
def maxUdpPayloadBytes : Nat := 65507

/-- `MAX_UDP_FRAGMENTS`. -/
def maxUdpFragments : Nat := 256

/-- `UDP_HEADER_BYTES`. -/
def udpHeaderBytes : Nat := 2 + 1 + 1 + 8 + 4 + 2 + 2 + 2

/-- `PADDED_UDP_HEADER_BYTES`. -/
def paddedUdpHeaderBytes : Nat := udpHeaderBytes + 2 + 2

/-- `UDP_TAG_BYTES`. -/
def udpTagBytes : Nat := 16

/-- The part of `UdpFragment` that both headers have. -/
structure UdpMetadata where
  associationId : UInt64
  packetId : UInt32
  index : UInt16
  count : UInt16
  totalLen : UInt16
  deriving DecidableEq, Repr

/-- `UdpFragment`. -/
structure UdpFragment extends UdpMetadata where
  paddingLen : UInt16
  payload : List UInt8
  deriving DecidableEq, Repr

/-- The padding bytes of a fragment are looked up at this index: `udp_padding_index`. -/
def udpPaddingIndex (associationId : UInt64) (packetId : UInt32) (fragmentIndex : UInt16) : UInt64 :=
  associationId + packetId.toUInt64 + fragmentIndex.toUInt64

/-! ### Headers -/

/-- The first 22 bytes of a fragment; the flag is 1 in a padded one. -/
def udpHeader (flag : UInt8) (m : UdpMetadata) : List UInt8 :=
  ascii "YD" ++ ([version, flag] ++ (u64Bytes m.associationId ++ (u32Bytes m.packetId ++
    (u16Bytes m.index ++ (u16Bytes m.count ++ u16Bytes m.totalLen)))))

/-- The fields of a header. -/
def readUdpMetadata (input : List UInt8) : UdpMetadata where
  associationId := u64OfBytes (slice input 4 12)
  packetId := u32OfBytes (slice input 12 16)
  index := u16OfBytes (slice input 16 18)
  count := u16OfBytes (slice input 18 20)
  totalLen := u16OfBytes (slice input 20 22)

/-- The checks on the fields that both decoders make. -/
def UdpMetadata.Invalid (m : UdpMetadata) (payloadLen : Nat) : Prop :=
  m.count.toNat = 0 ∨ maxUdpFragments < m.count.toNat ∨ m.totalLen.toNat < m.count.toNat ∨
    m.count.toNat ≤ m.index.toNat ∨ m.totalLen.toNat = 0 ∨ maxUdpPayloadBytes < m.totalLen.toNat ∨
    payloadLen = 0 ∨ m.totalLen.toNat < payloadLen

instance (m : UdpMetadata) (payloadLen : Nat) : Decidable (m.Invalid payloadLen) := by
  unfold UdpMetadata.Invalid
  infer_instance

@[simp] theorem udpHeader_length (flag : UInt8) (m : UdpMetadata) : (udpHeader flag m).length = 22 := by
  simp [udpHeader, ascii]

theorem udpHeader_magic (flag : UInt8) (m : UdpMetadata) (body : List UInt8) :
    slice (udpHeader flag m ++ body) 0 2 = ascii "YD" ∧
      (udpHeader flag m ++ body)[2]? = some version ∧
      (udpHeader flag m ++ body)[3]? = some flag := by
  refine ⟨?_, by simp [udpHeader, ascii], by simp [udpHeader, ascii]⟩
  rw [udpHeader, List.append_assoc, slice_append_left (by simp [ascii])]
  exact slice_zero_length (by simp [ascii])

@[simp] theorem readUdpMetadata_header (flag : UInt8) (m : UdpMetadata) (body : List UInt8) :
    readUdpMetadata (udpHeader flag m ++ body) = m := by
  obtain ⟨associationId, packetId, index, count, totalLen⟩ := m
  have hassociation : slice (udpHeader flag ⟨associationId, packetId, index, count, totalLen⟩ ++ body)
      4 12 = u64Bytes associationId := by
    refine (congrArg (slice · 4 12) ?_).trans (slice_middle
      (a := ascii "YD" ++ [version, flag]) (c := u32Bytes packetId ++ (u16Bytes index ++
        (u16Bytes count ++ (u16Bytes totalLen ++ body)))) (by simp [ascii]) (by simp))
    simp [udpHeader]
  have hpacket : slice (udpHeader flag ⟨associationId, packetId, index, count, totalLen⟩ ++ body)
      12 16 = u32Bytes packetId := by
    refine (congrArg (slice · 12 16) ?_).trans (slice_middle
      (a := ascii "YD" ++ [version, flag] ++ u64Bytes associationId) (c := u16Bytes index ++
        (u16Bytes count ++ (u16Bytes totalLen ++ body))) (by simp [ascii]) (by simp))
    simp [udpHeader]
  have hindex : slice (udpHeader flag ⟨associationId, packetId, index, count, totalLen⟩ ++ body)
      16 18 = u16Bytes index := by
    refine (congrArg (slice · 16 18) ?_).trans (slice_middle
      (a := ascii "YD" ++ [version, flag] ++ u64Bytes associationId ++ u32Bytes packetId)
      (c := u16Bytes count ++ (u16Bytes totalLen ++ body)) (by simp [ascii]) (by simp))
    simp [udpHeader]
  have hcount : slice (udpHeader flag ⟨associationId, packetId, index, count, totalLen⟩ ++ body)
      18 20 = u16Bytes count := by
    refine (congrArg (slice · 18 20) ?_).trans (slice_middle
      (a := ascii "YD" ++ [version, flag] ++ u64Bytes associationId ++ u32Bytes packetId ++
        u16Bytes index) (c := u16Bytes totalLen ++ body) (by simp [ascii]) (by simp))
    simp [udpHeader]
  have htotal : slice (udpHeader flag ⟨associationId, packetId, index, count, totalLen⟩ ++ body)
      20 22 = u16Bytes totalLen := by
    refine (congrArg (slice · 20 22) ?_).trans (slice_middle
      (a := ascii "YD" ++ [version, flag] ++ u64Bytes associationId ++ u32Bytes packetId ++
        u16Bytes index ++ u16Bytes count) (c := body) (by simp [ascii]) (by simp))
    simp [udpHeader]
  simp [readUdpMetadata, hassociation, hpacket, hindex, hcount, htotal]

variable (p : Primitives) (sessionKey : SessionKey)

/-! ### Plain fragments -/

/-- The tag of a plain fragment. -/
def plainTag (frame : List UInt8) : List UInt8 :=
  shortTag p sessionKey.bytes.1 [ascii "young/udp-fragment/v1", frame]

/-- The datagram of a plain fragment. -/
def plainDatagram (m : UdpMetadata) (chunk : List UInt8) : List UInt8 :=
  udpHeader 0 m ++ chunk ++ plainTag p sessionKey (udpHeader 0 m ++ chunk)

/-- `encode_udp_fragments`. -/
def encodeUdpFragments (associationId : UInt64) (packetId : UInt32) (payload : List UInt8)
    (maxDatagramSize : Nat) : Except IoError (List (List UInt8)) :=
  let overhead := udpHeaderBytes + udpTagBytes
  if payload.isEmpty ∨ maxUdpPayloadBytes < payload.length then
    .error (invalidInput "Young UDP payload 长度必须为 1..=65507")
  else if maxDatagramSize ≤ overhead then
    .error (invalidInput "WebTransport datagram 上限不足以承载 Young header")
  else
    let chunkSize := maxDatagramSize - overhead
    let count := (payload.length + chunkSize - 1) / chunkSize
    if maxUdpFragments < count then .error (invalidInput "Young UDP fragment 数量超过上限")
    else do
      let count ← u16TryFrom count (invalidInput "Young UDP fragment 数量过多")
      let totalLen ← u16TryFrom payload.length (invalidInput "Young UDP payload 超过 u16")
      (chunks chunkSize payload).zipIdx.mapM fun part => do
        let index ← u16TryFrom part.2 (invalidInput "Young UDP fragment index 过大")
        return plainDatagram p sessionKey ⟨associationId, packetId, index, count, totalLen⟩ part.1

/-- `decode_udp_fragment`. -/
def decodeUdpFragment (input : List UInt8) : Except IoError UdpFragment :=
  if input.length < udpHeaderBytes + udpTagBytes ∨ slice input 0 2 ≠ ascii "YD" ∨
      input[2]? ≠ some version ∨ input[3]? ≠ some 0 then
    .error (invalidData "Young UDP fragment header 无效")
  else
    let authenticatedLen := input.length - udpTagBytes
    do
      verifyHmacTruncated p sessionKey.bytes.1
        [ascii "young/udp-fragment/v1", slice input 0 authenticatedLen]
        (slice input authenticatedLen input.length)
      let m := readUdpMetadata input
      let payloadLen := authenticatedLen - udpHeaderBytes
      if m.Invalid payloadLen then .error (invalidData "Young UDP fragment metadata 无效")
      else
        return { toUdpMetadata := m
                 paddingLen := 0
                 payload := slice input udpHeaderBytes authenticatedLen }

theorem plainDatagram_length (m : UdpMetadata) (chunk : List UInt8) :
    (plainDatagram p sessionKey m chunk).length = 38 + chunk.length := by
  simp only [plainDatagram, plainTag, List.length_append, udpHeader_length, shortTag_length]
  omega

/-- A plain fragment is read back. -/
theorem decodeUdpFragment_datagram {m : UdpMetadata} {chunk : List UInt8}
    (h : ¬m.Invalid chunk.length) :
    decodeUdpFragment p sessionKey (plainDatagram p sessionKey m chunk) =
      .ok { toUdpMetadata := m, paddingLen := 0, payload := chunk } := by
  have hlen := plainDatagram_length p sessionKey m chunk
  have hassoc : plainDatagram p sessionKey m chunk =
      udpHeader 0 m ++ (chunk ++ plainTag p sessionKey (udpHeader 0 m ++ chunk)) := by
    simp [plainDatagram]
  have hauth : 38 + chunk.length - udpTagBytes = 22 + chunk.length := by
    rw [udpTagBytes]
    omega
  have hframe : slice (plainDatagram p sessionKey m chunk) 0 (22 + chunk.length) =
      udpHeader 0 m ++ chunk := by
    rw [plainDatagram, slice_append_left (by simp)]
    exact slice_zero_length (by simp)
  have htag : slice (plainDatagram p sessionKey m chunk) (22 + chunk.length) (38 + chunk.length) =
      plainTag p sessionKey (udpHeader 0 m ++ chunk) := by
    rw [plainDatagram, slice_append_right (by simp)]
    simp only [List.length_append, udpHeader_length, Nat.sub_self]
    exact slice_zero_length (by simp only [plainTag, shortTag_length]; omega)
  have hchunk : slice (plainDatagram p sessionKey m chunk) 22 (22 + chunk.length) = chunk := by
    rw [hassoc]
    exact slice_middle (by simp) rfl
  have hmeta : readUdpMetadata (plainDatagram p sessionKey m chunk) = m := by
    rw [hassoc, readUdpMetadata_header]
  have hmagic := udpHeader_magic 0 m (chunk ++ plainTag p sessionKey (udpHeader 0 m ++ chunk))
  rw [← hassoc] at hmagic
  rw [decodeUdpFragment, if_neg (by
    simp only [hmagic, hlen, udpHeaderBytes, udpTagBytes, ne_eq, not_true_eq_false, or_false]
    omega)]
  simp only [hlen, hauth, hframe, htag, hmeta]
  simp [plainTag, udpHeaderBytes, hchunk, h, bind, Except.bind, pure, Except.pure]

/-! ### Padded fragments -/

section Padded

variable (scheme : PaddingScheme) (direction : PaddingDirection)

/-- The loop of `encode_udp_fragments_padded` that cuts the payload: offset, payload length and padding
length of each fragment.  There is room for so many more. -/
def udpParts (associationId : UInt64) (packetId : UInt32) (payload : List UInt8)
    (datagramBudget index offset : Nat) : (room : Nat) → Except IoError (List (Nat × Nat × Nat))
  | 0 =>
    if offset < payload.length then .error (invalidInput "Young UDP fragment 数量超过上限")
    else return []
  | room + 1 =>
    if offset < payload.length then
      let requestedPadding := (scheme.paddingFor direction
        (udpPaddingIndex associationId packetId (UInt16.ofNat index))).toNat
      let paddingLen := min requestedPadding (datagramBudget - 1)
      let payloadLen := min (datagramBudget - paddingLen) (payload.length - offset)
      if payloadLen = 0 then .error (invalidInput "Young padded UDP fragment 无 payload 空间")
      else do
        let rest ← udpParts associationId packetId payload datagramBudget (index + 1)
          (offset + payloadLen) room
        return (offset, payloadLen, paddingLen) :: rest
    else return []

/-- The padding of a fragment. -/
def udpPadding (m : UdpMetadata) (paddingLen : Nat) : List UInt8 :=
  deterministicPadding p sessionKey direction.udpPaddingDomain
    [u64Bytes m.associationId, u32Bytes m.packetId, u16Bytes m.index] paddingLen

/-- The authenticated part of a padded fragment. -/
def paddedFrame (m : UdpMetadata) (payloadLen paddingLen : UInt16) (chunk : List UInt8) : List UInt8 :=
  udpHeader 1 m ++ ((u16Bytes payloadLen ++ u16Bytes paddingLen) ++
    (chunk ++ udpPadding p sessionKey direction m paddingLen.toNat))

/-- The tag of a padded fragment. -/
def paddedTag (frame : List UInt8) : List UInt8 :=
  shortTag p sessionKey.bytes.1 [direction.udpHmacDomain, frame]

/-- The datagram of a padded fragment. -/
def paddedDatagram (m : UdpMetadata) (payloadLen paddingLen : UInt16) (chunk : List UInt8) :
    List UInt8 :=
  paddedFrame p sessionKey direction m payloadLen paddingLen chunk ++
    paddedTag p sessionKey direction (paddedFrame p sessionKey direction m payloadLen paddingLen chunk)

/-- `encode_udp_fragments_padded`. -/
def encodeUdpFragmentsPadded (associationId : UInt64) (packetId : UInt32) (payload : List UInt8)
    (maxDatagramSize : Nat) : Except IoError (List (List UInt8)) :=
  let overhead := paddedUdpHeaderBytes + udpTagBytes
  if payload.isEmpty ∨ maxUdpPayloadBytes < payload.length then
    .error (invalidInput "Young UDP payload 长度必须为 1..=65507")
  else if maxDatagramSize < overhead + 2 then
    .error (invalidInput
      "WebTransport datagram 上限不足以承载 padded Young header、payload 和 padding")
  else do
    let parts ← udpParts scheme direction associationId packetId payload (maxDatagramSize - overhead)
      0 0 maxUdpFragments
    let count ← u16TryFrom parts.length (invalidInput "Young UDP fragment 数量超过 u16")
    let totalLen ← u16TryFrom payload.length (invalidInput "Young UDP payload 超过 u16")
    parts.zipIdx.mapM fun part => do
      let ((offset, payloadLen, paddingLen), index) := part
      let index ← u16TryFrom index (invalidInput "Young UDP fragment index 过大")
      let payloadLen' ← u16TryFrom payloadLen (invalidInput "Young UDP fragment payload 超过 u16")
      let paddingLen ← u16TryFrom paddingLen (invalidInput "Young UDP fragment padding 超过 u16")
      return paddedDatagram p sessionKey direction ⟨associationId, packetId, index, count, totalLen⟩
        payloadLen' paddingLen (slice payload offset (offset + payloadLen))

/-- `decode_udp_fragment_padded`. -/
def decodeUdpFragmentPadded (input : List UInt8) : Except IoError UdpFragment :=
  if input.length < paddedUdpHeaderBytes + udpTagBytes ∨ slice input 0 2 ≠ ascii "YD" ∨
      input[2]? ≠ some version ∨ input[3]? ≠ some 1 then
    .error (invalidData "Young padded UDP fragment header 无效")
  else
    let authenticatedLen := input.length - udpTagBytes
    do
      verifyHmacTruncated p sessionKey.bytes.1
        [direction.udpHmacDomain, slice input 0 authenticatedLen]
        (slice input authenticatedLen input.length)
      let m := readUdpMetadata input
      let payloadLen := (u16OfBytes (slice input 22 24)).toNat
      let paddingLen := u16OfBytes (slice input 24 26)
      -- `checked_add` on lengths of two bytes always gives a sum
      let expectedLen := paddedUdpHeaderBytes + payloadLen + paddingLen.toNat + udpTagBytes
      let requestedPadding := scheme.paddingFor direction
        (udpPaddingIndex m.associationId m.packetId m.index)
      if m.Invalid payloadLen ∨ paddingLen.toNat = 0 ∨ requestedPadding.toNat < paddingLen.toNat ∨
          input.length ≠ expectedLen then
        .error (invalidData "Young padded UDP fragment metadata 无效")
      else do
        verifyDeterministicPadding p sessionKey direction.udpPaddingDomain
          [u64Bytes m.associationId, u32Bytes m.packetId, u16Bytes m.index]
          (slice input (paddedUdpHeaderBytes + payloadLen)
            (paddedUdpHeaderBytes + payloadLen + paddingLen.toNat))
        return { toUdpMetadata := m
                 paddingLen := paddingLen
                 payload := slice input paddedUdpHeaderBytes (paddedUdpHeaderBytes + payloadLen) }

theorem paddedFrame_length (m : UdpMetadata) (payloadLen paddingLen : UInt16) (chunk : List UInt8) :
    (paddedFrame p sessionKey direction m payloadLen paddingLen chunk).length =
      26 + chunk.length + paddingLen.toNat := by
  simp [paddedFrame, udpPadding]
  omega

theorem paddedDatagram_length (m : UdpMetadata) (payloadLen paddingLen : UInt16)
    (chunk : List UInt8) :
    (paddedDatagram p sessionKey direction m payloadLen paddingLen chunk).length =
      26 + chunk.length + paddingLen.toNat + 16 := by
  rw [paddedDatagram, List.length_append, paddedFrame_length, paddedTag, shortTag_length]

/-- A padded fragment is read back. -/
theorem decodeUdpFragmentPadded_datagram {m : UdpMetadata} {payloadLen paddingLen : UInt16}
    {chunk : List UInt8} (hlen : payloadLen.toNat = chunk.length) (h : ¬m.Invalid chunk.length)
    (hpos : 0 < paddingLen.toNat)
    (hpad : paddingLen.toNat ≤ (scheme.paddingFor direction
      (udpPaddingIndex m.associationId m.packetId m.index)).toNat) :
    decodeUdpFragmentPadded p sessionKey scheme direction
        (paddedDatagram p sessionKey direction m payloadLen paddingLen chunk) =
      .ok { toUdpMetadata := m, paddingLen := paddingLen, payload := chunk } := by
  set d := paddedDatagram p sessionKey direction m payloadLen paddingLen chunk with hd
  set frame := paddedFrame p sessionKey direction m payloadLen paddingLen chunk with hframe
  set padding := udpPadding p sessionKey direction m paddingLen.toNat with hpadding
  have hdlen : d.length = 26 + chunk.length + paddingLen.toNat + 16 := paddedDatagram_length ..
  have hflen : frame.length = 26 + chunk.length + paddingLen.toNat := paddedFrame_length ..
  have hplen : padding.length = paddingLen.toNat := deterministicPadding_length ..
  have hassoc : d = udpHeader 1 m ++ (u16Bytes payloadLen ++ (u16Bytes paddingLen ++
      (chunk ++ (padding ++ paddedTag p sessionKey direction frame)))) := by
    simp [hd, paddedDatagram, paddedFrame, hpadding, hframe]
  have hauth : 26 + chunk.length + paddingLen.toNat + 16 - udpTagBytes =
      26 + chunk.length + paddingLen.toNat := by
    rw [udpTagBytes]
    omega
  have hhead : slice d 0 (26 + chunk.length + paddingLen.toNat) = frame := by
    rw [hd, paddedDatagram, ← hframe, slice_append_left (by omega)]
    exact slice_zero_length hflen
  have htag : slice d (26 + chunk.length + paddingLen.toNat)
      (26 + chunk.length + paddingLen.toNat + 16) = paddedTag p sessionKey direction frame := by
    rw [hd, paddedDatagram, ← hframe, slice_append_right (by omega), hflen, Nat.sub_self,
      Nat.add_sub_cancel_left]
    exact slice_zero_length (by simp [paddedTag])
  have hpayloadLen : slice d 22 24 = u16Bytes payloadLen := by
    rw [hassoc]
    exact slice_middle (by simp) (by simp)
  have hpaddingLen : slice d 24 26 = u16Bytes paddingLen := by
    rw [hassoc, ← List.append_assoc]
    exact slice_middle (by simp) (by simp)
  have hchunk : slice d 26 (26 + chunk.length) = chunk := by
    rw [hassoc, ← List.append_assoc, ← List.append_assoc]
    exact slice_middle (by simp) rfl
  have hpart : slice d (26 + chunk.length) (26 + chunk.length + paddingLen.toNat) = padding := by
    rw [hassoc, ← List.append_assoc, ← List.append_assoc, ← List.append_assoc]
    exact slice_middle (by simp; omega) (by rw [hplen])
  have hmeta : readUdpMetadata d = m := by rw [hassoc, readUdpMetadata_header]
  have hmagic := udpHeader_magic 1 m (u16Bytes payloadLen ++ (u16Bytes paddingLen ++
      (chunk ++ (padding ++ paddedTag p sessionKey direction frame))))
  rw [← hassoc] at hmagic
  rw [decodeUdpFragmentPadded, if_neg (by
    simp only [hmagic, hdlen, paddedUdpHeaderBytes, udpHeaderBytes, udpTagBytes, ne_eq,
      not_true_eq_false, or_false]
    omega)]
  have hvalid : ¬(m.Invalid chunk.length ∨ paddingLen.toNat = 0 ∨
      (scheme.paddingFor direction (udpPaddingIndex m.associationId m.packetId m.index)).toNat <
        paddingLen.toNat ∨
      26 + chunk.length + paddingLen.toNat + 16 ≠
        paddedUdpHeaderBytes + chunk.length + paddingLen.toNat + udpTagBytes) := by
    simp only [paddedUdpHeaderBytes, udpHeaderBytes, udpTagBytes]
    rintro (hc | hc | hc | hc)
    · exact h hc
    all_goals omega
  simp only [hdlen, hauth, hhead, htag, hmeta, hpayloadLen, hpaddingLen, u16OfBytes_u16Bytes, hlen,
    hvalid, if_false]
  simp only [paddedUdpHeaderBytes, udpHeaderBytes, hchunk, hpart]
  simp [paddedTag, hpadding, udpPadding, bind, Except.bind, pure, Except.pure]

end Padded

/-! ### The datagrams of a payload -/

/-- The codec that a session uses. -/
inductive UdpMode
  | plain
  | padded (scheme : PaddingScheme) (direction : PaddingDirection)

/-- The encoder of a session. -/
def encodeUdp (mode : UdpMode) (associationId : UInt64) (packetId : UInt32) (payload : List UInt8)
    (maxDatagramSize : Nat) : Except IoError (List (List UInt8)) :=
  match mode with
  | .plain => encodeUdpFragments p sessionKey associationId packetId payload maxDatagramSize
  | .padded scheme direction =>
    encodeUdpFragmentsPadded p sessionKey scheme direction associationId packetId payload
      maxDatagramSize

/-- The decoder of a session. -/
def decodeUdp (mode : UdpMode) (input : List UInt8) : Except IoError UdpFragment :=
  match mode with
  | .plain => decodeUdpFragment p sessionKey input
  | .padded scheme direction => decodeUdpFragmentPadded p sessionKey scheme direction input

/-- The fragment is the one of index `i` of a packet that is cut into the given parts. -/
structure IsPart (associationId : UInt64) (packetId : UInt32) (parts : List (List UInt8)) (i : Nat)
    (f : UdpFragment) : Prop where
  association : f.associationId = associationId
  packet : f.packetId = packetId
  index : f.index.toNat = i
  count : f.count.toNat = parts.length
  total : f.totalLen.toNat = parts.flatten.length
  payload : parts[i]? = some f.payload

/-- The datagrams are the parts of a payload, in order, and every one of them is read back. -/
structure Fragmented (mode : UdpMode) (associationId : UInt64) (packetId : UInt32)
    (payload : List UInt8) (datagrams parts : List (List UInt8)) : Prop where
  flatten : parts.flatten = payload
  length : datagrams.length = parts.length
  nonempty : 0 < parts.length
  read : ∀ i d, datagrams[i]? = some d →
    ∃ f, decodeUdp p sessionKey mode d = .ok f ∧ IsPart associationId packetId parts i f

theorem Fragmented.unique {p : Primitives} {sessionKey : SessionKey} {mode : UdpMode}
    {associationId : UInt64} {packetId : UInt32} {payload : List UInt8}
    {datagrams parts parts' : List (List UInt8)}
    (h : Fragmented p sessionKey mode associationId packetId payload datagrams parts)
    (h' : Fragmented p sessionKey mode associationId packetId payload datagrams parts') :
    parts = parts' := by
  apply List.ext_getElem?
  intro i
  cases hd : datagrams[i]? with
  | none =>
    rw [List.getElem?_eq_none_iff] at hd
    rw [List.getElem?_eq_none (h.length ▸ hd), List.getElem?_eq_none (h'.length ▸ hd)]
  | some d =>
    obtain ⟨f, hf, hpart⟩ := h.read i d hd
    obtain ⟨f', hf', hpart'⟩ := h'.read i d hd
    obtain rfl := Except.ok.inj (hf.symm.trans hf')
    rw [hpart.payload, hpart'.payload]

theorem not_invalid_part {m : UdpMetadata} {parts : List (List UInt8)} {i : Nat} {chunk : List UInt8}
    (hne : ∀ c ∈ parts, c ≠ []) (hcount : parts.length ≤ maxUdpFragments)
    (htotal : parts.flatten.length ≤ maxUdpPayloadBytes) (hchunk : parts[i]? = some chunk)
    (hi : m.index.toNat = i) (hc : m.count.toNat = parts.length)
    (ht : m.totalLen.toNat = parts.flatten.length) : ¬m.Invalid chunk.length := by
  have hmem : chunk ∈ parts := List.mem_of_getElem? hchunk
  have hpos : 0 < chunk.length := List.length_pos_iff.2 (hne chunk hmem)
  have hlt : i < parts.length := (List.getElem?_eq_some_iff.1 hchunk).1
  have hlen : chunk.length ≤ parts.flatten.length := (List.sublist_flatten_of_mem hmem).length_le
  have hsum : parts.length ≤ parts.flatten.length := length_le_length_flatten hne
  unfold UdpMetadata.Invalid
  omega

/-- What the cutting loop says about a fragment: its payload and padding are not empty, fit into the
budget and stay within the payload and the table. -/
structure PartFits (scheme : PaddingScheme) (direction : PaddingDirection) (associationId : UInt64)
    (packetId : UInt32) (payload : List UInt8) (budget index : Nat) (part : Nat × Nat × Nat) :
    Prop where
  payload_pos : 0 < part.2.1
  payload_le : part.1 + part.2.1 ≤ payload.length
  fits : part.2.1 + part.2.2 ≤ budget
  padding_pos : 0 < part.2.2
  padding_le : part.2.2 ≤ (scheme.paddingFor direction
    (udpPaddingIndex associationId packetId (UInt16.ofNat index))).toNat

/-- What the cutting loop produces: parts that make up the payload from the offset on. -/
theorem udpParts_spec {scheme : PaddingScheme} {direction : PaddingDirection} {associationId : UInt64}
    {packetId : UInt32} {payload : List UInt8} {budget : Nat} (hb : 2 ≤ budget) (room : Nat)
    {index offset : Nat} {parts : List (Nat × Nat × Nat)} (hoff : offset ≤ payload.length)
    (h : udpParts scheme direction associationId packetId payload budget index offset room =
      .ok parts) :
    parts.length ≤ room ∧
      (parts.map fun q => slice payload q.1 (q.1 + q.2.1)).flatten = payload.drop offset ∧
      ∀ i q, parts[i]? = some q →
        PartFits scheme direction associationId packetId payload budget (index + i) q := by
  induction room generalizing index offset parts with
  | zero =>
    rw [udpParts] at h
    split_ifs at h with hlt
    cases h
    simp [List.drop_eq_nil_of_le (not_lt.1 hlt)]
  | succ room ih =>
    rw [udpParts] at h
    simp only at h
    split_ifs at h with hlt hzero
    · set requested := (scheme.paddingFor direction
        (udpPaddingIndex associationId packetId (UInt16.ofNat index))).toNat with hrequested
      have hpos : 0 < requested := (scheme.paddingFor_bounds _ _).1
      set paddingLen := min requested (budget - 1) with hpadding
      set payloadLen := min (budget - paddingLen) (payload.length - offset) with hpayload
      obtain ⟨rest, hrest, h⟩ := bind_eq_ok.1 h
      cases h
      obtain ⟨hlen, hflat, hfits⟩ := ih (by omega) hrest
      refine ⟨by simpa using hlen, ?_, ?_⟩
      · rw [List.map_cons, List.flatten_cons, hflat, slice, Nat.add_sub_cancel_left,
          ← List.drop_drop, List.take_append_drop]
      · intro i q hq
        cases i with
        | zero =>
          cases hq
          exact ⟨by simpa using Nat.pos_of_ne_zero hzero, by simp only; omega, by simp only; omega,
            by simp only; omega, by simp only [Nat.add_zero]; omega⟩
        | succ i =>
          rw [show index + (i + 1) = index + 1 + i by omega]
          exact hfits i q hq
    · cases h
      simp [List.drop_eq_nil_of_le (not_lt.1 hlt)]

/-- What `encode_udp_fragments` produces. -/
theorem encodeUdpFragments_fragmented {associationId : UInt64} {packetId : UInt32}
    {payload : List UInt8} {maxDatagramSize : Nat} {datagrams : List (List UInt8)}
    (h : encodeUdpFragments p sessionKey associationId packetId payload maxDatagramSize =
      .ok datagrams) :
    (∀ d ∈ datagrams, d.length ≤ maxDatagramSize) ∧
      ∃ parts, Fragmented p sessionKey .plain associationId packetId payload datagrams parts := by
  unfold encodeUdpFragments at h
  simp only at h
  split_ifs at h with hpayload hsize hcount
  have hsize' : 0 < maxDatagramSize - (udpHeaderBytes + udpTagBytes) := by omega
  set chunkSize := maxDatagramSize - (udpHeaderBytes + udpTagBytes) with hchunkSize
  rw [not_or, List.isEmpty_iff] at hpayload
  rw [← length_chunks hsize'] at h hcount
  have hcount' : (chunks chunkSize payload).length < 2 ^ 16 :=
    lt_of_le_of_lt (not_lt.1 hcount) (by decide)
  have htotal' : payload.length < 2 ^ 16 := lt_of_le_of_lt (not_lt.1 hpayload.2) (by decide)
  rw [u16TryFrom_eq_ok hcount', u16TryFrom_eq_ok htotal'] at h
  obtain ⟨hlen, hget⟩ := getElem?_mapM_zipIdx h
  have hone : ∀ i d, datagrams[i]? = some d → ∃ chunk, (chunks chunkSize payload)[i]? = some chunk ∧
      d = plainDatagram p sessionKey ⟨associationId, packetId, UInt16.ofNat i,
        UInt16.ofNat (chunks chunkSize payload).length, UInt16.ofNat payload.length⟩ chunk ∧
      i < 2 ^ 16 := by
    intro i d hd
    obtain ⟨chunk, hchunk, hf⟩ := hget i d hd
    have hi : i < (chunks chunkSize payload).length := (List.getElem?_eq_some_iff.1 hchunk).1
    refine ⟨chunk, hchunk, ?_, hi.trans hcount'⟩
    rw [u16TryFrom_eq_ok (hi.trans hcount')] at hf
    exact (Except.ok.inj hf).symm
  constructor
  · intro d hd
    obtain ⟨i, hi⟩ := List.getElem?_of_mem hd
    obtain ⟨chunk, hchunk, rfl, -⟩ := hone i d hi
    have hle := (length_of_mem_chunks hsize' (List.mem_of_getElem? hchunk)).2
    rw [plainDatagram_length]
    simp only [udpHeaderBytes, udpTagBytes] at hchunkSize hsize
    omega
  · refine ⟨chunks chunkSize payload, flatten_chunks hsize' payload, hlen, ?_, ?_⟩
    · rw [chunks_of_ne_nil hsize' hpayload.1]
      simp
    · intro i d hd
      obtain ⟨chunk, hchunk, rfl, hi⟩ := hone i d hd
      refine ⟨_, decodeUdpFragment_datagram p sessionKey ?_, ⟨rfl, rfl, toNat_ofNat16 hi,
        toNat_ofNat16 hcount', ?_, hchunk⟩⟩
      · refine not_invalid_part (fun c hc => ?_) (not_lt.1 hcount) ?_ hchunk (toNat_ofNat16 hi)
          (toNat_ofNat16 hcount') ?_
        · exact List.length_pos_iff.1 (length_of_mem_chunks hsize' hc).1
        · rw [flatten_chunks hsize']
          exact not_lt.1 hpayload.2
        · rw [flatten_chunks hsize']
          exact toNat_ofNat16 htotal'
      · rw [flatten_chunks hsize']
        exact toNat_ofNat16 htotal'

/-- What `encode_udp_fragments_padded` produces. -/
theorem encodeUdpFragmentsPadded_fragmented {scheme : PaddingScheme} {direction : PaddingDirection}
    {associationId : UInt64} {packetId : UInt32} {payload : List UInt8} {maxDatagramSize : Nat}
    {datagrams : List (List UInt8)}
    (h : encodeUdpFragmentsPadded p sessionKey scheme direction associationId packetId payload
      maxDatagramSize = .ok datagrams) :
    (∀ d ∈ datagrams, d.length ≤ maxDatagramSize) ∧
      ∃ parts, Fragmented p sessionKey (.padded scheme direction) associationId packetId payload
        datagrams parts := by
  unfold encodeUdpFragmentsPadded at h
  simp only at h
  split_ifs at h with hpayload hsize
  rw [not_or, List.isEmpty_iff] at hpayload
  obtain ⟨parts, hparts, h⟩ := bind_eq_ok.1 h
  have hbudget : 2 ≤ maxDatagramSize - (paddedUdpHeaderBytes + udpTagBytes) := by omega
  obtain ⟨hroom, hflat, hfits⟩ := udpParts_spec hbudget maxUdpFragments (Nat.zero_le _) hparts
  rw [List.drop_zero] at hflat
  have hcount' : parts.length < 2 ^ 16 := lt_of_le_of_lt hroom (by decide)
  have htotal' : payload.length < 2 ^ 16 := lt_of_le_of_lt (not_lt.1 hpayload.2) (by decide)
  rw [u16TryFrom_eq_ok hcount', u16TryFrom_eq_ok htotal'] at h
  obtain ⟨hlen, hget⟩ := getElem?_mapM_zipIdx h
  have hone : ∀ i d, datagrams[i]? = some d → ∃ q, parts[i]? = some q ∧
      d = paddedDatagram p sessionKey direction ⟨associationId, packetId, UInt16.ofNat i,
        UInt16.ofNat parts.length, UInt16.ofNat payload.length⟩ (UInt16.ofNat q.2.1)
        (UInt16.ofNat q.2.2) (slice payload q.1 (q.1 + q.2.1)) ∧
      i < 2 ^ 16 ∧ q.2.1 < 2 ^ 16 ∧ q.2.2 < 2 ^ 16 := by
    intro i d hd
    obtain ⟨⟨offset, payloadLen, paddingLen⟩, hq, hf⟩ := hget i d hd
    have hfit := hfits i _ hq
    have hi : i < parts.length := (List.getElem?_eq_some_iff.1 hq).1
    have hle : offset + payloadLen ≤ payload.length := hfit.payload_le
    have hpl : payloadLen < 2 ^ 16 := lt_of_le_of_lt ((Nat.le_add_left _ _).trans hle) htotal'
    have hpad : paddingLen < 2 ^ 16 :=
      lt_of_le_of_lt (hfit.padding_le.trans (scheme.paddingFor_bounds _ _).2) (by decide)
    refine ⟨_, hq, ?_, hi.trans hcount', hpl, hpad⟩
    simp only [u16TryFrom_eq_ok (hi.trans hcount'), u16TryFrom_eq_ok hpl, u16TryFrom_eq_ok hpad] at hf
    exact (Except.ok.inj hf).symm
  constructor
  · intro d hd
    obtain ⟨i, hi⟩ := List.getElem?_of_mem hd
    obtain ⟨q, hq, rfl, -, -, hpad⟩ := hone i d hi
    have hfit := hfits i q hq
    have hfits := hfit.fits
    rw [paddedDatagram_length, slice_length hfit.payload_le, toNat_ofNat16 hpad]
    simp only [paddedUdpHeaderBytes, udpHeaderBytes, udpTagBytes] at hsize hfits
    omega
  · refine ⟨parts.map fun q => slice payload q.1 (q.1 + q.2.1), hflat, by simpa using hlen, ?_, ?_⟩
    · rw [List.length_map, Nat.pos_iff_ne_zero]
      intro hzero
      rw [List.eq_nil_of_length_eq_zero hzero] at hflat
      exact hpayload.1 hflat.symm
    · intro i d hd
      obtain ⟨q, hq, rfl, hi, hpl, hpad⟩ := hone i d hd
      have hfit := hfits i q hq
      rw [Nat.zero_add] at hfit
      have hslice := slice_length (i := q.1) hfit.payload_le
      have hchunk : (parts.map fun q => slice payload q.1 (q.1 + q.2.1))[i]? =
          some (slice payload q.1 (q.1 + q.2.1)) := by simp [hq]
      refine ⟨_, decodeUdpFragmentPadded_datagram p sessionKey scheme direction ?_ ?_ ?_ ?_,
        ⟨rfl, rfl, toNat_ofNat16 hi, ?_, ?_, hchunk⟩⟩
      · rw [toNat_ofNat16 hpl, hslice]
        omega
      · refine not_invalid_part (fun c hc => ?_) (by simpa using hroom) ?_ hchunk (toNat_ofNat16 hi)
          ?_ ?_
        · obtain ⟨q', hq', rfl⟩ := List.mem_map.1 hc
          obtain ⟨j, hj⟩ := List.getElem?_of_mem hq'
          have hfit' := hfits j q' hj
          have hlen' := slice_length (i := q'.1) hfit'.payload_le
          have hpos' := hfit'.payload_pos
          exact List.length_pos_iff.1 (by omega)
        · rw [hflat]
          exact not_lt.1 hpayload.2
        · simpa using toNat_ofNat16 hcount'
        · rw [hflat]
          exact toNat_ofNat16 htotal'
      · rw [toNat_ofNat16 hpad]
        exact hfit.padding_pos
      · rw [toNat_ofNat16 hpad]
        exact hfit.padding_le
      · simpa using toNat_ofNat16 hcount'
      · rw [hflat]
        exact toNat_ofNat16 htotal'

/-- **Fragmentation.** The datagrams of an accepted payload fit into the given size and are read back as
its parts. -/
theorem encodeUdp_fragmented {mode : UdpMode} {associationId : UInt64} {packetId : UInt32}
    {payload : List UInt8} {maxDatagramSize : Nat} {datagrams : List (List UInt8)}
    (h : encodeUdp p sessionKey mode associationId packetId payload maxDatagramSize =
      .ok datagrams) :
    (∀ d ∈ datagrams, d.length ≤ maxDatagramSize) ∧
      ∃ parts, Fragmented p sessionKey mode associationId packetId payload datagrams parts := by
  cases mode with
  | plain => exact encodeUdpFragments_fragmented p sessionKey h
  | padded scheme direction => exact encodeUdpFragmentsPadded_fragmented p sessionKey h

end WutherCore.Young
