import WutherCore.Data.Buffer
import WutherCore.Data.Except
import WutherCore.Young.FlowOpen
import Mathlib.Data.FinEnum

/-!
# Hysteria 2: UDP messages

The datagrams of the UDP relay in `hysteria2.rs`: QUIC varints, the message with its header, and the
fragments of a message that is too large for one datagram.

* `getVarint_putVarint`: what `put_varint` writes is read back, whatever follows.
* `parse_serialize`: a message is parsed from its serialisation exactly if its fragment numbers are
  valid and it has a payload.
* `sendFragmented_eq_ok`: the datagrams of a fragmented message and what they are parsed to.
-/

namespace WutherCore.Hysteria2

open WutherCore.Text WutherCore.Data
open WutherCore.Young (IoError invalidData u16Bytes u16OfBytes u32Bytes u32OfBytes u64Bytes)
open WutherCore.Ruleset (utf8)
open WutherCore.Ruleset.Srs (fromUtf8)

/-- `MAX_ADDRESS_LENGTH`. -/
def maxAddressLength : Nat := 2048

/-- `MAX_UDP_SIZE`. -/
def maxUdpSize : Nat := 4096

/-! ### Varints -/

/-- `varint_len`. -/
def varintLen (value : UInt64) : Except IoError Nat :=
  if value.toNat ≤ 63 then .ok 1
  else if value.toNat ≤ 16383 then .ok 2
  else if value.toNat ≤ 1073741823 then .ok 4
  else if value.toNat ≤ 4611686018427387903 then .ok 8
  else .error (invalidData "value exceeds QUIC varint")

/-- The bytes of a varint of a given length.  `varintLen` has no other values than these four. -/
def varintBytes (value : UInt64) : Nat → List UInt8
  | 1 => [value.toUInt8]
  | 2 => [(0x40 : UInt8) ||| (value.toUInt16 >>> 8).toUInt8, value.toUInt16.toUInt8]
  | 4 => ((0x80 : UInt8) ||| (value.toUInt32 >>> 24).toUInt8) :: (u32Bytes value.toUInt32).drop 1
  | 8 => ((0xc0 : UInt8) ||| (value >>> 56).toUInt8) :: (u64Bytes value).drop 1
  | _ => []

/-- `put_varint`. -/
def putVarint (value : UInt64) : Except IoError (List UInt8) := do
  let length ← varintLen value
  .ok (varintBytes value length)

/-- A byte is shifted in from the right. -/
def shiftIn (value : UInt64) (byte : UInt8) : UInt64 := (value <<< (8 : UInt64)) ||| byte.toUInt64

/-- `get_varint`. -/
def getVarint (input : List UInt8) : Option (UInt64 × Nat) :=
  match input with
  | [] => none
  | first :: _ =>
    let length := 1 <<< (first >>> 6).toNat
    if input.length < length then none
    else
      some ((slice input 1 length).foldl shiftIn (first &&& 0x3f).toUInt64, length)

/-! ### Messages -/

/-- `Hysteria2UdpMessage`. -/
structure Message where
  sessionId : UInt32
  packetId : UInt16
  fragmentId : UInt8
  fragmentCount : UInt8
  address : Str
  data : List UInt8
  deriving DecidableEq

namespace Message

/-- `Hysteria2UdpMessage::header_size`. -/
def headerSize (m : Message) : Except IoError Nat :=
  let address := utf8 m.address
  if address.isEmpty ∨ maxAddressLength < address.length then
    .error (invalidData "Hysteria 2 UDP address length is invalid")
  else do
    let length ← varintLen (UInt64.ofNat address.length)
    .ok (8 + length + address.length)

/-- `Hysteria2UdpMessage::serialize`. -/
def serialize (m : Message) : Except IoError (List UInt8) := do
  let _ ← m.headerSize
  let length ← putVarint (UInt64.ofNat (utf8 m.address).length)
  .ok (u32Bytes m.sessionId ++ (u16Bytes m.packetId ++ ([m.fragmentId, m.fragmentCount] ++
    (length ++ (utf8 m.address ++ m.data)))))

/-- `Hysteria2UdpMessage::parse`.  A length of up to 2048 fits in `usize` and does not overflow. -/
def parse (input : List UInt8) : Except IoError Message :=
  if input.length < 9 then .error (invalidData "Hysteria 2 UDP datagram is truncated")
  else if byteAt input 7 = 0 ∨ byteAt input 7 ≤ byteAt input 6 then
    .error (invalidData "Hysteria 2 UDP fragment metadata is invalid")
  else
    match getVarint (input.drop 8) with
    | none => .error (invalidData "invalid UDP address varint")
    | some (addressLen, encodedLen) =>
      if addressLen.toNat = 0 ∨ maxAddressLength < addressLen.toNat then
        .error (invalidData "Hysteria 2 UDP address length is invalid")
      else
        let addressStart := 8 + encodedLen
        let addressEnd := addressStart + addressLen.toNat
        if input.length ≤ addressEnd then .error (invalidData "Hysteria 2 UDP datagram has no payload")
        else
          match fromUtf8 (slice input addressStart addressEnd) with
          | none => .error (invalidData "Hysteria 2 UDP address is not UTF-8")
          | some address =>
            .ok { sessionId := u32OfBytes (slice input 0 4)
                  packetId := u16OfBytes (slice input 4 6)
                  fragmentId := byteAt input 6
                  fragmentCount := byteAt input 7
                  address := address
                  data := input.drop addressEnd }

/-- What `parse` checks of the fragment numbers. -/
def Valid (m : Message) : Prop := m.fragmentId < m.fragmentCount ∧ m.data ≠ []

/-- The packet of which a message is a fragment: its number and its fragment count. -/
def key (m : Message) : UInt16 × UInt8 := (m.packetId, m.fragmentCount)

end Message

/-- The fragments of a message: the parts of its payload, under a new packet number. -/
def fragmentsOf (message : Message) (payloadMax : Nat) (packetId : UInt16) : List Message :=
  let parts := chunks payloadMax message.data
  parts.zipIdx.map fun (chunk, index) =>
    { message with
      packetId := packetId
      fragmentCount := UInt8.ofNat parts.length
      fragmentId := UInt8.ofNat index
      data := chunk }

/-- `send_fragmented`: the datagrams of a message, with the packet number that was drawn.  There are
`message.data.len().div_ceil(payload_max)` of them. -/
def sendFragmented (message : Message) (maximum : Nat) (packetId : UInt16) :
    Except IoError (List (List UInt8)) := do
  let header ← message.headerSize
  if maximum ≤ header then
    .error (invalidData "Hysteria 2 UDP datagram limit is smaller than its header")
  else
    let payloadMax := maximum - header
    let fragmentCount := (message.data.length + payloadMax - 1) / payloadMax
    if fragmentCount = 0 ∨ 255 < fragmentCount then
      .error (invalidData "Hysteria 2 UDP packet requires too many fragments")
    else (fragmentsOf message payloadMax packetId).mapM Message.serialize

/-! ### Varints are read back -/

theorem tagged (t : Fin 4) (x : UInt8) (h : x < 64) :
    ((UInt8.ofNat (64 * t) ||| x) >>> 6).toNat = t ∧ (UInt8.ofNat (64 * t) ||| x) &&& 0x3f = x := by
  revert h x t
  decide +kernel

theorem toNat_shiftIn (v : UInt64) (k n : Nat) (h : v.toNat * 256 ^ k + 256 ^ k ≤ 2 ^ 64) :
    ((toBytesBE k n).foldl shiftIn v).toNat = v.toNat * 256 ^ k + n % 256 ^ k := by
  induction k generalizing v with
  | zero => simp [toBytesBE, digitsBE, Nat.mod_one]
  | succ k ih =>
    have hpow : 0 < 256 ^ k := Nat.pow_pos (by decide)
    have hbyte : n / 256 ^ k % 256 < 256 := Nat.mod_lt _ (by decide)
    have hsmall : v.toNat * 256 + 256 ≤ 2 ^ 64 := by
      calc v.toNat * 256 + 256 ≤ (v.toNat * 256 + 256) * 256 ^ k := Nat.le_mul_of_pos_right _ hpow
        _ = v.toNat * 256 ^ (k + 1) + 256 ^ (k + 1) := by rw [Nat.pow_succ]; ring
        _ ≤ 2 ^ 64 := h
    -- One byte: nothing is shifted out, and the byte has its bits for itself.
    have hstep : (shiftIn v (UInt8.ofNat (n / 256 ^ k % 256))).toNat =
        v.toNat * 256 + n / 256 ^ k % 256 := by
      rw [shiftIn, UInt64.toNat_or, UInt64.toNat_shiftLeft]
      have hshift : v.toNat <<< 8 = v.toNat * 256 := by rw [Nat.shiftLeft_eq]
      have hlow : (UInt8.ofNat (n / 256 ^ k % 256)).toUInt64.toNat = n / 256 ^ k % 256 := by
        simp
      rw [hlow]
      simp only [UInt64.reduceToNat, Nat.reduceMod, hshift]
      rw [Nat.mod_eq_of_lt (by omega), ← hshift, ← Nat.shiftLeft_add_eq_or_of_lt hbyte, hshift]
    have hcons : toBytesBE (k + 1) n = UInt8.ofNat (n / 256 ^ k % 256) :: toBytesBE k n := by
      simp [toBytesBE, digitsBE]
    have hbound : (v.toNat * 256 + n / 256 ^ k % 256) * 256 ^ k + 256 ^ k ≤ 2 ^ 64 := by
      calc (v.toNat * 256 + n / 256 ^ k % 256) * 256 ^ k + 256 ^ k
          = (v.toNat * 256 + (n / 256 ^ k % 256 + 1)) * 256 ^ k := by ring
        _ ≤ (v.toNat * 256 + 256) * 256 ^ k := Nat.mul_le_mul_right _ (by omega)
        _ = v.toNat * 256 ^ (k + 1) + 256 ^ (k + 1) := by rw [Nat.pow_succ]; ring
        _ ≤ 2 ^ 64 := h
    rw [hcons, List.foldl_cons, ih _ (by rw [hstep]; exact hbound), hstep, Nat.pow_succ, Nat.mod_mul]
    ring

/-- The first byte has the length in its two high bits. -/
def tagByte (t : Nat) (x : Nat) : UInt8 := UInt8.ofNat (64 * t) ||| UInt8.ofNat x

theorem getVarint_tagByte {t : Fin 4} {k : Nat} (hk : k + 1 = 2 ^ t.val) {value : UInt64}
    (h : value.toNat < 64 * 256 ^ k) (rest : List UInt8) :
    getVarint (tagByte t (value.toNat / 256 ^ k) :: toBytesBE k value.toNat ++ rest) =
      some (value, k + 1) := by
  have hpow : 0 < 256 ^ k := Nat.pow_pos (by decide)
  have hx : value.toNat / 256 ^ k < 64 := Nat.div_lt_of_lt_mul (by rwa [Nat.mul_comm] at h)
  have hk7 : k ≤ 7 := by
    have ht : 2 ^ t.val ≤ 2 ^ 3 := Nat.pow_le_pow_right (by decide) (by omega)
    omega
  have htop : 64 * 256 ^ k ≤ 2 ^ 64 :=
    (Nat.mul_le_mul_left 64 (Nat.pow_le_pow_right (by decide) hk7)).trans (by decide)
  obtain ⟨htag, hlow⟩ := tagged t (UInt8.ofNat (value.toNat / 256 ^ k))
    (by rw [UInt8.lt_iff_toNat_lt]; simpa using Nat.lt_of_le_of_lt (Nat.mod_le _ _) hx)
  have hlen : 1 <<< (tagByte t (value.toNat / 256 ^ k) >>> 6).toNat = k + 1 := by
    rw [tagByte, htag, Nat.one_shiftLeft, hk]
  have hbody : slice (tagByte t (value.toNat / 256 ^ k) :: toBytesBE k value.toNat ++ rest) 1 (k + 1) =
      toBytesBE k value.toNat :=
    slice_middle (a := [tagByte t (value.toNat / 256 ^ k)]) rfl (by simp; omega)
  have hfirst : (tagByte t (value.toNat / 256 ^ k) &&& 0x3f).toUInt64.toNat = value.toNat / 256 ^ k := by
    rw [tagByte, hlow]
    simp
    omega
  rw [List.cons_append, getVarint]
  simp only [hlen]
  rw [if_neg (by simp), ← List.cons_append, hbody]
  congr 2
  apply UInt64.toNat_inj.1
  rw [toNat_shiftIn, hfirst, Nat.mul_comm, Nat.div_add_mod]
  rw [hfirst]
  calc value.toNat / 256 ^ k * 256 ^ k + 256 ^ k = (value.toNat / 256 ^ k + 1) * 256 ^ k := by ring
    _ ≤ 64 * 256 ^ k := Nat.mul_le_mul_right _ (by omega)
    _ ≤ 2 ^ 64 := htop

theorem varintLen_cases {value : UInt64} {length : Nat} (h : varintLen value = .ok length) :
    ∃ t : Fin 4, ∃ k, length = k + 1 ∧ k + 1 = 2 ^ t.val ∧ value.toNat < 64 * 256 ^ k ∧
      varintBytes value length = tagByte t (value.toNat / 256 ^ k) :: toBytesBE k value.toNat := by
  unfold varintLen at h
  split_ifs at h with h1 h2 h4 h8
  · cases h
    refine ⟨0, 0, rfl, rfl, by omega, ?_⟩
    simp [varintBytes, tagByte, toBytesBE, digitsBE]
  · cases h
    refine ⟨1, 1, rfl, rfl, by omega, ?_⟩
    simp [varintBytes, tagByte, toBytesBE, digitsBE]
    have hhigh : (value.toUInt16 >>> 8).toUInt8 = UInt8.ofNat (value.toNat / 256) := by
      apply UInt8.toNat_inj.1
      simp [Nat.shiftRight_eq_div_pow]
      omega
    have hlow : value.toUInt8 = UInt8.ofNat (value.toNat % 256) := by
      apply UInt8.toNat_inj.1
      simp
    exact ⟨by rw [hhigh], hlow⟩
  · cases h
    refine ⟨2, 3, rfl, rfl, by omega, ?_⟩
    simp [varintBytes, tagByte, toBytesBE, digitsBE, u32Bytes]
    have hhigh : (value.toUInt32 >>> 24).toUInt8 = UInt8.ofNat (value.toNat / 16777216) := by
      apply UInt8.toNat_inj.1
      simp [Nat.shiftRight_eq_div_pow]
      omega
    rw [hhigh, Nat.mod_eq_of_lt (show value.toNat < 4294967296 by omega)]
    exact ⟨rfl, rfl, rfl⟩
  · cases h
    refine ⟨3, 7, rfl, rfl, by omega, ?_⟩
    simp [varintBytes, tagByte, toBytesBE, digitsBE, u64Bytes]
    have hhigh : (value >>> 56).toUInt8 = UInt8.ofNat (value.toNat / 72057594037927936) := by
      apply UInt8.toNat_inj.1
      simp [Nat.shiftRight_eq_div_pow]
    rw [hhigh]

/-- **What `putVarint` writes is read back, whatever follows.** -/
theorem getVarint_putVarint {value : UInt64} {bytes : List UInt8} (h : putVarint value = .ok bytes)
    (rest : List UInt8) : getVarint (bytes ++ rest) = some (value, bytes.length) := by
  obtain ⟨length, hlength, h⟩ := bind_eq_ok.1 h
  cases h
  obtain ⟨t, k, rfl, hk, hvalue, hbytes⟩ := varintLen_cases hlength
  rw [hbytes, getVarint_tagByte hk hvalue]
  simp

/-! ### Messages are parsed back -/

namespace Message

theorem headerSize_eq_ok {m : Message} {n : Nat} (h : m.headerSize = .ok n) :
    0 < (utf8 m.address).length ∧ (utf8 m.address).length ≤ maxAddressLength := by
  unfold headerSize at h
  dsimp only at h
  split_ifs at h with hlen
  rw [not_or, List.isEmpty_iff, ← ne_eq, ← List.length_pos_iff] at hlen
  exact ⟨hlen.1, by omega⟩

theorem serialize_eq_ok {m : Message} {bytes : List UInt8} (h : m.serialize = .ok bytes) :
    ∃ length, putVarint (UInt64.ofNat (utf8 m.address).length) = .ok length ∧
      0 < (utf8 m.address).length ∧ (utf8 m.address).length ≤ maxAddressLength ∧
      bytes = u32Bytes m.sessionId ++ (u16Bytes m.packetId ++ ([m.fragmentId, m.fragmentCount] ++
        (length ++ (utf8 m.address ++ m.data)))) := by
  obtain ⟨n, hn, h⟩ := bind_eq_ok.1 h
  obtain ⟨length, hlength, h⟩ := bind_eq_ok.1 h
  cases h
  obtain ⟨hpos, hle⟩ := headerSize_eq_ok hn
  exact ⟨length, hlength, hpos, hle, rfl⟩

theorem parse_eq_ok {input : List UInt8} {m : Message} (h : parse input = .ok m) : m.Valid := by
  unfold parse at h
  split_ifs at h with hshort hmeta
  cases hvar : getVarint (input.drop 8) with
  | none => simp [hvar] at h
  | some found =>
    obtain ⟨addressLen, encodedLen⟩ := found
    simp only [hvar] at h
    split_ifs at h with haddress hpayload
    cases hutf : fromUtf8 (slice input (8 + encodedLen) (8 + encodedLen + addressLen.toNat)) with
    | none => simp [hutf] at h
    | some address =>
      simp only [hutf, Except.ok.injEq] at h
      subst h
      rw [not_or, UInt8.not_le] at hmeta
      refine ⟨hmeta.2, ?_⟩
      simp only [ne_eq, List.drop_eq_nil_iff]
      omega

/-- **A message is parsed from its serialisation exactly if its fragment numbers are valid and it has a
payload.** -/
theorem parse_serialize {m : Message} {bytes : List UInt8} (h : m.serialize = .ok bytes) :
    parse bytes = .ok m ↔ m.Valid := by
  refine ⟨parse_eq_ok, fun ⟨hid, hdata⟩ => ?_⟩
  obtain ⟨length, hlength, hpos, hle, rfl⟩ := serialize_eq_ok h
  have hdata := List.length_pos_iff.2 hdata
  set rest := utf8 m.address ++ m.data with hrest
  set bytes := u32Bytes m.sessionId ++ (u16Bytes m.packetId ++ ([m.fragmentId, m.fragmentCount] ++
    (length ++ rest))) with hbytes
  have hlen : bytes.length = 8 + length.length + (utf8 m.address).length + m.data.length := by
    simp [hbytes, hrest]
    omega
  have hid6 : byteAt bytes 6 = m.fragmentId := by
    simp [hbytes, byteAt, List.getElem?_append]
  have hid7 : byteAt bytes 7 = m.fragmentCount := by
    simp [hbytes, byteAt, List.getElem?_append]
  have hdrop : bytes.drop 8 = length ++ rest := by
    have hhead : (u32Bytes m.sessionId ++ (u16Bytes m.packetId ++ [m.fragmentId, m.fragmentCount])).length =
        8 := by simp
    have hsplit : bytes = (u32Bytes m.sessionId ++ (u16Bytes m.packetId ++
        [m.fragmentId, m.fragmentCount])) ++ (length ++ rest) := by simp [hbytes]
    rw [hsplit, List.drop_left' hhead]
  have hsmall : (UInt64.ofNat (utf8 m.address).length).toNat = (utf8 m.address).length :=
    UInt64.toNat_ofNat_of_lt' (lt_of_le_of_lt hle (by decide))
  have hvar : getVarint (bytes.drop 8) = some (UInt64.ofNat (utf8 m.address).length, length.length) := by
    rw [hdrop, getVarint_putVarint hlength]
  have haddress : slice bytes (8 + length.length) (8 + length.length + (utf8 m.address).length) =
      utf8 m.address := by
    have hsplit : bytes = (u32Bytes m.sessionId ++ (u16Bytes m.packetId ++
        ([m.fragmentId, m.fragmentCount] ++ length))) ++ (utf8 m.address ++ m.data) := by
      simp [hbytes, hrest]
    rw [hsplit]
    exact slice_middle (by simp; omega) rfl
  have hpayload : bytes.drop (8 + length.length + (utf8 m.address).length) = m.data := by
    rw [Nat.add_assoc, ← List.drop_drop, hdrop, ← List.drop_drop, List.drop_left, hrest, List.drop_left]
  have hsession : slice bytes 0 4 = u32Bytes m.sessionId :=
    slice_middle (a := []) (b := u32Bytes m.sessionId) rfl (by simp)
  have hpacket : slice bytes 4 6 = u16Bytes m.packetId :=
    slice_middle (a := u32Bytes m.sessionId) (b := u16Bytes m.packetId) (by simp) (by simp)
  unfold parse
  rw [if_neg (by omega), hid6, hid7, if_neg, hvar]
  · dsimp only
    rw [hsmall, if_neg (by omega), if_neg (by omega), haddress, Young.fromUtf8_utf8, hpayload, hsession,
      hpacket]
    simp
  · rintro (h0 | hle)
    · rw [h0] at hid
      exact absurd hid (by simp)
    · exact absurd hid (UInt8.not_lt.2 hle)

end Message

/-! ### Fragments -/

variable {message : Message} {payloadMax maximum : Nat} {packetId : UInt16}

variable (message payloadMax packetId) in
@[simp] theorem fragmentsOf_length :
    (fragmentsOf message payloadMax packetId).length = (chunks payloadMax message.data).length := by
  simp [fragmentsOf]

variable (message packetId) in
theorem fragmentsOf_data (h : 0 < payloadMax) :
    ((fragmentsOf message payloadMax packetId).map Message.data).flatten = message.data := by
  have hmap : (fragmentsOf message payloadMax packetId).map Message.data =
      chunks payloadMax message.data := by
    rw [fragmentsOf, List.map_map]
    exact List.zipIdx_map_fst 0 _
  rw [hmap, flatten_chunks h]

theorem fragmentsOf_getElem? {i : Nat} {part : Message}
    (h : (fragmentsOf message payloadMax packetId)[i]? = some part) :
    ∃ chunk, (chunks payloadMax message.data)[i]? = some chunk ∧
      part = { message with
        packetId := packetId
        fragmentCount := UInt8.ofNat (chunks payloadMax message.data).length
        fragmentId := UInt8.ofNat i
        data := chunk } := by
  simp only [fragmentsOf, List.getElem?_map, List.getElem?_zipIdx, Option.map_map,
    Option.map_eq_some_iff, Function.comp_apply, Nat.zero_add] at h
  obtain ⟨chunk, hchunk, rfl⟩ := h
  exact ⟨chunk, hchunk, rfl⟩

theorem sendFragmented_eq_ok {frames : List (List UInt8)}
    (h : sendFragmented message maximum packetId = .ok frames) :
    ∃ payloadMax, 0 < payloadMax ∧ 0 < (chunks payloadMax message.data).length ∧
      (chunks payloadMax message.data).length ≤ 255 ∧
      List.Forall₂ (fun part frame => Message.parse frame = .ok part)
        (fragmentsOf message payloadMax packetId) frames := by
  obtain ⟨header, hheader, h⟩ := bind_eq_ok.1 h
  split_ifs at h with hmax
  dsimp only at h
  split_ifs at h with hcount
  have hpos : 0 < maximum - header := by omega
  rw [← length_chunks hpos] at hcount
  refine ⟨maximum - header, hpos, by omega, by omega, ?_⟩
  have hvalid : ∀ part ∈ fragmentsOf message (maximum - header) packetId, part.Valid := by
    intro part hpart
    obtain ⟨i, hi⟩ := List.getElem?_of_mem hpart
    obtain ⟨chunk, hchunk, rfl⟩ := fragmentsOf_getElem? hi
    have hlt := (List.getElem?_eq_some_iff.1 hchunk).1
    refine ⟨?_, ?_⟩
    · rw [UInt8.lt_iff_toNat_lt, UInt8.toNat_ofNat', UInt8.toNat_ofNat']
      omega
    · exact List.length_pos_iff.1 (length_of_mem_chunks hpos (List.mem_of_getElem? hchunk)).1
  have hserialized := (List.forall₂_and_left _ _).2 ⟨hvalid, mapM_eq_ok.1 h⟩
  exact hserialized.imp fun part frame ⟨hpart, hframe⟩ => (Message.parse_serialize hframe).2 hpart

end WutherCore.Hysteria2
