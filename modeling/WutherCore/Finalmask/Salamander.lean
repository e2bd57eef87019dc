import WutherCore.Data.Except
import WutherCore.Data.Rand
import WutherCore.Data.Slots
import WutherCore.Young.Wire
import WutherCore.Data.AssocMap
import Mathlib.Data.List.GetD

/-!
# Finalmask: Salamander packets

`salamander.rs`: a packet is masked with the key that a hash gives for the password and the packet's own
salt.  With Gecko a payload whose first byte has the high bit is cut into fragments behind headers with
the number of the message, and the peer puts them together again.

The hash is a parameter, `blake2b`.  Time is counted in nanoseconds.

* `flatten_cut`: the parts of a payload.
* `Sent`, `SalamanderCodec.always_encode`: what the packets of a payload are to the peer.
* `Holds`, `reassemble_cases`: what the peer does with a fragment, if the entry of its number holds
  fragments of the same payload.
-/

namespace WutherCore.Finalmask

open WutherCore.Data Draw
open WutherCore.Young (IoError invalidData u16Bytes u16OfBytes Bytes)

/-- `SALT_LEN`. -/
def saltLen : Nat := 8

/-- `KEY_LEN`. -/
def keyLen : Nat := 32

/-- `PSK_MIN_LEN`. -/
def pskMinLen : Nat := 4

/-- `GECKO_FLAG_FRAGMENT`. -/
def geckoFlagFragment : UInt8 := 0x80

/-- `GECKO_HEADER_SIZE`. -/
def geckoHeaderSize : Nat := 5

/-- `GECKO_MIN_FRAGMENT_CHUNKS`. -/
def geckoMinFragmentChunks : Nat := 2

/-- `GECKO_MAX_FRAGMENT_CHUNKS`. -/
def geckoMaxFragmentChunks : Nat := 8

/-- `GECKO_DEFAULT_MIN_PACKET`. -/
def geckoDefaultMinPacket : Nat := 512

/-- `GECKO_DEFAULT_MAX_PACKET`. -/
def geckoDefaultMaxPacket : Nat := 1200

/-- `GECKO_BUFFER_SIZE`. -/
def geckoBufferSize : Nat := 2048

/-- `GECKO_REASSEMBLY_TTL`. -/
def geckoReassemblyTtl : Nat := 8 * 10 ^ 9

/-- `GECKO_MAX_REASSEMBLY`. -/
def geckoMaxReassembly : Nat := 8

/-- `I32Range`. -/
structure I32Range where
  from' : Int := 0
  to' : Int := 0
  deriving DecidableEq, Repr

/-- `SalamanderMaskConfig`, with the bytes of the password. -/
structure SalamanderMaskConfig where
  password : List UInt8
  packetSize : I32Range := {}

/-- `ReassemblyEntry`. -/
structure ReassemblyEntry where
  chunks : List (Option (List UInt8))
  received : Nat
  deadline : Nat
  deriving DecidableEq

/-- `GeckoState`, with what `SalamanderCodec::new` checks of the sizes. -/
structure GeckoState where
  minPacket : Nat
  maxPacket : Nat
  nextMessageId : UInt8 := 0
  entries : AssocMap UInt8 ReassemblyEntry := .empty
  maxPacket_le : maxPacket ≤ geckoBufferSize

/-- `SalamanderCodec`. -/
structure SalamanderCodec where
  password : List UInt8
  gecko : Option GeckoState

/-- `usize::try_from(x)`. -/
def usizeTryFrom (x : Int) (e : IoError) : Except IoError Nat :=
  if 0 ≤ x then .ok x.toNat else .error e

/-- The sizes are checked. -/
def GeckoState.new (minPacket maxPacket : Nat) : Except IoError GeckoState :=
  if h : minPacket = 0 ∨ maxPacket < minPacket ∨ geckoBufferSize < maxPacket then
    .error (invalidData "gecko: invalid min/max packet size")
  else .ok { minPacket, maxPacket, maxPacket_le := by omega }

/-- `SalamanderCodec::new`. -/
def SalamanderCodec.new (config : SalamanderMaskConfig) : Except IoError SalamanderCodec :=
  if config.password.length < pskMinLen then
    .error (invalidData "Salamander PSK must be at least 4 bytes")
  else if 0 < config.packetSize.to' then do
    let minPacket ← (if config.packetSize.from' = 0 then .ok geckoDefaultMinPacket
      else usizeTryFrom config.packetSize.from' (invalidData "gecko minimum packet size is negative"))
    let maxPacket ← (if config.packetSize.to' = 0 then .ok geckoDefaultMaxPacket
      else usizeTryFrom config.packetSize.to' (invalidData "gecko maximum packet size is negative"))
    let gecko ← GeckoState.new minPacket maxPacket
    pure ⟨config.password, some gecko⟩
  else .ok ⟨config.password, none⟩

theorem SalamanderCodec.new_eq_ok {config : SalamanderMaskConfig} {codec : SalamanderCodec}
    (h : SalamanderCodec.new config = .ok codec) : codec.password = config.password ∧
      ∀ gecko, codec.gecko = some gecko → gecko.nextMessageId = 0 ∧ gecko.entries = .empty := by
  unfold SalamanderCodec.new at h
  by_cases hpassword : config.password.length < pskMinLen
  · rw [if_pos hpassword] at h
    cases h
  rw [if_neg hpassword] at h
  by_cases hsize : 0 < config.packetSize.to'
  · rw [if_pos hsize] at h
    obtain ⟨minPacket, -, h⟩ := bind_eq_ok.1 h
    obtain ⟨maxPacket, -, h⟩ := bind_eq_ok.1 h
    obtain ⟨gecko, hgecko, h⟩ := bind_eq_ok.1 h
    cases h
    unfold GeckoState.new at hgecko
    split_ifs at hgecko
    cases hgecko
    refine ⟨rfl, fun gecko hgecko => ?_⟩
    cases hgecko
    exact ⟨rfl, rfl⟩
  · rw [if_neg hsize] at h
    cases h
    exact ⟨rfl, fun gecko hgecko => by cases hgecko⟩

/-! ### Masking -/

/-- The key stream is repeated over the bytes. -/
def mask (key : Bytes 32) (payload : List UInt8) : List UInt8 :=
  payload.mapIdx fun i byte => byte ^^^ key.1.getD (i % keyLen) 0

@[simp] theorem length_mask (key : Bytes 32) (payload : List UInt8) :
    (mask key payload).length = payload.length := List.length_mapIdx

@[simp] theorem mask_mask (key : Bytes 32) (payload : List UInt8) : mask key (mask key payload) = payload := by
  rw [mask, mask, List.mapIdx_mapIdx]
  have hid : ∀ byte k : UInt8, byte ^^^ k ^^^ k = byte := fun byte k => by
    rw [UInt8.xor_assoc, UInt8.xor_self, UInt8.xor_zero]
  simp only [Function.comp_def, hid]
  exact List.ext_getElem? fun i => by simp

section Model

variable (blake2b : List UInt8 → Bytes 32) (password : List UInt8)

/-- `salamander_key`. -/
def salamanderKey (salt : List UInt8) : Bytes 32 := blake2b (password ++ salt)

/-- `obfuscate`. -/
def obfuscate (payload : List UInt8) : Draw (List UInt8) := do
  let salt ← Draw.bytes saltLen
  pure (salt ++ mask (salamanderKey blake2b password salt) payload)

/-- `deobfuscate`. -/
def deobfuscate (packet : List UInt8) : Except IoError (List UInt8) :=
  if packet.length ≤ saltLen then .error (invalidData "Salamander packet is truncated")
  else .ok (mask (salamanderKey blake2b password (packet.take saltLen)) (packet.drop saltLen))

/-! ### Sending -/

/-- The payload is sent in fragments: its first byte has the high bit. -/
def flagged : List UInt8 → Bool
  | [] => false
  | first :: _ => first &&& geckoFlagFragment ≠ 0

/-- The part of a payload that goes into a fragment. -/
def chunk (payload : List UInt8) (chunkCount index : Nat) : List UInt8 :=
  let chunkSize := payload.length / chunkCount
  let start := index * chunkSize
  let stop := if index + 1 = chunkCount then payload.length else start + chunkSize
  slice payload start stop

/-- The number of bytes that a fragment is padded with. -/
def padLen (gecko : GeckoState) (chunkLen : Nat) : Draw Nat :=
  let base := saltLen + geckoHeaderSize + chunkLen
  let low := max gecko.minPacket base
  if gecko.maxPacket < low then pure 0
  else do
    let extra ← below (gecko.maxPacket - low + 1)
    pure (low - base + extra)

/-- The frame of a fragment. -/
def fragmentFrame (gecko : GeckoState) (messageId : UInt8) (chunkCount index : Nat) (part : List UInt8) :
    Draw (List UInt8) := do
  let padLen ← padLen gecko part.length
  let padding ← Draw.bytes padLen
  pure (geckoFlagFragment :: messageId :: (UInt8.ofNat index <<< 4 ||| UInt8.ofNat chunkCount) ::
    (u16Bytes (UInt16.ofNat padLen) ++ (padding ++ part)))

/-- The packets of the fragments with the given indices. -/
def encodeFragments (gecko : GeckoState) (messageId : UInt8) (payload : List UInt8) (chunkCount : Nat) :
    List Nat → Draw (List (List UInt8))
  | [] => pure []
  | index :: indices => do
    let frame ← fragmentFrame gecko messageId chunkCount index (chunk payload chunkCount index)
    let packet ← obfuscate blake2b password frame
    let packets ← encodeFragments gecko messageId payload chunkCount indices
    pure (packet :: packets)

/-- `SalamanderCodec::encode`. -/
def SalamanderCodec.encode (codec : SalamanderCodec) (payload : List UInt8) :
    Draw (List (List UInt8) × SalamanderCodec) :=
  match codec.gecko with
  | none => do
    let packet ← obfuscate blake2b codec.password payload
    pure ([packet], codec)
  | some gecko =>
    if payload = [] then pure ([], codec)
    else if flagged payload then do
      let extra ← below (geckoMaxFragmentChunks - geckoMinFragmentChunks + 1)
      let chunkCount := geckoMinFragmentChunks + extra
      let messageId := gecko.nextMessageId + 1
      let packets ← encodeFragments blake2b codec.password gecko messageId payload chunkCount
        (List.range chunkCount)
      pure (packets, { codec with gecko := some { gecko with nextMessageId := messageId } })
    else do
      let packet ← obfuscate blake2b codec.password payload
      pure ([packet], codec)

/-! ### Receiving -/

/-- `FrameHeader`. -/
structure FrameHeader where
  messageId : UInt8
  chunkIndex : UInt8
  totalChunks : UInt8
  deriving DecidableEq, Repr

/-- `decode_frame`. -/
def decodeFrame : List UInt8 → Except IoError (FrameHeader × List UInt8)
  | _ :: messageId :: counts :: high :: low :: rest =>
    let chunkIndex := counts >>> 4
    let totalChunks := counts &&& 0x0f
    if ¬(UInt8.ofNat geckoMinFragmentChunks ≤ totalChunks ∧
        totalChunks ≤ UInt8.ofNat geckoMaxFragmentChunks) ∨ totalChunks ≤ chunkIndex then
      .error (invalidData "gecko frame header is invalid")
    else
      let padding := (u16OfBytes [high, low]).toNat
      if rest.length < padding then .error (invalidData "gecko frame padding is truncated")
      else .ok (⟨messageId, chunkIndex, totalChunks⟩, rest.drop padding)
  | _ => .error (invalidData "gecko frame is truncated")

/-- The entries that have not expired. -/
def GeckoState.live (gecko : GeckoState) (now : Nat) : AssocMap UInt8 ReassemblyEntry :=
  gecko.entries.retain fun _ entry => now < entry.deadline

/-- A new message takes the place of the oldest entry if there are too many. -/
def makeRoom (entries : AssocMap UInt8 ReassemblyEntry) (order : Iteration UInt8 ReassemblyEntry)
    (messageId : UInt8) : AssocMap UInt8 ReassemblyEntry :=
  if ¬entries.contains messageId ∧ geckoMaxReassembly ≤ entries.size then
    match entries.minBy order fun e => e.2.deadline with
    | some oldest => entries.erase oldest.1
    | none => entries
  else entries

/-- The entry of a new message. -/
def ReassemblyEntry.fresh (totalChunks : UInt8) (now : Nat) : ReassemblyEntry where
  chunks := List.replicate totalChunks.toNat none
  received := 0
  deadline := now + geckoReassemblyTtl

/-- A chunk is put into its slot. -/
def ReassemblyEntry.store (entry : ReassemblyEntry) (index : Nat) (payload : List UInt8) :
    ReassemblyEntry :=
  { entry with chunks := entry.chunks.set index (some payload), received := entry.received + 1 }

/-- `decode` for a fragment.  The index is smaller than the number of chunks. -/
def GeckoState.reassemble (gecko : GeckoState) (now : Nat) (order : Iteration UInt8 ReassemblyEntry)
    (header : FrameHeader) (payload : List UInt8) :
    Except IoError (Option (List UInt8)) × GeckoState :=
  let entries := makeRoom (gecko.live now) order header.messageId
  let entry := (entries.get? header.messageId).getD (.fresh header.totalChunks now)
  let kept := { gecko with entries := entries.insert header.messageId entry }
  if entry.chunks.length ≠ header.totalChunks.toNat then (.ok none, kept)
  else
    match entry.chunks[header.chunkIndex.toNat]? with
    | some none =>
      let entry := entry.store header.chunkIndex.toNat payload
      if entry.received ≠ entry.chunks.length then
        (.ok none, { gecko with entries := entries.insert header.messageId entry })
      else
        let gecko := { gecko with entries := entries.erase header.messageId }
        let output := entry.chunks.reduceOption.flatten
        if 65535 < output.length then
          (.error (invalidData "gecko reassembled datagram exceeds 65535 bytes"), gecko)
        else (.ok (some output), gecko)
    | _ => (.ok none, kept)

/-- `SalamanderCodec::decode`, at a time, with the order in which the entries are iterated then. -/
def SalamanderCodec.decode (codec : SalamanderCodec) (now : Nat) (order : Iteration UInt8 ReassemblyEntry)
    (packet : List UInt8) : Except IoError (Option (List UInt8)) × SalamanderCodec :=
  match deobfuscate blake2b codec.password packet with
  | .error e => (.error e, codec)
  | .ok decoded =>
    match codec.gecko with
    | none => (.ok (some decoded), codec)
    | some gecko =>
      if decoded = [] then (.ok none, codec)
      else if flagged decoded then
        match decodeFrame decoded with
        | .error e => (.error e, codec)
        | .ok (header, payload) =>
          let (result, gecko) := gecko.reassemble now order header payload
          (result, { codec with gecko := some gecko })
      else (.ok (some decoded), codec)

/-! ### The packets of a payload -/

variable {blake2b password}

theorem always_obfuscate {payload : List UInt8} (h : payload ≠ []) :
    Always (fun packet => deobfuscate blake2b password packet = .ok payload)
      (obfuscate blake2b password payload) := by
  unfold obfuscate
  refine (always_bytes saltLen).bind fun salt hsalt => always_pure ?_
  have hpos := List.length_pos_iff.2 h
  rw [deobfuscate, if_neg (by rw [List.length_append, length_mask]; omega), List.take_left' hsalt,
    List.drop_left' hsalt, mask_mask]

/-- The parts of a payload that is cut. -/
def cut (payload : List UInt8) (chunkCount : Nat) : List (List UInt8) :=
  (List.range chunkCount).map (chunk payload chunkCount)

theorem flatten_cut (payload : List UInt8) {chunkCount : Nat} (h : 0 < chunkCount) :
    (cut payload chunkCount).flatten = payload := by
  obtain ⟨n, rfl⟩ := Nat.exists_eq_add_of_lt h
  rw [Nat.zero_add] at h ⊢
  set size := payload.length / (n + 1) with hsize
  -- the parts before the last are all of one size
  have hfirst : ∀ k ≤ n, ((List.range k).map (chunk payload (n + 1))).flatten = payload.take (k * size) := by
    intro k hk
    induction k with
    | zero => simp
    | succ k ih =>
      have hpart : chunk payload (n + 1) k = (payload.drop (k * size)).take size := by
        unfold chunk
        dsimp only
        rw [if_neg (by omega), ← hsize, slice, Nat.add_sub_cancel_left]
      rw [List.range_succ, List.map_append, List.flatten_append, ih (by omega), List.map_singleton,
        List.flatten_singleton, hpart, Nat.succ_mul, List.take_add]
  have hlast : chunk payload (n + 1) n = payload.drop (n * size) := by
    unfold chunk
    dsimp only
    rw [if_pos rfl, ← hsize, slice, List.take_of_length_le (by rw [List.length_drop])]
  rw [cut, List.range_succ, List.map_append, List.flatten_append, hfirst n (Nat.le_refl n),
    List.map_singleton, List.flatten_singleton, hlast, List.take_append_drop]

/-- The packets of a payload in fragments: each is opened as the frame of a part, with the number of the
message, its own place and the number of parts. -/
structure Fragments (blake2b : List UInt8 → Bytes 32) (password : List UInt8) (messageId : UInt8)
    (payload : List UInt8) (parts packets : List (List UInt8)) : Prop where
  flatten_parts : parts.flatten = payload
  two_le : geckoMinFragmentChunks ≤ parts.length
  le_eight : parts.length ≤ geckoMaxFragmentChunks
  length_eq : packets.length = parts.length
  frame : ∀ i packet part, packets[i]? = some packet → parts[i]? = some part →
    ∃ frame, deobfuscate blake2b password packet = .ok frame ∧ flagged frame = true ∧
      decodeFrame frame = .ok (⟨messageId, UInt8.ofNat i, UInt8.ofNat parts.length⟩, part)

/-- What is sent of a payload: nothing of an empty one, one packet, or fragments. -/
inductive Sent (blake2b : List UInt8 → Bytes 32) (password : List UInt8) (messageId : UInt8)
    (parts : List (List UInt8)) : List UInt8 → List (List UInt8) → Prop
  | empty : Sent blake2b password messageId parts [] []
  | whole {payload packet : List UInt8} : payload ≠ [] → flagged payload = false →
    deobfuscate blake2b password packet = .ok payload →
    Sent blake2b password messageId parts payload [packet]
  | cut {payload : List UInt8} {packets : List (List UInt8)} : flagged payload = true →
    Fragments blake2b password messageId payload parts packets →
    Sent blake2b password messageId parts payload packets

theorem forall₂_getElem? {α β : Type*} {R : α → β → Prop} {l : List α} {l' : List β}
    (h : List.Forall₂ R l l') {i : Nat} {a : α} {b : β} (ha : l[i]? = some a) (hb : l'[i]? = some b) :
    R a b := by
  obtain ⟨hi, rfl⟩ := List.getElem?_eq_some_iff.1 ha
  obtain ⟨hi', rfl⟩ := List.getElem?_eq_some_iff.1 hb
  exact (List.forall₂_iff_get.1 h).2 i hi hi'

theorem toNat_ofNat_of_le_eight {n : Nat} (h : n ≤ geckoMaxFragmentChunks) : (UInt8.ofNat n).toNat = n := by
  unfold geckoMaxFragmentChunks at h
  exact UInt8.toNat_ofNat_of_lt' (by norm_num [UInt8.size]; omega)

theorem counts_eq {index chunkCount : Nat} (hindex : index < chunkCount) (hle : chunkCount ≤ 8) :
    (UInt8.ofNat index <<< 4 ||| UInt8.ofNat chunkCount) >>> 4 = UInt8.ofNat index ∧
      (UInt8.ofNat index <<< 4 ||| UInt8.ofNat chunkCount) &&& 0x0f = UInt8.ofNat chunkCount := by
  have hall : ∀ index < 8, ∀ chunkCount < 9,
      (UInt8.ofNat index <<< 4 ||| UInt8.ofNat chunkCount) >>> 4 = UInt8.ofNat index ∧
      (UInt8.ofNat index <<< 4 ||| UInt8.ofNat chunkCount) &&& 0x0f = UInt8.ofNat chunkCount := by
    decide
  exact hall index (by omega) chunkCount (by omega)

theorem always_padLen (gecko : GeckoState) (chunkLen : Nat) :
    Always (· < 2 ^ 16) (padLen gecko chunkLen) := by
  have hmax := gecko.maxPacket_le
  unfold geckoBufferSize at hmax
  unfold padLen
  dsimp only
  split_ifs with hbig
  · exact always_pure (by decide)
  · refine (always_below (Nat.succ_pos _)).bind fun extra hextra => always_pure ?_
    omega

theorem always_fragmentFrame (gecko : GeckoState) (messageId : UInt8) {chunkCount index : Nat}
    (part : List UInt8) (hindex : index < chunkCount) (htwo : 2 ≤ chunkCount) (hle : chunkCount ≤ 8) :
    Always (fun frame => flagged frame = true ∧
      decodeFrame frame = .ok (⟨messageId, UInt8.ofNat index, UInt8.ofNat chunkCount⟩, part))
      (fragmentFrame gecko messageId chunkCount index part) := by
  obtain ⟨hshift, hand⟩ := counts_eq hindex hle
  unfold fragmentFrame
  refine (always_padLen gecko part.length).bind fun padLen hpadLen => (always_bytes padLen).bind fun padding hpadding => always_pure ?_
  refine ⟨by simp [flagged, geckoFlagFragment], ?_⟩
  have hlt := toNat_ofNat_of_le_eight (hindex.le.trans hle)
  have hcount := toNat_ofNat_of_le_eight hle
  obtain ⟨high, low, hbytes⟩ : ∃ high low, u16Bytes (UInt16.ofNat padLen) = [high, low] :=
    List.length_eq_two.1 (Young.u16Bytes_length _)
  have hback : (u16OfBytes [high, low]).toNat = padLen := by
    rw [← hbytes, Young.u16OfBytes_u16Bytes, Young.toNat_ofNat16 hpadLen]
  rw [hbytes, List.cons_append, List.cons_append, List.nil_append, decodeFrame]
  dsimp only
  rw [hshift, hand, hback, if_neg, if_neg, List.drop_left' hpadding]
  · rw [List.length_append]
    omega
  · simp only [UInt8.le_iff_toNat_le, hlt, hcount, geckoMinFragmentChunks, geckoMaxFragmentChunks]
    simp
    omega

theorem length_cut (payload : List UInt8) (chunkCount : Nat) :
    (cut payload chunkCount).length = chunkCount := by
  rw [cut, List.length_map, List.length_range]

theorem always_encodeFragments (gecko : GeckoState) (messageId : UInt8) (payload : List UInt8)
    {chunkCount : Nat} (htwo : 2 ≤ chunkCount) (hle : chunkCount ≤ 8) (indices : List Nat)
    (hindices : ∀ index ∈ indices, index < chunkCount) :
    Always (fun packets => List.Forall₂ (fun packet index => ∃ frame,
        deobfuscate blake2b password packet = .ok frame ∧ flagged frame = true ∧
        decodeFrame frame = .ok (⟨messageId, UInt8.ofNat index, UInt8.ofNat chunkCount⟩,
          chunk payload chunkCount index)) packets indices)
      (encodeFragments blake2b password gecko messageId payload chunkCount indices) := by
  induction indices with
  | nil => exact always_pure .nil
  | cons index indices ih =>
    rw [List.forall_mem_cons] at hindices
    unfold encodeFragments
    refine (always_fragmentFrame gecko messageId _ hindices.1 htwo hle).bind ?_
    rintro frame ⟨hflagged, hframe⟩
    have hne : frame ≠ [] := by
      rintro rfl
      cases hflagged
    refine (always_obfuscate hne).bind fun packet hpacket => (ih hindices.2).bind fun packets hpackets => ?_
    exact always_pure (.cons ⟨frame, hpacket, hflagged, hframe⟩ hpackets)

/-- **What is sent of a payload**, by a codec with Gecko: only a payload in fragments takes a number. -/
theorem SalamanderCodec.always_encode {codec : SalamanderCodec} {gecko : GeckoState} (hgecko : codec.gecko = some gecko)
    (payload : List UInt8) :
    Always (fun r => (∃ parts, Sent blake2b codec.password (gecko.nextMessageId + 1) parts payload r.1) ∧
        r.2 = if flagged payload then
            { codec with gecko := some { gecko with nextMessageId := gecko.nextMessageId + 1 } }
          else codec)
      (codec.encode blake2b payload) := by
  unfold SalamanderCodec.encode
  rw [hgecko]
  dsimp only
  by_cases hnil : payload = []
  · subst hnil
    exact always_pure ⟨⟨[], .empty⟩, rfl⟩
  rw [if_neg hnil]
  by_cases hflagged : flagged payload = true
  · rw [if_pos hflagged, if_pos hflagged]
    refine (always_below (Nat.succ_pos _)).bind fun extra hextra => ?_
    unfold geckoMaxFragmentChunks geckoMinFragmentChunks at hextra
    set chunkCount := geckoMinFragmentChunks + extra with hcount
    have htwo : 2 ≤ chunkCount := Nat.le_add_right 2 extra
    have hle : chunkCount ≤ 8 := by
      unfold geckoMinFragmentChunks at hcount
      omega
    refine (always_encodeFragments gecko (gecko.nextMessageId + 1) payload htwo hle _
      fun index hindex => List.mem_range.1 hindex).bind fun packets hpackets => always_pure ⟨?_, rfl⟩
    refine ⟨cut payload chunkCount, .cut hflagged ⟨flatten_cut payload (by omega), ?_, ?_, ?_, ?_⟩⟩
    · rw [length_cut]
      exact htwo
    · rw [length_cut]
      exact hle
    · rw [length_cut, hpackets.length_eq, List.length_range]
    · intro i packet part hpacket hpart
      rw [length_cut]
      have hi : i < chunkCount := by
        have hlt := (List.getElem?_eq_some_iff.1 hpart).1
        rwa [length_cut] at hlt
      have hrange : (List.range chunkCount)[i]? = some i := by
        rw [List.getElem?_range hi]
      have hpart' : part = chunk payload chunkCount i := by
        rw [cut, List.getElem?_map, hrange] at hpart
        exact (Option.some.inj hpart).symm
      rw [hpart']
      exact forall₂_getElem? hpackets hpacket hrange
  · rw [if_neg hflagged, if_neg hflagged]
    refine (always_obfuscate hnil).bind fun packet hpacket => always_pure ⟨⟨[], ?_⟩, rfl⟩
    exact .whole hnil (by simpa using hflagged) hpacket

/-! ### Putting fragments together -/

/-- The slot is filled. -/
def ReassemblyEntry.Filled (entry : ReassemblyEntry) (i : Nat) : Prop :=
  ∃ part, entry.chunks[i]? = some (some part)

/-- The entry holds fragments of the payload with these parts, but not all of them, and counts them. -/
structure Holds (parts : List (List UInt8)) (entry : ReassemblyEntry) : Prop where
  slots : SlotsOf entry.chunks parts
  received : entry.received = entry.chunks.reduceOption.length
  received_lt : entry.received < parts.length

theorem Holds.missing {parts : List (List UInt8)} {entry : ReassemblyEntry} (h : Holds parts entry) :
    ∃ j < parts.length, ¬entry.Filled j := by
  by_contra hall
  push Not at hall
  have hsome : ∀ slot ∈ entry.chunks, slot.isSome = true := by
    intro slot hslot
    obtain ⟨j, hj, rfl⟩ := List.getElem_of_mem hslot
    obtain ⟨part, hpart⟩ := hall j (h.slots.1 ▸ hj)
    rw [List.getElem?_eq_getElem hj] at hpart
    rw [Option.some.inj hpart, Option.isSome_some]
  have hlen := List.reduceOption_length_eq_iff.2 hsome
  have hlt := h.received_lt
  rw [h.received, hlen, h.slots.1] at hlt
  omega

theorem holds_fresh {parts : List (List UInt8)} (hpos : 0 < parts.length)
    (h : parts.length ≤ geckoMaxFragmentChunks) (now : Nat) :
    Holds parts (.fresh (UInt8.ofNat parts.length) now) := by
  have hlen := toNat_ofNat_of_le_eight h
  refine ⟨?_, ?_, hpos⟩
  · rw [ReassemblyEntry.fresh, hlen]
    exact .replicate parts
  · simp [ReassemblyEntry.fresh, List.reduceOption]

theorem not_filled_fresh (totalChunks : UInt8) (now i : Nat) :
    ¬(ReassemblyEntry.fresh totalChunks now).Filled i := by
  rintro ⟨part, h⟩
  rw [ReassemblyEntry.fresh, List.getElem?_replicate] at h
  split_ifs at h
  cases h

theorem filled_store {entry : ReassemblyEntry} {index : Nat} (h : entry.chunks[index]? = some none)
    (payload : List UInt8) (i : Nat) :
    (entry.store index payload).Filled i ↔ entry.Filled i ∨ i = index := by
  unfold ReassemblyEntry.Filled ReassemblyEntry.store
  dsimp only
  rw [List.getElem?_set]
  by_cases hi : index = i
  · subst hi
    simp [(List.getElem?_eq_some_iff.1 h).1]
  · simp [hi, Ne.symm hi]

/-- **What the peer does with a fragment**, if the entry that it finds for the number holds fragments of
the same payload: it keeps it, or it has all of them and lets the payload out. -/
theorem reassemble_cases {gecko : GeckoState} {now : Nat} {order : Iteration UInt8 ReassemblyEntry}
    {messageId : UInt8} {parts : List (List UInt8)} {i : Nat} {part : List UInt8}
    (hle : parts.length ≤ geckoMaxFragmentChunks) (hpart : parts[i]? = some part)
    (hholds : ∀ entry, (makeRoom (gecko.live now) order messageId).get? messageId = some entry →
      Holds parts entry) :
    let entries := makeRoom (gecko.live now) order messageId
    let entry := (entries.get? messageId).getD (.fresh (UInt8.ofNat parts.length) now)
    let r := gecko.reassemble now order ⟨messageId, UInt8.ofNat i, UInt8.ofNat parts.length⟩ part
    (∃ entry', r = (.ok none, { gecko with entries := entries.insert messageId entry' }) ∧
        Holds parts entry' ∧ entry'.deadline = entry.deadline ∧
        ∀ j, entry'.Filled j ↔ entry.Filled j ∨ j = i) ∨
      (∀ j < parts.length, entry.Filled j ∨ j = i) ∧
        r = (if 65535 < parts.flatten.length then
            .error (invalidData "gecko reassembled datagram exceeds 65535 bytes")
          else .ok (some parts.flatten), { gecko with entries := entries.erase messageId }) := by
  intro entries entry r
  have hi := (List.getElem?_eq_some_iff.1 hpart).1
  have hindex := toNat_ofNat_of_le_eight (hi.le.trans hle)
  have hcount := toNat_ofNat_of_le_eight hle
  have hentry : Holds parts entry := by
    cases hfound : entries.get? messageId with
    | none =>
      have hfresh : entry = .fresh (UInt8.ofNat parts.length) now := by
        simp only [entry, hfound, Option.getD_none]
      rw [hfresh]
      exact holds_fresh (by omega) hle now
    | some found =>
      have hsome : entry = found := by
        simp only [entry, hfound, Option.getD_some]
      rw [hsome]
      exact hholds found hfound
  have hslot : i < entry.chunks.length := hentry.slots.1 ▸ hi
  have hr : r = gecko.reassemble now order ⟨messageId, UInt8.ofNat i, UInt8.ofNat parts.length⟩ part := rfl
  unfold GeckoState.reassemble at hr
  dsimp only at hr
  rw [hcount, hindex] at hr
  change r = (if entry.chunks.length ≠ parts.length then _ else _) at hr
  rw [if_neg (not_not_intro hentry.slots.1)] at hr
  change r = (match entry.chunks[i]? with | some none => _ | _ => _) at hr
  rw [List.getElem?_eq_getElem hslot] at hr
  cases hcase : entry.chunks[i] with
  | some old =>
    left
    rw [hcase] at hr
    refine ⟨entry, hr, hentry, rfl, fun j => ⟨.inl, fun h => h.elim id ?_⟩⟩
    rintro rfl
    exact ⟨old, by rw [List.getElem?_eq_getElem hslot, hcase]⟩
  | none =>
    rw [hcase] at hr
    have hempty : entry.chunks[i]? = some none := by rw [List.getElem?_eq_getElem hslot, hcase]
    set stored := entry.store i part with hstored
    change r = if stored.received ≠ stored.chunks.length then _ else _ at hr
    have hslots : SlotsOf stored.chunks parts := hentry.slots.set hpart
    have hreceived : stored.received = stored.chunks.reduceOption.length := by
      rw [hstored, ReassemblyEntry.store]
      dsimp only
      rw [length_reduceOption_set hempty, hentry.received]
    have hle' := List.reduceOption_length_le stored.chunks
    by_cases hfull : stored.received = stored.chunks.length
    · right
      have hall := eq_map_some_of_length (hreceived.symm.trans hfull)
      have hparts : stored.chunks.reduceOption = parts := SlotsOf.eq_of_full (hall ▸ hslots)
      rw [hparts] at hall
      refine ⟨fun j hj => (filled_store hempty part j).1 ⟨parts[j], ?_⟩, ?_⟩
      · rw [← hstored, hall, List.getElem?_map, List.getElem?_eq_getElem hj, Option.map_some]
      · rw [hr, if_neg (not_not_intro hfull), hparts]
        split_ifs <;> rfl
    · left
      rw [if_pos hfull] at hr
      refine ⟨stored, hr, ⟨hslots, hreceived, ?_⟩, rfl, filled_store hempty part⟩
      have hlen := hslots.1
      omega

end Model

end WutherCore.Finalmask
