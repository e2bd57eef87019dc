import Mathlib
import WutherCore.Data.Except
import WutherCore.Young.Wire

/-!
# Data frames of the Young protocol

The padded data stream of a flow: `encode_data_frames` cuts what the application writes into frames,
`decode_data_frame` takes one frame off a buffer, and both ends keep a sequence number and a cursor
into the padding table.

* `DataState`: sequence number and cursor, the cursor within its table.
* `encodeDataFrame_frame`: an encoded frame is a frame of the decoder, in the sense of `Data.Frame`.
* `dataStream_delivers`: whatever is written and however the bytes arrive, the receiver is where the
  sender was, and has delivered what was written up to there.

The receiving loop is the one of `deliver_tcp_data` and `deliver_client_tcp_data`, with an application
that takes every message.
-/

namespace WutherCore.Young

open WutherCore.Text WutherCore.Data

/-- `MAX_DATA_PAYLOAD_BYTES`. -/
def maxDataPayloadBytes : Nat := 32 * 1024

/-- `DATA_FRAME_HEADER_BYTES`. -/
def dataFrameHeaderBytes : Nat := 2 + 1 + 1 + 8 + 2 + 2

/-- `DataFrame`. -/
structure DataFrame where
  sequence : UInt64
  payload : List UInt8
  deriving DecidableEq, Repr

/-- The running sequence number and padding cursor of one end of a flow. -/
structure DataState (scheme : PaddingScheme) (direction : PaddingDirection) where
  sequence : UInt64
  cursor : Fin (scheme.entries direction).list.length
  deriving DecidableEq

/-- `padding_cursor_for_flow`. -/
def paddingCursorForFlow (scheme : PaddingScheme) (direction : PaddingDirection) (flowId : UInt64) :
    Fin (scheme.entries direction).list.length :=
  let frameSeed := match direction with
    | .clientToServer => flowId + 1
    | .serverToClient => flowId
  ⟨frameSeed.toNat % (scheme.entries direction).list.length,
    Nat.mod_lt _ (scheme.entries direction).nonempty⟩

variable {scheme : PaddingScheme} {direction : PaddingDirection}

namespace DataState

/-- The state of both ends when a flow is opened. -/
def start (scheme : PaddingScheme) (direction : PaddingDirection) (flowId : UInt64) :
    DataState scheme direction := ⟨0, paddingCursorForFlow scheme direction flowId⟩

/-- The padding length at the cursor. -/
def padding (s : DataState scheme direction) : UInt16 := (scheme.entries direction).list.get s.cursor

/-- The cursor moves on, and from the end of the table to its start. -/
def nextCursor (s : DataState scheme direction) : Fin (scheme.entries direction).list.length :=
  if h : s.cursor.1 + 1 = (scheme.entries direction).list.length then
    ⟨0, (scheme.entries direction).nonempty⟩
  else ⟨s.cursor.1 + 1, by omega⟩

/-- The state after a frame, where `checked_add(1)` gives a sequence number. -/
def next? (s : DataState scheme direction) : Option (DataState scheme direction) :=
  if s.sequence.toNat + 1 < 2 ^ 64 then some ⟨s.sequence + 1, s.nextCursor⟩ else none

theorem sequence_of_next? {s s' : DataState scheme direction} (h : s.next? = some s') :
    s'.sequence.toNat = s.sequence.toNat + 1 := by
  unfold next? at h
  split_ifs at h with hlt
  cases h
  rw [UInt64.toNat_add]
  exact Nat.mod_eq_of_lt hlt

end DataState

variable (p : Primitives) (sessionKey : SessionKey) (flowId : UInt64)

/-! ### The sender -/

/-- The fixed part of a frame. -/
def dataHeader (sequence : UInt64) (payloadLen paddingLen : UInt16) : List UInt8 :=
  ascii "YP" ++ ([version, 0] ++ (u64Bytes sequence ++ (u16Bytes payloadLen ++ u16Bytes paddingLen)))

/-- The padding of the frame that is sent in a state. -/
def dataPadding (s : DataState scheme direction) (paddingLen : Nat) : List UInt8 :=
  deterministicPadding p sessionKey direction.tcpPaddingDomain
    [u64Bytes flowId, u64Bytes s.sequence] paddingLen

/-- One round of `encode_data_frames`: the frame of a chunk, and the state after it. -/
def encodeDataFrame (s : DataState scheme direction) (chunk : List UInt8) :
    Except IoError (List UInt8 × DataState scheme direction) := do
  let payloadLen ← u16TryFrom chunk.length (invalidInput "Young data frame payload 超过 u16")
  let paddingLen ← u16TryFrom s.padding.toNat (invalidInput "Young data frame padding 超过 u16")
  let frame := dataHeader s.sequence payloadLen paddingLen ++
    (chunk ++ dataPadding p sessionKey flowId s s.padding.toNat)
  match s.next? with
  | none => .error (invalidInput "Young data frame sequence 已耗尽")
  | some s' => return (frame, s')

/-- The rounds of `encode_data_frames`, up to the first error. -/
def encodeChunks (s : DataState scheme direction) :
    List (List UInt8) → Except IoError (List (List UInt8) × DataState scheme direction)
  | [] => return ([], s)
  | chunk :: rest => do
    let (frame, s') ← encodeDataFrame p sessionKey flowId s chunk
    let (frames, t) ← encodeChunks s' rest
    return (frame :: frames, t)

/-- `encode_data_frames`: its result, and the state that it leaves in `sequence` and
`padding_cursor`. -/
def encodeDataFrames (s : DataState scheme direction) (payload : List UInt8) :
    Except IoError (List (List UInt8)) × DataState scheme direction :=
  if payload.isEmpty then (.ok [], s)
  else
    match encodeChunks p sessionKey flowId s (chunks maxDataPayloadBytes payload) with
    | .error e => (.error e, s)
    | .ok (frames, t) => (.ok frames, t)

/-! ### The receiver -/

/-- `decode_data_frame`: the frame with its length, and the state that it leaves in
`expected_sequence` and `padding_cursor`; these are unchanged without a frame. -/
def decodeDataFrame (s : DataState scheme direction) (input : List UInt8) :
    Except IoError (Option (DataFrame × Nat × DataState scheme direction)) :=
  if input.length < dataFrameHeaderBytes then .ok none
  else if slice input 0 2 ≠ ascii "YP" ∨ input[2]? ≠ some version ∨ input[3]? ≠ some 0 then
    .error (invalidData "Young data frame header 无效")
  else
    let sequence := u64OfBytes (slice input 4 12)
    let payloadLen := (u16OfBytes (slice input 12 14)).toNat
    let paddingLen := (u16OfBytes (slice input 14 16)).toNat
    if sequence ≠ s.sequence then .error (invalidData "Young data frame sequence 不连续")
    else if payloadLen = 0 ∨ maxDataPayloadBytes < payloadLen then
      .error (invalidData "Young data frame payload 长度无效")
    else if paddingLen ≠ s.padding.toNat then
      .error (invalidData "Young data frame padding 与协商 scheme 不一致")
    else
      -- `checked_add` on lengths of two bytes always gives a sum
      let frameLen := dataFrameHeaderBytes + payloadLen + paddingLen
      if input.length < frameLen then .ok none
      else do
        verifyDeterministicPadding p sessionKey direction.tcpPaddingDomain
          [u64Bytes flowId, u64Bytes sequence]
          (slice input (dataFrameHeaderBytes + payloadLen) frameLen)
        let payload := slice input dataFrameHeaderBytes (dataFrameHeaderBytes + payloadLen)
        match s.next? with
        | none => .error (invalidData "Young data frame sequence 已耗尽")
        | some s' => return some (⟨sequence, payload⟩, frameLen, s')

/-! ### One frame -/

theorem dataHeader_length (sequence : UInt64) (payloadLen paddingLen : UInt16) :
    (dataHeader sequence payloadLen paddingLen).length = dataFrameHeaderBytes := by
  simp [dataHeader, ascii, dataFrameHeaderBytes]

section Header

variable (sequence : UInt64) (payloadLen paddingLen : UInt16) (body : List UInt8)

theorem slice_dataHeader_magic :
    slice (dataHeader sequence payloadLen paddingLen ++ body) 0 2 = ascii "YP" := by
  rw [dataHeader, List.append_assoc, slice_append_left (by simp [ascii])]
  exact slice_zero_length (by simp [ascii])

theorem slice_dataHeader_sequence :
    slice (dataHeader sequence payloadLen paddingLen ++ body) 4 12 = u64Bytes sequence := by
  have h : dataHeader sequence payloadLen paddingLen ++ body = (ascii "YP" ++ [version, 0]) ++
      (u64Bytes sequence ++ (u16Bytes payloadLen ++ u16Bytes paddingLen ++ body)) := by
    simp [dataHeader]
  rw [h]
  exact slice_middle (by simp [ascii]) (by simp)

theorem slice_dataHeader_payloadLen :
    slice (dataHeader sequence payloadLen paddingLen ++ body) 12 14 = u16Bytes payloadLen := by
  have h : dataHeader sequence payloadLen paddingLen ++ body =
      (ascii "YP" ++ [version, 0] ++ u64Bytes sequence) ++
        (u16Bytes payloadLen ++ (u16Bytes paddingLen ++ body)) := by
    simp [dataHeader]
  rw [h]
  exact slice_middle (by simp [ascii]) (by simp)

theorem slice_dataHeader_paddingLen :
    slice (dataHeader sequence payloadLen paddingLen ++ body) 14 16 = u16Bytes paddingLen := by
  have h : dataHeader sequence payloadLen paddingLen ++ body =
      (ascii "YP" ++ [version, 0] ++ u64Bytes sequence ++ u16Bytes payloadLen) ++
        (u16Bytes paddingLen ++ body) := by
    simp [dataHeader]
  rw [h]
  exact slice_middle (by simp [ascii]) (by simp)

theorem dataHeader_version :
    (dataHeader sequence payloadLen paddingLen ++ body)[2]? = some version ∧
      (dataHeader sequence payloadLen paddingLen ++ body)[3]? = some 0 := by
  simp [dataHeader, ascii]

end Header

/-- What the decoder does behind a header that it expects. -/
theorem decodeDataFrame_header (s : DataState scheme direction) {payloadLen : UInt16}
    (hpos : 0 < payloadLen.toNat) (hmax : payloadLen.toNat ≤ maxDataPayloadBytes)
    (body : List UInt8) :
    decodeDataFrame p sessionKey flowId s (dataHeader s.sequence payloadLen s.padding ++ body) =
      if body.length < payloadLen.toNat + s.padding.toNat then .ok none
      else do
        verifyDeterministicPadding p sessionKey direction.tcpPaddingDomain
          [u64Bytes flowId, u64Bytes s.sequence]
          (slice body payloadLen.toNat (payloadLen.toNat + s.padding.toNat))
        match s.next? with
        | none => .error (invalidData "Young data frame sequence 已耗尽")
        | some s' => return some (⟨s.sequence, slice body 0 payloadLen.toNat⟩,
            dataFrameHeaderBytes + payloadLen.toNat + s.padding.toNat, s') := by
  have hlen := dataHeader_length s.sequence payloadLen s.padding
  have hbad : ¬(payloadLen.toNat = 0 ∨ maxDataPayloadBytes < payloadLen.toNat) := by omega
  have hshort : ¬(dataHeader s.sequence payloadLen s.padding ++ body).length
      < dataFrameHeaderBytes := by simp [hlen]
  have hcut : (dataHeader s.sequence payloadLen s.padding ++ body).length
      < dataFrameHeaderBytes + payloadLen.toNat + s.padding.toNat ↔
      body.length < payloadLen.toNat + s.padding.toNat := by
    rw [List.length_append, hlen]
    omega
  have hslice : ∀ i j, slice (dataHeader s.sequence payloadLen s.padding ++ body)
      (dataFrameHeaderBytes + i) (dataFrameHeaderBytes + j) = slice body i j := by
    intro i j
    rw [slice_append_right (by omega), hlen]
    simp
  have hpayload := hslice 0 payloadLen.toNat
  have hpadding := hslice payloadLen.toNat (payloadLen.toNat + s.padding.toNat)
  rw [Nat.add_zero] at hpayload
  rw [← Nat.add_assoc] at hpadding
  rw [decodeDataFrame, if_neg hshort, if_neg (by
    simp [slice_dataHeader_magic, dataHeader_version])]
  simp only [slice_dataHeader_sequence, slice_dataHeader_payloadLen, slice_dataHeader_paddingLen,
    u64OfBytes_u64Bytes, u16OfBytes_u16Bytes, ne_eq, not_true_eq_false, if_false, hbad, hcut,
    hpayload, hpadding]

theorem encodeDataFrame_eq (s : DataState scheme direction) {chunk : List UInt8}
    (hmax : chunk.length ≤ maxDataPayloadBytes) :
    encodeDataFrame p sessionKey flowId s chunk =
      match s.next? with
      | none => .error (invalidInput "Young data frame sequence 已耗尽")
      | some s' => .ok (dataHeader s.sequence (UInt16.ofNat chunk.length) s.padding ++
          (chunk ++ dataPadding p sessionKey flowId s s.padding.toNat), s') := by
  have hlen : chunk.length < 2 ^ 16 := lt_of_le_of_lt hmax (by decide)
  have hpad : s.padding.toNat < 2 ^ 16 := s.padding.toNat_lt
  rw [encodeDataFrame, u16TryFrom_eq_ok hlen, u16TryFrom_eq_ok hpad, UInt16.ofNat_toNat]
  rfl

/-- **An encoded frame is read whole, and never in part.** -/
theorem encodeDataFrame_frame {s s' : DataState scheme direction} {chunk frame : List UInt8}
    (hpos : 0 < chunk.length) (hmax : chunk.length ≤ maxDataPayloadBytes)
    (h : encodeDataFrame p sessionKey flowId s chunk = .ok (frame, s')) :
    Frame (decodeDataFrame p sessionKey flowId) s frame ⟨s.sequence, chunk⟩ s' := by
  rw [encodeDataFrame_eq p sessionKey flowId s hmax] at h
  cases hnext : s.next? with
  | none => simp [hnext] at h
  | some t =>
    simp only [hnext, Except.ok.injEq, Prod.mk.injEq] at h
    obtain ⟨rfl, rfl⟩ := h
    have hnat : (UInt16.ofNat chunk.length).toNat = chunk.length :=
      toNat_ofNat16 (lt_of_le_of_lt hmax (by decide))
    have hpos' : 0 < (UInt16.ofNat chunk.length).toNat := by omega
    have hheader := decodeDataFrame_header p sessionKey flowId s hpos' (by omega)
    have hlen := dataHeader_length s.sequence (UInt16.ofNat chunk.length) s.padding
    simp only [hnat, hnext] at hheader
    have hpadlen : (dataPadding p sessionKey flowId s s.padding.toNat).length = s.padding.toNat :=
      deterministicPadding_length ..
    refine ⟨?_, fun rest => ?_, fun q hq hne => ?_⟩
    · intro hnil
      have hzero := congrArg List.length hnil
      rw [List.length_append, hlen, dataFrameHeaderBytes, List.length_nil] at hzero
      omega
    · rw [List.append_assoc, List.append_assoc, hheader, if_neg (by simp [hpadlen])]
      rw [slice_middle rfl (by rw [hpadlen]), slice_append_left le_rfl, slice_zero_length rfl]
      simp only [dataPadding, verifyDeterministicPadding_padding]
      simp [hlen, Nat.add_assoc, bind, Except.bind, pure, Except.pure]
    · -- a cut within the header, or behind it
      rcases Nat.lt_or_ge q.length dataFrameHeaderBytes with hshort | hlong
      · rw [decodeDataFrame, if_pos hshort]
      · obtain ⟨rest, hrest⟩ := hq
        have hrest' : rest ≠ [] := fun h => hne (by simpa [h] using hrest)
        rcases List.append_eq_append_iff.1 hrest with ⟨a, hq, ha⟩ | ⟨c, rfl, hc⟩
        · have ha0 : a = [] := by
            have hl := congrArg List.length hq
            rw [List.length_append, hlen] at hl
            exact List.eq_nil_of_length_eq_zero (by omega)
          subst ha0
          rw [List.append_nil] at hq
          have hnone := hheader []
          rw [List.append_nil, hq] at hnone
          rw [hnone, if_pos (by simp; omega)]
        · have hl := congrArg List.length hc
          have hpos' := List.length_pos_iff.2 hrest'
          rw [hheader, if_pos]
          simp only [List.length_append, hpadlen] at hl
          omega

/-! ### Many frames -/

variable {p sessionKey flowId}

theorem encodeChunks_cons_eq_ok {s t : DataState scheme direction} {chunk : List UInt8}
    {cs frames : List (List UInt8)} :
    encodeChunks p sessionKey flowId s (chunk :: cs) = .ok (frames, t) ↔
      ∃ frame s' frames', encodeDataFrame p sessionKey flowId s chunk = .ok (frame, s') ∧
        encodeChunks p sessionKey flowId s' cs = .ok (frames', t) ∧ frames = frame :: frames' := by
  rw [encodeChunks]
  constructor
  · intro h
    obtain ⟨⟨frame, s'⟩, hframe, h⟩ := bind_eq_ok.1 h
    obtain ⟨⟨frames', t'⟩, hframes, h⟩ := bind_eq_ok.1 h
    cases h
    exact ⟨frame, s', frames', hframe, hframes, rfl⟩
  · rintro ⟨frame, s', frames', hframe, hframes, rfl⟩
    exact bind_eq_ok.2 ⟨_, hframe, bind_eq_ok.2 ⟨_, hframes, rfl⟩⟩

theorem encodeChunks_append {s s' t : DataState scheme direction} {cs ds fs gs : List (List UInt8)}
    (h : encodeChunks p sessionKey flowId s cs = .ok (fs, s'))
    (h' : encodeChunks p sessionKey flowId s' ds = .ok (gs, t)) :
    encodeChunks p sessionKey flowId s (cs ++ ds) = .ok (fs ++ gs, t) := by
  induction cs generalizing s fs with
  | nil =>
    cases h
    exact h'
  | cons c cs ih =>
    obtain ⟨frame, s₁, frames, hframe, hframes, rfl⟩ := encodeChunks_cons_eq_ok.1 h
    exact encodeChunks_cons_eq_ok.2 ⟨frame, s₁, frames ++ gs, hframe, ih hframes, rfl⟩

theorem encodeChunks_split {s t : DataState scheme direction} {cs done todo : List (List UInt8)}
    (h : encodeChunks p sessionKey flowId s cs = .ok (done ++ todo, t)) :
    ∃ s' cs₁ cs₂, cs = cs₁ ++ cs₂ ∧ encodeChunks p sessionKey flowId s cs₁ = .ok (done, s') ∧
      encodeChunks p sessionKey flowId s' cs₂ = .ok (todo, t) := by
  induction done generalizing s cs with
  | nil => exact ⟨s, [], cs, rfl, rfl, h⟩
  | cons frame done ih =>
    cases cs with
    | nil => cases h
    | cons c cs =>
      obtain ⟨frame', s₁, frames', hframe, hframes, heq⟩ := encodeChunks_cons_eq_ok.1 h
      obtain ⟨rfl, rfl⟩ := List.cons.inj heq
      obtain ⟨s', cs₁, cs₂, rfl, h₁, h₂⟩ := ih hframes
      exact ⟨s', c :: cs₁, cs₂, rfl, encodeChunks_cons_eq_ok.2 ⟨_, _, _, hframe, h₁, rfl⟩, h₂⟩

/-- Chunks of a frame's size. -/
def FrameSized (cs : List (List UInt8)) : Prop :=
  ∀ c ∈ cs, 0 < c.length ∧ c.length ≤ maxDataPayloadBytes

theorem frameSized_chunks (payload : List UInt8) : FrameSized (chunks maxDataPayloadBytes payload) :=
  fun _ hc => length_of_mem_chunks (by decide) hc

theorem encodeChunks_framed {s t : DataState scheme direction} {cs frames : List (List UInt8)}
    (hcs : FrameSized cs) (h : encodeChunks p sessionKey flowId s cs = .ok (frames, t)) :
    ∃ ms, Framed (decodeDataFrame p sessionKey flowId) s frames ms t ∧
      ms.map DataFrame.payload = cs := by
  induction cs generalizing s frames with
  | nil =>
    cases h
    exact ⟨[], .nil _, rfl⟩
  | cons c cs ih =>
    obtain ⟨hc, hcs⟩ := List.forall_mem_cons.1 hcs
    obtain ⟨frame, s', frames', hframe, hframes, rfl⟩ := encodeChunks_cons_eq_ok.1 h
    obtain ⟨ms, hms, rfl⟩ := ih hcs hframes
    have hf := encodeDataFrame_frame p sessionKey flowId hc.1 hc.2 hframe
    exact ⟨⟨s.sequence, c⟩ :: ms, .cons hf hms, rfl⟩

theorem encodeChunks_sequence {s t : DataState scheme direction} {cs frames : List (List UInt8)}
    (hcs : FrameSized cs) (h : encodeChunks p sessionKey flowId s cs = .ok (frames, t)) :
    t.sequence.toNat = s.sequence.toNat + cs.length := by
  induction cs generalizing s frames with
  | nil =>
    cases h
    rfl
  | cons c cs ih =>
    obtain ⟨hc, hcs⟩ := List.forall_mem_cons.1 hcs
    obtain ⟨frame, s', frames', hframe, hframes, rfl⟩ := encodeChunks_cons_eq_ok.1 h
    rw [encodeDataFrame_eq p sessionKey flowId s hc.2] at hframe
    cases hnext : s.next? with
    | none => simp [hnext] at hframe
    | some s₁ =>
      simp only [hnext, Except.ok.injEq, Prod.mk.injEq] at hframe
      obtain ⟨-, rfl⟩ := hframe
      rw [ih hcs hframes, DataState.sequence_of_next? hnext, List.length_cons]
      omega

/-- The encoder fails exactly where the sequence numbers run out. -/
theorem encodeChunks_isOk_iff {cs : List (List UInt8)} (hcs : FrameSized cs)
    (s : DataState scheme direction) :
    (∃ r, encodeChunks p sessionKey flowId s cs = .ok r) ↔
      s.sequence.toNat + cs.length < 2 ^ 64 := by
  induction cs generalizing s with
  | nil => simpa [encodeChunks, pure, Except.pure] using s.sequence.toNat_lt
  | cons c cs ih =>
    obtain ⟨hc, hcs⟩ := List.forall_mem_cons.1 hcs
    have hone := encodeDataFrame_eq p sessionKey flowId s hc.2
    rw [List.length_cons]
    cases hnext : s.next? with
    | none =>
      rw [hnext] at hone
      have hend : ¬s.sequence.toNat + 1 < 2 ^ 64 := by
        intro hlt
        rw [DataState.next?, if_pos hlt] at hnext
        cases hnext
      constructor
      · rintro ⟨⟨frames, t⟩, h⟩
        obtain ⟨frame, s', frames', hframe, -⟩ := encodeChunks_cons_eq_ok.1 h
        rw [hone] at hframe
        cases hframe
      · omega
    | some s' =>
      rw [hnext] at hone
      have hseq := DataState.sequence_of_next? hnext
      constructor
      · rintro ⟨⟨frames, t⟩, h⟩
        obtain ⟨frame, s₁, frames', hframe, hframes, -⟩ := encodeChunks_cons_eq_ok.1 h
        rw [hone] at hframe
        cases hframe
        have hlt := (ih hcs s').1 ⟨_, hframes⟩
        omega
      · intro hlt
        obtain ⟨⟨frames, t⟩, hframes⟩ := (ih hcs s').2 (by omega)
        exact ⟨_, encodeChunks_cons_eq_ok.2 ⟨_, s', frames, hone, hframes, rfl⟩⟩

/-! ### One write -/

variable (p sessionKey flowId)

theorem encodeDataFrames_error {s : DataState scheme direction} {payload : List UInt8} {e : IoError}
    (h : (encodeDataFrames p sessionKey flowId s payload).1 = .error e) :
    (encodeDataFrames p sessionKey flowId s payload).2 = s := by
  unfold encodeDataFrames at h ⊢
  split_ifs at h ⊢ with hempty
  cases hcs : encodeChunks p sessionKey flowId s (chunks maxDataPayloadBytes payload) with
  | error e => rfl
  | ok r => simp [hcs] at h

theorem encodeDataFrames_ok {s : DataState scheme direction} {payload : List UInt8}
    {frames : List (List UInt8)}
    (h : (encodeDataFrames p sessionKey flowId s payload).1 = .ok frames) :
    encodeChunks p sessionKey flowId s (chunks maxDataPayloadBytes payload) =
      .ok (frames, (encodeDataFrames p sessionKey flowId s payload).2) := by
  unfold encodeDataFrames at h ⊢
  split_ifs at h ⊢ with hempty
  · cases h
    rw [List.isEmpty_iff.1 hempty]
    rfl
  · cases hcs : encodeChunks p sessionKey flowId s (chunks maxDataPayloadBytes payload) with
    | error e => simp [hcs] at h
    | ok r =>
      simp only [hcs, Except.ok.injEq] at h
      rw [← h]

theorem encodeDataFrames_isOk_iff (s : DataState scheme direction) (payload : List UInt8) :
    (∃ frames, (encodeDataFrames p sessionKey flowId s payload).1 = .ok frames) ↔
      s.sequence.toNat + (chunks maxDataPayloadBytes payload).length < 2 ^ 64 := by
  rw [← encodeChunks_isOk_iff (frameSized_chunks payload) s]
  constructor
  · rintro ⟨frames, h⟩
    exact ⟨_, encodeDataFrames_ok p sessionKey flowId h⟩
  · rintro ⟨⟨frames, t⟩, h⟩
    refine ⟨frames, ?_⟩
    unfold encodeDataFrames
    split_ifs with hempty
    · rw [List.isEmpty_iff.1 hempty] at h
      cases h
      rfl
    · simp [h]

/-! ### A stream of writes -/

/-- What a sequence of writes has put on the wire: the frames, the bytes of the writes that were
encoded, and the state after them. -/
structure Sent (scheme : PaddingScheme) (direction : PaddingDirection) where
  frames : List (List UInt8)
  written : List UInt8
  state : DataState scheme direction

/-- The application writes one payload after another; a write that is refused sends nothing. -/
def writeAll (s : DataState scheme direction) : List (List UInt8) → Sent scheme direction
  | [] => ⟨[], [], s⟩
  | payload :: writes =>
    let rest := writeAll (encodeDataFrames p sessionKey flowId s payload).2 writes
    match (encodeDataFrames p sessionKey flowId s payload).1 with
    | .ok frames => ⟨frames ++ rest.frames, payload ++ rest.written, rest.state⟩
    | .error _ => rest

theorem writeAll_encodeChunks (writes : List (List UInt8)) (s : DataState scheme direction) :
    ∃ cs, FrameSized cs ∧ cs.flatten = (writeAll p sessionKey flowId s writes).written ∧
      encodeChunks p sessionKey flowId s cs = .ok ((writeAll p sessionKey flowId s writes).frames,
        (writeAll p sessionKey flowId s writes).state) := by
  induction writes generalizing s with
  | nil => exact ⟨[], by simp [FrameSized], rfl, rfl⟩
  | cons payload writes ih =>
    obtain ⟨cs, hcs, hflat, hrest⟩ := ih (encodeDataFrames p sessionKey flowId s payload).2
    cases hcall : (encodeDataFrames p sessionKey flowId s payload).1 with
    | error e =>
      rw [encodeDataFrames_error p sessionKey flowId hcall] at hflat hrest
      refine ⟨cs, hcs, ?_, ?_⟩
      · simp [writeAll, hcall, encodeDataFrames_error p sessionKey flowId hcall, hflat]
      · simp [writeAll, hcall, encodeDataFrames_error p sessionKey flowId hcall, hrest]
    | ok frames =>
      refine ⟨chunks maxDataPayloadBytes payload ++ cs, ?_, ?_, ?_⟩
      · exact List.forall_mem_append.2 ⟨frameSized_chunks payload, hcs⟩
      · simp [writeAll, hcall, hflat, flatten_chunks (n := maxDataPayloadBytes) (by decide)]
      · simpa [writeAll, hcall] using
          encodeChunks_append (encodeDataFrames_ok p sessionKey flowId hcall) hrest

theorem writeAll_written (writes : List (List UInt8)) (s : DataState scheme direction)
    (h : s.sequence.toNat + (writes.map fun w => (chunks maxDataPayloadBytes w).length).sum < 2 ^ 64) :
    (writeAll p sessionKey flowId s writes).written = writes.flatten := by
  induction writes generalizing s with
  | nil => rfl
  | cons payload writes ih =>
    rw [List.map_cons, List.sum_cons] at h
    obtain ⟨frames, hcall⟩ := (encodeDataFrames_isOk_iff p sessionKey flowId s payload).2 (by omega)
    have hseq := encodeChunks_sequence (frameSized_chunks payload)
      (encodeDataFrames_ok p sessionKey flowId hcall)
    have hrest := ih (encodeDataFrames p sessionKey flowId s payload).2 (by omega)
    simp [writeAll, hcall, hrest]

/-- Where the receiver stands after some of the bytes that were sent: its sequence number and cursor
are those of the sender between the frames `done` and `todo`; it has delivered the chunks of the first,
and its buffer is an incomplete part of the next frame. -/
structure AtBoundary (s : DataState scheme direction) (sent : Sent scheme direction)
    (received : List UInt8)
    (r : Receiver (DataState scheme direction) UInt8 DataFrame) (done todo : List (List UInt8)) :
    Prop where
  frames : sent.frames = done ++ todo
  sender : ∃ before after, encodeChunks p sessionKey flowId s before = .ok (done, r.state) ∧
    encodeChunks p sessionKey flowId r.state after = .ok (todo, sent.state) ∧
    r.delivered.map DataFrame.payload = before ∧ (before ++ after).flatten = sent.written
  bytes : received = done.flatten ++ r.buffer
  buffer : Incomplete r.buffer todo

/-- **The data stream.** Whatever the application writes and however the bytes on the wire are cut
into pieces, the receiver decodes them without an error and stands at a frame boundary, with the
sender's sequence number and cursor there, having delivered the bytes of the frames before it; at the
end of the wire it has delivered what was written.  A write is refused exactly when the sequence
numbers run out, and then the sender's state is unchanged. -/
theorem dataStream_delivers (s : DataState scheme direction) (writes pieces : List (List UInt8))
    (rest : List UInt8)
    (h : pieces.flatten ++ rest = (writeAll p sessionKey flowId s writes).frames.flatten) :
    (∃ r done todo, feedAll (decodeDataFrame p sessionKey flowId) (.start s) pieces =
        some (r, .ok ()) ∧
      AtBoundary p sessionKey flowId s (writeAll p sessionKey flowId s writes) pieces.flatten r
        done todo ∧
      (rest = [] → r.state = (writeAll p sessionKey flowId s writes).state ∧ r.buffer = [] ∧
        (r.delivered.map DataFrame.payload).flatten =
          (writeAll p sessionKey flowId s writes).written)) ∧
    (s.sequence.toNat + (writes.map fun w => (chunks maxDataPayloadBytes w).length).sum < 2 ^ 64 →
      (writeAll p sessionKey flowId s writes).written = writes.flatten) ∧
    (∀ (s : DataState scheme direction) (payload : List UInt8),
      ((∃ e, (encodeDataFrames p sessionKey flowId s payload).1 = .error e) ↔
        2 ^ 64 ≤ s.sequence.toNat + (chunks maxDataPayloadBytes payload).length) ∧
      (∀ e, (encodeDataFrames p sessionKey flowId s payload).1 = .error e →
        (encodeDataFrames p sessionKey flowId s payload).2 = s)) := by
  refine ⟨?_, writeAll_written p sessionKey flowId writes s, fun s payload => ⟨?_, ?_⟩⟩
  · obtain ⟨cs, hcs, hflat, henc⟩ := writeAll_encodeChunks p sessionKey flowId writes s
    obtain ⟨ms, hframed, rfl⟩ := encodeChunks_framed hcs henc
    obtain ⟨r, hfeed, done, todo, ms₂, hframes, rfl, hdone, htodo, hbytes, hbuffer⟩ :=
      feedAll_synced (by simp [decodeDataFrame, dataFrameHeaderBytes]) hframed h
    have hboundary : AtBoundary p sessionKey flowId s (writeAll p sessionKey flowId s writes)
        pieces.flatten r done todo := by
      refine ⟨hframes, ?_, hbytes, hbuffer⟩
      rw [hframes] at henc
      obtain ⟨s', before, after, hsplit, hbefore, hafter⟩ := encodeChunks_split henc
      rw [hsplit] at hcs hflat
      obtain ⟨ms', hms', rfl⟩ := encodeChunks_framed (List.forall_mem_append.1 hcs).1 hbefore
      obtain ⟨rfl, rfl⟩ := hdone.unique hms'
      exact ⟨_, after, hbefore, hafter, rfl, hflat⟩
    refine ⟨r, done, todo, hfeed, hboundary, ?_⟩
    rintro rfl
    rw [List.append_nil, hframes, hbytes, List.flatten_append, List.append_cancel_left_eq] at h
    obtain rfl : todo = [] := eq_nil_of_incomplete (h ▸ hbuffer)
    obtain ⟨before, after, -, hafter, hbefore, hwritten⟩ := hboundary.sender
    cases after with
    | nil =>
      have hstate : r.state = (writeAll p sessionKey flowId s writes).state := by
        simpa [encodeChunks, pure, Except.pure] using hafter
      exact ⟨hstate, h, by rw [hbefore, ← hwritten, List.append_nil]⟩
    | cons c cs =>
      obtain ⟨_, _, _, -, -, hnil⟩ := encodeChunks_cons_eq_ok.1 hafter
      cases hnil
  · rw [← not_lt, ← encodeDataFrames_isOk_iff p sessionKey flowId s payload]
    cases (encodeDataFrames p sessionKey flowId s payload).1 <;> simp
  · intro e he
    exact encodeDataFrames_error p sessionKey flowId he

/-- A table of one entry, for frames with one byte of padding. -/
def onePadding : PaddingScheme where
  clientToServer := ⟨[1], by decide, by decide, by simp [maxPaddingBytes]⟩
  serverToClient := none
  same := by simp

/-- The key of 32 sevens. -/
def sevens : SessionKey := ⟨List.replicate 32 7, by simp⟩

theorem length_zeros : (List.replicate 32 (0 : UInt8)).length = 32 := by simp

/-- The byte that BLAKE3 gives for the padding of the first frame of flow 0 under the key `sevens`; no
HMAC is computed for data frames. -/
def firstPadding : Primitives where
  hmacSha256 := fun _ _ => ⟨List.replicate 32 0, length_zeros⟩
  blake3Xof := fun _ _ _ => 0xbb

/-- The letter `a`, in one frame that arrives in two pieces. -/
theorem dataStream_delivers_letter :
    ∃ r, feedAll (decodeDataFrame firstPadding sevens 0) (.start (.start onePadding .clientToServer 0))
        [[0x59, 0x50, 1], [0, 0, 0, 0, 0, 0, 0, 0, 0, 0, 1, 0, 1, 0x61, 0xbb]] = some (r, .ok ()) ∧
      (r.delivered.map DataFrame.payload).flatten = [0x61] := by
  have hwritten : (writeAll firstPadding sevens 0 (.start onePadding .clientToServer 0)
      [[0x61]]).written = [0x61] := by decide
  obtain ⟨⟨r, done, todo, hfeed, -, hend⟩, -⟩ := dataStream_delivers firstPadding sevens 0
    (.start onePadding .clientToServer 0) [[0x61]]
    [[0x59, 0x50, 1], [0, 0, 0, 0, 0, 0, 0, 0, 0, 0, 1, 0, 1, 0x61, 0xbb]] [] (by decide)
  exact ⟨r, hfeed, (hend rfl).2.2.trans hwritten⟩

end WutherCore.Young
