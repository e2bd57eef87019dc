import WutherCore.Data.Buffer
import WutherCore.Data.Except
import WutherCore.Young.FlowOpen

/-!
# AnyTLS: padding

A session of `anytls.rs` writes packets of frames.  A padding scheme tells the sizes of the records into
which the first packets are cut; what is missing to a size is filled up with `Waste` frames.

The protocol core, with the command numbers, the bytes of a frame and the parser of padding schemes, is
the crate `anytls`: a parameter, `Core`, of which `Core.Lawful` says what the session relies on.

* `Padded`: packets with `Waste` frames after each of them.
* `writePacket_eq`: what is written for a packet.
* `writeAll_padded`: whatever packets are written under whatever schemes, the receiver reads their frames
  in order, with only `Waste` frames in between.
-/

namespace WutherCore.Anytls

open WutherCore.Text WutherCore.Data
open WutherCore.Young (IoError invalidData invalidInput u16Bytes u32Bytes u32OfBytes)
open WutherCore.Ruleset.Srs (fromUtf8)

/-- `MAX_FRAME_DATA_LEN`. -/
def maxFrameDataLen : Nat := 65535

/-- `MAX_PADDING_SCHEME_LEN`. -/
def maxPaddingSchemeLen : Nat := 65535

/-- `HEADER_OVERHEAD_SIZE`. -/
def headerOverheadSize : Nat := 7

/-- `Command`. -/
inductive Command
  | waste
  | syn
  | psh
  | fin
  | settings
  | alert
  | updatePaddingScheme
  | synAck
  | heartRequest
  | heartResponse
  | serverSettings
  | unknown (value : UInt8)
  deriving DecidableEq, Repr

/-- `u8::from(command)`. -/
def Command.toByte : Command → UInt8
  | waste => 0
  | syn => 1
  | psh => 2
  | fin => 3
  | settings => 4
  | alert => 5
  | updatePaddingScheme => 6
  | synAck => 7
  | heartRequest => 8
  | heartResponse => 9
  | serverSettings => 10
  | unknown value => value

/-- The commands that have a number of their own. -/
def Command.Known : Command → Prop
  | unknown _ => False
  | _ => True

instance (c : Command) : Decidable c.Known := by
  cases c <;> (unfold Command.Known; infer_instance)

/-- `Frame`. -/
structure Frame where
  command : Command
  sid : UInt32
  data : List UInt8
  deriving DecidableEq

/-- The parts of the crate `anytls` that a session uses. -/
structure Core where
  /-- `Command::name`. -/
  commandName : Command → String
  /-- `Command::from`. -/
  commandFrom : UInt8 → Command
  /-- `Frame::with_data(command, sid, data).to_bytes()`. -/
  frameToBytes : Command → UInt32 → List UInt8 → List UInt8
  /-- `PaddingFactory`. -/
  PaddingFactory : Type
  /-- `PaddingFactory::new`. -/
  paddingFactoryNew : List UInt8 → Option PaddingFactory
  /-- `PaddingFactory::stop`. -/
  stop : PaddingFactory → UInt32
  /-- What the random generator draws. -/
  Choice : Type
  /-- `PaddingFactory::generate_record_payload_sizes`. -/
  generateRecordPayloadSizes : PaddingFactory → UInt32 → Choice → List Int
  /-- `CHECK_MARK`. -/
  checkMark : Int

/-! ### Padding schemes -/

/-- The records in the lines of a scheme for a packet. -/
def recordsFor (text : Str) (packet : UInt32) : List Str :=
  ((lines text).filterMap (splitOnce '=')).flatMap fun (key, value) =>
    if parseU32 key = some packet then value.splitOn ',' else []

/-- An endpoint of a range of sizes. -/
def validateEndpoint (endpoint : Str) : Except IoError Unit :=
  match parseU32 endpoint with
  | none => .error (invalidData "invalid AnyTLS padding record range")
  | some endpoint =>
    if endpoint = 0 ∨ maxFrameDataLen < endpoint.toNat then
      .error (invalidData s!"AnyTLS padding record size must be 1..={maxFrameDataLen}")
    else .ok ()

/-- A record of a scheme. -/
def validateRecord (record : Str) : Except IoError Unit :=
  if record = ['c'] then .ok ()
  else
    match splitOnce '-' record with
    | none => .ok ()
    | some (minimum, maximum) => do
      validateEndpoint minimum
      validateEndpoint maximum

/-- A line of a scheme, and the last `stop` value so far. -/
def validateLine (stop : Option UInt32) (line : Str) : Except IoError (Option UInt32) :=
  match splitOnce '=' line with
  | none => .ok stop
  | some (key, value) =>
    if key = "stop".toList then
      match parseU32 value with
      | none => .error (invalidData "invalid AnyTLS padding stop value")
      | some value => .ok (some value)
    else if (parseU32 key).isNone then .ok stop
    else do
      let _ ← (value.splitOn ',').mapM validateRecord
      .ok stop

/-- `validate_padding_scheme`. -/
def validatePaddingScheme (raw : List UInt8) : Except IoError Unit :=
  if raw = [] ∨ maxPaddingSchemeLen < raw.length then
    .error (invalidData s!"AnyTLS padding scheme length must be 1..={maxPaddingSchemeLen}")
  else
    match fromUtf8 raw with
    | none => .error (invalidData "AnyTLS padding scheme is not valid UTF-8")
    | some text => do
      let stop ← (lines text).foldlM validateLine none
      if stop = none then .error (invalidData "AnyTLS padding scheme has no stop value") else .ok ()

/-- What the session relies on in the crate: a frame is its command, its stream, the length of its data
and the data; commands keep their numbers; a size that is drawn lies within a range of the scheme. -/
structure Core.Lawful (core : Core) : Prop where
  frame : ∀ (c : Command) sid (data : List UInt8), data.length ≤ maxFrameDataLen →
    core.frameToBytes c sid data =
      c.toByte :: (u32Bytes sid ++ (u16Bytes (UInt16.ofNat data.length) ++ data))
  command : ∀ c : Command, c.Known → core.commandFrom c.toByte = c
  sizes : ∀ raw factory text, core.paddingFactoryNew raw = some factory → fromUtf8 raw = some text →
    ∀ packet choice, ∀ size ∈ core.generateRecordPayloadSizes factory packet choice,
      size = core.checkMark ∨ ∃ record ∈ recordsFor text packet, ∃ minimum maximum, ∃ a b : UInt32,
        splitOnce '-' record = some (minimum, maximum) ∧ parseU32 minimum = some a ∧
          parseU32 maximum = some b ∧ (min a.toNat b.toNat : Int) ≤ size ∧ size ≤ max a.toNat b.toNat

/-! ### Writing -/

section Write

variable (core : Core)

/-- `frame_bytes`. -/
def frameBytes (f : Frame) : Except IoError (List UInt8) :=
  if maxFrameDataLen < f.data.length then
    let name := core.commandName f.command
    .error (invalidInput s!"AnyTLS {name} frame payload exceeds 65535 bytes")
  else .ok (core.frameToBytes f.command f.sid f.data)

/-- A packet is made of frames by `append_frame`. -/
def packetBytes (frames : List Frame) : Except IoError (List UInt8) := do
  let parts ← frames.mapM (frameBytes core)
  .ok parts.flatten

/-- `encode_data_frames`. -/
def encodeDataFrames (sid : UInt32) (data : List UInt8) : Except IoError (List UInt8) :=
  packetBytes core ((chunks maxFrameDataLen data).map fun chunk => ⟨.psh, sid, chunk⟩)

/-- `waste_frame`. -/
def wasteFrame (paddingLength : Nat) : Except IoError (List UInt8) :=
  if maxFrameDataLen < paddingLength then
    .error (invalidData s!"AnyTLS waste-frame padding exceeds 65535 bytes: {paddingLength}")
  else frameBytes core ⟨.waste, 0, List.replicate paddingLength 0⟩

/-- What is written for a packet in records of certain sizes. -/
def writeRecords : List Int → List UInt8 → Except IoError (List UInt8)
  | [], payload => .ok payload
  | size :: sizes, payload =>
    if size = core.checkMark then
      if payload = [] then .ok payload else writeRecords sizes payload
    else if size < 0 then .error (invalidData "negative AnyTLS padding record size")
    else
      let recordSize := size.toNat
      let remaining := payload.length
      if recordSize < remaining then do
        let rest ← writeRecords sizes (payload.drop recordSize)
        .ok (payload.take recordSize ++ rest)
      else if 0 < remaining then
        let paddingLength := recordSize - (remaining + headerOverheadSize)
        if 0 < paddingLength then do
          let waste ← wasteFrame core paddingLength
          let rest ← writeRecords sizes []
          .ok (payload ++ waste ++ rest)
        else do
          let rest ← writeRecords sizes []
          .ok (payload ++ rest)
      else do
        let waste ← wasteFrame core recordSize
        let rest ← writeRecords sizes []
        .ok (waste ++ rest)

/-- `SessionWriter`. -/
structure SessionWriter where
  packetCounter : UInt32 := 0
  sendPadding : Bool := true
  deriving DecidableEq

/-- `packet_counter.saturating_add(1)`. -/
def SessionWriter.count (w : SessionWriter) : UInt32 :=
  if w.packetCounter.toNat + 1 < 2 ^ 32 then w.packetCounter + 1 else w.packetCounter

/-- `SessionWriter::write_packet`: the bytes that are written, under the padding scheme of the moment. -/
def writePacket (w : SessionWriter) (padding : core.PaddingFactory) (choice : core.Choice)
    (payload : List UInt8) : Except IoError (List UInt8 × SessionWriter) :=
  if w.sendPadding then
    let w := { w with packetCounter := w.count }
    if w.packetCounter < core.stop padding then do
      let written ← writeRecords core
        (core.generateRecordPayloadSizes padding w.packetCounter choice) payload
      .ok (written, w)
    else .ok (payload, { w with sendPadding := false })
  else .ok (payload, w)

end Write

/-! ### Sizes of accepted schemes -/

theorem exists_of_foldlM {α β ε : Type*} {f : β → α → Except ε β} {as : List α} {b b' : β}
    (h : as.foldlM f b = .ok b') {a : α} (ha : a ∈ as) : ∃ s s', f s a = .ok s' := by
  induction as generalizing b with
  | nil => cases ha
  | cons x as ih =>
    rw [List.foldlM_cons] at h
    obtain ⟨c, hc, h⟩ := bind_eq_ok.1 h
    rcases List.mem_cons.1 ha with rfl | ha
    · exact ⟨b, c, hc⟩
    · exact ih h ha

theorem validateEndpoint_eq_ok {endpoint : Str} {u : Unit} (h : validateEndpoint endpoint = .ok u)
    {a : UInt32} (ha : parseU32 endpoint = some a) : a.toNat ≤ maxFrameDataLen := by
  unfold validateEndpoint at h
  rw [ha] at h
  dsimp only at h
  split_ifs at h with hbound
  omega

theorem validateRecord_eq_ok {record minimum maximum : Str} {u : Unit}
    (h : validateRecord record = .ok u) (hsplit : splitOnce '-' record = some (minimum, maximum))
    {a b : UInt32} (ha : parseU32 minimum = some a) (hb : parseU32 maximum = some b) :
    a.toNat ≤ maxFrameDataLen ∧ b.toNat ≤ maxFrameDataLen := by
  unfold validateRecord at h
  rw [hsplit] at h
  split_ifs at h with hc
  · rw [hc] at hsplit
    cases hsplit
  · obtain ⟨u₁, h₁, h₂⟩ := bind_eq_ok.1 h
    exact ⟨validateEndpoint_eq_ok h₁ ha, validateEndpoint_eq_ok h₂ hb⟩

/-- The records of an accepted scheme have been checked. -/
theorem validatePaddingScheme_eq_ok {raw : List UInt8} {u : Unit} (h : validatePaddingScheme raw = .ok u) :
    ∃ text, fromUtf8 raw = some text ∧
      ∀ packet, ∀ record ∈ recordsFor text packet, validateRecord record = .ok () := by
  unfold validatePaddingScheme at h
  split_ifs at h with hlen
  cases htext : fromUtf8 raw with
  | none => simp [htext] at h
  | some text =>
    rw [htext] at h
    obtain ⟨stop, hstop, -⟩ := bind_eq_ok.1 h
    refine ⟨text, rfl, fun packet record hrecord => ?_⟩
    obtain ⟨⟨key, value⟩, hkv, hrecord⟩ := List.mem_flatMap.1 hrecord
    obtain ⟨line, hline, hsplit⟩ := List.mem_filterMap.1 hkv
    obtain ⟨s, s', hok⟩ := exists_of_foldlM hstop hline
    dsimp only at hrecord
    split_ifs at hrecord with hkey
    · unfold validateLine at hok
      rw [hsplit] at hok
      have hnum : (parseU32 key).isNone = false := by rw [hkey]; rfl
      have hnot : key ≠ "stop".toList := by
        rintro rfl
        exact absurd hkey (by rw [show parseU32 "stop".toList = none by decide]; simp)
      dsimp only at hok
      rw [if_neg hnot, hnum] at hok
      obtain ⟨us, hus, -⟩ := bind_eq_ok.1 hok
      obtain ⟨u, -, hu⟩ := exists_right_of_forall₂ (mapM_eq_ok.1 hus) hrecord
      exact hu
    · cases hrecord

/-- **A size that is drawn from an accepted scheme fits into a frame.** -/
theorem sizes_bounded {core : Core} (hcore : core.Lawful) {raw : List UInt8}
    {factory : core.PaddingFactory} {u : Unit} (hraw : validatePaddingScheme raw = .ok u)
    (hnew : core.paddingFactoryNew raw = some factory) (packet : UInt32) (choice : core.Choice) :
    ∀ size ∈ core.generateRecordPayloadSizes factory packet choice,
      size = core.checkMark ∨ 0 ≤ size ∧ size ≤ maxFrameDataLen := by
  intro size hsize
  obtain ⟨text, htext, hrecords⟩ := validatePaddingScheme_eq_ok hraw
  rcases hcore.sizes raw factory text hnew htext packet choice size hsize with hmark |
    ⟨record, hrecord, minimum, maximum, a, b, hsplit, ha, hb, hlow, hhigh⟩
  · exact .inl hmark
  · obtain ⟨hale, hble⟩ := validateRecord_eq_ok (hrecords packet record hrecord) hsplit ha hb
    right
    constructor
    · omega
    · omega

/-! ### What is written -/

theorem wasteFrame_eq (core : Core) {n : Nat} (hn : n ≤ maxFrameDataLen) :
    wasteFrame core n = frameBytes core ⟨.waste, 0, List.replicate n 0⟩ :=
  if_neg (by omega)

/-- **What is written for a packet**: the packet, and `Waste` frames after it. -/
theorem writeRecords_eq (core : Core) {sizes : List Int}
    (hsizes : ∀ size ∈ sizes, size = core.checkMark ∨ 0 ≤ size ∧ size ≤ maxFrameDataLen)
    (payload : List UInt8) :
    ∃ (waste : List Frame) (bytes : List UInt8), (∀ f ∈ waste, f.command = .waste) ∧
      packetBytes core waste = .ok bytes ∧ writeRecords core sizes payload = .ok (payload ++ bytes) := by
  induction sizes generalizing payload with
  | nil => exact ⟨[], [], by simp, rfl, by simp [writeRecords]⟩
  | cons size sizes ih =>
    rw [List.forall_mem_cons] at hsizes
    have ih := ih hsizes.2
    unfold writeRecords
    by_cases hmark : size = core.checkMark
    · rw [if_pos hmark]
      split_ifs with hempty
      · exact ⟨[], [], by simp, rfl, by simp⟩
      · exact ih payload
    rw [if_neg hmark]
    obtain ⟨hpos, hle⟩ := hsizes.1.resolve_left hmark
    rw [if_neg (by omega)]
    dsimp only
    obtain ⟨waste, bytes, hwaste, hbytes, hrest⟩ := ih []
    rw [List.nil_append] at hrest
    -- a frame of waste before the rest
    have hmore : ∀ n ≤ maxFrameDataLen, ∃ first, wasteFrame core n = .ok first ∧
        packetBytes core (⟨.waste, 0, List.replicate n 0⟩ :: waste) = .ok (first ++ bytes) := by
      intro n hn
      obtain ⟨parts, hparts, h⟩ := bind_eq_ok.1 hbytes
      cases h
      have hfirst : frameBytes core ⟨.waste, 0, List.replicate n 0⟩ =
          .ok (core.frameToBytes .waste 0 (List.replicate n 0)) := if_neg (by simp; omega)
      refine ⟨_, (wasteFrame_eq core hn).trans hfirst, ?_⟩
      rw [packetBytes, List.mapM_cons, hfirst, hparts]
      rfl
    have hall : ∀ n, ∀ f ∈ (⟨.waste, 0, List.replicate n 0⟩ : Frame) :: waste, f.command = .waste := by
      intro n f hf
      rcases List.mem_cons.1 hf with rfl | hf
      · rfl
      · exact hwaste f hf
    split_ifs with hlarge hsome hpad
    · obtain ⟨waste', bytes', hwaste', hbytes', hrest'⟩ := ih (payload.drop size.toNat)
      refine ⟨waste', bytes', hwaste', hbytes', ?_⟩
      rw [hrest']
      show Except.ok _ = _
      rw [← List.append_assoc, List.take_append_drop]
    · obtain ⟨first, hfirst, hpacket⟩ := hmore (size.toNat - (payload.length + headerOverheadSize)) (by omega)
      refine ⟨_, _, hall _, hpacket, ?_⟩
      rw [hfirst, hrest]
      show Except.ok _ = _
      rw [List.append_assoc]
    · refine ⟨waste, bytes, hwaste, hbytes, ?_⟩
      rw [hrest]
      rfl
    · obtain ⟨first, hfirst, hpacket⟩ := hmore size.toNat (by omega)
      refine ⟨_, _, hall _, hpacket, ?_⟩
      have hempty : payload = [] := List.eq_nil_of_length_eq_zero (by omega)
      rw [hfirst, hrest, hempty]
      rfl

theorem writePacket_eq (core : Core) (w : SessionWriter) {padding : core.PaddingFactory}
    {choice : core.Choice}
    (hsizes : ∀ packet, ∀ size ∈ core.generateRecordPayloadSizes padding packet choice,
      size = core.checkMark ∨ 0 ≤ size ∧ size ≤ maxFrameDataLen) (payload : List UInt8) :
    ∃ (waste : List Frame) (bytes : List UInt8) (w' : SessionWriter),
      (∀ f ∈ waste, f.command = .waste) ∧ packetBytes core waste = .ok bytes ∧
        writePacket core w padding choice payload = .ok (payload ++ bytes, w') := by
  unfold writePacket
  dsimp only
  split_ifs
  · obtain ⟨waste, bytes, hwaste, hbytes, hwrite⟩ := writeRecords_eq core (hsizes _) payload
    exact ⟨waste, bytes, _, hwaste, hbytes, by rw [hwrite]; rfl⟩
  · exact ⟨[], [], _, by simp, rfl, by rw [List.append_nil]⟩
  · exact ⟨[], [], _, by simp, rfl, by rw [List.append_nil]⟩

/-! ### Runs -/

/-- A packet of frames that is written, the padding scheme of the moment, which was accepted, and what
the random generator draws.  A session sends only commands that have a number. -/
structure Call (core : Core) where
  raw : List UInt8
  factory : core.PaddingFactory
  accepted : validatePaddingScheme raw = .ok ()
  parsed : core.paddingFactoryNew raw = some factory
  choice : core.Choice
  frames : List Frame
  known : ∀ f ∈ frames, f.command.Known
  packet : List UInt8
  encoded : packetBytes core frames = .ok packet

/-- Packets are written one after another. -/
def writeAll (core : Core) (w : SessionWriter) :
    List (Call core) → Except IoError (List UInt8 × SessionWriter)
  | [] => .ok ([], w)
  | call :: calls => do
    let (written, w) ← writePacket core w call.factory call.choice call.packet
    let (rest, w) ← writeAll core w calls
    .ok (written ++ rest, w)

/-- The frames of packets in order, with only `Waste` frames after each of them. -/
inductive Padded : List (List Frame) → List Frame → Prop
  | nil : Padded [] []
  | cons {packet waste frames : List Frame} {packets : List (List Frame)} :
      (∀ f ∈ waste, f.command = .waste) → Padded packets frames →
        Padded (packet :: packets) (packet ++ (waste ++ frames))

theorem Padded.filter_eq {packets : List (List Frame)} {frames : List Frame} (h : Padded packets frames) :
    (frames.filter fun f => f.command ≠ .waste) =
      packets.flatten.filter fun f => f.command ≠ .waste := by
  induction h with
  | nil => rfl
  | @cons packet waste frames packets hwaste _ ih =>
    have hnone : (waste.filter fun f => f.command ≠ .waste) = [] :=
      List.filter_eq_nil_iff.2 fun f hf => by simp [hwaste f hf]
    rw [List.flatten_cons, List.filter_append, List.filter_append, List.filter_append, hnone,
      List.nil_append, ih]

theorem packetBytes_append {core : Core} {as bs : List Frame} {a b : List UInt8}
    (ha : packetBytes core as = .ok a) (hb : packetBytes core bs = .ok b) :
    packetBytes core (as ++ bs) = .ok (a ++ b) := by
  obtain ⟨parts, hparts, ha⟩ := bind_eq_ok.1 ha
  obtain ⟨parts', hparts', hb⟩ := bind_eq_ok.1 hb
  cases ha
  cases hb
  have hall : (as ++ bs).mapM (frameBytes core) = .ok (parts ++ parts') :=
    mapM_eq_ok.2 (List.rel_append (mapM_eq_ok.1 hparts) (mapM_eq_ok.1 hparts'))
  rw [packetBytes, hall]
  show Except.ok _ = _
  rw [List.flatten_append]

theorem writeAll_eq {core : Core} (hcore : core.Lawful) (calls : List (Call core)) (w : SessionWriter) :
    ∃ (frames : List Frame) (bytes : List UInt8) (w' : SessionWriter),
      Padded (calls.map Call.frames) frames ∧ packetBytes core frames = .ok bytes ∧
        writeAll core w calls = .ok (bytes, w') := by
  induction calls generalizing w with
  | nil => exact ⟨[], [], w, .nil, rfl, rfl⟩
  | cons call calls ih =>
    obtain ⟨waste, bytes, w₁, hwaste, hbytes, hwrite⟩ := writePacket_eq core w
      (sizes_bounded hcore call.accepted call.parsed · call.choice) call.packet
    obtain ⟨frames, rest, w₂, hpadded, hrest, hall⟩ := ih w₁
    refine ⟨call.frames ++ (waste ++ frames), call.packet ++ (bytes ++ rest), w₂, .cons hwaste hpadded,
      packetBytes_append call.encoded (packetBytes_append hbytes hrest), ?_⟩
    rw [writeAll, hwrite]
    show (writeAll core w₁ calls >>= _) = _
    rw [hall]
    show Except.ok _ = _
    rw [List.append_assoc]

/-! ### Reading -/

/-- A frame as `recv_loop` reads it: seven bytes, and the data of which they tell the length. -/
def decodeFrame (core : Core) : Decoder Unit Empty UInt8 Frame := fun _ buffer =>
  if buffer.length < headerOverheadSize then .ok none
  else
    let length := beAt 2 buffer 5
    if buffer.length < headerOverheadSize + length then .ok none
    else
      .ok (some (⟨core.commandFrom (byteAt buffer 0), u32OfBytes (slice buffer 1 5),
        slice buffer headerOverheadSize (headerOverheadSize + length)⟩, headerOverheadSize + length, ()))

section Read

variable {core : Core} (hcore : core.Lawful) {f : Frame}

include hcore

theorem frame_of_frameBytes (hf : f.command.Known) {bytes : List UInt8}
    (h : frameBytes core f = .ok bytes) : Data.Frame (decodeFrame core) () bytes f () := by
  unfold frameBytes at h
  dsimp only at h
  split_ifs at h with hlen
  cases h
  rw [hcore.frame _ _ _ (by omega)]
  have hsmall : f.data.length < 2 ^ 16 := by
    unfold maxFrameDataLen at hlen
    omega
  set bytes := f.command.toByte ::
    (u32Bytes f.sid ++ (u16Bytes (UInt16.ofNat f.data.length) ++ f.data)) with hbytes
  have htotal : bytes.length = 7 + f.data.length := by
    simp [hbytes]
    omega
  have hlength : beAt 2 bytes 5 = f.data.length := by
    have hsplit : bytes = (f.command.toByte :: u32Bytes f.sid) ++
        (u16Bytes (UInt16.ofNat f.data.length) ++ f.data) := by simp [hbytes]
    rw [beAt, hsplit, slice_middle (by simp) (by simp), u16Bytes, UInt16.toNat_ofNat_of_lt' hsmall,
      ofBytesBE_toBytesBE (by simpa using hsmall)]
  refine ⟨by simp [hbytes], fun rest => ?_, fun p hp hne => ?_⟩
  · have hlength' : beAt 2 (bytes ++ rest) 5 = f.data.length := by
      rw [← hlength, beAt, beAt, slice_append_left (by omega)]
    have hcommand : byteAt (bytes ++ rest) 0 = f.command.toByte := rfl
    have hsid : slice (bytes ++ rest) 1 5 = u32Bytes f.sid := by
      rw [slice_append_left (by omega)]
      exact slice_middle (a := [f.command.toByte]) (b := u32Bytes f.sid) rfl (by simp)
    have hdata : slice (bytes ++ rest) 7 (7 + f.data.length) = f.data := by
      have hsplit : bytes = (f.command.toByte :: (u32Bytes f.sid ++
          u16Bytes (UInt16.ofNat f.data.length))) ++ (f.data ++ []) := by simp [hbytes]
      rw [slice_append_left (by omega), hsplit]
      exact slice_middle (by simp) rfl
    have hshort : ¬(bytes ++ rest).length < 7 + f.data.length := by
      rw [List.length_append]
      omega
    unfold decodeFrame headerOverheadSize
    dsimp only
    rw [hlength', if_neg (by omega), if_neg hshort, hcommand, hsid, hdata, hcore.command _ hf,
      Young.u32OfBytes_u32Bytes, htotal]
  · obtain ⟨rest, hrest⟩ := hp
    have hshort : p.length < 7 + f.data.length := by
      have hpos : 0 < rest.length := by
        refine List.length_pos_iff.2 fun hnil => hne ?_
        rw [← hrest, hnil, List.append_nil]
      have hsum := congrArg List.length hrest
      rw [List.length_append] at hsum
      omega
    unfold decodeFrame headerOverheadSize
    dsimp only
    split_ifs with hheader hcut
    · rfl
    · rfl
    · -- the header is there, and tells of more data
      exfalso
      have hsame : beAt 2 p 5 = f.data.length := by
        rw [← hlength, ← hrest, beAt, beAt, slice_append_left (by omega)]
      omega

theorem framed_of_packetBytes {frames : List Frame} (hknown : ∀ f ∈ frames, f.command.Known)
    {bytes : List UInt8} (h : packetBytes core frames = .ok bytes) :
    ∃ parts, parts.flatten = bytes ∧ Framed (decodeFrame core) () parts frames () := by
  obtain ⟨parts, hparts, h⟩ := bind_eq_ok.1 h
  cases h
  refine ⟨parts, rfl, ?_⟩
  have hrel := mapM_eq_ok.1 hparts
  clear hparts h
  induction hrel with
  | nil => exact .nil ()
  | cons hframe _ ih =>
    rw [List.forall_mem_cons] at hknown
    exact .cons (frame_of_frameBytes hcore hknown.1 hframe) (ih hknown.2)

end Read

theorem Padded.known {packets : List (List Frame)} {frames : List Frame} (h : Padded packets frames)
    (hknown : ∀ packet ∈ packets, ∀ f ∈ packet, f.command.Known) : ∀ f ∈ frames, f.command.Known := by
  induction h with
  | nil => simp
  | cons hwaste _ ih =>
    rw [List.forall_mem_cons] at hknown
    intro f hf
    rcases List.mem_append.1 hf with hf | hf
    · exact hknown.1 f hf
    · rcases List.mem_append.1 hf with hf | hf
      · rw [hwaste f hf]
        trivial
      · exact ih hknown.2 f hf

/-- **Padding is transparent.**  Whatever packets are written, under whatever accepted schemes and with
whatever lengths drawn, the writer does not fail, and however its bytes are cut into pieces, the
receiver reads the frames of the packets in order with only `Waste` frames after each packet. -/
theorem writeAll_padded (core : Core) (hcore : core.Lawful) (calls : List (Call core)) :
    ∃ (bytes : List UInt8) (w : SessionWriter) (frames : List Frame),
      writeAll core {} calls = .ok (bytes, w) ∧ Padded (calls.map Call.frames) frames ∧
      (frames.filter fun f => f.command ≠ .waste) =
        (calls.flatMap Call.frames).filter (fun f => f.command ≠ .waste) ∧
      ∀ pieces : List (List UInt8), pieces.flatten = bytes →
        feedAll (decodeFrame core) (.start ()) pieces = some (⟨(), [], frames⟩, .ok ()) := by
  obtain ⟨frames, bytes, w, hpadded, hbytes, hwrite⟩ := writeAll_eq hcore calls {}
  have hknown' : ∀ f ∈ frames, f.command.Known := by
    refine hpadded.known fun packet hpacket => ?_
    obtain ⟨call, -, rfl⟩ := List.mem_map.1 hpacket
    exact call.known
  obtain ⟨parts, rfl, hframed⟩ := framed_of_packetBytes hcore hknown' hbytes
  refine ⟨_, w, frames, hwrite, hpadded, ?_, fun pieces hpieces => ?_⟩
  · rw [hpadded.filter_eq, ← List.flatMap_def]
  · have hall : pieces.flatten ++ [] = parts.flatten := by rw [List.append_nil, hpieces]
    obtain ⟨r, hr, done, todo, ms₂, hsplit, hms, hdone, htodo, hreceived, hincomplete⟩ :=
      feedAll_synced (by simp [decodeFrame, headerOverheadSize]) hframed hall
    rw [hpieces, hsplit, List.flatten_append, List.append_cancel_left_eq] at hreceived
    obtain rfl : todo = [] := eq_nil_of_incomplete (hreceived ▸ hincomplete)
    cases htodo
    obtain ⟨state, buffer, delivered⟩ := r
    simp only [List.append_nil, List.flatten_nil] at hms hreceived
    rw [hr, hms, ← hreceived]

/-! ### A core -/

/-- A size within the range of a record, or the check mark. -/
def drawSize (choice : Nat) (record : Str) : Option Int :=
  if record = ['c'] then some (-1)
  else
    match splitOnce '-' record with
    | none => none
    | some (minimum, maximum) =>
      match parseU32 minimum, parseU32 maximum with
      | some a, some b =>
        let low := min a.toNat b.toNat
        some (low + choice % (max a.toNat b.toNat - low + 1) : Nat)
      | _, _ => none

/-- A core that keeps the text of a scheme and draws sizes by a number. -/
def textCore : Core where
  commandName := fun _ => ""
  commandFrom := fun b =>
    ([.waste, .syn, .psh, .fin, .settings, .alert, .updatePaddingScheme, .synAck, .heartRequest,
      .heartResponse, .serverSettings][b.toNat]?).getD (.unknown b)
  frameToBytes := fun c sid data =>
    c.toByte :: (u32Bytes sid ++ (u16Bytes (UInt16.ofNat data.length) ++ data))
  PaddingFactory := Str
  paddingFactoryNew := fromUtf8
  stop := fun text =>
    ((((lines text).filterMap (splitOnce '=')).filter fun e => e.1 = "stop".toList).getLast?.bind
      fun e => parseU32 e.2).getD 0
  Choice := Nat
  generateRecordPayloadSizes := fun text packet choice =>
    (recordsFor text packet).filterMap (drawSize choice)
  checkMark := -1

theorem textCore_lawful : textCore.Lawful where
  frame := fun _ _ _ _ => rfl
  command := by
    intro c hc
    cases c with
    | unknown value => exact absurd hc id
    | _ => rfl
  sizes := by
    intro raw factory text hnew htext packet choice size hsize
    obtain rfl : factory = text := Option.some.inj (hnew.symm.trans htext)
    obtain ⟨record, hrecord, hdraw⟩ := List.mem_filterMap.1 hsize
    unfold drawSize at hdraw
    split_ifs at hdraw with hmark
    · exact .inl (Option.some.inj hdraw).symm
    · right
      cases hsplit : splitOnce '-' record with
      | none => simp [hsplit] at hdraw
      | some ends =>
        obtain ⟨minimum, maximum⟩ := ends
        rw [hsplit] at hdraw
        dsimp only at hdraw
        cases ha : parseU32 minimum with
        | none => simp [ha] at hdraw
        | some a =>
          cases hb : parseU32 maximum with
          | none => simp [ha, hb] at hdraw
          | some b =>
            simp only [ha, hb, Option.some.injEq] at hdraw
            refine ⟨record, hrecord, minimum, maximum, a, b, hsplit, ha, hb, ?_, ?_⟩
            · omega
            · have hmod := Nat.mod_lt choice
                (show 0 < max a.toNat b.toNat - min a.toNat b.toNat + 1 by omega)
              omega

/-- A `Syn` frame is written under the scheme `stop=3\n1=30-30`. -/
def synCall : Call textCore where
  raw := Young.ascii "stop=3\n1=30-30"
  factory := "stop=3\n1=30-30".toList
  accepted := by decide +kernel
  parsed := show fromUtf8 (Young.ascii "stop=3\n1=30-30") = some "stop=3\n1=30-30".toList by
    decide +kernel
  choice := (0 : Nat)
  frames := [⟨.syn, 1, []⟩]
  known := by decide
  packet := [1, 0, 0, 0, 1, 0, 0]
  encoded := by decide +kernel

/-- A `Syn` frame twice: the record of the first is filled up. -/
theorem writeAll_padded_syn :
    ∃ (bytes : List UInt8) (w : SessionWriter) (frames : List Frame),
      writeAll textCore {} [synCall, synCall] = .ok (bytes, w) ∧
      (frames.filter fun f => f.command ≠ .waste) = [⟨.syn, 1, []⟩, ⟨.syn, 1, []⟩] ∧
      feedAll (decodeFrame textCore) (.start ()) [bytes] = some (⟨(), [], frames⟩, .ok ()) := by
  obtain ⟨bytes, w, frames, hwrite, -, hfilter, hread⟩ :=
    writeAll_padded textCore textCore_lawful [synCall, synCall]
  exact ⟨bytes, w, frames, hwrite, hfilter, hread [bytes] (by simp)⟩

example : (writeAll textCore {} [synCall]).toOption.map (fun r => r.1) =
    some ([1, 0, 0, 0, 1, 0, 0] ++ [0, 0, 0, 0, 0, 0, 16] ++ List.replicate 16 0) := by
  decide +kernel

end WutherCore.Anytls
