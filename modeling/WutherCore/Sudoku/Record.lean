import WutherCore.Data.Buffer
import WutherCore.Data.Moves
import WutherCore.Young.Wire

/-!
# Sudoku: records

`RecordCryptor` of `sudoku/record.rs` cuts what is written into frames, each sealed under the key of an
epoch with the epoch and a sequence number as its nonce.  After every 32 MiB the epoch is the next one
and the sequence starts anew at a random number.

The ciphers and the MAC are parameters, `Ciphers`, with the laws `Ciphers.Lawful`.

* `sealFrames`, `decodeRecord`: `seal_frames`, and one round of `open_frames`.
* `Sealing`: the epoch is a function of the number of bytes sealed, until it wraps.
* `sealChunks_framed`: the frames of one call are read back, if none of them is sealed in an epoch that
  has wrapped, and the first one stands where the receiver expects it.
-/

namespace WutherCore.Sudoku

open WutherCore.Text WutherCore.Data
open WutherCore.Young (u16Bytes u32Bytes u32OfBytes u64Bytes u64OfBytes ascii)

/-- `RECORD_HEADER_SIZE`. -/
def recordHeaderSize : Nat := 12

/-- `MAX_FRAME_BODY_SIZE`. -/
def maxFrameBodySize : Nat := 65535

/-- `KEY_UPDATE_AFTER_BYTES`. -/
def keyUpdateAfterBytes : Nat := 32 * 2 ^ 20

/-- `AeadMethod`. -/
inductive AeadMethod
  | aes128Gcm
  | chacha20Poly1305
  | none
  deriving DecidableEq, Repr

/-- `AeadMethod::name`. -/
def AeadMethod.name : AeadMethod → String
  | aes128Gcm => "aes-128-gcm"
  | chacha20Poly1305 => "chacha20-poly1305"
  | none => "none"

/-- The ciphers of the crates `aes-gcm` and `chacha20poly1305`, and the MAC of `hmac` and `sha2`. -/
structure Ciphers where
  /-- `Hmac<Sha256>`, of a key and a message. -/
  hmacSha256 : List UInt8 → List UInt8 → Young.Bytes 32
  /-- `encrypt`, of a key, a nonce, associated data and a plaintext. -/
  encrypt : AeadMethod → List UInt8 → List UInt8 → List UInt8 → List UInt8 → List UInt8
  /-- `decrypt`, of a key, a nonce, associated data and a ciphertext. -/
  decrypt : AeadMethod → List UInt8 → List UInt8 → List UInt8 → List UInt8 → Option (List UInt8)

/-- A ciphertext is opened under its key, nonce and associated data, and is 16 bytes longer than its
plaintext. -/
structure Ciphers.Lawful (cr : Ciphers) : Prop where
  opens : ∀ method key nonce aad plain,
    cr.decrypt method key nonce aad (cr.encrypt method key nonce aad plain) = some plain
  length : ∀ method key nonce aad plain,
    (cr.encrypt method key nonce aad plain).length = plain.length + 16

/-- The errors of the record layer. -/
inductive RecordError
  | frameTooLarge
  | frameTooShort
  | replayedEpoch
  | outOfOrder
  | epochJump
  | openFailed
  deriving DecidableEq, Repr

/-- The texts of the errors.  The last one is that of `AES-128-GCM`; the other cipher has its own. -/
def RecordError.text : RecordError → String
  | frameTooLarge => "frame too large"
  | frameTooShort => "frame too short"
  | replayedEpoch => "replayed epoch"
  | outOfOrder => "out of order"
  | epochJump => "epoch jump too large"
  | openFailed => "open aes128"

section Model

variable (cr : Ciphers) (method : AeadMethod) (base : List UInt8)

/-- `derive_epoch_key`, cut to the length of the cipher's key by `AeadInst::new`. -/
def epochKey (epoch : UInt32) : List UInt8 :=
  let key := (cr.hmacSha256 base (ascii "sudoku-record:" ++ (ascii method.name ++ u32Bytes epoch))).1
  match method with
  | .aes128Gcm => key.take 16
  | _ => key

/-- `SendState`.  The epoch has wrapped long before `bytes` is out of the range of `i64`. -/
structure SendState where
  aead : Option (List UInt8) := none
  aeadEpoch : UInt32 := 0
  epoch : UInt32
  seq : UInt64
  bytes : Nat := 0
  epochUpdates : UInt32 := 0
  deriving DecidableEq

/-- `RecvState`, without the plaintext that has not been taken yet. -/
structure RecvState where
  aead : Option (List UInt8) := none
  aeadEpoch : UInt32 := 0
  epoch : UInt32 := 0
  seq : UInt64 := 0
  initialized : Bool := false
  deriving DecidableEq

/-- `max_plain`, with the overhead of the ciphers; with `AeadMethod::None` nothing is framed. -/
def maxPlain : Nat := maxFrameBodySize - recordHeaderSize - 16

/-- The key for the epoch of the sender: kept, or derived anew. -/
def SendState.key (s : SendState) : List UInt8 :=
  match s.aead with
  | some key => if s.aeadEpoch = s.epoch then key else epochKey cr method base s.epoch
  | none => epochKey cr method base s.epoch

/-- The header of a frame, which is its nonce and its associated data. -/
def recordHeader (epoch : UInt32) (seq : UInt64) : List UInt8 := u32Bytes epoch ++ u64Bytes seq

/-- The threshold of the next update of the key. -/
def SendState.threshold (s : SendState) : Nat := keyUpdateAfterBytes * (s.epochUpdates.toNat + 1)

/-- One round of `seal_frames`: the frame of a chunk, and the state after it, with the sequence number
that is drawn if the key is updated. -/
def sealFrame (s : SendState) (chunk : List UInt8) (newSeq : UInt64) : List UInt8 × SendState :=
  let key := s.key cr method base
  let header := recordHeader s.epoch s.seq
  let body := header ++ cr.encrypt method key header header chunk
  let s := { s with
    aead := some key
    aeadEpoch := s.epoch
    seq := s.seq + 1
    bytes := s.bytes + chunk.length }
  let s := if s.threshold ≤ s.bytes then
      { s with epoch := s.epoch + 1, epochUpdates := s.epochUpdates + 1, seq := newSeq }
    else s
  (u16Bytes (UInt16.ofNat body.length) ++ body, s)

/-- The frames of chunks, one after another.  The draws of sequence numbers are numbered by chunks. -/
def sealChunks (draw : Nat → UInt64) : SendState → List (List UInt8) → List (List UInt8) × SendState
  | s, [] => ([], s)
  | s, chunk :: chunks =>
    let (frame, s) := sealFrame cr method base s chunk (draw chunks.length)
    let (frames, s) := sealChunks draw s chunks
    (frame :: frames, s)

/-- `RecordCryptor::seal_frames`.  No frame is too large. -/
def sealFrames (s : SendState) (draw : Nat → UInt64) (plaintext : List UInt8) : List UInt8 × SendState :=
  match method with
  | .none => (plaintext, s)
  | _ =>
    let (frames, s) := sealChunks cr method base draw s (chunks maxPlain plaintext)
    (frames.flatten, s)

/-- The position of a frame is checked against that of the last one. -/
def RecvState.check (r : RecvState) (epoch : UInt32) (seq : UInt64) : Except RecordError Unit :=
  if r.initialized then
    if epoch < r.epoch then .error .replayedEpoch
    else if epoch = r.epoch ∧ seq ≠ r.seq then .error .outOfOrder
    else if r.epoch < epoch ∧ 8 < epoch.toNat - r.epoch.toNat then .error .epochJump
    else .ok ()
  else .ok ()

/-- The key for the epoch of a frame: kept, or derived anew. -/
def RecvState.key (r : RecvState) (epoch : UInt32) : List UInt8 :=
  match r.aead with
  | some key => if r.aeadEpoch = epoch then key else epochKey cr method base epoch
  | none => epochKey cr method base epoch

/-- One round of `open_frames`: a frame, if all of it has arrived. -/
def decodeRecord : Decoder RecvState RecordError UInt8 (List UInt8) := fun r buf =>
  if buf.length < 2 then .ok none
  else
    let bodyLen := beAt 2 buf 0
    if bodyLen < recordHeaderSize then .error .frameTooShort
    else if buf.length < 2 + bodyLen then .ok none
    else
      let header := slice buf 2 14
      let epoch := u32OfBytes (header.take 4)
      let seq := u64OfBytes (header.drop 4)
      match r.check epoch seq with
      | .error e => .error e
      | .ok () =>
        let key := r.key cr method base epoch
        match cr.decrypt method key header header (slice buf 14 (2 + bodyLen)) with
        | none => .error .openFailed
        | some plain =>
          .ok (some (plain, 2 + bodyLen,
            { aead := some key, aeadEpoch := epoch, epoch := epoch, seq := seq + 1, initialized := true }))

/-- `open_frames` on the pieces of a stream: the plaintext, and the error that stopped it. -/
def received (pieces : List (List UInt8)) : Option (List UInt8 × Except RecordError Unit) :=
  match method with
  | .none => some (pieces.flatten, .ok ())
  | _ => (feedAll (decodeRecord cr method base) (.start {}) pieces).map fun (r, e) =>
      (r.delivered.flatten, e)

/-! ### The sender -/

/-- The key that is kept belongs to its epoch, and the epoch counts the spans of 32 MiB that were
sealed, as long as their number fits its type. -/
structure Sealing (first : UInt32) (s : SendState) : Prop where
  cached : ∀ key, s.aead = some key → key = epochKey cr method base s.aeadEpoch
  counted : s.bytes / keyUpdateAfterBytes < 2 ^ 32 →
    s.epochUpdates.toNat = s.bytes / keyUpdateAfterBytes ∧
      s.epoch.toNat = (first.toNat + s.bytes / keyUpdateAfterBytes) % 2 ^ 32

variable {cr method base} {first : UInt32} {s : SendState} {chunk : List UInt8}

theorem Sealing.start (epoch : UInt32) (seq : UInt64) :
    Sealing cr method base epoch { epoch := epoch, seq := seq } := by
  refine ⟨fun key hkey => absurd hkey (by simp), fun _ => ⟨by simp, ?_⟩⟩
  have hlt := epoch.toNat_lt
  simp only [Nat.zero_div, Nat.add_zero]
  omega

theorem Sealing.key_eq (h : Sealing cr method base first s) :
    s.key cr method base = epochKey cr method base s.epoch := by
  unfold SendState.key
  split
  · rename_i key hkey
    split_ifs with hepoch
    · rw [h.cached key hkey, hepoch]
    · rfl
  · rfl

@[simp] theorem sealFrame_bytes (newSeq : UInt64) : (sealFrame cr method base s chunk newSeq).2.bytes =
    s.bytes + chunk.length := by
  unfold sealFrame
  dsimp only
  split_ifs <;> rfl

theorem sealFrame_seq (newSeq : UInt64)
    (h : (sealFrame cr method base s chunk newSeq).2.epoch = s.epoch) :
    (sealFrame cr method base s chunk newSeq).2.seq = s.seq + 1 := by
  revert h
  unfold sealFrame
  dsimp only
  split_ifs
  · intro h
    -- an epoch is not its own successor
    have hnat := congrArg UInt32.toNat (show s.epoch + 1 = s.epoch from h)
    rw [UInt32.toNat_add, UInt32.toNat_one] at hnat
    have hlt := s.epoch.toNat_lt
    omega
  · exact fun _ => rfl

theorem Sealing.sealFrame (newSeq : UInt64) (h : Sealing cr method base first s)
    (hlen : chunk.length ≤ maxPlain) :
    Sealing cr method base first (sealFrame cr method base s chunk newSeq).2 := by
  have hkey := h.key_eq
  have hcounted := h.counted
  unfold keyUpdateAfterBytes at hcounted
  unfold maxPlain maxFrameBodySize recordHeaderSize at hlen
  unfold Sudoku.sealFrame SendState.threshold keyUpdateAfterBytes
  dsimp only
  split_ifs with hupdate
  · refine ⟨fun key hk => ?_, fun hsmall => ?_⟩
    · rw [← Option.some.inj hk, hkey]
    · dsimp only at hsmall ⊢
      unfold keyUpdateAfterBytes at hsmall ⊢
      obtain ⟨hupdates, hepoch⟩ := hcounted (by omega)
      rw [UInt32.toNat_add, UInt32.toNat_add, hupdates, hepoch]
      rw [hupdates] at hupdate
      simp only [UInt32.toNat_one]
      omega
  · refine ⟨fun key hk => ?_, fun hsmall => ?_⟩
    · rw [← Option.some.inj hk, hkey]
    · dsimp only at hsmall ⊢
      unfold keyUpdateAfterBytes at hsmall ⊢
      obtain ⟨hupdates, hepoch⟩ := hcounted (by omega)
      rw [hupdates] at hupdate
      rw [hupdates, hepoch]
      omega

theorem Sealing.epoch_eq (h : Sealing cr method base first s)
    (hfits : first.toNat + s.bytes / keyUpdateAfterBytes < 2 ^ 32) :
    s.epoch.toNat = first.toNat + s.bytes / keyUpdateAfterBytes := by
  rw [(h.counted (by omega)).2, Nat.mod_eq_of_lt hfits]

theorem Sealing.sealChunks (draw : Nat → UInt64) {cs : List (List UInt8)}
    (h : Sealing cr method base first s) (hcs : ∀ c ∈ cs, c.length ≤ maxPlain) :
    Sealing cr method base first (sealChunks cr method base draw s cs).2 ∧
      (sealChunks cr method base draw s cs).2.bytes = s.bytes + cs.flatten.length := by
  induction cs generalizing s with
  | nil => exact ⟨h, rfl⟩
  | cons c cs ih =>
    rw [List.forall_mem_cons] at hcs
    obtain ⟨hsealing, hbytes⟩ := ih (h.sealFrame (draw cs.length) hcs.1) hcs.2
    refine ⟨hsealing, hbytes.trans ?_⟩
    rw [sealFrame_bytes, List.flatten_cons, List.length_append, Nat.add_assoc]

/-! ### One frame -/

/-- The key that the receiver keeps belongs to its epoch. -/
def RecvState.Cached (cr : Ciphers) (method : AeadMethod) (base : List UInt8) (r : RecvState) : Prop :=
  ∀ key, r.aead = some key → key = epochKey cr method base r.aeadEpoch

theorem RecvState.Cached.key_eq {r : RecvState} (h : r.Cached cr method base) (epoch : UInt32) :
    r.key cr method base epoch = epochKey cr method base epoch := by
  unfold RecvState.key
  split
  · rename_i key hkey
    split_ifs with hepoch
    · rw [h key hkey, hepoch]
    · rfl
  · rfl

/-- The receiver after a frame of the sender. -/
def SendState.opened (cr : Ciphers) (method : AeadMethod) (base : List UInt8) (s : SendState) :
    RecvState where
  aead := some (epochKey cr method base s.epoch)
  aeadEpoch := s.epoch
  epoch := s.epoch
  seq := s.seq + 1
  initialized := true

theorem SendState.opened_cached (s : SendState) : (s.opened cr method base).Cached cr method base := by
  intro key hkey
  exact (Option.some.inj hkey).symm

/-- A frame that stands where the receiver expects it is opened. -/
theorem sealFrame_frame (newSeq : UInt64) (hcr : cr.Lawful) (h : Sealing cr method base first s)
    {r : RecvState}
    (hr : r.Cached cr method base) (hcheck : r.check s.epoch s.seq = .ok ())
    (hlen : chunk.length ≤ maxPlain) :
    Frame (decodeRecord cr method base) r (sealFrame cr method base s chunk newSeq).1 chunk
      (s.opened cr method base) := by
  set header := recordHeader s.epoch s.seq with hheader
  set cipher := cr.encrypt method (epochKey cr method base s.epoch) header header chunk with hcipher
  have hhlen : header.length = 12 := by simp [hheader, recordHeader]
  have hclen : cipher.length = chunk.length + 16 := hcr.length ..
  have hsmall : (header ++ cipher).length < 2 ^ 16 := by
    unfold maxPlain maxFrameBodySize recordHeaderSize at hlen
    rw [List.length_append]
    omega
  set frame := u16Bytes (UInt16.ofNat (header ++ cipher).length) ++ (header ++ cipher) with hframe
  have hfirst : (sealFrame cr method base s chunk newSeq).1 = frame := by
    unfold sealFrame
    dsimp only
    rw [h.key_eq]
  have htotal : frame.length = 2 + (header ++ cipher).length := by simp [hframe]
  have hbody : (header ++ cipher).length = chunk.length + 28 := by
    rw [List.length_append]
    omega
  have hlength : beAt 2 frame 0 = chunk.length + 28 := by
    rw [beAt, hframe, slice_append_left (by simp), slice_zero_length (by simp), u16Bytes,
      UInt16.toNat_ofNat_of_lt' hsmall, ofBytesBE_toBytesBE (by simpa using hsmall), hbody]
  have hrecordHeader : u32OfBytes (header.take 4) = s.epoch ∧ u64OfBytes (header.drop 4) = s.seq := by
    rw [hheader, recordHeader, List.take_left' (by simp), List.drop_left' (by simp)]
    exact ⟨Young.u32OfBytes_u32Bytes _, Young.u64OfBytes_u64Bytes _⟩
  rw [hfirst]
  refine ⟨?_, fun rest => ?_, fun p hp hne => ?_⟩
  · exact List.ne_nil_of_length_pos (by omega)
  · have hlength' : beAt 2 (frame ++ rest) 0 = chunk.length + 28 := by
      rw [beAt_append_left (by omega), hlength]
    have hslice : slice (frame ++ rest) 2 14 = header := by
      rw [slice_append_left (by omega), hframe]
      exact slice_middle (by simp) (by omega)
    have hslice' : slice (frame ++ rest) 14 (2 + (chunk.length + 28)) = cipher := by
      have hsplit : frame =
          (u16Bytes (UInt16.ofNat (header ++ cipher).length) ++ header) ++ (cipher ++ []) := by
        simp [hframe]
      rw [slice_append_left (by omega), hsplit]
      exact slice_middle (by simp [hhlen]) (by omega)
    have hopens : cr.decrypt method (epochKey cr method base s.epoch) header header cipher =
        some chunk := hcr.opens ..
    have hshort : ¬(frame ++ rest).length < 2 + (chunk.length + 28) := by
      rw [List.length_append]
      omega
    unfold decodeRecord recordHeaderSize
    dsimp only
    rw [if_neg (by omega), hlength', if_neg (by omega), if_neg hshort, hslice, hslice',
      hrecordHeader.1, hrecordHeader.2, hcheck, hr.key_eq, hopens, htotal, hbody]
    rfl
  · obtain ⟨rest, hrest⟩ := hp
    have hpos : 0 < rest.length := by
      refine List.length_pos_iff.2 fun hnil => hne ?_
      rw [← hrest, hnil, List.append_nil]
    have hsum : p.length + rest.length = frame.length := by
      rw [← hrest, List.length_append]
    unfold decodeRecord recordHeaderSize
    dsimp only
    split_ifs with hshort hbad
    · rfl
    · -- the length has arrived, and is that of the frame
      have hsame : beAt 2 p 0 = beAt 2 frame 0 := by rw [← hrest, beAt_append_left (by omega)]
      omega
    · rfl
    · have hsame : beAt 2 p 0 = beAt 2 frame 0 := by rw [← hrest, beAt_append_left (by omega)]
      omega

/-! ### The frames of a call -/

/-- The receiver `r` has opened a frame that was sealed when the count of bytes stood at `a` and that
took it to `b`; if the sender `s` has sealed nothing since, and is still in the epoch of that frame, the
receiver expects its next one. -/
structure After (first : UInt32) (a b : Nat) (s : SendState) (r : RecvState) : Prop where
  initialized : r.initialized = true
  epoch : r.epoch.toNat = first.toNat + a / keyUpdateAfterBytes
  size : a ≤ b ∧ b ≤ a + maxPlain
  le : b ≤ s.bytes
  next : s.bytes = b → s.epoch = r.epoch → s.seq = r.seq

/-- A sender that has sealed `bytes` may go on after the frame from `a` to `b`: it is the next one that
follows, or the epoch has moved on by eight at most. -/
def GoesOn (a b bytes : Nat) : Prop :=
  bytes = b ∨
    a / keyUpdateAfterBytes < bytes / keyUpdateAfterBytes ∧
      bytes / keyUpdateAfterBytes ≤ a / keyUpdateAfterBytes + 8

instance (a b bytes : Nat) : Decidable (GoesOn a b bytes) := inferInstanceAs (Decidable (_ ∨ _))

theorem After.check {r : RecvState} {a b : Nat} (hr : After first a b s r)
    (h : Sealing cr method base first s) (hon : GoesOn a b s.bytes)
    (hfits : first.toNat + s.bytes / keyUpdateAfterBytes < 2 ^ 32) :
    r.check s.epoch s.seq = .ok () := by
  have hepoch := h.epoch_eq hfits
  have hrepoch := hr.epoch
  have hsize := hr.size
  -- the epoch of the sender is at most eight ahead, and not behind
  have hrange : r.epoch.toNat ≤ s.epoch.toNat ∧ s.epoch.toNat ≤ r.epoch.toNat + 8 := by
    unfold GoesOn at hon
    unfold maxPlain maxFrameBodySize recordHeaderSize at hsize
    unfold keyUpdateAfterBytes at hon hepoch hrepoch
    omega
  have hsame : s.epoch = r.epoch → s.seq = r.seq := by
    intro heq
    rcases hon with hb | hahead
    · exact hr.next hb heq
    · rw [heq] at hepoch
      omega
  unfold RecvState.check
  rw [if_pos hr.initialized, if_neg (by rw [UInt32.lt_iff_toNat_lt]; omega),
    if_neg (fun hne => hne.2 (hsame hne.1)), if_neg (by omega)]

theorem sealFrame_after (newSeq : UInt64) (h : Sealing cr method base first s)
    (hlen : chunk.length ≤ maxPlain)
    (hfits : first.toNat + s.bytes / keyUpdateAfterBytes < 2 ^ 32) :
    After first s.bytes (s.bytes + chunk.length) (sealFrame cr method base s chunk newSeq).2
      (s.opened cr method base) where
  initialized := rfl
  epoch := h.epoch_eq hfits
  size := ⟨by omega, by omega⟩
  le := by rw [sealFrame_bytes]
  next := fun _ hepoch => sealFrame_seq newSeq hepoch

/-- The bytes of a call before its last frame. -/
def beforeLast (cs : List (List UInt8)) : Nat := cs.dropLast.flatten.length

/-- **What a call seals is read back**, if its first frame stands where the receiver expects it, and its
last one is sealed in an epoch that has not wrapped. -/
theorem sealChunks_framed (hcr : cr.Lawful) (draw : Nat → UInt64) {cs : List (List UInt8)}
    (hcs : ∀ c ∈ cs, c.length ≤ maxPlain) (hne : cs ≠ []) (h : Sealing cr method base first s)
    {r : RecvState} (hr : r.Cached cr method base) (hcheck : r.check s.epoch s.seq = .ok ())
    (hfits : first.toNat + (s.bytes + beforeLast cs) / keyUpdateAfterBytes < 2 ^ 32) :
    ∃ r', Framed (decodeRecord cr method base) r (sealChunks cr method base draw s cs).1 cs r' ∧
      r'.Cached cr method base ∧
      After first (s.bytes + beforeLast cs) (s.bytes + cs.flatten.length)
        (sealChunks cr method base draw s cs).2 r' := by
  induction cs generalizing s r with
  | nil => exact absurd rfl hne
  | cons c cs ih =>
    rw [List.forall_mem_cons] at hcs
    have hfirst : first.toNat + s.bytes / keyUpdateAfterBytes < 2 ^ 32 := by
      have hle := Nat.div_le_div_right (c := keyUpdateAfterBytes)
        (Nat.le_add_right s.bytes (beforeLast (c :: cs)))
      omega
    have hframe := sealFrame_frame (draw cs.length) hcr h hr hcheck hcs.1
    have hafter := sealFrame_after (draw cs.length) h hcs.1 hfirst
    cases cs with
    | nil =>
      refine ⟨s.opened cr method base, .cons hframe (.nil _), s.opened_cached, ?_⟩
      simpa [beforeLast, sealChunks] using hafter
    | cons c' cs =>
      have hsealing := h.sealFrame (draw (c' :: cs).length) hcs.1
      have hlast : s.bytes + beforeLast (c :: c' :: cs) =
          s.bytes + c.length + beforeLast (c' :: cs) := by
        simp [beforeLast, Nat.add_assoc]
      have hflat : s.bytes + (c :: c' :: cs).flatten.length =
          s.bytes + c.length + (c' :: cs).flatten.length := by
        simp [Nat.add_assoc]
      have hbytes : (sealFrame cr method base s c (draw (c' :: cs).length)).2.bytes =
          s.bytes + c.length := sealFrame_bytes _
      rw [hlast] at hfits
      have hmiddle : first.toNat + (s.bytes + c.length) / keyUpdateAfterBytes < 2 ^ 32 := by
        have hle := Nat.div_le_div_right (c := keyUpdateAfterBytes)
          (Nat.le_add_right (s.bytes + c.length) (beforeLast (c' :: cs)))
        omega
      have hcheck' := hafter.check hsealing (.inl hbytes) (by rwa [hbytes])
      obtain ⟨r', hframed, hcached, hafter'⟩ := ih hcs.2 (by simp) hsealing s.opened_cached hcheck'
        (by rwa [hbytes])
      rw [hbytes] at hafter'
      rw [hlast, hflat]
      exact ⟨r', .cons hframe hframed, hcached, hafter'⟩

end Model

end WutherCore.Sudoku
