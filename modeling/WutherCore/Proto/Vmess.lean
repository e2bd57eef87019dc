import WutherCore.Proto.Chunks

/-!
# The chunk streams of VMess

A chunk of `vmess.rs` is a length field, a sealed payload and padding.  The options of a stream say
whether the length is masked with a SHAKE128 stream or sealed, and whether there is padding, whose length
comes from the same SHAKE128 stream as the mask or from one of its own.  The hash functions are
parameters, `VmessHashes`.

* `ChunkCryptor`: the state of one direction, with `new` and the operations on it.
* `beginWrite`: the packet of a chunk.
* `vmessProgress`: one round of the loop of `VmessStream::poll_read`.
* `beginWrite_framed`: a packet is read back by a receiver in the state of the sender.
-/

namespace WutherCore.Proto

open WutherCore.Data WutherCore.Text
open WutherCore.Young (Bytes ascii u16Bytes u16OfBytes u16Bytes_length u16OfBytes_u16Bytes toNat_ofNat16)

/-! ### Parameters -/

/-- `VmessSecurity`. -/
inductive VmessSecurity
  | aes128Gcm
  | chacha20Poly1305
  | none
  | auto
  deriving DecidableEq, Repr

/-- `VmessSecurity::tag_len`. -/
def VmessSecurity.tagLen : VmessSecurity → Nat
  | none | auto => 0
  | aes128Gcm | chacha20Poly1305 => 16

/-- `VMESS_OPTION_CHUNK_STREAM`. -/
def vmessOptionChunkStream : UInt8 := 0x01

/-- `VMESS_OPTION_CHUNK_MASKING`. -/
def vmessOptionChunkMasking : UInt8 := 0x04

/-- `VMESS_OPTION_GLOBAL_PADDING`. -/
def vmessOptionGlobalPadding : UInt8 := 0x08

/-- `VMESS_OPTION_AUTH_LEN`. -/
def vmessOptionAuthLen : UInt8 := 0x10

/-- The AEADs of `ChunkAead` and `LengthAead`. -/
inductive VmessAead
  | aes128
  | chacha
  deriving DecidableEq, Repr

/-- The crates `md5`, `sha2` and `sha3`. -/
structure VmessHashes where
  md5 : List UInt8 → List UInt8
  sha256 : List UInt8 → List UInt8
  /-- The output stream of SHAKE128 for a seed. -/
  shake128 : List UInt8 → Nat → UInt8

/-- The errors of a stream. -/
inductive VmessError
  | paddingRequiresMasking
  | authLenRequiresAead
  | chunkOpen (aead : VmessAead)
  | chunkSmallerThanOverhead
  | authLenBufSize
  | authLenOpen (aead : VmessAead)
  | authLenPlainSize
  | authenticatedLengthOverflow
  | plainLengthBufSize
  | totalSmallerThanPadding
  deriving DecidableEq, Repr

/-- The texts of the errors. -/
def VmessError.text : VmessError → String
  | paddingRequiresMasking => "VMess GLOBAL_PADDING requires CHUNK_MASKING"
  | authLenRequiresAead => "VMess AUTH_LEN requires an AEAD body security"
  | chunkOpen .aes128 => "chunk aes decrypt"
  | chunkOpen .chacha => "chunk chacha decrypt"
  | chunkSmallerThanOverhead => "VMess chunk is smaller than AEAD overhead"
  | authLenBufSize => "auth_len buf size"
  | authLenOpen .aes128 => "auth_len AES decrypt"
  | authLenOpen .chacha => "auth_len ChaCha decrypt"
  | authLenPlainSize => "auth_len plain size"
  | authenticatedLengthOverflow => "VMess authenticated chunk length overflow"
  | plainLengthBufSize => "plain length buf size"
  | totalSmallerThanPadding => "chunk total smaller than padding"

/-! ### The key derivation -/

/-- `make_hmac`, of a key and a hash function with blocks of 64 bytes. -/
def makeHmac (key : List UInt8) (hash : List UInt8 → List UInt8) (msg : List UInt8) : List UInt8 :=
  let key := if 64 < key.length then hash key else key
  let padded := key.take 64 ++ List.replicate (64 - key.length) 0
  hash (padded.map (· ^^^ 0x5c) ++ hash (padded.map (· ^^^ 0x36) ++ msg))

/-- `kdf_n`. -/
def kdfN (h : VmessHashes) (key : List UInt8) (paths : List (List UInt8)) (n : Nat) : List UInt8 :=
  let hash := paths.foldl (fun hash path => makeHmac path hash) (makeHmac (ascii "VMess AEAD KDF") h.sha256)
  (hash key).take n

/-- `chacha_key_from_16`. -/
def chachaKeyFrom16 (h : VmessHashes) (key : List UInt8) : List UInt8 :=
  h.md5 key ++ h.md5 (h.md5 key)

/-! ### Generators -/

/-- `Shaker`: a SHAKE128 stream, with the number of bytes that were read. -/
structure Shaker where
  seed : List UInt8
  read : Nat := 0
  deriving DecidableEq

/-- `Shaker::next_u16`. -/
def Shaker.nextU16 (h : VmessHashes) (g : Shaker) : UInt16 × Shaker :=
  (u16OfBytes [h.shake128 g.seed g.read, h.shake128 g.seed (g.read + 1)], { g with read := g.read + 2 })

/-! ### The cryptor -/

/-- `ChunkCryptor`.  An AEAD is kept with its key. -/
structure ChunkCryptor where
  aead : Option (VmessAead × List UInt8)
  ivBase : List UInt8
  authLenIvBase : List UInt8
  counter : UInt16 := 0
  sec : VmessSecurity
  chunkMasker : Option Shaker
  paddingGen : Option Shaker
  sharedMaskerAndPadding : Bool
  authLenAead : Option (VmessAead × List UInt8)
  authLenCounter : UInt16 := 0

section Model

variable (cr : Ciphers VmessAead) (h : VmessHashes)

/-- `ChunkCryptor::new`. -/
def ChunkCryptor.new (sec : VmessSecurity) (key iv : List UInt8) (options : UInt8)
    (authLenKeySeed authLenIv : List UInt8) : ChunkCryptor :=
  let aead := match sec with
    | .aes128Gcm => some (.aes128, key)
    | .chacha20Poly1305 => some (.chacha, chachaKeyFrom16 h key)
    | .none | .auto => none
  let usesAuthenticatedLength : Bool := options &&& vmessOptionAuthLen ≠ 0
  let usesMasking : Bool := options &&& vmessOptionChunkMasking ≠ 0
  let usesPadding : Bool := options &&& vmessOptionGlobalPadding ≠ 0
  let sharedMaskerAndPadding := usesPadding && usesMasking && !usesAuthenticatedLength
  let chunkMasker := if usesMasking && !usesAuthenticatedLength then some { seed := iv } else none
  let paddingGen := if usesPadding && !sharedMaskerAndPadding then some { seed := iv } else none
  let authLenAead :=
    if usesAuthenticatedLength then
      let authKey := kdfN h authLenKeySeed [ascii "auth_len"] 16
      match sec with
      | .aes128Gcm | .auto => some (.aes128, authKey)
      | .chacha20Poly1305 => some (.chacha, chachaKeyFrom16 h authKey)
      | .none => none
    else none
  { aead, ivBase := iv, authLenIvBase := authLenIv, sec, chunkMasker, paddingGen,
    sharedMaskerAndPadding, authLenAead }

/-- `next_body_nonce`. -/
def ChunkCryptor.nextBodyNonce (c : ChunkCryptor) : List UInt8 × ChunkCryptor :=
  (u16Bytes c.counter ++ slice c.ivBase 2 12, { c with counter := c.counter + 1 })

/-- `next_auth_len_nonce`. -/
def ChunkCryptor.nextAuthLenNonce (c : ChunkCryptor) : List UInt8 × ChunkCryptor :=
  (u16Bytes c.authLenCounter ++ slice c.authLenIvBase 2 12,
    { c with authLenCounter := c.authLenCounter + 1 })

/-- `next_padding_len`. -/
def ChunkCryptor.nextPaddingLen (c : ChunkCryptor) : Nat × ChunkCryptor :=
  if c.sharedMaskerAndPadding then
    match c.chunkMasker with
    | some g => (((g.nextU16 h).1 % 64).toNat, { c with chunkMasker := some (g.nextU16 h).2 })
    | none => (0, c)
  else
    match c.paddingGen with
    | some g => (((g.nextU16 h).1 % 64).toNat, { c with paddingGen := some (g.nextU16 h).2 })
    | none => (0, c)

/-- `mask_size_encode` and `mask_size_decode`, which have the same body. -/
def ChunkCryptor.maskSize (c : ChunkCryptor) (size : UInt16) : UInt16 × ChunkCryptor :=
  match c.chunkMasker with
  | some g => (size ^^^ (g.nextU16 h).1, { c with chunkMasker := some (g.nextU16 h).2 })
  | none => (size, c)

/-- `seal_payload`. -/
def ChunkCryptor.sealPayload (c : ChunkCryptor) (plaintext : List UInt8) : List UInt8 × ChunkCryptor :=
  let (nonce, c) := c.nextBodyNonce
  match c.aead with
  | some (aead, key) => (cr.encrypt aead key nonce plaintext, c)
  | none => (plaintext, c)

/-- `open_payload`. -/
def ChunkCryptor.openPayload (c : ChunkCryptor) (ciphertext : List UInt8) :
    Except VmessError (List UInt8) × ChunkCryptor :=
  let (nonce, c) := c.nextBodyNonce
  match c.aead with
  | some (aead, key) =>
    match cr.decrypt aead key nonce ciphertext with
    | some plaintext => (.ok plaintext, c)
    | none => (.error (.chunkOpen aead), c)
  | none => (.ok ciphertext, c)

/-- `encode_length_field`. -/
def ChunkCryptor.encodeLengthField (c : ChunkCryptor) (ctLen : UInt16) :
    Except VmessError (List UInt8) × ChunkCryptor :=
  match c.authLenAead with
  | some (aead, key) =>
    let (nonce, c) := c.nextAuthLenNonce
    if ctLen < 16 then (.error .chunkSmallerThanOverhead, c)
    else (.ok (cr.encrypt aead key nonce (u16Bytes (ctLen - 16))), c)
  | none =>
    let (masked, c) := c.maskSize h ctLen
    (.ok (u16Bytes masked), c)

/-- `decode_length_field`. -/
def ChunkCryptor.decodeLengthField (c : ChunkCryptor) (buf : List UInt8) :
    Except VmessError UInt16 × ChunkCryptor :=
  match c.authLenAead with
  | some (aead, key) =>
    if buf.length ≠ 18 then (.error .authLenBufSize, c)
    else
      let (nonce, c) := c.nextAuthLenNonce
      match cr.decrypt aead key nonce buf with
      | none => (.error (.authLenOpen aead), c)
      | some plaintext =>
        if plaintext.length ≠ 2 then (.error .authLenPlainSize, c)
        else if (u16OfBytes plaintext).toNat + 16 < 2 ^ 16 then (.ok (u16OfBytes plaintext + 16), c)
        else (.error .authenticatedLengthOverflow, c)
  | none =>
    if buf.length ≠ 2 then (.error .plainLengthBufSize, c)
    else
      let (size, c) := c.maskSize h (u16OfBytes buf)
      (.ok size, c)

/-- `length_field_size`. -/
def ChunkCryptor.lengthFieldSize (c : ChunkCryptor) : Nat := if c.authLenAead.isSome then 18 else 2

/-! ### Writing a chunk -/

/-- The part of the data that goes into the next chunk. -/
def ChunkCryptor.chunkOf (c : ChunkCryptor) (data : List UInt8) : List UInt8 :=
  data.take (payloadMax - c.sec.tagLen)

/-- The packet of a chunk: `poll_write` up to the point where it is put aside.  `fill` is the random
padding. -/
def ChunkCryptor.beginWrite (c : ChunkCryptor) (data : List UInt8) (fill : (n : Nat) → Bytes n) :
    Except VmessError (List UInt8) × ChunkCryptor :=
  let (sealed, c) := c.sealPayload cr (c.chunkOf data)
  let (paddingLen, c) := c.nextPaddingLen h
  let totalSize := UInt16.ofNat (sealed.length + paddingLen)
  match c.encodeLengthField cr h totalSize with
  | (.error e, c) => (.error e, c)
  | (.ok lengthField, c) => (.ok (lengthField ++ (sealed ++ (fill paddingLen).1)), c)

/-! ### Reading -/

/-- `RecvState`, with `recv_pending_size` and `recv_pending_padding`. -/
inductive VmessRecvState
  | length
  | body (size padding : Nat) (pos : 0 < size + padding)

/-- The receiving half of `VmessStream`. -/
structure VmessReceiver where
  recv : ChunkCryptor
  state : VmessRecvState

/-- How many bytes the next round needs. -/
def VmessReceiver.need (r : VmessReceiver) : Nat :=
  match r.state with
  | .length => r.recv.lengthFieldSize
  | .body size padding _ => size + padding

/-- A payload is opened, and the next length is awaited. -/
def openBody (recv : ChunkCryptor) (chunk : List UInt8) : Except VmessError (List UInt8 × VmessReceiver) :=
  match recv.openPayload cr chunk with
  | (.error e, _) => .error e
  | (.ok plain, recv) => .ok (plain, ⟨recv, .length⟩)

/-- What a round does with the bytes it needs.  A chunk of which no byte is awaited is opened in the round
of its length; the loop does so in the next round, before it looks at the buffer. -/
def VmessReceiver.openNext (r : VmessReceiver) (buf : List UInt8) :
    Except VmessError (List UInt8 × VmessReceiver) :=
  match r.state with
  | .length =>
    let (padding, recv) := r.recv.nextPaddingLen h
    match recv.decodeLengthField cr h buf with
    | (.error e, _) => .error e
    | (.ok total, recv) =>
      if total.toNat < padding then .error .totalSmallerThanPadding
      else if hpos : 0 < total.toNat - padding + padding then
        .ok ([], ⟨recv, .body (total.toNat - padding) padding hpos⟩)
      else openBody cr recv []
  | .body size _ _ => openBody cr r.recv (buf.take size)

/-- One round of the loop of `poll_read`. -/
def vmessProgress : Decoder VmessReceiver VmessError UInt8 (List UInt8) :=
  exactly VmessReceiver.need (VmessReceiver.openNext cr h)

/-! ### What the operations touch -/

variable {cr h} {c c' : ChunkCryptor} {data packet field : List UInt8} {fill : (n : Nat) → Bytes n}
  {n : UInt16}

/-- The cryptor after a payload was sealed or opened. -/
def ChunkCryptor.bump (c : ChunkCryptor) : ChunkCryptor := { c with counter := c.counter + 1 }

theorem nextPaddingLen_eq (c : ChunkCryptor) :
    ∃ masker gen, (c.nextPaddingLen h).2 = { c with chunkMasker := masker, paddingGen := gen } := by
  rcases c with ⟨aead, iv, lengthIv, counter, sec, masker, gen, shared, lengthAead, lengthCounter⟩
  cases shared with
  | true => cases masker <;> exact ⟨_, gen, rfl⟩
  | false => cases gen <;> exact ⟨masker, _, rfl⟩

theorem encodeLengthField_eq (cr : Ciphers VmessAead) (h : VmessHashes) (c : ChunkCryptor) (n : UInt16) :
    ∃ masker counter, (c.encodeLengthField cr h n).2 =
      { c with chunkMasker := masker, authLenCounter := counter } := by
  rcases c with ⟨aead, iv, lengthIv, counter, sec, masker, gen, shared, lengthAead, lengthCounter⟩
  cases lengthAead with
  | some lengthAead =>
    refine ⟨masker, lengthCounter + 1, ?_⟩
    simp only [ChunkCryptor.encodeLengthField, ChunkCryptor.nextAuthLenNonce]
    split_ifs <;> rfl
  | none => cases masker <;> exact ⟨_, lengthCounter, rfl⟩

theorem afterLength_eq (cr : Ciphers VmessAead) (h : VmessHashes) (c : ChunkCryptor) (n : UInt16) :
    ∃ masker gen counter, ((c.nextPaddingLen h).2.encodeLengthField cr h n).2 =
      { c with chunkMasker := masker, paddingGen := gen, authLenCounter := counter } := by
  obtain ⟨masker, gen, hpadding⟩ := nextPaddingLen_eq (h := h) c
  obtain ⟨masker', counter, hlength⟩ := encodeLengthField_eq cr h (c.nextPaddingLen h).2 n
  refine ⟨masker', gen, counter, hlength.trans ?_⟩
  rw [hpadding]

theorem nextPaddingLen_bump (c : ChunkCryptor) :
    c.bump.nextPaddingLen h = ((c.nextPaddingLen h).1, (c.nextPaddingLen h).2.bump) := by
  rcases c with ⟨aead, iv, lengthIv, counter, sec, masker, gen, shared, lengthAead, lengthCounter⟩
  cases shared with
  | true => cases masker <;> rfl
  | false => cases gen <;> rfl

theorem encodeLengthField_bump (c : ChunkCryptor) (n : UInt16) :
    c.bump.encodeLengthField cr h n =
      ((c.encodeLengthField cr h n).1, (c.encodeLengthField cr h n).2.bump) := by
  rcases c with ⟨aead, iv, lengthIv, counter, sec, masker, gen, shared, lengthAead, lengthCounter⟩
  cases lengthAead with
  | some lengthAead =>
    simp only [ChunkCryptor.encodeLengthField, ChunkCryptor.nextAuthLenNonce, ChunkCryptor.bump]
    split_ifs <;> rfl
  | none => cases masker <;> rfl

/-! ### Round trips -/

theorem Shaker.nextU16_mod_lt (g : Shaker) : ((g.nextU16 h).1 % 64).toNat < 64 := by
  rw [UInt16.toNat_mod]
  exact Nat.mod_lt _ (by decide)

theorem nextPaddingLen_lt (c : ChunkCryptor) : (c.nextPaddingLen h).1 < 64 := by
  rcases c with ⟨aead, iv, lengthIv, counter, sec, masker, gen, shared, lengthAead, lengthCounter⟩
  cases shared with
  | true =>
    cases masker with
    | none => exact Nat.zero_lt_succ 63
    | some g => exact g.nextU16_mod_lt
  | false =>
    cases gen with
    | none => exact Nat.zero_lt_succ 63
    | some g => exact g.nextU16_mod_lt

theorem sealPayload_snd (cr : Ciphers VmessAead) (c : ChunkCryptor) (plain : List UInt8) : (c.sealPayload cr plain).2 = c.bump := by
  rcases c with ⟨aead, iv, lengthIv, counter, sec, masker, gen, shared, lengthAead, lengthCounter⟩
  cases aead <;> rfl

theorem openPayload_sealPayload (hcr : cr.Lawful) {plain : List UInt8} (haead : c'.aead = c.aead)
    (hiv : c'.ivBase = c.ivBase) (hcounter : c'.counter = c.counter) :
    c'.openPayload cr (c.sealPayload cr plain).1 = (.ok plain, c'.bump) := by
  rcases c with ⟨aead, iv, lengthIv, counter, sec, masker, gen, shared, lengthAead, lengthCounter⟩
  rcases c' with ⟨aead', iv', lengthIv', counter', sec', masker', gen', shared', lengthAead', lengthCounter'⟩
  obtain rfl : aead' = aead := haead
  obtain rfl : iv' = iv := hiv
  obtain rfl : counter' = counter := hcounter
  cases aead' with
  | none => rfl
  | some aead =>
    simp only [ChunkCryptor.openPayload, ChunkCryptor.sealPayload, ChunkCryptor.nextBodyNonce, hcr.opens]
    rfl

theorem length_sealPayload (hcr : cr.Lawful) (c : ChunkCryptor) (plain : List UInt8) :
    (c.sealPayload cr plain).1.length = plain.length + if c.aead.isSome then 16 else 0 := by
  rcases c with ⟨aead, iv, lengthIv, counter, sec, masker, gen, shared, lengthAead, lengthCounter⟩
  cases aead with
  | none => rfl
  | some aead => exact hcr.length ..

theorem sub_add_of_le (hn : 16 ≤ n) : (n - 16).toNat + 16 < 2 ^ 16 ∧ n - 16 + 16 = n := by
  have hlt := n.toNat_lt
  have hle : (16 : UInt16).toNat ≤ n.toNat := hn
  have h16 : (16 : UInt16).toNat = 16 := rfl
  refine ⟨?_, UInt16.sub_add_cancel n 16⟩
  rw [UInt16.toNat_sub_of_le _ _ hn]
  omega

/-- A length field is decoded to the length, and leaves the two sides in the same state. -/
theorem decodeLengthField_encodeLengthField (hcr : cr.Lawful)
    (hf : c.encodeLengthField cr h n = (.ok field, c')) :
    field.length = c.lengthFieldSize ∧ c.decodeLengthField cr h field = (.ok n, c') := by
  rcases c with ⟨aead, iv, lengthIv, counter, sec, masker, gen, shared, lengthAead, lengthCounter⟩
  cases lengthAead with
  | some lengthAead =>
    simp only [ChunkCryptor.encodeLengthField, ChunkCryptor.nextAuthLenNonce] at hf
    split_ifs at hf with hlt
    · cases (Prod.mk.inj hf).1
    · obtain ⟨hfield, rfl⟩ := Prod.mk.inj hf
      obtain rfl := Except.ok.inj hfield
      obtain ⟨hsum, hback⟩ := sub_add_of_le (UInt16.not_lt.1 hlt)
      have hlen : (cr.encrypt lengthAead.1 lengthAead.2 (u16Bytes lengthCounter ++ slice lengthIv 2 12)
          (u16Bytes (n - 16))).length = 18 := by rw [hcr.length, u16Bytes_length]
      refine ⟨hlen, ?_⟩
      simp only [ChunkCryptor.decodeLengthField, ChunkCryptor.nextAuthLenNonce]
      rw [if_neg (not_not.2 hlen), hcr.opens]
      dsimp only
      rw [if_neg (not_not.2 (u16Bytes_length _)), u16OfBytes_u16Bytes, if_pos hsum, hback]
  | none =>
    cases masker with
    | none =>
      obtain ⟨hfield, rfl⟩ := Prod.mk.inj hf
      obtain rfl := Except.ok.inj hfield
      simp [ChunkCryptor.decodeLengthField, ChunkCryptor.maskSize, ChunkCryptor.lengthFieldSize]
    | some g =>
      obtain ⟨hfield, rfl⟩ := Prod.mk.inj hf
      obtain rfl := Except.ok.inj hfield
      simp [ChunkCryptor.decodeLengthField, ChunkCryptor.maskSize, ChunkCryptor.lengthFieldSize,
        UInt16.xor_assoc]

/-! ### Chunks -/

variable (cr h) in
/-- The size of a chunk, which goes into a field of 16 bits. -/
def ChunkCryptor.totalSize (c : ChunkCryptor) (data : List UInt8) : Nat :=
  (c.sealPayload cr (c.chunkOf data)).1.length + (c.nextPaddingLen h).1

/-- **The size of a chunk fits its field.** -/
theorem totalSize_lt (hcr : cr.Lawful) (c : ChunkCryptor) (data : List UInt8) :
    c.totalSize cr h data < 2 ^ 16 := by
  have hpadding := nextPaddingLen_lt (h := h) c
  have hchunk : (c.chunkOf data).length ≤ payloadMax := by
    rw [ChunkCryptor.chunkOf, List.length_take]
    omega
  unfold payloadMax at hchunk
  unfold ChunkCryptor.totalSize
  rw [length_sealPayload hcr]
  split_ifs <;> omega

theorem beginWrite_eq (c : ChunkCryptor) (data : List UInt8) (fill : (n : Nat) → Bytes n) :
    c.beginWrite cr h data fill =
      match (c.nextPaddingLen h).2.encodeLengthField cr h (UInt16.ofNat (c.totalSize cr h data)) with
      | (.error e, c') => (.error e, c'.bump)
      | (.ok field, c') =>
        (.ok (field ++ ((c.sealPayload cr (c.chunkOf data)).1 ++ (fill (c.nextPaddingLen h).1).1)),
          c'.bump) := by
  unfold ChunkCryptor.beginWrite ChunkCryptor.totalSize
  have hseal := sealPayload_snd cr c (c.chunkOf data)
  generalize c.sealPayload cr (c.chunkOf data) = pair at hseal
  obtain ⟨payload, c₁⟩ := pair
  obtain rfl : c₁ = c.bump := hseal
  dsimp only
  rw [nextPaddingLen_bump]
  dsimp only
  rw [encodeLengthField_bump]
  generalize (c.nextPaddingLen h).2.encodeLengthField cr h _ = result
  obtain ⟨e | field, c₂⟩ := result <;> rfl

/-- What a write leaves as it is: the security and the keys. -/
structure SameKeys (c c' : ChunkCryptor) : Prop where
  sec : c'.sec = c.sec
  aead : c'.aead = c.aead
  authLenAead : c'.authLenAead = c.authLenAead

theorem SameKeys.refl (c : ChunkCryptor) : SameKeys c c := ⟨rfl, rfl, rfl⟩

theorem SameKeys.trans {c₁ c₂ c₃ : ChunkCryptor} (h₁ : SameKeys c₁ c₂) (h₂ : SameKeys c₂ c₃) :
    SameKeys c₁ c₃ :=
  ⟨h₂.sec.trans h₁.sec, h₂.aead.trans h₁.aead, h₂.authLenAead.trans h₁.authLenAead⟩

theorem beginWrite_sameKeys (cr : Ciphers VmessAead) (h : VmessHashes) (c : ChunkCryptor) (data : List UInt8) (fill : (n : Nat) → Bytes n) :
    SameKeys c (c.beginWrite cr h data fill).2 := by
  obtain ⟨masker, gen, counter, hafter⟩ := afterLength_eq cr h c
    (UInt16.ofNat (c.totalSize cr h data))
  rw [beginWrite_eq]
  generalize (c.nextPaddingLen h).2.encodeLengthField cr h _ = result at hafter ⊢
  obtain ⟨e | field, c'⟩ := result
  · obtain rfl := hafter
    exact ⟨rfl, rfl, rfl⟩
  · obtain rfl := hafter
    exact ⟨rfl, rfl, rfl⟩

theorem exists_beginWrite (fill : (n : Nat) → Bytes n) (hcr : cr.Lawful)
    (hsize : c.authLenAead.isSome → 16 ≤ c.totalSize cr h data) :
    ∃ packet c', c.beginWrite cr h data fill = (.ok packet, c') := by
  have hlt := totalSize_lt (h := h) hcr c data
  obtain ⟨masker, gen, hpadding⟩ := nextPaddingLen_eq (h := h) c
  have hfield : ∃ field c', (c.nextPaddingLen h).2.encodeLengthField cr h
      (UInt16.ofNat (c.totalSize cr h data)) = (.ok field, c') := by
    unfold ChunkCryptor.encodeLengthField
    cases ha : (c.nextPaddingLen h).2.authLenAead with
    | none => exact ⟨_, _, rfl⟩
    | some aead =>
      have hle : ¬UInt16.ofNat (c.totalSize cr h data) < 16 := by
        rw [hpadding] at ha
        have h16 := hsize (by rw [show c.authLenAead = some aead from ha]; rfl)
        rw [UInt16.lt_iff_toNat_lt, toNat_ofNat16 hlt]
        exact Nat.not_lt.2 h16
      dsimp only
      rw [if_neg hle]
      exact ⟨_, _, rfl⟩
  obtain ⟨field, c', hfield⟩ := hfield
  exact ⟨_, _, by rw [beginWrite_eq, hfield]⟩

theorem VmessReceiver.need_pos (r : VmessReceiver) : 0 < r.need := by
  obtain ⟨recv, state⟩ := r
  cases state with
  | length =>
    simp only [need, ChunkCryptor.lengthFieldSize]
    split_ifs <;> decide
  | body size padding pos => exact pos

theorem vmessProgress_frame {r r' : VmessReceiver} {frame plain : List UInt8}
    (hlen : frame.length = r.need) (hopen : r.openNext cr h frame = .ok (plain, r')) :
    Frame (vmessProgress cr h) r frame plain r' :=
  frame_exactly r.need_pos hlen hopen

/-- **A packet is read back** by a receiver in the state of the sender, and leaves it in the state that
the sender has then. -/
theorem beginWrite_framed (hcr : cr.Lawful) (hne : c.chunkOf data ≠ [])
    (hok : c.beginWrite cr h data fill = (.ok packet, c')) :
    ∃ field body, packet = field ++ body ∧
      Framed (vmessProgress cr h) ⟨c, .length⟩ [field, body] [[], c.chunkOf data] ⟨c', .length⟩ := by
  obtain ⟨masker, gen, counter, hafter⟩ := afterLength_eq cr h c
    (UInt16.ofNat (c.totalSize cr h data))
  obtain ⟨masker', gen', hpadding⟩ := nextPaddingLen_eq (h := h) c
  have hlt := totalSize_lt (h := h) hcr c data
  rw [beginWrite_eq] at hok
  generalize hresult : (c.nextPaddingLen h).2.encodeLengthField cr h _ = result at hafter hok
  obtain ⟨e | field, c₁⟩ := result
  · cases (Prod.mk.inj hok).1
  obtain ⟨hpacket, rfl⟩ := Prod.mk.inj hok
  obtain ⟨hlen, hdecode⟩ := decodeLengthField_encodeLengthField hcr hresult
  set payload := (c.sealPayload cr (c.chunkOf data)).1 with hpayload
  set padding := (c.nextPaddingLen h).1 with hpad
  have htotal : (UInt16.ofNat (c.totalSize cr h data)).toNat = payload.length + padding :=
    toNat_ofNat16 hlt
  have hpos : 0 < payload.length + padding := by
    have hchunk := List.length_pos_iff.2 hne
    rw [hpayload, length_sealPayload hcr]
    omega
  have hfield : Frame (vmessProgress cr h) ⟨c, .length⟩ field []
      ⟨c₁, .body payload.length padding hpos⟩ := by
    apply vmessProgress_frame
    · rw [hlen, hpadding]
      rfl
    · simp only [VmessReceiver.openNext, hdecode, ← hpad, htotal]
      rw [if_neg (by omega), dif_pos (by omega)]
      simp
  have hbody : Frame (vmessProgress cr h) ⟨c₁, .body payload.length padding hpos⟩
      (payload ++ (fill padding).1) (c.chunkOf data) ⟨c₁.bump, .length⟩ := by
    have hopen : c₁.openPayload cr payload = (.ok (c.chunkOf data), c₁.bump) := by
      obtain rfl := hafter
      exact openPayload_sealPayload hcr rfl rfl rfl
    apply vmessProgress_frame
    · rw [List.length_append, (fill padding).2]
      rfl
    · simp only [VmessReceiver.openNext, openBody, List.take_left, hopen]
  exact ⟨field, _, (Except.ok.inj hpacket).symm, .cons hfield (.cons hbody (.nil _))⟩

end Model

end WutherCore.Proto
