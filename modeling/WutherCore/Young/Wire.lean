import WutherCore.Data.Framing
import WutherCore.Text.Radix

/-!
# The Young protocol: common parts

What the codecs of `codec.rs` share: errors, fixed-width integers on the wire, the keyed digests, the
padding schemes and the deterministic padding bytes.

HMAC-SHA256 and the BLAKE3 output stream are parameters, `Primitives`: an HMAC is a function of key and
message with 32 bytes of output, an output stream a function of key, message and position.

* `PaddingScheme`: the padding tables of a session, with what `validatePaddingEntries` checks.
* `verifyDeterministicPadding_padding`: the padding that a sender writes is the one a receiver expects.
-/

namespace WutherCore.Young

open WutherCore.Text WutherCore.Data

/-! ### Errors -/

/-- The kinds of `io::Error` that the protocol uses. -/
inductive ErrorKind
  | invalidInput
  | invalidData
  | permissionDenied
  | unsupported
  deriving DecidableEq, Repr

/-- `io::Error`. -/
structure IoError where
  kind : ErrorKind
  message : String
  deriving DecidableEq, Repr

/-- `invalid_input`. -/
def invalidInput (message : String) : IoError := ⟨.invalidInput, message⟩

/-- `invalid_data`. -/
def invalidData (message : String) : IoError := ⟨.invalidData, message⟩

/-- `permission_denied`. -/
def permissionDenied (message : String) : IoError := ⟨.permissionDenied, message⟩

/-- `unsupported`. -/
def unsupported (message : String) : IoError := ⟨.unsupported, message⟩

/-! ### Constants -/

/-- `VERSION`. -/
def version : UInt8 := 1

/-- `MAX_PADDING_BYTES`. -/
def maxPaddingBytes : Nat := 4096

/-- `MAX_PADDING_SCHEME_LENGTH`. -/
def maxPaddingSchemeLength : Nat := 256

/-- `FLOW_TAG_BYTES`, and `UDP_TAG_BYTES`, which has the same value. -/
def flowTagBytes : Nat := 16

/-! ### Bytes -/

/-- Arrays of `n` bytes. -/
abbrev Bytes (n : Nat) := { l : List UInt8 // l.length = n }

/-- The bytes of a literal `b"..."`. -/
def ascii (s : String) : List UInt8 := s.toList.map fun c => UInt8.ofNat c.toNat

/-- `u16::to_be_bytes`. -/
def u16Bytes (x : UInt16) : List UInt8 := toBytesBE 2 x.toNat

/-- `u16::from_be_bytes`. -/
def u16OfBytes (bytes : List UInt8) : UInt16 := UInt16.ofNat (ofBytesBE bytes)

/-- `u32::to_be_bytes`. -/
def u32Bytes (x : UInt32) : List UInt8 := toBytesBE 4 x.toNat

/-- `u32::from_be_bytes`. -/
def u32OfBytes (bytes : List UInt8) : UInt32 := UInt32.ofNat (ofBytesBE bytes)

/-- `u64::to_be_bytes`. -/
def u64Bytes (x : UInt64) : List UInt8 := toBytesBE 8 x.toNat

/-- `u64::from_be_bytes`. -/
def u64OfBytes (bytes : List UInt8) : UInt64 := UInt64.ofNat (ofBytesBE bytes)

@[simp] theorem u16Bytes_length (x : UInt16) : (u16Bytes x).length = 2 := toBytesBE_length ..

@[simp] theorem u32Bytes_length (x : UInt32) : (u32Bytes x).length = 4 := toBytesBE_length ..

@[simp] theorem u64Bytes_length (x : UInt64) : (u64Bytes x).length = 8 := toBytesBE_length ..

@[simp] theorem u16OfBytes_u16Bytes (x : UInt16) : u16OfBytes (u16Bytes x) = x := by
  rw [u16OfBytes, u16Bytes, ofBytesBE_toBytesBE x.toNat_lt, UInt16.ofNat_toNat]

@[simp] theorem u32OfBytes_u32Bytes (x : UInt32) : u32OfBytes (u32Bytes x) = x := by
  rw [u32OfBytes, u32Bytes, ofBytesBE_toBytesBE x.toNat_lt, UInt32.ofNat_toNat]

@[simp] theorem u64OfBytes_u64Bytes (x : UInt64) : u64OfBytes (u64Bytes x) = x := by
  rw [u64OfBytes, u64Bytes, ofBytesBE_toBytesBE x.toNat_lt, UInt64.ofNat_toNat]

/-- `u16::try_from(n)`. -/
def u16TryFrom (n : Nat) (e : IoError) : Except IoError UInt16 :=
  if n < 2 ^ 16 then .ok (UInt16.ofNat n) else .error e

theorem u16TryFrom_eq_ok {n : Nat} {e : IoError} (h : n < 2 ^ 16) :
    u16TryFrom n e = .ok (UInt16.ofNat n) := if_pos h

theorem toNat_ofNat16 {n : Nat} (h : n < 2 ^ 16) : (UInt16.ofNat n).toNat = n :=
  UInt16.toNat_ofNat_of_lt' h

/-! ### Digests -/

/-- The cryptographic primitives of the crates `hmac`, `sha2` and `blake3`. -/
structure Primitives where
  /-- `Hmac<Sha256>`, of a key and a message. -/
  hmacSha256 : List UInt8 → List UInt8 → Bytes 32
  /-- The output stream of a keyed `blake3::Hasher`, of a key and a message. -/
  blake3Xof : Bytes 32 → List UInt8 → Nat → UInt8

/-- `SessionKey`. -/
structure SessionKey where
  bytes : Bytes 32

variable (p : Primitives)

/-- `hmac_tag`: the parts are hashed as one message. -/
def hmacTag (key : List UInt8) (parts : List (List UInt8)) : Bytes 32 :=
  p.hmacSha256 key parts.flatten

/-- `verify_hmac`. -/
def verifyHmac (key : List UInt8) (parts : List (List UInt8)) (tag : List UInt8) :
    Except IoError Unit :=
  if tag = (hmacTag p key parts).1 then .ok ()
  else .error (permissionDenied "Young authentication tag 不匹配")

/-- The first 16 bytes of a tag, which are sent. -/
def shortTag (key : List UInt8) (parts : List (List UInt8)) : List UInt8 :=
  (hmacTag p key parts).1.take flowTagBytes

/-- `verify_hmac_truncated`. -/
def verifyHmacTruncated (key : List UInt8) (parts : List (List UInt8)) (tag : List UInt8) :
    Except IoError Unit :=
  if tag.length ≠ flowTagBytes then .error (permissionDenied "Young truncated tag 长度无效")
  else if (hmacTag p key parts).1.take tag.length = tag then .ok ()
  else .error (permissionDenied "Young authentication tag 不匹配")

@[simp] theorem shortTag_length (key : List UInt8) (parts : List (List UInt8)) :
    (shortTag p key parts).length = 16 := by
  have h := (hmacTag p key parts).2
  simp only [shortTag, flowTagBytes, List.length_take]
  omega

/-- The tag that is sent is accepted. -/
@[simp] theorem verifyHmacTruncated_shortTag (key : List UInt8) (parts : List (List UInt8)) :
    verifyHmacTruncated p key parts (shortTag p key parts) = .ok () := by
  rw [verifyHmacTruncated, if_neg (by simp [flowTagBytes]), if_pos (by rw [shortTag_length]; rfl)]

/-! ### Padding schemes -/

/-- `PaddingDirection`. -/
inductive PaddingDirection
  | clientToServer
  | serverToClient
  deriving DecidableEq, Repr

/-- `PaddingDirection::tcp_padding_domain`. -/
def PaddingDirection.tcpPaddingDomain : PaddingDirection → List UInt8
  | clientToServer => ascii "young/tcp-padding/c2s/v1"
  | serverToClient => ascii "young/tcp-padding/s2c/v1"

/-- `PaddingDirection::udp_padding_domain`. -/
def PaddingDirection.udpPaddingDomain : PaddingDirection → List UInt8
  | clientToServer => ascii "young/udp-padding/c2s/v1"
  | serverToClient => ascii "young/udp-padding/s2c/v1"

/-- `PaddingDirection::udp_hmac_domain`. -/
def PaddingDirection.udpHmacDomain : PaddingDirection → List UInt8
  | clientToServer => ascii "young/udp-fragment/c2s/v2"
  | serverToClient => ascii "young/udp-fragment/s2c/v2"

/-- What `validate_padding_entries` accepts: a table that is not empty and not too long, of lengths
that are not zero and not too large. -/
structure PaddingEntries where
  list : List UInt16
  nonempty : 0 < list.length
  length_le : list.length ≤ maxPaddingSchemeLength
  bounds : ∀ n ∈ list, 0 < n.toNat ∧ n.toNat ≤ maxPaddingBytes

/-- `validate_padding_entries`. -/
def validatePaddingEntries (entries : List UInt16) : Except IoError PaddingEntries :=
  if h : entries.length = 0 ∨ maxPaddingSchemeLength < entries.length then
    .error (invalidInput s!"Young padding scheme 长度必须在 1..={maxPaddingSchemeLength}")
  else if h' : ∃ n ∈ entries, n.toNat = 0 ∨ maxPaddingBytes < n.toNat then
    .error (invalidInput "Young padding scheme 长度必须在 1..=4096")
  else
    .ok { list := entries
          nonempty := by omega
          length_le := by omega
          bounds := fun n hn => by
            by_contra hc
            exact h' ⟨n, hn, by omega⟩ }

/-- `PaddingScheme`: the tables of both directions have one length. -/
structure PaddingScheme where
  clientToServer : PaddingEntries
  serverToClient : Option PaddingEntries
  same : ∀ table ∈ serverToClient, table.list.length = clientToServer.list.length

namespace PaddingScheme

/-- `PaddingScheme::new`. -/
def new (entries : List UInt16) : Except IoError PaddingScheme := do
  let table ← validatePaddingEntries entries
  return { clientToServer := table, serverToClient := none, same := by simp }

/-- `PaddingScheme::entries`. -/
def entries (scheme : PaddingScheme) : PaddingDirection → PaddingEntries
  | .clientToServer => scheme.clientToServer
  | .serverToClient => scheme.serverToClient.getD scheme.clientToServer

/-- `PaddingScheme::padding_for`. -/
def paddingFor (scheme : PaddingScheme) (direction : PaddingDirection) (frameIndex : UInt64) : UInt16 :=
  let entries := scheme.entries direction
  entries.list.get ⟨frameIndex.toNat % entries.list.length, Nat.mod_lt _ entries.nonempty⟩

theorem paddingFor_bounds (scheme : PaddingScheme) (direction : PaddingDirection)
    (frameIndex : UInt64) : 0 < (scheme.paddingFor direction frameIndex).toNat ∧
      (scheme.paddingFor direction frameIndex).toNat ≤ maxPaddingBytes :=
  (scheme.entries direction).bounds _ (List.get_mem _ _)

end PaddingScheme

/-! ### Deterministic padding -/

/-- `n` bytes of an output stream, from a position on. -/
def streamBytes (stream : Nat → UInt8) (start n : Nat) : List UInt8 :=
  (List.range n).map fun i => stream (start + i)

@[simp] theorem streamBytes_length (stream : Nat → UInt8) (start n : Nat) :
    (streamBytes stream start n).length = n := by simp [streamBytes]

theorem streamBytes_add (stream : Nat → UInt8) (start m n : Nat) :
    streamBytes stream start (m + n) =
      streamBytes stream start m ++ streamBytes stream (start + m) n := by
  simp [streamBytes, List.range_add, Nat.add_assoc]

/-- The output stream that the hasher of a padding gives. -/
def paddingStream (sessionKey : SessionKey) (domain : List UInt8) (context : List (List UInt8)) :
    Nat → UInt8 :=
  p.blake3Xof sessionKey.bytes (domain ++ context.flatten)

/-- `extend_deterministic_padding`: the bytes that it appends. -/
def deterministicPadding (sessionKey : SessionKey) (domain : List UInt8) (context : List (List UInt8))
    (paddingLen : Nat) : List UInt8 :=
  streamBytes (paddingStream p sessionKey domain context) 0 paddingLen

/-- The loop of `verify_deterministic_padding`: the padding is compared with the stream in chunks, and
every difference leaves a bit in `mismatch`. -/
def paddingMismatch (stream : Nat → UInt8) (position : Nat) (mismatch : UInt8) :
    List (List UInt8) → UInt8
  | [] => mismatch
  | actual :: rest =>
    let expected := streamBytes stream position actual.length
    paddingMismatch stream (position + actual.length)
      ((actual.zip expected).foldl (fun acc pair => acc ||| (pair.1 ^^^ pair.2)) mismatch) rest

/-- `verify_deterministic_padding`. -/
def verifyDeterministicPadding (sessionKey : SessionKey) (domain : List UInt8)
    (context : List (List UInt8)) (padding : List UInt8) : Except IoError Unit :=
  if paddingMismatch (paddingStream p sessionKey domain context) 0 0 (chunks 64 padding) = 0 then
    .ok ()
  else .error (invalidData "Young deterministic padding 内容不匹配")

@[simp] theorem deterministicPadding_length (sessionKey : SessionKey) (domain : List UInt8)
    (context : List (List UInt8)) (n : Nat) :
    (deterministicPadding p sessionKey domain context n).length = n := streamBytes_length ..

theorem foldl_xor_self (l : List UInt8) :
    (l.zip l).foldl (fun acc pair => acc ||| (pair.1 ^^^ pair.2)) (0 : UInt8) = 0 := by
  induction l with
  | nil => rfl
  | cons a l ih => simpa using ih

theorem paddingMismatch_stream (stream : Nat → UInt8) (pieces : List (List UInt8)) (position : Nat)
    (h : pieces.flatten = streamBytes stream position pieces.flatten.length) :
    paddingMismatch stream position 0 pieces = 0 := by
  induction pieces generalizing position with
  | nil => rfl
  | cons actual rest ih =>
    rw [List.flatten_cons, List.length_append, streamBytes_add] at h
    obtain ⟨hactual, hrest⟩ := List.append_inj h (by simp)
    rw [paddingMismatch, ← hactual, foldl_xor_self]
    exact ih _ hrest

/-- The padding that a sender writes is accepted. -/
@[simp] theorem verifyDeterministicPadding_padding (sessionKey : SessionKey) (domain : List UInt8)
    (context : List (List UInt8)) (n : Nat) :
    verifyDeterministicPadding p sessionKey domain context
      (deterministicPadding p sessionKey domain context n) = .ok () := by
  apply if_pos
  apply paddingMismatch_stream
  rw [flatten_chunks (by decide), deterministicPadding_length]
  rfl

end WutherCore.Young
