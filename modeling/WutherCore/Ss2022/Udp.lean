import WutherCore.Data.Buffer
import WutherCore.Net.Addr
import WutherCore.Ruleset.Srs
import WutherCore.Young.Wire

/-!
# Shadowsocks 2022: UDP packets

`openUdpPacket` decrypts and checks a UDP packet, `parseUdpBody` reads what is in it.

The block cipher, the AEADs and BLAKE3 are parameters, `Primitives`: functions of their inputs.
-/

namespace WutherCore.Ss2022

open WutherCore.Text WutherCore.Data WutherCore.Net
open WutherCore.Young (IoError invalidData u16OfBytes u64OfBytes)
open WutherCore.Ruleset.Srs (fromUtf8)

/-- `Ss22Cipher`. -/
inductive Ss22Cipher
  | aes128Gcm
  | aes256Gcm
  | chacha20Poly1305
  deriving DecidableEq, Repr

/-- `Ss22Cipher::key_len`. -/
def Ss22Cipher.keyLen : Ss22Cipher → Nat
  | .aes128Gcm => 16
  | .aes256Gcm | .chacha20Poly1305 => 32

/-- The cryptographic functions that the protocol is built from. -/
structure Primitives where
  aesEncryptBlock : (key block : List UInt8) → List UInt8
  aesDecryptBlock : (key block : List UInt8) → List UInt8
  aeadSeal : Ss22Cipher → (key nonce message : List UInt8) → List UInt8
  aeadOpen : Ss22Cipher → (key nonce ciphertext : List UInt8) → Option (List UInt8)
  xchachaOpen : (key nonce ciphertext : List UInt8) → Option (List UInt8)
  hash : List UInt8 → List UInt8
  deriveKey : (context : String) → (input : List UInt8) → (len : Nat) → List UInt8

variable (cr : Primitives)

/-- `derive_subkey`. -/
def deriveSubkey (psk salt : List UInt8) (len : Nat) : List UInt8 :=
  cr.deriveKey "shadowsocks 2022 session subkey" (psk ++ salt) len

/-- A block cipher, where the key has its length. -/
def aesBlock (f : List UInt8 → List UInt8 → List UInt8) (cipher : Ss22Cipher) (key block : List UInt8) :
    Except IoError (List UInt8) :=
  match cipher with
  | .aes128Gcm =>
    if key.length = 16 then .ok (f key block) else .error (invalidData "ss2022 AES-128 key length")
  | .aes256Gcm =>
    if key.length = 32 then .ok (f key block) else .error (invalidData "ss2022 AES-256 key length")
  | .chacha20Poly1305 => .error (invalidData "ss2022 chacha20 has no AES block header")

/-- `aes_encrypt_block`. -/
def aesEncryptBlock : Ss22Cipher → (key block : List UInt8) → Except IoError (List UInt8) :=
  aesBlock cr.aesEncryptBlock

/-- `aes_decrypt_block`. -/
def aesDecryptBlock : Ss22Cipher → (key block : List UInt8) → Except IoError (List UInt8) :=
  aesBlock cr.aesDecryptBlock

/-- `Ss22Aead::open` with a new cipher. -/
def aeadOpen (cipher : Ss22Cipher) (key nonce ciphertext : List UInt8) : Except IoError (List UInt8) :=
  if key.length ≠ cipher.keyLen then
    .error (invalidData (match cipher with
      | .aes128Gcm => "ss2022 AES-128-GCM key length"
      | .aes256Gcm => "ss2022 AES-256-GCM key length"
      | .chacha20Poly1305 => "ss2022 ChaCha20-Poly1305 key length"))
  else
    match cr.aeadOpen cipher key nonce ciphertext with
    | some plain => .ok plain
    | none => .error (invalidData (match cipher with
      | .aes128Gcm => "ss2022 AES-128-GCM open failed"
      | .aes256Gcm => "ss2022 AES-256-GCM open failed"
      | .chacha20Poly1305 => "ss2022 ChaCha20-Poly1305 open failed"))

/-- `UdpPacketDirection`. -/
inductive UdpPacketDirection
  | client
  | server
  deriving DecidableEq, Repr

/-- `UdpPacketDirection::header_type`. -/
def UdpPacketDirection.headerType : UdpPacketDirection → UInt8
  | .client => 0
  | .server => 1

/-- `DecodedUdpPacket`. -/
structure DecodedUdpPacket where
  sessionId : UInt64
  packetId : UInt64
  clientSessionId : Option UInt64
  target : Str
  port : UInt16
  payload : List UInt8
  deriving DecidableEq

/-- `UDP_TAG_LEN`. -/
def udpTagLen : Nat := 16

/-- `UDP_AES_SEPARATE_HEADER_LEN`. -/
def udpAesSeparateHeaderLen : Nat := 16

/-- `UDP_XCHACHA_NONCE_LEN`. -/
def udpXchachaNonceLen : Nat := 24

/-- `TIMESTAMP_TOLERANCE`, in seconds. -/
def timestampTolerance : Nat := 30

/-- `timestamp_within_tolerance`. -/
def timestampWithinTolerance (timestamp now : Nat) : Bool :=
  (now - timestamp) + (timestamp - now) ≤ timestampTolerance

/-- `decode_socks_addr`. -/
def decodeSocksAddr (buf : List UInt8) : Except IoError (Str × UInt16 × Nat) :=
  match buf with
  | [] => .error (invalidData "missing socks address type")
  | 0x01 :: _ =>
    if buf.length < 1 + 4 + 2 then .error (invalidData "truncated ipv4 socks address")
    else .ok (displayIpv4 (BitVec.ofNat 32 (beAt 4 buf 1)), u16OfBytes (slice buf 5 7), 7)
  | 0x03 :: _ =>
    if buf.length < 2 then .error (invalidData "truncated domain socks address")
    else
      let len := (byteAt buf 1).toNat
      if buf.length < 2 + len + 2 then .error (invalidData "truncated domain socks address body")
      else
        match fromUtf8 (slice buf 2 (2 + len)) with
        | none => .error (invalidData "invalid domain socks address")
        | some host => .ok (host, u16OfBytes (slice buf (2 + len) (4 + len)), 2 + len + 2)
  | 0x04 :: _ =>
    if buf.length < 1 + 16 + 2 then .error (invalidData "truncated ipv6 socks address")
    else .ok (displayIpv6 (BitVec.ofNat 128 (beAt 16 buf 1)), u16OfBytes (slice buf 17 19), 19)
  | _ => .error (invalidData "unsupported socks address type")

/-- The client session that a packet of a direction names. -/
def parseClientSessionId (direction : UdpPacketDirection) (body : List UInt8) :
    Except IoError (Option UInt64 × List UInt8) :=
  match direction with
  | .client => .ok (none, body)
  | .server =>
    let id := u64OfBytes (body.take 8)
    if id = 0 then .error (invalidData "ss2022 UDP response has a zero client session ID")
    else .ok (some id, body.drop 8)

/-- `parse_udp_body`. -/
def parseUdpBody (direction : UdpPacketDirection) (sessionId packetId : UInt64) (body : List UInt8)
    (now : Nat) : Except IoError DecodedUdpPacket :=
  let fixedLen := 1 + 8 + (if direction = .server then 8 else 0) + 2
  if body.length < fixedLen then .error (invalidData "ss2022 UDP body is truncated")
  else if byteAt body 0 ≠ direction.headerType then
    .error (invalidData "ss2022 UDP packet direction is invalid")
  else if !timestampWithinTolerance (beAt 8 body 1) now then
    .error (invalidData "ss2022 UDP timestamp is out of tolerance")
  else do
    let (clientSessionId, cursor) ← parseClientSessionId direction (body.drop 9)
    let paddingLen := beAt 2 cursor 0
    let cursor := cursor.drop 2
    if cursor.length < paddingLen then .error (invalidData "ss2022 UDP padding is truncated")
    else
      let cursor := cursor.drop paddingLen
      let (target, port, addressLen) ← decodeSocksAddr cursor
      if cursor.length < addressLen then .error (invalidData "ss2022 UDP address is truncated")
      else .ok ⟨sessionId, packetId, clientSessionId, target, port, cursor.drop addressLen⟩

/-- The identity headers for the rest of a chain of keys. -/
def eihLayers (cipher : Ss22Cipher) (userPsk separateHeader : List UInt8) :
    List (List UInt8) → Except IoError (List UInt8)
  | [] => .ok []
  | identityPsk :: rest => do
    let nextPsk := rest.headD userPsk
    let plaintext := List.zipWith (· ^^^ ·) ((cr.hash nextPsk).take 16) separateHeader
    let block ← aesEncryptBlock cr cipher identityPsk plaintext
    return block ++ (← eihLayers cipher userPsk separateHeader rest)

/-- `build_udp_eih_layers`. -/
def buildUdpEihLayers (cipher : Ss22Cipher) (identityPsks : List (List UInt8))
    (userPsk separateHeader : List UInt8) : Except IoError (List UInt8) :=
  if identityPsks.isEmpty then .ok []
  else if cipher = .chacha20Poly1305 then .error (invalidData "ss2022 chacha20 does not support EIH")
  else eihLayers cr cipher userPsk separateHeader identityPsks

/-- The AES part of `open_udp_packet`: separate header and body. -/
def openAesPacket (cipher : Ss22Cipher) (userPsk : List UInt8) (identityPsks : List (List UInt8))
    (direction : UdpPacketDirection) (packet : List UInt8) : Except IoError (List UInt8 × List UInt8) :=
  let identityLen := if direction = .client then identityPsks.length * 16 else 0
  let bodyOffset := udpAesSeparateHeaderLen + identityLen
  if packet.length < bodyOffset + udpTagLen then .error (invalidData "ss2022 UDP AES packet is truncated")
  else do
    let separateKey := identityPsks.headD userPsk
    let separateHeader ← aesDecryptBlock cr cipher separateKey (packet.take udpAesSeparateHeaderLen)
    let expected ←
      if 0 < identityLen then buildUdpEihLayers cr cipher identityPsks userPsk separateHeader else .ok []
    if slice packet udpAesSeparateHeaderLen bodyOffset ≠ expected then
      .error (invalidData "ss2022 UDP EIH validation failed")
    else
      let subkey := deriveSubkey cr userPsk (separateHeader.take 8) cipher.keyLen
      let body ← aeadOpen cr cipher subkey (slice separateHeader 4 16) (packet.drop bodyOffset)
      return (separateHeader, body)

/-- The XChaCha20 part of `open_udp_packet`: separate header and body. -/
def openXchachaPacket (userPsk : List UInt8) (identityPsks : List (List UInt8)) (packet : List UInt8) :
    Except IoError (List UInt8 × List UInt8) :=
  if !identityPsks.isEmpty then .error (invalidData "ss2022 chacha20 does not support EIH")
  else if packet.length < udpXchachaNonceLen + udpTagLen + udpAesSeparateHeaderLen then
    .error (invalidData "ss2022 UDP XChaCha20 packet is truncated")
  else if userPsk.length ≠ 32 then .error (invalidData "ss2022 XChaCha20 key length")
  else
    match cr.xchachaOpen userPsk (packet.take udpXchachaNonceLen) (packet.drop udpXchachaNonceLen) with
    | none => .error (invalidData "ss2022 XChaCha20 UDP open failed")
    | some plaintext =>
      if plaintext.length < udpAesSeparateHeaderLen then
        .error (invalidData "ss2022 UDP XChaCha20 plaintext is truncated")
      else .ok (plaintext.take udpAesSeparateHeaderLen, plaintext.drop udpAesSeparateHeaderLen)

/-- The first part of `open_udp_packet`: separate header and body. -/
def openSealed (cipher : Ss22Cipher) (userPsk : List UInt8) (identityPsks : List (List UInt8))
    (direction : UdpPacketDirection) (packet : List UInt8) : Except IoError (List UInt8 × List UInt8) :=
  match cipher with
  | .aes128Gcm | .aes256Gcm => openAesPacket cr cipher userPsk identityPsks direction packet
  | .chacha20Poly1305 => openXchachaPacket cr userPsk identityPsks packet

/-- `open_udp_packet`. -/
def openUdpPacket (cipher : Ss22Cipher) (userPsk : List UInt8) (identityPsks : List (List UInt8))
    (direction : UdpPacketDirection) (packet : List UInt8) (now : Nat) : Except IoError DecodedUdpPacket := do
  let (separateHeader, body) ← openSealed cr cipher userPsk identityPsks direction packet
  let sessionId := u64OfBytes (separateHeader.take 8)
  if sessionId = 0 then .error (invalidData "ss2022 UDP session ID must be non-zero")
  else parseUdpBody direction sessionId (u64OfBytes (separateHeader.drop 8)) body now

end WutherCore.Ss2022
