import WutherCore.Proto.SocksAddr
import WutherCore.Ss2022.TcpSound

/-!
# Shadowsocks 2022: UDP packets that are sealed

`seal_udp_packet` in `ss2022.rs` and its inverse.  A packet has a separate header (session and packet
number) and a body; how they are encrypted depends on the cipher, what the body says on the direction.

* `openUdpPacket_sealPadded`: what is sealed is opened, with any padding that the sender puts in.
* `within_of_parseUdpBody`: a body is accepted only if the padding and the address are inside of it.
* `parseUdpBodyChecked_eq`, `openUdpPacketChecked_eq`: nothing is read outside a packet.
-/

namespace WutherCore.Ss2022

open WutherCore.Text WutherCore.Data
open WutherCore.Proto
open WutherCore.Young (Bytes IoError invalidData u16Bytes u16OfBytes u64Bytes u64OfBytes u64OfBytes_u64Bytes)
open WutherCore.Ruleset.Srs (fromUtf8)

/-! ### Sealing -/

/-- The body of a packet. -/
def udpBody (direction : UdpPacketDirection) (timestamp : UInt64) (clientSessionId : Option UInt64)
    (padding address payload : List UInt8) : List UInt8 :=
  direction.headerType :: (u64Bytes timestamp ++ ((clientSessionId.map u64Bytes).getD [] ++
    (u16Bytes (UInt16.ofNat padding.length) ++ (padding ++ (address ++ payload)))))

/-- The separate header of a packet. -/
def separateHeader (sessionId packetId : UInt64) : List UInt8 := u64Bytes sessionId ++ u64Bytes packetId

variable (cr : Primitives)

/-- `Ss22Aead::seal` with a new cipher. -/
def aeadSeal (cipher : Ss22Cipher) (key nonce message : List UInt8) : Except IoError (List UInt8) :=
  if key.length ≠ cipher.keyLen then
    .error (invalidData (match cipher with
      | .aes128Gcm => "ss2022 AES-128-GCM key length"
      | .aes256Gcm => "ss2022 AES-256-GCM key length"
      | .chacha20Poly1305 => "ss2022 ChaCha20-Poly1305 key length"))
  else .ok (cr.aeadSeal cipher key nonce message)

/-- The AES part of `seal_udp_packet`. -/
def sealAesPacket (cipher : Ss22Cipher) (userPsk : List UInt8) (identityPsks : List (List UInt8))
    (direction : UdpPacketDirection) (header body : List UInt8) : Except IoError (List UInt8) := do
  let identityHeaders ←
    (if direction = .client then buildUdpEihLayers cr cipher identityPsks userPsk header else .ok [])
  let subkey := deriveSubkey cr userPsk (header.take 8) cipher.keyLen
  let encryptedBody ← aeadSeal cr cipher subkey (slice header 4 16) body
  let encryptedHeader ← aesEncryptBlock cr cipher (identityPsks.headD userPsk) header
  .ok (encryptedHeader ++ (identityHeaders ++ encryptedBody))

/-- The XChaCha20 part of `seal_udp_packet`, with the nonce that was drawn. -/
def sealXchachaPacket (xchachaSeal : List UInt8 → List UInt8 → List UInt8 → List UInt8)
    (userPsk : List UInt8) (identityPsks : List (List UInt8)) (nonce header body : List UInt8) :
    Except IoError (List UInt8) :=
  if !identityPsks.isEmpty then .error (invalidData "ss2022 chacha20 does not support EIH")
  else if userPsk.length ≠ 32 then .error (invalidData "ss2022 XChaCha20 key length")
  else .ok (nonce ++ xchachaSeal userPsk nonce (header ++ body))

/-- What both ends of an association share, and what they draw: the cipher, the key of the user and those
of the identities, and the sealing function and the nonce of XChaCha20. -/
structure UdpKeys where
  cipher : Ss22Cipher
  userPsk : List UInt8
  identityPsks : List (List UInt8)
  xchachaSeal : List UInt8 → List UInt8 → List UInt8 → List UInt8
  nonce : Bytes udpXchachaNonceLen

/-- `seal_udp_packet`, with a padding.  The function itself puts none in; other senders may. -/
def sealPadded (k : UdpKeys) (direction : UdpPacketDirection) (sessionId packetId : UInt64)
    (clientSessionId : Option UInt64) (padding address payload : List UInt8) (timestamp : UInt64) :
    Except IoError (List UInt8) :=
  if sessionId = 0 then .error (invalidData "ss2022 UDP session ID must be non-zero")
  else if direction = .server ∧ clientSessionId.isNone then
    .error (invalidData "ss2022 UDP server packet is missing the client session ID")
  else if direction = .server ∧ !k.identityPsks.isEmpty then
    .error (invalidData "ss2022 UDP response packets cannot contain EIH")
  else
    let header := separateHeader sessionId packetId
    let body := udpBody direction timestamp clientSessionId padding address payload
    match k.cipher with
    | .aes128Gcm | .aes256Gcm => sealAesPacket cr k.cipher k.userPsk k.identityPsks direction header body
    | .chacha20Poly1305 => sealXchachaPacket k.xchachaSeal k.userPsk k.identityPsks k.nonce.1 header body

/-- `seal_udp_packet`. -/
def sealUdpPacket (k : UdpKeys) (direction : UdpPacketDirection) (sessionId packetId : UInt64)
    (clientSessionId : Option UInt64) (address payload : List UInt8) (timestamp : UInt64) :
    Except IoError (List UInt8) :=
  sealPadded cr k direction sessionId packetId clientSessionId [] address payload timestamp

/-! ### What is opened -/

/-- A client names no session in its packets, a server the session of the client. -/
def Echoes : UdpPacketDirection → Option UInt64 → Prop
  | .client, clientSessionId => clientSessionId = none
  | .server, clientSessionId => ∃ id, clientSessionId = some id ∧ id ≠ 0

/-- What is sealed with a key is opened with it: the AES block and the AEADs are pairs of inverses, with
outputs of the length that they have. -/
structure UdpKeys.Lawful (k : UdpKeys) : Prop where
  aead : cr.AeadLawful
  decrypts : ∀ key block, block.length = 16 → cr.aesDecryptBlock key (cr.aesEncryptBlock key block) = block
  encryptLength : ∀ key block, block.length = 16 → (cr.aesEncryptBlock key block).length = 16
  decryptLength : ∀ key block, block.length = 16 → (cr.aesDecryptBlock key block).length = 16
  hashLength : ∀ message, (cr.hash message).length = 32
  xchachaOpens : ∀ key nonce message,
    cr.xchachaOpen key nonce (k.xchachaSeal key nonce message) = some message
  xchachaLength : ∀ key nonce message, (k.xchachaSeal key nonce message).length = message.length + 16

variable {cr} {k : UdpKeys} {direction : UdpPacketDirection} {sessionId packetId timestamp : UInt64}
  {clientSessionId : Option UInt64} {padding address payload : List UInt8} {now : Nat}

/-- The end of a body: what follows the padding. -/
def readTail (sessionId packetId : UInt64) (clientSessionId : Option UInt64) (rest : List UInt8) :
    Except IoError DecodedUdpPacket := do
  let (target, port, addressLen) ← decodeSocksAddr rest
  if rest.length < addressLen then .error (invalidData "ss2022 UDP address is truncated")
  else .ok ⟨sessionId, packetId, clientSessionId, target, port, rest.drop addressLen⟩

theorem parseUdpBody_udpBody (hecho : Echoes direction clientSessionId) (hpadding : padding.length < 2 ^ 16) :
    parseUdpBody direction sessionId packetId
        (udpBody direction timestamp clientSessionId padding address payload) now =
      if !timestampWithinTolerance timestamp.toNat now then
        .error (invalidData "ss2022 UDP timestamp is out of tolerance")
      else readTail sessionId packetId clientSessionId (address ++ payload) := by
  set tail := u16Bytes (UInt16.ofNat padding.length) ++ (padding ++ (address ++ payload)) with htail
  have hlen : beAt 2 tail 0 = padding.length := by
    rw [beAt, htail, slice_append_left (by simp), slice_zero_length (by simp), u16Bytes,
      UInt16.toNat_ofNat_of_lt' hpadding, ofBytesBE_toBytesBE (by simpa using hpadding)]
  have hdrop : (tail.drop 2).drop padding.length = address ++ payload := by
    rw [htail, List.drop_left' (by simp), List.drop_left' rfl]
  have hlong : ¬(tail.drop 2).length < padding.length := by
    rw [htail, List.drop_left' (by simp), List.length_append]
    omega
  set body := udpBody direction timestamp clientSessionId padding address payload with hbody
  have htype : byteAt body 0 = direction.headerType := rfl
  have htime : beAt 8 body 1 = timestamp.toNat := by
    have hbytes : slice body 1 (1 + 8) = u64Bytes timestamp := by
      have hsplit : body = [direction.headerType] ++
          (u64Bytes timestamp ++ ((clientSessionId.map u64Bytes).getD [] ++ tail)) := rfl
      rw [hsplit]
      exact slice_middle rfl (by simp)
    rw [beAt, hbytes]
    exact ofBytesBE_toBytesBE timestamp.toNat_lt
  have hrest : body.drop 9 = (clientSessionId.map u64Bytes).getD [] ++ tail := by
    rw [hbody, udpBody, List.drop_succ_cons]
    exact List.drop_left' (by simp)
  have hid : parseClientSessionId direction (body.drop 9) = .ok (clientSessionId, tail) := by
    rw [hrest]
    cases direction with
    | client =>
      have hnone : clientSessionId = none := hecho
      rw [hnone]
      rfl
    | server =>
      obtain ⟨id, rfl, hid⟩ := hecho
      have htake : (u64Bytes id ++ tail).take 8 = u64Bytes id := List.take_left' (by simp)
      have hdrop : (u64Bytes id ++ tail).drop 8 = tail := List.drop_left' (by simp)
      simp only [parseClientSessionId, Option.map_some, Option.getD_some, htake, hdrop, u64OfBytes_u64Bytes]
      rw [if_neg hid]
  have hfixed : ¬body.length < 1 + 8 + (if direction = .server then 8 else 0) + 2 := by
    have htailLen : 2 ≤ tail.length := by simp [htail]
    have hbodyLen : body.length = 9 + (body.drop 9).length := by
      have hnine : 9 ≤ body.length := by simp [hbody, udpBody]
      rw [List.length_drop]
      omega
    cases direction with
    | client => simp [hbodyLen, hrest]; omega
    | server =>
      obtain ⟨id, rfl, -⟩ := hecho
      simp [hbodyLen, hrest]
      omega
  simp only [parseUdpBody, if_neg hfixed, htype, htime, hid, ne_eq, not_true_eq_false, if_false, bind,
    Except.bind, hlen, hdrop, if_neg hlong, readTail]

theorem readTail_eq_ok {host : Str} {port : UInt16} :
    readTail sessionId packetId clientSessionId (address ++ payload) =
        .ok ⟨sessionId, packetId, clientSessionId, host, port, payload⟩ ↔
      decodeSocksAddr address = .ok (host, port, address.length) := by
  constructor
  · intro h
    obtain ⟨⟨target, port', n⟩, hdecode, hrest⟩ := bind_eq_ok.1 h
    dsimp only at hrest
    split_ifs at hrest with hlen
    simp only [Except.ok.injEq, DecodedUdpPacket.mk.injEq, true_and] at hrest
    obtain ⟨rfl, rfl, hpayload⟩ := hrest
    -- What is left is the payload, so what was read is the address.
    have hn : n = address.length := by
      have hrestLen := congrArg List.length hpayload
      rw [List.length_drop, List.length_append] at hrestLen
      rw [List.length_append] at hlen
      omega
    rw [hn] at hdecode
    exact (decodeSocksAddr_append_iff (Nat.le_refl _)).1 hdecode
  · intro h
    have hdecode : decodeSocksAddr (address ++ payload) = .ok (host, port, address.length) :=
      (decodeSocksAddr_append_iff (Nat.le_refl _)).2 h
    rw [readTail, hdecode]
    simp [bind, Except.bind]

/-! ### What is decrypted -/

theorem aesDecryptBlock_of_encrypt (hk : k.Lawful cr) {cipher : Ss22Cipher} {key block out : List UInt8}
    (hblock : block.length = 16) (h : aesEncryptBlock cr cipher key block = .ok out) :
    aesDecryptBlock cr cipher key out = .ok block ∧ out.length = 16 := by
  cases cipher <;> simp only [aesEncryptBlock, aesDecryptBlock, aesBlock] at h ⊢
  case chacha20Poly1305 => cases h
  all_goals
    split_ifs at h with hkey
    cases h
    rw [if_pos hkey, hk.decrypts key block hblock]
    exact ⟨rfl, hk.encryptLength key block hblock⟩

theorem aeadOpen_of_seal (hk : k.Lawful cr) {cipher : Ss22Cipher} {key nonce message out : List UInt8}
    (h : aeadSeal cr cipher key nonce message = .ok out) :
    aeadOpen cr cipher key nonce out = .ok message ∧ out.length = message.length + 16 := by
  unfold aeadSeal at h
  split_ifs at h with hkey
  cases h
  simp only [aeadOpen, if_neg hkey, hk.aead.opens]
  exact ⟨trivial, hk.aead.length ..⟩

theorem eihLayers_length (hk : k.Lawful cr) {cipher : Ss22Cipher} {userPsk header : List UInt8}
    (hheader : header.length = 16) {identityPsks : List (List UInt8)} {out : List UInt8}
    (h : eihLayers cr cipher userPsk header identityPsks = .ok out) :
    out.length = identityPsks.length * 16 := by
  induction identityPsks generalizing out with
  | nil =>
    cases h
    rfl
  | cons identityPsk rest ih =>
    obtain ⟨block, hblock, hrest⟩ := bind_eq_ok.1 h
    obtain ⟨more, hmore, hout⟩ := bind_eq_ok.1 hrest
    cases hout
    have hplain : (List.zipWith (· ^^^ ·) ((cr.hash (rest.headD userPsk)).take 16) header).length = 16 := by
      simp [hk.hashLength, hheader]
    have hlen := (aesDecryptBlock_of_encrypt hk hplain hblock).2
    rw [List.length_append, hlen, ih hmore, List.length_cons]
    omega

theorem buildUdpEihLayers_length (hk : k.Lawful cr) {cipher : Ss22Cipher} {userPsk header : List UInt8}
    (hheader : header.length = 16) {identityPsks : List (List UInt8)} {out : List UInt8}
    (h : buildUdpEihLayers cr cipher identityPsks userPsk header = .ok out) :
    out.length = identityPsks.length * 16 := by
  unfold buildUdpEihLayers at h
  split_ifs at h with hnil
  · cases h
    rw [List.isEmpty_iff.1 hnil]
    rfl
  · exact eihLayers_length hk hheader h

theorem openAesPacket_seal (hk : k.Lawful cr) {cipher : Ss22Cipher} {userPsk header body packet : List UInt8}
    {identityPsks : List (List UInt8)} (hheader : header.length = 16)
    (h : sealAesPacket cr cipher userPsk identityPsks direction header body = .ok packet) :
    openAesPacket cr cipher userPsk identityPsks direction packet = .ok (header, body) := by
  obtain ⟨identityHeaders, hidentity, h⟩ := bind_eq_ok.1 h
  obtain ⟨encryptedBody, hbody, h⟩ := bind_eq_ok.1 h
  obtain ⟨encryptedHeader, hencrypted, h⟩ := bind_eq_ok.1 h
  cases h
  obtain ⟨hdecrypt, hlen⟩ := aesDecryptBlock_of_encrypt hk hheader hencrypted
  obtain ⟨hopen, hbodyLen⟩ := aeadOpen_of_seal hk hbody
  -- The identity headers are as long as the receiver expects, and are those that it computes.
  set identityLen := if direction = .client then identityPsks.length * 16 else 0 with hidentityLen
  have hidLen : identityHeaders.length = identityLen := by
    rw [hidentityLen]
    split_ifs at hidentity ⊢ with hclient
    · exact buildUdpEihLayers_length hk hheader hidentity
    · cases hidentity
      rfl
  have hexpected : 0 < identityLen →
      buildUdpEihLayers cr cipher identityPsks userPsk header = .ok identityHeaders := by
    intro hpos
    have hclient : direction = .client := by
      by_contra hne
      rw [hidentityLen, if_neg hne] at hpos
      omega
    rwa [if_pos hclient] at hidentity
  have hlong : ¬(encryptedHeader ++ (identityHeaders ++ encryptedBody)).length <
      udpAesSeparateHeaderLen + identityLen + udpTagLen := by
    simp only [List.length_append, hlen, hidLen, hbodyLen, udpAesSeparateHeaderLen, udpTagLen]
    omega
  have htake : (encryptedHeader ++ (identityHeaders ++ encryptedBody)).take udpAesSeparateHeaderLen =
      encryptedHeader := List.take_left' hlen
  have hslice : slice (encryptedHeader ++ (identityHeaders ++ encryptedBody)) udpAesSeparateHeaderLen
      (udpAesSeparateHeaderLen + identityLen) = identityHeaders := slice_middle hlen (by rw [hidLen])
  have hdrop : (encryptedHeader ++ (identityHeaders ++ encryptedBody)).drop
      (udpAesSeparateHeaderLen + identityLen) = encryptedBody := by
    rw [← List.append_assoc]
    exact List.drop_left' (by rw [List.length_append, hlen, hidLen]; rfl)
  simp only [openAesPacket, ← hidentityLen, if_neg hlong, htake, hdecrypt, hslice, hdrop, hopen, bind,
    Except.bind, ne_eq]
  split_ifs with hpos hnil
  · simp only [hexpected hpos, not_true_eq_false, if_false]
    rfl
  · rfl
  · exact absurd (List.eq_nil_of_length_eq_zero (by omega)) hnil

theorem openXchachaPacket_seal (hk : k.Lawful cr) {userPsk header body packet : List UInt8}
    {identityPsks : List (List UInt8)} (hheader : header.length = 16)
    (h : sealXchachaPacket k.xchachaSeal userPsk identityPsks k.nonce.1 header body = .ok packet) :
    openXchachaPacket cr userPsk identityPsks packet = .ok (header, body) := by
  unfold sealXchachaPacket at h
  split_ifs at h with hnone hkey
  cases h
  have hsealed := hk.xchachaLength userPsk k.nonce.1 (header ++ body)
  have htake : (k.nonce.1 ++ k.xchachaSeal userPsk k.nonce.1 (header ++ body)).take udpXchachaNonceLen =
      k.nonce.1 := List.take_left' k.nonce.2
  have hdrop : (k.nonce.1 ++ k.xchachaSeal userPsk k.nonce.1 (header ++ body)).drop udpXchachaNonceLen =
      k.xchachaSeal userPsk k.nonce.1 (header ++ body) := List.drop_left' k.nonce.2
  rw [openXchachaPacket, if_neg hnone, if_neg, if_neg hkey, htake, hdrop, hk.xchachaOpens]
  · dsimp only
    rw [if_neg, List.take_left' (i := udpAesSeparateHeaderLen) hheader,
      List.drop_left' (i := udpAesSeparateHeaderLen) hheader]
    simp [hheader, udpAesSeparateHeaderLen]
  · simp only [List.length_append, hsealed, hheader, k.nonce.2, udpXchachaNonceLen, udpTagLen,
      udpAesSeparateHeaderLen]
    omega

@[simp] theorem separateHeader_length : (separateHeader sessionId packetId).length = 16 := by
  simp [separateHeader]

theorem openUdpPacket_eq (hk : k.Lawful cr) {packet : List UInt8}
    (hsealed : sealPadded cr k direction sessionId packetId clientSessionId padding address payload
      timestamp = .ok packet) :
    openUdpPacket cr k.cipher k.userPsk k.identityPsks direction packet now =
      parseUdpBody direction sessionId packetId
        (udpBody direction timestamp clientSessionId padding address payload) now := by
  unfold sealPadded at hsealed
  split_ifs at hsealed with hsession hclient hidentity
  dsimp only at hsealed
  have hopen : openSealed cr k.cipher k.userPsk k.identityPsks direction packet =
      .ok (separateHeader sessionId packetId,
        udpBody direction timestamp clientSessionId padding address payload) := by
    unfold openSealed
    cases hcipher : k.cipher <;> rw [hcipher] at hsealed
    · exact openAesPacket_seal hk separateHeader_length hsealed
    · exact openAesPacket_seal hk separateHeader_length hsealed
    · exact openXchachaPacket_seal hk separateHeader_length hsealed
  have hsessionId : (separateHeader sessionId packetId).take 8 = u64Bytes sessionId :=
    List.take_left' (by simp)
  have hpacketId : (separateHeader sessionId packetId).drop 8 = u64Bytes packetId :=
    List.drop_left' (by simp)
  simp only [openUdpPacket, hopen, bind, Except.bind, hsessionId, hpacketId, u64OfBytes_u64Bytes]
  rw [if_neg hsession]

theorem openUdpPacket_sealPadded (hk : k.Lawful cr) {packet : List UInt8}
    (hsealed : sealPadded cr k direction sessionId packetId clientSessionId padding address payload
      timestamp = .ok packet)
    (hecho : Echoes direction clientSessionId) (hpadding : padding.length < 2 ^ 16) (host : Str)
    (port : UInt16) :
    openUdpPacket cr k.cipher k.userPsk k.identityPsks direction packet now =
        .ok ⟨sessionId, packetId, clientSessionId, host, port, payload⟩ ↔
      timestampWithinTolerance timestamp.toNat now ∧
        decodeSocksAddr address = .ok (host, port, address.length) := by
  rw [openUdpPacket_eq hk hsealed, parseUdpBody_udpBody hecho hpadding]
  cases hfresh : timestampWithinTolerance timestamp.toNat now with
  | false => simp
  | true => simpa using readTail_eq_ok

/-! ### Parsing in bounds -/

/-- The next bytes of a cursor, and the cursor behind them. -/
def nextBytes (n : Nat) (cursor : List UInt8) : Option (List UInt8 × List UInt8) :=
  if n ≤ cursor.length then some (cursor.take n, cursor.drop n) else none

/-- `decode_socks_addr`, with its reads and slices. -/
def decodeSocksAddrChecked (buf : List UInt8) : Option (Except IoError (Str × UInt16 × Nat)) :=
  if buf.isEmpty then some (.error (invalidData "missing socks address type"))
  else do
    let kind ← buf[0]?
    if kind = 0x01 then
      if buf.length < 1 + 4 + 2 then return .error (invalidData "truncated ipv4 socks address")
      else
        let ip ← checkedSlice buf 1 5
        let port ← checkedSlice buf 5 7
        return .ok (Net.displayIpv4 (BitVec.ofNat 32 (ofBytesBE ip)), u16OfBytes port, 7)
    else if kind = 0x03 then
      if buf.length < 2 then return .error (invalidData "truncated domain socks address")
      else
        let len := (← buf[1]?).toNat
        if buf.length < 2 + len + 2 then return .error (invalidData "truncated domain socks address body")
        else
          let host ← checkedSlice buf 2 (2 + len)
          match fromUtf8 host with
          | none => return .error (invalidData "invalid domain socks address")
          | some host =>
            let port ← checkedSlice buf (2 + len) (4 + len)
            return .ok (host, u16OfBytes port, 2 + len + 2)
    else if kind = 0x04 then
      if buf.length < 1 + 16 + 2 then return .error (invalidData "truncated ipv6 socks address")
      else
        let ip ← checkedSlice buf 1 17
        let port ← checkedSlice buf 17 19
        return .ok (Net.displayIpv6 (BitVec.ofNat 128 (ofBytesBE ip)), u16OfBytes port, 19)
    else return .error (invalidData "unsupported socks address type")

/-- The end of `parse_udp_body`, from the padding on. -/
def parseUdpTailChecked (sessionId packetId : UInt64) (clientSessionId : Option UInt64)
    (cursor : List UInt8) : Option (Except IoError DecodedUdpPacket) := do
  let (lenBytes, cursor) ← nextBytes 2 cursor
  let paddingLen := ofBytesBE lenBytes
  if cursor.length < paddingLen then return .error (invalidData "ss2022 UDP padding is truncated")
  else
    let (_, cursor) ← nextBytes paddingLen cursor
    match ← decodeSocksAddrChecked cursor with
    | .error e => return .error e
    | .ok (target, port, addressLen) =>
      if cursor.length < addressLen then return .error (invalidData "ss2022 UDP address is truncated")
      else
        let (_, payload) ← nextBytes addressLen cursor
        return .ok ⟨sessionId, packetId, clientSessionId, target, port, payload⟩

/-- `parse_udp_body`, with its reads from a cursor. -/
def parseUdpBodyChecked (direction : UdpPacketDirection) (sessionId packetId : UInt64) (body : List UInt8)
    (now : Nat) : Option (Except IoError DecodedUdpPacket) :=
  let fixedLen := 1 + 8 + (if direction = .server then 8 else 0) + 2
  if body.length < fixedLen then some (.error (invalidData "ss2022 UDP body is truncated"))
  else do
    let (packetType, cursor) ← nextBytes 1 body
    if packetType ≠ [direction.headerType] then
      return .error (invalidData "ss2022 UDP packet direction is invalid")
    else
      let (timestamp, cursor) ← nextBytes 8 cursor
      if !timestampWithinTolerance (ofBytesBE timestamp) now then
        return .error (invalidData "ss2022 UDP timestamp is out of tolerance")
      else
        match direction with
        | .client => parseUdpTailChecked sessionId packetId none cursor
        | .server =>
          let (id, cursor) ← nextBytes 8 cursor
          if u64OfBytes id = 0 then
            return .error (invalidData "ss2022 UDP response has a zero client session ID")
          else parseUdpTailChecked sessionId packetId (some (u64OfBytes id)) cursor

/-- The AES part of `open_udp_packet`, with its slices of the packet. -/
def openAesPacketChecked (cr : Primitives) (cipher : Ss22Cipher) (userPsk : List UInt8)
    (identityPsks : List (List UInt8)) (direction : UdpPacketDirection) (packet : List UInt8) :
    Option (Except IoError (List UInt8 × List UInt8)) :=
  let identityLen := if direction = .client then identityPsks.length * 16 else 0
  let bodyOffset := udpAesSeparateHeaderLen + identityLen
  if packet.length < bodyOffset + udpTagLen then
    some (.error (invalidData "ss2022 UDP AES packet is truncated"))
  else do
    let header ← checkedSlice packet 0 udpAesSeparateHeaderLen
    match aesDecryptBlock cr cipher (identityPsks.headD userPsk) header with
    | .error e => return .error e
    | .ok separateHeader =>
      let found ← checkedSlice packet udpAesSeparateHeaderLen bodyOffset
      match (if 0 < identityLen then buildUdpEihLayers cr cipher identityPsks userPsk separateHeader
        else .ok []) with
      | .error e => return .error e
      | .ok expected =>
        if found ≠ expected then return .error (invalidData "ss2022 UDP EIH validation failed")
        else
          let session ← checkedSlice separateHeader 0 8
          let nonce ← checkedSlice separateHeader 4 16
          let sealedBody ← checkedSlice packet bodyOffset packet.length
          match aeadOpen cr cipher (deriveSubkey cr userPsk session cipher.keyLen) nonce sealedBody with
          | .error e => return .error e
          | .ok body => return .ok (separateHeader, body)

/-- The XChaCha20 part of `open_udp_packet`, with its slices of the packet. -/
def openXchachaPacketChecked (cr : Primitives) (userPsk : List UInt8) (identityPsks : List (List UInt8))
    (packet : List UInt8) : Option (Except IoError (List UInt8 × List UInt8)) :=
  if !identityPsks.isEmpty then some (.error (invalidData "ss2022 chacha20 does not support EIH"))
  else if packet.length < udpXchachaNonceLen + udpTagLen + udpAesSeparateHeaderLen then
    some (.error (invalidData "ss2022 UDP XChaCha20 packet is truncated"))
  else if userPsk.length ≠ 32 then some (.error (invalidData "ss2022 XChaCha20 key length"))
  else do
    let nonce ← checkedSlice packet 0 udpXchachaNonceLen
    let sealedBody ← checkedSlice packet udpXchachaNonceLen packet.length
    match cr.xchachaOpen userPsk nonce sealedBody with
    | none => return .error (invalidData "ss2022 XChaCha20 UDP open failed")
    | some plaintext =>
      if plaintext.length < udpAesSeparateHeaderLen then
        return .error (invalidData "ss2022 UDP XChaCha20 plaintext is truncated")
      else
        let header ← checkedSlice plaintext 0 udpAesSeparateHeaderLen
        let body ← checkedSlice plaintext udpAesSeparateHeaderLen plaintext.length
        return .ok (header, body)

/-- The first part of `open_udp_packet`, with its slices of the packet. -/
def openSealedChecked (cr : Primitives) (cipher : Ss22Cipher) (userPsk : List UInt8)
    (identityPsks : List (List UInt8)) (direction : UdpPacketDirection) (packet : List UInt8) :
    Option (Except IoError (List UInt8 × List UInt8)) :=
  match cipher with
  | .aes128Gcm | .aes256Gcm => openAesPacketChecked cr cipher userPsk identityPsks direction packet
  | .chacha20Poly1305 => openXchachaPacketChecked cr userPsk identityPsks packet

/-- `open_udp_packet`, with its slices. -/
def openUdpPacketChecked (cr : Primitives) (cipher : Ss22Cipher) (userPsk : List UInt8)
    (identityPsks : List (List UInt8)) (direction : UdpPacketDirection) (packet : List UInt8) (now : Nat) :
    Option (Except IoError DecodedUdpPacket) := do
  match ← openSealedChecked cr cipher userPsk identityPsks direction packet with
  | .error e => return .error e
  | .ok (separateHeader, body) =>
    let session ← checkedSlice separateHeader 0 8
    if u64OfBytes session = 0 then
      return .error (invalidData "ss2022 UDP session ID must be non-zero")
    else
      let packetId ← checkedSlice separateHeader 8 separateHeader.length
      parseUdpBodyChecked direction (u64OfBytes session) (u64OfBytes packetId) body now

theorem decodeSocksAddrChecked_eq (buf : List UInt8) :
    decodeSocksAddrChecked buf = some (decodeSocksAddr buf) := by
  cases buf with
  | nil => rfl
  | cons kind tl =>
    have hkind : (kind :: tl)[0]? = some kind := rfl
    unfold decodeSocksAddrChecked
    rw [if_neg (by simp), hkind, Option.bind_eq_bind, Option.bind_some]
    by_cases hv4 : kind = 0x01
    · subst hv4
      rw [if_pos rfl, decodeSocksAddr_ipv4]
      split_ifs with hlen
      · rfl
      · rw [checkedSlice_eq (by omega) (by omega), checkedSlice_eq (by omega) (by omega)]
        rfl
    rw [if_neg hv4]
    by_cases hdomain : kind = 0x03
    · subst hdomain
      rw [if_pos rfl, decodeSocksAddr_domain]
      by_cases hlen : (0x03 :: tl).length < 2
      · rw [if_pos hlen, if_pos hlen]
        rfl
      rw [if_neg hlen, if_neg hlen, byteAt_eq_getElem? (by omega), Option.bind_some]
      dsimp only
      split_ifs with hbody
      · rfl
      · rw [checkedSlice_eq (by omega) (by omega), checkedSlice_eq (by omega) (by omega),
          Option.bind_eq_bind, Option.bind_some]
        cases fromUtf8 (slice (0x03 :: tl) 2 (2 + (byteAt (0x03 :: tl) 1).toNat)) <;> rfl
    rw [if_neg hdomain]
    by_cases hv6 : kind = 0x04
    · subst hv6
      rw [if_pos rfl, decodeSocksAddr_ipv6]
      split_ifs with hlen
      · rfl
      · rw [checkedSlice_eq (by omega) (by omega), checkedSlice_eq (by omega) (by omega)]
        rfl
    · rw [if_neg hv6, decodeSocksAddr_other hv4 hdomain hv6]
      rfl

theorem nextBytes_eq {n : Nat} {cursor : List UInt8} (h : n ≤ cursor.length) :
    nextBytes n cursor = some (cursor.take n, cursor.drop n) := if_pos h

/-- `parse_udp_body`, from the padding on. -/
def parseUdpTail (sessionId packetId : UInt64) (clientSessionId : Option UInt64) (cursor : List UInt8) :
    Except IoError DecodedUdpPacket :=
  if (cursor.drop 2).length < beAt 2 cursor 0 then
    .error (invalidData "ss2022 UDP padding is truncated")
  else readTail sessionId packetId clientSessionId ((cursor.drop 2).drop (beAt 2 cursor 0))

theorem parseUdpTailChecked_eq {cursor : List UInt8} (h : 2 ≤ cursor.length) :
    parseUdpTailChecked sessionId packetId clientSessionId cursor =
      some (parseUdpTail sessionId packetId clientSessionId cursor) := by
  have hbytes : ofBytesBE (cursor.take 2) = beAt 2 cursor 0 := by simp [beAt, slice]
  unfold parseUdpTailChecked parseUdpTail
  rw [nextBytes_eq h, Option.bind_eq_bind, Option.bind_some]
  simp only [hbytes]
  split_ifs with hpadding
  · rfl
  · rw [nextBytes_eq (by omega), Option.bind_eq_bind, Option.bind_some]
    simp only [decodeSocksAddrChecked_eq, Option.bind_some, readTail]
    cases decodeSocksAddr ((cursor.drop 2).drop (beAt 2 cursor 0)) with
    | error e => rfl
    | ok found =>
      simp only [bind, Except.bind]
      split_ifs with hlen
      · rfl
      · rw [nextBytes_eq (by omega)]
        rfl

theorem parseUdpBody_eq (body : List UInt8) :
    parseUdpBody direction sessionId packetId body now =
      if body.length < 1 + 8 + (if direction = .server then 8 else 0) + 2 then
        .error (invalidData "ss2022 UDP body is truncated")
      else if byteAt body 0 ≠ direction.headerType then
        .error (invalidData "ss2022 UDP packet direction is invalid")
      else if !timestampWithinTolerance (beAt 8 body 1) now then
        .error (invalidData "ss2022 UDP timestamp is out of tolerance")
      else (parseClientSessionId direction (body.drop 9)).bind fun p =>
        parseUdpTail sessionId packetId p.1 p.2 := rfl

theorem parseUdpBodyChecked_eq (direction : UdpPacketDirection) (sessionId packetId : UInt64)
    (body : List UInt8) (now : Nat) :
    parseUdpBodyChecked direction sessionId packetId body now =
      some (parseUdpBody direction sessionId packetId body now) := by
  rw [parseUdpBody_eq]
  unfold parseUdpBodyChecked
  dsimp only
  by_cases hlen : body.length < 1 + 8 + (if direction = .server then 8 else 0) + 2
  · rw [if_pos hlen, if_pos hlen]
  have hfixed : 11 ≤ body.length := by
    split_ifs at hlen <;> omega
  have htake : body.take 1 = [byteAt body 0] := by
    rw [List.take_one, List.head?_eq_getElem?, byteAt_eq_getElem? (by omega)]
    rfl
  have htime : ofBytesBE ((body.drop 1).take 8) = beAt 8 body 1 := by simp [beAt, slice]
  rw [if_neg hlen, if_neg hlen, nextBytes_eq (by omega), Option.bind_eq_bind, Option.bind_some]
  simp only [htake, ne_eq, List.cons.injEq, and_true]
  by_cases htype : byteAt body 0 = direction.headerType
  · rw [if_neg (not_not.2 htype), if_neg (not_not.2 htype), nextBytes_eq (by simp; omega), Option.bind_some]
    simp only [htime, List.drop_drop]
    split_ifs with hfresh
    · rfl
    · cases direction with
      | client =>
        exact parseUdpTailChecked_eq (by simp; omega)
      | server =>
        have hserver : 19 ≤ body.length := by simpa using hlen
        simp only [parseClientSessionId]
        rw [nextBytes_eq (by simp; omega), Option.bind_some]
        simp only [List.drop_drop]
        split_ifs with hid
        · rfl
        · exact parseUdpTailChecked_eq (by simp; omega)
  · rw [if_pos htype, if_pos htype]
    rfl

theorem aesDecryptBlock_length (hk : k.Lawful cr) {cipher : Ss22Cipher} {key block out : List UInt8}
    (hblock : block.length = 16) (h : aesDecryptBlock cr cipher key block = .ok out) : out.length = 16 := by
  cases cipher <;> simp only [aesDecryptBlock, aesBlock] at h
  case chacha20Poly1305 => cases h
  all_goals
    split_ifs at h
    cases h
    exact hk.decryptLength key block hblock

theorem openAesPacketChecked_eq (hk : k.Lawful cr) (cipher : Ss22Cipher) (userPsk : List UInt8)
    (identityPsks : List (List UInt8)) (direction : UdpPacketDirection) (packet : List UInt8) :
    openAesPacketChecked cr cipher userPsk identityPsks direction packet =
      some (openAesPacket cr cipher userPsk identityPsks direction packet) := by
  unfold openAesPacketChecked openAesPacket
  generalize (if direction = .client then identityPsks.length * 16 else 0) = identityLen
  dsimp only
  by_cases hshort : packet.length < udpAesSeparateHeaderLen + identityLen + udpTagLen
  · rw [if_pos hshort, if_pos hshort]
  rw [if_neg hshort, if_neg hshort, checkedSlice_take (by omega), Option.bind_eq_bind, Option.bind_some]
  have htake : (packet.take udpAesSeparateHeaderLen).length = 16 := by
    rw [List.length_take_of_le (by omega)]
    rfl
  cases hdecrypt : aesDecryptBlock cr cipher (identityPsks.headD userPsk)
      (packet.take udpAesSeparateHeaderLen) with
  | error e => rfl
  | ok header =>
    have hheader := aesDecryptBlock_length hk htake hdecrypt
    simp only [bind, Except.bind]
    rw [checkedSlice_eq (by omega) (by omega), Option.bind_some, checkedSlice_take (by omega),
      checkedSlice_eq (by omega) (by omega), checkedSlice_drop (by omega)]
    simp only [Option.bind_some]
    split_ifs with hpos
    · cases buildUdpEihLayers cr cipher identityPsks userPsk header with
      | error e => rfl
      | ok expected =>
        dsimp only
        split_ifs
        · rfl
        · cases aeadOpen cr cipher (deriveSubkey cr userPsk (header.take 8) cipher.keyLen) (slice header 4 16)
            (packet.drop (udpAesSeparateHeaderLen + identityLen)) <;> rfl
    all_goals dsimp only
    · rw [if_pos ‹_›]
      rfl
    · rw [if_neg ‹_›]
      cases aeadOpen cr cipher (deriveSubkey cr userPsk (header.take 8) cipher.keyLen) (slice header 4 16)
        (packet.drop (udpAesSeparateHeaderLen + identityLen)) <;> rfl

theorem openXchachaPacketChecked_eq (userPsk : List UInt8) (identityPsks : List (List UInt8))
    (packet : List UInt8) :
    openXchachaPacketChecked cr userPsk identityPsks packet =
      some (openXchachaPacket cr userPsk identityPsks packet) := by
  unfold openXchachaPacketChecked openXchachaPacket
  split_ifs with hnone hshort hkey
  · rfl
  · rfl
  · rfl
  · rw [checkedSlice_take (by omega), checkedSlice_drop (by omega), Option.bind_eq_bind, Option.bind_some,
      Option.bind_some]
    cases cr.xchachaOpen userPsk (packet.take udpXchachaNonceLen) (packet.drop udpXchachaNonceLen) with
    | none => rfl
    | some plaintext =>
      dsimp only
      split_ifs with hplain
      · rfl
      · rw [checkedSlice_take (by omega), checkedSlice_drop (by omega)]
        rfl

theorem openAesPacket_header_length (hk : k.Lawful cr) {cipher : Ss22Cipher}
    {userPsk header body packet : List UInt8} {identityPsks : List (List UInt8)}
    (h : openAesPacket cr cipher userPsk identityPsks direction packet = .ok (header, body)) :
    header.length = 16 := by
  unfold openAesPacket at h
  generalize (if direction = .client then identityPsks.length * 16 else 0) = identityLen at h
  dsimp only at h
  by_cases hshort : packet.length < udpAesSeparateHeaderLen + identityLen + udpTagLen
  · rw [if_pos hshort] at h
    cases h
  rw [if_neg hshort] at h
  obtain ⟨found, hdecrypt, h⟩ := bind_eq_ok.1 h
  have htake : (packet.take udpAesSeparateHeaderLen).length = 16 := by
    rw [List.length_take_of_le (by omega)]
    rfl
  have hfound : found = header := by
    split at h
    all_goals
      obtain ⟨expected, -, h⟩ := bind_eq_ok.1 h
      split at h
      · cases h
      · obtain ⟨plain, -, h⟩ := bind_eq_ok.1 h
        cases h
        rfl
  rw [← hfound]
  exact aesDecryptBlock_length hk htake hdecrypt

theorem openXchachaPacket_header_length {userPsk header body packet : List UInt8}
    {identityPsks : List (List UInt8)}
    (h : openXchachaPacket cr userPsk identityPsks packet = .ok (header, body)) : header.length = 16 := by
  unfold openXchachaPacket at h
  split_ifs at h
  split at h
  · cases h
  · split_ifs at h with hplain
    cases h
    rw [List.length_take_of_le (by omega)]
    rfl

theorem openUdpPacketChecked_eq (hk : k.Lawful cr) (cipher : Ss22Cipher) (userPsk : List UInt8)
    (identityPsks : List (List UInt8)) (direction : UdpPacketDirection) (packet : List UInt8) (now : Nat) :
    openUdpPacketChecked cr cipher userPsk identityPsks direction packet now =
      some (openUdpPacket cr cipher userPsk identityPsks direction packet now) := by
  have hopened : openSealedChecked cr cipher userPsk identityPsks direction packet =
      some (openSealed cr cipher userPsk identityPsks direction packet) := by
    cases cipher with
    | aes128Gcm => exact openAesPacketChecked_eq hk ..
    | aes256Gcm => exact openAesPacketChecked_eq hk ..
    | chacha20Poly1305 => exact openXchachaPacketChecked_eq ..
  unfold openUdpPacketChecked openUdpPacket
  rw [hopened, Option.bind_eq_bind, Option.bind_some]
  cases hsealed : openSealed cr cipher userPsk identityPsks direction packet with
  | error e => rfl
  | ok found =>
    obtain ⟨header, body⟩ := found
    have hheader : header.length = 16 := by
      cases cipher with
      | aes128Gcm => exact openAesPacket_header_length hk hsealed
      | aes256Gcm => exact openAesPacket_header_length hk hsealed
      | chacha20Poly1305 => exact openXchachaPacket_header_length hsealed
    simp only [bind, Except.bind]
    rw [checkedSlice_take (by omega), Option.bind_some]
    split_ifs with hsession
    · rfl
    · rw [checkedSlice_drop (by omega), Option.bind_some]
      exact parseUdpBodyChecked_eq ..

/-! ### What is accepted -/

/-- Where the padding of a body ends, by its length field. -/
def paddingEnd (direction : UdpPacketDirection) (body : List UInt8) : Nat :=
  let fixedLen := 1 + 8 + (if direction = .server then 8 else 0) + 2
  fixedLen + beAt 2 body (fixedLen - 2)

/-- Where the address behind it ends, by its first two bytes. -/
def addressEnd (direction : UdpPacketDirection) (body : List UInt8) : Nat :=
  paddingEnd direction body + addressSize (body.drop (paddingEnd direction body))

theorem within_of_parseUdpBody {body : List UInt8} {d : DecodedUdpPacket}
    (h : parseUdpBody direction sessionId packetId body now = .ok d) :
    addressEnd direction body ≤ body.length ∧
      decodeSocksAddr (slice body (paddingEnd direction body) (addressEnd direction body)) =
        .ok (d.target, d.port, addressEnd direction body - paddingEnd direction body) ∧
      d.payload = body.drop (addressEnd direction body) := by
  rw [parseUdpBody_eq] at h
  set fixedLen := 1 + 8 + (if direction = .server then 8 else 0) + 2 with hfixedLen
  split_ifs at h with hlen htype hfresh
  obtain ⟨⟨id, cursor⟩, hid, htail⟩ := bind_eq_ok.1 h
  -- The cursor stands before the length of the padding.
  have hcursor : cursor = body.drop (fixedLen - 2) := by
    cases direction with
    | client =>
      cases hid
      rfl
    | server =>
      simp only [parseClientSessionId] at hid
      split_ifs at hid
      cases hid
      rw [List.drop_drop]
      rfl
  have hpad : beAt 2 cursor 0 = beAt 2 body (fixedLen - 2) := by
    rw [hcursor]
    simp [beAt, slice]
  have hdrop : (cursor.drop 2).drop (beAt 2 cursor 0) = body.drop (paddingEnd direction body) := by
    have hend : paddingEnd direction body = fixedLen - 2 + 2 + beAt 2 body (fixedLen - 2) := by
      rw [paddingEnd, ← hfixedLen]
      omega
    rw [hpad, hcursor, List.drop_drop, List.drop_drop, hend, Nat.add_assoc]
  simp only [parseUdpTail] at htail
  split_ifs at htail with hpadding
  rw [hdrop, readTail] at htail
  obtain ⟨⟨target, port, n⟩, hdecode, hrest⟩ := bind_eq_ok.1 htail
  dsimp only at hrest
  split_ifs at hrest with hfits
  cases hrest
  have hn := addressSize_of_decode hdecode
  obtain ⟨-, htwo, -⟩ := decodeSocksAddr_eq_ok hdecode
  rw [List.length_drop] at hfits
  have hsub : addressEnd direction body - paddingEnd direction body = n := by
    rw [addressEnd, ← hn]
    omega
  refine ⟨?_, ?_, ?_⟩
  · rw [addressEnd, ← hn]
    omega
  · rw [hsub, slice, hsub]
    have hsplit := hdecode
    rw [← List.take_append_drop n (body.drop (paddingEnd direction body))] at hsplit
    exact (decodeSocksAddr_append_iff (by rw [List.length_take, List.length_drop]; omega)).1 hsplit
  · rw [List.drop_drop, addressEnd, ← hn]

theorem parseUdpBody_rejects {body : List UInt8}
    (h : body.length < paddingEnd direction body ∨ body.length < addressEnd direction body) :
    ∃ e, parseUdpBody direction sessionId packetId body now = .error e := by
  cases hresult : parseUdpBody direction sessionId packetId body now with
  | error e => exact ⟨e, rfl⟩
  | ok d =>
    have hwithin := (within_of_parseUdpBody hresult).1
    have hpadding : paddingEnd direction body ≤ addressEnd direction body := Nat.le_add_right ..
    omega

/-! ### Both ends -/

/-- The keys for the responses, with the nonce of one: they name no identities. -/
def UdpKeys.response (k : UdpKeys) (nonce : Bytes udpXchachaNonceLen) : UdpKeys :=
  { k with identityPsks := [], nonce := nonce }

theorem UdpKeys.Lawful.response (hk : k.Lawful cr) (nonce : Bytes udpXchachaNonceLen) :
    (k.response nonce).Lawful cr := { hk with }

theorem session_ne_zero {packet : List UInt8}
    (hsealed : sealPadded cr k direction sessionId packetId clientSessionId padding address payload
      timestamp = .ok packet) : sessionId ≠ 0 := by
  intro hzero
  rw [sealPadded, if_pos hzero] at hsealed
  cases hsealed

/-- **A request that was sealed, and every response to it, with any padding, is opened to its address and
payload exactly if it is fresh and the address is one; nothing is read outside a packet or a body, and a
body with a padding or an address that exceeds it is rejected.** -/
theorem sealed_packets_sound (k : UdpKeys) (hk : k.Lawful cr) :
    (∀ sessionId packetId address payload timestamp request,
      sealUdpPacket cr k .client sessionId packetId none address payload timestamp = .ok request →
      (∀ now host port,
        openUdpPacket cr k.cipher k.userPsk k.identityPsks .client request now =
            .ok ⟨sessionId, packetId, none, host, port, payload⟩ ↔
          timestampWithinTolerance timestamp.toNat now ∧
            decodeSocksAddr address = .ok (host, port, address.length)) ∧
      ∀ nonce serverSessionId responseId padding source answer time response, padding.length < 2 ^ 16 →
        sealPadded cr (k.response nonce) .server serverSessionId responseId (some sessionId) padding source
          answer time = .ok response →
        ∀ now host port,
          openUdpPacket cr k.cipher k.userPsk [] .server response now =
              .ok ⟨serverSessionId, responseId, some sessionId, host, port, answer⟩ ↔
            timestampWithinTolerance time.toNat now ∧
              decodeSocksAddr source = .ok (host, port, source.length)) ∧
    (∀ cipher userPsk identityPsks direction packet now,
      openUdpPacketChecked cr cipher userPsk identityPsks direction packet now =
        some (openUdpPacket cr cipher userPsk identityPsks direction packet now)) ∧
    ∀ direction sessionId packetId body now,
      parseUdpBodyChecked direction sessionId packetId body now =
          some (parseUdpBody direction sessionId packetId body now) ∧
        (body.length < paddingEnd direction body ∨ body.length < addressEnd direction body →
          ∃ e, parseUdpBody direction sessionId packetId body now = .error e) := by
  refine ⟨fun sessionId packetId address payload timestamp request hrequest => ⟨?_, ?_⟩, ?_, ?_⟩
  · intro now host port
    exact openUdpPacket_sealPadded hk hrequest rfl (by decide) host port
  · intro nonce session response padding source answer time packet hpadding hresponse now host port
    have hecho : Echoes .server (some sessionId) := ⟨sessionId, rfl, session_ne_zero hrequest⟩
    exact openUdpPacket_sealPadded (hk.response nonce) hresponse hecho hpadding host port
  · exact fun cipher userPsk identityPsks direction packet now => openUdpPacketChecked_eq hk ..
  · exact fun direction sessionId packetId body now =>
      ⟨parseUdpBodyChecked_eq .., fun h => parseUdpBody_rejects h⟩

/-- Primitives that encrypt nothing. -/
def plainPrimitives : Primitives :=
  { clearPrimitives with
    xchachaOpen := clearPrimitives.aeadOpen .chacha20Poly1305 }

/-- Keys of AES-128-GCM, with one identity. -/
def plainKeys : UdpKeys where
  cipher := .aes128Gcm
  userPsk := List.replicate 16 1
  identityPsks := [List.replicate 16 2]
  xchachaSeal := clearPrimitives.aeadSeal .chacha20Poly1305
  nonce := ⟨List.replicate 24 0, rfl⟩

theorem plainKeys_lawful : plainKeys.Lawful plainPrimitives where
  aead := ⟨clearPrimitives_lawful.opens, clearPrimitives_lawful.length⟩
  decrypts := fun _ _ _ => rfl
  encryptLength := fun _ _ h => h
  decryptLength := fun _ _ h => h
  hashLength := fun _ => rfl
  xchachaOpens := clearPrimitives_lawful.opens .chacha20Poly1305
  xchachaLength := clearPrimitives_lawful.length .chacha20Poly1305

/-- A response with a padding of three bytes. -/
theorem sealed_packets_sound_padded : ∃ request response,
    sealUdpPacket plainPrimitives plainKeys .client 42 0 none [1, 10, 0, 0, 1, 0, 53] [7] 1000 = .ok request ∧
    sealPadded plainPrimitives (plainKeys.response ⟨List.replicate 24 9, rfl⟩) .server 99 3 (some 42)
      [5, 5, 5] [3, 1, 120, 0, 80] [8, 9] 1010 = .ok response ∧
    openUdpPacket plainPrimitives .aes128Gcm (List.replicate 16 1) [] .server response 1020 =
      .ok ⟨99, 3, some 42, ['x'], 80, [8, 9]⟩ := by
  obtain ⟨request, hrequest⟩ : ∃ request, sealUdpPacket plainPrimitives plainKeys .client 42 0 none
      [1, 10, 0, 0, 1, 0, 53] [7] 1000 = .ok request := ⟨_, rfl⟩
  obtain ⟨response, hresponse⟩ : ∃ response, sealPadded plainPrimitives
      (plainKeys.response ⟨List.replicate 24 9, rfl⟩) .server 99 3 (some 42) [5, 5, 5] [3, 1, 120, 0, 80]
      [8, 9] 1010 = .ok response := ⟨_, rfl⟩
  have hopened := ((sealed_packets_sound plainKeys plainKeys_lawful).1 42 0 _ _ _ request hrequest).2
    _ 99 3 _ _ _ _ response (by decide) hresponse 1020 ['x'] 80
  exact ⟨request, response, hrequest, hresponse, hopened.2 ⟨by decide, by rfl⟩⟩

end WutherCore.Ss2022
