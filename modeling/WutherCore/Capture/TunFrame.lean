import WutherCore.Data.Buffer
import WutherCore.Data.Except
import WutherCore.Net.Addr

/-!
# Frames of a TUN device

`packet.rs` finds the IP packet in a frame, whatever header the device puts in front of it, and parses the
packet and its transport header.  A read or a slice outside the buffer would panic; here it has no value.

The `smoltcp` crate is a parameter, `Wire`: which packets it accepts, and the fields that it hands out.

* `locate_encode`: the packet is found again in the frame that is made of it.
* `parseTunFrame_isSome_iff`: parsing panics exactly on an accepted IPv4 packet whose total length is less
  than the shortest header.
-/

namespace WutherCore.Capture.Tun

open WutherCore.Data WutherCore.Net

/-- `IpVersion`. -/
inductive IpVersion
  | v4
  | v6
  deriving DecidableEq, Repr

/-- `IpHeader`. -/
structure IpHeader where
  version : IpVersion
  src : IpAddr
  dst : IpAddr
  protocol : UInt8
  totalLen : Nat
  l4Offset : Nat
  hopLimit : UInt8

/-- `TcpFlags`. -/
structure TcpFlags where
  syn : Bool
  ack : Bool
  fin : Bool
  rst : Bool
  psh : Bool
  deriving DecidableEq, Repr

/-- `TcpSummary`. -/
structure TcpSummary where
  srcPort : Nat
  dstPort : Nat
  seq : Nat
  ack : Nat
  control : TcpFlags
  window : Nat
  payloadOffset : Nat
  payloadLen : Nat

/-- `UdpSummary`. -/
structure UdpSummary where
  srcPort : Nat
  dstPort : Nat
  payloadOffset : Nat
  payloadLen : Nat

/-- `L4`. -/
inductive L4
  | tcp (summary : TcpSummary)
  | udp (summary : UdpSummary)
  | other (protocol : UInt8)

/-- `ParsedPacket`. -/
structure ParsedPacket where
  ip : IpHeader
  l4 : L4

/-- `FrameFormat`. -/
inductive FrameFormat
  | rawIp
  | linuxTunPi
  | utun
  | ethernet
  | ethernetVlan
  | linuxCooked
  | virtioNetHeader
  | virtioNetHeaderMrgRxbuf
  deriving DecidableEq, Repr

/-- `ParsedTunFrame`. -/
structure ParsedTunFrame where
  packet : ParsedPacket
  ipOffset : Nat
  format : FrameFormat

/-- `ParseError`. -/
inductive ParseError
  | truncated (actual needed : Nat)
  | unsupportedVersion (version : Nat)
  | wire
  deriving DecidableEq, Repr

/-! ### Frames -/

/-- `u32::from_be_bytes` of the bytes at an index. -/
def u32At (buf : List UInt8) (i : Nat) : Option Nat := do
  let high ← u16At buf i
  let low ← u16At buf (i + 2)
  return high * 65536 + low

/-- `is_ip_version_byte`. -/
def isIpVersionByte (b : Nat) : Bool := b / 16 = 4 || b / 16 = 6

/-- Whether an IP packet may start at an index. -/
def ipVersionAt (buf : List UInt8) (i : Nat) : Option Bool := (u8At buf i).map isIpVersionByte

/-- The two protocol numbers of IP on a link. -/
def isIpEthertype (proto : Nat) : Bool := proto = 0x0800 || proto = 0x86dd

/-- The headers of four bytes: Linux packet information, and the address family of a `utun` device. -/
def locateTun (buf : List UInt8) : Option (Option (Nat × FrameFormat)) :=
  if buf.length < 5 then some none
  else do
    let ip ← ipVersionAt buf 4
    let proto ← u16At buf 2
    let family ← u32At buf 0
    return if !ip then none
      else if isIpEthertype proto then some (4, .linuxTunPi)
      else if family = 2 ∨ family = 10 ∨ family = 23 ∨ family = 24 ∨ family = 30 then some (4, .utun)
      else none

/-- `looks_like_virtio_net_header`. -/
def looksLikeVirtioNetHeader (buf : List UInt8) (headerLen : Nat) : Option Bool :=
  if buf.length ≤ headerLen then some false
  else do
    let ip ← ipVersionAt buf headerLen
    let flags ← u8At buf 0
    let gsoType := (← u8At buf 1) % 128
    return ip && flags < 4 &&
      (gsoType = 0 || gsoType = 1 || gsoType = 3 || gsoType = 4 || gsoType = 5)

/-- A virtio header of a length. -/
def locateVirtio (buf : List UInt8) (headerLen : Nat) (format : FrameFormat) :
    Option (Option (Nat × FrameFormat)) :=
  (looksLikeVirtioNetHeader buf headerLen).map fun found => if found then some (headerLen, format) else none

/-- A link header that ends with the protocol number of its packet. -/
def locateLink (buf : List UInt8) (headerLen : Nat) (format : FrameFormat) :
    Option (Option (Nat × FrameFormat)) :=
  if buf.length < headerLen + 1 then some none
  else do
    let proto ← u16At buf (headerLen - 2)
    let ip ← ipVersionAt buf headerLen
    return if isIpEthertype proto && ip then some (headerLen, format) else none

/-- An Ethernet header with a VLAN tag. -/
def locateVlan (buf : List UInt8) : Option (Option (Nat × FrameFormat)) :=
  if buf.length < 19 then some none
  else do
    let ethertype ← u16At buf 12
    if ethertype = 0x8100 ∨ ethertype = 0x88a8 then locateLink buf 18 .ethernetVlan else return none

/-- The first of several attempts that finds something. -/
def firstFound {α : Type} : List (Option (Option α)) → Option (Option α)
  | [] => some none
  | attempt :: rest =>
    match attempt with
    | some none => firstFound rest
    | found => found

/-- `locate_ip_packet`. -/
def locateIpPacket (buf : List UInt8) : Option (Except ParseError (Nat × FrameFormat)) :=
  if buf.isEmpty then some (.error (.truncated 0 1))
  else do
    let first ← u8At buf 0
    if isIpVersionByte first then return .ok (0, .rawIp)
    else
      let found ← firstFound [locateTun buf, locateVirtio buf 10 .virtioNetHeader,
        locateVirtio buf 12 .virtioNetHeaderMrgRxbuf, locateLink buf 14 .ethernet, locateVlan buf,
        locateLink buf 16 .linuxCooked]
      match found with
      | some located => return .ok located
      | none => return .error (.unsupportedVersion (first / 16))

/-- `ip_packet_version`. -/
def ipPacketVersion : List UInt8 → Except ParseError IpVersion
  | [] => .error (.truncated 0 1)
  | first :: _ =>
    if first.toNat / 16 = 4 then .ok .v4
    else if first.toNat / 16 = 6 then .ok .v6
    else .error (.unsupportedVersion (first.toNat / 16))

/-- `ip_ethertype`, as its two bytes. -/
def ipEthertype : IpVersion → List UInt8
  | .v4 => [0x08, 0x00]
  | .v6 => [0x86, 0xdd]

/-- The header that `encode_tun_ip_frame` puts in front of a packet. -/
def frameHeader (version : IpVersion) : FrameFormat → List UInt8
  | .rawIp | .ethernet | .ethernetVlan | .linuxCooked => []
  | .linuxTunPi => [0x00, 0x00] ++ ipEthertype version
  | .utun =>
    match version with
    | .v4 => [0, 0, 0, 2]
    | .v6 => [0, 0, 0, 30]
  | .virtioNetHeader => List.replicate 10 0
  | .virtioNetHeaderMrgRxbuf => List.replicate 12 0

/-- `encode_tun_ip_frame`. -/
def encodeTunIpFrame (format : FrameFormat) (ipPacket : List UInt8) : Except ParseError (List UInt8) := do
  let version ← ipPacketVersion ipPacket
  .ok (frameHeader version format ++ ipPacket)

/-! ### Packets -/

/-- What `smoltcp` hands out of an accepted IP header. -/
structure IpRepr where
  src : IpAddr
  dst : IpAddr
  nextHeader : UInt8
  hopLimit : UInt8
  payloadLen : Nat

/-- The parts of `smoltcp` that are used: `new_checked` of the four kinds of packets, and `parse` of the two
IP headers. -/
structure Wire where
  ipv4Checked : List UInt8 → Bool
  ipv4Parse : List UInt8 → Option IpRepr
  ipv6Checked : List UInt8 → Bool
  ipv6Parse : List UInt8 → Option IpRepr
  tcpChecked : List UInt8 → Bool
  udpChecked : List UInt8 → Bool

/-- `Ipv4Packet::header_len`. -/
def headerLen (buf : List UInt8) : Option Nat := (u8At buf 0).map fun b => b % 16 * 4

/-- `Ipv4Packet::total_len`. -/
def totalLen (buf : List UInt8) : Option Nat := u16At buf 2

variable (w : Wire)

/-- `parse_l4` of a TCP segment: its fields. -/
def parseTcp (payload : List UInt8) (baseOffset : Nat) : Option TcpSummary := do
  let headerLen := max ((← u8At payload 12) / 16 * 4) 20
  let flags ← u8At payload 13
  return {
    srcPort := ← u16At payload 0
    dstPort := ← u16At payload 2
    seq := ← u32At payload 4
    ack := ← u32At payload 8
    control := {
      syn := flags.testBit 1
      ack := flags.testBit 4
      fin := flags.testBit 0
      rst := flags.testBit 2
      psh := flags.testBit 3 }
    window := ← u16At payload 14
    payloadOffset := baseOffset + headerLen
    payloadLen := payload.length - headerLen }

/-- `parse_l4` of a UDP datagram: its fields. -/
def parseUdp (payload : List UInt8) (baseOffset : Nat) : Option UdpSummary := do
  return {
    srcPort := ← u16At payload 0
    dstPort := ← u16At payload 2
    payloadOffset := baseOffset + 8
    payloadLen := (← u16At payload 4) - 8 }

/-- `parse_l4`. -/
def parseL4 (proto : UInt8) (payload : List UInt8) (baseOffset : Nat) : Option (Except ParseError L4) :=
  if proto = 6 then
    if w.tcpChecked payload then (parseTcp payload baseOffset).map fun t => .ok (.tcp t)
    else some (.error .wire)
  else if proto = 17 then
    if w.udpChecked payload then (parseUdp payload baseOffset).map fun u => .ok (.udp u)
    else some (.error .wire)
  else some (.ok (.other proto))

/-- The end of `parse_v4` and of `parse_v6`: the buffer holds the packet, and its payload is parsed. -/
def parsePayload (version : IpVersion) (repr : IpRepr) (buf : List UInt8) (start total : Nat) :
    Option (Except ParseError ParsedPacket) :=
  if buf.length < total then some (.error (.truncated buf.length total))
  else do
    let payload ← checkedSlice buf start total
    let l4 ← parseL4 w repr.nextHeader payload start
    return l4.map fun l4 =>
      { ip := ⟨version, repr.src, repr.dst, repr.nextHeader, total, start, repr.hopLimit⟩, l4 := l4 }

/-- `parse_v4`. -/
def parseV4 (buf : List UInt8) : Option (Except ParseError ParsedPacket) :=
  if w.ipv4Checked buf then
    match w.ipv4Parse buf with
    | none => some (.error .wire)
    | some repr => do
      let ihl := max (← headerLen buf) 20
      let total ← totalLen buf
      parsePayload w .v4 repr buf ihl total
  else some (.error .wire)

/-- `parse_v6`.  An IPv6 header has 40 bytes. -/
def parseV6 (buf : List UInt8) : Option (Except ParseError ParsedPacket) :=
  if w.ipv6Checked buf then
    match w.ipv6Parse buf with
    | none => some (.error .wire)
    | some repr => parsePayload w .v6 repr buf 40 (40 + repr.payloadLen)
  else some (.error .wire)

/-- `parse_ip_packet`. -/
def parseIpPacket (buf : List UInt8) : Option (Except ParseError ParsedPacket) :=
  if buf.isEmpty then some (.error (.truncated 0 1))
  else do
    let version := (← u8At buf 0) / 16
    if version = 4 then parseV4 w buf
    else if version = 6 then parseV6 w buf
    else return .error (.unsupportedVersion version)

/-- `parse_tun_frame`. -/
def parseTunFrame (buf : List UInt8) : Option (Except ParseError ParsedTunFrame) := do
  match ← locateIpPacket buf with
  | .error e => return .error e
  | .ok (ipOffset, format) =>
    let ipPacket ← checkedSlice buf ipOffset buf.length
    return (← parseIpPacket w ipPacket).map fun packet => ⟨packet, ipOffset, format⟩

/-! ### Frames are located -/

@[simp] theorem firstFound_none {α : Type} (rest : List (Option (Option α))) :
    firstFound (some none :: rest) = firstFound rest := rfl

@[simp] theorem firstFound_some {α : Type} (a : α) (rest : List (Option (Option α))) :
    firstFound (some (some a) :: rest) = some (some a) := rfl

/-- What an attempt finds starts within the buffer. -/
def Finds (buf : List UInt8) (attempt : Option (Option (Nat × FrameFormat))) : Prop :=
  ∃ found, attempt = some found ∧ ∀ off format, found = some (off, format) → off < buf.length

theorem ipVersionAt_isSome (buf : List UInt8) (i : Nat) (h : i < buf.length) :
    ∃ b, ipVersionAt buf i = some b := by
  obtain ⟨n, hn⟩ := u8At_isSome buf i h
  exact ⟨_, by rw [ipVersionAt, hn]; rfl⟩

theorem u32At_isSome (buf : List UInt8) (i : Nat) (h : i + 3 < buf.length) : ∃ n, u32At buf i = some n := by
  obtain ⟨a, ha⟩ := u16At_isSome buf i (by omega)
  obtain ⟨b, hb⟩ := u16At_isSome buf (i + 2) (by omega)
  exact ⟨_, by rw [u32At, ha, hb]; rfl⟩

theorem finds_locateTun (buf : List UInt8) : Finds buf (locateTun buf) := by
  unfold locateTun
  split_ifs with hlen
  · exact ⟨none, rfl, nofun⟩
  obtain ⟨ip, hip⟩ := ipVersionAt_isSome buf 4 (by omega)
  obtain ⟨proto, hproto⟩ := u16At_isSome buf 2 (by omega)
  obtain ⟨family, hfamily⟩ := u32At_isSome buf 0 (by omega)
  refine ⟨_, by rw [hip, hproto, hfamily]; rfl, fun off format h => ?_⟩
  split_ifs at h <;> cases h <;> omega

theorem finds_locateVirtio (buf : List UInt8) {n : Nat} (hn : 1 ≤ n) (format : FrameFormat) :
    Finds buf (locateVirtio buf n format) := by
  unfold locateVirtio looksLikeVirtioNetHeader
  split_ifs with hlen
  · exact ⟨none, rfl, nofun⟩
  obtain ⟨ip, hip⟩ := ipVersionAt_isSome buf n (by omega)
  obtain ⟨flags, hflags⟩ := u8At_isSome buf 0 (by omega)
  obtain ⟨gso, hgso⟩ := u8At_isSome buf 1 (by omega)
  refine ⟨_, by rw [hip, hflags, hgso]; rfl, fun off format' h => ?_⟩
  dsimp only at h
  split_ifs at h
  cases h
  omega

theorem finds_locateLink (buf : List UInt8) {n : Nat} (hn : 2 ≤ n) (format : FrameFormat) :
    Finds buf (locateLink buf n format) := by
  unfold locateLink
  split_ifs with hlen
  · exact ⟨none, rfl, nofun⟩
  obtain ⟨proto, hproto⟩ := u16At_isSome buf (n - 2) (by omega)
  obtain ⟨ip, hip⟩ := ipVersionAt_isSome buf n (by omega)
  refine ⟨_, by rw [hproto, hip]; rfl, fun off format' h => ?_⟩
  split_ifs at h
  cases h
  omega

theorem finds_locateVlan (buf : List UInt8) : Finds buf (locateVlan buf) := by
  unfold locateVlan
  split_ifs with hlen
  · exact ⟨none, rfl, nofun⟩
  obtain ⟨ethertype, hethertype⟩ := u16At_isSome buf 12 (by omega)
  rw [hethertype, Option.bind_eq_bind, Option.bind_some]
  split_ifs with htag
  · exact finds_locateLink buf (by decide) _
  · exact ⟨none, rfl, nofun⟩

theorem finds_firstFound {buf : List UInt8} {attempts : List (Option (Option (Nat × FrameFormat)))}
    (h : ∀ attempt ∈ attempts, Finds buf attempt) : Finds buf (firstFound attempts) := by
  induction attempts with
  | nil => exact ⟨none, rfl, nofun⟩
  | cons attempt rest ih =>
    rw [List.forall_mem_cons] at h
    obtain ⟨found, hfound, hoff⟩ := h.1
    subst hfound
    cases found with
    | none => exact ih h.2
    | some located => exact ⟨_, rfl, hoff⟩

/-- Locating the packet comes to an end, and what it finds starts within the buffer. -/
theorem locateIpPacket_spec (buf : List UInt8) :
    ∃ result, locateIpPacket buf = some result ∧
      ∀ off format, result = .ok (off, format) → off < buf.length := by
  unfold locateIpPacket
  split_ifs with hempty
  · exact ⟨_, rfl, nofun⟩
  have hpos : 0 < buf.length := List.length_pos_iff.2 (by simpa using hempty)
  obtain ⟨first, hfirst⟩ := u8At_isSome buf 0 hpos
  rw [hfirst, Option.bind_eq_bind, Option.bind_some]
  split_ifs with hversion
  · refine ⟨_, rfl, fun off format h => ?_⟩
    cases h
    exact hpos
  have hattempts : ∀ attempt ∈ [locateTun buf, locateVirtio buf 10 .virtioNetHeader,
      locateVirtio buf 12 .virtioNetHeaderMrgRxbuf, locateLink buf 14 .ethernet, locateVlan buf,
      locateLink buf 16 .linuxCooked], Finds buf attempt := by
    simp only [List.forall_mem_cons]
    exact ⟨finds_locateTun buf, finds_locateVirtio buf (by decide) _, finds_locateVirtio buf (by decide) _,
      finds_locateLink buf (by decide) _, finds_locateVlan buf, finds_locateLink buf (by decide) _, by simp⟩
  obtain ⟨found, hfound, hoff⟩ := finds_firstFound hattempts
  rw [hfound, Option.bind_eq_bind, Option.bind_some]
  cases found with
  | none => exact ⟨_, rfl, nofun⟩
  | some located =>
    obtain ⟨off, format⟩ := located
    refine ⟨_, rfl, fun off' format' h => ?_⟩
    cases h
    exact hoff _ _ rfl

/-! ### Frames that are made of a packet -/

/-- The format under which a frame that was made of a packet is found: the headers of link layers are not
made, so their frames are bare packets. -/
def foundFormat : FrameFormat → FrameFormat
  | .ethernet | .ethernetVlan | .linuxCooked => .rawIp
  | format => format

theorem ipPacketVersion_eq_ok {packet : List UInt8} {version : IpVersion}
    (h : ipPacketVersion packet = .ok version) :
    ∃ first rest, packet = first :: rest ∧ isIpVersionByte first.toNat = true := by
  cases packet with
  | nil => cases h
  | cons first rest =>
    refine ⟨first, rest, rfl, ?_⟩
    simp only [ipPacketVersion] at h
    split_ifs at h with h4 h6
    · simp [isIpVersionByte, h4]
    · simp [isIpVersionByte, h6]

theorem locate_of_found {frame : List UInt8} {located : Nat × FrameFormat} (hzero : u8At frame 0 = some 0)
    (hfound : firstFound [locateTun frame, locateVirtio frame 10 .virtioNetHeader,
      locateVirtio frame 12 .virtioNetHeaderMrgRxbuf, locateLink frame 14 .ethernet, locateVlan frame,
      locateLink frame 16 .linuxCooked] = some (some located)) :
    locateIpPacket frame = some (.ok located) := by
  have hne : frame.isEmpty = false := by
    cases frame with
    | nil => simp [u8At] at hzero
    | cons b rest => rfl
  rw [locateIpPacket, hne, if_neg (by decide), hzero, hfound]
  rfl

theorem locateTun_header {first : UInt8} {rest : List UInt8} (hfirst : isIpVersionByte first.toNat = true)
    (version : IpVersion) :
    locateTun (frameHeader version .linuxTunPi ++ first :: rest) = some (some (4, .linuxTunPi)) ∧
      locateTun (frameHeader version .utun ++ first :: rest) = some (some (4, .utun)) := by
  cases version <;>
    simp [locateTun, frameHeader, ipEthertype, ipVersionAt, u8At, u16At, u32At, isIpEthertype, hfirst]

theorem locateTun_zeros {n : Nat} (hn : 5 ≤ n) (packet : List UInt8) :
    locateTun (List.replicate n 0 ++ packet) = some none := by
  obtain ⟨m, rfl⟩ := Nat.exists_eq_add_of_le' hn
  simp [locateTun, List.replicate_succ, ipVersionAt, u8At, u16At, u32At, isIpVersionByte]

theorem looksLikeVirtio_zeros {n : Nat} (hn : 2 ≤ n) {first : UInt8} {rest : List UInt8}
    (hfirst : isIpVersionByte first.toNat = true) :
    looksLikeVirtioNetHeader (List.replicate n 0 ++ first :: rest) n = some true := by
  obtain ⟨m, rfl⟩ := Nat.exists_eq_add_of_le' hn
  have hat : u8At (List.replicate (m + 2) 0 ++ first :: rest) (m + 2) = some first.toNat := by
    simp [u8At]
  have hlow : ∀ i < m + 2, u8At (List.replicate (m + 2) 0 ++ first :: rest) i = some 0 := by
    intro i hi
    rw [u8At, List.getElem?_append_left (by simpa using hi), List.getElem?_replicate, if_pos hi]
    rfl
  rw [looksLikeVirtioNetHeader, if_neg (by simp), ipVersionAt, hat, hlow 0 (by omega), hlow 1 (by omega)]
  simp [hfirst]

/-- **The packet is found again in its frame.** -/
theorem locate_encode {format : FrameFormat} {packet frame : List UInt8}
    (h : encodeTunIpFrame format packet = .ok frame) :
    ∃ off, locateIpPacket frame = some (.ok (off, foundFormat format)) ∧ frame.drop off = packet := by
  obtain ⟨version, hversion, h⟩ := bind_eq_ok.1 h
  cases h
  obtain ⟨first, rest, rfl, hfirst⟩ := ipPacketVersion_eq_ok hversion
  have hbare : locateIpPacket (first :: rest) = some (.ok (0, .rawIp)) := by
    simp [locateIpPacket, u8At, hfirst]
  cases format with
  | rawIp => exact ⟨0, hbare, rfl⟩
  | ethernet => exact ⟨0, hbare, rfl⟩
  | ethernetVlan => exact ⟨0, hbare, rfl⟩
  | linuxCooked => exact ⟨0, hbare, rfl⟩
  | linuxTunPi =>
    refine ⟨4, locate_of_found ?_ ?_, by cases version <;> rfl⟩
    · cases version <;> rfl
    · rw [(locateTun_header hfirst version).1, firstFound_some]
      rfl
  | utun =>
    refine ⟨4, locate_of_found ?_ ?_, by cases version <;> rfl⟩
    · cases version <;> rfl
    · rw [(locateTun_header hfirst version).2, firstFound_some]
      rfl
  | virtioNetHeader =>
    refine ⟨10, locate_of_found rfl ?_, rfl⟩
    have htun : locateTun (frameHeader version .virtioNetHeader ++ first :: rest) = some none :=
      locateTun_zeros (by decide) _
    have hvirtio : locateVirtio (frameHeader version .virtioNetHeader ++ first :: rest) 10 .virtioNetHeader =
        some (some (10, .virtioNetHeader)) := by
      rw [locateVirtio, frameHeader, looksLikeVirtio_zeros (by decide) hfirst]
      rfl
    rw [htun, firstFound_none, hvirtio, firstFound_some]
    rfl
  | virtioNetHeaderMrgRxbuf =>
    refine ⟨12, locate_of_found rfl ?_, rfl⟩
    have htun : locateTun (frameHeader version .virtioNetHeaderMrgRxbuf ++ first :: rest) = some none :=
      locateTun_zeros (by decide) _
    have hshort : locateVirtio (frameHeader version .virtioNetHeaderMrgRxbuf ++ first :: rest) 10
        .virtioNetHeader = some none := rfl
    have hvirtio : locateVirtio (frameHeader version .virtioNetHeaderMrgRxbuf ++ first :: rest) 12
        .virtioNetHeaderMrgRxbuf = some (some (12, .virtioNetHeaderMrgRxbuf)) := by
      rw [locateVirtio, frameHeader, looksLikeVirtio_zeros (by decide) hfirst]
      rfl
    rw [htun, firstFound_none, hshort, firstFound_none, hvirtio, firstFound_some]
    rfl

/-! ### Packets are parsed -/

/-- What is relied on: an accepted packet has its header, and an IPv4 packet the length that it declares,
which is no less than the length of its header as declared. -/
structure Wire.Checks : Prop where
  ipv4 : ∀ buf, w.ipv4Checked buf = true → ∃ header total, headerLen buf = some header ∧
    totalLen buf = some total ∧ header ≤ total ∧ total ≤ buf.length ∧ 20 ≤ buf.length
  tcp : ∀ payload, w.tcpChecked payload = true → 20 ≤ payload.length
  udp : ∀ payload, w.udpChecked payload = true → 8 ≤ payload.length

/-- An accepted IPv4 packet that declares less than the shortest header. -/
def ShortTotal (buf : List UInt8) : Prop :=
  w.ipv4Checked buf = true ∧ (w.ipv4Parse buf).isSome = true ∧ ∃ total, totalLen buf = some total ∧ total < 20

/-- A buffer that starts like an IPv4 packet. -/
def IsV4 (buf : List UInt8) : Prop := ∃ first, u8At buf 0 = some first ∧ first / 16 = 4

variable {w}

theorem parseTcp_isSome {payload : List UInt8} (h : 20 ≤ payload.length) (base : Nat) :
    (parseTcp payload base).isSome = true := by
  obtain ⟨offset, hoffset⟩ := u8At_isSome payload 12 (by omega)
  obtain ⟨flags, hflags⟩ := u8At_isSome payload 13 (by omega)
  obtain ⟨src, hsrc⟩ := u16At_isSome payload 0 (by omega)
  obtain ⟨dst, hdst⟩ := u16At_isSome payload 2 (by omega)
  obtain ⟨seq, hseq⟩ := u32At_isSome payload 4 (by omega)
  obtain ⟨ack, hack⟩ := u32At_isSome payload 8 (by omega)
  obtain ⟨window, hwindow⟩ := u16At_isSome payload 14 (by omega)
  rw [parseTcp, hoffset, hflags, hsrc, hdst, hseq, hack, hwindow]
  rfl

theorem parseUdp_isSome {payload : List UInt8} (h : 8 ≤ payload.length) (base : Nat) :
    (parseUdp payload base).isSome = true := by
  obtain ⟨src, hsrc⟩ := u16At_isSome payload 0 (by omega)
  obtain ⟨dst, hdst⟩ := u16At_isSome payload 2 (by omega)
  obtain ⟨len, hlen⟩ := u16At_isSome payload 4 (by omega)
  rw [parseUdp, hsrc, hdst, hlen]
  rfl

theorem parseL4_isSome (hw : w.Checks) (proto : UInt8) (payload : List UInt8) (base : Nat) :
    (parseL4 w proto payload base).isSome = true := by
  unfold parseL4
  split_ifs with htcp hchecked hudp hchecked
  · simpa using parseTcp_isSome (hw.tcp payload hchecked) base
  · rfl
  · simpa using parseUdp_isSome (hw.udp payload hchecked) base
  · rfl
  · rfl

theorem parsePayload_isSome_iff (hw : w.Checks) (version : IpVersion) (repr : IpRepr) (buf : List UInt8)
    (start total : Nat) :
    (parsePayload w version repr buf start total).isSome = true ↔ total ≤ buf.length → start ≤ total := by
  unfold parsePayload
  split_ifs with hlen
  · simp
    omega
  · by_cases hstart : start ≤ total
    · rw [checkedSlice, if_pos ⟨hstart, by omega⟩, Option.bind_eq_bind, Option.bind_some]
      obtain ⟨l4, hl4⟩ := Option.isSome_iff_exists.1
        (parseL4_isSome hw repr.nextHeader (slice buf start total) start)
      rw [hl4]
      exact iff_of_true rfl fun _ => hstart
    · rw [checkedSlice, if_neg (by omega)]
      exact iff_of_false nofun fun h => hstart (h (by omega))

theorem parseV6_isSome (hw : w.Checks) (buf : List UInt8) : (parseV6 w buf).isSome = true := by
  unfold parseV6
  split_ifs with hchecked
  · cases hrepr : w.ipv6Parse buf with
    | none => rfl
    | some repr => exact (parsePayload_isSome_iff hw _ _ _ _ _).2 fun _ => Nat.le_add_right _ _
  · rfl

theorem parseV4_isSome_iff (hw : w.Checks) (buf : List UInt8) :
    (parseV4 w buf).isSome = true ↔ ¬ShortTotal w buf := by
  unfold parseV4 ShortTotal
  split_ifs with hchecked
  · obtain ⟨header, total, hheader, htotal, hle, hfits, -⟩ := hw.ipv4 buf hchecked
    cases hrepr : w.ipv4Parse buf with
    | none => simp
    | some repr =>
      simp only [hheader, htotal, Option.bind_eq_bind, Option.bind_some, parsePayload_isSome_iff hw]
      simp [hchecked]
      omega
  · simp [hchecked]

theorem parseIpPacket_isSome_iff (hw : w.Checks) (buf : List UInt8) :
    (parseIpPacket w buf).isSome = true ↔ ¬(IsV4 buf ∧ ShortTotal w buf) := by
  cases buf with
  | nil =>
    refine iff_of_true rfl ?_
    rintro ⟨⟨first, hfirst, -⟩, -⟩
    cases hfirst
  | cons b rest =>
    have hfirst : u8At (b :: rest) 0 = some b.toNat := rfl
    have hv4 : IsV4 (b :: rest) ↔ b.toNat / 16 = 4 := by simp [IsV4, hfirst]
    rw [hv4, parseIpPacket, List.isEmpty_cons, if_neg (by decide), hfirst, Option.bind_eq_bind,
      Option.bind_some]
    dsimp only
    split_ifs with h4 h6
    · rw [parseV4_isSome_iff hw]
      simp [h4]
    · simp [parseV6_isSome hw, h4]
    · simp [h4]

theorem parseTunFrame_isSome_iff (hw : w.Checks) (buf : List UInt8) :
    (parseTunFrame w buf).isSome = true ↔
      ∀ off format, locateIpPacket buf = some (.ok (off, format)) →
        ¬(IsV4 (buf.drop off) ∧ ShortTotal w (buf.drop off)) := by
  obtain ⟨result, hresult, hoff⟩ := locateIpPacket_spec buf
  rw [parseTunFrame, hresult, Option.bind_eq_bind, Option.bind_some]
  cases result with
  | error e => simp
  | ok located =>
    obtain ⟨off, format⟩ := located
    have hlt := hoff off format rfl
    have hslice : checkedSlice buf off buf.length = some (buf.drop off) := by
      rw [checkedSlice, if_pos ⟨hlt.le, Nat.le_refl _⟩, slice, List.take_of_length_le (by simp)]
    have hpacket := parseIpPacket_isSome_iff hw (buf.drop off)
    dsimp only
    rw [hslice, Option.bind_eq_bind, Option.bind_some]
    constructor
    · rintro h off' format' hsame
      cases hsame
      refine hpacket.1 ?_
      cases hparse : parseIpPacket w (buf.drop off) with
      | none => simp [hparse] at h
      | some r => rfl
    · intro h
      obtain ⟨r, hr⟩ := Option.isSome_iff_exists.1 (hpacket.2 (h off format rfl))
      rw [hr]
      rfl

/-- `smoltcp` as it checks lengths; the header fields where they stand. -/
def smoltcp : Wire where
  ipv4Checked buf :=
    match headerLen buf, totalLen buf with
    | some header, some total => 20 ≤ buf.length && header ≤ total && total ≤ buf.length
    | _, _ => false
  ipv4Parse buf :=
    if (byteAt buf 0).toNat / 16 = 4 then
      some {
        src := .v4 (BitVec.ofNat 32 (beAt 4 buf 12))
        dst := .v4 (BitVec.ofNat 32 (beAt 4 buf 16))
        nextHeader := byteAt buf 9
        hopLimit := byteAt buf 8
        payloadLen := beAt 2 buf 2 - (byteAt buf 0).toNat % 16 * 4 }
    else none
  ipv6Checked buf := 40 ≤ buf.length && 40 + beAt 2 buf 4 ≤ buf.length
  ipv6Parse buf :=
    if (byteAt buf 0).toNat / 16 = 6 then
      some {
        src := .v6 (BitVec.ofNat 128 (beAt 16 buf 8))
        dst := .v6 (BitVec.ofNat 128 (beAt 16 buf 24))
        nextHeader := byteAt buf 6
        hopLimit := byteAt buf 7
        payloadLen := beAt 2 buf 4 }
    else none
  tcpChecked payload :=
    20 ≤ payload.length && 20 ≤ (byteAt payload 12).toNat / 16 * 4 &&
      (byteAt payload 12).toNat / 16 * 4 ≤ payload.length
  udpChecked payload := 8 ≤ payload.length && 8 ≤ beAt 2 payload 4 && beAt 2 payload 4 ≤ payload.length

theorem smoltcp_checks : smoltcp.Checks where
  ipv4 := by
    intro buf h
    simp only [smoltcp] at h
    split at h
    · rename_i header total hheader htotal
      simp only [Bool.and_eq_true, decide_eq_true_eq] at h
      exact ⟨header, total, hheader, htotal, h.1.2, h.2, h.1.1⟩
    · cases h
  tcp := by
    intro payload h
    simp only [smoltcp, Bool.and_eq_true, decide_eq_true_eq] at h
    exact h.1.1
  udp := by
    intro payload h
    simp only [smoltcp, Bool.and_eq_true, decide_eq_true_eq] at h
    exact h.1.1

/-- A packet of 28 bytes: an empty UDP datagram. -/
def smallDatagram : List UInt8 :=
  [0x45, 0, 0, 28, 0, 0, 0, 0, 64, 17, 0, 0, 10, 0, 0, 2, 1, 1, 1, 1, 0x30, 0x39, 0, 53, 0, 8, 0, 0]

end WutherCore.Capture.Tun
