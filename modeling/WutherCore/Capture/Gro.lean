import WutherCore.Data.Buffer
import WutherCore.Data.Except
import WutherCore.Data.FirstFit

/-!
# Merging packets for a TUN device

`gro_merge.rs`: before a batch of IP packets is written to the device, packets of one TCP or UDP flow
that continue each other are merged into one large packet, which the kernel cuts up again.  A flow has
a list of items that take up packets first come, first served; packets that the tables refuse, and
those of other protocols, are written as they are, before the merged ones.

Lengths and counters are numbers: header lengths are at most 60, and a packet that is taken up has at
most 65535 bytes, so that none of the `u8` and `u16` of the source wraps around, the length fields of
the packets themselves apart.  The hash tables are iterated in any order.
-/

namespace WutherCore.Capture

open WutherCore.Data

/-- An IP packet: `Vec<u8>`. -/
abbrev Packet := List UInt8

/-- `GsoType`. -/
inductive GsoType
  | none | tcpV4 | tcpV6 | udpL4
  deriving DecidableEq, Repr

/-- `VirtioNetHdr`. -/
structure VirtioNetHdr where
  gsoType : GsoType
  hdrLen : Nat
  csumStart : Nat
  csumOffset : Nat
  gsoSize : Nat
  needsCsum : Bool
  deriving DecidableEq, Repr

namespace Gro

/-- `TCP_FLAG_FIN`. -/
def tcpFlagFin : UInt8 := 0x01

/-- `TCP_FLAG_PSH`. -/
def tcpFlagPsh : UInt8 := 0x08

/-- `MAX_IP_PACKET_LEN`. -/
def maxIpPacketLen : Nat := 65535

/-- `IPV4_HEADER_MIN`. -/
def ipv4HeaderMin : Nat := 20

/-- `IPV6_HEADER_FIXED`. -/
def ipv6HeaderFixed : Nat := 40

/-- `TCP_HEADER_MIN`. -/
def tcpHeaderMin : Nat := 20

/-- `UDP_HEADER_LEN`. -/
def udpHeaderLen : Nat := 8

/-- `GroError`. -/
inductive GroError
  | invalidIpVersion (version : UInt8)
  | headerTooShort
  | tcpHeaderOutOfRange
  | packetTooLong
  | hasFin
  | emptyAck
  | invalidIhl
  deriving DecidableEq, Repr

/-- `PushOutcome`. -/
inductive PushOutcome
  | coalesced | inserted
  deriving DecidableEq, Repr

/-- `GroOutput`. -/
structure GroOutput where
  bytes : Packet
  options : Option VirtioNetHdr
  deriving DecidableEq, Repr

/-! ### Parsing -/

/-- What `parse_ipv4` and `parse_ipv6` return.  Addresses have 16 bytes, those of IPv4 with zeros
behind. -/
structure IpHeader where
  isV6 : Bool
  iphLen : Nat
  totalLen : Nat
  srcAddr : List UInt8
  dstAddr : List UInt8

/-- `parse_ipv4`. -/
def parseIpv4 (pkt : Packet) : Except GroError IpHeader :=
  if pkt.length < ipv4HeaderMin then .error .headerTooShort
  else
    let ihl := (byteAt pkt 0 &&& 0x0F).toNat * 4
    if ihl < ipv4HeaderMin ∨ ihl > pkt.length then .error .invalidIhl
    else
      .ok {
        isV6 := false
        iphLen := ihl
        totalLen := beAt 2 pkt 2
        srcAddr := slice pkt 12 16 ++ List.replicate 12 0
        dstAddr := slice pkt 16 20 ++ List.replicate 12 0 }

/-- `parse_ipv6`. -/
def parseIpv6 (pkt : Packet) : Except GroError IpHeader :=
  if pkt.length < ipv6HeaderFixed then .error .headerTooShort
  else
    .ok {
      isV6 := true
      iphLen := ipv6HeaderFixed
      totalLen := ipv6HeaderFixed + beAt 2 pkt 4
      srcAddr := slice pkt 8 24
      dstAddr := slice pkt 24 40 }

/-- The part that `parse_tcp_ip` and `parse_udp_ip` share, up to the slice of the transport header,
which has at least `l4Min` bytes. -/
def parseIp (pkt : Packet) (l4Min : Nat) : Except GroError IpHeader :=
  if pkt.isEmpty then .error .headerTooShort
  else if pkt.length > maxIpPacketLen then .error .packetTooLong
  else
    let version := byteAt pkt 0 >>> 4
    let parsed :=
      if version = 4 then parseIpv4 pkt
      else if version = 6 then parseIpv6 pkt
      else .error (.invalidIpVersion version)
    parsed.bind fun ip =>
      if ip.totalLen > pkt.length ∨ ip.totalLen < ip.iphLen + l4Min then .error .headerTooShort
      else .ok ip

/-- `ParsedTcpIp`. -/
structure ParsedTcpIp where
  isV6 : Bool
  iphLen : Nat
  tcphLen : Nat
  srcAddr : List UInt8
  dstAddr : List UInt8
  srcPort : Nat
  dstPort : Nat
  seq : UInt32
  ack : UInt32
  flags : UInt8
  payloadLen : Nat

/-- `parse_tcp_ip`. -/
def parseTcpIp (pkt : Packet) : Except GroError ParsedTcpIp :=
  (parseIp pkt tcpHeaderMin).bind fun ip =>
    let tcp := slice pkt ip.iphLen ip.totalLen
    if tcp.length < tcpHeaderMin then .error .headerTooShort
    else
      let tcphLen := (byteAt tcp 12 >>> 4).toNat * 4
      if tcphLen < tcpHeaderMin ∨ tcphLen > tcp.length then .error .tcpHeaderOutOfRange
      else
        let flags := byteAt tcp 13
        let payloadLen := tcp.length - tcphLen
        if flags &&& tcpFlagFin ≠ 0 then .error .hasFin
        else if payloadLen = 0 then .error .emptyAck
        else
          .ok {
            isV6 := ip.isV6
            iphLen := ip.iphLen
            tcphLen
            srcAddr := ip.srcAddr
            dstAddr := ip.dstAddr
            srcPort := beAt 2 tcp 0
            dstPort := beAt 2 tcp 2
            seq := UInt32.ofNat (beAt 4 tcp 4)
            ack := UInt32.ofNat (beAt 4 tcp 8)
            flags
            payloadLen }

/-- `ParsedUdpIp`. -/
structure ParsedUdpIp where
  isV6 : Bool
  iphLen : Nat
  srcAddr : List UInt8
  dstAddr : List UInt8
  srcPort : Nat
  dstPort : Nat
  payloadLen : Nat

/-- `parse_udp_ip`. -/
def parseUdpIp (pkt : Packet) : Except GroError ParsedUdpIp :=
  (parseIp pkt udpHeaderLen).bind fun ip =>
    let udp := slice pkt ip.iphLen ip.totalLen
    if udp.length < udpHeaderLen then .error .headerTooShort
    else
      let payloadLen := udp.length - udpHeaderLen
      if payloadLen = 0 then .error .emptyAck
      else
        .ok {
          isV6 := ip.isV6
          iphLen := ip.iphLen
          srcAddr := ip.srcAddr
          dstAddr := ip.dstAddr
          srcPort := beAt 2 udp 0
          dstPort := beAt 2 udp 2
          payloadLen }

/-! ### The items of a flow -/

/-- Both `coalesce` and `coalesce_udp` write the new length of the packet into its IP header. -/
def updateIpLen (isV6 : Bool) (buffer : Packet) : Packet :=
  if isV6 then putBE 2 buffer 4 ((buffer.length - ipv6HeaderFixed) % 2 ^ 16)
  else putBE 2 buffer 2 (buffer.length % 2 ^ 16)

/-- `TcpFlowKey`. -/
structure TcpFlowKey where
  srcAddr : List UInt8
  dstAddr : List UInt8
  srcPort : Nat
  dstPort : Nat
  ack : UInt32
  isV6 : Bool
  deriving DecidableEq

/-- `TcpGroItem`. -/
structure TcpGroItem where
  buffer : Packet
  iphLen : Nat
  tcphLen : Nat
  gsoSize : Nat
  sentSeq : UInt32
  pshSet : Bool
  numMerged : Nat
  isV6 : Bool

/-- `can_coalesce`. -/
def canCoalesce (item : TcpGroItem) (seq : UInt32) (payloadLen : Nat) : Bool :=
  if seq ≠ item.sentSeq then false
  else if payloadLen ≠ item.gsoSize then false
  else if item.pshSet then false
  else if item.buffer.length + payloadLen > maxIpPacketLen then false
  else true

/-- `coalesce`. -/
def coalesce (item : TcpGroItem) (pkt : Packet) (parsed : ParsedTcpIp) : TcpGroItem :=
  let buffer := updateIpLen parsed.isV6 (item.buffer ++ pkt.drop (parsed.iphLen + parsed.tcphLen))
  let pshSet := parsed.flags &&& tcpFlagPsh ≠ 0
  { item with
    buffer :=
      if pshSet then
        writeAt buffer (item.iphLen + 13) [byteAt buffer (item.iphLen + 13) ||| tcpFlagPsh]
      else buffer
    numMerged := item.numMerged + 1
    sentSeq := item.sentSeq + UInt32.ofNat parsed.payloadLen
    pshSet := pshSet }

/-- The item that a packet starts, in `TcpGroTable::push`. -/
def newTcpItem (pkt : Packet) (parsed : ParsedTcpIp) : TcpGroItem where
  buffer := pkt
  iphLen := parsed.iphLen
  tcphLen := parsed.tcphLen
  gsoSize := parsed.payloadLen
  sentSeq := parsed.seq + UInt32.ofNat parsed.payloadLen
  pshSet := parsed.flags &&& tcpFlagPsh ≠ 0
  numMerged := 1
  isV6 := parsed.isV6

/-- How items take up TCP packets. -/
def tcpPolicy : Policy (Packet × ParsedTcpIp) TcpGroItem where
  fresh p := newTcpItem p.1 p.2
  accepts item p := canCoalesce item p.2.seq p.2.payloadLen
  absorb item p := coalesce item p.1 p.2

/-- `UdpFlowKey`. -/
structure UdpFlowKey where
  srcAddr : List UInt8
  dstAddr : List UInt8
  srcPort : Nat
  dstPort : Nat
  isV6 : Bool
  deriving DecidableEq

/-- `UdpGroItem`. -/
structure UdpGroItem where
  buffer : Packet
  iphLen : Nat
  gsoSize : Nat
  numMerged : Nat

/-- `can_coalesce_udp`. -/
def canCoalesceUdp (item : UdpGroItem) (payloadLen : Nat) : Bool :=
  if payloadLen > item.gsoSize then false
  else
    let prevPayloadLen := item.buffer.length - item.iphLen - udpHeaderLen
    if prevPayloadLen % item.gsoSize ≠ 0 then false
    else if item.buffer.length + payloadLen > maxIpPacketLen then false
    else true

/-- `coalesce_udp`. -/
def coalesceUdp (item : UdpGroItem) (pkt : Packet) (parsed : ParsedUdpIp) : UdpGroItem :=
  let buffer := updateIpLen parsed.isV6 (item.buffer ++ pkt.drop (parsed.iphLen + udpHeaderLen))
  { item with
    buffer := putBE 2 buffer (item.iphLen + 4) ((buffer.length - item.iphLen) % 2 ^ 16)
    numMerged := item.numMerged + 1 }

/-- The item that a datagram starts, in `UdpGroTable::push`. -/
def newUdpItem (pkt : Packet) (parsed : ParsedUdpIp) : UdpGroItem where
  buffer := pkt
  iphLen := parsed.iphLen
  gsoSize := parsed.payloadLen
  numMerged := 1

/-- How items take up datagrams. -/
def udpPolicy : Policy (Packet × ParsedUdpIp) UdpGroItem where
  fresh p := newUdpItem p.1 p.2
  accepts item p := canCoalesceUdp item p.2.payloadLen
  absorb item p := coalesceUdp item p.1 p.2

/-! ### The tables -/

/-- The key of a TCP packet, as `TcpGroTable::push` makes it. -/
def ParsedTcpIp.key (parsed : ParsedTcpIp) : TcpFlowKey :=
  ⟨parsed.srcAddr, parsed.dstAddr, parsed.srcPort, parsed.dstPort, parsed.ack, parsed.isV6⟩

/-- The key of a datagram, as `UdpGroTable::push` makes it. -/
def ParsedUdpIp.key (parsed : ParsedUdpIp) : UdpFlowKey :=
  ⟨parsed.srcAddr, parsed.dstAddr, parsed.srcPort, parsed.dstPort, parsed.isV6⟩

/-- `TcpGroTable`. -/
abbrev TcpGroTable := AssocMap TcpFlowKey (List TcpGroItem)

/-- `UdpGroTable`. -/
abbrev UdpGroTable := AssocMap UdpFlowKey (List UdpGroItem)

/-- What `push` of both tables does with a packet that was parsed. -/
def pushParsed {α β κ : Type} [DecidableEq κ] (policy : Policy α β) (key : α → κ)
    (table : AssocMap κ (List β)) (a : α) : PushOutcome × AssocMap κ (List β) :=
  let items := (table.get? (key a)).getD []
  (if items.any (policy.accepts · a) then .coalesced else .inserted, policy.push key table a)

/-- `TcpGroTable::push`. -/
def TcpGroTable.push (table : TcpGroTable) (pkt : Packet) :
    Except (GroError × Packet) (PushOutcome × TcpGroTable) :=
  match parseTcpIp pkt with
  | .ok parsed => .ok (pushParsed tcpPolicy (·.2.key) table (pkt, parsed))
  | .error e => .error (e, pkt)

/-- `UdpGroTable::push`. -/
def UdpGroTable.push (table : UdpGroTable) (pkt : Packet) :
    Except (GroError × Packet) (PushOutcome × UdpGroTable) :=
  match parseUdpIp pkt with
  | .ok parsed => .ok (pushParsed udpPolicy (·.2.key) table (pkt, parsed))
  | .error e => .error (e, pkt)

/-- What `TcpGroTable::drain` makes of an item. -/
def TcpGroItem.output (item : TcpGroItem) : GroOutput where
  bytes := item.buffer
  options :=
    if item.numMerged > 1 then
      some {
        gsoType := if item.isV6 then .tcpV6 else .tcpV4
        hdrLen := item.iphLen + item.tcphLen
        gsoSize := item.gsoSize
        csumStart := item.iphLen
        csumOffset := 16
        needsCsum := true }
    else none

/-- What `UdpGroTable::drain` makes of an item. -/
def UdpGroItem.output (item : UdpGroItem) : GroOutput where
  bytes := item.buffer
  options :=
    if item.numMerged > 1 then
      some {
        gsoType := .udpL4
        hdrLen := item.iphLen + udpHeaderLen
        gsoSize := item.gsoSize
        csumStart := item.iphLen
        csumOffset := 6
        needsCsum := true }
    else none

/-- `TcpGroTable::drain`. -/
def TcpGroTable.drain (it : Iteration TcpFlowKey (List TcpGroItem)) (table : TcpGroTable) :
    List GroOutput :=
  ((it.order table.entries).flatMap Prod.snd).map TcpGroItem.output

/-- `UdpGroTable::drain`. -/
def UdpGroTable.drain (it : Iteration UdpFlowKey (List UdpGroItem)) (table : UdpGroTable) :
    List GroOutput :=
  ((it.order table.entries).flatMap Prod.snd).map UdpGroItem.output

/-! ### A batch -/

/-- `L4Class`. -/
inductive L4Class
  | tcp | udp | other
  deriving DecidableEq, Repr

/-- `classify_for_gro`. -/
def classifyForGro (pkt : Packet) : L4Class :=
  if pkt.isEmpty then .other
  else
    let v := byteAt pkt 0 >>> 4
    let proto :=
      if v = 4 ∧ pkt.length ≥ 20 then some (byteAt pkt 9)
      else if v = 6 ∧ pkt.length ≥ 40 then some (byteAt pkt 6)
      else none
    match proto with
    | none => .other
    | some proto => if proto = 6 then .tcp else if proto = 17 then .udp else .other

/-- The variables of `merge_for_linux_tun_batch`. -/
structure Batch where
  tcpGro : TcpGroTable
  udpGro : UdpGroTable
  passthrough : List GroOutput

/-- The start of `merge_for_linux_tun_batch`. -/
def Batch.empty : Batch := ⟨.empty, .empty, []⟩

/-- One turn of the loop of `merge_for_linux_tun_batch`. -/
def Batch.add (b : Batch) (pkt : Packet) : Batch :=
  match classifyForGro pkt with
  | .tcp =>
    match TcpGroTable.push b.tcpGro pkt with
    | .ok (_, table) => { b with tcpGro := table }
    | .error (_, original) => { b with passthrough := b.passthrough ++ [⟨original, none⟩] }
  | .udp =>
    match UdpGroTable.push b.udpGro pkt with
    | .ok (_, table) => { b with udpGro := table }
    | .error (_, original) => { b with passthrough := b.passthrough ++ [⟨original, none⟩] }
  | .other => { b with passthrough := b.passthrough ++ [⟨pkt, none⟩] }

/-- The loop of `merge_for_linux_tun_batch`. -/
def Batch.addAll (pkts : List Packet) : Batch := pkts.foldl Batch.add .empty

/-- `merge_for_linux_tun_batch`, with the orders in which the tables are drained. -/
def mergeForLinuxTunBatch (tcpIt : Iteration TcpFlowKey (List TcpGroItem))
    (udpIt : Iteration UdpFlowKey (List UdpGroItem)) (pkts : List Packet) : List GroOutput :=
  let b := Batch.addAll pkts
  b.passthrough ++ TcpGroTable.drain tcpIt b.tcpGro ++ UdpGroTable.drain udpIt b.udpGro

end Gro

end WutherCore.Capture
