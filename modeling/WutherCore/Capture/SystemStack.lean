import WutherCore.Capture.IpHeader
import WutherCore.Capture.TcpNat

/-!
# The system stack

`SystemStack` of `stack_system.rs` sends the TCP flows of a TUN device through a listener of the host.  A
packet of a client gets the port that `TcpNat` has for its flow, and goes to the listener as if it came
from the next address of the device; a packet of the listener is turned back into one of the server the
client wanted.  Echo requests are answered, all other packets are dropped.  When there is no port left,
the client gets a reset.

The functions for IPv4 and IPv6 are the same but for the places of the addresses, the header before the
TCP checksum, and the checksum of the IPv4 header: `IpLayout` and `TcpSide` have these, and `processTcp`,
`rewriteTcp` and `buildTcpRst` the rest.  Addresses are numbers here.  A function has no value where the
source panics: an addition of the builder of resets is checked for overflow in some builds.
-/

namespace WutherCore.Capture

open WutherCore.Net WutherCore.Data
open WutherCore.Text (toBytesBE)

/-- `ProcessOutcome`. -/
inductive ProcessOutcome
  | writeBack
  | consumed
  | drop
  | reply (packet : Packet)
  deriving DecidableEq, Repr

/-- `SystemStackV6`. -/
structure SystemStackV6 where
  address : BitVec 128
  listenPort : UInt16
  nextAddress : BitVec 128

/-- `SystemStack`. -/
structure SystemStack where
  tcpNat : TcpNat
  inet4Address : BitVec 32
  inet4ListenPort : UInt16
  inet4NextAddress : BitVec 32
  inet6 : Option SystemStackV6

namespace SystemStack

open Gso (fillChecksum internetChecksum ipv4HeaderLen ipFixedLen ipHeaderLen ipTotalLen ipProto)

/-! ### The two families -/

/-- Where the addresses of an IP packet are, and what goes before its TCP checksum. -/
structure IpLayout where
  addrLen : Nat
  srcOff : Nat
  dstOff : Nat
  fixedLen : Nat
  pseudoHeader : Nat → Nat → Nat → List UInt8
  socketAddr : Nat → UInt16 → SocketAddr
  /-- The address and the port, when the address is one of the family. -/
  endpoint : SocketAddr → Option (Nat × UInt16)
  src_add : srcOff + addrLen = dstOff
  dst_add : dstOff + addrLen = fixedLen
  version_lt : 7 < srcOff
  pseudoHeader_length : ∀ src dst len, (pseudoHeader src dst len).length % 2 = 0 ∧
    (pseudoHeader src dst len).length ≤ 40
  endpoint_socketAddr : ∀ ip port, ip < 256 ^ addrLen → endpoint (socketAddr ip port) = some (ip, port)
  ip_socketAddr : ∀ ip port port', (socketAddr ip port).ip = (socketAddr ip port').ip

/-- The places in an IPv4 packet. -/
def ipv4Layout : IpLayout where
  addrLen := 4
  srcOff := 12
  dstOff := 16
  fixedLen := 20
  pseudoHeader src dst len := toBytesBE 4 src ++ (toBytesBE 4 dst ++ (0 :: 6 :: toBytesBE 2 len))
  socketAddr ip port := .v4 (BitVec.ofNat 32 ip) port
  endpoint
    | .v4 ip port => some (ip.toNat, port)
    | .v6 .. => none
  src_add := rfl
  dst_add := rfl
  version_lt := by decide
  pseudoHeader_length src dst len := by simp
  endpoint_socketAddr ip port h := by simpa using h
  ip_socketAddr _ _ _ := rfl

/-- The places in an IPv6 packet. -/
def ipv6Layout : IpLayout where
  addrLen := 16
  srcOff := 8
  dstOff := 24
  fixedLen := 40
  pseudoHeader src dst len :=
    toBytesBE 16 src ++ (toBytesBE 16 dst ++ (toBytesBE 4 len ++ [0, 0, 0, 6]))
  socketAddr ip port := .v6 (BitVec.ofNat 128 ip) port 0 0
  endpoint
    | .v6 ip port _ _ => some (ip.toNat, port)
    | .v4 .. => none
  src_add := rfl
  dst_add := rfl
  version_lt := by decide
  pseudoHeader_length src dst len := by simp
  endpoint_socketAddr ip port h := by simpa using h
  ip_socketAddr _ _ _ := rfl

/-- `Ipv4Packet::new_checked` takes the packet. -/
def ipv4Checked (packet : Packet) : Bool :=
  20 ≤ packet.length && ipv4HeaderLen packet ≤ packet.length &&
    ipv4HeaderLen packet ≤ beAt 2 packet 2 && beAt 2 packet 2 ≤ packet.length

/-- `Ipv6Packet::new_checked` takes the packet. -/
def ipv6Checked (packet : Packet) : Bool :=
  40 ≤ packet.length && 40 + beAt 2 packet 4 ≤ packet.length

/-- `TcpPacket::header_len`. -/
def tcpHeaderLen (tcp : List UInt8) : Nat := (byteAt tcp 12 >>> 4).toNat * 4

/-- `TcpPacket::new_checked` takes the segment. -/
def tcpChecked (tcp : List UInt8) : Bool :=
  20 ≤ tcp.length && tcpHeaderLen tcp ≤ tcp.length && 20 ≤ tcpHeaderLen tcp

/-- The flags of a segment. -/
def finFlag : UInt8 := 0x01
def synFlag : UInt8 := 0x02
def rstFlag : UInt8 := 0x04
def ackFlag : UInt8 := 0x10

/-- Whether a segment has a flag. -/
def tcpHas (flag : UInt8) (tcp : List UInt8) : Bool := byteAt tcp 13 &&& flag ≠ 0

/-! ### Rewriting -/

/-- What `rewrite_ipv4_tcp` and `rewrite_ipv6_tcp` have in common: the addresses, the ports and the TCP
checksum. -/
def rewriteTcp (layout : IpLayout) (packet : Packet) (totalLen headerLen newSrcIp : Nat)
    (newSrcPort : UInt16) (newDstIp : Nat) (newDstPort : UInt16) : Packet :=
  let packet := putBE layout.addrLen packet layout.srcOff newSrcIp
  let packet := putBE layout.addrLen packet layout.dstOff newDstIp
  let packet := putBE 2 packet headerLen newSrcPort.toNat
  let packet := putBE 2 packet (headerLen + 2) newDstPort.toNat
  fillChecksum packet (headerLen + 16) fun packet =>
    internetChecksum (layout.pseudoHeader newSrcIp newDstIp (totalLen - headerLen) ++
      slice packet headerLen totalLen)

/-- `rewrite_ipv4_tcp`. -/
def rewriteIpv4Tcp (packet : Packet) (totalLen headerLen newSrcIp : Nat) (newSrcPort : UInt16)
    (newDstIp : Nat) (newDstPort : UInt16) : Packet :=
  fillChecksum (rewriteTcp ipv4Layout packet totalLen headerLen newSrcIp newSrcPort newDstIp newDstPort)
    10 fun packet => internetChecksum (slice packet 0 (ipv4HeaderLen packet))

/-- `rewrite_ipv6_tcp`. -/
def rewriteIpv6Tcp (packet : Packet) (totalLen headerLen newSrcIp : Nat) (newSrcPort : UInt16)
    (newDstIp : Nat) (newDstPort : UInt16) : Packet :=
  rewriteTcp ipv6Layout packet totalLen headerLen newSrcIp newSrcPort newDstIp newDstPort

/-! ### Resets -/

/-- The acknowledgement of a reset.  The first addition is the `+` of the language, which panics on
overflow in builds that check for it; the others wrap around. -/
def rstAck (overflowChecks : Bool) (tcp : List UInt8) (payloadLen : Nat) : Option Nat :=
  if overflowChecks = true ∧ 2 ^ 32 ≤ beAt 4 tcp 4 + payloadLen then none
  else
    let ackN := (beAt 4 tcp 4 + payloadLen) % 2 ^ 32
    let ackN := if tcpHas synFlag tcp then (ackN + 1) % 2 ^ 32 else ackN
    let ackN := if tcpHas finFlag tcp then (ackN + 1) % 2 ^ 32 else ackN
    some ackN

/-- `TcpRepr::emit` of a reset: no options, no payload and a window of zero. -/
def emitRst (pseudoHeader : List UInt8) (srcPort dstPort seqNumber : Nat) (ackNumber : Option Nat) :
    List UInt8 :=
  fillChecksum
    (toBytesBE 2 srcPort ++ (toBytesBE 2 dstPort ++ (toBytesBE 4 seqNumber ++
      (toBytesBE 4 (ackNumber.getD 0) ++
        [0x50, if ackNumber.isSome then rstFlag ||| ackFlag else rstFlag, 0, 0, 0, 0, 0, 0]))))
    16 fun tcp => internetChecksum (pseudoHeader ++ tcp)

/-- `Ipv4Repr::emit`: no fragments and 64 hops. -/
def emitIpv4 (src dst payloadLen : Nat) : List UInt8 :=
  fillChecksum
    ([0x45, 0] ++ (toBytesBE 2 (20 + payloadLen) ++ ([0, 0, 0x40, 0, 64, 6, 0, 0] ++
      (toBytesBE 4 src ++ toBytesBE 4 dst)))) 10 internetChecksum

/-- `Ipv6Repr::emit`: 64 hops. -/
def emitIpv6 (src dst payloadLen : Nat) : List UInt8 :=
  [0x60, 0, 0, 0] ++ (toBytesBE 2 payloadLen ++ ([6, 64] ++ (toBytesBE 16 src ++ toBytesBE 16 dst)))

/-- What `build_ipv4_tcp_rst` and `build_ipv6_tcp_rst` have in common.  To a segment with an
acknowledgement the reset comes from there, to one without it acknowledges the segment. -/
def buildTcpRst (layout : IpLayout) (emitIp : Nat → Nat → Nat → List UInt8) (overflowChecks : Bool)
    (origIpPacket : Packet) (origHeaderLen origTotalLen : Nat) : Option (Option Packet) :=
  let origTcp := slice origIpPacket origHeaderLen origTotalLen
  if !tcpChecked origTcp then some none
  else
    let origPayloadLen := origTotalLen - origHeaderLen - tcpHeaderLen origTcp
    let srcAddr := beAt layout.addrLen origIpPacket layout.dstOff
    let dstAddr := beAt layout.addrLen origIpPacket layout.srcOff
    let numbers :=
      if tcpHas ackFlag origTcp then some (beAt 4 origTcp 8, none)
      else (rstAck overflowChecks origTcp origPayloadLen).map fun ackN => (0, some ackN)
    numbers.map fun (seq, ack) =>
      some (emitIp srcAddr dstAddr 20 ++
        emitRst (layout.pseudoHeader srcAddr dstAddr 20) (beAt 2 origTcp 2) (beAt 2 origTcp 0) seq ack)

/-- `build_ipv4_tcp_rst`. -/
def buildIpv4TcpRst (overflowChecks : Bool) (origIpPacket : Packet) : Option (Option Packet) :=
  if !ipv4Checked origIpPacket then some none
  else if origIpPacket.length < beAt 2 origIpPacket 2 then some none
  else
    buildTcpRst ipv4Layout emitIpv4 overflowChecks origIpPacket (ipv4HeaderLen origIpPacket)
      (beAt 2 origIpPacket 2)

/-- `build_ipv6_tcp_rst`. -/
def buildIpv6TcpRst (overflowChecks : Bool) (origIpPacket : Packet) : Option (Option Packet) :=
  if !ipv6Checked origIpPacket then some none
  else if origIpPacket.length < 40 + beAt 2 origIpPacket 4 then some none
  else
    buildTcpRst ipv6Layout emitIpv6 overflowChecks origIpPacket 40 (40 + beAt 2 origIpPacket 4)

/-! ### TCP packets -/

/-- What a stack has for the TCP packets of a family. -/
structure TcpSide where
  layout : IpLayout
  address : Nat
  nextAddress : Nat
  listenPort : UInt16
  rewrite : Packet → Nat → Nat → Nat → UInt16 → Nat → UInt16 → Packet
  buildRst : Packet → Option (Option Packet)

/-- What `process_ipv4_tcp` and `process_ipv6_tcp` have in common. -/
def processTcp (side : TcpSide) (now : Nat) (nat : TcpNat) (packet : Packet) (totalLen headerLen : Nat) :
    Option (ProcessOutcome × Packet × TcpNat) :=
  let tcp := slice packet headerLen totalLen
  if !tcpChecked tcp then some (.drop, packet, nat)
  else
    let srcIp := beAt side.layout.addrLen packet side.layout.srcOff
    let dstIp := beAt side.layout.addrLen packet side.layout.dstOff
    let srcPort := UInt16.ofNat (beAt 2 tcp 0)
    let dstPort := UInt16.ofNat (beAt 2 tcp 2)
    if srcIp = side.address ∧ srcPort = side.listenPort then
      -- from the listener to the client
      match nat.lookupBack now dstPort with
      | (none, nat) => some (.drop, packet, nat)
      | (some session, nat) =>
        match side.layout.endpoint session.source, side.layout.endpoint session.destination with
        | some (origSrcIp, origSrcPort), some (origDstIp, origDstPort) =>
          some (.writeBack,
            side.rewrite packet totalLen headerLen origDstIp origDstPort origSrcIp origSrcPort, nat)
        | _, _ => some (.drop, packet, nat)
    else if dstIp = side.address then some (.drop, packet, nat)
    else
      -- from the client to the listener
      match nat.lookup now (side.layout.socketAddr srcIp srcPort) (side.layout.socketAddr dstIp dstPort) with
      | (some natPort, nat) =>
        some (.writeBack,
          side.rewrite packet totalLen headerLen side.nextAddress natPort side.address side.listenPort, nat)
      | (none, nat) =>
        (side.buildRst (packet.take totalLen)).map fun
          | some rst => (.reply rst, packet, nat)
          | none => (.drop, packet, nat)

/-- The IPv4 side of a stack. -/
def side4 (overflowChecks : Bool) (stack : SystemStack) : TcpSide where
  layout := ipv4Layout
  address := stack.inet4Address.toNat
  nextAddress := stack.inet4NextAddress.toNat
  listenPort := stack.inet4ListenPort
  rewrite := rewriteIpv4Tcp
  buildRst := buildIpv4TcpRst overflowChecks

/-- The IPv6 side of a stack. -/
def side6 (overflowChecks : Bool) (v6 : SystemStackV6) : TcpSide where
  layout := ipv6Layout
  address := v6.address.toNat
  nextAddress := v6.nextAddress.toNat
  listenPort := v6.listenPort
  rewrite := rewriteIpv6Tcp
  buildRst := buildIpv6TcpRst overflowChecks

/-- `process_ipv4_tcp`. -/
def processIpv4Tcp (overflowChecks : Bool) (now : Nat) (stack : SystemStack) (packet : Packet)
    (totalLen headerLen : Nat) : Option (ProcessOutcome × Packet × TcpNat) :=
  processTcp (stack.side4 overflowChecks) now stack.tcpNat packet totalLen headerLen

/-- `process_ipv6_tcp`. -/
def processIpv6Tcp (overflowChecks : Bool) (now : Nat) (stack : SystemStack) (packet : Packet)
    (totalLen headerLen : Nat) : Option (ProcessOutcome × Packet × TcpNat) :=
  match stack.inet6 with
  | none => some (.drop, packet, stack.tcpNat)
  | some v6 => processTcp (side6 overflowChecks v6) now stack.tcpNat packet totalLen headerLen

/-! ### All packets -/

/-- `process_ipv4_icmp`. -/
def processIpv4Icmp (packet : Packet) (totalLen headerLen : Nat) : ProcessOutcome × Packet :=
  if totalLen - headerLen < 8 then (.drop, packet)
  else if byteAt packet headerLen ≠ 8 ∨ byteAt packet (headerLen + 1) ≠ 0 then (.drop, packet)
  else
    let origSrc := beAt 4 packet 12
    let origDst := beAt 4 packet 16
    let packet := putBE 4 (putBE 4 packet 12 origDst) 16 origSrc
    let packet := writeAt packet headerLen [0]
    let packet := fillChecksum packet (headerLen + 2) fun packet =>
      internetChecksum (slice packet headerLen totalLen)
    (.writeBack, fillChecksum packet 10 fun packet =>
      internetChecksum (slice packet 0 (ipv4HeaderLen packet)))

/-- `process_ipv6_icmp`. -/
def processIpv6Icmp (packet : Packet) (totalLen headerLen : Nat) : ProcessOutcome × Packet :=
  if totalLen - headerLen < 8 then (.drop, packet)
  else if byteAt packet headerLen ≠ 128 ∨ byteAt packet (headerLen + 1) ≠ 0 then (.drop, packet)
  else
    let origSrc := beAt 16 packet 8
    let origDst := beAt 16 packet 24
    let packet := putBE 16 (putBE 16 packet 8 origDst) 24 origSrc
    let packet := writeAt packet headerLen [129]
    (.writeBack, fillChecksum packet (headerLen + 2) fun packet =>
      internetChecksum (toBytesBE 16 origDst ++ (toBytesBE 16 origSrc ++
        (toBytesBE 4 (totalLen - headerLen) ++ ([0, 0, 0, 58] ++ slice packet headerLen totalLen)))))

/-- `process_ipv4`. -/
def processIpv4 (overflowChecks : Bool) (now : Nat) (stack : SystemStack) (packet : Packet) :
    Option (ProcessOutcome × Packet × TcpNat) :=
  if !ipv4Checked packet then some (.drop, packet, stack.tcpNat)
  else
    let totalLen := beAt 2 packet 2
    let headerLen := ipv4HeaderLen packet
    if packet.length < totalLen ∨ headerLen < 20 ∨ totalLen < headerLen then
      some (.drop, packet, stack.tcpNat)
    else if byteAt packet 9 = 6 then processIpv4Tcp overflowChecks now stack packet totalLen headerLen
    else if byteAt packet 9 = 1 then
      let (outcome, packet) := processIpv4Icmp packet totalLen headerLen
      some (outcome, packet, stack.tcpNat)
    else some (.drop, packet, stack.tcpNat)

/-- `process_ipv6`. -/
def processIpv6 (overflowChecks : Bool) (now : Nat) (stack : SystemStack) (packet : Packet) :
    Option (ProcessOutcome × Packet × TcpNat) :=
  if !ipv6Checked packet then some (.drop, packet, stack.tcpNat)
  else
    let headerLen := 40
    let totalLen := headerLen + beAt 2 packet 4
    if packet.length < totalLen ∨ headerLen < 40 then some (.drop, packet, stack.tcpNat)
    else if byteAt packet 6 = 6 then processIpv6Tcp overflowChecks now stack packet totalLen headerLen
    else if byteAt packet 6 = 58 then
      let (outcome, packet) := processIpv6Icmp packet totalLen headerLen
      some (outcome, packet, stack.tcpNat)
    else some (.drop, packet, stack.tcpNat)

/-- `process_packet`: the outcome, the packet and the table after it. -/
def processPacket (overflowChecks : Bool) (now : Nat) (stack : SystemStack) (packet : Packet) :
    Option (ProcessOutcome × Packet × TcpNat) :=
  if packet = [] then some (.drop, packet, stack.tcpNat)
  else if byteAt packet 0 >>> 4 = 4 then processIpv4 overflowChecks now stack packet
  else if byteAt packet 0 >>> 4 = 6 then processIpv6 overflowChecks now stack packet
  else some (.drop, packet, stack.tcpNat)

end SystemStack

end WutherCore.Capture
