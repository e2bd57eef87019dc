import WutherCore.Capture.Gro

/-!
# Cutting up a merged packet

`gso_split.rs` cuts a large packet with its `virtio_net_hdr` into packets of `gso_size` bytes of payload
each.  Every one of them gets the headers of the large packet, with the lengths, the IPv4 identification
and the TCP sequence number of its own.

The checksums are computed by `smoltcp`, from the bytes they cover; here they are any functions of
these bytes (`Checksums`).  The packet types of `smoltcp` read and write the fields of the headers at
their offsets; `new_checked` compares the lengths in the header with the length of the buffer.
-/

namespace WutherCore.Capture

open WutherCore.Data

namespace Gso

/-- The checksums that `fill_checksum` of `smoltcp` computes: of an IPv4 header, and of a TCP segment
or a datagram between two addresses. -/
structure Checksums where
  ipv4 : List UInt8 → Nat
  tcp : List UInt8 → List UInt8 → List UInt8 → Nat
  udp : List UInt8 → List UInt8 → List UInt8 → Nat

/-- The sum of the words of two bytes, a last byte with a zero behind it. -/
def wordSum : List UInt8 → Nat
  | a :: b :: rest => a.toNat * 256 + b.toNat + wordSum rest
  | [a] => a.toNat * 256
  | [] => 0

/-- The Internet checksum: the complement of the sum of the words, with the carries added again. -/
def internetChecksum (bytes : List UInt8) : Nat :=
  let sum := wordSum bytes
  let folded := sum % 2 ^ 16 + sum / 2 ^ 16
  2 ^ 16 - 1 - (folded % 2 ^ 16 + folded / 2 ^ 16)

/-- The header before a transport checksum: the addresses, the protocol and the length. -/
def pseudoHeader (src dst : List UInt8) (proto : UInt8) (len : Nat) : List UInt8 :=
  src ++ dst ++ [0, proto] ++ Text.toBytesBE 2 len

/-- The checksums of the Internet protocols; no datagram has the checksum zero. -/
def Checksums.internet : Checksums where
  ipv4 := internetChecksum
  tcp bytes src dst := internetChecksum (pseudoHeader src dst 6 bytes.length ++ bytes)
  udp bytes src dst :=
    let sum := internetChecksum (pseudoHeader src dst 17 bytes.length ++ bytes)
    if sum = 0 then 0xffff else sum

/-- `GsoSplitError`. -/
inductive GsoSplitError
  | csumOffsetOutOfRange (csumAt inputLen : Nat)
  | inputShorterThanHdr (inputLen hdrLen : Nat)
  | hdrLenLessThanCsumStart (hdrLen csumStart : Nat)
  | ipVersionGsoTypeMismatch (ipVersion : UInt8) (gsoType : GsoType)
  | ipHeaderTooShort (ipVersion : UInt8) (got : Nat)
  | invalidIpVersion (version : UInt8)
  | tcpHeaderOutOfRange
  deriving DecidableEq, Repr

/-- A checksum field of two bytes is cleared, and then filled from the packet as it stands. -/
def fillChecksum (pkt : Packet) (off : Nat) (sum : Packet → Nat) : Packet :=
  let cleared := putBE 2 pkt off 0
  putBE 2 cleared off (sum cleared)

/-- `Ipv4Packet::header_len`. -/
def ipv4HeaderLen (pkt : Packet) : Nat := (byteAt pkt 0 &&& 0x0F).toNat * 4

/-- `fix_ipv4`. -/
def fixIpv4 (cs : Checksums) (seg : Packet) (totalLen segIndex : Nat) :
    Except GsoSplitError Packet :=
  if totalLen < 20 ∨ seg.length < totalLen then .error (.ipHeaderTooShort 4 seg.length)
  else
    let seg := if segIndex > 0 then putBE 2 seg 4 ((beAt 2 seg 4 + segIndex) % 2 ^ 16) else seg
    let seg := putBE 2 seg 2 (totalLen % 2 ^ 16)
    .ok (fillChecksum seg 10 fun pkt => cs.ipv4 (pkt.take (ipv4HeaderLen pkt)))

/-- `fix_ipv6`. -/
def fixIpv6 (seg : Packet) (totalLen iphlen : Nat) : Except GsoSplitError Packet :=
  if totalLen < 40 ∨ seg.length < totalLen then .error (.ipHeaderTooShort 6 seg.length)
  else .ok (putBE 2 seg 4 ((totalLen - iphlen) % 2 ^ 16))

/-- `fix_tcp`. -/
def fixTcp (seg : Packet) (iphlen : Nat) (baseSeq gsoSize segIndex : UInt32) (notLast : Bool) :
    Packet :=
  let seg := putBE 4 seg (iphlen + 4) (baseSeq + gsoSize * segIndex).toNat
  if notLast then
    writeAt seg (iphlen + 13) [byteAt seg (iphlen + 13) &&& ~~~(Gro.tcpFlagFin ||| Gro.tcpFlagPsh)]
  else seg

/-- `fix_udp`. -/
def fixUdp (seg : Packet) (iphlen hdrlen : Nat) : Packet :=
  putBE 2 seg (iphlen + 4) (((hdrlen - iphlen) + (seg.length - hdrlen)) % 2 ^ 16)

/-- `l4_fill`, on the transport part `seg[headerLen..totalLen]`. -/
def l4Fill (cs : Checksums) (seg : Packet) (headerLen totalLen : Nat) (proto : UInt8)
    (src dst : List UInt8) : Packet :=
  if proto = 6 then
    fillChecksum seg (headerLen + 16) fun pkt => cs.tcp (slice pkt headerLen totalLen) src dst
  else if proto = 17 then
    fillChecksum seg (headerLen + 6) fun pkt => cs.udp (slice pkt headerLen totalLen) src dst
  else seg

/-- `recompute_l4_checksum`. -/
def recomputeL4Checksum (cs : Checksums) (seg : Packet) : Except GsoSplitError Packet :=
  let ipVersion := byteAt seg 0 >>> 4
  if ipVersion = 4 then
    let headerLen := ipv4HeaderLen seg
    let totalLen := beAt 2 seg 2
    if seg.length < 20 ∨ seg.length < headerLen ∨ headerLen > totalLen ∨ seg.length < totalLen then
      .error (.ipHeaderTooShort 4 seg.length)
    else .ok (l4Fill cs seg headerLen totalLen (byteAt seg 9) (slice seg 12 16) (slice seg 16 20))
  else if ipVersion = 6 then
    let totalLen := 40 + beAt 2 seg 4
    if seg.length < 40 ∨ seg.length < totalLen then .error (.ipHeaderTooShort 6 seg.length)
    else .ok (l4Fill cs seg 40 totalLen (byteAt seg 6) (slice seg 8 24) (slice seg 24 40))
  else .error (.invalidIpVersion ipVersion)

/-- The body of the loop of `gso_split`: the packet with the payload from `nextDataAt` on. -/
def splitSegment (cs : Checksums) (input : Packet) (opts : VirtioNetHdr) (nextDataAt segIndex : Nat) :
    Except GsoSplitError Packet :=
  let ipVersion := byteAt input 0 >>> 4
  let iphlen := opts.csumStart
  let hdrlen := opts.hdrLen
  let nextEnd := min (nextDataAt + opts.gsoSize) input.length
  let segDataLen := nextEnd - nextDataAt
  let totalLen := hdrlen + segDataLen
  let seg := input.take hdrlen ++ slice input nextDataAt nextEnd
  let fixed := if ipVersion = 4 then fixIpv4 cs seg totalLen segIndex else fixIpv6 seg totalLen iphlen
  fixed.bind fun seg =>
    let seg :=
      if opts.gsoType = .tcpV4 ∨ opts.gsoType = .tcpV6 then
        fixTcp seg iphlen (UInt32.ofNat (beAt 4 input (iphlen + 4))) (UInt32.ofNat opts.gsoSize)
          (UInt32.ofNat segIndex) (nextEnd ≠ input.length)
      else fixUdp seg iphlen hdrlen
    recomputeL4Checksum cs seg

/-- The loop of `gso_split`, with as many turns as `fuel` says; none when they do not suffice. -/
def splitLoop (cs : Checksums) (input : Packet) (opts : VirtioNetHdr) :
    Nat → Nat → Nat → Option (Except GsoSplitError (List Packet))
  | 0, nextDataAt, _ => if nextDataAt < input.length then none else some (.ok [])
  | fuel + 1, nextDataAt, segIndex =>
    if nextDataAt < input.length then
      match splitSegment cs input opts nextDataAt segIndex with
      | .error e => some (.error e)
      | .ok seg =>
        (splitLoop cs input opts fuel (nextDataAt + opts.gsoSize) (segIndex + 1)).map
          fun segs => segs.map (seg :: ·)
    else some (.ok [])

/-- The checks of `gso_split` before it cuts: the version of the packet and the type go together, and
the headers fit in. -/
def checkSplit (input : Packet) (opts : VirtioNetHdr) : Except GsoSplitError Unit :=
  if opts.hdrLen < opts.csumStart then
    .error (.hdrLenLessThanCsumStart opts.hdrLen opts.csumStart)
  else
    let ipVersion := byteAt input 0 >>> 4
    let version : Except GsoSplitError Unit :=
      if ipVersion = 4 ∧ (opts.gsoType = .tcpV4 ∨ opts.gsoType = .udpL4) then
        if input.length < 20 then .error (.ipHeaderTooShort 4 input.length) else .ok ()
      else if ipVersion = 6 ∧ (opts.gsoType = .tcpV6 ∨ opts.gsoType = .udpL4) then
        if input.length < 40 then .error (.ipHeaderTooShort 6 input.length) else .ok ()
      else if ipVersion = 4 ∨ ipVersion = 6 then
        .error (.ipVersionGsoTypeMismatch ipVersion opts.gsoType)
      else .error (.invalidIpVersion ipVersion)
    version.bind fun _ =>
      if (opts.gsoType = .tcpV4 ∨ opts.gsoType = .tcpV6) ∧ input.length < opts.csumStart + 20 then
        .error .tcpHeaderOutOfRange
      else .ok ()

/-- `gso_split`.  It does not return when it would cut pieces of no bytes. -/
def gsoSplit (cs : Checksums) (input : Packet) (opts : VirtioNetHdr) :
    Option (Except GsoSplitError (List Packet)) :=
  let csumAt := opts.csumStart + opts.csumOffset
  if csumAt + 1 ≥ input.length then some (.error (.csumOffsetOutOfRange csumAt input.length))
  else if input.length < opts.hdrLen then
    some (.error (.inputShorterThanHdr input.length opts.hdrLen))
  else
    let payloadLen := input.length - opts.hdrLen
    if opts.gsoType = .none ∨ payloadLen ≤ max opts.gsoSize 1 then
      if opts.needsCsum then some ((recomputeL4Checksum cs input).map ([·])) else some (.ok [input])
    else
      match checkSplit input opts with
      | .error e => some (.error e)
      | .ok () => splitLoop cs input opts input.length opts.hdrLen 0

/-- The packets that a receiver gets of what was written: a packet without a header is taken as it
is, one with a header is cut up. -/
def recover (cs : Checksums) (out : Gro.GroOutput) : Option (Except GsoSplitError (List Packet)) :=
  match out.options with
  | none => some (.ok [out.bytes])
  | some opts => gsoSplit cs out.bytes opts

end Gso

end WutherCore.Capture
