import WutherCore.Data.Buffer
import WutherCore.Data.Pieces
import WutherCore.Young.Wire

/-!
# Fragmentation of IP packets

`fragment_ip_packet` of `ip_fragment.rs`.  The loops of the source have counters here; `none` when one of
them runs out, which `fragmentIpPacket_terminates` rules out.

A receiver puts fragments together by `reassemble`: each fragment is a `Piece`, with the data behind its
headers, and pieces of one datagram that follow one another are joined.  `Reversible` is what is expected
of the fragments of a packet.
-/

namespace WutherCore.Net

open WutherCore.Text WutherCore.Data
open WutherCore.Young (IoError invalidData invalidInput u16Bytes u16OfBytes u32Bytes)

/-- `IPV4_MIN_HEADER`. -/
def ipv4MinHeader : Nat := 20

/-- `IPV6_HEADER`. -/
def ipv6Header : Nat := 40

/-- `IPV6_FRAGMENT_HEADER`. -/
def ipv6FragmentHeader : Nat := 8

/-- `IPV6_FRAGMENT`. -/
def ipv6Fragment : UInt8 := 44

/-- `IPV6_HOP_BY_HOP`. -/
def ipv6HopByHop : UInt8 := 0

/-- `IPV6_ROUTING`. -/
def ipv6Routing : UInt8 := 43

/-- `IPV6_DESTINATION_OPTIONS`. -/
def ipv6DestinationOptions : UInt8 := 60

/-! ### IPv4 -/

/-- The loop of `copied_ipv4_options`, on the options from the cursor on. -/
def copiedOptionsLoop : Nat → (rest copied : List UInt8) → Option (Except IoError (List UInt8))
  | 0, _, _ => none
  | _ + 1, [], copied => some (.ok copied)
  | rounds + 1, kind :: tail, copied =>
    if kind = 0 then some (.ok copied)
    else if kind = 1 then copiedOptionsLoop rounds tail copied
    else
      match tail.head? with
      | none => some (.error (invalidData "IPv4 option is missing its length"))
      | some len =>
        if len.toNat < 2 ∨ (kind :: tail).length < len.toNat then
          some (.error (invalidData "IPv4 option has an invalid length"))
        else
          copiedOptionsLoop rounds ((kind :: tail).drop len.toNat)
            (if kind &&& 0x80 ≠ 0 then copied ++ (kind :: tail).take len.toNat else copied)

/-- Zeros up to a multiple of four bytes. -/
def padOptions (options : List UInt8) : List UInt8 :=
  options ++ List.replicate ((4 - options.length % 4) % 4) 0

/-- `copied_ipv4_options`. -/
def copiedIpv4Options (options : List UInt8) : Option (Except IoError (List UInt8)) :=
  (copiedOptionsLoop (options.length + 1) options []).map fun result => result.map padOptions

/-- The sum of two values of 16 bits, with the carry added: one round of the loop is enough. -/
def carry (sum : Nat) : Nat := if 0xffff < sum then sum % 2 ^ 16 + sum / 2 ^ 16 else sum

/-- The loop of `ipv4_checksum` over the words of a header. -/
def checksumLoop : Nat → List UInt8 → Nat
  | sum, [] => sum
  | sum, [a] => carry (sum + a.toNat * 256)
  | sum, a :: b :: rest => checksumLoop (carry (sum + (a.toNat * 256 + b.toNat))) rest

/-- `ipv4_checksum`. -/
def ipv4Checksum (header : List UInt8) : Nat := 0xffff - checksumLoop 0 header

/-- `header_len`. -/
def ipv4HeaderLen (packet : List UInt8) : Nat := (byteAt packet 0 &&& 0x0f).toNat * 4

/-- The fields of a fragment are written over the first 20 bytes of the packet. -/
def buildIpv4Fragment (packet options data : List UInt8) (flags : UInt16) : List UInt8 :=
  let headerLen := ipv4MinHeader + options.length
  let fragment := packet.take ipv4MinHeader ++ (options ++ data)
  let fragment := writeAt fragment 0 [0x40 ||| UInt8.ofNat (headerLen / 4)]
  let fragment := putBE 2 fragment 2 (headerLen + data.length)
  let fragment := writeAt fragment 6 (u16Bytes flags)
  let fragment := writeAt fragment 10 [0, 0]
  putBE 2 fragment 10 (ipv4Checksum (fragment.take headerLen))

/-- One round of the loop of `fragment_ipv4`: the fragment at an offset, and how much it takes. -/
def fragmentIpv4At (packet options payload : List UInt8) (mtu : Nat) (flagsOffset : UInt16)
    (offset : Nat) : Except IoError (List UInt8 × Nat) :=
  let headerLen := ipv4MinHeader + options.length
  if mtu < headerLen then .error (invalidData "MTU is too small for the IPv4 header and options")
  else
    let capacity := mtu - headerLen
    let remaining := payload.length - offset
    let take := if capacity < remaining then capacity / 8 * 8 else remaining
    if take = 0 then .error (invalidData "MTU leaves no aligned IPv4 fragment payload")
    else if 2 ^ 8 ≤ headerLen / 4 then .error (invalidData "IPv4 header is too long")
    else if 2 ^ 16 ≤ headerLen + take then .error (invalidData "IPv4 fragment length overflow")
    else if 2 ^ 16 ≤ offset / 8 then .error (invalidData "IPv4 fragment offset overflow")
    else
      let more : UInt16 := if offset + take < payload.length then 0x2000 else 0
      let flags := (flagsOffset &&& 0x8000) ||| more ||| UInt16.ofNat (offset / 8)
      .ok (buildIpv4Fragment packet options (slice payload offset (offset + take)) flags, take)

/-- The loop of a fragmentation: `part` gives the fragment at an offset and how much it takes. -/
def fragmentLoop (total : Nat) (part : Nat → Except IoError (List UInt8 × Nat)) :
    Nat → Nat → Option (Except IoError (List (List UInt8)))
  | 0, _ => none
  | rounds + 1, offset =>
    if offset < total then
      match part offset with
      | .error e => some (.error e)
      | .ok (fragment, take) =>
        (fragmentLoop total part rounds (offset + take)).map fun result => result.map (fragment :: ·)
    else some (.ok [])

/-- `fragment_ipv4`. -/
def fragmentIpv4 (packet : List UInt8) (mtu : Nat) : Option (Except IoError (List (List UInt8))) :=
  if packet.length < ipv4MinHeader then
    some (.error (invalidData "IPv4 packet is shorter than its base header"))
  else
    let headerLen := ipv4HeaderLen packet
    let totalLen := beAt 2 packet 2
    if headerLen < ipv4MinHeader ∨ packet.length < headerLen ∨ totalLen ≠ packet.length then
      some (.error (invalidData "IPv4 packet has an invalid header or total length"))
    else
      let flagsOffset := u16OfBytes (slice packet 6 8)
      if flagsOffset &&& 0x3fff ≠ 0 then
        some (.error (invalidInput "cannot re-fragment an existing IPv4 fragment"))
      else if flagsOffset &&& 0x4000 ≠ 0 then
        some (.error (invalidInput "IPv4 packet exceeds MTU while Don't Fragment is set"))
      else
        let options := slice packet ipv4MinHeader headerLen
        match copiedIpv4Options options with
        | none => none
        | some (.error e) => some (.error e)
        | some (.ok copied) =>
          let payload := packet.drop headerLen
          fragmentLoop payload.length
            (fun offset => fragmentIpv4At packet (if offset = 0 then options else copied) payload mtu
              flagsOffset offset)
            (payload.length + 1) 0

/-! ### IPv6 -/

/-- An extension header. -/
structure Extension where
  kind : UInt8
  start : Nat
  stop : Nat
  next : UInt8
  deriving DecidableEq

/-- The headers that are walked over. -/
def isExtension (kind : UInt8) : Bool :=
  kind = ipv6HopByHop || kind = ipv6Routing || kind = ipv6DestinationOptions

/-- The length of an extension header. -/
def extensionLen (packet : List UInt8) (cursor : Nat) : Nat := ((byteAt packet (cursor + 1)).toNat + 1) * 8

/-- The first loop of `ipv6_fragment_insertion_point`: the extension headers, and the kind of the header
behind them. -/
def extensionsLoop (packet : List UInt8) :
    Nat → UInt8 → Nat → Option (Except IoError (List Extension × UInt8))
  | 0, _, _ => none
  | rounds + 1, kind, cursor =>
    if isExtension kind then
      if packet.length < cursor + 2 then
        some (.error (invalidData "IPv6 extension header is truncated"))
      else if packet.length < cursor + extensionLen packet cursor then
        some (.error (invalidData "IPv6 extension header length is invalid"))
      else
        let next := byteAt packet cursor
        let stop := cursor + extensionLen packet cursor
        (extensionsLoop packet rounds next stop).map fun result =>
          result.map fun (extensions, last) => (⟨kind, cursor, stop, next⟩ :: extensions, last)
    else some (.ok ([], kind))

/-- The second loop: the end of the part that is not fragmented, the place of its last next-header field,
and the value that stands there. -/
def insertionLoop : Nat × Nat × UInt8 → List Extension → Nat × Nat × UInt8
  | point, [] => point
  | point, e :: later =>
    if (e.kind = ipv6HopByHop ∨ e.kind = ipv6Routing) ∨
        (e.kind = ipv6DestinationOptions ∧ later.any fun l => l.kind = ipv6Routing) then
      insertionLoop (e.stop, e.start, e.next) later
    else point

/-- `ipv6_fragment_insertion_point`. -/
def ipv6FragmentInsertionPoint (packet : List UInt8) : Option (Except IoError (Nat × Nat × UInt8)) :=
  match extensionsLoop packet (packet.length + 1) (byteAt packet 6) ipv6Header with
  | none => none
  | some (.error e) => some (.error e)
  | some (.ok (extensions, kind)) =>
    if kind = ipv6Fragment then
      some (.error (invalidInput "cannot re-fragment an existing IPv6 fragment"))
    else some (.ok (insertionLoop (ipv6Header, 6, byteAt packet 6) extensions))

/-- The fragment header and the data are put behind the part that is not fragmented. -/
def buildIpv6Fragment (packet : List UInt8) (unfragmentableEnd nextHeaderField : Nat) (fragmentNext : UInt8)
    (offsetFlags : UInt16) (identification : UInt32) (data : List UInt8) : List UInt8 :=
  let fragment := writeAt (packet.take unfragmentableEnd) nextHeaderField [ipv6Fragment] ++
    ([fragmentNext, 0] ++ (u16Bytes offsetFlags ++ (u32Bytes identification ++ data)))
  putBE 2 fragment 4 (fragment.length - ipv6Header)

/-- One round of the loop of `fragment_ipv6`. -/
def fragmentIpv6At (packet : List UInt8) (mtu : Nat) (identification : UInt32)
    (unfragmentableEnd nextHeaderField : Nat) (fragmentNext : UInt8) (offset : Nat) :
    Except IoError (List UInt8 × Nat) :=
  let fragmentable := packet.drop unfragmentableEnd
  let capacity := mtu - (unfragmentableEnd + ipv6FragmentHeader)
  let remaining := fragmentable.length - offset
  let take := if capacity < remaining then capacity / 8 * 8 else remaining
  if 2 ^ 16 ≤ offset then .error (invalidData "IPv6 fragment offset overflow")
  else
    let aligned := UInt16.ofNat offset &&& 0xfff8
    let offsetFlags := if offset + take < fragmentable.length then aligned ||| 1 else aligned
    if 2 ^ 16 ≤ unfragmentableEnd + ipv6FragmentHeader + take - ipv6Header then
      .error (invalidData "IPv6 fragment length overflow")
    else
      .ok (buildIpv6Fragment packet unfragmentableEnd nextHeaderField fragmentNext offsetFlags
        identification (slice fragmentable offset (offset + take)), take)

/-- `fragment_ipv6`, with the value of `IPV6_FRAGMENT_ID`. -/
def fragmentIpv6 (identification : UInt32) (packet : List UInt8) (mtu : Nat) :
    Option (Except IoError (List (List UInt8))) :=
  if packet.length < ipv6Header then
    some (.error (invalidData "IPv6 packet is shorter than its base header"))
  else
    let payloadLen := beAt 2 packet 4
    if payloadLen = 0 ∨ payloadLen + ipv6Header ≠ packet.length then
      some (.error (invalidData "IPv6 packet has an invalid payload length or unsupported jumbogram"))
    else
      match ipv6FragmentInsertionPoint packet with
      | none => none
      | some (.error e) => some (.error e)
      | some (.ok (unfragmentableEnd, nextHeaderField, fragmentNext)) =>
        if mtu < unfragmentableEnd + ipv6FragmentHeader then
          some (.error (invalidData "MTU is too small for IPv6 fragmentation headers"))
        else if (mtu - (unfragmentableEnd + ipv6FragmentHeader)) / 8 * 8 = 0 then
          some (.error (invalidData "MTU leaves no aligned IPv6 fragment payload"))
        else
          let total := packet.length - unfragmentableEnd
          fragmentLoop total
            (fragmentIpv6At packet mtu identification unfragmentableEnd nextHeaderField fragmentNext)
            (total + 1) 0

/-- The version of a packet. -/
def ipVersion (packet : List UInt8) : Nat := (byteAt packet 0).toNat / 16

/-- `fragment_ip_packet`. -/
def fragmentIpPacket (identification : UInt32) (packet : List UInt8) (mtu : Nat) :
    Option (Except IoError (List (List UInt8))) :=
  if packet.length ≤ mtu then some (.ok [packet])
  else if ipVersion packet = 4 then fragmentIpv4 packet mtu
  else if ipVersion packet = 6 then fragmentIpv6 identification packet mtu
  else some (.error (invalidData "packet is not valid IPv4 or IPv6"))

/-! ### What a receiver does -/

/-- The first 20 bytes of an IPv4 header without what each fragment has for itself: the total length, the
offset with the mark for more fragments, the length of the header and the checksum. -/
def ipv4Base (packet : List UInt8) : List UInt8 :=
  [byteAt packet 0 &&& 0xf0, byteAt packet 1, 0, 0, byteAt packet 4, byteAt packet 5,
    UInt8.ofNat (beAt 2 packet 6 / 2 ^ 14), 0, byteAt packet 8, byteAt packet 9, 0, 0] ++
    slice packet 12 20

/-- The options of a packet. -/
def ipv4Options (packet : List UInt8) : List UInt8 := slice packet 20 (ipv4HeaderLen packet)

/-- An IPv4 packet as a piece: fragments of one datagram agree in the identification, the protocol and
the addresses. -/
def ipv4Piece (packet : List UInt8) : Piece (List UInt8) UInt8 where
  key := slice packet 4 6 ++ (slice packet 9 10 ++ slice packet 12 20)
  head := ipv4Base packet ++ ipv4Options packet
  offset := beAt 2 packet 6 % 2 ^ 13 * 8
  more := beAt 2 packet 6 / 2 ^ 13 % 2 = 1
  data := packet.drop (ipv4HeaderLen packet)

/-- The place of the fragment header of an IPv6 packet, and of the next-header field before it. -/
def findFragmentHeader (packet : List UInt8) : Nat → UInt8 → Nat → Nat → Option (Nat × Nat)
  | 0, _, _, _ => none
  | rounds + 1, kind, field, cursor =>
    if kind = ipv6Fragment then
      if cursor + ipv6FragmentHeader ≤ packet.length then some (field, cursor) else none
    else if isExtension kind ∧ cursor + extensionLen packet cursor ≤ packet.length then
      findFragmentHeader packet rounds (byteAt packet cursor) cursor (cursor + extensionLen packet cursor)
    else none

/-- An IPv6 packet as a piece.  The headers before the fragment header get back the next-header value that
it keeps for them; the payload length is left out. -/
def ipv6Piece (packet : List UInt8) : Piece (List UInt8) UInt8 :=
  match findFragmentHeader packet (packet.length + 1) (byteAt packet 6) 6 ipv6Header with
  | some (field, cursor) =>
    { key := slice packet 8 40 ++ slice packet (cursor + 4) (cursor + 8)
      head := writeAt (writeAt (packet.take cursor) field [byteAt packet cursor]) 4 [0, 0]
      offset := beAt 2 packet (cursor + 2) / 8 * 8
      more := beAt 2 packet (cursor + 2) % 2 = 1
      data := packet.drop (cursor + ipv6FragmentHeader) }
  | none =>
    { key := slice packet 8 40
      head := writeAt (packet.take ipv6Header) 4 [0, 0]
      offset := 0
      more := false
      data := packet.drop ipv6Header }

/-- A packet as a piece. -/
def ipPiece (packet : List UInt8) : Piece (List UInt8) UInt8 :=
  if ipVersion packet = 4 then ipv4Piece packet else ipv6Piece packet

/-- What fragments are when they are put together: the headers with the data, the offset of these in their
datagram, and whether more follow. -/
def reassemble (fragments : List (List UInt8)) : Option (List UInt8 × Nat × Bool) :=
  (Piece.join (fragments.map ipPiece)).map fun p => (p.head ++ p.data, p.offset, p.more)

/-- The checksum over a header with its checksum in it is zero. -/
def Ipv4ChecksumValid (packet : List UInt8) : Prop :=
  ipv4Checksum (packet.take (ipv4HeaderLen packet)) = 0

/-- The options of a header one by one; the rest after an end-of-options is left out. -/
def splitOptions : Nat → List UInt8 → Option (List (List UInt8))
  | 0, _ => none
  | _ + 1, [] => some []
  | rounds + 1, kind :: tail =>
    if kind = 0 then some []
    else if kind = 1 then (splitOptions rounds tail).map ([kind] :: ·)
    else
      match tail.head? with
      | none => none
      | some len =>
        if len.toNat < 2 ∨ (kind :: tail).length < len.toNat then none
        else
          (splitOptions rounds ((kind :: tail).drop len.toNat)).map
            ((kind :: tail).take len.toNat :: ·)

/-- The options whose copy bit is set, padded. -/
def copiedOnly (options : List UInt8) : Option (List UInt8) :=
  (splitOptions (options.length + 1) options).map fun all =>
    padOptions (all.filter fun o => byteAt o 0 &&& 0x80 ≠ 0).flatten

/-- What is expected of the fragments of a packet. -/
structure Reversible (packet : List UInt8) (mtu : Nat) (fragments : List (List UInt8)) : Prop where
  nonempty : fragments ≠ []
  small : ∀ f ∈ fragments, f.length ≤ mtu
  checksums : ipVersion packet = 4 → ∀ f ∈ fragments, Ipv4ChecksumValid f
  reassembled : reassemble fragments = reassemble [packet]
  options : ipVersion packet = 4 →
    ∀ f ∈ fragments.tail, copiedOnly (ipv4Options packet) = some (ipv4Options f)

end WutherCore.Net
