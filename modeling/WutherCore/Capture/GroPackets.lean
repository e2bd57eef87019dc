import WutherCore.Capture.GsoSplit

/-!
# What a packet says

The fields of a TCP or UDP packet, at the places where the parsers of the tables find them.

* `segment`: the flow, the sequence number and the payload of a packet.
* `headerFields`: its headers, with the fields that merging and cutting may change set to zero.
* `Agree`: two packets with the same header fields in the frame of one of them.
* `Framed`: what a packet is like that a table takes up (`parseTcpIp_ok`, `parseUdpIp_ok`).
* `laneOf`: the table that takes a packet up.
-/

namespace WutherCore.Capture.Gro

open WutherCore.Data

/-! ### Fields -/

def isV6 (pkt : Packet) : Bool := byteAt pkt 0 >>> 4 = 6

/-- The length of the IP header. -/
def iphLen (pkt : Packet) : Nat := if isV6 pkt then 40 else (byteAt pkt 0 &&& 0x0F).toNat * 4

/-- The length of the packet by its IP header. -/
def totalLen (pkt : Packet) : Nat := if isV6 pkt then 40 + beAt 2 pkt 4 else beAt 2 pkt 2

def srcAddr (pkt : Packet) : List UInt8 :=
  if isV6 pkt then slice pkt 8 24 else slice pkt 12 16 ++ List.replicate 12 0

def dstAddr (pkt : Packet) : List UInt8 :=
  if isV6 pkt then slice pkt 24 40 else slice pkt 16 20 ++ List.replicate 12 0

/-- The length of the transport header. -/
def l4Len (pkt : Packet) : Nat :=
  match classifyForGro pkt with
  | .tcp => (byteAt pkt (iphLen pkt + 12) >>> 4).toNat * 4
  | _ => 8

/-- The length of both headers. -/
def hdrLen (pkt : Packet) : Nat := iphLen pkt + l4Len pkt

def seqOf (pkt : Packet) : UInt32 := UInt32.ofNat (beAt 4 pkt (iphLen pkt + 4))

/-- What is behind the headers, up to the length by the IP header. -/
def payloadOf (pkt : Packet) : List UInt8 := slice pkt (hdrLen pkt) (totalLen pkt)

/-- A TCP or UDP flow: the 5-tuple, and the version of IP. -/
structure Flow where
  l4 : L4Class
  isV6 : Bool
  srcAddr : List UInt8
  dstAddr : List UInt8
  srcPort : Nat
  dstPort : Nat
  deriving DecidableEq

def flowOf (pkt : Packet) : Flow where
  l4 := classifyForGro pkt
  isV6 := isV6 pkt
  srcAddr := srcAddr pkt
  dstAddr := dstAddr pkt
  srcPort := beAt 2 pkt (iphLen pkt)
  dstPort := beAt 2 pkt (iphLen pkt + 2)

/-- What a packet brings to its receiver. -/
inductive Segment
  | tcp (flow : Flow) (seq : UInt32) (payload : List UInt8)
  | udp (flow : Flow) (payload : List UInt8)
  | other (bytes : List UInt8)
  deriving DecidableEq

def segment (pkt : Packet) : Segment :=
  match classifyForGro pkt with
  | .tcp => .tcp (flowOf pkt) (seqOf pkt) (payloadOf pkt)
  | .udp => .udp (flowOf pkt) (payloadOf pkt)
  | .other => .other pkt

/-- The buffer ends where the IP header says. -/
def Sized (pkt : Packet) : Prop := totalLen pkt = pkt.length

instance (pkt : Packet) : Decidable (Sized pkt) := inferInstanceAs (Decidable (_ = _))

/-! ### Header fields -/

/-- Where the headers of a packet lie. -/
structure Shape where
  l4 : L4Class
  isV6 : Bool
  iph : Nat
  hdr : Nat
  deriving DecidableEq

def shapeOf (pkt : Packet) : Shape := ⟨classifyForGro pkt, isV6 pkt, iphLen pkt, hdrLen pkt⟩

namespace Shape

/-- The fields that each packet has of its own: lengths, identification, checksums, and the sequence
number of TCP. -/
def volatile (s : Shape) (i : Nat) : Bool :=
  (if s.isV6 then 4 ≤ i && i < 6 else (2 ≤ i && i < 6) || (10 ≤ i && i < 12)) ||
    match s.l4 with
    | .tcp => (s.iph + 4 ≤ i && i < s.iph + 8) || (s.iph + 16 ≤ i && i < s.iph + 18)
    | _ => s.iph + 4 ≤ i && i < s.iph + 8

/-- A byte of the headers as it is compared: without the volatile fields, and without `PSH`. -/
def mask (s : Shape) (i : Nat) (b : UInt8) : UInt8 :=
  if s.volatile i then 0
  else if s.l4 = .tcp ∧ i = s.iph + 13 then b &&& ~~~tcpFlagPsh
  else b

/-- The headers are there. -/
structure Valid (s : Shape) : Prop where
  l4 : s.l4 = .tcp ∨ s.l4 = .udp
  iph : 20 ≤ s.iph
  v6 : s.isV6 = true → s.iph = 40
  tcp : s.l4 = .tcp → s.iph + 20 ≤ s.hdr
  udp : s.l4 = .udp → s.iph + 8 = s.hdr

theorem Valid.hdr_ge {s : Shape} (h : s.Valid) : s.iph + 8 ≤ s.hdr := by
  rcases h.l4 with h4 | h4
  · have := h.tcp h4
    omega
  · exact (h.udp h4).le

end Shape

/-- The headers of a packet, without what merging and cutting may change. -/
def headerFields (pkt : Packet) : List UInt8 :=
  (List.range (hdrLen pkt)).map fun i => (shapeOf pkt).mask i (byteAt pkt i)

/-- Two packets have the same header fields at the places of a shape. -/
def Agree (s : Shape) (p q : Packet) : Prop :=
  ∀ i < s.hdr, s.mask i (byteAt p i) = s.mask i (byteAt q i)

namespace Agree

variable {s : Shape} {p q r : Packet}

theorem refl (s : Shape) (p : Packet) : Agree s p p := fun _ _ => rfl

theorem symm (h : Agree s p q) : Agree s q p := fun i hi => (h i hi).symm

theorem trans (h : Agree s p q) (h' : Agree s q r) : Agree s p r :=
  fun i hi => (h i hi).trans (h' i hi)

theorem byteAt_eq (h : Agree s p q) {i : Nat} (hi : i < s.hdr) (hv : s.volatile i = false)
    (hpsh : s.l4 = .tcp → i ≠ s.iph + 13) : byteAt p i = byteAt q i := by
  have hm := h i hi
  have hn : ¬ (s.l4 = .tcp ∧ i = s.iph + 13) := fun hc => hpsh hc.1 hc.2
  simpa [Shape.mask, hv, hn] using hm

theorem append (hlen : s.hdr ≤ p.length) (rest : List UInt8) : Agree s p (p ++ rest) := by
  intro i hi
  rw [byteAt_append_left (by omega)]

theorem writeAt {off : Nat} {bytes : List UInt8} (hlen : off + bytes.length ≤ p.length)
    (hv : ∀ i, off ≤ i → i < off + bytes.length → s.volatile i = true) :
    Agree s p (writeAt p off bytes) := by
  intro i _
  by_cases hi : off ≤ i ∧ i < off + bytes.length
  · simp [Shape.mask, hv i hi.1 hi.2]
  · rw [byteAt_writeAt_of_outside hlen (by omega)]

theorem putBE {n off v : Nat} (hlen : off + n ≤ p.length)
    (hv : ∀ i, off ≤ i → i < off + n → s.volatile i = true) : Agree s p (putBE n p off v) :=
  writeAt (by simpa using hlen) (by simpa using hv)

theorem writeFlags {b : UInt8} (htcp : s.l4 = .tcp) (hlen : s.iph + 13 < p.length)
    (hb : b &&& ~~~tcpFlagPsh = byteAt p (s.iph + 13) &&& ~~~tcpFlagPsh) :
    Agree s p (Data.writeAt p (s.iph + 13) [b]) := by
  intro i _
  by_cases hi : i = s.iph + 13
  · subst hi
    rw [byteAt_writeAt_one hlen]
    by_cases hv : s.volatile (s.iph + 13) = true
    · simp [Shape.mask, hv]
    · simp [Shape.mask, hv, htcp, hb]
  · rw [byteAt_writeAt_of_outside (by simp; omega) (by simp; omega)]

end Agree

/-! ### Packets that a table takes up -/

/-- A TCP or UDP packet with all of its headers and some payload, of at most 65535 bytes. -/
structure Framed (pkt : Packet) : Prop where
  valid : (shapeOf pkt).Valid
  version : byteAt pkt 0 >>> 4 = if isV6 pkt then 6 else 4
  hdr_lt : hdrLen pkt < totalLen pkt
  total_le : totalLen pkt ≤ pkt.length
  len_le : pkt.length ≤ maxIpPacketLen
  fin : classifyForGro pkt = .tcp → byteAt pkt (iphLen pkt + 13) &&& tcpFlagFin = 0

/-- What `parse_ip` finds. -/
theorem parseIp_ok {pkt : Packet} {m : Nat} {ip : IpHeader} (h : parseIp pkt m = .ok ip) :
    ip = ⟨isV6 pkt, iphLen pkt, totalLen pkt, srcAddr pkt, dstAddr pkt⟩ ∧
      byteAt pkt 0 >>> 4 = (if isV6 pkt then 6 else 4) ∧ 20 ≤ iphLen pkt ∧
      iphLen pkt + m ≤ totalLen pkt ∧ totalLen pkt ≤ pkt.length ∧ pkt.length ≤ maxIpPacketLen := by
  unfold parseIp at h
  split at h
  · cases h
  split at h
  · cases h
  next hlen =>
  obtain ⟨ip', hip, h⟩ := bind_eq_ok.1 h
  split at h
  · cases h
  next hfit =>
  obtain rfl : ip' = ip := by simpa using h
  have hfit' : ip'.totalLen ≤ pkt.length ∧ ip'.iphLen + m ≤ ip'.totalLen := by
    simpa [not_or] using hfit
  split at hip
  · next hv =>
    have hv6 : isV6 pkt = false := by simp [isV6, hv]
    unfold parseIpv4 at hip
    split at hip
    · cases hip
    simp only at hip
    split at hip
    · cases hip
    next hihl =>
    have heq : ip' = ⟨isV6 pkt, iphLen pkt, totalLen pkt, srcAddr pkt, dstAddr pkt⟩ := by
      simpa [hv6, iphLen, totalLen, srcAddr, dstAddr] using hip.symm
    rw [heq] at hfit'
    refine ⟨heq, by simp [hv6, hv], ?_, hfit'.2, hfit'.1, Nat.le_of_not_lt hlen⟩
    simp only [not_or, ipv4HeaderMin] at hihl
    simp only [iphLen, hv6, Bool.false_eq_true, if_false]
    omega
  · split at hip
    · next hv =>
      have hv6 : isV6 pkt = true := by simp [isV6, hv]
      unfold parseIpv6 at hip
      split at hip
      · cases hip
      have heq : ip' = ⟨isV6 pkt, iphLen pkt, totalLen pkt, srcAddr pkt, dstAddr pkt⟩ := by
        simpa [hv6, iphLen, totalLen, srcAddr, dstAddr, ipv6HeaderFixed] using hip.symm
      rw [heq] at hfit'
      exact ⟨heq, by simp [hv6, hv], by simp [iphLen, hv6], hfit'.2, hfit'.1, Nat.le_of_not_lt hlen⟩
    · cases hip

/-- The fields of a TCP packet. -/
def tcpParsed (pkt : Packet) : ParsedTcpIp where
  isV6 := isV6 pkt
  iphLen := iphLen pkt
  tcphLen := l4Len pkt
  srcAddr := srcAddr pkt
  dstAddr := dstAddr pkt
  srcPort := beAt 2 pkt (iphLen pkt)
  dstPort := beAt 2 pkt (iphLen pkt + 2)
  seq := seqOf pkt
  ack := UInt32.ofNat (beAt 4 pkt (iphLen pkt + 8))
  flags := byteAt pkt (iphLen pkt + 13)
  payloadLen := totalLen pkt - hdrLen pkt

/-- The fields of a datagram. -/
def udpParsed (pkt : Packet) : ParsedUdpIp where
  isV6 := isV6 pkt
  iphLen := iphLen pkt
  srcAddr := srcAddr pkt
  dstAddr := dstAddr pkt
  srcPort := beAt 2 pkt (iphLen pkt)
  dstPort := beAt 2 pkt (iphLen pkt + 2)
  payloadLen := totalLen pkt - hdrLen pkt

/-- What `parse_tcp_ip` finds. -/
theorem parseTcpIp_ok {pkt : Packet} {p : ParsedTcpIp} (h : parseTcpIp pkt = .ok p)
    (hc : classifyForGro pkt = .tcp) : Framed pkt ∧ p = tcpParsed pkt := by
  obtain ⟨ip, hip, h⟩ := bind_eq_ok.1 h
  obtain ⟨rfl, hversion, hiph, hfit, htotal, hlen⟩ := parseIp_ok hip
  simp only [tcpHeaderMin] at hfit h
  have hlt : (slice pkt (iphLen pkt) (totalLen pkt)).length = totalLen pkt - iphLen pkt :=
    slice_length htotal
  split at h
  · cases h
  split at h
  · cases h
  next hoff =>
  split at h
  · cases h
  next hfin =>
  split at h
  · cases h
  next hpay =>
  have h12 : byteAt (slice pkt (iphLen pkt) (totalLen pkt)) 12 = byteAt pkt (iphLen pkt + 12) :=
    byteAt_slice (by omega)
  have h13 : byteAt (slice pkt (iphLen pkt) (totalLen pkt)) 13 = byteAt pkt (iphLen pkt + 13) :=
    byteAt_slice (by omega)
  have hl4 : l4Len pkt = (byteAt pkt (iphLen pkt + 12) >>> 4).toNat * 4 := by simp [l4Len, hc]
  rw [h12, hlt, ← hl4] at hoff hpay h
  rw [h13] at hfin h
  refine ⟨⟨⟨?_, ?_, ?_, ?_, ?_⟩, hversion, ?_, htotal, hlen, ?_⟩, ?_⟩
  · exact .inl hc
  · exact hiph
  · intro hv
    show iphLen pkt = 40
    simp [iphLen, show isV6 pkt = true from hv]
  · intro _
    show iphLen pkt + 20 ≤ iphLen pkt + l4Len pkt
    omega
  · intro hu
    exact absurd (hc.symm.trans hu) (by decide)
  · show iphLen pkt + l4Len pkt < totalLen pkt
    omega
  · intro _
    simpa using hfin
  · have hsub : totalLen pkt - iphLen pkt - l4Len pkt = totalLen pkt - hdrLen pkt := by
      rw [hdrLen]
      omega
    rw [hsub, beAt_slice (by omega), beAt_slice (by omega), beAt_slice (by omega),
      beAt_slice (by omega)] at h
    simpa [tcpParsed, seqOf] using h.symm

/-- What `parse_udp_ip` finds. -/
theorem parseUdpIp_ok {pkt : Packet} {p : ParsedUdpIp} (h : parseUdpIp pkt = .ok p)
    (hc : classifyForGro pkt = .udp) : Framed pkt ∧ p = udpParsed pkt := by
  obtain ⟨ip, hip, h⟩ := bind_eq_ok.1 h
  obtain ⟨rfl, hversion, hiph, hfit, htotal, hlen⟩ := parseIp_ok hip
  simp only [udpHeaderLen] at hfit
  have hlt : (slice pkt (iphLen pkt) (totalLen pkt)).length = totalLen pkt - iphLen pkt :=
    slice_length htotal
  have hhdr : hdrLen pkt = iphLen pkt + 8 := by simp [hdrLen, l4Len, hc]
  dsimp only at h
  split at h
  · cases h
  split at h
  · cases h
  next hpay =>
  rw [hlt, udpHeaderLen] at hpay h
  refine ⟨⟨⟨?_, ?_, ?_, ?_, ?_⟩, hversion, ?_, htotal, hlen, ?_⟩, ?_⟩
  · exact .inr hc
  · exact hiph
  · intro hv
    show iphLen pkt = 40
    simp [iphLen, show isV6 pkt = true from hv]
  · intro ht
    exact absurd (hc.symm.trans ht) (by decide)
  · intro _
    exact hhdr.symm
  · omega
  · intro ht
    exact absurd (hc.symm.trans ht) (by decide)
  · have hsub : totalLen pkt - iphLen pkt - 8 = totalLen pkt - hdrLen pkt := by omega
    rw [hsub, beAt_slice (by omega), beAt_slice (by omega)] at h
    simpa [udpParsed] using h.symm

/-- The table that takes up a packet; `other` for a packet that is passed through. -/
def laneOf (pkt : Packet) : L4Class :=
  match classifyForGro pkt with
  | .tcp => if (parseTcpIp pkt).isOk then .tcp else .other
  | .udp => if (parseUdpIp pkt).isOk then .udp else .other
  | .other => .other

theorem parse_of_lane_tcp {pkt : Packet} (h : laneOf pkt = .tcp) :
    classifyForGro pkt = .tcp ∧ Framed pkt ∧ parseTcpIp pkt = .ok (tcpParsed pkt) := by
  unfold laneOf at h
  split at h
  · next hc =>
    cases hp : parseTcpIp pkt with
    | error e => simp [hp, Except.isOk, Except.toBool] at h
    | ok p =>
      obtain ⟨hf, rfl⟩ := parseTcpIp_ok hp hc
      exact ⟨hc, hf, rfl⟩
  · split at h <;> cases h
  · cases h

theorem parse_of_lane_udp {pkt : Packet} (h : laneOf pkt = .udp) :
    classifyForGro pkt = .udp ∧ Framed pkt ∧ parseUdpIp pkt = .ok (udpParsed pkt) := by
  unfold laneOf at h
  split at h
  · split at h <;> cases h
  · next hc =>
    cases hp : parseUdpIp pkt with
    | error e => simp [hp, Except.isOk, Except.toBool] at h
    | ok p =>
      obtain ⟨hf, rfl⟩ := parseUdpIp_ok hp hc
      exact ⟨hc, hf, rfl⟩
  · cases h

end WutherCore.Capture.Gro
