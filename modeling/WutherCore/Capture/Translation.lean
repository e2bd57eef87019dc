import WutherCore.Capture.SystemStack

/-!
# Translation by the system stack

A packet of a client that the stack sends to its listener, and the answer of the listener that it sends
back: the answer comes from where the packet went to, and goes where the packet came from
(`translation_invertible`).
-/

namespace WutherCore.Capture.SystemStack

open WutherCore.Net WutherCore.Data
open WutherCore.Text (toBytesBE)
open Gso (fillChecksum internetChecksum ipv4HeaderLen ipFixedLen ipHeaderLen ipTotalLen ipProto
  internetChecksum_putBE)

/-! ### Checksums in a packet -/

section Fill

variable {packet front : List UInt8} {off i j k : Nat}

theorem length_fillChecksum (h : off + 2 ≤ packet.length) (sum : Packet → Nat) :
    (fillChecksum packet off sum).length = packet.length := by
  unfold fillChecksum
  have h0 : (putBE 2 packet off 0).length = packet.length := length_putBE h
  exact (length_putBE (by omega)).trans h0

theorem byteAt_fillChecksum (h : off + 2 ≤ packet.length) (sum : Packet → Nat)
    (hi : i < off ∨ off + 2 ≤ i) : byteAt (fillChecksum packet off sum) i = byteAt packet i := by
  unfold fillChecksum
  have h0 : (putBE 2 packet off 0).length = packet.length := length_putBE h
  exact (byteAt_putBE_of_outside (by omega) hi).trans (byteAt_putBE_of_outside h hi)

theorem beAt_fillChecksum {n : Nat} (h : off + 2 ≤ packet.length) (sum : Packet → Nat)
    (hi : i + n ≤ off ∨ off + 2 ≤ i) : beAt n (fillChecksum packet off sum) i = beAt n packet i := by
  unfold fillChecksum
  have h0 : (putBE 2 packet off 0).length = packet.length := length_putBE h
  exact (beAt_putBE_of_disjoint (by omega) hi).trans (beAt_putBE_of_disjoint h hi)

theorem slice_fillChecksum (h : off + 2 ≤ packet.length) (sum : Packet → Nat)
    (hi : j ≤ off ∨ off + 2 ≤ i) : slice (fillChecksum packet off sum) i j = slice packet i j := by
  unfold fillChecksum
  have h0 : (putBE 2 packet off 0).length = packet.length := length_putBE h
  exact (slice_writeAt_of_disjoint (by simp; omega) (by simpa using hi)).trans
    (slice_writeAt_of_disjoint (by simpa using h) (by simpa using hi))

theorem internetChecksum_fillChecksum (hfront : front.length % 2 = 0) (heven : k % 2 = 0)
    (hj : j ≤ packet.length) (h : i + k + 2 ≤ j) (hlen : front.length + j < 2 ^ 17) {sum : Packet → Nat}
    (hsum : sum (putBE 2 packet (i + k) 0) =
      internetChecksum (front ++ slice (putBE 2 packet (i + k) 0) i j)) :
    internetChecksum (front ++ slice (fillChecksum packet (i + k) sum) i j) = 0 := by
  unfold fillChecksum
  dsimp only
  have h0 : (putBE 2 packet (i + k) 0).length = packet.length := length_putBE (by omega)
  have hpart : (slice packet i j).length = j - i := slice_length hj
  rw [slice_putBE_inside (by omega) h, hsum, slice_putBE_inside hj h, putBE_putBE (by omega)]
  exact internetChecksum_putBE hfront heven (by omega) (by omega)

end Fill

/-! ### What rewriting does -/

section Rewrite

variable {layout : IpLayout} {packet : Packet} {totalLen headerLen srcIp dstIp i : Nat}

/-- A TCP packet of a family, with the lengths that its header says. -/
structure Framed (layout : IpLayout) (packet : Packet) (totalLen headerLen : Nat) : Prop where
  fixed : layout.fixedLen ≤ headerLen
  tcp : headerLen + 20 ≤ totalLen
  fits : totalLen ≤ packet.length
  short : totalLen < 2 ^ 16 + 40

/-- The bytes that a translated packet has of its own. -/
def rewrites (layout : IpLayout) (headerLen i : Nat) : Prop :=
  (layout.srcOff ≤ i ∧ i < layout.fixedLen) ∨ (headerLen ≤ i ∧ i < headerLen + 4) ∨
    (headerLen + 16 ≤ i ∧ i < headerLen + 18)

/-- A packet with new endpoints. -/
structure Endpoints (layout : IpLayout) (packet : Packet) (totalLen headerLen srcIp : Nat)
    (srcPort : UInt16) (dstIp : Nat) (dstPort : UInt16) : Prop where
  srcAddr : beAt layout.addrLen packet layout.srcOff = srcIp
  dstAddr : beAt layout.addrLen packet layout.dstOff = dstIp
  sourcePort : beAt 2 packet headerLen = srcPort.toNat
  destinationPort : beAt 2 packet (headerLen + 2) = dstPort.toNat
  checksum : internetChecksum (layout.pseudoHeader srcIp dstIp (totalLen - headerLen) ++
    slice packet headerLen totalLen) = 0

theorem rewriteTcp_spec (srcPort dstPort : UInt16) (h : Framed layout packet totalLen headerLen)
    (hsrc : srcIp < 256 ^ layout.addrLen) (hdst : dstIp < 256 ^ layout.addrLen) :
    (rewriteTcp layout packet totalLen headerLen srcIp srcPort dstIp dstPort).length = packet.length ∧
      Endpoints layout (rewriteTcp layout packet totalLen headerLen srcIp srcPort dstIp dstPort) totalLen
        headerLen srcIp srcPort dstIp dstPort ∧
      ∀ i, ¬rewrites layout headerLen i →
        byteAt (rewriteTcp layout packet totalLen headerLen srcIp srcPort dstIp dstPort) i =
          byteAt packet i := by
  have hfixed := h.fixed
  have htcp := h.tcp
  have hfits := h.fits
  have hshort := h.short
  have hadd := layout.src_add
  have hadd' := layout.dst_add
  obtain ⟨heven, hfront⟩ := layout.pseudoHeader_length srcIp dstIp (totalLen - headerLen)
  have hp := srcPort.toNat_lt
  have hp' := dstPort.toNat_lt
  unfold rewriteTcp
  dsimp only
  -- one write after another
  let p₁ := putBE layout.addrLen packet layout.srcOff srcIp
  have l₁ : p₁.length = packet.length := length_putBE (by omega)
  let p₂ := putBE layout.addrLen p₁ layout.dstOff dstIp
  have l₂ : p₂.length = packet.length := (length_putBE (by omega)).trans l₁
  let p₃ := putBE 2 p₂ headerLen srcPort.toNat
  have l₃ : p₃.length = packet.length := (length_putBE (by omega)).trans l₂
  let p₄ := putBE 2 p₃ (headerLen + 2) dstPort.toNat
  have l₄ : p₄.length = packet.length := (length_putBE (by omega)).trans l₃
  have hfill : headerLen + 16 + 2 ≤ p₄.length := by omega
  let sum : Packet → Nat := fun p =>
    internetChecksum (layout.pseudoHeader srcIp dstIp (totalLen - headerLen) ++ slice p headerLen totalLen)
  change (fillChecksum p₄ (headerLen + 16) sum).length = _ ∧
    Endpoints layout (fillChecksum p₄ (headerLen + 16) sum) totalLen headerLen srcIp srcPort dstIp dstPort ∧
    ∀ i, ¬rewrites layout headerLen i → byteAt (fillChecksum p₄ (headerLen + 16) sum) i = _
  refine ⟨(length_fillChecksum hfill sum).trans l₄, ⟨?_, ?_, ?_, ?_, ?_⟩, ?_⟩
  · calc beAt layout.addrLen (fillChecksum p₄ (headerLen + 16) sum) layout.srcOff
      _ = beAt layout.addrLen p₄ layout.srcOff := beAt_fillChecksum hfill sum (by omega)
      _ = beAt layout.addrLen p₃ layout.srcOff := beAt_putBE_of_disjoint (by omega) (by omega)
      _ = beAt layout.addrLen p₂ layout.srcOff := beAt_putBE_of_disjoint (by omega) (by omega)
      _ = beAt layout.addrLen p₁ layout.srcOff := beAt_putBE_of_disjoint (by omega) (by omega)
      _ = srcIp := beAt_putBE_self (by omega) hsrc
  · calc beAt layout.addrLen (fillChecksum p₄ (headerLen + 16) sum) layout.dstOff
      _ = beAt layout.addrLen p₄ layout.dstOff := beAt_fillChecksum hfill sum (by omega)
      _ = beAt layout.addrLen p₃ layout.dstOff := beAt_putBE_of_disjoint (by omega) (by omega)
      _ = beAt layout.addrLen p₂ layout.dstOff := beAt_putBE_of_disjoint (by omega) (by omega)
      _ = dstIp := beAt_putBE_self (by omega) hdst
  · calc beAt 2 (fillChecksum p₄ (headerLen + 16) sum) headerLen
      _ = beAt 2 p₄ headerLen := beAt_fillChecksum hfill sum (by omega)
      _ = beAt 2 p₃ headerLen := beAt_putBE_of_disjoint (by omega) (by omega)
      _ = srcPort.toNat := beAt_putBE_self (by omega) hp
  · calc beAt 2 (fillChecksum p₄ (headerLen + 16) sum) (headerLen + 2)
      _ = beAt 2 p₄ (headerLen + 2) := beAt_fillChecksum hfill sum (by omega)
      _ = dstPort.toNat := beAt_putBE_self (by omega) hp'
  · exact internetChecksum_fillChecksum (k := 16) heven (by decide) (by omega) (by omega) (by omega) rfl
  · intro i hi
    unfold rewrites at hi
    calc byteAt (fillChecksum p₄ (headerLen + 16) sum) i
      _ = byteAt p₄ i := byteAt_fillChecksum hfill sum (by omega)
      _ = byteAt p₃ i := byteAt_putBE_of_outside (by omega) (by omega)
      _ = byteAt p₂ i := byteAt_putBE_of_outside (by omega) (by omega)
      _ = byteAt p₁ i := byteAt_putBE_of_outside (by omega) (by omega)
      _ = byteAt packet i := byteAt_putBE_of_outside (by omega) (by omega)

end Rewrite

/-! ### TCP packets of both families -/

/-- The layout of a packet. -/
def layoutOf (packet : Packet) : IpLayout :=
  if byteAt packet 0 >>> 4 = 4 then ipv4Layout else ipv6Layout

/-- A TCP packet that `process_packet` takes. -/
structure IsTcp (packet : Packet) : Prop where
  version : byteAt packet 0 >>> 4 = 4 ∨ byteAt packet 0 >>> 4 = 6
  fixed : ipFixedLen packet ≤ ipHeaderLen packet
  fits : ipTotalLen packet ≤ packet.length
  proto : ipProto packet = 6
  tcp : tcpChecked (slice packet (ipHeaderLen packet) (ipTotalLen packet)) = true

/-- Where a TCP packet comes from. -/
def source (packet : Packet) : SocketAddr :=
  (layoutOf packet).socketAddr (beAt (layoutOf packet).addrLen packet (layoutOf packet).srcOff)
    (UInt16.ofNat (beAt 2 packet (ipHeaderLen packet)))

/-- Where a TCP packet goes. -/
def destination (packet : Packet) : SocketAddr :=
  (layoutOf packet).socketAddr (beAt (layoutOf packet).addrLen packet (layoutOf packet).dstOff)
    (UInt16.ofNat (beAt 2 packet (ipHeaderLen packet + 2)))

/-- A packet with new endpoints and the right checksums, and otherwise the bytes of the old one. -/
structure Translated (packet packet' : Packet) (src dst : SocketAddr) : Prop where
  isTcp : IsTcp packet'
  source_eq : source packet' = src
  destination_eq : destination packet' = dst
  headerChecksum : byteAt packet' 0 >>> 4 = 4 →
    internetChecksum (slice packet' 0 (ipHeaderLen packet')) = 0
  tcpChecksum : internetChecksum ((layoutOf packet').pseudoHeader
      (beAt (layoutOf packet').addrLen packet' (layoutOf packet').srcOff)
      (beAt (layoutOf packet').addrLen packet' (layoutOf packet').dstOff)
      (ipTotalLen packet' - ipHeaderLen packet') ++
    slice packet' (ipHeaderLen packet') (ipTotalLen packet')) = 0
  length : packet'.length = packet.length
  others : ∀ i, ¬rewrites (layoutOf packet) (ipHeaderLen packet) i →
    ¬(byteAt packet 0 >>> 4 = 4 ∧ 10 ≤ i ∧ i < 12) → byteAt packet' i = byteAt packet i

section Packets

variable {packet packet' : Packet} {srcIp dstIp : Nat} {srcPort dstPort : UInt16}

theorem layoutOf_fixedLen (packet : Packet) : (layoutOf packet).fixedLen = ipFixedLen packet := by
  unfold layoutOf ipFixedLen
  split <;> rfl

theorem IsTcp.framed (h : IsTcp packet) :
    Framed (layoutOf packet) packet (ipTotalLen packet) (ipHeaderLen packet) := by
  have hlen : (slice packet (ipHeaderLen packet) (ipTotalLen packet)).length =
      ipTotalLen packet - ipHeaderLen packet := slice_length h.fits
  have htcp := h.tcp
  simp only [tcpChecked, Bool.and_eq_true, decide_eq_true_eq, hlen] at htcp
  refine ⟨by rw [layoutOf_fixedLen]; exact h.fixed, by omega, h.fits, ?_⟩
  have hfixed := h.fixed
  have hfits := h.fits
  have hshort : ∀ off, off + 2 ≤ packet.length → beAt 2 packet off < 2 ^ 16 := fun off hoff => beAt_lt hoff
  have hge : 20 ≤ ipFixedLen packet := by
    unfold ipFixedLen
    split <;> decide
  have h2 := hshort 2 (by omega)
  have h4 := hshort 4 (by omega)
  unfold ipTotalLen
  split <;> omega

theorem sameHeader (hlen : packet'.length = packet.length) (hlong : 20 ≤ packet.length)
    (h : ∀ i, i < 8 ∨ (byteAt packet 0 >>> 4 = 4 ∧ i = 9) → byteAt packet' i = byteAt packet i) :
    byteAt packet' 0 = byteAt packet 0 ∧ ipHeaderLen packet' = ipHeaderLen packet ∧
      ipTotalLen packet' = ipTotalLen packet ∧ ipProto packet' = ipProto packet := by
  have hv : byteAt packet' 0 = byteAt packet 0 := h 0 (.inl (by decide))
  have hbe : ∀ off, off + 2 ≤ 8 → beAt 2 packet' off = beAt 2 packet off := fun off hoff =>
    beAt_congr (by omega) (by omega) fun k _ hk => h k (.inl (by omega))
  unfold ipHeaderLen ipTotalLen ipProto ipv4HeaderLen
  rw [hv, hbe 2 (by decide), hbe 4 (by decide), h 6 (.inl (by decide))]
  refine ⟨rfl, rfl, rfl, ?_⟩
  split
  · next h4 => exact h 9 (.inr ⟨h4, rfl⟩)
  · rfl

/-- A packet whose addresses, ports and checksums are written over. -/
theorem translated_of_endpoints (h : IsTcp packet) (hlen : packet'.length = packet.length)
    (hend : Endpoints (layoutOf packet) packet' (ipTotalLen packet) (ipHeaderLen packet) srcIp srcPort dstIp
      dstPort)
    (hheader : byteAt packet 0 >>> 4 = 4 → internetChecksum (slice packet' 0 (ipHeaderLen packet)) = 0)
    (hothers : ∀ i, ¬rewrites (layoutOf packet) (ipHeaderLen packet) i →
      ¬(byteAt packet 0 >>> 4 = 4 ∧ 10 ≤ i ∧ i < 12) → byteAt packet' i = byteAt packet i) :
    Translated packet packet' ((layoutOf packet).socketAddr srcIp srcPort)
      ((layoutOf packet).socketAddr dstIp dstPort) := by
  have hf := h.framed
  have hfixed := hf.fixed
  have htcp := hf.tcp
  have hfits := hf.fits
  have hadd := (layoutOf packet).src_add
  have hadd' := (layoutOf packet).dst_add
  have hlt := (layoutOf packet).version_lt
  have h4src : byteAt packet 0 >>> 4 = 4 → (layoutOf packet).srcOff = 12 := by
    intro h4
    rw [layoutOf, if_pos h4]
    rfl
  have hkeep : ∀ i, i < 8 ∨ (byteAt packet 0 >>> 4 = 4 ∧ i = 9) → byteAt packet' i = byteAt packet i := by
    intro i hi
    apply hothers i
    · unfold rewrites
      rcases hi with hi | ⟨h4, rfl⟩
      · omega
      · have := h4src h4
        omega
    · rintro ⟨-, hge, hlt⟩
      omega
  obtain ⟨hv, hheaderLen, htotalLen, hproto⟩ := sameHeader hlen (by omega) hkeep
  have hlayout : layoutOf packet' = layoutOf packet := by
    unfold layoutOf
    rw [hv]
  have hfixedLen : ipFixedLen packet' = ipFixedLen packet := by
    unfold ipFixedLen
    rw [hv]
  have hpart : (slice packet' (ipHeaderLen packet) (ipTotalLen packet)).length =
      (slice packet (ipHeaderLen packet) (ipTotalLen packet)).length := by
    rw [slice_length (by omega), slice_length (by omega)]
  -- the length of the TCP header is in a byte of its own
  have hdata : byteAt (slice packet' (ipHeaderLen packet) (ipTotalLen packet)) 12 =
      byteAt (slice packet (ipHeaderLen packet) (ipTotalLen packet)) 12 := by
    rw [byteAt_slice (by omega), byteAt_slice (by omega)]
    apply hothers
    · unfold rewrites
      omega
    · omega
  constructor
  · refine ⟨hv ▸ h.version, ?_, ?_, hproto.trans h.proto, ?_⟩
    · rw [hfixedLen, hheaderLen]
      exact h.fixed
    · rw [htotalLen, hlen]
      exact h.fits
    · have hchecked := h.tcp
      rw [hheaderLen, htotalLen]
      unfold tcpChecked tcpHeaderLen at hchecked ⊢
      rw [hpart, hdata]
      exact hchecked
  · rw [source, hlayout, hheaderLen, hend.srcAddr, hend.sourcePort, UInt16.ofNat_toNat]
  · rw [destination, hlayout, hheaderLen, hend.dstAddr, hend.destinationPort, UInt16.ofNat_toNat]
  · rw [hv, hheaderLen]
    exact hheader
  · rw [hlayout, hheaderLen, htotalLen, hend.srcAddr, hend.dstAddr]
    exact hend.checksum
  · exact hlen
  · exact hothers

end Packets

/-! ### The sides of a stack -/

/-- The side of a stack for a packet. -/
def sideOf (overflowChecks : Bool) (stack : SystemStack) (packet : Packet) : Option TcpSide :=
  if byteAt packet 0 >>> 4 = 4 then some (stack.side4 overflowChecks)
  else stack.inet6.map (side6 overflowChecks)

/-- Where the listener of a side is. -/
def TcpSide.listener (side : TcpSide) : SocketAddr := side.layout.socketAddr side.address side.listenPort

section Sides

variable {overflowChecks : Bool} {stack : SystemStack} {packet : Packet} {side : TcpSide} {now : Nat}
  {srcIp dstIp totalLen headerLen : Nat} {srcPort dstPort : UInt16}

/-- `rewrite_ipv4_tcp` fills in the checksum of the header last, which is no part of anything else. -/
theorem rewriteIpv4Tcp_translated (h : IsTcp packet) (h4 : byteAt packet 0 >>> 4 = 4)
    (hsrc : srcIp < 256 ^ 4) (hdst : dstIp < 256 ^ 4) :
    Translated packet
      (rewriteIpv4Tcp packet (ipTotalLen packet) (ipHeaderLen packet) srcIp srcPort dstIp dstPort)
      (ipv4Layout.socketAddr srcIp srcPort) (ipv4Layout.socketAddr dstIp dstPort) := by
  have hlayout : layoutOf packet = ipv4Layout := by rw [layoutOf, if_pos h4]
  have hf := h.framed
  rw [hlayout] at hf
  obtain ⟨hlen, hend, hothers⟩ :=
    rewriteTcp_spec srcPort dstPort hf hsrc hdst
  have hfixed : 20 ≤ ipHeaderLen packet := hf.fixed
  have htcp := hf.tcp
  have hfits := hf.fits
  have hv : ipv4HeaderLen packet = ipHeaderLen packet := by rw [ipHeaderLen, if_pos h4]
  have hshort : ipHeaderLen packet ≤ 60 := by
    rw [← hv, ipv4HeaderLen]
    have := UInt8.toNat_lt (byteAt packet 0 &&& 0x0F)
    have hand : (byteAt packet 0 &&& 0x0F).toNat ≤ 15 := by
      rw [UInt8.toNat_and]
      exact Nat.and_le_right
    omega
  unfold rewriteIpv4Tcp
  generalize rewriteTcp ipv4Layout packet (ipTotalLen packet) (ipHeaderLen packet) srcIp srcPort dstIp
    dstPort = p at *
  have hfill : 10 + 2 ≤ p.length := by omega
  have hversion : ¬rewrites ipv4Layout (ipHeaderLen packet) 0 := by
    rintro (⟨hle, -⟩ | h0 | h0)
    · exact absurd hle (by decide)
    · omega
    · omega
  rw [← hlayout]
  apply translated_of_endpoints h
  · exact (length_fillChecksum hfill _).trans hlen
  · rw [hlayout]
    refine ⟨?_, ?_, ?_, ?_, ?_⟩
    · exact (beAt_fillChecksum hfill _ (.inr (by decide))).trans hend.srcAddr
    · exact (beAt_fillChecksum hfill _ (.inr (by decide))).trans hend.dstAddr
    · exact (beAt_fillChecksum hfill _ (.inr (by omega))).trans hend.sourcePort
    · exact (beAt_fillChecksum hfill _ (.inr (by omega))).trans hend.destinationPort
    · rw [slice_fillChecksum hfill _ (.inr (by omega))]
      exact hend.checksum
  · intro _
    have h0 : ipv4HeaderLen (putBE 2 p 10 0) = ipHeaderLen packet := by
      rw [← hv]
      unfold ipv4HeaderLen
      rw [byteAt_putBE_of_outside hfill (.inl (by decide)), hothers 0 hversion]
    have hfront : ([] : List UInt8).length + ipHeaderLen packet < 2 ^ 17 := by
      rw [List.length_nil]
      omega
    exact internetChecksum_fillChecksum (i := 0) (k := 10) rfl rfl (by omega) (by omega) hfront
      (by rw [h0]; rfl)
  · intro i hi hheader
    rw [hlayout] at hi
    have hout : i < 10 ∨ 12 ≤ i := by
      by_contra hin
      exact hheader ⟨h4, by omega, by omega⟩
    rw [byteAt_fillChecksum hfill _ hout]
    exact hothers i hi

theorem rewriteIpv6Tcp_translated (h : IsTcp packet) (h4 : ¬byteAt packet 0 >>> 4 = 4)
    (hsrc : srcIp < 256 ^ 16) (hdst : dstIp < 256 ^ 16) :
    Translated packet
      (rewriteIpv6Tcp packet (ipTotalLen packet) (ipHeaderLen packet) srcIp srcPort dstIp dstPort)
      (ipv6Layout.socketAddr srcIp srcPort) (ipv6Layout.socketAddr dstIp dstPort) := by
  have hlayout : layoutOf packet = ipv6Layout := by rw [layoutOf, if_neg h4]
  have hf := h.framed
  rw [hlayout] at hf
  obtain ⟨hlen, hend, hothers⟩ := rewriteTcp_spec srcPort dstPort hf hsrc hdst
  rw [← hlayout]
  apply translated_of_endpoints h hlen
  · rw [hlayout]
    exact hend
  · exact fun h4' => absurd h4' h4
  · intro i hi _
    rw [hlayout] at hi
    exact hothers i hi

/-- What a side of a stack is for. -/
structure SideFor (packet : Packet) (side : TcpSide) : Prop where
  layout : side.layout = layoutOf packet
  address_lt : side.address < 256 ^ side.layout.addrLen
  nextAddress_lt : side.nextAddress < 256 ^ side.layout.addrLen
  rewrite : ∀ srcIp srcPort dstIp dstPort, srcIp < 256 ^ side.layout.addrLen →
    dstIp < 256 ^ side.layout.addrLen →
      Translated packet
        (side.rewrite packet (ipTotalLen packet) (ipHeaderLen packet) srcIp srcPort dstIp dstPort)
        (side.layout.socketAddr srcIp srcPort) (side.layout.socketAddr dstIp dstPort)

theorem sideFor_of_sideOf (h : IsTcp packet) (hside : sideOf overflowChecks stack packet = some side) :
    SideFor packet side := by
  unfold sideOf at hside
  split at hside
  · next h4 =>
    cases hside
    exact {
      layout := by rw [layoutOf, if_pos h4]; rfl
      address_lt := stack.inet4Address.isLt
      nextAddress_lt := stack.inet4NextAddress.isLt
      rewrite := fun _ _ _ _ hsrc hdst => rewriteIpv4Tcp_translated h h4 hsrc hdst
    }
  · next h4 =>
    obtain ⟨v6, -, rfl⟩ := Option.map_eq_some_iff.mp hside
    exact {
      layout := by rw [layoutOf, if_neg h4]; rfl
      address_lt := v6.address.isLt
      nextAddress_lt := v6.nextAddress.isLt
      rewrite := fun _ _ _ _ hsrc hdst => rewriteIpv6Tcp_translated h h4 hsrc hdst
    }

/-- TCP packets get to the side of the stack for them. -/
theorem processPacket_eq (h : IsTcp packet) (hside : sideOf overflowChecks stack packet = some side)
    (now : Nat) :
    processPacket overflowChecks now stack packet =
      processTcp side now stack.tcpNat packet (ipTotalLen packet) (ipHeaderLen packet) := by
  have hf := h.framed
  have htcp := hf.tcp
  have hfits := h.fits
  have hfixed := h.fixed
  have hproto := h.proto
  have hne : packet ≠ [] := by
    rintro rfl
    rw [List.length_nil] at hfits
    omega
  unfold processPacket
  rw [if_neg hne]
  unfold ipTotalLen ipHeaderLen ipFixedLen at *
  unfold ipProto at hproto
  unfold sideOf at hside
  split
  · next h4 =>
    simp only [if_pos h4] at hside hproto hfixed hfits htcp ⊢
    cases hside
    have hchecked : ipv4Checked packet = true := by
      simp only [ipv4Checked, Bool.and_eq_true, decide_eq_true_eq]
      omega
    unfold processIpv4
    rw [hchecked]
    simp only [Bool.not_true, Bool.false_eq_true, if_false]
    rw [if_neg (by omega), if_pos hproto]
    rfl
  · next h4 =>
    simp only [if_neg h4] at hside hproto hfixed hfits htcp ⊢
    obtain ⟨v6, hv6, rfl⟩ := Option.map_eq_some_iff.mp hside
    have hchecked : ipv6Checked packet = true := by
      simp only [ipv6Checked, Bool.and_eq_true, decide_eq_true_eq]
      omega
    rw [if_pos (h.version.resolve_left h4)]
    unfold processIpv6
    rw [hchecked]
    simp only [Bool.not_true, Bool.false_eq_true, if_false]
    rw [if_neg (by omega), if_pos hproto]
    unfold processIpv6Tcp
    rw [hv6]

theorem ports_of_framed {layout : IpLayout} (hf : Framed layout packet totalLen headerLen) :
    beAt 2 (slice packet headerLen totalLen) 0 = beAt 2 packet headerLen ∧
      beAt 2 (slice packet headerLen totalLen) 2 = beAt 2 packet (headerLen + 2) := by
  have htcp := hf.tcp
  exact ⟨beAt_slice (by omega), beAt_slice (by omega)⟩

theorem endpoint_source (h : IsTcp packet) : (layoutOf packet).endpoint (source packet) =
    some (beAt (layoutOf packet).addrLen packet (layoutOf packet).srcOff,
      UInt16.ofNat (beAt 2 packet (ipHeaderLen packet))) := by
  have hf := h.framed
  have hfixed := hf.fixed
  have htcp := hf.tcp
  have hfits := hf.fits
  have hadd := (layoutOf packet).src_add
  have hadd' := (layoutOf packet).dst_add
  exact (layoutOf packet).endpoint_socketAddr _ _ (beAt_lt (by omega))

theorem endpoint_destination (h : IsTcp packet) : (layoutOf packet).endpoint (destination packet) =
    some (beAt (layoutOf packet).addrLen packet (layoutOf packet).dstOff,
      UInt16.ofNat (beAt 2 packet (ipHeaderLen packet + 2))) := by
  have hf := h.framed
  have hfixed := hf.fixed
  have htcp := hf.tcp
  have hfits := hf.fits
  have hadd := (layoutOf packet).src_add
  have hadd' := (layoutOf packet).dst_add
  exact (layoutOf packet).endpoint_socketAddr _ _ (beAt_lt (by omega))

/-- **To the listener.**  A packet of a client whose flow has a port. -/
theorem processPacket_client (h : IsTcp packet) (hside : sideOf overflowChecks stack packet = some side)
    (hclient : source packet ≠ side.listener) (hserver : (destination packet).ip ≠ side.listener.ip)
    {port : UInt16} {nat' : TcpNat}
    (hlookup : stack.tcpNat.lookup now (source packet) (destination packet) = (some port, nat')) :
    ∃ packet', processPacket overflowChecks now stack packet = some (.writeBack, packet', nat') ∧
      Translated packet packet' (side.layout.socketAddr side.nextAddress port) side.listener := by
  have hfor := sideFor_of_sideOf h hside
  obtain ⟨hsrc, hdst⟩ := ports_of_framed h.framed
  refine ⟨_, ?_, hfor.rewrite side.nextAddress port side.address side.listenPort hfor.nextAddress_lt
    hfor.address_lt⟩
  rw [processPacket_eq h hside]
  unfold processTcp
  dsimp only
  rw [h.tcp]
  simp only [Bool.not_true, Bool.false_eq_true, if_false]
  rw [hsrc, hdst, hfor.layout]
  rw [if_neg, if_neg]
  · rw [source, destination] at hlookup
    rw [hlookup]
  · intro haddr
    apply hserver
    rw [destination, TcpSide.listener, hfor.layout, haddr]
    exact (layoutOf packet).ip_socketAddr _ _ _
  · rintro ⟨haddr, hport⟩
    apply hclient
    rw [source, TcpSide.listener, hfor.layout, haddr, hport]

/-- **To the client.**  A packet of the listener to the port of a flow. -/
theorem processPacket_listener (h : IsTcp packet) (hside : sideOf overflowChecks stack packet = some side)
    (hlistener : source packet = side.listener) {port : UInt16}
    (hport : destination packet = side.layout.socketAddr side.nextAddress port) {session : NatSession}
    (hsession : (stack.tcpNat.lookupBack now port).1 = some session)
    (hsrc : side.layout.endpoint session.source = some (srcIp, srcPort))
    (hdst : side.layout.endpoint session.destination = some (dstIp, dstPort))
    (hsrcIp : srcIp < 256 ^ side.layout.addrLen) (hdstIp : dstIp < 256 ^ side.layout.addrLen) :
    ∃ packet', processPacket overflowChecks now stack packet =
        some (.writeBack, packet', (stack.tcpNat.lookupBack now port).2) ∧
      Translated packet packet' (side.layout.socketAddr dstIp dstPort)
        (side.layout.socketAddr srcIp srcPort) := by
  have hfor := sideFor_of_sideOf h hside
  obtain ⟨hports, hports'⟩ := ports_of_framed h.framed
  have haddress := side.layout.endpoint_socketAddr side.address side.listenPort hfor.address_lt
  have hnext := side.layout.endpoint_socketAddr side.nextAddress port hfor.nextAddress_lt
  have hfrom := endpoint_source h
  have hto := endpoint_destination h
  rw [hlistener, ← hfor.layout, TcpSide.listener, haddress] at hfrom
  rw [hport, ← hfor.layout, hnext] at hto
  obtain ⟨hip, hlisten⟩ := Prod.mk.inj (Option.some.inj hfrom)
  obtain ⟨-, hnat⟩ := Prod.mk.inj (Option.some.inj hto)
  refine ⟨_, ?_, hfor.rewrite dstIp dstPort srcIp srcPort hdstIp hsrcIp⟩
  rw [processPacket_eq h hside]
  unfold processTcp
  dsimp only
  rw [h.tcp]
  simp only [Bool.not_true, Bool.false_eq_true, if_false]
  rw [hports, hports', if_pos ⟨hip.symm, hlisten.symm⟩, ← hnat]
  cases hback : stack.tcpNat.lookupBack now port with
  | mk found nat' =>
    rw [hback] at hsession
    cases hsession
    dsimp only
    rw [hsrc, hdst]

theorem layoutOf_eq_of_source {reply : Packet} {ip : Nat} {port : UInt16}
    (h : source reply = (layoutOf packet).socketAddr ip port) :
    byteAt reply 0 >>> 4 = 4 ↔ byteAt packet 0 >>> 4 = 4 := by
  unfold source layoutOf at h
  by_cases hr : byteAt reply 0 >>> 4 = 4
  · by_cases hp : byteAt packet 0 >>> 4 = 4
    · exact iff_of_true hr hp
    · rw [if_pos hr, if_neg hp] at h
      cases h
  · by_cases hp : byteAt packet 0 >>> 4 = 4
    · rw [if_neg hr, if_pos hp] at h
      cases h
    · exact iff_of_false hr hp

/-- **Translation is invertible.**  While the table has a port for the flow of a client, the packets of
the flow go to the listener, and the packets of the listener to that port come back as packets of the
server to the client. -/
theorem translation_invertible {timeout : Nat} {calls : List TcpNat.Call}
    (htable : stack.tcpNat = (TcpNat.new timeout).run calls) (h : IsTcp packet)
    (hside : sideOf overflowChecks stack packet = some side) (hclient : source packet ≠ side.listener)
    (hserver : (destination packet).ip ≠ side.listener.ip) {port : UInt16} {nat' : TcpNat}
    (hlookup : stack.tcpNat.lookup now (source packet) (destination packet) = (some port, nat')) :
    (∃ packet', processPacket overflowChecks now stack packet = some (.writeBack, packet', nat') ∧
      Translated packet packet' (side.layout.socketAddr side.nextAddress port) side.listener) ∧
    ∀ more, (∀ part, part <+: more →
        (nat'.run part).byFlow.contains ⟨source packet, destination packet⟩ = true) →
      ∀ reply, IsTcp reply → source reply = side.listener →
        destination reply = side.layout.socketAddr side.nextAddress port →
          ∀ now', ∃ reply' nat'',
            processPacket overflowChecks now' { stack with tcpNat := nat'.run more } reply =
              some (.writeBack, reply', nat'') ∧
            Translated reply reply' (destination packet) (source packet) := by
  refine ⟨processPacket_client h hside hclient hserver hlookup, ?_⟩
  intro more hlive reply hreply hsource hdestination now'
  have hfor := sideFor_of_sideOf h hside
  have hsame : byteAt reply 0 >>> 4 = 4 ↔ byteAt packet 0 >>> 4 = 4 := by
    rw [TcpSide.listener, hfor.layout] at hsource
    exact layoutOf_eq_of_source hsource
  have hside' : sideOf overflowChecks { stack with tcpNat := nat'.run more } reply = some side := by
    rw [← hside]
    unfold sideOf
    simp only [hsame]
    rfl
  -- the flow is found by its port
  have hconsistent : stack.tcpNat.Consistent := htable ▸ (TcpNat.consistent_new timeout).run calls
  have hconsistent' : nat'.Consistent := by
    have hafter : (stack.tcpNat.lookup now (source packet) (destination packet)).2.Consistent :=
      hconsistent.lookup
    rwa [hlookup] at hafter
  have hflow := hconsistent'.flow_run (hconsistent.flow_lookup hlookup) hlive
  obtain ⟨session, hsession, hfrom, hto⟩ := (hconsistent'.run more).lookupBack_of_flow hflow now'
  have hsrc := endpoint_source h
  have hdst := endpoint_destination h
  have hf := h.framed
  have hfixed := hf.fixed
  have htcp := hf.tcp
  have hfits := hf.fits
  have hadd := (layoutOf packet).src_add
  have hadd' := (layoutOf packet).dst_add
  rw [← hfor.layout, ← hfrom] at hsrc
  rw [← hfor.layout, ← hto] at hdst
  rw [← hfor.layout] at hadd hadd' hfixed
  obtain ⟨reply', hprocess, htranslated⟩ := processPacket_listener hreply hside' hsource hdestination
    hsession hsrc hdst (beAt_lt (by omega)) (beAt_lt (by omega))
  refine ⟨reply', _, hprocess, ?_⟩
  rw [hfor.layout] at htranslated
  exact htranslated

end Sides

end WutherCore.Capture.SystemStack
