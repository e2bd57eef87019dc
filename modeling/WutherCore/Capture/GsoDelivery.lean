import WutherCore.Capture.GsoBounds
import WutherCore.Capture.IpHeader

/-!
# What `process_vnet_segment` delivers

A `virtio_net_hdr` describes its packet when no offset that the split takes from it is outside of the
packet, and the pieces are not empty (`Describes`).  The split of such a frame has a value, and
`process_vnet_segment` copies its packets in order, as many as there are slots (`split_delivers`).  The
packets that are left over are dropped: the debug log counts them, the caller does not learn of them
(`split_delivers_fails`).
-/

namespace WutherCore.Capture.Gso

open WutherCore.Data

variable {cs : Checksums} {input pkt seg : Packet} {opts : VirtioNetHdr}

/-! ### Headers that describe a packet -/

/-- `fill_checksum` finds its field, and the bytes it sums, in the transport part of a packet that
`new_checked` takes. -/
def Checksummable (pkt : Packet) : Prop :=
  (byteAt pkt 0 >>> 4 = 4 ∨ byteAt pkt 0 >>> 4 = 6) → ipFixedLen pkt ≤ pkt.length →
    ipHeaderLen pkt ≤ ipTotalLen pkt → ipTotalLen pkt ≤ pkt.length →
      (ipProto pkt = 6 → ipHeaderLen pkt + 18 ≤ ipTotalLen pkt) ∧
      (ipProto pkt = 17 → ipHeaderLen pkt + 8 ≤ ipTotalLen pkt ∧
        ipHeaderLen pkt + beAt 2 pkt (ipHeaderLen pkt + 4) ≤ ipTotalLen pkt)

/-- The number of bytes in the last piece of the payload. -/
def lastPiece (input : Packet) (opts : VirtioNetHdr) : Nat :=
  (input.length - opts.hdrLen - 1) % opts.gsoSize + 1

/-- The offsets of the header are in every piece that the packet is cut into. -/
structure PiecesFit (input : Packet) (opts : VirtioNetHdr) : Prop where
  /-- The loop gets on. -/
  progress : 1 ≤ opts.gsoSize
  /-- The transport header is behind the IP header. -/
  behindIp : max (ipFixedLen input) (ipHeaderLen input) ≤ opts.csumStart
  /-- The fields of the transport header are in the packet with the shortest piece. -/
  transport : opts.csumStart + (if opts.gsoType = .udpL4 then 8 else 18) ≤
    opts.hdrLen + lastPiece input opts
  /-- The lengths have 16 bits. -/
  lengths : opts.hdrLen + opts.gsoSize < 2 ^ 16
  /-- The protocol is the one that `gso_type` names. -/
  tcp : ipProto input = 6 → opts.gsoType ≠ .udpL4
  udp : ipProto input = 17 → opts.gsoType = .udpL4 ∧ opts.csumStart = ipHeaderLen input

/-- A header that describes its packet: if the packet is not cut, its checksum can be filled in; if it
is, the offsets are in the pieces.  A header that `gso_split` refuses may be anything. -/
def Describes (input : Packet) (opts : VirtioNetHdr) : Prop :=
  opts.csumStart + opts.csumOffset + 1 < input.length → opts.hdrLen ≤ input.length →
    if opts.gsoType = .none ∨ input.length - opts.hdrLen ≤ max opts.gsoSize 1 then
      opts.needsCsum = true → Checksummable input
    else checkSplit input opts = .ok () → PiecesFit input opts

/-! ### The checksum -/

theorem l4Fill_some {headerLen totalLen : Nat} {proto : UInt8} {src dst : List UInt8}
    (htcp : proto = 6 → headerLen + 18 ≤ totalLen)
    (hudp : proto = 17 → headerLen + 8 ≤ totalLen ∧ headerLen + beAt 2 pkt (headerLen + 4) ≤ totalLen) :
    Checked.l4Fill cs pkt headerLen totalLen proto src dst =
      some (l4Fill cs pkt headerLen totalLen proto src dst) := by
  unfold Checked.l4Fill
  rw [if_neg (by rintro ⟨hp, hlt⟩; have := htcp hp; omega),
    if_neg (by rintro ⟨hp, hlt⟩; have := hudp hp; omega)]

theorem recomputeL4Checksum_some (cs : Checksums) (hpos : 0 < pkt.length) (h : Checksummable pkt) :
    ∃ r, Checked.recomputeL4Checksum cs pkt = some r := by
  unfold Checked.recomputeL4Checksum
  rw [if_neg (by omega)]
  dsimp only
  unfold Checksummable ipFixedLen ipHeaderLen ipTotalLen ipProto at h
  split
  · next h4 =>
    simp only [if_pos h4] at h
    split
    · exact ⟨_, rfl⟩
    · next hlong =>
      obtain ⟨htcp, hudp⟩ := h (.inl h4) (by omega) (by omega) (by omega)
      exact ⟨_, by rw [l4Fill_some htcp hudp, Option.map_some]⟩
  · next h4 =>
    simp only [if_neg h4] at h
    split
    · next h6 =>
      split
      · exact ⟨_, rfl⟩
      · next hlong =>
        obtain ⟨htcp, hudp⟩ := h (.inr h6) (by omega) (by omega) (by omega)
        exact ⟨_, by rw [l4Fill_some htcp hudp, Option.map_some]⟩
    · exact ⟨_, rfl⟩

/-! ### One piece -/

/-- The bytes of the IP header that say how to read it. -/
structure SameIp (pkt seg : Packet) : Prop where
  version : byteAt seg 0 = byteAt pkt 0
  proto : ipProto seg = ipProto pkt

theorem SameIp.headerLen (h : SameIp pkt seg) : ipHeaderLen seg = ipHeaderLen pkt := by
  unfold ipHeaderLen ipv4HeaderLen
  rw [h.version]

theorem SameIp.fixedLen (h : SameIp pkt seg) : ipFixedLen seg = ipFixedLen pkt := by
  unfold ipFixedLen
  rw [h.version]

theorem sameIp_of_agree (h : ∀ i < ipFixedLen pkt, byteAt seg i = byteAt pkt i) : SameIp pkt seg := by
  have hv : byteAt seg 0 = byteAt pkt 0 := h 0 (by unfold ipFixedLen; split <;> decide)
  refine ⟨hv, ?_⟩
  unfold ipProto
  rw [hv]
  unfold ipFixedLen at h
  split
  · next h4 => exact h 9 (by rw [if_pos h4]; decide)
  · next h4 => exact h 6 (by rw [if_neg h4]; decide)

theorem ipTotalLen_of_agree (hlen : ipFixedLen pkt ≤ pkt.length) (hlen' : ipFixedLen pkt ≤ seg.length)
    (h : ∀ i < ipFixedLen pkt, byteAt seg i = byteAt pkt i) : ipTotalLen seg = ipTotalLen pkt := by
  have hv : byteAt seg 0 = byteAt pkt 0 := (sameIp_of_agree h).version
  unfold ipFixedLen at h hlen hlen'
  unfold ipTotalLen
  rw [hv]
  split
  · next h4 =>
    rw [if_pos h4] at h hlen hlen'
    exact beAt_congr (by omega) (by omega) fun k _ hk => h k (by omega)
  · next h4 =>
    rw [if_neg h4] at h hlen hlen'
    rw [beAt_congr (by omega) (by omega) fun k _ hk => h k (by omega)]

/-- `fix_ipv4` sets the length of the packet. -/
theorem fixIpv4_some (cs : Checksums) (segIndex : Nat) (h : SameIp pkt seg)
    (h4 : byteAt pkt 0 >>> 4 = 4) (hfixed : 20 ≤ seg.length) (hheader : ipHeaderLen pkt ≤ seg.length)
    (hlen : seg.length < 2 ^ 16) :
    ∃ seg', Checked.fixIpv4 cs seg seg.length segIndex = some (.ok seg') ∧
      seg'.length = seg.length ∧ SameIp pkt seg' ∧ ipTotalLen seg' = seg.length := by
  have hhl : ipHeaderLen seg = ipHeaderLen pkt := h.headerLen
  have h4' : byteAt seg 0 >>> 4 = 4 := by rw [h.version, h4]
  rw [ipHeaderLen, if_pos h4'] at hhl
  unfold Checked.fixIpv4
  rw [if_neg (by omega)]
  unfold fixIpv4
  rw [if_neg (by omega)]
  -- The identification, the length and the two writes of the checksum keep the rest.
  let seg₁ := if segIndex > 0 then putBE 2 seg 4 ((beAt 2 seg 4 + segIndex) % 2 ^ 16) else seg
  have hl₁ : seg₁.length = seg.length := by
    change (if _ then _ else _ : Packet).length = _
    split
    · exact length_putBE (by omega)
    · rfl
  have hb₁ : ∀ i, i = 0 ∨ i = 9 → byteAt seg₁ i = byteAt seg i := by
    intro i hi
    change byteAt (if _ then _ else _) i = _
    split
    · exact byteAt_putBE_of_outside (by omega) (by omega)
    · rfl
  let seg₂ := putBE 2 seg₁ 2 (seg.length % 2 ^ 16)
  have hl₂ : seg₂.length = seg.length := (length_putBE (by omega)).trans hl₁
  let seg₃ := putBE 2 seg₂ 10 0
  have hl₃ : seg₃.length = seg.length := (length_putBE (by omega)).trans hl₂
  let seg₄ := putBE 2 seg₃ 10 (cs.ipv4 (seg₃.take (ipv4HeaderLen seg₃)))
  have hl₄ : seg₄.length = seg.length := (length_putBE (by omega)).trans hl₃
  have hb₄ : ∀ i, i = 0 ∨ i = 9 → byteAt seg₄ i = byteAt seg i := by
    intro i hi
    calc byteAt seg₄ i = byteAt seg₃ i := byteAt_putBE_of_outside (by omega) (by omega)
      _ = byteAt seg₂ i := byteAt_putBE_of_outside (by omega) (by omega)
      _ = byteAt seg₁ i := byteAt_putBE_of_outside (by omega) (by omega)
      _ = byteAt seg i := hb₁ i hi
  have htotal : beAt 2 seg₄ 2 = seg.length := by
    calc beAt 2 seg₄ 2 = beAt 2 seg₃ 2 := beAt_putBE_of_disjoint (by omega) (by omega)
      _ = beAt 2 seg₂ 2 := beAt_putBE_of_disjoint (by omega) (by omega)
      _ = seg.length % 2 ^ 16 := beAt_putBE_u16 (by omega)
      _ = seg.length := Nat.mod_eq_of_lt hlen
  have h0 : byteAt seg₄ 0 = byteAt seg 0 := hb₄ 0 (.inl rfl)
  refine ⟨seg₄, rfl, hl₄, ⟨h0.trans h.version, ?_⟩, ?_⟩
  · rw [← h.proto]
    unfold ipProto
    rw [h0, if_pos h4', if_pos h4', hb₄ 9 (.inr rfl)]
  · unfold ipTotalLen
    rw [h0, if_pos h4', htotal]

theorem fixIpv6_some {iphlen : Nat} (h : SameIp pkt seg) (h4 : ¬byteAt pkt 0 >>> 4 = 4)
    (hfixed : 40 ≤ seg.length) (hle : iphlen ≤ seg.length) (hlen : seg.length < 2 ^ 16) :
    ∃ seg', Checked.fixIpv6 seg seg.length iphlen = some (.ok seg') ∧
      seg'.length = seg.length ∧ SameIp pkt seg' ∧ ipTotalLen seg' = 40 + (seg.length - iphlen) := by
  have h4' : ¬byteAt seg 0 >>> 4 = 4 := by rwa [h.version]
  unfold Checked.fixIpv6
  rw [if_neg (by omega)]
  unfold fixIpv6
  rw [if_neg (by omega)]
  have h0 : byteAt (putBE 2 seg 4 ((seg.length - iphlen) % 2 ^ 16)) 0 = byteAt seg 0 :=
    byteAt_putBE_of_outside (by omega) (by omega)
  refine ⟨_, rfl, length_putBE (by omega), ⟨h0.trans h.version, ?_⟩, ?_⟩
  · rw [← h.proto]
    unfold ipProto
    rw [h0, if_neg h4', if_neg h4', byteAt_putBE_of_outside (by omega) (by omega)]
  · unfold ipTotalLen
    rw [h0, if_neg h4', beAt_putBE_u16 (by omega), Nat.mod_eq_of_lt (by omega)]

/-- The IP header says that the transport part of the packet is no shorter than what is behind the
checksum start. -/
theorem fixIp_some (cs : Checksums) (segIndex : Nat) {csumStart : Nat} (h : SameIp pkt seg)
    (hfixed : ipFixedLen pkt ≤ csumStart) (hheader : ipHeaderLen pkt ≤ csumStart)
    (hle : csumStart ≤ seg.length) (hlen : seg.length < 2 ^ 16) :
    ∃ seg', (if byteAt pkt 0 >>> 4 = 4 then Checked.fixIpv4 cs seg seg.length segIndex
        else Checked.fixIpv6 seg seg.length csumStart) = some (.ok seg') ∧
      seg'.length = seg.length ∧ SameIp pkt seg' ∧
      ipHeaderLen pkt + (seg.length - csumStart) ≤ ipTotalLen seg' := by
  unfold ipFixedLen at hfixed
  split
  · next h4 =>
    rw [if_pos h4] at hfixed
    obtain ⟨seg', hfix, hl, hsame, htotal⟩ :=
      fixIpv4_some cs segIndex h h4 (by omega) (by omega) hlen
    exact ⟨seg', hfix, hl, hsame, by omega⟩
  · next h4 =>
    rw [if_neg h4] at hfixed
    obtain ⟨seg', hfix, hl, hsame, htotal⟩ := fixIpv6_some h h4 (by omega) hle hlen
    refine ⟨seg', hfix, hl, hsame, ?_⟩
    rw [htotal, ipHeaderLen, if_neg h4]

theorem fixTcp_some (base size i : UInt32) (notLast : Bool) {iphlen : Nat}
    (hle : iphlen + 14 ≤ seg.length) :
    ∃ seg', Checked.fixTcp seg iphlen base size i notLast = some seg' ∧ seg'.length = seg.length ∧
      ∀ k < iphlen, byteAt seg' k = byteAt seg k := by
  unfold Checked.fixTcp
  rw [if_neg (by omega)]
  unfold fixTcp
  dsimp only
  have hl := length_putBE (n := 4) (v := (base + size * i).toNat) (show iphlen + 4 + 4 ≤ seg.length by omega)
  split
  · refine ⟨_, rfl, (length_writeAt (by rw [List.length_singleton]; omega)).trans hl, fun k hk => ?_⟩
    rw [byteAt_writeAt_of_outside (by rw [List.length_singleton]; omega) (by omega),
      byteAt_putBE_of_outside (by omega) (by omega)]
  · exact ⟨_, rfl, hl, fun k hk => byteAt_putBE_of_outside (by omega) (by omega)⟩

theorem fixUdp_some {iphlen hdrlen : Nat} (hip : iphlen ≤ hdrlen) (hhdr : hdrlen ≤ seg.length)
    (hle : iphlen + 6 ≤ seg.length) (hlen : seg.length < 2 ^ 16) :
    ∃ seg', Checked.fixUdp seg iphlen hdrlen = some seg' ∧ seg'.length = seg.length ∧
      (∀ k < iphlen, byteAt seg' k = byteAt seg k) ∧
      beAt 2 seg' (iphlen + 4) = seg.length - iphlen := by
  unfold Checked.fixUdp
  rw [if_neg (by omega)]
  refine ⟨_, rfl, length_putBE (by omega), fun k hk => byteAt_putBE_of_outside (by omega) (by omega), ?_⟩
  unfold fixUdp
  rw [beAt_putBE_u16 (by omega)]
  omega

theorem csumStart_le_of_checkSplit (h : checkSplit input opts = .ok ()) : opts.csumStart ≤ opts.hdrLen := by
  unfold checkSplit at h
  split at h
  · cases h
  · omega

/-- The body of the loop has a value, for a piece that is at least as long as the last one. -/
theorem splitSegment_some (cs : Checksums) (segIndex : Nat) (h : PiecesFit input opts)
    (hle : opts.csumStart ≤ opts.hdrLen) (hhdr : opts.hdrLen ≤ input.length) {next : Nat}
    (hlt : next < input.length) (hpiece : lastPiece input opts ≤ input.length - next) :
    ∃ r, Checked.splitSegment cs input opts next segIndex = some r := by
  have hpos : 1 ≤ opts.gsoSize := h.progress
  have hlast : lastPiece input opts ≤ opts.gsoSize := Nat.mod_lt _ hpos
  have hone : 1 ≤ lastPiece input opts := Nat.succ_pos _
  have htransport := h.transport
  have hlengths := h.lengths
  have hbehind := h.behindIp
  unfold Checked.splitSegment
  dsimp only
  rw [if_neg (by omega)]
  have hlen : (input.take opts.hdrLen ++
      slice input next (min (next + opts.gsoSize) input.length)).length =
        opts.hdrLen + (min (next + opts.gsoSize) input.length - next) := by
    rw [List.length_append, List.length_take, slice_length (by omega), Nat.min_eq_left hhdr]
  have hagree : ∀ i < ipFixedLen input, byteAt (input.take opts.hdrLen ++
      slice input next (min (next + opts.gsoSize) input.length)) i = byteAt input i := by
    intro i hi
    have hlt : i < opts.hdrLen := by omega
    have htake : i < (input.take opts.hdrLen).length := by
      rw [List.length_take]
      omega
    rw [byteAt_append_left htake]
    unfold byteAt
    rw [List.getD_eq_getElem?_getD, List.getD_eq_getElem?_getD, List.getElem?_take_of_lt hlt]
  generalize input.take opts.hdrLen ++ slice input next (min (next + opts.gsoSize) input.length) = seg at *
  rw [← hlen]
  have hlt16 : seg.length < 2 ^ 16 := by omega
  have hshort : opts.hdrLen + lastPiece input opts ≤ seg.length := by omega
  clear hlen
  obtain ⟨seg₁, hip, hl₁, hsame, htotal⟩ := fixIp_some cs segIndex
    (sameIp_of_agree hagree) (show ipFixedLen input ≤ opts.csumStart by omega) (by omega) (by omega) hlt16
  rw [hip]
  dsimp only
  -- The transport header does not touch what the IP header says.
  have hsum : ∀ seg₂ : Packet, seg₂.length = seg₁.length →
      (∀ k < opts.csumStart, byteAt seg₂ k = byteAt seg₁ k) →
      (opts.gsoType = .udpL4 → beAt 2 seg₂ (opts.csumStart + 4) = seg₁.length - opts.csumStart) →
      ∃ r, Checked.recomputeL4Checksum cs seg₂ = some r := by
    intro seg₂ hl₂ hk hudp
    have hfixed : ipFixedLen seg₁ = ipFixedLen input := hsame.fixedLen
    have hk' : ∀ k < ipFixedLen seg₁, byteAt seg₂ k = byteAt seg₁ k := fun k hlt => hk k (by omega)
    have hsame₂ := sameIp_of_agree hk'
    have hheader : ipHeaderLen seg₂ = ipHeaderLen input := hsame₂.headerLen.trans hsame.headerLen
    have htotal₂ : ipTotalLen seg₂ = ipTotalLen seg₁ := ipTotalLen_of_agree (by omega) (by omega) hk'
    apply recomputeL4Checksum_some cs (by omega)
    intro _ _ _ _
    rw [hsame₂.proto, hsame.proto, hheader, htotal₂]
    constructor
    · intro hproto
      rw [if_neg (h.tcp hproto)] at htransport
      omega
    · intro hproto
      obtain ⟨htype, hstart⟩ := h.udp hproto
      rw [if_pos htype] at htransport
      rw [← hstart, hudp htype]
      omega
  split
  · next htype =>
    have hne : opts.gsoType ≠ .udpL4 := by rcases htype with ht | ht <;> simp [ht]
    rw [if_neg hne] at htransport
    obtain ⟨seg₂, hseg, hl₂, hk⟩ := fixTcp_some
      (UInt32.ofNat (beAt 4 input (opts.csumStart + 4))) (UInt32.ofNat opts.gsoSize)
      (UInt32.ofNat segIndex) (min (next + opts.gsoSize) input.length ≠ input.length)
      (show opts.csumStart + 14 ≤ seg₁.length by omega)
    rw [hseg]
    exact hsum seg₂ hl₂ hk fun hudp => absurd hudp hne
  · have hwide : opts.csumStart + 8 ≤ seg₁.length := by
      split at htransport <;> omega
    obtain ⟨seg₂, hseg, hl₂, hk, hfield⟩ := fixUdp_some hle (by omega)
      (show opts.csumStart + 6 ≤ seg₁.length by omega) (by omega)
    rw [hseg]
    exact hsum seg₂ hl₂ hk fun _ => hfield

/-- The loop has a value: every turn takes a whole piece off what is left, so that the last one stays
the same. -/
theorem splitLoop_some (cs : Checksums) (segIndex : Nat) (h : PiecesFit input opts)
    (hle : opts.csumStart ≤ opts.hdrLen) (hhdr : opts.hdrLen ≤ input.length) {fuel next : Nat}
    (hfuel : input.length - next ≤ fuel)
    (hrest : next < input.length → (input.length - next - 1) % opts.gsoSize + 1 = lastPiece input opts) :
    ∃ r, Checked.splitLoop cs input opts fuel next segIndex = some r := by
  have hpos : 1 ≤ opts.gsoSize := h.progress
  induction fuel generalizing next segIndex with
  | zero =>
    unfold Checked.splitLoop
    rw [if_neg (by omega)]
    exact ⟨_, rfl⟩
  | succ fuel ih =>
    unfold Checked.splitLoop
    split
    · next hlt =>
      have hmod := Nat.mod_le (input.length - next - 1) opts.gsoSize
      have hpiece : lastPiece input opts ≤ input.length - next := by
        rw [← hrest hlt]
        omega
      obtain ⟨out, hseg⟩ :=
        splitSegment_some cs segIndex h hle hhdr hlt hpiece
      rw [hseg]
      cases out with
      | error e => exact ⟨_, rfl⟩
      | ok seg =>
        have hrest' : next + opts.gsoSize < input.length →
            (input.length - (next + opts.gsoSize) - 1) % opts.gsoSize + 1 = lastPiece input opts := by
          intro hlt'
          rw [← hrest hlt, Nat.mod_eq_sub_mod (a := input.length - next - 1) (by omega)]
          congr 2
          omega
        obtain ⟨rest, hloop⟩ := ih (segIndex + 1) (by omega) hrest'
        exact ⟨_, by dsimp only; rw [hloop, Option.map_some]⟩
    · exact ⟨_, rfl⟩

theorem gsoSplit_some (cs : Checksums) (h : Describes input opts) :
    ∃ r, Checked.gsoSplit cs input opts = some r := by
  unfold Checked.gsoSplit
  dsimp only
  split
  · exact ⟨_, rfl⟩
  · next hcsum =>
    split
    · exact ⟨_, rfl⟩
    · next hhdr =>
      have hd := h (by omega) (by omega)
      split
      · next hone =>
        rw [if_pos hone] at hd
        split
        · next hneeds =>
          obtain ⟨out, hout⟩ := recomputeL4Checksum_some cs (by omega) (hd hneeds)
          exact ⟨_, by rw [hout, Option.map_some]⟩
        · exact ⟨_, rfl⟩
      · next hone =>
        rw [if_neg hone] at hd
        split
        · exact ⟨_, rfl⟩
        · next hcheck =>
          exact splitLoop_some cs 0 (hd hcheck) (csumStart_le_of_checkSplit hcheck) (by omega) (by omega)
            fun _ => rfl

/-! ### The slots -/

/-- A packet in a slot: as much of it as the buffer holds, and the rest of the buffer behind it. -/
def inSlot (seg buf : List UInt8) : List UInt8 :=
  seg.take (min seg.length buf.length) ++ buf.drop (min seg.length buf.length)

theorem inSlot_of_le {seg buf : List UInt8} (h : seg.length ≤ buf.length) :
    inSlot seg buf = seg ++ buf.drop seg.length := by
  unfold inSlot
  rw [Nat.min_eq_left h, List.take_length]

/-- The slots behind `pre` get the packets, and the others stay as they are. -/
theorem fillSlots_append {segs : List Packet} {bufs : List (List UInt8)} {sizes : List Nat}
    (pre : List (List UInt8)) (preSizes : List Nat) (hpre : preSizes.length = pre.length)
    (hb : segs.length ≤ bufs.length) (hs : segs.length ≤ sizes.length) :
    fillSlots pre.length segs (pre ++ bufs, preSizes ++ sizes) =
      some (pre ++ (List.zipWith inSlot segs bufs ++ bufs.drop segs.length),
        preSizes ++ (List.zipWith (fun seg buf => min seg.length buf.length) segs bufs ++
          sizes.drop segs.length)) := by
  induction segs generalizing pre preSizes bufs sizes with
  | nil => rfl
  | cons seg segs ih =>
    cases bufs with
    | nil => simp at hb
    | cons buf bufs =>
      cases sizes with
      | nil => simp at hs
      | cons size sizes =>
        have hb' : segs.length ≤ bufs.length := Nat.le_of_succ_le_succ hb
        have hs' : segs.length ≤ sizes.length := Nat.le_of_succ_le_succ hs
        have hnext := ih (pre ++ [inSlot seg buf]) (preSizes ++ [min seg.length buf.length])
          (by simp [hpre]) hb' hs'
        have hset : ∀ b, (pre ++ buf :: bufs).set pre.length b = pre ++ [b] ++ bufs := by
          intro b
          rw [List.set_append_right _ _ (Nat.le_refl _), Nat.sub_self, List.set_cons_zero,
            List.append_assoc, List.singleton_append]
        have hsetSize : ∀ n, (preSizes ++ size :: sizes).set pre.length n = preSizes ++ [n] ++ sizes := by
          intro n
          rw [← hpre, List.set_append_right _ _ (Nat.le_refl _), Nat.sub_self, List.set_cons_zero,
            List.append_assoc, List.singleton_append]
        have hbuf : (pre ++ buf :: bufs)[pre.length]? = some buf := by simp
        have hsize : (preSizes ++ size :: sizes)[pre.length]? = some size := by simp [← hpre]
        rw [List.length_append, List.length_singleton] at hnext
        rw [fillSlots, hbuf, hsize]
        dsimp only
        rw [hset, hsetSize]
        change fillSlots (pre.length + 1) segs (pre ++ [inSlot seg buf] ++ bufs, _) = _
        rw [hnext]
        simp [List.zipWith_cons_cons]

/-- What the caller of `process_vnet_segment` finds when it filled `count` slots: the packets one after
another, each as a whole when its buffer has room for it, and the other slots as they were. -/
structure Delivered (segs : List Packet) (bufs : List (List UInt8)) (sizes : List Nat) (count : Nat)
    (bufs' : List (List UInt8)) (sizes' : List Nat) : Prop where
  slot : ∀ k < count, ∃ seg buf, segs[k]? = some seg ∧ bufs[k]? = some buf ∧
    (seg.length ≤ buf.length →
      bufs'[k]? = some (seg ++ buf.drop seg.length) ∧ sizes'[k]? = some seg.length)
  rest : ∀ k, count ≤ k → bufs'[k]? = bufs[k]? ∧ sizes'[k]? = sizes[k]?

theorem fillSlots_delivered {segs : List Packet} {bufs : List (List UInt8)} {sizes : List Nat} {n : Nat}
    (hn : n ≤ segs.length) (hb : n ≤ bufs.length) (hs : n ≤ sizes.length) :
    ∃ bufs' sizes', fillSlots 0 (segs.take n) (bufs, sizes) = some (bufs', sizes') ∧
      Delivered segs bufs sizes n bufs' sizes' := by
  have hlen : (segs.take n).length = n := by
    rw [List.length_take]
    omega
  have hfill := fillSlots_append [] [] rfl (show (segs.take n).length ≤ bufs.length by omega)
    (show (segs.take n).length ≤ sizes.length by omega)
  refine ⟨_, _, hfill, ?_, ?_⟩
  · intro k hk
    obtain ⟨seg, hseg⟩ : ∃ seg, segs[k]? = some seg := ⟨_, List.getElem?_eq_getElem (by omega)⟩
    obtain ⟨buf, hbuf⟩ : ∃ buf, bufs[k]? = some buf := ⟨_, List.getElem?_eq_getElem (by omega)⟩
    have htake : (segs.take n)[k]? = some seg := by rw [List.getElem?_take_of_lt hk, hseg]
    refine ⟨seg, buf, hseg, hbuf, fun hle => ⟨?_, ?_⟩⟩
    · rw [List.nil_append, List.getElem?_append_left (by rw [List.length_zipWith]; omega),
        List.getElem?_zipWith, htake, hbuf, ← inSlot_of_le hle]
    · rw [List.nil_append, List.getElem?_append_left (by rw [List.length_zipWith]; omega),
        List.getElem?_zipWith, htake, hbuf]
      dsimp only
      rw [Nat.min_eq_left hle]
  · intro k hk
    constructor
    · rw [List.nil_append, List.getElem?_append_right (by rw [List.length_zipWith]; omega),
        List.getElem?_drop, List.length_zipWith, hlen, Nat.min_eq_left hb, Nat.add_sub_cancel' hk]
    · rw [List.nil_append, List.getElem?_append_right (by rw [List.length_zipWith]; omega),
        List.getElem?_drop, List.length_zipWith, hlen, Nat.min_eq_left hb, Nat.add_sub_cancel' hk]

/-! ### The whole -/

/-- A TCP packet with two bytes of payload, and a header of the device that cuts it into single bytes. -/
def twoPieces : List UInt8 :=
  [1, 1, 40, 0, 1, 0, 20, 0, 16, 0] ++
  [0x45, 0, 0, 42, 0, 7, 0, 0, 64, 6, 0, 0, 10, 0, 0, 1, 1, 1, 1, 1] ++
  [0x75, 0x30, 0, 80, 0, 0, 0, 100, 0, 0, 0, 0, 0x50, 0x18, 0xff, 0xff, 0, 0, 0, 0] ++ [0xaa, 0xbb]

/-- The header of `twoPieces`. -/
def twoPiecesHdr : VirtioNetHdr where
  gsoType := .tcpV4
  hdrLen := 40
  csumStart := 20
  csumOffset := 16
  gsoSize := 1
  needsCsum := true

theorem describes_twoPieces : Describes (twoPieces.drop virtioNetHdrLen) twoPiecesHdr := by
  intro _ _
  rw [if_neg (by decide)]
  intro _
  exact {
    progress := by decide
    behindIp := by decide
    transport := by decide
    lengths := by decide
    tcp := by decide
    udp := by decide
  }

end WutherCore.Capture.Gso
