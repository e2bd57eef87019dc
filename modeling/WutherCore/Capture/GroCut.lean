import WutherCore.Capture.GroMerged

/-!
# Cutting merged buffers

`gso_split` on a merged buffer: it succeeds, and cuts what is behind the headers into chunks of
`gso_size` bytes.  Each chunk gets the headers of the first packet, with the right lengths, and for TCP
with the sequence number of its place (`gsoSplit_merged`).
-/

namespace WutherCore.Capture.Gro

open WutherCore.Data Gso

variable {cs : Checksums} {first : Packet} {seq : UInt32} {chunk : List UInt8} {seg : Packet}

/-- The `virtio_net_hdr` for buffers with the headers of a packet. -/
def optionsFor (first : Packet) (gsoSize : Nat) : VirtioNetHdr where
  gsoType := if classifyForGro first = .tcp then (if isV6 first then .tcpV6 else .tcpV4) else .udpL4
  hdrLen := hdrLen first
  csumStart := iphLen first
  csumOffset := if classifyForGro first = .tcp then 16 else 6
  gsoSize := gsoSize
  needsCsum := true

@[simp] theorem optionsFor_hdrLen (first : Packet) (n : Nat) :
    (optionsFor first n).hdrLen = hdrLen first := rfl

@[simp] theorem optionsFor_csumStart (first : Packet) (n : Nat) :
    (optionsFor first n).csumStart = iphLen first := rfl

@[simp] theorem optionsFor_gsoSize (first : Packet) (n : Nat) :
    (optionsFor first n).gsoSize = n := rfl

/-! ### One segment -/

variable (cs) in
theorem fixIpv4_merged (hf : Framed first) (h6 : isV6 first = false) (h : Merged first seq chunk seg)
    (hlen : seg.length ≤ maxIpPacketLen) (i : Nat) :
    ∃ seg', fixIpv4 cs seg seg.length i = .ok seg' ∧ Merged first seq chunk seg' ∧
      ipLen (isV6 first) seg' = seg.length := by
  have hiph : 20 ≤ iphLen first := hf.valid.iph
  have hge : iphLen first + 8 ≤ hdrLen first := hf.valid.hdr_ge
  have hle := h.hdr_le
  have hput : ∀ {s : Packet} {off v : Nat}, (off = 2 ∨ off = 4 ∨ off = 10) → Merged first seq chunk s →
      Merged first seq chunk (putBE 2 s off v) := fun hoff hs => hs.putIp hf (by simpa [h6] using hoff)
  have hid : Merged first seq chunk
      (if i > 0 then putBE 2 seg 4 ((beAt 2 seg 4 + i) % 2 ^ 16) else seg) := by
    split
    · exact hput (by simp) h
    · exact h
  have hidlen := hid.hdr_le
  have hlen2 := (hput (v := seg.length % 2 ^ 16) (.inl rfl) hid).hdr_le
  unfold fixIpv4
  rw [if_neg (by omega)]
  refine ⟨_, rfl, hput (by simp) (hput (by simp) (hput (by simp) hid)), ?_⟩
  unfold fillChecksum
  rw [ipLen_putBE (by decide) (by rw [length_putBE (by omega)]; omega), ipLen_putBE (by decide) (by omega),
    h6, ipLen, if_neg (by decide), beAt_putBE_u16 (by omega)]
  unfold maxIpPacketLen at hlen
  omega

theorem fixIpv6_merged (hf : Framed first) (h6 : isV6 first = true) (h : Merged first seq chunk seg)
    (hlen : seg.length ≤ maxIpPacketLen) :
    ∃ seg', fixIpv6 seg seg.length (iphLen first) = .ok seg' ∧ Merged first seq chunk seg' ∧
      ipLen (isV6 first) seg' = seg.length := by
  have h40 : iphLen first = 40 := hf.valid.v6 h6
  have hge : iphLen first + 8 ≤ hdrLen first := hf.valid.hdr_ge
  have hle := h.hdr_le
  unfold fixIpv6
  rw [if_neg (by omega)]
  refine ⟨_, rfl, h.putIp hf (by simp [h6]), ?_⟩
  rw [h6, ipLen, if_pos rfl, beAt_putBE_u16 (by omega)]
  unfold maxIpPacketLen at hlen
  omega

theorem fixTcp_merged (hf : Framed first) (htcp : classifyForGro first = .tcp)
    (h : Merged first seq chunk seg) (base size i : UInt32) (notLast : Bool) :
    Merged first (base + size * i) chunk (fixTcp seg (iphLen first) base size i notLast) ∧
      ipLen (isV6 first) (fixTcp seg (iphLen first) base size i notLast) = ipLen (isV6 first) seg := by
  have hhdr : iphLen first + 20 ≤ hdrLen first := hf.valid.tcp htcp
  have hiph : 20 ≤ iphLen first := hf.valid.iph
  have hle := h.hdr_le
  have hs : Merged first (base + size * i) chunk
      (putBE 4 seg (iphLen first + 4) (base + size * i).toNat) := h.putSeq hf htcp
  have hs' := hs.hdr_le
  unfold fixTcp
  dsimp only
  split
  · refine ⟨hs.writeFlags hf htcp (clear_and (hs.fin_clear hf htcp)), ?_⟩
    rw [ipLen_writeAt (by omega) (by rw [List.length_singleton]; omega),
      ipLen_putBE (by omega) (by omega)]
  · exact ⟨hs, ipLen_putBE (by omega) (by omega)⟩

theorem fixUdp_merged (hf : Framed first) (hudp : classifyForGro first = .udp)
    (h : Merged first seq chunk seg) :
    Merged first seq chunk (fixUdp seg (iphLen first) (hdrLen first)) ∧
      ipLen (isV6 first) (fixUdp seg (iphLen first) (hdrLen first)) = ipLen (isV6 first) seg := by
  have hhdr : iphLen first + 8 = hdrLen first := hf.valid.udp hudp
  have hiph : 20 ≤ iphLen first := hf.valid.iph
  have hle := h.hdr_le
  exact ⟨h.putL4 hf (by simp [hudp]), ipLen_putBE (by omega) (by omega)⟩

theorem fillChecksum_merged (hf : Framed first) (h : Merged first seq chunk seg) {k : Nat}
    (hk : if classifyForGro first = .tcp then k = 16 else k = 6) (sum : Packet → Nat) :
    Merged first seq chunk (fillChecksum seg (iphLen first + k) sum) ∧
      ipLen (isV6 first) (fillChecksum seg (iphLen first + k) sum) = ipLen (isV6 first) seg := by
  have hiph : 20 ≤ iphLen first := hf.valid.iph
  have hk' : if classifyForGro first = .tcp then k = 16 else k = 4 ∨ k = 6 := by
    split at hk
    · next h4 => simpa [h4] using hk
    · next h4 => simp [h4, hk]
  have hin : iphLen first + k + 2 ≤ hdrLen first := by
    rcases hf.valid.l4 with h4 | h4
    · have hhdr : iphLen first + 20 ≤ hdrLen first := hf.valid.tcp h4
      rw [if_pos (show classifyForGro first = .tcp from h4)] at hk
      omega
    · have hhdr : iphLen first + 8 = hdrLen first := hf.valid.udp h4
      rw [if_neg (by simp [show classifyForGro first = .udp from h4])] at hk
      omega
  have hle := h.hdr_le
  have h0 : Merged first seq chunk (putBE 2 seg (iphLen first + k) 0) := h.putL4 hf hk'
  have hle0 := h0.hdr_le
  refine ⟨h0.putL4 hf hk', ?_⟩
  unfold fillChecksum
  rw [ipLen_putBE (by omega) (by omega), ipLen_putBE (by omega) (by omega)]

theorem proto_of_framed (hf : Framed first) :
    (if isV6 first then byteAt first 6 else byteAt first 9) =
      if classifyForGro first = .tcp then 6 else 17 := by
  have hv := hf.version
  have hl4 : classifyForGro first = .tcp ∨ classifyForGro first = .udp := hf.valid.l4
  unfold classifyForGro at hl4 ⊢
  cases h6 : isV6 first with
  | true =>
    rw [h6] at hv
    simp only [hv] at hl4 ⊢
    grind
  | false =>
    rw [h6] at hv
    simp only [hv] at hl4 ⊢
    grind

variable (cs) in
/-- `recompute_l4_checksum` on a packet with the right length. -/
theorem recomputeL4Checksum_merged (hf : Framed first) (h : Merged first seq chunk seg)
    (hlen : ipLen (isV6 first) seg = seg.length) :
    ∃ seg', recomputeL4Checksum cs seg = .ok seg' ∧ Merged first seq chunk seg' ∧
      ipLen (isV6 first) seg' = seg.length := by
  have hiph : 20 ≤ iphLen first := hf.valid.iph
  have hge : iphLen first + 8 ≤ hdrLen first := hf.valid.hdr_ge
  have hle := h.hdr_le
  have hv := hf.version
  have hproto := proto_of_framed hf
  have hfill : ∀ src dst total, ∃ seg',
      l4Fill cs seg (iphLen first) total (if classifyForGro first = .tcp then 6 else 17) src dst = seg' ∧
      Merged first seq chunk seg' ∧ ipLen (isV6 first) seg' = seg.length := by
    intro src dst total
    refine ⟨_, rfl, ?_⟩
    unfold l4Fill
    rcases hf.valid.l4 with h4 | h4
    · have h4' : classifyForGro first = .tcp := h4
      have hc := fillChecksum_merged hf h (k := 16) (by simp [h4'])
        fun pkt => cs.tcp (slice pkt (iphLen first) total) src dst
      rw [hlen] at hc
      simpa [h4'] using hc
    · have h4' : classifyForGro first = .udp := h4
      have hc := fillChecksum_merged hf h (k := 6) (by simp [h4'])
        fun pkt => cs.udp (slice pkt (iphLen first) total) src dst
      rw [hlen] at hc
      simpa [h4'] using hc
  unfold recomputeL4Checksum
  rw [byteAt_zero_of_agree hf h.agree, hv]
  cases h6 : isV6 first with
  | true =>
    have h40 : iphLen first = 40 := hf.valid.v6 h6
    have hb : byteAt seg 6 = byteAt first 6 := by
      refine (h.agree.byteAt_ip hf.valid (show 6 < iphLen first by omega) ?_).symm
      simp [show (shapeOf first).isV6 = true from h6]
    rw [h6, ipLen, if_pos rfl] at hlen
    rw [h6, if_pos rfl] at hproto
    obtain ⟨seg', hseg', hm, hl⟩ := hfill (slice seg 8 24) (slice seg 24 40) (40 + beAt 2 seg 4)
    refine ⟨seg', ?_, hm, h6 ▸ hl⟩
    rw [← hseg', h40, ← hproto, ← hb]
    simp [hlen, show ¬ seg.length < 40 by omega]
  | false =>
    have hb : byteAt seg 9 = byteAt first 9 := by
      refine (h.agree.byteAt_ip hf.valid (show 9 < iphLen first by omega) ?_).symm
      simp [show (shapeOf first).isV6 = false from h6]
    have hhl : ipv4HeaderLen seg = iphLen first := by
      simp [ipv4HeaderLen, iphLen, h6, byteAt_zero_of_agree hf h.agree]
    rw [h6, ipLen, if_neg (by decide)] at hlen
    rw [h6, if_neg (by decide)] at hproto
    obtain ⟨seg', hseg', hm, hl⟩ := hfill (slice seg 12 16) (slice seg 16 20) (beAt 2 seg 2)
    refine ⟨seg', ?_, hm, h6 ▸ hl⟩
    rw [← hseg', ← hproto, ← hb, hhl, hlen]
    simp [show ¬ seg.length < 20 by omega, show ¬ seg.length < iphLen first by omega]

variable (cs) in
/-- The body of the loop: a packet with the next chunk behind the headers. -/
theorem splitSegment_merged {buf : Packet} {body : List UInt8} {gsoSize : Nat} (hf : Framed first)
    (h : Merged first seq body buf) (hmax : hdrLen first + gsoSize ≤ maxIpPacketLen) (next i : Nat) :
    ∃ seg, splitSegment cs buf (optionsFor first gsoSize) next i = .ok seg ∧
      Merged first (seq + UInt32.ofNat gsoSize * UInt32.ofNat i)
        (slice buf next (min (next + gsoSize) buf.length)) seg ∧ Sized seg := by
  set chunk := slice buf next (min (next + gsoSize) buf.length) with hchunk
  have hcl : chunk.length = min (next + gsoSize) buf.length - next := slice_length (by omega)
  have hm := h.recut hf chunk
  have hml := hm.length_eq
  have hlen : (buf.take (hdrLen first) ++ chunk).length ≤ maxIpPacketLen := by
    rw [hml]
    omega
  have hfixed : ∃ seg, (if byteAt buf 0 >>> 4 = 4 then
        fixIpv4 cs (buf.take (hdrLen first) ++ chunk) (buf.take (hdrLen first) ++ chunk).length i
      else fixIpv6 (buf.take (hdrLen first) ++ chunk) (buf.take (hdrLen first) ++ chunk).length
        (iphLen first)) = .ok seg ∧ Merged first seq chunk seg ∧
      ipLen (isV6 first) seg = (buf.take (hdrLen first) ++ chunk).length := by
    rw [byteAt_zero_of_agree hf h.agree, hf.version]
    cases h6 : isV6 first with
    | true => simpa [h6] using fixIpv6_merged hf h6 hm hlen
    | false => simpa [h6] using fixIpv4_merged cs hf h6 hm hlen i
  obtain ⟨seg1, hok1, hm1, hl1⟩ := hfixed
  -- The transport header, for either protocol.
  have hl4 : ∃ seg2, (if (optionsFor first gsoSize).gsoType = .tcpV4 ∨
        (optionsFor first gsoSize).gsoType = .tcpV6 then
        fixTcp seg1 (iphLen first) (UInt32.ofNat (beAt 4 buf (iphLen first + 4)))
          (UInt32.ofNat gsoSize) (UInt32.ofNat i) (min (next + gsoSize) buf.length ≠ buf.length)
      else fixUdp seg1 (iphLen first) (hdrLen first)) = seg2 ∧
      Merged first (seq + UInt32.ofNat gsoSize * UInt32.ofNat i) chunk seg2 ∧
      ipLen (isV6 first) seg2 = ipLen (isV6 first) seg1 := by
    refine ⟨_, rfl, ?_⟩
    rcases hf.valid.l4 with h4 | h4
    · have h4' : classifyForGro first = .tcp := h4
      have htype : (optionsFor first gsoSize).gsoType = .tcpV4 ∨
          (optionsFor first gsoSize).gsoType = .tcpV6 := by
        cases h6 : isV6 first <;> simp [optionsFor, h4', h6]
      rw [if_pos htype, h.seq_eq h4']
      exact fixTcp_merged hf h4' hm1 _ _ _ _
    · have h4' : classifyForGro first = .udp := h4
      rw [if_neg (by simp [optionsFor, h4'])]
      obtain ⟨hm2, hl2⟩ := fixUdp_merged hf h4' hm1
      exact ⟨⟨hm2.agree, hm2.hdr_le, hm2.body_eq, fun ht => absurd (h4'.symm.trans ht) (by decide)⟩, hl2⟩
  obtain ⟨seg2, hok2, hm2, hl2⟩ := hl4
  have hlen2 : ipLen (isV6 first) seg2 = seg2.length := by
    rw [hl2, hl1, hm2.length_eq, hml]
  obtain ⟨seg3, hok3, hm3, hl3⟩ := recomputeL4Checksum_merged cs hf hm2 hlen2
  refine ⟨seg3, ?_, hm3, ?_⟩
  · rw [hml, hcl] at hok1
    rw [← hok2] at hok3
    unfold splitSegment
    show Except.bind (if byteAt buf 0 >>> 4 = 4 then _ else _) _ = _
    rw [optionsFor_hdrLen, optionsFor_gsoSize, optionsFor_csumStart, ← hchunk, hok1]
    exact hok3
  · rw [Sized, hm3.totalLen_eq hf, hl3, hm3.length_eq, hm2.length_eq]

/-! ### All segments -/

/-- A packet cut from a merged buffer: the chunk at place `i`, behind the headers of the first
packet. -/
structure Cut (first : Packet) (seq : UInt32) (gsoSize : Nat) (chunk : List UInt8 × Nat) (seg : Packet) :
    Prop where
  merged : Merged first (seq + UInt32.ofNat gsoSize * UInt32.ofNat chunk.2) chunk.1 seg
  sized : Sized seg

variable (cs) in
/-- The loop of `gso_split` from a place on. -/
theorem splitLoop_merged {buf : Packet} {body : List UInt8} {gsoSize : Nat} (hf : Framed first)
    (h : Merged first seq body buf) (hpos : 0 < gsoSize)
    (hmax : hdrLen first + gsoSize ≤ maxIpPacketLen) (fuel next i : Nat)
    (hfuel : buf.length ≤ next + fuel) :
    ∃ segs, splitLoop cs buf (optionsFor first gsoSize) fuel next i = some (.ok segs) ∧
      List.Forall₂ (Cut first seq gsoSize) ((chunks gsoSize (buf.drop next)).zipIdx i) segs := by
  induction fuel generalizing next i with
  | zero =>
    refine ⟨[], ?_, ?_⟩
    · rw [splitLoop, if_neg (by omega)]
    · rw [List.drop_of_length_le (by omega)]
      exact .nil
  | succ fuel ih =>
    by_cases hlt : next < buf.length
    · obtain ⟨seg, hseg, hm, hs⟩ := splitSegment_merged cs hf h hmax next i
      obtain ⟨segs, hsegs, hcut⟩ := ih (next + gsoSize) (i + 1) (by omega)
      refine ⟨seg :: segs, ?_, ?_⟩
      · rw [splitLoop, if_pos hlt, hseg]
        simp only [optionsFor_gsoSize, hsegs]
        rfl
      · have hne : buf.drop next ≠ [] := by
          rw [← List.length_pos_iff, List.length_drop]
          omega
        rw [chunks_of_ne_nil hpos hne, List.zipIdx_cons, List.drop_drop]
        refine .cons ⟨?_, hs⟩ hcut
        have hslice : slice buf next (min (next + gsoSize) buf.length) =
            (buf.drop next).take gsoSize := by
          rw [slice, List.take_eq_take_iff, List.length_drop]
          omega
        rw [← hslice]
        exact hm
    · refine ⟨[], ?_, ?_⟩
      · rw [splitLoop, if_neg hlt]
      · rw [List.drop_of_length_le (by omega)]
        exact .nil

variable (cs) in
/-- `gso_split` cuts a merged buffer into the chunks of what is behind its headers. -/
theorem gsoSplit_merged {buf : Packet} {body : List UInt8} {gsoSize : Nat} (hf : Framed first)
    (h : Merged first seq body buf) (hpos : 0 < gsoSize)
    (hmax : hdrLen first + gsoSize ≤ maxIpPacketLen) (hlong : gsoSize < body.length) :
    ∃ segs, gsoSplit cs buf (optionsFor first gsoSize) = some (.ok segs) ∧
      List.Forall₂ (Cut first seq gsoSize) (chunks gsoSize body).zipIdx segs := by
  have hge : iphLen first + 8 ≤ hdrLen first := hf.valid.hdr_ge
  have hiph : 20 ≤ iphLen first := hf.valid.iph
  have hlen := h.length_eq
  have hv : byteAt buf 0 >>> 4 = if isV6 first then 6 else 4 := by
    rw [byteAt_zero_of_agree hf h.agree, hf.version]
  obtain ⟨segs, hsegs, hcut⟩ := splitLoop_merged cs hf h hpos hmax buf.length (hdrLen first) 0
    (by omega)
  rw [h.body_eq] at hcut
  refine ⟨segs, ?_, hcut⟩
  have hcheck : checkSplit buf (optionsFor first gsoSize) = .ok () := by
    unfold checkSplit
    rw [optionsFor_hdrLen, optionsFor_csumStart, if_neg (by omega), hv]
    rcases hf.valid.l4 with h4 | h4
    · have h4' : classifyForGro first = .tcp := h4
      have hhdr : iphLen first + 20 ≤ hdrLen first := hf.valid.tcp h4
      cases h6 : isV6 first with
      | true =>
        have h40 : iphLen first = 40 := hf.valid.v6 h6
        simp [optionsFor, h4', h6, show ¬ buf.length < 40 by omega, Except.bind,
          show ¬ buf.length < iphLen first + 20 by omega]
      | false =>
        simp [optionsFor, h4', h6, show ¬ buf.length < 20 by omega, Except.bind,
          show ¬ buf.length < iphLen first + 20 by omega]
    · have h4' : classifyForGro first = .udp := h4
      cases h6 : isV6 first with
      | true =>
        have h40 : iphLen first = 40 := hf.valid.v6 h6
        simp [optionsFor, h4', show ¬ buf.length < 40 by omega, Except.bind]
      | false => simp [optionsFor, h4', show ¬ buf.length < 20 by omega, Except.bind]
  have hcsum : ¬ (optionsFor first gsoSize).csumStart + (optionsFor first gsoSize).csumOffset + 1 ≥
      buf.length := by
    show ¬ iphLen first + (if classifyForGro first = .tcp then 16 else 6) + 1 ≥ buf.length
    rcases hf.valid.l4 with h4 | h4
    · have hhdr : iphLen first + 20 ≤ hdrLen first := hf.valid.tcp h4
      rw [if_pos (show classifyForGro first = .tcp from h4)]
      omega
    · rw [if_neg (by simp [show classifyForGro first = .udp from h4])]
      omega
  have htype : ¬ ((optionsFor first gsoSize).gsoType = .none ∨
      buf.length - hdrLen first ≤ max gsoSize 1) := by
    rw [not_or]
    refine ⟨?_, by omega⟩
    unfold optionsFor
    dsimp only
    split
    · split <;> decide
    · decide
  unfold gsoSplit
  rw [if_neg hcsum, optionsFor_hdrLen, optionsFor_gsoSize, if_neg (by omega)]
  dsimp only
  rw [if_neg htype, hcheck]
  exact hsegs

end WutherCore.Capture.Gro
