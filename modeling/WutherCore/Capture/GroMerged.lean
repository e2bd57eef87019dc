import Mathlib.Data.FinEnum
import WutherCore.Capture.GroPackets

/-!
# Merged buffers

A buffer made from packets of one flow has the headers of the first packet and, behind them, what
stands behind the headers of each (`Merged`).  The steps of `coalesce` and `coalesce_udp` keep this, and
`gso_split` cuts from it packets that again have the headers of the first (`Cut`, `gsoSplit_merged`).
-/

namespace WutherCore.Capture.Gro

open WutherCore.Data

/-! ### Flags -/

theorem and_fin_eq (b : UInt8) : b &&& tcpFlagFin = b &&& ~~~tcpFlagPsh &&& tcpFlagFin := by
  revert b
  decide +kernel

theorem or_psh_and (b : UInt8) : (b ||| tcpFlagPsh) &&& ~~~tcpFlagPsh = b &&& ~~~tcpFlagPsh := by
  revert b
  decide +kernel

theorem clear_and {b : UInt8} (h : b &&& tcpFlagFin = 0) :
    b &&& ~~~(tcpFlagFin ||| tcpFlagPsh) &&& ~~~tcpFlagPsh = b &&& ~~~tcpFlagPsh := by
  revert b
  decide +kernel

/-! ### Packets with the headers of another -/

namespace Agree

variable {s : Shape} {p q : Packet}

theorem byteAt_ip (h : Agree s p q) (hs : s.Valid) {i : Nat} (hi : i < s.iph)
    (hfix : if s.isV6 then i < 4 ∨ 6 ≤ i else i < 2 ∨ 6 ≤ i ∧ i < 10 ∨ 12 ≤ i) :
    byteAt p i = byteAt q i := by
  have hge := hs.hdr_ge
  refine h.byteAt_eq (by omega) ?_ fun _ => by omega
  rcases hs.l4 with h4 | h4 <;> cases h6 : s.isV6 <;>
    simp [h6] at hfix <;> simp [Shape.volatile, h4, h6] <;> omega

theorem byteAt_l4 (h : Agree s p q) (hs : s.Valid) {k : Nat}
    (hk : k < 4 ∨ s.l4 = .tcp ∧ 8 ≤ k ∧ k < 13) : byteAt p (s.iph + k) = byteAt q (s.iph + k) := by
  have hge := hs.hdr_ge
  have hiph := hs.iph
  have hlt : s.iph + k < s.hdr := by
    rcases hk with hk | ⟨ht, -, hk⟩
    · omega
    · have := hs.tcp ht
      omega
  refine h.byteAt_eq hlt ?_ fun _ => by omega
  rcases hs.l4 with h4 | h4 <;> cases h6 : s.isV6 <;>
    simp [h4] at hk <;> simp [Shape.volatile, h4, h6] <;> omega

end Agree

section Same

variable {p q : Packet} (hp : Framed p) (h : Agree (shapeOf p) p q)

include hp h

theorem byteAt_zero_of_agree : byteAt q 0 = byteAt p 0 := by
  refine (h.byteAt_ip hp.valid (Nat.lt_of_lt_of_le (by decide) hp.valid.iph) ?_).symm
  split <;> simp

theorem isV6_of_agree : isV6 q = isV6 p := by
  simp only [isV6, byteAt_zero_of_agree hp h]

theorem iphLen_of_agree : iphLen q = iphLen p := by
  simp only [iphLen, isV6_of_agree hp h, byteAt_zero_of_agree hp h]

variable (hlen : hdrLen p ≤ q.length)

include hlen

theorem classifyForGro_of_agree : classifyForGro q = classifyForGro p := by
  have hiph : 20 ≤ iphLen p := hp.valid.iph
  have hge : iphLen p + 8 ≤ hdrLen p := hp.valid.hdr_ge
  have hplen := hp.hdr_lt.trans_le hp.total_le
  have hv := hp.version
  have hpe : p.isEmpty = false := by
    rw [List.isEmpty_eq_false_iff, ← List.length_pos_iff]
    omega
  have hqe : q.isEmpty = false := by
    rw [List.isEmpty_eq_false_iff, ← List.length_pos_iff]
    omega
  unfold classifyForGro
  rw [byteAt_zero_of_agree hp h, hpe, hqe]
  cases h6 : isV6 p with
  | true =>
    have h40 : iphLen p = 40 := hp.valid.v6 h6
    have hproto : byteAt p 6 = byteAt q 6 := by
      refine h.byteAt_ip hp.valid (show 6 < iphLen p by omega) ?_
      simp [show (shapeOf p).isV6 = true from h6]
    rw [h6] at hv
    simp [hv, show 40 ≤ p.length by omega, show 40 ≤ q.length by omega, hproto]
  | false =>
    have hproto : byteAt p 9 = byteAt q 9 := by
      refine h.byteAt_ip hp.valid (show 9 < iphLen p by omega) ?_
      simp [show (shapeOf p).isV6 = false from h6]
    rw [h6] at hv
    simp [hv, show 20 ≤ p.length by omega, show 20 ≤ q.length by omega, hproto]

theorem hdrLen_of_agree : hdrLen q = hdrLen p := by
  unfold hdrLen l4Len
  rw [classifyForGro_of_agree hp h hlen, iphLen_of_agree hp h]
  rcases hp.valid.l4 with h4 | h4
  · have h12 := h.byteAt_l4 hp.valid (k := 12) (.inr ⟨h4, by decide, by decide⟩)
    rw [show classifyForGro p = .tcp from h4, show byteAt q (iphLen p + 12) = _ from h12.symm]
    rfl
  · rw [show classifyForGro p = .udp from h4]

theorem shapeOf_of_agree : shapeOf q = shapeOf p := by
  unfold shapeOf
  rw [classifyForGro_of_agree hp h hlen, isV6_of_agree hp h, iphLen_of_agree hp h,
    hdrLen_of_agree hp h hlen]

theorem headerFields_of_agree : headerFields q = headerFields p := by
  unfold headerFields
  rw [shapeOf_of_agree hp h hlen, hdrLen_of_agree hp h hlen]
  refine List.map_congr_left fun i hi => ?_
  exact (h i (List.mem_range.1 hi)).symm

theorem flowOf_of_agree : flowOf q = flowOf p := by
  have hge : iphLen p + 8 ≤ hdrLen p := hp.valid.hdr_ge
  have hplen := hp.hdr_lt.trans_le hp.total_le
  have hsrcport : beAt 2 q (iphLen p) = beAt 2 p (iphLen p) :=
    beAt_congr (by omega) (by omega) fun k hk hk' => by
      have hb := h.byteAt_l4 hp.valid (k := k - iphLen p) (.inl (by omega))
      rw [show (shapeOf p).iph + (k - iphLen p) = k from Nat.add_sub_cancel' hk] at hb
      exact hb.symm
  have hdstport : beAt 2 q (iphLen p + 2) = beAt 2 p (iphLen p + 2) :=
    beAt_congr (by omega) (by omega) fun k hk hk' => by
      have hb := h.byteAt_l4 hp.valid (k := k - iphLen p) (.inl (by omega))
      rw [show (shapeOf p).iph + (k - iphLen p) = k from Nat.add_sub_cancel' (show iphLen p ≤ k by omega)] at hb
      exact hb.symm
  have haddr : ∀ i j, j ≤ iphLen p → (if isV6 p then 6 ≤ i else 12 ≤ i) →
      slice q i j = slice p i j := fun i j hj hi =>
    slice_congr (by omega) (by omega) fun k hk hk' => by
      refine (h.byteAt_ip hp.valid (show k < iphLen p by omega) ?_).symm
      show if isV6 p then k < 4 ∨ 6 ≤ k else k < 2 ∨ 6 ≤ k ∧ k < 10 ∨ 12 ≤ k
      split at hi
      · next h6 =>
        rw [if_pos h6]
        omega
      · next h6 =>
        rw [if_neg h6]
        omega
  unfold flowOf srcAddr dstAddr
  rw [classifyForGro_of_agree hp h hlen, isV6_of_agree hp h, iphLen_of_agree hp h, hsrcport, hdstport]
  cases h6 : isV6 p with
  | true =>
    have h40 : iphLen p = 40 := hp.valid.v6 h6
    simp [haddr 8 24 (by omega) (by simp [h6]), haddr 24 40 (by omega) (by simp [h6])]
  | false =>
    have hiph : 20 ≤ iphLen p := hp.valid.iph
    simp [haddr 12 16 (by omega) (by simp [h6]), haddr 16 20 (by omega) (by simp [h6])]

end Same

/-! ### Buffers with the headers of a packet -/

/-- A buffer with the header fields of a packet, for TCP with a given sequence number, and with given
bytes behind the headers. -/
structure Merged (first : Packet) (seq : UInt32) (body : List UInt8) (buf : Packet) : Prop where
  agree : Agree (shapeOf first) first buf
  hdr_le : hdrLen first ≤ buf.length
  body_eq : buf.drop (hdrLen first) = body
  seq_eq : classifyForGro first = .tcp → UInt32.ofNat (beAt 4 buf (iphLen first + 4)) = seq

/-- The length of a packet by the IP header of the given version. -/
def ipLen (v6 : Bool) (buf : Packet) : Nat := if v6 then 40 + beAt 2 buf 4 else beAt 2 buf 2

theorem ipLen_writeAt {v6 : Bool} {buf bytes : List UInt8} {off : Nat} (hoff : 6 ≤ off)
    (hlen : off + bytes.length ≤ buf.length) : ipLen v6 (writeAt buf off bytes) = ipLen v6 buf := by
  unfold ipLen
  rw [beAt_writeAt_of_disjoint hlen (by omega), beAt_writeAt_of_disjoint hlen (by omega)]

theorem ipLen_putBE {v6 : Bool} {buf : List UInt8} {n off v : Nat} (hoff : 6 ≤ off)
    (hlen : off + n ≤ buf.length) : ipLen v6 (putBE n buf off v) = ipLen v6 buf :=
  ipLen_writeAt hoff (by simpa using hlen)

namespace Merged

variable {first : Packet} {seq seq' : UInt32} {body : List UInt8} {buf : Packet}

theorem refl (hf : Framed first) : Merged first (seqOf first) (first.drop (hdrLen first)) first where
  agree := Agree.refl _ _
  hdr_le := (hf.hdr_lt.trans_le hf.total_le).le
  body_eq := rfl
  seq_eq _ := rfl

theorem length_eq (h : Merged first seq body buf) : buf.length = hdrLen first + body.length := by
  have hle := h.hdr_le
  rw [← h.body_eq, List.length_drop]
  omega

theorem totalLen_eq (hf : Framed first) (h : Merged first seq body buf) :
    totalLen buf = ipLen (isV6 first) buf := by
  rw [totalLen, isV6_of_agree hf h.agree, ipLen]

theorem segment_eq (hf : Framed first) (h : Merged first seq body buf) (hs : Sized buf) :
    segment buf =
      if classifyForGro first = .tcp then .tcp (flowOf first) seq body
      else .udp (flowOf first) body := by
  have hpay : payloadOf buf = body := by
    rw [payloadOf, hs, hdrLen_of_agree hf h.agree h.hdr_le, ← h.body_eq, slice,
      List.take_of_length_le (by rw [List.length_drop])]
  unfold segment
  rw [classifyForGro_of_agree hf h.agree h.hdr_le, flowOf_of_agree hf h.agree h.hdr_le, hpay]
  rcases hf.valid.l4 with h4 | h4
  · have h4' : classifyForGro first = .tcp := h4
    have hseq : seqOf buf = seq := by
      rw [seqOf, iphLen_of_agree hf h.agree, h.seq_eq h4']
    simp [h4', hseq]
  · have h4' : classifyForGro first = .udp := h4
    simp [h4']

theorem append (hf : Framed first) (h : Merged first seq body buf) (more : List UInt8) :
    Merged first seq (body ++ more) (buf ++ more) where
  agree := h.agree.trans (Agree.append h.hdr_le more)
  hdr_le := by
    rw [List.length_append]
    exact h.hdr_le.trans (Nat.le_add_right _ _)
  body_eq := by rw [List.drop_append_of_le_length h.hdr_le, h.body_eq]
  seq_eq htcp := by
    have hhdr : iphLen first + 20 ≤ hdrLen first := hf.valid.tcp htcp
    have hle := h.hdr_le
    rw [beAt_append_left (by omega), h.seq_eq htcp]

theorem recut (hf : Framed first) (h : Merged first seq body buf) (chunk : List UInt8) :
    Merged first seq chunk (buf.take (hdrLen first) ++ chunk) := by
  have hlen : (buf.take (hdrLen first)).length = hdrLen first := by
    rw [List.length_take]
    exact Nat.min_eq_left h.hdr_le
  have htake : buf.take (hdrLen first) ++ buf.drop (hdrLen first) = buf := List.take_append_drop _ _
  have hbare : Merged first seq [] (buf.take (hdrLen first)) := by
    refine ⟨h.agree.trans ?_, hlen.ge, List.drop_of_length_le hlen.le, fun htcp => ?_⟩
    · have happ := Agree.append (s := shapeOf first) (p := buf.take (hdrLen first)) hlen.ge
        (buf.drop (hdrLen first))
      rw [htake] at happ
      exact happ.symm
    · have hhdr : iphLen first + 20 ≤ hdrLen first := hf.valid.tcp htcp
      have happ : beAt 4 (buf.take (hdrLen first) ++ buf.drop (hdrLen first)) (iphLen first + 4) =
          beAt 4 (buf.take (hdrLen first)) (iphLen first + 4) := beAt_append_left (by omega)
      rw [htake] at happ
      rw [← happ, h.seq_eq htcp]
  exact hbare.append hf chunk

theorem writeAt (h : Merged first seq body buf) {off : Nat} {bytes : List UInt8}
    (hin : off + bytes.length ≤ hdrLen first)
    (hagree : Agree (shapeOf first) buf (Data.writeAt buf off bytes))
    (hseq : classifyForGro first = .tcp →
      iphLen first + 8 ≤ off ∨ off + bytes.length ≤ iphLen first + 4) :
    Merged first seq body (Data.writeAt buf off bytes) where
  agree := h.agree.trans hagree
  hdr_le := by
    rw [length_writeAt (hin.trans h.hdr_le)]
    exact h.hdr_le
  body_eq := by rw [drop_writeAt (hin.trans h.hdr_le) hin, h.body_eq]
  seq_eq htcp := by
    have hdisj := hseq htcp
    rw [beAt_writeAt_of_disjoint (hin.trans h.hdr_le) (by omega), h.seq_eq htcp]

theorem putBE (h : Merged first seq body buf) {n off v : Nat} (hin : off + n ≤ hdrLen first)
    (hv : ∀ i, off ≤ i → i < off + n → (shapeOf first).volatile i = true)
    (hseq : classifyForGro first = .tcp → iphLen first + 8 ≤ off ∨ off + n ≤ iphLen first + 4) :
    Merged first seq body (Data.putBE n buf off v) :=
  h.writeAt (by simpa using hin) (Agree.putBE (hin.trans h.hdr_le) hv) (by simpa using hseq)

theorem putIp (hf : Framed first) (h : Merged first seq body buf) {off v : Nat}
    (hoff : if isV6 first then off = 4 else off = 2 ∨ off = 4 ∨ off = 10) :
    Merged first seq body (Data.putBE 2 buf off v) := by
  have hiph : 20 ≤ iphLen first := hf.valid.iph
  have hge : iphLen first + 8 ≤ hdrLen first := hf.valid.hdr_ge
  have hlt : off + 2 ≤ 20 := by
    split at hoff <;> omega
  refine h.putBE (by omega) (fun i hi hi' => ?_) fun _ => .inr (by omega)
  cases h6 : isV6 first with
  | true =>
    simp only [h6, if_true] at hoff
    simp only [Shape.volatile, show (shapeOf first).isV6 = true from h6, if_true]
    simp
    omega
  | false =>
    simp only [h6, Bool.false_eq_true, if_false] at hoff
    simp only [Shape.volatile, show (shapeOf first).isV6 = false from h6, Bool.false_eq_true, if_false]
    simp
    omega

theorem updateIpLen (hf : Framed first) (h : Merged first seq body buf) :
    Merged first seq body (updateIpLen (isV6 first) buf) := by
  unfold Gro.updateIpLen
  split
  · next h6 => exact h.putIp hf (by simp [h6])
  · next h6 => exact h.putIp hf (by simp [h6])

theorem ipLen_updateIpLen (hf : Framed first) (h : Merged first seq body buf)
    (hlen : buf.length ≤ maxIpPacketLen) :
    ipLen (isV6 first) (Gro.updateIpLen (isV6 first) buf) = buf.length := by
  have hiph : 20 ≤ iphLen first := hf.valid.iph
  have hge : iphLen first + 8 ≤ hdrLen first := hf.valid.hdr_ge
  have hle := h.hdr_le
  unfold maxIpPacketLen at hlen
  unfold Gro.updateIpLen ipLen
  cases h6 : isV6 first with
  | true =>
    have h40 : iphLen first = 40 := hf.valid.v6 h6
    simp only [if_true]
    rw [beAt_putBE_u16 (by omega), ipv6HeaderFixed]
    omega
  | false =>
    simp only [Bool.false_eq_true, if_false]
    rw [beAt_putBE_u16 (by omega)]
    omega

theorem putL4 (hf : Framed first) (h : Merged first seq body buf) {k v : Nat}
    (hk : if classifyForGro first = .tcp then k = 16 else k = 4 ∨ k = 6) :
    Merged first seq body (Data.putBE 2 buf (iphLen first + k) v) := by
  rcases hf.valid.l4 with h4 | h4
  · have h4' : classifyForGro first = .tcp := h4
    have hhdr : iphLen first + 20 ≤ hdrLen first := hf.valid.tcp h4
    rw [if_pos h4'] at hk
    refine h.putBE (by omega) (fun i hi hi' => ?_) fun _ => .inl (by omega)
    simp [Shape.volatile, h4, show (shapeOf first).iph = iphLen first from rfl]
    omega
  · have h4' : classifyForGro first = .udp := h4
    have hhdr : iphLen first + 8 = hdrLen first := hf.valid.udp h4
    rw [if_neg (by simp [h4'])] at hk
    refine h.putBE (by omega) (fun i hi hi' => ?_) fun ht => absurd (h4'.symm.trans ht) (by decide)
    simp [Shape.volatile, h4, show (shapeOf first).iph = iphLen first from rfl]
    omega

theorem writeFlags (hf : Framed first) (h : Merged first seq body buf)
    (htcp : classifyForGro first = .tcp) {b : UInt8}
    (hb : b &&& ~~~tcpFlagPsh = byteAt buf (iphLen first + 13) &&& ~~~tcpFlagPsh) :
    Merged first seq body (Data.writeAt buf (iphLen first + 13) [b]) := by
  have hhdr : iphLen first + 20 ≤ hdrLen first := hf.valid.tcp htcp
  have hle := h.hdr_le
  exact h.writeAt (by simp; omega) (Agree.writeFlags htcp (show iphLen first + 13 < _ by omega) hb)
    fun _ => .inl (by omega)

theorem fin_clear (hf : Framed first) (h : Merged first seq body buf)
    (htcp : classifyForGro first = .tcp) : byteAt buf (iphLen first + 13) &&& tcpFlagFin = 0 := by
  have hhdr : iphLen first + 20 ≤ hdrLen first := hf.valid.tcp htcp
  have hm := h.agree (iphLen first + 13) (show _ < hdrLen first by omega)
  have hv : (shapeOf first).volatile (iphLen first + 13) = false := by
    have hiph : 20 ≤ iphLen first := hf.valid.iph
    cases h6 : isV6 first <;>
      simp [Shape.volatile, show (shapeOf first).l4 = .tcp from htcp,
        show (shapeOf first).isV6 = _ from h6, show (shapeOf first).iph = iphLen first from rfl]
  have hmask : ∀ b, (shapeOf first).mask (iphLen first + 13) b = b &&& ~~~tcpFlagPsh := by
    intro b
    simp [Shape.mask, hv, show (shapeOf first).l4 = .tcp from htcp,
      show (shapeOf first).iph = iphLen first from rfl]
  rw [hmask, hmask] at hm
  rw [and_fin_eq, ← hm, ← and_fin_eq, hf.fin htcp]

theorem putSeq (hf : Framed first) (h : Merged first seq body buf)
    (htcp : classifyForGro first = .tcp) :
    Merged first seq' body (Data.putBE 4 buf (iphLen first + 4) seq'.toNat) where
  agree := by
    have hhdr : iphLen first + 20 ≤ hdrLen first := hf.valid.tcp htcp
    have hle := h.hdr_le
    refine h.agree.trans (Agree.putBE (by omega) fun i hi hi' => ?_)
    simp [Shape.volatile, show (shapeOf first).l4 = .tcp from htcp,
      show (shapeOf first).iph = iphLen first from rfl]
    omega
  hdr_le := by
    have hhdr : iphLen first + 20 ≤ hdrLen first := hf.valid.tcp htcp
    have hle := h.hdr_le
    rw [length_putBE (by omega)]
    exact hle
  body_eq := by
    have hhdr : iphLen first + 20 ≤ hdrLen first := hf.valid.tcp htcp
    have hle := h.hdr_le
    rw [drop_putBE (by omega) (by omega), h.body_eq]
  seq_eq _ := by
    have hhdr : iphLen first + 20 ≤ hdrLen first := hf.valid.tcp htcp
    have hle := h.hdr_le
    rw [beAt_putBE_self (by omega) seq'.toNat_lt, UInt32.ofNat_toNat]

end Merged

/-! ### Coalescing -/

theorem merged_coalesce {first : Packet} {seq : UInt32} {body : List UInt8} {item : TcpGroItem}
    (pkt : Packet) (parsed : ParsedTcpIp) (hf : Framed first) (htcp : classifyForGro first = .tcp)
    (h : Merged first seq body item.buffer) (hiph : item.iphLen = iphLen first)
    (hv : parsed.isV6 = isV6 first) :
    Merged first seq (body ++ pkt.drop (parsed.iphLen + parsed.tcphLen)) (coalesce item pkt parsed).buffer ∧
      ((coalesce item pkt parsed).buffer.length ≤ maxIpPacketLen →
        Sized (coalesce item pkt parsed).buffer) := by
  have happ := h.append hf (pkt.drop (parsed.iphLen + parsed.tcphLen))
  have hup := happ.updateIpLen hf
  have hlen : (updateIpLen (isV6 first) (item.buffer ++ pkt.drop (parsed.iphLen + parsed.tcphLen))).length =
      (item.buffer ++ pkt.drop (parsed.iphLen + parsed.tcphLen)).length := by
    rw [hup.length_eq, happ.length_eq]
  unfold coalesce
  simp only [hv, hiph]
  split
  · have hhdr : iphLen first + 20 ≤ hdrLen first := hf.valid.tcp htcp
    have hle := hup.hdr_le
    have hw := hup.writeFlags hf htcp (or_psh_and _)
    refine ⟨hw, fun hmax => ?_⟩
    rw [length_writeAt (by simp; omega), hlen] at hmax
    rw [Sized, hw.totalLen_eq hf, ipLen_writeAt (by omega) (by simp; omega),
      happ.ipLen_updateIpLen hf hmax, length_writeAt (by simp; omega), hlen]
  · refine ⟨hup, fun hmax => ?_⟩
    rw [hlen] at hmax
    rw [Sized, hup.totalLen_eq hf, happ.ipLen_updateIpLen hf hmax, hlen]

/-- `coalesce_udp` appends what is behind the headers of the packet, and sets both lengths. -/
theorem merged_coalesceUdp {first : Packet} {seq : UInt32} {body : List UInt8} {item : UdpGroItem}
    (pkt : Packet) (parsed : ParsedUdpIp) (hf : Framed first) (hudp : classifyForGro first = .udp)
    (h : Merged first seq body item.buffer) (hiph : item.iphLen = iphLen first)
    (hv : parsed.isV6 = isV6 first) :
    Merged first seq (body ++ pkt.drop (parsed.iphLen + udpHeaderLen)) (coalesceUdp item pkt parsed).buffer ∧
      ((coalesceUdp item pkt parsed).buffer.length ≤ maxIpPacketLen →
        Sized (coalesceUdp item pkt parsed).buffer ∧
          beAt 2 (coalesceUdp item pkt parsed).buffer (iphLen first + 4) =
            (coalesceUdp item pkt parsed).buffer.length - iphLen first) := by
  have happ := h.append hf (pkt.drop (parsed.iphLen + udpHeaderLen))
  have hup := happ.updateIpLen hf
  have hlen : (updateIpLen (isV6 first) (item.buffer ++ pkt.drop (parsed.iphLen + udpHeaderLen))).length =
      (item.buffer ++ pkt.drop (parsed.iphLen + udpHeaderLen)).length := by
    rw [hup.length_eq, happ.length_eq]
  have hhdr : iphLen first + 8 = hdrLen first := hf.valid.udp hudp
  have hiph20 : 20 ≤ iphLen first := hf.valid.iph
  have hle := hup.hdr_le
  have hw : ∀ v, Merged first seq (body ++ pkt.drop (parsed.iphLen + udpHeaderLen))
      (putBE 2 (updateIpLen (isV6 first) (item.buffer ++ pkt.drop (parsed.iphLen + udpHeaderLen)))
        (iphLen first + 4) v) := fun v => hup.putL4 hf (by simp [hudp])
  unfold coalesceUdp
  simp only [hv, hiph]
  refine ⟨hw _, fun hmax => ?_⟩
  rw [length_putBE (by omega), hlen] at hmax
  constructor
  · rw [Sized, (hw _).totalLen_eq hf, ipLen_putBE (by omega) (by omega),
      happ.ipLen_updateIpLen hf hmax, length_putBE (by omega), hlen]
  · rw [beAt_putBE_u16 (by omega), length_putBE (by omega), hlen]
    unfold maxIpPacketLen at hmax
    omega

end WutherCore.Capture.Gro
