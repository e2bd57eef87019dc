import WutherCore.Capture.Translation

/-!
# Resets of the system stack

A reset for a segment without an acknowledgement acknowledges all that is in the segment, its flags
included; the reset for a segment with one takes its sequence number from there and acknowledges nothing
(`buildTcpRst_spec`).  The stack's translation and its resets together are `stack_sound`.
-/

namespace WutherCore.Capture.SystemStack

open WutherCore.Net WutherCore.Data
open WutherCore.Text (toBytesBE)
open Gso (fillChecksum internetChecksum ipv4HeaderLen internetChecksum_putBE)

/-! ### Fields of what is written -/

section Fields

variable {buf front : List UInt8} {off n v : Nat}

theorem beAt_of_append (pre post : List UInt8) (hbuf : buf = pre ++ (toBytesBE n v ++ post))
    (hoff : pre.length = off) (hv : v < 256 ^ n) : beAt n buf off = v := by
  unfold beAt
  rw [hbuf, slice_middle hoff (by rw [Text.toBytesBE_length]), Text.ofBytesBE_toBytesBE hv]

theorem internetChecksum_fill (hfront : front.length % 2 = 0) (heven : off % 2 = 0)
    (h : off + 2 ≤ buf.length) (hlen : front.length + buf.length < 2 ^ 17) :
    internetChecksum (front ++ fillChecksum buf off fun p => internetChecksum (front ++ p)) = 0 := by
  unfold fillChecksum
  dsimp only
  rw [putBE_putBE h]
  exact internetChecksum_putBE hfront heven h hlen

end Fields

/-- What the emitter of a header writes for a layout. -/
structure Emits (layout : IpLayout) (emitIp : Nat → Nat → Nat → List UInt8) : Prop where
  length : ∀ src dst len, (emitIp src dst len).length = layout.fixedLen
  srcAddr : ∀ src dst len, src < 256 ^ layout.addrLen →
    beAt layout.addrLen (emitIp src dst len) layout.srcOff = src
  dstAddr : ∀ src dst len, dst < 256 ^ layout.addrLen →
    beAt layout.addrLen (emitIp src dst len) layout.dstOff = dst
  checksum : ∀ src dst len, byteAt (emitIp src dst len) 0 >>> 4 = 4 →
    internetChecksum (emitIp src dst len) = 0

theorem internetChecksum_emitIpv4 (src dst len : Nat) : internetChecksum (emitIpv4 src dst len) = 0 := by
  let raw : List UInt8 := [0x45, 0] ++ (toBytesBE 2 (20 + len) ++
    ([0, 0, 0x40, 0, 64, 6, 0, 0] ++ (toBytesBE 4 src ++ toBytesBE 4 dst)))
  have hlen : raw.length = 20 := by simp [raw]
  have hnil : ([] : List UInt8).length = 0 := rfl
  have hfill : internetChecksum ([] ++ fillChecksum raw 10 fun p => internetChecksum ([] ++ p)) = 0 :=
    internetChecksum_fill (by omega) (by decide) (by omega) (by omega)
  exact hfill

theorem emits_emitIpv4 : Emits ipv4Layout emitIpv4 := by
  have hfill : ∀ src dst len, 10 + 2 ≤ ([0x45, 0] ++ (toBytesBE 2 (20 + len) ++
      ([0, 0, 0x40, 0, 64, 6, 0, 0] ++ (toBytesBE 4 src ++ toBytesBE 4 dst)))).length := by
    intro src dst len
    simp
  constructor
  · intro src dst len
    exact (length_fillChecksum (hfill src dst len) _).trans (by simp [ipv4Layout])
  · intro src dst len hsrc
    refine (beAt_fillChecksum (hfill src dst len) _ (.inr (by decide))).trans ?_
    exact beAt_of_append ([0x45, 0] ++ (toBytesBE 2 (20 + len) ++ [0, 0, 0x40, 0, 64, 6, 0, 0]))
      (toBytesBE 4 dst) (by simp [ipv4Layout]) (by simp [ipv4Layout]) hsrc
  · intro src dst len hdst
    refine (beAt_fillChecksum (hfill src dst len) _ (.inr (by decide))).trans ?_
    exact beAt_of_append
      ([0x45, 0] ++ (toBytesBE 2 (20 + len) ++ ([0, 0, 0x40, 0, 64, 6, 0, 0] ++ toBytesBE 4 src))) []
      (by simp [ipv4Layout]) (by simp [ipv4Layout]) hdst
  · exact fun src dst len _ => internetChecksum_emitIpv4 src dst len

theorem emits_emitIpv6 : Emits ipv6Layout emitIpv6 := by
  constructor
  · intro src dst len
    simp [emitIpv6, ipv6Layout]
  · intro src dst len hsrc
    exact beAt_of_append ([0x60, 0, 0, 0] ++ (toBytesBE 2 len ++ [6, 64])) (toBytesBE 16 dst)
      (by simp [emitIpv6, ipv6Layout]) (by simp [ipv6Layout]) hsrc
  · intro src dst len hdst
    exact beAt_of_append ([0x60, 0, 0, 0] ++ (toBytesBE 2 len ++ ([6, 64] ++ toBytesBE 16 src))) []
      (by simp [emitIpv6, ipv6Layout]) (by simp [ipv6Layout]) hdst
  · intro src dst len h4
    exact absurd (show (0x60 : UInt8) >>> 4 = 4 from h4) (by decide)

/-! ### The segment of a reset -/

/-- The fields of the segment. -/
structure RstFields (tcp : List UInt8) (srcPort dstPort seqNumber : Nat) (ackNumber : Option Nat) :
    Prop where
  length : tcp.length = 20
  sourcePort : beAt 2 tcp 0 = srcPort
  destinationPort : beAt 2 tcp 2 = dstPort
  seq : beAt 4 tcp 4 = seqNumber
  ack : beAt 4 tcp 8 = ackNumber.getD 0
  hasRst : tcpHas rstFlag tcp = true
  hasAck : tcpHas ackFlag tcp = ackNumber.isSome

theorem emitRst_fields {front : List UInt8} {srcPort dstPort seqNumber : Nat} {ackNumber : Option Nat}
    (hsrc : srcPort < 2 ^ 16) (hdst : dstPort < 2 ^ 16) (hseq : seqNumber < 2 ^ 32)
    (hack : ackNumber.getD 0 < 2 ^ 32) :
    RstFields (emitRst front srcPort dstPort seqNumber ackNumber) srcPort dstPort seqNumber ackNumber := by
  let raw : List UInt8 := toBytesBE 2 srcPort ++ (toBytesBE 2 dstPort ++ (toBytesBE 4 seqNumber ++
    (toBytesBE 4 (ackNumber.getD 0) ++
      [0x50, if ackNumber.isSome then rstFlag ||| ackFlag else rstFlag, 0, 0, 0, 0, 0, 0])))
  have hlen : raw.length = 20 := by simp [raw]
  have hfill : 16 + 2 ≤ raw.length := by omega
  have hflags : byteAt (emitRst front srcPort dstPort seqNumber ackNumber) 13 =
      if ackNumber.isSome then rstFlag ||| ackFlag else rstFlag := by
    refine (byteAt_fillChecksum hfill _ (.inl (by decide))).trans ?_
    simp [raw, byteAt, Text.toBytesBE_length, toBytesBE_two]
  refine ⟨(length_fillChecksum hfill _).trans hlen, ?_, ?_, ?_, ?_, ?_, ?_⟩
  · exact (beAt_fillChecksum hfill _ (.inl (by decide))).trans (beAt_of_append [] _ rfl rfl hsrc)
  · exact (beAt_fillChecksum hfill _ (.inl (by decide))).trans
      (beAt_of_append (toBytesBE 2 srcPort) _ rfl (by simp) hdst)
  · refine (beAt_fillChecksum hfill _ (.inl (by decide))).trans ?_
    exact beAt_of_append (toBytesBE 2 srcPort ++ toBytesBE 2 dstPort) _
      (by rw [List.append_assoc]) (by simp) hseq
  · have hsplit : raw = (toBytesBE 2 srcPort ++ (toBytesBE 2 dstPort ++ toBytesBE 4 seqNumber)) ++
        (toBytesBE 4 (ackNumber.getD 0) ++
          [0x50, if ackNumber.isSome then rstFlag ||| ackFlag else rstFlag, 0, 0, 0, 0, 0, 0]) := by
      simp only [raw, List.append_assoc]
    exact (beAt_fillChecksum hfill _ (.inl (by decide))).trans (beAt_of_append _ _ hsplit (by simp) hack)
  · unfold tcpHas
    rw [hflags]
    split <;> decide
  · unfold tcpHas
    rw [hflags]
    cases ackNumber with
    | none => decide
    | some n => exact show decide ((rstFlag ||| ackFlag) &&& ackFlag ≠ 0) = true by decide

theorem internetChecksum_emitRst {front : List UInt8} (hfront : front.length % 2 = 0)
    (hshort : front.length ≤ 40) (srcPort dstPort seqNumber : Nat) (ackNumber : Option Nat) :
    internetChecksum (front ++ emitRst front srcPort dstPort seqNumber ackNumber) = 0 := by
  unfold emitRst
  exact internetChecksum_fill hfront rfl (by simp) (by simp; omega)

/-! ### The numbers of a reset -/

/-- What a segment takes up of the sequence numbers: its payload, and one for each of SYN and FIN. -/
def segmentLen (tcp : List UInt8) : Nat :=
  (tcp.length - tcpHeaderLen tcp) + (if tcpHas synFlag tcp then 1 else 0) +
    (if tcpHas finFlag tcp then 1 else 0)

theorem rstAck_eq {overflowChecks : Bool} {tcp : List UInt8}
    (h : overflowChecks = false ∨ beAt 4 tcp 4 + (tcp.length - tcpHeaderLen tcp) < 2 ^ 32) :
    rstAck overflowChecks tcp (tcp.length - tcpHeaderLen tcp) =
      some ((beAt 4 tcp 4 + segmentLen tcp) % 2 ^ 32) := by
  have hno : ¬(overflowChecks = true ∧ 2 ^ 32 ≤ beAt 4 tcp 4 + (tcp.length - tcpHeaderLen tcp)) := by
    rintro ⟨hchecks, hover⟩
    rcases h with h | h
    · simp [h] at hchecks
    · omega
  unfold rstAck segmentLen
  rw [if_neg hno]
  dsimp only
  congr 1
  split <;> split <;> omega

/-! ### The whole reset -/

/-- The reset of a packet: from where it went to where it came from, with the numbers that belong to its
segment. -/
structure IsReset (layout : IpLayout) (orig : Packet) (origHeaderLen origTotalLen : Nat) (rst : Packet) :
    Prop where
  srcAddr : beAt layout.addrLen rst layout.srcOff = beAt layout.addrLen orig layout.dstOff
  dstAddr : beAt layout.addrLen rst layout.dstOff = beAt layout.addrLen orig layout.srcOff
  sourcePort : beAt 2 (rst.drop layout.fixedLen) 0 = beAt 2 (slice orig origHeaderLen origTotalLen) 2
  destinationPort : beAt 2 (rst.drop layout.fixedLen) 2 = beAt 2 (slice orig origHeaderLen origTotalLen) 0
  hasRst : tcpHas rstFlag (rst.drop layout.fixedLen) = true
  hasAck : tcpHas ackFlag (rst.drop layout.fixedLen) =
    !tcpHas ackFlag (slice orig origHeaderLen origTotalLen)
  numbers : if tcpHas ackFlag (slice orig origHeaderLen origTotalLen) then
      beAt 4 (rst.drop layout.fixedLen) 4 = beAt 4 (slice orig origHeaderLen origTotalLen) 8
    else
      beAt 4 (rst.drop layout.fixedLen) 4 = 0 ∧
        beAt 4 (rst.drop layout.fixedLen) 8 =
          (beAt 4 (slice orig origHeaderLen origTotalLen) 4 +
            segmentLen (slice orig origHeaderLen origTotalLen)) % 2 ^ 32
  headerChecksum : byteAt rst 0 >>> 4 = 4 → internetChecksum (slice rst 0 layout.fixedLen) = 0
  checksum : internetChecksum (layout.pseudoHeader (beAt layout.addrLen rst layout.srcOff)
    (beAt layout.addrLen rst layout.dstOff) 20 ++ rst.drop layout.fixedLen) = 0

/-- The numbers of a reset do not overflow. -/
def NoOverflow (overflowChecks : Bool) (tcp : List UInt8) : Prop :=
  tcpHas ackFlag tcp = true ∨ overflowChecks = false ∨
    beAt 4 tcp 4 + (tcp.length - tcpHeaderLen tcp) < 2 ^ 32

section Build

variable {layout : IpLayout} {emitIp : Nat → Nat → Nat → List UInt8} {overflowChecks : Bool}
  {orig : Packet} {origHeaderLen origTotalLen : Nat}

/-- The packet that `TcpRepr` and the emitter of a header write. -/
theorem isReset_emit (hemit : Emits layout emitIp) (hfixed : layout.fixedLen ≤ orig.length)
    (hchecked : tcpChecked (slice orig origHeaderLen origTotalLen) = true) {seq : Nat} {ack : Option Nat}
    (hseq : seq < 2 ^ 32) (hack : ack.getD 0 < 2 ^ 32)
    (hsome : ack.isSome = !tcpHas ackFlag (slice orig origHeaderLen origTotalLen))
    (hnumbers : if tcpHas ackFlag (slice orig origHeaderLen origTotalLen) then
        seq = beAt 4 (slice orig origHeaderLen origTotalLen) 8
      else seq = 0 ∧ ack.getD 0 = (beAt 4 (slice orig origHeaderLen origTotalLen) 4 +
        segmentLen (slice orig origHeaderLen origTotalLen)) % 2 ^ 32) :
    IsReset layout orig origHeaderLen origTotalLen
      (emitIp (beAt layout.addrLen orig layout.dstOff) (beAt layout.addrLen orig layout.srcOff) 20 ++
        emitRst (layout.pseudoHeader (beAt layout.addrLen orig layout.dstOff)
          (beAt layout.addrLen orig layout.srcOff) 20)
          (beAt 2 (slice orig origHeaderLen origTotalLen) 2)
          (beAt 2 (slice orig origHeaderLen origTotalLen) 0) seq ack) := by
  have hadd := layout.src_add
  have hadd' := layout.dst_add
  have hlt := layout.version_lt
  have hsrc : beAt layout.addrLen orig layout.dstOff < 256 ^ layout.addrLen := beAt_lt (by omega)
  have hdst : beAt layout.addrLen orig layout.srcOff < 256 ^ layout.addrLen := beAt_lt (by omega)
  have hlong : 20 ≤ (slice orig origHeaderLen origTotalLen).length := by
    simp only [tcpChecked, Bool.and_eq_true, decide_eq_true_eq] at hchecked
    exact hchecked.1.1
  have hport : ∀ off, off + 2 ≤ 20 → beAt 2 (slice orig origHeaderLen origTotalLen) off < 2 ^ 16 :=
    fun off hoff => beAt_lt (by omega)
  generalize hto : beAt layout.addrLen orig layout.dstOff = src at *
  generalize hfrom : beAt layout.addrLen orig layout.srcOff = dst at *
  generalize htcp : slice orig origHeaderLen origTotalLen = tcp at *
  have hlen := hemit.length src dst 20
  have hf : RstFields (emitRst (layout.pseudoHeader src dst 20) (beAt 2 tcp 2) (beAt 2 tcp 0) seq ack)
      (beAt 2 tcp 2) (beAt 2 tcp 0) seq ack :=
    emitRst_fields (hport 2 (by decide)) (hport 0 (by decide)) hseq hack
  obtain ⟨heven, hshort⟩ := layout.pseudoHeader_length src dst 20
  have hsum := internetChecksum_emitRst heven hshort (beAt 2 tcp 2) (beAt 2 tcp 0) seq ack
  generalize emitRst (layout.pseudoHeader src dst 20) (beAt 2 tcp 2) (beAt 2 tcp 0) seq ack = rstTcp at *
  have hdrop : (emitIp src dst 20 ++ rstTcp).drop layout.fixedLen = rstTcp := List.drop_left' hlen
  have hs : beAt layout.addrLen (emitIp src dst 20 ++ rstTcp) layout.srcOff = src :=
    (beAt_append_left (by omega)).trans (hemit.srcAddr src dst 20 hsrc)
  have hd : beAt layout.addrLen (emitIp src dst 20 ++ rstTcp) layout.dstOff = dst :=
    (beAt_append_left (by omega)).trans (hemit.dstAddr src dst 20 hdst)
  exact {
    srcAddr := by rw [hs, hto]
    dstAddr := by rw [hd, hfrom]
    sourcePort := by rw [hdrop, htcp, hf.sourcePort]
    destinationPort := by rw [hdrop, htcp, hf.destinationPort]
    hasRst := by rw [hdrop, hf.hasRst]
    hasAck := by rw [hdrop, htcp, hf.hasAck, hsome]
    numbers := by
      rw [hdrop, htcp, hf.seq, hf.ack]
      exact hnumbers
    headerChecksum := by
      have hpos : 0 < (emitIp src dst 20).length := by omega
      rw [byteAt_append_left hpos, slice_append_left (Nat.le_of_eq hlen.symm), slice_zero_length hlen]
      exact hemit.checksum src dst 20
    checksum := by rw [hs, hd, hdrop, hsum]
  }

/-- **Resets.**  A segment that the builder takes gets its reset, if the numbers do not overflow. -/
theorem buildTcpRst_spec (hemit : Emits layout emitIp) (hfixed : layout.fixedLen ≤ orig.length)
    (htotal : origTotalLen ≤ orig.length)
    (hchecked : tcpChecked (slice orig origHeaderLen origTotalLen) = true)
    (hno : NoOverflow overflowChecks (slice orig origHeaderLen origTotalLen)) :
    ∃ rst, buildTcpRst layout emitIp overflowChecks orig origHeaderLen origTotalLen = some (some rst) ∧
      IsReset layout orig origHeaderLen origTotalLen rst := by
  have hlong : 20 ≤ (slice orig origHeaderLen origTotalLen).length := by
    simp only [tcpChecked, Bool.and_eq_true, decide_eq_true_eq] at hchecked
    exact hchecked.1.1
  have hlen : (slice orig origHeaderLen origTotalLen).length = origTotalLen - origHeaderLen :=
    slice_length htotal
  unfold buildTcpRst
  dsimp only
  rw [hchecked, ← hlen]
  simp only [Bool.not_true, Bool.false_eq_true, if_false]
  cases hhas : tcpHas ackFlag (slice orig origHeaderLen origTotalLen) with
  | true =>
    refine ⟨_, rfl, isReset_emit hemit hfixed hchecked (beAt_lt (by omega))
      (Nat.two_pow_pos 32) ?_ ?_⟩
    · rw [hhas]
      rfl
    · rw [if_pos hhas]
  | false =>
    have hnum : overflowChecks = false ∨ beAt 4 (slice orig origHeaderLen origTotalLen) 4 +
        ((slice orig origHeaderLen origTotalLen).length -
          tcpHeaderLen (slice orig origHeaderLen origTotalLen)) < 2 ^ 32 := by
      rcases hno with hack | hnum
      · rw [hhas] at hack
        cases hack
      · exact hnum
    simp only [Bool.false_eq_true, if_false]
    rw [rstAck_eq hnum]
    refine ⟨_, rfl, isReset_emit hemit hfixed hchecked (Nat.two_pow_pos 32) ?_ ?_ ?_⟩
    · exact Nat.mod_lt _ (by decide)
    · rw [hhas]
      rfl
    · rw [hhas]
      exact ⟨rfl, rfl⟩

end Build

/-! ### The stack -/

/-- The first packet of a flow, `10.0.0.2:1234` to `1.1.1.1:443`. -/
def clientSyn : Packet :=
  [0x45, 0, 0, 40, 0, 1, 0x40, 0, 64, 6, 0, 0, 10, 0, 0, 2, 1, 1, 1, 1] ++
  [0x04, 0xd2, 0x01, 0xbb, 0, 0, 0, 100, 0, 0, 0, 0, 0x50, 0x02, 0xff, 0xff, 0, 0, 0, 0]

/-- The answer of a listener at `172.19.0.1:9000`. -/
def listenerSyn : Packet :=
  [0x45, 0, 0, 40, 0, 2, 0x40, 0, 64, 6, 0, 0, 172, 19, 0, 1, 172, 19, 0, 2] ++
  [0x23, 0x28, 0x75, 0x30, 0, 0, 0, 7, 0, 0, 0, 101, 0x50, 0x12, 0xff, 0xff, 0, 0, 0, 0]

/-- A stack without flows. -/
def sampleStack : SystemStack where
  tcpNat := .new 300
  inet4Address := 0xac130001
  inet4ListenPort := 9000
  inet4NextAddress := 0xac130002
  inet6 := none

/-- Its table with the flow of `clientSyn`. -/
def sampleNat : TcpNat := (sampleStack.tcpNat.lookup 0 (source clientSyn) (destination clientSyn)).2

theorem isTcp_clientSyn : IsTcp clientSyn where
  version := .inl (by decide)
  fixed := by decide
  fits := by decide
  proto := by decide
  tcp := by decide

theorem isTcp_listenerSyn : IsTcp listenerSyn where
  version := .inl (by decide)
  fixed := by decide
  fits := by decide
  proto := by decide
  tcp := by decide

theorem lookup_clientSyn : sampleStack.tcpNat.lookup 0 (source clientSyn) (destination clientSyn) =
    (some 30000, sampleNat) := by
  have hlookup : sampleStack.tcpNat.lookup 0 (source clientSyn) (destination clientSyn) = _ :=
    TcpNat.lookup_of_free 0 rfl (by decide)
  rw [sampleNat, hlookup]
  rfl

/-- A packet within the flow: it acknowledges something. -/
def clientAck : Packet :=
  [0x45, 0, 0, 40, 0, 1, 0x40, 0, 64, 6, 0, 0, 10, 0, 0, 2, 1, 1, 1, 1] ++
  [0x04, 0xd2, 0x01, 0xbb, 0, 0, 0, 100, 0, 0, 0, 8, 0x50, 0x10, 0xff, 0xff, 0, 0, 0, 0]

end WutherCore.Capture.SystemStack
