import Mathlib.Algebra.Order.BigOperators.Group.List
import WutherCore.Capture.GroCut

/-!
# The packets of an item

Items take up packets first come, first served, so that each is made from a cluster of packets in the
order in which they came (`tcpBins`, `udpBins`).  What is written for an item is told by its cluster:
`Coalesced` is the invariant, `coalesced_tcp` and `coalesced_udp` prove it along the absorptions of an
item, and the last section says what a receiver gets of it.
-/

namespace WutherCore.Capture.Gro

open WutherCore.Data Gso

/-- How items take up TCP packets, by the fields of the packets. -/
def tcpBins : Policy Packet TcpGroItem := tcpPolicy.comap fun pkt => (pkt, tcpParsed pkt)

/-- How items take up datagrams, by the fields of the packets. -/
def udpBins : Policy Packet UdpGroItem := udpPolicy.comap fun pkt => (pkt, udpParsed pkt)

def tcpKey (pkt : Packet) : TcpFlowKey := (tcpParsed pkt).key

def udpKey (pkt : Packet) : UdpFlowKey := (udpParsed pkt).key

/-- The length of the payload. -/
def payLen (pkt : Packet) : Nat := totalLen pkt - hdrLen pkt

/-- What is behind the headers, to the end of the buffer. -/
def bodyOf (pkt : Packet) : List UInt8 := pkt.drop (hdrLen pkt)

namespace Framed

variable {pkt : Packet}

theorem payLen_pos (h : Framed pkt) : 0 < payLen pkt := Nat.sub_pos_of_lt h.hdr_lt

theorem payLen_le (h : Framed pkt) : payLen pkt ≤ (bodyOf pkt).length := by
  have hle := h.total_le
  rw [bodyOf, List.length_drop, payLen]
  omega

theorem payload_length (h : Framed pkt) : (payloadOf pkt).length = payLen pkt :=
  slice_length h.total_le

theorem sized_iff (h : Framed pkt) : Sized pkt ↔ payLen pkt = (bodyOf pkt).length := by
  have hlt := h.hdr_lt
  have hle := h.total_le
  rw [Sized, bodyOf, List.length_drop, payLen]
  omega

theorem payload_eq (h : Sized pkt) : payloadOf pkt = bodyOf pkt := by
  rw [payloadOf, bodyOf, slice, h, List.take_of_length_le (by rw [List.length_drop])]

end Framed

theorem flowOf_of_tcpKey {p q : Packet} (hp : classifyForGro p = .tcp) (hq : classifyForGro q = .tcp)
    (h : tcpKey p = tcpKey q) : flowOf p = flowOf q := by
  simp only [tcpKey, ParsedTcpIp.key, tcpParsed, TcpFlowKey.mk.injEq] at h
  simp [flowOf, hp, hq, h]

theorem flowOf_of_udpKey {p q : Packet} (hp : classifyForGro p = .udp) (hq : classifyForGro q = .udp)
    (h : udpKey p = udpKey q) : flowOf p = flowOf q := by
  simp only [udpKey, ParsedUdpIp.key, udpParsed, UdpFlowKey.mk.injEq] at h
  simp [flowOf, hp, hq, h]

/-! ### The invariant -/

/-- What is written for the packets of a cluster. -/
structure Coalesced (g : Cluster Packet) (out : GroOutput) : Prop where
  framed : ∀ p ∈ g.toList, Framed p
  flow : ∀ p ∈ g.toList, flowOf p = flowOf g.first
  single : g.rest = [] → out = ⟨g.first, none⟩
  options : g.rest ≠ [] → out.options = some (optionsFor g.first (payLen g.first))
  merged : Merged g.first (seqOf g.first) (g.toList.flatMap bodyOf) out.bytes
  /-- The packets of a TCP flow have the sequence numbers of their places. -/
  seqs : classifyForGro g.first = .tcp → ∀ k p, g.toList[k]? = some p →
    seqOf p = seqOf g.first + UInt32.ofNat (payLen g.first) * UInt32.ofNat k
  /-- Only the last packet may be shorter than the first. -/
  even : (∀ p ∈ g.toList, Sized p) →
    (∀ p ∈ g.toList, payLen p ≤ payLen g.first) ∧
      ∀ p ∈ g.toList.dropLast, payLen p = payLen g.first
  bound : (∀ p ∈ g.toList, Sized p) → out.bytes.length ≤ maxIpPacketLen
  lengths : g.rest ≠ [] → out.bytes.length ≤ maxIpPacketLen →
    Sized out.bytes ∧ (classifyForGro g.first = .udp →
      beAt 2 out.bytes (iphLen g.first + 4) = out.bytes.length - iphLen g.first)

/-! ### TCP -/

theorem canCoalesce_eq_true {item : TcpGroItem} {seq : UInt32} {n : Nat} :
    canCoalesce item seq n = true ↔ seq = item.sentSeq ∧ n = item.gsoSize ∧ item.pshSet = false ∧
      item.buffer.length + n ≤ maxIpPacketLen := by
  unfold canCoalesce
  split_ifs with h1 h2 h3 h4 <;> simp_all

/-- A TCP item and the packets it was made from. -/
structure TcpMade (g : Cluster Packet) (item : TcpGroItem) : Prop where
  merged : Merged g.first (seqOf g.first) (g.toList.flatMap bodyOf) item.buffer
  iph : item.iphLen = iphLen g.first
  tcph : item.tcphLen = l4Len g.first
  v6 : item.isV6 = isV6 g.first
  gso : item.gsoSize = payLen g.first
  num : item.numMerged = g.toList.length
  sent : item.sentSeq =
    seqOf g.first + UInt32.ofNat (payLen g.first) * UInt32.ofNat g.toList.length
  seqs : ∀ k p, g.toList[k]? = some p →
    seqOf p = seqOf g.first + UInt32.ofNat (payLen g.first) * UInt32.ofNat k ∧
      payLen p = payLen g.first
  bound : (∀ p ∈ g.toList, Sized p) → item.buffer.length ≤ maxIpPacketLen
  lengths : g.rest ≠ [] → item.buffer.length ≤ maxIpPacketLen → Sized item.buffer

theorem TcpMade.fresh {a : Packet} (ha : laneOf a = .tcp) : TcpMade ⟨a, []⟩ (tcpBins.build ⟨a, []⟩) := by
  obtain ⟨-, hf, -⟩ := parse_of_lane_tcp ha
  refine ⟨?_, rfl, rfl, rfl, rfl, rfl, ?_, ?_, fun _ => hf.len_le, fun h => absurd rfl h⟩
  · show Merged a (seqOf a) (bodyOf a ++ []) a
    rw [List.append_nil]
    exact Merged.refl hf
  · show seqOf a + UInt32.ofNat (payLen a) = seqOf a + UInt32.ofNat (payLen a) * UInt32.ofNat 1
    rw [show UInt32.ofNat 1 = 1 from rfl, UInt32.mul_one]
  · intro k p hk
    cases k with
    | zero =>
      obtain rfl : a = p := by simpa [Cluster.toList] using hk
      exact ⟨by simp, rfl⟩
    | succ k => simp [Cluster.toList] at hk

/-- `coalesce` adds a packet to those that an item was made from. -/
theorem TcpMade.snoc {g : Cluster Packet} {a : Packet} {item : TcpGroItem} (h : TcpMade g item)
    (hfirst : laneOf g.first = .tcp) (ha : laneOf a = .tcp) (hv : isV6 a = isV6 g.first)
    (hacc : canCoalesce item (seqOf a) (payLen a) = true) :
    TcpMade (g.snoc a) (coalesce item a (tcpParsed a)) := by
  obtain ⟨hc, hf, -⟩ := parse_of_lane_tcp hfirst
  obtain ⟨-, hfa, -⟩ := parse_of_lane_tcp ha
  obtain ⟨hseq, hpay, -, hmax⟩ := canCoalesce_eq_true.1 hacc
  obtain ⟨hm, hl⟩ := merged_coalesce a (tcpParsed a) hf hc h.merged h.iph hv
  have hbody : (g.snoc a).toList.flatMap bodyOf = g.toList.flatMap bodyOf ++ bodyOf a := by
    simp [Cluster.toList_snoc]
  have hlast : g.toList.length = (g.snoc a).toList.length - 1 := by simp [Cluster.toList_snoc]
  refine ⟨?_, h.iph, h.tcph, h.v6, h.gso, ?_, ?_, ?_, ?_, fun _ => hl⟩
  · rw [hbody]
    exact hm
  · show item.numMerged + 1 = _
    rw [h.num, Cluster.toList_snoc, List.length_append, List.length_singleton]
  · show item.sentSeq + UInt32.ofNat (payLen a) = _
    rw [h.sent, hpay, h.gso, Cluster.toList_snoc, List.length_append, List.length_singleton,
      UInt32.ofNat_add, UInt32.mul_add, UInt32.add_assoc, show UInt32.ofNat 1 = 1 from rfl,
      UInt32.mul_one]
    rfl
  · intro k p hk
    rw [Cluster.toList_snoc] at hk
    rcases Nat.lt_or_ge k g.toList.length with hlt | hge
    · rw [List.getElem?_append_left hlt] at hk
      exact h.seqs k p hk
    · rw [List.getElem?_append_right hge] at hk
      have hk0 : k = g.toList.length := by
        by_contra hne
        rw [List.getElem?_eq_none (by simp; omega)] at hk
        cases hk
      obtain rfl : a = p := by simpa [hk0] using hk
      refine ⟨?_, hpay.trans h.gso⟩
      rw [hseq, h.sent, hk0]
      rfl
  · intro hsized
    have hsa := hsized a (by simp [Cluster.toList_snoc])
    rw [hfa.sized_iff] at hsa
    rw [hm.length_eq, List.length_append]
    have hold := h.merged.length_eq
    have hba : (a.drop ((tcpParsed a).iphLen + (tcpParsed a).tcphLen)).length = payLen a := hsa.symm
    omega

theorem tcpMade_build {g : Cluster Packet}
    (hacc : tcpBins.Absorbed (fun b a => tcpBins.accepts b a = true) g)
    (hmem : ∀ p ∈ g.toList, laneOf p = .tcp ∧ tcpKey p = tcpKey g.first) :
    TcpMade g (tcpBins.build g) := by
  refine Policy.Absorbed.induction (motive := fun g =>
    (∀ p ∈ g.toList, laneOf p = .tcp ∧ tcpKey p = tcpKey g.first) → TcpMade g (tcpBins.build g))
    ?_ ?_ hacc hmem
  · exact fun a hmem => TcpMade.fresh (hmem a List.mem_cons_self).1
  · intro g a _ ih hq hmem
    have hold := ih fun p hp => hmem p (List.mem_append_left _ hp)
    obtain ⟨ha, hkey⟩ := hmem a (by simp [Cluster.toList_snoc])
    rw [Policy.build_snoc]
    refine hold.snoc (hmem g.first List.mem_cons_self).1 ha ?_ hq
    exact congrArg TcpFlowKey.isV6 hkey

theorem coalesced_tcp {g : Cluster Packet}
    (hacc : tcpBins.Absorbed (fun b a => tcpBins.accepts b a = true) g)
    (hmem : ∀ p ∈ g.toList, laneOf p = .tcp ∧ tcpKey p = tcpKey g.first) :
    Coalesced g (tcpBins.build g).output := by
  have h := tcpMade_build hacc hmem
  have hc := (parse_of_lane_tcp (hmem g.first List.mem_cons_self).1).1
  refine ⟨fun p hp => (parse_of_lane_tcp (hmem p hp).1).2.1, ?_, ?_, ?_, h.merged,
    fun _ k p hk => (h.seqs k p hk).1, fun _ => ?_, h.bound, ?_⟩
  · exact fun p hp => flowOf_of_tcpKey (parse_of_lane_tcp (hmem p hp).1).1 hc (hmem p hp).2
  · intro hrest
    obtain ⟨first, rest⟩ := g
    obtain rfl : rest = [] := hrest
    rfl
  · intro hrest
    have hnum : (tcpBins.build g).numMerged > 1 := by
      rw [h.num, Cluster.toList, List.length_cons]
      have := List.length_pos_iff.2 hrest
      omega
    simp [TcpGroItem.output, hnum, optionsFor, h.v6, h.iph, h.tcph, h.gso, hc, hdrLen]
  · have hall : ∀ p ∈ g.toList, payLen p = payLen g.first := fun p hp => by
      obtain ⟨k, hk⟩ := List.mem_iff_getElem?.1 hp
      exact (h.seqs k p hk).2
    exact ⟨fun p hp => (hall p hp).le, fun p hp => hall p (List.dropLast_subset _ hp)⟩
  · exact fun hrest hlen => ⟨h.lengths hrest hlen, fun hu => absurd (hc.symm.trans hu) (by decide)⟩

/-! ### UDP -/

theorem canCoalesceUdp_eq_true {item : UdpGroItem} {n : Nat} :
    canCoalesceUdp item n = true ↔ n ≤ item.gsoSize ∧
      (item.buffer.length - item.iphLen - udpHeaderLen) % item.gsoSize = 0 ∧
      item.buffer.length + n ≤ maxIpPacketLen := by
  unfold canCoalesceUdp
  split_ifs with h1 h2
  · simp
    omega
  · simp_all
  · simp_all

/-- Numbers that are all `n` but for a last one of at most `n` are all `n` when their sum is a
multiple of `n`. -/
theorem all_eq_of_mod_sum {n : Nat} (ns : List Nat) (hle : ∀ x ∈ ns, 0 < x ∧ x ≤ n)
    (hfull : ∀ x ∈ ns.dropLast, x = n) (hsum : ns.sum % n = 0) : ∀ x ∈ ns, x = n := by
  rcases List.eq_nil_or_concat ns with rfl | ⟨ms, x, rfl⟩
  · simp
  · rw [List.concat_eq_append] at *
    rw [List.dropLast_concat] at hfull
    obtain ⟨hpos, hxn⟩ := hle x (by simp)
    have hms : ms.sum = ms.length * n := by
      rw [List.eq_replicate_iff.2 ⟨rfl, hfull⟩]
      simp
    rw [List.sum_append, hms, List.sum_singleton, Nat.mul_comm, Nat.mul_add_mod] at hsum
    have hx : x = n := by
      by_contra hne
      rw [Nat.mod_eq_of_lt (by omega)] at hsum
      omega
    intro y hy
    rcases List.mem_append.1 hy with hy | hy
    · exact hfull y hy
    · rw [List.mem_singleton.1 hy, hx]

/-- A UDP item and the datagrams it was made from. -/
structure UdpMade (g : Cluster Packet) (item : UdpGroItem) : Prop where
  merged : Merged g.first (seqOf g.first) (g.toList.flatMap bodyOf) item.buffer
  iph : item.iphLen = iphLen g.first
  gso : item.gsoSize = payLen g.first
  num : item.numMerged = g.toList.length
  even : (∀ p ∈ g.toList, Sized p) →
    (∀ p ∈ g.toList, payLen p ≤ payLen g.first) ∧
      ∀ p ∈ g.toList.dropLast, payLen p = payLen g.first
  bound : (∀ p ∈ g.toList, Sized p) → item.buffer.length ≤ maxIpPacketLen
  lengths : g.rest ≠ [] → item.buffer.length ≤ maxIpPacketLen →
    Sized item.buffer ∧
      beAt 2 item.buffer (iphLen g.first + 4) = item.buffer.length - iphLen g.first

theorem UdpMade.fresh {a : Packet} (ha : laneOf a = .udp) : UdpMade ⟨a, []⟩ (udpBins.build ⟨a, []⟩) := by
  obtain ⟨-, hf, -⟩ := parse_of_lane_udp ha
  refine ⟨?_, rfl, rfl, rfl, fun _ => ⟨?_, ?_⟩, fun _ => hf.len_le, fun h => absurd rfl h⟩
  · show Merged a (seqOf a) (bodyOf a ++ []) a
    rw [List.append_nil]
    exact Merged.refl hf
  · intro p hp
    rw [List.mem_singleton.1 hp]
  · intro p hp
    simp [Cluster.toList] at hp

/-- `coalesce_udp` adds a datagram to those that an item was made from. -/
theorem UdpMade.snoc {g : Cluster Packet} {a : Packet} {item : UdpGroItem} (h : UdpMade g item)
    (hfirst : laneOf g.first = .udp) (hmem : ∀ p ∈ g.toList, Framed p) (ha : laneOf a = .udp)
    (hv : isV6 a = isV6 g.first) (hacc : canCoalesceUdp item (payLen a) = true) :
    UdpMade (g.snoc a) (coalesceUdp item a (udpParsed a)) := by
  obtain ⟨hc, hf, -⟩ := parse_of_lane_udp hfirst
  obtain ⟨hca, hfa, -⟩ := parse_of_lane_udp ha
  obtain ⟨hpay, hmod, hmax⟩ := canCoalesceUdp_eq_true.1 hacc
  obtain ⟨hm, hl⟩ := merged_coalesceUdp a (udpParsed a) hf hc h.merged h.iph hv
  have hdrop : a.drop ((udpParsed a).iphLen + udpHeaderLen) = bodyOf a := by
    have hhdr : iphLen a + 8 = hdrLen a := hfa.valid.udp hca
    rw [bodyOf, ← hhdr]
    rfl
  have hbody : (g.snoc a).toList.flatMap bodyOf = g.toList.flatMap bodyOf ++ bodyOf a := by
    simp [Cluster.toList_snoc]
  rw [hdrop] at hm
  have hold := h.merged.length_eq
  refine ⟨?_, h.iph, h.gso, ?_, ?_, ?_, fun _ => hl⟩
  · rw [hbody]
    exact hm
  · show item.numMerged + 1 = _
    rw [h.num, Cluster.toList_snoc, List.length_append, List.length_singleton]
  · intro hsized
    have hsg : ∀ p ∈ g.toList, Sized p := fun p hp => hsized p (List.mem_append_left _ hp)
    obtain ⟨hle, hfull⟩ := h.even hsg
    -- What is behind the headers so far is a multiple of the first payload.
    have hsum : (g.toList.map payLen).sum % payLen g.first = 0 := by
      have hhdr : iphLen g.first + 8 = hdrLen g.first := hf.valid.udp hc
      have hlen : (g.toList.flatMap bodyOf).length = (g.toList.map payLen).sum := by
        rw [List.length_flatMap]
        refine congrArg List.sum (List.map_congr_left fun p hp => ?_)
        exact ((hmem p hp).sized_iff.1 (hsg p hp)).symm
      rw [h.gso, h.iph, udpHeaderLen] at hmod
      rw [← hlen]
      convert hmod using 2
      omega
    have hall : ∀ p ∈ g.toList, payLen p = payLen g.first := by
      have hns := all_eq_of_mod_sum (n := payLen g.first) (g.toList.map payLen) ?_ ?_ hsum
      · exact fun p hp => hns _ (List.mem_map_of_mem hp)
      · intro x hx
        obtain ⟨p, hp, rfl⟩ := List.mem_map.1 hx
        exact ⟨(hmem p hp).payLen_pos, hle p hp⟩
      · intro x hx
        rw [← List.map_dropLast] at hx
        obtain ⟨p, hp, rfl⟩ := List.mem_map.1 hx
        exact hfull p hp
    rw [Cluster.toList_snoc]
    constructor
    · intro p hp
      rcases List.mem_append.1 hp with hp | hp
      · exact hle p hp
      · rw [List.mem_singleton.1 hp]
        exact hpay.trans h.gso.le
    · intro p hp
      rw [List.dropLast_concat] at hp
      exact hall p hp
  · intro hsized
    have hsa := hfa.sized_iff.1 (hsized a (by simp [Cluster.toList_snoc]))
    rw [hm.length_eq, List.length_append]
    omega

theorem udpMade_build {g : Cluster Packet}
    (hacc : udpBins.Absorbed (fun b a => udpBins.accepts b a = true) g)
    (hmem : ∀ p ∈ g.toList, laneOf p = .udp ∧ udpKey p = udpKey g.first) :
    UdpMade g (udpBins.build g) := by
  refine Policy.Absorbed.induction (motive := fun g =>
    (∀ p ∈ g.toList, laneOf p = .udp ∧ udpKey p = udpKey g.first) → UdpMade g (udpBins.build g))
    ?_ ?_ hacc hmem
  · exact fun a hmem => UdpMade.fresh (hmem a List.mem_cons_self).1
  · intro g a _ ih hq hmem
    have hg : ∀ p ∈ g.toList, laneOf p = .udp ∧ udpKey p = udpKey g.first :=
      fun p hp => hmem p (List.mem_append_left _ hp)
    obtain ⟨ha, hkey⟩ := hmem a (by simp [Cluster.toList_snoc])
    rw [Policy.build_snoc]
    refine (ih hg).snoc (hmem g.first List.mem_cons_self).1
      (fun p hp => (parse_of_lane_udp (hg p hp).1).2.1) ha ?_ hq
    exact congrArg UdpFlowKey.isV6 hkey

theorem coalesced_udp {g : Cluster Packet}
    (hacc : udpBins.Absorbed (fun b a => udpBins.accepts b a = true) g)
    (hmem : ∀ p ∈ g.toList, laneOf p = .udp ∧ udpKey p = udpKey g.first) :
    Coalesced g (udpBins.build g).output := by
  have h := udpMade_build hacc hmem
  obtain ⟨hc, hf, -⟩ := parse_of_lane_udp (hmem g.first List.mem_cons_self).1
  refine ⟨fun p hp => (parse_of_lane_udp (hmem p hp).1).2.1, ?_, ?_, ?_, h.merged,
    fun ht => absurd (hc.symm.trans ht) (by decide), h.even, h.bound, ?_⟩
  · exact fun p hp => flowOf_of_udpKey (parse_of_lane_udp (hmem p hp).1).1 hc (hmem p hp).2
  · intro hrest
    obtain ⟨first, rest⟩ := g
    obtain rfl : rest = [] := hrest
    rfl
  · intro hrest
    have hnum : (udpBins.build g).numMerged > 1 := by
      rw [h.num, Cluster.toList, List.length_cons]
      have := List.length_pos_iff.2 hrest
      omega
    have hhdr : iphLen g.first + 8 = hdrLen g.first := hf.valid.udp hc
    simp [UdpGroItem.output, hnum, optionsFor, h.iph, h.gso, hc, udpHeaderLen, hhdr]
  · exact fun hrest hlen => ⟨(h.lengths hrest hlen).1, fun _ => (h.lengths hrest hlen).2⟩

/-! ### What a receiver gets -/

theorem map_eq_map_of_forall₂ {α β γ : Type*} {f : α → γ} {g : β → γ} {as : List α} {bs : List β}
    (h : List.Forall₂ (fun a b => f a = g b) as bs) : as.map f = bs.map g := by
  rw [← List.forall₂_eq_eq_eq, List.forall₂_map_left_iff, List.forall₂_map_right_iff]
  exact h

theorem eq_of_sum_eq {α : Type*} {f f' : α → Nat} {as : List α} (hle : ∀ a ∈ as, f a ≤ f' a)
    (h : (as.map f).sum = (as.map f').sum) : ∀ a ∈ as, f a = f' a := by
  induction as with
  | nil => simp
  | cons a as ih =>
    rw [List.forall_mem_cons] at hle ⊢
    have hrest : (as.map f).sum ≤ (as.map f').sum := List.sum_le_sum hle.2
    simp only [List.map_cons, List.sum_cons] at h
    exact ⟨by omega, ih hle.2 (by omega)⟩

/-- A packet that brings what another one brought, with its headers. -/
def Carries (p seg : Packet) : Prop := segment seg = segment p ∧ headerFields seg = headerFields p

/-- The payload of a segment. -/
def Segment.payload : Segment → List UInt8
  | .tcp _ _ payload => payload
  | .udp _ payload => payload
  | .other bytes => bytes

theorem segment_of_framed {p : Packet} (hf : Framed p) :
    segment p = if classifyForGro p = .tcp then .tcp (flowOf p) (seqOf p) (payloadOf p)
      else .udp (flowOf p) (payloadOf p) := by
  unfold segment
  rcases hf.valid.l4 with h4 | h4
  · simp [show classifyForGro p = .tcp from h4]
  · simp [show classifyForGro p = .udp from h4]

theorem payload_of_framed {p : Packet} (hf : Framed p) : (segment p).payload = payloadOf p := by
  rw [segment_of_framed hf]
  split <;> rfl

namespace Cut

variable {first seg : Packet} {seq : UInt32} {n : Nat} {c : List UInt8 × Nat}

theorem segment_eq (hf : Framed first) (h : Cut first seq n c seg) :
    segment seg =
      if classifyForGro first = .tcp then
        .tcp (flowOf first) (seq + UInt32.ofNat n * UInt32.ofNat c.2) c.1
      else .udp (flowOf first) c.1 :=
  h.merged.segment_eq hf h.sized

theorem payload_eq (hf : Framed first) (h : Cut first seq n c seg) : (segment seg).payload = c.1 := by
  rw [h.segment_eq hf]
  split <;> rfl

theorem headerFields_eq (hf : Framed first) (h : Cut first seq n c seg) :
    headerFields seg = headerFields first :=
  headerFields_of_agree hf h.merged.agree h.merged.hdr_le

end Cut

namespace Coalesced

variable {cs : Checksums} {g : Cluster Packet} {out : GroOutput}

theorem framed_first (h : Coalesced g out) : Framed g.first := h.framed _ List.mem_cons_self

theorem class_eq (h : Coalesced g out) {p : Packet} (hp : p ∈ g.toList) :
    classifyForGro p = classifyForGro g.first := congrArg Flow.l4 (h.flow p hp)

variable (cs) in
/-- A merged packet is cut into chunks of the length of the first payload. -/
theorem recover_eq (h : Coalesced g out) (hrest : g.rest ≠ []) :
    ∃ segs, recover cs out = some (.ok segs) ∧
      List.Forall₂ (Cut g.first (seqOf g.first) (payLen g.first))
        (chunks (payLen g.first) (g.toList.flatMap bodyOf)).zipIdx segs := by
  have hf := h.framed_first
  have hlong : payLen g.first < (g.toList.flatMap bodyOf).length := by
    obtain ⟨first, rest⟩ := g
    cases rest with
    | nil => exact absurd rfl hrest
    | cons p rest =>
      have h1 := hf.payLen_le
      have h2 := (h.framed p (by simp [Cluster.toList])).payLen_le
      have h3 := (h.framed p (by simp [Cluster.toList])).payLen_pos
      simp only [Cluster.toList, List.flatMap_cons, List.length_append]
      simp only at h1
      omega
  have hmax : hdrLen g.first + payLen g.first ≤ maxIpPacketLen := by
    have h1 := hf.hdr_lt
    have h2 := hf.total_le
    have h3 := hf.len_le
    rw [payLen]
    omega
  obtain ⟨segs, hsegs, hcut⟩ := gsoSplit_merged cs hf h.merged hf.payLen_pos hmax hlong
  refine ⟨segs, ?_, hcut⟩
  unfold recover
  rw [h.options hrest]
  exact hsegs

theorem chunks_eq (h : Coalesced g out) (hsized : ∀ p ∈ g.toList, Sized p) :
    chunks (payLen g.first) (g.toList.flatMap bodyOf) = g.toList.map payloadOf := by
  obtain ⟨hle, hfull⟩ := h.even hsized
  have hbody : g.toList.flatMap bodyOf = (g.toList.map payloadOf).flatten := by
    rw [List.flatMap_def]
    refine congrArg List.flatten (List.map_congr_left fun p hp => ?_)
    exact (Framed.payload_eq (hsized p hp)).symm
  rw [hbody]
  refine chunks_flatten ?_ ?_
  · intro c hc
    obtain ⟨p, hp, rfl⟩ := List.mem_map.1 hc
    have hfp := h.framed p hp
    rw [hfp.payload_length]
    exact ⟨hfp.payLen_pos, hle p hp⟩
  · intro c hc
    rw [← List.map_dropLast] at hc
    obtain ⟨p, hp, rfl⟩ := List.mem_map.1 hc
    rw [(h.framed p (List.dropLast_subset _ hp)).payload_length]
    exact hfull p hp

variable (cs) in
/-- A receiver gets the packets of a cluster, in their order, with the headers of the first. -/
theorem recover_sized (h : Coalesced g out) (hsized : ∀ p ∈ g.toList, Sized p) :
    ∃ segs, recover cs out = some (.ok segs) ∧
      List.Forall₂ (fun p seg => segment seg = segment p ∧ headerFields seg = headerFields g.first)
        g.toList segs := by
  by_cases hrest : g.rest = []
  · refine ⟨[g.first], ?_, ?_⟩
    · rw [h.single hrest]
      rfl
    · rw [Cluster.toList, hrest]
      exact .cons ⟨rfl, rfl⟩ .nil
  · obtain ⟨segs, hsegs, hcut⟩ := h.recover_eq cs hrest
    refine ⟨segs, hsegs, ?_⟩
    have hf := h.framed_first
    rw [h.chunks_eq hsized, List.zipIdx_map, List.forall₂_map_left_iff] at hcut
    have hidx : ∀ pk ∈ g.toList.zipIdx, g.toList[pk.2]? = some pk.1 :=
      fun pk hpk => (List.mem_zipIdx_iff_getElem?.1 hpk)
    have hboth := (List.forall₂_and_left _ _).2 ⟨hidx, hcut⟩
    rw [← List.zipIdx_map_fst 0 g.toList, List.forall₂_map_left_iff]
    refine hboth.imp fun pk seg hpk => ?_
    obtain ⟨hk, hc⟩ := hpk
    refine ⟨?_, hc.headerFields_eq hf⟩
    have hp : pk.1 ∈ g.toList := List.mem_of_getElem? hk
    rw [hc.segment_eq hf, segment_of_framed (h.framed _ hp), h.class_eq hp, h.flow _ hp]
    split
    · next ht =>
      rw [h.seqs ht _ _ hk]
      rfl
    · rfl

/-- A receiver gets all packets with their own headers when they have the headers of the first, and
end where their IP headers say. -/
theorem carries_iff (h : Coalesced g out) (hrest : g.rest ≠ []) :
    (∃ segs, recover cs out = some (.ok segs) ∧ List.Forall₂ Carries g.toList segs) ↔
      ∀ p ∈ g.toList, Sized p ∧ headerFields p = headerFields g.first := by
  have hf := h.framed_first
  constructor
  · rintro ⟨segs, hsegs, hcar⟩
    obtain ⟨segs', hsegs', hcut⟩ := h.recover_eq cs hrest
    obtain rfl : segs' = segs := by simpa [hsegs] using hsegs'.symm
    -- What was cut is what is behind the headers; what was carried are the payloads.
    have h1 : segs'.map (fun seg => (segment seg).payload) =
        chunks (payLen g.first) (g.toList.flatMap bodyOf) := by
      rw [← List.zipIdx_map_fst 0 (chunks _ _)]
      exact map_eq_map_of_forall₂ (hcut.flip.imp fun seg c hc => hc.payload_eq hf)
    have h2 : segs'.map (fun seg => (segment seg).payload) = g.toList.map payloadOf :=
      map_eq_map_of_forall₂ (((List.forall₂_and_left _ _).2 ⟨h.framed, hcar⟩).flip.imp fun seg p hp =>
        (congrArg Segment.payload hp.2.1).trans (payload_of_framed hp.1))
    have hbody : g.toList.flatMap bodyOf = (g.toList.map payloadOf).flatten := by
      rw [← h2, h1, flatten_chunks hf.payLen_pos]
    have hlen : (g.toList.map payLen).sum = (g.toList.map fun p => (bodyOf p).length).sum := by
      have hl := congrArg List.length hbody
      rw [List.length_flatMap, List.length_flatten, List.map_map] at hl
      rw [hl]
      exact congrArg List.sum (List.map_congr_left fun p hp => (h.framed p hp).payload_length.symm)
    intro p hp
    refine ⟨?_, ?_⟩
    · rw [(h.framed p hp).sized_iff]
      exact eq_of_sum_eq (fun q hq => (h.framed q hq).payLen_le) hlen p hp
    · obtain ⟨seg, hseg, hc⟩ := exists_right_of_forall₂ hcar hp
      obtain ⟨c, -, hcs⟩ := exists_left_of_forall₂ hcut hseg
      exact hc.2.symm.trans (hcs.headerFields_eq hf)
  · intro hall
    obtain ⟨segs, hsegs, hseg⟩ := h.recover_sized cs fun p hp => (hall p hp).1
    refine ⟨segs, hsegs, ?_⟩
    have hboth := (List.forall₂_and_left _ _).2 ⟨hall, hseg⟩
    exact hboth.imp fun p seg hp => ⟨hp.2.1, hp.2.2.trans hp.1.2.symm⟩

end Coalesced

end WutherCore.Capture.Gro
