import WutherCore.Capture.GroSound

/-!
# The order of the packets of a flow

The outputs of `merge_for_linux_tun_batch` are the packets that were passed through, then the TCP items
and then the UDP items, table by table and key by key.  `inOrder_iff` says when the packets of every flow
come out in the order of the batch, whatever the order in which the tables are drained.
-/

namespace WutherCore.Capture.Gro

open WutherCore.Data Gso

/-- The flow of a TCP or UDP packet, when its ports can be read. -/
def fiveTuple (pkt : Packet) : Option Flow :=
  if classifyForGro pkt ≠ .other ∧ 20 ≤ iphLen pkt ∧ iphLen pkt + 4 ≤ pkt.length then
    some (flowOf pkt)
  else none

/-- The positions in the batch of the packets of a flow, in the order of the outputs.  When the buffers
end where the IP headers say, this is the order in which a receiver gets them (`recover_all`). -/
def flowPositions (tcpIt : Iteration TcpFlowKey (List TcpGroItem))
    (udpIt : Iteration UdpFlowKey (List UdpGroItem)) (pkts : List Packet) (flow : Flow) : List Nat :=
  (((origins tcpIt udpIt pkts).flatMap Cluster.toList).filter
    fun p => fiveTuple p.1 = some flow).map Prod.snd

/-- The packets of every flow come out in the order of the batch. -/
def InOrder (pkts : List Packet) : Prop :=
  ∀ tcpIt udpIt flow, (flowPositions tcpIt udpIt pkts flow).Pairwise (· < ·)

/-- A packet that comes after others of its flow is not passed through when one of them was taken up;
a TCP packet has the acknowledgement of those that were taken up; and only the newest item of its key
accepts it. -/
structure InTurn (pre : List Packet) (pkt : Packet) : Prop where
  passed : laneOf pkt = .other → ∀ flow, fiveTuple pkt = some flow →
    ∀ p ∈ pre, fiveTuple p = some flow → laneOf p = .other
  ack : laneOf pkt = .tcp → ∀ p ∈ pre, laneOf p = .tcp → flowOf p = flowOf pkt →
    (tcpParsed p).ack = (tcpParsed pkt).ack
  newestTcp : laneOf pkt = .tcp →
    ∀ item ∈ (((Batch.addAll pre).tcpGro.get? (tcpKey pkt)).getD []).dropLast,
      canCoalesce item (seqOf pkt) (payLen pkt) = false
  newestUdp : laneOf pkt = .udp →
    ∀ item ∈ (((Batch.addAll pre).udpGro.get? (udpKey pkt)).getD []).dropLast,
      canCoalesceUdp item (payLen pkt) = false

/-! ### Flows and keys -/

/-- The flow of a key. -/
def TcpFlowKey.flow (k : TcpFlowKey) : Flow := ⟨.tcp, k.isV6, k.srcAddr, k.dstAddr, k.srcPort, k.dstPort⟩

/-- The flow of a key. -/
def UdpFlowKey.flow (k : UdpFlowKey) : Flow := ⟨.udp, k.isV6, k.srcAddr, k.dstAddr, k.srcPort, k.dstPort⟩

theorem Framed.fiveTuple_eq {pkt : Packet} (h : Framed pkt) : fiveTuple pkt = some (flowOf pkt) := by
  have hiph : 20 ≤ iphLen pkt := h.valid.iph
  have hge : iphLen pkt + 8 ≤ hdrLen pkt := h.valid.hdr_ge
  have hlt := h.hdr_lt
  have hle := h.total_le
  exact if_pos ⟨h.class_ne, hiph, by omega⟩

theorem fiveTuple_of_tcp {pkt : Packet} (h : laneOf pkt = .tcp) :
    fiveTuple pkt = some (tcpKey pkt).flow := by
  obtain ⟨hc, hf, -⟩ := parse_of_lane_tcp h
  rw [hf.fiveTuple_eq, flowOf, hc]
  rfl

theorem fiveTuple_of_udp {pkt : Packet} (h : laneOf pkt = .udp) :
    fiveTuple pkt = some (udpKey pkt).flow := by
  obtain ⟨hc, hf, -⟩ := parse_of_lane_udp h
  rw [hf.fiveTuple_eq, flowOf, hc]
  rfl

theorem tcpKey_flow_eq_iff {p q : Packet} (hp : laneOf p = .tcp) (hq : laneOf q = .tcp) :
    (tcpKey p).flow = (tcpKey q).flow ↔ flowOf p = flowOf q := by
  rw [← Option.some.injEq, ← fiveTuple_of_tcp hp, ← fiveTuple_of_tcp hq,
    (parse_of_lane_tcp hp).2.1.fiveTuple_eq, (parse_of_lane_tcp hq).2.1.fiveTuple_eq, Option.some.injEq]

theorem UdpFlowKey.flow_injective {k k' : UdpFlowKey} (h : k.flow = k'.flow) : k = k' := by
  cases k
  cases k'
  simp only [flow, Flow.mk.injEq, true_and] at h
  simp [h]

theorem TcpFlowKey.eq_of_flow {k k' : TcpFlowKey} (h : k.flow = k'.flow) : k = k' ↔ k.ack = k'.ack := by
  cases k
  cases k'
  simp only [flow, Flow.mk.injEq, true_and] at h
  simp [h]

/-! ### The outputs of the tables -/

theorem pairwise_taken (lane : L4Class) (pkts : List Packet) :
    (taken lane pkts).Pairwise fun p q => p.2 < q.2 := by
  have hpos : (pkts.zipIdx.map Prod.snd).Pairwise (· < ·) := by
    rw [List.zipIdx_map_snd]
    exact List.pairwise_lt_range'
  exact (List.pairwise_map.1 hpos).sublist List.filter_sublist

/-- The packets of a table come out in order when those of each flow have one key, and each joins the
newest item of its key or none. -/
theorem pairwise_table {β κ : Type} [DecidableEq κ] {P : Policy Packet β} (key : Packet → κ)
    (flowOfKey : κ → Flow) (lane : L4Class) (pkts : List Packet) :
    (∀ flow, ∀ es : List (κ × List β), es.Perm (P.pushAll key (pkts.filter (laneOf · = lane))).entries →
        ((((P.comap Prod.fst).clustersIn (fun p => key p.1) (es.map Prod.fst) (taken lane pkts)).flatMap
          Cluster.toList).filter fun p => flowOfKey (key p.1) = flow).Pairwise fun p q => p.2 < q.2) ↔
      ∀ pre pkt post, pkts = pre ++ pkt :: post → laneOf pkt = lane →
        (∀ p ∈ pre, laneOf p = lane → flowOfKey (key p) = flowOfKey (key pkt) → key p = key pkt) ∧
          ∀ b ∈ (((P.pushAll key (pre.filter (laneOf · = lane))).get? (key pkt)).getD []).dropLast,
            P.accepts b pkt = false := by
  have hone := fun flow => Policy.pairwise_clustersIn (P := P.comap Prod.fst)
    (fun p : Packet × Nat => key p.1) (fun a b (h : a.2 < b.2) => Nat.lt_asymm h)
    (pairwise_taken lane pkts)
    (fun k => decide (flowOfKey k = flow))
  have hpush := Policy.pushAll_comap (P := P) key (Prod.fst : Packet × Nat → Packet)
  simp only [hpush, map_fst_taken] at hone
  rw [forall_congr' hone]
  -- The condition is about packets; their positions play no part in it.
  let q : List Packet → Packet → Prop := fun pre pkt =>
    (∀ p ∈ pre, flowOfKey (key p) = flowOfKey (key pkt) → key p = key pkt) ∧
      ∀ b ∈ (((P.pushAll key pre).get? (key pkt)).getD []).dropLast, P.accepts b pkt = false
  have hpos := forall_split_map (taken lane pkts) (f := Prod.fst) (q := q)
  rw [map_fst_taken, forall_split_filter] at hpos
  calc
    _ ↔ ∀ pre a post, taken lane pkts = pre ++ a :: post → q (pre.map Prod.fst) a.1 := by
      constructor
      · intro h pre a post heq
        obtain ⟨hkeys, hnew⟩ := h (flowOfKey (key a.1)) pre a post heq (by simp)
        refine ⟨fun p hp hflow => ?_, hnew⟩
        obtain ⟨a', ha', rfl⟩ := List.mem_map.1 hp
        exact hkeys a' ha' (by simpa using hflow)
      · intro h flow pre a post heq hflow
        obtain ⟨hkeys, hnew⟩ := h pre a post heq
        refine ⟨fun a' ha' hflow' => ?_, hnew⟩
        refine hkeys a'.1 (List.mem_map_of_mem ha') ?_
        exact (of_decide_eq_true hflow').trans (of_decide_eq_true hflow).symm
    _ ↔ _ := hpos.symm
    _ ↔ _ := by simp [q]

/-- The packets of the TCP table with their positions, in the order of the outputs. -/
def tcpPart (es : List (TcpFlowKey × List TcpGroItem)) (pkts : List Packet) : List (Packet × Nat) :=
  ((tcpBins.comap Prod.fst).clustersIn (fun p => tcpKey p.1) (es.map Prod.fst)
    (taken .tcp pkts)).flatMap Cluster.toList

/-- The packets of the UDP table with their positions, in the order of the outputs. -/
def udpPart (es : List (UdpFlowKey × List UdpGroItem)) (pkts : List Packet) : List (Packet × Nat) :=
  ((udpBins.comap Prod.fst).clustersIn (fun p => udpKey p.1) (es.map Prod.fst)
    (taken .udp pkts)).flatMap Cluster.toList

section Parts

variable {pkts : List Packet} {tes : List (TcpFlowKey × List TcpGroItem)}
variable {ues : List (UdpFlowKey × List UdpGroItem)}

theorem perm_tcpPart (h : tes.Perm (Batch.addAll pkts).tcpGro.entries) :
    (tcpPart tes pkts).Perm (taken .tcp pkts) := by
  refine perm_table ?_
  rw [map_fst_taken]
  simpa [addAll_eq] using h

theorem perm_udpPart (h : ues.Perm (Batch.addAll pkts).udpGro.entries) :
    (udpPart ues pkts).Perm (taken .udp pkts) := by
  refine perm_table ?_
  rw [map_fst_taken]
  simpa [addAll_eq] using h

theorem lane_of_mem_taken {lane : L4Class} {p : Packet × Nat} (h : p ∈ taken lane pkts) :
    laneOf p.1 = lane := by
  simpa using (List.mem_filter.1 h).2

theorem filter_parts (htes : tes.Perm (Batch.addAll pkts).tcpGro.entries)
    (hues : ues.Perm (Batch.addAll pkts).udpGro.entries) (flow : Flow) :
    (taken .other pkts ++ tcpPart tes pkts ++ udpPart ues pkts).filter
        (fun p => fiveTuple p.1 = some flow) =
      (taken .other pkts).filter (fun p => fiveTuple p.1 = some flow) ++
        (tcpPart tes pkts).filter (fun p => (tcpKey p.1).flow = flow) ++
        (udpPart ues pkts).filter fun p => (udpKey p.1).flow = flow := by
  rw [List.filter_append, List.filter_append]
  congr 1
  · congr 1
    refine List.filter_congr fun p hp => ?_
    simp [fiveTuple_of_tcp (lane_of_mem_taken ((perm_tcpPart htes).mem_iff.1 hp))]
  · refine List.filter_congr fun p hp => ?_
    simp [fiveTuple_of_udp (lane_of_mem_taken ((perm_udpPart hues).mem_iff.1 hp))]

end Parts

theorem origins_flatMap (tcpIt : Iteration TcpFlowKey (List TcpGroItem))
    (udpIt : Iteration UdpFlowKey (List UdpGroItem)) (pkts : List Packet) :
    (origins tcpIt udpIt pkts).flatMap Cluster.toList =
      taken .other pkts ++ tcpPart (tcpIt.order (Batch.addAll pkts).tcpGro.entries) pkts ++
        udpPart (udpIt.order (Batch.addAll pkts).udpGro.entries) pkts := by
  have hpass : ((taken .other pkts).map fun p => Cluster.mk p []).flatMap Cluster.toList =
      taken .other pkts := by
    simp [List.flatMap_map, Cluster.toList]
  unfold origins
  rw [List.flatMap_append, List.flatMap_append, hpass]
  rfl

theorem inOrder_iff_parts (pkts : List Packet) :
    InOrder pkts ↔ ∀ tes, tes.Perm (Batch.addAll pkts).tcpGro.entries →
      ∀ ues, ues.Perm (Batch.addAll pkts).udpGro.entries → ∀ flow,
        ((taken .other pkts).filter (fun p => fiveTuple p.1 = some flow) ++
          (tcpPart tes pkts).filter (fun p => (tcpKey p.1).flow = flow) ++
          (udpPart ues pkts).filter fun p => (udpKey p.1).flow = flow).Pairwise
            fun p q => p.2 < q.2 := by
  have hpos : InOrder pkts ↔ ∀ tcpIt : Iteration TcpFlowKey (List TcpGroItem),
      ∀ udpIt : Iteration UdpFlowKey (List UdpGroItem), ∀ flow,
      ((taken .other pkts ++ tcpPart (tcpIt.order (Batch.addAll pkts).tcpGro.entries) pkts ++
        udpPart (udpIt.order (Batch.addAll pkts).udpGro.entries) pkts).filter
          fun p => fiveTuple p.1 = some flow).Pairwise fun p q => p.2 < q.2 := by
    unfold InOrder flowPositions
    simp only [List.pairwise_map, origins_flatMap]
  rw [hpos, forall_iteration (p := fun tes => ∀ udpIt : Iteration UdpFlowKey (List UdpGroItem), ∀ flow,
    ((taken .other pkts ++ tcpPart tes pkts ++
      udpPart (udpIt.order (Batch.addAll pkts).udpGro.entries) pkts).filter
        fun p => fiveTuple p.1 = some flow).Pairwise fun p q => p.2 < q.2)]
  refine forall₂_congr fun tes htes => ?_
  rw [forall_iteration (p := fun ues => ∀ flow,
    ((taken .other pkts ++ tcpPart tes pkts ++ udpPart ues pkts).filter
        fun p => fiveTuple p.1 = some flow).Pairwise fun p q => p.2 < q.2)]
  refine forall₂_congr fun ues hues => forall_congr' fun flow => ?_
  rw [filter_parts htes hues]

/-- Packets that are passed through come out before all others: that is their order when none of
another lane was before them. -/
theorem passed_iff (pkts : List Packet) :
    (∀ flow, ∀ x ∈ taken .other pkts, fiveTuple x.1 = some flow → ∀ y ∈ pkts.zipIdx,
        laneOf y.1 ≠ .other → fiveTuple y.1 = some flow → x.2 < y.2) ↔
      ∀ pre pkt post, pkts = pre ++ pkt :: post → laneOf pkt = .other → ∀ flow,
        fiveTuple pkt = some flow → ∀ p ∈ pre, fiveTuple p = some flow → laneOf p = .other := by
  constructor
  · intro h pre pkt post heq hlane flow hflow p hp hflow'
    by_contra hne
    obtain ⟨i, hi⟩ := List.mem_iff_getElem?.1 hp
    have hlt : i < pre.length := (List.getElem?_eq_some_iff.1 hi).1
    have hx : (pkt, pre.length) ∈ pkts.zipIdx := by
      rw [List.mem_zipIdx_iff_getElem?, heq]
      simp
    have hy : (p, i) ∈ pkts.zipIdx := by
      rw [List.mem_zipIdx_iff_getElem?, heq, List.getElem?_append_left hlt, hi]
    have hxt : (pkt, pre.length) ∈ taken .other pkts := List.mem_filter.2 ⟨hx, by simp [hlane]⟩
    have hpos := h flow _ hxt hflow _ hy hne hflow'
    simp only at hpos
    omega
  · intro h flow x hx hflow y hy hne hflow'
    obtain ⟨hxz, -⟩ := List.mem_filter.1 hx
    have hlane := lane_of_mem_taken hx
    rw [List.mem_zipIdx_iff_getElem?] at hxz hy
    by_contra hge
    have hneq : x.2 ≠ y.2 := by
      intro heq
      rw [heq, hy, Option.some.injEq] at hxz
      exact hne (hxz ▸ hlane)
    obtain ⟨hlt, hget⟩ := List.getElem?_eq_some_iff.1 hxz
    have hsplit : pkts = pkts.take x.2 ++ x.1 :: pkts.drop (x.2 + 1) := by
      rw [← hget, List.getElem_cons_drop, List.take_append_drop]
    have hmem : y.1 ∈ pkts.take x.2 := by
      refine List.mem_of_getElem? (i := y.2) ?_
      rw [List.getElem?_take_of_lt (by omega), hy]
    exact hne (h _ _ _ hsplit hlane flow hflow y.1 hmem hflow')

/-- The packets of every flow come out in the order of the batch, for all orders of the tables, exactly
when every packet comes in its turn. -/
theorem inOrder_iff (pkts : List Packet) :
    InOrder pkts ↔ ∀ pre pkt post, pkts = pre ++ pkt :: post → InTurn pre pkt := by
  have htcp := pairwise_table (P := tcpBins) tcpKey TcpFlowKey.flow .tcp pkts
  have hudp := pairwise_table (P := udpBins) udpKey UdpFlowKey.flow .udp pkts
  have hpass := passed_iff pkts
  have hentries : (Batch.addAll pkts).tcpGro.entries =
      (tcpBins.pushAll tcpKey (pkts.filter (laneOf · = .tcp))).entries ∧
      (Batch.addAll pkts).udpGro.entries =
      (udpBins.pushAll udpKey (pkts.filter (laneOf · = .udp))).entries := by
    rw [addAll_eq]
    exact ⟨rfl, rfl⟩
  rw [← hentries.1] at htcp
  rw [← hentries.2] at hudp
  have hmem : ∀ {lane p}, p ∈ taken lane pkts → p ∈ pkts.zipIdx := fun h => (List.mem_filter.1 h).1
  rw [inOrder_iff_parts]
  constructor
  · intro h
    have ht := htcp.1 fun flow es hes =>
      (List.pairwise_append.1 (List.pairwise_append.1 (h es hes _ (.refl _) flow)).1).2.1
    have hu := hudp.1 fun flow es hes =>
      (List.pairwise_append.1 (h _ (.refl _) es hes flow)).2.1
    have hp := hpass.1 fun flow x hx hflow y hy hne hflow' => by
      have hpw := h _ (.refl _) _ (.refl _) flow
      have hxf : x ∈ (taken .other pkts).filter fun p => fiveTuple p.1 = some flow :=
        List.mem_filter.2 ⟨hx, by simpa using hflow⟩
      cases hl : laneOf y.1 with
      | other => exact absurd hl hne
      | tcp =>
        rw [fiveTuple_of_tcp hl, Option.some.injEq] at hflow'
        have hyt : y ∈ taken .tcp pkts := List.mem_filter.2 ⟨hy, by simpa using hl⟩
        exact (List.pairwise_append.1 (List.pairwise_append.1 hpw).1).2.2 x hxf y
          (List.mem_filter.2 ⟨(perm_tcpPart (.refl _)).mem_iff.2 hyt, by simpa using hflow'⟩)
      | udp =>
        rw [fiveTuple_of_udp hl, Option.some.injEq] at hflow'
        have hyt : y ∈ taken .udp pkts := List.mem_filter.2 ⟨hy, by simpa using hl⟩
        exact (List.pairwise_append.1 hpw).2.2 x (List.mem_append_left _ hxf) y
          (List.mem_filter.2 ⟨(perm_udpPart (.refl _)).mem_iff.2 hyt, by simpa using hflow'⟩)
    intro pre pkt post heq
    refine ⟨hp pre pkt post heq, fun hl p hp' hl' hflow => ?_, fun hl => ?_, fun hl => ?_⟩
    · have hf := (tcpKey_flow_eq_iff hl' hl).2 hflow
      exact (TcpFlowKey.eq_of_flow hf).1 ((ht pre pkt post heq hl).1 p hp' hl' hf)
    · rw [addAll_eq]
      exact (ht pre pkt post heq hl).2
    · rw [addAll_eq]
      exact (hu pre pkt post heq hl).2
  · intro h tes htes ues hues flow
    have ht := htcp.2 fun pre pkt post heq hl => by
      have hturn := h pre pkt post heq
      refine ⟨fun p hp hl' hf => ?_, ?_⟩
      · exact (TcpFlowKey.eq_of_flow hf).2 (hturn.ack hl p hp hl' ((tcpKey_flow_eq_iff hl' hl).1 hf))
      · have hnew := hturn.newestTcp hl
        rw [addAll_eq] at hnew
        exact hnew
    have hu := hudp.2 fun pre pkt post heq hl => by
      refine ⟨fun p _ _ hf => UdpFlowKey.flow_injective hf, ?_⟩
      have hnew := (h pre pkt post heq).newestUdp hl
      rw [addAll_eq] at hnew
      exact hnew
    have hp := hpass.2 fun pre pkt post heq => (h pre pkt post heq).passed
    have hcross : ∀ lane y, lane ≠ .other → y ∈ taken lane pkts → fiveTuple y.1 = some flow →
        ∀ x ∈ (taken .other pkts).filter (fun p => fiveTuple p.1 = some flow), x.2 < y.2 := by
      intro lane y hne hy hflow x hx
      obtain ⟨hx, hxf⟩ := List.mem_filter.1 hx
      exact hp flow x hx (by simpa using hxf) y (hmem hy) (by rwa [lane_of_mem_taken hy]) hflow
    refine List.pairwise_append.2 ⟨List.pairwise_append.2 ⟨?_, ht flow tes htes, ?_⟩,
      hu flow ues hues, ?_⟩
    · exact (pairwise_taken .other pkts).sublist List.filter_sublist
    · intro x hx y hy
      obtain ⟨hy, hyf⟩ := List.mem_filter.1 hy
      have hyt := (perm_tcpPart htes).mem_iff.1 hy
      refine hcross .tcp y (by decide) hyt ?_ x hx
      rw [fiveTuple_of_tcp (lane_of_mem_taken hyt), of_decide_eq_true hyf]
    · intro x hx y hy
      obtain ⟨hy, hyf⟩ := List.mem_filter.1 hy
      have hyt := (perm_udpPart hues).mem_iff.1 hy
      rcases List.mem_append.1 hx with hx | hx
      · refine hcross .udp y (by decide) hyt ?_ x hx
        rw [fiveTuple_of_udp (lane_of_mem_taken hyt), of_decide_eq_true hyf]
      · -- No flow is both of TCP and of UDP.
        have hxf := of_decide_eq_true (List.mem_filter.1 hx).2
        have hl4 := congrArg Flow.l4 (hxf.trans (of_decide_eq_true hyf).symm)
        exact L4Class.noConfusion hl4

/-- A `FIN` comes out before the data that it follows in the batch. -/
theorem fin_overtakes : ¬ InOrder [sampleTcp 0 16 64 [1, 2], sampleTcp 2 17 64 [3, 4]] := by
  intro h
  have hpos := h .listed .listed (flowOf (sampleTcp 0 16 64 [1, 2]))
  exact absurd hpos (by decide +kernel)

end WutherCore.Capture.Gro
