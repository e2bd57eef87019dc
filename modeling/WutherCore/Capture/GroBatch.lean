import WutherCore.Capture.GroClusters

/-!
# A batch, and where its outputs come from

The loop of `merge_for_linux_tun_batch` puts every packet of the batch into one of three places
(`addAll_eq`).  `origins` lists, for each output, the packets of the batch it was made from, each with
its position in the batch; `written` says what the outputs are.
-/

namespace WutherCore.Capture.Gro

open WutherCore.Data Gso

/-! ### The loop -/

theorem Batch.add_of_tcp {b : Batch} {pkt : Packet} (h : laneOf pkt = .tcp) :
    b.add pkt = { b with tcpGro := tcpBins.push tcpKey b.tcpGro pkt } := by
  obtain ⟨hc, -, hp⟩ := parse_of_lane_tcp h
  simp only [add, hc, TcpGroTable.push, hp, pushParsed]
  simp only [Policy.push, tcpBins, Policy.place_comap]
  rfl

theorem Batch.add_of_udp {b : Batch} {pkt : Packet} (h : laneOf pkt = .udp) :
    b.add pkt = { b with udpGro := udpBins.push udpKey b.udpGro pkt } := by
  obtain ⟨hc, -, hp⟩ := parse_of_lane_udp h
  simp only [add, hc, UdpGroTable.push, hp, pushParsed]
  simp only [Policy.push, udpBins, Policy.place_comap]
  rfl

theorem Batch.add_of_other {b : Batch} {pkt : Packet} (h : laneOf pkt = .other) :
    b.add pkt = { b with passthrough := b.passthrough ++ [⟨pkt, none⟩] } := by
  unfold laneOf at h
  unfold add
  split at h
  · next hc =>
    cases hp : parseTcpIp pkt with
    | ok p => simp [hp, Except.isOk, Except.toBool] at h
    | error e => simp [hc, TcpGroTable.push, hp]
  · next hc =>
    cases hp : parseUdpIp pkt with
    | ok p => simp [hp, Except.isOk, Except.toBool] at h
    | error e => simp [hc, UdpGroTable.push, hp]
  · next hc => simp [hc]

theorem addAll_eq (pkts : List Packet) :
    Batch.addAll pkts = {
      tcpGro := tcpBins.pushAll tcpKey (pkts.filter (laneOf · = .tcp))
      udpGro := udpBins.pushAll udpKey (pkts.filter (laneOf · = .udp))
      passthrough := (pkts.filter (laneOf · = .other)).map (⟨·, none⟩) } := by
  induction pkts using List.reverseRecOn with
  | nil => rfl
  | append_singleton pkts pkt ih =>
    have hstep : Batch.addAll (pkts ++ [pkt]) = (Batch.addAll pkts).add pkt := by simp [Batch.addAll]
    rw [hstep, List.filter_append, List.filter_append, List.filter_append]
    cases h : laneOf pkt with
    | tcp =>
      rw [Batch.add_of_tcp h, ih]
      simp [h, Policy.pushAll_concat]
    | udp =>
      rw [Batch.add_of_udp h, ih]
      simp [h, Policy.pushAll_concat]
    | other =>
      rw [Batch.add_of_other h, ih]
      simp [h]

/-! ### Origins -/

/-- The packets of a batch, with their positions, that go to one of the places. -/
def taken (lane : L4Class) (pkts : List Packet) : List (Packet × Nat) :=
  pkts.zipIdx.filter fun p => laneOf p.1 = lane

theorem map_fst_taken (lane : L4Class) (pkts : List Packet) :
    (taken lane pkts).map Prod.fst = pkts.filter (laneOf · = lane) := by
  rw [taken, ← List.zipIdx_map_fst 0 pkts, List.filter_map, List.zipIdx_map_fst]
  rfl

/-- For each output of `merge_for_linux_tun_batch`, the packets of the batch it was made from. -/
def origins (tcpIt : Iteration TcpFlowKey (List TcpGroItem))
    (udpIt : Iteration UdpFlowKey (List UdpGroItem)) (pkts : List Packet) :
    List (Cluster (Packet × Nat)) :=
  let b := Batch.addAll pkts
  (taken .other pkts).map (⟨·, []⟩) ++
    (tcpBins.comap Prod.fst).clustersIn (fun p => tcpKey p.1)
      ((tcpIt.order b.tcpGro.entries).map Prod.fst) (taken .tcp pkts) ++
    (udpBins.comap Prod.fst).clustersIn (fun p => udpKey p.1)
      ((udpIt.order b.udpGro.entries).map Prod.fst) (taken .udp pkts)

/-- What is written for the packets of a cluster. -/
def Written (g : Cluster Packet) (out : GroOutput) : Prop :=
  (laneOf g.first = .other ∧ g.rest = [] ∧ out = ⟨g.first, none⟩) ∨ Coalesced g out

variable {tcpIt : Iteration TcpFlowKey (List TcpGroItem)}
variable {udpIt : Iteration UdpFlowKey (List UdpGroItem)} {pkts : List Packet}

theorem coalesced_of_mem_tcp {ks : List TcpFlowKey} {g : Cluster Packet}
    (hg : g ∈ tcpBins.clustersIn tcpKey ks (pkts.filter (laneOf · = .tcp))) :
    Coalesced g (tcpBins.build g).output := by
  obtain ⟨hmem, hacc⟩ := Policy.of_mem_clustersIn hg
  refine coalesced_tcp hacc fun p hp => ⟨?_, (hmem p hp).2⟩
  simpa using (List.mem_filter.1 (hmem p hp).1).2

theorem coalesced_of_mem_udp {ks : List UdpFlowKey} {g : Cluster Packet}
    (hg : g ∈ udpBins.clustersIn udpKey ks (pkts.filter (laneOf · = .udp))) :
    Coalesced g (udpBins.build g).output := by
  obtain ⟨hmem, hacc⟩ := Policy.of_mem_clustersIn hg
  refine coalesced_udp hacc fun p hp => ⟨?_, (hmem p hp).2⟩
  simpa using (List.mem_filter.1 (hmem p hp).1).2

theorem written_table {β κ : Type} [DecidableEq κ] {P : Policy Packet β} {key : Packet → κ}
    {out : β → GroOutput} {as : List (Packet × Nat)} {es : List (κ × List β)}
    (hes : es.Perm (P.pushAll key (as.map Prod.fst)).entries)
    (hco : ∀ g ∈ P.clustersIn key (es.map Prod.fst) (as.map Prod.fst), Coalesced g (out (P.build g))) :
    List.Forall₂ (fun g o => Written (g.map Prod.fst) o)
      ((P.comap Prod.fst).clustersIn (fun p => key p.1) (es.map Prod.fst) as)
      ((es.flatMap Prod.snd).map out) := by
  rw [← Policy.map_build_clustersIn _ hes, ← Policy.map_clustersIn_comap, List.map_map, List.map_map,
    List.forall₂_map_right_iff, List.forall₂_same]
  intro g hg
  refine .inr (hco _ ?_)
  rw [← Policy.map_clustersIn_comap]
  exact List.mem_map_of_mem hg

theorem written (tcpIt : Iteration TcpFlowKey (List TcpGroItem))
    (udpIt : Iteration UdpFlowKey (List UdpGroItem)) (pkts : List Packet) :
    List.Forall₂ (fun g out => Written (g.map Prod.fst) out) (origins tcpIt udpIt pkts)
      (mergeForLinuxTunBatch tcpIt udpIt pkts) := by
  have htcp := tcpIt.perm (Batch.addAll pkts).tcpGro.entries
  have hudp := udpIt.perm (Batch.addAll pkts).udpGro.entries
  unfold origins mergeForLinuxTunBatch
  refine List.rel_append (List.rel_append ?_ ?_) ?_
  · rw [addAll_eq]
    show List.Forall₂ _ _ ((pkts.filter (laneOf · = .other)).map fun p => GroOutput.mk p none)
    rw [← map_fst_taken, List.map_map, List.forall₂_map_left_iff, List.forall₂_map_right_iff,
      List.forall₂_same]
    intro p hp
    have hlane : laneOf p.1 = .other := by simpa using (List.mem_filter.1 hp).2
    exact .inl ⟨hlane, rfl, rfl⟩
  · refine written_table ?_ fun g hg => ?_
    · rw [map_fst_taken]
      simpa [addAll_eq] using htcp
    · rw [map_fst_taken] at hg
      exact coalesced_of_mem_tcp hg
  · refine written_table ?_ fun g hg => ?_
    · rw [map_fst_taken]
      simpa [addAll_eq] using hudp
    · rw [map_fst_taken] at hg
      exact coalesced_of_mem_udp hg

theorem perm_lanes (l : List (Packet × Nat)) :
    (l.filter (fun p => laneOf p.1 = .other) ++ l.filter (fun p => laneOf p.1 = .tcp) ++
      l.filter fun p => laneOf p.1 = .udp).Perm l := by
  induction l with
  | nil => exact .refl _
  | cons p l ih =>
    cases h : laneOf p.1 with
    | other => simpa [h] using ih.cons p
    | tcp =>
      simp only [List.filter_cons, h, reduceCtorEq, decide_false, decide_true, if_true, if_false,
        Bool.false_eq_true, List.append_assoc, List.cons_append] at ih ⊢
      exact List.perm_middle.trans (ih.cons p)
    | udp =>
      simp only [List.filter_cons, h, reduceCtorEq, decide_false, decide_true, if_true, if_false,
        Bool.false_eq_true] at ih ⊢
      exact List.perm_middle.trans (ih.cons p)

theorem perm_table {β κ : Type} [DecidableEq κ] {P : Policy Packet β} {key : Packet → κ}
    {as : List (Packet × Nat)} {es : List (κ × List β)}
    (hes : es.Perm (P.pushAll key (as.map Prod.fst)).entries) :
    (((P.comap Prod.fst).clustersIn (fun p => key p.1) (es.map Prod.fst) as).flatMap
      Cluster.toList).Perm as := by
  have hkeys := hes.map Prod.fst
  refine Policy.perm_clustersIn (hkeys.nodup_iff.2 (P.pushAll key _).nodup) fun a ha => ?_
  exact hkeys.mem_iff.2 ((Policy.mem_keys_pushAll _ _).2 ⟨a.1, List.mem_map_of_mem ha, rfl⟩)

theorem perm_origins (tcpIt : Iteration TcpFlowKey (List TcpGroItem))
    (udpIt : Iteration UdpFlowKey (List UdpGroItem)) (pkts : List Packet) :
    ((origins tcpIt udpIt pkts).flatMap Cluster.toList).Perm pkts.zipIdx := by
  have htcp := tcpIt.perm (Batch.addAll pkts).tcpGro.entries
  have hudp := udpIt.perm (Batch.addAll pkts).udpGro.entries
  have hpass : ((taken .other pkts).map fun p => Cluster.mk p []).flatMap Cluster.toList =
      taken .other pkts := by
    simp [List.flatMap_map, Cluster.toList]
  unfold origins
  rw [List.flatMap_append, List.flatMap_append, hpass]
  refine .trans (.append (.append (.refl _) (perm_table ?_)) (perm_table ?_)) (perm_lanes _)
  · rw [map_fst_taken]
    simpa [addAll_eq] using htcp
  · rw [map_fst_taken]
    simpa [addAll_eq] using hudp

end WutherCore.Capture.Gro
