import WutherCore.Capture.GsoSplit

/-!
# The indexes of the split

`GsoSplit` reads and writes fields at any offset.  `gso_split.rs` panics where an offset is not in the
packet: `Checked` has the functions of `gso_split.rs` once more, with no value there, and none either
where the loop does not end.  Where there is a value, it is the value of the split (`Checked.gsoSplit_eq`).

`process_vnet_segment` parses a frame, splits its packet and copies the packets that it gets into the
buffers of the caller.
-/

namespace WutherCore.Capture

open WutherCore.Data

namespace Gso

/-! ### The header of the device -/

/-- `VnetDecodeError`. -/
inductive VnetDecodeError
  | shortRead (got : Nat)
  | unsupportedGso (gsoType : UInt8)
  | payloadTooLarge (payload out : Nat)
  deriving DecidableEq, Repr

/-- `VIRTIO_NET_HDR_LEN`. -/
def virtioNetHdrLen : Nat := 10

/-- `VIRTIO_NET_HDR_F_NEEDS_CSUM`. -/
def virtioNetHdrFNeedsCsum : UInt8 := 0x01

/-- The `gso_type` of a byte: `VIRTIO_NET_HDR_GSO_NONE`, `_TCPV4`, `_TCPV6` or `_UDP_L4`. -/
def gsoTypeOfByte (byte : UInt8) : Option GsoType :=
  if byte = 0 then some .none
  else if byte = 1 then some .tcpV4
  else if byte = 4 then some .tcpV6
  else if byte = 5 then some .udpL4
  else none

/-- `u16::from_le_bytes([bytes[i], bytes[i + 1]])`. -/
def u16LeAt (bytes : List UInt8) (i : Nat) : Nat :=
  (byteAt bytes i).toNat + 256 * (byteAt bytes (i + 1)).toNat

/-- `parse_virtio_net_hdr`. -/
def parseVirtioNetHdr (bytes : List UInt8) : Except VnetDecodeError VirtioNetHdr :=
  if bytes.length < virtioNetHdrLen then .error (.shortRead bytes.length)
  else
    match gsoTypeOfByte (byteAt bytes 1) with
    | none => .error (.unsupportedGso (byteAt bytes 1))
    | some gsoType =>
      .ok {
        gsoType
        hdrLen := u16LeAt bytes 2
        gsoSize := u16LeAt bytes 4
        csumStart := u16LeAt bytes 6
        csumOffset := u16LeAt bytes 8
        needsCsum := byteAt bytes 0 &&& virtioNetHdrFNeedsCsum ≠ 0
      }

/-! ### Functions that panic -/

namespace Checked

/-- `fix_ipv4`; `fill_checksum` sums as many bytes as the header says it has. -/
def fixIpv4 (cs : Checksums) (seg : Packet) (totalLen segIndex : Nat) :
    Option (Except GsoSplitError Packet) :=
  if 20 ≤ totalLen ∧ totalLen ≤ seg.length ∧ totalLen < ipv4HeaderLen seg then none
  else some (Gso.fixIpv4 cs seg totalLen segIndex)

/-- `fix_ipv6`; `total_len - iphlen` must not be negative. -/
def fixIpv6 (seg : Packet) (totalLen iphlen : Nat) : Option (Except GsoSplitError Packet) :=
  if 40 ≤ totalLen ∧ totalLen ≤ seg.length ∧ totalLen < iphlen then none
  else some (Gso.fixIpv6 seg totalLen iphlen)

/-- `fix_tcp`: the sequence number, and the flags when the segment is not the last one. -/
def fixTcp (seg : Packet) (iphlen : Nat) (baseSeq gsoSize segIndex : UInt32) (notLast : Bool) :
    Option Packet :=
  if seg.length < iphlen + 8 ∨ (notLast = true ∧ seg.length < iphlen + 14) then none
  else some (Gso.fixTcp seg iphlen baseSeq gsoSize segIndex notLast)

/-- `fix_udp`: the two lengths are subtracted, cut to 16 bits and added. -/
def fixUdp (seg : Packet) (iphlen hdrlen : Nat) : Option Packet :=
  if hdrlen < iphlen ∨ seg.length < hdrlen ∨
      2 ^ 16 ≤ (hdrlen - iphlen) % 2 ^ 16 + (seg.length - hdrlen) % 2 ^ 16 ∨
      seg.length < iphlen + 6 then none
  else some (Gso.fixUdp seg iphlen hdrlen)

/-- `l4_fill`: the checksum field of TCP ends at byte 18, that of UDP at byte 8, and the checksum of
UDP covers as many bytes as the datagram says it has. -/
def l4Fill (cs : Checksums) (seg : Packet) (headerLen totalLen : Nat) (proto : UInt8)
    (src dst : List UInt8) : Option Packet :=
  if proto = 6 ∧ totalLen < headerLen + 18 then none
  else if proto = 17 ∧
      (totalLen < headerLen + 8 ∨ totalLen < headerLen + beAt 2 seg (headerLen + 4)) then none
  else some (Gso.l4Fill cs seg headerLen totalLen proto src dst)

/-- `recompute_l4_checksum`. -/
def recomputeL4Checksum (cs : Checksums) (seg : Packet) : Option (Except GsoSplitError Packet) :=
  if seg.length = 0 then none
  else
    let ipVersion := byteAt seg 0 >>> 4
    if ipVersion = 4 then
      let headerLen := ipv4HeaderLen seg
      let totalLen := beAt 2 seg 2
      if seg.length < 20 ∨ seg.length < headerLen ∨ headerLen > totalLen ∨ seg.length < totalLen then
        some (.error (.ipHeaderTooShort 4 seg.length))
      else
        (l4Fill cs seg headerLen totalLen (byteAt seg 9) (slice seg 12 16) (slice seg 16 20)).map .ok
    else if ipVersion = 6 then
      let totalLen := 40 + beAt 2 seg 4
      if seg.length < 40 ∨ seg.length < totalLen then
        some (.error (.ipHeaderTooShort 6 seg.length))
      else
        (l4Fill cs seg 40 totalLen (byteAt seg 6) (slice seg 8 24) (slice seg 24 40)).map .ok
    else some (.error (.invalidIpVersion ipVersion))

/-- The body of the loop of `gso_split`. -/
def splitSegment (cs : Checksums) (input : Packet) (opts : VirtioNetHdr) (nextDataAt segIndex : Nat) :
    Option (Except GsoSplitError Packet) :=
  let ipVersion := byteAt input 0 >>> 4
  let iphlen := opts.csumStart
  let hdrlen := opts.hdrLen
  let nextEnd := min (nextDataAt + opts.gsoSize) input.length
  let segDataLen := nextEnd - nextDataAt
  let totalLen := hdrlen + segDataLen
  if input.length < hdrlen ∨ nextEnd < nextDataAt then none
  else
    let seg := input.take hdrlen ++ slice input nextDataAt nextEnd
    let fixed := if ipVersion = 4 then fixIpv4 cs seg totalLen segIndex else fixIpv6 seg totalLen iphlen
    match fixed with
    | none => none
    | some (.error e) => some (.error e)
    | some (.ok seg) =>
      let seg :=
        if opts.gsoType = .tcpV4 ∨ opts.gsoType = .tcpV6 then
          fixTcp seg iphlen (UInt32.ofNat (beAt 4 input (iphlen + 4))) (UInt32.ofNat opts.gsoSize)
            (UInt32.ofNat segIndex) (nextEnd ≠ input.length)
        else fixUdp seg iphlen hdrlen
      seg.bind (recomputeL4Checksum cs)

/-- The loop of `gso_split`, with as many turns as `fuel` says; no value when they do not suffice. -/
def splitLoop (cs : Checksums) (input : Packet) (opts : VirtioNetHdr) :
    Nat → Nat → Nat → Option (Except GsoSplitError (List Packet))
  | 0, nextDataAt, _ => if nextDataAt < input.length then none else some (.ok [])
  | fuel + 1, nextDataAt, segIndex =>
    if nextDataAt < input.length then
      match splitSegment cs input opts nextDataAt segIndex with
      | none => none
      | some (.error e) => some (.error e)
      | some (.ok seg) =>
        (splitLoop cs input opts fuel (nextDataAt + opts.gsoSize) (segIndex + 1)).map
          fun segs => segs.map (seg :: ·)
    else some (.ok [])

/-- `gso_split`. -/
def gsoSplit (cs : Checksums) (input : Packet) (opts : VirtioNetHdr) :
    Option (Except GsoSplitError (List Packet)) :=
  let csumAt := opts.csumStart + opts.csumOffset
  if csumAt + 1 ≥ input.length then some (.error (.csumOffsetOutOfRange csumAt input.length))
  else if input.length < opts.hdrLen then
    some (.error (.inputShorterThanHdr input.length opts.hdrLen))
  else
    let payloadLen := input.length - opts.hdrLen
    if opts.gsoType = .none ∨ payloadLen ≤ max opts.gsoSize 1 then
      if opts.needsCsum then (recomputeL4Checksum cs input).map fun out => out.map ([·])
      else some (.ok [input])
    else
      -- The first sequence number is read behind the check that the TCP header is in the packet.
      match checkSplit input opts with
      | .error e => some (.error e)
      | .ok () => splitLoop cs input opts input.length opts.hdrLen 0

end Checked

/-- The loop of `process_vnet_segment` over the packets that are still to be copied, from slot `i`
on. -/
def fillSlots : Nat → List Packet → List (List UInt8) × List Nat → Option (List (List UInt8) × List Nat)
  | _, [], slots => some slots
  | i, seg :: rest, (bufs, sizes) =>
    match bufs[i]?, sizes[i]? with
    | some buf, some _ =>
      let nSeg := min seg.length buf.length
      fillSlots (i + 1) rest (bufs.set i (seg.take nSeg ++ buf.drop nSeg), sizes.set i nSeg)
    | _, _ => none

/-- `process_vnet_segment`: the number of slots it filled, the buffers and the sizes. -/
def processVnetSegment (cs : Checksums) (raw : List UInt8) (bufs : List (List UInt8)) (sizes : List Nat)
    (max : Nat) : Option (Nat × List (List UInt8) × List Nat) :=
  match parseVirtioNetHdr raw with
  | .error _ => some (0, bufs, sizes)
  | .ok hdr =>
    if raw.length < virtioNetHdrLen then some (0, bufs, sizes)
    else
      match Checked.gsoSplit cs (raw.drop virtioNetHdrLen) hdr with
      | none => none
      | some (.error _) => some (0, bufs, sizes)
      | some (.ok segs) =>
        let toFill := min segs.length max
        (fillSlots 0 (segs.take toFill) (bufs, sizes)).map fun slots => (toFill, slots)

/-! ### Where there is a value, it is the value of the split -/

namespace Checked

variable {cs : Checksums} {input seg : Packet} {opts : VirtioNetHdr}

theorem eq_of_guarded {α : Type*} {c : Prop} [Decidable c] {a b : α}
    (h : (if c then none else some a) = some b) : a = b := by
  split at h
  · cases h
  · exact Option.some.inj h

theorem recomputeL4Checksum_eq {r : Except GsoSplitError Packet}
    (h : recomputeL4Checksum cs seg = some r) : Gso.recomputeL4Checksum cs seg = r := by
  have hfill : ∀ {headerLen totalLen : Nat} {proto : UInt8} {src dst : List UInt8},
      (l4Fill cs seg headerLen totalLen proto src dst).map Except.ok = some r →
        .ok (Gso.l4Fill cs seg headerLen totalLen proto src dst) = r := by
    intro headerLen totalLen proto src dst hmap
    obtain ⟨filled, hfilled, hr⟩ := Option.map_eq_some_iff.mp hmap
    unfold l4Fill at hfilled
    split at hfilled
    · cases hfilled
    · rw [eq_of_guarded hfilled, hr]
  unfold recomputeL4Checksum at h
  unfold Gso.recomputeL4Checksum
  split at h
  · cases h
  · dsimp only at h ⊢
    split at h
    · next h4 =>
      rw [if_pos h4]
      split at h
      · next hshort => rw [if_pos hshort, Option.some.inj h]
      · next hlong => rw [if_neg hlong, hfill h]
    · next h4 =>
      rw [if_neg h4]
      split at h
      · next h6 =>
        rw [if_pos h6]
        split at h
        · next hshort => rw [if_pos hshort, Option.some.inj h]
        · next hlong => rw [if_neg hlong, hfill h]
      · next h6 => rw [if_neg h6, Option.some.inj h]

theorem splitSegment_eq {nextDataAt segIndex : Nat} {r : Except GsoSplitError Packet}
    (h : splitSegment cs input opts nextDataAt segIndex = some r) :
    Gso.splitSegment cs input opts nextDataAt segIndex = r := by
  unfold splitSegment at h
  unfold Gso.splitSegment
  dsimp only at h ⊢
  split at h
  · cases h
  · split at h
    · cases h
    · next e hfix =>
      rw [← Option.some.inj h]
      split at hfix
      · next h4 => rw [if_pos h4, eq_of_guarded hfix]; rfl
      · next h4 => rw [if_neg h4, eq_of_guarded hfix]; rfl
    · next seg' hfix =>
      obtain ⟨seg'', htrans, hsum⟩ := Option.bind_eq_some_iff.mp h
      have hip : (if byteAt input 0 >>> 4 = 4 then
          Gso.fixIpv4 cs (input.take opts.hdrLen ++
              slice input nextDataAt (min (nextDataAt + opts.gsoSize) input.length))
            (opts.hdrLen + (min (nextDataAt + opts.gsoSize) input.length - nextDataAt)) segIndex
          else Gso.fixIpv6 (input.take opts.hdrLen ++
              slice input nextDataAt (min (nextDataAt + opts.gsoSize) input.length))
            (opts.hdrLen + (min (nextDataAt + opts.gsoSize) input.length - nextDataAt))
            opts.csumStart) = .ok seg' := by
        split at hfix
        · next h4 => rw [if_pos h4, eq_of_guarded hfix]
        · next h4 => rw [if_neg h4, eq_of_guarded hfix]
      rw [hip]
      change Gso.recomputeL4Checksum cs _ = r
      rw [← recomputeL4Checksum_eq hsum]
      split at htrans
      · next ht => rw [if_pos ht, eq_of_guarded htrans]
      · next ht => rw [if_neg ht, eq_of_guarded htrans]

theorem splitLoop_eq {fuel nextDataAt segIndex : Nat} {r : Except GsoSplitError (List Packet)}
    (h : splitLoop cs input opts fuel nextDataAt segIndex = some r) :
    Gso.splitLoop cs input opts fuel nextDataAt segIndex = some r := by
  induction fuel generalizing nextDataAt segIndex r with
  | zero => exact h
  | succ fuel ih =>
    unfold splitLoop at h
    unfold Gso.splitLoop
    split at h
    · next hlt =>
      rw [if_pos hlt]
      split at h
      · cases h
      · next e hseg =>
        rw [splitSegment_eq hseg]
        exact h
      · next seg hseg =>
        obtain ⟨segs, hloop, hr⟩ := Option.map_eq_some_iff.mp h
        rw [splitSegment_eq hseg]
        dsimp only
        rw [ih hloop, Option.map_some, hr]
    · next hge => rw [if_neg hge, h]

/-- The split that panics is the split, where it has a value. -/
theorem gsoSplit_eq {r : Except GsoSplitError (List Packet)} (h : gsoSplit cs input opts = some r) :
    Gso.gsoSplit cs input opts = some r := by
  unfold gsoSplit at h
  unfold Gso.gsoSplit
  dsimp only at h ⊢
  split at h
  · next hcsum => rw [if_pos hcsum, h]
  · next hcsum =>
    rw [if_neg hcsum]
    split at h
    · next hhdr => rw [if_pos hhdr, h]
    · next hhdr =>
      rw [if_neg hhdr]
      split at h
      · next hone =>
        rw [if_pos hone]
        split at h
        · next hneeds =>
          obtain ⟨out, hout, hr⟩ := Option.map_eq_some_iff.mp h
          rw [if_pos hneeds, recomputeL4Checksum_eq hout, hr]
        · next hneeds => rw [if_neg hneeds, h]
      · next hone =>
        rw [if_neg hone]
        cases hcheck : checkSplit input opts with
        | error e =>
          rw [hcheck] at h
          exact h
        | ok _ =>
          rw [hcheck] at h
          exact splitLoop_eq h

end Checked

end Gso

end WutherCore.Capture
