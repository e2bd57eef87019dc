import WutherCore.Data.Moves
import WutherCore.Data.Transport
import WutherCore.Proto.ChunkStream
import WutherCore.Proto.Vmess

/-!
# Polls of a VMess stream

`VmessStream::poll_write` puts a sealed packet aside until the transport has taken all of it, so that a
poll that is repeated after `Pending` goes on where the transport stopped.

* `wrapChunkStream`: which securities and options are accepted.
* `VmessWorld.step`: a poll of the writer, with the answers of the transport.
* `VmessPoll.Ok`: the polls that do not fail.  One can fail only under the security `Auto` with sealed
  lengths: its payloads have no tag, and `encode_length_field` wants a chunk that is not smaller than one.
* `VmessWorld.LockStep`: what the peer has received, and where both sides stand.
* `vmess_lockStep`: if no poll fails, the two sides stay in lock-step.
-/

namespace WutherCore.Proto

open WutherCore.Data
open WutherCore.Young (Bytes)

/-- A poll of the writer: the bytes, the random padding and the answers of the transport. -/
structure VmessPoll where
  data : List UInt8
  fill : (n : Nat) → Bytes n
  answers : List Answer

/-- `PendingWrite`. -/
structure PendingWrite where
  packet : List UInt8
  offset : Nat
  plaintextLen : Nat

/-- A stream and its writer.  `retry` is what the writer has to poll with, after `Pending`. -/
structure VmessWorld where
  send : ChunkCryptor
  pendingWrite : Option PendingWrite := none
  wire : List UInt8 := []
  accepted : List UInt8 := []
  retry : Option (List UInt8) := none

section Model

variable (cr : Ciphers VmessAead) (h : VmessHashes)

/-- `wrap_chunk_stream`: the cryptors of the two directions. -/
def wrapChunkStream (security : VmessSecurity) (reqKey reqIv : List UInt8) (options : UInt8) :
    Except VmessError (ChunkCryptor × ChunkCryptor) :=
  if options &&& vmessOptionGlobalPadding ≠ 0 ∧ options &&& vmessOptionChunkMasking = 0 then
    .error .paddingRequiresMasking
  else if options &&& vmessOptionAuthLen ≠ 0 ∧ security = .none then .error .authLenRequiresAead
  else
    let recvIv := (h.sha256 reqIv).take 16
    let recvKey := (h.sha256 reqKey).take 16
    .ok (ChunkCryptor.new h security reqKey reqIv options reqKey reqIv,
      ChunkCryptor.new h security recvKey recvIv options reqKey reqIv)

/-- The loop of `poll_write`, with the packet that is put aside. -/
def VmessWorld.push (w : VmessWorld) (p : VmessPoll) (pending : PendingWrite) : Option VmessWorld :=
  (writeOut (pending.packet.drop pending.offset) p.answers).map fun (written, all) =>
    if all then
      { w with
        pendingWrite := none
        wire := w.wire ++ written
        accepted := w.accepted ++ p.data.take pending.plaintextLen
        retry := none }
    else
      { w with
        pendingWrite := some { pending with offset := pending.offset + written.length }
        wire := w.wire ++ written
        retry := some p.data }

/-- `poll_write`.  A poll that fails leaves the cryptor as it is then. -/
def VmessWorld.step (w : VmessWorld) (p : VmessPoll) : Option VmessWorld :=
  if w.retry = none ∨ w.retry = some p.data then
    match w.pendingWrite with
    | some pending => w.push p pending
    | none =>
      if p.data = [] then some { w with retry := none }
      else
        match w.send.beginWrite cr h p.data p.fill with
        | (.error _, send) => some { w with send := send, retry := none }
        | (.ok packet, send) =>
          { w with send := send }.push p ⟨packet, 0, (w.send.chunkOf p.data).length⟩
  else none

/-- The polls that do not fail: a chunk that is begun under `Auto` with a sealed length has, with its
padding, the size of a tag. -/
def VmessPoll.Ok (security : VmessSecurity) (options : UInt8) (w : VmessWorld) (p : VmessPoll) : Prop :=
  security = .auto → options &&& vmessOptionAuthLen ≠ 0 → w.pendingWrite = none → p.data ≠ [] →
    16 ≤ (w.send.chunkOf p.data).length + (w.send.nextPaddingLen h).1

instance (security : VmessSecurity) (options : UInt8) (w : VmessWorld) (p : VmessPoll) :
    Decidable (p.Ok h security options w) := by
  unfold VmessPoll.Ok
  infer_instance

/-- A peer that was built with the parameters of `w`, which has received nothing. -/
def vmessPeer (security : VmessSecurity) (reqKey reqIv : List UInt8) (options : UInt8) : VmessReceiver :=
  ⟨ChunkCryptor.new h security reqKey reqIv options reqKey reqIv, .length⟩

/-- The two sides are in lock-step.  However the wire is cut, the peer receives a part of what was
accepted, and all of it when everything has arrived; at the end of a chunk it is in the state of the
sender; and the next chunk fits its length field, whatever it is. -/
structure VmessWorld.LockStep (peer : VmessReceiver) (w : VmessWorld) : Prop where
  delivers : ∀ pieces rest, pieces.flatten ++ rest = w.wire →
    ∃ r, feedAll (vmessProgress cr h) (.start peer) pieces = some (r, .ok ()) ∧
      r.delivered.flatten <+: w.accepted ∧ (rest = [] → r.delivered.flatten = w.accepted)
  inStep : w.pendingWrite = none → ∀ pieces, pieces.flatten = w.wire →
    ∃ r, feedAll (vmessProgress cr h) (.start peer) pieces = some (r, .ok ()) ∧
      r.state = ⟨w.send, .length⟩ ∧ r.buffer = []
  fits : ∀ data, w.send.totalSize cr h data < 2 ^ 16

/-! ### What a poll keeps -/

/-- A packet that is put aside: the wire has its first part behind the frames, and the receiver stands
where the sender stood before it was sealed. -/
structure Aside (peer : VmessReceiver) (w : VmessWorld) (data : List UInt8) (pending : PendingWrite) :
    Prop where
  chunk : ∃ c frames ms field body, w.wire = frames.flatten ++ pending.packet.take pending.offset ∧
    ms.flatten = w.accepted ∧ Framed (vmessProgress cr h) peer frames ms ⟨c, .length⟩ ∧
    pending.packet = field ++ body ∧
    Framed (vmessProgress cr h) ⟨c, .length⟩ [field, body] [[], data.take pending.plaintextLen]
      ⟨w.send, .length⟩
  offset_lt : pending.offset < pending.packet.length

/-- Between two packets the wire is whole frames; otherwise a packet is put aside. -/
structure VmessWorld.Inv (peer : VmessReceiver) (w : VmessWorld) : Prop where
  keys : SameKeys peer.recv w.send
  idle : w.pendingWrite = none → ∃ frames ms, w.wire = frames.flatten ∧
    ms.flatten = w.accepted ∧ Framed (vmessProgress cr h) peer frames ms ⟨w.send, .length⟩
  busy : ∀ pending ∈ w.pendingWrite, ∃ data, w.retry = some data ∧ Aside cr h peer w data pending

variable {cr h} {w w' : VmessWorld} {p : VmessPoll} {peer : VmessReceiver} {pending : PendingWrite}

/-- The transport takes some of a packet. -/
theorem VmessWorld.Inv.push (hkeys : SameKeys peer.recv w.send) (haside : Aside cr h peer w p.data pending)
    (hpush : w.push p pending = some w') : w'.Inv cr h peer := by
  obtain ⟨c, frames, ms, field, body, hwire, hms, hframed, hpacket, hchunk⟩ := haside.chunk
  obtain ⟨⟨written, all⟩, hout, rfl⟩ := Option.map_eq_some_iff.1 hpush
  obtain ⟨hparts, hall⟩ := writeOut_append_drop hout
  cases all with
  | true =>
    obtain rfl := hall rfl
    refine ⟨hkeys, fun _ => ?_, fun _ hp => by cases hp⟩
    refine ⟨frames ++ [field, body], ms ++ [[], p.data.take pending.plaintextLen], ?_, ?_,
      hframed.append hchunk⟩
    · simp only [if_true, hwire, List.append_assoc, List.take_append_drop, hpacket]
      simp
    · simp [hms]
  | false =>
    refine ⟨hkeys, fun hnone => (by cases hnone), fun pending' hp => ?_⟩
    obtain rfl : { pending with offset := pending.offset + written.length } = pending' := Option.some.inj hp
    have htake : pending.packet.take (pending.offset + written.length) =
        pending.packet.take pending.offset ++ written := by
      rw [List.take_add, ← hparts, List.take_left]
    refine ⟨p.data, rfl, ⟨c, frames, ms, field, body, ?_, hms, hframed, hpacket, hchunk⟩, ?_⟩
    · simp [hwire, htake]
    · -- something is left of the packet
      have hlen := congrArg List.length hparts
      have hne : (pending.packet.drop pending.offset).drop written.length ≠ [] := by
        intro hnil
        rw [hnil, List.append_nil] at hparts
        exact writeOut_ne hout hparts
      have hpos := List.length_pos_iff.2 hne
      simp only [List.length_append, List.length_drop] at hlen hpos ⊢
      omega

theorem new_isSome (security : VmessSecurity) (reqKey reqIv : List UInt8) (options : UInt8) :
    ((ChunkCryptor.new h security reqKey reqIv options reqKey reqIv).aead.isSome ↔
      security ≠ .none ∧ security ≠ .auto) ∧
    ((ChunkCryptor.new h security reqKey reqIv options reqKey reqIv).authLenAead.isSome →
      options &&& vmessOptionAuthLen ≠ 0 ∧ security ≠ .none) := by
  constructor
  · cases security <;> simp [ChunkCryptor.new]
  · simp only [ChunkCryptor.new]
    split_ifs with hopt
    · cases security <;> simp_all
    · simp

theorem VmessPoll.Ok.totalSize_le (hcr : cr.Lawful) {security : VmessSecurity} {reqKey reqIv : List UInt8}
    {options : UInt8} (hkeys : SameKeys (vmessPeer h security reqKey reqIv options).recv w.send)
    (hok : p.Ok h security options w) (hnone : w.pendingWrite = none) (hdata : p.data ≠ [])
    (hlen : w.send.authLenAead.isSome) : 16 ≤ w.send.totalSize cr h p.data := by
  have hnew := new_isSome (h := h) security reqKey reqIv options
  rw [hkeys.authLenAead] at hlen
  obtain ⟨hopt, hsec⟩ := hnew.2 hlen
  unfold ChunkCryptor.totalSize
  rw [length_sealPayload hcr, hkeys.aead]
  by_cases hauto : security = .auto
  · have hle := hok hauto hopt hnone hdata
    omega
  · have haead : (vmessPeer h security reqKey reqIv options).recv.aead.isSome := hnew.1.2 ⟨hsec, hauto⟩
    rw [if_pos haead]
    omega

/-- A poll that does not fail keeps the invariant. -/
theorem VmessWorld.Inv.step (hcr : cr.Lawful) {security : VmessSecurity} {reqKey reqIv : List UInt8}
    {options : UInt8} (hinv : w.Inv cr h (vmessPeer h security reqKey reqIv options))
    (hok : p.Ok h security options w) (hstep : w.step cr h p = some w') :
    w'.Inv cr h (vmessPeer h security reqKey reqIv options) := by
  unfold VmessWorld.step at hstep
  have hretry : w.retry = none ∨ w.retry = some p.data := by
    by_contra hno
    rw [if_neg hno] at hstep
    cases hstep
  rw [if_pos hretry] at hstep
  cases hpending : w.pendingWrite with
  | some pending =>
    obtain ⟨data, hdata, haside⟩ := hinv.busy pending hpending
    obtain rfl : data = p.data := by simpa [hdata] using hretry
    rw [hpending] at hstep
    exact .push hinv.keys haside hstep
  | none =>
    obtain ⟨frames, ms, hwire, hms, hframed⟩ := hinv.idle hpending
    rw [hpending] at hstep
    dsimp only at hstep
    split_ifs at hstep with hdata
    · cases hstep
      exact ⟨hinv.keys, fun _ => ⟨frames, ms, hwire, hms, hframed⟩, fun _ hp => (by cases hp)⟩
    · obtain ⟨packet, send, hbegin⟩ := exists_beginWrite p.fill hcr
        (hok.totalSize_le hcr hinv.keys hpending hdata)
      have hchunk : w.send.chunkOf p.data ≠ [] := by
        intro hnil
        rcases List.take_eq_nil_iff.1 hnil with hzero | hnil
        · unfold payloadMax VmessSecurity.tagLen at hzero
          split at hzero <;> omega
        · exact hdata hnil
      obtain ⟨field, body, rfl, hframed'⟩ := beginWrite_framed hcr hchunk hbegin
      have hkeys := beginWrite_sameKeys cr h w.send p.data p.fill
      rw [hbegin] at hstep hkeys
      have htake : p.data.take (w.send.chunkOf p.data).length = w.send.chunkOf p.data := by
        simp [ChunkCryptor.chunkOf, List.take_eq_take_min]
      dsimp only at hstep
      refine .push (hinv.keys.trans hkeys) ?_ hstep
      refine ⟨⟨w.send, frames, ms, field, body, ?_, hms, hframed, rfl, ?_⟩, ?_⟩
      · simp [hwire]
      · rw [htake]
        exact hframed'
      · have hpos := List.length_pos_iff.2 (hframed'.nonempty field (by simp))
        dsimp only
        rw [List.length_append]
        omega

theorem vmessProgress_nil (r : VmessReceiver) : vmessProgress cr h r [] = .ok none :=
  exactly_nil r.need_pos

theorem VmessWorld.Inv.carries (hinv : w.Inv cr h peer) :
    ∃ ms, ms.flatten = w.accepted ∧ Carries (vmessProgress cr h) peer w.wire ms := by
  cases hpending : w.pendingWrite with
  | none =>
    obtain ⟨frames, ms, hwire, hms, hframed⟩ := hinv.idle hpending
    exact ⟨ms, hms, hwire ▸ hframed.carries (vmessProgress_nil _)⟩
  | some pending =>
    obtain ⟨data, -, haside⟩ := hinv.busy pending hpending
    obtain ⟨c, frames, ms, field, body, hwire, hms, hframed, hpacket, hchunk⟩ := haside.chunk
    have hflat : [field, body].flatten = pending.packet := by simp [hpacket]
    have hprefix : pending.packet.take pending.offset <+: [field, body].flatten := by
      rw [hflat]
      exact List.take_prefix _ _
    have hcut : pending.packet.take pending.offset ≠ [field, body].flatten := by
      -- not all of the packet was taken
      intro hall
      have hlen := congrArg List.length hall
      have hlt := haside.offset_lt
      rw [hflat, List.length_take] at hlen
      omega
    obtain ⟨ms', hms', hcarries⟩ := hframed.carries_header hchunk (vmessProgress_nil _) hprefix hcut
    exact ⟨ms', hms'.trans hms, hwire ▸ hcarries⟩

theorem VmessWorld.Inv.lockStep (hcr : cr.Lawful) (hinv : w.Inv cr h peer) : w.LockStep cr h peer where
  delivers := by
    intro pieces rest hp
    obtain ⟨ms, hms, hcarries⟩ := hinv.carries
    obtain ⟨r, hr, ⟨ms₂, rfl⟩, hall⟩ := hcarries.delivered hp
    refine ⟨r, hr, ?_, fun hnil => ?_⟩
    · rw [← hms, List.flatten_append]
      exact List.prefix_append _ _
    · rw [← hms, ← hall hnil]
  inStep := by
    intro hnone pieces hp
    obtain ⟨frames, ms, hwire, -, hframed⟩ := hinv.idle hnone
    exact ⟨_, hframed.feedAll (vmessProgress_nil _) (hp.trans hwire), rfl, rfl⟩
  fits := totalSize_lt hcr w.send

theorem VmessWorld.Inv.start (peer : ChunkCryptor) :
    VmessWorld.Inv cr h ⟨peer, .length⟩ { send := peer } where
  keys := .refl peer
  idle := fun _ => ⟨[], [], rfl, rfl, .nil _⟩
  busy := fun _ hp => by cases hp

end Model

/-- **The two sides stay in lock-step.**  For every security and all options that are accepted, whatever
is written, however the transport takes it and however it arrives: if no chunk that is begun under `Auto`
with a sealed length is smaller than a tag, then a peer with the same parameters receives what
`poll_write` has accepted, stands in the sender's state at the end of a chunk, and no chunk outgrows its
length field. -/
theorem vmess_lockStep (cr : Ciphers VmessAead) (hcr : cr.Lawful) (h : VmessHashes)
    (security : VmessSecurity) (reqKey reqIv : List UInt8) (options : UInt8) (send recv : ChunkCryptor)
    (hwrap : wrapChunkStream h security reqKey reqIv options = .ok (send, recv)) (w : VmessWorld)
    (hreach : Reach (VmessWorld.step cr h) (fun w p => VmessPoll.Ok h security options w p)
      { send := send } w) :
    w.LockStep cr h (vmessPeer h security reqKey reqIv options) := by
  have hsend : send = ChunkCryptor.new h security reqKey reqIv options reqKey reqIv := by
    unfold wrapChunkStream at hwrap
    split_ifs at hwrap
    exact (congrArg Prod.fst (Except.ok.inj hwrap)).symm
  subst hsend
  have hinv : w.Inv cr h (vmessPeer h security reqKey reqIv options) :=
    hreach.inv (fun _ _ _ hi hok hs => hi.step hcr hok hs) (.start _)
  exact hinv.lockStep hcr

/-! ### Runs -/

/-- Hash functions that return zeros. -/
def zeroHashes : VmessHashes where
  md5 := fun _ => List.replicate 16 0
  sha256 := fun _ => List.replicate 32 0
  shake128 := fun _ _ => 0

/-- Random padding that is zero. -/
def zeroFill (n : Nat) : Bytes n := ⟨List.replicate n 0, List.length_replicate⟩

/-- The cryptor of a stream with these options. -/
def vmessSend (security : VmessSecurity) (options : UInt8) : ChunkCryptor :=
  ChunkCryptor.new zeroHashes security [] [] options [] []

/-- Two writes with a sealed length, taken in parts; the first one is polled again after `Pending`. -/
theorem vmess_lockStep_parts :
    ∃ w, Reach (VmessWorld.step (nonceCiphers _) zeroHashes)
        (fun w p => VmessPoll.Ok zeroHashes .aes128Gcm 0x1d w p)
        { send := vmessSend .aes128Gcm 0x1d } w ∧
      w.accepted = [1, 2, 3] ∧
      w.LockStep (nonceCiphers _) zeroHashes (vmessPeer zeroHashes .aes128Gcm [] [] 0x1d) := by
  have hrun : ∃ w, runMoves (onlyOk (VmessWorld.step (nonceCiphers _) zeroHashes)
      (fun w p => VmessPoll.Ok zeroHashes .aes128Gcm 0x1d w p)) { send := vmessSend .aes128Gcm 0x1d }
      [⟨[1, 2], zeroFill, [.ready 5, .pending]⟩, ⟨[1, 2], zeroFill, [.ready 31]⟩,
        ⟨[3], zeroFill, [.ready 35]⟩] = some w ∧ w.accepted = [1, 2, 3] := by
    refine ⟨_, rfl, ?_⟩
    decide +kernel
  obtain ⟨w, hw, haccepted⟩ := hrun
  have hreach := reach_of_onlyOk hw
  exact ⟨w, hreach, haccepted, vmess_lockStep _ nonceCiphers_lawful zeroHashes .aes128Gcm [] [] 0x1d _ _ rfl w
    hreach⟩

/-- A byte is written under `Auto` with a sealed length: the poll fails after the counters have moved on,
and the peer does not open what is accepted then. -/
theorem auto_out_of_step :
    ∃ w, runMoves (VmessWorld.step (nonceCiphers _) zeroHashes) { send := vmessSend .auto 0x11 }
        [⟨[1], zeroFill, []⟩, ⟨List.replicate 16 2, zeroFill, [.ready 34]⟩] = some w ∧
      w.accepted = List.replicate 16 2 ∧
      ¬w.LockStep (nonceCiphers _) zeroHashes (vmessPeer zeroHashes .auto [] [] 0x11) := by
  have hrun : ∃ w, runMoves (VmessWorld.step (nonceCiphers _) zeroHashes) { send := vmessSend .auto 0x11 }
      [⟨[1], zeroFill, []⟩, ⟨List.replicate 16 2, zeroFill, [.ready 34]⟩] = some w ∧
      w.accepted = List.replicate 16 2 ∧
      ((feedAll (vmessProgress (nonceCiphers _) zeroHashes)
        (.start (vmessPeer zeroHashes .auto [] [] 0x11)) [w.wire]).map fun r => r.2) =
        some (.error (.authLenOpen .aes128)) := by
    refine ⟨_, rfl, ?_, ?_⟩
    · decide +kernel
    · decide +kernel
  obtain ⟨w, hw, haccepted, hfailed⟩ := hrun
  refine ⟨w, hw, haccepted, fun hlock => ?_⟩
  obtain ⟨r, hr, -⟩ := hlock.delivers [w.wire] [] (by simp)
  rw [hr] at hfailed
  cases hfailed

end WutherCore.Proto
