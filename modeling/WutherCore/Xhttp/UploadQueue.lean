import WutherCore.Data.AssocMap
import WutherCore.Data.Moves
import Mathlib.Tactic.Linarith

/-!
# The upload queue of XHTTP `packet-up`

Every POST carries a sequence number, and the POSTs of a session arrive in any order.  `UploadQueue`
puts their payloads in order again.

* `push`, `close`, `fail`, and `turn`: one pass of the loop of `poll_read_slice` under the lock.
* `World`: requests and readers share a queue.  The lock is free between the passes of a reader, so
  that others act there.
* `World.Sound`: the bytes that readers got are those of the payloads in order, the queue holds at most
  one packet more than it may, and there is always room for the packet that comes next.

The number that comes next stays at `2 ^ 64 - 1` when it has got there.  From then on a packet with
this number is no longer known as one that was read (`World.last_read_twice`); all else is sound
(`World.reach_sound`).
-/

namespace WutherCore.Xhttp

open WutherCore.Data

/-- `io::ErrorKind`: those of the queue itself, and those it only hands on. -/
inductive ErrorKind
  | alreadyExists
  | brokenPipe
  | outOfMemory
  | other (code : Nat)
  deriving DecidableEq, Repr

/-- `QueueError`. -/
structure QueueError where
  kind : ErrorKind
  message : String
  deriving DecidableEq, Repr

/-- `Packet`. -/
structure Packet where
  seq : UInt64
  payload : List UInt8
  deriving DecidableEq

/-- `Inner`. -/
structure Inner where
  packets : AssocMap UInt64 (List UInt8) := .empty
  nextSeq : UInt64 := 0
  current : List UInt8 := []
  currentOffset : Nat := 0
  closed : Bool := false
  error : Option QueueError := none

/-- `clear_payloads`. -/
def Inner.clearPayloads (s : Inner) : Inner := { s with packets := .empty, current := [], currentOffset := 0 }

/-- `u64::MAX`. -/
abbrev lastSeq : UInt64 := 0xffffffffffffffff

/-- `u64::saturating_add(1)`. -/
def saturatingSucc (n : UInt64) : UInt64 := if n = lastSeq then lastSeq else n + 1

/-- `UploadQueue`, without what wakes its readers. -/
structure UploadQueue where
  inner : Inner := {}
  maxPackets : Nat

namespace UploadQueue

/-- `UploadQueue::new`. -/
def new (maxPackets : Nat) : UploadQueue := { maxPackets := max maxPackets 1 }

/-- The state behind the lock is set. -/
def setInner (q : UploadQueue) (s : Inner) : UploadQueue := { q with inner := s }

/-- The error of a queue that is closed. -/
def closedError : QueueError := ⟨.brokenPipe, "XHTTP upload queue is closed"⟩

/-- The error for a packet that is there already or was read. -/
def duplicateError (seq : UInt64) : QueueError :=
  ⟨.alreadyExists, "duplicate XHTTP upload sequence " ++ toString seq⟩

/-- The error for a packet that finds no room. -/
def roomError (q : UploadQueue) : QueueError :=
  ⟨.outOfMemory, "XHTTP upload reassembly exceeded " ++ toString q.maxPackets ++ " buffered POSTs"⟩

/-- `UploadQueue::push`. -/
def push (q : UploadQueue) (packet : Packet) : Except QueueError Unit × UploadQueue :=
  match q.inner.error with
  | some error => (.error error, q)
  | none =>
    if q.inner.closed then (.error closedError, q)
    else if packet.seq < q.inner.nextSeq ∨ q.inner.packets.contains packet.seq then
      (.error (duplicateError packet.seq), q)
    else if q.maxPackets ≤ q.inner.packets.size ∧ packet.seq ≠ q.inner.nextSeq then
      -- The whole stream fails, not only this packet.
      (.error q.roomError, q.setInner { q.inner with error := some q.roomError }.clearPayloads)
    else
      (.ok (), q.setInner { q.inner with packets := q.inner.packets.insert packet.seq packet.payload })

/-- `UploadQueue::close`. -/
def close (q : UploadQueue) : UploadQueue := q.setInner { q.inner with closed := true }

/-- `UploadQueue::fail`. -/
def fail (q : UploadQueue) (kind : ErrorKind) (message : String) : UploadQueue :=
  q.setInner { q.inner with
    error := some (q.inner.error.getD ⟨kind, message⟩)
    closed := true }.clearPayloads

/-- How a pass of the loop of `poll_read_slice` ends. -/
inductive Turn
  | ready (result : Except QueueError (List UInt8))
  | again
  | wait
  deriving DecidableEq

/-- One pass of the loop of `poll_read_slice`, for a reader with room for `room` bytes. -/
def turn (q : UploadQueue) (room : Nat) : Turn × UploadQueue :=
  match q.inner.error with
  | some error => (.ready (.error error), q)
  | none =>
    if q.inner.currentOffset < q.inner.current.length then
      let remaining := q.inner.current.drop q.inner.currentOffset
      let len := min remaining.length room
      let offset := q.inner.currentOffset + len
      (.ready (.ok (remaining.take len)),
        if offset = q.inner.current.length then
          q.setInner { q.inner with current := [], currentOffset := 0 }
        else q.setInner { q.inner with currentOffset := offset })
    else
      match q.inner.packets.get? q.inner.nextSeq with
      | some payload =>
        (.again, q.setInner { q.inner with
          packets := q.inner.packets.erase q.inner.nextSeq
          nextSeq := saturatingSucc q.inner.nextSeq
          current := payload
          currentOffset := 0 })
      | none =>
        if q.inner.closed then (.ready (.ok []), q.setInner q.inner.clearPayloads)
        else (.wait, q)

/-- What a reader looks at once more after it has registered its waker. -/
def isReady (q : UploadQueue) : Bool :=
  q.inner.error.isSome || q.inner.closed || q.inner.packets.contains q.inner.nextSeq

end UploadQueue

/-- Where a reader is in `poll_read_slice`. -/
inductive Phase
  | idle
  | loop (room : Nat)
  | registered (room : Nat)
  deriving DecidableEq

/-- A queue with its readers, the packets that were accepted and the bytes that readers got, both in
order, and how many packets were taken out to be read. -/
structure World where
  queue : UploadQueue
  readers : Nat → Phase := fun _ => .idle
  accepted : List Packet := []
  delivered : List UInt8 := []
  taken : Nat := 0

/-- What requests and readers do. -/
inductive Move
  | push (packet : Packet)
  | close
  | fail (kind : ErrorKind) (message : String)
  | poll (reader room : Nat)
  | turn (reader : Nat)
  | look (reader : Nat)

namespace World

/-- A new session. -/
def init (maxPackets : Nat) : World := { queue := .new maxPackets }

/-- A reader goes on to a phase. -/
def goto (w : World) (reader : Nat) (phase : Phase) : World :=
  { w with readers := Function.update w.readers reader phase }

/-- A reader's pass of the loop. -/
def turn (w : World) (reader room : Nat) : World :=
  let (outcome, queue) := w.queue.turn room
  let w := { w with queue := queue }
  match outcome with
  | .ready (.ok bytes) => { w with delivered := w.delivered ++ bytes }.goto reader .idle
  | .ready (.error _) => w.goto reader .idle
  | .again => { w with taken := w.taken + 1 }
  | .wait => w.goto reader (.registered room)

/-- One step, under the lock of the queue. -/
def step (w : World) : Move → Option World
  | .push packet =>
    match w.queue.push packet with
    | (.ok (), queue) => some { w with queue := queue, accepted := w.accepted ++ [packet] }
    | (.error _, queue) => some { w with queue := queue }
  | .close => some { w with queue := w.queue.close }
  | .fail kind message => some { w with queue := w.queue.fail kind message }
  | .poll reader room =>
    match w.readers reader with
    | .idle => some (if room = 0 then w else w.goto reader (.loop room))
    | _ => none
  | .turn reader =>
    match w.readers reader with
    | .loop room => some (w.turn reader room)
    | _ => none
  | .look reader =>
    match w.readers reader with
    | .registered room => some (w.goto reader (if w.queue.isReady then .loop room else .idle))
    | _ => none

/-- The payload of a sequence number: that of the first packet that was accepted with it. -/
def payload (w : World) (i : Nat) : Option (List UInt8) :=
  (w.accepted.find? fun p => p.seq.toNat = i).map Packet.payload

/-- The bytes of the first `n` payloads. -/
def stream (w : World) (n : Nat) : List UInt8 := (List.range n).flatMap fun i => (w.payload i).getD []

/-- The bytes that readers got are those of the payloads in order, as far as there are payloads. -/
def InOrder (w : World) : Prop :=
  ∃ n, (∀ i < n, (w.payload i).isSome) ∧ w.delivered <+: w.stream n

/-- What a queue for `limit` packets is for. -/
structure Sound (limit : Nat) (w : World) : Prop where
  inOrder : w.InOrder
  bounded : w.queue.inner.packets.size ≤ limit + 1
  next : w.queue.inner.error = none → w.queue.inner.closed = false →
    w.queue.inner.packets.contains w.queue.inner.nextSeq = false →
    ∀ payload, (w.queue.push ⟨w.queue.inner.nextSeq, payload⟩).1 = .ok ()

/-- A packet with the last number is not pushed again once one was accepted. -/
def LastOnce (w : World) : Move → Prop
  | .push packet => packet.seq = lastSeq → ∀ p ∈ w.accepted, p.seq ≠ lastSeq
  | _ => True

instance (w : World) : (m : Move) → Decidable (w.LastOnce m)
  | .push packet => inferInstanceAs (Decidable (packet.seq = lastSeq → ∀ p ∈ w.accepted, p.seq ≠ lastSeq))
  | .close | .fail _ _ | .poll _ _ | .turn _ | .look _ => inferInstanceAs (Decidable True)

end World

/-! ### What the operations do -/

namespace UploadQueue

variable {q q' : UploadQueue} {packet : Packet} {room : Nat}

/-- The bytes of the packet that is being read. -/
def rest (q : UploadQueue) : List UInt8 := q.inner.current.drop q.inner.currentOffset

/-- A queue that takes packets. -/
def IsOpen (q : UploadQueue) : Prop := q.inner.error = none ∧ q.inner.closed = false

/-- What a queue does with a packet. -/
inductive Pushed (q : UploadQueue) (packet : Packet) : Except QueueError Unit × UploadQueue → Prop
  | refused (error : QueueError) : Pushed q packet (.error error, q)
  | overflown : q.IsOpen → packet.seq ≠ q.inner.nextSeq →
      Pushed q packet
        (.error q.roomError, q.setInner { q.inner with error := some q.roomError }.clearPayloads)
  | stored : q.IsOpen → q.inner.nextSeq ≤ packet.seq → q.inner.packets.get? packet.seq = none →
      (q.inner.packets.size < q.maxPackets ∨ packet.seq = q.inner.nextSeq) →
      Pushed q packet (.ok (),
        q.setInner { q.inner with packets := q.inner.packets.insert packet.seq packet.payload })

theorem pushed_push (q : UploadQueue) (packet : Packet) : Pushed q packet (q.push packet) := by
  unfold push
  cases herror : q.inner.error with
  | some error => exact .refused error
  | none =>
    dsimp only
    split_ifs with hclosed hknown hroom
    · exact .refused _
    · exact .refused _
    · exact .overflown ⟨herror, by simpa using hclosed⟩ hroom.2
    · rw [not_or, AssocMap.contains, Option.isSome_iff_ne_none, not_not] at hknown
      refine .stored ⟨herror, by simpa using hclosed⟩ (UInt64.not_lt.1 hknown.1) hknown.2 ?_
      by_cases hnext : packet.seq = q.inner.nextSeq
      · exact .inr hnext
      · exact .inl (not_le.1 fun hle => hroom ⟨hle, hnext⟩)

theorem push_of_next (packet : Packet) (hopen : q.IsOpen) (hseq : packet.seq = q.inner.nextSeq)
    (hnew : q.inner.packets.get? packet.seq = none) : q.push packet =
      (.ok (), q.setInner { q.inner with packets := q.inner.packets.insert packet.seq packet.payload }) := by
  unfold push
  rw [hopen.1]
  simp [hopen.2, hseq ▸ hnew, hseq, AssocMap.contains]

theorem turn_of_next {payload : List UInt8} (room : Nat) (herror : q.inner.error = none)
    (hoffset : q.inner.current.length ≤ q.inner.currentOffset)
    (hnext : q.inner.packets.get? q.inner.nextSeq = some payload) : q.turn room =
      (.again, q.setInner { q.inner with
        packets := q.inner.packets.erase q.inner.nextSeq
        nextSeq := saturatingSucc q.inner.nextSeq
        current := payload
        currentOffset := 0 }) := by
  unfold turn
  rw [herror]
  simp only [if_neg (not_lt.2 hoffset), hnext]

/-- What a pass of the loop does. -/
inductive Turned (q : UploadQueue) : Turn × UploadQueue → Prop
  | failed (error : QueueError) : Turned q (.ready (.error error), q)
  | served (bytes current : List UInt8) (offset : Nat) : q.inner.error = none →
      bytes ++ current.drop offset = q.rest →
      Turned q (.ready (.ok bytes), q.setInner { q.inner with current := current, currentOffset := offset })
  | took (payload : List UInt8) : q.inner.error = none → q.rest = [] →
      q.inner.packets.get? q.inner.nextSeq = some payload →
      Turned q (.again, q.setInner { q.inner with
        packets := q.inner.packets.erase q.inner.nextSeq
        nextSeq := saturatingSucc q.inner.nextSeq
        current := payload
        currentOffset := 0 })
  | ended : q.inner.closed = true → q.rest = [] →
      Turned q (.ready (.ok []), q.setInner q.inner.clearPayloads)
  | waits : Turned q (.wait, q)

theorem turned_turn (q : UploadQueue) (room : Nat) : Turned q (q.turn room) := by
  unfold turn
  cases herror : q.inner.error with
  | some error => exact .failed error
  | none =>
    dsimp only
    by_cases hoffset : q.inner.currentOffset < q.inner.current.length
    · rw [if_pos hoffset]
      split_ifs with hend
      · -- The whole rest fits: what is taken is the rest, and nothing remains.
        refine .served _ _ _ herror ?_
        rw [List.length_drop] at hend
        rw [List.drop_nil, List.append_nil]
        exact List.take_of_length_le (by rw [List.length_drop]; omega)
      · refine .served _ _ _ herror ?_
        rw [← List.drop_drop, List.take_append_drop]
        rfl
    · rw [if_neg hoffset]
      have hrest : q.rest = [] := List.drop_eq_nil_of_le (not_lt.1 hoffset)
      cases hnext : q.inner.packets.get? q.inner.nextSeq with
      | some payload => exact .took payload herror hrest hnext
      | none =>
        dsimp only
        split_ifs with hclosed
        · exact .ended hclosed hrest
        · exact .waits

theorem toNat_saturatingSucc (n : UInt64) : (saturatingSucc n).toNat = min (n.toNat + 1) (2 ^ 64 - 1) := by
  unfold saturatingSucc
  have hlt := n.toNat_lt
  by_cases hn : n = lastSeq
  · subst hn
    rfl
  · have hne : n.toNat ≠ 2 ^ 64 - 1 := fun h => hn (UInt64.toNat_inj.1 h)
    rw [if_neg hn, UInt64.toNat_add, UInt64.toNat_one]
    omega

end UploadQueue

/-! ### What holds in every run -/

namespace World

open UploadQueue

variable {w : World} {packet : Packet} {i n : Nat}

/-- A packet is accepted into a queue. -/
def accept (w : World) (packet : Packet) (queue : UploadQueue) : World :=
  { w with queue := queue, accepted := w.accepted ++ [packet] }

theorem payload_accept (w : World) (packet : Packet) (queue : UploadQueue) (i : Nat) :
    (w.accept packet queue).payload i =
      (w.payload i).or (if packet.seq.toNat = i then some packet.payload else none) := by
  unfold payload accept
  rw [List.find?_append]
  by_cases hi : packet.seq.toNat = i <;> cases w.accepted.find? _ <;> simp [hi]

theorem payload_accept_of_isSome (queue : UploadQueue) (h : (w.payload i).isSome) :
    (w.accept packet queue).payload i = w.payload i := by
  obtain ⟨payload, hp⟩ := Option.isSome_iff_exists.1 h
  rw [payload_accept, hp, Option.some_or]

theorem stream_accept (queue : UploadQueue) (h : ∀ i < n, (w.payload i).isSome) :
    (w.accept packet queue).stream n = w.stream n := by
  unfold stream
  refine List.flatMap_congr fun i hi => ?_
  rw [payload_accept_of_isSome queue (h i (List.mem_range.1 hi))]

theorem stream_succ (w : World) (n : Nat) : w.stream (n + 1) = w.stream n ++ (w.payload n).getD [] := by
  rw [stream, List.range_succ, List.flatMap_append, List.flatMap_singleton]
  rfl

/-- **The invariant**: the packets that were taken out are the first ones, the bytes of all of them but
the last were read, and the packets that were accepted otherwise are in the queue, as long as it is
open. -/
structure Inv (w : World) : Prop where
  nextSeq : w.queue.inner.nextSeq.toNat = min w.taken (2 ^ 64 - 1)
  known : ∀ i < w.taken, (w.payload i).isSome
  delivered : w.delivered <+: w.stream w.taken
  rest : w.queue.inner.error = none → w.delivered ++ w.queue.rest = w.stream w.taken
  buffered : ∀ seq payload, w.queue.inner.packets.get? seq = some payload →
    w.payload seq.toNat = some payload ∧ w.taken ≤ seq.toNat
  accepted : w.queue.IsOpen → ∀ p ∈ w.accepted,
    p.seq.toNat < w.taken ∨ w.queue.inner.packets.get? p.seq ≠ none
  size : w.queue.inner.packets.size ≤ w.queue.maxPackets ∨
    w.queue.inner.packets.size = w.queue.maxPackets + 1 ∧
      w.queue.inner.packets.get? w.queue.inner.nextSeq ≠ none

theorem Inv.clear (h : w.Inv) (s : Inner) (hnext : s.nextSeq = w.queue.inner.nextSeq)
    (hopen : ¬(s.error = none ∧ s.closed = false))
    (hrest : s.error = none → w.queue.inner.error = none ∧ w.queue.rest = []) :
    Inv { w with queue := w.queue.setInner s.clearPayloads } where
  nextSeq := (congrArg UInt64.toNat hnext).trans h.nextSeq
  known := h.known
  delivered := h.delivered
  rest := by
    intro herror
    obtain ⟨herror', hempty⟩ := hrest herror
    have hdelivered := h.rest herror'
    rwa [hempty] at hdelivered
  buffered := fun _ _ hget => nomatch hget
  accepted := fun h' => absurd h' hopen
  size := .inl (Nat.zero_le _)

theorem Inv.goto (h : w.Inv) (reader : Nat) (phase : Phase) : (w.goto reader phase).Inv :=
  ⟨h.nextSeq, h.known, h.delivered, h.rest, h.buffered, h.accepted, h.size⟩

theorem Inv.push (h : w.Inv) (hlast : packet.seq = lastSeq → ∀ p ∈ w.accepted, p.seq ≠ lastSeq)
    {queue : UploadQueue} {r : Except QueueError Unit} (hpush : Pushed w.queue packet (r, queue)) :
    Inv (match r with | .ok () => w.accept packet queue | .error _ => { w with queue := queue }) := by
  cases hpush with
  | refused error => exact h
  | overflown hopen hne =>
    exact h.clear { w.queue.inner with error := some w.queue.roomError } rfl nofun nofun
  | stored hopen hle hnone hroom =>
    have hmin := h.nextSeq
    have hlt := packet.seq.toNat_lt
    have hle' : w.queue.inner.nextSeq.toNat ≤ packet.seq.toNat := hle
    -- No packet was accepted with this number: it would be in the queue, or be the last one.
    have hnew : ∀ p ∈ w.accepted, p.seq ≠ packet.seq := by
      intro p hp heq
      rcases h.accepted hopen p hp with htaken | hin
      · have hseq : packet.seq = lastSeq := UInt64.toNat_inj.1 (by
          rw [heq] at htaken
          show packet.seq.toNat = 2 ^ 64 - 1
          omega)
        exact hlast hseq p hp (heq.trans hseq)
      · exact hin (heq ▸ hnone)
    have hpayload : w.payload packet.seq.toNat = none := by
      rw [payload, List.find?_eq_none.2, Option.map_none]
      intro p hp
      simpa [UInt64.toNat_inj] using hnew p hp
    have htaken : w.taken ≤ packet.seq.toNat := by
      by_contra hgt
      simpa [hpayload] using h.known _ (not_le.1 hgt)
    refine ⟨hmin, ?_, ?_, ?_, ?_, ?_, ?_⟩
    · intro i hi
      rw [payload_accept_of_isSome _ (h.known i hi)]
      exact h.known i hi
    · show w.delivered <+: _
      rw [show (w.accept packet _).taken = w.taken from rfl, stream_accept _ h.known]
      exact h.delivered
    · intro herror
      rw [show (w.accept packet _).taken = w.taken from rfl, stream_accept _ h.known]
      exact h.rest herror
    · intro seq payload hget
      rw [payload_accept]
      by_cases hseq : seq = packet.seq
      · subst hseq
        obtain rfl : packet.payload = payload :=
          Option.some.inj ((AssocMap.get?_insert_self _ _ _).symm.trans hget)
        exact ⟨by rw [hpayload, if_pos rfl, Option.none_or], htaken⟩
      · obtain ⟨hp, hle⟩ := h.buffered seq payload ((AssocMap.get?_insert_of_ne _ _ hseq).symm.trans hget)
        exact ⟨by rw [hp, Option.some_or], hle⟩
    · intro _ p hp
      refine or_iff_not_imp_left.2 fun hge => ?_
      show (w.queue.inner.packets.insert packet.seq packet.payload).get? p.seq ≠ none
      rcases List.mem_append.1 hp with hp | hp
      · rw [AssocMap.get?_insert_of_ne _ _ (hnew p hp)]
        exact (h.accepted hopen p hp).resolve_left hge
      · rw [List.mem_singleton.1 hp, AssocMap.get?_insert_self]
        exact nofun
    · show (w.queue.inner.packets.insert packet.seq packet.payload).size ≤ w.queue.maxPackets ∨
        (w.queue.inner.packets.insert packet.seq packet.payload).size = w.queue.maxPackets + 1 ∧
          (w.queue.inner.packets.insert packet.seq packet.payload).get? w.queue.inner.nextSeq ≠ none
      rw [AssocMap.size_insert_of_none hnone]
      rcases hroom with hroom | hnext
      · exact .inl hroom
      · rw [hnext] at hnone ⊢
        rw [AssocMap.get?_insert_self]
        have hsize := h.size.resolve_right fun hfull => hfull.2 hnone
        rcases hsize.lt_or_eq with hlt | heq
        · exact .inl hlt
        · exact .inr ⟨by rw [heq], nofun⟩

theorem Inv.turn (h : w.Inv) (reader room : Nat) : (w.turn reader room).Inv := by
  have hturn := turned_turn w.queue room
  unfold World.turn
  revert hturn
  generalize w.queue.turn room = t
  intro hturn
  cases hturn with
  | failed error => exact h.goto reader .idle
  | waits => exact h.goto reader (.registered room)
  | ended hclosed hrest =>
    have hc := h.clear w.queue.inner rfl (fun ho => by simp [ho.2] at hclosed) fun herror => ⟨herror, hrest⟩
    rw [← List.append_nil w.delivered] at hc
    exact hc.goto reader .idle
  | served bytes current offset herror hrest =>
    have hstream : (w.delivered ++ bytes) ++ current.drop offset = w.stream w.taken := by
      rw [List.append_assoc, hrest, h.rest herror]
    exact ⟨h.nextSeq, h.known, ⟨_, hstream⟩, fun _ => hstream, h.buffered, h.accepted, h.size⟩
  | took payload herror hrest hnext =>
    obtain ⟨hpayload, hle⟩ := h.buffered _ _ hnext
    have hlt := w.queue.inner.nextSeq.toNat_lt
    have hnat := h.nextSeq
    have htaken : w.queue.inner.nextSeq.toNat = w.taken := by omega
    rw [htaken] at hpayload
    have hdelivered : w.delivered = w.stream w.taken := by simpa [hrest] using h.rest herror
    have hstream : w.delivered ++ payload = w.stream (w.taken + 1) := by
      rw [stream_succ, hpayload, hdelivered, Option.getD_some]
    refine ⟨?_, ?_, ⟨_, hstream⟩, fun _ => hstream, ?_, ?_, ?_⟩
    · exact (toNat_saturatingSucc _).trans (by rw [htaken])
    · intro i hi
      rcases Nat.lt_succ_iff_lt_or_eq.1 hi with hi | rfl
      · exact h.known i hi
      · exact Option.isSome_iff_exists.2 ⟨_, hpayload⟩
    · intro seq p hget
      obtain ⟨hget, hne⟩ := AssocMap.get?_erase_eq_some.1 hget
      obtain ⟨hp, hle⟩ := h.buffered seq p hget
      have hne' : seq.toNat ≠ w.taken := fun heq => hne (UInt64.toNat_inj.1 (heq.trans htaken.symm))
      exact ⟨hp, Nat.lt_of_le_of_ne hle hne'.symm⟩
    · intro hopen p hp
      by_cases hseq : p.seq = w.queue.inner.nextSeq
      · exact .inl (by show _ < w.taken + 1; rw [hseq, htaken]; exact Nat.lt_succ_self _)
      · refine (h.accepted ⟨herror, hopen.2⟩ p hp).imp Nat.lt_succ_of_lt fun hin => ?_
        exact (AssocMap.get?_erase_of_ne _ hseq).trans_ne hin
    · have hsize := AssocMap.size_erase hnext
      refine .inl ?_
      show (w.queue.inner.packets.erase w.queue.inner.nextSeq).size ≤ w.queue.maxPackets
      rcases h.size with hle | ⟨heq, -⟩ <;> omega

theorem inv_init (maxPackets : Nat) : (init maxPackets).Inv where
  nextSeq := rfl
  known := fun _ hi => absurd hi (Nat.not_lt_zero _)
  delivered := List.nil_prefix
  rest := fun _ => rfl
  buffered := fun _ _ hget => nomatch hget
  accepted := fun _ _ hp => absurd hp List.not_mem_nil
  size := .inl (Nat.zero_le _)

/-- What a step does. -/
inductive Stepped (w : World) : Move → World → Prop
  | accepted (packet : Packet) (queue : UploadQueue) : Pushed w.queue packet (.ok (), queue) →
      Stepped w (.push packet) (w.accept packet queue)
  | rejected (packet : Packet) (queue : UploadQueue) (error : QueueError) :
      Pushed w.queue packet (.error error, queue) → Stepped w (.push packet) { w with queue := queue }
  | closed : Stepped w .close { w with queue := w.queue.close }
  | failed (kind : ErrorKind) (message : String) :
      Stepped w (.fail kind message) { w with queue := w.queue.fail kind message }
  | nothing (m : Move) : Stepped w m w
  | went (m : Move) (reader : Nat) (phase : Phase) : Stepped w m (w.goto reader phase)
  | turned (reader room : Nat) : Stepped w (.turn reader) (w.turn reader room)

theorem stepped_step {w' : World} {m : Move} (hm : w.step m = some w') : Stepped w m w' := by
  cases m with
  | push packet =>
    have hpush := pushed_push w.queue packet
    simp only [World.step] at hm
    split at hm
    · next queue hq =>
      cases hm
      exact .accepted packet queue (hq ▸ hpush)
    · next error queue hq =>
      cases hm
      exact .rejected packet queue error (hq ▸ hpush)
  | close =>
    cases hm
    exact .closed
  | fail kind message =>
    cases hm
    exact .failed kind message
  | poll reader room =>
    simp only [World.step] at hm
    split at hm
    · cases hm
      split_ifs
      · exact .nothing _
      · exact .went _ reader _
    · cases hm
  | turn reader =>
    simp only [World.step] at hm
    split at hm
    · cases hm
      exact .turned reader _
    · cases hm
  | look reader =>
    simp only [World.step] at hm
    split at hm
    · cases hm
      exact .went _ reader _
    · cases hm

theorem Inv.step {w' : World} {m : Move} (h : w.Inv) (hlast : w.LastOnce m) (hm : Stepped w m w') :
    w'.Inv := by
  cases hm with
  | accepted packet queue hpush => exact h.push hlast hpush
  | rejected packet queue error hpush => exact h.push hlast hpush
  | closed =>
    exact ⟨h.nextSeq, h.known, h.delivered, h.rest, h.buffered, (fun hopen => nomatch hopen.2), h.size⟩
  | failed kind message =>
    exact h.clear { w.queue.inner with
      error := some (w.queue.inner.error.getD ⟨kind, message⟩), closed := true } rfl nofun nofun
  | nothing => exact h
  | went _ reader phase => exact h.goto reader phase
  | turned reader room => exact h.turn reader room

theorem push_next {q : UploadQueue} (hopen : q.IsOpen)
    (hnew : q.inner.packets.contains q.inner.nextSeq = false) (payload : List UInt8) : (q.push ⟨q.inner.nextSeq, payload⟩).1 = .ok () := by
  unfold UploadQueue.push
  rw [hopen.1]
  simp [hopen.2, hnew]

theorem Inv.sound (h : w.Inv) : w.Sound w.queue.maxPackets where
  inOrder := ⟨w.taken, h.known, h.delivered⟩
  bounded := by rcases h.size with hle | ⟨heq, -⟩ <;> omega
  next := fun herror hclosed hnew => push_next ⟨herror, hclosed⟩ hnew

theorem maxPackets_step {w' : World} {m : Move} (hm : Stepped w m w') :
    w'.queue.maxPackets = w.queue.maxPackets := by
  cases hm with
  | accepted packet queue hpush =>
    cases hpush
    rfl
  | rejected packet queue error hpush => cases hpush <;> rfl
  | turned reader room =>
    have hturn := turned_turn w.queue room
    unfold World.turn
    revert hturn
    generalize w.queue.turn room = t
    intro hturn
    cases hturn <;> rfl
  | _ => rfl

/-- **The queue does what it is for, in every run in which no packet with the last number is pushed
after one was accepted.** -/
theorem reach_sound {maxPackets : Nat} (h : Reach step LastOnce (init maxPackets) w) :
    w.Sound (max maxPackets 1) := by
  have hinv := h.inv (fun _ _ _ hi hok hm => hi.step hok (stepped_step hm)) (inv_init maxPackets)
  have hmax : w.queue.maxPackets = max maxPackets 1 :=
    h.inv (I := fun w => w.queue.maxPackets = max maxPackets 1)
      (fun _ _ _ hi _ hm => (maxPackets_step (stepped_step hm)).trans hi) rfl
  exact hmax ▸ hinv.sound

/-- Two packets that arrive in the other order are read in order. -/
theorem reach_sound_reordered : ∃ w,
    runMoves (onlyOk step LastOnce) (init 4) [.push ⟨1, [7]⟩, .push ⟨0, [5, 6]⟩, .close,
      .poll 0 8, .turn 0, .turn 0, .poll 0 8, .turn 0, .turn 0] = some w ∧
    w.delivered = [5, 6, 7] ∧ w.Sound 4 := by
  refine ⟨_, rfl, rfl, ?_⟩
  have hrun : runMoves (onlyOk step LastOnce) (init 4) [.push ⟨1, [7]⟩, .push ⟨0, [5, 6]⟩, .close,
      .poll 0 8, .turn 0, .turn 0, .poll 0 8, .turn 0, .turn 0] = some _ := rfl
  exact reach_sound (reach_of_onlyOk hrun)

section Saturated

variable {seq : UInt64} {payload : List UInt8} {reader room : Nat}

/-- A queue that waits for a packet. -/
def awaiting (w : World) (seq : UInt64) (current : List UInt8) : World :=
  { w with queue := { inner := { nextSeq := seq, current := current }, maxPackets := 1 } }

theorem runMoves_next (seq : UInt64) (payload : List UInt8) (hreader : w.readers reader = .loop room) :
    runMoves step (w.awaiting seq []) [.push ⟨seq, payload⟩, .turn reader] =
      some { w.awaiting (saturatingSucc seq) payload with
        accepted := w.accepted ++ [⟨seq, payload⟩], taken := w.taken + 1 } := by
  have hpush := push_of_next ⟨seq, payload⟩ (q := (w.awaiting seq []).queue) ⟨rfl, rfl⟩ rfl rfl
  have hturn := turn_of_next room (q := ⟨⟨AssocMap.empty.insert seq payload, seq, [], 0, false, none⟩, 1⟩)
    rfl le_rfl (AssocMap.get?_insert_self _ _ _)
  simp only [awaiting, setInner] at hpush
  simp only [setInner, AssocMap.erase_insert_of_none (AssocMap.get?_empty seq)] at hturn
  simp [runMoves, step, awaiting, hpush, hreader, turn, hturn]

theorem runMoves_serve (seq : UInt64) (hreader : w.readers reader = .loop room)
    (hroom : payload.length ≤ room) (hpayload : payload ≠ []) :
    runMoves step (w.awaiting seq payload) [.turn reader] =
      some ({ w.awaiting seq [] with delivered := w.delivered ++ payload }.goto reader .idle) := by
  have hlen : 0 < payload.length := List.length_pos_iff.2 hpayload
  simp [runMoves, step, awaiting, hreader, turn, UploadQueue.turn, setInner, hlen, Nat.min_eq_left hroom,
    goto]

/-- A reader has read `n` packets without payload and is about to look for the next one. -/
def afterEmpty (n : Nat) : World where
  queue := .new 1
  readers := Function.update (fun _ => .idle) 0 (.loop 1)
  accepted := (List.range n).map fun i => ⟨UInt64.ofNat i, []⟩
  taken := n

theorem readers_afterEmpty (n : Nat) : (afterEmpty n).readers 0 = .loop 1 := rfl

theorem payload_of_mem_afterEmpty {p : Packet} (h : p ∈ (afterEmpty n).accepted) : p.payload = [] := by
  obtain ⟨i, -, rfl⟩ := List.mem_map.1 h
  rfl

theorem runMoves_afterEmpty (hn : n < 2 ^ 64 - 1) :
    runMoves step ((afterEmpty n).awaiting (UInt64.ofNat n) []) [.push ⟨UInt64.ofNat n, []⟩, .turn 0] =
      some ((afterEmpty (n + 1)).awaiting (UInt64.ofNat (n + 1)) []) := by
  have hne : UInt64.ofNat n ≠ lastSeq := by
    intro heq
    have hnat := congrArg UInt64.toNat heq
    rw [UInt64.toNat_ofNat', Nat.mod_eq_of_lt (by omega)] at hnat
    exact hn.ne hnat
  have hsucc : saturatingSucc (UInt64.ofNat n) = UInt64.ofNat (n + 1) := by
    rw [saturatingSucc, if_neg hne, UInt64.ofNat_add]
    rfl
  rw [runMoves_next _ [] (readers_afterEmpty n), hsucc]
  simp [awaiting, afterEmpty, List.range_succ]

theorem reach_afterEmpty (hn : n ≤ 2 ^ 64 - 1) :
    Reach step anyMove (init 1) ((afterEmpty n).awaiting (UInt64.ofNat n) []) := by
  induction n with
  | zero =>
    have hpoll : runMoves step (init 1) [.poll 0 1] = some ((afterEmpty 0).awaiting 0 []) := rfl
    exact reach_of_runMoves hpoll
  | succ n ih => exact (ih (by omega)).trans (reach_of_runMoves (runMoves_afterEmpty (by omega)))

theorem reach_last_twice (hreader : w.readers 0 = .loop 1) : ∃ w',
    Reach step anyMove (w.awaiting lastSeq []) w' ∧
      w'.accepted = w.accepted ++ [⟨lastSeq, [1]⟩] ++ [⟨lastSeq, [1]⟩] ∧
      w'.delivered = w.delivered ++ [1] ++ [1] := by
  -- The reader returns with the byte of the first packet and polls again.
  let w₁ : World := { w with
    readers := Function.update w.readers 0 .idle
    accepted := w.accepted ++ [⟨lastSeq, [1]⟩]
    delivered := w.delivered ++ [1]
    taken := w.taken + 1 }
  have hfirst : Reach step anyMove (w.awaiting lastSeq []) (w₁.awaiting lastSeq []) :=
    (reach_of_runMoves (runMoves_next lastSeq [1] hreader)).trans (reach_of_runMoves (runMoves_serve lastSeq
      (w := { w with accepted := w.accepted ++ [⟨lastSeq, [1]⟩], taken := w.taken + 1 }) hreader le_rfl
      (List.cons_ne_nil _ _)))
  let w₂ : World := { w₁ with readers := Function.update w₁.readers 0 (.loop 1) }
  have hpoll : Reach step anyMove (w₁.awaiting lastSeq []) (w₂.awaiting lastSeq []) :=
    reach_of_runMoves (show runMoves step _ [.poll 0 1] = _ by simp [runMoves, step, awaiting, goto, w₁, w₂])
  have hsecond := (reach_of_runMoves (runMoves_next lastSeq [1] (w := w₂)
    (Function.update_self _ _ _))).trans (reach_of_runMoves (runMoves_serve lastSeq
      (w := { w₂ with accepted := w₂.accepted ++ [⟨lastSeq, [1]⟩], taken := w₂.taken + 1 })
      (Function.update_self _ _ _) le_rfl (List.cons_ne_nil _ _)))
  exact ⟨_, (hfirst.trans hpoll).trans hsecond, rfl, rfl⟩

theorem payload_mem (h : w.payload i = some payload) :
    ∃ p ∈ w.accepted, p.seq.toNat = i ∧ p.payload = payload := by
  obtain ⟨p, hp, rfl⟩ := Option.map_eq_some_iff.1 h
  exact ⟨p, List.mem_of_find?_eq_some hp, by simpa using List.find?_some hp, rfl⟩

theorem length_stream_le
    (h : ∀ p ∈ w.accepted, p.seq = lastSeq ∧ p.payload.length ≤ 1 ∨ p.payload = []) (n : Nat) :
    (n ≤ 2 ^ 64 - 1 → w.stream n = []) ∧ (w.stream n).length ≤ 1 := by
  have hpayload : ∀ i, ((w.payload i).getD []).length ≤ 1 ∧
      (i ≠ 2 ^ 64 - 1 → (w.payload i).getD [] = []) := by
    intro i
    cases hi : w.payload i with
    | none => exact ⟨Nat.zero_le _, fun _ => rfl⟩
    | some payload =>
      obtain ⟨p, hp, hseq, rfl⟩ := payload_mem hi
      rcases h p hp with ⟨hlast, hlen⟩ | hnil
      · refine ⟨hlen, fun hne => absurd ?_ hne⟩
        rw [← hseq, hlast]
        rfl
      · exact ⟨by simp [hnil], fun _ => hnil⟩
  induction n with
  | zero => exact ⟨fun _ => rfl, Nat.zero_le _⟩
  | succ n ih =>
    rw [stream_succ]
    refine ⟨fun hn => ?_, ?_⟩
    · rw [ih.1 (by omega), (hpayload n).2 (by omega), List.append_nil]
    · by_cases hn : n = 2 ^ 64 - 1
      · rw [ih.1 hn.le, List.nil_append]
        exact (hpayload n).1
      · rw [(hpayload n).2 hn, List.append_nil]
        exact ih.2

/-- After `2 ^ 64` packets a packet with the last number is accepted and read once more. -/
theorem last_read_twice :
    ¬∀ (maxPackets : Nat) (w : World), Reach step anyMove (init maxPackets) w →
      w.Sound (max maxPackets 1) := by
  intro h
  obtain ⟨w, hreach, haccepted, hdelivered⟩ := reach_last_twice (readers_afterEmpty (2 ^ 64 - 1))
  have hstart := reach_afterEmpty (n := 2 ^ 64 - 1) le_rfl
  obtain ⟨n, -, hprefix⟩ := (h 1 w (hstart.trans hreach)).inOrder
  have hstream : (w.stream n).length ≤ 1 := by
    refine (length_stream_le (fun p hp => ?_) n).2
    rw [haccepted] at hp
    simp only [List.append_assoc, List.mem_append, List.mem_singleton] at hp
    rcases hp with hp | rfl | rfl
    · exact .inr (payload_of_mem_afterEmpty hp)
    · exact .inl ⟨rfl, le_rfl⟩
    · exact .inl ⟨rfl, le_rfl⟩
  have hlen := hprefix.length_le
  rw [hdelivered] at hlen
  exact absurd (hlen.trans hstream) (by decide)

end Saturated

end World

end WutherCore.Xhttp
