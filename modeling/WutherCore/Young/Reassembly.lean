import Mathlib
import WutherCore.Data.AssocMap
import WutherCore.Data.Run
import WutherCore.Young.Udp

/-!
# Reassembly of UDP packets

`UdpReassembler` collects the fragments of packets until one is complete.  Packets that wait too long
are dropped at the next fragment, and when there are too many, the oldest one gives way to a new one.

* `push`, and what it does to a packet that is neither dropped nor given up: `push_part`.
* `Delivery`: the datagrams of some packets arrive in any order, copies of them included, within the
  capacity and the timeout of the reassembler.
* `receiveAll_outputs`: then every packet comes out exactly once, as it was sent.

Time is counted in nanoseconds.
-/

namespace WutherCore.Young

open WutherCore.Text WutherCore.Data

/-- `PartialPacket`. -/
structure PartialPacket where
  created : Nat
  totalLen : Nat
  fragments : List (Option (List UInt8))
  receivedLen : Nat
  deriving DecidableEq

/-- The key of a packet: its association and its number there. -/
abbrev PacketKey := UInt64 × UInt32

/-- The key that a fragment names. -/
def UdpFragment.key (f : UdpFragment) : PacketKey := (f.associationId, f.packetId)

/-- `UdpReassembler`. -/
structure UdpReassembler where
  entries : AssocMap PacketKey PartialPacket := .empty
  maxPackets : Nat := 256
  timeout : Nat := 10 * 10 ^ 9

namespace UdpReassembler

/-- The first steps of `push`: packets that are too old are dropped, and if there is no room for a new
one, the oldest. -/
def makeRoom (r : UdpReassembler) (it : Iteration PacketKey PartialPacket) (key : PacketKey)
    (now : Nat) : AssocMap PacketKey PartialPacket :=
  let live := r.entries.retain fun _ packet => now - packet.created ≤ r.timeout
  if r.maxPackets ≤ live.size ∧ ¬live.contains key then
    match live.minBy it fun e => e.2.created with
    | some oldest => live.erase oldest.1
    | none => live
  else live

/-- The packet that `push` creates for a fragment of a new one. -/
def fresh (f : UdpFragment) (now : Nat) : PartialPacket where
  created := now
  totalLen := f.totalLen.toNat
  fragments := List.replicate f.count.toNat none
  receivedLen := 0

/-- A fragment is put into its slot, unless it is there already. -/
def store (packet : PartialPacket) (slot : Option (List UInt8)) (f : UdpFragment) : PartialPacket :=
  if slot.isNone then
    { packet with
      receivedLen := packet.receivedLen + f.payload.length
      fragments := packet.fragments.set f.index.toNat (some f.payload) }
  else packet

/-- `UdpReassembler::push`. An index beyond the count is out of bounds. -/
def push (r : UdpReassembler) (it : Iteration PacketKey PartialPacket) (f : UdpFragment) (now : Nat) :
    Ending IoError (Option (List UInt8)) × UdpReassembler :=
  let entries := r.makeRoom it f.key now
  let packet := (entries.get? f.key).getD (fresh f now)
  if packet.totalLen ≠ f.totalLen.toNat ∨ packet.fragments.length ≠ f.count.toNat then
    (.error (invalidData "Young UDP fragment 元数据在同一 packet 内不一致"),
      { r with entries := entries.erase f.key })
  else
    match packet.fragments[f.index.toNat]? with
    | none => (.panic, { r with entries := entries.insert f.key packet })
    | some slot =>
      let packet := store packet slot f
      if packet.fragments.any Option.isNone then
        (.ok none, { r with entries := entries.insert f.key packet })
      else if packet.receivedLen ≠ packet.totalLen then
        (.error (invalidData "Young UDP fragment 重组长度不符"),
          { r with entries := entries.erase f.key })
      else
        (.ok (some (packet.fragments.flatMap fun part => part.getD [])),
          { r with entries := entries.erase f.key })

/-! ### The slots of a packet -/

/-- The slots of a packet of which the parts with certain indices have arrived. -/
def slotsOf (parts : List (List UInt8)) (seen : Nat → Bool) : List (Option (List UInt8)) :=
  parts.mapIdx fun i part => if seen i then some part else none

/-- The bytes in the slots. -/
def slotBytes (slots : List (Option (List UInt8))) : Nat :=
  (slots.map fun slot => (slot.getD []).length).sum

@[simp] theorem slotsOf_length (parts : List (List UInt8)) (seen : Nat → Bool) :
    (slotsOf parts seen).length = parts.length := by simp [slotsOf]

theorem slotsOf_getElem? (parts : List (List UInt8)) (seen : Nat → Bool) (i : Nat) :
    (slotsOf parts seen)[i]? = parts[i]?.map fun part => if seen i then some part else none := by
  simp [slotsOf, List.getElem?_mapIdx]

theorem slotsOf_set {parts : List (List UInt8)} {seen : Nat → Bool} {i : Nat} {part : List UInt8}
    (h : parts[i]? = some part) :
    (slotsOf parts seen).set i (some part) = slotsOf parts fun j => seen j || j == i := by
  apply List.ext_getElem?
  intro j
  have hi := (List.getElem?_eq_some_iff.1 h).1
  rw [List.getElem?_set, slotsOf_getElem?, slotsOf_getElem?, slotsOf_length]
  by_cases hij : i = j
  · subst hij
    rw [if_pos rfl, if_pos hi, h]
    simp
  · simp [hij, Ne.symm hij]

theorem slotsOf_any_isNone {parts : List (List UInt8)} {seen : Nat → Bool} :
    (slotsOf parts seen).any Option.isNone = true ↔ ∃ i < parts.length, seen i = false := by
  rw [List.any_eq_true]
  constructor
  · rintro ⟨slot, hslot, hnone⟩
    obtain ⟨i, hi⟩ := List.getElem?_of_mem hslot
    rw [slotsOf_getElem?, Option.map_eq_some_iff] at hi
    obtain ⟨part, hpart, rfl⟩ := hi
    refine ⟨i, (List.getElem?_eq_some_iff.1 hpart).1, ?_⟩
    by_contra hseen
    simp [hseen] at hnone
  · rintro ⟨i, hi, hseen⟩
    refine ⟨none, List.mem_of_getElem? (i := i) ?_, rfl⟩
    rw [slotsOf_getElem?, List.getElem?_eq_getElem hi]
    simp [hseen]

theorem slotsOf_complete {parts : List (List UInt8)} {seen : Nat → Bool}
    (h : ∀ i < parts.length, seen i = true) : slotsOf parts seen = parts.map some := by
  apply List.ext_getElem?
  intro i
  rw [slotsOf_getElem?, List.getElem?_map]
  rcases Nat.lt_or_ge i parts.length with hi | hi
  · rw [h i hi]
    rfl
  · rw [List.getElem?_eq_none hi]
    rfl

theorem slotsOf_none (parts : List (List UInt8)) :
    slotsOf parts (fun _ => false) = List.replicate parts.length none := by
  simp [slotsOf, List.eq_replicate_iff]

theorem slotBytes_map_some (parts : List (List UInt8)) :
    slotBytes (parts.map some) = parts.flatten.length := by
  simp [slotBytes, List.length_flatten, Function.comp_def]

theorem slotBytes_replicate (n : Nat) : slotBytes (List.replicate n none) = 0 := by
  simp [slotBytes]

theorem slotBytes_set {slots : List (Option (List UInt8))} {i : Nat} (h : slots[i]? = some none)
    (part : List UInt8) : slotBytes (slots.set i (some part)) = slotBytes slots + part.length := by
  induction slots generalizing i with
  | nil => cases h
  | cons slot slots ih =>
    cases i with
    | zero =>
      cases h
      simp [slotBytes]
      omega
    | succ i =>
      have hrest := ih (i := i) h
      simp only [slotBytes, List.set_cons_succ, List.map_cons, List.sum_cons] at hrest ⊢
      omega

/-! ### One fragment -/

/-- The table entry of a packet of which the parts with certain indices have arrived. -/
def entryOf (created : Nat) (parts : List (List UInt8)) (seen : Nat → Bool) : PartialPacket where
  created := created
  totalLen := parts.flatten.length
  fragments := slotsOf parts seen
  receivedLen := slotBytes (slotsOf parts seen)

theorem fresh_eq_entryOf {associationId : UInt64} {packetId : UInt32} {parts : List (List UInt8)}
    {i : Nat} {f : UdpFragment} (h : IsPart associationId packetId parts i f) (now : Nat) :
    fresh f now = entryOf now parts fun _ => false := by
  simp [fresh, entryOf, slotsOf_none, slotBytes_replicate, h.total, h.count]

theorem makeRoom_eq (r : UdpReassembler) (it : Iteration PacketKey PartialPacket) {key : PacketKey}
    {now : Nat}
    (hage : ∀ k packet, r.entries.get? k = some packet → now - packet.created ≤ r.timeout)
    (hroom : r.entries.contains key = true ∨ r.entries.size < r.maxPackets) :
    r.makeRoom it key now = r.entries := by
  have hretain : (r.entries.retain fun _ packet => now - packet.created ≤ r.timeout) = r.entries :=
    AssocMap.retain_eq_self fun k packet hk => decide_eq_true (hage k packet hk)
  have hkeep : ¬(r.maxPackets ≤ r.entries.size ∧ ¬r.entries.contains key = true) := by
    rcases hroom with hroom | hroom
    · exact fun h => h.2 hroom
    · omega
  rw [makeRoom, hretain]
  exact if_neg hkeep

/-- What `push` does with a part of a packet: it is stored; the packet comes out and leaves the table
once it is complete. -/
theorem push_part (r : UdpReassembler) (it : Iteration PacketKey PartialPacket)
    {parts : List (List UInt8)} {i created now : Nat} {seen : Nat → Bool} {f : UdpFragment}
    (hf : IsPart f.associationId f.packetId parts i f)
    (hroom : r.makeRoom it f.key now = r.entries)
    (hentry : (r.entries.get? f.key).getD (fresh f now) = entryOf created parts seen) :
    r.push it f now =
      if ∃ j < parts.length, (seen j || j == i) = false then
        (.ok none,
          { r with
            entries := r.entries.insert f.key (entryOf created parts fun j => seen j || j == i) })
      else (.ok (some parts.flatten), { r with entries := r.entries.erase f.key }) := by
  have hi := (List.getElem?_eq_some_iff.1 hf.payload).1
  have hsame : ¬((entryOf created parts seen).totalLen ≠ f.totalLen.toNat ∨
      (entryOf created parts seen).fragments.length ≠ f.count.toNat) := by
    simp [entryOf, hf.total, hf.count]
  have hslot : (entryOf created parts seen).fragments[f.index.toNat]? =
      some (if seen i then some f.payload else none) := by
    rw [hf.index]
    simp [entryOf, slotsOf_getElem?, hf.payload]
  -- the part is stored, or was there before
  have hstored : store (entryOf created parts seen) (if seen i then some f.payload else none) f =
      entryOf created parts fun j => seen j || j == i := by
    by_cases hseen : seen i
    · have hsub : (fun j => seen j || j == i) = seen := by
        funext j
        by_cases hj : j = i
        · simp [hj, hseen]
        · simp [hj]
      simp [store, hseen, hsub]
    · have hnone : (slotsOf parts seen)[i]? = some none := by
        simp [slotsOf_getElem?, hf.payload, hseen]
      simp [store, hseen, entryOf, hf.index, ← slotsOf_set hf.payload, slotBytes_set hnone]
  rw [push, hroom]
  simp only [hentry]
  rw [if_neg hsame, hslot]
  simp only [hstored]
  have hany : (entryOf created parts fun j => seen j || j == i).fragments.any Option.isNone = true ↔
      ∃ j < parts.length, (seen j || j == i) = false := slotsOf_any_isNone
  by_cases hcomplete : ∃ j < parts.length, (seen j || j == i) = false
  · rw [if_pos hcomplete, if_pos (hany.2 hcomplete)]
  · have hall : ∀ j < parts.length, (seen j || j == i) = true := by
      intro j hj
      by_contra hc
      exact hcomplete ⟨j, hj, by simpa using hc⟩
    have hslots := slotsOf_complete hall
    rw [if_neg hcomplete, if_neg (mt hany.1 hcomplete), if_neg]
    · simp [entryOf, hslots, List.flatMap_map, List.flatMap_id']
    · simp [entryOf, hslots, slotBytes_map_some]

end UdpReassembler

variable (p : Primitives) (sessionKey : SessionKey) (mode : UdpMode)

/-! ### Packets on the way -/

/-- A packet that its encoder has accepted, with its datagrams. -/
structure SentPacket where
  associationId : UInt64
  packetId : UInt32
  payload : List UInt8
  maxDatagramSize : Nat
  datagrams : List (List UInt8)
  encoded : encodeUdp p sessionKey mode associationId packetId payload maxDatagramSize = .ok datagrams

/-- A datagram that arrives, the time, and the order in which the table is iterated then. -/
structure Arrival where
  datagram : List UInt8
  now : Nat
  iteration : Iteration PacketKey PartialPacket

/-- The receiver of a session: a datagram is decoded and its fragment pushed.  What comes out goes to the
target of the association. -/
def receive (r : UdpReassembler) (a : Arrival) :
    Ending IoError (Option (UInt64 × List UInt8)) × UdpReassembler :=
  match decodeUdp p sessionKey mode a.datagram with
  | .error e => (.error e, r)
  | .ok f =>
    match r.push a.iteration f a.now with
    | (.ok output, r') => (.ok (output.map fun payload => (f.associationId, payload)), r')
    | (.error e, r') => (.error e, r')
    | (.panic, r') => (.panic, r')

/-- The receiver takes one datagram after another. -/
def receiveAll (r : UdpReassembler) :
    List Arrival → List (Ending IoError (Option (UInt64 × List UInt8))) × UdpReassembler
  | [] => ([], r)
  | a :: arrivals =>
    let rest := receiveAll (receive p sessionKey mode r a).2 arrivals
    ((receive p sessionKey mode r a).1 :: rest.1, rest.2)

variable {p sessionKey mode}

namespace SentPacket

variable (pk : SentPacket p sessionKey mode)

/-- The key of the packet. -/
def key : PacketKey := (pk.associationId, pk.packetId)

/-- What the target of the packet's association is to receive. -/
def output : UInt64 × List UInt8 := (pk.associationId, pk.payload)

/-- All datagrams of the packet have arrived. -/
def Complete (before : List Arrival) : Prop := ∀ d ∈ pk.datagrams, d ∈ before.map Arrival.datagram

/-- Some datagrams of the packet have arrived, but not all. -/
def Waiting (before : List Arrival) : Prop :=
  (∃ d ∈ pk.datagrams, d ∈ before.map Arrival.datagram) ∧ ¬pk.Complete before

instance (before : List Arrival) : Decidable (pk.Complete before) := by
  unfold Complete
  infer_instance

instance (before : List Arrival) : Decidable (pk.Waiting before) := by
  unfold Waiting
  infer_instance

/-- When the first datagram of the packet arrived. -/
def firstTime (before : List Arrival) : Nat :=
  ((before.find? fun a => a.datagram ∈ pk.datagrams).map Arrival.now).getD 0

end SentPacket

/-- The datagrams of the packets arrive in some order, several times perhaps, but not when their packet
is complete; there is always room for a new packet, and no packet waits for too long. -/
structure Delivery (packets : List (SentPacket p sessionKey mode)) (arrivals : List Arrival)
    (maxPackets timeout : Nat) : Prop where
  known : ∀ a ∈ arrivals, ∃ pk ∈ packets, a.datagram ∈ pk.datagrams
  all : ∀ pk ∈ packets, pk.Complete arrivals
  before_complete : ∀ before a after, arrivals = before ++ a :: after →
    ∀ pk ∈ packets, a.datagram ∈ pk.datagrams → ¬pk.Complete before
  capacity : ∀ before a after, arrivals = before ++ a :: after →
    ∀ pk ∈ packets, a.datagram ∈ pk.datagrams →
      pk.Waiting before ∨ (packets.filter fun pk => pk.Waiting before).length < maxPackets
  timeout : ∀ before a after, arrivals = before ++ a :: after →
    ∀ pk ∈ packets, pk.Waiting before → a.now - pk.firstTime before ≤ timeout

/-! ### One arrival -/

namespace SentPacket

variable {pk pk' : SentPacket p sessionKey mode} {before : List Arrival} {a : Arrival}
  {parts : List (List UInt8)}

theorem exists_parts (pk : SentPacket p sessionKey mode) :
    ∃ parts, Fragmented p sessionKey mode pk.associationId pk.packetId pk.payload pk.datagrams parts :=
  (encodeUdp_fragmented p sessionKey pk.encoded).2

theorem decode_datagram {d : List UInt8}
    (hparts : Fragmented p sessionKey mode pk.associationId pk.packetId pk.payload pk.datagrams parts)
    (hd : d ∈ pk.datagrams) :
    ∃ i f, pk.datagrams[i]? = some d ∧ decodeUdp p sessionKey mode d = .ok f ∧
      IsPart pk.associationId pk.packetId parts i f := by
  obtain ⟨i, hi⟩ := List.getElem?_of_mem hd
  obtain ⟨f, hf, hpart⟩ := hparts.read i d hi
  exact ⟨i, f, hi, hf, hpart⟩

theorem key_eq_of_mem {d : List UInt8} (h : d ∈ pk.datagrams) (h' : d ∈ pk'.datagrams) :
    pk.key = pk'.key := by
  obtain ⟨parts, hparts⟩ := pk.exists_parts
  obtain ⟨parts', hparts'⟩ := pk'.exists_parts
  obtain ⟨i, f, -, hf, hpart⟩ := decode_datagram hparts h
  obtain ⟨i', f', -, hf', hpart'⟩ := decode_datagram hparts' h'
  obtain rfl := Except.ok.inj (hf.symm.trans hf')
  rw [key, key, ← hpart.association, ← hpart.packet, hpart'.association, hpart'.packet]

/-- The datagram with an index has arrived. -/
def seenAt (pk : SentPacket p sessionKey mode) (before : List Arrival) (i : Nat) : Bool :=
  (pk.datagrams[i]?).any fun d => d ∈ before.map Arrival.datagram

theorem seenAt_append (pk : SentPacket p sessionKey mode) (before : List Arrival) (a : Arrival)
    (i : Nat) : pk.seenAt (before ++ [a]) i =
      (pk.seenAt before i || decide (pk.datagrams[i]? = some a.datagram)) := by
  unfold seenAt
  cases pk.datagrams[i]? with
  | none => simp
  | some d => simp [Bool.decide_or]

theorem complete_iff
    (hparts : Fragmented p sessionKey mode pk.associationId pk.packetId pk.payload pk.datagrams parts) :
    pk.Complete before ↔ ∀ i < parts.length, pk.seenAt before i = true := by
  unfold Complete seenAt
  rw [← hparts.length]
  constructor
  · intro h i hi
    rw [List.getElem?_eq_getElem hi]
    simpa using h _ (List.getElem_mem hi)
  · intro h d hd
    obtain ⟨i, hi⟩ := List.getElem?_of_mem hd
    have hseen := h i (List.getElem?_eq_some_iff.1 hi).1
    rw [hi] at hseen
    simpa using hseen

theorem getElem?_eq_iff
    (hparts : Fragmented p sessionKey mode pk.associationId pk.packetId pk.payload pk.datagrams parts)
    {i j : Nat} {d : List UInt8} (hi : pk.datagrams[i]? = some d) :
    pk.datagrams[j]? = some d ↔ j = i := by
  constructor
  · intro hj
    obtain ⟨f, hf, hpart⟩ := hparts.read i d hi
    obtain ⟨f', hf', hpart'⟩ := hparts.read j d hj
    obtain rfl := Except.ok.inj (hf.symm.trans hf')
    rw [← hpart'.index, hpart.index]
  · rintro rfl
    exact hi

theorem seenAt_append_of_not_mem (h : a.datagram ∉ pk.datagrams) :
    pk.seenAt (before ++ [a]) = pk.seenAt before := by
  funext i
  have hne : pk.datagrams[i]? ≠ some a.datagram := fun hi => h (List.mem_of_getElem? hi)
  simp [seenAt_append, hne]

theorem mem_append_iff_of_not_mem (h : a.datagram ∉ pk.datagrams) {d : List UInt8}
    (hd : d ∈ pk.datagrams) :
    d ∈ (before ++ [a]).map Arrival.datagram ↔ d ∈ before.map Arrival.datagram := by
  have hne : d ≠ a.datagram := fun heq => h (heq ▸ hd)
  simp [hne]

theorem complete_append_of_not_mem (h : a.datagram ∉ pk.datagrams) :
    pk.Complete (before ++ [a]) ↔ pk.Complete before :=
  forall₂_congr fun _ hd => mem_append_iff_of_not_mem h hd

theorem waiting_append_of_not_mem (h : a.datagram ∉ pk.datagrams) :
    pk.Waiting (before ++ [a]) ↔ pk.Waiting before := by
  refine and_congr (exists_congr fun d => ?_) (not_congr (complete_append_of_not_mem h))
  exact and_congr_right fun hd => mem_append_iff_of_not_mem h hd

theorem firstTime_append_of_not_mem (h : a.datagram ∉ pk.datagrams) :
    pk.firstTime (before ++ [a]) = pk.firstTime before := by
  simp [firstTime, List.find?_append, h]

theorem firstTime_append_of_waiting (h : pk.Waiting before) :
    pk.firstTime (before ++ [a]) = pk.firstTime before := by
  obtain ⟨⟨d, hd, hmem⟩, -⟩ := h
  obtain ⟨b, hb, rfl⟩ := List.mem_map.1 hmem
  have hsome : (before.find? fun a => a.datagram ∈ pk.datagrams).isSome := by
    rw [List.find?_isSome]
    exact ⟨b, hb, by simpa using hd⟩
  obtain ⟨c, hc⟩ := Option.isSome_iff_exists.1 hsome
  simp [firstTime, List.find?_append, hc]

theorem new_packet (hw : ¬pk.Waiting before) (hc : ¬pk.Complete before)
    (hd : a.datagram ∈ pk.datagrams) :
    pk.seenAt before = (fun _ => false) ∧ pk.firstTime (before ++ [a]) = a.now := by
  have hnone : ∀ d ∈ pk.datagrams, d ∉ before.map Arrival.datagram :=
    fun d hd hmem => hw ⟨⟨d, hd, hmem⟩, hc⟩
  constructor
  · funext i
    unfold seenAt
    cases hi : pk.datagrams[i]? with
    | none => rfl
    | some d => simpa using hnone d (List.mem_of_getElem? hi)
  · have hfind : before.find? (fun a => a.datagram ∈ pk.datagrams) = none := by
      rw [List.find?_eq_none]
      intro b hb hmem
      exact hnone _ (by simpa using hmem) (List.mem_map_of_mem hb)
    simp [firstTime, List.find?_append, hfind, hd]

end SentPacket

open UdpReassembler in
/-- The table holds the waiting packets, with what has arrived of them, and nothing else. -/
structure Follows (packets : List (SentPacket p sessionKey mode)) (before : List Arrival)
    (r : UdpReassembler) : Prop where
  waiting : ∀ pk ∈ packets, pk.Waiting before → ∀ parts,
    Fragmented p sessionKey mode pk.associationId pk.packetId pk.payload pk.datagrams parts →
      r.entries.get? pk.key = some (entryOf (pk.firstTime before) parts (pk.seenAt before))
  idle : ∀ pk ∈ packets, ¬pk.Waiting before → r.entries.get? pk.key = none
  known : ∀ k e, r.entries.get? k = some e → ∃ pk ∈ packets, pk.key = k

section Step

open UdpReassembler SentPacket

variable {packets : List (SentPacket p sessionKey mode)} {before : List Arrival} {a : Arrival}
  {r : UdpReassembler} {pk : SentPacket p sessionKey mode}

theorem Follows.size (h : Follows packets before r) (hkeys : (packets.map SentPacket.key).Nodup) :
    r.entries.size = (packets.filter fun pk => pk.Waiting before).length := by
  have hwaiting : ((packets.filter fun pk => pk.Waiting before).map SentPacket.key).Nodup :=
    hkeys.sublist (List.filter_sublist.map _)
  have hperm : (r.entries.entries.map Prod.fst).Perm
      ((packets.filter fun pk => pk.Waiting before).map SentPacket.key) := by
    rw [List.perm_ext_iff_of_nodup r.entries.nodup hwaiting]
    intro k
    rw [AssocMap.mem_keys_iff]
    constructor
    · rintro ⟨e, he⟩
      obtain ⟨pk, hpk, rfl⟩ := h.known k e he
      refine List.mem_map_of_mem (List.mem_filter.2 ⟨hpk, decide_eq_true ?_⟩)
      by_contra hw
      rw [h.idle pk hpk hw] at he
      cases he
    · intro hk
      obtain ⟨pk, hpk, rfl⟩ := List.mem_map.1 hk
      obtain ⟨hpk, hw⟩ := List.mem_filter.1 hpk
      obtain ⟨parts, hparts⟩ := pk.exists_parts
      exact ⟨_, h.waiting pk hpk (of_decide_eq_true hw) parts hparts⟩
  simpa [AssocMap.size] using hperm.length_eq

/-- The table follows when the entry of one packet is brought up to date and the others are left. -/
theorem Follows.update (h : Follows packets before r) (hkeys : (packets.map SentPacket.key).Nodup)
    (hpk : pk ∈ packets) (hd : a.datagram ∈ pk.datagrams)
    {entries : AssocMap PacketKey PartialPacket}
    (hother : ∀ k, k ≠ pk.key → entries.get? k = r.entries.get? k)
    (hwaiting : pk.Waiting (before ++ [a]) → ∀ parts,
      Fragmented p sessionKey mode pk.associationId pk.packetId pk.payload pk.datagrams parts →
        entries.get? pk.key =
          some (entryOf (pk.firstTime (before ++ [a])) parts (pk.seenAt (before ++ [a]))))
    (hidle : ¬pk.Waiting (before ++ [a]) → entries.get? pk.key = none) :
    Follows packets (before ++ [a]) { r with entries := entries } := by
  have hcases : ∀ pk' ∈ packets, pk' = pk ∨ (pk'.key ≠ pk.key ∧ a.datagram ∉ pk'.datagrams) := by
    intro pk' hpk'
    by_cases hk : pk'.key = pk.key
    · exact .inl (List.inj_on_of_nodup_map hkeys hpk' hpk hk)
    · exact .inr ⟨hk, fun hd' => hk (key_eq_of_mem hd' hd)⟩
  refine ⟨fun pk' hpk' hw parts hparts => ?_, fun pk' hpk' hw => ?_, fun k e hk => ?_⟩
  · rcases hcases pk' hpk' with rfl | ⟨hk, hd'⟩
    · exact hwaiting hw parts hparts
    · rw [waiting_append_of_not_mem hd'] at hw
      rw [firstTime_append_of_not_mem hd', seenAt_append_of_not_mem hd']
      exact (hother _ hk).trans (h.waiting pk' hpk' hw parts hparts)
  · rcases hcases pk' hpk' with rfl | ⟨hk, hd'⟩
    · exact hidle hw
    · rw [waiting_append_of_not_mem hd'] at hw
      exact (hother _ hk).trans (h.idle pk' hpk' hw)
  · by_cases hpk' : k = pk.key
    · exact ⟨pk, hpk, hpk'.symm⟩
    · exact h.known k e ((hother k hpk').symm.trans hk)

/-- One datagram: the packet comes out when it is complete, and the table follows. -/
theorem receive_step (h : Follows packets before r) (hkeys : (packets.map SentPacket.key).Nodup)
    (hpk : pk ∈ packets) (hd : a.datagram ∈ pk.datagrams) (hc : ¬pk.Complete before)
    (hroom : pk.Waiting before ∨
      (packets.filter fun pk => pk.Waiting before).length < r.maxPackets)
    (hage : ∀ pk ∈ packets, pk.Waiting before → a.now - pk.firstTime before ≤ r.timeout) :
    (receive p sessionKey mode r a).1 =
        .ok (if pk.Complete (before ++ [a]) then some pk.output else none) ∧
      Follows packets (before ++ [a]) (receive p sessionKey mode r a).2 ∧
      (receive p sessionKey mode r a).2.maxPackets = r.maxPackets ∧
      (receive p sessionKey mode r a).2.timeout = r.timeout := by
  obtain ⟨parts, hparts⟩ := pk.exists_parts
  obtain ⟨i, f, hi, hf, hpart⟩ := decode_datagram hparts hd
  have hkey : f.key = pk.key := by rw [UdpFragment.key, hpart.association, hpart.packet, key]
  have hmake : r.makeRoom a.iteration f.key a.now = r.entries := by
    refine makeRoom_eq r a.iteration (fun k e hk => ?_) ?_
    · obtain ⟨pk', hpk', rfl⟩ := h.known k e hk
      obtain ⟨parts', hparts'⟩ := pk'.exists_parts
      by_cases hw : pk'.Waiting before
      · rw [h.waiting pk' hpk' hw parts' hparts', Option.some.injEq] at hk
        rw [← hk]
        exact hage pk' hpk' hw
      · rw [h.idle pk' hpk' hw] at hk
        cases hk
    · rcases hroom with hw | hlt
      · left
        rw [hkey, AssocMap.contains, h.waiting pk hpk hw parts hparts]
        rfl
      · right
        rwa [h.size hkeys]
  have hentry : (r.entries.get? f.key).getD (fresh f a.now) =
      entryOf (pk.firstTime (before ++ [a])) parts (pk.seenAt before) := by
    by_cases hw : pk.Waiting before
    · rw [hkey, h.waiting pk hpk hw parts hparts, firstTime_append_of_waiting hw]
      rfl
    · obtain ⟨hseen, hfirst⟩ := new_packet hw hc hd
      rw [hkey, h.idle pk hpk hw, hseen, hfirst]
      exact fresh_eq_entryOf hpart a.now
  have hseen : (fun j => pk.seenAt before j || j == i) = pk.seenAt (before ++ [a]) := by
    funext j
    rw [seenAt_append]
    congr 1
    rw [Bool.eq_iff_iff, beq_iff_eq, decide_eq_true_iff, getElem?_eq_iff hparts hi]
  have hpush := push_part r a.iteration
    (by rw [hpart.association, hpart.packet]; exact hpart) hmake hentry
  have hincomplete : (∃ j < parts.length, (pk.seenAt before j || j == i) = false) ↔
      ¬pk.Complete (before ++ [a]) := by
    rw [complete_iff hparts, ← hseen]
    simp
  simp only [hincomplete] at hpush
  unfold receive
  rw [hf]
  by_cases hdone : pk.Complete (before ++ [a])
  · rw [if_neg (not_not.2 hdone)] at hpush
    simp only [hpush, if_pos hdone]
    refine ⟨?_, ?_, trivial, trivial⟩
    · rw [Option.map_some, hpart.association, hparts.flatten, output]
    · refine h.update hkeys hpk hd (fun k hk => ?_) (fun hw => absurd hdone hw.2) fun _ => ?_
      · exact AssocMap.get?_erase_of_ne _ (hkey ▸ hk)
      · rw [hkey, AssocMap.get?_erase_self]
  · rw [if_pos hdone, hseen] at hpush
    simp only [hpush, if_neg hdone]
    refine ⟨rfl, ?_, trivial, trivial⟩
    have hwaiting : pk.Waiting (before ++ [a]) := ⟨⟨_, hd, by simp⟩, hdone⟩
    refine h.update hkeys hpk hd (fun k hk => ?_) (fun _ parts' hparts' => ?_) fun hw => ?_
    · exact AssocMap.get?_insert_of_ne _ _ (hkey ▸ hk)
    · rw [hkey, AssocMap.get?_insert_self, hparts.unique hparts']
    · exact absurd hwaiting hw

theorem complete_filter_append (hkeys : (packets.map SentPacket.key).Nodup) (hpk : pk ∈ packets)
    (hd : a.datagram ∈ pk.datagrams) (hc : ¬pk.Complete before) :
    (packets.filter fun pk => pk.Complete (before ++ [a])).Perm
      ((packets.filter fun pk => pk.Complete before) ++
        if pk.Complete (before ++ [a]) then [pk] else []) := by
  have hnodup : packets.Nodup := hkeys.of_map _
  have hnot : pk ∉ packets.filter fun pk => pk.Complete before := by simp [hc]
  rw [List.perm_ext_iff_of_nodup (hnodup.filter _) (by
    split_ifs
    · exact List.nodup_append.2 ⟨hnodup.filter _, by simp, by
        rintro x hx _ hy rfl
        exact hnot (List.mem_singleton.1 hy ▸ hx)⟩
    · simpa using hnodup.filter _)]
  intro pk'
  rw [List.mem_append, List.mem_filter, List.mem_filter, decide_eq_true_iff, decide_eq_true_iff]
  by_cases heq : pk' = pk
  · subst heq
    by_cases hdone : pk'.Complete (before ++ [a])
    · simp [hpk, hdone]
    · simp [hdone, hc]
  · have hmem : pk' ∉ if pk.Complete (before ++ [a]) then [pk] else [] := by
      split_ifs <;> simp [heq]
    rw [or_iff_left hmem]
    refine and_congr_right fun hpk' => complete_append_of_not_mem fun hd' => heq ?_
    exact List.inj_on_of_nodup_map hkeys hpk' hpk (key_eq_of_mem hd' hd)

end Step

/-! ### The run -/

/-- What a call of the receiver hands on. -/
def delivered : Ending IoError (Option (UInt64 × List UInt8)) → Option (UInt64 × List UInt8)
  | .ok output => output
  | .error _ => none
  | .panic => none

theorem receiveAll_follows {packets : List (SentPacket p sessionKey mode)}
    {arrivals : List Arrival} {maxPackets timeout : Nat}
    (hkeys : (packets.map SentPacket.key).Nodup) (h : Delivery packets arrivals maxPackets timeout)
    (after before : List Arrival) (hsplit : arrivals = before ++ after) (r : UdpReassembler)
    (hmax : r.maxPackets = maxPackets) (htimeout : r.timeout = timeout)
    (hr : Follows packets before r) :
    (∀ result ∈ (receiveAll p sessionKey mode r after).1, ∃ output, result = .ok output) ∧
      ((packets.filter fun pk => pk.Complete before).map SentPacket.output ++
        (receiveAll p sessionKey mode r after).1.filterMap delivered).Perm
      ((packets.filter fun pk => pk.Complete arrivals).map SentPacket.output) := by
  induction after generalizing before r with
  | nil =>
    rw [List.append_nil] at hsplit
    subst hsplit
    simp [receiveAll]
  | cons a after ih =>
    obtain ⟨pk, hpk, hd⟩ := h.known a (by simp [hsplit])
    have hc := h.before_complete before a after hsplit pk hpk hd
    obtain ⟨hresult, hfollows, hmax', htimeout'⟩ := receive_step hr hkeys hpk hd hc
      (hmax ▸ h.capacity before a after hsplit pk hpk hd)
      (htimeout ▸ h.timeout before a after hsplit)
    obtain ⟨hok, hperm⟩ := ih (before ++ [a]) (by simp [hsplit]) _ (hmax'.trans hmax)
      (htimeout'.trans htimeout) hfollows
    have hone := (complete_filter_append hkeys hpk hd hc).map SentPacket.output
    refine ⟨?_, ?_⟩
    · simp only [receiveAll, List.forall_mem_cons]
      exact ⟨⟨_, hresult⟩, hok⟩
    · refine List.Perm.trans ?_ ((hone.append_right _).symm.trans hperm)
      rw [receiveAll, List.filterMap_cons, hresult]
      by_cases hdone : pk.Complete (before ++ [a]) <;> simp [delivered, hdone]

/-- **Fragmentation and reassembly.** Every datagram of the packets fits into the size that was asked
for; and if the datagrams arrive in any order, with copies before their packet is complete, within the
capacity and the timeout of the reassembler, then no call fails and every packet comes out exactly once,
for the association and with the payload that were sent. -/
theorem receiveAll_outputs {packets : List (SentPacket p sessionKey mode)} {arrivals : List Arrival}
    {maxPackets timeout : Nat} (hkeys : (packets.map SentPacket.key).Nodup)
    (h : Delivery packets arrivals maxPackets timeout) :
    (∀ pk ∈ packets, ∀ d ∈ pk.datagrams, d.length ≤ pk.maxDatagramSize) ∧
    (∀ result ∈ (receiveAll p sessionKey mode
      { maxPackets := maxPackets, timeout := timeout } arrivals).1, ∃ output, result = .ok output) ∧
    ((receiveAll p sessionKey mode { maxPackets := maxPackets, timeout := timeout }
      arrivals).1.filterMap delivered).Perm (packets.map SentPacket.output) := by
  have hnone : ∀ pk ∈ packets, ¬pk.Complete [] := by
    intro pk _ hc
    obtain ⟨parts, hparts⟩ := pk.exists_parts
    have hpos : 0 < pk.datagrams.length := hparts.length ▸ hparts.nonempty
    exact absurd (hc _ (List.getElem_mem hpos)) (by simp)
  have hstart : Follows packets [] { maxPackets := maxPackets, timeout := timeout } :=
    ⟨fun pk _ hw => by simp [SentPacket.Waiting] at hw, fun _ _ _ => rfl, fun _ _ hk => by cases hk⟩
  obtain ⟨hok, hperm⟩ := receiveAll_follows hkeys h arrivals [] rfl _ rfl rfl hstart
  have hempty : (packets.filter fun pk => pk.Complete []) = [] :=
    List.filter_eq_nil_iff.2 fun pk hpk => by simpa using hnone pk hpk
  have hfull : (packets.filter fun pk => pk.Complete arrivals) = packets :=
    List.filter_eq_self.2 fun pk hpk => by simpa using h.all pk hpk
  rw [hempty, hfull] at hperm
  exact ⟨fun pk _ => (encodeUdp_fragmented p sessionKey pk.encoded).1, hok, hperm⟩

theorem forall_split_cons {P : List Arrival → Arrival → Prop} {a : Arrival} {arrivals : List Arrival}
    (h : P [] a) (hrest : ∀ before b after, arrivals = before ++ b :: after → P (a :: before) b)
    (before : List Arrival) (b : Arrival) (after : List Arrival)
    (hsplit : a :: arrivals = before ++ b :: after) : P before b := by
  cases before with
  | nil =>
    cases hsplit
    exact h
  | cons c before =>
    obtain ⟨rfl, hsplit'⟩ := List.cons.inj hsplit
    exact hrest before b after hsplit'

/-- HMAC-SHA256 as it is on the two fragments below, under the key of 32 sevens; the first ends in the
letter `a`, the second in `b`.  Plain fragments have no padding. -/
def lettersPrimitives : Primitives where
  hmacSha256 := fun _ message =>
    if message.getLast? = some 0x61 then
      ⟨[0x2a, 0x5a, 0xd9, 0xec, 0xaa, 0x4a, 0x7f, 0x82, 0x22, 0x59, 0x32, 0x1d, 0x58, 0xf1, 0x6a, 0x85,
        0x4b, 0x0c, 0x65, 0x65, 0xab, 0x0a, 0x9d, 0x93, 0xd6, 0xc3, 0x60, 0x07, 0xda, 0xfb, 0x16, 0x6b],
        rfl⟩
    else
      ⟨[0xbf, 0xec, 0xc1, 0xff, 0xff, 0x31, 0x08, 0x9b, 0x10, 0x94, 0x90, 0xe3, 0xcb, 0x35, 0x82, 0x96,
        0x07, 0x7a, 0x76, 0xad, 0xfe, 0x27, 0x3d, 0x77, 0x82, 0xb5, 0xc4, 0x62, 0x8d, 0x44, 0xa5, 0x22],
        rfl⟩
  blake3Xof := fun _ _ _ => 0

/-- The first fragment of the payload `ab`, of association 1. -/
def letterA : List UInt8 :=
  [0x59, 0x44, 1, 0, 0, 0, 0, 0, 0, 0, 0, 1, 0, 0, 0, 0, 0, 0, 0, 2, 0, 2, 0x61, 0x2a, 0x5a, 0xd9, 0xec,
    0xaa, 0x4a, 0x7f, 0x82, 0x22, 0x59, 0x32, 0x1d, 0x58, 0xf1, 0x6a, 0x85]

/-- The second fragment. -/
def letterB : List UInt8 :=
  [0x59, 0x44, 1, 0, 0, 0, 0, 0, 0, 0, 0, 1, 0, 0, 0, 0, 0, 1, 0, 2, 0, 2, 0x62, 0xbf, 0xec, 0xc1, 0xff,
    0xff, 0x31, 0x08, 0x9b, 0x10, 0x94, 0x90, 0xe3, 0xcb, 0x35, 0x82, 0x96]

theorem length_lettersKey : (List.replicate 32 (7 : UInt8)).length = 32 := rfl

/-- The packet with the payload `ab`, in datagrams of 39 bytes. -/
def lettersPacket : SentPacket lettersPrimitives ⟨List.replicate 32 7, length_lettersKey⟩ .plain where
  associationId := 1
  packetId := 0
  payload := [0x61, 0x62]
  maxDatagramSize := 39
  datagrams := [letterA, letterB]
  encoded := by decide +kernel

/-- The second fragment arrives twice, and then the first. -/
def lettersArrivals : List Arrival :=
  [⟨letterB, 5, ⟨id, fun _ => .refl _⟩⟩, ⟨letterB, 6, ⟨id, fun _ => .refl _⟩⟩,
    ⟨letterA, 7, ⟨id, fun _ => .refl _⟩⟩]

/-- The packet `ab` comes out once. -/
theorem receiveAll_outputs_letters :
    ((receiveAll lettersPrimitives ⟨List.replicate 32 7, rfl⟩ .plain {}
      lettersArrivals).1.filterMap delivered).Perm [(1, [0x61, 0x62])] := by
  have hdelivery : Delivery [lettersPacket] lettersArrivals 256 (10 * 10 ^ 9) := by
    refine ⟨by decide +kernel, by decide +kernel, ?_, ?_, ?_⟩
    · exact forall_split_cons (by decide +kernel) (forall_split_cons (by decide +kernel)
        (forall_split_cons (by decide +kernel) (by simp)))
    · exact forall_split_cons (by decide +kernel) (forall_split_cons (by decide +kernel)
        (forall_split_cons (by decide +kernel) (by simp)))
    · exact forall_split_cons (by decide +kernel) (forall_split_cons (by decide +kernel)
        (forall_split_cons (by decide +kernel) (by simp)))
  exact (receiveAll_outputs (by decide +kernel) hdelivery).2.2

end WutherCore.Young
