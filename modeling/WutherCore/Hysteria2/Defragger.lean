import WutherCore.Data.FirstFit
import WutherCore.Data.Slots
import WutherCore.Hysteria2.Message

/-!
# Hysteria 2: fragments are put together

`Hysteria2Defragger` holds the fragments of one packet at a time.  A fragment of another packet, or of
the same number with another count, starts over; so does a packet that gets too large.

* `Defragger.Step`: what `feed` can do.
* `Defragger.Inv`: the slots hold fragments of one packet, each at its place.
* `feedAll_sound`: what comes out is the concatenation of the fragments of one packet, and comes out at
  most as often as each of its fragments has arrived.
* `feedAll_complete`: a packet comes out when all its fragments arrive with no other packet's between.
-/

namespace WutherCore.Hysteria2

open WutherCore.Data
open WutherCore.Young (IoError)

/-- `Hysteria2Defragger`. -/
structure Defragger where
  packetId : UInt16 := 0
  fragments : List (Option Message) := []
  received : Nat := 0
  size : Nat := 0
  deriving DecidableEq

/-- The message made of the fragments of a packet. -/
def joined : List Message → Option Message
  | [] => none
  | first :: rest =>
    some { first with
      fragmentId := 0
      fragmentCount := 1
      data := ((first :: rest).map Message.data).flatten }

/-- The slots are emptied one after another by `take()?`, up to the first that is empty already. -/
def takeAll : List (Option Message) → Option (List Message) × List (Option Message)
  | [] => (some [], [])
  | none :: slots => (none, none :: slots)
  | some m :: slots => ((takeAll slots).1.map (m :: ·), none :: (takeAll slots).2)

namespace Defragger

/-- The defragger starts over, unless the message belongs to the packet that it holds. -/
def restart (d : Defragger) (m : Message) : Defragger :=
  if m.packetId ≠ d.packetId ∨ d.fragments.length ≠ m.fragmentCount.toNat then
    { packetId := m.packetId
      fragments := List.replicate m.fragmentCount.toNat none
      received := 0
      size := 0 }
  else d

/-- The fragments are dropped. -/
def clear (d : Defragger) : Defragger := { d with fragments := [], received := 0, size := 0 }

/-- A fragment is put into its slot. -/
def store (d : Defragger) (m : Message) : Defragger :=
  { d with
    fragments := d.fragments.set m.fragmentId.toNat (some m)
    received := d.received + 1
    size := d.size + m.data.length }

/-- `Hysteria2Defragger::feed`.  After `restart` there is a slot for each fragment of the packet, so the
index is within bounds. -/
def feed (d : Defragger) (m : Message) : Option Message × Defragger :=
  if m.fragmentCount ≤ 1 then (some m, d)
  else if m.fragmentCount ≤ m.fragmentId then (none, d)
  else
    let d := d.restart m
    if (d.fragments[m.fragmentId.toNat]?.join).isSome then (none, d)
    else if maxUdpSize < d.size + m.data.length then (none, d.clear)
    else
      let d := d.store m
      if d.received ≠ d.fragments.length then (none, d)
      else
        match takeAll d.fragments with
        | (some parts, _) => (joined parts, d.clear)
        | (none, left) => (none, { d with fragments := left })

/-! ### What the defragger holds -/

/-- The slots hold fragments of one packet, each at its place; the counters are right, and a slot is
empty. -/
structure Inv (d : Defragger) : Prop where
  received : d.received = d.fragments.reduceOption.length
  size : d.size = (d.fragments.reduceOption.map fun m => m.data.length).sum
  slots : ∀ (i : Nat) m, d.fragments[i]? = some (some m) →
    m.packetId = d.packetId ∧ m.fragmentCount.toNat = d.fragments.length ∧ m.fragmentId.toNat = i
  incomplete : d.fragments ≠ [] → d.received < d.fragments.length

theorem inv_default : ({} : Defragger).Inv where
  received := rfl
  size := rfl
  slots := by simp
  incomplete := by simp

variable {d d' : Defragger} {m : Message}

theorem inv_clear (d : Defragger) : d.clear.Inv where
  received := rfl
  size := rfl
  slots := by simp [clear]
  incomplete := by simp [clear]

theorem restart_packetId (d : Defragger) (m : Message) : (d.restart m).packetId = m.packetId := by
  unfold restart
  split_ifs with h
  · rfl
  · rw [not_or, not_not] at h
    exact h.1.symm

theorem restart_length (d : Defragger) (m : Message) :
    (d.restart m).fragments.length = m.fragmentCount.toNat := by
  unfold restart
  split_ifs with h
  · simp
  · rw [not_or, not_not, not_not] at h
    exact h.2

theorem restart_eq_self {i : Nat} {x : Message} (h : (d.restart m).fragments[i]? = some (some x)) :
    d.restart m = d := by
  unfold restart at h ⊢
  split_ifs at h ⊢
  · rw [List.getElem?_replicate] at h
    split_ifs at h
    cases h
  · rfl

theorem Inv.restart (h : d.Inv) (hm : 0 < m.fragmentCount.toNat) : (d.restart m).Inv := by
  unfold Defragger.restart
  split_ifs
  · refine ⟨by simp, by simp, fun i x hx => ?_, fun _ => by simpa using hm⟩
    rw [List.getElem?_replicate] at hx
    split_ifs at hx
    cases hx
  · exact h

/-- What `feed` can do with a message. -/
inductive Step (d : Defragger) (m : Message) : Option Message → Defragger → Prop
  | whole : m.fragmentCount ≤ 1 → Step d m (some m) d
  | invalid : m.fragmentCount ≤ m.fragmentId → Step d m none d
  | duplicate (x : Message) : 1 < m.fragmentCount.toNat →
      (d.restart m).fragments[m.fragmentId.toNat]? = some (some x) → Step d m none d
  | tooLarge : 1 < m.fragmentCount.toNat →
      (d.restart m).fragments[m.fragmentId.toNat]? = some none →
      maxUdpSize < (d.restart m).size + m.data.length → Step d m none (d.restart m).clear
  | stored : 1 < m.fragmentCount.toNat →
      (d.restart m).fragments[m.fragmentId.toNat]? = some none →
      (d.restart m).received + 1 < m.fragmentCount.toNat → Step d m none ((d.restart m).store m)
  | complete (parts : List Message) (o : Message) : 1 < m.fragmentCount.toNat →
      (d.restart m).fragments[m.fragmentId.toNat]? = some none →
      (d.restart m).fragments.set m.fragmentId.toNat (some m) = parts.map some →
      joined parts = some o → Step d m (some o) ((d.restart m).store m).clear

theorem takeAll_map_some (parts : List Message) :
    takeAll (parts.map some) = (some parts, List.replicate parts.length none) := by
  induction parts with
  | nil => rfl
  | cons m parts ih => rw [List.map_cons, takeAll, ih]; rfl

/-- **What `feed` does**, from a state in which the invariant holds. -/
theorem feed_step (h : d.Inv) (m : Message) : Step d m (d.feed m).1 (d.feed m).2 := by
  unfold feed
  by_cases hone : m.fragmentCount ≤ 1
  · rw [if_pos hone]
    exact .whole hone
  rw [if_neg hone]
  by_cases hid : m.fragmentCount ≤ m.fragmentId
  · rw [if_pos hid]
    exact .invalid hid
  rw [if_neg hid]
  rw [UInt8.not_le, UInt8.lt_iff_toNat_lt] at hone hid
  have hcount : 1 < m.fragmentCount.toNat := hone
  have hlen := restart_length d m
  have hinv := h.restart (m := m) (by omega)
  obtain ⟨slot, hslot⟩ : ∃ slot, (d.restart m).fragments[m.fragmentId.toNat]? = some slot :=
    ⟨_, List.getElem?_eq_getElem (by omega)⟩
  dsimp only
  rw [hslot]
  cases slot with
  | some x =>
    rw [if_pos (by simp), restart_eq_self hslot]
    exact .duplicate x hcount hslot
  | none =>
    rw [if_neg (by simp)]
    by_cases hlarge : maxUdpSize < (d.restart m).size + m.data.length
    · rw [if_pos hlarge]
      exact .tooLarge hcount hslot hlarge
    rw [if_neg hlarge]
    have hfilled := length_reduceOption_set hslot m
    have hlen' : ((d.restart m).store m).fragments.length = m.fragmentCount.toNat := by
      simp [store, hlen]
    have hreceived : ((d.restart m).store m).received =
        ((d.restart m).store m).fragments.reduceOption.length := by
      simp [store, hfilled, hinv.received]
    have hle := List.reduceOption_length_le ((d.restart m).store m).fragments
    by_cases hall : ((d.restart m).store m).received ≠ ((d.restart m).store m).fragments.length
    · rw [if_pos hall]
      refine .stored hcount hslot ?_
      have hstore : ((d.restart m).store m).received = (d.restart m).received + 1 := rfl
      omega
    · -- the last slot is filled
      rw [if_neg hall]
      rw [not_not, hreceived] at hall
      have hparts := eq_map_some_of_length hall
      set parts := ((d.restart m).store m).fragments.reduceOption
      rw [hparts, takeAll_map_some]
      cases hp : parts with
      | nil =>
        rw [hp] at hparts
        rw [hparts] at hlen'
        simp at hlen'
        omega
      | cons first rest =>
        have hjoined : joined parts = some { first with
            fragmentId := 0
            fragmentCount := 1
            data := ((first :: rest).map Message.data).flatten } := by rw [hp]; rfl
        rw [← hp]
        dsimp only
        rw [hjoined]
        exact .complete parts _ hcount hslot hparts hjoined

theorem Inv.store (h : (d.restart m).Inv)
    (hslot : (d.restart m).fragments[m.fragmentId.toNat]? = some none)
    (hmore : (d.restart m).received + 1 < m.fragmentCount.toNat) : ((d.restart m).store m).Inv := by
  have hlen := restart_length d m
  have hpacket := restart_packetId d m
  constructor
  · simp [Defragger.store, length_reduceOption_set hslot, h.received]
  · simp [Defragger.store, sum_reduceOption_set hslot, h.size, Nat.add_comm]
  · intro i x hx
    simp only [Defragger.store, List.getElem?_set] at hx
    split_ifs at hx with hi
    · cases hx
      simp [Defragger.store, hpacket, hlen, hi]
    · simpa [Defragger.store] using h.slots i x hx
  · intro _
    simpa [Defragger.store, hlen] using hmore

theorem Inv.feed (h : d.Inv) (m : Message) : (d.feed m).2.Inv := by
  have hstep := feed_step h m
  generalize d.feed m = result at hstep ⊢
  obtain ⟨o, d'⟩ := result
  cases hstep with
  | whole => exact h
  | invalid => exact h
  | duplicate => exact h
  | tooLarge => exact inv_clear _
  | stored hcount hslot hmore => exact (h.restart (by omega)).store hslot hmore
  | complete => exact inv_clear _

theorem restart_set_slot {i : Nat} {x : Message}
    (h : ((d.restart m).fragments.set m.fragmentId.toNat (some m))[i]? = some (some x)) :
    (x = m ∧ m.fragmentId.toNat = i) ∨
      d.packetId = m.packetId ∧ d.fragments.length = m.fragmentCount.toNat ∧
        d.fragments[i]? = some (some x) := by
  rw [List.getElem?_set] at h
  split_ifs at h with hi
  · cases h
    exact .inl ⟨rfl, hi⟩
  · have hself := restart_eq_self h
    have hpacket := restart_packetId d m
    have hlen := restart_length d m
    rw [hself] at hpacket hlen h
    exact .inr ⟨hpacket, hlen, h⟩

theorem Step.slot {o : Option Message} (h : Step d m o d') {i : Nat} {x : Message}
    (hx : d'.fragments[i]? = some (some x)) :
    (d'.packetId = d.packetId ∧ d'.fragments.length = d.fragments.length ∧
      d.fragments[i]? = some (some x)) ∨
    (x = m ∧ o = none ∧ m.fragmentId.toNat = i ∧ d'.packetId = m.packetId ∧
      d'.fragments.length = m.fragmentCount.toNat) := by
  cases h with
  | whole => exact .inl ⟨rfl, rfl, hx⟩
  | invalid => exact .inl ⟨rfl, rfl, hx⟩
  | duplicate => exact .inl ⟨rfl, rfl, hx⟩
  | tooLarge => simp [clear] at hx
  | complete => simp [clear] at hx
  | stored =>
    have hpacket : ((d.restart m).store m).packetId = m.packetId := restart_packetId d m
    have hlen : ((d.restart m).store m).fragments.length = m.fragmentCount.toNat := by
      simp [Defragger.store, restart_length]
    rcases restart_set_slot hx with ⟨rfl, hi⟩ | ⟨hd, hdlen, hold⟩
    · exact .inr ⟨rfl, rfl, hi, hpacket, hlen⟩
    · exact .inl ⟨hpacket.trans hd.symm, hlen.trans hdlen.symm, hold⟩

theorem Step.output {o : Message} (h : Step d m (some o) d') :
    (m.fragmentCount ≤ 1 ∧ o = m) ∨
    ∃ parts, joined parts = some o ∧ parts.length = m.fragmentCount.toNat ∧
      ∀ (i : Nat) part, parts[i]? = some part →
        (part = m ∧ m.fragmentId.toNat = i) ∨
          d.packetId = m.packetId ∧ d.fragments.length = m.fragmentCount.toNat ∧
            d.fragments[i]? = some (some part) := by
  cases h with
  | whole hone => exact .inl ⟨hone, rfl⟩
  | complete parts o hcount hslot hparts hjoined =>
    refine .inr ⟨parts, hjoined, ?_, fun i part hpart => restart_set_slot ?_⟩
    · rw [← restart_length d m, ← List.length_map (f := some), ← hparts, List.length_set]
    · rw [hparts, List.getElem?_map, hpart]
      rfl

end Defragger

/-! ### Runs -/

/-- A message arrives at a session, and what `feed` returns. -/
structure Event where
  arrived : Message
  output : Option Message
  deriving DecidableEq

/-- The messages of a session are fed one after another. -/
def feedAll (d : Defragger) : List Message → List Event × Defragger
  | [] => ([], d)
  | m :: ms => (⟨m, (d.feed m).1⟩ :: (feedAll (d.feed m).2 ms).1, (feedAll (d.feed m).2 ms).2)

/-- `receive_hysteria2_datagrams` and `dispatch`: the messages that arrive at a session, of the datagrams
of its connection. -/
def dispatched (sessionId : UInt32) (datagrams : List (List UInt8)) : List Message :=
  (datagrams.filterMap fun datagram => (Message.parse datagram).toOption).filter
    fun m => m.sessionId == sessionId

/-- The packets of a number and a count that have come out. -/
def outputsOf (key : UInt16 × UInt8) (events : List Event) : Nat :=
  events.countP fun e => e.arrived.key == key && e.output.isSome

/-- How often a fragment of a packet has arrived. -/
def arrivalsOf (key : UInt16 × UInt8) (i : Nat) (events : List Event) : Nat :=
  events.countP fun e => e.arrived.key == key && e.arrived.fragmentId.toNat == i

/-- A message is the concatenation, in their order, of the fragments `0, …, n - 1` of one packet that
have arrived. -/
def Concatenates (arrived : List Message) (key : UInt16 × UInt8) (o : Message) : Prop :=
  ∃ parts : List Message, parts.length = key.2.toNat ∧ joined parts = some o ∧
    ∀ (i : Nat) part, parts[i]? = some part →
      part ∈ arrived ∧ part.key = key ∧ part.fragmentId.toNat = i

theorem valid_of_mem_dispatched {sessionId : UInt32} {datagrams : List (List UInt8)} {m : Message}
    (h : m ∈ dispatched sessionId datagrams) : m.Valid := by
  obtain ⟨datagram, -, hm⟩ := List.mem_filterMap.1 (List.mem_filter.1 h).1
  cases hp : Message.parse datagram with
  | error e => simp [hp, Except.toOption] at hm
  | ok m' =>
    obtain rfl : m' = m := by simpa [hp, Except.toOption] using hm
    exact Message.parse_eq_ok hp

/-- The state of a defragger after some events. -/
structure Sound (past : List Event) (d : Defragger) : Prop where
  inv : d.Inv
  held : ∀ (i : Nat) m, d.fragments[i]? = some (some m) → m ∈ past.map Event.arrived
  whole : ∀ before e after, past = before ++ e :: after → ∀ o, e.output = some o →
    Concatenates ((before ++ [e]).map Event.arrived) e.arrived.key o
  once : ∀ key i, i < key.2.toNat → outputsOf key past ≤ arrivalsOf key i past
  again : ∀ key i, i < key.2.toNat → d.packetId = key.1 → d.fragments.length = key.2.toNat →
    (∃ m, d.fragments[i]? = some (some m)) → outputsOf key past < arrivalsOf key i past

theorem sound_default : Sound [] {} where
  inv := Defragger.inv_default
  held := by simp
  whole := by simp
  once := by simp [outputsOf]
  again := by simp

theorem outputsOf_concat (key : UInt16 × UInt8) (past : List Event) (e : Event) :
    outputsOf key (past ++ [e]) =
      outputsOf key past + if e.arrived.key = key ∧ e.output.isSome then 1 else 0 := by
  simp [outputsOf, List.countP_append, List.countP_cons]

theorem arrivalsOf_concat (key : UInt16 × UInt8) (i : Nat) (past : List Event) (e : Event) :
    arrivalsOf key i (past ++ [e]) =
      arrivalsOf key i past + if e.arrived.key = key ∧ e.arrived.fragmentId.toNat = i then 1 else 0 := by
  simp [arrivalsOf, List.countP_append, List.countP_cons]

theorem joined_singleton {m : Message} (h : m.Valid) (hone : m.fragmentCount ≤ 1) :
    m.fragmentCount = 1 ∧ m.fragmentId = 0 ∧ joined [m] = some m := by
  have hid := UInt8.lt_iff_toNat_lt.1 h.1
  rw [UInt8.le_iff_toNat_le] at hone
  have hone : m.fragmentCount.toNat ≤ 1 := hone
  have hcount : m.fragmentCount = 1 := UInt8.toNat_inj.1 (show m.fragmentCount.toNat = 1 by omega)
  have hzero : m.fragmentId = 0 := UInt8.toNat_inj.1 (show m.fragmentId.toNat = 0 by omega)
  refine ⟨hcount, hzero, ?_⟩
  obtain ⟨sessionId, packetId, fragmentId, fragmentCount, address, data⟩ := m
  dsimp only at hcount hzero
  subst hcount hzero
  simp [joined]

theorem Sound.concatenates {past : List Event} {d d' : Defragger} {m o : Message} (h : Sound past d)
    (hm : m.Valid) (hstep : d.Step m (some o) d') :
    Concatenates (past.map Event.arrived ++ [m]) m.key o := by
  rcases hstep.output with ⟨hone, rfl⟩ | ⟨parts, hjoined, hlen, hparts⟩
  · obtain ⟨hcount, hzero, hjoined⟩ := joined_singleton hm hone
    refine ⟨[o], by simp [Message.key, hcount], hjoined, fun i part hpart => ?_⟩
    obtain ⟨rfl, rfl⟩ : i = 0 ∧ part = o := by
      rw [List.getElem?_singleton] at hpart
      split_ifs at hpart with hi
      exact ⟨hi, by simpa using hpart.symm⟩
    exact ⟨by simp, rfl, by simp [hzero]⟩
  · refine ⟨parts, hlen, hjoined, fun i part hpart => ?_⟩
    rcases hparts i part hpart with ⟨rfl, hi⟩ | ⟨hpacket, hcount, hslot⟩
    · exact ⟨by simp, rfl, hi⟩
    · obtain ⟨hpid, hpcount, hpi⟩ := h.inv.slots i part hslot
      have hkey : part.fragmentCount = m.fragmentCount := UInt8.toNat_inj.1 (by omega)
      exact ⟨by simp [h.held i part hslot], by simp [Message.key, hpid, hpacket, hkey], hpi⟩

theorem Sound.outputsOf_lt {past : List Event} {d d' : Defragger} {m o : Message} (h : Sound past d)
    (hm : m.Valid) (hstep : d.Step m (some o) d') {i : Nat} (hi : i < m.fragmentCount.toNat) :
    outputsOf m.key past < arrivalsOf m.key i (past ++ [⟨m, some o⟩]) := by
  have honce := h.once m.key i hi
  rw [arrivalsOf_concat]
  by_cases hid : m.fragmentId.toNat = i
  · rw [if_pos ⟨rfl, hid⟩]
    omega
  rcases hstep.output with ⟨hone, rfl⟩ | ⟨parts, hjoined, hlen, hparts⟩
  · obtain ⟨hcount, hzero, -⟩ := joined_singleton hm hone
    rw [hcount] at hi
    rw [hzero] at hid
    exact absurd (show (0 : UInt8).toNat = i from (Nat.lt_one_iff.1 hi).symm) hid
  · obtain ⟨part, hpart⟩ : ∃ part, parts[i]? = some part := ⟨_, List.getElem?_eq_getElem (by omega)⟩
    rcases hparts i part hpart with ⟨-, hpi⟩ | ⟨hpacket, hcount, hslot⟩
    · exact absurd hpi hid
    · have hlt := h.again m.key i hi hpacket hcount ⟨part, hslot⟩
      omega

theorem Sound.feed {past : List Event} {d : Defragger} {m : Message} (h : Sound past d) (hm : m.Valid) :
    Sound (past ++ [⟨m, (d.feed m).1⟩]) (d.feed m).2 := by
  have hinv := h.inv.feed m
  have hstep := Defragger.feed_step h.inv m
  generalize d.feed m = result at hstep hinv ⊢
  obtain ⟨output, d'⟩ := result
  dsimp only at hstep hinv ⊢
  have hgrow : ∀ key i, arrivalsOf key i past ≤ arrivalsOf key i (past ++ [⟨m, output⟩]) := by
    intro key i
    rw [arrivalsOf_concat]
    omega
  have honce : ∀ key i, i < key.2.toNat →
      outputsOf key (past ++ [⟨m, output⟩]) ≤ arrivalsOf key i (past ++ [⟨m, output⟩]) := by
    intro key i hi
    have hpast := h.once key i hi
    rw [outputsOf_concat]
    by_cases hout : m.key = key ∧ output.isSome
    · obtain ⟨rfl, hout⟩ := hout
      obtain ⟨o, rfl⟩ := Option.isSome_iff_exists.1 hout
      rw [if_pos ⟨rfl, hout⟩]
      exact h.outputsOf_lt hm hstep hi
    · rw [if_neg hout]
      exact hpast.trans (hgrow key i)
  refine ⟨hinv, ?_, ?_, honce, ?_⟩
  · intro i x hx
    rw [List.map_append, List.mem_append]
    rcases hstep.slot hx with ⟨-, -, hold⟩ | ⟨rfl, -⟩
    · exact .inl (h.held i x hold)
    · exact .inr (by simp)
  · refine forall_split_concat.2 ⟨h.whole, fun o ho => ?_⟩
    dsimp only at ho
    subst ho
    rw [List.map_append]
    exact h.concatenates hm hstep
  · rintro key i hi hpacket hlen ⟨x, hx⟩
    rw [outputsOf_concat, arrivalsOf_concat]
    have hpast := h.once key i hi
    rcases hstep.slot hx with ⟨hpacket', hlen', hold⟩ | ⟨rfl, rfl, hid, hpacket', hlen'⟩
    · have hlt := h.again key i hi (hpacket'.symm.trans hpacket) (hlen'.symm.trans hlen) ⟨x, hold⟩
      by_cases hout : m.key = key ∧ output.isSome
      · -- With a slot filled, only a packet of one fragment has come out.
        obtain ⟨o, rfl⟩ := Option.isSome_iff_exists.1 hout.2
        cases hstep with
        | complete => simp [Defragger.clear] at hx
        | whole hone =>
          obtain ⟨hcount, hzero, -⟩ := joined_singleton hm hone
          have hzero' : m.fragmentId.toNat = 0 := by rw [hzero]; rfl
          have hone' : key.2.toNat = 1 := by rw [← hout.1, Message.key, hcount]; rfl
          rw [if_pos hout, if_pos ⟨hout.1, by dsimp only; omega⟩]
          omega
      · rw [if_neg hout]
        omega
    · have hcount : x.fragmentCount = key.2 := UInt8.toNat_inj.1 (hlen'.symm.trans hlen)
      have hkey : x.key = key := Prod.ext (hpacket'.symm.trans hpacket) hcount
      rw [if_neg (by simp), if_pos ⟨hkey, hid⟩]
      omega

theorem Sound.feedAll {past : List Event} {d : Defragger} (h : Sound past d) {ms : List Message}
    (hms : ∀ m ∈ ms, m.Valid) : Sound (past ++ (feedAll d ms).1) (feedAll d ms).2 := by
  induction ms generalizing past d with
  | nil => simpa [Hysteria2.feedAll] using h
  | cons m ms ih =>
    rw [List.forall_mem_cons] at hms
    have hrest := ih (h.feed hms.1) hms.2
    simpa [Hysteria2.feedAll] using hrest

/-! ### A packet without gaps -/

section Packet

variable {parts : List Message} {key : UInt16 × UInt8}

/-- The fragments of a packet. -/
structure IsPacket (key : UInt16 × UInt8) (parts : List Message) : Prop where
  length : parts.length = key.2.toNat
  key : ∀ part ∈ parts, part.key = key
  index : ∀ (i : Nat) part, parts[i]? = some part → part.fragmentId.toNat = i
  size : (parts.map fun part => part.data.length).sum ≤ maxUdpSize

/-- The defragger holds nothing of another packet of the same number and count. -/
def Defragger.Clean (d : Defragger) (key : UInt16 × UInt8) (parts : List Message) : Prop :=
  d.packetId = key.1 → d.fragments.length = key.2.toNat → SlotsOf d.fragments parts

/-- The defragger holds a fragment of the packet. -/
def Defragger.Holds (d : Defragger) (key : UInt16 × UInt8) (part : Message) : Prop :=
  d.packetId = key.1 ∧ d.fragments.length = key.2.toNat ∧
    d.fragments[part.fragmentId.toNat]? = some (some part)

theorem Defragger.Clean.restart {d : Defragger} (h : d.Clean key parts) (hp : IsPacket key parts)
    {m : Message} (hm : m ∈ parts) : SlotsOf (d.restart m).fragments parts := by
  have hkey := hp.key m hm
  have hcount : m.fragmentCount.toNat = parts.length := by rw [hp.length, ← hkey]; rfl
  unfold Defragger.restart
  split_ifs with hother
  · rw [hcount]
    exact SlotsOf.replicate parts
  · rw [not_or, not_not, not_not] at hother
    exact h (by rw [← hother.1, ← hkey]; rfl) (by rw [hother.2, ← hkey]; rfl)

/-- A fragment of the packet arrives: the packet comes out, or the fragment is held with those that were
held before. -/
theorem Defragger.Clean.feed {d : Defragger} (h : d.Clean key parts) (hd : d.Inv)
    (hp : IsPacket key parts) {m : Message} (hm : m ∈ parts) (hone : 1 < key.2.toNat) :
    (d.feed m).1 = joined parts ∨
      (d.feed m).2.Clean key parts ∧ (d.feed m).2.Holds key m ∧
        ∀ part, d.Holds key part → (d.feed m).2.Holds key part := by
  have hkey := hp.key m hm
  have hslots := h.restart hp hm
  have hcount : m.fragmentCount.toNat = key.2.toNat := by rw [← hkey]; rfl
  obtain ⟨i, hi⟩ := List.getElem?_of_mem hm
  have hindex := hp.index i m hi
  have hstored : SlotsOf ((d.restart m).fragments.set m.fragmentId.toNat (some m)) parts :=
    hslots.set (by rw [hindex]; exact hi)
  have hpacket : (d.restart m).packetId = key.1 := by rw [Defragger.restart_packetId, ← hkey]; rfl
  have hlen : (d.restart m).fragments.length = key.2.toNat := by rw [Defragger.restart_length, hcount]
  have hstep := Defragger.feed_step hd m
  generalize d.feed m = result at hstep ⊢
  obtain ⟨o, d'⟩ := result
  cases hstep with
  | whole hle =>
    have hle : m.fragmentCount.toNat ≤ 1 := UInt8.le_iff_toNat_le.1 hle
    omega
  | invalid hle =>
    have hlt := (List.getElem?_eq_some_iff.1 hi).1
    rw [hp.length] at hlt
    rw [UInt8.le_iff_toNat_le] at hle
    omega
  | duplicate x _ hslot =>
    have hself := Defragger.restart_eq_self hslot
    obtain rfl : x = m := by
      have hx := hslots.2 _ x hslot
      rw [hindex, hi] at hx
      exact (Option.some.inj hx).symm
    rw [hself] at hslot hpacket hlen
    exact .inr ⟨h, ⟨hpacket, hlen, hslot⟩, fun _ hheld => hheld⟩
  | tooLarge _ hslot hlarge =>
    -- All fragments of the packet together are not too large.
    have hsum := sum_reduceOption_set hslot m fun part => part.data.length
    have hle := hstored.sum_le fun part => part.data.length
    have hsize := (hd.restart (m := m) (by omega)).size
    have hmax := hp.size
    omega
  | stored _ hslot hmore =>
    refine .inr ⟨fun _ _ => hstored, ⟨hpacket, ?_, ?_⟩, fun part ⟨hid, hdlen, hheld⟩ => ⟨hpacket, ?_, ?_⟩⟩
    · simpa [Defragger.store] using hlen
    · apply List.getElem?_set_self
      exact (List.getElem?_eq_some_iff.1 hslot).1
    · simpa [Defragger.store] using hlen
    · have hself : d.restart m = d := by
        unfold Defragger.restart
        refine if_neg ?_
        rw [not_or, not_not, not_not, hid, hdlen, hcount, ← hkey]
        exact ⟨rfl, rfl⟩
      have hne : m.fragmentId.toNat ≠ part.fragmentId.toNat := by
        intro heq
        rw [hself, heq, hheld] at hslot
        cases hslot
      rw [hself]
      apply (List.getElem?_set_ne hne).trans
      exact hheld
  | complete parts' o _ hslot hparts hjoined =>
    rw [hparts] at hstored
    rw [hstored.eq_of_full] at hjoined
    exact .inl hjoined.symm

/-- The fragments of a packet arrive, with no other packet's between: the packet comes out, or all of
them are held. -/
theorem Defragger.Clean.feedAll {d : Defragger} (h : d.Clean key parts) (hd : d.Inv)
    (hp : IsPacket key parts) (hone : 1 < key.2.toNat) {ms : List Message}
    (hms : ∀ m ∈ ms, m ∈ parts ∨ m.fragmentCount ≤ 1) :
    (∃ e ∈ (feedAll d ms).1, e.arrived ∈ parts ∧ e.output = joined parts) ∨
      (feedAll d ms).2.Inv ∧ (∀ part, d.Holds key part → (feedAll d ms).2.Holds key part) ∧
        ∀ part ∈ ms, part ∈ parts → (feedAll d ms).2.Holds key part := by
  induction ms generalizing d with
  | nil => exact .inr ⟨hd, fun _ hheld => hheld, by simp⟩
  | cons m ms ih =>
    rw [List.forall_mem_cons] at hms
    have hinv := hd.feed m
    by_cases hm : m ∈ parts
    · rcases h.feed hd hp hm hone with hout | ⟨hclean, hheld, hkeep⟩
      · exact .inl ⟨_, List.mem_cons_self, hm, hout⟩
      · rcases ih hclean hinv hms.2 with ⟨e, he, hout⟩ | ⟨hinv', hkeep', hrest⟩
        · exact .inl ⟨e, List.mem_cons_of_mem _ he, hout⟩
        · refine .inr ⟨hinv', fun part hpart => hkeep' part (hkeep part hpart), ?_⟩
          intro part hmem hpart
          rcases List.mem_cons.1 hmem with rfl | hmem
          · exact hkeep' part hheld
          · exact hrest part hmem hpart
    · -- a message of its own passes by
      have hone := hms.1.resolve_left hm
      have hpass : d.feed m = (some m, d) := if_pos hone
      have hpass2 : (d.feed m).2 = d := by rw [hpass]
      have hclean : (d.feed m).2.Clean key parts := by rw [hpass2]; exact h
      rcases ih hclean hinv hms.2 with ⟨e, he, hout⟩ | ⟨hinv', hkeep', hrest⟩
      · exact .inl ⟨e, List.mem_cons_of_mem _ he, hout⟩
      · refine .inr ⟨hinv', fun part hpart => hkeep' part (by rwa [hpass2]), fun part hmem hpart => ?_⟩
        rcases List.mem_cons.1 hmem with rfl | hmem
        · exact absurd hpart hm
        · exact hrest part hmem hpart

/-- **A packet comes out** when all its fragments arrive with no other packet's between them. -/
theorem feedAll_complete {d : Defragger} (h : d.Clean key parts) (hd : d.Inv) (hp : IsPacket key parts)
    (hone : 1 < key.2.toNat) {ms : List Message} (hms : ∀ m ∈ ms, m ∈ parts ∨ m.fragmentCount ≤ 1)
    (hall : ∀ part ∈ parts, part ∈ ms) :
    ∃ e ∈ (feedAll d ms).1, e.arrived ∈ parts ∧ e.output = joined parts := by
  rcases h.feedAll hd hp hone hms with hout | ⟨hinv, -, hheld⟩
  · exact hout
  · exfalso
    have hslots : ∀ part ∈ parts, (feedAll d ms).2.Holds key part :=
      fun part hpart => hheld part (hall part hpart) hpart
    have hpos : 0 < parts.length := by rw [hp.length]; omega
    obtain ⟨-, hlen, -⟩ := hslots _ (List.getElem_mem hpos)
    -- every slot is filled, but the defragger keeps no complete packet
    have hfull : (feedAll d ms).2.fragments = parts.map some := by
      apply List.ext_getElem?
      intro i
      rw [List.getElem?_map]
      rcases Nat.lt_or_ge i parts.length with hi | hi
      · have hget := List.getElem?_eq_getElem hi
        have hslot := (hslots _ (List.getElem_mem hi)).2.2
        rw [hp.index i _ hget] at hslot
        rw [hslot, hget]
        rfl
      · rw [List.getElem?_eq_none hi, List.getElem?_eq_none (by rw [hlen, ← hp.length]; exact hi)]
        rfl
    have hmore := hinv.incomplete (by rw [hfull]; simpa using List.length_pos_iff.1 hpos)
    rw [hinv.received, hfull, reduceOption_map_some, List.length_map] at hmore
    exact absurd hmore (lt_irrefl _)

end Packet

/-! ### The datagrams of a packet -/

variable {message : Message} {maximum payloadMax : Nat} {packetId : UInt16}
  {frames : List (List UInt8)}

variable (packetId) in
theorem fragmentsOf_isPacket (hpos : 0 < payloadMax)
    (hle : (chunks payloadMax message.data).length ≤ 255) (hsize : message.data.length ≤ maxUdpSize) :
    IsPacket (packetId, UInt8.ofNat (chunks payloadMax message.data).length)
      (fragmentsOf message payloadMax packetId) := by
  refine ⟨?_, ?_, ?_, ?_⟩
  · rw [fragmentsOf_length, UInt8.toNat_ofNat_of_lt' (by show _ < 256; omega)]
  · intro part hpart
    obtain ⟨i, hi⟩ := List.getElem?_of_mem hpart
    obtain ⟨chunk, -, rfl⟩ := fragmentsOf_getElem? hi
    rfl
  · intro i part hi
    obtain ⟨chunk, hchunk, rfl⟩ := fragmentsOf_getElem? hi
    have hlt := (List.getElem?_eq_some_iff.1 hchunk).1
    exact UInt8.toNat_ofNat_of_lt' (show i < 256 by omega)
  · have hdata := congrArg List.length (fragmentsOf_data message packetId hpos)
    rw [List.length_flatten, List.map_map] at hdata
    exact le_of_eq_of_le hdata hsize

variable (packetId) in
theorem joined_fragmentsOf (hpos : 0 < payloadMax) (hdata : message.data ≠ []) :
    joined (fragmentsOf message payloadMax packetId) =
      some { message with packetId := packetId, fragmentId := 0, fragmentCount := 1 } := by
  have hjoin := fragmentsOf_data message packetId hpos
  cases hparts : fragmentsOf message payloadMax packetId with
  | nil =>
    rw [hparts] at hjoin
    exact absurd hjoin.symm hdata
  | cons first rest =>
    obtain ⟨chunk, -, hfirst⟩ := fragmentsOf_getElem?
      (show (fragmentsOf message payloadMax packetId)[0]? = some first by rw [hparts]; rfl)
    rw [hparts] at hjoin
    rw [joined, hjoin, hfirst]

theorem mem_dispatched {sessionId : UInt32} {datagrams : List (List UInt8)} {m : Message} :
    m ∈ dispatched sessionId datagrams ↔
      (∃ datagram ∈ datagrams, Message.parse datagram = .ok m) ∧ m.sessionId = sessionId := by
  have hparse : ∀ datagram, (Message.parse datagram).toOption = some m ↔
      Message.parse datagram = .ok m := by
    intro datagram
    cases Message.parse datagram <;> simp [Except.toOption]
  simp [dispatched, hparse]

theorem exists_output_of_single {d : Defragger} {m : Message} (hone : m.fragmentCount ≤ 1)
    {ms : List Message} (hm : m ∈ ms) : ∃ e ∈ (feedAll d ms).1, e.output = some m := by
  induction ms generalizing d with
  | nil => cases hm
  | cons x ms ih =>
    by_cases hx : x = m
    · subst hx
      exact ⟨_, List.mem_cons_self, by rw [Defragger.feed, if_pos hone]⟩
    · obtain ⟨e, he, hout⟩ := ih (d := (d.feed x).2) ((List.mem_cons.1 hm).resolve_left (Ne.symm hx))
      exact ⟨e, List.mem_cons_of_mem _ he, hout⟩

/-- The packet of a message that was sent in fragments comes out. -/
theorem exists_output (h : sendFragmented message maximum packetId = .ok frames)
    (hsize : message.data.length ≤ maxUdpSize) {d : Defragger} (hd : d.Inv)
    {segment : List (List UInt8)} (hall : ∀ frame ∈ frames, frame ∈ segment)
    (honly : ∀ frame ∈ segment, frame ∈ frames ∨ ∀ m, Message.parse frame = .ok m →
      m.sessionId = message.sessionId → m.fragmentCount ≤ 1)
    (hclean : ∀ m, some m ∈ d.fragments → m.key = (packetId, UInt8.ofNat frames.length) →
      ∃ frame ∈ frames, Message.parse frame = .ok m) :
    ∃ e ∈ (feedAll d (dispatched message.sessionId segment)).1,
      e.output = some { message with packetId := packetId, fragmentId := 0, fragmentCount := 1 } := by
  obtain ⟨payloadMax, hpos, hcount, hle, hframes⟩ := sendFragmented_eq_ok h
  have hlen : frames.length = (chunks payloadMax message.data).length := by
    rw [← hframes.length_eq, fragmentsOf_length]
  have hp := fragmentsOf_isPacket packetId hpos hle hsize
  have hdata : message.data ≠ [] := by
    intro hnil
    rw [hnil] at hcount
    exact absurd hcount (by simp)
  have hjoined := joined_fragmentsOf packetId hpos hdata
  rw [← hjoined]
  have hpart : ∀ m, (∃ frame ∈ frames, Message.parse frame = .ok m) →
      m ∈ fragmentsOf message payloadMax packetId := by
    rintro m ⟨frame, hframe, hm⟩
    obtain ⟨part, hpart, hparse⟩ := exists_left_of_forall₂ hframes hframe
    rw [hm] at hparse
    cases hparse
    exact hpart
  have harrive : ∀ part ∈ fragmentsOf message payloadMax packetId,
      part ∈ dispatched message.sessionId segment := by
    intro part hmem
    obtain ⟨frame, hframe, hparse⟩ := exists_right_of_forall₂ hframes hmem
    obtain ⟨i, hi⟩ := List.getElem?_of_mem hmem
    obtain ⟨chunk, -, rfl⟩ := fragmentsOf_getElem? hi
    exact mem_dispatched.2 ⟨⟨frame, hall frame hframe, hparse⟩, rfl⟩
  by_cases hone : 1 < (chunks payloadMax message.data).length
  · have honly' : ∀ m ∈ dispatched message.sessionId segment,
        m ∈ fragmentsOf message payloadMax packetId ∨ m.fragmentCount ≤ 1 := by
      intro m hm
      obtain ⟨⟨frame, hframe, hparse⟩, hsession⟩ := mem_dispatched.1 hm
      rcases honly frame hframe with hown | hother
      · exact .inl (hpart m ⟨frame, hown, hparse⟩)
      · exact .inr (hother m hparse hsession)
    have hclean' : d.Clean (packetId, UInt8.ofNat (chunks payloadMax message.data).length)
        (fragmentsOf message payloadMax packetId) := by
      intro hpacket hdlen
      refine ⟨hdlen.trans hp.length.symm, fun i m hslot => ?_⟩
      obtain ⟨hmpacket, hmcount, hmi⟩ := hd.slots i m hslot
      have hkey : m.key = (packetId, UInt8.ofNat frames.length) := by
        rw [hlen]
        exact Prod.ext (hmpacket.trans hpacket) (UInt8.toNat_inj.1 (hmcount.trans hdlen))
      have hmem := hpart m (hclean m (List.mem_of_getElem? hslot) hkey)
      obtain ⟨j, hj⟩ := List.getElem?_of_mem hmem
      rwa [← hp.index j m hj, hmi] at hj
    have hbig : 1 < (UInt8.ofNat (chunks payloadMax message.data).length).toNat := by
      rw [UInt8.toNat_ofNat_of_lt' (by show _ < 256; omega)]
      exact hone
    obtain ⟨e, he, -, hout⟩ := feedAll_complete hclean' hd hp hbig honly' harrive
    exact ⟨e, he, hout⟩
  · -- one fragment is a message of its own
    have hsingle : (chunks payloadMax message.data).length = 1 := by omega
    obtain ⟨part, hparts⟩ := List.length_eq_one_iff.1
      ((fragmentsOf_length message payloadMax packetId).trans hsingle)
    obtain ⟨chunk, -, heq⟩ := fragmentsOf_getElem?
      (show (fragmentsOf message payloadMax packetId)[0]? = some part by rw [hparts]; rfl)
    have hpartone : part.fragmentCount ≤ 1 := by
      rw [heq, hsingle]
      exact UInt8.le_refl _
    have hmem := harrive part (by rw [hparts]; exact List.mem_singleton_self _)
    have hvalid := valid_of_mem_dispatched hmem
    obtain ⟨e, he, hout⟩ := exists_output_of_single (d := d) hpartone hmem
    exact ⟨e, he, by rw [hout, hparts, (joined_singleton hvalid hpartone).2.2]⟩

/-- **Fragmentation of UDP packets.**  A message is parsed from its serialisation exactly if its
fragment numbers are valid and it has a payload.  Whatever datagrams arrive, what comes out is the
concatenation of the fragments of one packet, and comes out no more often than each of them has
arrived.  A packet of up to 4096 bytes comes out whenever all its fragments arrive with no fragment of
another packet between, unless fragments of another packet of the same number and count are held when
the first of them arrives. -/
theorem fragments_sound :
    (∀ (m : Message) (bytes : List UInt8), m.serialize = .ok bytes →
      (Message.parse bytes = .ok m ↔ m.fragmentId < m.fragmentCount ∧ m.data ≠ [])) ∧
    (∀ (sessionId : UInt32) (datagrams : List (List UInt8)) (before : List Event) (e : Event)
      (after : List Event), (feedAll {} (dispatched sessionId datagrams)).1 = before ++ e :: after →
      ∀ o, e.output = some o → Concatenates ((before ++ [e]).map Event.arrived) e.arrived.key o) ∧
    (∀ (sessionId : UInt32) (datagrams : List (List UInt8)) (key : UInt16 × UInt8) (i : Nat),
      i < key.2.toNat → outputsOf key (feedAll {} (dispatched sessionId datagrams)).1 ≤
        arrivalsOf key i (feedAll {} (dispatched sessionId datagrams)).1) ∧
    ∀ (message : Message) (maximum : Nat) (packetId : UInt16) (frames before segment : List (List UInt8)),
      sendFragmented message maximum packetId = .ok frames → message.data.length ≤ maxUdpSize →
      (∀ frame ∈ frames, frame ∈ segment) →
      (∀ frame ∈ segment, frame ∈ frames ∨ ∀ m, Message.parse frame = .ok m →
        m.sessionId = message.sessionId → m.fragmentCount ≤ 1) →
      (∀ m, some m ∈ (feedAll {} (dispatched message.sessionId before)).2.fragments →
        m.key = (packetId, UInt8.ofNat frames.length) → ∃ frame ∈ frames, Message.parse frame = .ok m) →
      ∃ e ∈ (feedAll (feedAll {} (dispatched message.sessionId before)).2
          (dispatched message.sessionId segment)).1,
        e.output = some { message with packetId := packetId, fragmentId := 0, fragmentCount := 1 } := by
  have hsound : ∀ sessionId datagrams, Sound (feedAll {} (dispatched sessionId datagrams)).1
      (feedAll {} (dispatched sessionId datagrams)).2 := by
    intro sessionId datagrams
    simpa using sound_default.feedAll fun m hm => valid_of_mem_dispatched hm
  refine ⟨fun m bytes h => Message.parse_serialize h, fun sessionId datagrams =>
    (hsound sessionId datagrams).whole, fun sessionId datagrams => (hsound sessionId datagrams).once, ?_⟩
  intro message maximum packetId frames before segment hsend hsize hall honly hclean
  exact exists_output hsend hsize (hsound _ _).inv hall honly hclean

/-- Two fragments arrive in the other order, the last of them twice. -/
theorem fragments_sound_reordered :
    ∃ e ∈ (feedAll (feedAll {} (dispatched 1 [])).2 (dispatched 1 [[0, 0, 0, 1, 0, 7, 1, 2, 1, 97, 2],
        [0, 0, 0, 1, 0, 7, 0, 2, 1, 97, 1], [0, 0, 0, 1, 0, 7, 1, 2, 1, 97, 2]])).1,
      e.output = some ⟨1, 7, 0, 1, ['a'], [1, 2]⟩ :=
  fragments_sound.2.2.2 ⟨1, 0, 0, 1, ['a'], [1, 2]⟩ 11 7
    [[0, 0, 0, 1, 0, 7, 0, 2, 1, 97, 1], [0, 0, 0, 1, 0, 7, 1, 2, 1, 97, 2]] [] _
    (by decide +kernel) (by decide) (by decide) (fun frame hframe => .inl (by revert frame; decide))
    (fun m hm => absurd hm (by simp [feedAll, dispatched]))

/-- A message without payload is not parsed from its serialisation.  A packet whose number and count are
those of a packet of which a fragment is held does not come out, though its fragments arrive in order
with nothing between: the first of them completes the other packet. -/
theorem fragments_lost :
    (Message.serialize ⟨1, 0, 0, 1, ['a'], []⟩ = .ok [0, 0, 0, 1, 0, 0, 0, 1, 1, 97] ∧
      Message.parse [0, 0, 0, 1, 0, 0, 0, 1, 1, 97] ≠ .ok ⟨1, 0, 0, 1, ['a'], []⟩) ∧
    sendFragmented ⟨1, 0, 0, 1, ['a'], [1, 2]⟩ 11 7 =
      .ok [[0, 0, 0, 1, 0, 7, 0, 2, 1, 97, 1], [0, 0, 0, 1, 0, 7, 1, 2, 1, 97, 2]] ∧
    sendFragmented ⟨1, 0, 0, 1, ['a'], [3, 4]⟩ 11 7 =
      .ok [[0, 0, 0, 1, 0, 7, 0, 2, 1, 97, 3], [0, 0, 0, 1, 0, 7, 1, 2, 1, 97, 4]] ∧
    ∀ e ∈ (feedAll {} (dispatched 1 [[0, 0, 0, 1, 0, 7, 1, 2, 1, 97, 4],
        [0, 0, 0, 1, 0, 7, 0, 2, 1, 97, 1], [0, 0, 0, 1, 0, 7, 1, 2, 1, 97, 2]])).1,
      e.output.map Message.data ≠ some [1, 2] := by
  refine ⟨⟨?_, ?_⟩, ?_, ?_, ?_⟩ <;> decide +kernel

end WutherCore.Hysteria2
