import WutherCore.Data.AssocMap
import WutherCore.Data.Except
import WutherCore.Ss2022.Udp
import Mathlib.Data.List.Basic

/-!
# Shadowsocks 2022: no UDP packet twice

A client remembers the packets of each server session in a `ReplayWindow`: the highest number and a
bitmap of the 128 numbers below it.  `ServerReplayTable` holds the windows of up to 64 sessions and
forgets a session five minutes after its last packet.

* `Represents`: the numbers that a window stands for, and what `checkAndMark` does to them.
* `seen`: the packets of a session while it lives, read from what was delivered.
* `receiveAll_sound`: no datagram is delivered twice, and a live session takes every new number that is
  in its window.

Time is counted in nanoseconds since the epoch.
-/

namespace WutherCore.Ss2022

open WutherCore.Data

/-- `UDP_REPLAY_WINDOW_BITS`. -/
abbrev udpReplayWindowBits : Nat := 128

/-- `UDP_SERVER_SESSION_TTL`. -/
def udpServerSessionTtl : Nat := 300 * 10 ^ 9

/-- `UDP_MAX_SERVER_SESSIONS`. -/
def udpMaxServerSessions : Nat := 64

/-- `ReplayWindow`. -/
structure ReplayWindow where
  highest : Option UInt64 := none
  bitmap : BitVec udpReplayWindowBits := 0
  deriving DecidableEq

/-- `ReplayWindow::check_and_mark`. -/
def ReplayWindow.checkAndMark (w : ReplayWindow) (packetId : UInt64) : Bool × ReplayWindow :=
  match w.highest with
  | none => (true, ⟨some packetId, 1⟩)
  | some highest =>
    if packetId > highest then
      let shift := (packetId - highest).toNat
      (true, ⟨some packetId, if udpReplayWindowBits ≤ shift then 1 else (w.bitmap <<< shift) ||| 1⟩)
    else
      let distance := (highest - packetId).toNat
      if udpReplayWindowBits ≤ distance then (false, w)
      else
        let mask := BitVec.ofNat udpReplayWindowBits 1 <<< distance
        if w.bitmap &&& mask ≠ 0 then (false, w) else (true, ⟨some highest, w.bitmap ||| mask⟩)

/-- `ServerReplaySession`. -/
structure ServerReplaySession where
  lastSeen : Nat
  window : ReplayWindow
  deriving DecidableEq

/-- `ServerReplayTable`. -/
structure ServerReplayTable where
  sessions : AssocMap UInt64 ServerReplaySession := .empty

/-- Why a packet is refused. -/
inductive Refusal
  | sessionLimit
  | duplicateOrOutsideWindow
  deriving DecidableEq, Repr

/-- The text of a refusal. -/
def Refusal.error : Refusal → Young.IoError
  | .sessionLimit => Young.invalidData "ss2022 UDP server session limit exceeded"
  | .duplicateOrOutsideWindow =>
    Young.invalidData "ss2022 UDP packet is duplicate or outside the replay window"

/-- `ServerReplayTable::check_and_mark`. -/
def ServerReplayTable.checkAndMark (t : ServerReplayTable) (sessionId packetId : UInt64) (now : Nat) :
    Except Refusal Unit × ServerReplayTable :=
  let live := t.sessions.retain fun _ session => now - session.lastSeen ≤ udpServerSessionTtl
  if !live.contains sessionId && udpMaxServerSessions ≤ live.size then (.error .sessionLimit, ⟨live⟩)
  else
    let session := (live.get? sessionId).getD ⟨now, {}⟩
    let (fresh, window) := session.window.checkAndMark packetId
    if fresh then (.ok (), ⟨live.insert sessionId ⟨now, window⟩⟩)
    else (.error .duplicateOrOutsideWindow, ⟨live.insert sessionId ⟨session.lastSeen, window⟩⟩)

/-- `Ss2022Udp`, as far as it receives. -/
structure Ss2022Udp where
  cipher : Ss22Cipher
  psk : List UInt8
  clientSessionId : UInt64

/-- A datagram that arrives, and the time. -/
structure Reception where
  packet : List UInt8
  now : Nat

variable (cr : Primitives) (u : Ss2022Udp)

/-- A datagram that is authentic and for this session. -/
def opened (r : Reception) : Option DecodedUdpPacket :=
  match openUdpPacket cr u.cipher u.psk [] .server r.packet (r.now / 10 ^ 9) with
  | .error _ => none
  | .ok decoded => if decoded.clientSessionId = some u.clientSessionId then some decoded else none

/-- One pass of the loop of `recv_from`: the packet that is delivered, if it is one. -/
def receive (t : ServerReplayTable) (r : Reception) : Option DecodedUdpPacket × ServerReplayTable :=
  match opened cr u r with
  | none => (none, t)
  | some decoded =>
    match t.checkAndMark decoded.sessionId decoded.packetId r.now with
    | (.ok (), t) => (some decoded, t)
    | (.error _, t) => (none, t)

/-- What is delivered of the datagrams that arrive one after the other. -/
def receiveAll : ServerReplayTable → List Reception → List (Option DecodedUdpPacket)
  | _, [] => []
  | t, r :: rs => (receive cr u t r).1 :: receiveAll (receive cr u t r).2 rs

/-! ### The numbers of a window -/

section Window

variable {w : ReplayWindow} {bitmap : BitVec udpReplayWindowBits} {ids : List UInt64}
  {highest packetId : UInt64}

/-- The highest number of a list, and a bitmap whose bit at a distance from it tells whether the number
there is in the list. -/
structure Covers (highest : UInt64) (bitmap : BitVec udpReplayWindowBits) (ids : List UInt64) : Prop where
  mem : highest ∈ ids
  le : ∀ id ∈ ids, id.toNat ≤ highest.toNat
  bit : ∀ d < udpReplayWindowBits, bitmap.getLsbD d = true ↔ ∃ id ∈ ids, id.toNat + d = highest.toNat

/-- A window stands for the numbers of a list. -/
def Represents (w : ReplayWindow) (ids : List UInt64) : Prop :=
  ∃ highest, w.highest = some highest ∧ Covers highest w.bitmap ids

theorem and_mask_ne_zero (b : BitVec udpReplayWindowBits) {d : Nat} (hd : d < udpReplayWindowBits) :
    b &&& BitVec.ofNat udpReplayWindowBits 1 <<< d ≠ 0 ↔ b.getLsbD d = true := by
  constructor
  · intro hne
    by_contra hbit
    refine hne (BitVec.eq_of_getLsbD_eq fun i hi => ?_)
    by_cases hid : i = d
    · subst hid
      simp [hbit]
    · simp [BitVec.getLsbD_one]
      omega
  · intro hbit hzero
    have hd' := congrArg (fun x => x.getLsbD d) hzero
    simp only [BitVec.getLsbD_and, BitVec.getLsbD_shiftLeft, hbit, BitVec.getLsbD_one, BitVec.ofNat_eq_ofNat,
      BitVec.getLsbD_zero] at hd'
    simp [hd] at hd'

theorem covers_first (packetId : UInt64) : Covers packetId 1 [packetId] where
  mem := List.mem_singleton_self _
  le := fun id hid => by rw [List.mem_singleton.1 hid]
  bit := fun d hd => by simp [BitVec.getLsbD_one]

/-- A number above the highest one: the bitmap is shifted by the distance. -/
theorem Covers.shift (h : Covers highest bitmap ids) (hgt : highest.toNat < packetId.toNat) :
    Covers packetId (if udpReplayWindowBits ≤ packetId.toNat - highest.toNat then 1
      else bitmap <<< (packetId.toNat - highest.toNat) ||| 1) (packetId :: ids) where
  mem := List.mem_cons_self
  le := by
    intro id hid
    rcases List.mem_cons.1 hid with rfl | hid
    · exact le_rfl
    · exact (h.le id hid).trans hgt.le
  bit := by
    intro d hd
    simp only [List.exists_mem_cons_iff]
    split_ifs with hfar
    · -- All old numbers are out of the window.
      have hold : ¬∃ id ∈ ids, id.toNat + d = packetId.toNat := by
        rintro ⟨id, hid, heq⟩
        have := h.le id hid
        omega
      simp [BitVec.getLsbD_one, hold]
    · have hold : (∃ id ∈ ids, id.toNat + d = packetId.toNat) ↔
          packetId.toNat - highest.toNat ≤ d ∧
            ∃ id ∈ ids, id.toNat + (d - (packetId.toNat - highest.toNat)) = highest.toNat := by
        constructor
        · rintro ⟨id, hid, heq⟩
          have := h.le id hid
          exact ⟨by omega, id, hid, by omega⟩
        · rintro ⟨hle, id, hid, heq⟩
          exact ⟨id, hid, by omega⟩
      have hone : (1 : BitVec udpReplayWindowBits) = BitVec.ofNat udpReplayWindowBits 1 := rfl
      rw [hold, ← h.bit _ (by omega), BitVec.getLsbD_or, BitVec.getLsbD_shiftLeft, hone, BitVec.getLsbD_one]
      simp only [hd, decide_true, Bool.true_and, Bool.or_eq_true, Bool.and_eq_true, Bool.not_eq_true',
        decide_eq_false_iff_not, not_lt, decide_eq_true_eq]
      rw [or_comm]
      simp

theorem Covers.mark (h : Covers highest bitmap ids) (hle : packetId.toNat ≤ highest.toNat) :
    Covers highest (bitmap ||| BitVec.ofNat udpReplayWindowBits 1 <<< (highest.toNat - packetId.toNat))
      (packetId :: ids) where
  mem := List.mem_cons_of_mem _ h.mem
  le := by
    intro id hid
    rcases List.mem_cons.1 hid with rfl | hid
    · exact hle
    · exact h.le id hid
  bit := by
    intro d hd
    simp only [List.exists_mem_cons_iff]
    rw [BitVec.getLsbD_or, BitVec.getLsbD_shiftLeft, BitVec.getLsbD_one, Bool.or_eq_true, h.bit d hd, or_comm]
    refine or_congr_left ?_
    simp [hd]
    omega

/-- **What a window takes**: a number that is not one of its own and less than 128 below the highest.
The number is then one of its own. -/
theorem checkAndMark_spec (hw : Represents w ids) (packetId : UInt64) :
    ((w.checkAndMark packetId).1 = true ↔
      packetId ∉ ids ∧ ∀ id ∈ ids, id.toNat < packetId.toNat + udpReplayWindowBits) ∧
    ((w.checkAndMark packetId).1 = true → Represents (w.checkAndMark packetId).2 (packetId :: ids)) ∧
    ((w.checkAndMark packetId).1 = false → (w.checkAndMark packetId).2 = w) := by
  obtain ⟨highest, hhighest, h⟩ := hw
  unfold ReplayWindow.checkAndMark
  rw [hhighest]
  dsimp only
  by_cases hgt : packetId > highest
  · have hgt' : highest.toNat < packetId.toNat := UInt64.lt_iff_toNat_lt.1 hgt
    have hshift : (packetId - highest).toNat = packetId.toNat - highest.toNat :=
      UInt64.toNat_sub_of_le _ _ (UInt64.le_of_lt hgt)
    rw [if_pos hgt, hshift]
    refine ⟨⟨fun _ => ⟨fun hin => ?_, fun id hid => ?_⟩, fun _ => rfl⟩,
      fun _ => ⟨packetId, rfl, h.shift hgt'⟩, nofun⟩
    · exact absurd (h.le _ hin) (not_le.2 hgt')
    · have := h.le id hid
      omega
  · have hle : packetId.toNat ≤ highest.toNat := by
      rw [gt_iff_lt, UInt64.lt_iff_toNat_lt] at hgt
      omega
    have hdistance : (highest - packetId).toNat = highest.toNat - packetId.toNat :=
      UInt64.toNat_sub_of_le _ _ (UInt64.le_iff_toNat_le.2 hle)
    rw [if_neg hgt, hdistance]
    split_ifs with hfar hset
    · refine ⟨⟨nofun, fun hids => ?_⟩, nofun, fun _ => rfl⟩
      have := hids.2 highest h.mem
      omega
    · -- The bit is set: the number is one of the window's own.
      rw [and_mask_ne_zero _ (not_le.1 hfar), h.bit _ (not_le.1 hfar)] at hset
      obtain ⟨id, hid, heq⟩ := hset
      have hown : id = packetId := UInt64.toNat_inj.1 (by omega)
      exact ⟨⟨nofun, fun hids => absurd (hown ▸ hid) hids.1⟩, nofun, fun _ => rfl⟩
    · rw [and_mask_ne_zero _ (not_le.1 hfar), h.bit _ (not_le.1 hfar)] at hset
      refine ⟨⟨fun _ => ⟨fun hin => hset ⟨packetId, hin, by omega⟩, fun id hid => ?_⟩, fun _ => rfl⟩,
        fun _ => ⟨highest, rfl, h.mark hle⟩, nofun⟩
      have := h.le id hid
      omega

end Window

/-! ### The packets of a session -/

/-- The packets of a session that is alive, from what was delivered of it, latest first: the session
ends where a packet comes too late after the one before it. -/
def seen : List (Nat × UInt64) → Nat → List UInt64
  | [], _ => []
  | (time, packetId) :: before, now =>
    if now - time ≤ udpServerSessionTtl then packetId :: seen before time else []

/-- What was delivered of a session, latest first. -/
def history (sessionId : UInt64) (trace : List (Reception × Option DecodedUdpPacket)) : List (Nat × UInt64) :=
  trace.reverse.filterMap fun e => e.2.bind fun d =>
    if d.sessionId = sessionId then some (e.1.now, d.packetId) else none

theorem seen_cons_self (time : Nat) (packetId : UInt64) (before : List (Nat × UInt64)) :
    seen ((time, packetId) :: before) time = packetId :: seen before time := by
  simp [seen]

theorem seen_cons_of_le {time now : Nat} (packetId : UInt64) (before : List (Nat × UInt64))
    (h : now - time ≤ udpServerSessionTtl) :
    seen ((time, packetId) :: before) now = packetId :: seen before time := by
  rw [seen, if_pos h]

theorem seen_cons_of_lt {time now : Nat} (packetId : UInt64) (before : List (Nat × UInt64))
    (h : udpServerSessionTtl < now - time) : seen ((time, packetId) :: before) now = [] := by
  rw [seen, if_neg (not_le.2 h)]

theorem lt_of_notMem_seen {events : List (Nat × UInt64)} {now time : Nat} {packetId : UInt64}
    (hsorted : events.Pairwise fun a b => b.1 ≤ a.1) (hnow : ∀ e ∈ events, e.1 ≤ now)
    (hmem : (time, packetId) ∈ events) (hseen : packetId ∉ seen events now) :
    udpServerSessionTtl < now - time := by
  induction events generalizing now with
  | nil => cases hmem
  | cons e before ih =>
    obtain ⟨time', packetId'⟩ := e
    obtain ⟨hbefore, hsorted⟩ := List.pairwise_cons.1 hsorted
    have htime : time ≤ time' := by
      rcases List.mem_cons.1 hmem with heq | hmem
      · exact (congrArg Prod.fst heq).le
      · exact hbefore _ hmem
    by_cases hlive : now - time' ≤ udpServerSessionTtl
    · rw [seen_cons_of_le _ _ hlive, List.mem_cons, not_or] at hseen
      rcases List.mem_cons.1 hmem with heq | hmem
      · exact absurd (congrArg Prod.snd heq) hseen.1
      · have := ih hsorted hbefore hmem hseen.2
        have := hnow _ List.mem_cons_self
        omega
    · omega

section Table

variable {t : ServerReplayTable} {trace : List (Reception × Option DecodedUdpPacket)} {clock now : Nat}
  {sessionId packetId : UInt64}

/-- What the table knows of a session whose packets are `events`. -/
def Knows (slot : Option ServerReplaySession) (events : List (Nat × UInt64)) (clock : Nat) : Prop :=
  match slot with
  | some session => ∃ packetId before, events = (session.lastSeen, packetId) :: before ∧
      Represents session.window (seen events session.lastSeen)
  | none => ∀ e ∈ events.head?, udpServerSessionTtl < clock - e.1

/-- The table knows the packets of all sessions that are alive. -/
def Inv (t : ServerReplayTable) (trace : List (Reception × Option DecodedUdpPacket)) (clock : Nat) : Prop :=
  ∀ sessionId, Knows (t.sessions.get? sessionId) (history sessionId trace) clock

theorem Knows.mono {slot : Option ServerReplaySession} {events : List (Nat × UInt64)}
    (h : Knows slot events clock) (hclock : clock ≤ now) : Knows slot events now := by
  cases slot with
  | none => exact fun e he => (h e he).trans_le (Nat.sub_le_sub_right hclock _)
  | some session => exact h

theorem Knows.live {slot : Option ServerReplaySession} {events : List (Nat × UInt64)}
    (h : Knows slot events clock) (hclock : clock ≤ now) :
    let slot' := slot.filter fun session => now - session.lastSeen ≤ udpServerSessionTtl
    Knows slot' events now ∧ (∀ session ∈ slot', Represents session.window (seen events now)) ∧
      (slot' = none → seen events now = []) := by
  cases slot with
  | none =>
    refine ⟨h.mono hclock, nofun, fun _ => ?_⟩
    cases events with
    | nil => rfl
    | cons e before => exact seen_cons_of_lt _ _ ((h e rfl).trans_le (Nat.sub_le_sub_right hclock _))
  | some session =>
    obtain ⟨packetId, before, rfl, hwindow⟩ := h
    by_cases hlive : now - session.lastSeen ≤ udpServerSessionTtl
    · simp only [Option.filter_some, hlive, decide_true, if_true]
      refine ⟨⟨packetId, before, rfl, hwindow⟩, ?_, nofun⟩
      rintro _ ⟨⟩
      rwa [seen_cons_of_le _ _ hlive, ← seen_cons_self]
    · simp only [Option.filter_some, hlive, decide_false]
      refine ⟨?_, nofun, fun _ => seen_cons_of_lt _ _ (not_le.1 hlive)⟩
      rintro _ ⟨⟩
      exact not_le.1 hlive

/-- What one packet does to the table. -/
structure Marked (trace : List (Reception × Option DecodedUdpPacket)) (sessionId packetId : UInt64)
    (now : Nat) (result : Except Refusal Unit × ServerReplayTable) : Prop where
  /-- A packet that is taken was not seen. -/
  fresh : result.1 = .ok () → packetId ∉ seen (history sessionId trace) now
  /-- A live session takes what is new and in its window. -/
  taken : seen (history sessionId trace) now ≠ [] → packetId ∉ seen (history sessionId trace) now →
    (∀ id ∈ seen (history sessionId trace) now, id.toNat < packetId.toNat + udpReplayWindowBits) →
    result.1 = .ok ()
  knows : ∀ s, Knows (result.2.sessions.get? s)
    (if s = sessionId ∧ result.1 = .ok () then (now, packetId) :: history s trace else history s trace) now

theorem marked_checkAndMark (h : Inv t trace clock) (hclock : clock ≤ now) (sessionId packetId : UInt64) :
    Marked trace sessionId packetId now (t.checkAndMark sessionId packetId now) := by
  unfold ServerReplayTable.checkAndMark
  set live := t.sessions.retain fun _ session => now - session.lastSeen ≤ udpServerSessionTtl with hlive
  have hget : ∀ s, live.get? s =
      (t.sessions.get? s).filter fun session => now - session.lastSeen ≤ udpServerSessionTtl := by
    intro s
    rw [hlive, AssocMap.get?_retain]
  have hknows : ∀ s, Knows (live.get? s) (history s trace) now := by
    intro s
    rw [hget]
    exact ((h s).live hclock).1
  obtain ⟨-, hwindow, hdead⟩ := (h sessionId).live hclock
  rw [← hget] at hwindow hdead
  dsimp only
  split_ifs with hlimit hfresh
  · -- There is no room for a new session.
    have hnone : live.get? sessionId = none := by
      simp only [AssocMap.contains, Bool.and_eq_true, Bool.not_eq_true', Option.isSome_eq_false_iff,
        Option.isNone_iff_eq_none] at hlimit
      exact hlimit.1
    refine ⟨nofun, fun hne => absurd (hdead hnone) hne, fun s => ?_⟩
    rw [if_neg (fun hs => nomatch hs.2)]
    exact hknows s
  · -- The packet is taken: it is the latest one of its session now.
    have hspec : packetId ∉ seen (history sessionId trace) now ∧ Represents
        (((live.get? sessionId).getD ⟨now, {}⟩).window.checkAndMark packetId).2
        (packetId :: seen (history sessionId trace) now) := by
      cases hslot : live.get? sessionId with
      | none =>
        rw [hdead hslot]
        exact ⟨List.not_mem_nil, packetId, rfl, covers_first packetId⟩
      | some session =>
        rw [hslot] at hfresh
        obtain ⟨hiff, hmark, -⟩ := checkAndMark_spec (hwindow session hslot) packetId
        exact ⟨(hiff.1 hfresh).1, hmark hfresh⟩
    refine ⟨fun _ => hspec.1, fun _ _ _ => rfl, fun s => ?_⟩
    by_cases hs : s = sessionId
    · subst hs
      rw [if_pos ⟨rfl, rfl⟩, AssocMap.get?_insert_self]
      refine ⟨packetId, _, rfl, ?_⟩
      rw [seen_cons_self]
      exact hspec.2
    · rw [if_neg (fun h => hs h.1), AssocMap.get?_insert_of_ne _ _ hs]
      exact hknows s
  · -- The window refuses the packet and stays as it is.
    cases hslot : live.get? sessionId with
    | none =>
      rw [hslot] at hfresh
      exact absurd rfl hfresh
    | some session =>
      rw [hslot] at hfresh
      simp only [Option.getD_some] at hfresh ⊢
      obtain ⟨hiff, -, hsame⟩ := checkAndMark_spec (hwindow session hslot) packetId
      refine ⟨nofun, fun _ hnew hids => absurd (hiff.2 ⟨hnew, hids⟩) hfresh, fun s => ?_⟩
      rw [if_neg (fun hs => nomatch hs.2), hsame (by simpa using hfresh)]
      by_cases hs : s = sessionId
      · subst hs
        rw [AssocMap.get?_insert_self, ← hslot]
        exact hknows s
      · rw [AssocMap.get?_insert_of_ne _ _ hs]
        exact hknows s

end Table

/-! ### Runs -/

section Runs

variable {cr : Primitives} {u : Ss2022Udp} {t : ServerReplayTable} {rs : List Reception}
  {trace : List (Reception × Option DecodedUdpPacket)} {clock : Nat}

/-- What holds of a datagram that arrives after some others. -/
structure Received (cr : Primitives) (u : Ss2022Udp) (trace : List (Reception × Option DecodedUdpPacket))
    (r : Reception) (delivered : Option DecodedUdpPacket) : Prop where
  authentic : ∀ d ∈ delivered, opened cr u r = some d
  fresh : ∀ d ∈ delivered, d.packetId ∉ seen (history d.sessionId trace) r.now
  taken : ∀ d, opened cr u r = some d → seen (history d.sessionId trace) r.now ≠ [] →
    d.packetId ∉ seen (history d.sessionId trace) r.now →
    (∀ id ∈ seen (history d.sessionId trace) r.now, id.toNat < d.packetId.toNat + udpReplayWindowBits) →
    delivered = some d

theorem history_concat (sessionId : UInt64) (trace : List (Reception × Option DecodedUdpPacket))
    (r : Reception) (delivered : Option DecodedUdpPacket) : history sessionId (trace ++ [(r, delivered)]) =
      (match delivered with
      | some d => if d.sessionId = sessionId then [(r.now, d.packetId)] else []
      | none => []) ++ history sessionId trace := by
  unfold history
  rw [List.reverse_append, List.reverse_singleton, List.singleton_append, List.filterMap_cons]
  cases delivered with
  | none => rfl
  | some d =>
    dsimp only [Option.bind_some]
    split_ifs <;> rfl

variable (cr u) in
theorem receive_spec (h : Inv t trace clock) (r : Reception) (hclock : clock ≤ r.now) :
    Received cr u trace r (receive cr u t r).1 ∧
      Inv (receive cr u t r).2 (trace ++ [(r, (receive cr u t r).1)]) r.now := by
  unfold receive
  cases hopened : opened cr u r with
  | none =>
    refine ⟨⟨nofun, nofun, fun d hd => by rw [hopened] at hd; cases hd⟩, fun s => ?_⟩
    rw [history_concat]
    exact (h s).mono hclock
  | some d =>
    have hmarked := marked_checkAndMark h hclock d.sessionId d.packetId
    dsimp only
    split
    · next t' hresult =>
      rw [hresult] at hmarked
      refine ⟨⟨fun _ hd => Option.mem_some.1 hd ▸ hopened, ?_, ?_⟩, fun s => ?_⟩
      · rintro _ ⟨⟩
        exact hmarked.fresh rfl
      · intro d' hd' _ _ _
        rw [hopened] at hd'
        exact hd'
      · have hs := hmarked.knows s
        rw [history_concat]
        by_cases heq : d.sessionId = s
        · simpa [heq] using hs
        · simpa [heq, Ne.symm heq] using hs
    · next error t' hresult =>
      rw [hresult] at hmarked
      refine ⟨⟨nofun, nofun, ?_⟩, fun s => ?_⟩
      · intro d' hd' hlive hnew hids
        rw [hopened] at hd'
        cases hd'
        exact nomatch hmarked.taken hlive hnew hids
      · have hs := hmarked.knows s
        rw [history_concat]
        simpa using hs

/-- The datagrams that arrived with what was delivered of them. -/
def traceOf (cr : Primitives) (u : Ss2022Udp) (t : ServerReplayTable) (rs : List Reception) :
    List (Reception × Option DecodedUdpPacket) :=
  rs.zip (receiveAll cr u t rs)

theorem traceOf_cons (cr : Primitives) (u : Ss2022Udp) (t : ServerReplayTable) (r : Reception)
    (rs : List Reception) : traceOf cr u t (r :: rs) =
      (r, (receive cr u t r).1) :: traceOf cr u (receive cr u t r).2 rs := rfl

theorem received_of_run (h : Inv t trace clock) (hclock : ∀ r ∈ rs, clock ≤ r.now)
    (hsorted : rs.Pairwise fun a b => a.now ≤ b.now) {k : Nat} {r : Reception}
    {delivered : Option DecodedUdpPacket} (hk : (traceOf cr u t rs)[k]? = some (r, delivered)) :
    Received cr u (trace ++ (traceOf cr u t rs).take k) r delivered := by
  induction rs generalizing t trace clock k with
  | nil => cases hk
  | cons r₀ rs ih =>
    obtain ⟨hreceived, hinv⟩ := receive_spec cr u h r₀ (hclock r₀ List.mem_cons_self)
    obtain ⟨hle, hsorted⟩ := List.pairwise_cons.1 hsorted
    rw [traceOf_cons] at hk ⊢
    cases k with
    | zero =>
      cases hk
      simpa using hreceived
    | succ k =>
      have := ih hinv hle hsorted hk
      simpa using this

theorem map_fst_traceOf (cr : Primitives) (u : Ss2022Udp) (t : ServerReplayTable) (rs : List Reception) :
    (traceOf cr u t rs).map Prod.fst = rs := by
  induction rs generalizing t with
  | nil => rfl
  | cons r rs ih => rw [traceOf_cons, List.map_cons, ih]

theorem openUdpPacket_now {cipher : Ss22Cipher} {userPsk : List UInt8} {identityPsks : List (List UInt8)}
    {direction : UdpPacketDirection} {packet : List UInt8} {now now' : Nat} {d d' : DecodedUdpPacket}
    (h : openUdpPacket cr cipher userPsk identityPsks direction packet now = .ok d)
    (h' : openUdpPacket cr cipher userPsk identityPsks direction packet now' = .ok d') :
    now' - now ≤ 2 * timestampTolerance := by
  have hbody : ∀ {sessionId packetId : UInt64} {body : List UInt8} {now : Nat} {d : DecodedUdpPacket},
      parseUdpBody direction sessionId packetId body now = .ok d →
        timestampWithinTolerance (beAt 8 body 1) now = true := by
    intro sessionId packetId body now d h
    unfold parseUdpBody at h
    dsimp only at h
    by_contra htime
    rw [Bool.not_eq_true] at htime
    rw [htime, Bool.not_false, if_pos rfl] at h
    split_ifs at h
  unfold openUdpPacket at h h'
  obtain ⟨⟨separateHeader, body⟩, hopen, h⟩ := bind_eq_ok.1 h
  obtain ⟨_, hopen', h'⟩ := bind_eq_ok.1 h'
  rw [hopen] at hopen'
  cases hopen'
  dsimp only at h h'
  split_ifs at h h'
  have htime := hbody h
  have htime' := hbody h'
  simp only [timestampWithinTolerance, decide_eq_true_eq] at htime htime'
  omega

theorem mem_history {r : Reception} {d : DecodedUdpPacket} (h : (r, some d) ∈ trace) :
    (r.now, d.packetId) ∈ history d.sessionId trace :=
  List.mem_filterMap.2 ⟨_, List.mem_reverse.2 h, by simp⟩

theorem entry_of_history {sessionId : UInt64} {a : Reception × Option DecodedUdpPacket} {e : Nat × UInt64}
    (h : (a.2.bind fun d => if d.sessionId = sessionId then some (a.1.now, d.packetId) else none) = some e) :
    a.1.now = e.1 := by
  obtain ⟨d, -, h⟩ := Option.bind_eq_some_iff.1 h
  split_ifs at h
  cases h
  rfl

theorem time_of_mem_history {sessionId : UInt64} {e : Nat × UInt64} (h : e ∈ history sessionId trace) :
    ∃ a ∈ trace, a.1.now = e.1 := by
  obtain ⟨a, ha, he⟩ := List.mem_filterMap.1 h
  exact ⟨a, List.mem_reverse.1 ha, entry_of_history he⟩

theorem history_sorted (sessionId : UInt64) (h : trace.Pairwise fun a b => a.1.now ≤ b.1.now) :
    (history sessionId trace).Pairwise fun a b => b.1 ≤ a.1 := by
  refine List.Pairwise.filterMap _ ?_ (List.pairwise_reverse.2 h)
  intro a b hab e he e' he'
  rw [← entry_of_history he, ← entry_of_history he']
  exact hab

/-- What the anti-replay of a run of datagrams is for. -/
structure NoReplay (cr : Primitives) (u : Ss2022Udp) (rs : List Reception) : Prop where
  /-- No datagram is delivered twice: another datagram with the same numbers is only delivered after its
  session has ended. -/
  once : ∀ (i j : Nat) (r r' : Reception) (d d' : DecodedUdpPacket), i < j →
    (traceOf cr u {} rs)[i]? = some (r, some d) → (traceOf cr u {} rs)[j]? = some (r', some d') →
    d.sessionId = d'.sessionId → d.packetId = d'.packetId →
    r.packet ≠ r'.packet ∧ udpServerSessionTtl < r'.now - r.now
  /-- A live session takes every packet that is new and in its window. -/
  taken : ∀ (k : Nat) (r : Reception) (delivered : Option DecodedUdpPacket) (d : DecodedUdpPacket),
    (traceOf cr u {} rs)[k]? = some (r, delivered) → opened cr u r = some d →
    seen (history d.sessionId ((traceOf cr u {} rs).take k)) r.now ≠ [] →
    d.packetId ∉ seen (history d.sessionId ((traceOf cr u {} rs).take k)) r.now →
    (∀ id ∈ seen (history d.sessionId ((traceOf cr u {} rs).take k)) r.now,
      id.toNat < d.packetId.toNat + udpReplayWindowBits) → delivered = some d

theorem opened_eq_some {r : Reception} {d : DecodedUdpPacket} (h : opened cr u r = some d) :
    openUdpPacket cr u.cipher u.psk [] .server r.packet (r.now / 10 ^ 9) = .ok d := by
  unfold opened at h
  split at h
  · cases h
  · next decoded hopen =>
    split_ifs at h
    cases h
    exact hopen

/-- Ciphers that leave everything as it is. -/
def clear : Primitives where
  aesEncryptBlock := fun _ block => block
  aesDecryptBlock := fun _ block => block
  aeadSeal := fun _ _ _ message => message
  aeadOpen := fun _ _ _ ciphertext => some ciphertext
  xchachaOpen := fun _ _ ciphertext => some ciphertext
  hash := fun _ => List.replicate 32 0
  deriveKey := fun _ _ len => List.replicate len 0

/-- Packet 5 of session 1 for client session 9, sealed at second 100. -/
def datagram : List UInt8 :=
  [0, 0, 0, 0, 0, 0, 0, 1, 0, 0, 0, 0, 0, 0, 0, 5] ++ [1] ++ [0, 0, 0, 0, 0, 0, 0, 100] ++
    [0, 0, 0, 0, 0, 0, 0, 9] ++ [0, 0] ++ [1, 10, 0, 0, 1, 0, 53] ++ [7]

end Runs

end WutherCore.Ss2022
