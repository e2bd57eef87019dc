import WutherCore.Data.AssocMap
import WutherCore.Data.Moves
import WutherCore.Net.Addr

/-!
# The table of the UDP associations

`UdpSessionTable` of `udp_session.rs` has one entry for an association: a reservation while its first
packet is being dialed, then the session.  The calls of many tasks are interleaved: an entry is read and
changed under its lock, which is one step, but a session that was taken out of the table is cancelled in
a step of its own, and `purge` and `clear` first collect keys and then go through them.

* `reserve`, `promote`, `removePendingIf`, `removeSessionIf`, and the steps of `purge` and `clear`.
* `World`, `World.step`: the table with its reservations, sessions and the calls under way.
* `World.Sound`: a reservation has one owner, only the pending one can be promoted, and sessions that
  have left the table are cancelled.
* `reachable_sound`: so it is after any interleaving.

Reservations and sessions are shared pointers in the source: here they have numbers.
-/

namespace WutherCore.Capture

open WutherCore.Net WutherCore.Data

/-- `UdpFlowKey`. -/
structure UdpFlowKey where
  src : SocketAddr
  dst : SocketAddr
  deriving DecidableEq

/-- `UdpNatKey`. -/
inductive UdpNatKey
  | symmetric (flow : UdpFlowKey)
  | endpointIndependent (src : SocketAddr)
  deriving DecidableEq

namespace UdpSessionTable

/-- How a reservation has ended. -/
inductive Ending
  | promoted
  | withdrawn
  | purged
  | cleared
  deriving DecidableEq, Repr

/-- `PendingUdpSession`, with its history: for which association and to which caller it was given, and how
it has ended. -/
structure PendingUdpSession where
  lastSeen : Nat
  key : UdpNatKey
  caller : Nat
  ending : Option Ending := none

/-- `UdpSession`, as far as the table deals with it, with its history: the associations that it was
established for. -/
structure UdpSession where
  lastSeen : Nat
  cancelled : Bool := false
  established : List UdpNatKey := []

/-- `UdpSessionState`. -/
inductive UdpSessionState
  | pending (token : Nat)
  | established (session : Nat)
  deriving DecidableEq

/-- `UdpSessionReservation`. -/
inductive UdpSessionReservation
  | pending (token : Nat)
  | established (session : Nat)
  | created (token : Nat)
  deriving DecidableEq

/-- What the loops of `purge` and `clear` take out of the table. -/
inductive Sweep
  | purge (cutoff : Nat)
  | clear

/-- A call that has more than one step. -/
inductive Task
  | removing (session : Nat)
  | collecting (sweep : Sweep) (keys : List UdpNatKey)
  | sweeping (sweep : Sweep) (keys : List UdpNatKey) (taken : Option Nat)
  | finished

/-- The table, all reservations and sessions, and the calls under way. -/
structure World where
  inner : AssocMap UdpNatKey UdpSessionState
  idleTicks : Nat
  now : Nat
  pendings : List PendingUdpSession
  sessions : List UdpSession
  tasks : List Task

/-- An entry that has not been used since the cutoff is purged; all are cleared. -/
def Sweep.takes (lastSeen : Nat) : Sweep → Bool
  | .purge cutoff => lastSeen ≤ cutoff
  | .clear => true

/-- How a reservation ends that is taken out of the table. -/
def Sweep.ending : Sweep → Ending
  | .purge _ => .purged
  | .clear => .cleared

/-- The session that a call has taken out of the table and has still to cancel. -/
def Task.toCancel : Task → Option Nat
  | .removing session => some session
  | .sweeping _ _ taken => taken
  | .collecting _ _ | .finished => none

namespace World

/-- `UdpSessionTable::new`. -/
def init (idleTicks now : Nat) : World := ⟨.empty, idleTicks, now, [], [], []⟩

variable (w : World)

/-- `last_seen` of an entry. -/
def lastSeen : UdpSessionState → Nat
  | .pending token => (w.pendings[token]?.map (·.lastSeen)).getD 0
  | .established session => (w.sessions[session]?.map (·.lastSeen)).getD 0

/-- `UdpSession::cancel`. -/
def cancel (session : Nat) : World :=
  { w with sessions := w.sessions.modify session ({ · with cancelled := true }) }

/-- A reservation has ended. -/
def finish (token : Nat) (ending : Ending) : World :=
  { w with pendings := w.pendings.modify token ({ · with ending := some ending }) }

/-- `reserve`. -/
def reserve (caller : Nat) (key : UdpNatKey) : UdpSessionReservation × World :=
  match w.inner.get? key with
  | some (.pending token) => (.pending token, w)
  | some (.established session) => (.established session, w)
  | none =>
      (.created w.pendings.length,
        { w with
          inner := w.inner.insert key (.pending w.pendings.length)
          pendings := w.pendings ++ [{ lastSeen := w.now, key := key, caller := caller }] })

/-- `promote`. -/
def promote (key : UdpNatKey) (token session : Nat) : Bool × World :=
  if w.inner.get? key = some (.pending token) then
    (true,
      { w.finish token .promoted with
        inner := w.inner.insert key (.established session)
        sessions := w.sessions.modify session fun s => { s with established := key :: s.established } })
  else (false, w)

/-- An entry is taken out of the table; the session, if it is one, is left to be cancelled. -/
def take (key : UdpNatKey) (ending : Ending) : Option Nat × World :=
  match w.inner.get? key with
  | some (.pending token) => (none, { w.finish token ending with inner := w.inner.erase key })
  | some (.established session) => (some session, { w with inner := w.inner.erase key })
  | none => (none, w)

/-- `remove_pending_if`. -/
def removePendingIf (key : UdpNatKey) (token : Nat) : World :=
  if w.inner.get? key = some (.pending token) then (w.take key .withdrawn).2 else w

/-- `remove_session_if`, up to the cancellation. -/
def removeSessionIf (key : UdpNatKey) (session : Nat) : World :=
  if w.inner.get? key = some (.established session) then
    { (w.take key .withdrawn).2 with tasks := w.tasks ++ [.removing session] }
  else w

/-- A call goes on. -/
def setTask (i : Nat) (task : Task) : World := { w with tasks := w.tasks.set i task }

/-- The loops look at the entry of a key while they collect: at each key at some time. -/
def look (i : Nat) (sweep : Sweep) (keys : List UdpNatKey) (key : UdpNatKey) : World :=
  match w.inner.get? key with
  | some state =>
      if sweep.takes (w.lastSeen state) then w.setTask i (.collecting sweep (keys ++ [key])) else w
  | none => w

/-- The next key of `purge` or `clear`: its entry is looked at again and taken. -/
def sweepNext (i : Nat) (sweep : Sweep) (key : UdpNatKey) (keys : List UdpNatKey) : World :=
  match w.inner.get? key with
  | some state =>
      if sweep.takes (w.lastSeen state) then
        let (taken, w) := w.take key sweep.ending
        w.setTask i (.sweeping sweep keys taken)
      else w.setTask i (.sweeping sweep keys none)
  | none => w.setTask i (.sweeping sweep keys none)

end World

/-- The steps of a call that has several. -/
inductive TaskStep
  | look (key : UdpNatKey)
  | collected
  | next
  | cancel
  | finish

/-- What happens to the table. -/
inductive Move
  | tick (span : Nat)
  | touchPending (token : Nat)
  | touchSession (session : Nat)
  | newSession
  | cancelSession (session : Nat)
  | reserve (caller : Nat) (key : UdpNatKey)
  | promote (key : UdpNatKey) (token session : Nat)
  | removePendingIf (key : UdpNatKey) (token : Nat)
  | removeSessionIf (key : UdpNatKey) (session : Nat)
  | purge
  | clear
  | task (i : Nat) (s : TaskStep)

namespace World

variable (w : World)

/-- A step of a call. -/
def stepTask (i : Nat) : Task → TaskStep → Option World
  | .removing session, .cancel => some ((w.cancel session).setTask i .finished)
  | .collecting sweep keys, .look key => some (w.look i sweep keys key)
  | .collecting sweep keys, .collected => some (w.setTask i (.sweeping sweep keys none))
  | .sweeping sweep (key :: keys) none, .next => some (w.sweepNext i sweep key keys)
  | .sweeping sweep keys (some session), .cancel =>
      some ((w.cancel session).setTask i (.sweeping sweep keys none))
  | .sweeping _ [] none, .finish => some (w.setTask i .finished)
  | _, _ => none

/-- One move. -/
def step : Move → Option World
  | .tick span => some { w with now := w.now + span }
  | .touchPending token =>
      some { w with pendings := w.pendings.modify token ({ · with lastSeen := w.now }) }
  | .touchSession session =>
      some { w with sessions := w.sessions.modify session ({ · with lastSeen := w.now }) }
  | .newSession => some { w with sessions := w.sessions ++ [{ lastSeen := w.now }] }
  | .cancelSession session => some (w.cancel session)
  | .reserve caller key => some (w.reserve caller key).2
  | .promote key token session =>
      if session < w.sessions.length then some (w.promote key token session).2 else none
  | .removePendingIf key token => some (w.removePendingIf key token)
  | .removeSessionIf key session => some (w.removeSessionIf key session)
  | .purge => some { w with tasks := w.tasks ++ [.collecting (.purge (w.now - w.idleTicks)) []] }
  | .clear => some { w with tasks := w.tasks ++ [.collecting .clear []] }
  | .task i s => w.tasks[i]?.bind fun task => w.stepTask i task s

/-- A call has taken the session out of the table and is about to cancel it. -/
def Cancelling (session : Nat) : Prop := ∃ task ∈ w.tasks, task.toCancel = some session

/-- The reservation of the caller for an association is still open. -/
def Owns (caller : Nat) (key : UdpNatKey) (token : Nat) : Prop :=
  ∃ p, w.pendings[token]? = some p ∧ p.caller = caller ∧ p.key = key ∧ p.ending = none

/-- What is promised of the table. -/
structure Sound : Prop where
  oneOwner : ∀ key caller caller' token token', w.Owns caller key token → w.Owns caller' key token' →
    caller = caller' ∧ token = token'
  created : ∀ caller key, (∃ token, (w.reserve caller key).1 = .created token) ↔
    (∀ caller' token, ¬w.Owns caller' key token) ∧ ∀ s, w.inner.get? key ≠ some (.established s)
  promoted : ∀ key token session, (w.promote key token session).1 = true ↔
    ∃ caller, w.Owns caller key token
  departed : ∀ key (s : Nat) (session : UdpSession), w.sessions[s]? = some session →
    key ∈ session.established → w.inner.get? key = some (.established s) ∨
      session.cancelled = true ∨ w.Cancelling s
  settled : (∀ task ∈ w.tasks, task = .finished) → ∀ key (s : Nat) (session : UdpSession),
    w.sessions[s]? = some session → key ∈ session.established →
      w.inner.get? key = some (.established s) ∨ session.cancelled = true
  notReplaced : ∀ m w', w.step m = some w' → ∀ key s, w.inner.get? key = some (.established s) →
    w'.inner.get? key = some (.established s) ∨ (w'.inner.get? key = none ∧ w'.Cancelling s)

/-! ### The invariant -/

/-- The invariant, but for a session that has just been taken out of the table. -/
structure InvUpTo (taken : Option Nat) : Prop where
  openIff : ∀ (token : Nat) (p : PendingUdpSession), w.pendings[token]? = some p →
    (p.ending = none ↔ w.inner.get? p.key = some (.pending token))
  pending : ∀ key token, w.inner.get? key = some (.pending token) →
    ∃ p, w.pendings[token]? = some p ∧ p.key = key
  departed : ∀ key (s : Nat) (session : UdpSession), w.sessions[s]? = some session →
    key ∈ session.established → w.inner.get? key = some (.established s) ∨
      session.cancelled = true ∨ w.Cancelling s ∨ taken = some s

/-- The invariant of the table. -/
abbrev Inv : Prop := w.InvUpTo none

theorem inv_init (idleTicks now : Nat) : (init idleTicks now).Inv where
  openIff := fun token p h => by simp [init] at h
  pending := fun key token h => by simp [init] at h
  departed := fun key s session h => by simp [init] at h

variable {w}

theorem Inv.owns_iff (h : w.Inv) {caller token : Nat} {key : UdpNatKey} :
    w.Owns caller key token ↔ w.inner.get? key = some (.pending token) ∧
      ∃ p, w.pendings[token]? = some p ∧ p.caller = caller := by
  constructor
  · rintro ⟨p, hp, hcaller, rfl, hopen⟩
    exact ⟨(h.openIff token p hp).1 hopen, p, hp, hcaller⟩
  · rintro ⟨hkey, p, hp, hcaller⟩
    obtain ⟨p', hp', hkey'⟩ := h.pending key token hkey
    obtain rfl := Option.some.inj (hp.symm.trans hp')
    exact ⟨p, hp, hcaller, hkey', (h.openIff token p hp).2 (hkey'.symm ▸ hkey)⟩

/-- A reservation of the table ends, and its entry with it. -/
theorem Inv.finish {taken : Option Nat} {key : UdpNatKey} {token : Nat}
    {inner : AssocMap UdpNatKey UdpSessionState} {sessions : List UdpSession} (h : w.Inv)
    (hkey : w.inner.get? key = some (.pending token)) (ending : Ending)
    (hrest : ∀ key', key' ≠ key → inner.get? key' = w.inner.get? key')
    (hgone : ∀ token, inner.get? key ≠ some (.pending token))
    (hdeparted : ∀ key (s : Nat) (session : UdpSession), sessions[s]? = some session →
      key ∈ session.established → inner.get? key = some (.established s) ∨
        session.cancelled = true ∨ w.Cancelling s ∨ taken = some s) :
    ({ w.finish token ending with inner := inner, sessions := sessions } : World).InvUpTo taken := by
  refine ⟨fun token' p hp => ?_, fun key' token' hkey' => ?_, hdeparted⟩
  · by_cases htoken : token = token'
    · subst htoken
      obtain ⟨p', hp', rfl⟩ : ∃ p', w.pendings[token]? = some p' ∧
          { p' with ending := some ending } = p := by
        simpa [World.finish, List.getElem?_modify_eq] using hp
      obtain ⟨p'', hp'', rfl⟩ := h.pending key token hkey
      obtain rfl := Option.some.inj (hp''.symm.trans hp')
      simpa using hgone token
    · have hp' : w.pendings[token']? = some p := by
        simpa [World.finish, List.getElem?_modify_ne _ _ htoken] using hp
      rw [h.openIff token' p hp']
      by_cases hne : p.key = key
      · have hold : ¬w.inner.get? p.key = some (.pending token') := by
          rw [hne, hkey]
          simpa using htoken
        exact iff_of_false hold (hne ▸ hgone token')
      · exact iff_of_eq (by rw [hrest p.key hne])
  · by_cases hne : key' = key
    · exact absurd (hne ▸ hkey') (hgone token')
    · rw [hrest key' hne] at hkey'
      obtain ⟨p, hp, hpkey⟩ := h.pending key' token' hkey'
      have htoken : token ≠ token' := by
        rintro rfl
        obtain ⟨p', hp', rfl⟩ := h.pending key token hkey
        obtain rfl := Option.some.inj (hp.symm.trans hp')
        exact hne hpkey.symm
      exact ⟨p, by simpa [World.finish, List.getElem?_modify_ne _ _ htoken] using hp, hpkey⟩

theorem Inv.departed_of_ne {key key' : UdpNatKey} {s : Nat} {session : UdpSession} (h : w.Inv)
    (hs : w.sessions[s]? = some session) (hmem : key' ∈ session.established)
    (hne : w.inner.get? key ≠ some (.established s))
    {inner : AssocMap UdpNatKey UdpSessionState}
    (hrest : ∀ key', key' ≠ key → inner.get? key' = w.inner.get? key') :
    inner.get? key' = some (.established s) ∨ session.cancelled = true ∨ w.Cancelling s := by
  have hdeparted := h.departed key' s session hs hmem
  simp only [reduceCtorEq, or_false] at hdeparted
  by_cases hkey : key' = key
  · subst hkey
    exact .inr (hdeparted.resolve_left hne)
  · rwa [hrest key' hkey]

/-- **An entry is taken**: the invariant holds but for the session that is taken. -/
theorem Inv.take (h : w.Inv) (key : UdpNatKey) (ending : Ending) :
    (w.take key ending).2.InvUpTo (w.take key ending).1 := by
  have hrest : ∀ key', key' ≠ key → (w.inner.erase key).get? key' = w.inner.get? key' :=
    fun key' hne => AssocMap.get?_erase_of_ne _ hne
  unfold World.take
  split <;> rename_i hkey
  · refine h.finish hkey ending hrest (fun _ => by simp) fun key' s session hs hmem => ?_
    have hnot : w.inner.get? key ≠ some (.established s) := by simp [hkey]
    exact (h.departed_of_ne hs hmem hnot hrest).imp_right (.imp_right .inl)
  · rename_i taken
    refine ⟨fun token p hp => ?_, fun key' token hkey' => ?_, fun key' s session hs hmem => ?_⟩
    · rw [h.openIff token p hp]
      by_cases hne : p.key = key
      · rw [hne, hkey]
        simp
      · exact iff_of_eq (by rw [hrest p.key hne])
    · exact h.pending key' token (AssocMap.get?_erase_eq_some.1 hkey').1
    · by_cases hs' : s = taken
      · subst hs'
        exact .inr (.inr (.inr rfl))
      · have hnot : w.inner.get? key ≠ some (.established s) := by simpa [hkey] using Ne.symm hs'
        exact (h.departed_of_ne hs hmem hnot hrest).imp_right (.imp_right .inl)
  · exact h

theorem Inv.promote (h : w.Inv) (key : UdpNatKey) (token session : Nat) :
    (w.promote key token session).2.Inv := by
  unfold World.promote
  split_ifs with hkey
  · have hrest : ∀ key', key' ≠ key →
        (w.inner.insert key (.established session)).get? key' = w.inner.get? key' :=
      fun key' hne => AssocMap.get?_insert_of_ne _ _ hne
    refine h.finish hkey .promoted hrest (fun _ => by simp) fun key' s t hs hmem => ?_
    have hnot : w.inner.get? key ≠ some (.established s) := by simp [hkey]
    by_cases hsession : session = s
    · subst hsession
      obtain ⟨t', ht', rfl⟩ : ∃ t', w.sessions[session]? = some t' ∧
          { t' with established := key :: t'.established } = t := by
        simpa [List.getElem?_modify_eq] using hs
      rcases List.mem_cons.1 hmem with rfl | hmem
      · exact .inl (by simp)
      · exact (h.departed_of_ne ht' hmem hnot hrest).imp_right (.imp_right .inl)
    · rw [List.getElem?_modify_ne _ _ hsession] at hs
      exact (h.departed_of_ne hs hmem hnot hrest).imp_right (.imp_right .inl)
  · exact h

/-- `reserve` of a new association. -/
theorem Inv.reserve (h : w.Inv) (caller : Nat) (key : UdpNatKey) : (w.reserve caller key).2.Inv := by
  unfold World.reserve
  split <;> rename_i hkey
  · exact h
  · exact h
  · have hrest : ∀ key' state, key' ≠ key →
        (w.inner.insert key state).get? key' = w.inner.get? key' :=
      fun key' state hne => AssocMap.get?_insert_of_ne _ _ hne
    refine ⟨fun token p hp => ?_, fun key' token hkey' => ?_, fun key' s session hs hmem => ?_⟩
    · dsimp only at hp ⊢
      rcases Nat.lt_or_ge token w.pendings.length with hlt | hge
      · rw [List.getElem?_append_left hlt] at hp
        rw [h.openIff token p hp]
        by_cases hne : p.key = key
        · rw [hne, hkey, AssocMap.get?_insert_self]
          simpa using hlt.ne'
        · exact iff_of_eq (by rw [hrest _ _ hne])
      · rw [List.getElem?_append_right hge] at hp
        obtain ⟨htoken, rfl⟩ : token = w.pendings.length ∧
            ({ lastSeen := w.now, key := key, caller := caller } : PendingUdpSession) = p := by
          have hzero := (List.getElem?_eq_some_iff.1 hp).1
          rw [List.length_singleton] at hzero
          refine ⟨by omega, ?_⟩
          rw [show token - w.pendings.length = 0 by omega] at hp
          exact Option.some.inj hp
        simp [htoken]
    · by_cases hne : key' = key
      · subst hne
        simp only [AssocMap.get?_insert_self, Option.some.injEq, UdpSessionState.pending.injEq] at hkey'
        exact ⟨_, hkey' ▸ List.getElem?_concat_length .., rfl⟩
      · rw [hrest _ _ hne] at hkey'
        obtain ⟨p, hp, hpkey⟩ := h.pending key' token hkey'
        exact ⟨p, (List.getElem?_append_left (List.getElem?_eq_some_iff.1 hp).1).trans hp, hpkey⟩
    · have hnot : w.inner.get? key ≠ some (.established s) := by simp [hkey]
      exact (h.departed_of_ne hs hmem hnot (hrest · _)).imp_right (.imp_right .inl)

/-- A move that leaves the entries alone: sessions stay cancelled, and those that were about to be
cancelled still are, or have been. -/
theorem InvUpTo.update {w' : World} {taken : Option Nat} (h : w.InvUpTo taken)
    (hinner : w'.inner = w.inner)
    (hpendings : ∀ token : Nat, w'.pendings[token]?.map (fun p => (p.key, p.ending)) =
      w.pendings[token]?.map fun p => (p.key, p.ending))
    (hsessions : ∀ (s : Nat) (t' : UdpSession), w'.sessions[s]? = some t' → t'.established = [] ∨
      ∃ t, w.sessions[s]? = some t ∧ t'.established = t.established ∧
        (t.cancelled = true → t'.cancelled = true))
    (hcancel : ∀ (s : Nat) (t' : UdpSession), w'.sessions[s]? = some t' →
      w.Cancelling s ∨ taken = some s → w'.Cancelling s ∨ t'.cancelled = true) : w'.Inv := by
  refine ⟨fun token p hp => ?_, fun key token hkey => ?_, fun key s t' hs hmem => ?_⟩
  · have hold := hpendings token
    rw [hp] at hold
    obtain ⟨p', hp', hsame⟩ := Option.map_eq_some_iff.1 hold.symm
    obtain ⟨hkey, hending⟩ := Prod.mk.inj hsame
    rw [hinner, ← hkey, ← hending]
    exact h.openIff token p' hp'
  · rw [hinner] at hkey
    obtain ⟨p, hp, hpkey⟩ := h.pending key token hkey
    have hnew := hpendings token
    rw [hp] at hnew
    obtain ⟨p', hp', hsame⟩ := Option.map_eq_some_iff.1 hnew
    exact ⟨p', hp', (Prod.mk.inj hsame).1.trans hpkey⟩
  · rcases hsessions s t' hs with hnil | ⟨t, ht, hestablished, hcancelled⟩
    · rw [hnil] at hmem
      exact absurd hmem List.not_mem_nil
    · rw [hestablished] at hmem
      rw [hinner]
      rcases h.departed key s t ht hmem with hin | hdone | hsoon
      · exact .inl hin
      · exact .inr (.inl (hcancelled hdone))
      · exact .inr ((hcancel s t' hs hsoon).symm.imp_right .inl)

theorem InvUpTo.tasks {taken : Option Nat} (h : w.InvUpTo taken) (now : Nat) {tasks : List Task}
    (hcancel : ∀ s, w.Cancelling s ∨ taken = some s → ∃ task ∈ tasks, task.toCancel = some s) :
    ({ w with now := now, tasks := tasks } : World).Inv :=
  h.update rfl (fun _ => rfl) (fun _ t' hs => .inr ⟨t', hs, rfl, id⟩)
    fun s _ _ hsoon => .inl (hcancel s hsoon)

theorem Cancelling.append {s : Nat} (h : w.Cancelling s) (task : Task) :
    ∃ t ∈ w.tasks ++ [task], t.toCancel = some s := by
  obtain ⟨t, ht, hs⟩ := h
  exact ⟨t, List.mem_append_left _ ht, hs⟩

theorem Cancelling.set {i s : Nat} {task : Task} (h : w.Cancelling s) (hi : w.tasks[i]? = some task)
    (hother : task.toCancel ≠ some s) (task' : Task) :
    ∃ t ∈ w.tasks.set i task', t.toCancel = some s := by
  obtain ⟨t, ht, hs⟩ := h
  obtain ⟨j, hj⟩ := List.getElem?_of_mem ht
  have hij : i ≠ j := by
    rintro rfl
    obtain rfl := Option.some.inj (hi.symm.trans hj)
    exact hother hs
  exact ⟨t, List.mem_of_getElem? ((List.getElem?_set_ne hij).trans hj), hs⟩

theorem InvUpTo.setTask {taken : Option Nat} {i : Nat} {task task' : Task} (h : w.InvUpTo taken)
    (hi : w.tasks[i]? = some task) (hnone : task.toCancel = none) (htaken : task'.toCancel = taken) :
    (w.setTask i task').Inv := by
  refine h.tasks w.now fun s hsoon => ?_
  rcases hsoon with hsoon | hs
  · exact hsoon.set hi (by simp [hnone]) task'
  · exact ⟨task', List.mem_set (List.getElem?_eq_some_iff.1 hi).1 task', htaken.trans hs⟩

theorem sessions_modify {sessions : List UdpSession} {f : UdpSession → UdpSession} {i s : Nat}
    {t' : UdpSession} (hs : (sessions.modify i f)[s]? = some t')
    (hestablished : ∀ t, (f t).established = t.established)
    (hcancelled : ∀ t, t.cancelled = true → (f t).cancelled = true) :
    ∃ t, sessions[s]? = some t ∧ t'.established = t.established ∧
      (t.cancelled = true → t'.cancelled = true) := by
  by_cases his : i = s
  · subst his
    rw [List.getElem?_modify_eq] at hs
    obtain ⟨t, ht, rfl⟩ := Option.map_eq_some_iff.1 hs
    exact ⟨t, ht, hestablished t, hcancelled t⟩
  · rw [List.getElem?_modify_ne _ _ his] at hs
    exact ⟨t', hs, rfl, id⟩

theorem cancelled_of_cancel {s : Nat} {t' : UdpSession} (hs : (w.cancel s).sessions[s]? = some t') :
    t'.cancelled = true := by
  rw [World.cancel, List.getElem?_modify_eq] at hs
  obtain ⟨t, -, rfl⟩ := Option.map_eq_some_iff.1 hs
  rfl

theorem Inv.cancelTask {i session : Nat} {task task' : Task} (h : w.Inv) (hi : w.tasks[i]? = some task)
    (htask : task.toCancel = some session) : ((w.cancel session).setTask i task').Inv := by
  refine h.update rfl (fun _ => rfl)
    (fun s t' hs => .inr (sessions_modify hs (fun _ => rfl) fun _ _ => rfl)) fun s t' hs hsoon => ?_
  by_cases heq : session = s
  · subst heq
    exact .inr (cancelled_of_cancel hs)
  · have hother : task.toCancel ≠ some s := by simpa [htask] using heq
    exact .inl ((hsoon.resolve_right nofun).set hi hother task')

theorem take_tasks (key : UdpNatKey) (ending : Ending) : (w.take key ending).2.tasks = w.tasks := by
  unfold World.take
  split <;> rfl

theorem Inv.stepTask {w' : World} {i : Nat} {task : Task} {s : TaskStep} (h : w.Inv)
    (hi : w.tasks[i]? = some task) (hw' : w.stepTask i task s = some w') : w'.Inv := by
  unfold World.stepTask at hw'
  split at hw' <;> cases hw'
  · exact h.cancelTask hi rfl
  · unfold World.look
    split
    · split_ifs
      · exact h.setTask hi rfl rfl
      · exact h
    · exact h
  · exact h.setTask hi rfl rfl
  · unfold World.sweepNext
    split
    · split_ifs
      · exact (h.take _ _).setTask ((congrArg (·[i]?) (take_tasks _ _)).trans hi) rfl rfl
      · exact h.setTask hi rfl rfl
    · exact h.setTask hi rfl rfl
  · exact h.cancelTask hi rfl
  · exact h.setTask hi rfl rfl

theorem Inv.removePendingIf (h : w.Inv) (key : UdpNatKey) (token : Nat) :
    (w.removePendingIf key token).Inv := by
  unfold World.removePendingIf
  split_ifs with hkey
  · have htaken : (w.take key .withdrawn).1 = none := by simp [World.take, hkey]
    have htake := h.take key .withdrawn
    rw [htaken] at htake
    exact htake
  · exact h

theorem Inv.removeSessionIf (h : w.Inv) (key : UdpNatKey) (session : Nat) :
    (w.removeSessionIf key session).Inv := by
  unfold World.removeSessionIf
  split_ifs with hkey
  · have htaken : (w.take key .withdrawn).1 = some session := by simp [World.take, hkey]
    have htake := h.take key .withdrawn
    rw [htaken] at htake
    refine htake.tasks _ fun s hsoon => ?_
    rcases hsoon with ⟨t, ht, hs⟩ | hs
    · rw [take_tasks] at ht
      exact ⟨t, List.mem_append_left _ ht, hs⟩
    · exact ⟨.removing session, by simp, hs⟩
  · exact h

/-- **Every move keeps the invariant.** -/
theorem Inv.step {w' : World} {m : Move} (h : w.Inv) (hm : w.step m = some w') : w'.Inv := by
  cases m with
  | tick span =>
    cases hm
    exact h.tasks _ fun s hsoon => hsoon.resolve_right nofun
  | touchPending token =>
    cases hm
    refine h.update rfl (fun token' => ?_) (fun _ t' hs => .inr ⟨t', hs, rfl, id⟩)
      fun _ _ _ hsoon => .inl (hsoon.resolve_right nofun)
    by_cases htoken : token = token'
    · subst htoken
      rw [List.getElem?_modify_eq]
      cases w.pendings[token]? <;> rfl
    · rw [List.getElem?_modify_ne _ _ htoken]
  | touchSession session =>
    cases hm
    exact h.update rfl (fun _ => rfl)
      (fun s t' hs => .inr (sessions_modify hs (fun _ => rfl) fun _ => id))
      fun _ _ _ hsoon => .inl (hsoon.resolve_right nofun)
  | newSession =>
    cases hm
    refine h.update rfl (fun _ => rfl) (fun s t' hs => ?_)
      fun _ _ _ hsoon => .inl (hsoon.resolve_right nofun)
    rcases Nat.lt_or_ge s w.sessions.length with hlt | hge
    · rw [List.getElem?_append_left hlt] at hs
      exact .inr ⟨t', hs, rfl, id⟩
    · rw [List.getElem?_append_right hge] at hs
      obtain rfl := List.mem_singleton.1 (List.mem_of_getElem? hs)
      exact .inl rfl
  | cancelSession session =>
    cases hm
    exact h.update rfl (fun _ => rfl)
      (fun s t' hs => .inr (sessions_modify hs (fun _ => rfl) fun _ _ => rfl))
      fun _ _ _ hsoon => .inl (hsoon.resolve_right nofun)
  | reserve caller key =>
    cases hm
    exact h.reserve caller key
  | promote key token session =>
    simp only [World.step, Option.ite_none_right_eq_some, Option.some.injEq] at hm
    exact hm.2 ▸ h.promote key token session
  | removePendingIf key token =>
    cases hm
    exact h.removePendingIf key token
  | removeSessionIf key session =>
    cases hm
    exact h.removeSessionIf key session
  | purge =>
    cases hm
    exact h.tasks w.now fun s hsoon => (hsoon.resolve_right nofun).append _
  | clear =>
    cases hm
    exact h.tasks w.now fun s hsoon => (hsoon.resolve_right nofun).append _
  | task i s =>
    obtain ⟨task, hi, hm⟩ := Option.bind_eq_some_iff.1 hm
    exact h.stepTask hi hm

/-! ### Sessions are not replaced -/

theorem take_established {key key' : UdpNatKey} {ending : Ending} {s : Nat}
    (hs : w.inner.get? key = some (.established s)) :
    (w.take key' ending).2.inner.get? key = some (.established s) ∨
      ((w.take key' ending).2.inner.get? key = none ∧ (w.take key' ending).1 = some s) := by
  by_cases hkey : key' = key
  · subst hkey
    exact .inr ⟨by simp [World.take, hs], by simp [World.take, hs]⟩
  · left
    unfold World.take
    split
    · exact (AssocMap.get?_erase_of_ne _ (Ne.symm hkey)).trans hs
    · exact (AssocMap.get?_erase_of_ne _ (Ne.symm hkey)).trans hs
    · exact hs

/-- **A move leaves a session in its entry, or takes it out to be cancelled.** -/
theorem step_established {w' : World} {m : Move} {key : UdpNatKey} {s : Nat} (hm : w.step m = some w')
    (hs : w.inner.get? key = some (.established s)) :
    w'.inner.get? key = some (.established s) ∨ (w'.inner.get? key = none ∧ w'.Cancelling s) := by
  cases m with
  | tick span => cases hm; exact .inl hs
  | touchPending token => cases hm; exact .inl hs
  | touchSession session => cases hm; exact .inl hs
  | newSession => cases hm; exact .inl hs
  | cancelSession session => cases hm; exact .inl hs
  | purge => cases hm; exact .inl hs
  | clear => cases hm; exact .inl hs
  | reserve caller key' =>
    cases hm
    left
    unfold World.reserve
    split <;> rename_i hkey'
    · exact hs
    · exact hs
    · have hne : key ≠ key' := by
        rintro rfl
        rw [hs] at hkey'
        cases hkey'
      exact (AssocMap.get?_insert_of_ne _ _ hne).trans hs
  | promote key' token session =>
    simp only [World.step, Option.ite_none_right_eq_some, Option.some.injEq] at hm
    obtain ⟨-, rfl⟩ := hm
    left
    unfold World.promote
    split_ifs with hkey'
    · have hne : key ≠ key' := by
        rintro rfl
        rw [hs] at hkey'
        cases hkey'
      exact (AssocMap.get?_insert_of_ne _ _ hne).trans hs
    · exact hs
  | removePendingIf key' token =>
    cases hm
    unfold World.removePendingIf
    split_ifs with hkey'
    · refine (take_established hs).imp_right fun htaken => ?_
      simp [World.take, hkey'] at htaken
    · exact .inl hs
  | removeSessionIf key' session =>
    cases hm
    unfold World.removeSessionIf
    split_ifs with hkey'
    · refine (take_established hs).imp_right fun htaken => ⟨htaken.1, .removing session, ?_, ?_⟩
      · simp
      · simpa [World.take, hkey', Task.toCancel] using htaken.2
    · exact .inl hs
  | task i st =>
    obtain ⟨task, hi, hm⟩ := Option.bind_eq_some_iff.1 hm
    unfold World.stepTask at hm
    split at hm <;> cases hm
    · exact .inl hs
    · left
      unfold World.look
      split
      · split_ifs <;> exact hs
      · exact hs
    · exact .inl hs
    · rename_i sweep key' keys
      unfold World.sweepNext
      split
      · split_ifs
        · refine (take_established hs).imp_right fun htaken =>
            ⟨htaken.1, .sweeping sweep keys (w.take key' sweep.ending).1, ?_, htaken.2⟩
          have hlt : i < (w.take key' sweep.ending).2.tasks.length := by
            rw [take_tasks]
            exact (List.getElem?_eq_some_iff.1 hi).1
          exact List.mem_set hlt _
        · exact .inl hs
      · exact .inl hs
    · exact .inl hs
    · exact .inl hs

/-- **The table is sound after any interleaving.** -/
theorem reachable_sound (idleTicks now : Nat) (hrun : Reach step anyMove (init idleTicks now) w) :
    w.Sound := by
  have hinv : w.Inv := hrun.inv (fun _ _ _ h _ hm => h.step hm) (inv_init idleTicks now)
  refine ⟨fun key caller caller' token token' howns howns' => ?_, fun caller key => ?_,
    fun key token session => ?_, fun key s session hs hmem => ?_,
    fun hquiet key s session hs hmem => ?_, fun m w' hm key s hs => step_established hm hs⟩
  · obtain ⟨hkey, p, hp, hcaller⟩ := hinv.owns_iff.1 howns
    obtain ⟨hkey', p', hp', hcaller'⟩ := hinv.owns_iff.1 howns'
    obtain rfl : token = token' := by simpa [hkey] using hkey'
    obtain rfl := Option.some.inj (hp.symm.trans hp')
    exact ⟨hcaller.symm.trans hcaller', rfl⟩
  · have hcreated : (∃ token, (w.reserve caller key).1 = .created token) ↔ w.inner.get? key = none := by
      unfold World.reserve
      split <;> rename_i hkey <;> simp [hkey]
    rw [hcreated]
    constructor
    · intro hnone
      refine ⟨fun caller' token howns => ?_, fun s => by simp [hnone]⟩
      have hkey := (hinv.owns_iff.1 howns).1
      rw [hnone] at hkey
      cases hkey
    · rintro ⟨hfree, hestablished⟩
      cases hkey : w.inner.get? key with
      | none => rfl
      | some state =>
        cases state with
        | pending token =>
          obtain ⟨p, hp, -⟩ := hinv.pending key token hkey
          exact absurd (hinv.owns_iff.2 ⟨hkey, p, hp, rfl⟩) (hfree p.caller token)
        | established s => exact absurd hkey (hestablished s)
  · have htrue : (w.promote key token session).1 = true ↔ w.inner.get? key = some (.pending token) := by
      unfold World.promote
      split_ifs with hkey <;> simp [hkey]
    rw [htrue]
    constructor
    · intro hkey
      obtain ⟨p, hp, -⟩ := hinv.pending key token hkey
      exact ⟨p.caller, hinv.owns_iff.2 ⟨hkey, p, hp, rfl⟩⟩
    · rintro ⟨caller, howns⟩
      exact (hinv.owns_iff.1 howns).1
  · simpa using hinv.departed key s session hs hmem
  · rcases hinv.departed key s session hs hmem with hin | hdone | ⟨task, htask, hsoon⟩ | hnone
    · exact .inl hin
    · exact .inr hdone
    · rw [hquiet task htask] at hsoon
      cases hsoon
    · cases hnone

/-- A client of the examples. -/
def someKey : UdpNatKey := .endpointIndependent (.v4 0x0a000001 5000)

theorem reachable_sound_cleared : ∃ w : World,
    Reach step anyMove (init 60000 0) w ∧ w.Sound ∧ w.inner.size = 0 ∧
      (w.sessions.map fun s => s.cancelled) = [true] := by
  have hrun : runMoves step (init 60000 0)
      [.reserve 0 someKey, .newSession, .promote someKey 0 0, .clear, .task 0 (.look someKey),
        .task 0 .collected, .task 0 .next, .task 0 .cancel, .task 0 .finish] = some _ := rfl
  have hreach := reach_of_runMoves hrun
  exact ⟨_, hreach, reachable_sound 60000 0 hreach, rfl, rfl⟩

end World

end UdpSessionTable

end WutherCore.Capture
