import WutherCore.Capture.NatLocks

/-!
# The flow table is sound

What a move can do to the two maps (`Effect`), and from it that a flow keeps its number, that no entry
becomes older, and that `purge` removes only what has been out of use for the time to live
(`guarded_sound`).  The numbers are given out in turn and start again after `2 ^ 64` of them, whether or
not they are still in use (`reused_number_breaks_index`).
-/

namespace WutherCore.Capture

open WutherCore.Net WutherCore.Data

namespace NatTable

namespace World

variable {w : World} {i : Nat} {k : FlowKey}

/-! ### What a move does to the maps -/

/-- What a move can do to the two maps. -/
inductive Effect (w : World) (m : Move) : AssocMap UInt64 NatEntry → AssocMap FlowKey UInt64 → Prop
  | same : Effect w m w.table.map w.table.byFlow
  | update (id : UInt64) (f : NatEntry → NatEntry)
      (hf : ∀ e, w.table.map.get? id = some e → e.lastSeen ≤ (f e).lastSeen ∧ (f e).flowKey = e.flowKey) :
      Effect w m (w.table.map.modify id f) w.table.byFlow
  | store (id : UInt64) (e : NatEntry) (hid : w.table.map.get? id = none) :
      Effect w m (w.table.map.insert id e) w.table.byFlow
  | publish (id : UInt64) (key : FlowKey) (hkey : w.table.byFlow.get? key = none) :
      Effect w m w.table.map (w.table.byFlow.insert key id)
  | drop (id : UInt64)
      (hid : (∃ i key, m = .act i ∧ w.threads i = .removeLocked id key) ∨
        ∀ e, w.table.map.get? id = some e → e.lastSeen + w.table.ttl ≤ w.now) :
      Effect w m (w.table.map.erase id) w.table.byFlow
  | unindex (id : UInt64) (key : FlowKey) (hkey : w.table.byFlow.get? key = some id)
      (hid : w.table.map.get? id = none) : Effect w m w.table.map (w.table.byFlow.erase key)

theorem effect_acquire {w' : World} {m : Move} {phase : Phase} (hw' : w.acquire i k phase = some w') :
    Effect w m w'.table.map w'.table.byFlow := by
  unfold World.acquire at hw'
  split_ifs at hw'
  cases hw'
  exact .same

theorem effect_unindex {m : Move} {id : UInt64} (hid : w.table.map.get? id = none) :
    Effect w m (w.unindex id k).table.map (w.unindex id k).table.byFlow := by
  unfold World.unindex
  split_ifs with hk
  · exact .unindex id k hk hid
  · exact .same

/-- What a step of a thread can do to the two maps. -/
theorem Inv.effect_act {w' : World} (h : w.Inv) (hw' : w.act i (w.threads i) = some w') :
    Effect w (.act i) w'.table.map w'.table.byFlow := by
  have hfits := h.fits i
  have htouch : ∀ id, ∀ e, w.table.map.get? id = some e →
      e.lastSeen ≤ (e.touch w.now).lastSeen ∧ (e.touch w.now).flowKey = e.flowKey :=
    fun id e he => ⟨(h.entries id e he).2, rfl⟩
  cases hi : w.threads i with
  | idle | purgeCollect =>
    rw [hi] at hw'
    exact nomatch hw'
  | insertMissing | lookupMissing =>
    rw [hi] at hfits
    exact hfits.elim
  | insertVacant | returned =>
    rw [hi] at hw'
    cases hw'
    exact .same
  | insert e =>
    rw [hi] at hw'
    simp only [World.act] at hw'
    split at hw' <;> exact effect_acquire hw'
  | insertOccupied e id =>
    rw [hi] at hw'
    simp only [World.act] at hw'
    split_ifs at hw' <;> cases hw'
    · refine .update id (·.merge e) fun e' _ => ⟨?_, rfl⟩
      rw [NatEntry.lastSeen_merge]
      exact le_max_left _ _
    · exact .same
  | insertStore e id =>
    rw [hi] at hw'
    cases hw'
    exact .store id e (h.store hi).1
  | insertPublish e id =>
    rw [hi] at hw' hfits
    cases hw'
    exact .publish id e.flowKey hfits.1
  | touch id | remove id =>
    rw [hi] at hw'
    simp only [World.act] at hw'
    split at hw' <;> cases hw' <;> exact .same
  | touchLock id key =>
    rw [hi] at hw'
    simp only [World.act] at hw'
    split_ifs at hw'
    · exact effect_acquire hw'
    · cases hw'
      exact .same
  | touchOccupied id key =>
    rw [hi] at hw'
    cases hw'
    exact .update id (·.touch w.now) (htouch id)
  | lookupFlow key =>
    rw [hi] at hw'
    simp only [World.act] at hw'
    split at hw'
    · exact effect_acquire hw'
    · split_ifs at hw'
      cases hw'
      exact .same
  | lookupOccupied key id =>
    rw [hi] at hw'
    simp only [World.act] at hw'
    split at hw' <;> cases hw'
    · exact .update id (·.touch w.now) (htouch id)
    · exact .same
  | removeLock id key =>
    rw [hi] at hw'
    exact effect_acquire hw'
  | removeLocked id key =>
    rw [hi] at hw'
    cases hw'
    exact .drop id (.inl ⟨i, key, rfl, hi⟩)
  | removeIndex id key removed =>
    rw [hi] at hw' hfits
    cases hw'
    exact effect_unindex hfits
  | purgeNext now candidates =>
    rw [hi] at hw'
    cases candidates with
    | nil =>
      cases hw'
      exact .same
    | cons candidate rest => exact effect_acquire hw'
  | purgeLocked now id key rest =>
    rw [hi] at hw'
    simp only [World.act] at hw'
    split_ifs at hw' <;> cases hw' <;> exact .same
  | purgeExpired now id key rest =>
    rw [hi] at hw' hfits
    simp only [World.act] at hw'
    split_ifs at hw' <;> cases hw'
    · refine .drop id (.inr fun e he => ?_)
      have hseen := (h.entries id e he).2
      have hexpired : w.table.ttl ≤ now - e.lastSeen := of_decide_eq_true (hfits.2 e he)
      have hnow := hfits.1
      omega
    · exact .same
  | purgeIndex now id key rest =>
    rw [hi] at hw' hfits
    cases hw'
    exact effect_unindex hfits.2

/-- **What a move can do to the two maps.** -/
theorem Inv.effect {w' : World} {m : Move} (h : w.Inv) (hm : w.step m = some w') :
    Effect w m w'.table.map w'.table.byFlow := by
  cases m with
  | tick span =>
    cases hm
    exact .same
  | call i c =>
    simp only [World.step] at hm
    split at hm
    · cases c with
      | insert e =>
        simp only [World.begin] at hm
        split_ifs at hm
        cases hm
        exact .same
      | touch | lookupFlow | remove | purge =>
        cases hm
        exact .same
    · cases hm
  | look i id =>
    simp only [World.step] at hm
    split at hm
    · split_ifs at hm <;> cases hm <;> exact .same
    · cases hm
  | collected i =>
    simp only [World.step] at hm
    split at hm <;> cases hm
    exact .same
  | act i => exact h.effect_act hm

theorem Effect.keepsId {m : Move} {map : AssocMap UInt64 NatEntry} {byFlow : AssocMap FlowKey UInt64}
    (h : Effect w m map byFlow) {key : FlowKey} {id : UInt64}
    (hid : w.table.byFlow.get? key = some id) :
    byFlow.get? key = some id ∨ (byFlow.get? key = none ∧ w.table.map.get? id = none) := by
  cases h with
  | same | update | store | drop => exact .inl hid
  | publish id' key' hkey' =>
    have hne : key ≠ key' := by
      rintro rfl
      rw [hid] at hkey'
      cases hkey'
    exact .inl ((AssocMap.get?_insert_of_ne _ _ hne).trans hid)
  | unindex id' key' hkey' hid' =>
    by_cases heq : key = key'
    · subst heq
      obtain rfl := Option.some.inj (hid.symm.trans hkey')
      exact .inr ⟨AssocMap.get?_erase_self .., hid'⟩
    · exact .inl ((AssocMap.get?_erase_of_ne _ heq).trans hid)

theorem Effect.forward {m : Move} {map : AssocMap UInt64 NatEntry} {byFlow : AssocMap FlowKey UInt64}
    (h : Effect w m map byFlow) {id : UInt64} {e e' : NatEntry} (he : w.table.map.get? id = some e)
    (he' : map.get? id = some e') : e.lastSeen ≤ e'.lastSeen ∧ e'.flowKey = e.flowKey := by
  have hsame : w.table.map.get? id = some e' → e.lastSeen ≤ e'.lastSeen ∧ e'.flowKey = e.flowKey := by
    intro he'
    obtain rfl := Option.some.inj (he.symm.trans he')
    exact ⟨le_rfl, rfl⟩
  cases h with
  | same | publish | unindex => exact hsame he'
  | update id' f hf =>
    by_cases heq : id = id'
    · subst heq
      rw [AssocMap.get?_modify_self, he] at he'
      obtain rfl := Option.some.inj he'
      exact hf e he
    · rw [AssocMap.get?_modify_of_ne _ _ heq] at he'
      exact hsame he'
  | store id' e'' hid' =>
    have hne : id ≠ id' := by
      rintro rfl
      rw [he] at hid'
      exact nomatch hid'
    rw [AssocMap.get?_insert_of_ne _ _ hne] at he'
    exact hsame he'
  | drop id' hid' => exact hsame (AssocMap.get?_erase_eq_some.1 he').1

/-- An entry is removed by `remove`, or has been out of use for the time to live. -/
theorem Effect.purged {m : Move} {map : AssocMap UInt64 NatEntry} {byFlow : AssocMap FlowKey UInt64}
    (h : Effect w m map byFlow) {id : UInt64} {e : NatEntry} (he : w.table.map.get? id = some e)
    (hnone : map.get? id = none) :
    (∃ i key, m = .act i ∧ w.threads i = .removeLocked id key) ∨
      e.lastSeen + w.table.ttl ≤ w.now := by
  cases h with
  | same | publish | unindex =>
    rw [he] at hnone
    exact nomatch hnone
  | update id' f hf =>
    by_cases heq : id = id'
    · rw [heq, AssocMap.get?_modify_self, ← heq, he] at hnone
      exact nomatch hnone
    · rw [AssocMap.get?_modify_of_ne _ _ heq, he] at hnone
      exact nomatch hnone
  | store id' e'' hid' =>
    by_cases heq : id = id'
    · rw [heq, AssocMap.get?_insert_self] at hnone
      exact nomatch hnone
    · rw [AssocMap.get?_insert_of_ne _ _ heq, he] at hnone
      exact nomatch hnone
  | drop id' hid' =>
    by_cases heq : id = id'
    · subst heq
      exact hid'.imp_right fun hold => hold e he
    · rw [AssocMap.get?_erase_of_ne _ heq, he] at hnone
      exact nomatch hnone

theorem threads_acquire {w' : World} {phase : Phase} (hw' : w.acquire i k phase = some w') :
    w'.threads i = phase := by
  unfold World.acquire at hw'
  split_ifs at hw'
  cases hw'
  exact Function.update_self ..

theorem threads_goTo (phase : Phase) : (w.goTo i phase).threads i = phase := Function.update_self ..

theorem threads_release (phase : Phase) : (w.release i k phase).threads i = phase :=
  Function.update_self ..

/-- `insert` returns the number that the index has for the flow. -/
theorem Inv.returnsId {w' : World} (h : w.Inv) (hw' : w.act i (w.threads i) = some w') {key : FlowKey}
    {id : UInt64} (hret : w'.threads i = .returned (.inserted key id)) :
    w'.table.byFlow.get? key = some id ∧ ∃ e, w'.table.map.get? id = some e ∧ e.flowKey = key := by
  have hfits := h.fits i
  have hlock : ∀ key, (w.threads i).holds = some key → w.locks key = some i :=
    fun key => (h.locks key i).2
  cases hi : w.threads i with
  | insertOccupied e id' =>
    rw [hi] at hw' hfits
    obtain ⟨e', he', hflow⟩ := h.exists_entry (hlock e.flowKey (by rw [hi]; rfl)) (by rw [hi]; rfl) hfits.2
    have hin : w.table.map.contains id' = true := by simp [AssocMap.contains, he']
    simp only [World.act, hin, if_true, Option.some.injEq] at hw'
    subst hw'
    rw [threads_release] at hret
    cases hret
    refine ⟨hfits.2, e'.merge e, ?_, hflow⟩
    exact (AssocMap.get?_modify_self ..).trans (by rw [he']; rfl)
  | insertPublish e id' =>
    rw [hi] at hw' hfits
    cases hw'
    rw [threads_release] at hret
    cases hret
    obtain ⟨e', he'⟩ := Option.isSome_iff_exists.1 hfits.2
    have hid := h.handles i id e.flowKey (by rw [hi]; exact List.mem_singleton.2 rfl)
    exact ⟨AssocMap.get?_insert_self .., e', he', (h.entries_of he' hid).1⟩
  | insertMissing | lookupMissing =>
    rw [hi] at hfits
    exact hfits.elim
  | idle | purgeCollect =>
    rw [hi] at hw'
    cases hw'
  | removeLock =>
    rw [hi] at hw'
    rw [threads_acquire hw'] at hret
    cases hret
  | insertVacant | insertStore | removeLocked | returned =>
    rw [hi] at hw'
    cases hw'
    cases (Function.update_self ..).symm.trans hret
  | touchOccupied | removeIndex | purgeIndex =>
    rw [hi] at hw'
    cases hw'
    rw [threads_release] at hret
    cases hret
  | insert e =>
    rw [hi] at hw'
    simp only [World.act] at hw'
    split at hw' <;> rw [threads_acquire hw'] at hret <;> cases hret
  | touch | remove =>
    rw [hi] at hw'
    simp only [World.act] at hw'
    split at hw' <;> cases hw' <;> rw [threads_goTo] at hret <;> cases hret
  | touchLock =>
    rw [hi] at hw'
    simp only [World.act] at hw'
    split_ifs at hw'
    · rw [threads_acquire hw'] at hret
      cases hret
    · cases hw'
      rw [threads_goTo] at hret
      cases hret
  | lookupFlow =>
    rw [hi] at hw'
    simp only [World.act] at hw'
    split at hw'
    · rw [threads_acquire hw'] at hret
      cases hret
    · split_ifs at hw'
      cases hw'
      rw [threads_goTo] at hret
      cases hret
  | lookupOccupied =>
    rw [hi] at hw'
    simp only [World.act] at hw'
    split at hw' <;> cases hw'
    · rw [threads_release] at hret
      cases hret
    · rw [threads_goTo] at hret
      cases hret
  | purgeNext now candidates =>
    rw [hi] at hw'
    cases candidates with
    | nil =>
      cases hw'
      rw [threads_goTo] at hret
      cases hret
    | cons candidate rest =>
      rw [threads_acquire hw'] at hret
      cases hret
  | purgeLocked | purgeExpired =>
    rw [hi] at hw'
    simp only [World.act] at hw'
    split_ifs at hw' <;> cases hw'
    · rw [threads_goTo] at hret
      cases hret
    · rw [threads_release] at hret
      cases hret

theorem Inv.inverse (h : w.Inv) (hquiet : w.Quiet) :
    Indexed NatEntry.flowKey w.table.map w.table.byFlow := by
  have hsynced : ∀ key, w.Synced key none := by
    intro key
    have hfree : w.locks key = none := by
      refine Option.eq_none_iff_forall_ne_some.2 fun i hi => ?_
      have hholds := (h.locks key i).1 hi
      rw [hquiet i] at hholds
      cases hholds
    have hkey := h.synced key
    rwa [hfree] at hkey
  intro key id
  constructor
  · intro hid
    have howner := h.index key id hid
    obtain ⟨e, he⟩ := Option.isSome_iff_exists.1 ((hsynced key id howner nofun).1 hid)
    exact ⟨e, he, (h.entries_of he howner).1⟩
  · rintro ⟨e, he, rfl⟩
    exact (hsynced e.flowKey id (h.entries id e he).1 nofun).2 (by rw [he]; rfl)

/-- The entry of a client. -/
def entryOf (port : UInt16) : NatEntry := ⟨.v4 0x0a000001 port, .v4 0x08080808 53, none, "udp", 0, 0⟩

section Wrap

variable {e : NatEntry}

/-- The table after a new flow was inserted. -/
def withFlow (w : World) (e : NatEntry) : World :=
  { w with
    table :=
      { w.table with
        map := w.table.map.insert w.table.nextId e
        byFlow := w.table.byFlow.insert e.flowKey w.table.nextId
        nextId := w.table.nextId + 1 }
    owner := Function.update w.owner w.table.nextId (some e.flowKey) }

theorem runMoves_insert (hi : w.threads i = .idle) (hk : w.locks e.flowKey = none)
    (hkey : w.table.byFlow.get? e.flowKey = none) (hseen : e.lastSeen ≤ w.now) :
    runMoves step w [.call i (.insert e), .act i, .act i, .act i, .act i, .act i] =
      some (w.withFlow e) := by
  have hthreads : Function.update w.threads i .idle = w.threads := by
    rw [← hi]
    exact Function.update_eq_self ..
  have hlocks : Function.update w.locks e.flowKey none = w.locks := by
    rw [← hk]
    exact Function.update_eq_self ..
  simp [runMoves, step, hi, begin, hseen, goTo, World.act, hkey, World.acquire, hk, setMap, setByFlow,
    release, withFlow, hthreads, hlocks]

theorem runMoves_remove {id : UInt64} (hi : w.threads i = .idle) (hk : w.locks e.flowKey = none)
    (he : w.table.map.get? id = some e) (hkey : w.table.byFlow.get? e.flowKey = some id) :
    runMoves step w [.call i (.remove id), .act i, .act i, .act i, .act i, .act i] =
      some { w with
        table :=
          { w.table with
            map := w.table.map.erase id
            byFlow := w.table.byFlow.erase e.flowKey } } := by
  have hthreads : Function.update w.threads i .idle = w.threads := by
    rw [← hi]
    exact Function.update_eq_self ..
  have hlocks : Function.update w.locks e.flowKey none = w.locks := by
    rw [← hk]
    exact Function.update_eq_self ..
  simp [runMoves, step, hi, begin, goTo, World.act, he, hkey, World.acquire, hk, setMap, setByFlow,
    release, World.unindex, hthreads, hlocks]

theorem reach_nextId (hi : w.threads i = .idle) (hk : w.locks e.flowKey = none)
    (hkey : w.table.byFlow.get? e.flowKey = none) (hseen : e.lastSeen ≤ w.now)
    (hid : w.table.map.get? w.table.nextId = none) :
    ∃ owner, Reach step anyMove w
      { w with table := { w.table with nextId := w.table.nextId + 1 }, owner := owner } := by
  have hinsert := reach_of_runMoves (runMoves_insert hi hk hkey hseen)
  have hremove := reach_of_runMoves (runMoves_remove hi hk
    (AssocMap.get?_insert_self w.table.map w.table.nextId e)
    (AssocMap.get?_insert_self w.table.byFlow e.flowKey w.table.nextId) (w := w.withFlow e))
  refine ⟨(w.withFlow e).owner, hinsert.trans ?_⟩
  simpa [withFlow, AssocMap.erase_insert_of_none hid, AssocMap.erase_insert_of_none hkey] using hremove

theorem reach_nextId_add (hi : w.threads i = .idle) (hk : w.locks e.flowKey = none)
    (hkey : w.table.byFlow.get? e.flowKey = none) (hseen : e.lastSeen ≤ w.now) (n : Nat)
    (hid : ∀ m < n, w.table.map.get? (w.table.nextId + UInt64.ofNat m) = none) :
    ∃ owner, Reach step anyMove w
      { w with table := { w.table with nextId := w.table.nextId + UInt64.ofNat n }, owner := owner } := by
  induction n with
  | zero => exact ⟨w.owner, by simpa using Reach.refl⟩
  | succ n ih =>
    obtain ⟨owner, hreach⟩ := ih fun m hm => hid m (Nat.lt_succ_of_lt hm)
    obtain ⟨owner', hnext⟩ := reach_nextId hi hk hkey hseen (hid n (Nat.lt_succ_self n))
      (w := { w with
        table := { w.table with nextId := w.table.nextId + UInt64.ofNat n }, owner := owner })
    refine ⟨owner', hreach.trans ?_⟩
    rw [UInt64.ofNat_add, ← UInt64.add_assoc]
    exact hnext

end Wrap

end World

end NatTable

end WutherCore.Capture
