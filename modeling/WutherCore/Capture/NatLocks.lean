import WutherCore.Capture.NatTable

/-!
# The locks of the flow table

The invariant of the guarded moves.  Each number belongs to the flow that it was last given to, and a
thread changes only what belongs to the flow whose lock it holds (`Inv.change`).  On a flow that nobody
has locked the entries and the index agree; its thread may leave them apart for one step, between an
entry and its place in the index (`Phase.pendingId`).

* `Inv`, `Inv.step`.
-/

namespace WutherCore.Capture

open WutherCore.Net WutherCore.Data

namespace NatTable

/-- The number whose entry and index do not agree at a phase. -/
def Phase.pendingId : Phase → Option UInt64
  | .insertPublish _ id | .removeIndex id _ _ | .purgeIndex _ id _ _ => some id
  | _ => none

namespace World

/-- What is known about a thread. -/
def Fits (w : World) : Phase → Prop
  | .insert e => e.lastSeen ≤ w.now
  | .insertOccupied e id => e.lastSeen ≤ w.now ∧ w.table.byFlow.get? e.flowKey = some id
  | .insertVacant e => e.lastSeen ≤ w.now ∧ w.table.byFlow.get? e.flowKey = none
  | .insertStore e _ => e.lastSeen ≤ w.now ∧ w.table.byFlow.get? e.flowKey = none
  | .insertPublish e id =>
      w.table.byFlow.get? e.flowKey = none ∧ (w.table.map.get? id).isSome
  | .insertMissing _ _ | .lookupMissing _ => False
  | .touchOccupied id key | .lookupOccupied key id => w.table.byFlow.get? key = some id
  | .removeIndex id _ _ => w.table.map.get? id = none
  | .purgeCollect now _ | .purgeNext now _ | .purgeLocked now _ _ _ => now ≤ w.now
  | .purgeExpired now id _ _ =>
      now ≤ w.now ∧ ∀ e, w.table.map.get? id = some e → w.isExpired now e = true
  | .purgeIndex now id _ _ => now ≤ w.now ∧ w.table.map.get? id = none
  | .idle | .touch _ | .touchLock _ _ | .lookupFlow _ | .remove _ | .removeLock _ _
  | .removeLocked _ _ | .returned _ => True

/-- The entries and the index agree on the numbers of a flow, but for the one that its thread is about
to enter or to remove. -/
def Synced (w : World) (key : FlowKey) (pending : Option UInt64) : Prop :=
  ∀ id, w.owner id = some key → pending ≠ some id →
    (w.table.byFlow.get? key = some id ↔ (w.table.map.get? id).isSome)

/-- The invariant of the guarded moves. -/
structure Inv (w : World) : Prop where
  locks : ∀ key i, w.locks key = some i ↔ (w.threads i).holds = some key
  entries : ∀ id e, w.table.map.get? id = some e → w.owner id = some e.flowKey ∧ e.lastSeen ≤ w.now
  index : ∀ key id, w.table.byFlow.get? key = some id → w.owner id = some key
  handles : ∀ i id key, (id, key) ∈ (w.threads i).handles → w.owner id = some key
  synced : ∀ key, w.Synced key ((w.locks key).bind fun i => (w.threads i).pendingId)
  fits : ∀ i, w.Fits (w.threads i)

theorem inv_init (ttl now : Nat) : (init ttl now).Inv where
  locks := fun key i => by simp [init, Phase.holds]
  entries := fun id e h => by simp [init, NatTable.new] at h
  index := fun key id h => by simp [init, NatTable.new] at h
  handles := fun i id key h => by simp [init, Phase.handles] at h
  synced := fun key id h => by simp [init] at h
  fits := fun i => trivial

variable {w : World} {i : Nat} {k : FlowKey}

theorem pendingId_of_holds {phase : Phase} (h : phase.holds = none) : phase.pendingId = none := by
  cases phase <;> first | rfl | exact nomatch h

/-- What is known about a thread depends on its own flow alone. -/
theorem Fits.frame {w' : World} {phase : Phase} (h : w.Fits phase) (hnow : w.now ≤ w'.now)
    (httl : w'.table.ttl = w.table.ttl)
    (hindex : ∀ key, phase.holds = some key → w'.table.byFlow.get? key = w.table.byFlow.get? key)
    (hmap : ∀ id key, phase.holds = some key → (id, key) ∈ phase.handles →
      w'.table.map.get? id = w.table.map.get? id) : w'.Fits phase := by
  cases phase with
  | idle | touch | touchLock | lookupFlow | remove | removeLock | removeLocked | returned => trivial
  | insert e => exact h.trans hnow
  | insertOccupied e id => exact ⟨h.1.trans hnow, (hindex _ rfl).trans h.2⟩
  | insertVacant e => exact ⟨h.1.trans hnow, (hindex _ rfl).trans h.2⟩
  | insertStore e id => exact ⟨h.1.trans hnow, (hindex _ rfl).trans h.2⟩
  | insertPublish e id =>
    refine ⟨(hindex _ rfl).trans h.1, ?_⟩
    rw [hmap id e.flowKey rfl (List.mem_singleton.2 rfl)]
    exact h.2
  | insertMissing e id => exact h
  | lookupMissing key => exact h
  | touchOccupied id key => exact (hindex _ rfl).trans h
  | lookupOccupied key id => exact (hindex _ rfl).trans h
  | removeIndex id key removed => exact (hmap id key rfl (List.mem_singleton.2 rfl)).trans h
  | purgeCollect now candidates => exact Nat.le_trans h hnow
  | purgeNext now candidates => exact Nat.le_trans h hnow
  | purgeLocked now id key rest => exact Nat.le_trans h hnow
  | purgeExpired now id key rest =>
    refine ⟨h.1.trans hnow, fun e he => ?_⟩
    rw [hmap id key rfl List.mem_cons_self] at he
    unfold World.isExpired
    rw [httl]
    exact h.2 e he
  | purgeIndex now id key rest =>
    exact ⟨h.1.trans hnow, (hmap id key rfl List.mem_cons_self).trans h.2⟩

/-- **A thread changes the flow that it has locked**, and nothing else. -/
theorem Inv.change {w' : World} (h : w.Inv) (hk : w.locks k = some i) (hnow : w'.now = w.now)
    (httl : w'.table.ttl = w.table.ttl) (howner : w'.owner = w.owner)
    (hthreads : ∀ j, j ≠ i → w'.threads j = w.threads j)
    (hlocks : ∀ key, key ≠ k → w'.locks key = w.locks key)
    (hindex : ∀ key, key ≠ k → w'.table.byFlow.get? key = w.table.byFlow.get? key)
    (hmap : ∀ id, w.owner id ≠ some k → w'.table.map.get? id = w.table.map.get? id)
    (hheld : w'.locks k = some i ∧ (w'.threads i).holds = some k ∨
      w'.locks k = none ∧ (w'.threads i).holds = none)
    (hentries : ∀ id e, w'.table.map.get? id = some e → w.owner id = some k →
      e.flowKey = k ∧ e.lastSeen ≤ w.now)
    (hindexk : ∀ id, w'.table.byFlow.get? k = some id → w.owner id = some k)
    (hhandles : ∀ id key, (id, key) ∈ (w'.threads i).handles → w.owner id = some key)
    (hsynced : w'.Synced k (w'.threads i).pendingId) (hfits : w'.Fits (w'.threads i)) : w'.Inv := by
  -- another thread holds the lock of another flow
  have hother : ∀ j key, j ≠ i → (w.threads j).holds = some key → key ≠ k := by
    rintro j key hj hholds rfl
    exact hj (Option.some.inj (((h.locks key j).2 hholds).symm.trans hk))
  have hself : ∀ key, (w.threads i).holds = some key → key = k := by
    intro key hholds
    exact Option.some.inj (hholds.symm.trans ((h.locks k i).1 hk))
  refine ⟨fun key j => ?_, fun id e he => ?_, fun key id hid => ?_, fun j id key hmem => ?_,
    fun key => ?_, fun j => ?_⟩
  · by_cases hj : j = i
    · subst hj
      by_cases hkey : key = k
      · subst hkey
        rcases hheld with ⟨hl, hh⟩ | ⟨hl, hh⟩ <;> simp [hl, hh]
      · rw [hlocks key hkey, h.locks key j]
        refine iff_of_false (fun hh => hkey (hself key hh)) fun hh => ?_
        rcases hheld with ⟨-, hh'⟩ | ⟨-, hh'⟩ <;> rw [hh'] at hh
        · exact hkey (Option.some.inj hh).symm
        · exact nomatch hh
    · rw [hthreads j hj]
      by_cases hkey : key = k
      · subst hkey
        refine iff_of_false (fun hl => ?_) fun hh => hother j key hj hh rfl
        rcases hheld with ⟨hl', -⟩ | ⟨hl', -⟩ <;> rw [hl'] at hl
        · exact hj (Option.some.inj hl).symm
        · exact nomatch hl
      · rw [hlocks key hkey]
        exact h.locks key j
  · rw [howner, hnow]
    by_cases hid : w.owner id = some k
    · obtain ⟨hflow, hseen⟩ := hentries id e he hid
      exact ⟨hid.trans (congrArg some hflow.symm), hseen⟩
    · exact h.entries id e ((hmap id hid).symm.trans he)
  · rw [howner]
    by_cases hkey : key = k
    · subst hkey
      exact hindexk id hid
    · exact h.index key id ((hindex key hkey).symm.trans hid)
  · rw [howner]
    by_cases hj : j = i
    · subst hj
      exact hhandles id key hmem
    · rw [hthreads j hj] at hmem
      exact h.handles j id key hmem
  · by_cases hkey : key = k
    · subst hkey
      rcases hheld with ⟨hl, -⟩ | ⟨hl, hh⟩
      · rw [hl]
        exact hsynced
      · rw [pendingId_of_holds hh] at hsynced
        rw [hl]
        exact hsynced
    · intro id hid hpending
      rw [howner] at hid
      have hidk : w.owner id ≠ some k := by
        rw [hid]
        exact fun heq => hkey (Option.some.inj heq)
      rw [hindex key hkey, hmap id hidk]
      refine h.synced key id hid fun heq => hpending ?_
      rw [hlocks key hkey]
      obtain ⟨j, hj, hp⟩ := Option.bind_eq_some_iff.1 heq
      have hji : j ≠ i := by
        rintro rfl
        exact hkey (hself key ((h.locks key j).1 hj))
      rw [hj, Option.bind_some, hthreads j hji]
      exact hp
  · by_cases hj : j = i
    · subst hj
      exact hfits
    · rw [hthreads j hj]
      refine (h.fits j).frame hnow.ge httl (fun key hh => hindex key (hother j key hj hh))
        fun id key hh hmem => hmap id ?_
      rw [h.handles j id key hmem]
      exact fun heq => hother j key hj hh (Option.some.inj heq)

theorem Inv.synced_of_holds (h : w.Inv) (hk : w.locks k = some i) :
    w.Synced k (w.threads i).pendingId := by
  have hsynced := h.synced k
  rwa [hk] at hsynced

theorem Inv.goToHolding {table : NatTable} {phase : Phase} (h : w.Inv) (hk : w.locks k = some i)
    (hholds : phase.holds = some k) (httl : table.ttl = w.table.ttl)
    (hindex : ∀ key, key ≠ k → table.byFlow.get? key = w.table.byFlow.get? key)
    (hmap : ∀ id, w.owner id ≠ some k → table.map.get? id = w.table.map.get? id)
    (hentries : ∀ id e, table.map.get? id = some e → w.owner id = some k →
      e.flowKey = k ∧ e.lastSeen ≤ w.now)
    (hindexk : ∀ id, table.byFlow.get? k = some id → w.owner id = some k)
    (hhandles : ∀ id key, (id, key) ∈ phase.handles → w.owner id = some key)
    (hsynced : ({ w with table := table } : World).Synced k phase.pendingId)
    (hfits : ({ w with table := table } : World).Fits phase) :
    (({ w with table := table } : World).goTo i phase).Inv := by
  have hself : (({ w with table := table } : World).goTo i phase).threads i = phase :=
    Function.update_self ..
  refine h.change hk rfl httl rfl (fun j hj => Function.update_of_ne hj ..) (fun _ _ => rfl) hindex hmap
    (.inl ⟨hk, by rw [hself, hholds]⟩) hentries hindexk ?_ ?_ ?_
  · rw [hself]
    exact hhandles
  · rw [hself]
    exact hsynced
  · rw [hself]
    exact hfits.frame le_rfl rfl (fun _ _ => rfl) fun _ _ _ _ => rfl

theorem Inv.releaseWith {table : NatTable} {phase : Phase} (h : w.Inv) (hk : w.locks k = some i)
    (hholds : phase.holds = none) (httl : table.ttl = w.table.ttl)
    (hindex : ∀ key, key ≠ k → table.byFlow.get? key = w.table.byFlow.get? key)
    (hmap : ∀ id, w.owner id ≠ some k → table.map.get? id = w.table.map.get? id)
    (hentries : ∀ id e, table.map.get? id = some e → w.owner id = some k →
      e.flowKey = k ∧ e.lastSeen ≤ w.now)
    (hindexk : ∀ id, table.byFlow.get? k = some id → w.owner id = some k)
    (hhandles : ∀ id key, (id, key) ∈ phase.handles → w.owner id = some key)
    (hsynced : ({ w with table := table } : World).Synced k none)
    (hfits : ({ w with table := table } : World).Fits phase) :
    (({ w with table := table } : World).release i k phase).Inv := by
  have hself : (({ w with table := table } : World).release i k phase).threads i = phase :=
    Function.update_self ..
  refine h.change hk rfl httl rfl (fun j hj => Function.update_of_ne hj ..)
    (fun key hkey => Function.update_of_ne hkey ..) hindex hmap
    (.inr ⟨Function.update_self .., by rw [hself, hholds]⟩) hentries hindexk ?_ ?_ ?_
  · rw [hself]
    exact hhandles
  · rw [hself, pendingId_of_holds hholds]
    exact hsynced
  · rw [hself]
    exact hfits.frame le_rfl rfl (fun _ _ => rfl) fun _ _ _ _ => rfl

theorem Inv.entries_of (h : w.Inv) {id : UInt64} {e : NatEntry} (he : w.table.map.get? id = some e)
    (hid : w.owner id = some k) : e.flowKey = k ∧ e.lastSeen ≤ w.now := by
  obtain ⟨howner, hseen⟩ := h.entries id e he
  exact ⟨Option.some.inj (howner.symm.trans hid), hseen⟩

/-- A thread goes on without a lock. -/
theorem Inv.goToFree {phase : Phase} (h : w.Inv) (hfree : (w.threads i).holds = none)
    (hholds : phase.holds = none)
    (hhandles : ∀ id key, (id, key) ∈ phase.handles → w.owner id = some key)
    (hfits : w.Fits phase) : (w.goTo i phase).Inv := by
  have hself : (w.goTo i phase).threads i = phase := Function.update_self ..
  have hrest : ∀ j, j ≠ i → (w.goTo i phase).threads j = w.threads j :=
    fun j hj => Function.update_of_ne hj ..
  refine ⟨fun key j => ?_, h.entries, h.index, fun j id key hmem => ?_, fun key => ?_, fun j => ?_⟩
  · by_cases hj : j = i
    · subst hj
      rw [hself, hholds, ← hfree]
      exact h.locks key j
    · rw [hrest j hj]
      exact h.locks key j
  · by_cases hj : j = i
    · subst hj
      rw [hself] at hmem
      exact hhandles id key hmem
    · rw [hrest j hj] at hmem
      exact h.handles j id key hmem
  · have hpending : ((w.goTo i phase).locks key).bind (fun j => ((w.goTo i phase).threads j).pendingId) =
        (w.locks key).bind fun j => (w.threads j).pendingId := by
      refine Option.bind_congr fun j hj => ?_
      have hji : j ≠ i := by
        rintro rfl
        have hj' := (h.locks key j).1 hj
        rw [hfree] at hj'
        exact nomatch hj'
      rw [hrest j hji]
    rw [hpending]
    exact h.synced key
  · by_cases hj : j = i
    · subst hj
      rw [hself]
      exact hfits.frame le_rfl rfl (fun _ _ => rfl) fun _ _ _ _ => rfl
    · rw [hrest j hj]
      exact (h.fits j).frame le_rfl rfl (fun _ _ => rfl) fun _ _ _ _ => rfl

/-- A thread takes the lock of a flow. -/
theorem Inv.acquire {w' : World} {phase : Phase} (h : w.Inv) (hw' : w.acquire i k phase = some w')
    (hfree : (w.threads i).holds = none) (hholds : phase.holds = some k)
    (hpending : phase.pendingId = none)
    (hhandles : ∀ id key, (id, key) ∈ phase.handles → w.owner id = some key)
    (hfits : w.Fits phase) : w'.Inv := by
  unfold World.acquire at hw'
  split_ifs at hw' with hk
  obtain rfl := Option.some.inj hw'
  have hself : Function.update w.threads i phase i = phase := Function.update_self ..
  have hrest : ∀ j, j ≠ i → Function.update w.threads i phase j = w.threads j :=
    fun j hj => Function.update_of_ne hj ..
  have hlock : ∀ key, key ≠ k → Function.update w.locks k (some i) key = w.locks key :=
    fun key hkey => Function.update_of_ne hkey ..
  have hnot : ∀ key, w.locks key ≠ some i := by
    intro key hkey
    have hkey' := (h.locks key i).1 hkey
    rw [hfree] at hkey'
    exact nomatch hkey'
  refine ⟨fun key j => ?_, h.entries, h.index, fun j id key hmem => ?_, fun key => ?_, fun j => ?_⟩
  · show Function.update w.locks k (some i) key = some j ↔
      (Function.update w.threads i phase j).holds = some key
    by_cases hj : j = i
    · subst hj
      rw [hself, hholds]
      by_cases hkey : key = k
      · subst hkey
        simp
      · rw [hlock key hkey]
        exact iff_of_false (hnot key) fun heq => hkey (Option.some.inj heq).symm
    · rw [hrest j hj, ← h.locks key j]
      by_cases hkey : key = k
      · subst hkey
        simp [hk, Ne.symm hj]
      · rw [hlock key hkey]
  · by_cases hj : j = i
    · subst hj
      exact hhandles id key (hself ▸ hmem)
    · exact h.handles j id key (hrest j hj ▸ hmem)
  · show World.Synced _ key ((Function.update w.locks k (some i) key).bind
      fun j => (Function.update w.threads i phase j).pendingId)
    have hsynced := h.synced key
    by_cases hkey : key = k
    · subst hkey
      rw [hk] at hsynced
      rw [Function.update_self, Option.bind_some, hself, hpending]
      exact hsynced
    · have hsame : (Function.update w.locks k (some i) key).bind
          (fun j => (Function.update w.threads i phase j).pendingId) =
            (w.locks key).bind fun j => (w.threads j).pendingId := by
        rw [hlock key hkey]
        refine Option.bind_congr fun j hj => ?_
        rw [hrest j fun heq => hnot key (heq ▸ hj)]
      rw [hsame]
      exact hsynced
  · show World.Fits _ (Function.update w.threads i phase j)
    by_cases hj : j = i
    · subst hj
      rw [hself]
      exact hfits.frame le_rfl rfl (fun _ _ => rfl) fun _ _ _ _ => rfl
    · rw [hrest j hj]
      exact (h.fits j).frame le_rfl rfl (fun _ _ => rfl) fun _ _ _ _ => rfl

theorem Inv.tick (h : w.Inv) (span : Nat) : ({ w with now := w.now + span } : World).Inv where
  locks := h.locks
  entries := fun id e he => ⟨(h.entries id e he).1, (h.entries id e he).2.trans (Nat.le_add_right _ _)⟩
  index := h.index
  handles := h.handles
  synced := h.synced
  fits := fun j =>
    (h.fits j).frame (Nat.le_add_right _ _) rfl (fun _ _ => rfl) fun _ _ _ _ => rfl

/-- A number that is not in use is given to a new flow. -/
theorem Inv.allocate {e : NatEntry} (h : w.Inv) (hi : w.threads i = .insertVacant e)
    (hunused : ¬w.InUse w.table.nextId) :
    ({ w.goTo i (.insertStore e w.table.nextId) with
        table := { w.table with nextId := w.table.nextId + 1 }
        owner := Function.update w.owner w.table.nextId (some e.flowKey) } : World).Inv := by
  have hself : Function.update w.threads i (.insertStore e w.table.nextId) i =
      .insertStore e w.table.nextId := Function.update_self ..
  have hrest : ∀ j, j ≠ i → Function.update w.threads i (.insertStore e w.table.nextId) j =
      w.threads j := fun j hj => Function.update_of_ne hj ..
  have howner : ∀ id, w.InUse id → Function.update w.owner w.table.nextId (some e.flowKey) id =
      w.owner id := by
    intro id hid
    have hne : id ≠ w.table.nextId := fun heq => hunused (heq ▸ hid)
    exact Function.update_of_ne hne ..
  have hholds : ∀ j, (Function.update w.threads i (.insertStore e w.table.nextId) j).holds =
      (w.threads j).holds := by
    intro j
    by_cases hj : j = i
    · subst hj
      rw [hself, hi]
      rfl
    · rw [hrest j hj]
  refine ⟨fun key j => ?_, fun id e' he => ?_, fun key id hid => ?_, fun j id key hmem => ?_,
    fun key => ?_, fun j => ?_⟩
  · exact (h.locks key j).trans (by rw [← hholds j]; rfl)
  · obtain ⟨hflow, hseen⟩ := h.entries id e' he
    exact ⟨(howner id (.inl ⟨e', he⟩)).trans hflow, hseen⟩
  · exact (howner id (.inr (.inl ⟨key, hid⟩))).trans (h.index key id hid)
  · by_cases hj : j = i
    · subst hj
      have hmem' : (id, key) ∈ (Phase.insertStore e w.table.nextId).handles := hself ▸ hmem
      obtain ⟨rfl, rfl⟩ := Prod.mk.inj (List.mem_singleton.1 hmem')
      exact Function.update_self ..
    · have hmem' : (id, key) ∈ (w.threads j).handles := hrest j hj ▸ hmem
      exact (howner id (.inr (.inr ⟨j, key, hmem'⟩))).trans (h.handles j id key hmem')
  · intro id hid hpending
    by_cases hnext : id = w.table.nextId
    · subst hnext
      refine iff_of_false (fun hin => hunused (.inr (.inl ⟨key, hin⟩))) fun hin => ?_
      obtain ⟨e', he'⟩ := Option.isSome_iff_exists.1 hin
      exact hunused (.inl ⟨e', he'⟩)
    · have hid' : w.owner id = some key := (Function.update_of_ne hnext ..).symm.trans hid
      refine h.synced key id hid' fun heq => hpending ?_
      obtain ⟨j, hj, hp⟩ := Option.bind_eq_some_iff.1 heq
      have hji : j ≠ i := by
        rintro rfl
        rw [hi] at hp
        exact nomatch hp
      exact Option.bind_eq_some_iff.2 ⟨j, hj, by rw [← hp]; exact congrArg _ (hrest j hji)⟩
  · show World.Fits _ (Function.update w.threads i (.insertStore e w.table.nextId) j)
    by_cases hj : j = i
    · subst hj
      have hfits := h.fits j
      rw [hi] at hfits
      rw [hself]
      exact hfits
    · rw [hrest j hj]
      exact (h.fits j).frame le_rfl rfl (fun _ _ => rfl) fun _ _ _ _ => rfl

/-- The update of an entry, after which the lock is given back. -/
theorem Inv.modifyEntry {id : UInt64} (h : w.Inv) (f : NatEntry → NatEntry) (hk : w.locks k = some i)
    (hpending : (w.threads i).pendingId = none) (hid : w.owner id = some k)
    (hflow : ∀ e, (f e).flowKey = e.flowKey) (hseen : ∀ e, e.lastSeen ≤ w.now → (f e).lastSeen ≤ w.now)
    (reply : Reply) :
    ((w.setMap (w.table.map.modify id f)).release i k (.returned reply)).Inv := by
  have hsynced := h.synced_of_holds hk
  rw [hpending] at hsynced
  have hsome : ∀ id', ((w.table.map.modify id f).get? id').isSome = (w.table.map.get? id').isSome := by
    intro id'
    by_cases heq : id' = id
    · rw [heq, AssocMap.get?_modify_self, Option.isSome_map]
    · rw [AssocMap.get?_modify_of_ne _ _ heq]
  refine h.releaseWith hk rfl rfl (fun _ _ => rfl) (fun id' hid' => ?_) (fun id' e he hid' => ?_)
    (fun id' => h.index k id') (fun _ _ => nofun) (fun id' hid' hne => ?_) trivial
  · have hne : id' ≠ id := by
      rintro rfl
      exact hid' hid
    exact AssocMap.get?_modify_of_ne _ _ hne
  · by_cases heq : id' = id
    · subst heq
      rw [AssocMap.get?_modify_self] at he
      obtain ⟨e', he', rfl⟩ := Option.map_eq_some_iff.1 he
      obtain ⟨hflow', hseen'⟩ := h.entries_of he' hid'
      exact ⟨(hflow e').trans hflow', hseen e' hseen'⟩
    · rw [AssocMap.get?_modify_of_ne _ _ heq] at he
      exact h.entries_of he hid'
  · exact (hsynced id' hid' hne).trans (by rw [← hsome id'])

theorem Inv.dropEntry {id : UInt64} {phase : Phase} (h : w.Inv) (hk : w.locks k = some i)
    (hpending : (w.threads i).pendingId = none) (hid : w.owner id = some k)
    (hholds : phase.holds = some k) (hphase : phase.pendingId = some id)
    (hhandles : ∀ id key, (id, key) ∈ phase.handles → w.owner id = some key)
    (hfits : ∀ w' : World, w'.now = w.now → w'.table.map.get? id = none → w'.Fits phase) :
    ((w.setMap (w.table.map.erase id)).goTo i phase).Inv := by
  have hsynced := h.synced_of_holds hk
  rw [hpending] at hsynced
  refine h.goToHolding hk hholds rfl (fun _ _ => rfl) (fun id' hid' => ?_) (fun id' e he hid' => ?_)
    (fun id' => h.index k id') hhandles (fun id' hid' hne => ?_) (hfits _ rfl (by simp))
  · have hne : id' ≠ id := by
      rintro rfl
      exact hid' hid
    exact AssocMap.get?_erase_of_ne _ hne
  · exact h.entries_of (AssocMap.get?_erase_eq_some.1 he).1 hid'
  · have hne' : id' ≠ id := by
      rintro rfl
      exact hne hphase
    exact (hsynced id' hid' (Option.some_ne_none id').symm).trans (by rw [← AssocMap.get?_erase_of_ne w.table.map hne'])

/-- The index follows the removal of an entry. -/
theorem Inv.unindex {id : UInt64} {phase : Phase} (h : w.Inv) (hk : w.locks k = some i)
    (hpending : (w.threads i).pendingId = some id) (hnone : w.table.map.get? id = none)
    (hholds : phase.holds = none)
    (hhandles : ∀ id key, (id, key) ∈ phase.handles → w.owner id = some key)
    (hfits : ∀ w' : World, w'.now = w.now → w'.Fits phase) :
    ((w.unindex id k).release i k phase).Inv := by
  have hsynced := h.synced_of_holds hk
  rw [hpending] at hsynced
  unfold World.unindex
  split_ifs with hid
  · refine h.releaseWith hk hholds rfl (fun key hkey => AssocMap.get?_erase_of_ne _ hkey)
      (fun _ _ => rfl) (fun id' e he hid' => h.entries_of he hid') (fun id' hid' => ?_) hhandles
      (fun id' hid' _ => ?_) (hfits _ rfl)
    · simp at hid'
    · show (w.table.byFlow.erase k).get? k = some id' ↔ (w.table.map.get? id').isSome
      rw [AssocMap.get?_erase_self]
      by_cases heq : id' = id
      · simp [heq, hnone]
      · have hsome := hsynced id' hid' fun heq' => heq (Option.some.inj heq').symm
        rw [hid, Option.some.injEq] at hsome
        exact iff_of_false (Option.some_ne_none id').symm fun hin => heq (hsome.2 hin).symm
  · refine h.releaseWith hk hholds rfl (fun _ _ => rfl) (fun _ _ => rfl)
      (fun id' e he hid' => h.entries_of he hid') (fun id' => h.index k id') hhandles
      (fun id' hid' _ => ?_) (hfits _ rfl)
    by_cases heq : id' = id
    · subst heq
      exact iff_of_false hid (by simp [hnone])
    · exact hsynced id' hid' fun heq' => heq (Option.some.inj heq').symm

/-- The entry of a new flow is stored; the index is still to follow. -/
theorem Inv.store {id : UInt64} {e : NatEntry} (h : w.Inv) (hi : w.threads i = .insertStore e id) :
    w.table.map.get? id = none ∧
      ((w.setMap (w.table.map.insert id e)).goTo i (.insertPublish e id)).Inv := by
  have hk : w.locks e.flowKey = some i := (h.locks _ _).2 (by rw [hi]; rfl)
  have hsynced := h.synced_of_holds hk
  have hid : w.owner id = some e.flowKey := h.handles i id _ (by rw [hi]; exact List.mem_singleton.2 rfl)
  have hfits := h.fits i
  rw [hi] at hsynced hfits
  obtain ⟨hseen, hvacant⟩ := hfits
  have hempty : ∀ id', w.owner id' = some e.flowKey → w.table.map.get? id' = none := by
    intro id' hid'
    have hiff := hsynced id' hid' (Option.some_ne_none id').symm
    rw [hvacant] at hiff
    simpa using hiff.not.1 (Option.some_ne_none id').symm
  refine ⟨hempty id hid, ?_⟩
  refine h.goToHolding hk rfl rfl (fun _ _ => rfl) (fun id' hid' => ?_) (fun id' e' he hid' => ?_)
    (fun id' => h.index _ id') (fun id' key hmem => ?_) (fun id' hid' hne => ?_) ⟨hvacant, by simp⟩
  · have hne : id' ≠ id := by
      rintro rfl
      exact hid' hid
    exact AssocMap.get?_insert_of_ne _ _ hne
  · by_cases heq : id' = id
    · subst heq
      rw [AssocMap.get?_insert_self, Option.some.injEq] at he
      subst he
      exact ⟨rfl, hseen⟩
    · rw [AssocMap.get?_insert_of_ne _ _ heq] at he
      exact h.entries_of he hid'
  · obtain ⟨rfl, rfl⟩ := Prod.mk.inj (List.mem_singleton.1 hmem)
    exact hid
  · have hne' : id' ≠ id := by
      rintro rfl
      exact hne rfl
    exact (hsynced id' hid' (Option.some_ne_none id').symm).trans
      (by rw [← AssocMap.get?_insert_of_ne w.table.map e hne'])

theorem Inv.publish {id : UInt64} {e : NatEntry} (h : w.Inv) (hi : w.threads i = .insertPublish e id)
    (reply : Reply) :
    ((w.setByFlow (w.table.byFlow.insert e.flowKey id)).release i e.flowKey (.returned reply)).Inv := by
  have hk : w.locks e.flowKey = some i := (h.locks _ _).2 (by rw [hi]; rfl)
  have hsynced := h.synced_of_holds hk
  have hid : w.owner id = some e.flowKey := h.handles i id _ (by rw [hi]; exact List.mem_singleton.2 rfl)
  have hfits := h.fits i
  rw [hi] at hsynced hfits
  obtain ⟨hvacant, hsome⟩ := hfits
  refine h.releaseWith hk rfl rfl (fun key hkey => AssocMap.get?_insert_of_ne _ _ hkey) (fun _ _ => rfl)
    (fun id' e' he hid' => h.entries_of he hid') (fun id' hid' => ?_) (fun _ _ hmem => absurd hmem List.not_mem_nil)
    (fun id' hid' _ => ?_) trivial
  · rw [AssocMap.get?_insert_self, Option.some.injEq] at hid'
    exact hid' ▸ hid
  · show (w.table.byFlow.insert e.flowKey id).get? e.flowKey = some id' ↔ (w.table.map.get? id').isSome
    rw [AssocMap.get?_insert_self, Option.some.injEq]
    by_cases heq : id' = id
    · simp [heq, hsome]
    · have hiff := hsynced id' hid' fun heq' => heq (Option.some.inj heq').symm
      rw [hvacant] at hiff
      exact iff_of_false (fun h => heq h.symm) (hiff.not.1 (Option.some_ne_none id').symm)

theorem Inv.exists_entry {id : UInt64} (h : w.Inv) (hk : w.locks k = some i)
    (hpending : (w.threads i).pendingId = none) (hid : w.table.byFlow.get? k = some id) :
    ∃ e, w.table.map.get? id = some e ∧ e.flowKey = k := by
  have hsynced := h.synced_of_holds hk
  rw [hpending] at hsynced
  have howner := h.index k id hid
  obtain ⟨e, he⟩ := Option.isSome_iff_exists.1 ((hsynced id howner nofun).1 hid)
  exact ⟨e, he, (h.entries_of he howner).1⟩

/-- **A step of a thread keeps the invariant**, if a new flow gets a number that is not in use. -/
theorem Inv.act {w' : World} (h : w.Inv)
    (hguard : ∀ e, w.threads i = .insertVacant e → ¬w.InUse w.table.nextId)
    (hw' : w.act i (w.threads i) = some w') : w'.Inv := by
  have hfits := h.fits i
  have hhandles := h.handles i
  have hlock : ∀ key, (w.threads i).holds = some key → w.locks key = some i :=
    fun key => (h.locks key i).2
  cases hi : w.threads i with
  | idle =>
    rw [hi] at hw'
    cases hw'
  | insert e =>
    rw [hi] at hw' hfits
    have hfree : (w.threads i).holds = none := by rw [hi]; rfl
    simp only [World.act] at hw'
    split at hw' <;> rename_i hid
    · refine h.acquire hw' hfree rfl rfl (fun id key hmem => ?_) ⟨hfits, hid⟩
      obtain ⟨rfl, rfl⟩ := Prod.mk.inj (List.mem_singleton.1 hmem)
      exact h.index _ _ hid
    · exact h.acquire hw' hfree rfl rfl (fun _ _ hmem => absurd hmem List.not_mem_nil) ⟨hfits, hid⟩
  | insertOccupied e id =>
    rw [hi] at hw' hfits
    have hk := hlock e.flowKey (by rw [hi]; rfl)
    have hnone : (w.threads i).pendingId = none := by rw [hi]; rfl
    obtain ⟨e', he', -⟩ := h.exists_entry hk hnone hfits.2
    have hin : w.table.map.contains id = true := by simp [AssocMap.contains, he']
    simp only [World.act, hin, if_true, Option.some.injEq] at hw'
    subst hw'
    refine h.modifyEntry (·.merge e) hk hnone (h.index _ _ hfits.2) (fun _ => rfl) (fun e'' hseen => ?_) _
    rw [NatEntry.lastSeen_merge]
    exact max_le hseen hfits.1
  | insertMissing e id =>
    rw [hi] at hfits
    exact hfits.elim
  | insertVacant e =>
    rw [hi] at hw'
    cases hw'
    exact h.allocate hi (hguard e hi)
  | insertStore e id =>
    rw [hi] at hw'
    cases hw'
    exact (h.store hi).2
  | insertPublish e id =>
    rw [hi] at hw'
    cases hw'
    exact h.publish hi _
  | touch id =>
    rw [hi] at hw'
    have hfree : (w.threads i).holds = none := by rw [hi]; rfl
    simp only [World.act] at hw'
    split at hw' <;> rename_i he <;> cases hw'
    · refine h.goToFree hfree rfl (fun id' key hmem => ?_) trivial
      obtain ⟨rfl, rfl⟩ := Prod.mk.inj (List.mem_singleton.1 hmem)
      exact (h.entries _ _ he).1
    · exact h.goToFree hfree rfl (fun _ _ hmem => absurd hmem List.not_mem_nil) trivial
  | touchLock id key =>
    rw [hi] at hw'
    have hfree : (w.threads i).holds = none := by rw [hi]; rfl
    simp only [World.act] at hw'
    split_ifs at hw' with hid hk
    · refine h.acquire hw' hfree rfl rfl (fun id' key' hmem => hhandles id' key' ?_) hid
      rw [hi]
      exact hmem
    · cases hw'
      exact h.goToFree hfree rfl (fun _ _ hmem => absurd hmem List.not_mem_nil) trivial
  | touchOccupied id key =>
    rw [hi] at hw' hfits
    cases hw'
    exact h.modifyEntry (·.touch w.now) (hlock key (by rw [hi]; rfl)) (by rw [hi]; rfl) (h.index _ _ hfits)
      (fun _ => rfl) (fun _ _ => le_rfl) _
  | lookupFlow key =>
    rw [hi] at hw'
    have hfree : (w.threads i).holds = none := by rw [hi]; rfl
    simp only [World.act] at hw'
    split at hw' <;> rename_i hid
    · refine h.acquire hw' hfree rfl rfl (fun id' key' hmem => ?_) hid
      obtain ⟨rfl, rfl⟩ := Prod.mk.inj (List.mem_singleton.1 hmem)
      exact h.index _ _ hid
    · split_ifs at hw'
      cases hw'
      exact h.goToFree hfree rfl (fun _ _ hmem => absurd hmem List.not_mem_nil) trivial
  | lookupOccupied key id =>
    rw [hi] at hw' hfits
    have hk := hlock key (by rw [hi]; rfl)
    have hnone : (w.threads i).pendingId = none := by rw [hi]; rfl
    obtain ⟨e, he, -⟩ := h.exists_entry hk hnone hfits
    simp only [World.act, he, Option.some.injEq] at hw'
    subst hw'
    exact h.modifyEntry (·.touch w.now) hk hnone (h.index _ _ hfits) (fun _ => rfl)
      (fun _ _ => le_rfl) _
  | lookupMissing key =>
    rw [hi] at hfits
    exact hfits.elim
  | remove id =>
    rw [hi] at hw'
    have hfree : (w.threads i).holds = none := by rw [hi]; rfl
    simp only [World.act] at hw'
    split at hw' <;> rename_i he <;> cases hw'
    · refine h.goToFree hfree rfl (fun id' key hmem => ?_) trivial
      obtain ⟨rfl, rfl⟩ := Prod.mk.inj (List.mem_singleton.1 hmem)
      exact (h.entries _ _ he).1
    · exact h.goToFree hfree rfl (fun _ _ hmem => absurd hmem List.not_mem_nil) trivial
  | removeLock id key =>
    rw [hi] at hw'
    refine h.acquire hw' (by rw [hi]; rfl) rfl rfl (fun id' key' hmem => hhandles id' key' ?_) trivial
    rw [hi]
    exact hmem
  | removeLocked id key =>
    rw [hi] at hw' hhandles
    cases hw'
    exact h.dropEntry (hlock key (by rw [hi]; rfl)) (by rw [hi]; rfl)
      (hhandles id key (List.mem_singleton.2 rfl)) rfl rfl hhandles fun _ _ hnone => hnone
  | removeIndex id key removed =>
    rw [hi] at hw' hfits
    cases hw'
    exact h.unindex (hlock key (by rw [hi]; rfl)) (by rw [hi]; rfl) hfits rfl
      (fun _ _ hmem => absurd hmem List.not_mem_nil)
      fun _ _ => trivial
  | purgeCollect now candidates =>
    rw [hi] at hw'
    cases hw'
  | purgeNext now candidates =>
    rw [hi] at hw' hfits hhandles
    have hfree : (w.threads i).holds = none := by rw [hi]; rfl
    cases candidates with
    | nil =>
      cases hw'
      exact h.goToFree hfree rfl (fun _ _ hmem => absurd hmem List.not_mem_nil) trivial
    | cons candidate rest => exact h.acquire hw' hfree rfl rfl hhandles hfits
  | purgeLocked now id key rest =>
    rw [hi] at hw' hfits hhandles
    have hk := hlock key (by rw [hi]; rfl)
    have hsynced := h.synced_of_holds hk
    rw [hi] at hsynced
    simp only [World.act] at hw'
    split_ifs at hw' with hexpired <;> cases hw'
    · refine h.goToHolding hk rfl rfl (fun _ _ => rfl) (fun _ _ => rfl)
        (fun _ _ he hid => h.entries_of he hid) (fun id' => h.index key id') hhandles hsynced
        ⟨hfits, fun e he => ?_⟩
      rw [he] at hexpired
      exact hexpired
    · exact h.releaseWith hk rfl rfl (fun _ _ => rfl) (fun _ _ => rfl)
        (fun _ _ he hid => h.entries_of he hid) (fun id' => h.index key id')
        (fun id' key' hmem => hhandles id' key' (List.mem_cons_of_mem _ hmem)) hsynced hfits
  | purgeExpired now id key rest =>
    rw [hi] at hw' hfits hhandles
    have hk := hlock key (by rw [hi]; rfl)
    have hsynced := h.synced_of_holds hk
    rw [hi] at hsynced
    simp only [World.act] at hw'
    split_ifs at hw' <;> cases hw'
    · exact h.dropEntry hk (by rw [hi]; rfl) (hhandles id key List.mem_cons_self) rfl rfl hhandles
        fun w' hnow hnone => ⟨Nat.le_trans hfits.1 hnow.ge, hnone⟩
    · exact h.releaseWith hk rfl rfl (fun _ _ => rfl) (fun _ _ => rfl)
        (fun _ _ he hid => h.entries_of he hid) (fun id' => h.index key id')
        (fun id' key' hmem => hhandles id' key' (List.mem_cons_of_mem _ hmem)) hsynced hfits.1
  | purgeIndex now id key rest =>
    rw [hi] at hw' hfits hhandles
    cases hw'
    exact h.unindex (hlock key (by rw [hi]; rfl)) (by rw [hi]; rfl) hfits.2 rfl
      (fun id' key' hmem => hhandles id' key' (List.mem_cons_of_mem _ hmem))
      fun w' hnow => Nat.le_trans hfits.1 hnow.ge
  | returned reply =>
    rw [hi] at hw'
    cases hw'
    exact h.goToFree (by rw [hi]; rfl) rfl (fun _ _ hmem => absurd hmem List.not_mem_nil) trivial

/-- **Every guarded move keeps the invariant.** -/
theorem Inv.step {w' : World} {m : Move} (h : w.Inv) (hguard : m.Guarded w)
    (hm : w.step m = some w') : w'.Inv := by
  cases m with
  | tick span =>
    cases hm
    exact h.tick span
  | call i c =>
    simp only [World.step] at hm
    split at hm <;> rename_i hi
    · have hfree : (w.threads i).holds = none := by rw [hi]; rfl
      cases c with
      | insert e =>
        simp only [World.begin] at hm
        split_ifs at hm with hseen
        cases hm
        exact h.goToFree hfree rfl (fun _ _ => nofun) hseen
      | touch id =>
        cases hm
        exact h.goToFree hfree rfl (fun _ _ => nofun) trivial
      | lookupFlow key =>
        cases hm
        exact h.goToFree hfree rfl (fun _ _ => nofun) trivial
      | remove id =>
        cases hm
        exact h.goToFree hfree rfl (fun _ _ => nofun) trivial
      | purge =>
        cases hm
        exact h.goToFree hfree rfl (fun _ _ => nofun) (Nat.le_refl w.now)
    · exact nomatch hm
  | look i id =>
    simp only [World.step] at hm
    split at hm
    · rename_i now candidates e hi he
      have hfree : (w.threads i).holds = none := by rw [hi]; rfl
      have hhandles := h.handles i
      have hfits := h.fits i
      rw [hi] at hhandles hfits
      split_ifs at hm <;> cases hm
      · refine h.goToFree hfree rfl (fun id' key hmem => ?_) hfits
        rcases List.mem_append.1 hmem with hmem | hmem
        · exact hhandles id' key hmem
        · obtain ⟨rfl, rfl⟩ := Prod.mk.inj (List.mem_singleton.1 hmem)
          exact (h.entries _ _ he).1
      · exact h
    · exact nomatch hm
  | collected i =>
    simp only [World.step] at hm
    split at hm <;> rename_i hi
    · cases hm
      have hhandles := h.handles i
      have hfits := h.fits i
      rw [hi] at hhandles hfits
      exact h.goToFree (by rw [hi]; rfl) rfl hhandles hfits
    · exact nomatch hm
  | act i => exact h.act hguard hm

end World

end NatTable

end WutherCore.Capture
