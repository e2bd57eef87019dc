import Mathlib.Data.List.Perm.Basic
import WutherCore.Resolver.DnsCache

/-!
# The bounds of the DNS cache

The cache stays within its bound, and at most one ticket for a key is outstanding, as long as a negative
answer does not come to a full cache and no entry is replaced while a ticket for it is outstanding.

* `Within`: what touching, removing and evicting leave of the entries.
* `put_cases`, `size_putNegative_iff`: what the writers do to the bound.
* `TicketInv`: how the tickets hang together with the flags.
* `CacheWorld.guarded_bounded`: the bounds along every run of guarded moves.
-/

namespace WutherCore.Resolver

open WutherCore.Text WutherCore.Net WutherCore.Ruleset WutherCore.Data

/-! ### The bound -/

namespace DnsCache

variable {c c' : DnsCache} {key : Str × QType} {cr : Crates}

/-- One cache has no more entries than another, and for each of its keys the same cell. -/
structure Within (c' c : DnsCache) : Prop where
  cfg : c'.cfg = c.cfg
  cells : c'.cells = c.cells
  size : c'.inner.size ≤ c.inner.size
  slot : ∀ k slot', c'.inner.get? k = some slot' →
    ∃ slot, c.inner.get? k = some slot ∧ slot'.cell = slot.cell

theorem Within.refl (c : DnsCache) : Within c c := ⟨rfl, rfl, le_rfl, fun _ slot h => ⟨slot, h, rfl⟩⟩

theorem Within.trans {c'' : DnsCache} (h' : Within c'' c') (h : Within c' c) : Within c'' c where
  cfg := h'.cfg.trans h.cfg
  cells := h'.cells.trans h.cells
  size := h'.size.trans h.size
  slot k slot'' hslot := by
    obtain ⟨slot', hslot', hcell'⟩ := h'.slot k slot'' hslot
    obtain ⟨slot, hslot, hcell⟩ := h.slot k slot' hslot'
    exact ⟨slot, hslot, hcell'.trans hcell⟩

theorem within_touch (c : DnsCache) (now : Instant) (key : Str × QType) : Within (c.touch now key) c where
  cfg := rfl
  cells := rfl
  size := (AssocMap.size_modify _ _ _).le
  slot k slot' h := by
    obtain ⟨slot, hslot, rfl⟩ := AssocMap.get?_modify_eq_some.1 h
    refine ⟨slot, hslot, ?_⟩
    split_ifs <;> rfl

theorem within_foldl_erase (c : DnsCache) (ks : List (Str × QType)) :
    Within { c with inner := ks.foldl AssocMap.erase c.inner } c where
  cfg := rfl
  cells := rfl
  size := by
    induction ks using List.reverseRecOn with
    | nil => exact le_rfl
    | append_singleton ks k ih =>
      rw [List.foldl_append, List.foldl_cons, List.foldl_nil]
      exact (AssocMap.size_retain_le _ _).trans ih
  slot k slot' h := ⟨slot', (AssocMap.get?_foldl_erase_eq_some.1 h).1, rfl⟩

theorem within_erase (c : DnsCache) (key : Str × QType) :
    Within { c with inner := c.inner.erase key } c :=
  within_foldl_erase c [key]

theorem within_clear (c : DnsCache) : Within c.clear c :=
  ⟨rfl, rfl, Nat.zero_le _, fun _ _ h => by cases h⟩

theorem within_evictLru (it : Iteration (Str × QType) CachedSlot) (c : DnsCache) :
    Within (c.evictLru it) c :=
  within_foldl_erase c _

theorem size_evictLru (it : Iteration (Str × QType) CachedSlot) (c : DnsCache) :
    (c.evictLru it).inner.size ≤ c.evictionTarget := by
  set entries := (it.order c.inner.entries).insertionSort
    fun e e' => e.2.entry.lastUsed ≤ e'.2.entry.lastUsed with hentries
  have hperm : entries.Perm c.inner.entries :=
    (List.perm_insertionSort _ _).trans (it.perm _)
  have hsub : (entries.take (c.inner.size - c.evictionTarget)).Sublist entries := List.take_sublist _ _
  have hnodup : ((entries.take (c.inner.size - c.evictionTarget)).map Prod.fst).Nodup :=
    ((hperm.map Prod.fst).nodup_iff.2 c.inner.nodup).sublist (hsub.map _)
  have hmem : ∀ k ∈ (entries.take (c.inner.size - c.evictionTarget)).map Prod.fst,
      ∃ slot, c.inner.get? k = some slot := by
    intro k hk
    rw [← AssocMap.mem_keys_iff]
    exact (hperm.map Prod.fst).mem_iff.1 ((hsub.map _).mem hk)
  have hsize := AssocMap.size_foldl_erase hnodup hmem
  have hlength : entries.length = c.inner.size := hperm.length_eq
  rw [List.length_map, List.length_take, hlength] at hsize
  have heq : (c.evictLru it).inner.size = (((entries.take (c.inner.size - c.evictionTarget)).map
    Prod.fst).foldl AssocMap.erase c.inner).size := rfl
  omega

theorem evictionTarget_le (c : DnsCache) : c.evictionTarget ≤ c.cfg.maxEntries := by
  unfold evictionTarget
  omega

/-- What `put` does: nothing without addresses; else it leaves the new entry and some of the others, no
more than the bound. -/
theorem put_cases (cr : Crates) (it : Iteration (Str × QType) CachedSlot) (c : DnsCache)
    (now : Instant) (host : Str) (qtype : QType) (ips : List IpAddr) (ttl : Nat) (origin : String) :
    (c.put cr it now host qtype ips ttl origin = c) ∨
    ips ≠ [] ∧
      Within (c.put cr it now host qtype ips ttl origin)
        (c.insertEntry (keyOf cr host qtype) ⟨ips, now + ttl, now, origin⟩) ∧
      (c.put cr it now host qtype ips ttl origin).inner.size ≤ c.cfg.maxEntries := by
  unfold put
  set c' := c.insertEntry (keyOf cr host qtype) ⟨ips, now + ttl, now, origin⟩
  by_cases hempty : ips.isEmpty = true
  · rw [if_pos hempty]
    exact .inl rfl
  · rw [if_neg hempty]
    refine .inr ⟨by simpa using hempty, ?_⟩
    dsimp only
    split_ifs with hfull
    · exact ⟨within_evictLru it c', (size_evictLru it c').trans (evictionTarget_le c')⟩
    · exact ⟨.refl c', not_lt.1 hfull⟩

theorem size_putNegative_iff (c : DnsCache) (now : Instant) (host : Str) (qtype : QType)
    (h : c.inner.size ≤ c.cfg.maxEntries) :
    (c.putNegative cr now host qtype).inner.size ≤ c.cfg.maxEntries ↔
      c.inner.contains (keyOf cr host qtype) = true ∨ c.inner.size < c.cfg.maxEntries := by
  rw [putNegative, insertEntry, AssocMap.contains]
  cases hslot : c.inner.get? (keyOf cr host qtype) with
  | none =>
    rw [AssocMap.size_insert_of_none hslot]
    simp only [Option.isSome_none, Bool.false_eq_true, false_or]
    exact Nat.succ_le_iff
  | some slot => simpa [AssocMap.size_insert_of_some hslot] using h

theorem getKey_within (c : DnsCache) (now : Instant) (key : Str × QType) :
    ∃ c', Within c' c ∧ (c.getKey now key = (⟨none, .miss, none⟩, c') ∨
      ∃ slot hit needPrefetch, c.inner.get? key = some slot ∧
        (needPrefetch = true → c.refreshAllowed now slot = true) ∧
        c.getKey now key = c'.serve key slot hit needPrefetch) := by
  rcases c.getKey_cases now key with
    ⟨slot, hit, need, hslot, -, hneed, heq⟩ | ⟨-, heq⟩ | ⟨slot, -, -, heq⟩
  · exact ⟨_, within_touch c now key, .inr ⟨slot, hit, need, hslot, hneed, heq⟩⟩
  · exact ⟨c, .refl c, .inl heq⟩
  · exact ⟨_, (within_erase _ key).trans (within_touch c now key), .inl heq⟩

end DnsCache

/-! ### The tickets -/

namespace DnsCache

/-- Who holds a ticket has set the flag of the entry of its key, and of no other entry. -/
structure TicketInv (c : DnsCache) (tickets : List PrefetchTicket) : Prop where
  lt : ∀ k slot, c.inner.get? k = some slot → slot.cell < c.cells.length
  inj : ∀ k k' slot slot', c.inner.get? k = some slot → c.inner.get? k' = some slot' →
    slot.cell = slot'.cell → k = k'
  flag : ∀ t ∈ tickets, ∃ cell, c.cells[t.cell]? = some cell ∧ cell.prefetching = true
  own : ∀ t ∈ tickets, ∀ k slot, c.inner.get? k = some slot → (slot.cell = t.cell ↔ k = t.key)
  apart : tickets.Pairwise fun t t' => t.key ≠ t'.key ∧ t.cell ≠ t'.cell

variable {c c' : DnsCache} {tickets : List PrefetchTicket} {key : Str × QType} {entry : Entry}
  {slot : CachedSlot} {t : PrefetchTicket} {now : Instant}

theorem ticketInv_new (cfg : CacheConfig) : TicketInv (new cfg) [] where
  lt := by simp [new]
  inj := by simp [new]
  flag := by simp
  own := by simp
  apart := .nil

theorem TicketInv.within (h : TicketInv c tickets) (hw : Within c' c) : TicketInv c' tickets where
  lt k slot' hslot' := by
    obtain ⟨slot, hslot, hcell⟩ := hw.slot k slot' hslot'
    rw [hcell, hw.cells]
    exact h.lt k slot hslot
  inj k₁ k₂ slot₁' slot₂' h₁ h₂ heq := by
    obtain ⟨slot₁, hslot₁, hcell₁⟩ := hw.slot k₁ slot₁' h₁
    obtain ⟨slot₂, hslot₂, hcell₂⟩ := hw.slot k₂ slot₂' h₂
    exact h.inj k₁ k₂ slot₁ slot₂ hslot₁ hslot₂ (by rw [← hcell₁, ← hcell₂, heq])
  flag t ht := by
    rw [hw.cells]
    exact h.flag t ht
  own t ht k slot' hslot' := by
    obtain ⟨slot, hslot, hcell⟩ := hw.slot k slot' hslot'
    rw [hcell]
    exact h.own t ht k slot hslot
  apart := h.apart

theorem TicketInv.modifyCell (h : TicketInv c tickets) {i : Nat} {f : RefreshCell → RefreshCell}
    (hf : ∀ t ∈ tickets, t.cell = i → ∀ cell : RefreshCell, cell.prefetching = true →
      (f cell).prefetching = true) : TicketInv (c.modifyCell i f) tickets where
  lt k slot hslot := by simpa [DnsCache.modifyCell] using h.lt k slot hslot
  inj := h.inj
  flag t ht := by
    obtain ⟨cell, hcell, hset⟩ := h.flag t ht
    rw [DnsCache.modifyCell, List.getElem?_modify, hcell]
    by_cases hi : i = t.cell
    · exact ⟨f cell, by simp [hi], hf t ht hi.symm cell hset⟩
    · exact ⟨cell, by simp [hi], hset⟩
  own := h.own
  apart := h.apart

/-- An entry is replaced while no ticket for it is outstanding. -/
theorem TicketInv.insertEntry (h : TicketInv c tickets) (hkey : ∀ t ∈ tickets, t.key ≠ key) :
    TicketInv (c.insertEntry key entry) tickets := by
  have hget : ∀ k slot, (c.insertEntry key entry).inner.get? k = some slot →
      (k = key ∧ slot.cell = c.cells.length) ∨ (k ≠ key ∧ c.inner.get? k = some slot) := by
    intro k slot hslot
    by_cases hk : k = key
    · subst hk
      rw [DnsCache.insertEntry, AssocMap.get?_insert_self] at hslot
      cases hslot
      exact .inl ⟨rfl, rfl⟩
    · rw [DnsCache.insertEntry, AssocMap.get?_insert_of_ne _ _ hk] at hslot
      exact .inr ⟨hk, hslot⟩
  have hlength : (c.insertEntry key entry).cells.length = c.cells.length + 1 := by
    simp [DnsCache.insertEntry]
  have hflag : ∀ t ∈ tickets, t.cell < c.cells.length := by
    intro t ht
    obtain ⟨cell, hcell, -⟩ := h.flag t ht
    exact (List.getElem?_eq_some_iff.1 hcell).1
  refine ⟨fun k slot hslot => ?_, fun k k' slot slot' hslot hslot' heq => ?_, fun t ht => ?_,
    fun t ht k slot hslot => ?_, h.apart⟩
  · rcases hget k slot hslot with ⟨-, hcell⟩ | ⟨-, hslot⟩
    · omega
    · exact (h.lt k slot hslot).trans (by omega)
  · rcases hget k slot hslot with ⟨hk, hcell⟩ | ⟨-, hold⟩
    · rcases hget k' slot' hslot' with ⟨hk', -⟩ | ⟨-, hold'⟩
      · rw [hk, hk']
      · have := h.lt k' slot' hold'
        omega
    · rcases hget k' slot' hslot' with ⟨-, hcell⟩ | ⟨-, hold'⟩
      · have := h.lt k slot hold
        omega
      · exact h.inj k k' slot slot' hold hold' heq
  · obtain ⟨cell, hcell, hset⟩ := h.flag t ht
    exact ⟨cell, by rw [DnsCache.insertEntry, List.getElem?_append_left (hflag t ht), hcell], hset⟩
  · rcases hget k slot hslot with ⟨rfl, hcell⟩ | ⟨-, hslot⟩
    · have := hflag t ht
      exact iff_of_false (by omega) (hkey t ht).symm
    · exact h.own t ht k slot hslot

theorem TicketInv.apart_of_refreshAllowed (h : TicketInv c tickets) (hslot : c.inner.get? key = some slot)
    (hallowed : c.refreshAllowed now slot = true) :
    ∀ t ∈ tickets, t.key ≠ key ∧ t.cell ≠ slot.cell := by
  intro t ht
  obtain ⟨cell, hcell, hset⟩ := h.flag t ht
  have hne : t.cell ≠ slot.cell := by
    intro heq
    rw [refreshAllowed, ← heq, hcell, Option.any_some, hset] at hallowed
    cases hallowed
  exact ⟨fun hkey => hne ((h.own t ht key slot hslot).2 hkey.symm).symm, hne⟩

/-- A ticket that is given out for an entry, which may have been touched before. -/
theorem TicketInv.takeTicket (h : TicketInv c tickets) (hw : Within c' c)
    (hslot : c.inner.get? key = some slot) {needPrefetch : Bool}
    (hneed : needPrefetch = true → c.refreshAllowed now slot = true) :
    TicketInv (c'.takeTicket needPrefetch key slot).2
      ((c'.takeTicket needPrefetch key slot).1.toList ++ tickets) := by
  cases needPrefetch with
  | false => exact h.within hw
  | true =>
    have hapart := h.apart_of_refreshAllowed hslot (hneed rfl)
    have hset : TicketInv (c'.modifyCell slot.cell ({ · with prefetching := true })) tickets :=
      (h.within hw).modifyCell fun _ _ _ _ _ => rfl
    refine ⟨hset.lt, hset.inj, List.forall_mem_cons.2 ⟨?_, hset.flag⟩,
      List.forall_mem_cons.2 ⟨fun k slot' hslot' => ?_, hset.own⟩, List.pairwise_cons.2 ⟨?_, h.apart⟩⟩
    · obtain ⟨cell, hcell⟩ : ∃ cell, c'.cells[slot.cell]? = some cell :=
        ⟨_, List.getElem?_eq_getElem (hw.cells ▸ h.lt key slot hslot)⟩
      refine ⟨{ cell with prefetching := true }, ?_, rfl⟩
      show (c'.cells.modify slot.cell _)[slot.cell]? = _
      rw [List.getElem?_modify, hcell]
      simp
    · obtain ⟨old, hold, hcell⟩ := hw.slot k slot' hslot'
      rw [hcell]
      constructor
      · exact fun heq => h.inj k key old slot hold hslot heq
      · rintro rfl
        cases hslot.symm.trans hold
        rfl
    · intro t ht
      exact ⟨(hapart t ht).1.symm, (hapart t ht).2.symm⟩

theorem TicketInv.dropTicket (h : TicketInv c tickets) {i : Nat} (ht : tickets[i]? = some t) :
    TicketInv (c.dropTicket t) (tickets.eraseIdx i) := by
  obtain ⟨hi, rfl⟩ := List.getElem?_eq_some_iff.1 ht
  have hsub : (tickets.eraseIdx i).Sublist tickets := List.eraseIdx_sublist _ _
  have hperm := List.getElem_cons_eraseIdx_perm hi
  have hapart := (hperm.pairwise_iff fun hab => ⟨hab.1.symm, hab.2.symm⟩).2 h.apart
  have hrest : TicketInv c (tickets.eraseIdx i) :=
    ⟨h.lt, h.inj, fun t ht => h.flag t (hsub.mem ht), fun t ht => h.own t (hsub.mem ht),
      h.apart.sublist hsub⟩
  refine hrest.modifyCell fun t' ht' heq => ?_
  exact absurd heq.symm ((List.pairwise_cons.1 hapart).1 t' ht').2

end DnsCache

/-! ### All moves -/

namespace CacheWorld

variable {cr : Crates} {w w' : CacheWorld}

/-- The bound, and what is needed for the tickets. -/
structure Inv (w : CacheWorld) : Prop where
  bounded : w.Bounded
  tickets : w.cache.TicketInv w.tickets

theorem inv_start (cfg : CacheConfig) (now : Instant) : Inv (start cfg now) where
  bounded := Nat.zero_le _
  tickets := DnsCache.ticketInv_new cfg

theorem Inv.within (h : w.Inv) {c : DnsCache} (hw : c.Within w.cache) : Inv { w with cache := c } where
  bounded := by
    have hsize := hw.size
    have hbound := h.bounded
    simp only [Bounded, hw.cfg] at hbound ⊢
    exact hsize.trans hbound
  tickets := h.tickets.within hw

theorem Inv.modifyCell (h : w.Inv) {i : Nat} {f : DnsCache.RefreshCell → DnsCache.RefreshCell}
    (hf : ∀ cell, (f cell).prefetching = cell.prefetching) :
    Inv { w with cache := w.cache.modifyCell i f } where
  bounded := h.bounded
  tickets := h.tickets.modifyCell fun _ _ _ cell hset => (hf cell).trans hset

theorem Inv.get (h : w.Inv) (cr : Crates) (host : Str) (qtype : QType) :
    (w.keep (w.cache.get cr w.now host qtype)).Inv := by
  obtain ⟨c, hw, heq | ⟨slot, hit, need, hslot, hneed, heq⟩⟩ :=
    w.cache.getKey_within w.now (DnsCache.keyOf cr host qtype)
  · rw [DnsCache.get, heq]
    exact h.within hw
  · rw [DnsCache.get, heq, DnsCache.serve_eq]
    refine ⟨?_, h.tickets.takeTicket hw hslot hneed⟩
    have hbound := (h.within hw).bounded
    cases need <;> exact hbound

theorem Inv.getWith (h : w.Inv) (cr : Crates) (host : Str) (qtype : QType)
    (disableOptimistic : Bool) :
    (w.keep (w.cache.getWith cr w.now host qtype disableOptimistic)).Inv := by
  have hget := h.get cr host qtype
  unfold DnsCache.getWith
  rcases hanswer : w.cache.get cr w.now host qtype with ⟨⟨ips, hit, ticket⟩, c⟩
  rw [hanswer] at hget
  dsimp only
  split_ifs with hdrop
  · cases ticket with
    | none => exact hget
    | some t =>
      have ht : (t :: w.tickets)[0]? = some t := rfl
      exact ⟨hget.bounded, hget.tickets.dropTicket ht⟩
  · exact hget

theorem Inv.put (h : w.Inv) (it : Iteration (Str × QType) DnsCache.CachedSlot) (host : Str)
    (qtype : QType) (ips : List IpAddr) (ttl : Nat) (origin : String)
    (hguard : ips ≠ [] → w.NoTicket (DnsCache.keyOf cr host qtype)) :
    Inv { w with cache := w.cache.put cr it w.now host qtype ips ttl origin } := by
  rcases DnsCache.put_cases cr it w.cache w.now host qtype ips ttl origin with
    heq | ⟨hips, hw, hsize⟩
  · rw [heq]
    exact h
  · refine ⟨?_, (h.tickets.insertEntry (hguard hips)).within hw⟩
    rw [Bounded, hw.cfg]
    exact hsize

theorem Inv.load (h : w.Inv) (nowSecs : Nat)
    (rows : List ((Str × DnsCacheBlob) × Iteration (Str × QType) DnsCache.CachedSlot))
    (hguard : ∀ row ∈ rows, ∀ key ips ttl,
      DnsCache.loadedRow nowSecs row.1 = some (key, ips, ttl) → ips ≠ [] →
        w.NoTicket (DnsCache.keyOf cr key.1 key.2)) :
    Inv { w with cache := w.cache.load cr w.now nowSecs rows } := by
  induction rows generalizing w with
  | nil => exact h
  | cons row rows ih =>
    rw [List.forall_mem_cons] at hguard
    have hrow : Inv { w with cache := w.cache.loadRow cr w.now nowSecs row } := by
      unfold DnsCache.loadRow
      cases hloaded : DnsCache.loadedRow nowSecs row.1 with
      | none => exact h
      | some loaded => exact h.put _ _ _ _ _ _ (hguard.1 _ _ _ hloaded)
    exact ih hrow hguard.2

/-- **Every guarded move keeps the bound and the tickets.** -/
theorem Inv.step (h : w.Inv) {m : CacheMove} (hguard : m.Guarded cr w) (hm : w.step cr m = some w') :
    w'.Inv := by
  cases m with
  | get host qtype =>
    cases hm
    exact h.get cr host qtype
  | getWith host qtype disableOptimistic =>
    cases hm
    exact h.getWith cr host qtype disableOptimistic
  | put it host qtype ips ttl origin =>
    cases hm
    exact h.put it host qtype ips ttl origin hguard
  | putNegative host qtype =>
    cases hm
    exact ⟨(DnsCache.size_putNegative_iff _ _ _ _ h.bounded).2 hguard.2,
      h.tickets.insertEntry hguard.1⟩
  | load nowSecs rows =>
    cases hm
    exact h.load nowSecs rows hguard
  | invalidate host qtype =>
    cases hm
    exact h.within (DnsCache.within_erase _ _)
  | clear =>
    cases hm
    exact h.within (DnsCache.within_clear _)
  | markSuccess i =>
    obtain ⟨t, -, rfl⟩ := Option.map_eq_some_iff.1 hm
    exact h.modifyCell fun _ => rfl
  | markFailure i =>
    obtain ⟨t, -, rfl⟩ := Option.map_eq_some_iff.1 hm
    exact h.modifyCell fun _ => rfl
  | dropTicket i =>
    obtain ⟨t, ht, rfl⟩ := Option.map_eq_some_iff.1 hm
    exact ⟨h.bounded, h.tickets.dropTicket ht⟩
  | tick span =>
    cases hm
    exact ⟨h.bounded, h.tickets⟩

/-- **The bounds of the cache.**  In every run whose moves are all guarded the cache has at most as many
entries as configured, at most one ticket for a key is outstanding, and `get` answers by the expiry of
the entry. -/
theorem guarded_bounded (cr : Crates) (cfg : CacheConfig) (now : Instant)
    (hrun : Reach (step cr) (fun w m => m.Guarded cr w) (start cfg now) w) :
    w.Bounded ∧ w.OneTicket ∧ ∀ host qtype,
      let answer := (w.cache.get cr w.now host qtype).1
      (answer.hit = .fresh ↔
        ∃ slot, w.cache.inner.get? (DnsCache.keyOf cr host qtype) = some slot ∧
          w.now < slot.entry.expire) ∧
      (answer.hit = .stale ↔
        ∃ slot, w.cache.inner.get? (DnsCache.keyOf cr host qtype) = some slot ∧
          slot.entry.expire ≤ w.now ∧ w.now < slot.entry.expire + w.cache.cfg.grace) ∧
      answer.ips = if answer.hit = .miss then none
        else (w.cache.inner.get? (DnsCache.keyOf cr host qtype)).map (·.entry.ips) := by
  have hinv : w.Inv := hrun.inv (fun _ _ _ h hguard hm => h.step hguard hm) (inv_start cfg now)
  exact ⟨hinv.bounded, hinv.tickets.apart.imp And.left, w.cache.get_hit cr w.now⟩

/-- A cache for two entries. -/
def smallConfig : CacheConfig := ⟨2, 10, 5, 5, 60⟩

/-- An address and how it is put, to expire at once. -/
def putOnce (host : Str) : CacheMove :=
  .put ⟨id, List.Perm.refl⟩ host .a [.v4 0x01010101] 0 "live"

theorem guarded_bounded_stale : ∃ w,
    Reach (step .ascii) (fun w m => m.Guarded .ascii w) (start smallConfig 0) w ∧
      w.cache.inner.size = 2 ∧ w.tickets.length = 1 ∧ w.Bounded ∧ w.OneTicket := by
  have hput : Reach (step .ascii) (fun w m => m.Guarded .ascii w) (start smallConfig 0) _ :=
    Reach.refl.tail (m := putOnce "a") (fun _ t ht => by cases ht) rfl
  have hget := hput.tail (m := CacheMove.get "a" .a) (by trivial) rfl
  have hnegative := hget.tail (m := CacheMove.putNegative "b" .a)
    ⟨by unfold NoTicket; decide, .inr (by decide)⟩ rfl
  have hspec := guarded_bounded .ascii smallConfig 0 hnegative
  exact ⟨_, hnegative, rfl, rfl, hspec.1, hspec.2.1⟩

/-- Negative answers fill the cache beyond its bound; and an entry that is put again while its ticket is
outstanding gives out another one. -/
theorem negative_answers_exceed_bound :
    (¬∀ (cfg : CacheConfig) (w : CacheWorld), Reach (step .ascii) anyMove (start cfg 0) w →
      w.Bounded) ∧
    ¬∀ (cfg : CacheConfig) (w : CacheWorld), Reach (step .ascii) anyMove (start cfg 0) w →
      w.OneTicket := by
  constructor
  · intro h
    have hrun : runMoves (step .ascii) (start smallConfig 0)
        [.putNegative "a" .a, .putNegative "b" .a, .putNegative "c" .a] = some _ := rfl
    have hreach := reach_of_runMoves hrun
    exact absurd (h smallConfig _ hreach) (by unfold Bounded; decide)
  · intro h
    have hrun : runMoves (step .ascii) (start smallConfig 0)
        [putOnce "a", .get "a" .a, putOnce "a", .get "a" .a] = some _ := rfl
    have hreach := reach_of_runMoves hrun
    have hpair := h smallConfig _ hreach
    exact (List.pairwise_cons.1 hpair).1 _ List.mem_cons_self rfl

end CacheWorld

end WutherCore.Resolver
