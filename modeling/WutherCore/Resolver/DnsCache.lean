import WutherCore.Data.AssocMap
import WutherCore.Data.Moves
import WutherCore.Resolver.FakeIp

/-!
# The DNS cache

`DnsCache` of `cache.rs` keeps the addresses of a host and a query type until they expire, and for a
span of grace beyond that.  Who reads an entry that is about to expire, or has expired, may get a ticket
to refresh it; the flag of the entry keeps others from getting one until the ticket is dropped.

* `get`, `getWith`, `put`, `putNegative`, `load`, `invalidate`, `clear`, `evictLru`.
* `CacheWorld`, `CacheWorld.step`: the cache with its clock and the tickets that are outstanding.
* `CacheMove.Guarded`: the moves that keep the cache within its bound.
* `get_hit`: what the answers of `get` mean.

A flag and the time of the last failure are shared between an entry and its tickets, and go on to exist
when the entry is replaced: they are cells, of which entries and tickets have the number.
-/

namespace WutherCore.Resolver

open WutherCore.Text WutherCore.Net WutherCore.Ruleset WutherCore.Data

/-- `QType`. -/
inductive QType
  | a
  | aaaa
  | both
  deriving DecidableEq, Repr

/-- `Hit`. -/
inductive Hit
  | fresh
  | stale
  | miss
  deriving DecidableEq, Repr

/-- `CacheConfig`, the fields that the cache itself reads. -/
structure CacheConfig where
  maxEntries : Nat
  grace : Nat
  prefetchThreshold : Nat
  failureRecheck : Nat
  negativeTtl : Nat

/-- `PrefetchTicket`. -/
structure PrefetchTicket where
  cell : Nat
  host : Str
  qtype : QType
  deriving DecidableEq, Repr

/-- The key of the entry that a ticket is for. -/
def PrefetchTicket.key (t : PrefetchTicket) : Str × QType := (t.host, t.qtype)

/-- `core_store::DnsCacheBlob`, the fields that `load` reads. -/
structure DnsCacheBlob where
  ips : List Str
  expireSecs : Nat

namespace DnsCache

/-- `Entry`. -/
structure Entry where
  ips : List IpAddr
  expire : Instant
  lastUsed : Instant
  origin : String

/-- What an entry shares with its tickets: `prefetching` and `last_refresh_failure`. -/
structure RefreshCell where
  prefetching : Bool := false
  lastFailure : Option Instant := none

/-- `CachedSlot`. -/
structure CachedSlot where
  entry : Entry
  cell : Nat

end DnsCache

/-- `DnsCache`. -/
structure DnsCache where
  cfg : CacheConfig
  inner : AssocMap (Str × QType) DnsCache.CachedSlot
  cells : List DnsCache.RefreshCell

/-- `str::rsplit_once`. -/
def rsplitOnce (c : Char) (s : Str) : Option (Str × Str) :=
  (splitOnce c s.reverse).map fun p => (p.2.reverse, p.1.reverse)

/-- `parse_key`. -/
def parseKey (s : Str) : Option (Str × QType) := do
  let (host, label) ← rsplitOnce '|' s
  if label = "A".toList then some (host, .a)
  else if label = "AAAA".toList then some (host, .aaaa)
  else if label = "BOTH".toList then some (host, .both)
  else none

namespace DnsCache

/-- `DnsCache::new`. -/
def new (cfg : CacheConfig) : DnsCache := ⟨cfg, .empty, []⟩

/-- `refresh_allowed`. -/
def refreshAllowed (c : DnsCache) (now : Instant) (slot : CachedSlot) : Bool :=
  c.cells[slot.cell]?.any fun cell =>
    !cell.prefetching && match cell.lastFailure with
      | none => true
      | some lastFailure => c.cfg.failureRecheck ≤ now - lastFailure

/-- A change of a cell. -/
def modifyCell (c : DnsCache) (i : Nat) (f : RefreshCell → RefreshCell) : DnsCache :=
  { c with cells := c.cells.modify i f }

/-- A ticket for an entry, if it is needed. -/
def takeTicket (c : DnsCache) (needPrefetch : Bool) (key : Str × QType) (slot : CachedSlot) :
    Option PrefetchTicket × DnsCache :=
  if needPrefetch then
    (some ⟨slot.cell, key.1, key.2⟩, c.modifyCell slot.cell ({ · with prefetching := true }))
  else (none, c)

/-- `Drop` of a ticket. -/
def dropTicket (c : DnsCache) (t : PrefetchTicket) : DnsCache :=
  c.modifyCell t.cell ({ · with prefetching := false })

/-- `PrefetchTicket::mark_success`. -/
def markSuccess (c : DnsCache) (t : PrefetchTicket) : DnsCache :=
  c.modifyCell t.cell ({ · with lastFailure := none })

/-- `PrefetchTicket::mark_failure`. -/
def markFailure (c : DnsCache) (now : Instant) (t : PrefetchTicket) : DnsCache :=
  c.modifyCell t.cell ({ · with lastFailure := some now })

/-- What `get` returns: the addresses, how they were found, and a ticket to refresh them. -/
structure Answer where
  ips : Option (List IpAddr)
  hit : Hit
  ticket : Option PrefetchTicket

/-- The addresses of an entry that may still be used. -/
def serve (c : DnsCache) (key : Str × QType) (slot : CachedSlot) (hit : Hit) (needPrefetch : Bool) :
    Answer × DnsCache :=
  let (ticket, c) := c.takeTicket needPrefetch key slot
  (⟨some slot.entry.ips, hit, ticket⟩, c)

/-- The entry of a key has been used. -/
def touch (c : DnsCache) (now : Instant) (key : Str × QType) : DnsCache :=
  { c with
    inner := c.inner.modify key fun slot => { slot with entry := { slot.entry with lastUsed := now } } }

/-- The lookup of `get`, by the key. -/
def getKey (c : DnsCache) (now : Instant) (key : Str × QType) : Answer × DnsCache :=
  match c.inner.get? key with
  | none => (⟨none, .miss, none⟩, c)
  | some slot =>
      let c := c.touch now key
      if now < slot.entry.expire then
        let remaining := slot.entry.expire - now
        c.serve key slot .fresh
          (decide (remaining < c.cfg.prefetchThreshold) && c.refreshAllowed now slot)
      else if now < slot.entry.expire + c.cfg.grace then
        c.serve key slot .stale (c.refreshAllowed now slot)
      else (⟨none, .miss, none⟩, { c with inner := c.inner.erase key })

/-- An entry with a flag of its own. -/
def insertEntry (c : DnsCache) (key : Str × QType) (entry : Entry) : DnsCache where
  cfg := c.cfg
  inner := c.inner.insert key ⟨entry, c.cells.length⟩
  cells := c.cells ++ [{}]

/-- The number of entries that an eviction leaves. -/
def evictionTarget (c : DnsCache) : Nat := min (c.cfg.maxEntries * 9) (2 ^ 64 - 1) / 10

/-- `evict_lru`, in the order of an iteration over the entries. -/
def evictLru (it : Iteration (Str × QType) CachedSlot) (c : DnsCache) : DnsCache :=
  let entries := (it.order c.inner.entries).insertionSort
    fun e e' => e.2.entry.lastUsed ≤ e'.2.entry.lastUsed
  { c with
    inner := ((entries.take (c.inner.size - c.evictionTarget)).map Prod.fst).foldl AssocMap.erase
      c.inner }

section Crates

variable (cr : Crates)

/-- The key of a host. -/
def keyOf (host : Str) (qtype : QType) : Str × QType := (cr.toLowercase host, qtype)

/-- `get`. -/
def get (c : DnsCache) (now : Instant) (host : Str) (qtype : QType) : Answer × DnsCache :=
  c.getKey now (keyOf cr host qtype)

/-- `get_with`. -/
def getWith (c : DnsCache) (now : Instant) (host : Str) (qtype : QType) (disableOptimistic : Bool) :
    Answer × DnsCache :=
  let (answer, c) := c.get cr now host qtype
  if answer.hit = .stale && disableOptimistic then
    (⟨none, .miss, none⟩, answer.ticket.elim c c.dropTicket)
  else (answer, c)

/-- `put`. -/
def put (it : Iteration (Str × QType) CachedSlot) (c : DnsCache) (now : Instant) (host : Str)
    (qtype : QType) (ips : List IpAddr) (ttl : Nat) (origin : String) : DnsCache :=
  if ips.isEmpty then c
  else
    let c := c.insertEntry (keyOf cr host qtype) ⟨ips, now + ttl, now, origin⟩
    if c.inner.size > c.cfg.maxEntries then c.evictLru it else c

/-- `put_negative`. -/
def putNegative (c : DnsCache) (now : Instant) (host : Str) (qtype : QType) : DnsCache :=
  c.insertEntry (keyOf cr host qtype) ⟨[], now + c.cfg.negativeTtl, now, "negative"⟩

/-- `invalidate`. -/
def invalidate (c : DnsCache) (host : Str) (qtype : QType) : DnsCache :=
  { c with inner := c.inner.erase (keyOf cr host qtype) }

/-- `clear`. -/
def clear (c : DnsCache) : DnsCache := { c with inner := .empty }

/-- What `load` puts into the cache for a row: nothing if it has expired or has no proper key. -/
def loadedRow (nowSecs : Nat) (row : Str × DnsCacheBlob) :
    Option ((Str × QType) × List IpAddr × Nat) := do
  if row.2.expireSecs ≤ nowSecs then none
  let key ← parseKey row.1
  return (key, row.2.ips.filterMap parseIpAddr, row.2.expireSecs - nowSecs)

/-- One row of `load`, with the order of the iteration if it comes to an eviction. -/
def loadRow (now : Instant) (nowSecs : Nat) (c : DnsCache)
    (row : (Str × DnsCacheBlob) × Iteration (Str × QType) CachedSlot) : DnsCache :=
  match loadedRow nowSecs row.1 with
  | none => c
  | some (key, ips, ttl) => c.put cr row.2 now key.1 key.2 ips ttl "persisted"

/-- `load`; `nowSecs` is the time of day. -/
def load (c : DnsCache) (now : Instant) (nowSecs : Nat)
    (rows : List ((Str × DnsCacheBlob) × Iteration (Str × QType) CachedSlot)) : DnsCache :=
  rows.foldl (loadRow cr now nowSecs) c

end Crates

end DnsCache

/-! ### Runs -/

open DnsCache in
/-- The cache with its clock and the tickets that are outstanding. -/
structure CacheWorld where
  cache : DnsCache
  now : Instant
  tickets : List PrefetchTicket

open DnsCache in
/-- What happens to the cache. A ticket is given by its number. -/
inductive CacheMove
  | get (host : Str) (qtype : QType)
  | getWith (host : Str) (qtype : QType) (disableOptimistic : Bool)
  | put (it : Iteration (Str × QType) CachedSlot) (host : Str) (qtype : QType) (ips : List IpAddr)
      (ttl : Nat) (origin : String)
  | putNegative (host : Str) (qtype : QType)
  | load (nowSecs : Nat)
      (rows : List ((Str × DnsCacheBlob) × Iteration (Str × QType) CachedSlot))
  | invalidate (host : Str) (qtype : QType)
  | clear
  | markSuccess (ticket : Nat)
  | markFailure (ticket : Nat)
  | dropTicket (ticket : Nat)
  | tick (span : Nat)

namespace CacheWorld

/-- The empty cache. -/
def start (cfg : CacheConfig) (now : Instant) : CacheWorld := ⟨.new cfg, now, []⟩

variable (cr : Crates) (w : CacheWorld)

/-- The ticket of an answer is kept by whoever asked. -/
def keep (answer : DnsCache.Answer × DnsCache) : CacheWorld :=
  ⟨answer.2, w.now, answer.1.ticket.toList ++ w.tickets⟩

/-- One move. -/
def step : CacheMove → Option CacheWorld
  | .get host qtype => some (w.keep (w.cache.get cr w.now host qtype))
  | .getWith host qtype disableOptimistic =>
      some (w.keep (w.cache.getWith cr w.now host qtype disableOptimistic))
  | .put it host qtype ips ttl origin =>
      some { w with cache := w.cache.put cr it w.now host qtype ips ttl origin }
  | .putNegative host qtype => some { w with cache := w.cache.putNegative cr w.now host qtype }
  | .load nowSecs rows => some { w with cache := w.cache.load cr w.now nowSecs rows }
  | .invalidate host qtype => some { w with cache := w.cache.invalidate cr host qtype }
  | .clear => some { w with cache := w.cache.clear }
  | .markSuccess i => w.tickets[i]?.map fun t => { w with cache := w.cache.markSuccess t }
  | .markFailure i => w.tickets[i]?.map fun t => { w with cache := w.cache.markFailure w.now t }
  | .dropTicket i => w.tickets[i]?.map fun t =>
      { w with cache := w.cache.dropTicket t, tickets := w.tickets.eraseIdx i }
  | .tick span => some { w with now := w.now + span }

/-- At most as many entries as configured. -/
def Bounded : Prop := w.cache.inner.size ≤ w.cache.cfg.maxEntries

/-- At most one ticket for a key is outstanding. -/
def OneTicket : Prop := w.tickets.Pairwise fun t t' => t.key ≠ t'.key

/-- No ticket for the key is outstanding. -/
def NoTicket (key : Str × QType) : Prop := ∀ t ∈ w.tickets, t.key ≠ key

end CacheWorld

/-- The moves that keep the bound and the tickets: an entry is not replaced while a ticket for it is
outstanding, and a negative answer for a new key does not come to a full cache. -/
def CacheMove.Guarded (cr : Crates) (w : CacheWorld) : CacheMove → Prop
  | .put _ host qtype ips _ _ => ips ≠ [] → w.NoTicket (DnsCache.keyOf cr host qtype)
  | .putNegative host qtype =>
      w.NoTicket (DnsCache.keyOf cr host qtype) ∧
        (w.cache.inner.contains (DnsCache.keyOf cr host qtype) = true ∨
          w.cache.inner.size < w.cache.cfg.maxEntries)
  | .load nowSecs rows => ∀ row ∈ rows, ∀ key ips ttl,
      DnsCache.loadedRow nowSecs row.1 = some (key, ips, ttl) → ips ≠ [] →
        w.NoTicket (DnsCache.keyOf cr key.1 key.2)
  | _ => True

/-! ### Answers -/

namespace DnsCache

theorem serve_eq (c : DnsCache) (key : Str × QType) (slot : CachedSlot) (hit : Hit)
    (needPrefetch : Bool) :
    c.serve key slot hit needPrefetch =
      (⟨some slot.entry.ips, hit, (c.takeTicket needPrefetch key slot).1⟩,
        (c.takeTicket needPrefetch key slot).2) := rfl

theorem getKey_cases (c : DnsCache) (now : Instant) (key : Str × QType) :
    (∃ slot hit needPrefetch, c.inner.get? key = some slot ∧
      (hit = .fresh ∧ now < slot.entry.expire ∨
        hit = .stale ∧ slot.entry.expire ≤ now ∧ now < slot.entry.expire + c.cfg.grace) ∧
      (needPrefetch = true → c.refreshAllowed now slot = true) ∧
      c.getKey now key = (c.touch now key).serve key slot hit needPrefetch) ∨
    (c.inner.get? key = none ∧ c.getKey now key = (⟨none, .miss, none⟩, c)) ∨
    ∃ slot, c.inner.get? key = some slot ∧ slot.entry.expire + c.cfg.grace ≤ now ∧
      c.getKey now key = (⟨none, .miss, none⟩,
        { c.touch now key with inner := (c.touch now key).inner.erase key }) := by
  unfold getKey
  cases hslot : c.inner.get? key with
  | none => exact .inr (.inl ⟨rfl, rfl⟩)
  | some slot =>
    dsimp only
    split_ifs with hfresh hstale
    · refine .inl ⟨slot, _, _, rfl, .inl ⟨rfl, hfresh⟩, fun h => ?_, rfl⟩
      exact (Bool.and_eq_true_iff.1 h).2
    · exact .inl ⟨slot, _, _, rfl, .inr ⟨rfl, not_lt.1 hfresh, hstale⟩, id, rfl⟩
    · exact .inr (.inr ⟨slot, rfl, not_lt.1 hstale, rfl⟩)

/-- **What an answer means**: it is fresh before the entry expires, stale within the grace after that,
and otherwise there is none. -/
theorem get_hit (cr : Crates) (c : DnsCache) (now : Instant) (host : Str) (qtype : QType) :
    let answer := (c.get cr now host qtype).1
    (answer.hit = .fresh ↔ ∃ slot, c.inner.get? (keyOf cr host qtype) = some slot ∧
      now < slot.entry.expire) ∧
    (answer.hit = .stale ↔ ∃ slot, c.inner.get? (keyOf cr host qtype) = some slot ∧
      slot.entry.expire ≤ now ∧ now < slot.entry.expire + c.cfg.grace) ∧
    answer.ips = if answer.hit = .miss then none
      else (c.inner.get? (keyOf cr host qtype)).map (·.entry.ips) := by
  intro answer
  rcases c.getKey_cases now (keyOf cr host qtype) with
    ⟨slot, hit, need, hslot, hhit, -, heq⟩ | ⟨hslot, heq⟩ | ⟨slot, hslot, hexpired, heq⟩
  · have hanswer : answer = ⟨some slot.entry.ips, hit, _⟩ := congrArg Prod.fst heq
    simp only [hanswer, hslot, Option.some.injEq, exists_eq_left', Option.map_some]
    rcases hhit with ⟨rfl, hlt⟩ | ⟨rfl, hle, hlt⟩
    · have hnot : ¬(slot.entry.expire ≤ now) := not_le.2 hlt
      simp [hlt, hnot]
    · have hnot : ¬now < slot.entry.expire := not_lt.2 hle
      simp [hle, hlt, hnot]
  · have hanswer : answer = ⟨none, .miss, none⟩ := congrArg Prod.fst heq
    simp [hanswer, hslot]
  · have hanswer : answer = ⟨none, .miss, none⟩ := congrArg Prod.fst heq
    have hle : slot.entry.expire ≤ now := (Nat.le_add_right _ _).trans hexpired
    have hnot : ¬now < slot.entry.expire := not_lt.2 hle
    have hnot' : ¬now < slot.entry.expire + c.cfg.grace := not_lt.2 hexpired
    simp [hanswer, hslot, hnot, hnot']

end DnsCache

end WutherCore.Resolver
