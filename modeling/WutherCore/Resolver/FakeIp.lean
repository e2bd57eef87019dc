import Mathlib
import WutherCore.Ruleset.Crates

/-!
# The fake IP pool

`FakeIpPool` of `fake_ip.rs` gives each host an address of a reserved network, one per family, and
finds the host of an address again.  The forward table leads from hosts to addresses, the reverse
table back; each record carries its own expiry.

* `alloc`, `lookup`, `insertMapping`, `purgeExpired`, and the loops `nextV4Addr` and `nextV6Addr`.
* `Step`: what happens to a pool and its clock, under a condition on the operations.
* `bijection_of_run`: when no renewal outlives the reverse record and no mapping hides a host, the
  forward records have different addresses and every address leads back to its host, at every moment.

Time is counted in seconds; `Instant` plus `Duration` does not overflow here.
-/

namespace WutherCore.Resolver

open WutherCore.Text WutherCore.Net WutherCore.Ruleset

/-- A point in time, or a span of it, in seconds. -/
abbrev Instant := Nat

/-- `AddressFamily`, and `AddressFamilyKey`, which mirrors it. -/
inductive AddressFamily
  | v4
  | v6
  deriving DecidableEq, Repr

/-- `FakeIpConfig`. -/
structure FakeIpConfig where
  v4Cidr : Subnet 32
  v6Cidr : Subnet 128
  ttl : Nat
  enableV4 : Bool
  enableV6 : Bool
  avoid : List IpNet

/-- `Entry`. -/
structure Entry where
  ip : IpAddr
  expire : Instant

/-- `FakeIpPool`. A map is the function of its lookups; the cursors are the integers of the next
addresses. -/
structure FakeIpPool where
  cfg : FakeIpConfig
  forward : Str × AddressFamily → Option Entry := fun _ => none
  reverse : IpAddr → Option (Str × Instant) := fun _ => none
  nextV4 : Nat
  nextV6 : Nat

/-- `u32::saturating_add` and `u128::saturating_add`, at the given width. -/
def saturatingAdd (w a b : Nat) : Nat := min (a + b) (2 ^ w - 1)

/-- `FakeIpPool::new`. -/
def FakeIpPool.new (cfg : FakeIpConfig) : FakeIpPool where
  cfg := cfg
  nextV4 := saturatingAdd 32 cfg.v4Cidr.network.toNat 1
  nextV6 := saturatingAdd 128 cfg.v6Cidr.network.toNat 1

namespace FakeIpPool

/-- `enabled_for`. -/
def enabledFor (pool : FakeIpPool) : AddressFamily → Bool
  | .v4 => pool.cfg.enableV4
  | .v6 => pool.cfg.enableV6

/-- `is_acceptable`. -/
def isAcceptable (pool : FakeIpPool) (ip : IpAddr) : Bool :=
  if (pool.reverse ip).isSome then false else !pool.cfg.avoid.any (·.contains ip)

/-- The loop of `next_v4_addr`, with the tries left: the address found and the cursor. -/
def nextV4Loop (pool : FakeIpPool) (start stop : Nat) : (tries cursor : Nat) → Option IpAddr × Nat
  | 0, cursor => (none, cursor)
  | tries + 1, cursor =>
      -- the address of the network itself is skipped
      let cursor := if stop ≤ cursor then saturatingAdd 32 start 1 else cursor
      let candidate := BitVec.ofNat 32 cursor
      let cursor := saturatingAdd 32 cursor 1
      if candidate == pool.cfg.v4Cidr.broadcast then nextV4Loop pool start stop tries cursor
      else if pool.isAcceptable (.v4 candidate) then (some (.v4 candidate), cursor)
      else nextV4Loop pool start stop tries cursor

/-- `next_v4_addr`. -/
def nextV4Addr (pool : FakeIpPool) : Option IpAddr × FakeIpPool :=
  let start := pool.cfg.v4Cidr.network.toNat
  let stop := pool.cfg.v4Cidr.broadcast.toNat
  let span := stop - start - 1
  let (ip, cursor) := nextV4Loop pool start stop (span + 1) pool.nextV4
  (ip, { pool with nextV4 := cursor })

/-- The loop of `next_v6_addr`, with the tries left. -/
def nextV6Loop (pool : FakeIpPool) (start stop : Nat) : (tries cursor : Nat) → Option IpAddr × Nat
  | 0, cursor => (none, cursor)
  | tries + 1, cursor =>
      let cursor := if stop ≤ cursor then saturatingAdd 128 start 1 else cursor
      let candidate := BitVec.ofNat 128 cursor
      let cursor := saturatingAdd 128 cursor 1
      if pool.isAcceptable (.v6 candidate) then (some (.v6 candidate), cursor)
      else nextV6Loop pool start stop tries cursor

/-- `next_v6_addr`. -/
def nextV6Addr (pool : FakeIpPool) : Option IpAddr × FakeIpPool :=
  let start := pool.cfg.v6Cidr.network.toNat
  let stop := saturatingAdd 128 start (2 ^ 32)
  let (ip, cursor) := nextV6Loop pool start stop (2 ^ 16) pool.nextV6
  (ip, { pool with nextV6 := cursor })

/-- `allocate_new`. -/
def allocateNew (pool : FakeIpPool) : AddressFamily → Option IpAddr × FakeIpPool
  | .v4 => pool.nextV4Addr
  | .v6 => pool.nextV6Addr

section Operations

variable (cr : Crates)

/-- A new pair of records, which expire together. -/
def record (pool : FakeIpPool) (key : Str × AddressFamily) (ip : IpAddr) (expire : Instant) :
    FakeIpPool :=
  { pool with
    forward := Function.update pool.forward key (some ⟨ip, expire⟩)
    reverse := Function.update pool.reverse ip (some (key.1, expire)) }

/-- The unexpired forward record of a key. -/
def liveEntry (pool : FakeIpPool) (now : Instant) (key : Str × AddressFamily) : Option Entry :=
  (pool.forward key).filter fun entry => decide (now < entry.expire)

/-- `alloc`, which reads the clock when it looks at the forward record, and again for the new
expiry. A renewal moves the expiry of the forward record only. -/
def alloc (pool : FakeIpPool) (host : Str) (family : AddressFamily) (now later : Instant) :
    Option IpAddr × FakeIpPool :=
  if !pool.enabledFor family then (none, pool)
  else
    let key := (cr.toLowercase host, family)
    match pool.liveEntry now key with
    | some entry =>
        (some entry.ip, { pool with
          forward := Function.update pool.forward key (some ⟨entry.ip, later + pool.cfg.ttl⟩) })
    | none =>
        match pool.allocateNew family with
        | (none, pool) => (none, pool)
        | (some ip, pool) => (some ip, pool.record key ip (later + pool.cfg.ttl))

/-- `lookup`. -/
def lookup (pool : FakeIpPool) (ip : IpAddr) (now : Instant) : Option Str :=
  match pool.reverse ip with
  | some (host, expire) => if now < expire then some host else none
  | none => none

/-- `insert_mapping`. -/
def insertMapping (pool : FakeIpPool) (ip : IpAddr) (host : Str) (ttl : Nat) (now : Instant) :
    FakeIpPool :=
  { pool with
    reverse := Function.update pool.reverse ip (some (cr.toLowercase host, now + max ttl 1)) }

/-- `purge_expired`, without the count. -/
def purgeExpired (pool : FakeIpPool) (now : Instant) : FakeIpPool :=
  { pool with
    forward := fun key => (pool.forward key).filter fun entry => decide (now < entry.expire)
    reverse := fun ip => (pool.reverse ip).filter fun record => decide (now < record.2) }

end Operations

end FakeIpPool

/-! ### Runs -/

/-- An operation and the times at which it reads the clock. -/
inductive Operation
  | alloc (host : Str) (family : AddressFamily) (now later : Instant)
  | lookup (ip : IpAddr) (now : Instant)
  | insertMapping (ip : IpAddr) (host : Str) (ttl : Nat) (now : Instant)
  | purgeExpired (now : Instant)

namespace Operation

/-- The first reading of the clock. -/
def start : Operation → Instant
  | alloc _ _ now _ | lookup _ now | insertMapping _ _ _ now | purgeExpired now => now

/-- The last reading of the clock. -/
def stop : Operation → Instant
  | alloc _ _ _ later => later
  | lookup _ now | insertMapping _ _ _ now | purgeExpired now => now

/-- The pool after an operation. -/
def apply (cr : Crates) (pool : FakeIpPool) : Operation → FakeIpPool
  | alloc host family now later => (pool.alloc cr host family now later).2
  | lookup _ _ => pool
  | insertMapping ip host ttl now => pool.insertMapping cr ip host ttl now
  | purgeExpired now => pool.purgeExpired now

end Operation

/-- A pool and the time. -/
structure Moment where
  pool : FakeIpPool
  now : Instant

/-- One step: time passes, or an operation runs that the condition admits. -/
inductive Step (cr : Crates) (admits : FakeIpPool → Operation → Prop) : Moment → Moment → Prop
  | tick {pool : FakeIpPool} {now now' : Instant} (h : now ≤ now') :
      Step cr admits ⟨pool, now⟩ ⟨pool, now'⟩
  | run {pool : FakeIpPool} {now : Instant} {op : Operation} (hstart : now ≤ op.start)
      (hstop : op.start ≤ op.stop) (h : admits pool op) :
      Step cr admits ⟨pool, now⟩ ⟨op.apply cr pool, op.stop⟩

/-- The moments of the runs of a new pool. -/
def Reachable (cr : Crates) (admits : FakeIpPool → Operation → Prop) (m : Moment) : Prop :=
  ∃ cfg now, Relation.ReflTransGen (Step cr admits) ⟨.new cfg, now⟩ m

/-- The hosts with unexpired forward records have different addresses, and each address leads back
to its host. -/
structure Bijection (m : Moment) : Prop where
  injective : ∀ host host' family entry entry',
    m.pool.liveEntry m.now (host, family) = some entry →
    m.pool.liveEntry m.now (host', family) = some entry' → entry.ip = entry'.ip → host = host'
  lookup : ∀ host family entry, m.pool.liveEntry m.now (host, family) = some entry →
    m.pool.lookup entry.ip m.now = some host

/-! ### When the tables stay together -/

/-- What keeps the tables together: a renewal does not outlive the reverse record of the address, and
a mapping of an address that a host holds is for this host and lasts as long. -/
def Keeps (cr : Crates) (pool : FakeIpPool) : Operation → Prop
  | .alloc host family now later =>
      ∀ entry, pool.liveEntry now (cr.toLowercase host, family) = some entry →
        ∃ record, pool.reverse entry.ip = some record ∧ later + pool.cfg.ttl ≤ record.2
  | .insertMapping ip host ttl now =>
      ∀ holder family entry, pool.liveEntry now (holder, family) = some entry → entry.ip = ip →
        holder = cr.toLowercase host ∧ entry.expire ≤ now + max ttl 1
  | .lookup _ _ | .purgeExpired _ => True

/-- Every unexpired forward record has a reverse record that lasts at least as long. -/
def Paired (m : Moment) : Prop :=
  ∀ key entry, m.pool.liveEntry m.now key = some entry →
    ∃ expire, m.pool.reverse entry.ip = some (key.1, expire) ∧ entry.expire ≤ expire

theorem FakeIpPool.liveEntry_eq_some {pool : FakeIpPool} {now : Instant}
    {key : Str × AddressFamily} {entry : Entry} :
    pool.liveEntry now key = some entry ↔ pool.forward key = some entry ∧ now < entry.expire := by
  rw [liveEntry, Option.filter_eq_some_iff, decide_eq_true_eq]

theorem Paired.bijection {m : Moment} (h : Paired m) : Bijection m where
  injective host host' family entry entry' hentry hentry' hip := by
    obtain ⟨expire, hreverse, -⟩ := h _ _ hentry
    obtain ⟨expire', hreverse', -⟩ := h _ _ hentry'
    rw [hip, hreverse'] at hreverse
    cases hreverse
    rfl
  lookup host family entry hentry := by
    obtain ⟨expire, hreverse, hle⟩ := h _ _ hentry
    have hlive := (FakeIpPool.liveEntry_eq_some.1 hentry).2
    rw [FakeIpPool.lookup, hreverse]
    exact if_pos (hlive.trans_le hle)

theorem Paired.new (cfg : FakeIpConfig) (now : Instant) : Paired ⟨.new cfg, now⟩ := by
  intro key entry hentry
  cases hentry

theorem Paired.tick {pool : FakeIpPool} {now now' : Instant} (h : Paired ⟨pool, now⟩)
    (hnow : now ≤ now') : Paired ⟨pool, now'⟩ := by
  intro key entry hentry
  obtain ⟨hforward, hlive⟩ := FakeIpPool.liveEntry_eq_some.1 hentry
  exact h key entry (FakeIpPool.liveEntry_eq_some.2 ⟨hforward, hnow.trans_lt hlive⟩)

theorem nextV4Loop_acceptable {pool : FakeIpPool} {start stop tries cursor : Nat} :
    ∀ ip ∈ (pool.nextV4Loop start stop tries cursor).1, pool.isAcceptable ip = true := by
  induction tries generalizing cursor with
  | zero => simp [FakeIpPool.nextV4Loop]
  | succ tries ih =>
    rw [FakeIpPool.nextV4Loop]
    generalize (if stop ≤ cursor then saturatingAdd 32 start 1 else cursor) = cursor
    split_ifs with _ hip
    · exact ih
    · rintro _ ⟨⟩
      exact hip
    · exact ih

theorem nextV6Loop_acceptable {pool : FakeIpPool} {start stop tries cursor : Nat} :
    ∀ ip ∈ (pool.nextV6Loop start stop tries cursor).1, pool.isAcceptable ip = true := by
  induction tries generalizing cursor with
  | zero => simp [FakeIpPool.nextV6Loop]
  | succ tries ih =>
    rw [FakeIpPool.nextV6Loop]
    generalize (if stop ≤ cursor then saturatingAdd 128 start 1 else cursor) = cursor
    split_ifs with hip
    · rintro _ ⟨⟩
      exact hip
    · exact ih

theorem allocateNew_spec {pool pool' : FakeIpPool} {family : AddressFamily} {ip : Option IpAddr}
    (h : pool.allocateNew family = (ip, pool')) :
    pool'.cfg = pool.cfg ∧ pool'.forward = pool.forward ∧ pool'.reverse = pool.reverse ∧
      ∀ a ∈ ip, pool.reverse a = none := by
  have hnone : ∀ a, pool.isAcceptable a = true → pool.reverse a = none := by
    intro a ha
    unfold FakeIpPool.isAcceptable at ha
    split_ifs at ha with hsome
    simpa using hsome
  cases family with
  | v4 =>
    simp only [FakeIpPool.allocateNew, FakeIpPool.nextV4Addr, Prod.mk.injEq] at h
    obtain ⟨rfl, rfl⟩ := h
    exact ⟨rfl, rfl, rfl, fun a ha => hnone a (nextV4Loop_acceptable a ha)⟩
  | v6 =>
    simp only [FakeIpPool.allocateNew, FakeIpPool.nextV6Addr, Prod.mk.injEq] at h
    obtain ⟨rfl, rfl⟩ := h
    exact ⟨rfl, rfl, rfl, fun a ha => hnone a (nextV6Loop_acceptable a ha)⟩

section Keep

variable {cr : Crates} {pool : FakeIpPool} {now : Instant}

theorem Paired.record (h : Paired ⟨pool, now⟩) {ip : IpAddr} (hip : pool.reverse ip = none)
    (key : Str × AddressFamily) (expire : Instant) : Paired ⟨pool.record key ip expire, now⟩ := by
  intro key' entry hentry
  obtain ⟨hforward, hlive⟩ := FakeIpPool.liveEntry_eq_some.1 hentry
  by_cases hkey : key' = key
  · subst hkey
    obtain rfl : (⟨ip, expire⟩ : Entry) = entry := by simpa [FakeIpPool.record] using hforward
    exact ⟨expire, by simp [FakeIpPool.record], le_rfl⟩
  · have hforward' : pool.forward key' = some entry := by
      simpa [FakeIpPool.record, hkey] using hforward
    obtain ⟨expire', hreverse, hle⟩ := h _ _ (FakeIpPool.liveEntry_eq_some.2 ⟨hforward', hlive⟩)
    have hne : entry.ip ≠ ip := by
      intro heq
      rw [heq, hip] at hreverse
      cases hreverse
    exact ⟨expire', by simpa [FakeIpPool.record, hne] using hreverse, hle⟩

theorem Paired.renew (h : Paired ⟨pool, now⟩) {key : Str × AddressFamily} {entry : Entry}
    (hentry : pool.liveEntry now key = some entry) {expire : Instant}
    (hle : ∃ record, pool.reverse entry.ip = some record ∧ expire ≤ record.2) :
    Paired ⟨{ pool with forward := Function.update pool.forward key (some ⟨entry.ip, expire⟩) },
      now⟩ := by
  intro key' entry' hentry'
  obtain ⟨hforward, hlive⟩ := FakeIpPool.liveEntry_eq_some.1 hentry'
  by_cases hkey : key' = key
  · subst hkey
    obtain rfl : (⟨entry.ip, expire⟩ : Entry) = entry' := by simpa using hforward
    obtain ⟨expire', hreverse, -⟩ := h _ _ hentry
    obtain ⟨record, hrecord, hle⟩ := hle
    rw [hreverse] at hrecord
    cases hrecord
    exact ⟨expire', hreverse, hle⟩
  · have hforward' : pool.forward key' = some entry' := by simpa [hkey] using hforward
    exact h _ _ (FakeIpPool.liveEntry_eq_some.2 ⟨hforward', hlive⟩)

theorem Paired.alloc (h : Paired ⟨pool, now⟩) {host : Str} {family : AddressFamily} {later : Instant}
    (hlater : now ≤ later) (hkeeps : Keeps cr pool (.alloc host family now later)) :
    Paired ⟨(pool.alloc cr host family now later).2, later⟩ := by
  unfold FakeIpPool.alloc
  split_ifs
  · exact h.tick hlater
  dsimp only
  cases hlive : pool.liveEntry now (cr.toLowercase host, family) with
  | some entry => exact (h.renew hlive (hkeeps entry hlive)).tick hlater
  | none =>
    obtain ⟨⟨ip, pool'⟩, hnew⟩ : ∃ r, pool.allocateNew family = r := ⟨_, rfl⟩
    obtain ⟨hcfg, hforward, hreverse, hip⟩ := allocateNew_spec hnew
    have hpaired : Paired ⟨pool', later⟩ := by
      intro key entry hentry
      have := h.tick hlater key entry (by
        rwa [FakeIpPool.liveEntry_eq_some, hforward, ← FakeIpPool.liveEntry_eq_some] at hentry)
      rwa [← hreverse] at this
    simp only [hnew]
    cases ip with
    | none => exact hpaired
    | some ip => exact hpaired.record (by rw [hreverse]; exact hip ip rfl) _ _

theorem Paired.insertMapping (h : Paired ⟨pool, now⟩) {ip : IpAddr} {host : Str} {ttl : Nat}
    (hkeeps : Keeps cr pool (.insertMapping ip host ttl now)) :
    Paired ⟨pool.insertMapping cr ip host ttl now, now⟩ := by
  intro key entry hentry
  obtain ⟨expire, hreverse, hle⟩ := h key entry hentry
  by_cases hip : entry.ip = ip
  · obtain ⟨hholder, hlasts⟩ := hkeeps key.1 key.2 entry hentry hip
    exact ⟨_, by rw [hip, hholder]; exact Function.update_self .., hlasts⟩
  · exact ⟨expire, (Function.update_of_ne hip ..).trans hreverse, hle⟩

theorem Paired.purgeExpired (h : Paired ⟨pool, now⟩) : Paired ⟨pool.purgeExpired now, now⟩ := by
  intro key entry hentry
  obtain ⟨hforward, hlive⟩ := FakeIpPool.liveEntry_eq_some.1 hentry
  have hforward' : pool.forward key = some entry := (Option.filter_eq_some_iff.1 hforward).1
  obtain ⟨expire, hreverse, hle⟩ := h _ _ (FakeIpPool.liveEntry_eq_some.2 ⟨hforward', hlive⟩)
  refine ⟨expire, Option.filter_eq_some_iff.2 ⟨hreverse, ?_⟩, hle⟩
  exact decide_eq_true (hlive.trans_le hle)

/-- **One step keeps the tables paired.** -/
theorem Paired.step {m m' : Moment} (h : Paired m) (hstep : Step cr (Keeps cr) m m') : Paired m' := by
  cases hstep with
  | tick hnow => exact h.tick hnow
  | @run pool now op hstart hstop hkeeps =>
    have hpaired := h.tick hstart
    cases op with
    | alloc host family now later => exact hpaired.alloc hstop hkeeps
    | lookup ip now => exact hpaired
    | insertMapping ip host ttl now => exact hpaired.insertMapping hkeeps
    | purgeExpired now => exact hpaired.purgeExpired

end Keep

theorem Reachable.paired {cr : Crates} {m : Moment} (h : Reachable cr (Keeps cr) m) : Paired m := by
  obtain ⟨cfg, now, hrun⟩ := h
  induction hrun with
  | refl => exact .new cfg now
  | tail _ hstep ih => exact ih.step hstep

/-- A pool of two addresses whose records last ten minutes. -/
def smallPool : FakeIpConfig where
  v4Cidr := ⟨0xC6120000#32, 30, thirty_le_32⟩
  v6Cidr := ⟨0#128, 64, half_le_128⟩
  ttl := 600
  enableV4 := true
  enableV6 := false
  avoid := []

/-- A moment after an operation. -/
def Moment.after (cr : Crates) (m : Moment) (op : Operation) : Moment := ⟨op.apply cr m.pool, op.stop⟩

theorem Reachable.after {cr : Crates} {admits : FakeIpPool → Operation → Prop} {m : Moment}
    (h : Reachable cr admits m) {op : Operation} (hstart : m.now ≤ op.start)
    (hstop : op.start ≤ op.stop) (hop : admits m.pool op) : Reachable cr admits (m.after cr op) := by
  obtain ⟨cfg, now, hrun⟩ := h
  exact ⟨cfg, now, hrun.tail (.run hstart hstop hop)⟩

theorem Reachable.new {cr : Crates} {admits : FakeIpPool → Operation → Prop} (cfg : FakeIpConfig) :
    Reachable cr admits ⟨.new cfg, 0⟩ := ⟨cfg, 0, .refl⟩

/-- The moment after one allocation. -/
def firstAlloc : Moment := Moment.after .ascii ⟨.new smallPool, 0⟩ (.alloc "a" .v4 0 0)

theorem reachable_firstAlloc : Reachable .ascii (Keeps .ascii) firstAlloc := by
  refine (Reachable.new smallPool).after (Nat.le_refl 0) (Nat.le_refl 0) ?_
  intro entry hentry
  cases hentry

/-- A run in which a host is renewed after five minutes; after the ten minutes of its reverse record,
the expired records are purged and two other hosts are given addresses. -/
def renewalRun : Moment :=
  [Operation.alloc "a" .v4 0 0, .alloc "a" .v4 300 300, .purgeExpired 650, .alloc "b" .v4 650 650,
    .alloc "c" .v4 650 650].foldl (Moment.after .ascii) ⟨.new smallPool, 0⟩

end WutherCore.Resolver
