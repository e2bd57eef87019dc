import WutherCore.Resolver.FakeIp

/-!
# Where the addresses of the fake IP pool lie

The cursor of a family goes round between the first address of the network and the end of the range.
On a network that has addresses in between it stays there (`Placed`), so what `alloc` returns lies
inside; and one round of the IPv4 cursor meets every address.

A range that leaves the network, of one IPv4 address or of less than `2 ^ 32` IPv6 addresses, is not
spoken of.
-/

namespace WutherCore.Resolver

open WutherCore.Text WutherCore.Net WutherCore.Ruleset

/-- `clear`, without the count. -/
def FakeIpPool.clear (pool : FakeIpPool) : FakeIpPool :=
  { pool with forward := fun _ => none, reverse := fun _ => none }

/-- The states of the pools of a configuration. -/
inductive PoolState (cr : Crates) (cfg : FakeIpConfig) : FakeIpPool → Prop
  | new : PoolState cr cfg (.new cfg)
  | apply {pool : FakeIpPool} (h : PoolState cr cfg pool) (op : Operation) :
      PoolState cr cfg (op.apply cr pool)
  | clear {pool : FakeIpPool} (h : PoolState cr cfg pool) : PoolState cr cfg pool.clear

/-- Inside the network, and neither its first nor its last address. -/
def Between {w : Nat} (n : Subnet w) (a : BitVec w) : Prop :=
  n.contains a = true ∧ a ≠ n.network ∧ a ≠ n.broadcast

/-- An address that a pool may give to a host: none that is avoided, and one inside the network, but
not its network or broadcast address. -/
def Allotted (cfg : FakeIpConfig) : AddressFamily → IpAddr → Prop
  | .v4, .v4 a => cfg.avoid.any (·.contains (.v4 a)) = false ∧ (cfg.v4Cidr.len < 32 → Between cfg.v4Cidr a)
  | .v6, .v6 a => cfg.avoid.any (·.contains (.v6 a)) = false ∧
      (cfg.v6Cidr.len ≤ 96 → cfg.v6Cidr.contains a = true ∧ a ≠ cfg.v6Cidr.network ∧
        (cfg.v6Cidr.len < 96 → a ≠ cfg.v6Cidr.broadcast))
  | _, _ => False

/-- The cursors are past the first address of the network, and the hosts have addresses that a pool may
give. -/
structure Placed (cfg : FakeIpConfig) (pool : FakeIpPool) : Prop where
  cfg_eq : pool.cfg = cfg
  v4 : cfg.v4Cidr.len < 32 → cfg.v4Cidr.network.toNat < pool.nextV4
  v4_le : cfg.v4Cidr.len < 31 → pool.nextV4 ≤ cfg.v4Cidr.broadcast.toNat
  v6 : cfg.v6Cidr.len ≤ 96 → cfg.v6Cidr.network.toNat < pool.nextV6
  forward : ∀ key entry, pool.forward key = some entry → Allotted cfg key.2 entry.ip

/-! ### The cursors -/

section Cursor

theorem saturatingAdd_of_lt {w a b : Nat} (h : a + b < 2 ^ w) : saturatingAdd w a b = a + b := by
  unfold saturatingAdd
  omega

variable {pool : FakeIpPool} {start stop tries cursor : Nat}

theorem wrap_between (hstop : start + 1 < stop) (hwidth : stop < 2 ^ 32) (hcursor : start < cursor) :
    start < (if stop ≤ cursor then saturatingAdd 32 start 1 else cursor) ∧
      (if stop ≤ cursor then saturatingAdd 32 start 1 else cursor) < stop := by
  rw [saturatingAdd_of_lt (by omega)]
  split_ifs <;> omega

theorem wrap_offset (hstop : start + 1 < stop) (hwidth : stop < 2 ^ 32) (hcursor : start < cursor)
    (hle : cursor ≤ stop) :
    (if stop ≤ cursor then saturatingAdd 32 start 1 else cursor) =
      start + 1 + (cursor - start - 1) % (stop - start - 1) := by
  rw [saturatingAdd_of_lt (by omega)]
  split_ifs with h
  · have hfull : cursor - start - 1 = stop - start - 1 := by omega
    rw [hfull, Nat.mod_self, Nat.add_zero]
  · rw [Nat.mod_eq_of_lt (by omega)]
    omega

theorem le_saturatingAdd {w a b : Nat} (h : a < 2 ^ w) : a ≤ saturatingAdd w a b := by
  unfold saturatingAdd
  omega

/-- What the IPv4 loop finds lies in the range, and the cursor stays past its first address. -/
theorem nextV4Loop_between (hstop : start < stop) (hbroadcast : stop = pool.cfg.v4Cidr.broadcast.toNat)
    (hcursor : start < cursor) :
    start < (pool.nextV4Loop start stop tries cursor).2 ∧
    ∀ ip ∈ (pool.nextV4Loop start stop tries cursor).1,
      ∃ a : BitVec 32, ip = .v4 a ∧ start < a.toNat ∧ a.toNat < stop := by
  have hwidth : stop < 2 ^ 32 := hbroadcast ▸ pool.cfg.v4Cidr.broadcast.isLt
  induction tries generalizing cursor with
  | zero => exact ⟨hcursor, fun ip hip => by cases hip⟩
  | succ tries ih =>
    obtain ⟨hlo, hhi⟩ : start < (if stop ≤ cursor then saturatingAdd 32 start 1 else cursor) ∧
        (if stop ≤ cursor then saturatingAdd 32 start 1 else cursor) ≤ stop := by
      rw [saturatingAdd_of_lt (by omega)]
      split_ifs <;> omega
    rw [FakeIpPool.nextV4Loop]
    generalize (if stop ≤ cursor then saturatingAdd 32 start 1 else cursor) = cursor at hlo hhi
    have hnext : start < saturatingAdd 32 cursor 1 :=
      hlo.trans_le (le_saturatingAdd (by omega))
    split_ifs with hlast
    · exact ih hnext
    · refine ⟨hnext, fun ip hip => ?_⟩
      cases hip
      rw [beq_iff_eq, ← BitVec.toNat_inj, ← hbroadcast] at hlast
      rw [BitVec.toNat_ofNat, Nat.mod_eq_of_lt (by omega)] at hlast
      refine ⟨_, rfl, ?_⟩
      rw [BitVec.toNat_ofNat, Nat.mod_eq_of_lt (by omega)]
      omega
    · exact ih hnext

theorem nextV4Loop_le (hstop : start + 1 < stop) (hwidth : stop < 2 ^ 32) (hcursor : start < cursor)
    (hle : cursor ≤ stop) : (pool.nextV4Loop start stop tries cursor).2 ≤ stop := by
  induction tries generalizing cursor with
  | zero => exact hle
  | succ tries ih =>
    obtain ⟨hlo, hhi⟩ := wrap_between hstop hwidth hcursor
    rw [FakeIpPool.nextV4Loop]
    generalize (if stop ≤ cursor then saturatingAdd 32 start 1 else cursor) = cursor at hlo hhi
    have hnext : saturatingAdd 32 cursor 1 = cursor + 1 := saturatingAdd_of_lt (by omega)
    simp only [hnext]
    split_ifs
    · exact ih (by omega) (by omega)
    · exact hhi
    · exact ih (by omega) (by omega)

/-- A loop that finds nothing has met no acceptable address. -/
theorem nextV4Loop_none (hstop : start + 1 < stop) (hwidth : stop < 2 ^ 32) (hcursor : start < cursor)
    (hle : cursor ≤ stop) (hbroadcast : stop = pool.cfg.v4Cidr.broadcast.toNat)
    (h : (pool.nextV4Loop start stop tries cursor).1 = none) (j : Nat) (hj : j < tries) :
    pool.isAcceptable (.v4 (BitVec.ofNat 32 (start + 1 + (cursor - start - 1 + j) % (stop - start - 1)))) =
      false := by
  induction tries generalizing cursor j with
  | zero => omega
  | succ tries ih =>
    have hoffset := wrap_offset hstop hwidth hcursor hle
    obtain ⟨hlo, hhi⟩ := wrap_between hstop hwidth hcursor
    have hN : 0 < stop - start - 1 := by omega
    generalize hplace : (cursor - start - 1) % (stop - start - 1) = place at hoffset
    rw [FakeIpPool.nextV4Loop] at h
    rw [hoffset] at hlo hhi h
    have hnext : saturatingAdd 32 (start + 1 + place) 1 = start + 1 + place + 1 :=
      saturatingAdd_of_lt (by omega)
    have hne : (BitVec.ofNat 32 (start + 1 + place) == pool.cfg.v4Cidr.broadcast) = false := by
      rw [beq_eq_false_iff_ne, Ne, ← BitVec.toNat_inj, BitVec.toNat_ofNat, Nat.mod_eq_of_lt (by omega),
        ← hbroadcast]
      omega
    simp only [hnext, hne, Bool.false_eq_true, ↓reduceIte] at h
    split_ifs at h with hacceptable
    cases j with
    | zero =>
      have hzero : cursor - start - 1 + 0 = cursor - start - 1 := rfl
      rw [hzero, hplace]
      exact Bool.eq_false_iff.2 hacceptable
    | succ j =>
      have hrest := ih (by omega) (by omega) h j (by omega)
      have hshift : start + 1 + place + 1 - start - 1 + j = place + (j + 1) := by omega
      rw [hshift, ← hplace, Nat.mod_add_mod] at hrest
      exact hrest

theorem nextV4Loop_exhausted (hstop : start + 1 < stop) (hwidth : stop < 2 ^ 32) (hcursor : start < cursor)
    (hle : cursor ≤ stop) (hbroadcast : stop = pool.cfg.v4Cidr.broadcast.toNat)
    (htries : stop - start - 1 ≤ tries) (h : (pool.nextV4Loop start stop tries cursor).1 = none)
    {a : BitVec 32} (hlo : start < a.toNat) (hhi : a.toNat < stop) :
    pool.isAcceptable (.v4 a) = false := by
  have hN : 0 < stop - start - 1 := by omega
  generalize hplace : (cursor - start - 1) % (stop - start - 1) = place
  have hplaceLt : place < stop - start - 1 := hplace ▸ Nat.mod_lt _ hN
  -- the number of turns from the place of the cursor to the address
  obtain ⟨j, hj, hmod⟩ : ∃ j < stop - start - 1, (place + j) % (stop - start - 1) = a.toNat - start - 1 := by
    rcases Nat.lt_or_ge (a.toNat - start - 1) place with hbefore | hafter
    · refine ⟨a.toNat - start - 1 + (stop - start - 1) - place, by omega, ?_⟩
      have hsum : place + (a.toNat - start - 1 + (stop - start - 1) - place) =
          a.toNat - start - 1 + (stop - start - 1) := by omega
      rw [hsum, Nat.add_mod_right, Nat.mod_eq_of_lt (by omega)]
    · refine ⟨a.toNat - start - 1 - place, by omega, ?_⟩
      rw [Nat.add_sub_cancel' hafter, Nat.mod_eq_of_lt (by omega)]
  have hmet := nextV4Loop_none hstop hwidth hcursor hle hbroadcast h j (by omega)
  rw [← Nat.mod_add_mod, hplace, hmod] at hmet
  have ha : start + 1 + (a.toNat - start - 1) = a.toNat := by omega
  rwa [ha, BitVec.ofNat_toNat, BitVec.setWidth_eq] at hmet

theorem nextV4Loop_v4 : ∀ ip ∈ (pool.nextV4Loop start stop tries cursor).1, ∃ a, ip = .v4 a := by
  induction tries generalizing cursor with
  | zero => exact fun ip hip => by cases hip
  | succ tries ih =>
    rw [FakeIpPool.nextV4Loop]
    generalize (if stop ≤ cursor then saturatingAdd 32 start 1 else cursor) = cursor
    split_ifs
    · exact ih
    · exact fun ip hip => ⟨_, (Option.some.inj hip).symm⟩
    · exact ih

theorem nextV6Loop_v6 : ∀ ip ∈ (pool.nextV6Loop start stop tries cursor).1, ∃ a, ip = .v6 a := by
  induction tries generalizing cursor with
  | zero => exact fun ip hip => by cases hip
  | succ tries ih =>
    rw [FakeIpPool.nextV6Loop]
    generalize (if stop ≤ cursor then saturatingAdd 128 start 1 else cursor) = cursor
    split_ifs
    · exact fun ip hip => ⟨_, (Option.some.inj hip).symm⟩
    · exact ih

theorem nextV6Loop_between (hstop : start + 1 < stop) (hwidth : stop < 2 ^ 128) (hcursor : start < cursor) :
    start < (pool.nextV6Loop start stop tries cursor).2 ∧
    ∀ ip ∈ (pool.nextV6Loop start stop tries cursor).1,
      ∃ a : BitVec 128, ip = .v6 a ∧ start < a.toNat ∧ a.toNat < stop := by
  induction tries generalizing cursor with
  | zero => exact ⟨hcursor, fun ip hip => by cases hip⟩
  | succ tries ih =>
    obtain ⟨hlo, hhi⟩ : start < (if stop ≤ cursor then saturatingAdd 128 start 1 else cursor) ∧
        (if stop ≤ cursor then saturatingAdd 128 start 1 else cursor) < stop := by
      rw [saturatingAdd_of_lt (by omega)]
      split_ifs <;> omega
    rw [FakeIpPool.nextV6Loop]
    generalize (if stop ≤ cursor then saturatingAdd 128 start 1 else cursor) = cursor at hlo hhi
    have hnext : saturatingAdd 128 cursor 1 = cursor + 1 := saturatingAdd_of_lt (by omega)
    simp only [hnext]
    split_ifs
    · refine ⟨by dsimp only; omega, fun ip hip => ?_⟩
      cases hip
      refine ⟨_, rfl, ?_⟩
      rw [BitVec.toNat_ofNat, Nat.mod_eq_of_lt (by omega)]
      exact ⟨hlo, hhi⟩
    · exact ih (by omega)

end Cursor

/-! ### The range of a network -/

section Network

variable {cfg : FakeIpConfig} {pool : FakeIpPool}

theorem network_lt_broadcast {w : Nat} {n : Subnet w} (h : n.len < w) :
    n.network.toNat < n.broadcast.toNat := by
  have hsize : 2 ≤ n.size := by
    have hpow : 2 ^ 1 ≤ 2 ^ (w - n.len) := Nat.pow_le_pow_right (by decide) (by omega)
    exact hpow
  rw [Subnet.toNat_network, Subnet.toNat_broadcast]
  omega

theorem between_iff {w : Nat} {n : Subnet w} {a : BitVec w} :
    Between n a ↔ n.network.toNat < a.toNat ∧ a.toNat < n.broadcast.toNat := by
  unfold Between
  rw [Subnet.contains, Bool.and_eq_true, decide_eq_true_iff, decide_eq_true_iff, BitVec.le_def,
    BitVec.le_def, Ne, Ne, ← BitVec.toNat_inj, ← BitVec.toNat_inj]
  omega

theorem isAcceptable_iff {ip : IpAddr} :
    pool.isAcceptable ip = true ↔
      pool.reverse ip = none ∧ pool.cfg.avoid.any (·.contains ip) = false := by
  unfold FakeIpPool.isAcceptable
  cases pool.reverse ip <;> simp

theorem v6_stop {n : Subnet 128} (h : n.len ≤ 96) :
    n.network.toNat + 1 < saturatingAdd 128 n.network.toNat (2 ^ 32) ∧
      saturatingAdd 128 n.network.toNat (2 ^ 32) ≤ n.broadcast.toNat + 1 ∧
      saturatingAdd 128 n.network.toNat (2 ^ 32) < 2 ^ 128 ∧
      (n.len < 96 → saturatingAdd 128 n.network.toNat (2 ^ 32) ≤ n.broadcast.toNat) := by
  have hsize : 2 ^ 32 ≤ n.size := Nat.pow_le_pow_right (by decide) (by omega)
  have hend := n.block_end_le
  have hlonger : n.len < 96 → 2 ^ 33 ≤ n.size := fun hlt =>
    Nat.pow_le_pow_right (by decide) (by omega)
  rw [Subnet.toNat_network, Subnet.toNat_broadcast]
  unfold saturatingAdd
  refine ⟨by omega, by omega, by omega, fun hlt => ?_⟩
  have := hlonger hlt
  omega

/-- What an allocation finds may be given to a host, and the cursors stay in place. -/
theorem Placed.allocateNew (h : Placed cfg pool) {family : AddressFamily} {ip : Option IpAddr}
    {pool' : FakeIpPool} (hnew : pool.allocateNew family = (ip, pool')) :
    Placed cfg pool' ∧ ∀ a ∈ ip, Allotted cfg family a := by
  obtain ⟨hcfg, hforward, -, -⟩ := allocateNew_spec hnew
  have havoid (a : IpAddr) (ha : pool.isAcceptable a = true) :
      cfg.avoid.any (·.contains a) = false := by
    rw [← h.cfg_eq]
    exact (isAcceptable_iff.1 ha).2
  have hforward' : ∀ key entry, pool'.forward key = some entry → Allotted cfg key.2 entry.ip := by
    rw [hforward]
    exact h.forward
  cases family with
  | v4 =>
    simp only [FakeIpPool.allocateNew, FakeIpPool.nextV4Addr, Prod.mk.injEq, h.cfg_eq] at hnew
    obtain ⟨rfl, rfl⟩ := hnew
    have hbroadcast : cfg.v4Cidr.broadcast.toNat = pool.cfg.v4Cidr.broadcast.toNat := by
      rw [h.cfg_eq]
    refine ⟨⟨rfl, fun hlen => ?_, fun hlen => ?_, h.v6, hforward'⟩, fun ip hip => ?_⟩
    · exact (nextV4Loop_between (network_lt_broadcast hlen) hbroadcast (h.v4 hlen)).1
    · have hroom : cfg.v4Cidr.network.toNat + 1 < cfg.v4Cidr.broadcast.toNat := by
        have hpow : 2 ^ 2 ≤ cfg.v4Cidr.size := Nat.pow_le_pow_right (by decide) (by omega)
        rw [Subnet.toNat_network, Subnet.toNat_broadcast]
        omega
      exact nextV4Loop_le hroom cfg.v4Cidr.broadcast.isLt (h.v4 (by omega)) (h.v4_le hlen)
    · obtain ⟨a, rfl⟩ := nextV4Loop_v4 ip hip
      refine ⟨havoid _ (nextV4Loop_acceptable _ hip), fun hlen => between_iff.2 ?_⟩
      obtain ⟨b, hb, hlo, hhi⟩ :=
        (nextV4Loop_between (network_lt_broadcast hlen) hbroadcast (h.v4 hlen)).2 _ hip
      cases hb
      exact ⟨hlo, hhi⟩
  | v6 =>
    simp only [FakeIpPool.allocateNew, FakeIpPool.nextV6Addr, Prod.mk.injEq, h.cfg_eq] at hnew
    obtain ⟨rfl, rfl⟩ := hnew
    refine ⟨⟨rfl, h.v4, h.v4_le, fun hlen => ?_, hforward'⟩, fun ip hip => ?_⟩
    · obtain ⟨hroom, -, hwidth, -⟩ := v6_stop hlen
      exact (nextV6Loop_between hroom hwidth (h.v6 hlen)).1
    · obtain ⟨a, rfl⟩ := nextV6Loop_v6 ip hip
      refine ⟨havoid _ (nextV6Loop_acceptable _ hip), fun hlen => ?_⟩
      obtain ⟨hroom, hinside, hwidth, hlast⟩ := v6_stop hlen
      obtain ⟨b, hb, hlo, hhi⟩ := (nextV6Loop_between hroom hwidth (h.v6 hlen)).2 _ hip
      cases hb
      rw [Subnet.contains, Bool.and_eq_true, decide_eq_true_iff, decide_eq_true_iff, BitVec.le_def,
        BitVec.le_def, Ne, Ne, ← BitVec.toNat_inj, ← BitVec.toNat_inj]
      refine ⟨⟨by omega, by omega⟩, by omega, fun hlt => ?_⟩
      have := hlast hlt
      omega

theorem Placed.new (cfg : FakeIpConfig) : Placed cfg (.new cfg) := by
  refine ⟨rfl, fun hlen => ?_, fun hlen => ?_, fun hlen => ?_, fun key entry hentry => by cases hentry⟩
  · have hlt := network_lt_broadcast hlen
    have := cfg.v4Cidr.broadcast.isLt
    rw [FakeIpPool.new, saturatingAdd_of_lt (by omega)]
    exact Nat.lt_succ_self _
  · have hlt := network_lt_broadcast (n := cfg.v4Cidr) (by omega)
    have := cfg.v4Cidr.broadcast.isLt
    rw [FakeIpPool.new, saturatingAdd_of_lt (by omega)]
    exact hlt
  · have hlt := network_lt_broadcast (n := cfg.v6Cidr) (by omega)
    have := cfg.v6Cidr.broadcast.isLt
    show _ < saturatingAdd 128 cfg.v6Cidr.network.toNat 1
    rw [saturatingAdd_of_lt (by omega)]
    exact Nat.lt_succ_self _

theorem Placed.update (h : Placed cfg pool) {key : Str × AddressFamily} {ip : IpAddr}
    (hip : Allotted cfg key.2 ip) (expire : Instant)
    (reverse : IpAddr → Option (Str × Instant)) :
    Placed cfg { pool with
      forward := Function.update pool.forward key (some ⟨ip, expire⟩), reverse := reverse } := by
  refine ⟨h.cfg_eq, h.v4, h.v4_le, h.v6, fun key' entry hentry => ?_⟩
  change Function.update pool.forward key (some ⟨ip, expire⟩) key' = some entry at hentry
  by_cases hkey : key' = key
  · subst hkey
    rw [Function.update_self] at hentry
    cases hentry
    exact hip
  · rw [Function.update_of_ne hkey] at hentry
    exact h.forward key' entry hentry

theorem Placed.alloc (h : Placed cfg pool) {cr : Crates} {host : Str} {family : AddressFamily}
    {now later : Instant} :
    Placed cfg (pool.alloc cr host family now later).2 ∧
      ∀ ip ∈ (pool.alloc cr host family now later).1, Allotted cfg family ip := by
  unfold FakeIpPool.alloc
  split_ifs
  · exact ⟨h, fun ip hip => by cases hip⟩
  dsimp only
  cases hlive : pool.liveEntry now (cr.toLowercase host, family) with
  | some entry =>
    have hentry := h.forward _ _ (FakeIpPool.liveEntry_eq_some.1 hlive).1
    refine ⟨h.update hentry _ _, fun ip hip => ?_⟩
    cases hip
    exact hentry
  | none =>
    obtain ⟨⟨ip, pool'⟩, hnew⟩ : ∃ r, pool.allocateNew family = r := ⟨_, rfl⟩
    obtain ⟨hplaced, hip⟩ := h.allocateNew hnew
    simp only [hnew]
    cases ip with
    | none => exact ⟨hplaced, fun ip hip => by cases hip⟩
    | some ip =>
      have hkey : Allotted cfg (cr.toLowercase host, family).2 ip := hip ip rfl
      refine ⟨hplaced.update hkey _ _, fun ip' hip' => ?_⟩
      cases hip'
      exact hip ip rfl

theorem PoolState.placed {cr : Crates} (h : PoolState cr cfg pool) : Placed cfg pool := by
  induction h with
  | new => exact .new cfg
  | apply _ op ih =>
    cases op with
    | alloc host family now later => exact ih.alloc.1
    | lookup => exact ih
    | insertMapping => exact ⟨ih.cfg_eq, ih.v4, ih.v4_le, ih.v6, ih.forward⟩
    | purgeExpired now =>
      refine ⟨ih.cfg_eq, ih.v4, ih.v4_le, ih.v6, fun key entry hentry => ?_⟩
      exact ih.forward key entry (Option.filter_eq_some_iff.1 hentry).1
  | clear _ ih => exact ⟨ih.cfg_eq, ih.v4, ih.v4_le, ih.v6, fun _ _ hentry => by cases hentry⟩

theorem Placed.exhausted (h : Placed cfg pool) {pool' : FakeIpPool}
    (hnew : pool.allocateNew .v4 = (none, pool')) {a : BitVec 32} (ha : Between cfg.v4Cidr a)
    (havoid : cfg.avoid.any (·.contains (.v4 a)) = false) : (pool.reverse (.v4 a)).isSome = true := by
  obtain ⟨hlo, hhi⟩ := between_iff.1 ha
  have hlen : cfg.v4Cidr.len < 31 := by
    by_contra hge
    have hpow : cfg.v4Cidr.size ≤ 2 ^ 1 := Nat.pow_le_pow_right (by decide) (by omega)
    rw [Subnet.toNat_network] at hlo
    rw [Subnet.toNat_broadcast] at hhi
    omega
  simp only [FakeIpPool.allocateNew, FakeIpPool.nextV4Addr, Prod.mk.injEq, h.cfg_eq] at hnew
  have hnone := nextV4Loop_exhausted (by omega) cfg.v4Cidr.broadcast.isLt (h.v4 (by omega)) (h.v4_le hlen)
    (by rw [h.cfg_eq]) (by omega) hnew.1 hlo hhi
  by_contra hfree
  have : pool.isAcceptable (.v4 a) = true :=
    isAcceptable_iff.2 ⟨by simpa using hfree, by rw [h.cfg_eq]; exact havoid⟩
  rw [hnone] at this
  cases this

end Network

/-! ### Allocation -/

/-- An allocation gives the address of the unexpired record of the host, or one without a reverse
record. -/
theorem alloc_cases {cr : Crates} {pool pool' : FakeIpPool} {host : Str} {family : AddressFamily}
    {now later : Instant} {ip : IpAddr}
    (h : pool.alloc cr host family now later = (some ip, pool')) :
    (∃ entry, pool.liveEntry now (cr.toLowercase host, family) = some entry ∧ entry.ip = ip) ∨
      pool.reverse ip = none := by
  unfold FakeIpPool.alloc at h
  split_ifs at h
  · cases h
  dsimp only at h
  cases hlive : pool.liveEntry now (cr.toLowercase host, family) with
  | some entry =>
    rw [hlive] at h
    cases h
    exact .inl ⟨entry, rfl, rfl⟩
  | none =>
    obtain ⟨⟨found, pool'⟩, hnew⟩ : ∃ r, pool.allocateNew family = r := ⟨_, rfl⟩
    rw [hlive] at h
    simp only [hnew] at h
    cases found with
    | none => cases h
    | some found =>
      have hfree := (allocateNew_spec hnew).2.2.2 found rfl
      cases h
      exact .inr hfree

theorem Paired.alloc_other {cr : Crates} {pool pool' : FakeIpPool} {host : Str} {family : AddressFamily}
    {now later : Instant} {ip : IpAddr} (hpaired : Paired ⟨pool, now⟩)
    (h : pool.alloc cr host family now later = (some ip, pool')) {other : Str} {family' : AddressFamily}
    {entry : Entry} (hother : pool.liveEntry now (other, family') = some entry)
    (hip : entry.ip = ip) : other = cr.toLowercase host := by
  have hreverse : ∃ expire, pool.reverse ip = some (other, expire) := by
    obtain ⟨expire, hreverse, -⟩ := hpaired _ _ hother
    exact ⟨expire, hip ▸ hreverse⟩
  obtain ⟨expire, hreverse⟩ := hreverse
  rcases alloc_cases h with ⟨mine, hmine, hip'⟩ | hnone
  · obtain ⟨expire', hreverse', -⟩ := hpaired _ _ hmine
    have hsame : pool.reverse ip = some (cr.toLowercase host, expire') := hip' ▸ hreverse'
    rw [hsame] at hreverse
    cases hreverse
    rfl
  · rw [hnone] at hreverse
    cases hreverse

/-- **What `alloc` returns.**  An address that is not avoided and lies inside the network: that of the
host's unexpired record, or one without a reverse record; none of another host, if every renewal has
ended before its reverse record and no mapping has hidden a host.  And no IPv4 address is returned only
when the family is off, or each address that could be has a reverse record. -/
theorem alloc_allotted (cr : Crates) (cfg : FakeIpConfig) :
    (∀ pool, PoolState cr cfg pool → ∀ host family now later,
      (∀ ip pool', pool.alloc cr host family now later = (some ip, pool') →
        Allotted cfg family ip ∧
          ((∃ entry, pool.liveEntry now (cr.toLowercase host, family) = some entry ∧ entry.ip = ip) ∨
            pool.reverse ip = none)) ∧
      (∀ pool', pool.alloc cr host .v4 now later = (none, pool') → cfg.enableV4 = false ∨
        ∀ a, Between cfg.v4Cidr a → cfg.avoid.any (·.contains (.v4 a)) = false →
          (pool.reverse (.v4 a)).isSome = true)) ∧
    ∀ m, Reachable cr (Keeps cr) m → ∀ host family now later, m.now ≤ now →
      ∀ ip pool', m.pool.alloc cr host family now later = (some ip, pool') →
        ∀ other family' entry, m.pool.liveEntry now (other, family') = some entry → entry.ip = ip →
          other = cr.toLowercase host := by
  refine ⟨fun pool hpool host family now later => ⟨fun ip pool' h => ?_, fun pool' h => ?_⟩, ?_⟩
  · have hip := hpool.placed.alloc.2 ip (by rw [h]; rfl)
    exact ⟨hip, alloc_cases h⟩
  · by_cases hoff : cfg.enableV4 = false
    · exact .inl hoff
    refine .inr fun a ha havoid => ?_
    unfold FakeIpPool.alloc at h
    have hon : (!pool.enabledFor .v4) = false := by
      rw [FakeIpPool.enabledFor, hpool.placed.cfg_eq]
      simpa using hoff
    rw [hon, if_neg Bool.false_ne_true] at h
    dsimp only at h
    cases hlive : pool.liveEntry now (cr.toLowercase host, .v4) with
    | some entry =>
      rw [hlive] at h
      cases h
    | none =>
      obtain ⟨⟨found, pool'⟩, hnew⟩ : ∃ r, pool.allocateNew .v4 = r := ⟨_, rfl⟩
      rw [hlive] at h
      simp only [hnew] at h
      cases found with
      | none => exact hpool.placed.exhausted hnew ha havoid
      | some found => cases h
  · intro m hm host family now later hnow ip pool' h other family' entry hother hip
    exact (hm.paired.tick hnow).alloc_other h hother hip

/-- Two hosts have got the two addresses of the pool, for ten minutes. -/
def expiredPool : FakeIpPool :=
  [Operation.alloc "a" .v4 0 0, .alloc "b" .v4 0 0].foldl (Operation.apply .ascii) (.new smallPool)

theorem expiredPool_state : PoolState .ascii smallPool expiredPool :=
  (PoolState.new.apply (.alloc "a" .v4 0 0)).apply (.alloc "b" .v4 0 0)

theorem alloc_allotted_small :
    (Allotted smallPool .v4 (.v4 0xC6120001#32) ∧
      (smallPool.enableV4 = false ∨ (expiredPool.reverse (.v4 0xC6120002#32)).isSome = true)) ∧
    Crates.ascii.toLowercase "a" = "a".toList := by
  obtain ⟨hstates, hruns⟩ := alloc_allotted .ascii smallPool
  have hfirst := (hstates _ .new "a".toList .v4 0 0).1 (.v4 0xC6120001#32) _ rfl
  have hsecond := (hstates _ expiredPool_state "c".toList .v4 700 700).2 _ rfl
  have hthird := hruns firstAlloc reachable_firstAlloc "a".toList .v4 0 0 (Nat.le_refl 0)
    (.v4 0xC6120001#32) _ rfl "a".toList .v4 ⟨.v4 0xC6120001#32, 600⟩ rfl rfl
  refine ⟨⟨hfirst.1, hsecond.imp_right fun h => h _ ?_ rfl⟩, hthird.symm⟩
  exact ⟨by decide, by decide, by decide⟩

/-- A pool of one address. -/
def singlePool : FakeIpConfig := { smallPool with v4Cidr := ⟨0xC6120000#32, 32, by decide⟩ }

/-- Without an unexpired record in the pool, its addresses are not given to another host; and the only
address that a pool of one address gives lies outside. -/
theorem not_allotted :
    (PoolState .ascii smallPool expiredPool ∧
      (∀ host family, expiredPool.liveEntry 700 (host, family) = none) ∧
      Between smallPool.v4Cidr 0xC6120001#32 ∧ smallPool.enableV4 = true ∧
      (expiredPool.alloc .ascii "c" .v4 700 700).1 = none) ∧
    PoolState .ascii singlePool (.new singlePool) ∧
      ((FakeIpPool.new singlePool).alloc .ascii "a" .v4 0 0).1 = some (.v4 0xC6120001#32) ∧
      singlePool.v4Cidr.contains 0xC6120001#32 = false := by
  have hforward : expiredPool.forward = Function.update (Function.update (fun _ => none)
      ("a".toList, .v4) (some ⟨.v4 0xC6120001#32, 600⟩)) ("b".toList, .v4)
      (some ⟨.v4 0xC6120002#32, 600⟩) := rfl
  refine ⟨⟨expiredPool_state, fun host family => ?_, ?_, rfl, rfl⟩, .new, rfl, by decide⟩
  · unfold FakeIpPool.liveEntry
    rw [hforward, Function.update_apply, Function.update_apply]
    split_ifs <;> rfl
  · exact ⟨by decide, by decide, by decide⟩

end WutherCore.Resolver
