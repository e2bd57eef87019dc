import Mathlib
import WutherCore.Mesh.Model

/-!
# Conflict detection

`detectConflicts` sorts the claims, compares each two of different owners, and sorts what it finds.
Two claims conflict when their resources overlap (`overlappingKind`) and their modes do not let them
share (`claimIncompatibility`).

What the case analysis over pairs of resources is for is said by `Overlap`: two prefixes share an
address, two mark ranges a mark, two listeners a local address they both accept, a manager meets what
it manages.  `overlappingKind_isSome_iff` connects the two.
-/

namespace WutherCore.Mesh

open WutherCore.Text WutherCore.Net WutherCore.Data Keyed

/-- `SingletonResource`. -/
inductive SingletonResource
  | routeManager
  | defaultRouteV4
  | defaultRouteV6
  | dnsManager
  | firewallManager
  | hostsDatabase
  | interfaceManager
  deriving DecidableEq

/-- `RouteManagedResource`. -/
inductive RouteManagedResource
  | defaultRouteV4
  | defaultRouteV6
  | routePrefix (table : Option UInt32) (net : IpNet)
  | routeTable (table : UInt32)
  deriving DecidableEq

/-- `ResourceConflictKind`. -/
inductive ResourceConflictKind
  | singleton (resource : SingletonResource)
  | routeManager (managedResource : RouteManagedResource)
  | firewallManager (range : FwmarkRange)
  | interfaceManager (name : Str)
  | interface (name : Str)
  | listenSocket (transport : SocketTransport) (left right : SocketAddr)
  | addressPrefix (left right : IpNet)
  | addressRoutePrefix (address : IpNet) (routeTable : Option UInt32) (route : IpNet)
  | defaultRoutePrefix (family : SingletonResource) (routeTable : Option UInt32) (route : IpNet)
  | routePrefix (leftTable rightTable : Option UInt32) (left right : IpNet)
  | routeTablePrefix (table : UInt32) (route : IpNet)
  | routeTable (table : UInt32)
  | fwmarkRange (left right : FwmarkRange)
  deriving DecidableEq

/-- `ClaimIncompatibility`. -/
inductive ClaimIncompatibility
  | exclusive
  | missingCoordinationKey
  | coordinationKeyMismatch
  deriving DecidableEq

/-- `ResourceConflict`. -/
structure ResourceConflict where
  kind : ResourceConflictKind
  incompatibility : ClaimIncompatibility
  left : OwnedResourceClaim
  right : OwnedResourceClaim

instance : Keyed SingletonResource where
  key
    | .routeManager => [0]
    | .defaultRouteV4 => [1]
    | .defaultRouteV6 => [2]
    | .dnsManager => [3]
    | .firewallManager => [4]
    | .hostsDatabase => [5]
    | .interfaceManager => [6]
  key_append_iff {a b s t} := by cases a <;> cases b <;> simp

instance : Keyed RouteManagedResource where
  key
    | .defaultRouteV4 => [0]
    | .defaultRouteV6 => [1]
    | .routePrefix table net => 2 :: (key table ++ key net)
    | .routeTable table => 3 :: key table
  key_append_iff {a b s t} := by cases a <;> cases b <;> simp [and_assoc]

instance : Keyed ResourceConflictKind where
  key
    | .singleton resource => 0 :: key resource
    | .routeManager managedResource => 1 :: key managedResource
    | .firewallManager range => 2 :: key range
    | .interfaceManager name => 3 :: key name
    | .interface name => 4 :: key name
    | .listenSocket transport left right => 5 :: (key transport ++ (key left ++ key right))
    | .addressPrefix left right => 6 :: (key left ++ key right)
    | .addressRoutePrefix address routeTable route =>
      7 :: (key address ++ (key routeTable ++ key route))
    | .defaultRoutePrefix family routeTable route =>
      8 :: (key family ++ (key routeTable ++ key route))
    | .routePrefix leftTable rightTable left right =>
      9 :: (key leftTable ++ (key rightTable ++ (key left ++ key right)))
    | .routeTablePrefix table route => 10 :: (key table ++ key route)
    | .routeTable table => 11 :: key table
    | .fwmarkRange left right => 12 :: (key left ++ key right)
  key_append_iff {a b s t} := by cases a <;> cases b <;> simp [and_assoc]

instance : Keyed ClaimIncompatibility where
  key
    | .exclusive => [0]
    | .missingCoordinationKey => [1]
    | .coordinationKeyMismatch => [2]
  key_append_iff {a b s t} := by cases a <;> cases b <;> simp

instance : Keyed ResourceConflict where
  key c := key c.kind ++ (key c.incompatibility ++ (key c.left ++ key c.right))
  key_append_iff {a b s t} := by
    cases a
    cases b
    simp [and_assoc]

/-- The derived order of conflicts: the kind first. -/
instance : LinearOrder ResourceConflict := Keyed.linearOrder

/-! ### The comparison of two claims -/

/-- `normalized_listener_ip`: an IPv4-mapped address is the address it maps. -/
def normalizedListenerIp : IpAddr → IpAddr
  | .v6 a => (toIpv4Mapped a).elim (.v6 a) .v4
  | .v4 a => .v4 a

/-- `listeners_overlap`. -/
def listenersOverlap (left right : SocketAddr) : Bool :=
  if left.port ≠ right.port then
    false
  else
    let left := normalizedListenerIp left.ip
    let right := normalizedListenerIp right.ip
    if left.isIpv4 = right.isIpv4 then
      left == right || left.isUnspecified || right.isUnspecified
    else
      (!left.isIpv4 && left.isUnspecified) || (!right.isIpv4 && right.isUnspecified)

/-- `route_tables_overlap`. -/
def routeTablesOverlap (left right : Option UInt32) : Bool :=
  left == right || left.isNone || right.isNone

/-- `prefixes_overlap`. -/
def prefixesOverlap : IpNet → IpNet → Bool
  | .v4 left, .v4 right => left.contains right.network || right.contains left.network
  | .v6 left, .v6 right => left.contains right.network || right.contains left.network
  | _, _ => false

/-- `overlapping_kind`. -/
def overlappingKind : SystemResource → SystemResource → Option ResourceConflictKind
  | .routeManager, .routeManager => some (.singleton .routeManager)
  | .routeManager, .defaultRouteV4 | .defaultRouteV4, .routeManager =>
    some (.routeManager .defaultRouteV4)
  | .routeManager, .defaultRouteV6 | .defaultRouteV6, .routeManager =>
    some (.routeManager .defaultRouteV6)
  | .routeManager, .routePrefix table net | .routePrefix table net, .routeManager =>
    some (.routeManager (.routePrefix table net))
  | .routeManager, .routeTable table | .routeTable table, .routeManager =>
    some (.routeManager (.routeTable table))
  | .defaultRouteV4, .defaultRouteV4 => some (.singleton .defaultRouteV4)
  | .defaultRouteV6, .defaultRouteV6 => some (.singleton .defaultRouteV6)
  | .defaultRouteV4, .routePrefix table net | .routePrefix table net, .defaultRouteV4 =>
    if net.addr.isIpv4 && net.len == 0 then
      some (.defaultRoutePrefix .defaultRouteV4 table net)
    else
      none
  | .defaultRouteV6, .routePrefix table net | .routePrefix table net, .defaultRouteV6 =>
    if !net.addr.isIpv4 && net.len == 0 then
      some (.defaultRoutePrefix .defaultRouteV6 table net)
    else
      none
  | .dnsManager, .dnsManager => some (.singleton .dnsManager)
  | .firewallManager, .firewallManager => some (.singleton .firewallManager)
  | .firewallManager, .fwmarkRange range | .fwmarkRange range, .firewallManager =>
    some (.firewallManager range)
  | .hostsDatabase, .hostsDatabase => some (.singleton .hostsDatabase)
  | .interfaceManager, .interfaceManager => some (.singleton .interfaceManager)
  | .interfaceManager, .interface name | .interface name, .interfaceManager =>
    some (.interfaceManager name)
  | .interface left, .interface right => if left = right then some (.interface left) else none
  | .listenSocket leftTransport left, .listenSocket rightTransport right =>
    if leftTransport = rightTransport ∧ listenersOverlap left right then
      some (.listenSocket leftTransport left right)
    else
      none
  | .addressPrefix left, .addressPrefix right =>
    if prefixesOverlap left right then some (.addressPrefix left right) else none
  | .addressPrefix address, .routePrefix table route
  | .routePrefix table route, .addressPrefix address =>
    if prefixesOverlap address route then some (.addressRoutePrefix address table route) else none
  | .routePrefix leftTable left, .routePrefix rightTable right =>
    if routeTablesOverlap leftTable rightTable && prefixesOverlap left right then
      some (.routePrefix leftTable rightTable left right)
    else
      none
  | .routeTable left, .routeTable right => if left = right then some (.routeTable left) else none
  | .routeTable table, .routePrefix routeTable net
  | .routePrefix routeTable net, .routeTable table =>
    if routeTable.isNone || routeTable == some table then
      some (.routeTablePrefix table net)
    else
      none
  | .fwmarkRange left, .fwmarkRange right =>
    if left.overlaps right then some (.fwmarkRange left right) else none
  | _, _ => none

/-- `claim_incompatibility`. -/
def claimIncompatibility : ClaimMode → ClaimMode → Option ClaimIncompatibility
  | .coordinatedShared left, .coordinatedShared right =>
    let left := trim left
    let right := trim right
    if left.isEmpty || right.isEmpty then
      some .missingCoordinationKey
    else if left = right then
      none
    else
      some .coordinationKeyMismatch
  | _, _ => some .exclusive

/-- The body of the loop of `detect_conflicts` over two claims. -/
def conflictOf (left right : OwnedResourceClaim) : Option ResourceConflict :=
  if left.owner = right.owner then
    none
  else
    match overlappingKind left.claim.resource right.claim.resource with
    | none => none
    | some kind =>
      match claimIncompatibility left.claim.mode right.claim.mode with
      | none => none
      | some incompatibility => some ⟨kind, incompatibility, left, right⟩

/-- `detect_conflicts`. -/
def detectConflicts (claims : List OwnedResourceClaim) : List ResourceConflict :=
  let claims := Vec.dedup (Vec.sort claims)
  Vec.dedup (Vec.sort ((Vec.pairs claims).filterMap fun p => conflictOf p.1 p.2))

/-! ### What overlapping means -/

/-- The local addresses a listener accepts connections on.  A bind to the unspecified IPv4 address takes
every IPv4 address, one to the unspecified IPv6 address every address of either family. -/
def Accepts : IpAddr → IpAddr → Prop
  | .v4 a, x => ∃ b, x = .v4 b ∧ (a = 0 ∨ a = b)
  | .v6 a, x => a = 0 ∨ x = .v6 a

/-- Whether a route without a table, or with this one, can be in the table. -/
def CanBeIn (table : Option UInt32) (t : UInt32) : Prop := ∀ u, table = some u → u = t

/-- What a manager manages. -/
inductive Manages : SystemResource → SystemResource → Prop
  | defaultRouteV4 : Manages .routeManager .defaultRouteV4
  | defaultRouteV6 : Manages .routeManager .defaultRouteV6
  | routePrefix (table : Option UInt32) (net : IpNet) : Manages .routeManager (.routePrefix table net)
  | routeTable (table : UInt32) : Manages .routeManager (.routeTable table)
  | fwmarkRange (range : FwmarkRange) : Manages .firewallManager (.fwmarkRange range)
  | interface (name : Str) : Manages .interfaceManager (.interface name)

/-- The resources that have no part: two claims of one are claims of the same. -/
inductive Whole : SystemResource → Prop
  | routeManager : Whole .routeManager
  | defaultRouteV4 : Whole .defaultRouteV4
  | defaultRouteV6 : Whole .defaultRouteV6
  | dnsManager : Whole .dnsManager
  | firewallManager : Whole .firewallManager
  | hostsDatabase : Whole .hostsDatabase
  | interfaceManager : Whole .interfaceManager
  | interface (name : Str) : Whole (.interface name)
  | routeTable (table : UInt32) : Whole (.routeTable table)

/-- The ways in which one resource meets another. -/
inductive Meets : SystemResource → SystemResource → Prop
  | same {r : SystemResource} : Whole r → Meets r r
  | managed {m r : SystemResource} : Manages m r → Meets m r
  | listeners (transport : SocketTransport) (left right : SocketAddr) :
    left.port = right.port →
    (∃ x, Accepts (normalizedListenerIp left.ip) x ∧ Accepts (normalizedListenerIp right.ip) x) →
    Meets (.listenSocket transport left) (.listenSocket transport right)
  | addresses (left right : IpNet) :
    (∃ x, left.contains x = true ∧ right.contains x = true) →
    Meets (.addressPrefix left) (.addressPrefix right)
  | addressRoute (address : IpNet) (table : Option UInt32) (route : IpNet) :
    (∃ x, address.contains x = true ∧ route.contains x = true) →
    Meets (.addressPrefix address) (.routePrefix table route)
  | routes (leftTable rightTable : Option UInt32) (left right : IpNet) :
    (∃ t, CanBeIn leftTable t ∧ CanBeIn rightTable t) →
    (∃ x, left.contains x = true ∧ right.contains x = true) →
    Meets (.routePrefix leftTable left) (.routePrefix rightTable right)
  | defaultV4 (table : Option UInt32) (net : IpNet) :
    (∀ a, net.contains (.v4 a) = true) → Meets .defaultRouteV4 (.routePrefix table net)
  | defaultV6 (table : Option UInt32) (net : IpNet) :
    (∀ a, net.contains (.v6 a) = true) → Meets .defaultRouteV6 (.routePrefix table net)
  | tableRoute (t : UInt32) (table : Option UInt32) (net : IpNet) :
    CanBeIn table t → Meets (.routeTable t) (.routePrefix table net)
  | marks (left right : FwmarkRange) :
    (∃ mark, left.contains mark = true ∧ right.contains mark = true) →
    Meets (.fwmarkRange left) (.fwmarkRange right)

/-- Two resources overlap when one meets the other. -/
def Overlap (left right : SystemResource) : Prop := Meets left right ∨ Meets right left

theorem overlap_comm (left right : SystemResource) : Overlap left right ↔ Overlap right left := or_comm

/-- Two modes let their claims coexist: both are shared, under the same key, which is not blank. -/
def Coexist (left right : ClaimMode) : Prop :=
  ∃ a b, left = .coordinatedShared a ∧ right = .coordinatedShared b ∧ trim a = trim b ∧ trim a ≠ []

theorem coexist_comm (left right : ClaimMode) : Coexist left right ↔ Coexist right left := by
  constructor <;> rintro ⟨a, b, rfl, rfl, hab, ha⟩ <;> exact ⟨b, a, rfl, rfl, hab.symm, hab ▸ ha⟩

/-! ### The comparison of two claims is that of their meaning -/

theorem accepts_both_v4 (a b : BitVec 32) :
    (∃ x, Accepts (.v4 a) x ∧ Accepts (.v4 b) x) ↔ a = b ∨ a = 0 ∨ b = 0 := by
  constructor
  · rintro ⟨x, ⟨c, rfl, ha⟩, d, hcd, hb⟩
    cases hcd
    rcases ha with ha | rfl
    · exact .inr (.inl ha)
    · exact hb.elim (fun hb => .inr (.inr hb)) fun hb => .inl hb.symm
  · rintro (rfl | rfl | rfl)
    · exact ⟨.v4 a, ⟨a, rfl, .inr rfl⟩, a, rfl, .inr rfl⟩
    · exact ⟨.v4 b, ⟨b, rfl, .inl rfl⟩, b, rfl, .inr rfl⟩
    · exact ⟨.v4 a, ⟨a, rfl, .inr rfl⟩, a, rfl, .inl rfl⟩

theorem accepts_both_v6 (a b : BitVec 128) :
    (∃ x, Accepts (.v6 a) x ∧ Accepts (.v6 b) x) ↔ a = b ∨ a = 0 ∨ b = 0 := by
  constructor
  · rintro ⟨x, ha | rfl, hb⟩
    · exact .inr (.inl ha)
    · exact hb.elim (fun hb => .inr (.inr hb)) fun hb => .inl (IpAddr.v6.inj hb)
  · rintro (rfl | rfl | rfl)
    · exact ⟨.v6 a, .inr rfl, .inr rfl⟩
    · exact ⟨.v6 b, .inl rfl, .inr rfl⟩
    · exact ⟨.v6 a, .inr rfl, .inl rfl⟩

theorem accepts_both_mixed (a : BitVec 32) (b : BitVec 128) :
    (∃ x, Accepts (.v4 a) x ∧ Accepts (.v6 b) x) ↔ b = 0 := by
  constructor
  · rintro ⟨x, ⟨c, rfl, -⟩, hb⟩
    exact hb.elim id fun h => nomatch h
  · intro hb
    exact ⟨.v4 a, ⟨a, rfl, .inr rfl⟩, .inl hb⟩

theorem listenersOverlap_iff (left right : SocketAddr) :
    listenersOverlap left right = true ↔ left.port = right.port ∧
      ∃ x, Accepts (normalizedListenerIp left.ip) x ∧ Accepts (normalizedListenerIp right.ip) x := by
  unfold listenersOverlap
  by_cases hport : left.port = right.port
  · rw [if_neg (not_not.2 hport), and_iff_right hport]
    dsimp only
    generalize normalizedListenerIp left.ip = l
    generalize normalizedListenerIp right.ip = r
    cases l with
    | v4 a =>
      cases r with
      | v4 b => simp [accepts_both_v4, IpAddr.isIpv4, IpAddr.isUnspecified, or_assoc]
      | v6 b => simp [accepts_both_mixed, IpAddr.isIpv4, IpAddr.isUnspecified]
    | v6 a =>
      cases r with
      | v4 b =>
        rw [exists_congr fun _ => and_comm, accepts_both_mixed]
        simp [IpAddr.isIpv4, IpAddr.isUnspecified]
      | v6 b => simp [accepts_both_v6, IpAddr.isIpv4, IpAddr.isUnspecified, or_assoc]
  · rw [if_pos hport]
    simp [hport]

theorem prefixesOverlap_iff (left right : IpNet) :
    prefixesOverlap left right = true ↔ ∃ x, left.contains x = true ∧ right.contains x = true := by
  cases left with
  | v4 n =>
    cases right with
    | v4 m =>
      rw [prefixesOverlap, Bool.or_eq_true, Subnet.contains_network_or_iff]
      constructor
      · rintro ⟨x, hx⟩
        exact ⟨.v4 x, hx⟩
      · rintro ⟨x | x, hn, hm⟩
        · exact ⟨x, hn, hm⟩
        · exact nomatch hn
    | v6 m =>
      simp only [prefixesOverlap, Bool.false_eq_true, false_iff, not_exists, not_and]
      rintro (x | x) hn hm
      · exact nomatch hm
      · exact nomatch hn
  | v6 n =>
    cases right with
    | v4 m =>
      simp only [prefixesOverlap, Bool.false_eq_true, false_iff, not_exists, not_and]
      rintro (x | x) hn hm
      · exact nomatch hn
      · exact nomatch hm
    | v6 m =>
      rw [prefixesOverlap, Bool.or_eq_true, Subnet.contains_network_or_iff]
      constructor
      · rintro ⟨x, hx⟩
        exact ⟨.v6 x, hx⟩
      · rintro ⟨x | x, hn, hm⟩
        · exact nomatch hn
        · exact ⟨x, hn, hm⟩

theorem routeTablesOverlap_iff (left right : Option UInt32) :
    routeTablesOverlap left right = true ↔ ∃ t, CanBeIn left t ∧ CanBeIn right t := by
  unfold CanBeIn
  cases left with
  | none =>
    cases right with
    | none => simp [routeTablesOverlap]
    | some v => simp [routeTablesOverlap]
  | some u =>
    cases right with
    | none => simp [routeTablesOverlap]
    | some v =>
      have hboth : routeTablesOverlap (some u) (some v) = true ↔ u = v := by
        simp [routeTablesOverlap]
      rw [hboth]
      constructor
      · rintro rfl
        exact ⟨u, fun t ht => (Option.some.inj ht).symm, fun t ht => (Option.some.inj ht).symm⟩
      · rintro ⟨t, hu, hv⟩
        rw [hu u rfl, hv v rfl]

theorem canBeIn_iff (table : Option UInt32) (t : UInt32) :
    CanBeIn table t ↔ (table.isNone || table == some t) = true := by
  cases table <;> simp [CanBeIn]

theorem holds_v4_iff (net : IpNet) :
    (∀ a, net.contains (.v4 a) = true) ↔ (net.addr.isIpv4 && net.len == 0) = true := by
  cases net with
  | v4 n => simp [IpNet.contains, IpNet.addr, IpNet.len, IpAddr.isIpv4, Subnet.forall_contains_iff]
  | v6 n => simp [IpNet.contains, IpNet.addr, IpAddr.isIpv4]

theorem holds_v6_iff (net : IpNet) :
    (∀ a, net.contains (.v6 a) = true) ↔ (!net.addr.isIpv4 && net.len == 0) = true := by
  cases net with
  | v4 n => simp [IpNet.contains, IpNet.addr, IpAddr.isIpv4]
  | v6 n => simp [IpNet.contains, IpNet.addr, IpNet.len, IpAddr.isIpv4, Subnet.forall_contains_iff]

/-- A resource that meets another overlaps it in the source's case analysis, either way round. -/
theorem overlappingKind_of_meets {left right : SystemResource} (h : Meets left right) :
    (overlappingKind left right).isSome = true ∧ (overlappingKind right left).isSome = true := by
  cases h with
  | same h => cases h <;> simp [overlappingKind.eq_def]
  | managed h => cases h <;> simp [overlappingKind.eq_def]
  | listeners transport l r hport h =>
    have hlr := (listenersOverlap_iff l r).2 ⟨hport, h⟩
    have hrl := (listenersOverlap_iff r l).2 ⟨hport.symm, h.imp fun _ => And.symm⟩
    simp [overlappingKind.eq_def, hlr, hrl]
  | addresses l r h =>
    have hlr := (prefixesOverlap_iff l r).2 h
    have hrl := (prefixesOverlap_iff r l).2 (h.imp fun _ => And.symm)
    simp [overlappingKind.eq_def, hlr, hrl]
  | addressRoute address table route h =>
    simp [overlappingKind.eq_def, (prefixesOverlap_iff address route).2 h]
  | routes lt rt l r ht h =>
    have hlr := (prefixesOverlap_iff l r).2 h
    have hrl := (prefixesOverlap_iff r l).2 (h.imp fun _ => And.symm)
    have htlr := (routeTablesOverlap_iff lt rt).2 ht
    have htrl := (routeTablesOverlap_iff rt lt).2 (ht.imp fun _ => And.symm)
    simp [overlappingKind.eq_def, hlr, hrl, htlr, htrl]
  | defaultV4 table net h =>
    simp only [overlappingKind.eq_def, if_pos ((holds_v4_iff net).1 h), Option.isSome_some, and_self]
  | defaultV6 table net h =>
    simp only [overlappingKind.eq_def, if_pos ((holds_v6_iff net).1 h), Option.isSome_some, and_self]
  | tableRoute t table net h =>
    simp only [overlappingKind.eq_def, if_pos ((canBeIn_iff table t).1 h), Option.isSome_some, and_self]
  | marks l r h =>
    have hlr := (l.overlaps_iff r).2 h
    have hrl := (r.overlaps_iff l).2 (h.imp fun _ => And.symm)
    simp [overlappingKind.eq_def, hlr, hrl]

/-- What the case analysis finds is a way in which one of the resources meets the other. -/
theorem overlap_of_overlappingKind {left right : SystemResource} {kind : ResourceConflictKind}
    (h : overlappingKind left right = some kind) : Overlap left right := by
  rw [overlappingKind.eq_def] at h
  -- what is left are the pairs for which the source has an arm
  cases left <;> cases right <;> simp only [reduceCtorEq] at h
  · exact .inl (.same .routeManager)
  · exact .inl (.managed .defaultRouteV4)
  · exact .inl (.managed .defaultRouteV6)
  · exact .inl (.managed (.routePrefix _ _))
  · exact .inl (.managed (.routeTable _))
  · exact .inr (.managed .defaultRouteV4)
  · exact .inl (.same .defaultRouteV4)
  · exact .inl (.defaultV4 _ _ ((holds_v4_iff _).2 (Option.ite_none_right_eq_some.1 h).1))
  · exact .inr (.managed .defaultRouteV6)
  · exact .inl (.same .defaultRouteV6)
  · exact .inl (.defaultV6 _ _ ((holds_v6_iff _).2 (Option.ite_none_right_eq_some.1 h).1))
  · exact .inl (.same .dnsManager)
  · exact .inl (.same .firewallManager)
  · exact .inl (.managed (.fwmarkRange _))
  · exact .inl (.same .hostsDatabase)
  · exact .inl (.same .interfaceManager)
  · exact .inl (.managed (.interface _))
  · exact .inr (.managed (.interface _))
  · obtain ⟨rfl, -⟩ := Option.ite_none_right_eq_some.1 h
    exact .inl (.same (.interface _))
  · obtain ⟨⟨rfl, hl⟩, -⟩ := Option.ite_none_right_eq_some.1 h
    obtain ⟨hport, hx⟩ := (listenersOverlap_iff _ _).1 hl
    exact .inl (.listeners _ _ _ hport hx)
  · exact .inl (.addresses _ _ ((prefixesOverlap_iff _ _).1 (Option.ite_none_right_eq_some.1 h).1))
  · exact .inl (.addressRoute _ _ _ ((prefixesOverlap_iff _ _).1 (Option.ite_none_right_eq_some.1 h).1))
  · exact .inr (.managed (.routePrefix _ _))
  · exact .inr (.defaultV4 _ _ ((holds_v4_iff _).2 (Option.ite_none_right_eq_some.1 h).1))
  · exact .inr (.defaultV6 _ _ ((holds_v6_iff _).2 (Option.ite_none_right_eq_some.1 h).1))
  · exact .inr (.addressRoute _ _ _ ((prefixesOverlap_iff _ _).1 (Option.ite_none_right_eq_some.1 h).1))
  · obtain ⟨hboth, -⟩ := Option.ite_none_right_eq_some.1 h
    rw [Bool.and_eq_true, routeTablesOverlap_iff, prefixesOverlap_iff] at hboth
    exact .inl (.routes _ _ _ _ hboth.1 hboth.2)
  · exact .inr (.tableRoute _ _ _ ((canBeIn_iff _ _).2 (Option.ite_none_right_eq_some.1 h).1))
  · exact .inr (.managed (.routeTable _))
  · exact .inl (.tableRoute _ _ _ ((canBeIn_iff _ _).2 (Option.ite_none_right_eq_some.1 h).1))
  · obtain ⟨rfl, -⟩ := Option.ite_none_right_eq_some.1 h
    exact .inl (.same (.routeTable _))
  · exact .inr (.managed (.fwmarkRange _))
  · exact .inl (.marks _ _ ((FwmarkRange.overlaps_iff _ _).1 (Option.ite_none_right_eq_some.1 h).1))

/-- **The case analysis over two resources finds exactly their overlaps.** -/
theorem overlappingKind_isSome_iff (left right : SystemResource) :
    (overlappingKind left right).isSome = true ↔ Overlap left right := by
  constructor
  · intro h
    obtain ⟨kind, hkind⟩ := Option.isSome_iff_exists.1 h
    exact overlap_of_overlappingKind hkind
  · rintro (h | h)
    · exact (overlappingKind_of_meets h).1
    · exact (overlappingKind_of_meets h).2

theorem claimIncompatibility_isSome_iff (left right : ClaimMode) :
    (claimIncompatibility left right).isSome = true ↔ ¬ Coexist left right := by
  cases left with
  | exclusive => simp [claimIncompatibility, Coexist]
  | coordinatedShared a =>
    cases right with
    | exclusive => simp [claimIncompatibility, Coexist]
    | coordinatedShared b =>
      have hco : Coexist (.coordinatedShared a) (.coordinatedShared b) ↔
          trim a = trim b ∧ trim a ≠ [] := by
        constructor
        · rintro ⟨a, b, ⟨⟩, ⟨⟩, h⟩
          exact h
        · rintro h
          exact ⟨a, b, rfl, rfl, h⟩
      rw [hco, claimIncompatibility]
      split_ifs with hempty hsame
      · simp only [Bool.or_eq_true, List.isEmpty_iff] at hempty
        simp only [Option.isSome_some, not_and, not_not, true_iff]
        exact fun hab => hempty.elim id fun hb => hab.trans hb
      · simp only [Bool.or_eq_true, List.isEmpty_iff, not_or] at hempty
        simpa [hsame] using hempty.2
      · simp [hsame]

/-! ### Every conflict, once -/

/-- Two claims that conflict. -/
def Conflicting (left right : OwnedResourceClaim) : Prop :=
  left.owner ≠ right.owner ∧ Overlap left.claim.resource right.claim.resource ∧
    ¬ Coexist left.claim.mode right.claim.mode

theorem conflicting_comm (left right : OwnedResourceClaim) :
    Conflicting left right ↔ Conflicting right left := by
  rw [Conflicting, Conflicting, ne_comm, overlap_comm, coexist_comm]

theorem conflictOf_eq_some {left right : OwnedResourceClaim} {c : ResourceConflict} :
    conflictOf left right = some c ↔
      left.owner ≠ right.owner ∧ c.left = left ∧ c.right = right ∧
        overlappingKind left.claim.resource right.claim.resource = some c.kind ∧
        claimIncompatibility left.claim.mode right.claim.mode = some c.incompatibility := by
  unfold conflictOf
  by_cases howner : left.owner = right.owner
  · simp [howner]
  · rw [if_neg howner]
    cases overlappingKind left.claim.resource right.claim.resource with
    | none => simp
    | some kind =>
      cases claimIncompatibility left.claim.mode right.claim.mode with
      | none => simp
      | some incompatibility =>
        cases c
        simp [howner, eq_comm]
        tauto

theorem exists_conflictOf_iff (left right : OwnedResourceClaim) :
    (∃ c, conflictOf left right = some c) ↔ Conflicting left right := by
  rw [Conflicting, ← overlappingKind_isSome_iff, ← claimIncompatibility_isSome_iff]
  constructor
  · rintro ⟨c, hc⟩
    obtain ⟨howner, -, -, hkind, hinc⟩ := conflictOf_eq_some.1 hc
    exact ⟨howner, Option.isSome_iff_exists.2 ⟨_, hkind⟩, Option.isSome_iff_exists.2 ⟨_, hinc⟩⟩
  · rintro ⟨howner, hkind, hinc⟩
    obtain ⟨kind, hkind⟩ := Option.isSome_iff_exists.1 hkind
    obtain ⟨incompatibility, hinc⟩ := Option.isSome_iff_exists.1 hinc
    exact ⟨⟨kind, incompatibility, left, right⟩,
      conflictOf_eq_some.2 ⟨howner, rfl, rfl, hkind, hinc⟩⟩

/-- A report about these two claims, whichever it names first. -/
def ResourceConflict.About (c : ResourceConflict) (x y : OwnedResourceClaim) : Prop :=
  (c.left = x ∧ c.right = y) ∨ (c.left = y ∧ c.right = x)

instance (c : ResourceConflict) (x y : OwnedResourceClaim) : Decidable (c.About x y) :=
  inferInstanceAs (Decidable ((c.left = x ∧ c.right = y) ∨ (c.left = y ∧ c.right = x)))

section Detect

variable {claims : List OwnedResourceClaim} {c d : ResourceConflict} {x y : OwnedResourceClaim}

theorem mem_detectConflicts :
    c ∈ detectConflicts claims ↔
      (c.left, c.right) ∈ Vec.pairs (Vec.dedup (Vec.sort claims)) ∧
        conflictOf c.left c.right = some c := by
  rw [detectConflicts, Vec.mem_dedup_sort, List.mem_filterMap]
  constructor
  · rintro ⟨⟨left, right⟩, hp, hc⟩
    obtain ⟨-, rfl, rfl, -, -⟩ := conflictOf_eq_some.1 hc
    exact ⟨hp, hc⟩
  · rintro ⟨hp, hc⟩
    exact ⟨_, hp, hc⟩

theorem conflicting_of_mem (h : c ∈ detectConflicts claims) :
    c.left ∈ claims ∧ c.right ∈ claims ∧ Conflicting c.left c.right := by
  obtain ⟨hp, hc⟩ := mem_detectConflicts.1 h
  obtain ⟨hleft, hright⟩ := Vec.mem_of_mem_pairs hp
  exact ⟨Vec.mem_dedup_sort.1 hleft, Vec.mem_dedup_sort.1 hright,
    (exists_conflictOf_iff _ _).1 ⟨c, hc⟩⟩

theorem exists_mem_of_conflicting (hx : x ∈ claims) (hy : y ∈ claims) (h : Conflicting x y) :
    ∃ c ∈ detectConflicts claims, c.About x y := by
  have hne : x ≠ y := fun hxy => h.1 (congrArg OwnedResourceClaim.owner hxy)
  rcases Vec.mem_pairs_or (Vec.mem_dedup_sort.2 hx) (Vec.mem_dedup_sort.2 hy) hne with hp | hp
  · obtain ⟨c, hc⟩ := (exists_conflictOf_iff x y).2 h
    obtain ⟨-, rfl, rfl, -, -⟩ := conflictOf_eq_some.1 hc
    exact ⟨c, mem_detectConflicts.2 ⟨hp, hc⟩, .inl ⟨rfl, rfl⟩⟩
  · obtain ⟨c, hc⟩ := (exists_conflictOf_iff y x).2 ((conflicting_comm x y).1 h)
    obtain ⟨-, rfl, rfl, -, -⟩ := conflictOf_eq_some.1 hc
    exact ⟨c, mem_detectConflicts.2 ⟨hp, hc⟩, .inr ⟨rfl, rfl⟩⟩

theorem eq_of_about (hc : c ∈ detectConflicts claims) (hd : d ∈ detectConflicts claims)
    (hcx : c.About x y) (hdx : d.About x y) : d = c := by
  obtain ⟨hpc, hoc⟩ := mem_detectConflicts.1 hc
  obtain ⟨hpd, hod⟩ := mem_detectConflicts.1 hd
  have hltc := Vec.pairwise_of_mem_pairs (Vec.pairwise_dedup_sort claims) hpc
  have hltd := Vec.pairwise_of_mem_pairs (Vec.pairwise_dedup_sort claims) hpd
  have hsame : d.left = c.left ∧ d.right = c.right := by
    rcases hcx with ⟨rfl, rfl⟩ | ⟨rfl, rfl⟩ <;> rcases hdx with h | h
    · exact h
    · rw [h.1, h.2] at hltd
      exact absurd hltd (lt_asymm hltc)
    · rw [h.1, h.2] at hltd
      exact absurd hltd (lt_asymm hltc)
    · exact h
  rw [hsame.1, hsame.2, hoc] at hod
  exact (Option.some.inj hod).symm

open Classical in
/-- **Every two conflicting claims are reported exactly once, and nothing else is.** -/
theorem countP_detectConflicts (claims : List OwnedResourceClaim) (x y : OwnedResourceClaim) :
    (detectConflicts claims).countP (fun c => decide (c.About x y)) =
      if x ∈ claims ∧ y ∈ claims ∧ Conflicting x y then 1 else 0 := by
  split_ifs with h
  · obtain ⟨c, hc, hcx⟩ := exists_mem_of_conflicting h.1 h.2.1 h.2.2
    have honly : ∀ d ∈ detectConflicts claims, decide (d.About x y) = true ↔ (d == c) = true := by
      intro d hd
      rw [decide_eq_true_iff, beq_iff_eq]
      constructor
      · exact eq_of_about hc hd hcx
      · rintro rfl
        exact hcx
    rw [List.countP_congr honly]
    exact List.count_eq_one_of_mem (Vec.nodup_dedup_sort _) hc
  · rw [List.countP_eq_zero]
    intro c hc habout
    obtain ⟨hleft, hright, hconf⟩ := conflicting_of_mem hc
    rcases of_decide_eq_true habout with ⟨rfl, rfl⟩ | ⟨rfl, rfl⟩
    · exact h ⟨hleft, hright, hconf⟩
    · exact h ⟨hright, hleft, (conflicting_comm _ _).1 hconf⟩

theorem detectConflicts_eq_of_mem_iff {claims' : List OwnedResourceClaim}
    (h : ∀ x, x ∈ claims ↔ x ∈ claims') : detectConflicts claims = detectConflicts claims' := by
  rw [detectConflicts, detectConflicts, Vec.dedup_sort_eq_of_mem_iff h]

end Detect

open Classical in
/-- **Conflict detection is exact and free of order.**  For every list of claims, `detect_conflicts`
reports each unordered pair of conflicting claims once and no other pair; a report gives the kind and
the incompatibility of its two claims; the overlap it looks for is the symmetric relation `Overlap`;
and a list with the same claims, in whatever order and repetition, has the same reports. -/
theorem detectConflicts_exact (claims : List OwnedResourceClaim) :
    (∀ x y, (detectConflicts claims).countP (fun c => decide (c.About x y)) =
      if x ∈ claims ∧ y ∈ claims ∧ Conflicting x y then 1 else 0) ∧
    (∀ c ∈ detectConflicts claims,
      overlappingKind c.left.claim.resource c.right.claim.resource = some c.kind ∧
      claimIncompatibility c.left.claim.mode c.right.claim.mode = some c.incompatibility) ∧
    (∀ left right, ((overlappingKind left right).isSome = true ↔ Overlap left right) ∧
      (Overlap left right ↔ Overlap right left)) ∧
    ∀ claims', (∀ x, x ∈ claims ↔ x ∈ claims') →
      detectConflicts claims' = detectConflicts claims := by
  refine ⟨fun x y => countP_detectConflicts claims x y, ?_, ?_, ?_⟩
  · intro c hc
    obtain ⟨-, -, -, hkind, hinc⟩ := conflictOf_eq_some.1 (mem_detectConflicts.1 hc).2
    exact ⟨hkind, hinc⟩
  · intro left right
    exact ⟨overlappingKind_isSome_iff left right, overlap_comm left right⟩
  · intro claims' h
    exact (detectConflicts_eq_of_mem_iff h).symm

/-- The backend `wg` claims the addresses `10.0.0.0/8` for itself. -/
def sampleAddresses : OwnedResourceClaim :=
  ⟨.backend ⟨['w', 'g'], by decide, by decide, by simp [isBackendIdChar]⟩,
    ⟨.addressPrefix (.v4 ⟨0x0a000000, 8, eight_le_32⟩), .exclusive⟩⟩

/-- The host subsystem `tun` claims the route `10.1.0.0/16` of any table for itself. -/
def sampleRoute : OwnedResourceClaim :=
  ⟨.hostSubsystem ⟨['t', 'u', 'n'], by decide, by decide, by simp [isBackendIdChar]⟩,
    ⟨.routePrefix none (.v4 ⟨0x0a010000, 16, by decide⟩), .exclusive⟩⟩

/-- The nested route is reported once, also when the claims come in another order and repeated. -/
theorem detectConflicts_exact_repeated :
    detectConflicts [sampleRoute, sampleAddresses, sampleRoute] =
      detectConflicts [sampleAddresses, sampleRoute] ∧
    (detectConflicts [sampleAddresses, sampleRoute]).length = 1 := by
  refine ⟨(detectConflicts_exact [sampleAddresses, sampleRoute]).2.2.2 _ ?_, by decide⟩
  intro x
  simp only [List.mem_cons, List.not_mem_nil, or_false]
  tauto

end WutherCore.Mesh
