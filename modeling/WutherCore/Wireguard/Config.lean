import Mathlib
import WutherCore.Data.Except
import WutherCore.Net.Prefix

/-!
# The peers of a WireGuard configuration and their routes

`WireGuardConfig.validate` refuses a network that is given to two peers, or twice to one, and compares
the networks with their host bits cleared.  `routePeer` gives a packet to a peer with a longest network that
contains its address, and looks at nothing else.

* `routes_nodup`: what `validate` accepts has no network twice.
* `routePeer_eq_some`: `routePeer` finds a peer with a longest network.
* `routePeer_longest`: on an accepted configuration there is only one such peer, whatever the order.
-/

namespace WutherCore.Wireguard

open WutherCore.Text WutherCore.Net WutherCore.Data

/-- A key of X25519. -/
abbrev Key := Vector UInt8 32

/-- `WireGuardPeerConfig`. -/
structure WireGuardPeerConfig where
  endpointHost : Str
  endpointPort : UInt16
  publicKey : Key
  allowedIps : List IpNet
  deriving DecidableEq

/-- `WireGuardConfig`; the durations are in nanoseconds. -/
structure WireGuardConfig where
  privateKey : Key
  localAddresses : List IpNet
  peers : List WireGuardPeerConfig
  mtu : Nat
  dns : List IpAddr
  remoteDnsResolve : Bool
  tcp : Bool
  udp : Bool
  tcpBufferSize : Nat
  udpBufferSize : Nat
  maxTcpSessions : Nat
  maxUdpSessions : Nat
  packetQueue : Nat
  workers : Nat
  connectTimeout : Nat
  udpIdleTimeout : Nat

/-! ### Routing -/

/-- `permits`. -/
def WireGuardPeerConfig.permits (peer : WireGuardPeerConfig) (ip : IpAddr) : Bool :=
  peer.allowedIps.any (·.contains ip)

/-- `best_prefix_for`. -/
def WireGuardPeerConfig.bestPrefixFor (peer : WireGuardPeerConfig) (ip : IpAddr) : Option Nat :=
  ((peer.allowedIps.filter (·.contains ip)).map IpNet.len).max?

/-- `Iterator::max_by_key`: of several greatest elements the last. -/
def maxByKey {α : Type} (key : α → Nat) (l : List α) : Option α :=
  l.foldl (fun best x => match best with
    | none => some x
    | some b => if key b ≤ key x then some x else some b) none

/-- `route_peer`. -/
def WireGuardConfig.routePeer (config : WireGuardConfig) (ip : IpAddr) : Option Nat :=
  let found := config.peers.zipIdx.filterMap fun (peer, index) => (peer.bestPrefixFor ip).map (·, index)
  (maxByKey Prod.fst found).map Prod.snd

/-! ### Validation -/

/-- `IpAddr::is_multicast`. -/
def isMulticast : IpAddr → Bool
  | .v4 a => a.toNat / 2 ^ 28 = 14
  | .v6 a => a.toNat / 2 ^ 120 = 255

/-- `IpAddr::is_unspecified`, `is_multicast` or, of IPv4, `is_broadcast`. -/
def notUnicast (ip : IpAddr) : Bool := ip.isUnspecified || isMulticast ip || ip = .v4 (BitVec.allOnes 32)

/-- The refusal of a check. -/
def refuse (bad : Bool) (message : String) : Except String Unit := if bad then .error message else .ok ()

/-- `validate_buffer`. -/
def validateBuffer (name : String) (value : Nat) : Except String Unit :=
  refuse (value < 4096 || 16 * 1024 * 1024 < value) s!"wireguard {name} must be between 4096 and 16777216"

/-- `validate_limit`. -/
def validateLimit (name : String) (value : Nat) : Except String Unit :=
  refuse (value < 1 || 65535 < value) s!"wireguard {name} must be between 1 and 65535"

/-- The text of a network or an address in a message. -/
def text (s : Str) : String := String.ofList s

/-- The address families that the local addresses have. -/
abbrev Families := Bool × Bool

/-- Whether a family is there. -/
def familyAvailable (families : Families) : IpAddr → Bool
  | .v4 _ => families.1
  | .v6 _ => families.2

/-- The loop of `validate` over the local addresses. -/
def validateLocals : (networks seen : List IpNet) → Families → Except String Families
  | [], _, families => .ok families
  | network :: networks, seen, families => do
      let ip := network.addr
      refuse (ip.isUnspecified || isMulticast ip)
        s!"wireguard local address must be unicast: {text network.display}"
      refuse (seen.contains network) s!"wireguard local address is duplicated: {text network.display}"
      validateLocals networks (network :: seen) (match ip with
        | .v4 _ => (true, families.2)
        | .v6 _ => (families.1, true))

/-- The loop of `validate` over the networks of a peer, with `exact_routes`. -/
def validateRoutes (families : Families) (index : Nat) : (allowed routes : List IpNet) → Except String (List IpNet)
  | [], routes => .ok routes
  | network :: allowed, routes => do
      refuse (!familyAvailable families network.addr)
        s!"wireguard peer[{index}] route {text network.display} has no matching local address"
      refuse (routes.contains network.trunc)
        s!"wireguard allowed-ip {text network.display} is assigned to more than one peer"
      validateRoutes families index allowed (network.trunc :: routes)

/-- The check of `validate` on an endpoint that is an address. -/
def validateEndpoint (index : Nat) (host : Str) : Except String Unit :=
  match parseIpAddr host with
  | some endpoint =>
      refuse (notUnicast endpoint) s!"wireguard peer[{index}] endpoint must be unicast: {text endpoint.display}"
  | none => .ok ()

/-- The loop of `validate` over the peers, with `public_keys` and `exact_routes`. -/
def validatePeers (families : Families) (localPublic : Key) :
    (peers : List WireGuardPeerConfig) → (index : Nat) → (publicKeys : List Key) → (routes : List IpNet) →
      Except String (List IpNet)
  | [], _, _, routes => .ok routes
  | peer :: peers, index, publicKeys, routes => do
      refuse ((trim peer.endpointHost).isEmpty || peer.endpointPort == 0)
        s!"wireguard peer[{index}] requires a non-empty endpoint and non-zero port"
      validateEndpoint index peer.endpointHost
      refuse (peer.publicKey == Vector.replicate 32 0)
        s!"wireguard peer[{index}] has the forbidden all-zero public key"
      refuse (peer.publicKey == localPublic)
        s!"wireguard peer[{index}] public key equals the local public key"
      refuse (publicKeys.contains peer.publicKey) s!"wireguard peer[{index}] duplicates another public key"
      refuse peer.allowedIps.isEmpty s!"wireguard peer[{index}] requires allowed-ips"
      let routes ← validateRoutes families index peer.allowedIps routes
      validatePeers families localPublic peers (index + 1) (peer.publicKey :: publicKeys) routes

namespace WireGuardConfig

variable (config : WireGuardConfig)

/-- The checks of `validate` before its loops. -/
def validateLimits : Except String Unit := do
  refuse config.localAddresses.isEmpty "wireguard requires at least one local address"
  refuse (8 < config.localAddresses.length) "wireguard supports at most 8 local addresses"
  refuse (config.privateKey == Vector.replicate 32 0) "wireguard private key cannot be all zero"
  refuse (config.peers.isEmpty || 4096 < config.peers.length) "wireguard peers must contain 1..=4096 entries"
  refuse (config.mtu < 576 || 65475 < config.mtu) "wireguard mtu must be between 576 and 65475"
  refuse (config.localAddresses.any (!·.addr.isIpv4) && config.mtu < 1280) "wireguard IPv6 requires mtu >= 1280"
  refuse (!config.tcp && !config.udp) "wireguard must enable tcp, udp, or both"
  validateBuffer "tcp-buffer-size" config.tcpBufferSize
  validateBuffer "udp-buffer-size" config.udpBufferSize
  validateLimit "max-tcp-sessions" config.maxTcpSessions
  validateLimit "max-udp-sessions" config.maxUdpSessions
  refuse (config.packetQueue < 16 || 65536 < config.packetQueue)
    "wireguard packet-queue must be between 16 and 65536"
  refuse (config.workers < 1 || 64 < config.workers) "wireguard workers must be between 1 and 64"
  refuse (config.connectTimeout == 0 || 300 * 10 ^ 9 < config.connectTimeout)
    "wireguard connect-timeout must be within (0s, 300s]"
  refuse (config.udpIdleTimeout < 5 * 10 ^ 9 || 86400 * 10 ^ 9 < config.udpIdleTimeout)
    "wireguard udp-timeout must be between 5s and 24h"

/-- The checks of `validate` on the servers for names. -/
def validateDns (families : Families) : Except String Unit := do
  refuse (config.remoteDnsResolve && config.dns.isEmpty)
    "wireguard remote-dns-resolve requires at least one dns server"
  config.dns.forM fun dns => do
    refuse (dns.isUnspecified || isMulticast dns || !familyAvailable families dns)
      s!"wireguard dns address is unusable on this interface: {text dns.display}"
    refuse (config.routePeer dns).isNone
      s!"wireguard dns address is not covered by any allowed-ip: {text dns.display}"

/-- `validate`; `publicKey` is the public key of a secret. -/
def validate (publicKey : Key → Key) : Except String Unit := do
  config.validateLimits
  let families ← validateLocals config.localAddresses [] (false, false)
  let _ ← validatePeers families (publicKey config.privateKey) config.peers 0 [] []
  config.validateDns families

end WireGuardConfig

/-! ### What is accepted -/

theorem validateRoutes_nodup {families : Families} {index : Nat} {allowed routes routes' : List IpNet}
    (h : validateRoutes families index allowed routes = .ok routes') (hroutes : routes.Nodup) :
    routes'.Nodup ∧ routes' = (allowed.map IpNet.trunc).reverse ++ routes := by
  induction allowed generalizing routes with
  | nil =>
    cases h
    exact ⟨hroutes, rfl⟩
  | cons network allowed ih =>
    obtain ⟨_, -, h⟩ := bind_eq_ok.1 h
    obtain ⟨_, hnew, h⟩ := bind_eq_ok.1 h
    have hnew : network.trunc ∉ routes := by
      simpa [refuse] using hnew
    obtain ⟨hnodup, rfl⟩ := ih h (List.nodup_cons.2 ⟨hnew, hroutes⟩)
    exact ⟨hnodup, by simp⟩

/-- The networks of the peers, with their host bits cleared. -/
def networks (peers : List WireGuardPeerConfig) : List IpNet := peers.flatMap fun peer => peer.allowedIps.map IpNet.trunc

theorem validatePeers_nodup {families : Families} {localPublic : Key} {peers : List WireGuardPeerConfig}
    {index : Nat} {publicKeys : List Key} {routes routes' : List IpNet}
    (h : validatePeers families localPublic peers index publicKeys routes = .ok routes') (hroutes : routes.Nodup) :
    routes'.Nodup ∧ routes' = (networks peers).reverse ++ routes := by
  induction peers generalizing index publicKeys routes with
  | nil =>
    cases h
    exact ⟨hroutes, rfl⟩
  | cons peer peers ih =>
    -- Six checks, and then the networks of the peer.
    obtain ⟨_, -, h⟩ := bind_eq_ok.1 h
    obtain ⟨_, -, h⟩ := bind_eq_ok.1 h
    obtain ⟨_, -, h⟩ := bind_eq_ok.1 h
    obtain ⟨_, -, h⟩ := bind_eq_ok.1 h
    obtain ⟨_, -, h⟩ := bind_eq_ok.1 h
    obtain ⟨_, -, h⟩ := bind_eq_ok.1 h
    obtain ⟨added, hadded, h⟩ := bind_eq_ok.1 h
    obtain ⟨hnodup, rfl⟩ := validateRoutes_nodup hadded hroutes
    obtain ⟨hnodup, rfl⟩ := ih h hnodup
    exact ⟨hnodup, by simp [networks]⟩

/-- **An accepted configuration has no network twice.** -/
theorem routes_nodup {config : WireGuardConfig} {publicKey : Key → Key} (h : config.validate publicKey = .ok ()) :
    (networks config.peers).Nodup := by
  obtain ⟨_, -, h⟩ := bind_eq_ok.1 h
  obtain ⟨families, -, h⟩ := bind_eq_ok.1 h
  obtain ⟨routes, hroutes, -⟩ := bind_eq_ok.1 h
  obtain ⟨hnodup, rfl⟩ := validatePeers_nodup hroutes List.nodup_nil
  simpa using hnodup

theorem trunc_eq_of_contains {n m : IpNet} {ip : IpAddr} (hlen : n.len = m.len) (hn : n.contains ip = true)
    (hm : m.contains ip = true) : n.trunc = m.trunc := by
  have hsub {w : Nat} {a b : Subnet w} {x : BitVec w} (hlen : a.len = b.len) (ha : a.contains x = true)
      (hb : b.contains x = true) : a.trunc = b.trunc := by
    have hsize : a.size = b.size := by rw [Subnet.size, Subnet.size, hlen]
    rw [Subnet.contains_iff, hsize] at ha
    rw [Subnet.contains_iff, ha] at hb
    simp only [Subnet.trunc, Subnet.network, hb, hsize, hlen]
  cases n with
  | v4 n =>
    cases ip with
    | v6 a => cases hn
    | v4 a =>
      cases m with
      | v4 m => exact congrArg IpNet.v4 (hsub hlen hn hm)
      | v6 m => cases hm
  | v6 n =>
    cases ip with
    | v4 a => cases hn
    | v6 a =>
      cases m with
      | v4 m => cases hm
      | v6 m => exact congrArg IpNet.v6 (hsub hlen hn hm)

/-! ### What is routed -/

theorem maxByKey_spec {α : Type} (key : α → Nat) (l : List α) :
    match maxByKey key l with
    | none => l = []
    | some x => x ∈ l ∧ ∀ y ∈ l, key y ≤ key x := by
  induction l using List.reverseRecOn with
  | nil => rfl
  | append_singleton l x ih =>
    rw [maxByKey, List.foldl_append, ← maxByKey]
    cases hbest : maxByKey key l with
    | none =>
      rw [hbest] at ih
      simp only [List.foldl_cons, List.foldl_nil, show l = [] from ih, List.nil_append, List.mem_singleton,
        forall_eq, le_refl, and_self]
    | some b =>
      rw [hbest] at ih
      obtain ⟨hmem, hle⟩ := ih
      simp only [List.foldl_cons, List.foldl_nil]
      split_ifs with hx
      · refine ⟨by simp, fun y hy => ?_⟩
        rcases List.mem_append.1 hy with hy | hy
        · exact (hle y hy).trans hx
        · rw [List.mem_singleton.1 hy]
      · refine ⟨List.mem_append_left _ hmem, fun y hy => ?_⟩
        rcases List.mem_append.1 hy with hy | hy
        · exact hle y hy
        · rw [List.mem_singleton.1 hy]
          omega

/-- A network of a peer that contains the address and is as long as any network of any peer that does. -/
structure Longest (peers : List WireGuardPeerConfig) (ip : IpAddr) (peer : WireGuardPeerConfig) (n : IpNet) :
    Prop where
  peer_mem : peer ∈ peers
  mem : n ∈ peer.allowedIps
  contains : n.contains ip = true
  longest : ∀ other ∈ peers, ∀ m ∈ other.allowedIps, m.contains ip = true → m.len ≤ n.len

theorem bestPrefixFor_eq_some {peer : WireGuardPeerConfig} {ip : IpAddr} {len : Nat}
    (h : peer.bestPrefixFor ip = some len) :
    (∃ n ∈ peer.allowedIps, n.contains ip = true ∧ n.len = len) ∧
      ∀ n ∈ peer.allowedIps, n.contains ip = true → n.len ≤ len := by
  rw [WireGuardPeerConfig.bestPrefixFor, List.max?_eq_some_iff] at h
  obtain ⟨hmem, hle⟩ := h
  refine ⟨by simpa [and_assoc] using hmem, fun n hn hcontains => hle _ ?_⟩
  exact List.mem_map_of_mem (List.mem_filter.2 ⟨hn, hcontains⟩)

theorem bestPrefixFor_eq_none {peer : WireGuardPeerConfig} {ip : IpAddr} :
    peer.bestPrefixFor ip = none ↔ peer.permits ip = false := by
  simp [WireGuardPeerConfig.bestPrefixFor, WireGuardPeerConfig.permits]

theorem routePeer_eq_none {config : WireGuardConfig} {ip : IpAddr} (h : config.routePeer ip = none) :
    ∀ peer ∈ config.peers, peer.permits ip = false := by
  intro peer hpeer
  obtain ⟨index, hindex⟩ := List.mem_iff_getElem?.1 hpeer
  rw [WireGuardConfig.routePeer, Option.map_eq_none_iff] at h
  have hspec := maxByKey_spec Prod.fst
    (config.peers.zipIdx.filterMap fun (peer, index) => (peer.bestPrefixFor ip).map (·, index))
  rw [h] at hspec
  rw [← bestPrefixFor_eq_none]
  have hnone := List.filterMap_eq_nil_iff.1 hspec (peer, index) (by simpa [List.mem_zipIdx_iff_getElem?] using hindex)
  simpa using hnone

/-- **`routePeer` finds a peer with a longest network that contains the address.** -/
theorem routePeer_eq_some {config : WireGuardConfig} {ip : IpAddr} {index : Nat} (h : config.routePeer ip = some index) :
    ∃ peer n, config.peers[index]? = some peer ∧ Longest config.peers ip peer n := by
  obtain ⟨⟨len, index⟩, hbest, rfl⟩ := Option.map_eq_some_iff.1 h
  have hspec := maxByKey_spec Prod.fst
    (config.peers.zipIdx.filterMap fun (peer, index) => (peer.bestPrefixFor ip).map (·, index))
  rw [hbest] at hspec
  obtain ⟨hmem, hle⟩ := hspec
  simp only [List.mem_filterMap, Prod.exists, List.mem_zipIdx_iff_getElem?, Option.map_eq_some_iff,
    Prod.mk.injEq] at hmem
  obtain ⟨peer, _, hpeer, _, hlen, rfl, rfl⟩ := hmem
  obtain ⟨⟨n, hn, hcontains, rfl⟩, -⟩ := bestPrefixFor_eq_some hlen
  refine ⟨peer, n, hpeer, List.mem_of_getElem? hpeer, hn, hcontains, fun other hother m hm hip => ?_⟩
  -- The other peer has a best network too, and that one counts.
  obtain ⟨j, hj⟩ := List.mem_iff_getElem?.1 hother
  cases hfound : other.bestPrefixFor ip with
  | none =>
    have hnot := bestPrefixFor_eq_none.1 hfound
    rw [WireGuardPeerConfig.permits, List.any_eq_false] at hnot
    exact absurd hip (hnot m hm)
  | some len =>
    have hcounts := hle (len, j) (List.mem_filterMap.2
      ⟨(other, j), List.mem_zipIdx_iff_getElem?.2 hj, by simp only [hfound, Option.map_some]⟩)
    exact ((bestPrefixFor_eq_some hfound).2 m hm hip).trans hcounts

/-! ### One owner -/

/-- The same peers in another order, each with its networks in another order. -/
def Reordered (peers peers' : List WireGuardPeerConfig) : Prop :=
  ∃ between, peers.Perm between ∧
    List.Forall₂ (fun p q => q = { p with allowedIps := q.allowedIps } ∧ p.allowedIps.Perm q.allowedIps) between peers'

/-- The key for a packet to an address: that of the peer that `route_peer` chooses. -/
def WireGuardConfig.routeKey (config : WireGuardConfig) (ip : IpAddr) : Option Key :=
  (config.routePeer ip).bind fun index => config.peers[index]?.map WireGuardPeerConfig.publicKey

variable {config : WireGuardConfig} {publicKey : Key → Key} {peers peers' : List WireGuardPeerConfig}

theorem owner_unique (h : (networks peers).Nodup) {i j : Nat} {p q : WireGuardPeerConfig} {n m : IpNet}
    (hp : peers[i]? = some p) (hq : peers[j]? = some q) (hn : n ∈ p.allowedIps) (hm : m ∈ q.allowedIps)
    (heq : n.trunc = m.trunc) : i = j := by
  have hpair := List.pairwise_iff_getElem.1 (List.nodup_flatMap.1 h).2
  have hapart {i j : Nat} {p q : WireGuardPeerConfig} {n m : IpNet} (hp : peers[i]? = some p)
      (hq : peers[j]? = some q) (hn : n ∈ p.allowedIps) (hm : m ∈ q.allowedIps) (heq : n.trunc = m.trunc) :
      ¬i < j := by
    intro hlt
    obtain ⟨hi, rfl⟩ := List.getElem?_eq_some_iff.1 hp
    obtain ⟨hj, rfl⟩ := List.getElem?_eq_some_iff.1 hq
    exact hpair i j hi hj hlt (List.mem_map_of_mem hn) (heq ▸ List.mem_map_of_mem hm)
  have hij := hapart hp hq hn hm heq
  have hji := hapart hq hp hm hn heq.symm
  omega

theorem longest_unique (h : config.validate publicKey = .ok ()) {ip : IpAddr} {i j : Nat}
    {p q : WireGuardPeerConfig} {n m : IpNet} (hp : config.peers[i]? = some p) (hq : config.peers[j]? = some q)
    (hn : Longest config.peers ip p n) (hm : Longest config.peers ip q m) : i = j ∧ n.trunc = m.trunc := by
  have hlen := Nat.le_antisymm (hm.longest p hn.peer_mem n hn.mem hn.contains)
    (hn.longest q hm.peer_mem m hm.mem hm.contains)
  have htrunc := trunc_eq_of_contains hlen hn.contains hm.contains
  exact ⟨owner_unique (routes_nodup h) hp hq hn.mem hm.mem htrunc, htrunc⟩

theorem Reordered.left (h : Reordered peers peers') {q : WireGuardPeerConfig} (hq : q ∈ peers') :
    ∃ p ∈ peers, p.publicKey = q.publicKey ∧ ∀ n, n ∈ p.allowedIps ↔ n ∈ q.allowedIps := by
  obtain ⟨between, hperm, hrel⟩ := h
  obtain ⟨p, hp, heq, hnetworks⟩ := exists_left_of_forall₂ hrel hq
  exact ⟨p, hperm.mem_iff.2 hp, by rw [heq], fun n => hnetworks.mem_iff⟩

theorem Reordered.right (h : Reordered peers peers') {p : WireGuardPeerConfig} (hp : p ∈ peers) :
    ∃ q ∈ peers', q.publicKey = p.publicKey ∧ ∀ n, n ∈ p.allowedIps ↔ n ∈ q.allowedIps := by
  obtain ⟨between, hperm, hrel⟩ := h
  obtain ⟨q, hq, heq, hnetworks⟩ := exists_right_of_forall₂ hrel (hperm.mem_iff.1 hp)
  exact ⟨q, hq, by rw [heq], fun n => hnetworks.mem_iff⟩

theorem routeKey_reordered (h : config.validate publicKey = .ok ()) {config' : WireGuardConfig}
    (hre : Reordered config.peers config'.peers) (ip : IpAddr) : config'.routeKey ip = config.routeKey ip := by
  cases hroute : config.routePeer ip with
  | none =>
    have hnone := routePeer_eq_none hroute
    cases hroute' : config'.routePeer ip with
    | none => rw [WireGuardConfig.routeKey, WireGuardConfig.routeKey, hroute, hroute']; rfl
    | some j =>
      obtain ⟨q, m, hq, hm⟩ := routePeer_eq_some hroute'
      obtain ⟨p, hp, -, hnetworks⟩ := hre.left hm.peer_mem
      have hnot := List.any_eq_false.1 (hnone p hp) m ((hnetworks m).2 hm.mem)
      exact absurd hm.contains hnot
  | some i =>
    obtain ⟨p, n, hp, hn⟩ := routePeer_eq_some hroute
    obtain ⟨q₀, hq₀, -, hnetworks₀⟩ := hre.right hn.peer_mem
    cases hroute' : config'.routePeer ip with
    | none =>
      have hnot := List.any_eq_false.1 (routePeer_eq_none hroute' q₀ hq₀) n ((hnetworks₀ n).1 hn.mem)
      exact absurd hn.contains hnot
    | some j =>
      obtain ⟨q, m, hq, hm⟩ := routePeer_eq_some hroute'
      obtain ⟨p', hp', hkey, hnetworks⟩ := hre.left hm.peer_mem
      obtain ⟨i', hi'⟩ := List.mem_iff_getElem?.1 hp'
      -- The longest network of the reordered peers is a longest one of the peers.
      have hm' : Longest config.peers ip p' m := by
        refine ⟨hp', (hnetworks m).2 hm.mem, hm.contains, fun other hother k hk hcontains => ?_⟩
        obtain ⟨other', hother', -, hsame⟩ := hre.right hother
        exact hm.longest other' hother' k ((hsame k).1 hk) hcontains
      obtain ⟨rfl, -⟩ := longest_unique h hp hi' hn hm'
      rw [hp, Option.some_inj] at hi'
      rw [WireGuardConfig.routeKey, WireGuardConfig.routeKey, hroute, hroute']
      simp only [Option.bind_some, hp, hq, Option.map_some, hi', hkey]

/-- **Routing on an accepted configuration: no peer if no network contains the address; else the one peer that has
the longest network that contains it, which no other peer has; and the same key for the peers and their
networks in any order.** -/
theorem routePeer_longest (h : config.validate publicKey = .ok ()) (ip : IpAddr) :
    (config.routePeer ip = none ↔ ∀ peer ∈ config.peers, ∀ n ∈ peer.allowedIps, n.contains ip = false) ∧
      (∀ i, config.routePeer ip = some i ↔
        ∃ peer n, config.peers[i]? = some peer ∧ Longest config.peers ip peer n) ∧
      (∀ (i j : Nat) (p q : WireGuardPeerConfig) (n m : IpNet), config.peers[i]? = some p →
        config.peers[j]? = some q → Longest config.peers ip p n → m ∈ q.allowedIps → n.trunc = m.trunc → i = j) ∧
      ∀ config' : WireGuardConfig, Reordered config.peers config'.peers → config'.routeKey ip = config.routeKey ip := by
  have hnone : config.routePeer ip = none → ∀ peer ∈ config.peers, ∀ n ∈ peer.allowedIps, n.contains ip = false := by
    intro hroute peer hpeer n hn
    simpa using List.any_eq_false.1 (routePeer_eq_none hroute peer hpeer) n hn
  refine ⟨⟨hnone, fun hall => ?_⟩, fun i => ⟨routePeer_eq_some, fun ⟨peer, n, hpeer, hn⟩ => ?_⟩, ?_, ?_⟩
  · cases hroute : config.routePeer ip with
    | none => rfl
    | some i =>
      obtain ⟨peer, n, -, hn⟩ := routePeer_eq_some hroute
      exact absurd hn.contains (by rw [hall peer hn.peer_mem n hn.mem]; decide)
  · cases hroute : config.routePeer ip with
    | none => exact absurd hn.contains (by rw [hnone hroute peer hn.peer_mem n hn.mem]; decide)
    | some j =>
      obtain ⟨q, m, hq, hm⟩ := routePeer_eq_some hroute
      rw [(longest_unique h hpeer hq hn hm).1]
  · exact fun i j p q n m hp hq hn hm heq => owner_unique (routes_nodup h) hp hq hn.mem hm heq
  · exact fun config' hre => routeKey_reordered h hre ip

/-- A configuration with two peers and three networks, one of them with host bits. -/
def nestedConfig : WireGuardConfig where
  privateKey := Vector.replicate 32 7
  localAddresses := [.v4 ⟨0x0A000002#32, 32, all_le_32⟩]
  peers := [
    ⟨"192.0.2.1".toList, 51820, Vector.replicate 32 9, [.v4 ⟨0x0A000000#32, 8, eight_le_32⟩]⟩,
    ⟨"192.0.2.2".toList, 51820, Vector.replicate 32 8,
      [.v4 ⟨0x0A010203#32, 16, sixteen_le_32⟩, .v4 ⟨0x0B000000#32, 8, eight_le_32⟩]⟩]
  mtu := 1420
  dns := [.v4 0x0A010101#32]
  remoteDnsResolve := true
  tcp := true
  udp := true
  tcpBufferSize := 262144
  udpBufferSize := 262144
  maxTcpSessions := 4096
  maxUdpSessions := 4096
  packetQueue := 1024
  workers := 1
  connectTimeout := 15 * 10 ^ 9
  udpIdleTimeout := 300 * 10 ^ 9

/-- The public key of the secret of `nestedConfig`. -/
def nestedPublicKey : Key :=
  #v[19, 190, 79, 234, 234, 242, 4, 199, 253, 51, 88, 252, 156, 0, 114, 24, 129, 209, 116, 39, 129, 40, 34, 126, 198,
    116, 243, 127, 127, 233, 123, 109]

/-- The second peer has the longer network. -/
theorem routePeer_longest_nested :
    nestedConfig.validate (fun _ => nestedPublicKey) = .ok () ∧ nestedConfig.routePeer (.v4 0x0A010909#32) = some 1 ∧
      ∃ peer n, nestedConfig.peers[1]? = some peer ∧ Longest nestedConfig.peers (.v4 0x0A010909#32) peer n :=
  have hvalid : nestedConfig.validate (fun _ => nestedPublicKey) = .ok () := by decide +kernel
  have hroute : nestedConfig.routePeer (.v4 0x0A010909#32) = some 1 := by decide +kernel
  ⟨hvalid, hroute, ((routePeer_longest hvalid _).2.1 1).1 hroute⟩

end WutherCore.Wireguard
