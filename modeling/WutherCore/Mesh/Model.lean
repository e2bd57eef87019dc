import Mathlib
import WutherCore.Data.Keyed
import WutherCore.Net.Prefix

/-!
# Claims on host resources

The data model of the mesh: what a backend or a host subsystem may claim (`SystemResource`), whether
it shares the claim (`ClaimMode`), who it is (`ResourceOwner`), and the whole claim
(`OwnedResourceClaim`).  All of these derive `Ord`, and the order decides which of two conflicting
claims a report names first; each type gets its word (`Keyed`) and the order of the words.

A backend id is a trimmed text of at most 128 bytes of a small ASCII set, and a mark range has its
start at or below its end: both are fields, so no other value can be built.
-/

namespace WutherCore.Mesh

open WutherCore.Text WutherCore.Net WutherCore.Data Keyed

/-- The bytes of a backend id. -/
def isBackendIdChar (c : Char) : Bool :=
  c.isAlphanum || c == '/' || c == '.' || c == '_' || c == ':' || c == '-'

/-- `BackendId::MAX_BYTES`. -/
def maxBackendIdBytes : Nat := 128

/-- `BackendId`.  Its characters are ASCII, so its length counts bytes. -/
structure BackendId where
  value : Str
  nonempty : value ≠ []
  length_le : value.length ≤ maxBackendIdBytes
  chars : ∀ c ∈ value, isBackendIdChar c = true
  deriving DecidableEq

/-- `BackendId::new`, after trimming. -/
def BackendId.new (value : Str) : Option BackendId :=
  if h : trim value ≠ [] ∧ (trim value).length ≤ maxBackendIdBytes ∧
      ∀ c ∈ trim value, isBackendIdChar c = true then
    some ⟨trim value, h.1, h.2.1, h.2.2⟩
  else
    none

/-- `SocketTransport`. -/
inductive SocketTransport
  | tcp
  | udp
  | other (name : Str)
  deriving DecidableEq

/-- `FwmarkRange`: an inclusive range of marks. -/
structure FwmarkRange where
  start : UInt32
  stop : UInt32
  start_le : start ≤ stop
  deriving DecidableEq

/-- `FwmarkRange::contains`. -/
def FwmarkRange.contains (r : FwmarkRange) (value : UInt32) : Bool :=
  r.start ≤ value && value ≤ r.stop

/-- `FwmarkRange::overlaps`. -/
def FwmarkRange.overlaps (r other : FwmarkRange) : Bool :=
  r.start ≤ other.stop && other.start ≤ r.stop

theorem FwmarkRange.overlaps_iff (r other : FwmarkRange) :
    r.overlaps other = true ↔ ∃ mark, r.contains mark = true ∧ other.contains mark = true := by
  have hr := r.start_le
  have ho := other.start_le
  simp only [overlaps, contains, Bool.and_eq_true, decide_eq_true_iff, UInt32.le_iff_toNat_le] at *
  constructor
  · intro h
    -- the larger of the two starts lies in both
    rcases le_total r.start.toNat other.start.toNat with hle | hle
    · exact ⟨other.start, ⟨hle, h.2⟩, le_refl _, ho⟩
    · exact ⟨r.start, ⟨le_refl _, hr⟩, hle, h.1⟩
  · rintro ⟨mark, hm, hm'⟩
    omega

/-- `SystemResource`. -/
inductive SystemResource
  | routeManager
  | defaultRouteV4
  | defaultRouteV6
  | dnsManager
  | firewallManager
  | hostsDatabase
  | interfaceManager
  | interface (name : Str)
  | listenSocket (transport : SocketTransport) (address : SocketAddr)
  | addressPrefix (net : IpNet)
  | routePrefix (table : Option UInt32) (net : IpNet)
  | routeTable (table : UInt32)
  | fwmarkRange (range : FwmarkRange)
  deriving DecidableEq

/-- `ClaimMode`. -/
inductive ClaimMode
  | exclusive
  | coordinatedShared (coordinationKey : Str)
  deriving DecidableEq

/-- `ResourceClaim`. -/
structure ResourceClaim where
  resource : SystemResource
  mode : ClaimMode
  deriving DecidableEq

/-- `ResourceOwner`: a backend and a host subsystem of one name are two owners. -/
inductive ResourceOwner
  | backend (id : BackendId)
  | hostSubsystem (id : BackendId)
  deriving DecidableEq

/-- `OwnedResourceClaim`. -/
structure OwnedResourceClaim where
  owner : ResourceOwner
  claim : ResourceClaim

/-! ### The derived orders -/

instance : Keyed BackendId where
  key id := key id.value
  key_append_iff {a b s t} := by
    cases a
    cases b
    simp

instance : Keyed IpNet where
  key
    | .v4 n => 0 :: (key n.addr ++ key n.len)
    | .v6 n => 1 :: (key n.addr ++ key n.len)
  key_append_iff {a b s t} := by
    rcases a with ⟨a, la, ha⟩ | ⟨a, la, ha⟩ <;> rcases b with ⟨b, lb, hb⟩ | ⟨b, lb, hb⟩ <;>
      simp [and_assoc]

instance : Keyed SocketAddr where
  key
    | .v4 ip port => 0 :: (key ip ++ key port)
    | .v6 ip port flowinfo scopeId => 1 :: (key ip ++ (key port ++ (key flowinfo ++ key scopeId)))
  key_append_iff {a b s t} := by cases a <;> cases b <;> simp [and_assoc]

instance : Keyed SocketTransport where
  key
    | .tcp => [0]
    | .udp => [1]
    | .other name => 2 :: key name
  key_append_iff {a b s t} := by cases a <;> cases b <;> simp

instance : Keyed FwmarkRange where
  key r := key r.start ++ key r.stop
  key_append_iff {a b s t} := by
    cases a
    cases b
    simp [and_assoc]

instance : Keyed SystemResource where
  key
    | .routeManager => [0]
    | .defaultRouteV4 => [1]
    | .defaultRouteV6 => [2]
    | .dnsManager => [3]
    | .firewallManager => [4]
    | .hostsDatabase => [5]
    | .interfaceManager => [6]
    | .interface name => 7 :: key name
    | .listenSocket transport address => 8 :: (key transport ++ key address)
    | .addressPrefix p => 9 :: key p
    | .routePrefix table p => 10 :: (key table ++ key p)
    | .routeTable table => 11 :: key table
    | .fwmarkRange range => 12 :: key range
  key_append_iff {a b s t} := by cases a <;> cases b <;> simp [and_assoc]

instance : Keyed ClaimMode where
  key
    | .exclusive => [0]
    | .coordinatedShared coordinationKey => 1 :: key coordinationKey
  key_append_iff {a b s t} := by cases a <;> cases b <;> simp

instance : Keyed ResourceOwner where
  key
    | .backend id => 0 :: key id
    | .hostSubsystem id => 1 :: key id
  key_append_iff {a b s t} := by cases a <;> cases b <;> simp

instance : Keyed OwnedResourceClaim where
  key c := key c.owner ++ (key c.claim.resource ++ key c.claim.mode)
  key_append_iff {a b s t} := by
    rcases a with ⟨oa, ra, ma⟩
    rcases b with ⟨ob, rb, mb⟩
    simp [and_assoc]

/-- The derived order of claims: the owner first, then the resource, then the mode. -/
instance : LinearOrder OwnedResourceClaim := Keyed.linearOrder

end WutherCore.Mesh
