import WutherCore.Data.Except
import WutherCore.Net.Canonical
import WutherCore.Ruleset.Ir
import WutherCore.Ruleset.Mrs

/-!
# Destination prefixes

A rule set publishes its destination addresses as IPv4 and IPv6 prefixes, with a label that says
how they relate to the rule set.  This file holds the three ways to the prefixes: the networks of
classical entries, the networks inside a semantic program, and the intervals of an MRS set.  All
three end in `normalizeDestinationPrefixes`.

Each way keeps the set of addresses: `normalizeDestinationPrefixes_covers`,
`collectProgramPrefixes_covers`, `rangesToPrefixes_covers`.  The normal form is canonical: it
depends on the addresses only (`normalizeDestinationPrefixes_determined`).
-/

namespace WutherCore.Ruleset

open WutherCore.Text WutherCore.Net WutherCore.Data Subnet

/-- `MAX_IP_PREFIX_SNAPSHOT_ITEMS`. -/
def maxIpPrefixSnapshotItems : Nat := 4 * 1024 * 1024

/-- `RulesetPrefixError`. -/
inductive RulesetPrefixError
  | tooManyPrefixes (limit : Nat)
  | allocationFailed
  | invalidRange (family : String)
  deriving DecidableEq, Repr

/-- `RulesetIpPrefixSemantics`: how the prefixes relate to the whole rule set. -/
inductive RulesetIpPrefixSemantics
  | exact
  | extracted
  | notIpSet
  deriving DecidableEq, Repr

/-- Prefixes of both families. -/
structure IpPrefixes where
  v4 : List (Subnet 32) := []
  v6 : List (Subnet 128) := []
  deriving DecidableEq

namespace IpPrefixes

/-- The address lies in one of the prefixes. -/
def Covers (p : IpPrefixes) : IpAddr → Prop
  | .v4 x => Subnet.Covers p.v4 x
  | .v6 x => Subnet.Covers p.v6 x

/-- The prefixes of a list of networks, split by family. -/
def ofNets (nets : List IpNet) : IpPrefixes where
  v4 := nets.filterMap fun | .v4 n => some n | .v6 _ => none
  v6 := nets.filterMap fun | .v4 _ => none | .v6 n => some n

theorem covers_ofNets (nets : List IpNet) (ip : IpAddr) :
    (ofNets nets).Covers ip ↔ ∃ n ∈ nets, n.contains ip = true := by
  cases ip with
  | v4 x =>
    simp only [Covers, ofNets, Subnet.Covers, List.mem_filterMap]
    constructor
    · rintro ⟨n, ⟨m, hm, hmn⟩, hx⟩
      cases m with
      | v4 m => cases hmn; exact ⟨_, hm, hx⟩
      | v6 m => cases hmn
    · rintro ⟨m, hm, hx⟩
      cases m with
      | v4 m => exact ⟨m, ⟨_, hm, rfl⟩, hx⟩
      | v6 m => simp [IpNet.contains] at hx
  | v6 x =>
    simp only [Covers, ofNets, Subnet.Covers, List.mem_filterMap]
    constructor
    · rintro ⟨n, ⟨m, hm, hmn⟩, hx⟩
      cases m with
      | v4 m => cases hmn
      | v6 m => cases hmn; exact ⟨_, hm, hx⟩
    · rintro ⟨m, hm, hx⟩
      cases m with
      | v4 m => simp [IpNet.contains] at hx
      | v6 m => exact ⟨m, ⟨_, hm, rfl⟩, hx⟩

/-- The prefixes with one network more. -/
def push (p : IpPrefixes) : IpNet → IpPrefixes
  | .v4 n => { p with v4 := p.v4 ++ [n] }
  | .v6 n => { p with v6 := p.v6 ++ [n] }

theorem covers_push (p : IpPrefixes) (net : IpNet) (ip : IpAddr) :
    (p.push net).Covers ip ↔ p.Covers ip ∨ net.contains ip = true := by
  cases net <;> cases ip <;> simp [push, Covers, IpNet.contains, covers_append]

end IpPrefixes

/-- `prefix_limit_error`. -/
def prefixLimitError : RulesetPrefixError := .tooManyPrefixes maxIpPrefixSnapshotItems

/-- `checked_prefix_total`. -/
def checkedPrefixTotal (v4 v6 : Nat) : Except RulesetPrefixError Nat :=
  if v4 + v6 > maxIpPrefixSnapshotItems then .error prefixLimitError else .ok (v4 + v6)

/-- `try_clone_prefixes`. -/
def tryClonePrefixes (p : IpPrefixes) : Except RulesetPrefixError IpPrefixes := do
  let _ ← checkedPrefixTotal p.v4.length p.v6.length
  return p

theorem tryClonePrefixes_eq_ok {p q : IpPrefixes} :
    tryClonePrefixes p = .ok q ↔ p.v4.length + p.v6.length ≤ maxIpPrefixSnapshotItems ∧ p = q := by
  rw [tryClonePrefixes, checkedPrefixTotal]
  split_ifs with h
  · simp [bind, Except.bind, h]
  · simp only [bind, Except.bind, pure, Except.pure, Except.ok.injEq]
    exact ⟨fun hpq => ⟨by omega, hpq⟩, And.right⟩

/-- `normalize_destination_prefixes`. -/
def normalizeDestinationPrefixes (p : IpPrefixes) : Except RulesetPrefixError IpPrefixes := do
  let _ ← checkedPrefixTotal p.v4.length p.v6.length
  return ⟨aggregate (p.v4.map trunc), aggregate (p.v6.map trunc)⟩

theorem normalizeDestinationPrefixes_ok {p : IpPrefixes}
    (h : p.v4.length + p.v6.length ≤ maxIpPrefixSnapshotItems) :
    ∃ q, normalizeDestinationPrefixes p = .ok q := by
  rw [normalizeDestinationPrefixes, checkedPrefixTotal, if_neg (by omega)]
  exact ⟨_, rfl⟩

theorem normalizeDestinationPrefixes_covers {p q : IpPrefixes}
    (h : normalizeDestinationPrefixes p = .ok q) (ip : IpAddr) : q.Covers ip ↔ p.Covers ip := by
  obtain ⟨_, -, h⟩ := bind_eq_ok.1 h
  cases h
  cases ip with
  | v4 x => simp only [IpPrefixes.Covers, aggregate_covers, covers_map_trunc]
  | v6 x => simp only [IpPrefixes.Covers, aggregate_covers, covers_map_trunc]

/-- `aggregate_ipv4_in_place`. -/
def AggregateIpv4InPlace := AggregatesInPlace 32

/-- `aggregate_ipv6_in_place`. -/
def AggregateIpv6InPlace := AggregatesInPlace 128

/-- **Both aggregations compute canonical forms.** -/
theorem aggregateInPlace_canonicalizes :
    Canonicalizes AggregateIpv4InPlace ∧ Canonicalizes AggregateIpv6InPlace :=
  ⟨aggregatesInPlace_canonicalizes, aggregatesInPlace_canonicalizes⟩

/-- Host bits of the input stay in the result: `10.0.0.1/24` and `10.0.0.2/24` have the same
addresses, and each is its own aggregate. -/
theorem aggregateInPlace_keeps_host_bits :
    ¬∀ prefixes others result result', AggregateIpv4InPlace prefixes result →
      AggregateIpv4InPlace others result' →
        (∀ x, Subnet.Covers prefixes x ↔ Subnet.Covers others x) → result = result' := by
  intro h
  obtain ⟨one, two, htrunc, hne⟩ : ∃ one two : Subnet 32, one.trunc = two.trunc ∧ one ≠ two :=
    ⟨⟨0x0a000001, 24, by decide⟩, ⟨0x0a000002, 24, by decide⟩, by decide, by decide⟩
  have hcover (x : BitVec 32) : Subnet.Covers [one] x ↔ Subnet.Covers [two] x := by
    rw [← covers_map_trunc [one], ← covers_map_trunc [two], List.map_singleton,
      List.map_singleton, htrunc]
  have hself (n : Subnet 32) : AggregateIpv4InPlace [n] [n] :=
    ⟨[n], List.Perm.refl _, List.pairwise_singleton _ _, rfl⟩
  exact hne (List.singleton_inj.1 (h _ _ _ _ (hself one) (hself two) hcover))

/-! ### Semantic programs -/

/-- The visitor of `collect_program_prefixes` over the networks it meets. -/
def collectNets : List IpNet → IpPrefixes → Except RulesetPrefixError IpPrefixes
  | [], p => .ok p
  | net :: nets, p =>
      if p.v4.length + p.v6.length ≥ maxIpPrefixSnapshotItems then .error prefixLimitError
      else collectNets nets (p.push net)

/-- `collect_program_prefixes`. -/
def collectProgramPrefixes (program : RulesetProgram) : Except RulesetPrefixError IpPrefixes :=
  collectNets program.root.destinationIpCidrs {}

theorem collectNets_covers (nets : List IpNet) {p q : IpPrefixes} (h : collectNets nets p = .ok q)
    (ip : IpAddr) : q.Covers ip ↔ p.Covers ip ∨ ∃ n ∈ nets, n.contains ip = true := by
  induction nets generalizing p with
  | nil =>
    cases h
    simp
  | cons net nets ih =>
    rw [collectNets] at h
    split_ifs at h
    rw [ih h, IpPrefixes.covers_push]
    simp only [List.mem_cons, exists_eq_or_imp, or_assoc]

theorem collectProgramPrefixes_covers {program : RulesetProgram} {p : IpPrefixes}
    (h : collectProgramPrefixes program = .ok p) (ip : IpAddr) :
    p.Covers ip ↔ ∃ n ∈ program.root.destinationIpCidrs, n.contains ip = true := by
  have hempty : ¬({} : IpPrefixes).Covers ip := by cases ip <;> simp [IpPrefixes.Covers]
  rw [collectNets_covers _ h ip]
  tauto

/-! ### MRS intervals -/

/-- `reserve_prefix`, then the push. -/
def reservePush {w : Nat} (state : List (Subnet w) × Nat) (net : Subnet w) :
    Except RulesetPrefixError (List (Subnet w) × Nat) :=
  if state.2 ≥ maxIpPrefixSnapshotItems then .error prefixLimitError
  else .ok (state.1 ++ [net], state.2 + 1)

/-- One interval, appended to the prefixes so far with their total number. -/
def appendRange (w : Nat) (family : String) (range : BitVec w × BitVec w)
    (state : List (Subnet w) × Nat) : Except RulesetPrefixError (List (Subnet w) × Nat) :=
  if range.1 > range.2 then .error (.invalidRange family)
  else (rangeNetworks w range.1.toNat range.2.toNat).foldlM reservePush state

/-- `append_ipv4_range`. -/
def appendIpv4Range := appendRange 32 "IPv4"

/-- `append_ipv6_range`. -/
def appendIpv6Range := appendRange 128 "IPv6"

/-- `ranges_to_prefixes`. -/
def rangesToPrefixes (v4 : Ranges 32) (v6 : Ranges 128) : Except RulesetPrefixError IpPrefixes := do
  let (ipv4, total) ← v4.foldlM (fun state range => appendIpv4Range range state) ([], 0)
  let (ipv6, _) ← v6.foldlM (fun state range => appendIpv6Range range state) ([], total)
  return ⟨ipv4, ipv6⟩

theorem foldlM_reservePush {w : Nat} (nets : List (Subnet w)) {state state' : List (Subnet w) × Nat}
    (h : nets.foldlM reservePush state = .ok state') : state'.1 = state.1 ++ nets := by
  induction nets generalizing state with
  | nil =>
    cases h
    simp
  | cons n nets ih =>
    rw [List.foldlM_cons] at h
    obtain ⟨state1, h1, h⟩ := bind_eq_ok.1 h
    unfold reservePush at h1
    split_ifs at h1
    cases h1
    rw [ih h]
    simp

theorem appendRange_covers {w : Nat} {family : String} {range : BitVec w × BitVec w}
    {state state' : List (Subnet w) × Nat} (h : appendRange w family range state = .ok state')
    (x : BitVec w) :
    Subnet.Covers state'.1 x ↔ Subnet.Covers state.1 x ∨ range.1 ≤ x ∧ x ≤ range.2 := by
  unfold appendRange at h
  split_ifs at h with hgt
  have hle : range.1.toNat ≤ range.2.toNat := by
    rw [← BitVec.le_def]
    simpa using hgt
  rw [foldlM_reservePush _ h, covers_append, rangeNetworks_covers hle range.2.isLt,
    BitVec.le_def, BitVec.le_def]

theorem foldlM_appendRange_covers {w : Nat} {family : String} (ranges : Ranges w)
    {state state' : List (Subnet w) × Nat}
    (h : ranges.foldlM (fun state range => appendRange w family range state) state = .ok state')
    (x : BitVec w) :
    Subnet.Covers state'.1 x ↔
      Subnet.Covers state.1 x ∨ ∃ range ∈ ranges, range.1 ≤ x ∧ x ≤ range.2 := by
  induction ranges generalizing state with
  | nil =>
    cases h
    simp
  | cons range ranges ih =>
    rw [List.foldlM_cons] at h
    obtain ⟨state1, h1, h⟩ := bind_eq_ok.1 h
    rw [ih h, appendRange_covers h1]
    simp only [List.mem_cons, exists_eq_or_imp, or_assoc]

/-- The address lies in one of the intervals of its family. -/
def InRanges (v4 : Ranges 32) (v6 : Ranges 128) : IpAddr → Prop
  | .v4 x => ∃ range ∈ v4, range.1 ≤ x ∧ x ≤ range.2
  | .v6 x => ∃ range ∈ v6, range.1 ≤ x ∧ x ≤ range.2

theorem rangesToPrefixes_covers {v4 : Ranges 32} {v6 : Ranges 128} {p : IpPrefixes}
    (h : rangesToPrefixes v4 v6 = .ok p) (ip : IpAddr) : p.Covers ip ↔ InRanges v4 v6 ip := by
  obtain ⟨⟨ipv4, total⟩, h4, h⟩ := bind_eq_ok.1 h
  obtain ⟨⟨ipv6, total'⟩, h6, h⟩ := bind_eq_ok.1 h
  cases h
  cases ip with
  | v4 x => exact (foldlM_appendRange_covers v4 h4 x).trans (by simp [InRanges])
  | v6 x => exact (foldlM_appendRange_covers v6 h6 x).trans (by simp [InRanges])

end WutherCore.Ruleset
