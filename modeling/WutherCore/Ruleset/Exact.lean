import WutherCore.Ruleset.Deferred
import WutherCore.Ruleset.Index

/-!
# Exact prefix snapshots

A snapshot labelled `Exact` is used as a route table in place of the rule set, so it should hold
exactly the addresses that the matcher matches.

* Semantic programs and MRS sets keep this (`compileSemantic_exact`, `compileMrs_exact`).
* Classical entries reach the matcher through `ip_network`, which rejects a network with host bits,
  and the snapshot through `trunc`, which clears them.  The two agree exactly when every address of
  a network with host bits also lies in a network without (`compile_exact_iff`).
-/

namespace WutherCore.Ruleset

open WutherCore.Text WutherCore.Net WutherCore.Data

/-- If the prefixes of a loaded matcher are published as `Exact`, the matcher matches the contexts
whose destination address lies in them, and no others. -/
def ExactIsExact (cr : Crates) (m : SetMatcher) : Prop :=
  ∀ p, (PrefixView.loaded m.destinationIpPrefixes).publish = (.ready .exact, p) →
    ∀ ctx, m.matchesContext cr ctx = true ↔ ∃ ip, destinationIp ctx = some ip ∧ p.Covers ip

theorem publish_exact {m : SetMatcher} {p : IpPrefixes} :
    (PrefixView.loaded m.destinationIpPrefixes).publish = (.ready .exact, p) ↔
      m.destinationIpPrefixes = .ok (.exact, p) := by
  cases h : m.destinationIpPrefixes with
  | error e => cases e <;> simp [PrefixView.publish]
  | ok v =>
    obtain ⟨semantics, q⟩ := v
    simp [PrefixView.publish]

section Install

variable {L : Type} {m : RulesetMatcher L} {semantics : RulesetIpPrefixSemantics}

theorem destinationIpPrefixes_install (prefixes : Except RulesetPrefixError IpPrefixes) :
    (m.installDestinationPrefixes prefixes semantics).destinationIpPrefixes =
      prefixes.map (semantics, ·) := by
  cases prefixes <;> rfl

end Install

/-! ### Matchers with rules on the destination address only -/

section Blank

variable {L : Type} {cr : Crates} {m : RulesetMatcher L} {ctx : RulesetMatchContext}

/-- A matcher that decides by the destination address alone. -/
structure RulesetMatcher.OnlyDestination (cr : Crates) (m : RulesetMatcher L) : Prop where
  semanticProgram : m.semanticProgram = none
  fixed : ∀ ctx, m.matchesFixed cr ctx = false
  process : m.readsProcess = false
  logical : m.logicalRules = []

theorem RulesetMatcher.OnlyDestination.matches_iff (h : m.OnlyDestination cr) (rule : L → Bool) :
    m.matchesContextWith cr ctx rule = true ↔
      ∃ ip, destinationIp ctx = some ip ∧ m.matchesDestinationIp cr ip = true := by
  rw [matchesContextWith_eq h.semanticProgram, h.fixed, matchesProcess_eq_false h.process, h.logical]
  simp [Option.any_eq_true]

end Blank

/-! ### Semantic programs -/

/-- **An `Exact` snapshot of a semantic program is exact.** -/
theorem compileSemantic_exact (cr : Crates) (name : Str) (program : RulesetProgram) :
    ExactIsExact cr (compileSemantic name program) := by
  intro p hp ctx
  rw [publish_exact, compileSemantic, destinationIpPrefixes_install] at hp
  obtain ⟨q, hq, hpq⟩ := map_eq_ok.1 hp
  obtain ⟨hsem, rfl⟩ := Prod.mk.injEq .. ▸ hpq
  have hunion : program.root.isDestinationIpUnion = true := by
    rw [hq] at hsem
    by_contra hno
    simp only [if_neg hno] at hsem
    split_ifs at hsem
  obtain ⟨collected, hcollect, hnorm⟩ := bind_eq_ok.1 hq
  have hmatch : (compileSemantic name program).matchesContext cr ctx =
      program.root.matches cr ctx := by
    rw [SetMatcher.matchesContext, compileSemantic, RulesetMatcher.matchesContextWith_install]
    rfl
  rw [hmatch, program.root.matches_of_isDestinationIpUnion cr ctx hunion]
  simp only [Option.any_eq_true, List.any_eq_true, normalizeDestinationPrefixes_covers hnorm,
    collectProgramPrefixes_covers hcollect]

/-! ### MRS sets -/

theorem containsRange_nil {w : Nat} (ip : BitVec w) : containsRange [] ip = false := rfl

theorem compileMrs_matchesDestinationIp {cr : Crates} (laws : cr.IpNetworkLaws) (name : Str)
    {set : MrsIpCidrSet} (h4 : RangesOrdered set.v4Ranges) (h6 : RangesOrdered set.v6Ranges)
    (count : Nat) (ip : IpAddr) :
    (compileMrs name (.ipCidr set count)).matchesDestinationIp cr ip = true ↔
      InRanges set.v4Ranges set.v6Ranges ip := by
  rw [compileMrs, RulesetMatcher.matchesDestinationIp_install]
  simp only [RulesetMatcher.matchesDestinationIp, PrefixTable.contains, laws.longestMatch_eq,
    List.any_nil, Bool.false_or]
  cases ip with
  | v4 x =>
    rw [InRanges, ← containsRange_iff h4]
    cases set.v4Ranges <;> simp [containsRange_nil]
  | v6 x =>
    rw [InRanges, ← containsRange_iff h6]
    cases set.v6Ranges <;> simp [containsRange_nil]

/-- **An `Exact` snapshot of an MRS set is exact**, for every set that the reader accepts. -/
theorem compileMrs_exact {cr : Crates} (laws : cr.IpNetworkLaws) (name : Str)
    {r r' : List UInt8} {set : MrsIpCidrSet} (hread : MrsIpCidrSet.read r = .ok (set, r'))
    (count : Nat) : ExactIsExact cr (compileMrs name (.ipCidr set count)) := by
  obtain ⟨h4, h6⟩ := MrsIpCidrSet.read_ordered hread
  intro p hp ctx
  rw [publish_exact, compileMrs, destinationIpPrefixes_install] at hp
  obtain ⟨q, hq, hpq⟩ := map_eq_ok.1 hp
  obtain ⟨-, rfl⟩ := Prod.mk.injEq .. ▸ hpq
  obtain ⟨ranges, hranges, hnorm⟩ := bind_eq_ok.1 hq
  have honly : (compileMrs name (.ipCidr set count)).OnlyDestination cr := by
    refine ⟨?_, fun ctx => ?_, ?_, ?_⟩
    · rw [compileMrs, RulesetMatcher.semanticProgram_install]
    · rw [compileMrs, matchesFixed_install]
      simp [RulesetMatcher.matchesFixed, RulesetMatcher.matchesHost, RulesetMatcher.matchesSourceIp,
        RulesetMatcher.matchesRegion, RulesetMatcher.matchesMetadata, suffixTrieMatches,
        optionInSet, inPortRanges, PrefixTable.contains, laws.longestMatch_eq, Option.any_eq_false]
    · rw [compileMrs, RulesetMatcher.readsProcess_install]
      rfl
    · rw [compileMrs, RulesetMatcher.logicalRules_install]
  rw [SetMatcher.matchesContext, honly.matches_iff]
  simp only [compileMrs_matchesDestinationIp laws name h4 h6 count,
    normalizeDestinationPrefixes_covers hnorm, rangesToPrefixes_covers hranges]

/-! ### Classical entries -/

section Entries

variable {cr : Crates} {es : List ClassicalEntry}

/-- The networks of the `IP-CIDR` entries. -/
def netsOf (cr : Crates) (es : List ClassicalEntry) : List IpNet :=
  (valuesOf .ipCidr es).filterMap cr.parseIpNet

/-- What makes classical entries an exact set: only prefixes that parse, at least one, and no more
than a snapshot holds. -/
structure OnlyPrefixes (cr : Crates) (es : List ClassicalEntry) : Prop where
  ne_nil : es ≠ []
  length_le : es.length ≤ maxIpPrefixSnapshotItems
  isPrefix : ∀ e ∈ es, e.kind = .ipCidr ∧ (cr.parseIpNet e.value).isSome

/-- Every address of a network with host bits lies in a network without. -/
def HostBitsCovered (cr : Crates) (es : List ClassicalEntry) : Prop :=
  ∀ n ∈ netsOf cr es, n.hasHostBits = true → ∀ ip, n.contains ip = true →
    ∃ n' ∈ netsOf cr es, n'.hasHostBits = false ∧ n'.contains ip = true

theorem foldl_insert_networks (laws : cr.IpNetworkLaws) (nets : List IpNet) (table : PrefixTable) :
    (nets.foldl (PrefixTable.insert cr) table).networks =
      table.networks ++ nets.filter (!·.hasHostBits) := by
  induction nets generalizing table with
  | nil => simp
  | cons n nets ih =>
    rw [List.foldl_cons, ih, PrefixTable.insert, laws.parseIpNetwork_display]
    cases h : n.hasHostBits <;> simp [h]

theorem covers_cidrsOf (ip : IpAddr) :
    (cidrsOf cr .ipCidr es).Covers ip ↔ ∃ n ∈ netsOf cr es, n.contains ip = true := by
  rw [← IpPrefixes.covers_ofNets]
  cases ip with
  | v4 x => exact Subnet.covers_perm (List.perm_insertionSort _ _) x
  | v6 x => exact Subnet.covers_perm (List.perm_insertionSort _ _) x

theorem mem_cidrsOf (n : IpNet) :
    n ∈ (cidrsOf cr .ipCidr es).v4.map IpNet.v4 ++ (cidrsOf cr .ipCidr es).v6.map IpNet.v6 ↔
      n ∈ netsOf cr es := by
  have h4 : ∀ m, m ∈ (cidrsOf cr .ipCidr es).v4 ↔ IpNet.v4 m ∈ netsOf cr es := by
    intro m
    rw [cidrsOf, (List.perm_insertionSort _ _).mem_iff, IpPrefixes.ofNets, List.mem_filterMap]
    constructor
    · rintro ⟨k, hk, hkm⟩
      cases k <;> cases hkm
      exact hk
    · exact fun h => ⟨_, h, rfl⟩
  have h6 : ∀ m, m ∈ (cidrsOf cr .ipCidr es).v6 ↔ IpNet.v6 m ∈ netsOf cr es := by
    intro m
    rw [cidrsOf, (List.perm_insertionSort _ _).mem_iff, IpPrefixes.ofNets, List.mem_filterMap]
    constructor
    · rintro ⟨k, hk, hkm⟩
      cases k <;> cases hkm
      exact hk
    · exact fun h => ⟨_, h, rfl⟩
  cases n <;> simp [h4, h6]

theorem tableOf_contains (laws : cr.IpNetworkLaws) (ip : IpAddr) :
    (tableOf cr (cidrsOf cr .ipCidr es)).contains cr ip = true ↔
      ∃ n ∈ netsOf cr es, n.hasHostBits = false ∧ n.contains ip = true := by
  rw [PrefixTable.contains, laws.longestMatch_eq, tableOf, foldl_insert_networks laws,
    List.any_eq_true]
  simp only [List.nil_append, List.mem_filter, mem_cidrsOf, Bool.not_eq_true', and_assoc]

theorem cidrsOf_length :
    (cidrsOf cr .ipCidr es).v4.length + (cidrsOf cr .ipCidr es).v6.length =
      (netsOf cr es).length := by
  have hsplit : ∀ nets : List IpNet, (IpPrefixes.ofNets nets).v4.length +
      (IpPrefixes.ofNets nets).v6.length = nets.length := by
    intro nets
    induction nets with
    | nil => rfl
    | cons n nets ih =>
      simp only [IpPrefixes.ofNets, List.length_cons] at ih ⊢
      cases n <;> simp <;> omega
  simp only [cidrsOf, List.length_insertionSort]
  exact hsplit _

theorem semanticsOf_exact :
    semanticsOf cr es = .exact ↔
      es ≠ [] ∧ ∀ e ∈ es, e.kind = .ipCidr ∧ (cr.parseIpNet e.value).isSome := by
  unfold semanticsOf
  simp only [List.any_eq_true, List.all_eq_true, Bool.and_eq_true, decide_eq_true_eq]
  constructor
  · intro h
    split_ifs at h with hany hall
    obtain ⟨e, he, -⟩ := hany
    exact ⟨List.ne_nil_of_mem he, hall⟩
  · rintro ⟨hne, hall⟩
    obtain ⟨e, he⟩ := List.exists_mem_of_ne_nil es hne
    rw [if_pos ⟨e, he, hall e he⟩, if_pos hall]

theorem compile_onlyDestination (laws : cr.IpNetworkLaws) (name : Str)
    (h : ∀ e ∈ es, e.kind = .ipCidr) : (compile cr name es).OnlyDestination cr := by
  have hvalues : ∀ kind : ClassicalKind, kind ≠ .ipCidr → valuesOf kind es = [] := by
    intro kind hk
    simp only [valuesOf, ofKind, List.map_eq_nil_iff, List.filter_eq_nil_iff, decide_eq_true_eq]
    exact fun e he heq => hk (heq ▸ h e he)
  have hlogical : es.filter (·.kind.isLogical) = [] := by
    rw [List.filter_eq_nil_iff]
    intro e he
    simp [h e he, ClassicalKind.isLogical]
  have hmatch : es.any (·.kind = .match) = false := by
    simp only [List.any_eq_false, decide_eq_true_eq]
    intro e he
    simp [h e he]
  refine ⟨compileWith_semanticProgram, fun ctx => ?_, ?_, ?_⟩
  · rw [compile, compileWith, matchesFixed_install]
    simp [RulesetMatcher.matchesFixed, RulesetMatcher.matchesHost, RulesetMatcher.matchesSourceIp,
      RulesetMatcher.matchesRegion, RulesetMatcher.matchesMetadata, suffixTrieMatches, optionInSet,
      inPortRanges, PrefixTable.contains, laws.longestMatch_eq, Option.any_eq_false, compileRules,
      hvalues, hmatch, cidrsOf, tableOf, IpPrefixes.ofNets]
  · rw [compile, compileWith, RulesetMatcher.readsProcess_install]
    simp [RulesetMatcher.readsProcess, compileRules, hvalues, compileRegexSet, compileGlobSet]
  · rw [compile, compileWith, RulesetMatcher.logicalRules_install]
    simp [compileRules, hlogical]

theorem compile_matchesDestinationIp (laws : cr.IpNetworkLaws) (name : Str)
    (h : ∀ e ∈ es, e.kind = .ipCidr) (ip : IpAddr) :
    (compile cr name es).matchesDestinationIp cr ip = true ↔
      ∃ n ∈ netsOf cr es, n.hasHostBits = false ∧ n.contains ip = true := by
  have hsuffix : valuesOf .ipSuffix es = [] := by
    simp only [valuesOf, ofKind, List.map_eq_nil_iff, List.filter_eq_nil_iff, decide_eq_true_eq]
    intro e he
    simp [h e he]
  rw [compile, compileWith, RulesetMatcher.matchesDestinationIp_install, ← tableOf_contains laws]
  cases ip <;> simp [RulesetMatcher.matchesDestinationIp, compileRules, hsuffix]

theorem netsOf_length (h : ∀ e ∈ es, e.kind = .ipCidr ∧ (cr.parseIpNet e.value).isSome) :
    (netsOf cr es).length = es.length := by
  have hkind : ofKind .ipCidr es = es := by
    rw [ofKind, List.filter_eq_self]
    intro e he
    simp [(h e he).1]
  have hsome : ∀ e ∈ es.map (·.value), (cr.parseIpNet e).isSome := by
    rw [List.forall_mem_map]
    exact fun e he => (h e he).2
  rw [netsOf, valuesOf, hkind, List.length_filterMap_eq_countP, List.countP_eq_length.2 hsome,
    List.length_map]

theorem compile_destinationIpPrefixes (name : Str) :
    (∃ p, (compile cr name es).destinationIpPrefixes = .ok (.exact, p)) ↔ OnlyPrefixes cr es := by
  have htotal : ∀ prefixes : Except RulesetPrefixError IpPrefixes, ∀ semantics,
      (∃ p, prefixes.map (semantics, ·) = .ok (RulesetIpPrefixSemantics.exact, p)) ↔
        semantics = .exact ∧ ∃ p, prefixes = .ok p := by
    intro prefixes semantics
    cases prefixes <;> simp [Except.map]
  have hok : (∃ p, (tryClonePrefixes (cidrsOf cr .ipCidr es) >>= normalizeDestinationPrefixes) =
      .ok p) ↔ (netsOf cr es).length ≤ maxIpPrefixSnapshotItems := by
    rw [← cidrsOf_length]
    constructor
    · rintro ⟨p, hp⟩
      obtain ⟨cloned, hclone, -⟩ := bind_eq_ok.1 hp
      exact (tryClonePrefixes_eq_ok.1 hclone).1
    · intro hle
      obtain ⟨p, hp⟩ := normalizeDestinationPrefixes_ok hle
      exact ⟨p, bind_eq_ok.2 ⟨_, tryClonePrefixes_eq_ok.2 ⟨hle, rfl⟩, hp⟩⟩
  rw [compile, compileWith, destinationIpPrefixes_install, htotal, hok, semanticsOf_exact]
  constructor
  · rintro ⟨⟨hne, hall⟩, hle⟩
    exact ⟨hne, netsOf_length hall ▸ hle, hall⟩
  · rintro ⟨hne, hle, hall⟩
    exact ⟨⟨hne, hall⟩, (netsOf_length hall).symm ▸ hle⟩

theorem compile_prefixes_cover {name : Str} {semantics : RulesetIpPrefixSemantics} {p : IpPrefixes}
    (h : (compile cr name es).destinationIpPrefixes = .ok (semantics, p)) (ip : IpAddr) :
    p.Covers ip ↔ ∃ n ∈ netsOf cr es, n.contains ip = true := by
  rw [compile, compileWith, destinationIpPrefixes_install] at h
  obtain ⟨q, hq, hpq⟩ := map_eq_ok.1 h
  obtain ⟨-, rfl⟩ := Prod.mk.injEq .. ▸ hpq
  obtain ⟨cloned, hclone, hnorm⟩ := bind_eq_ok.1 hq
  obtain ⟨-, rfl⟩ := tryClonePrefixes_eq_ok.1 hclone
  rw [normalizeDestinationPrefixes_covers hnorm, covers_cidrsOf]

/-- **When an `Exact` snapshot of classical entries is exact**: unless the entries are prefixes
only, there is none; else the prefixes with host bits must be covered by the others. -/
theorem compile_exact_iff (laws : cr.IpNetworkLaws) (name : Str) (es : List ClassicalEntry) :
    ExactIsExact cr (compile cr name es) ↔ (OnlyPrefixes cr es → HostBitsCovered cr es) := by
  constructor
  · intro h honly n hn hbits ip hip
    obtain ⟨p, hp⟩ := (compile_destinationIpPrefixes name).2 honly
    have hkind : ∀ e ∈ es, e.kind = .ipCidr := fun e he => (honly.isPrefix e he).1
    have hmatch := (h p (publish_exact.2 hp) { dstIp := some ip }).2
      ⟨ip, rfl, (compile_prefixes_cover hp ip).2 ⟨n, hn, hip⟩⟩
    rw [SetMatcher.matchesContext, (compile_onlyDestination laws name hkind).matches_iff] at hmatch
    obtain ⟨ip', hip', hdst⟩ := hmatch
    cases hip'
    exact (compile_matchesDestinationIp laws name hkind ip).1 hdst
  · intro h p hp ctx
    rw [publish_exact] at hp
    have honly : OnlyPrefixes cr es := (compile_destinationIpPrefixes name).1 ⟨p, hp⟩
    have hkind : ∀ e ∈ es, e.kind = .ipCidr := fun e he => (honly.isPrefix e he).1
    rw [SetMatcher.matchesContext, (compile_onlyDestination laws name hkind).matches_iff]
    refine exists_congr fun ip => and_congr_right fun _ => ?_
    rw [compile_matchesDestinationIp laws name hkind, compile_prefixes_cover hp]
    constructor
    · rintro ⟨n, hn, -, hip⟩
      exact ⟨n, hn, hip⟩
    · rintro ⟨n, hn, hip⟩
      cases hbits : n.hasHostBits with
      | false => exact ⟨n, hn, hbits, hip⟩
      | true => exact h honly n hn hbits ip hip

end Entries

/-! ### The three ways together -/

/-- **Exact snapshots.**  Those of semantic programs and of MRS sets that the reader accepts are
exact; those of classical entries are exact if and only if every address of a prefix with host bits
lies in a prefix without. -/
theorem exact_snapshots {cr : Crates} (laws : cr.IpNetworkLaws) (name : Str) :
    (∀ es, ExactIsExact cr (compile cr name es) ↔ (OnlyPrefixes cr es → HostBitsCovered cr es)) ∧
    (∀ program, ExactIsExact cr (compileSemantic name program)) ∧
    ∀ r r' set count, MrsIpCidrSet.read r = .ok (set, r') →
      ExactIsExact cr (compileMrs name (.ipCidr set count)) :=
  ⟨compile_exact_iff laws name, compileSemantic_exact cr name,
    fun _ _ _ count hread => compileMrs_exact laws name hread count⟩

theorem exact_snapshots_lan :
    let es : List ClassicalEntry := [{ kind := .ipCidr, value := "10.0.0.0/8" }]
    OnlyPrefixes .ascii es ∧ ExactIsExact .ascii (compile .ascii "lan" es) := by
  intro es
  have hpre : ∀ e ∈ es, e.kind = .ipCidr ∧ (Crates.ascii.parseIpNet e.value).isSome := by
    decide +kernel
  have hbits : ∀ n ∈ netsOf .ascii es, n.hasHostBits = false := by decide +kernel
  refine ⟨⟨by simp [es], by simp [es, maxIpPrefixSnapshotItems], hpre⟩, ?_⟩
  refine ((exact_snapshots Crates.ascii_ipNetworkLaws "lan").1 es).2 fun _ n hn hn' => ?_
  rw [hbits n hn] at hn'
  cases hn'

/-- The text parser keeps the host bits of `10.1.2.3/8`. The prefix `10.0.0.0/8` is published for
it as `Exact`, and the matcher matches no address. -/
theorem exact_snapshots_hostBits :
    let e : ClassicalEntry := { kind := .ipCidr, value := "10.1.2.3/8" }
    parseClassicalLineStrict .ascii "IP-CIDR,10.1.2.3/8" = .ok e ∧
    (PrefixView.loaded (compile .ascii "lan" [e]).destinationIpPrefixes).publish =
      (.ready .exact, { v4 := [⟨0x0a000000#32, 8, by decide⟩] }) ∧
    (compile .ascii "lan" [e]).matchesContext .ascii { dstIp := some (.v4 0x0a090909#32) } = false ∧
    Crates.ascii.IpNetworkLaws ∧ ¬ExactIsExact .ascii (compile .ascii "lan" [e]) := by
  intro e
  have hpublish : (PrefixView.loaded (compile .ascii "lan" [e]).destinationIpPrefixes).publish =
      (.ready .exact, { v4 := [⟨0x0a000000#32, 8, by decide⟩] }) := by decide +kernel
  have hmatch : (compile .ascii "lan" [e]).matchesContext .ascii
      { dstIp := some (.v4 0x0a090909#32) } = false := by decide +kernel
  refine ⟨by decide +kernel, hpublish, hmatch, Crates.ascii_ipNetworkLaws, fun h => ?_⟩
  have htrue := (h _ hpublish { dstIp := some (.v4 0x0a090909#32) }).2
    ⟨_, rfl, _, List.mem_singleton_self _, by decide⟩
  rw [hmatch] at htrue
  cases htrue

end WutherCore.Ruleset
