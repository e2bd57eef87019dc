import WutherCore.Data.Trie
import WutherCore.Ruleset.Logical
import WutherCore.Ruleset.Prefixes
import WutherCore.Ruleset.Txt

/-!
# The compiled matcher

`RulesetMatcher` is a rule set in lookup form, one field per kind of rule; `compile` builds it from
classical entries, `compileSemantic` from a semantic program and `compileMrs` from an MRS payload.
`matchesContext` evaluates it on a context, `matchesContextDeferred` while process metadata or the
destination address may be pending.

Logical rules are trees over one-entry matchers.  Such a leaf is compiled from an entry that is not
logical, so it holds no logical rules itself: its matcher type has `Empty` in their place.
-/

namespace WutherCore.Ruleset

open WutherCore.Text WutherCore.Net WutherCore.Data

/-! ### Parts of a matcher -/

/-- `IpSuffix`. -/
structure IpSuffix where
  address : IpAddr
  bits : UInt8

/-- `suffix_bits_match`: the last `bits` bits agree. -/
def suffixBitsMatch (candidate expected : List UInt8) (bits : UInt8) : Bool :=
  let bytes := bits.toNat / 8
  let remaining := bits.toNat % 8
  if bytes > 0 && candidate.drop (candidate.length - bytes) !=
      expected.drop (expected.length - bytes) then false
  else if remaining = 0 then true
  else
    let index := candidate.length - bytes - 1
    let mask : UInt8 := UInt8.ofNat (2 ^ remaining - 1)
    (candidate.getD index 0 &&& mask) == (expected.getD index 0 &&& mask)

/-- `ip_suffix_matches`. -/
def ipSuffixMatches (candidate : IpAddr) (suffix : IpSuffix) : Bool :=
  candidate.isIpv4 == suffix.address.isIpv4 &&
    suffixBitsMatch candidate.octets suffix.address.octets suffix.bits

/-- `parse_ip_suffix`. -/
def parseIpSuffix (value : Str) : Option IpSuffix := do
  let (address, bits) ← splitOnce '/' value
  let address ← parseIpAddr address
  let bits ← parseU8 bits
  let maximum := if address.isIpv4 then 32 else 128
  if bits ≤ maximum then some ⟨address, bits⟩ else none

/-- `parse_asn`. -/
def parseAsn (value : Str) : Option UInt32 := parseU32 (asnDigits value)

/-- `parse_port_range`. -/
def parsePortRange (s : Str) : Option (UInt16 × UInt16) :=
  match splitOnce '-' s with
  | some (a, b) => do return (← parseU16 a, ← parseU16 b)
  | none => do
      let p ← parseU16 s
      return (p, p)

/-- Whether one of the closed intervals holds the port. -/
def inPortRanges (ranges : List (UInt16 × UInt16)) (port : UInt16) : Bool :=
  ranges.any fun r => decide (r.1 ≤ port) && decide (port ≤ r.2)

/-- `ruleset_alias_candidates`. -/
def rulesetAliasCandidates (kind : String) (value : Str) : List Str :=
  let value := toAsciiLowercase (trimStartMatches ':' (trim value))
  let named := match kind, String.ofList value with
    | "geosite", "cn" => ["cn-domain".toList]
    | "geoip", "cn" => ["geoip-cn".toList]
    | "geoip", "private" => ["geoip-private".toList]
    | _, _ => []
  let candidates := value :: (kind.toList ++ '-' :: value) :: named
  (candidates.filter (!·.isEmpty)).eraseDups

section Crates

variable (cr : Crates)

/-- `normalize_domain_pattern`. -/
def normalizeDomainPattern (pattern : Str) : Str :=
  let labels := (trimEndMatches '.' (trim pattern)).splitOn '.'
  join "." <| labels.map fun label =>
    if label.contains '*' || label.contains '?' then cr.toLowercase label
    else cr.toLowercase <| match cr.domainToAscii label with
      | .ok ascii => ascii
      | .error _ => cr.toLowercase label

/-- `insert_slash_values`. -/
def slashValues (value : Str) : List Str :=
  (((value.splitOn '/').map trim).filter (!·.isEmpty)).map cr.toLowercase

/-- `option_in_set`. -/
def optionInSet (value : Option Str) (set : List Str) : Bool :=
  value.any fun v => set.contains (cr.toLowercase v)

/-- `compile_regex_set`. -/
def compileRegexSet (patterns : List Str) : Option (Str → Bool) :=
  if patterns.isEmpty then none else (cr.regexSet patterns).toOption

/-- `compile_glob_set`: one glob that does not build fails the set. -/
def compileGlobSet (patterns : List Str) : Option (Str → Bool) :=
  if patterns.isEmpty then none
  else if patterns.all fun p => (cr.globBuild p).toOption.isSome then cr.globSet patterns
  else none

/-- The networks in an `ip_network_table`. -/
structure PrefixTable where
  networks : List IpNet := []

/-- `PrefixTable::insert`: through the text of the network; what `ip_network` rejects is dropped. -/
def PrefixTable.insert (table : PrefixTable) (network : IpNet) : PrefixTable :=
  match cr.parseIpNetwork network.display with
  | some network => ⟨table.networks ++ [network]⟩
  | none => table

/-- `PrefixTable::contains`. -/
def PrefixTable.contains (table : PrefixTable) (address : IpAddr) : Bool :=
  cr.longestMatch table.networks address

/-- The path of a domain suffix in the trie: its labels, the last one first. -/
def suffixPath (suffix : Str) : List Str := (suffix.splitOn '.').reverse

/-- `SuffixTrie::insert`. -/
def insertSuffix (trie : Trie Str) (suffix : Str) : Trie Str :=
  let suffix := normalizeDomain cr (trimMatches '.' suffix)
  if suffix.isEmpty then trie else trie.insert (suffixPath suffix)

/-- `SuffixTrie::matches`. -/
def suffixTrieMatches (trie : Trie Str) (host : Str) : Bool :=
  let host := trimEndMatches '.' host
  if host.isEmpty then false else trie.hits (suffixPath host)

end Crates

/-! ### The matcher -/

/-- `RulesetMatcher`, over the type of its logical rules. A hash set is the list of its elements; a
compiled pattern set is its `is_match`. -/
structure RulesetMatcher (L : Type) where
  name : Str
  domains : List Str := []
  suffixTrie : Trie Str := .empty
  keywords : List Str := []
  keywordAutomaton : Option (Str → Bool) := none
  wildcardSet : Option (Str → Bool) := none
  regexSet : Option (Str → Bool) := none
  fancyRegexes : List (Str → Option Bool) := []
  cidrs : IpPrefixes := {}
  destinationPrefixTable : PrefixTable := {}
  srcCidrs : IpPrefixes := {}
  sourcePrefixTable : PrefixTable := {}
  destinationIpSuffixes : List IpSuffix := []
  sourceIpSuffixes : List IpSuffix := []
  destinationGeoip : List Str := []
  sourceGeoip : List Str := []
  destinationGeosite : List Str := []
  destinationAsn : List UInt32 := []
  sourceAsn : List UInt32 := []
  destinationGeoipAliases : List (List Str) := []
  sourceGeoipAliases : List (List Str) := []
  destinationGeositeAliases : List (List Str) := []
  destinationAsnAliases : List (List Str) := []
  sourceAsnAliases : List (List Str) := []
  destinationIpRequiresResolution : Bool := false
  processes : List Str := []
  processPaths : List Str := []
  processRegexSet : Option (Str → Bool) := none
  processPathRegexSet : Option (Str → Bool) := none
  processWildcardSet : Option (Str → Bool) := none
  processPathWildcardSet : Option (Str → Bool) := none
  rematchNames : List Str := []
  networks : List Str := []
  ports : List (UInt16 × UInt16) := []
  srcPorts : List (UInt16 × UInt16) := []
  inboundPorts : List (UInt16 × UInt16) := []
  inboundTypes : List Str := []
  inboundUsers : List Str := []
  inboundNames : List Str := []
  dscpValues : List UInt8 := []
  uidValues : List UInt32 := []
  logicalRules : List L := []
  matchAll : Bool := false
  classicalCount : Nat := 0
  mrsDomainSet : Option (Str → Bool) := none
  mrsV4Ranges : Ranges 32 := []
  mrsV6Ranges : Ranges 128 := []
  mrsCount : Nat := 0
  semanticProgram : Option RulesetProgram := none
  destinationPrefixes : IpPrefixes := {}
  destinationPrefixSemantics : RulesetIpPrefixSemantics := .notIpSet
  destinationPrefixError : Option RulesetPrefixError := none

namespace RulesetMatcher

variable {L : Type}

/-- `install_destination_prefixes`. -/
def installDestinationPrefixes (m : RulesetMatcher L) (prefixes : Except RulesetPrefixError IpPrefixes)
    (semantics : RulesetIpPrefixSemantics) : RulesetMatcher L :=
  match prefixes with
  | .ok p =>
      { m with
        destinationPrefixSemantics := semantics
        destinationPrefixes := p
        destinationPrefixError := none }
  | .error e =>
      { m with
        destinationPrefixSemantics := semantics
        destinationPrefixes := {}
        destinationPrefixError := some e }

/-- `destination_ip_prefixes`. -/
def destinationIpPrefixes (m : RulesetMatcher L) :
    Except RulesetPrefixError (RulesetIpPrefixSemantics × IpPrefixes) :=
  match m.destinationPrefixError with
  | some e => .error e
  | none => .ok (m.destinationPrefixSemantics, m.destinationPrefixes)

/-- `has_same_destination_prefixes`. -/
def hasSameDestinationPrefixes (m : RulesetMatcher L) {L' : Type} (other : RulesetMatcher L') : Bool :=
  m.destinationPrefixSemantics == other.destinationPrefixSemantics &&
    m.destinationPrefixError == other.destinationPrefixError &&
    m.destinationPrefixes == other.destinationPrefixes

end RulesetMatcher

/-! ### Compilation -/

/-- The entries of a kind. -/
def ofKind (kind : ClassicalKind) (es : List ClassicalEntry) : List ClassicalEntry :=
  es.filter (·.kind = kind)

/-- The values of the entries of a kind. -/
def valuesOf (kind : ClassicalKind) (es : List ClassicalEntry) : List Str :=
  (ofKind kind es).map (·.value)

/-- Whether the policy of an entry is `no-resolve`. -/
def ClassicalEntry.noResolve (e : ClassicalEntry) : Bool := e.policy.any isNoResolve

section Compile

variable (cr : Crates)

/-- The entries that ask for the destination address to be resolved. -/
def requiresResolution (e : ClassicalEntry) : Bool :=
  !e.noResolve && match e.kind with
    | .geoIp => true
    | .ipCidr => (cr.parseIpNet e.value).isSome
    | .ipSuffix => (parseIpSuffix e.value).isSome
    | .ipAsn => (parseAsn e.value).isSome
    | _ => false

/-- The networks of the entries of a kind, those of each family with the longest first. -/
def cidrsOf (kind : ClassicalKind) (es : List ClassicalEntry) : IpPrefixes :=
  let p := IpPrefixes.ofNets ((valuesOf kind es).filterMap cr.parseIpNet)
  ⟨p.v4.insertionSort (fun a b => b.len ≤ a.len), p.v6.insertionSort (fun a b => b.len ≤ a.len)⟩

/-- The prefix table of the networks of both families. -/
def tableOf (p : IpPrefixes) : PrefixTable :=
  (p.v4.map IpNet.v4 ++ p.v6.map IpNet.v6).foldl (PrefixTable.insert cr) {}

/-- The label of a list of classical entries. -/
def semanticsOf (es : List ClassicalEntry) : RulesetIpPrefixSemantics :=
  let isPrefix := fun e : ClassicalEntry => decide (e.kind = .ipCidr) && (cr.parseIpNet e.value).isSome
  if es.any isPrefix then if es.all isPrefix then .exact else .extracted else .notIpSet

/-- The rules of a matcher compiled from entries, given the compiler of logical entries. Each entry
goes to the field of its kind; a value that does not parse is dropped. -/
def compileRules {L : Type} (logical : ClassicalEntry → Option L) (name : Str)
    (es : List ClassicalEntry) : RulesetMatcher L :=
  let regexes := valuesOf .domainRegex es
  let fast := regexes.filter fun p => (cr.regexNew p).toOption.isSome
  let slow := regexes.filter fun p => !(cr.regexNew p).toOption.isSome
  let keywords := (valuesOf .domainKeyword es).map cr.toLowercase
  let wildcards := (valuesOf .domainWildcard es).map (normalizeDomainPattern cr)
  let geosite := ((valuesOf .geoSite es).map toAsciiLowercase).eraseDups
  let geoip := ((valuesOf .geoIp es).map toAsciiLowercase).eraseDups
  let srcGeoip := ((valuesOf .srcGeoIp es).map toAsciiLowercase).eraseDups
  let asn := ((valuesOf .ipAsn es).filterMap parseAsn).eraseDups
  let srcAsn := ((valuesOf .srcIpAsn es).filterMap parseAsn).eraseDups
  let cidrs := cidrsOf cr .ipCidr es
  let srcCidrs := cidrsOf cr .srcIpCidr es
  {
    name
    domains := (valuesOf .domain es).map (normalizeDomain cr)
    suffixTrie := (valuesOf .domainSuffix es).foldl (insertSuffix cr) .empty
    keywords
    keywordAutomaton := if keywords.isEmpty then none else cr.ahoCorasick keywords
    wildcardSet :=
      if wildcards.isEmpty then none
      else cr.globSet (wildcards.filter fun p => (cr.globBuild p).toOption.isSome)
    regexSet := if fast.isEmpty then none else cr.regexSetNoCase fast
    fancyRegexes := slow.filterMap fun p => (cr.fancyRegex p).toOption
    cidrs
    destinationPrefixTable := tableOf cr cidrs
    srcCidrs
    sourcePrefixTable := tableOf cr srcCidrs
    destinationIpSuffixes := (valuesOf .ipSuffix es).filterMap parseIpSuffix
    sourceIpSuffixes := (valuesOf .srcIpSuffix es).filterMap parseIpSuffix
    destinationGeoip := geoip
    sourceGeoip := srcGeoip
    destinationGeosite := geosite
    destinationAsn := asn
    sourceAsn := srcAsn
    destinationGeoipAliases := geoip.map (rulesetAliasCandidates "geoip")
    sourceGeoipAliases := srcGeoip.map (rulesetAliasCandidates "geoip")
    destinationGeositeAliases := geosite.map (rulesetAliasCandidates "geosite")
    destinationAsnAliases := asn.map fun n => rulesetAliasCandidates "asn" (decimal n.toNat)
    sourceAsnAliases := srcAsn.map fun n => rulesetAliasCandidates "asn" (decimal n.toNat)
    destinationIpRequiresResolution := es.any (requiresResolution cr)
    processes := (valuesOf .processName es).map toAsciiLowercase
    processPaths := (valuesOf .processPath es).map cr.toLowercase
    processRegexSet := compileRegexSet cr (valuesOf .processNameRegex es)
    processPathRegexSet := compileRegexSet cr (valuesOf .processPathRegex es)
    processWildcardSet := compileGlobSet cr (valuesOf .processNameWildcard es)
    processPathWildcardSet := compileGlobSet cr (valuesOf .processPathWildcard es)
    rematchNames := (valuesOf .rematchName es).flatMap (slashValues cr)
    networks := (valuesOf .network es).flatMap (slashValues cr)
    ports := (valuesOf .dstPort es).filterMap parsePortRange
    srcPorts := (valuesOf .srcPort es).filterMap parsePortRange
    inboundPorts := (valuesOf .inPort es).filterMap parsePortRange
    inboundTypes := (valuesOf .inType es).flatMap (slashValues cr)
    inboundUsers := (valuesOf .inUser es).flatMap (slashValues cr)
    inboundNames := (valuesOf .inName es).flatMap (slashValues cr)
    dscpValues := (valuesOf .dscp es).filterMap parseU8
    uidValues := (valuesOf .uid es).filterMap parseU32
    logicalRules := (es.filter (·.kind.isLogical)).filterMap logical
    matchAll := es.any (·.kind = .match)
    classicalCount := es.length }

/-- `RulesetMatcher::compile`, given the compiler of logical entries. -/
def compileWith {L : Type} (logical : ClassicalEntry → Option L) (name : Str)
    (es : List ClassicalEntry) : RulesetMatcher L :=
  (compileRules cr logical name es).installDestinationPrefixes
    (tryClonePrefixes (cidrsOf cr .ipCidr es) >>= normalizeDestinationPrefixes) (semanticsOf cr es)

/-- A leaf of a logical rule: the matcher of one entry. -/
abbrev LeafMatcher := RulesetMatcher Empty

/-- The matcher of one entry that is not logical, under the name that `compile_classical_rule`
gives to all of them. -/
def compileLeaf (e : ClassicalEntry) : LeafMatcher := compileWith cr (fun _ => none) "logical" [e]

/-- The tree of an entry: a leaf, or the tree of its payload, without the children that have none.
An entry whose payload does not parse has no tree. The bound is on the length of the payload. -/
def ruleTree : Nat → ClassicalEntry → Option (LogicalRule ClassicalEntry)
  | 0, e => if e.kind.isLogical then none else some (.leaf e)
  | fuel + 1, e =>
      if e.kind.isLogical then
        match parseLogicalPayload cr e.kind e.value with
        | .error _ => none
        | .ok children =>
            let rules := children.filterMap (ruleTree fuel)
            match e.kind, rules with
            | .and, _ => some (.and rules)
            | .or, _ => some (.or rules)
            | .not, [rule] => some (.not rule)
            | _, _ => none
      else some (.leaf e)

/-- The tree of an entry. -/
def entryTree (e : ClassicalEntry) : Option (LogicalRule ClassicalEntry) :=
  ruleTree cr (e.value.length + 1) e

/-- `compile_logical_rule`, on an entry of a logical kind. -/
def compileLogicalRule (e : ClassicalEntry) : Option (LogicalRule LeafMatcher) :=
  (entryTree cr e).map (LogicalRule.map (compileLeaf cr))

/-- The matcher of a rule set. -/
abbrev SetMatcher := RulesetMatcher (LogicalRule LeafMatcher)

/-- `RulesetMatcher::compile`. -/
def compile (name : Str) (es : List ClassicalEntry) : SetMatcher :=
  compileWith cr (compileLogicalRule cr) name es

/-- `RulesetMatcher::compile_semantic`. -/
def compileSemantic (name : Str) (program : RulesetProgram) : SetMatcher :=
  let semantics :=
    if program.root.isDestinationIpUnion then RulesetIpPrefixSemantics.exact else .extracted
  let prefixes := collectProgramPrefixes program >>= normalizeDestinationPrefixes
  let semantics := match prefixes with
    | .ok p => if p.v4.isEmpty && p.v6.isEmpty then .notIpSet else semantics
    | .error _ => semantics
  let m : SetMatcher := { name, semanticProgram := some program }
  m.installDestinationPrefixes prefixes semantics

/-- `MrsPayload`; a domain set is its lookup. -/
inductive MrsPayload
  | domain (has : Str → Bool) (count : Nat)
  | ipCidr (set : MrsIpCidrSet) (count : Nat)

/-- `RulesetMatcher::compile_mrs`. -/
def compileMrs (name : Str) : MrsPayload → SetMatcher
  | .domain has count =>
      let m : SetMatcher := { name, mrsCount := count, mrsDomainSet := some has }
      m.installDestinationPrefixes (.ok {}) .notIpSet
  | .ipCidr set count =>
      let m : SetMatcher := {
        name
        mrsCount := count
        destinationIpRequiresResolution := true
        mrsV4Ranges := set.v4Ranges
        mrsV6Ranges := set.v6Ranges }
      m.installDestinationPrefixes
        (rangesToPrefixes set.v4Ranges set.v6Ranges >>= normalizeDestinationPrefixes) .exact

end Compile

/-! ### Evaluation -/

namespace RulesetMatcher

variable {L : Type} (cr : Crates) (m : RulesetMatcher L) (ctx : RulesetMatchContext)

/-- The rules on the host. The patterns are tried on the ASCII form and on the Unicode form. -/
def matchesHost : Bool :=
  let hostUnicode := cr.toLowercase (trimEndMatches '.' (trim ctx.dstHost))
  let host := normalizeDomain cr hostUnicode
  let either := fun isMatch : Str → Bool =>
    isMatch host || (host != hostUnicode && isMatch hostUnicode)
  !host.isEmpty &&
    (m.domains.contains host || suffixTrieMatches m.suffixTrie host ||
      m.keywordAutomaton.any either || m.regexSet.any either ||
      (m.fancyRegexes.any fun regex => either fun h => (regex h).getD false) ||
      m.wildcardSet.any either ||
      (m.mrsDomainSet.any fun has => has hostUnicode || (host != hostUnicode && has host)) ||
      ctx.destinationGeosite.any fun code => m.destinationGeosite.contains (toAsciiLowercase code))

/-- The rules on a destination address. -/
def matchesDestinationIp (ip : IpAddr) : Bool :=
  m.destinationIpSuffixes.any (ipSuffixMatches ip) || m.destinationPrefixTable.contains cr ip ||
    match ip with
    | .v4 v => !m.mrsV4Ranges.isEmpty && containsRange m.mrsV4Ranges v
    | .v6 v => !m.mrsV6Ranges.isEmpty && containsRange m.mrsV6Ranges v

/-- The rules on a source address. -/
def matchesSourceIp (ip : IpAddr) : Bool :=
  m.sourcePrefixTable.contains cr ip || m.sourceIpSuffixes.any (ipSuffixMatches ip)

/-- The rules on regions and AS numbers. -/
def matchesRegion : Bool :=
  (ctx.destinationGeoip.any fun code => m.destinationGeoip.contains (toAsciiLowercase code)) ||
    (ctx.sourceGeoip.any fun code => m.sourceGeoip.contains (toAsciiLowercase code)) ||
    ctx.destinationAsn.any m.destinationAsn.contains || ctx.sourceAsn.any m.sourceAsn.contains

/-- The rules on ports, the inbound side and other connection data. -/
def matchesMetadata : Bool :=
  ctx.dstPort.any (inPortRanges m.ports) || ctx.srcPort.any (inPortRanges m.srcPorts) ||
    ctx.inboundPort.any (inPortRanges m.inboundPorts) ||
    optionInSet cr ctx.inboundType m.inboundTypes || optionInSet cr ctx.inboundUser m.inboundUsers ||
    optionInSet cr ctx.inboundName m.inboundNames || ctx.uid.any m.uidValues.contains ||
    ctx.dscp.any m.dscpValues.contains || optionInSet cr ctx.network m.networks ||
    ctx.rematchNames.any fun name => m.rematchNames.contains (cr.toLowercase name)

/-- The rules on a process or package name. -/
def matchesProcessName (name : Str) : Bool :=
  m.processes.contains (toAsciiLowercase name) || m.processRegexSet.any (· name) ||
    m.processWildcardSet.any (· name)

/-- The rules on a process path. -/
def matchesProcessPath (path : Str) : Bool :=
  m.processPaths.contains (cr.toLowercase path) || m.processPathRegexSet.any (· path) ||
    m.processPathWildcardSet.any (· path)

/-- The rules on the process. -/
def matchesProcess : Bool :=
  ctx.processName.any m.matchesProcessName || ctx.packageNames.any m.matchesProcessName ||
    ctx.processPath.any (m.matchesProcessPath cr)

/-- `matches_context`, given the value of a logical rule. -/
def matchesContextWith (rule : L → Bool) : Bool :=
  match m.semanticProgram with
  | some program => program.matches cr ctx
  | none =>
      m.matchAll || m.matchesHost cr ctx || (destinationIp ctx).any (m.matchesDestinationIp cr) ||
        ctx.srcIp.any (m.matchesSourceIp cr) || m.matchesRegion ctx || m.matchesMetadata cr ctx ||
        m.matchesProcess cr ctx || m.logicalRules.any rule

/-- The process rules of a matcher, logical rules aside. -/
def readsProcess : Bool :=
  !m.processes.isEmpty || !m.processPaths.isEmpty || m.processRegexSet.isSome ||
    m.processPathRegexSet.isSome || m.processWildcardSet.isSome || m.processPathWildcardSet.isSome

/-- The rules of a matcher that ask for the destination address, logical rules aside. -/
def asksDestinationIp : Bool :=
  m.destinationIpRequiresResolution || !m.mrsV4Ranges.isEmpty || !m.mrsV6Ranges.isEmpty

/-- Whether a matcher refers to other rule sets, logical rules aside. -/
def hasAliases : Bool :=
  !m.destinationGeoipAliases.isEmpty || !m.sourceGeoipAliases.isEmpty ||
    !m.destinationGeositeAliases.isEmpty || !m.destinationAsnAliases.isEmpty ||
    !m.sourceAsnAliases.isEmpty

/-! The prefixes that a matcher publishes play no part in its evaluation. -/

section Install

variable {m cr ctx} {prefixes : Except RulesetPrefixError IpPrefixes}
  {semantics : RulesetIpPrefixSemantics}

@[simp] theorem matchesContextWith_install (rule : L → Bool) :
    (m.installDestinationPrefixes prefixes semantics).matchesContextWith cr ctx rule =
      m.matchesContextWith cr ctx rule := by
  cases prefixes <;> rfl

@[simp] theorem semanticProgram_install :
    (m.installDestinationPrefixes prefixes semantics).semanticProgram = m.semanticProgram := by
  cases prefixes <;> rfl

@[simp] theorem name_install :
    (m.installDestinationPrefixes prefixes semantics).name = m.name := by
  cases prefixes <;> rfl

@[simp] theorem logicalRules_install :
    (m.installDestinationPrefixes prefixes semantics).logicalRules = m.logicalRules := by
  cases prefixes <;> rfl

@[simp] theorem matchesDestinationIp_install (ip : IpAddr) :
    (m.installDestinationPrefixes prefixes semantics).matchesDestinationIp cr ip =
      m.matchesDestinationIp cr ip := by
  cases prefixes <;> rfl

@[simp] theorem readsProcess_install :
    (m.installDestinationPrefixes prefixes semantics).readsProcess = m.readsProcess := by
  cases prefixes <;> rfl

@[simp] theorem asksDestinationIp_install :
    (m.installDestinationPrefixes prefixes semantics).asksDestinationIp = m.asksDestinationIp := by
  cases prefixes <;> rfl

end Install

end RulesetMatcher

section Evaluate

variable (cr : Crates)

/-- `matches_context` of a leaf, which has no logical rules. -/
def LeafMatcher.matchesContext (m : LeafMatcher) (ctx : RulesetMatchContext) : Bool :=
  m.matchesContextWith cr ctx Empty.elim

/-- `LogicalRule::matches`. -/
def LogicalRule.«matches» (rule : LogicalRule LeafMatcher) (ctx : RulesetMatchContext) : Bool :=
  rule.eval (LeafMatcher.matchesContext cr · ctx)

/-- `LogicalRule::needs_process`. -/
def LogicalRule.needsProcess (rule : LogicalRule LeafMatcher) : Bool :=
  rule.anyLeaf RulesetMatcher.readsProcess

/-- `LogicalRule::needs_destination_ip`. -/
def LogicalRule.needsDestinationIp (rule : LogicalRule LeafMatcher) : Bool :=
  rule.anyLeaf RulesetMatcher.asksDestinationIp

/-- `LogicalRule::has_external_refs`. -/
def LogicalRule.hasExternalRefs (rule : LogicalRule LeafMatcher) : Bool :=
  rule.anyLeaf RulesetMatcher.hasAliases

namespace SetMatcher

variable (m : SetMatcher) (ctx : RulesetMatchContext)

/-- `RulesetMatcher::matches_context`. Logical rules that refer to other sets need the index and are
left out here. -/
def matchesContext : Bool :=
  m.matchesContextWith cr ctx fun rule => !rule.hasExternalRefs && rule.matches cr ctx

/-- `has_process_predicates`. -/
def hasProcessPredicates : Bool :=
  m.readsProcess || m.logicalRules.any LogicalRule.needsProcess

/-- `has_destination_ip_predicates`. -/
def hasDestinationIpPredicates : Bool :=
  m.asksDestinationIp || m.logicalRules.any LogicalRule.needsDestinationIp

/-- `RulesetMatcher::matches_context_deferred`. -/
def matchesContextDeferred (processResolved destinationIpResolved : Bool) : RulesetMatchOutcome :=
  match m.semanticProgram with
  | some program => program.matchesDeferred cr ctx processResolved destinationIpResolved
  | none =>
      if m.matchesContext cr ctx then .matched
      else
        RulesetMatchOutcome.deferred (!processResolved && m.hasProcessPredicates)
          (!destinationIpResolved && m.hasDestinationIpPredicates)

end SetMatcher

end Evaluate

end WutherCore.Ruleset
