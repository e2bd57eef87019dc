import Mathlib.Logic.Function.Basic
import WutherCore.Route.Plan
import WutherCore.Ruleset.IndexEval

/-!
# Route matchers

`PreparedMatchers.compile` collects the conditions of a plan into shared tables; `stepMatchState`
answers a matcher for one connection, with the tables and the rule sets at hand.

While process metadata or the destination address is not resolved, the answer may be `Deferred`.
Once both are, every answer is closed, and a matcher is the Boolean combination of its conditions
(`stepMatches_resolved`).
-/

namespace WutherCore.Route

open WutherCore.Text WutherCore.Net WutherCore.Ruleset

/-! ### Connections -/

/-- `NetworkKind`. -/
inductive NetworkKind
  | tcp
  | udp
  deriving DecidableEq, Repr

/-- `NetworkKind::as_str`. -/
def NetworkKind.asStr : NetworkKind → Str
  | tcp => "tcp"
  | udp => "udp"

/-- `L7Proto`. -/
inductive L7Proto
  | stun
  | dtls
  | quic
  | tls
  | sni (name : Str)
  | http
  | other
  deriving DecidableEq, Repr

/-- `L7Proto::is_webrtc`. -/
def L7Proto.isWebrtc : L7Proto → Bool
  | stun | dtls | quic => true
  | _ => false

/-- `proto_name_matches`. -/
def protoNameMatches (name : Str) (p : L7Proto) : Bool :=
  match String.ofList (toAsciiLowercase name), p with
  | "stun", .stun => true
  | "dtls", .dtls => true
  | "quic", .quic => true
  | "tls", .tls | "tls", .sni _ | "ssl", .tls | "ssl", .sni _ => true
  | "http", .http => true
  | "sni", .sni _ => true
  | "webrtc", p | "rtc", p => p.isWebrtc
  | "any", p => p != .other
  | _, _ => false

/-- `FlowRulesetMetadata`. -/
structure FlowRulesetMetadata where
  sourceIp : Option IpAddr := none
  sourcePort : Option UInt16 := none
  inboundPort : Option UInt16 := none
  inboundType : Option Str := none
  inboundUser : Option Str := none
  inboundName : Option Str := none
  uid : Option UInt32 := none
  dscp : Option UInt8 := none
  sourceGeoip : List Str := []
  destinationGeoip : List Str := []
  destinationGeosite : List Str := []
  sourceAsn : Option UInt32 := none
  destinationAsn : Option UInt32 := none
  rematchNames : List Str := []
  queryType : Option UInt16 := none
  processPath : Option Str := none
  packageNames : List Str := []
  wifiSsid : Option Str := none
  wifiBssid : Option Str := none
  networkType : Option UInt8 := none
  networkIsExpensive : Option Bool := none
  networkIsConstrained : Option Bool := none
  networkInterfaceAddresses : List RulesetInterfaceAddress := []
  defaultInterfaceAddresses : List IpNet := []

/-- `FlowContext`. -/
structure FlowContext where
  host : Str
  ip : Option IpAddr := none
  port : UInt16
  network : NetworkKind
  process : Option Str := none
  ruleset : FlowRulesetMetadata := {}
  protocol : Option L7Proto := none

/-- `ruleset_match_context`. -/
def FlowContext.rulesetMatchContext (ctx : FlowContext) : RulesetMatchContext where
  dstHost := ctx.host
  dstIp := ctx.ip
  dstPort := some ctx.port
  srcIp := ctx.ruleset.sourceIp
  srcPort := ctx.ruleset.sourcePort
  network := some ctx.network.asStr
  processName := ctx.process
  queryType := ctx.ruleset.queryType
  processPath := ctx.ruleset.processPath
  inboundPort := ctx.ruleset.inboundPort
  inboundType := ctx.ruleset.inboundType
  inboundUser := ctx.ruleset.inboundUser
  inboundName := ctx.ruleset.inboundName
  uid := ctx.ruleset.uid
  dscp := ctx.ruleset.dscp
  destinationGeoip := ctx.ruleset.destinationGeoip
  sourceGeoip := ctx.ruleset.sourceGeoip
  destinationGeosite := ctx.ruleset.destinationGeosite
  destinationAsn := ctx.ruleset.destinationAsn
  sourceAsn := ctx.ruleset.sourceAsn
  rematchNames := ctx.ruleset.rematchNames
  packageNames := ctx.ruleset.packageNames
  wifiSsid := ctx.ruleset.wifiSsid
  wifiBssid := ctx.ruleset.wifiBssid
  networkType := ctx.ruleset.networkType
  networkIsExpensive := ctx.ruleset.networkIsExpensive
  networkIsConstrained := ctx.ruleset.networkIsConstrained
  networkInterfaceAddresses := ctx.ruleset.networkInterfaceAddresses
  defaultInterfaceAddresses := ctx.ruleset.defaultInterfaceAddresses

/-- `source_ruleset_context`. -/
def FlowContext.sourceRulesetContext (ctx : FlowContext) : RulesetMatchContext :=
  ctx.rulesetMatchContext.sourceContext

/-! ### Built-in lists -/

/-- `HOME_CIDRS`, as texts. -/
def homeCidrs : List String :=
  ["127.0.0.0/8", "10.0.0.0/8", "172.16.0.0/12", "192.168.0.0/16", "169.254.0.0/16",
    "100.64.0.0/10", "::1/128", "fc00::/7", "fe80::/10", "fd7a:115c:a1e0::/48"]

/-- `HOME_SUFFIXES`. -/
def homeSuffixes : List String := ["local", "lan", "home", "internal"]

/-- `CN_SUFFIXES`. -/
def cnSuffixes : List String :=
  ["cn", "com.cn", "org.cn", "net.cn", "edu.cn", "gov.cn", "qq.com", "baidu.com", "alipay.com",
    "taobao.com", "tmall.com", "jd.com", "weibo.com", "bilibili.com", "163.com", "126.com",
    "iqiyi.com", "youku.com", "douyin.com", "tencent.com", "aliyun.com", "alicdn.com",
    "tencentcs.com", "wechat.com"]

/-- `CN_CIDRS`, as texts. -/
def cnCidrs : List String :=
  ["1.0.1.0/24", "1.0.32.0/19", "1.1.0.0/24", "14.16.0.0/12", "27.0.128.0/18", "36.0.0.0/14",
    "39.64.0.0/11", "42.48.0.0/12", "58.16.0.0/13", "60.0.0.0/13", "61.128.0.0/10", "101.0.0.0/12",
    "106.0.0.0/13", "110.16.0.0/12", "112.0.0.0/9", "115.24.0.0/13", "116.0.0.0/8",
    "119.176.0.0/12", "120.192.0.0/10", "121.16.0.0/12", "180.96.0.0/11", "203.79.0.0/16",
    "210.16.0.0/13", "218.0.0.0/10", "219.128.0.0/11", "220.96.0.0/11", "221.128.0.0/9",
    "222.0.0.0/8", "223.0.0.0/12"]

/-- `ADS_SUFFIXES`. -/
def adsSuffixes : List String :=
  ["doubleclick.net", "googlesyndication.com", "googletagservices.com", "googletagmanager.com",
    "google-analytics.com", "adservice.google.com", "scorecardresearch.com", "adsrvr.org",
    "adnxs.com", "adsymptotic.com", "adcolony.com"]

/-- `service_suffixes`. -/
def serviceSuffixes (name : Str) : List String :=
  match String.ofList name with
  | "telegram" => ["telegram.org", "t.me", "tdesktop.com", "telegra.ph"]
  | "youtube" => ["youtube.com", "youtu.be", "ytimg.com", "googlevideo.com"]
  | "netflix" => ["netflix.com", "nflxvideo.net", "nflxext.com", "nflximg.net", "nflxso.net"]
  | "github" => ["github.com", "githubusercontent.com", "githubassets.com", "ghcr.io"]
  | "apple" => ["apple.com", "icloud.com", "mzstatic.com", "cdn-apple.com"]
  | "google" =>
      ["google.com", "gstatic.com", "googleapis.com", "googleusercontent.com", "withgoogle.com"]
  | _ => []

/-! ### Text -/

/-- `host_suffix_normalized`. -/
def hostSuffixNormalized (host suffix : Str) : Bool :=
  let suffix := trimStartMatches '.' suffix
  host == suffix || (stripSuffix suffix host).any (·.getLast? == some '.')

/-- `match_suffix_list`. -/
def matchSuffixList (host : Str) (list : List String) : Bool :=
  list.any (hostSuffixNormalized host ·)

/-- `metadata_code_matches`. -/
def metadataCodeMatches (values : List Str) (expected : Str) : Bool :=
  values.any (eqIgnoreAsciiCase · expected)

/-- `value_matches_list`. -/
def valueMatchesList (actual expected : Str) : Bool :=
  (expected.splitOn '/').any fun candidate => eqIgnoreAsciiCase actual (trim candidate)

/-- `option_matches_list`. -/
def optionMatchesList (actual : Option Str) (expected : Str) : Bool :=
  actual.any (valueMatchesList · expected)

section Crates

variable (cr : Crates)

/-- `text_eq_ignore_case`. -/
def textEqIgnoreCase (left right : Str) : Bool :=
  eqIgnoreAsciiCase left right || cr.toLowercase left == cr.toLowercase right

/-- `normalize_route_domain`. -/
def normalizeRouteDomain (value : Str) : Str :=
  let trimmed := trimEndMatches '.' (trim value)
  toAsciiLowercase <| match cr.domainToAscii trimmed with
    | .ok ascii => ascii
    | .error _ => toAsciiLowercase trimmed

/-! ### Prepared tables -/

/-- `PreparedDomainRegex`: a regular expression, or one with backtracking, whose search may fail. -/
inductive PreparedDomainRegex
  | fast (isMatch : Str → Bool)
  | fancy (isMatch : Str → Option Bool)

/-- `PreparedMatchers`. A hash map is the function of its lookups. -/
structure PreparedMatchers where
  normalizedValues : Str → Option Str := fun _ => none
  destinationCidrs : Str → Option IpNet := fun _ => none
  sourceCidrs : Str → Option IpNet := fun _ => none
  domainRegexes : Str → Option PreparedDomainRegex := fun _ => none
  domainWildcards : Str → Option (Str → Bool) := fun _ => none
  processRegexes : Str → Option (Str → Bool) := fun _ => none
  processWildcards : Str → Option (Str → Bool) := fun _ => none
  destinationIpSuffixes : Str → Option IpSuffix := fun _ => none
  sourceIpSuffixes : Str → Option IpSuffix := fun _ => none
  geositeAliases : Str → Option (List Str) := fun _ => none
  geoipAliases : Str → Option (List Str) := fun _ => none
  asnAliases : UInt32 → Option (List Str) := fun _ => none
  keywordIds : Str → Option Nat := fun _ => none
  keywordUniqueIds : Str → Option Nat := fun _ => none
  keywordPatterns : List Str := []
  keywordAutomaton : Option (Str → List Nat) := none

/-- `map.insert(key, value)`. -/
def insertKey {κ α : Type} [DecidableEq κ] (map : κ → Option α) (key : κ) (value : α) :
    κ → Option α :=
  Function.update map key (some value)

/-- `map.entry(key).or_insert_with(value)`: the first value of a key stays. -/
def orInsert {κ α : Type} [DecidableEq κ] (map : κ → Option α) (key : κ) (value : α) :
    κ → Option α :=
  if (map key).isSome then map else insertKey map key value

/-- `entry(key).or_insert_with(..)`, where computing the value panics: `none`. -/
def orInsertM {κ α : Type} [DecidableEq κ] (map : κ → Option α) (key : κ) (value : Option α) :
    Option (κ → Option α) :=
  if (map key).isSome then some map else value.map (insertKey map key)

/-- `compile_glob`; none where it panics. -/
def compileGlob (pattern : Str) : Option (Str → Bool) :=
  (cr.globBuild pattern).toOption.map fun _ => cr.globMatcher pattern

/-- The regular expression of a `DOMAIN-REGEX`; none where building it panics. -/
def prepareDomainRegex (pattern : Str) : Option PreparedDomainRegex :=
  match cr.regexNoCase pattern with
  | .ok isMatch => some (.fast isMatch)
  | .error _ => (cr.fancyRegex pattern).toOption.map .fancy

/-- `collect`, on a condition; none where it panics. The patterns of a plan that came through the
configuration compiler all build. -/
def collect (t : PreparedMatchers) : RouteCondition → Option PreparedMatchers
  | .domain value | .suffix value => some { t with
      normalizedValues := orInsert t.normalizedValues value (normalizeRouteDomain cr value) }
  | .process value | .processPath value | .inUser value | .inName value | .inType value
  | .rematchName value => some { t with
      normalizedValues := orInsert t.normalizedValues value (cr.toLowercase value) }
  | .keyword value =>
      let normalized := toAsciiLowercase value
      match t.keywordUniqueIds normalized with
      | some id => some { t with keywordIds := insertKey t.keywordIds value id }
      | none =>
          let id := t.keywordPatterns.length
          some { t with
            keywordPatterns := t.keywordPatterns ++ [normalized]
            keywordUniqueIds := insertKey t.keywordUniqueIds normalized id
            keywordIds := insertKey t.keywordIds value id }
  | .domainRegex pattern => do
      let domainRegexes ← orInsertM t.domainRegexes pattern (prepareDomainRegex cr pattern)
      return { t with domainRegexes }
  | .domainWildcard pattern => do
      let domainWildcards ← orInsertM t.domainWildcards pattern
        (compileGlob cr (normalizeDomainPattern cr pattern))
      return { t with domainWildcards }
  | .processRegex pattern | .processPathRegex pattern => do
      let processRegexes ← orInsertM t.processRegexes pattern (cr.regexNew pattern).toOption
      return { t with processRegexes }
  | .processWildcard pattern | .processPathWildcard pattern => do
      let processWildcards ← orInsertM t.processWildcards pattern (compileGlob cr pattern)
      return { t with processWildcards }
  | .cidr value => some <| match cr.parseIpNet value with
      | some network => { t with destinationCidrs := insertKey t.destinationCidrs value network }
      | none => t
  | .srcCidr value => some <| match cr.parseIpNet value with
      | some network => { t with sourceCidrs := insertKey t.sourceCidrs value network }
      | none => t
  | .ipSuffix value => some <| match parseIpSuffix value with
      | some suffix =>
          { t with destinationIpSuffixes := insertKey t.destinationIpSuffixes value suffix }
      | none => t
  | .srcIpSuffix value => some <| match parseIpSuffix value with
      | some suffix => { t with sourceIpSuffixes := insertKey t.sourceIpSuffixes value suffix }
      | none => t
  | .geoSite value => some { t with
      geositeAliases := insertKey t.geositeAliases value (rulesetAliasCandidates "geosite" value) }
  | .geoIp value | .srcGeoIp value => some { t with
      geoipAliases := insertKey t.geoipAliases value (rulesetAliasCandidates "geoip" value) }
  | .ipAsn asn | .srcIpAsn asn => some { t with
      asnAliases := insertKey t.asnAliases asn (rulesetAliasCandidates "asn" (decimal asn.toNat)) }
  | _ => some t

/-- The conditions of a plan: those of the steps, then those of the sub-rules by name. -/
def RoutePlan.conditions (plan : RoutePlan) : List RouteCondition :=
  (plan.steps ++ plan.subRules.flatMap Prod.snd).flatMap (·.matcher.conditions)

/-- `PreparedMatchers::compile`; none where it panics. -/
def PreparedMatchers.compile (plan : RoutePlan) : Option PreparedMatchers := do
  let t ← plan.conditions.foldlM (collect cr) {}
  if t.keywordPatterns.isEmpty then return t
  return { t with keywordAutomaton := cr.ahoCorasickFind t.keywordPatterns }

/-! ### Answers -/

/-- `MatchInput`. The keyword hits, which the code computes once and keeps, are `keywordMatches`. -/
structure MatchInput where
  context : FlowContext
  normalizedHost : Str
  unicodeHost : Str
  resolvedIp : Option IpAddr

/-- `MatchInput::new`. -/
def MatchInput.new (ctx : FlowContext) : MatchInput :=
  let unicodeHost := cr.toLowercase (trimEndMatches '.' (trim ctx.host))
  { context := ctx
    normalizedHost := normalizeRouteDomain cr unicodeHost
    unicodeHost
    resolvedIp := ctx.ip <|> parseIpAddr ctx.host }

/-- A test of the host in its ASCII form or, where it differs, in its Unicode form. -/
def MatchInput.eitherHost (input : MatchInput) (isMatch : Str → Bool) : Bool :=
  isMatch input.normalizedHost ||
    (input.unicodeHost != input.normalizedHost && isMatch input.unicodeHost)

/-- `keyword_matches`. -/
def MatchInput.keywordMatches (input : MatchInput) (t : PreparedMatchers) (id : Nat) : Bool :=
  decide (id < t.keywordPatterns.length) &&
    t.keywordAutomaton.any fun find => input.eitherHost fun host => (find host).contains id

/-- `MatchState`. -/
inductive MatchState
  | matched
  | notMatched
  | deferred (process destinationIp : Bool)
  deriving DecidableEq, Repr

namespace MatchState

/-- `MatchState::deferred`. -/
def ofNeeds (process destinationIp : Bool) : MatchState :=
  if process || destinationIp then deferred process destinationIp else notMatched

/-- `bool_state`. -/
def ofBool (value : Bool) : MatchState := if value then matched else notMatched

/-- `ruleset_outcome_to_state`. -/
def ofOutcome : RulesetMatchOutcome → MatchState
  | .matched => matched
  | .notMatched => notMatched
  | .needsProcess => ofNeeds true false
  | .needsDestinationIp => ofNeeds false true
  | .needsProcessAndDestinationIp => ofNeeds true true

/-- The answer of a negation. -/
def not : MatchState → MatchState
  | matched => notMatched
  | notMatched => matched
  | deferred process destinationIp => deferred process destinationIp

end MatchState

/-- What a matcher is answered with, the connection aside. -/
structure MatchTables where
  extraCidrs : List IpNet := []
  rulesets : Option RulesetIndex := none
  prepared : PreparedMatchers := {}

/-- The loop of `match_ruleset_alias` over the candidates. -/
def matchCandidates (index : RulesetIndex) (ctx : RulesetMatchContext)
    (processResolved destinationIpResolved : Bool) : List Str → Bool → Bool → MatchState
  | [], process, destinationIp => .ofNeeds process destinationIp
  | candidate :: candidates, process, destinationIp =>
      if (index.state.matchers candidate).isNone then
        matchCandidates index ctx processResolved destinationIpResolved candidates process
          destinationIp
      else
        match MatchState.ofOutcome (index.matchesContextDeferred cr candidate ctx processResolved
          destinationIpResolved) with
        | .matched => .matched
        | .notMatched =>
            matchCandidates index ctx processResolved destinationIpResolved candidates process
              destinationIp
        | .deferred p d =>
            matchCandidates index ctx processResolved destinationIpResolved candidates
              (process || p) (destinationIp || d)

/-- `match_ruleset_alias`. -/
def matchRulesetAlias (candidates : Option (List Str)) (input : MatchInput)
    (rulesets : Option RulesetIndex) (processResolved destinationIpResolved source : Bool) :
    MatchState :=
  match rulesets, candidates with
  | some index, some candidates =>
      let ctx := if source then input.context.sourceRulesetContext
        else input.context.rulesetMatchContext
      matchCandidates cr index ctx processResolved (destinationIpResolved || source) candidates
        false false
  | _, _ => .notMatched

/-- A host in a list of suffixes, or an address in a list of networks: `match_home` and `match_cn`
on their lists. -/
def matchBuiltin (input : MatchInput) (suffixes cidrs : List String) : Bool :=
  matchSuffixList input.normalizedHost suffixes ||
    input.resolvedIp.any fun ip => (cidrs.filterMap (cr.parseIpNet ·)).any (·.contains ip)

/-- `match_home`. -/
def matchHome (input : MatchInput) : Bool := matchBuiltin cr input homeSuffixes homeCidrs

/-- `match_cn`. -/
def matchCn (input : MatchInput) : Bool := matchBuiltin cr input cnSuffixes cnCidrs

/-- `match_cidr`. -/
def matchCidr (input : MatchInput) (network : Option IpNet) (extra : List IpNet) : Bool :=
  network.any fun network =>
    input.resolvedIp.any fun ip => network.contains ip || extra.any (·.contains ip)

/-- `match_source_cidr`. -/
def matchSourceCidr (ctx : FlowContext) (network : Option IpNet) : Bool :=
  network.any fun network => ctx.ruleset.sourceIp.any network.contains

/-- A closed interval of ports. -/
def inRange (low high port : UInt16) : Bool := decide (low ≤ port) && decide (port ≤ high)

/-- The rules on process metadata. -/
def RouteCondition.readsProcess : RouteCondition → Bool
  | process _ | processPath _ | processRegex _ | processPathRegex _ | processWildcard _
  | processPathWildcard _ => true
  | _ => false

/-- A test of the process name or of a package name. -/
def FlowContext.anyProcessName (ctx : FlowContext) (isMatch : Str → Bool) : Bool :=
  ctx.process.any isMatch || ctx.ruleset.packageNames.any isMatch

/-- `step_match_state`, on a condition, where the process conditions are not deferred. -/
def conditionAnswer (t : MatchTables) (input : MatchInput)
    (processResolved destinationIpResolved : Bool) : RouteCondition → MatchState
  | .any => .matched
  | .home =>
      if !destinationIpResolved && !matchSuffixList input.normalizedHost homeSuffixes then
        .ofNeeds false true
      else .ofBool (matchHome cr input)
  | .cn =>
      if !destinationIpResolved && !matchSuffixList input.normalizedHost cnSuffixes then
        .ofNeeds false true
      else .ofBool (matchCn cr input)
  | .ads => .ofBool (matchSuffixList input.normalizedHost adsSuffixes)
  | .service name => .ofBool (matchSuffixList input.normalizedHost (serviceSuffixes name))
  | .domain domain =>
      .ofBool (input.normalizedHost == (t.prepared.normalizedValues domain).getD domain)
  | .suffix suffix =>
      .ofBool (hostSuffixNormalized input.normalizedHost
        ((t.prepared.normalizedValues suffix).getD suffix))
  | .keyword keyword =>
      .ofBool <| match t.prepared.keywordIds keyword with
        | some id => input.keywordMatches t.prepared id
        | none => contains input.normalizedHost (toAsciiLowercase keyword)
  | .domainRegex pattern =>
      .ofBool <| match t.prepared.domainRegexes pattern with
        | some (.fast isMatch) => input.eitherHost isMatch
        | some (.fancy isMatch) => input.eitherHost fun host => (isMatch host).getD false
        | none => false
  | .domainWildcard pattern => .ofBool ((t.prepared.domainWildcards pattern).any input.eitherHost)
  | .geoSite code =>
      matchRulesetAlias cr (t.prepared.geositeAliases code) input t.rulesets processResolved
        destinationIpResolved false
  | .cidr cidr =>
      if !destinationIpResolved then .ofNeeds false true
      else .ofBool (matchCidr input (t.prepared.destinationCidrs cidr) t.extraCidrs)
  | .srcCidr cidr => .ofBool (matchSourceCidr input.context (t.prepared.sourceCidrs cidr))
  | .ipSuffix suffix =>
      if !destinationIpResolved then .ofNeeds false true
      else .ofBool ((t.prepared.destinationIpSuffixes suffix).any fun suffix =>
        input.resolvedIp.any (ipSuffixMatches · suffix))
  | .srcIpSuffix suffix =>
      .ofBool ((t.prepared.sourceIpSuffixes suffix).any fun suffix =>
        input.context.ruleset.sourceIp.any (ipSuffixMatches · suffix))
  | .geoIp code =>
      if metadataCodeMatches input.context.ruleset.destinationGeoip code then .matched
      else if !destinationIpResolved then .ofNeeds false true
      else matchRulesetAlias cr (t.prepared.geoipAliases code) input t.rulesets processResolved
        destinationIpResolved false
  | .srcGeoIp code =>
      if metadataCodeMatches input.context.ruleset.sourceGeoip code then .matched
      else matchRulesetAlias cr (t.prepared.geoipAliases code) input t.rulesets processResolved true
        true
  | .ipAsn asn =>
      if input.context.ruleset.destinationAsn == some asn then .matched
      else if !destinationIpResolved then .ofNeeds false true
      else matchRulesetAlias cr (t.prepared.asnAliases asn) input t.rulesets processResolved
        destinationIpResolved false
  | .srcIpAsn asn =>
      if input.context.ruleset.sourceAsn == some asn then .matched
      else matchRulesetAlias cr (t.prepared.asnAliases asn) input t.rulesets processResolved true
        true
  | .port port => .ofBool (input.context.port == port)
  | .portRange low high => .ofBool (inRange low high input.context.port)
  | .srcPort port => .ofBool (input.context.ruleset.sourcePort == some port)
  | .srcPortRange low high => .ofBool (input.context.ruleset.sourcePort.any (inRange low high))
  | .inPort port => .ofBool (input.context.ruleset.inboundPort == some port)
  | .inPortRange low high => .ofBool (input.context.ruleset.inboundPort.any (inRange low high))
  | .network name => .ofBool (eqIgnoreAsciiCase name input.context.network.asStr)
  | .dscp dscp => .ofBool (input.context.ruleset.dscp == some dscp)
  | .inUser users => .ofBool (optionMatchesList input.context.ruleset.inboundUser users)
  | .inName names => .ofBool (optionMatchesList input.context.ruleset.inboundName names)
  | .inType types => .ofBool (optionMatchesList input.context.ruleset.inboundType types)
  | .uid uid => .ofBool (input.context.ruleset.uid == some uid)
  | .rematchName names =>
      .ofBool (input.context.ruleset.rematchNames.any (valueMatchesList · names))
  | .process name => .ofBool (input.context.anyProcessName (textEqIgnoreCase cr · name))
  | .processPath path =>
      .ofBool (input.context.ruleset.processPath.any (textEqIgnoreCase cr · path))
  | .processRegex pattern =>
      .ofBool ((t.prepared.processRegexes pattern).any input.context.anyProcessName)
  | .processPathRegex pattern =>
      .ofBool ((t.prepared.processRegexes pattern).any input.context.ruleset.processPath.any)
  | .processWildcard pattern =>
      .ofBool ((t.prepared.processWildcards pattern).any input.context.anyProcessName)
  | .processPathWildcard pattern =>
      .ofBool ((t.prepared.processWildcards pattern).any input.context.ruleset.processPath.any)
  | .set name =>
      match t.rulesets with
      | some index => .ofOutcome (index.matchesContextDeferred cr name
          input.context.rulesetMatchContext processResolved destinationIpResolved)
      | none => .notMatched
  | .srcSet name =>
      match t.rulesets with
      | some index => .ofOutcome (index.matchesContextDeferred cr name
          input.context.sourceRulesetContext processResolved true)
      | none => .notMatched
  | .proto name => .ofBool (input.context.protocol.any (protoNameMatches name))

/-- `step_match_state`, on a condition. -/
def conditionState (t : MatchTables) (input : MatchInput)
    (processResolved destinationIpResolved : Bool) (c : RouteCondition) : MatchState :=
  if c.readsProcess && !processResolved then .ofNeeds true false
  else conditionAnswer cr t input processResolved destinationIpResolved c

section Tree

variable (answer : Bool → RouteCondition → MatchState)

mutual

/-- `step_match_state`, given the answers to the conditions, which depend on whether the destination
address is resolved. -/
def treeState (destinationIpResolved : Bool) : RouteMatcher → MatchState
  | .condition c => answer destinationIpResolved c
  | .and parts => treeAll destinationIpResolved parts false false
  | .or parts => treeAny destinationIpResolved parts false false
  | .not part => (treeState destinationIpResolved part).not
  | .noResolve part => treeState true part

/-- The loop of a conjunction, with what its parts need so far. -/
def treeAll (destinationIpResolved : Bool) : List RouteMatcher → Bool → Bool → MatchState
  | [], process, destinationIp =>
      if process || destinationIp then .ofNeeds process destinationIp else .matched
  | part :: parts, process, destinationIp =>
      match treeState destinationIpResolved part with
      | .notMatched => .notMatched
      | .matched => treeAll destinationIpResolved parts process destinationIp
      | .deferred p d => treeAll destinationIpResolved parts (process || p) (destinationIp || d)

/-- The loop of a disjunction, with what its parts need so far. -/
def treeAny (destinationIpResolved : Bool) : List RouteMatcher → Bool → Bool → MatchState
  | [], process, destinationIp => .ofNeeds process destinationIp
  | part :: parts, process, destinationIp =>
      match treeState destinationIpResolved part with
      | .matched => .matched
      | .notMatched => treeAny destinationIpResolved parts process destinationIp
      | .deferred p d => treeAny destinationIpResolved parts (process || p) (destinationIp || d)

end

end Tree

/-- `step_match_state`. -/
def stepMatchState (t : MatchTables) (input : MatchInput)
    (processResolved destinationIpResolved : Bool) (m : RouteMatcher) : MatchState :=
  treeState (conditionState cr t input processResolved) destinationIpResolved m

/-- `step_matches`. -/
def stepMatches (t : MatchTables) (input : MatchInput)
    (processResolved destinationIpResolved : Bool) (m : RouteMatcher) : Bool :=
  stepMatchState cr t input processResolved destinationIpResolved m == .matched

end Crates

/-! ### Resolved connections -/

namespace RouteMatcher

variable (f : RouteCondition → Bool)

mutual

/-- The value of a matcher, given the values of its conditions. -/
def holds : RouteMatcher → Bool
  | condition c => f c
  | and parts => holdsAll parts
  | or parts => holdsAny parts
  | not part => !part.holds
  | noResolve part => part.holds

/-- Every matcher of a list holds. -/
def holdsAll : List RouteMatcher → Bool
  | [] => true
  | part :: parts => part.holds && holdsAll parts

/-- Some matcher of a list holds. -/
def holdsAny : List RouteMatcher → Bool
  | [] => false
  | part :: parts => part.holds || holdsAny parts

end

end RouteMatcher

section Resolved

variable {answer : Bool → RouteCondition → MatchState} {f : RouteCondition → Bool}

/-- When the conditions are answered with Booleans, a matcher is their Boolean combination. -/
theorem treeState_ofBool (h : ∀ c, answer true c = .ofBool (f c)) (m : RouteMatcher) :
    treeState answer true m = .ofBool (m.holds f) := by
  induction m using RouteMatcher.induct with
  | condition c => rw [treeState, h, RouteMatcher.holds]
  | and parts ih =>
    rw [treeState, RouteMatcher.holds]
    induction parts with
    | nil => rfl
    | cons part parts ihparts =>
      rw [List.forall_mem_cons] at ih
      rw [treeAll, RouteMatcher.holdsAll, ih.1]
      cases part.holds f with
      | true => exact ihparts ih.2
      | false => rfl
  | or parts ih =>
    rw [treeState, RouteMatcher.holds]
    induction parts with
    | nil => rfl
    | cons part parts ihparts =>
      rw [List.forall_mem_cons] at ih
      rw [treeAny, RouteMatcher.holdsAny, ih.1]
      cases part.holds f with
      | true => rfl
      | false => exact ihparts ih.2
  | not m ih =>
    rw [treeState, RouteMatcher.holds, ih]
    cases m.holds f <;> rfl
  | noResolve m ih => rw [treeState, RouteMatcher.holds, ih]

end Resolved

/-- An answer that waits for nothing. -/
def MatchState.Closed (s : MatchState) : Prop := ∃ b, s = .ofBool b

section Closed

variable (cr : Crates) (t : MatchTables) (input : MatchInput)

theorem MatchState.ofOutcome_closed {o : RulesetMatchOutcome} (h : o.Closed) :
    (ofOutcome o).Closed := by
  obtain ⟨b, rfl⟩ := h
  exact ⟨b, by cases b <;> rfl⟩

theorem matchCandidates_closed (index : RulesetIndex) (ctx : RulesetMatchContext)
    (candidates : List Str) : (matchCandidates cr index ctx true true candidates false false).Closed := by
  induction candidates with
  | nil => exact ⟨false, rfl⟩
  | cons candidate candidates ih =>
    obtain ⟨b, hb⟩ :=
      MatchState.ofOutcome_closed (index.matchesContextDeferred_closed cr candidate ctx)
    rw [matchCandidates, hb]
    split_ifs
    · exact ih
    · cases b with
      | true => exact ⟨true, rfl⟩
      | false => exact ih

theorem matchRulesetAlias_closed (candidates : Option (List Str)) (source : Bool) :
    (matchRulesetAlias cr candidates input t.rulesets true true source).Closed := by
  unfold matchRulesetAlias
  split
  · exact matchCandidates_closed cr _ _ _
  · exact ⟨false, rfl⟩

theorem conditionState_closed (c : RouteCondition) :
    (conditionState cr t input true true c).Closed := by
  have hstate : conditionState cr t input true true c = conditionAnswer cr t input true true c := by
    simp [conditionState]
  have hset : ∀ name ctx, (match t.rulesets with
      | some index => MatchState.ofOutcome (index.matchesContextDeferred cr name ctx true true)
      | none => .notMatched).Closed := by
    intro name ctx
    cases t.rulesets with
    | none => exact ⟨false, rfl⟩
    | some index => exact MatchState.ofOutcome_closed (index.matchesContextDeferred_closed cr name ctx)
  rw [hstate]
  cases c with
  | any => exact ⟨true, rfl⟩
  | geoSite code => exact matchRulesetAlias_closed cr t input _ false
  | set name => exact hset name _
  | srcSet name => exact hset name _
  | geoIp code | srcGeoIp code | ipAsn asn | srcIpAsn asn =>
    simp only [conditionAnswer, Bool.not_true, Bool.false_eq_true, if_false]
    split_ifs
    · exact ⟨true, rfl⟩
    · exact matchRulesetAlias_closed cr t input _ _
  | _ =>
    simp only [conditionAnswer, Bool.not_true, Bool.false_and, Bool.false_eq_true, if_false]
    exact ⟨_, rfl⟩

/-- The value of a condition once everything is resolved. -/
def conditionHolds (c : RouteCondition) : Bool :=
  conditionState cr t input true true c == .matched

/-- **Once everything is resolved, a matcher is the Boolean combination of its conditions.** -/
theorem stepMatches_resolved (m : RouteMatcher) :
    stepMatches cr t input true true m = m.holds (conditionHolds cr t input) := by
  have hanswer : ∀ c, conditionState cr t input true true c = .ofBool (conditionHolds cr t input c) := by
    intro c
    obtain ⟨b, hb⟩ := conditionState_closed cr t input c
    rw [conditionHolds, hb]
    cases b <;> rfl
  rw [stepMatches, stepMatchState, treeState_ofBool hanswer]
  cases m.holds (conditionHolds cr t input) <;> rfl

end Closed

end WutherCore.Route
