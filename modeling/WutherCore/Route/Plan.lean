import WutherCore.Text.Str

/-!
# Route plans

A plan is a list of steps, each with a matcher and an action, and named lists of further steps, the
sub-rules.  `RouteMatcher` is a tree; its leaves are the `RouteCondition`s.

The second half of the file is how a hit is reported: `describeRouteStep` and `matcherKind`.
-/

namespace WutherCore.Route

open WutherCore.Text

/-! ### Matchers -/

/-- The variants of the matcher without parts. -/
inductive RouteCondition
  | any
  | home
  | cn
  | ads
  | service (name : Str)
  | domain (value : Str)
  | suffix (value : Str)
  | keyword (value : Str)
  | domainRegex (pattern : Str)
  | domainWildcard (pattern : Str)
  | geoSite (code : Str)
  | cidr (value : Str)
  | srcCidr (value : Str)
  | ipSuffix (value : Str)
  | srcIpSuffix (value : Str)
  | geoIp (code : Str)
  | srcGeoIp (code : Str)
  | ipAsn (asn : UInt32)
  | srcIpAsn (asn : UInt32)
  | port (port : UInt16)
  | portRange (low high : UInt16)
  | srcPort (port : UInt16)
  | srcPortRange (low high : UInt16)
  | inPort (port : UInt16)
  | inPortRange (low high : UInt16)
  | network (name : Str)
  | dscp (value : UInt8)
  | inUser (users : Str)
  | inName (names : Str)
  | inType (types : Str)
  | uid (uid : UInt32)
  | rematchName (names : Str)
  | process (name : Str)
  | processPath (path : Str)
  | processRegex (pattern : Str)
  | processPathRegex (pattern : Str)
  | processWildcard (pattern : Str)
  | processPathWildcard (pattern : Str)
  | set (name : Str)
  | srcSet (name : Str)
  | proto (name : Str)
  deriving DecidableEq, Repr

/-- `RouteMatcher`: conditions, and how they combine. -/
inductive RouteMatcher
  | condition (c : RouteCondition)
  | and (parts : List RouteMatcher)
  | or (parts : List RouteMatcher)
  | not (part : RouteMatcher)
  | noResolve (part : RouteMatcher)

namespace RouteMatcher

@[elab_as_elim]
theorem induct {motive : RouteMatcher → Prop} (condition : ∀ c, motive (condition c))
    (and : ∀ parts, (∀ m ∈ parts, motive m) → motive (and parts))
    (or : ∀ parts, (∀ m ∈ parts, motive m) → motive (or parts))
    (not : ∀ m, motive m → motive (not m))
    (noResolve : ∀ m, motive m → motive (noResolve m)) (m : RouteMatcher) : motive m :=
  @RouteMatcher.rec motive (fun parts => ∀ m ∈ parts, motive m) condition and or not noResolve
    (by simp) (fun _ _ hm hms => List.forall_mem_cons.2 ⟨hm, hms⟩) m

mutual

/-- The conditions of a matcher, in the order in which they are collected. -/
def conditions : RouteMatcher → List RouteCondition
  | condition c => [c]
  | and parts => conditionsOf parts
  | or parts => conditionsOf parts
  | not part => part.conditions
  | noResolve part => part.conditions

/-- The conditions of a list of matchers. -/
def conditionsOf : List RouteMatcher → List RouteCondition
  | [] => []
  | part :: parts => part.conditions ++ conditionsOf parts

end

end RouteMatcher

/-! ### Steps -/

/-- `RouteAction`. -/
inductive RouteAction
  | direct
  | block
  | group (name : Str)
  | pass
  | passRule
  | subRule (name : Str)
  deriving DecidableEq, Repr

/-- `RouteRuleOptions`. -/
structure RouteRuleOptions where
  noResolve : Bool := false
  noLog : Bool := false
  noTrack : Bool := false
  deriving DecidableEq, Repr

/-- `RouteStep`. -/
structure RouteStep where
  matcher : RouteMatcher
  action : RouteAction
  source : Str := []
  options : RouteRuleOptions := {}

theorem noSubRules_sorted : (([] : List (Str × List RouteStep)).map Prod.fst).Pairwise (· < ·) := by decide

/-- `RoutePlan`. The sub-rules are a `BTreeMap`: their names increase. -/
structure RoutePlan where
  steps : List RouteStep
  subRules : List (Str × List RouteStep) := []
  subRules_sorted : (subRules.map Prod.fst).Pairwise (· < ·) := by decide

/-- `sub_rules.get(name)`. -/
def RoutePlan.subRule (plan : RoutePlan) (name : Str) : Option (List RouteStep) :=
  plan.subRules.lookup name

/-! ### Decisions -/

/-- `RouteDecision`. -/
inductive RouteDecision
  | direct
  | block
  | group (name : Str)
  deriving DecidableEq, Repr

/-- `RouteDecision::from_action`. -/
def RouteDecision.fromAction : RouteAction → RouteDecision
  | .direct => direct
  | .block => block
  | .group name => group name
  | .pass | .passRule | .subRule _ => direct

/-- `RouteRuleHit`. -/
structure RouteRuleHit where
  index : Option Nat
  rule : String
  payload : Str
  source : Str
  action : Str
  noResolve : Bool
  noLog : Bool
  noTrack : Bool
  deriving DecidableEq, Repr

/-- `RouteRuleHit::fallback`. -/
def RouteRuleHit.fallback : RouteRuleHit where
  index := none
  rule := "MATCH"
  payload := []
  source := "implicit-direct"
  action := "DIRECT"
  noResolve := false
  noLog := false
  noTrack := false

/-- `DetailedRouteDecision`. -/
structure DetailedRouteDecision where
  decision : RouteDecision
  matcher : String
  hit : RouteRuleHit
  deriving DecidableEq, Repr

/-! ### Descriptions -/

/-- `describe_action`. -/
def describeAction : RouteAction → Str
  | .direct => "DIRECT"
  | .block => "REJECT"
  | .group name => name
  | .pass => "PASS"
  | .passRule => "PASS-RULE"
  | .subRule name => name

/-- A closed interval of ports, as text. -/
def describeRange (low high : UInt16) : Str := decimal low.toNat ++ '-' :: decimal high.toNat

/-- `describe_matcher`, on a condition. -/
def describeCondition : RouteCondition → String × Str
  | .any => ("MATCH", [])
  | .home => ("HOME", [])
  | .cn => ("GEOIP", "CN")
  | .ads => ("ADS", [])
  | .service name => ("SERVICE", name)
  | .domain value => ("DOMAIN", value)
  | .suffix value => ("DOMAIN-SUFFIX", value)
  | .keyword value => ("DOMAIN-KEYWORD", value)
  | .domainRegex pattern => ("DOMAIN-REGEX", pattern)
  | .domainWildcard pattern => ("DOMAIN-WILDCARD", pattern)
  | .geoSite code => ("GEOSITE", code)
  | .cidr value => ("IP-CIDR", value)
  | .srcCidr value => ("SRC-IP-CIDR", value)
  | .ipSuffix value => ("IP-SUFFIX", value)
  | .srcIpSuffix value => ("SRC-IP-SUFFIX", value)
  | .geoIp code => ("GEOIP", code)
  | .srcGeoIp code => ("SRC-GEOIP", code)
  | .ipAsn asn => ("IP-ASN", decimal asn.toNat)
  | .srcIpAsn asn => ("SRC-IP-ASN", decimal asn.toNat)
  | .port port => ("DST-PORT", decimal port.toNat)
  | .portRange low high => ("DST-PORT", describeRange low high)
  | .srcPort port => ("SRC-PORT", decimal port.toNat)
  | .srcPortRange low high => ("SRC-PORT", describeRange low high)
  | .inPort port => ("IN-PORT", decimal port.toNat)
  | .inPortRange low high => ("IN-PORT", describeRange low high)
  | .network name => ("NETWORK", name)
  | .dscp value => ("DSCP", decimal value.toNat)
  | .inUser users => ("IN-USER", users)
  | .inName names => ("IN-NAME", names)
  | .inType types => ("IN-TYPE", types)
  | .uid uid => ("UID", decimal uid.toNat)
  | .rematchName names => ("REMATCH-NAME", names)
  | .process name => ("PROCESS-NAME", name)
  | .processPath path => ("PROCESS-PATH", path)
  | .processRegex pattern => ("PROCESS-NAME-REGEX", pattern)
  | .processPathRegex pattern => ("PROCESS-PATH-REGEX", pattern)
  | .processWildcard pattern => ("PROCESS-NAME-WILDCARD", pattern)
  | .processPathWildcard pattern => ("PROCESS-PATH-WILDCARD", pattern)
  | .set name => ("RULE-SET", name)
  | .srcSet name => ("RULE-SET", name ++ ",src")
  | .proto name => ("PROTOCOL", name)

/-- A rule and its payload, with a comma when there is one: the text of `matcher_expression`. -/
def expression (description : String × Str) : Str :=
  if description.2.isEmpty then description.1
  else description.1.toList ++ ',' :: description.2

mutual

/-- `describe_matcher`. -/
def describeMatcher : RouteMatcher → String × Str
  | .condition c => describeCondition c
  | .and parts => ("AND", describeCompound parts)
  | .or parts => ("OR", describeCompound parts)
  | .not part => ("NOT", '(' :: expression (describeMatcher part) ++ ")")
  | .noResolve part =>
      let (rule, payload) := describeMatcher part
      (rule, if payload.isEmpty then "no-resolve" else payload ++ ",no-resolve")

/-- `describe_compound`. -/
def describeCompound : List RouteMatcher → Str
  | [] => []
  | [part] => '(' :: expression (describeMatcher part) ++ ")"
  | part :: parts => '(' :: expression (describeMatcher part) ++ ")," ++ describeCompound parts

end

/-- `describe_route_step`. -/
def describeRouteStep (index : Option Nat) (step : RouteStep) : RouteRuleHit :=
  let (rule, payload) := match step.action with
    | .subRule _ => ("SUB-RULE", '(' :: expression (describeMatcher step.matcher) ++ ")")
    | _ => describeMatcher step.matcher
  { index, rule, payload
    source := step.source
    action := describeAction step.action
    noResolve := step.options.noResolve
    noLog := step.options.noLog
    noTrack := step.options.noTrack }

/-- `matcher_kind`, on a condition. -/
def conditionKind : RouteCondition → String
  | .any => "any"
  | .home => "home"
  | .cn => "cn"
  | .ads => "ads"
  | .service _ => "service"
  | .domain _ => "domain"
  | .suffix _ => "suffix"
  | .keyword _ => "keyword"
  | .domainRegex _ => "domain_regex"
  | .domainWildcard _ => "domain_wildcard"
  | .geoSite _ => "geosite"
  | .cidr _ => "ip"
  | .srcCidr _ => "src_ip"
  | .ipSuffix _ => "ip_suffix"
  | .srcIpSuffix _ => "src_ip_suffix"
  | .geoIp _ => "geoip"
  | .srcGeoIp _ => "src_geoip"
  | .ipAsn _ => "ip_asn"
  | .srcIpAsn _ => "src_ip_asn"
  | .port _ => "port"
  | .portRange _ _ => "port_range"
  | .srcPort _ => "src_port"
  | .srcPortRange _ _ => "src_port_range"
  | .inPort _ => "in_port"
  | .inPortRange _ _ => "in_port_range"
  | .network _ => "network"
  | .dscp _ => "dscp"
  | .inUser _ => "in_user"
  | .inName _ => "in_name"
  | .inType _ => "in_type"
  | .uid _ => "uid"
  | .rematchName _ => "rematch_name"
  | .process _ => "process"
  | .processPath _ => "process_path"
  | .processRegex _ => "process_regex"
  | .processPathRegex _ => "process_path_regex"
  | .processWildcard _ => "process_wildcard"
  | .processPathWildcard _ => "process_path_wildcard"
  | .set _ => "set"
  | .srcSet _ => "src_set"
  | .proto _ => "proto"

/-- `matcher_kind`. -/
def matcherKind : RouteMatcher → String
  | .condition c => conditionKind c
  | .and _ => "and"
  | .or _ => "or"
  | .not _ => "not"
  | .noResolve part => matcherKind part

end WutherCore.Route
