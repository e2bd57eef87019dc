import Mathlib
import WutherCore.Ruleset.IndexEval

/-!
# DNS policies

The rules of `policy.rs`: which hosts and saved responses a rule is for, and what is to be done with a query that it
matches.

* `QueryOptions`, `DnsAction`, `HostMatch`, `PolicyRule`;
* `matchesHost`: `matches`, for a host, the response that an `evaluate` rule has saved, and the index of the rule sets.
-/

namespace WutherCore.Resolver

open WutherCore.Text WutherCore.Net WutherCore.Ruleset

/-! ### Actions -/

/-- `GroupStrategy`. -/
inductive GroupStrategy
  | roundRobin
  | random
  | parallel
  | adaptive
  | sequential
  | all
  | fastest
  | fallback
  deriving DecidableEq, Repr

/-- `GroupStrategy::parse`. -/
def GroupStrategy.parse (value : Str) : Option GroupStrategy :=
  let name := (toAsciiLowercase (trim value)).map fun c => if c = '_' then '-' else c
  if name ∈ ["round-robin".toList, "roundrobin".toList, "rr".toList] then some .roundRobin
  else if name = "random".toList then some .random
  else if name ∈ ["parallel".toList, "fastest".toList] then some .parallel
  else if name ∈ ["adaptive".toList, "load-balance".toList, "load-balance-adaptive".toList] then some .adaptive
  else if name ∈ ["sequential".toList, "fallback".toList] then some .sequential
  else if name = "all".toList then some .all
  else none

/-- `QueryOptions`. -/
structure QueryOptions where
  disableCache : Bool := false
  disableOptimisticCache : Bool := false
  rewriteTtl : Option UInt32 := none
  clientSubnet : Option IpNet := none
  strategy : Option GroupStrategy := none
  deriving DecidableEq

/-- `RejectMethod`. -/
inductive RejectMethod
  | default
  | drop
  deriving DecidableEq, Repr

/-- `RejectOptions`. -/
structure RejectOptions where
  method : RejectMethod := .default
  noDrop : Bool := false
  deriving DecidableEq

/-- `PreRcode`. -/
inductive PreRcode
  | noerror
  | formerr
  | servfail
  | nxdomain
  | notimp
  | refused
  deriving DecidableEq, Repr

/-- `PreRcode::parse`. -/
def PreRcode.parse (s : Str) : Option PreRcode :=
  let name := toAsciiUppercase s
  if name ∈ ["NOERROR".toList, "SUCCESS".toList] then some .noerror
  else if name ∈ ["FORMERR".toList, "FORMAT_ERROR".toList] then some .formerr
  else if name ∈ ["SERVFAIL".toList, "SERVER_FAILURE".toList] then some .servfail
  else if name ∈ ["NXDOMAIN".toList, "NAME_ERROR".toList] then some .nxdomain
  else if name ∈ ["NOTIMP".toList, "NOT_IMPLEMENTED".toList] then some .notimp
  else if name = "REFUSED".toList then some .refused
  else none

/-- `DnsRR`. -/
structure DnsRR where
  name : Str
  class_ : Str
  rtype : Str
  data : Str
  ttl : Option UInt32
  deriving DecidableEq

/-- `PredefinedResponse`. -/
structure PredefinedResponse where
  rcode : Option PreRcode := none
  answer : List DnsRR := []
  ns : List DnsRR := []
  extra : List DnsRR := []
  deriving DecidableEq

/-- `DnsAction`. -/
inductive DnsAction
  | reject (opts : RejectOptions)
  | accept (ips : List IpAddr)
  | direct (group : Str)
  | proxy (group : Str)
  | fake
  | route (server : Str) (opts : QueryOptions)
  | evaluate (server : Str) (opts : QueryOptions)
  | respond
  | predefined (response : PredefinedResponse)
  deriving DecidableEq

/-! ### Rules -/

/-- `HostMatch`. -/
inductive HostMatch
  | domain (name : Str)
  | suffix (name : Str)
  | keyword (text : Str)
  | any
  | set (name : Str)
  | responseIpCidr (cidr : IpNet)
  | not (inner : HostMatch)
  | or (parts : List HostMatch)
  | and (parts : List HostMatch)

/-- `PolicyRule`. Its source names it to the throttle of rejections. -/
structure PolicyRule where
  matcher : HostMatch
  action : DnsAction

section Matches

variable (cr : Crates) (host : Str) (savedResponse : Option (List IpAddr)) (rulesets : Option RulesetIndex)

/-- A rule set of the index by its name, asked for a host with `RulesetMatcher::matches`. -/
def setMatches (name : Str) : Bool :=
  (rulesets.bind fun index => index.state.matchers name).any fun m => m.matchesContext cr { dstHost := host }

mutual

/-- `matches`. -/
def matchesHost : HostMatch → Bool
  | .any => true
  | .domain name => host == cr.toLowercase name
  | .suffix name =>
      let name := cr.toLowercase (trimStartMatches '.' name)
      host == name || endsWith host ('.' :: name)
  | .keyword text => contains host (cr.toLowercase text)
  | .set name => setMatches cr host rulesets name
  | .responseIpCidr cidr => savedResponse.any fun ips => ips.any cidr.contains
  | .not inner => !matchesHost inner
  | .or parts => matchesAny parts
  | .and parts => matchesAll parts

/-- Some part of a disjunction matches. -/
def matchesAny : List HostMatch → Bool
  | [] => false
  | part :: parts => matchesHost part || matchesAny parts

/-- All parts of a conjunction match. -/
def matchesAll : List HostMatch → Bool
  | [] => true
  | part :: parts => matchesHost part && matchesAll parts

end

end Matches

end WutherCore.Resolver
