import Mathlib
import WutherCore.Resolver.Policy

/-!
# The two syntaxes of DNS rules

A rule of a DNS policy is a mapping of YAML or a line `lhs -> rhs`.

* `Yaml`: `serde_yaml::Value`, with the accessors that the parser uses.
* `parseRuleLine`: `parse_rule_line`, with `parseLhs`, `parseRhs` and `parseOpts`.
* `parseRuleValue`: `parse_rule_value`, with `parseMatcher`, `parseOptions` and `parseAction` for its three parts.
-/

namespace WutherCore.Resolver

open WutherCore.Text WutherCore.Net WutherCore.Ruleset

/-! ### YAML -/

/-- `serde_yaml::Value`. -/
inductive Yaml
  | null
  | bool (b : Bool)
  | posInt (n : UInt64)
  | negInt (n : Int)
  | float (bits : UInt64)
  | string (s : Str)
  | sequence (items : List Yaml)
  | mapping (entries : List (Yaml × Yaml))
  | tagged (tag : Str) (value : Yaml)

namespace Yaml

/-- `untag_ref`. -/
def untagRef : Yaml → Yaml
  | tagged _ value => value.untagRef
  | v => v

/-- `as_str`. -/
def asStr (v : Yaml) : Option Str := match v.untagRef with | string s => some s | _ => none

/-- `as_bool`. -/
def asBool (v : Yaml) : Option Bool := match v.untagRef with | bool b => some b | _ => none

/-- `as_u64`. -/
def asU64 (v : Yaml) : Option UInt64 := match v.untagRef with | posInt n => some n | _ => none

/-- `as_sequence`. -/
def asSequence (v : Yaml) : Option (List Yaml) := match v.untagRef with | sequence items => some items | _ => none

/-- `as_mapping`. -/
def asMapping (v : Yaml) : Option (List (Yaml × Yaml)) :=
  match v.untagRef with | mapping entries => some entries | _ => none

/-- A value is a text. -/
def isText (s : Str) : Yaml → Bool
  | string t => t == s
  | _ => false

end Yaml

/-- The entries of a `serde_yaml::Mapping`. -/
abbrev Mapping := List (Yaml × Yaml)

namespace Mapping

variable (m : Mapping) (k : String)

/-- `Mapping::get`, for a text. -/
def get : Option Yaml := (m.find? fun e => e.1.isText k.toList).map Prod.snd

/-- `get_str`. -/
def getStr : Option Str := (m.get k).bind Yaml.asStr

/-- `get_bool`. -/
def getBool : Bool := ((m.get k).bind Yaml.asBool).getD false

/-- `get_u64`. -/
def getU64 : Option UInt64 := (m.get k).bind Yaml.asU64

/-- `get_seq`. -/
def getSeq : Option (List Str) := ((m.get k).bind Yaml.asSequence).map fun seq => seq.filterMap Yaml.asStr

end Mapping

/-! ### Parts of both -/

/-- The network of one address: what `ip/32` and `ip/128` parse to. -/
def hostNetwork : IpAddr → IpNet
  | .v4 a => .v4 ⟨a, 32, all_le_32⟩
  | .v6 a => .v6 ⟨a, 128, all_le_128⟩

/-- A client subnet: a network, or the network of an address. -/
def parseSubnet (cr : Crates) (s : Str) : Option IpNet := (cr.parseIpNet s).or ((parseIpAddr s).map hostNetwork)

/-- The addresses among some texts, if there is one. -/
def parseIps (texts : List Str) : Option (List IpAddr) :=
  let ips := texts.filterMap parseIpAddr
  if ips = [] then none else some ips

/-- A response with nothing but a code. -/
def rcodeOnly (rcode : PreRcode) : DnsAction := .predefined { rcode := some rcode }

/-! ### Resource records -/

/-- `str::splitn`, for a predicate on characters. -/
def splitN (p : Char → Bool) : Nat → Str → List Str
  | 0, _ => []
  | 1, s => [s]
  | n + 2, s =>
      match s.dropWhile fun c => !p c with
      | [] => [s]
      | _ :: rest => (s.takeWhile fun c => !p c) :: splitN p (n + 1) rest

/-- The record of the standard form `name [TTL] [IN] TYPE data`, after its name. -/
def DnsRR.standard (name : Str) (fields : List Str) : Option DnsRR :=
  let (ttl, fields) := match fields with
    | field :: rest => match parseU32 field with
        | some n => (some n, rest)
        | none => (none, fields)
    | [] => (none, fields)
  let fields := match fields with
    | field :: rest => if eqIgnoreAsciiCase field "IN".toList then rest else fields
    | [] => fields
  match fields with
  | rtype :: data@(_ :: _) =>
      some {
        name := trimEndMatches '.' name
        class_ := "IN".toList
        rtype := toAsciiUppercase rtype
        data := join " " data
        ttl }
  | _ => none

/-- `DnsRR::parse`. -/
def DnsRR.parse (s : Str) : Option DnsRR :=
  match (splitN isWhitespace 5 (trim s)).filter (!·.isEmpty) with
  | first :: second :: data@(_ :: _) =>
      if toAsciiUppercase first ∈ ["A".toList, "AAAA".toList, "CNAME".toList, "TXT".toList, "PTR".toList, "MX".toList,
          "NS".toList, "SOA".toList] then
        some {
          name := trimEndMatches '.' second
          class_ := "IN".toList
          rtype := toAsciiUppercase first
          data := join " " data
          ttl := none }
      else DnsRR.standard first (second :: data)
  | _ => none

/-! ### Lines -/

section Lines

variable (cr : Crates)

/-- `parse_lhs`. -/
def parseLhs (lhs : Str) : Option HostMatch :=
  let s := trim lhs
  if s ∈ ["any".toList, "*".toList, "final".toList, []] then some .any
  else if let some name := stripPrefix "=".toList s then some (.domain name)
  else if let some name := stripPrefix "*.".toList s then some (.suffix name)
  else if let some text := stripPrefix "~".toList s then some (.keyword text)
  else if let some name := stripPrefix "domain:".toList s then some (.domain name)
  else if let some name := stripPrefix "suffix:".toList s then some (.suffix name)
  else if let some text := stripPrefix "keyword:".toList s then some (.keyword text)
  else if let some name := stripPrefix "set:".toList s then some (.set name)
  else if let some name := stripPrefix "geosite:".toList s then some (.set name)
  else if let some name := stripPrefix "geoip:".toList s then some (.set name)
  else if let some name := stripPrefix "ruleset:".toList s then some (.set name)
  else if let some cidr := stripPrefix "match_response:".toList s then (cr.parseIpNet cidr).map .responseIpCidr
  else if let some cidr := stripPrefix "response:".toList s then (cr.parseIpNet cidr).map .responseIpCidr
  else match _hinner : stripPrefix "not:".toList (trim lhs) with
    | some inner => (parseLhs inner).map .not
    | none => some (.suffix s)
termination_by lhs.length
decreasing_by
  have hlength : inner.length < (trim lhs).length := by
    unfold stripPrefix at _hinner
    split_ifs at _hinner with hprefix
    cases _hinner
    have hle := (List.isPrefixOf_iff_prefix.1 hprefix).length_le
    have hfour : "not:".toList.length = 4 := rfl
    rw [List.length_drop, hfour]
    rw [hfour] at hle
    omega
  have htrim : (trim lhs).length ≤ lhs.length :=
    ((List.rdropWhile_prefix _ _).sublist.trans (List.dropWhile_suffix _).sublist).length_le
  omega

/-- An option of a line. -/
def parseOption (o : QueryOptions) (part : Str) : QueryOptions :=
  let part := trim part
  if part = [] then o
  else if part ∈ ["nocache".toList, "no-cache".toList, "disable_cache".toList] then { o with disableCache := true }
  else if part ∈ ["nooptcache".toList, "no-optimistic".toList, "disable_optimistic_cache".toList] then
    { o with disableOptimisticCache := true }
  else if let some ttl := stripPrefix "ttl=".toList part then
    match parseU32 ttl with
    | some t => { o with rewriteTtl := some t }
    | none => o
  else if "ecs=".toList.isPrefixOf part || "client_subnet=".toList.isPrefixOf part then
    match parseSubnet cr (((splitOnce '=' part).map Prod.snd).getD []) with
    | some n => { o with clientSubnet := some n }
    | none => o
  else if "strategy=".toList.isPrefixOf part then
    { o with strategy := (splitOnce '=' part).bind fun p => GroupStrategy.parse p.2 }
  else o

theorem parseOption_of_ttl (q : QueryOptions) {s : Str} (htrim : trim ("ttl=".toList ++ s) = "ttl=".toList ++ s) :
    parseOption cr q ("ttl=".toList ++ s) = { q with rewriteTtl := (parseU32 s).or q.rewriteTtl } := by
  unfold parseOption
  rw [htrim]
  change (match parseU32 s with
    | some t => { q with rewriteTtl := some t }
    | none => q) = _
  cases parseU32 s <;> rfl

theorem parseOption_of_subnet (q : QueryOptions) {flag s : Str}
    (hflag : flag = "ecs=".toList ∨ flag = "client_subnet=".toList) (htrim : trim (flag ++ s) = flag ++ s) :
    parseOption cr q (flag ++ s) = { q with clientSubnet := (parseSubnet cr s).or q.clientSubnet } := by
  have hread : parseOption cr q (flag ++ s) =
      match parseSubnet cr s with
      | some n => { q with clientSubnet := some n }
      | none => q := by
    unfold parseOption
    rw [htrim]
    rcases hflag with rfl | rfl <;> rfl
  rw [hread]
  cases parseSubnet cr s <;> rfl

/-- `parse_opts`. -/
def parseOpts (s : Str) : QueryOptions := (s.splitOn ',').foldl (parseOption cr) {}

/-- An option of a rejection. -/
def parseRejectOption (o : RejectOptions) (part : Str) : RejectOptions :=
  let part := trim part
  if part ∈ ["no_drop".toList, "no-drop".toList] then { o with noDrop := true }
  else if let some v := stripPrefix "method=".toList part then
    let v := toAsciiLowercase v
    if v = "drop".toList then { o with method := .drop }
    else if v ∈ ["default".toList, []] then { o with method := .default }
    else o
  else o

/-- The characters between which the options of a rejection are. -/
def isRejectSeparator (c : Char) : Bool := c = '?' || c = ',' || c = '&'

/-- The options of a rejection. -/
def parseReject (rhs : Str) : RejectOptions := ((rhs.splitOnP isRejectSeparator).drop 1).foldl parseRejectOption {}

/-- The first part of a predefined response: a code or a record. -/
def PredefinedResponse.first (part : Str) : PredefinedResponse :=
  let part := trim part
  if part = [] then {}
  else match PreRcode.parse part with
    | some rcode => { rcode := some rcode }
    | none => { answer := (DnsRR.parse part).toList }

/-- A further part of a predefined response: a record, of the section that it names. -/
def PredefinedResponse.push (pre : PredefinedResponse) (part : Str) : PredefinedResponse :=
  let part := trim part
  if part = [] then pre
  else if let some s := stripPrefix "ns:".toList part then { pre with ns := pre.ns ++ (DnsRR.parse (trim s)).toList }
  else if let some s := stripPrefix "extra:".toList part then
    { pre with extra := pre.extra ++ (DnsRR.parse (trim s)).toList }
  else { pre with answer := pre.answer ++ (DnsRR.parse part).toList }

/-- The body of a predefined response. -/
def parsePredefined (body : Str) : PredefinedResponse :=
  match (trimStartMatches ':' body).splitOn ';' with
  | first :: parts => parts.foldl PredefinedResponse.push (.first first)
  | [] => {}

/-- The actions of one word. -/
def shortAction (head : Str) : Option DnsAction :=
  if head = "fake".toList then some .fake
  else if head = "respond".toList then some .respond
  else if head = "drop".toList then some (.reject { method := .drop })
  else if head ∈ ["refuse".toList, "refused".toList] then some (.reject {})
  else if head = "nxdomain".toList then some (rcodeOnly .nxdomain)
  else if head ∈ ["noerror".toList, "empty".toList, "null".toList] then some (rcodeOnly .noerror)
  else if head = "servfail".toList then some (rcodeOnly .servfail)
  else if head = "formerr".toList then some (rcodeOnly .formerr)
  else if head = "notimp".toList then some (rcodeOnly .notimp)
  else none

/-- The addresses after `hosts:` or `ip:`. -/
def hostsAction (head : Str) : Option DnsAction :=
  ((stripPrefix "hosts:".toList head).or (stripPrefix "ip:".toList head)).bind fun rest =>
    (parseIps ((rest.splitOn ',').map trim)).map .accept

/-- The actions with a group, and the addresses after `accept:`. -/
def groupAction (head : Str) (opts : QueryOptions) : Option DnsAction :=
  if let some rest := stripPrefix "accept:".toList head then (parseIps ((rest.splitOn ',').map trim)).map .accept
  else if let some g := stripPrefix "direct:".toList head then some (.direct g)
  else if let some g := stripPrefix "proxy:".toList head then some (.proxy g)
  else if let some g := stripPrefix "evaluate:".toList head then some (.evaluate g opts)
  else if let some g := stripPrefix "route:".toList head then some (.route g opts)
  else if head = "direct".toList then some (.direct "default".toList)
  else if head = "proxy".toList then some (.proxy "default".toList)
  else some (.proxy head)

/-- The action of a right-hand side without its options. -/
def headAction (rhs head : Str) (opts : QueryOptions) : Option DnsAction :=
  let head := trim head
  if head ∈ ["reject".toList, "block".toList] then some (.reject (parseReject rhs))
  else if let some rest := stripPrefix "predefined".toList head then some (.predefined (parsePredefined rest))
  else ((shortAction head).or (hostsAction head)).or (groupAction head opts)

/-- `parse_rhs`. -/
def parseRhs (rhs : Str) : Option DnsAction :=
  match splitOnce '?' rhs with
  | some (head, opts) => headAction rhs head (parseOpts cr opts)
  | none => headAction rhs rhs {}

/-- `str::split_once` with `->`. -/
def splitArrow : Str → Option (Str × Str)
  | [] => none
  | c :: s =>
      if c = '-' ∧ s.head? = some '>' then some ([], s.tail) else (splitArrow s).map fun p => (c :: p.1, p.2)

/-- `parse_rule_line`. -/
def parseRuleLine (line : Str) : Option PolicyRule :=
  let s := trim line
  if s = [] || s.head? = some '#' then none
  else do
    let (lhs, rhs) ← splitArrow s
    let matcher ← parseLhs cr (trim lhs)
    let action ← parseRhs cr (trim rhs)
    some { matcher, action }

end Lines

/-! ### Mappings -/

section Mappings

variable (cr : Crates) (m : Mapping)

/-- The condition of a mapping. -/
def parseMatcher : Option HostMatch :=
  if let some s := m.getStr "match" then parseLhs cr s
  else if let some s := m.getStr "domain" then some (.domain s)
  else if let some s := (m.getStr "suffix").or (m.getStr "host") then some (.suffix s)
  else if let some s := m.getStr "keyword" then some (.keyword s)
  else if let some s := (((m.getStr "set").or (m.getStr "geosite")).or (m.getStr "geoip")).or (m.getStr "ruleset") then
    some (.set s)
  else if let some s := (m.getStr "match_response").or (m.getStr "response") then
    (cr.parseIpNet s).map .responseIpCidr
  else some .any

/-- The options of a mapping, with a strategy. -/
def mappingOptions (strategy : Option GroupStrategy) : QueryOptions where
  disableCache := m.getBool "no_cache" || m.getBool "disable_cache" || m.getBool "nocache"
  disableOptimisticCache :=
    m.getBool "no_optimistic_cache" || m.getBool "disable_optimistic_cache" || m.getBool "nooptcache"
  rewriteTtl := (m.getU64 "ttl").map UInt64.toUInt32
  clientSubnet := ((m.getStr "client_subnet").or (m.getStr "ecs")).bind (parseSubnet cr)
  strategy

/-- The options of a mapping: a strategy that is not known fails. -/
def parseOptions : Option QueryOptions :=
  match m.getStr "strategy" with
  | some value => (GroupStrategy.parse value).map fun strategy => mappingOptions cr m (some strategy)
  | none => some (mappingOptions cr m none)

/-- The codes that a mapping has keys for. -/
def rcodeKeys : List (String × PreRcode) :=
  [("nxdomain", .nxdomain), ("noerror", .noerror), ("servfail", .servfail), ("formerr", .formerr), ("notimp", .notimp)]

/-- The addresses of a key: a sequence, or a text with commas. -/
def acceptIn (k : String) : Option (List IpAddr) :=
  ((m.getSeq k).bind parseIps).or ((m.getStr k).bind fun s => parseIps ((s.splitOn ',').map trim))

/-- The action of a mapping: the first of its keys that there is. -/
def parseAction (opts : QueryOptions) : Option DnsAction :=
  if m.getBool "drop" then some (.reject { method := .drop, noDrop := m.getBool "no_drop" })
  else if m.getBool "reject" || m.getBool "refuse" then
    some (.reject {
      method := if m.getStr "method" = some "drop".toList then .drop else .default
      noDrop := m.getBool "no_drop" })
  else if let some code := rcodeKeys.find? fun code => m.getBool code.1 then some (rcodeOnly code.2)
  else if let some ips := ["accept", "hosts", "ips"].findSome? (acceptIn m) then some (.accept ips)
  else if m.getBool "fake" then some .fake
  else if m.getBool "respond" then some .respond
  else if let some g := m.getStr "evaluate" then some (.evaluate g opts)
  else if let some g := m.getStr "route" then some (.route g opts)
  else if let some g := m.getStr "direct" then some (.route g opts)
  else if let some g := m.getStr "proxy" then some (.route g opts)
  else none

/-- `parse_rule_value`, of a mapping. -/
def parseRuleMapping : Option PolicyRule := do
  let matcher ← parseMatcher cr m
  let opts ← parseOptions cr m
  let action ← parseAction m opts
  some { matcher, action }

end Mappings

/-- `parse_rule_value`. -/
def parseRuleValue (cr : Crates) (v : Yaml) : Option PolicyRule :=
  match v.asStr with
  | some s => parseRuleLine cr s
  | none => v.asMapping.bind (parseRuleMapping cr)

end WutherCore.Resolver
