import Mathlib.Data.Set.Basic
import WutherCore.Ruleset.Crates

/-!
# What a rule set is asked, and what it may answer

* `RulesetMatchContext`: the metadata of one connection, source and destination kept apart.
* `RulesetMatchOutcome`: the answer while process metadata or the destination IP may be pending.
* `completions`: the contexts a pending context may turn into.
-/

namespace WutherCore.Ruleset

open WutherCore.Text WutherCore.Net

/-- An address of a network interface. -/
structure RulesetInterfaceAddress where
  interfaceType : UInt8
  address : IpNet
  isOwn : Bool

/-- The metadata of one connection. Absent metadata is `none` or an empty list. -/
structure RulesetMatchContext where
  dstHost : Str := []
  dstIp : Option IpAddr := none
  dstPort : Option UInt16 := none
  srcIp : Option IpAddr := none
  srcPort : Option UInt16 := none
  network : Option Str := none
  processName : Option Str := none
  queryType : Option UInt16 := none
  processPath : Option Str := none
  inboundPort : Option UInt16 := none
  inboundType : Option Str := none
  inboundUser : Option Str := none
  inboundName : Option Str := none
  uid : Option UInt32 := none
  dscp : Option UInt8 := none
  destinationGeoip : List Str := []
  sourceGeoip : List Str := []
  destinationGeosite : List Str := []
  destinationAsn : Option UInt32 := none
  sourceAsn : Option UInt32 := none
  rematchNames : List Str := []
  packageNames : List Str := []
  wifiSsid : Option Str := none
  wifiBssid : Option Str := none
  networkType : Option UInt8 := none
  networkIsExpensive : Option Bool := none
  networkIsConstrained : Option Bool := none
  networkInterfaceAddresses : List RulesetInterfaceAddress := []
  defaultInterfaceAddresses : List IpNet := []

/-- The destination address: the resolved one, else the host when it is an address literal. -/
def destinationIp (ctx : RulesetMatchContext) : Option IpAddr :=
  ctx.dstIp <|> parseIpAddr ctx.dstHost

/-- The lookup form of a domain: trimmed, without trailing dots, in ASCII form, in lower case. -/
def normalizeDomain (cr : Crates) (s : Str) : Str :=
  let trimmed := trimEndMatches '.' (trim s)
  cr.toLowercase <| match cr.domainToAscii trimmed with
    | .ok ascii => ascii
    | .error _ => cr.toLowercase trimmed

/-- `ParseError`. -/
inductive ParseError
  | yaml (message : String)
  | json (message : String)
  | utf8 (message : String)
  | missingVersion
  | unsupportedVersion (version : Nat)
  | unsupportedField (field : String)
  | invalidRule (message : String)
  | badLine (line : String)
  | unsupportedBinary (message : String)
  | other (message : String)
  | unknown
  deriving DecidableEq, Repr

/-- `Display` of a `ParseError`. -/
def ParseError.display : ParseError → String
  | yaml message => s!"YAML 解析失败: {message}"
  | json message => s!"JSON 解析失败: {message}"
  | utf8 message => s!"文本不是有效 UTF-8: {message}"
  | missingVersion => "sing-box rule-set 缺少必填 version"
  | unsupportedVersion version => s!"不支持的 sing-box rule-set version: {version}（仅支持 1..=5）"
  | unsupportedField field => s!"sing-box headless rule 字段暂不能求值: {field}"
  | invalidRule message => s!"sing-box headless rule 非法: {message}"
  | badLine line => s!"非法行 \"{line}\""
  | unsupportedBinary message => s!"尚未实现该二进制格式: {message}"
  | other message => s!"二进制解析失败: {message}"
  | unknown => "未知格式"

/-! ### Answers -/

/-- The answer of a rule set while metadata may still be unresolved. -/
inductive RulesetMatchOutcome
  | matched
  | notMatched
  | needsProcess
  | needsDestinationIp
  | needsProcessAndDestinationIp
  deriving DecidableEq, Repr

namespace RulesetMatchOutcome

/-- The answer when nothing matched and the given metadata is still needed. -/
def deferred : (process destinationIp : Bool) → RulesetMatchOutcome
  | false, false => notMatched
  | true, false => needsProcess
  | false, true => needsDestinationIp
  | true, true => needsProcessAndDestinationIp

/-- The metadata an answer waits for: the process, the destination address. -/
def requirements : RulesetMatchOutcome → Bool × Bool
  | needsProcess => (true, false)
  | needsDestinationIp => (false, true)
  | needsProcessAndDestinationIp => (true, true)
  | matched | notMatched => (false, false)

/-- The closed answer for a Boolean. -/
def ofBool (b : Bool) : RulesetMatchOutcome := if b then matched else notMatched

/-- The Boolean an answer commits to, if any. -/
def verdict : RulesetMatchOutcome → Option Bool
  | matched => some true
  | notMatched => some false
  | _ => none

@[simp] theorem verdict_matched : matched.verdict = some true := rfl

@[simp] theorem verdict_notMatched : notMatched.verdict = some false := rfl

@[simp] theorem verdict_ofBool (b : Bool) : (ofBool b).verdict = some b := by cases b <;> rfl

theorem verdict_eq_true {o : RulesetMatchOutcome} : o.verdict = some true ↔ o = matched := by
  cases o <;> simp [verdict]

theorem verdict_eq_false {o : RulesetMatchOutcome} : o.verdict = some false ↔ o = notMatched := by
  cases o <;> simp [verdict]

theorem deferred_verdict_of_needs {p d : Bool} (h : (p || d) = true) :
    (deferred p d).verdict = none := by
  cases p <;> cases d <;> simp_all [deferred, verdict]

theorem deferred_ne_matched (p d : Bool) : deferred p d ≠ matched := by
  cases p <;> cases d <;> simp [deferred]

theorem deferred_eq_notMatched {p d : Bool} : deferred p d = notMatched ↔ p = false ∧ d = false := by
  cases p <;> cases d <;> simp [deferred]

end RulesetMatchOutcome

/-! ### Completions -/

/-- What a process lookup reports. -/
structure ProcessMetadata where
  name : Option Str
  path : Option Str
  packages : List Str

/-- The context with the given process metadata. -/
def RulesetMatchContext.withProcess (ctx : RulesetMatchContext) (m : ProcessMetadata) :
    RulesetMatchContext :=
  { ctx with processName := m.name, processPath := m.path, packageNames := m.packages }

/-- The context with the given destination address. -/
def RulesetMatchContext.withDstIp (ctx : RulesetMatchContext) (ip : Option IpAddr) :
    RulesetMatchContext :=
  { ctx with dstIp := ip }

/-- The contexts that `ctx` may turn into: what is not resolved may become anything. -/
def completions (processResolved destinationIpResolved : Bool) (ctx : RulesetMatchContext) :
    Set RulesetMatchContext :=
  {c | ∃ m ip,
    c = (if processResolved then id else (·.withProcess m))
      ((if destinationIpResolved then id else (·.withDstIp ip)) ctx)}

theorem mem_completions_self (p d : Bool) (ctx : RulesetMatchContext) :
    ctx ∈ completions p d ctx := by
  refine ⟨⟨ctx.processName, ctx.processPath, ctx.packageNames⟩, ctx.dstIp, ?_⟩
  cases p <;> cases d <;> rfl

end WutherCore.Ruleset
