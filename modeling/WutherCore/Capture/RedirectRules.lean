import Mathlib
import WutherCore.Data.AssocMap
import WutherCore.Data.Except
import WutherCore.Net.Prefix

/-!
# The policy rules of `auto_redirect`

`buildRules` makes the policy rules of a plan: first those that let traffic pass by the TUN device
(dependencies), then those that send traffic into it (captures).

* `validatePlan`, `rulePriorities`, `canonicalNets`: what a plan has to satisfy, and what is read from it.
* `buildRules_layers`: dependencies come first.
* `buildRules_nodup`: no rule is built twice.
-/

namespace WutherCore.Capture.Redirect

open WutherCore.Text WutherCore.Data WutherCore.Net

/-- `IpFamily`. -/
inductive IpFamily
  | v4
  | v6
  deriving DecidableEq, Repr

/-- `IpFamily::command_flag`. -/
def IpFamily.commandFlag : IpFamily → Str
  | .v4 => "-4"
  | .v6 => "-6"

/-- `RuleLayer`. -/
inductive RuleLayer
  | dependency
  | capture
  deriving DecidableEq, Repr

/-- `OwnedIpRule`. -/
structure OwnedIpRule where
  family : IpFamily
  layer : RuleLayer
  selector : List Str
  deriving DecidableEq

/-- `RuleCommand`. -/
structure RuleCommand where
  program : Str
  args : List Str
  deriving DecidableEq

/-- `OwnedIpRule::command`. -/
def OwnedIpRule.command (rule : OwnedIpRule) (verb : Str) : RuleCommand :=
  ⟨"ip", rule.family.commandFlag :: "rule" :: verb :: rule.selector⟩

/-- `RuleCommandOutput`. -/
structure RuleCommandOutput where
  success : Bool
  status : Option Int
  stdout : Str
  stderr : Str
  deriving DecidableEq

/-- A command that could not be spawned or that failed. -/
inductive Failure
  | spawn (command : RuleCommand) (error : Str)
  | exited (command : RuleCommand) (output : RuleCommandOutput)
  deriving DecidableEq

/-- `CaptureError::Route`, with the failures that its text shows. -/
inductive CaptureError
  | route (message : Str)
  | installRule (failure : Failure)
  | cleanupIncomplete (failures : List Failure)
  deriving DecidableEq

/-- `route_error`. -/
def routeError (message : Str) : CaptureError := .route message

/-- `strip_ip_family_prefix`. -/
def stripIpFamilyPrefix : List Str → List Str
  | flag :: rest =>
    if flag = ("-4" : Str) ∨ flag = ("-6" : Str) then rest
    else
      match rest with
      | _ :: rest' => if flag = ("-f" : Str) then rest' else flag :: rest
      | [] => [flag]
  | [] => []

/-- `is_absent_ip_rule_delete`. -/
def isAbsentIpRuleDelete (program : Str) (args : List Str) (stderr : Str) : Bool :=
  if program ≠ ("ip" : Str) then false
  else
    match stripIpFamilyPrefix args with
    | noun :: verb :: _ =>
      noun == ("rule" : Str) && verb == ("del" : Str) && contains (toAsciiLowercase stderr) "no such file"
    | _ => false

/-- `is_absent_delete`. -/
def isAbsentDelete (command : RuleCommand) (output : RuleCommandOutput) : Bool :=
  let detail := output.stderr ++ '\n' :: output.stdout
  isAbsentIpRuleDelete command.program command.args detail ||
    contains (toAsciiLowercase detail) "rtnetlink answers: no such process"

/-- `CaptureTraffic`. -/
inductive CaptureTraffic
  | system
  | lan
  | apps
  deriving DecidableEq, Repr

/-- `CapturePlan`, as far as the policy rules read it. -/
structure CapturePlan where
  on : Bool
  autoRoute : Bool
  autoRedirect : Bool
  traffic : CaptureTraffic
  strictRoute : Bool
  routeAddressSet : List Str
  routeExcludeAddressSet : List Str
  interfaceName : Str
  iproute2TableIndex : Nat
  iproute2RuleIndex : Nat
  ipv6Enabled : Bool
  tunV4Cidr : Subnet 32
  tunV6Cidr : Option (Subnet 128)
  outputMark : Option Nat
  excludeCidrs : List IpNet
  routeAddresses : List IpNet
  routeExcludeAddresses : List IpNet
  loopbackAddresses : List IpAddr

/-- `RulePriorities`. -/
structure RulePriorities where
  tunSubnet : Nat
  routeBypass : Nat
  outboundMark : Nat
  capture : Nat
  deriving DecidableEq, Repr

/-- `MAX_IPROUTE2_AUTO_REDIRECT_RULE_INDEX`. -/
def maxIproute2AutoRedirectRuleIndex : Nat := 32765

/-- `DEFAULT_AUTO_REDIRECT_OUTPUT_MARK`. -/
def defaultAutoRedirectOutputMark : Nat := 0x2024

/-- `rule_priorities`. -/
def rulePriorities (capture : Nat) : Except CaptureError RulePriorities :=
  if capture > maxIproute2AutoRedirectRuleIndex then
    .error (routeError ("iproute2_rule_index " ++ decimal capture ++
      (" must precede the Linux main rule priority 32766" : Str)))
  else if capture ≤ 3 then
    .error (routeError ("iproute2_rule_index " ++ decimal capture ++
      (" is too small; auto_redirect needs four ordered priorities" : Str)))
  else .ok ⟨capture - 3, capture - 2, capture - 1, capture⟩

/-- `validate_plan`. -/
def validatePlan (plan : CapturePlan) (ipv6 : Bool) : Except CaptureError Unit :=
  if !plan.on || !plan.autoRoute || !plan.autoRedirect then
    .error (routeError
      "auto_redirect local policy routing requires capture.on, auto_route, and auto_redirect")
  else if plan.traffic ≠ .system then
    .error (routeError "auto_redirect local policy routing supports only traffic=system")
  else if plan.strictRoute then
    .error (routeError
      "auto_redirect local TCP/UDP policy routing cannot promise strict_route for ICMP/other protocols")
  else if !plan.routeAddressSet.isEmpty || !plan.routeExcludeAddressSet.isEmpty then
    .error (routeError
      "dynamic route_address_set/route_exclude_address_set must be rejected before auto_redirect activation")
  else if (trim plan.interfaceName).isEmpty || plan.interfaceName == ("lo" : Str) then
    .error (routeError "auto_redirect custom TUN interface must be non-empty and must not be loopback")
  else if plan.iproute2TableIndex = 0 ∨ 253 ≤ plan.iproute2TableIndex ∧ plan.iproute2TableIndex ≤ 255 then
    .error (routeError "auto_redirect iproute2_table_index must be a non-reserved private table")
  else
    match rulePriorities plan.iproute2RuleIndex with
    | .error e => .error e
    | .ok _ =>
      if ipv6 && (!plan.ipv6Enabled || plan.tunV6Cidr.isNone) then
        .error (routeError "IPv6 policy routing requested without an enabled IPv6 TUN subnet")
      else .ok ()

/-- `BypassLookupTables`. -/
structure BypassLookupTables where
  ipv4 : Str
  ipv6 : Option Str
  deriving DecidableEq

/-- `BypassLookupTables::for_family`. -/
def BypassLookupTables.forFamily (tables : BypassLookupTables) : IpFamily → Except CaptureError Str
  | .v4 => .ok tables.ipv4
  | .v6 =>
    match tables.ipv6 with
    | some table => .ok table
    | none => .error (routeError "IPv6 policy rule requested without an IPv6 bypass lookup table")

/-- `destination_rule`. -/
def destinationRule (family : IpFamily) (priority : Nat) (destination : Option IpNet) (localOnly : Bool)
    (protocol : Option Str) (lookup : Str) (layer : RuleLayer) : OwnedIpRule where
  family := family
  layer := layer
  selector := ([("priority" : Str), decimal priority] : List Str) ++
    (if localOnly then [("iif" : Str), "lo"] else []) ++
    (match protocol with | some p => [("ipproto" : Str), p] | none => []) ++
    (match destination with | some d => [("to" : Str), d.display] | none => []) ++ [("lookup" : Str), lookup]

/-- `mark_rule`. -/
def markRule (family : IpFamily) (priority mark : Nat) (lookup : Str) : OwnedIpRule where
  family := family
  layer := .dependency
  selector := ["priority", decimal priority, "iif", "lo", "fwmark", '0' :: 'x' :: hex mark, "lookup", lookup]

/-- `canonical_nets`: the first network of each text, by text. -/
def canonicalNets (nets : List IpNet) : List IpNet :=
  let unique := nets.foldl (fun (unique : AssocMap Str IpNet) net =>
    if unique.contains net.display then unique else unique.insert net.display net) .empty
  unique.sorted.map Prod.snd

/-- `IpNet::new` with the whole address as prefix. -/
def hostNet : IpAddr → IpNet
  | .v4 a => .v4 ⟨a, 32, le_rfl⟩
  | .v6 a => .v6 ⟨a, 128, le_rfl⟩

/-- `merged_bypass_targets`. -/
def mergedBypassTargets (plan : CapturePlan) : List IpNet :=
  canonicalNets (plan.excludeCidrs ++ plan.routeExcludeAddresses ++ plan.loopbackAddresses.map hostNet)

/-- `family_for_net`. -/
def familyForNet : IpNet → IpFamily
  | .v4 _ => .v4
  | .v6 _ => .v6

/-- `enabled_families`. -/
def enabledFamilies (ipv6 : Bool) : List IpFamily := if ipv6 then [.v4, .v6] else [.v4]

/-- The protocols of the capture rules. -/
def protocols : List Str := ["tcp", "udp"]

/-- The rules that let the traffic to some networks pass by. -/
def bypassRules (plan : CapturePlan) (ipv6 : Bool) (tables : BypassLookupTables) (p : RulePriorities) :
    Except CaptureError (List OwnedIpRule) :=
  ((mergedBypassTargets plan).filter fun net => ipv6 || familyForNet net == .v4).mapM fun net => do
    let lookup ← tables.forFamily (familyForNet net)
    return destinationRule (familyForNet net) p.routeBypass (some net) true none lookup .dependency

/-- The rules that let the own traffic of the process pass by. -/
def markRules (plan : CapturePlan) (ipv6 : Bool) (tables : BypassLookupTables) (p : RulePriorities) :
    Except CaptureError (List OwnedIpRule) :=
  let outputMark := (plan.outputMark.filter (· ≠ 0)).getD defaultAutoRedirectOutputMark
  (enabledFamilies ipv6).mapM fun family => do
    return markRule family p.outboundMark outputMark (← tables.forFamily family)

/-- The rules for the subnets of the TUN device. -/
def tunRules (plan : CapturePlan) (ipv6 : Bool) (p : RulePriorities) :
    Except CaptureError (List OwnedIpRule) :=
  let lookup := decimal plan.iproute2TableIndex
  let rules := fun family net => protocols.map fun protocol =>
    destinationRule family p.tunSubnet (some net) true (some protocol) lookup .capture
  if ipv6 then
    match plan.tunV6Cidr with
    | some net => .ok (rules .v4 (.v4 plan.tunV4Cidr) ++ rules .v6 (.v6 net))
    | none => .error (routeError "IPv6 policy routing requested without an IPv6 TUN subnet")
  else .ok (rules .v4 (.v4 plan.tunV4Cidr))

/-- The rules for all other traffic. -/
def captureRules (plan : CapturePlan) (ipv6 : Bool) (p : RulePriorities) : List OwnedIpRule :=
  let rule := fun family net protocol =>
    destinationRule family p.capture net true (some protocol) (decimal plan.iproute2TableIndex) .capture
  let routeAddresses := canonicalNets plan.routeAddresses
  if routeAddresses.isEmpty then
    ((enabledFamilies ipv6).product protocols).map fun e => rule e.1 none e.2
  else
    ((routeAddresses.filter fun net => ipv6 || familyForNet net == .v4).product protocols).map fun e =>
      rule (familyForNet e.1) (some e.1) e.2

/-- `build_rules`: dependencies come before captures. -/
def buildRules (plan : CapturePlan) (ipv6 : Bool) (tables : BypassLookupTables) :
    Except CaptureError (List OwnedIpRule) := do
  let p ← rulePriorities plan.iproute2RuleIndex
  let bypass ← bypassRules plan ipv6 tables p
  let marks ← markRules plan ipv6 tables p
  let tun ← tunRules plan ipv6 p
  return bypass ++ marks ++ tun ++ captureRules plan ipv6 p

/-! ### The rules of a plan -/

/-- The value behind a word of a selector. -/
def field (name : Str) : List Str → Option Str
  | key :: value :: rest => if key = name then some value else field name rest
  | _ => none

theorem field_destinationRule (family : IpFamily) (priority : Nat) (destination : Option IpNet)
    (localOnly : Bool) (protocol : Option Str) (lookup : Str) (layer : RuleLayer) :
    let selector := (destinationRule family priority destination localOnly protocol lookup layer).selector
    field "priority" selector = some (decimal priority) ∧ field "ipproto" selector = protocol ∧
      field "to" selector = destination.map IpNet.display := by
  cases localOnly <;> cases protocol <;> cases destination <;>
    simp [destinationRule, field]

theorem canonicalNets_nodup (nets : List IpNet) : ((canonicalNets nets).map IpNet.display).Nodup := by
  set keep := fun (unique : AssocMap Str IpNet) (net : IpNet) =>
    if unique.contains net.display then unique else unique.insert net.display net
  -- A network stands under its text.
  have hkeys : ∀ e ∈ (nets.foldl keep .empty).entries, e.1 = e.2.display := by
    refine List.foldlRecOn nets keep (fun e he => absurd he List.not_mem_nil) ?_
      (motive := fun m : AssocMap Str IpNet => ∀ e ∈ m.entries, e.1 = e.2.display)
    intro m hm net _ e he
    unfold keep at he
    split_ifs at he
    · exact hm e he
    · have hget := AssocMap.get?_eq_some.2 he
      by_cases hkey : e.1 = net.display
      · rw [hkey, AssocMap.get?_insert_self] at hget
        rw [hkey, Option.some.inj hget]
      · rw [AssocMap.get?_insert_of_ne _ _ hkey] at hget
        exact hm e (AssocMap.get?_eq_some.1 hget)
  have hperm : (nets.foldl keep .empty).sorted.Perm (nets.foldl keep .empty).entries :=
    List.perm_insertionSort _ _
  have hdisplay : (canonicalNets nets).map IpNet.display = (nets.foldl keep .empty).sorted.map Prod.fst := by
    rw [canonicalNets, List.map_map]
    exact List.map_congr_left fun e he => (hkeys e (hperm.subset he)).symm
  rw [hdisplay, (hperm.map _).nodup_iff]
  exact (nets.foldl keep .empty).nodup

theorem map_eq_of_forall₂ {α β γ : Type} {f : α → γ} {g : β → γ} {as : List α} {bs : List β}
    (h : List.Forall₂ (fun a b => g b = f a) as bs) : bs.map g = as.map f := by
  induction h with
  | nil => rfl
  | cons hab _ ih => rw [List.map_cons, List.map_cons, hab, ih]

section Plan

variable {plan : CapturePlan} {ipv6 : Bool} {tables : BypassLookupTables} {p : RulePriorities}
  {rules : List OwnedIpRule}

theorem bypassRules_spec (h : bypassRules plan ipv6 tables p = .ok rules) : rules.Nodup ∧
    ∀ r ∈ rules, r.layer = .dependency ∧ (field "to" r.selector).isSome := by
  have hall := mapM_eq_ok.1 h
  have hrule : ∀ (net : IpNet) (r : OwnedIpRule), (do
      let lookup ← tables.forFamily (familyForNet net)
      return destinationRule (familyForNet net) p.routeBypass (some net) true none lookup .dependency) =
        .ok r → r.layer = .dependency ∧ field "to" r.selector = some net.display := by
    intro net r hr
    obtain ⟨lookup, -, hr⟩ := bind_eq_ok.1 hr
    cases hr
    exact ⟨rfl, (field_destinationRule _ _ _ _ _ _ _).2.2⟩
  constructor
  · refine List.Nodup.of_map (fun r => field "to" r.selector) ?_
    rw [map_eq_of_forall₂ (hall.imp fun net r hr => (hrule net r hr).2)]
    have hnets := (canonicalNets_nodup (plan.excludeCidrs ++ plan.routeExcludeAddresses ++
      plan.loopbackAddresses.map hostNet)).map (Option.some_injective Str)
    rw [List.map_map] at hnets
    exact hnets.sublist (List.filter_sublist.map _)
  · intro r hr
    obtain ⟨net, -, hnet⟩ := exists_left_of_forall₂ hall hr
    obtain ⟨hlayer, hto⟩ := hrule net r hnet
    exact ⟨hlayer, by rw [hto]; rfl⟩

theorem markRules_spec (h : markRules plan ipv6 tables p = .ok rules) : rules.Nodup ∧
    ∀ r ∈ rules, r.layer = .dependency ∧ field "to" r.selector = none := by
  have hall := mapM_eq_ok.1 h
  have hrule : ∀ (family : IpFamily) (r : OwnedIpRule), (do
      return markRule family p.outboundMark
        ((plan.outputMark.filter (· ≠ 0)).getD defaultAutoRedirectOutputMark)
        (← tables.forFamily family)) = .ok r →
      r.layer = .dependency ∧ r.family = family ∧ field "to" r.selector = none := by
    intro family r hr
    obtain ⟨lookup, -, hr⟩ := bind_eq_ok.1 hr
    cases hr
    exact ⟨rfl, rfl, by simp [markRule, field]⟩
  constructor
  · refine List.Nodup.of_map OwnedIpRule.family ?_
    rw [map_eq_of_forall₂ (f := id) (hall.imp fun family r hr => (hrule family r hr).2.1), List.map_id]
    cases ipv6 <;> decide
  · intro r hr
    obtain ⟨family, -, hfamily⟩ := exists_left_of_forall₂ hall hr
    exact ⟨(hrule family r hfamily).1, (hrule family r hfamily).2.2⟩

theorem protocols_nodup : protocols.Nodup := by decide

theorem protocolRules_spec {α : Type} (family : α → IpFamily) (net : α → Option IpNet) (priority : Nat)
    (lookup : Str) (xs : List α) (hxs : (xs.map fun x => (family x, (net x).map IpNet.display)).Nodup)
    (hrules : rules = (xs.product protocols).map fun e =>
      destinationRule (family e.1) priority (net e.1) true (some e.2) lookup .capture) :
    rules.Nodup ∧
      ∀ r ∈ rules, r.layer = .capture ∧ field "priority" r.selector = some (decimal priority) := by
  subst hrules
  constructor
  · refine (List.Nodup.of_map _ hxs).product protocols_nodup |>.map_on ?_
    rintro ⟨x, protocol⟩ hx ⟨y, protocol'⟩ hy heq
    obtain ⟨-, hproto, hto⟩ :=
      field_destinationRule (family x) priority (net x) true (some protocol) lookup .capture
    obtain ⟨-, hproto', hto'⟩ :=
      field_destinationRule (family y) priority (net y) true (some protocol') lookup .capture
    dsimp only at heq hproto hproto' hto hto'
    rw [heq, hproto'] at hproto
    rw [heq, hto'] at hto
    have hkey := List.inj_on_of_nodup_map hxs (List.pair_mem_product.1 hx).1 (List.pair_mem_product.1 hy).1
      (Prod.ext (congrArg OwnedIpRule.family heq) hto.symm)
    rw [hkey, Option.some.inj hproto]
  · intro r hr
    obtain ⟨e, -, rfl⟩ := List.mem_map.1 hr
    exact ⟨rfl, (field_destinationRule _ _ _ _ _ _ _).1⟩

theorem tunRules_spec (h : tunRules plan ipv6 p = .ok rules) : rules.Nodup ∧
    ∀ r ∈ rules, r.layer = .capture ∧ field "priority" r.selector = some (decimal p.tunSubnet) := by
  unfold tunRules at h
  split_ifs at h
  · split at h
    · next net _ =>
      cases h
      refine protocolRules_spec familyForNet some _ _ [.v4 plan.tunV4Cidr, .v6 net] ?_ rfl
      simp [familyForNet]
    · cases h
  · cases h
    exact protocolRules_spec familyForNet some _ _ [.v4 plan.tunV4Cidr] (by simp) rfl

theorem captureRules_spec (plan : CapturePlan) (ipv6 : Bool) (p : RulePriorities) :
    (captureRules plan ipv6 p).Nodup ∧ ∀ r ∈ captureRules plan ipv6 p,
      r.layer = .capture ∧ field "priority" r.selector = some (decimal p.capture) := by
  unfold captureRules
  dsimp only
  split_ifs
  · refine protocolRules_spec id (fun _ => none) _ _ (enabledFamilies ipv6) ?_ rfl
    cases ipv6 <;> decide
  · refine protocolRules_spec familyForNet some _ _ _ ?_ rfl
    have hnets := (canonicalNets_nodup plan.routeAddresses).sublist
      (List.filter_sublist (p := fun net => ipv6 || familyForNet net == .v4) |>.map IpNet.display)
    refine List.Nodup.of_map Prod.snd ?_
    rw [List.map_map]
    have := hnets.map (Option.some_injective Str)
    rwa [List.map_map] at this

theorem buildRules_cases (h : buildRules plan ipv6 tables = .ok rules) :
    ∃ p bypass marks tun, p.tunSubnet < p.capture ∧ bypassRules plan ipv6 tables p = .ok bypass ∧
      markRules plan ipv6 tables p = .ok marks ∧ tunRules plan ipv6 p = .ok tun ∧
      rules = bypass ++ marks ++ (tun ++ captureRules plan ipv6 p) := by
  obtain ⟨p, hp, h⟩ := bind_eq_ok.1 h
  obtain ⟨bypass, hbypass, h⟩ := bind_eq_ok.1 h
  obtain ⟨marks, hmarks, h⟩ := bind_eq_ok.1 h
  obtain ⟨tun, htun, h⟩ := bind_eq_ok.1 h
  cases h
  refine ⟨p, bypass, marks, tun, ?_, hbypass, hmarks, htun, List.append_assoc _ _ _⟩
  unfold rulePriorities at hp
  split_ifs at hp with _ hsmall
  cases hp
  show plan.iproute2RuleIndex - 3 < plan.iproute2RuleIndex
  omega

theorem buildRules_layers (h : buildRules plan ipv6 tables = .ok rules) :
    ∃ dependencies captures, rules = dependencies ++ captures ∧
      (∀ r ∈ dependencies, r.layer = .dependency) ∧ ∀ r ∈ captures, r.layer = .capture := by
  obtain ⟨p, bypass, marks, tun, -, hbypass, hmarks, htun, rfl⟩ := buildRules_cases h
  refine ⟨bypass ++ marks, tun ++ captureRules plan ipv6 p, rfl, ?_, ?_⟩
  · intro r hr
    rcases List.mem_append.1 hr with hr | hr
    · exact ((bypassRules_spec hbypass).2 r hr).1
    · exact ((markRules_spec hmarks).2 r hr).1
  · intro r hr
    rcases List.mem_append.1 hr with hr | hr
    · exact ((tunRules_spec htun).2 r hr).1
    · exact ((captureRules_spec plan ipv6 p).2 r hr).1

theorem decimal_injective : Function.Injective decimal := by
  intro m n h
  have hm := parseDigits_decimal (show m < m + n + 1 by omega)
  have hn := parseDigits_decimal (show n < m + n + 1 by omega)
  rw [h, hn] at hm
  exact (Option.some.inj hm).symm

theorem buildRules_nodup (h : buildRules plan ipv6 tables = .ok rules) : rules.Nodup := by
  obtain ⟨p, bypass, marks, tun, hlt, hbypass, hmarks, htun, rfl⟩ := buildRules_cases h
  obtain ⟨hbypass, hb⟩ := bypassRules_spec hbypass
  obtain ⟨hmarks, hm⟩ := markRules_spec hmarks
  obtain ⟨htun, ht⟩ := tunRules_spec htun
  obtain ⟨hcapture, hc⟩ := captureRules_spec plan ipv6 p
  refine List.nodup_append.2
    ⟨List.nodup_append.2 ⟨hbypass, hmarks, ?_⟩, List.nodup_append.2 ⟨htun, hcapture, ?_⟩, ?_⟩
  · rintro a ha b hb' rfl
    have := (hb a ha).2
    rw [(hm a hb').2] at this
    cases this
  · rintro a ha b hb' rfl
    have := (ht a ha).2
    rw [(hc a hb').2] at this
    exact hlt.ne' (decimal_injective (Option.some.inj this))
  · rintro a ha b hb' rfl
    have hdep : a.layer = .dependency := (List.mem_append.1 ha).elim (fun h => (hb a h).1) fun h => (hm a h).1
    have hcap : a.layer = .capture := (List.mem_append.1 hb').elim (fun h => (ht a h).1) fun h => (hc a h).1
    rw [hdep] at hcap
    cases hcap

end Plan

end WutherCore.Capture.Redirect
