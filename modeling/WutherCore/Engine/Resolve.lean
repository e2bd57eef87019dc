import Mathlib
import WutherCore.Engine.GroupPick

/-!
# Resolution of nested groups

The member that a group selects may be another group, and so on.  `Directory.pickInGroupInner` follows the groups down
to an outbound, with the set of the groups on the way and a limit to their number; it blocks a flow that comes back to
one of them.  `left` is the number of levels that are left, `GROUP_MAX_DEPTH - depth`.

* `groupSupportsNetwork`: a group can carry a flow of a network;
* `firstResolvableMember`: an outbound to name in the error of a UDP flow that no member can carry;
* `groupLeafMembers`: the outbounds under a group, for the tests of a group by hand.

The source keeps the set in a variable that it changes; here a function returns it.
-/

namespace WutherCore.Engine

open WutherCore.Text WutherCore.Data WutherCore.Health WutherCore.Net

/-- `DIRECT`. -/
def direct : Str := "DIRECT".toList

/-- `BLOCK`. -/
def block : Str := "BLOCK".toList

/-- `GROUP_MAX_DEPTH`. -/
def groupMaxDepth : Nat := 32

/-- An outbound: its protocol, and whether it carries UDP. -/
structure Outbound where
  protocol : Str
  udp : Bool
  deriving DecidableEq

/-- An `OutboundRegistry`.  `DIRECT` and `BLOCK` are always there. -/
structure Registry where
  map : AssocMap Str Outbound
  direct : (map.get? direct).isSome
  block : (map.get? block).isSome

/-- `OutboundRegistry::get`. -/
def Registry.get (r : Registry) (name : Str) : Option Outbound := r.map.get? name

/-- `must_get("BLOCK")`. -/
def Registry.mustGetBlock (r : Registry) : Outbound := (r.map.get? Engine.block).get r.block

/-- A `FlowContext`, as far as the groups look at it. -/
structure FlowContext where
  host : Str
  ip : Option IpAddr := none
  port : UInt16
  network : NetworkKind

/-- The `FlowMeta` of a flow. -/
def FlowContext.meta (ctx : FlowContext) : FlowMeta :=
  { host := ctx.host, dstIp := ctx.ip, port := ctx.port, network := ctx.network }

/-- A `ResolvedGroupPick`; the chain ends with the outermost group. -/
structure ResolvedGroupPick where
  label : Str
  outbound : Outbound
  chain : List Str
  deriving DecidableEq

/-- The label that an `empty_fallback` stands for. -/
def fallbackLabel (configured : Str) : Str :=
  if toAsciiUppercase configured = "REJECT".toList ∨ toAsciiUppercase configured = block then block
  else if toAsciiUppercase configured = direct then direct
  else configured

/-- The groups, the outbounds and the tester of a runtime. -/
structure Directory where
  groups : AssocMap Str Group
  outbounds : Registry
  urltest : Option UrlTester

/-- The first member that a search answers for, where a search changes the set of the groups on the way. -/
def firstThrough {α β γ : Type*} (search : γ → α → Option β × γ) : List α → γ → Option β × γ
  | [], visiting => (none, visiting)
  | member :: members, visiting =>
      match search visiting member with
      | (some found, visiting) => (some found, visiting)
      | (none, visiting) => firstThrough search members visiting

namespace Directory

variable (d : Directory)

/-- `member_protocol`. -/
def memberProtocol (name : Str) : Str :=
  if d.groups.contains name then "group".toList else ((d.outbounds.get name).map (·.protocol)).getD []

/-- The members of a group that pass its filters. -/
def membersOf (g : Group) : List Str := g.filteredMembers d.memberProtocol

/-! ### Capabilities -/

/-- An outbound carries a network. -/
def Carries (network : NetworkKind) (outbound : Outbound) : Bool := network ≠ .udp || outbound.udp

/-- `fallback_supports_network`. -/
def fallbackSupportsNetwork (network : NetworkKind) (fallback : Str) : Bool :=
  (d.outbounds.get (fallbackLabel fallback)).any (Carries network)

/-- `member_supports_network`, given what the groups support. -/
def memberSupports (network : NetworkKind) (nested : Str → Bool) (name : Str) : Bool :=
  match d.outbounds.get name with
  | some outbound => Carries network outbound
  | none => nested name

/-- `group_supports_network`.  The set is a copy that is thrown away. -/
def groupSupportsNetwork (network : NetworkKind) : (left : Nat) → (visiting : Finset Str) → (group : Str) → Bool
  | 0, _, _ => false
  | left + 1, visiting, group =>
      if group ∈ visiting then false
      else match d.groups.get? group with
        | none => false
        | some g =>
            if network = .udp ∧ g.detail.disableUdp = true then false
            else
              let members := limitMembers g.detail.maxMembers (d.membersOf g)
              let required := max g.detail.minMembers 1
              let supporting := (members.filter fun member => (feedMemberName member).isNone).filter
                (d.memberSupports network (groupSupportsNetwork network left (insert group visiting)))
              required ≤ (supporting.take required).length || d.fallbackSupportsNetwork network g.detail.emptyFallback

/-- `member_supports_network`. -/
def memberSupportsNetwork (network : NetworkKind) (left : Nat) (ancestors : Finset Str) : (name : Str) → Bool :=
  d.memberSupports network (d.groupSupportsNetwork network left ancestors)

/-! ### Resolution -/

/-- `blocked_group_pick`. -/
def blockedGroupPick : ResolvedGroupPick := ⟨block, d.outbounds.mustGetBlock, [block]⟩

/-- `empty_group_pick`. -/
def emptyGroupPick (g : Group) (group : Str) : ResolvedGroupPick :=
  let label := fallbackLabel g.detail.emptyFallback
  match d.outbounds.get label with
  | some outbound => ⟨label, outbound, [label, group]⟩
  | none => d.blockedGroupPick

/-- `first_resolvable_member`. -/
def firstResolvableMember : (left : Nat) → (visiting : Finset Str) → (member : Str) →
    Option ResolvedGroupPick × Finset Str
  | left, visiting, member =>
      match d.outbounds.get member with
      | some outbound => (some ⟨member, outbound, [member]⟩, visiting)
      | none =>
          match left with
          | 0 => (none, visiting)
          | left + 1 =>
              if member ∈ visiting then (none, visiting)
              else
                let visiting := insert member visiting
                match d.groups.get? member with
                | none => (none, visiting.erase member)
                | some g =>
                    let children := (d.membersOf g).filter fun child => (feedMemberName child).isNone
                    match firstThrough (firstResolvableMember left) children visiting with
                    | (some resolved, visiting) =>
                        (some { resolved with chain := resolved.chain ++ [member] }, visiting.erase member)
                    | (none, visiting) => (none, visiting.erase member)

end Directory

/-- What a resolution returns, and what it leaves. -/
structure Resolution where
  pick : ResolvedGroupPick
  visiting : Finset Str
  directory : Directory

namespace Directory

variable (d : Directory)

/-- The selection of a group, and the directory after it. -/
def select (o : Outside) (ctx : FlowContext) (eligible : Str → Bool) (group : Str) (g : Group) : Option Str × Directory :=
  let picked := g.pickEligibleWithProtocol o ctx.meta d.urltest eligible d.memberProtocol
  (picked.node, { d with groups := d.groups.insert group picked.group, urltest := picked.tester })

/-- `pick_in_group_inner`; each level draws its own random numbers. -/
def pickInGroupInner (o : Nat → Outside) (ctx : FlowContext) :
    (left : Nat) → (d : Directory) → (visiting : Finset Str) → (group : Str) → Resolution
  | 0, d, visiting, _ => ⟨d.blockedGroupPick, visiting, d⟩
  | left + 1, d, visiting, group =>
      if group ∈ visiting then ⟨d.blockedGroupPick, visiting, d⟩
      else
        let visiting := insert group visiting
        match d.groups.get? group with
        | none => ⟨d.blockedGroupPick, visiting.erase group, d⟩
        | some g =>
            let (pick, d) := d.select (o left) ctx (d.memberSupportsNetwork ctx.network left visiting) group g
            match pick with
            | some name =>
                match d.outbounds.get name with
                | some outbound => ⟨⟨name, outbound, [name, group]⟩, visiting.erase group, d⟩
                | none =>
                    if d.groups.contains name then
                      let nested := pickInGroupInner o ctx left d visiting name
                      ⟨{ nested.pick with chain := nested.pick.chain ++ [group] }, nested.visiting.erase group,
                        nested.directory⟩
                    else ⟨d.emptyGroupPick g group, visiting.erase group, d⟩
            | none =>
                if ctx.network = .udp then
                  -- no member can carry the flow: one is named in the error of the dial
                  match firstThrough (d.firstResolvableMember left) (d.membersOf g) visiting with
                  | (some fallback, visiting) =>
                      ⟨{ fallback with chain := fallback.chain ++ [group] }, visiting.erase group, d⟩
                  | (none, visiting) => ⟨d.emptyGroupPick g group, visiting.erase group, d⟩
                else ⟨d.emptyGroupPick g group, visiting.erase group, d⟩

/-- `pick_in_group`. -/
def pickInGroup (o : Nat → Outside) (ctx : FlowContext) (group : Str) : Resolution :=
  pickInGroupInner o ctx groupMaxDepth d ∅ group

/-! ### The outbounds under a group -/

/-- `group_visible_members`. -/
def groupVisibleMembers (group : Str) : List Str :=
  match d.groups.get? group with
  | none => []
  | some g =>
      let members := limitMembers g.detail.maxMembers ((d.membersOf g).filter fun member =>
        (feedMemberName member).isNone && (d.groups.contains member || (d.outbounds.get member).isSome))
      if members.length < max g.detail.minMembers 1 then [g.detail.emptyFallback] else members

/-- A turn of the loop over the members, given the outbounds under the groups. -/
def leafTurn (nested : Finset Str → List Str → Str → List Str × Finset Str) (state : List Str × Finset Str)
    (member : Str) : List Str × Finset Str :=
  let (leaves, visiting) := state
  if d.groups.contains member then nested visiting leaves member
  else if (d.outbounds.get member).isSome ∧ member ∉ leaves then (leaves ++ [member], visiting)
  else (leaves, visiting)

/-- `expand`: the outbounds under a group, after those that are known. -/
def expand : (left : Nat) → (visiting : Finset Str) → (leaves : List Str) → (group : Str) → List Str × Finset Str
  | 0, visiting, leaves, _ => (leaves, visiting)
  | left + 1, visiting, leaves, group =>
      if group ∈ visiting then (leaves, visiting)
      else
        let visiting := insert group visiting
        if d.groups.contains group = false then (leaves, visiting.erase group)
        else
          let (leaves, visiting) :=
            (d.groupVisibleMembers group).foldl (d.leafTurn (expand left)) (leaves, visiting)
          (leaves, visiting.erase group)

/-- `group_leaf_members`. -/
def groupLeafMembers (group : Str) : List Str := (d.expand groupMaxDepth ∅ [] group).1

end Directory

/-! ### Selections by hand and updates of feeds -/

/-- `invalidate_fast_pick`. -/
def UrlTester.invalidateFastPick (t : UrlTester) (group : Str) : UrlTester :=
  { t with fastPick := t.fastPick.erase group }

/-- `reselect_after_manual_probe`, for the flow and the members of the probe. -/
def Group.reselectAfterManualProbe (g : Group) (o : Outside) (flow : FlowMeta) (members : List Str) (url : Str)
    (tester : UrlTester) : Picked :=
  if g.plan.choose = .manual ∨ g.pin.isSome = true then ⟨g.lastPick, g, some tester⟩
  else
    let picked := g.pickByStrategy o flow members url (some (tester.invalidateFastPick g.detail.name))
    { picked with group := { picked.group with lastPick := picked.node.or picked.group.lastPick } }

/-- The directory after a selection by hand of a group. -/
def Directory.reselect (d : Directory) (o : Outside) (flow : FlowMeta) (members : List Str) (url group : Str) (g : Group)
    (t : UrlTester) : Directory :=
  let picked := g.reselectAfterManualProbe o flow members url t
  { d with groups := d.groups.insert group picked.group, urltest := picked.tester }

/-- A group with a feed, built anew: it keeps its options and its pin. -/
def Group.rebuild (providerNodes : AssocMap Str (List Str)) (base : Group) (old : Option Group) : Group :=
  { rebuildGroup providerNodes base.plan (old.map (·.toGroupSelector)) with
    detail := base.detail
    opts := (old.map (·.opts)).getD {} }

end WutherCore.Engine
