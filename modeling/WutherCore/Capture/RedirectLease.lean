import WutherCore.Capture.RedirectRules

/-!
# The lease of the `auto_redirect` policy rules

`install` adds the policy rules of a plan with the `ip` command and enters every rule that was added in
`AutoRedirectRouteLease`.  `uninstall` deletes them again, captures first, and keeps in the lease what
it could not delete.  Any command may fail.

* `System`: a lease, the outbound interface of the process, and the log of what happened to the rules.
* `System.Sound`: the lease has exactly the rules in place, in order; a capture was never in place
  without all dependencies; the interface was restored only when no rule was in place.
* `System.run_sound`: this holds after every sequence of calls.

The probes before the first rule only read.  What they report is arbitrary.
-/

namespace WutherCore.Capture.Redirect

open WutherCore.Text WutherCore.Data

/-- `DefaultRouteProbe`. -/
structure DefaultRouteProbe where
  lookupTable : Str
  interface : Str
  deriving DecidableEq

/-- What the probes report that run before the first rule. -/
structure Probes where
  ipRuleSupport : IpFamily → RulePriorities → Except CaptureError Unit
  customTableOwnership : IpFamily → Except CaptureError Unit
  defaultRoute : IpFamily → Except CaptureError DefaultRouteProbe

/-- The default route of IPv6, where it is needed. -/
def Probes.ipv6Route (probes : Probes) (ipv6 : Bool) : Except CaptureError (Option DefaultRouteProbe) :=
  if ipv6 then (probes.defaultRoute .v6).map some else .ok none

/-- `OutboundInterfaceRestore`. -/
structure OutboundInterfaceRestore where
  previous : Option Str
  installed : Str
  deriving DecidableEq

/-- `AutoRedirectRouteLease`. -/
structure AutoRedirectRouteLease where
  rules : List OwnedIpRule := []
  bypassLookupTables : Option BypassLookupTables := none
  outboundInterfaceRestore : Option OutboundInterfaceRestore := none
  deriving DecidableEq

/-- `AutoRedirectRouteLease::is_empty`. -/
def AutoRedirectRouteLease.isEmpty (lease : AutoRedirectRouteLease) : Bool :=
  lease.rules.isEmpty && lease.bypassLookupTables.isNone && lease.outboundInterfaceRestore.isNone

/-- What happens to the policy rules and to the outbound interface. -/
inductive Event
  /-- An installation of these rules begins. -/
  | began (rules : List OwnedIpRule)
  | added (rule : OwnedIpRule)
  | removed (rule : OwnedIpRule)
  /-- A command for this rule failed. -/
  | refused (rule : OwnedIpRule)
  | restored (previous : Option Str)
  deriving DecidableEq

/-- How the commands end: any command may end in any way at any time. -/
abbrev Executor := List Event → RuleCommand → Except Str RuleCommandOutput

/-- A lease, the outbound interface of the process, and what happened so far. -/
structure System where
  lease : AutoRedirectRouteLease := {}
  interface : Option Str := none
  log : List Event := []

namespace System

/-- Something happens. -/
def emit (s : System) (e : Event) : System := { s with log := s.log ++ [e] }

/-- A rule is entered in the lease. -/
def enter (s : System) (rule : OwnedIpRule) : System :=
  { s with lease := { s.lease with rules := s.lease.rules ++ [rule] } }

/-- The loop of `install_with_dependencies`: the rules are added one by one, up to the first failure. -/
def addRules (executor : Executor) : List OwnedIpRule → System → Except CaptureError Unit × System
  | [], s => (.ok (), s)
  | rule :: rest, s =>
    let command := rule.command "add"
    match executor s.log command with
    | .error error =>
      (.error (.installRule (.spawn command error)), s.emit (.refused rule))
    | .ok output =>
      if output.success then addRules executor rest ((s.emit (.added rule)).enter rule)
      else (.error (.installRule (.exited command output)), s.emit (.refused rule))

/-- What is done for IPv6 only. -/
def forIpv6 (ipv6 : Bool) (check : Except CaptureError Unit) : Except CaptureError Unit :=
  if ipv6 then check else .ok ()

/-- Both default routes have to use the same interface. -/
def checkInterfaces (ipv4Route : DefaultRouteProbe) : Option DefaultRouteProbe → Except CaptureError Unit
  | some route =>
    if route.interface ≠ ipv4Route.interface then
      .error (routeError ("IPv4 and IPv6 default routes use different interfaces (" ++ ipv4Route.interface ++
        (" vs " : Str) ++ route.interface ++
        ("); the current outbound interface binding is not family-specific" : Str)))
    else .ok ()
  | none => .ok ()

/-- What `install_with_dependencies` finds out before it changes anything. -/
def prepare (plan : CapturePlan) (ipv6 : Bool) (probes : Probes) :
    Except CaptureError (List OwnedIpRule × BypassLookupTables × Str) := do
  validatePlan plan ipv6
  let priorities ← rulePriorities plan.iproute2RuleIndex
  probes.ipRuleSupport .v4 priorities
  forIpv6 ipv6 (probes.ipRuleSupport .v6 priorities)
  probes.customTableOwnership .v4
  forIpv6 ipv6 (probes.customTableOwnership .v6)
  let ipv4Route ← probes.defaultRoute .v4
  let ipv6Route ← probes.ipv6Route ipv6
  checkInterfaces ipv4Route ipv6Route
  let tables : BypassLookupTables := ⟨ipv4Route.lookupTable, ipv6Route.map (·.lookupTable)⟩
  let rules ← buildRules plan ipv6 tables
  return (rules, tables, ipv4Route.interface)

/-- `install_with_dependencies`. -/
def install (s : System) (plan : CapturePlan) (ipv6 : Bool) (probes : Probes) (executor : Executor) :
    Except CaptureError Unit × System :=
  if !s.lease.isEmpty then
    (.error (routeError "auto_redirect route lease is already active or awaiting cleanup"), s)
  else
    match prepare plan ipv6 probes with
    | .error error => (.error error, s)
    | .ok (rules, tables, interface) =>
      addRules executor rules ({ s with
        lease := { s.lease with
          bypassLookupTables := some tables
          outboundInterfaceRestore := some ⟨s.interface, interface⟩ }
        interface := some interface }.emit (.began rules))

/-- The rules of a layer are deleted one by one: those that could not be deleted, in the order they were
tried, with the failures. -/
def removeRules (executor : Executor) : List OwnedIpRule → System →
    List OwnedIpRule × List Failure × System
  | [], s => ([], [], s)
  | rule :: rest, s =>
    let command := rule.command "del"
    match executor s.log command with
    | .error error =>
      let (failed, failures, s) := removeRules executor rest (s.emit (.refused rule))
      (rule :: failed, .spawn command error :: failures, s)
    | .ok output =>
      if output.success || isAbsentDelete command output then
        removeRules executor rest (s.emit (.removed rule))
      else
        let (failed, failures, s) := removeRules executor rest (s.emit (.refused rule))
        (rule :: failed, .exited command output :: failures, s)

theorem length_rdropWhile_lt {rules : List OwnedIpRule} {last : OwnedIpRule}
    (h : rules.getLast? = some last) :
    (rules.rdropWhile fun rule => rule.layer == last.layer).length < rules.length := by
  obtain ⟨rest, rfl⟩ := List.getLast?_eq_some_iff.1 h
  rw [List.rdropWhile_concat_pos _ _ _ (by simp), List.length_append, List.length_singleton]
  exact Nat.lt_succ_of_le (List.rdropWhile_prefix _ _).length_le

/-- The loop of `uninstall_with_dependencies`: layer by layer from the end, up to the first layer of
which a rule is left. -/
def removeLayers (executor : Executor) (pending : List OwnedIpRule) (s : System) :
    List OwnedIpRule × List Failure × System :=
  match _hlast : pending.getLast? with
  | none => (pending, [], s)
  | some last =>
    let lower := pending.rdropWhile fun rule => rule.layer == last.layer
    let layerRules := pending.rtakeWhile fun rule => rule.layer == last.layer
    let (failedLayer, failures, s) := removeRules executor layerRules.reverse s
    if failedLayer.isEmpty then removeLayers executor lower s
    else (lower ++ failedLayer.reverse, failures, s)
  termination_by pending.length
  decreasing_by exact length_rdropWhile_lt _hlast

/-- The end of `uninstall_with_dependencies`: without rules, the interface is restored unless it was
changed in the meantime. -/
def restoreInterface (s : System) : System :=
  if s.lease.rules.isEmpty then
    let cleared := { s.lease with bypassLookupTables := none, outboundInterfaceRestore := none }
    match s.lease.outboundInterfaceRestore with
    | some restore =>
      if s.interface = some restore.installed then
        { s with lease := cleared, interface := restore.previous }.emit (.restored restore.previous)
      else { s with lease := cleared }
    | none => { s with lease := cleared }
  else s

/-- `uninstall_with_dependencies`. -/
def uninstall (s : System) (executor : Executor) : Except CaptureError Unit × System :=
  if s.lease.isEmpty then (.ok (), s)
  else
    let (rules, failures, s) := removeLayers executor s.lease.rules s
    let s := restoreInterface { s with lease := { s.lease with rules := rules } }
    (if failures.isEmpty then .ok ()
      else .error (.cleanupIncomplete failures), s)

/-- What others do with the lease and the interface. -/
inductive Call
  | install (plan : CapturePlan) (ipv6 : Bool) (probes : Probes) (executor : Executor)
  | uninstall (executor : Executor)
  | setOutboundInterface (interface : Option Str)

/-- One call. -/
def call (s : System) : Call → System
  | .install plan ipv6 probes executor => (s.install plan ipv6 probes executor).2
  | .uninstall executor => (s.uninstall executor).2
  | .setOutboundInterface interface => { s with interface := interface }

/-- A sequence of calls. -/
def run (s : System) (calls : List Call) : System := calls.foldl call s

/-! ### What the log says -/

/-- The rules in place after an event. -/
def place (rules : List OwnedIpRule) : Event → List OwnedIpRule
  | .added rule => rules ++ [rule]
  | .removed rule => rules.erase rule
  | .began _ | .refused _ | .restored _ => rules

/-- The rules that were installed and not yet removed, in order. -/
def inPlace (log : List Event) : List OwnedIpRule := log.foldl place []

/-- The rules of the last installation after an event. -/
def replan (rules : List OwnedIpRule) : Event → List OwnedIpRule
  | .began rules => rules
  | .added _ | .removed _ | .refused _ | .restored _ => rules

/-- The rules of the last installation. -/
def planned (log : List Event) : List OwnedIpRule := log.foldl replan []

/-- A capture is in place only with all dependencies of its installation. -/
def Covered (log : List Event) : Prop :=
  ∀ rule ∈ inPlace log, rule.layer = .capture → ∀ needed ∈ planned log, needed.layer = .dependency →
    needed ∈ inPlace log

/-- At any time captures were covered, and the interface was restored only without rules. -/
structure Safe (log : List Event) : Prop where
  covered : ∀ before, before <+: log → Covered before
  restored : ∀ before previous, before ++ [.restored previous] <+: log → inPlace before = []

/-- What the lease is for. -/
structure Sound (s : System) : Prop extends Safe s.log where
  ledger : s.lease.rules = inPlace s.log

variable {log : List Event} {e : Event} {s : System} {rules : List OwnedIpRule}

@[simp] theorem inPlace_concat (log : List Event) (e : Event) :
    inPlace (log ++ [e]) = place (inPlace log) e := by
  simp [inPlace]

theorem inPlace_emit (s : System) (e : Event) : inPlace (s.emit e).log = place (inPlace s.log) e :=
  inPlace_concat s.log e

@[simp] theorem planned_concat (log : List Event) (e : Event) :
    planned (log ++ [e]) = replan (planned log) e := by
  simp [planned]

theorem safe_nil : Safe [] where
  covered := by
    rintro before hbefore rule hrule
    rw [List.prefix_nil.1 hbefore] at hrule
    cases hrule
  restored := fun before previous h => by simp at h

theorem Safe.concat (h : Safe log) (hcovered : Covered (log ++ [e]))
    (hrestored : ∀ previous, e = .restored previous → inPlace log = []) : Safe (log ++ [e]) where
  covered := by
    intro before hbefore
    rcases List.prefix_concat_iff.1 hbefore with rfl | hbefore
    · exact hcovered
    · exact h.covered before hbefore
  restored := by
    intro before previous hbefore
    rcases List.prefix_concat_iff.1 hbefore with heq | hbefore
    · obtain ⟨rfl, he⟩ := List.append_inj' heq rfl
      exact hrestored previous (List.singleton_inj.1 he).symm
    · exact h.restored before previous hbefore

theorem Safe.refused (h : Safe log) (rule : OwnedIpRule) : Safe (log ++ [.refused rule]) := by
  refine h.concat ?_ nofun
  have hcovered := h.covered log (List.prefix_refl log)
  unfold Covered at hcovered ⊢
  rwa [inPlace_concat, planned_concat]

/-! ### Dependencies come first -/

/-- Dependencies come before captures. -/
def Ordered (rules : List OwnedIpRule) : Prop :=
  rules.Pairwise fun a b => b.layer = .dependency → a.layer = .dependency

theorem buildRules_ordered {plan : CapturePlan} {ipv6 : Bool} {tables : BypassLookupTables}
    (h : buildRules plan ipv6 tables = .ok rules) : Ordered rules := by
  obtain ⟨dependencies, captures, rfl, hd, hc⟩ := buildRules_layers h
  refine List.pairwise_append.2 ⟨?_, ?_, fun a ha _ _ _ => hd a ha⟩
  · exact List.pairwise_of_forall_mem_list fun a ha _ _ _ => hd a ha
  · refine List.pairwise_of_forall_mem_list fun _ _ b hb hdep => ?_
    rw [hc b hb] at hdep
    cases hdep

/-- A lease and its log, between calls. -/
structure Inv (s : System) : Prop extends Sound s where
  nodup : s.lease.rules.Nodup
  ordered : Ordered s.lease.rules

/-- In the course of an installation: these rules are still to be added. -/
structure Adding (s : System) (rest : List OwnedIpRule) : Prop extends Sound s where
  planned : planned s.log = s.lease.rules ++ rest
  nodup : (s.lease.rules ++ rest).Nodup
  ordered : Ordered (s.lease.rules ++ rest)

theorem Adding.inv (h : s.Adding rules) : s.Inv where
  toSound := h.toSound
  nodup := h.nodup.of_append_left
  ordered := h.ordered.sublist (List.sublist_append_left _ _)

theorem Adding.refused {rule : OwnedIpRule} (h : s.Adding rules) : (s.emit (.refused rule)).Inv where
  toSafe := h.toSafe.refused rule
  ledger := h.ledger.trans (inPlace_concat s.log (.refused rule)).symm
  nodup := h.inv.nodup
  ordered := h.inv.ordered

theorem Adding.added {rule : OwnedIpRule} (h : s.Adding (rule :: rules)) :
    ((s.emit (.added rule)).enter rule).Adding rules := by
  have hledger : inPlace (s.log ++ [.added rule]) = s.lease.rules ++ [rule] := by
    rw [inPlace_concat, ← h.ledger]
    rfl
  have hlist : s.lease.rules ++ [rule] ++ rules = s.lease.rules ++ rule :: rules := by simp
  refine ⟨⟨h.toSafe.concat ?_ nofun, hledger.symm⟩, ?_, ?_, ?_⟩
  · -- A dependency that is not yet in place comes after this rule, which is none of the captures then.
    intro c hc hcapture d hd hdep
    rw [hledger] at hc ⊢
    rw [planned_concat, replan, h.planned, ← hlist] at hd
    rcases List.mem_append.1 hd with hd | hd
    · exact hd
    · have hordered := h.ordered
      rw [← hlist] at hordered
      have := (List.pairwise_append.1 hordered).2.2 c hc d hd hdep
      rw [hcapture] at this
      cases this
  · rw [show ((s.emit (.added rule)).enter rule).log = s.log ++ [.added rule] from rfl, planned_concat]
    exact h.planned.trans hlist.symm
  · exact hlist ▸ h.nodup
  · exact hlist ▸ h.ordered

theorem addRules_inv (executor : Executor) (h : s.Adding rules) : (addRules executor rules s).2.Inv := by
  induction rules generalizing s with
  | nil => exact h.inv
  | cons rule rest ih =>
    unfold addRules
    dsimp only
    split
    · exact h.refused
    · split_ifs
      · exact ih h.added
      · exact h.refused

/-! ### Layer by layer -/

theorem Safe.removed {rule : OwnedIpRule} (h : Safe log)
    (hfree : rule.layer = .capture ∨ ∀ r ∈ inPlace log, r.layer = .dependency) :
    Safe (log ++ [.removed rule]) := by
  refine h.concat ?_ nofun
  intro c hc hcapture d hd hdep
  rw [inPlace_concat, place] at hc ⊢
  rw [planned_concat, replan] at hd
  have hc' := List.mem_of_mem_erase hc
  have hd' := h.covered log (List.prefix_refl log) c hc' hcapture d hd hdep
  have hrule : rule.layer = .capture := by
    rcases hfree with hrule | hall
    · exact hrule
    · rw [hall c hc'] at hcapture
      cases hcapture
  refine (List.mem_erase_of_ne ?_).2 hd'
  rintro rfl
  rw [hrule] at hdep
  cases hdep

/-- What the deletion of the rules of a layer leaves behind: `lower` rules are not touched, and `kept`
rules of the layer could not be deleted before. -/
theorem removeRules_spec (executor : Executor) (lower kept rules : List OwnedIpRule) (hsafe : Safe s.log)
    (hplace : inPlace s.log = lower ++ rules.reverse ++ kept) (hnodup : (inPlace s.log).Nodup)
    (hfree : (∀ r ∈ rules, r.layer = .capture) ∨ ∀ r ∈ inPlace s.log, r.layer = .dependency) :
    let result := removeRules executor rules s
    Safe result.2.2.log ∧ inPlace result.2.2.log = lower ++ result.1.reverse ++ kept ∧
      result.2.2.lease = s.lease ∧ result.1.Sublist rules := by
  induction rules generalizing s kept with
  | nil => exact ⟨hsafe, hplace, rfl, .refl _⟩
  | cons rule rest ih =>
    have hplace' : inPlace s.log = lower ++ rest.reverse ++ (rule :: kept) := by
      rw [hplace, List.reverse_cons]
      simp
    have hrefused := ih (s := s.emit (.refused rule)) (rule :: kept) (hsafe.refused rule)
      ((inPlace_emit s (.refused rule)).trans hplace') (by rw [inPlace_emit]; exact hnodup)
      (hfree.imp (fun h r hr => h r (List.mem_cons_of_mem _ hr)) fun h r hr => by
        rw [inPlace_emit] at hr
        exact h r hr)
    unfold removeRules
    dsimp only
    split
    · obtain ⟨h₁, h₂, h₃, h₄⟩ := hrefused
      exact ⟨h₁, by rw [h₂]; simp, h₃, h₄.cons_cons rule⟩
    · split_ifs
      · have hnotMem : rule ∉ lower ++ rest.reverse := by
          intro hmem
          rw [hplace'] at hnodup
          exact (List.disjoint_of_nodup_append hnodup) hmem List.mem_cons_self
        have herase : inPlace (s.log ++ [.removed rule]) = lower ++ rest.reverse ++ kept := by
          rw [inPlace_concat, place, hplace', List.erase_append_right _ hnotMem, List.erase_cons_head]
        have hfree' : rule.layer = .capture ∨ ∀ r ∈ inPlace s.log, r.layer = .dependency :=
          hfree.imp_left fun h => h rule List.mem_cons_self
        obtain ⟨h₁, h₂, h₃, h₄⟩ := ih (s := s.emit (.removed rule)) kept (hsafe.removed hfree') herase
          (by rw [inPlace_emit]; exact hnodup.erase rule)
          (hfree.imp (fun h r hr => h r (List.mem_cons_of_mem _ hr)) fun h r hr => by
            rw [inPlace_emit] at hr
            exact h r (List.mem_of_mem_erase hr))
        exact ⟨h₁, h₂, h₃, h₄.cons rule⟩
      · obtain ⟨h₁, h₂, h₃, h₄⟩ := hrefused
        exact ⟨h₁, by rw [h₂]; simp, h₃, h₄.cons_cons rule⟩

theorem Ordered.free {last : OwnedIpRule} (h : Ordered rules) (hlast : rules.getLast? = some last) :
    (∀ r ∈ (rules.rtakeWhile fun r => r.layer == last.layer).reverse, r.layer = .capture) ∨
      ∀ r ∈ rules, r.layer = .dependency := by
  cases hlayer : last.layer with
  | capture =>
    refine .inl fun r hr => ?_
    have := List.mem_rtakeWhile_imp (List.mem_reverse.1 hr)
    simpa [hlayer] using this
  | dependency =>
    obtain ⟨rest, rfl⟩ := List.getLast?_eq_some_iff.1 hlast
    refine .inr fun r hr => ?_
    rcases List.mem_append.1 hr with hr | hr
    · exact (List.pairwise_append.1 h).2.2 r hr last (List.mem_singleton_self _) hlayer
    · rw [List.mem_singleton.1 hr, hlayer]

theorem removeLayers_spec (executor : Executor) (hsafe : Safe s.log) (hplace : inPlace s.log = rules)
    (hnodup : rules.Nodup) (hordered : Ordered rules) :
    let result := removeLayers executor rules s
    Safe result.2.2.log ∧ inPlace result.2.2.log = result.1 ∧ result.2.2.lease = s.lease ∧
      result.1.Sublist rules := by
  induction hn : rules.length using Nat.strong_induction_on generalizing rules s with
  | _ n ih =>
    unfold removeLayers
    split
    · exact ⟨hsafe, hplace, rfl, .refl _⟩
    · next last hlast =>
      have hsplit : (rules.rdropWhile fun r => r.layer == last.layer) ++
          (rules.rtakeWhile fun r => r.layer == last.layer) = rules := List.rdropWhile_append_rtakeWhile
      obtain ⟨h₁, h₂, h₃, h₄⟩ := removeRules_spec executor
        (rules.rdropWhile fun r => r.layer == last.layer) []
        (rules.rtakeWhile fun r => r.layer == last.layer).reverse hsafe
        (by rw [List.reverse_reverse, List.append_nil, hsplit, hplace])
        (hplace ▸ hnodup) (hplace ▸ hordered.free hlast)
      dsimp only
      split_ifs with hfailed
      · rw [List.isEmpty_iff.1 hfailed, List.reverse_nil, List.append_nil, List.append_nil] at h₂
        have hsub : (rules.rdropWhile fun r => r.layer == last.layer).Sublist rules :=
          (List.rdropWhile_prefix _ _).sublist
        obtain ⟨g₁, g₂, g₃, g₄⟩ := ih _ (hn ▸ length_rdropWhile_lt hlast) h₁ h₂ (hsub.nodup hnodup)
          (hordered.sublist hsub) rfl
        exact ⟨g₁, g₂, g₃.trans h₃, g₄.trans hsub⟩
      · refine ⟨h₁, by rw [h₂, List.append_nil], h₃, ?_⟩
        have hlayer := h₄.reverse
        rw [List.reverse_reverse] at hlayer
        have hsub := (List.Sublist.refl (rules.rdropWhile fun r => r.layer == last.layer)).append hlayer
        rwa [hsplit] at hsub

theorem restoreInterface_inv (h : s.Inv) : s.restoreInterface.Inv := by
  have hcleared : ({ s with lease := { s.lease with
      bypassLookupTables := none, outboundInterfaceRestore := none } } : System).Inv :=
    ⟨⟨h.toSafe, h.ledger⟩, h.nodup, h.ordered⟩
  unfold restoreInterface
  split_ifs with hempty
  · dsimp only
    split
    · next restore _ =>
      split_ifs
      · have hnone : inPlace s.log = [] := h.ledger ▸ List.isEmpty_iff.1 hempty
        have hcovered : Covered (s.log ++ [.restored restore.previous]) := by
          intro c hc
          rw [inPlace_concat, place, hnone] at hc
          cases hc
        exact ⟨⟨h.toSafe.concat hcovered fun _ _ => hnone,
          h.ledger.trans (inPlace_concat s.log (.restored restore.previous)).symm⟩, h.nodup, h.ordered⟩
      · exact hcleared
    · exact hcleared
  · exact h

theorem uninstall_inv (executor : Executor) (h : s.Inv) : (s.uninstall executor).2.Inv := by
  unfold uninstall
  split_ifs
  · exact h
  · obtain ⟨h₁, h₂, -, h₄⟩ := removeLayers_spec executor h.toSafe h.ledger.symm h.nodup h.ordered
    exact restoreInterface_inv ⟨⟨h₁, h₂.symm⟩, h₄.nodup h.nodup, h.ordered.sublist h₄⟩

theorem prepare_rules {plan : CapturePlan} {ipv6 : Bool} {probes : Probes}
    {result : List OwnedIpRule × BypassLookupTables × Str} (h : prepare plan ipv6 probes = .ok result) :
    ∃ tables, buildRules plan ipv6 tables = .ok result.1 := by
  unfold prepare at h
  obtain ⟨_, -, h⟩ := bind_eq_ok.1 h
  obtain ⟨_, -, h⟩ := bind_eq_ok.1 h
  obtain ⟨_, -, h⟩ := bind_eq_ok.1 h
  obtain ⟨_, -, h⟩ := bind_eq_ok.1 h
  obtain ⟨_, -, h⟩ := bind_eq_ok.1 h
  obtain ⟨_, -, h⟩ := bind_eq_ok.1 h
  obtain ⟨_, -, h⟩ := bind_eq_ok.1 h
  obtain ⟨_, -, h⟩ := bind_eq_ok.1 h
  obtain ⟨_, -, h⟩ := bind_eq_ok.1 h
  obtain ⟨rules, hrules, h⟩ := bind_eq_ok.1 h
  cases h
  exact ⟨_, hrules⟩

theorem install_inv (plan : CapturePlan) (ipv6 : Bool) (probes : Probes) (executor : Executor) (h : s.Inv) :
    (s.install plan ipv6 probes executor).2.Inv := by
  unfold install
  split_ifs with hbusy
  · exact h
  · split
    · exact h
    · next rules tables interface hprepare =>
      obtain ⟨tables', hrules⟩ := prepare_rules hprepare
      have hempty : s.lease.rules = [] := by
        simp only [AutoRedirectRouteLease.isEmpty] at hbusy
        simp_all
      have hnone : inPlace (s.log ++ [.began rules]) = [] := by
        rw [inPlace_concat, place, ← h.ledger, hempty]
      have hcovered : Covered (s.log ++ [.began rules]) := by
        intro c hc
        rw [hnone] at hc
        cases hc
      refine addRules_inv executor ⟨⟨h.toSafe.concat hcovered nofun, hempty.trans hnone.symm⟩, ?_, ?_, ?_⟩
      · show planned (s.log ++ [.began rules]) = s.lease.rules ++ rules
        rw [planned_concat, hempty]
        rfl
      · show (s.lease.rules ++ rules).Nodup
        rw [hempty]
        exact buildRules_nodup hrules
      · show Ordered (s.lease.rules ++ rules)
        rw [hempty]
        exact buildRules_ordered hrules

/-- **The lease is sound after every sequence of calls.** -/
theorem run_sound (interface : Option Str) (calls : List Call) :
    (run { interface := interface } calls).Sound := by
  have hinit : ({ interface := interface } : System).Inv := ⟨⟨safe_nil, rfl⟩, List.nodup_nil, .nil⟩
  have hcall : ∀ (s : System) (c : Call), s.Inv → (s.call c).Inv := by
    intro s c h
    cases c with
    | install plan ipv6 probes executor => exact install_inv plan ipv6 probes executor h
    | uninstall executor => exact uninstall_inv executor h
    | setOutboundInterface interface => exact ⟨⟨h.toSafe, h.ledger⟩, h.nodup, h.ordered⟩
  have hrun : ∀ s : System, s.Inv → (run s calls).Inv := by
    induction calls with
    | nil => exact fun s h => h
    | cons c calls ih => exact fun s h => ih _ (hcall s c h)
  exact (hrun _ hinit).toSound

end System

end WutherCore.Capture.Redirect
