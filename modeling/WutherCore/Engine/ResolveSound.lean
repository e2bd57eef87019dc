import WutherCore.Engine.GroupPickSound
import WutherCore.Engine.Resolve
import Mathlib.Logic.Relation

/-!
# Resolution does not invent `DIRECT`

* `resolution_sound`: a resolution leaves the set of the groups on the way as it was, and it ends with `DIRECT` only if
  that is a member or the fallback of a group that it can reach.

A `url-test` group may answer with a selection that it remembers, so the groups are taken as they are after any run from
a configuration (`Reachable`): what a group remembers, the configuration had offered it.
-/

namespace WutherCore.Engine

open WutherCore.Text WutherCore.Data WutherCore.Health Relation

/-! ### What a selection leaves -/

/-- A tester remembers a selection of a group. -/
def Recalls (tester : Option UrlTester) (group node : Str) : Prop :=
  ∃ t e, tester = some t ∧ t.fastPick.get? group = some e ∧ e.2.node = node

section Memory

variable {g : Group} {o : Outside} {flow : FlowMeta} {members : List Str} {url group n : Str}
  {tester : Option UrlTester} {t : UrlTester}

theorem UrlTester.foldl_ensureStats_fastPick (members : List Str) (t : UrlTester) :
    (members.foldl (fun t member => t.ensureStats member url) t).fastPick = t.fastPick := by
  induction members generalizing t with
  | nil => rfl
  | cons member members ih => exact ih (t.ensureStats member url)

theorem UrlTester.activateGroup_fastPick (t : UrlTester) (revision : UInt64) :
    (t.activateGroup group revision members url).fastPick = t.fastPick := by
  unfold activateGroup
  split_ifs with hschedule
  · rfl
  · exact foldl_ensureStats_fastPick members t

theorem recalls_activate : Recalls (g.activate members tester) group n ↔ Recalls tester group n := by
  unfold Group.activate
  split_ifs with hmanual
  · rfl
  · cases tester with
    | none => rfl
    | some t =>
      constructor
      · rintro ⟨t', e, ht', he, hn⟩
        cases ht'
        rw [UrlTester.activateGroup_fastPick] at he
        exact ⟨t, e, rfl, he, hn⟩
      · rintro ⟨t', e, ht', he, hn⟩
        cases ht'
        exact ⟨_, e, rfl, by rwa [UrlTester.activateGroup_fastPick], hn⟩

/-- A selection of the fastest node is remembered, if it is one of the members. -/
theorem recalls_pickFast {now : Nat} {tolerance : UInt32} {name : Str}
    (h : Recalls (some (t.pickFast now name members url tolerance).2) group n) :
    Recalls (some t) group n ∨ group = name ∧ n ∈ members := by
  have hinsert (final : FastPickResult) (hfinal : final.node ∈ members)
      (h : Recalls (some { t with fastPick := t.fastPick.insert name (now, final) }) group n) :
      Recalls (some t) group n ∨ group = name ∧ n ∈ members := by
    obtain ⟨t', e, ht', he, rfl⟩ := h
    cases ht'
    by_cases hgroup : group = name
    · subst hgroup
      dsimp only at he
      rw [AssocMap.get?_insert_self] at he
      cases he
      exact .inr ⟨rfl, hfinal⟩
    · dsimp only at he
      rw [AssocMap.get?_insert_of_ne _ _ hgroup] at he
      exact .inl ⟨t, e, rfl, he, rfl⟩
  unfold UrlTester.pickFast at h
  dsimp only at h
  cases hrecent : (t.fastPick.get? name).filter
      fun e => now - e.1 < fastPickTtl && e.2.node ∈ members with
  | some e =>
    rw [hrecent] at h
    exact .inl h
  | none =>
    rw [hrecent] at h
    cases hfastest : t.fastest members url with
    | none =>
      rw [hfastest] at h
      cases hlast : t.fastPick.get? name with
      | none =>
        rw [hlast] at h
        exact .inl h
      | some e =>
        rw [hlast] at h
        exact .inl h
    | some best =>
      have hbest := (UrlTester.fastest_eq_some hfastest).1
      rw [hfastest] at h
      cases hlast : t.fastPick.get? name with
      | none =>
        rw [hlast] at h
        exact hinsert best hbest h
      | some e =>
        rw [hlast] at h
        dsimp only [Option.map_some] at h
        by_cases hkeeps : t.Keeps members url tolerance e.2 best
        · rw [if_pos hkeeps] at h
          exact hinsert e.2 hkeeps.1 h
        · rw [if_neg hkeeps] at h
          exact hinsert best hbest h

theorem Group.pickByStrategy_leaves (g : Group) (o : Outside) (flow : FlowMeta) (members : List Str) (url : Str)
    (tester : Option UrlTester) :
    (g.pickByStrategy o flow members url tester).group.plan = g.plan ∧
      (g.pickByStrategy o flow members url tester).group.detail = g.detail ∧
      ∀ group n, Recalls (g.pickByStrategy o flow members url tester).tester group n →
        Recalls tester group n ∨ group = g.detail.name ∧ n ∈ members := by
  unfold pickByStrategy
  cases hchoose : g.plan.choose with
  | fast =>
    refine ⟨rfl, rfl, fun group n h => ?_⟩
    cases tester with
    | none => exact .inl h
    | some t =>
      refine (recalls_pickFast h).imp id fun ⟨hgroup, hmem⟩ => ⟨hgroup, ?_⟩
      exact mem_of_mem_urlTestCandidates hmem
  | manual => exact ⟨rfl, rfl, fun _ _ => .inl⟩
  | smart => exact ⟨rfl, rfl, fun _ _ => .inl⟩
  | stable => exact ⟨rfl, rfl, fun _ _ => .inl⟩
  | spread => exact ⟨rfl, rfl, fun _ _ => .inl⟩
  | random => exact ⟨rfl, rfl, fun _ _ => .inl⟩
  | weighted => exact ⟨rfl, rfl, fun _ _ => .inl⟩
  | chain => exact ⟨rfl, rfl, fun _ _ => .inl⟩

variable {eligible : Str → Bool} {protocolOf : Str → Str}

theorem feedMemberName_eq_none : feedMemberName n = none ↔ isFeedPlaceholder n = false := by
  unfold feedMemberName isFeedPlaceholder
  cases stripPrefix "feed:".toList n with
  | none => exact ⟨fun _ => rfl, fun _ => rfl⟩
  | some provider => rw [Option.filter_eq_none_iff, Option.any_some, Bool.eq_false_iff]; simp

theorem Group.mem_plan_of_eligible (h : n ∈ g.eligibleMembers eligible protocolOf) :
    n ∈ g.plan.members ∧ feedMemberName n = none :=
  ⟨(List.mem_filter.1 (mem_eligibleMembers h).1).1, feedMemberName_eq_none.2 (mem_eligibleMembers h).2.1⟩

theorem Group.pickEligible_leaves (g : Group) (o : Outside) (flow : FlowMeta) (tester : Option UrlTester)
    (eligible : Str → Bool) (protocolOf : Str → Str) :
    (g.pickEligibleWithProtocol o flow tester eligible protocolOf).group.plan = g.plan ∧
      (g.pickEligibleWithProtocol o flow tester eligible protocolOf).group.detail = g.detail ∧
      ∀ group n, Recalls (g.pickEligibleWithProtocol o flow tester eligible protocolOf).tester group n →
        Recalls tester group n ∨ group = g.detail.name ∧ n ∈ g.eligibleMembers eligible protocolOf := by
  unfold pickEligibleWithProtocol
  cases hcandidates : g.candidates flow eligible protocolOf with
  | none => exact ⟨rfl, rfl, fun _ _ => .inl⟩
  | some members =>
    obtain ⟨rfl, -⟩ := candidates_eq_some hcandidates
    dsimp only
    cases hpin : g.pickPin _ (g.testUrl tester) (g.activate _ tester) with
    | some node => exact ⟨rfl, rfl, fun _ _ h => .inl (recalls_activate.1 h)⟩
    | none =>
      obtain ⟨hplan, hdetail, hmemory⟩ := g.pickByStrategy_leaves o flow (g.eligibleMembers eligible protocolOf)
        (g.testUrl tester) (g.activate (g.eligibleMembers eligible protocolOf) tester)
      refine ⟨hplan, hdetail, fun group n h => ?_⟩
      exact (hmemory group n h).imp recalls_activate.1 id

theorem Group.pickEligible_source (hchain : g.plan.choose ≠ .chain)
    (h : (g.pickEligibleWithProtocol o flow tester eligible protocolOf).node = some n) :
    n ∈ g.eligibleMembers eligible protocolOf ∨ Recalls tester g.detail.name n := by
  rcases pickEligible_cases hchain h with hmem | ⟨-, t, e, ht, he, rfl, -⟩
  · exact .inl hmem
  · exact .inr (recalls_activate.1 ⟨t, e, ht, he, rfl⟩)

end Memory

/-! ### Searches -/

theorem firstThrough_eq {α β γ : Type*} {search : γ → α → Option β × γ} (h : ∀ visiting member,
    (search visiting member).2 = visiting) (members : List α) (visiting : γ) :
    firstThrough search members visiting = (members.findSome? fun member => (search visiting member).1, visiting) := by
  induction members with
  | nil => rfl
  | cons member members ih =>
    have hmember := h visiting member
    rw [firstThrough, List.findSome?_cons]
    generalize search visiting member = found at hmember ⊢
    obtain ⟨found, after⟩ := found
    cases hmember
    cases found with
    | some found => rfl
    | none => exact ih

/-! ### Reached groups -/

/-- What a group names: its members, and its fallback. -/
def Group.Names (g : Group) (name : Str) : Prop :=
  name ∈ g.plan.members ∨ name = g.detail.emptyFallback ∨ name = fallbackLabel g.detail.emptyFallback

namespace Directory

variable (d : Directory)

/-- The second name is a member or the fallback of the first, a group. -/
def Leads (group name : Str) : Prop :=
  ∃ g, d.groups.get? group = some g ∧ (name ∈ g.plan.members ∨ name = g.detail.emptyFallback)

/-- The same without the placeholders of feeds. -/
def Shows (group name : Str) : Prop :=
  ∃ g, d.groups.get? group = some g ∧
    (name ∈ g.plan.members ∧ feedMemberName name = none ∨ name = g.detail.emptyFallback)

/-- A group that is reached names the name. -/
def Offers (group name : Str) : Prop :=
  ∃ h g, ReflTransGen d.Leads group h ∧ d.groups.get? h = some g ∧ g.Names name

/-- The same without the placeholders of feeds. -/
def Exhibits (group name : Str) : Prop :=
  ∃ h g, ReflTransGen d.Shows group h ∧ d.groups.get? h = some g ∧ g.Names name

variable {d} {group member name : Str} {g : Group}

theorem Shows.leads (h : d.Shows group name) : d.Leads group name := by
  obtain ⟨g, hget, hname⟩ := h
  exact ⟨g, hget, hname.imp And.left id⟩

theorem Exhibits.offers (h : d.Exhibits group name) : d.Offers group name := by
  obtain ⟨h, g, hreach, hget, hnames⟩ := h
  exact ⟨h, g, ReflTransGen.mono (fun _ _ => Shows.leads) _ _ hreach, hget, hnames⟩

theorem Offers.of_names (hget : d.groups.get? group = some g) (h : g.Names name) : d.Offers group name :=
  ⟨group, g, .refl, hget, h⟩

theorem Exhibits.of_names (hget : d.groups.get? group = some g) (h : g.Names name) : d.Exhibits group name :=
  ⟨group, g, .refl, hget, h⟩

theorem Offers.of_leads (h : d.Leads group member) (hoffers : d.Offers member name) : d.Offers group name := by
  obtain ⟨h', g, hreach, hget, hnames⟩ := hoffers
  exact ⟨h', g, hreach.head h, hget, hnames⟩

theorem Exhibits.of_shows (h : d.Shows group member) (hexhibits : d.Exhibits member name) : d.Exhibits group name := by
  obtain ⟨h', g, hreach, hget, hnames⟩ := hexhibits
  exact ⟨h', g, hreach.head h, hget, hnames⟩

theorem mem_plan_of_mem_membersOf (h : member ∈ d.membersOf g) : member ∈ g.plan.members := (List.mem_filter.1 h).1

/-! ### The first resolvable member -/

theorem firstResolvableMember_visiting (d : Directory) (left : Nat) (visiting : Finset Str) (member : Str) :
    (d.firstResolvableMember left visiting member).2 = visiting := by
  induction left generalizing visiting member with
  | zero =>
    unfold firstResolvableMember
    cases d.outbounds.get member <;> rfl
  | succ left ih =>
    unfold firstResolvableMember
    cases d.outbounds.get member with
    | some outbound => rfl
    | none =>
      dsimp only
      split_ifs with hmem
      · rfl
      · have herase : (insert member visiting).erase member = visiting := Finset.erase_insert hmem
        cases d.groups.get? member with
        | none => exact herase
        | some g =>
          dsimp only
          rw [firstThrough_eq ih]
          cases List.findSome? _ _ with
          | some resolved => exact herase
          | none => exact herase

/-- The first resolvable member is the member itself, or one of a group that it reaches. -/
theorem firstResolvableMember_source {left : Nat} {visiting : Finset Str} {r : ResolvedGroupPick}
    (h : (d.firstResolvableMember left visiting member).1 = some r) :
    d.outbounds.get r.label = some r.outbound ∧ (r.label = member ∨ d.Offers member r.label) := by
  induction left generalizing visiting member r with
  | zero =>
    unfold firstResolvableMember at h
    cases hget : d.outbounds.get member with
    | some outbound =>
      rw [hget] at h
      cases h
      exact ⟨hget, .inl rfl⟩
    | none =>
      rw [hget] at h
      cases h
  | succ left ih =>
    unfold firstResolvableMember at h
    cases hget : d.outbounds.get member with
    | some outbound =>
      rw [hget] at h
      cases h
      exact ⟨hget, .inl rfl⟩
    | none =>
      rw [hget] at h
      dsimp only at h
      split_ifs at h with hmem
      cases hgroup : d.groups.get? member with
      | none =>
        rw [hgroup] at h
        cases h
      | some g =>
        rw [hgroup] at h
        dsimp only at h
        rw [firstThrough_eq (firstResolvableMember_visiting d left)] at h
        cases hfirst : List.findSome? (fun child => (d.firstResolvableMember left (insert member visiting) child).1)
            ((d.membersOf g).filter fun child => (feedMemberName child).isNone) with
        | none =>
          rw [hfirst] at h
          cases h
        | some resolved =>
          rw [hfirst] at h
          cases h
          obtain ⟨child, hchild, hresolved⟩ := List.exists_of_findSome?_eq_some hfirst
          obtain ⟨hregistered, hlabel⟩ := ih hresolved
          have hplan := mem_plan_of_mem_membersOf (List.mem_filter.1 hchild).1
          refine ⟨hregistered, .inr ?_⟩
          rcases hlabel with hlabel | hoffers
          · exact .of_names hgroup (.inl (by rwa [hlabel]))
          · exact .of_leads ⟨g, hgroup, .inl hplan⟩ hoffers

/-! ### The outbounds under a group -/

theorem shows_of_mem_groupVisibleMembers (h : member ∈ d.groupVisibleMembers group) : d.Shows group member := by
  unfold groupVisibleMembers at h
  cases hget : d.groups.get? group with
  | none =>
    rw [hget] at h
    cases h
  | some g =>
    rw [hget] at h
    dsimp only at h
    split_ifs at h with hfew
    · exact ⟨g, hget, .inr (List.mem_singleton.1 h)⟩
    · obtain ⟨hmem, hvisible⟩ := List.mem_filter.1 (mem_of_mem_limitMembers h)
      rw [Bool.and_eq_true, Option.isNone_iff_eq_none] at hvisible
      exact ⟨g, hget, .inl ⟨mem_plan_of_mem_membersOf hmem, hvisible.1⟩⟩

theorem Shows.exhibits (h : d.Shows group name) : d.Exhibits group name := by
  obtain ⟨g, hget, hname⟩ := h
  exact .of_names hget (hname.imp And.left .inl)

/-- The outbounds under a group are no groups, and groups that it reaches name them. -/
theorem expand_spec (d : Directory) (left : Nat) (visiting : Finset Str) (leaves : List Str) (group : Str) :
    (d.expand left visiting leaves group).2 = visiting ∧
      ∀ name ∈ (d.expand left visiting leaves group).1, name ∈ leaves ∨ d.Exhibits group name ∧ d.groups.contains name = false := by
  induction left generalizing visiting leaves group with
  | zero => exact ⟨rfl, fun _ => .inl⟩
  | succ left ih =>
    unfold expand
    dsimp only
    split_ifs with hmem hgroup
    · exact ⟨rfl, fun _ => .inl⟩
    · exact ⟨Finset.erase_insert hmem, fun _ => .inl⟩
    · let Sound (r : List Str × Finset Str) : Prop :=
        r.2 = insert group visiting ∧ ∀ name ∈ r.1, name ∈ leaves ∨ d.Exhibits group name ∧ d.groups.contains name = false
      have hsound : Sound ((d.groupVisibleMembers group).foldl (d.leafTurn (d.expand left))
          (leaves, insert group visiting)) := by
        refine List.foldlRecOn _ _ ⟨rfl, fun _ => .inl⟩ ?_
        rintro ⟨known, within⟩ ⟨hwithin, hknown⟩ member hmember
        cases hwithin
        have hshows := shows_of_mem_groupVisibleMembers hmember
        unfold leafTurn
        dsimp only
        split_ifs with hnested hleaf
        · refine ⟨(ih _ known member).1, fun name hname => ?_⟩
          rcases (ih _ known member).2 name hname with hknown' | ⟨hexhibits, hleaf⟩
          · exact hknown name hknown'
          · exact .inr ⟨.of_shows hshows hexhibits, hleaf⟩
        · refine ⟨rfl, fun name hname => ?_⟩
          rcases List.mem_append.1 hname with hname | hname
          · exact hknown name hname
          · rw [List.mem_singleton.1 hname]
            exact .inr ⟨hshows.exhibits, Bool.eq_false_of_not_eq_true hnested⟩
        · exact ⟨rfl, hknown⟩
      refine ⟨?_, hsound.2⟩
      rw [hsound.1]
      exact Finset.erase_insert hmem

/-! ### Configurations -/

variable (d) in
/-- The plans of the groups. -/
def planOf (name : Str) : Option (GroupPlan × PlanDetail) := (d.groups.get? name).map fun g => (g.plan, g.detail)

theorem exists_get?_of_planOf {d' : Directory} (h : d'.planOf = d.planOf) {g' : Group}
    (hget : d'.groups.get? name = some g') :
    ∃ g, d.groups.get? name = some g ∧ g.plan = g'.plan ∧ g.detail = g'.detail := by
  have hplan := congrFun h name
  rw [planOf, planOf, hget, Option.map_some, eq_comm, Option.map_eq_some_iff] at hplan
  obtain ⟨g, hg, heq⟩ := hplan
  exact ⟨g, hg, congrArg Prod.fst heq, congrArg Prod.snd heq⟩

theorem Offers.of_planOf {d' : Directory} (h : d'.planOf = d.planOf) (hoffers : d'.Offers group name) :
    d.Offers group name := by
  obtain ⟨last, g', hreach, hget, hnames⟩ := hoffers
  obtain ⟨g, hg, hplan, hdetail⟩ := exists_get?_of_planOf h hget
  refine ⟨last, g, ReflTransGen.mono (fun a b hleads => ?_) _ _ hreach, hg, ?_⟩
  · obtain ⟨ga', hga', hmember⟩ := hleads
    obtain ⟨ga, hga, hplan, hdetail⟩ := exists_get?_of_planOf h hga'
    exact ⟨ga, hga, by rwa [hplan, hdetail]⟩
  · rwa [Group.Names, hplan, hdetail]

end Directory

/-- A directory as a configuration makes it: no group is a chain, and nothing is remembered. -/
structure Directory.Compiled (start : Directory) : Prop where
  named : ∀ name g, start.groups.get? name = some g → g.detail.name = name
  noChain : ∀ name g, start.groups.get? name = some g → g.plan.choose ≠ .chain
  forgetful : ∀ group node, ¬Recalls start.urltest group node

/-- The nodes of feeds have names of their own; the checks of an update see to it. -/
def Directory.FeedNodes (start : Directory) (nodes : AssocMap Str (List Str)) : Prop :=
  ∀ feed names, nodes.get? feed = some names → ∀ n ∈ names, n ≠ direct ∧ start.groups.get? n = none

/-- The members of a group, after any updates of the feeds. -/
def Directory.Refreshed (start : Directory) (base members : List Str) : Prop :=
  members = base ∨ ∃ nodes, start.FeedNodes nodes ∧ members = expandMembers nodes base

section Feeds

variable {start : Directory} {base members names new : List Str} {m : Str}

theorem mem_pushNew {b : Str} : m ∈ pushNew new b ↔ m ∈ new ∨ m = b := by
  unfold pushNew
  split_ifs with hmem
  · exact ⟨.inl, fun h => h.elim id fun h => h ▸ hmem⟩
  · rw [List.mem_append, List.mem_singleton]

theorem mem_foldl_pushNew : m ∈ names.foldl pushNew new ↔ m ∈ new ∨ m ∈ names := by
  induction names generalizing new with
  | nil => simp
  | cons name names ih => rw [List.foldl_cons, ih, mem_pushNew, List.mem_cons, or_assoc]

theorem mem_expandMembers {nodes : AssocMap Str (List Str)} :
    m ∈ expandMembers nodes base ↔
      ∃ b ∈ base, (∃ names, (feedMemberName b).bind nodes.get? = some names ∧ m ∈ names) ∨
        (feedMemberName b).bind nodes.get? = none ∧ m = b := by
  unfold expandMembers
  -- the same with any members found before
  refine Iff.trans ?_ (or_iff_right (List.not_mem_nil (a := m)))
  generalize ([] : List Str) = new
  induction base generalizing new with
  | nil => simp
  | cons b base ih =>
    rw [List.foldl_cons, ih, List.exists_mem_cons_iff, ← or_assoc]
    apply or_congr_left
    cases (feedMemberName b).bind nodes.get? with
    | some names => simp [mem_foldl_pushNew]
    | none => simp [mem_pushNew]

theorem Directory.Refreshed.mem_of_mem (h : start.Refreshed base members)
    (hname : m = direct ∨ start.groups.get? m ≠ none) (hm : m ∈ members) : m ∈ base := by
  rcases h with rfl | ⟨nodes, hnodes, rfl⟩
  · exact hm
  · obtain ⟨b, hb, ⟨names, hnames, hmem⟩ | ⟨-, rfl⟩⟩ := mem_expandMembers.1 hm
    · obtain ⟨feed, -, hget⟩ := Option.bind_eq_some_iff.1 hnames
      obtain ⟨hdirect, hgroup⟩ := hnodes feed names hget m hmem
      exact absurd hgroup (hname.resolve_left hdirect)
    · exact hb

theorem Directory.Refreshed.mem (h : start.Refreshed base members) (hstatic : feedMemberName m = none) (hm : m ∈ base) :
    m ∈ members := by
  rcases h with rfl | ⟨nodes, -, rfl⟩
  · exact hm
  · exact mem_expandMembers.2 ⟨m, hm, .inr ⟨by rw [hstatic]; rfl, rfl⟩⟩

end Feeds

/-! ### What is remembered -/

/-- A directory after a run from a configuration: the groups are those of the configuration, with other nodes of the
feeds, and a group remembers `DIRECT` or a group only if the configuration shows it to the group. -/
structure Directory.FromStart (start d : Directory) : Prop where
  compiled : start.Compiled
  groups : ∀ name g, d.groups.get? name = some g → ∃ base, start.groups.get? name = some base ∧ g.detail = base.detail ∧
    g.plan.choose = base.plan.choose ∧ start.Refreshed base.plan.members g.plan.members
  kept : ∀ name base, start.groups.get? name = some base → ∃ g, d.groups.get? name = some g
  directs : ∀ group, Recalls d.urltest group direct → start.Exhibits group direct
  nested : ∀ group n, Recalls d.urltest group n → start.groups.get? n ≠ none → start.Shows group n

namespace Directory

section FromStart

variable {start d d' : Directory} {group name : Str} {g : Group}

theorem Compiled.fromStart (h : start.Compiled) : start.FromStart start where
  compiled := h
  groups _ g hget := ⟨g, hget, rfl, rfl, .inl rfl⟩
  kept _ base hget := ⟨base, hget⟩
  directs group hrecalls := absurd hrecalls (h.forgetful group direct)
  nested group n hrecalls := absurd hrecalls (h.forgetful group n)

theorem FromStart.get?_ne_none (h : start.FromStart d) (hget : d.groups.get? name = some g) :
    start.groups.get? name ≠ none := by
  obtain ⟨base, hbase, -⟩ := h.groups name g hget
  rw [hbase]
  exact nofun

theorem FromStart.named (h : start.FromStart d) (hget : d.groups.get? name = some g) :
    g.detail.name = name ∧ g.plan.choose ≠ .chain := by
  obtain ⟨base, hbase, hdetail, hchoose, -⟩ := h.groups name g hget
  rw [hdetail, hchoose]
  exact ⟨h.compiled.named name base hbase, h.compiled.noChain name base hbase⟩

theorem FromStart.shows (h : start.FromStart d) (hshows : start.Shows group name) : d.Shows group name := by
  obtain ⟨base, hbase, hname⟩ := hshows
  obtain ⟨g, hget⟩ := h.kept group base hbase
  obtain ⟨base', hbase', hdetail, -, hmembers⟩ := h.groups group g hget
  cases hbase.symm.trans hbase'
  refine ⟨g, hget, hname.imp (fun ⟨hmem, hstatic⟩ => ⟨hmembers.mem hstatic hmem, hstatic⟩) fun hfallback => ?_⟩
  rw [hdetail, hfallback]

theorem FromStart.shows_start (h : start.FromStart d) (hname : start.groups.get? name ≠ none)
    (hshows : d.Shows group name) : start.Shows group name := by
  obtain ⟨g, hget, hmember⟩ := hshows
  obtain ⟨base, hbase, hdetail, -, hmembers⟩ := h.groups group g hget
  refine ⟨base, hbase, hmember.imp (fun ⟨hmem, hstatic⟩ => ⟨hmembers.mem_of_mem (.inr hname) hmem, hstatic⟩)
    fun hfallback => ?_⟩
  rw [← hdetail, hfallback]

theorem feedMemberName_direct : feedMemberName direct = none := rfl

theorem FromStart.offers (h : start.FromStart d) (hexhibits : start.Exhibits group direct) :
    d.Offers group direct := by
  obtain ⟨last, base, hreach, hbase, hnames⟩ := hexhibits
  obtain ⟨g, hget⟩ := h.kept last base hbase
  obtain ⟨base', hbase', hdetail, -, hmembers⟩ := h.groups last g hget
  cases hbase.symm.trans hbase'
  refine ⟨last, g, ReflTransGen.mono (fun a b hshows => (h.shows hshows).leads) _ _ hreach, hget, ?_⟩
  rw [Group.Names, hdetail]
  exact hnames.imp (hmembers.mem feedMemberName_direct) id

theorem FromStart.names_start (h : start.FromStart d) (hget : d.groups.get? name = some g) (hnames : g.Names direct) :
    start.Exhibits name direct := by
  obtain ⟨base, hbase, hdetail, -, hmembers⟩ := h.groups name g hget
  refine .of_names hbase ?_
  rw [Group.Names, ← hdetail]
  exact hnames.imp (hmembers.mem_of_mem (.inl rfl)) id

theorem FromStart.exhibits_start (h : start.FromStart d) (hexhibits : d.Exhibits group direct) :
    start.Exhibits group direct := by
  obtain ⟨last, g, hreach, hget, hnames⟩ := hexhibits
  obtain ⟨-, hstart⟩ : start.groups.get? group ≠ none ∧ start.Exhibits group direct := by
    induction hreach using ReflTransGen.head_induction_on with
    | refl => exact ⟨h.get?_ne_none hget, h.names_start hget hnames⟩
    | head hshows _ ih =>
      obtain ⟨ga, hga, -⟩ := id hshows
      exact ⟨h.get?_ne_none hga, .of_shows (h.shows_start ih.1 hshows) ih.2⟩
  exact hstart

theorem FromStart.of_planOf (h : start.FromStart d) (hplan : d'.planOf = d.planOf)
    (hdirects : ∀ group, Recalls d'.urltest group direct → start.Exhibits group direct)
    (hnested : ∀ group n, Recalls d'.urltest group n → start.groups.get? n ≠ none → start.Shows group n) :
    start.FromStart d' where
  compiled := h.compiled
  groups name g' hget := by
    obtain ⟨g, hg, hplan, hdetail⟩ := exists_get?_of_planOf hplan hget
    rw [← hplan, ← hdetail]
    exact h.groups name g hg
  kept name base hbase := by
    obtain ⟨g, hget⟩ := h.kept name base hbase
    obtain ⟨g', hg', -⟩ := exists_get?_of_planOf hplan.symm hget
    exact ⟨g', hg'⟩
  directs := hdirects
  nested := hnested

theorem FromStart.directs_of_shows (h : start.FromStart d) (hshows : d.Shows group direct) :
    start.Exhibits group direct := h.exhibits_start hshows.exhibits

/-! ### Resolutions -/

variable {o : Outside} {ctx : FlowContext} {eligible : Str → Bool}

theorem select_planOf (d : Directory) (o : Outside) (ctx : FlowContext) (eligible : Str → Bool)
    (hget : d.groups.get? group = some g) : (d.select o ctx eligible group g).2.planOf = d.planOf := by
  funext name
  unfold planOf select
  dsimp only
  by_cases hname : name = group
  · subst hname
    obtain ⟨hplan, hdetail, -⟩ := g.pickEligible_leaves o ctx.meta d.urltest eligible d.memberProtocol
    rw [AssocMap.get?_insert_self, hget, Option.map_some, Option.map_some, hplan, hdetail]
  · rw [AssocMap.get?_insert_of_ne _ _ hname]

theorem FromStart.select (h : start.FromStart d) (o : Outside) (ctx : FlowContext) (eligible : Str → Bool)
    (hget : d.groups.get? group = some g) : start.FromStart (d.select o ctx eligible group g).2 := by
  obtain ⟨-, -, hmemory⟩ := g.pickEligible_leaves o ctx.meta d.urltest eligible d.memberProtocol
  have hshows {n : Str} (hn : n ∈ g.eligibleMembers eligible d.memberProtocol) : d.Shows group n :=
    ⟨g, hget, .inl (Group.mem_plan_of_eligible hn)⟩
  refine h.of_planOf (select_planOf d o ctx eligible hget) (fun name hrecalls => ?_) fun name n hrecalls hgroup => ?_
  · rcases hmemory name direct hrecalls with hrecalls | ⟨rfl, hn⟩
    · exact h.directs name hrecalls
    · rw [(h.named hget).1]
      exact h.directs_of_shows (hshows hn)
  · rcases hmemory name n hrecalls with hrecalls | ⟨rfl, hn⟩
    · exact h.nested name n hrecalls hgroup
    · rw [(h.named hget).1]
      exact h.shows_start hgroup (hshows hn)

theorem FromStart.leads_of_select (h : start.FromStart d) (o : Outside) (ctx : FlowContext) (eligible : Str → Bool)
    (hget : d.groups.get? group = some g)
    (hpick : (d.select o ctx eligible group g).1 = some name) (hname : start.groups.get? name ≠ none) :
    d.Leads group name := by
  rcases Group.pickEligible_source (h.named hget).2 hpick with hmem | hrecalls
  · exact ⟨g, hget, .inl (Group.mem_plan_of_eligible hmem).1⟩
  · rw [(h.named hget).1] at hrecalls
    exact (h.shows (h.nested group name hrecalls hname)).leads

theorem FromStart.offers_of_select (h : start.FromStart d) (o : Outside) (ctx : FlowContext) (eligible : Str → Bool)
    (hget : d.groups.get? group = some g)
    (hpick : (d.select o ctx eligible group g).1 = some direct) : d.Offers group direct := by
  rcases Group.pickEligible_source (h.named hget).2 hpick with hmem | hrecalls
  · exact .of_names hget (.inl (Group.mem_plan_of_eligible hmem).1)
  · rw [(h.named hget).1] at hrecalls
    exact h.offers (h.directs group hrecalls)

theorem mustGetBlock_eq (d : Directory) : d.outbounds.get block = some d.outbounds.mustGetBlock :=
  (Option.some_get d.outbounds.block).symm

theorem block_ne_direct : block ≠ direct := by decide

theorem emptyGroupPick_spec (d : Directory) (g : Group) (group : Str) :
    d.outbounds.get (d.emptyGroupPick g group).label = some (d.emptyGroupPick g group).outbound ∧
      ((d.emptyGroupPick g group).label = direct → g.Names direct) := by
  unfold emptyGroupPick
  dsimp only
  cases hlabel : d.outbounds.get (fallbackLabel g.detail.emptyFallback) with
  | some outbound => exact ⟨hlabel, fun hdirect => .inr (.inr hdirect.symm)⟩
  | none => exact ⟨d.mustGetBlock_eq, fun hdirect => absurd hdirect block_ne_direct⟩

/-- What holds of a resolution of a group. -/
structure Resolves (start d : Directory) (visiting : Finset Str) (group : Str) (r : Resolution) : Prop where
  visiting : r.visiting = visiting
  outbounds : r.directory.outbounds = d.outbounds
  registered : d.outbounds.get r.pick.label = some r.pick.outbound
  offers : r.pick.label = direct → d.Offers group direct
  plans : r.directory.planOf = d.planOf
  fromStart : start.FromStart r.directory

theorem FromStart.blocked (h : start.FromStart d) (visiting : Finset Str) (group : Str) :
    Resolves start d visiting group ⟨d.blockedGroupPick, visiting, d⟩ where
  visiting := rfl
  outbounds := rfl
  registered := d.mustGetBlock_eq
  offers hdirect := absurd hdirect block_ne_direct
  plans := rfl
  fromStart := h

/-- **A resolution gives the set back and does not invent `DIRECT`**, by induction on the levels that are left. -/
theorem FromStart.resolves (o : Nat → Outside) (ctx : FlowContext) (left : Nat) (h : start.FromStart d)
    (visiting : Finset Str) (group : Str) :
    Resolves start d visiting group (pickInGroupInner o ctx left d visiting group) := by
  induction left generalizing d visiting group with
  | zero => exact h.blocked visiting group
  | succ left ih =>
    unfold pickInGroupInner
    dsimp only
    by_cases hmem : group ∈ visiting
    · rw [if_pos hmem]
      exact h.blocked visiting group
    rw [if_neg hmem]
    have herase : (insert group visiting).erase group = visiting := Finset.erase_insert hmem
    cases hget : d.groups.get? group with
    | none =>
      dsimp only
      rw [herase]
      exact h.blocked visiting group
    | some g =>
      dsimp only
      have hplans := select_planOf d (o left) ctx (d.memberSupportsNetwork ctx.network left (insert group visiting)) hget
      have hselect := h.select (o left) ctx (d.memberSupportsNetwork ctx.network left (insert group visiting)) hget
      have houtbounds : (d.select (o left) ctx (d.memberSupportsNetwork ctx.network left (insert group visiting)) group
        g).2.outbounds = d.outbounds := rfl
      have hleads (name : Str) (hpick : (d.select (o left) ctx (d.memberSupportsNetwork ctx.network left
          (insert group visiting)) group g).1 = some name) (hname : start.groups.get? name ≠ none) :=
        h.leads_of_select (o left) ctx _ hget hpick hname
      have hdirect := h.offers_of_select (o left) ctx (d.memberSupportsNetwork ctx.network left (insert group visiting))
        hget
      generalize d.select (o left) ctx (d.memberSupportsNetwork ctx.network left (insert group visiting)) group g =
        selected at *
      obtain ⟨pick, d'⟩ := selected
      dsimp only at hplans hselect houtbounds hleads hdirect ⊢
      -- the fallback of the group, after its own selection
      have hempty : Resolves start d visiting group
          ⟨d'.emptyGroupPick g group, (insert group visiting).erase group, d'⟩ := by
        obtain ⟨hregistered, hnames⟩ := d'.emptyGroupPick_spec g group
        exact ⟨herase, houtbounds, houtbounds ▸ hregistered, fun hlabel => .of_names hget (hnames hlabel), hplans, hselect⟩
      cases pick with
      | some name =>
        dsimp only
        cases hregistered : d'.outbounds.get name with
        | some outbound =>
          refine ⟨herase, houtbounds, houtbounds ▸ hregistered, fun hlabel => ?_, hplans, hselect⟩
          dsimp only at hlabel
          exact hdirect (by rw [hlabel])
        | none =>
          dsimp only
          split_ifs with hcontains
          · obtain ⟨g', hg'⟩ := Option.isSome_iff_exists.1 hcontains
            have hnested := ih hselect (insert group visiting) name
            refine ⟨?_, hnested.outbounds.trans houtbounds, houtbounds ▸ hnested.registered, fun hlabel => ?_,
              hnested.plans.trans hplans, hnested.fromStart⟩
            · rw [hnested.visiting, herase]
            · exact .of_leads (hleads name rfl (hselect.get?_ne_none hg')) ((hnested.offers hlabel).of_planOf hplans)
          · exact hempty
      | none =>
        dsimp only
        by_cases hudp : ctx.network = .udp
        · rw [if_pos hudp, firstThrough_eq (firstResolvableMember_visiting d' left)]
          cases hfirst : (d'.membersOf g).findSome? fun member =>
              (d'.firstResolvableMember left (insert group visiting) member).1 with
          | none => exact hempty
          | some fallback =>
            obtain ⟨member, hmember, hresolved⟩ := List.exists_of_findSome?_eq_some hfirst
            obtain ⟨hregistered, hsource⟩ := firstResolvableMember_source hresolved
            have hplan := mem_plan_of_mem_membersOf hmember
            refine ⟨herase, houtbounds, houtbounds ▸ hregistered, fun hlabel => ?_, hplans, hselect⟩
            dsimp only at hlabel
            rw [hlabel] at hsource
            rcases hsource with rfl | hoffers
            · exact .of_names hget (.inl hplan)
            · exact .of_leads ⟨g, hget, .inl hplan⟩ (hoffers.of_planOf hplans)
        · rw [if_neg hudp]
          exact hempty

/-! ### Runs -/

variable {members : List Str} {flow : FlowMeta} {url : Str} {t : UrlTester}

theorem reselect_leaves (g : Group) (o : Outside) (flow : FlowMeta) (members : List Str) (url : Str) (t : UrlTester) :
    (g.reselectAfterManualProbe o flow members url t).group.plan = g.plan ∧
      (g.reselectAfterManualProbe o flow members url t).group.detail = g.detail ∧
      ∀ group n, Recalls (g.reselectAfterManualProbe o flow members url t).tester group n →
        Recalls (some t) group n ∨ group = g.detail.name ∧ n ∈ members := by
  unfold Group.reselectAfterManualProbe
  split_ifs with hkept
  · exact ⟨rfl, rfl, fun _ _ => .inl⟩
  · obtain ⟨hplan, hdetail, hmemory⟩ :=
      g.pickByStrategy_leaves o flow members url (some (t.invalidateFastPick g.detail.name))
    refine ⟨hplan, hdetail, fun group n hrecalls => (hmemory group n hrecalls).imp ?_ id⟩
    rintro ⟨t', e, ht', he, hn⟩
    cases ht'
    exact ⟨t, e, rfl, (AssocMap.get?_erase_eq_some.1 he).1, hn⟩

theorem FromStart.reselect {d₀ : Directory} (h : start.FromStart d) (h₀ : start.FromStart d₀)
    (hget : d.groups.get? group = some g) (ht : d.urltest = some t) :
    start.FromStart (d.reselect o flow (d₀.groupLeafMembers group) url group g t) := by
  obtain ⟨hplan, hdetail, hmemory⟩ := reselect_leaves g o flow (d₀.groupLeafMembers group) url t
  have hleaf {n : Str} (hn : n ∈ d₀.groupLeafMembers group) :
      d₀.Exhibits group n ∧ d₀.groups.contains n = false :=
    ((d₀.expand_spec groupMaxDepth ∅ [] group).2 n hn).resolve_left List.not_mem_nil
  refine h.of_planOf ?_ (fun name hrecalls => ?_) fun name n hrecalls hgroup => ?_
  · funext name
    unfold planOf Directory.reselect
    dsimp only
    by_cases hname : name = group
    · subst hname
      rw [AssocMap.get?_insert_self, hget, Option.map_some, Option.map_some, hplan, hdetail]
    · rw [AssocMap.get?_insert_of_ne _ _ hname]
  · rcases hmemory name direct hrecalls with hrecalls | ⟨rfl, hn⟩
    · exact h.directs name (ht ▸ hrecalls)
    · rw [(h.named hget).1]
      exact h₀.exhibits_start (hleaf hn).1
  · rcases hmemory name n hrecalls with hrecalls | ⟨rfl, hn⟩
    · exact h.nested name n (ht ▸ hrecalls) hgroup
    · obtain ⟨base, hbase⟩ := Option.ne_none_iff_exists'.1 hgroup
      obtain ⟨g₀, hg₀⟩ := h₀.kept n base hbase
      have hcontains := (hleaf hn).2
      rw [AssocMap.contains, hg₀] at hcontains
      cases hcontains

theorem rebuild_plan (nodes : AssocMap Str (List Str)) (base : Group) (old : Option Group) :
    (base.rebuild nodes old).plan = { base.plan with members := expandMembers nodes base.plan.members } := by
  unfold Group.rebuild rebuildGroup
  dsimp only
  cases (old.map (·.toGroupSelector)).bind GroupSelector.currentPin <;> rfl

theorem FromStart.refresh (h : start.FromStart d) {nodes : AssocMap Str (List Str)} (hnodes : start.FeedNodes nodes)
    (hgroups : ∀ name, d'.groups.get? name = match (start.groups.get? name).filter (·.plan.hasFeed) with
      | some base => some (base.rebuild nodes (d.groups.get? name))
      | none => d.groups.get? name)
    (hmemory : ∀ group n, Recalls d'.urltest group n → Recalls d.urltest group n) : start.FromStart d' where
  compiled := h.compiled
  groups name g hget := by
    rw [hgroups] at hget
    cases hbase : (start.groups.get? name).filter (·.plan.hasFeed) with
    | some base =>
      rw [hbase] at hget
      cases hget
      refine ⟨base, (Option.filter_eq_some_iff.1 hbase).1, rfl, ?_, .inr ⟨nodes, hnodes, ?_⟩⟩
      · rw [rebuild_plan]
      · rw [rebuild_plan]
    | none =>
      rw [hbase] at hget
      exact h.groups name g hget
  kept name base hget := by
    rw [hgroups]
    cases (start.groups.get? name).filter (·.plan.hasFeed) with
    | some base => exact ⟨_, rfl⟩
    | none => exact h.kept name base hget
  directs group hrecalls := h.directs group (hmemory group direct hrecalls)
  nested group n hrecalls := h.nested group n (hmemory group n hrecalls)

/-- The directories after runs from a configuration: flows are resolved, groups are tested by hand, feeds are updated,
and pins, health and outbounds change at any time. -/
inductive Reachable (start : Directory) : Directory → Prop
  | start : start.Compiled → Reachable start start
  | picked {d : Directory} (o : Nat → Outside) (ctx : FlowContext) (group : Str) :
      Reachable start d → Reachable start (d.pickInGroup o ctx group).directory
  /-- The members are those from before the test. -/
  | reselected {d₀ d : Directory} {g : Group} {t : UrlTester} (o : Outside) (flow : FlowMeta) (url group : Str) :
      Reachable start d₀ → Reachable start d → d.groups.get? group = some g → d.urltest = some t →
      Reachable start (d.reselect o flow (d₀.groupLeafMembers group) url group g t)
  | refreshed {d d' : Directory} (nodes : AssocMap Str (List Str)) :
      start.FeedNodes nodes →
      (∀ name, d'.groups.get? name = match (start.groups.get? name).filter (·.plan.hasFeed) with
        | some base => some (base.rebuild nodes (d.groups.get? name))
        | none => d.groups.get? name) →
      (∀ group n, Recalls d'.urltest group n → Recalls d.urltest group n) →
      Reachable start d → Reachable start d'
  | changed {d d' : Directory} :
      d'.planOf = d.planOf → (∀ group n, Recalls d'.urltest group n → Recalls d.urltest group n) →
      Reachable start d → Reachable start d'

theorem Reachable.fromStart (h : start.Reachable d) : start.FromStart d := by
  induction h with
  | start hcompiled => exact hcompiled.fromStart
  | picked o ctx group _ ih => exact (ih.resolves o ctx groupMaxDepth ∅ group).fromStart
  | reselected o flow url group _ _ hget ht ih₀ ih => exact ih.reselect ih₀ hget ht
  | refreshed nodes hnodes hgroups hmemory _ ih => exact ih.refresh hnodes hgroups hmemory
  | changed hplan hmemory _ ih =>
    exact ih.of_planOf hplan (fun group hrecalls => ih.directs group (hmemory group direct hrecalls))
      fun group n hrecalls => ih.nested group n (hmemory group n hrecalls)

end FromStart

/-- `DIRECT` is a member or the fallback of a group that is reached. -/
def OffersDirect (d : Directory) (group : Str) : Prop :=
  ∃ last g, ReflTransGen d.Leads group last ∧ d.groups.get? last = some g ∧
    (direct ∈ g.plan.members ∨ toAsciiUppercase g.detail.emptyFallback = direct)

theorem Offers.offersDirect {d : Directory} {group : Str} (h : d.Offers group direct) : d.OffersDirect group := by
  have hself : toAsciiUppercase direct = direct := by decide
  obtain ⟨last, g, hreach, hget, hmem | hfallback | hlabel⟩ := h
  · exact ⟨last, g, hreach, hget, .inl hmem⟩
  · exact ⟨last, g, hreach, hget, .inr (hfallback ▸ hself)⟩
  · refine ⟨last, g, hreach, hget, .inr ?_⟩
    unfold fallbackLabel at hlabel
    split_ifs at hlabel with hblock hdirect
    · exact absurd hlabel.symm block_ne_direct
    · exact hdirect
    · exact hlabel ▸ hself

end Directory

/-- **Resolution terminates, gives the set of groups back and does not invent `DIRECT`.**  The groups may refer to each
other in any way; the functions are defined on all arguments, with one level less at each call. -/
theorem resolution_sound {start d : Directory} (h : start.Reachable d) (o : Nat → Outside) (ctx : FlowContext) (left : Nat)
    (visiting : Finset Str) (leaves : List Str) (group : Str) :
    ((Directory.pickInGroupInner o ctx left d visiting group).visiting = visiting ∧
      d.outbounds.get (Directory.pickInGroupInner o ctx left d visiting group).pick.label =
        some (Directory.pickInGroupInner o ctx left d visiting group).pick.outbound ∧
      ((Directory.pickInGroupInner o ctx left d visiting group).pick.label = direct → d.OffersDirect group)) ∧
    ((d.expand left visiting leaves group).2 = visiting ∧
      (direct ∈ (d.expand left visiting leaves group).1 → direct ∈ leaves ∨ d.OffersDirect group)) ∧
    ((d.firstResolvableMember left visiting group).2 = visiting ∧
      ∀ r, (d.firstResolvableMember left visiting group).1 = some r → d.outbounds.get r.label = some r.outbound ∧
        (r.label = direct → group = direct ∨ d.OffersDirect group)) := by
  refine ⟨?_, ?_, ?_⟩
  · have hresolves := h.fromStart.resolves o ctx left visiting group
    exact ⟨hresolves.visiting, hresolves.registered, fun hlabel => (hresolves.offers hlabel).offersDirect⟩
  · obtain ⟨hvisiting, hleaves⟩ := d.expand_spec left visiting leaves group
    exact ⟨hvisiting, fun hdirect => (hleaves direct hdirect).imp id fun hexhibits => hexhibits.1.offers.offersDirect⟩
  · refine ⟨d.firstResolvableMember_visiting left visiting group, fun r hr => ?_⟩
    obtain ⟨hregistered, hsource⟩ := Directory.firstResolvableMember_source hr
    refine ⟨hregistered, fun hlabel => ?_⟩
    rw [hlabel] at hsource
    exact hsource.imp Eq.symm Directory.Offers.offersDirect

/-- A group `g` of itself and `DIRECT`. -/
def loopDirectory : Directory where
  groups := ⟨[("g".toList, { groupOfTwo .manual with plan := ⟨.manual, ["g".toList, direct]⟩ })], List.nodup_singleton _⟩
  outbounds := ⟨⟨[(direct, ⟨"direct".toList, true⟩), (block, ⟨"block".toList, true⟩)], by decide⟩, rfl, rfl⟩
  urltest := none

theorem loopDirectory_compiled : loopDirectory.Compiled where
  named name g hget := by
    obtain ⟨rfl, rfl⟩ := Prod.mk.inj (List.mem_singleton.1 (AssocMap.get?_eq_some.1 hget))
    rfl
  noChain name g hget := by
    obtain ⟨rfl, rfl⟩ := Prod.mk.inj (List.mem_singleton.1 (AssocMap.get?_eq_some.1 hget))
    exact nofun
  forgetful := by
    rintro group node ⟨t, e, ht, -⟩
    cases ht

theorem resolution_sound_loop :
    (loopDirectory.pickInGroup (fun _ => firstOutside) { host := [], port := 443, network := .tcp } "g".toList).visiting =
      ∅ ∧ loopDirectory.OffersDirect "g".toList := by
  obtain ⟨hvisiting, -, hdirect⟩ := (resolution_sound (.start loopDirectory_compiled) (fun _ => firstOutside)
    { host := [], port := 443, network := .tcp } groupMaxDepth ∅ [] "g".toList).1
  exact ⟨hvisiting, hdirect (by decide)⟩

end WutherCore.Engine
