import Mathlib
import WutherCore.Data.Except
import WutherCore.Engine.State

/-!
# Feed updates

`Runtime.applyFeedNodes` replaces the nodes of a feed: it checks the names of the new nodes, builds
their outbounds, exchanges them in the registry, and rebuilds the groups that have a feed as a member.

* The names are checked without the white space around them, and registered with it.
* **`applyFeedNodes_isolated_iff`** says exactly which updates leave the rest of the registry alone.
* `applyFeedNodes_groups` says what becomes of each group.
-/

namespace WutherCore.Engine

open WutherCore.Text WutherCore.Data

variable {κ ω : Type}

/-- The errors of a feed update. -/
inductive RuntimeError
  | outboundConfig (message : Str)
  deriving DecidableEq

/-! ### The checks -/

/-- A text between backquotes. -/
def quoted (s : Str) : Str := "`".toList ++ s ++ "`".toList

/-- The error texts that start with the name of the feed. -/
def feedError (feed rest : Str) : RuntimeError :=
  .outboundConfig ("feed ".toList ++ quoted feed ++ rest)

/-- The names that Clash gives a meaning to, in any case. -/
def isReservedName (name : Str) : Bool :=
  toAsciiUppercase name ∈ ["DIRECT".toList, "BLOCK".toList, "REJECT".toList, "GLOBAL".toList]

/-- The checks of one node; `incoming` are the names before it. -/
def checkNode (plan : RuntimePlan κ) (info : AssocMap Str (RuntimeNodeInfo κ)) (feed : Str)
    (incoming : List Str) (node : ParsedNode κ) : Except RuntimeError (List Str) :=
  let name := trim node.name
  if name = [] then
    .error (feedError feed " contains an empty node name".toList)
  else if name ∈ incoming then
    .error (feedError feed (" contains duplicate node name ".toList ++ quoted name))
  else if name ∈ plan.staticNames then
    .error (feedError feed (" node ".toList ++ quoted name ++
      " conflicts with a static node".toList))
  else if name ∈ plan.groupNames || isReservedName name then
    .error (feedError feed (" node ".toList ++ quoted name ++
      " conflicts with a group or reserved Clash name".toList))
  else match ((info.get? name).bind RuntimeNodeInfo.provider).filter (· ≠ feed) with
    | some owner => .error (feedError feed (" node ".toList ++ quoted name ++
        " is already owned by feed ".toList ++ quoted owner))
    | none => .ok (name :: incoming)

/-- The checks of all nodes. -/
def checkNodes (plan : RuntimePlan κ) (info : AssocMap Str (RuntimeNodeInfo κ)) (feed : Str)
    (nodes : List (ParsedNode κ)) : Except RuntimeError (List Str) :=
  nodes.foldlM (checkNode plan info feed) []

/-- The outbounds of the nodes, all or none. -/
def buildOutbounds (buildOutbound : ParsedNode κ → Except Str ω) (feed : Str)
    (nodes : List (ParsedNode κ)) : Except RuntimeError (List ω) :=
  nodes.mapM fun node => (buildOutbound node).mapError fun error =>
    feedError feed (" node ".toList ++ quoted node.name ++ ": ".toList ++ error)

/-! ### The registry -/

/-- The outbounds that are always there. -/
def isBuiltin (name : Str) : Bool := name = "DIRECT".toList || name = "BLOCK".toList

/-- `OutboundRegistry::remove`. -/
def removeOutbound (outbounds : AssocMap Str ω) (name : Str) : AssocMap Str ω :=
  if isBuiltin name then outbounds else outbounds.erase name

/-- A node that an update of the feed takes away. -/
def isRemoved (plan : RuntimePlan κ) (feed name : Str) (info : RuntimeNodeInfo κ) : Bool :=
  info.provider = some feed && name ∉ plan.staticNames

/-- The names that an update of the feed takes away. -/
def removedNames (plan : RuntimePlan κ) (info : AssocMap Str (RuntimeNodeInfo κ)) (feed : Str) :
    List Str :=
  (info.sorted.filter fun e => isRemoved plan feed e.1 e.2).map Prod.fst

/-- The nodes of the feed exchanged for new ones. -/
def NodeTable.replaceFeed (t : NodeTable κ ω) (plan : RuntimePlan κ) (feed : Str)
    (nodes : List (ParsedNode κ)) (built : List ω) : NodeTable κ ω where
  outbounds := ((removedNames plan t.nodeInfo feed).foldl removeOutbound t.outbounds).insertAll
    ((nodes.map ParsedNode.name).zip built)
  nodeInfo := (t.nodeInfo.retain fun name info => !isRemoved plan feed name info).insertAll
    (nodes.map fun node => (node.name, RuntimeNodeInfo.fromNode (some feed) node))

/-- The part of an update before the groups. -/
def registerFeed (buildOutbound : ParsedNode κ → Except Str ω) (plan : RuntimePlan κ)
    (t : NodeTable κ ω) (feed : Str) (nodes : List (ParsedNode κ)) :
    Except RuntimeError (NodeTable κ ω) :=
  (checkNodes plan t.nodeInfo feed nodes).bind fun _ =>
    (buildOutbounds buildOutbound feed nodes).bind fun built =>
      .ok (t.replaceFeed plan feed nodes built)

/-! ### The groups -/

/-- `feed_member_name`. -/
def feedMemberName (member : Str) : Option Str :=
  (stripPrefix "feed:".toList member).filter fun provider => trim provider ≠ []

/-- Whether a group has a feed as a member. -/
def GroupPlan.hasFeed (plan : GroupPlan) : Bool :=
  plan.members.any fun m => (feedMemberName m).isSome

/-- A name at the end of a list, unless the list has it. -/
def pushNew (names : List Str) (name : Str) : List Str :=
  if name ∈ names then names else names ++ [name]

/-- `provider_nodes_by_name`. -/
def providerNodesByName (info : AssocMap Str (RuntimeNodeInfo κ)) : AssocMap Str (List Str) :=
  info.sorted.foldl (fun out e => match e.2.provider with
    | none => out
    | some provider => out.insert provider (pushNew ((out.get? provider).getD []) e.1))
    AssocMap.empty

/-- The members of a group, with the nodes of the feeds in their places. -/
def expandMembers (providerNodes : AssocMap Str (List Str)) (members : List Str) : List Str :=
  members.foldl (fun new m => match (feedMemberName m).bind providerNodes.get? with
    | some names => names.foldl pushNew new
    | none => pushNew new m) []

/-- A group with a feed, built anew: it keeps the pin and nothing else. -/
def rebuildGroup (providerNodes : AssocMap Str (List Str)) (base : GroupPlan)
    (old : Option GroupSelector) : GroupSelector :=
  let selector := GroupSelector.new
    { base with members := expandMembers providerNodes base.members }
  match old.bind GroupSelector.currentPin with
  | some pin => selector.restorePin pin
  | none => selector

/-- The groups after an update, in the order of the plan. -/
def rebuildGroups (plan : List (Str × GroupPlan)) (providerNodes : AssocMap Str (List Str))
    (groups : AssocMap Str GroupSelector) : AssocMap Str GroupSelector :=
  plan.foldl (fun groups g =>
    if g.2.hasFeed then groups.insert g.1 (rebuildGroup providerNodes g.2 (groups.get? g.1))
    else groups) groups

namespace Runtime

/-- `apply_feed_nodes`. -/
def applyFeedNodes (buildOutbound : ParsedNode κ → Except Str ω) (r : Runtime κ ω) (feed : Str)
    (nodes : List (ParsedNode κ)) : Except RuntimeError Unit × Runtime κ ω :=
  if feed ∉ r.plan.feeds then
    (.error (.outboundConfig ("unknown feed ".toList ++ quoted feed)), r)
  else match registerFeed buildOutbound r.plan r.nodes feed nodes with
    | .error e => (.error e, r)
    | .ok table =>
      (.ok (), { r with
        nodes := table
        groups := rebuildGroups r.plan.groups.sorted (providerNodesByName table.nodeInfo) r.groups
        nodeRevision := r.nodeRevision + 1 })

end Runtime

/-! ### What the checks say -/

section Checks

variable {plan : RuntimePlan κ} {info : AssocMap Str (RuntimeNodeInfo κ)} {feed : Str}

theorem checkNode_eq_ok {incoming incoming' : List Str} {node : ParsedNode κ}
    (h : checkNode plan info feed incoming node = .ok incoming') :
    incoming' = trim node.name :: incoming ∧ trim node.name ∉ incoming ∧
      trim node.name ∉ plan.staticNames ∧ trim node.name ∉ plan.groupNames ∧
      ∀ i owner, info.get? (trim node.name) = some i → i.provider = some owner → owner = feed := by
  unfold checkNode at h
  simp only at h
  split_ifs at h with hempty hdup hstatic hgroup
  split at h
  · cases h
  · next howner =>
    cases h
    refine ⟨rfl, hdup, hstatic, fun hmem => hgroup (by simp [hmem]), fun i owner hget hprov => ?_⟩
    rw [hget, Option.bind_some, hprov, Option.filter_eq_none_iff] at howner
    simpa using howner owner rfl

theorem nodup_of_checkNodes_aux {nodes : List (ParsedNode κ)} {incoming incoming' : List Str}
    (h : nodes.foldlM (checkNode plan info feed) incoming = .ok incoming')
    (hn : incoming.Nodup) :
    incoming'.Nodup ∧ incoming' = (nodes.map fun n => trim n.name).reverse ++ incoming := by
  induction nodes generalizing incoming with
  | nil =>
    cases h
    exact ⟨hn, rfl⟩
  | cons node nodes ih =>
    rw [List.foldlM_cons] at h
    obtain ⟨next, hnode, h⟩ := bind_eq_ok.1 h
    obtain ⟨rfl, hfresh, -⟩ := checkNode_eq_ok hnode
    obtain ⟨hnodup, heq⟩ := ih h (List.nodup_cons.2 ⟨hfresh, hn⟩)
    refine ⟨hnodup, ?_⟩
    rw [heq, List.map_cons, List.reverse_cons, List.append_assoc, List.singleton_append]

theorem nodup_of_checkNodes {nodes : List (ParsedNode κ)} {names : List Str}
    (h : checkNodes plan info feed nodes = .ok names) : (nodes.map ParsedNode.name).Nodup := by
  obtain ⟨hnodup, heq⟩ := nodup_of_checkNodes_aux h List.nodup_nil
  rw [heq, List.append_nil, List.nodup_reverse] at hnodup
  refine List.Nodup.of_map trim ?_
  rwa [List.map_map]

theorem checkNode_of_checkNodes {nodes : List (ParsedNode κ)} {incoming names : List Str}
    (h : nodes.foldlM (checkNode plan info feed) incoming = .ok names) {node : ParsedNode κ}
    (hmem : node ∈ nodes) :
    ∃ before after, checkNode plan info feed before node = .ok after := by
  induction nodes generalizing incoming with
  | nil => cases hmem
  | cons n nodes ih =>
    rw [List.foldlM_cons] at h
    obtain ⟨next, hnode, h⟩ := bind_eq_ok.1 h
    rcases List.mem_cons.1 hmem with rfl | hmem
    · exact ⟨_, _, hnode⟩
    · exact ih h hmem

theorem buildOutbounds_eq_ok {buildOutbound : ParsedNode κ → Except Str ω}
    {nodes : List (ParsedNode κ)} {built : List ω} :
    buildOutbounds buildOutbound feed nodes = .ok built ↔
      List.Forall₂ (fun node ob => buildOutbound node = .ok ob) nodes built := by
  rw [buildOutbounds, mapM_eq_ok]
  simp only [mapError_eq_ok]

end Checks

/-! ### What the registry holds after an update -/

section Registry

variable {plan : RuntimePlan κ} {info : AssocMap Str (RuntimeNodeInfo κ)} {feed name : Str}

theorem get?_removeOutbound (outbounds : AssocMap Str ω) (n name : Str) :
    (removeOutbound outbounds n).get? name =
      if name = n ∧ isBuiltin name = false then none else outbounds.get? name := by
  unfold removeOutbound
  by_cases hname : name = n
  · subst hname
    cases hb : isBuiltin name with
    | true => simp
    | false => simp
  · have hstays : ¬(name = n ∧ isBuiltin name = false) := fun h => hname h.1
    rw [if_neg hstays]
    split_ifs with hn
    · rfl
    · exact AssocMap.get?_erase_of_ne _ hname

theorem get?_foldl_removeOutbound (names : List Str) (outbounds : AssocMap Str ω) (name : Str) :
    (names.foldl removeOutbound outbounds).get? name =
      if name ∈ names ∧ isBuiltin name = false then none else outbounds.get? name := by
  induction names generalizing outbounds with
  | nil => simp
  | cons n names ih =>
    rw [List.foldl_cons, ih, get?_removeOutbound]
    cases hb : isBuiltin name with
    | true => simp
    | false => by_cases hname : name = n <;> simp [hname]

theorem mem_removedNames :
    name ∈ removedNames plan info feed ↔
      (∃ i, info.get? name = some i ∧ i.provider = some feed) ∧ name ∉ plan.staticNames := by
  simp only [removedNames, List.mem_map, List.mem_filter, AssocMap.sorted,
    List.mem_insertionSort, isRemoved, Bool.and_eq_true, decide_eq_true_eq]
  constructor
  · rintro ⟨⟨n, i⟩, ⟨hmem, hprov, hstatic⟩, rfl⟩
    exact ⟨⟨i, AssocMap.get?_eq_some.2 hmem, hprov⟩, hstatic⟩
  · rintro ⟨⟨i, hget, hprov⟩, hstatic⟩
    exact ⟨(name, i), ⟨AssocMap.get?_eq_some.1 hget, hprov, hstatic⟩, rfl⟩

theorem get?_replaceFeed_of_notMem (t : NodeTable κ ω) {nodes : List (ParsedNode κ)}
    {built : List ω} (h : name ∉ nodes.map ParsedNode.name) :
    (t.replaceFeed plan feed nodes built).outbounds.get? name =
      if name ∈ removedNames plan t.nodeInfo feed ∧ isBuiltin name = false then none
      else t.outbounds.get? name := by
  rw [NodeTable.replaceFeed, AssocMap.get?_insertAll_of_notMem, get?_foldl_removeOutbound]
  intro hmem
  obtain ⟨⟨n, ob⟩, he, rfl⟩ := List.mem_map.1 hmem
  exact h (List.of_mem_zip he).1

theorem get?_replaceFeed_of_mem (t : NodeTable κ ω)
    {buildOutbound : ParsedNode κ → Except Str ω} {nodes : List (ParsedNode κ)} {built : List ω}
    (hn : (nodes.map ParsedNode.name).Nodup)
    (hb : List.Forall₂ (fun node ob => buildOutbound node = .ok ob) nodes built)
    {node : ParsedNode κ} (h : node ∈ nodes) :
    ∃ ob, buildOutbound node = .ok ob ∧
      (t.replaceFeed plan feed nodes built).outbounds.get? node.name = some ob := by
  obtain ⟨ob, hmem, hob⟩ : ∃ ob, (node, ob) ∈ nodes.zip built ∧ buildOutbound node = .ok ob := by
    clear hn
    induction hb with
    | nil => cases h
    | cons hab _ ih =>
      rcases List.mem_cons.1 h with rfl | h
      · exact ⟨_, List.mem_cons_self, hab⟩
      · obtain ⟨ob, hmem, hob⟩ := ih h
        exact ⟨ob, List.mem_cons_of_mem _ hmem, hob⟩
  refine ⟨ob, hob, AssocMap.get?_insertAll_of_mem _ _ ?_ ?_⟩
  · have hlen : (nodes.map ParsedNode.name).length ≤ built.length := by
      rw [List.length_map, hb.length_eq]
    rwa [List.map_fst_zip hlen]
  · rw [List.zip_map_left]
    exact List.mem_map.2 ⟨(node, ob), hmem, rfl⟩

theorem nodeInfo_replaceFeed_of_notMem (t : NodeTable κ ω) {nodes : List (ParsedNode κ)}
    {built : List ω} (h : name ∉ nodes.map ParsedNode.name) :
    (t.replaceFeed plan feed nodes built).nodeInfo.get? name =
      (t.nodeInfo.get? name).filter fun i => !isRemoved plan feed name i := by
  rw [NodeTable.replaceFeed, AssocMap.get?_insertAll_of_notMem, AssocMap.get?_retain]
  rwa [List.map_map]

end Registry

/-! ### Isolation -/

namespace Runtime

variable (buildOutbound : ParsedNode κ → Except Str ω) (r : Runtime κ ω) (feed : Str)
  (nodes : List (ParsedNode κ))

/-- A feed owns the nodes that are registered as its own. -/
def Owns (name : Str) : Prop :=
  ∃ info, r.nodes.nodeInfo.get? name = some info ∧ info.provider = some feed

/-- The names that are not for the feed: those of static nodes, of groups, and of the nodes of other
feeds. -/
def Foreign (name : Str) : Prop :=
  name ∈ r.plan.staticNames ∨ name ∈ r.plan.groupNames ∨ ∃ other, other ≠ feed ∧ r.Owns other name

/-- A name that the feed owns and the new list does not have. -/
def Dropped (name : Str) : Prop :=
  r.Owns feed name ∧ name ∉ r.plan.staticNames ∧ name ∉ nodes.map ParsedNode.name

/-- What an update of a feed is to do: nothing if it fails, and otherwise to leave the outbounds of
others alone, to take away the nodes that are dropped, and to leave each name with one owner. -/
def Isolated : Except RuntimeError Unit × Runtime κ ω → Prop
  | (.error _, r') =>
    r'.nodes.outbounds = r.nodes.outbounds ∧ r'.nodes.nodeInfo = r.nodes.nodeInfo ∧
      r'.groups = r.groups
  | (.ok _, r') =>
    (∀ name, r.Foreign feed name → r'.nodes.outbounds.get? name = r.nodes.outbounds.get? name) ∧
    (∀ name, r.Dropped feed nodes name →
      r'.nodes.nodeInfo.get? name = none ∧ r'.nodes.outbounds.get? name = none) ∧
    ∀ name f f', r'.Owns f name → r'.Owns f' name → f = f'

/-- The updates that pass the checks. -/
def Accepts : Prop :=
  feed ∈ r.plan.feeds ∧ (∃ names, checkNodes r.plan r.nodes.nodeInfo feed nodes = .ok names) ∧
    ∀ node ∈ nodes, ∃ ob, buildOutbound node = .ok ob

/-- The updates that stay with the names of the feed: a name with white space around it that is
foreign is not given another outbound, and a name that is dropped is not one of a group or of an
outbound that is always there. -/
def StaysInside : Prop :=
  (∀ node ∈ nodes, trim node.name ≠ node.name → r.Foreign feed node.name →
    ∃ ob, buildOutbound node = .ok ob ∧ r.nodes.outbounds.get? node.name = some ob) ∧
  ∀ name, r.Dropped feed nodes name → name ∈ r.plan.groupNames ∨ isBuiltin name = true →
    r.nodes.outbounds.get? name = none

variable {buildOutbound r feed nodes}

theorem owner_unique {name f f' : Str} (h : r.Owns f name) (h' : r.Owns f' name) : f = f' := by
  obtain ⟨i, hget, hprov⟩ := h
  obtain ⟨i', hget', hprov'⟩ := h'
  rw [hget] at hget'
  cases hget'
  exact Option.some.inj (hprov.symm.trans hprov')

theorem trim_ne_of_foreign (h : r.Accepts buildOutbound feed nodes) {node : ParsedNode κ}
    (hnode : node ∈ nodes) (hforeign : r.Foreign feed node.name) : trim node.name ≠ node.name := by
  intro htrim
  obtain ⟨names, hnames⟩ := h.2.1
  obtain ⟨before, after, hcheck⟩ := checkNode_of_checkNodes hnames hnode
  obtain ⟨-, -, hstatic, hgroup, howner⟩ := checkNode_eq_ok hcheck
  rw [htrim] at hstatic hgroup howner
  rcases hforeign with h | h | ⟨other, hne, i, hget, hprov⟩
  · exact hstatic h
  · exact hgroup h
  · exact hne (howner i other hget hprov)

/-- An update fails and changes nothing, or it is accepted. -/
theorem applyFeedNodes_cases (buildOutbound : ParsedNode κ → Except Str ω) (r : Runtime κ ω)
    (feed : Str) (nodes : List (ParsedNode κ)) :
    (∃ e, r.applyFeedNodes buildOutbound feed nodes = (.error e, r)) ∧
        ¬r.Accepts buildOutbound feed nodes ∨
      ∃ built, r.Accepts buildOutbound feed nodes ∧
        (nodes.map ParsedNode.name).Nodup ∧
        List.Forall₂ (fun node ob => buildOutbound node = .ok ob) nodes built ∧
        r.applyFeedNodes buildOutbound feed nodes = (.ok (), { r with
          nodes := r.nodes.replaceFeed r.plan feed nodes built
          groups := rebuildGroups r.plan.groups.sorted (providerNodesByName
            (r.nodes.replaceFeed r.plan feed nodes built).nodeInfo) r.groups
          nodeRevision := r.nodeRevision + 1 }) := by
  unfold applyFeedNodes
  by_cases hfeed : feed ∈ r.plan.feeds
  swap
  · rw [if_pos hfeed]
    exact .inl ⟨⟨_, rfl⟩, fun h => hfeed h.1⟩
  rw [if_neg (not_not.2 hfeed)]
  unfold registerFeed
  cases hcheck : checkNodes r.plan r.nodes.nodeInfo feed nodes with
  | error e =>
    refine .inl ⟨⟨e, rfl⟩, fun h => ?_⟩
    obtain ⟨names, hnames⟩ := h.2.1
    rw [hcheck] at hnames
    cases hnames
  | ok names =>
    cases hbuild : buildOutbounds buildOutbound feed nodes with
    | error e =>
      refine .inl ⟨⟨e, rfl⟩, fun h => ?_⟩
      obtain ⟨built, hbuilt⟩ := exists_forall₂ h.2.2
      rw [buildOutbounds_eq_ok.2 hbuilt] at hbuild
      cases hbuild
    | ok built =>
      have hbuilt := buildOutbounds_eq_ok.1 hbuild
      refine .inr ⟨built, ⟨hfeed, ⟨names, hcheck⟩, fun node hnode => ?_⟩,
        nodup_of_checkNodes hcheck, hbuilt, rfl⟩
      obtain ⟨ob, -, hob⟩ := exists_right_of_forall₂ hbuilt hnode
      exact ⟨ob, hob⟩

theorem mem_groupNames_of_foreign {name : Str} (hforeign : r.Foreign feed name)
    (hremoved : name ∈ removedNames r.plan r.nodes.nodeInfo feed) : name ∈ r.plan.groupNames := by
  obtain ⟨howns, hstatic⟩ := mem_removedNames.1 hremoved
  rcases hforeign with h | h | ⟨other, hne, h⟩
  · exact absurd h hstatic
  · exact h
  · exact absurd (owner_unique h howns) hne

/-- What an accepted update does to the registry. -/
theorem isolated_replaceFeed_iff {built : List ω} {r' : Runtime κ ω}
    (ha : r.Accepts buildOutbound feed nodes)
    (hn : (nodes.map ParsedNode.name).Nodup)
    (hb : List.Forall₂ (fun node ob => buildOutbound node = .ok ob) nodes built)
    (hr : r'.nodes = r.nodes.replaceFeed r.plan feed nodes built) :
    r.Isolated feed nodes (.ok (), r') ↔ r.StaysInside buildOutbound feed nodes := by
  have hkept : ∀ name, name ∉ nodes.map ParsedNode.name → r'.nodes.outbounds.get? name =
      if name ∈ removedNames r.plan r.nodes.nodeInfo feed ∧ isBuiltin name = false then none
      else r.nodes.outbounds.get? name := fun name h => by
    rw [hr, get?_replaceFeed_of_notMem _ h]
  have hbuilt : ∀ node ∈ nodes, ∃ ob, buildOutbound node = .ok ob ∧
      r'.nodes.outbounds.get? node.name = some ob := fun node h => by
    rw [hr]
    exact get?_replaceFeed_of_mem _ hn hb h
  have hdropped : ∀ name, r.Dropped feed nodes name →
      name ∈ removedNames r.plan r.nodes.nodeInfo feed := fun name h =>
    mem_removedNames.2 ⟨h.1, h.2.1⟩
  constructor
  · rintro ⟨hforeign, hgone, -⟩
    refine ⟨fun node hnode _ hf => ?_, fun name hd hname => ?_⟩
    · obtain ⟨ob, hob, hget⟩ := hbuilt node hnode
      exact ⟨ob, hob, (hforeign _ hf).symm.trans hget⟩
    · have hnone := (hgone name hd).2
      rcases hname with hgroup | hbuiltin
      · exact (hforeign name (.inr (.inl hgroup))).symm.trans hnone
      · rwa [hkept name hd.2.2, if_neg fun h => by simp [hbuiltin] at h] at hnone
  · rintro ⟨hfresh, hnone⟩
    refine ⟨fun name hf => ?_, fun name hd => ⟨?_, ?_⟩, fun name f f' => owner_unique⟩
    · by_cases hmem : name ∈ nodes.map ParsedNode.name
      · obtain ⟨node, hnode, rfl⟩ := List.mem_map.1 hmem
        obtain ⟨ob, hob, hget⟩ := hbuilt node hnode
        obtain ⟨ob', hob', hget'⟩ := hfresh node hnode (trim_ne_of_foreign ha hnode hf) hf
        rw [hob] at hob'
        cases hob'
        rw [hget, hget']
      · rw [hkept name hmem]
        split_ifs with hremoved
        · have hgroup := mem_groupNames_of_foreign hf hremoved.1
          obtain ⟨howns, hstatic⟩ := mem_removedNames.1 hremoved.1
          exact (hnone name ⟨howns, hstatic, hmem⟩ (.inl hgroup)).symm
        · rfl
    · obtain ⟨⟨info, hget, hprov⟩, hstatic, hmem⟩ := hd
      rw [hr, nodeInfo_replaceFeed_of_notMem _ hmem, hget]
      simp [isRemoved, hprov, hstatic]
    · rw [hkept name hd.2.2]
      split_ifs with hremoved
      · rfl
      · have hbuiltin : isBuiltin name = true := by
          by_contra h
          exact hremoved ⟨hdropped name hd, Bool.eq_false_iff.2 h⟩
        exact hnone name hd (.inr hbuiltin)

/-- **Isolation of feed updates.**  For every state and every list of nodes, an update does what it
is to do exactly when it fails its checks or stays with the names of its feed. -/
theorem applyFeedNodes_isolated_iff (buildOutbound : ParsedNode κ → Except Str ω)
    (r : Runtime κ ω) (feed : Str) (nodes : List (ParsedNode κ)) :
    r.Isolated feed nodes (r.applyFeedNodes buildOutbound feed nodes) ↔
      (r.Accepts buildOutbound feed nodes → r.StaysInside buildOutbound feed nodes) := by
  obtain ⟨⟨e, happly⟩, hrejects⟩ | ⟨built, haccepts, hn, hb, happly⟩ :=
    applyFeedNodes_cases buildOutbound r feed nodes
  · rw [happly]
    exact ⟨fun _ h => absurd h hrejects, fun _ => ⟨rfl, rfl, rfl⟩⟩
  · rw [happly, isolated_replaceFeed_iff haccepts hn hb rfl]
    exact ⟨fun h _ => h, fun h => h haccepts⟩

/-- Two feeds without nodes. -/
def twoFeeds : Runtime Unit Str :=
  Runtime.build { feeds := ["a".toList, "b".toList], nodes := [], groups := AssocMap.empty }
    AssocMap.empty none (fun _ => true) (fun _ => 0)

/-- A node whose name starts with a blank, on a host. -/
def blankNode (host : String) : ParsedNode Unit where
  name := " HK".toList
  host := host.toList
  udp := true
  config := ()

/-- The second of two feeds with a node of the same name takes the outbound of the first away. -/
theorem applyFeedNodes_takes_node :
    ¬∀ (r : Runtime Unit Str) (feed : Str) (nodes : List (ParsedNode Unit)),
      r.Isolated feed nodes (r.applyFeedNodes (fun node => .ok node.host) feed nodes) := by
  intro h
  have hb := h (twoFeeds.applyFeedNodes (fun node => .ok node.host) "a".toList
    [blankNode "192.0.2.1"]).2 "b".toList [blankNode "192.0.2.2"]
  have howned : (twoFeeds.applyFeedNodes (fun node => .ok node.host) "a".toList
      [blankNode "192.0.2.1"]).2.Foreign "b".toList " HK".toList :=
    .inr (.inr ⟨"a".toList, by decide,
      RuntimeNodeInfo.fromNode (some "a".toList) (blankNode "192.0.2.1"), by decide +kernel, rfl⟩)
  exact absurd (hb.1 " HK".toList howned) (by decide +kernel)

end Runtime

/-! ### Groups -/

/-- The groups that an update builds anew. -/
def RuntimePlan.feedGroup (plan : RuntimePlan κ) (group : Str) : Option GroupPlan :=
  (plan.groups.get? group).filter GroupPlan.hasFeed

theorem get?_rebuildGroups_of_notMem (plan : List (Str × GroupPlan))
    (providerNodes : AssocMap Str (List Str)) (groups : AssocMap Str GroupSelector) {group : Str}
    (h : ∀ base, (group, base) ∈ plan → base.hasFeed = false) :
    (rebuildGroups plan providerNodes groups).get? group = groups.get? group := by
  induction plan generalizing groups with
  | nil => rfl
  | cons g plan ih =>
    rw [rebuildGroups, List.foldl_cons]
    refine (ih _ fun base hmem => h base (List.mem_cons_of_mem _ hmem)).trans ?_
    split_ifs with hfeed
    · refine AssocMap.get?_insert_of_ne _ _ fun hg => ?_
      have := h g.2 (hg ▸ List.mem_cons_self)
      rw [hfeed] at this
      cases this
    · rfl

theorem get?_rebuildGroups_of_mem (plan : List (Str × GroupPlan))
    (providerNodes : AssocMap Str (List Str)) (groups : AssocMap Str GroupSelector) {group : Str}
    {base : GroupPlan} (hn : (plan.map Prod.fst).Nodup) (h : (group, base) ∈ plan)
    (hfeed : base.hasFeed = true) :
    (rebuildGroups plan providerNodes groups).get? group =
      some (rebuildGroup providerNodes base (groups.get? group)) := by
  induction plan generalizing groups with
  | nil => cases h
  | cons g plan ih =>
    rw [List.map_cons, List.nodup_cons] at hn
    rw [rebuildGroups, List.foldl_cons]
    cases h with
    | head =>
      refine (get?_rebuildGroups_of_notMem plan providerNodes _ fun b hb => ?_).trans ?_
      · exact absurd (List.mem_map.2 ⟨_, hb, rfl⟩) hn.1
      · rw [if_pos hfeed, AssocMap.get?_insert_self]
    | tail _ h =>
      have hne : group ≠ g.1 := fun heq => hn.1 (heq ▸ List.mem_map.2 ⟨_, h, rfl⟩)
      refine (ih _ hn.2 h).trans ?_
      split_ifs with hg
      · rw [AssocMap.get?_insert_of_ne _ _ hne]
      · rfl

theorem get?_rebuildGroups (plan : RuntimePlan κ) (providerNodes : AssocMap Str (List Str))
    (groups : AssocMap Str GroupSelector) (group : Str) :
    (rebuildGroups plan.groups.sorted providerNodes groups).get? group =
      match plan.feedGroup group with
      | some base => some (rebuildGroup providerNodes base (groups.get? group))
      | none => groups.get? group := by
  have hperm : plan.groups.sorted.Perm plan.groups.entries := List.perm_insertionSort _ _
  cases hg : plan.feedGroup group with
  | some base =>
    obtain ⟨hget, hfeed⟩ := Option.filter_eq_some_iff.1 hg
    refine get?_rebuildGroups_of_mem _ _ _ ?_ (hperm.mem_iff.2 (AssocMap.get?_eq_some.1 hget)) hfeed
    exact (hperm.map Prod.fst).nodup_iff.2 plan.groups.nodup
  | none =>
    refine get?_rebuildGroups_of_notMem _ _ _ fun base hmem => ?_
    have hget := AssocMap.get?_eq_some.2 (hperm.mem_iff.1 hmem)
    rw [RuntimePlan.feedGroup, hget, Option.filter_eq_none_iff] at hg
    simpa using hg base rfl

@[simp] theorem rebuildGroup_pin (providerNodes : AssocMap Str (List Str)) (base : GroupPlan)
    (old : Option GroupSelector) :
    (rebuildGroup providerNodes base old).pin =
      (old.bind GroupSelector.pin).map fun pin => { pin with source := .restored } := by
  unfold rebuildGroup
  change _ = (old.bind GroupSelector.currentPin).map _
  cases old.bind GroupSelector.currentPin <;> rfl

/-- The counter of a group that is built anew starts from the generation of its pin. -/
@[simp] theorem rebuildGroup_pinGeneration (providerNodes : AssocMap Str (List Str))
    (base : GroupPlan) (old : Option GroupSelector) :
    (rebuildGroup providerNodes base old).pinGeneration =
      ((old.bind GroupSelector.pin).map GroupPin.generation).getD 0 := by
  unfold rebuildGroup
  change _ = ((old.bind GroupSelector.currentPin).map _).getD 0
  cases old.bind GroupSelector.currentPin with
  | none => rfl
  | some pin => exact max_zero_generation pin.generation

end WutherCore.Engine
