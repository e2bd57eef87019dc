import Mathlib
import WutherCore.Data.AssocMap
import WutherCore.Engine.Selector

/-!
# The state of a runtime

* `Store`: the two tables of the store that hold pins, and `writeBatch`, one transaction;
* `RuntimePlan`, `NodeTable`: the configuration, and the outbounds and nodes that are registered;
* `Runtime`, and `Runtime.build`, which restores the pins of the store.

`κ` is what a node has besides the fields that are read here, and `ω` is an outbound.
-/

namespace WutherCore.Engine

open WutherCore.Text WutherCore.Data

/-! ### The store -/

/-- The row of a pin. -/
structure GroupPinBlob where
  node : Str
  strategy : Str
  generation : UInt64
  createdAtMs : UInt64
  source : Str
  deriving DecidableEq

/-- The tables `group_pin` and `group_manual`, by group. -/
structure Store where
  groupPin : AssocMap Str GroupPinBlob
  groupManual : AssocMap Str Str

/-- The tables. -/
inductive Table
  | groupPin
  | groupManual

/-- The writes of a batch. -/
inductive BatchOp
  | putGroupPin (group : Str) (blob : GroupPinBlob)
  | delete (table : Table) (group : Str)

namespace Store

/-- One write. -/
def apply (s : Store) : BatchOp → Store
  | .putGroupPin group blob => { s with groupPin := s.groupPin.insert group blob }
  | .delete .groupPin group => { s with groupPin := s.groupPin.erase group }
  | .delete .groupManual group => { s with groupManual := s.groupManual.erase group }

/-- `write_batch`: the batch is one transaction, and `commits` says whether it goes through. -/
def writeBatch (s : Store) (commits : Bool) (ops : List BatchOp) : Option Store :=
  if commits then some (ops.foldl apply s) else none

end Store

/-- A batch of writes to the store, if there is one; `none` is an error. -/
def commitBatch (store : Option Store) (commits : Bool) (ops : List BatchOp) :
    Option (Option Store) :=
  match store with
  | none => some none
  | some s => (s.writeBatch commits ops).map some

theorem commitBatch_cases (store : Option Store) (commits : Bool) (ops : List BatchOp) :
    commitBatch store commits ops = none ∨
      commitBatch store commits ops = some (store.map fun s => ops.foldl Store.apply s) := by
  cases store with
  | none => exact .inr rfl
  | some s =>
    cases commits with
    | true => exact .inr rfl
    | false => exact .inl rfl

/-- The row of a pin of a group with a given strategy. -/
def GroupPin.blob (strategy : ChooseStrategy) (pin : GroupPin) : GroupPinBlob where
  node := pin.node
  strategy := groupStrategyName strategy
  generation := pin.generation
  createdAtMs := pin.createdAtMs
  source := pin.source.asStr

/-! ### Nodes -/

/-- A node of the configuration or of a feed. -/
structure ParsedNode (κ : Type) where
  name : Str
  host : Str
  udp : Bool
  config : κ
  deriving DecidableEq

/-- What is kept about a registered node. -/
structure RuntimeNodeInfo (κ : Type) where
  provider : Option Str
  remoteDestination : Str
  udp : Bool
  node : ParsedNode κ
  deriving DecidableEq

/-- The brackets of an IPv6 literal. -/
def isBracket (c : Char) : Bool := c = '[' || c = ']'

/-- `RuntimeNodeInfo::from_node`. -/
def RuntimeNodeInfo.fromNode {κ : Type} (provider : Option Str) (node : ParsedNode κ) :
    RuntimeNodeInfo κ where
  provider := provider
  remoteDestination := (node.host.dropWhile isBracket).rdropWhile isBracket
  udp := node.udp
  node := node

/-- The part of the configuration that the runtime reads: the names of the feeds in increasing
order, the static nodes, and the groups. -/
structure RuntimePlan (κ : Type) where
  feeds : List Str
  nodes : List (ParsedNode κ)
  groups : AssocMap Str GroupPlan

variable {κ ω : Type}

namespace RuntimePlan

/-- The names of the static nodes. -/
def staticNames (plan : RuntimePlan κ) : List Str := plan.nodes.map ParsedNode.name

/-- The names of the groups. -/
def groupNames (plan : RuntimePlan κ) : List Str := plan.groups.entries.map Prod.fst

/-- `infer_provider_from_name`. -/
def inferProviderFromName (plan : RuntimePlan κ) (name : Str) : Option Str :=
  plan.feeds.find? fun feed =>
    (feed ++ "/".toList).isPrefixOf name || contains name ("[".toList ++ feed ++ "]".toList)

/-- `initial_node_info`. -/
def initialNodeInfo (plan : RuntimePlan κ) : AssocMap Str (RuntimeNodeInfo κ) :=
  AssocMap.empty.insertAll (plan.nodes.map fun node =>
    (node.name, RuntimeNodeInfo.fromNode (plan.inferProviderFromName node.name) node))

end RuntimePlan

/-- The registered outbounds, and the nodes they are for. -/
structure NodeTable (κ ω : Type) where
  outbounds : AssocMap Str ω
  nodeInfo : AssocMap Str (RuntimeNodeInfo κ)

/-! ### The runtime -/

/-- The state of a runtime, as far as feeds and pins use it. -/
structure Runtime (κ ω : Type) where
  plan : RuntimePlan κ
  nodes : NodeTable κ ω
  groups : AssocMap Str GroupSelector
  store : Option Store
  nodeRevision : UInt64

/-- What a row of `group_pin` does to its group. -/
def restoreRow (blob : GroupPinBlob) (g : GroupSelector) : GroupSelector :=
  if blob.node = [] then g
  else g.restorePin
    { node := blob.node
      generation := max blob.generation 1
      createdAtMs := blob.createdAtMs
      source := PinSource.parse blob.source }

/-- What a row of `group_manual` does to its group. -/
def restoreManual (nowMs : UInt64) (picked : Str) (g : GroupSelector) : GroupSelector :=
  if g.pin.isNone && picked ≠ [] then g.setManual picked nowMs else g

/-- The groups of a plan, without pins. -/
def RuntimePlan.freshGroups (plan : RuntimePlan κ) : AssocMap Str GroupSelector :=
  AssocMap.empty.insertAll (plan.groups.sorted.map fun g => (g.1, GroupSelector.new g.2))

/-- `build_with`, once the static nodes are registered: `nowMs` is the clock when a group is
restored, and `reads` says which of the two tables can be read. -/
def Runtime.build (plan : RuntimePlan κ) (outbounds : AssocMap Str ω) (store : Option Store)
    (reads : Table → Bool) (nowMs : Str → UInt64) : Runtime κ ω :=
  let restored := match store with
    | none => plan.freshGroups
    | some s =>
      let pinned := if reads .groupPin then
          plan.freshGroups.modifyAll (fun _ => restoreRow) s.groupPin.sorted
        else plan.freshGroups
      if reads .groupManual then
        pinned.modifyAll (fun group => restoreManual (nowMs group)) s.groupManual.sorted
      else pinned
  { plan
    nodes := { outbounds, nodeInfo := plan.initialNodeInfo }
    groups := restored
    store
    nodeRevision := 0 }

theorem RuntimePlan.get?_freshGroups {plan : RuntimePlan κ} {group : Str} {s : GroupSelector}
    (h : plan.freshGroups.get? group = some s) : ∃ base, s = GroupSelector.new base := by
  rcases AssocMap.mem_of_get?_insertAll _ _ h with h | h
  · cases h
  · obtain ⟨g, -, hg⟩ := List.mem_map.1 h
    exact ⟨g.2, (Prod.mk.inj hg).2.symm⟩

theorem RuntimePlan.exists_get?_freshGroups (plan : RuntimePlan κ) {group : Str}
    (h : group ∈ plan.groupNames) : ∃ s, plan.freshGroups.get? group = some s := by
  have hperm : plan.groups.sorted.Perm plan.groups.entries := List.perm_insertionSort _ _
  have hkeys : (plan.groups.sorted.map fun g => (g.1, GroupSelector.new g.2)).map Prod.fst =
      plan.groups.sorted.map Prod.fst := by
    rw [List.map_map]
    rfl
  obtain ⟨g, hg, rfl⟩ := List.mem_map.1 h
  refine ⟨GroupSelector.new g.2, AssocMap.get?_insertAll_of_mem _ _ ?_ ?_⟩
  · rw [hkeys]
    exact (hperm.map Prod.fst).nodup_iff.2 plan.groups.nodup
  · exact List.mem_map.2 ⟨g, hperm.mem_iff.2 hg, rfl⟩

/-- The row of `group_pin` that a start sees for a group. -/
def readRow (store : Option Store) (reads : Table → Bool) (group : Str) : Option GroupPinBlob :=
  if reads .groupPin then store.bind fun s => s.groupPin.get? group else none

/-- The row of `group_manual` that a start sees for a group. -/
def readManual (store : Option Store) (reads : Table → Bool) (group : Str) : Option Str :=
  if reads .groupManual then store.bind fun s => s.groupManual.get? group else none

theorem Runtime.get?_build (plan : RuntimePlan κ) (outbounds : AssocMap Str ω)
    (store : Option Store) (reads : Table → Bool) (nowMs : Str → UInt64) (group : Str) :
    (Runtime.build plan outbounds store reads nowMs).groups.get? group =
      (plan.freshGroups.get? group).map fun s =>
        (readManual store reads group).elim id (restoreManual (nowMs group))
          ((readRow store reads group).elim id restoreRow s) := by
  unfold Runtime.build readManual readRow
  cases store with
  | none => simp
  | some s =>
    cases hp : reads .groupPin <;> cases hm : reads .groupManual <;>
      simp [AssocMap.get?_modifyAll_sorted, Function.comp_def]

end WutherCore.Engine
