import Mathlib
import WutherCore.Engine.Feeds
import WutherCore.Health.UrlTest
import WutherCore.Net.Addr

/-!
# Selection in a group

`Group.pickEligibleWithProtocol` selects a member of a group for a flow.  The candidates are the members that pass
the filters of the group and the predicate of the caller, as many as the group may have; the pinned one is taken
if it is among them and alive, and otherwise the strategy of the group selects one.

* `UrlTester`: what is known about the nodes, and the last selection of each `url-test` group;
* `Group`: a `GroupSelector` with the rest of its plan, its options and the state of its strategies;
* `Outside`: the hash functions, the random numbers, the clock and the scores of Smart nodes, which are parameters.
-/

namespace WutherCore.Engine

open WutherCore.Text WutherCore.Data WutherCore.Health WutherCore.Net

/-! ### Flows -/

/-- `NetworkKind`. -/
inductive NetworkKind
  | tcp
  | udp
  deriving DecidableEq

/-- `FlowMeta`. -/
structure FlowMeta where
  host : Str
  dstIp : Option IpAddr := none
  srcIp : Option IpAddr := none
  port : UInt16
  network : NetworkKind

/-- The scores of `SmartSelector` for a flow, when it ranks the members of a group. -/
structure SmartView where
  cold : Str → Bool
  /-- The total of the first is more than that of the second. -/
  better : Str → Str → Bool
  /-- The current node is neither degraded nor cooling down, and nearly as good as the best one. -/
  keeps : Str → Str → Bool
  cacheHit : Bool
  contextHash : Nat

/-- What a selection takes from outside: the hashes of the keys of the flow, `jump_hash`, random numbers, the scores
of Smart nodes, and the two clocks in nanoseconds. -/
structure Outside where
  lbKey : FlowMeta → UInt64
  lbKeySticky : FlowMeta → UInt64
  jumpHash : UInt64 → Nat → Nat
  jumpHash_lt : ∀ k n, 0 < n → jumpHash k n < n
  randomRange : Nat → Nat
  randomRange_lt : ∀ n, 0 < n → randomRange n < n
  /-- A sample of a `WeightedIndex`, or an error for these weights. -/
  weightedIndex : List UInt32 → Option Nat
  weightedIndex_lt : ∀ weights i, weightedIndex weights = some i → i < weights.length
  smart : FlowMeta → Option Str → SmartView
  now : Nat
  nowNanos : UInt64

/-! ### Health -/

/-- `last_delay`. -/
def NodeUrlStats.lastDelay (stats : NodeUrlStats) : UInt32 := if stats.alive then stats.lastDelayMs else deadDelay

/-- `FAST_PICK_TTL`. -/
def fastPickTtl : Nat := 10 * 1000000000

/-- `FastPickResult`. -/
structure FastPickResult where
  node : Str
  delay : UInt32

/-- `UrlTester`: the statistics by node and URL, the revisions of the active schedules and the last fast selections by
group. -/
structure UrlTester where
  defaultUrl : Str
  stats : Str → Str → Option NodeUrlStats
  schedules : AssocMap Str UInt64
  fastPick : AssocMap Str (Nat × FastPickResult)

namespace UrlTester

variable (t : UrlTester)

/-- `last_delay_for_url`. -/
def lastDelayForUrl (node url : Str) : UInt32 := ((t.stats node url).map NodeUrlStats.lastDelay).getD deadDelay

/-- `alive_for_url`. -/
def aliveForUrl (node url : Str) : Bool := ((t.stats node url).map (·.alive)).getD true

/-- `ensure_stats`. -/
def ensureStats (node url : Str) : UrlTester :=
  { t with stats := fun n u => if n = node ∧ u = url then some ((t.stats n u).getD {}) else t.stats n u }

/-- `activate_group`: a new revision of a group makes a new schedule. -/
def activateGroup (group : Str) (revision : UInt64) (members : List Str) (url : Str) : UrlTester :=
  if t.schedules.get? group = some revision then t
  else
    let t := members.foldl (fun t member => t.ensureStats member url) t
    { t with schedules := t.schedules.insert group revision }

/-- A turn of the scan of `pick_fast`. -/
def fasterOf (url : Str) (best : Option FastPickResult) (m : Str) : Option FastPickResult :=
  let d := t.lastDelayForUrl m url
  if d = deadDelay then best
  else match best with
    | none => some ⟨m, d⟩
    | some b => if d < b.delay then some ⟨m, d⟩ else best

/-- The fastest of the members that have a delay. -/
def fastest (members : List Str) (url : Str) : Option FastPickResult := members.foldl (t.fasterOf url) none

/-- `u32::saturating_add`. -/
def saturatingAdd (a b : UInt32) : UInt32 := .ofNat (min (a.toNat + b.toNat) (2 ^ 32 - 1))

/-- The last fast selection is kept. -/
def Keeps (members : List Str) (url : Str) (tolerance : UInt32) (prev best : FastPickResult) : Prop :=
  prev.node ∈ members ∧ t.aliveForUrl prev.node url = true ∧ prev.delay ≤ saturatingAdd best.delay tolerance

instance (members : List Str) (url : Str) (tolerance : UInt32) (prev best : FastPickResult) :
    Decidable (t.Keeps members url tolerance prev best) :=
  inferInstanceAs (Decidable (_ ∧ _ ∧ _))

/-- `pick_fast`. -/
def pickFast (now : Nat) (group : Str) (members : List Str) (url : Str) (tolerance : UInt32) : Option Str × UrlTester :=
  let last := t.fastPick.get? group
  match last.filter fun e => now - e.1 < fastPickTtl && e.2.node ∈ members with
  | some e => (some e.2.node, t)
  | none =>
      match last.map Prod.snd, t.fastest members url with
      | some prev, some best =>
          let final := if t.Keeps members url tolerance prev best then prev else best
          (some final.node, { t with fastPick := t.fastPick.insert group (now, final) })
      | none, some best => (some best.node, { t with fastPick := t.fastPick.insert group (now, best) })
      -- all are dead: the last one is kept
      | some prev, none => (some prev.node, t)
      | none, none => (none, t)

end UrlTester

/-- A node is alive, as far as is known. -/
def isAlive (tester : Option UrlTester) (url node : Str) : Bool := (tester.map fun t => t.aliveForUrl node url).getD true

/-! ### Sticky sessions -/

/-- The capacity of a `StickyLru`. -/
def stickyCapacity : Nat := 1024

/-- `StickyLru`: by key, the index of a member and the time of the last use; the last one that was used comes first. -/
structure StickyLru where
  ttl : Nat := 600 * 1000000000
  map : List (UInt64 × Nat × Nat) := []

namespace StickyLru

variable (s : StickyLru)

/-- `LruCache::pop`. -/
def pop (k : UInt64) : StickyLru := { s with map := s.map.filter fun e => e.1 ≠ k }

/-- `put`. -/
def put (now : Nat) (k : UInt64) (idx : Nat) : StickyLru :=
  { s with map := ((k, idx, now) :: (s.pop k).map).take stickyCapacity }

/-- `get`. -/
def get (now : Nat) (k : UInt64) : Option Nat × StickyLru :=
  match s.map.find? fun e => e.1 = k with
  | none => (none, s)
  | some (_, idx, since) => if now - since < s.ttl then (some idx, s.put now k idx) else (none, s.pop k)

end StickyLru

/-! ### Groups -/

/-- `LbStrategy`. -/
inductive LbStrategy
  | consistentHashing
  | roundRobin
  | stickySessions
  deriving DecidableEq

/-- `GroupOptions`, with the regular expressions compiled and the revision that `set_options` computes. -/
structure GroupOptions where
  url : Option Str := none
  lbStrategy : LbStrategy := .consistentHashing
  tolerance : UInt32 := 50
  filterRegs : List (Str → Bool) := []
  excludeFilterRegs : List (Str → Bool) := []
  excludeTypeSet : List Str := []
  disableUdp : Bool := false
  healthRevision : UInt64 := 0

/-- The other fields of `GroupPlan`, with the globs of the weights compiled. -/
structure PlanDetail where
  name : Str
  minMembers : Nat := 0
  maxMembers : Nat := 0
  defaultSelected : Str := []
  emptyFallback : Str := "BLOCK".toList
  weights : List ((Str → Bool) × UInt32) := []
  prefer : List Str := []
  avoid : List Str := []
  path : List Str := []
  disableUdp : Bool := false

/-- `LbState`. -/
structure LbState where
  rr : UInt64 := 0
  sticky : StickyLru := {}

/-- A `GroupSelector`, with everything that a selection reads. -/
structure Group extends GroupSelector where
  detail : PlanDetail
  opts : GroupOptions := {}
  lb : LbState := {}

/-- What a selection returns, and what it leaves. -/
structure Picked where
  node : Option Str
  group : Group
  tester : Option UrlTester

/-- `is_feed_placeholder`. -/
def isFeedPlaceholder (name : Str) : Bool := (stripPrefix "feed:".toList name).any fun rest => trim rest ≠ []

/-- `Vec::truncate` to `max_members`, where there is such a limit. -/
def limitMembers (maxMembers : Nat) (members : List Str) : List Str :=
  if maxMembers > 0 ∧ members.length > maxMembers then members.take maxMembers else members

namespace SmartView

variable (view : SmartView)

/-- The members that are not avoided, or all if there is none. -/
def candidates (avoid members : List Str) : List Str :=
  let wanted := members.filter fun name => !avoid.any (contains name)
  if wanted = [] then members else wanted

/-- While all candidates are cold, the one for the hash of the context. -/
def coldPick (current : Option Str) (candidates : List Str) : Option Str :=
  let cold := candidates.filter view.cold
  if cold.length = candidates.length ∧ current = none ∧ view.cacheHit = false then
    cold[if cold = [] then 0 else view.contextHash % cold.length]?
  else none

/-- A turn of the scan for the best candidate. -/
def betterOf (best : Option Str) (name : Str) : Option Str :=
  match best with
  | none => some name
  | some b => if view.better name b then some name else best

/-- The best candidate, or the current one if that is nearly as good. -/
def scored (current : Option Str) (candidates : List Str) (first : Str) : Str :=
  let best := (candidates.foldl view.betterOf none).getD first
  match current.filter (· ∈ candidates) with
  | some now => if view.keeps now best then now else best
  | none => best

/-- `SmartSelector::rank`, without the explanations. -/
def chooseNode (avoid : List Str) (current : Option Str) (members : List Str) : Str :=
  match members with
  | [] => []
  | first :: _ =>
      let candidates := candidates avoid members
      let selected := (view.coldPick current candidates).getD (view.scored current candidates first)
      if selected = [] then first else selected

end SmartView

namespace Group

variable (g : Group)

/-- `filtered_members`. -/
def filteredMembers (protocolOf : Str → Str) : List Str :=
  g.plan.members.filter fun n =>
    !(!g.opts.excludeTypeSet.isEmpty && g.opts.excludeTypeSet.contains (toAsciiLowercase (protocolOf n))) &&
      !(!g.opts.filterRegs.isEmpty && !g.opts.filterRegs.any (· n)) &&
      !(!g.opts.excludeFilterRegs.isEmpty && g.opts.excludeFilterRegs.any (· n))

/-- `is_preferred`. -/
def isPreferred (node : Str) : Bool := g.detail.prefer.any fun pattern => pattern ≠ [] && contains node pattern

/-- `is_avoided`. -/
def isAvoided (node : Str) : Bool := g.detail.avoid.any fun pattern => pattern ≠ [] && contains node pattern

/-- `non_avoided_members`. -/
def nonAvoidedMembers (members : List Str) (url : Str) (tester : Option UrlTester) : List Str :=
  if g.detail.avoid = [] then members
  else
    let primary := members.filter fun m => !g.isAvoided m && isAlive tester url m
    if primary = [] then members else primary

/-- `pick_pin`. -/
def pickPin (members : List Str) (url : Str) (tester : Option UrlTester) : Option Str :=
  g.pin.bind fun pin =>
    if pin.node ∉ members then none
    else if g.plan.choose = .manual ∨ isAlive tester url pin.node = true then some pin.node
    else none

/-- `pick_manual`. -/
def pickManual (members : List Str) : Option Str :=
  (members.find? (· = g.detail.defaultSelected)).or members.head?

/-- The members that `pick_random` and `pick_weighted` select from. -/
def available (members : List Str) (url : Str) (tester : Option UrlTester) : List Str :=
  (g.nonAvoidedMembers members url tester).filter (isAlive tester url)

/-- `pick_random`. -/
def pickRandom (o : Outside) (members : List Str) (url : Str) (tester : Option UrlTester) : Option Str :=
  let available := g.available members url tester
  if available = [] then members.head? else available[o.randomRange available.length]?

/-- `weight_for`. -/
def weightFor (member : Str) : UInt32 :=
  ((g.detail.weights.filter fun w => w.1 member).map Prod.snd).max?.getD 1

/-- `pick_weighted`. -/
def pickWeighted (o : Outside) (members : List Str) (url : Str) (tester : Option UrlTester) : Option Str :=
  let available := g.available members url tester
  if available = [] then members.head?
  else available[(o.weightedIndex (available.map g.weightFor)).getD 0]?

/-- The candidates of `pick_url_test`: the preferred members, if one of them is fast enough. -/
def urlTestCandidates (t : UrlTester) (members : List Str) (url : Str) : List Str :=
  let primary := g.nonAvoidedMembers members url (some t)
  if g.detail.prefer = [] then primary
  else
    let delays (nodes : List Str) : List UInt32 := (nodes.map (t.lastDelayForUrl · url)).filter (· ≠ deadDelay)
    let preferred := primary.filter g.isPreferred
    match (delays primary).min?, (delays preferred).min? with
    | some fastest, some preferredFastest =>
        if preferredFastest ≤ UrlTester.saturatingAdd fastest g.opts.tolerance then preferred else primary
    | _, _ => primary

/-- `pick_url_test`. -/
def pickUrlTest (o : Outside) (members : List Str) (url : Str) : Option UrlTester → Option Str × Option UrlTester
  | none => (members.head?, none)
  | some t =>
      let (pick, t') := t.pickFast o.now g.detail.name (g.urlTestCandidates t members url) url g.opts.tolerance
      (pick.or members.head?, some t')

/-- The tiers of `pick_fallback`. -/
def inTier (tier : Nat) (member : Str) : Bool :=
  match tier with
  | 0 => g.isPreferred member && !g.isAvoided member
  | 1 => !g.isPreferred member && !g.isAvoided member
  | _ => g.isAvoided member

/-- `pick_fallback`. -/
def pickFallback (members : List Str) (url : Str) (tester : Option UrlTester) : Option Str :=
  ((List.range 3).findSome? fun tier => members.find? fun m => g.inTier tier m && isAlive tester url m).or members.head?

/-- Some tries of `jump_hash`, from a key on: the index and the member that is alive. -/
def tryHashes (o : Outside) (members : List Str) (url : Str) (tester : Option UrlTester) :
    (tries : Nat) → (k : UInt64) → Option (Nat × Str)
  | 0, _ => none
  | tries + 1, k =>
      let idx := o.jumpHash k members.length
      match members[idx]?.filter (isAlive tester url) with
      | some m => some (idx, m)
      | none => tryHashes o members url tester tries (k + 1)

/-- `lb_consistent_hashing`. -/
def lbConsistentHashing (o : Outside) (flow : FlowMeta) (members : List Str) (url : Str) (tester : Option UrlTester) :
    Option Str :=
  if members = [] then none
  else (((tryHashes o members url tester 5 (o.lbKey flow)).map Prod.snd).or (members.find? (isAlive tester url))).or
    members.head?

/-- `lb_round_robin`. -/
def lbRoundRobin (members : List Str) (url : Str) (tester : Option UrlTester) : Option Str × UInt64 :=
  let n := members.length
  if n = 0 then (none, g.lb.rr)
  else
    let start := g.lb.rr.toNat % n
    (((List.range n).findSome? fun off => members[(start + off) % n]?.filter (isAlive tester url)).or members.head?,
      g.lb.rr + 1)

/-- `lb_sticky`. -/
def lbSticky (o : Outside) (flow : FlowMeta) (members : List Str) (url : Str) (tester : Option UrlTester) :
    Option Str × StickyLru :=
  let key := o.lbKeySticky flow
  if members = [] then (none, g.lb.sticky)
  else
    let (idx, sticky) := g.lb.sticky.get o.now key
    match (idx.bind fun idx => members[idx]?).filter (isAlive tester url) with
    | some m => (some m, sticky)
    | none =>
        match tryHashes o members url tester 5 (key + o.nowNanos) with
        | some (idx, m) => (some m, sticky.put o.now key idx)
        | none => (members.head?, sticky.put o.now key 0)

/-- `pick_load_balance`. -/
def pickLoadBalance (o : Outside) (flow : FlowMeta) (members : List Str) (url : Str) (tester : Option UrlTester) :
    Option Str × LbState :=
  let candidates := g.nonAvoidedMembers members url tester
  match g.opts.lbStrategy with
  | .consistentHashing => (lbConsistentHashing o flow candidates url tester, g.lb)
  | .roundRobin =>
      let (pick, rr) := g.lbRoundRobin candidates url tester
      (pick, { g.lb with rr })
  | .stickySessions =>
      let (pick, sticky) := g.lbSticky o flow candidates url tester
      (pick, { g.lb with sticky })

/-- `pick_smart`. -/
def pickSmart (o : Outside) (flow : FlowMeta) (members : List Str) : Str :=
  (o.smart flow g.lastPick).chooseNode g.detail.avoid g.lastPick members

/-- `pick_chain`. -/
def pickChain (members : List Str) : Option Str := g.detail.path.head?.or members.head?

/-- The selection of the strategy. -/
def pickByStrategy (o : Outside) (flow : FlowMeta) (members : List Str) (url : Str) (tester : Option UrlTester) :
    Picked :=
  match g.plan.choose with
  | .manual => ⟨g.pickManual members, g, tester⟩
  | .smart => ⟨some (g.pickSmart o flow members), g, tester⟩
  | .fast =>
      let (pick, tester) := g.pickUrlTest o members url tester
      ⟨pick, g, tester⟩
  | .stable => ⟨g.pickFallback members url tester, g, tester⟩
  | .spread =>
      let (pick, lb) := g.pickLoadBalance o flow members url tester
      ⟨pick, { g with lb }, tester⟩
  | .random => ⟨g.pickRandom o members url tester, g, tester⟩
  | .weighted => ⟨g.pickWeighted o members url tester, g, tester⟩
  | .chain => ⟨g.pickChain members, g, tester⟩

/-- The members that pass the filters and the predicate, as many as the group may have. -/
def eligibleMembers (eligible : Str → Bool) (protocolOf : Str → Str) : List Str :=
  limitMembers g.detail.maxMembers
    (((g.filteredMembers protocolOf).filter fun m => !isFeedPlaceholder m).filter eligible)

/-- The candidates of a selection, if there are enough of them. -/
def candidates (flow : FlowMeta) (eligible : Str → Bool) (protocolOf : Str → Str) : Option (List Str) :=
  if flow.network = .udp ∧ g.opts.disableUdp = true then none
  else
    let members := g.eligibleMembers eligible protocolOf
    if members.length < max g.detail.minMembers 1 then none else some members

/-- The URL that the nodes of the group are tested with. -/
def testUrl (tester : Option UrlTester) : Str := g.opts.url.getD ((tester.map (·.defaultUrl)).getD [])

/-- The tester, once it knows the group. -/
def activate (members : List Str) (tester : Option UrlTester) : Option UrlTester :=
  if g.plan.choose = .manual then tester
  else tester.map fun t => t.activateGroup g.detail.name g.opts.healthRevision members (g.testUrl (some t))

/-- `pick_eligible_with_protocol`. -/
def pickEligibleWithProtocol (o : Outside) (flow : FlowMeta) (tester : Option UrlTester) (eligible : Str → Bool)
    (protocolOf : Str → Str) : Picked :=
  match g.candidates flow eligible protocolOf with
  | none => ⟨none, g, tester⟩
  | some members =>
      let url := g.testUrl tester
      let tester := g.activate members tester
      let picked : Picked := match g.pickPin members url tester with
        | some node => ⟨some node, g, tester⟩
        | none => g.pickByStrategy o flow members url tester
      { picked with group := { picked.group with lastPick := picked.node.or picked.group.lastPick } }

end Group

end WutherCore.Engine
