import Mathlib
import WutherCore.Data.Moves
import WutherCore.Data.Pool
import WutherCore.Text.Str

/-!
# The statistics of Smart nodes

`SmartSelector` keeps one `NodeStats` for each node name, created by `ensure_node` on first use and
shared by reference with the observers of open flows.  Calls run concurrently: a step of the system
is one access to the map, to a counter or under the lock of a `NodeStats`, by one of the calls.

`ensure_node` looks the name up and inserts a new object when there is none, in two accesses.  If
another call inserts in between, the second insertion replaces the first object and all that was
counted there is lost (`overwritten_flow`).  When no insertion meets an object, nothing is lost:
`reach_counted`.
-/

namespace WutherCore.Smart

open WutherCore.Data WutherCore.Text

/-- `u32::MAX`. -/
abbrev maxU32 : Nat := 2 ^ 32 - 1

/-- The counters of `NodeStats`: `samples` is behind a lock, and `writer` is the call that holds it
for writing. -/
structure NodeStats where
  samples : Nat := 0
  sampleCount : Nat := 0
  activeConn : Nat := 0
  writer : Option Nat := none
  deriving DecidableEq

namespace NodeStats

/-- The part of `record_success_inner` and `record_failure_inner` up to the `store`. -/
def record (task : Nat) (stats : NodeStats) : NodeStats :=
  { stats with samples := min (stats.samples + 1) maxU32, writer := some task }

/-- The `store` of the new count, and the end of the lock. -/
def publish (stats : NodeStats) : NodeStats :=
  { stats with sampleCount := stats.samples, writer := none }

/-- `open_connection`. -/
def openConnection (stats : NodeStats) : NodeStats :=
  { stats with activeConn := (stats.activeConn + 1) % 2 ^ 32 }

/-- `close_connection`. -/
def closeConnection (stats : NodeStats) : NodeStats :=
  { stats with activeConn := stats.activeConn - 1 }

end NodeStats

/-- `NodeFlowObserver`, with the name that the flow was opened for. -/
structure FlowObserver where
  node : Str
  stats : Nat
  closed : Bool
  deriving DecidableEq

/-- The calls. -/
inductive Request
  | openFlow (node : Str)
  | recordSuccess (node : Str)
  | recordFailure (node : Str)
  | ensureNode (node : Str)
  | chooseNode (members avoid : List Str)
  | onClose (flow : Nat)
  deriving DecidableEq

/-- What a call does with the object that `ensure_node` gives it. -/
inductive Use
  | observe
  | sample
  | visit (rest : List Str)
  deriving DecidableEq

/-- What a call does next. -/
inductive Phase
  | look (node : Str) (use : Use)
  | insert (node : Str) (use : Use)
  | holding (node : Str) (stats : Nat) (use : Use)
  | publish (stats : Nat)
  | swap (flow : Nat)
  | release (node : Str) (stats : Nat)
  | done
  deriving DecidableEq

/-- A call with its phase. -/
structure Call where
  request : Request
  phase : Phase
  deriving DecidableEq

/-- The members that `rank` looks at: those not avoided, or all if every one is. -/
def candidates (members avoid : List Str) : List Str :=
  let candidate := members.filter fun name => !avoid.any fun part => decide (part <:+: name)
  if candidate.isEmpty then members else candidate

/-- `ensure_node` for one name after another. -/
def visitAll : List Str → Phase
  | [] => .done
  | node :: rest => .look node (.visit rest)

/-- How a call begins.  `rank` goes over its candidates twice. -/
def Request.start : Request → Phase
  | openFlow node => .look node .observe
  | recordSuccess node => .look node .sample
  | recordFailure node => .look node .sample
  | ensureNode node => .look node (.visit [])
  | chooseNode members avoid => visitAll (candidates members avoid ++ candidates members avoid)
  | onClose flow => .swap flow

/-- The selector with its objects and calls: `nodes` is the map from names to objects. -/
structure State where
  nodes : Str → Option Nat
  heap : List NodeStats
  observers : List FlowObserver
  calls : List Call

/-- `SmartSelector::new`. -/
def State.new : State := ⟨fun _ => none, [], [], []⟩

namespace State

/-- The call goes on with another phase. -/
def goto (s : State) (task : Nat) (c : Call) (phase : Phase) : State :=
  { s with calls := s.calls.set task { c with phase := phase } }

/-- One object changes. -/
def update (s : State) (stats : Nat) (f : NodeStats → NodeStats) : State :=
  { s with heap := s.heap.modify stats f }

/-- One access by a call. -/
def advance (s : State) (task : Nat) (c : Call) : Option State :=
  match c.phase with
  | .look node use =>
      match s.nodes node with
      | some stats => some (s.goto task c (.holding node stats use))
      | none => some (s.goto task c (.insert node use))
  | .insert node use =>
      some { s.goto task c (.holding node s.heap.length use) with
        nodes := Function.update s.nodes node (some s.heap.length)
        heap := s.heap ++ [{}] }
  | .holding node stats .observe =>
      some { (s.update stats .openConnection).goto task c .done with
        observers := s.observers ++ [⟨node, stats, false⟩] }
  | .holding _ stats .sample =>
      s.heap[stats]?.bind fun counters =>
        if counters.writer = none then
          some ((s.update stats (.record task)).goto task c (.publish stats))
        else none
  | .holding _ _ (.visit rest) => some (s.goto task c (visitAll rest))
  | .publish stats => some ((s.update stats .publish).goto task c .done)
  | .swap flow =>
      s.observers[flow]?.bind fun o =>
        if o.closed then some (s.goto task c .done)
        else some { s.goto task c (.release o.node o.stats) with
          observers := s.observers.set flow { o with closed := true } }
  | .release _ stats => some ((s.update stats .closeConnection).goto task c .done)
  | .done => none

end State

/-- A call begins, or a call makes an access. -/
inductive Move
  | call (request : Request)
  | turn (task : Nat)
  deriving DecidableEq

/-- Only a flow that was opened is closed. -/
def Request.Possible (s : State) : Request → Prop
  | onClose flow => flow < s.observers.length
  | _ => True

instance (s : State) (r : Request) : Decidable (r.Possible s) := by
  cases r <;> unfold Request.Possible <;> infer_instance

/-- A step of the system. -/
def step (s : State) : Move → Option State
  | .call request =>
      if request.Possible s then some { s with calls := s.calls ++ [⟨request, request.start⟩] }
      else none
  | .turn task => s.calls[task]?.bind (s.advance task)

/-! ### What is counted -/

/-- `record_success` or `record_failure` for a node. -/
def Request.records (node : Str) : Request → Bool
  | recordSuccess n => n == node
  | recordFailure n => n == node
  | _ => false

/-- No call is in progress. -/
def State.Quiet (s : State) : Prop := ∀ c ∈ s.calls, c.phase = .done

/-- The number of `record_*` calls made for a node. -/
def State.records (s : State) (node : Str) : Nat := s.calls.countP fun c => c.request.records node

/-- The number of flows of a node that were opened and are not closed. -/
def State.openFlows (s : State) (node : Str) : Nat :=
  s.observers.countP fun o => o.node == node && !o.closed

/-- The object under each name counts its open flows and, on top of the samples at the start, its
`record_*` calls. -/
def Counted (restored : Str → Nat) (s : State) : Prop :=
  ∀ node, match s.nodes node with
    | none => s.openFlows node = 0 ∧ s.records node = 0
    | some stats => ∃ counters, s.heap[stats]? = some counters ∧
        counters.activeConn = s.openFlows node ∧
        counters.sampleCount = min (restored node + s.records node) maxU32 ∧
        counters.samples = counters.sampleCount

/-- A selector before its first call: objects from the store have their samples and no flow. -/
structure Initial (restored : Str → Nat) (s : State) : Prop where
  noObserver : s.observers = []
  noCall : s.calls = []
  injective : ∀ {m n stats}, s.nodes m = some stats → s.nodes n = some stats → m = n
  loaded : ∀ {node stats}, s.nodes node = some stats → s.heap[stats]? =
    some { samples := min (restored node) maxU32, sampleCount := min (restored node) maxU32 }
  absent : ∀ {node}, s.nodes node = none → restored node = 0

/-- An insertion does not meet an object, and the counter of open flows has room. -/
def Phase.Safe (s : State) : Phase → Prop
  | .insert node _ => s.nodes node = none
  | .holding _ stats .observe => ∀ counters ∈ s.heap[stats]?, counters.activeConn + 1 < 2 ^ 32
  | _ => True

instance (s : State) : ∀ phase : Phase, Decidable (phase.Safe s)
  | .insert node _ => inferInstanceAs (Decidable (s.nodes node = none))
  | .holding _ stats .observe =>
      inferInstanceAs (Decidable (∀ counters ∈ s.heap[stats]?, counters.activeConn + 1 < 2 ^ 32))
  | .holding _ _ .sample => isTrue trivial
  | .holding _ _ (.visit _) => isTrue trivial
  | .look _ _ => isTrue trivial
  | .publish _ => isTrue trivial
  | .swap _ => isTrue trivial
  | .release _ _ => isTrue trivial
  | .done => isTrue trivial

/-- The access that comes is safe. -/
def NothingLost (s : State) : Move → Prop
  | .turn task => ∀ c ∈ s.calls[task]?, c.phase.Safe s
  | .call _ => True

instance (s : State) : ∀ m : Move, Decidable (NothingLost s m)
  | .turn task => inferInstanceAs (Decidable (∀ c ∈ s.calls[task]?, c.phase.Safe s))
  | .call _ => isTrue trivial

instance (s : State) : Decidable s.Quiet :=
  inferInstanceAs (Decidable (∀ c ∈ s.calls, c.phase = .done))

/-! ### The invariant -/

/-- The call has made its change to `samples`. -/
def Call.sampled (node : Str) (c : Call) : Bool :=
  c.request.records node && match c.phase with | .publish _ => true | .done => true | _ => false

/-- The call has marked a flow as closed and not counted it yet. -/
def Call.closing (node : Str) (c : Call) : Bool :=
  match c.phase with | .release n _ => n == node | _ => false

/-- What the call came for. -/
def Use.Fits (node : Str) (request : Request) : Use → Prop
  | sample => request.records node = true
  | _ => ∀ n, request.records n = false

/-- The phase of a call fits its request, and the objects it holds are those of the map. -/
def Call.Fits (nodes : Str → Option Nat) (c : Call) : Prop :=
  match c.phase with
  | .look node use => use.Fits node c.request
  | .insert node use => use.Fits node c.request
  | .holding node stats use => use.Fits node c.request ∧ nodes node = some stats
  | .publish stats => ∃ node, c.request.records node = true ∧ nodes node = some stats
  | .swap _ => ∀ n, c.request.records n = false
  | .release node stats => (∀ n, c.request.records n = false) ∧ nodes node = some stats
  | .done => ∀ n, c.request.records n = true → ∃ stats, nodes n = some stats

/-- The counters of the object of a node, in the middle of a run, with the samples at the start and
the flows that are open. -/
structure Tally (restored openFlows : Nat) (calls : List Call) (node : Str) (stats : Nat)
    (counters : NodeStats) : Prop where
  active : counters.activeConn = openFlows + calls.countP (Call.closing node)
  samples : counters.samples = min (restored + calls.countP (Call.sampled node)) maxU32
  published : counters.writer = none → counters.sampleCount = counters.samples
  locked : ∀ i ∈ counters.writer, ∃ c, calls[i]? = some c ∧ c.phase = .publish stats

/-- The counters of the object of a node in a state. -/
abbrev State.Tallied (restored : Str → Nat) (s : State) (node : Str) (stats : Nat)
    (counters : NodeStats) : Prop :=
  Tally (restored node) (s.openFlows node) s.calls node stats counters

/-- The invariant of runs in which nothing is lost. -/
structure Inv (restored : Str → Nat) (s : State) : Prop where
  injective : ∀ {m n stats}, s.nodes m = some stats → s.nodes n = some stats → m = n
  observers : ∀ o ∈ s.observers, s.nodes o.node = some o.stats
  fits : ∀ c ∈ s.calls, c.Fits s.nodes
  present : ∀ {node stats}, s.nodes node = some stats →
    ∃ counters, s.heap[stats]? = some counters ∧ s.Tallied restored node stats counters
  absent : ∀ {node}, s.nodes node = none → restored node = 0

theorem Request.records_unique {r : Request} {m n : Str} (hm : r.records m = true)
    (hn : r.records n = true) : m = n := by
  cases r with
  | recordSuccess node | recordFailure node =>
    rw [Request.records, beq_iff_eq] at hm hn
    rw [← hm, hn]
  | _ => cases hm

theorem Call.Fits.mono {nodes nodes' : Str → Option Nat} {c : Call} (h : c.Fits nodes)
    (hsub : ∀ {n stats}, nodes n = some stats → nodes' n = some stats) : c.Fits nodes' := by
  rcases c with ⟨request, phase⟩
  cases phase with
  | look node use => exact h
  | insert node use => exact h
  | holding node stats use => exact ⟨h.1, hsub h.2⟩
  | publish stats =>
    obtain ⟨node, hrecords, hnode⟩ := h
    exact ⟨node, hrecords, hsub hnode⟩
  | swap flow => exact h
  | release node stats => exact ⟨h.1, hsub h.2⟩
  | done =>
    intro n hn
    obtain ⟨stats, hstats⟩ := h n hn
    exact ⟨stats, hsub hstats⟩

section Steps

variable {restored : Str → Nat} {s t : State} {task : Nat} {c : Call}

/-- Nothing is counted under a name without an object. -/
theorem Inv.nothing (h : Inv restored s) {node : Str} (hnode : s.nodes node = none) :
    s.openFlows node = 0 ∧ s.calls.countP (Call.closing node) = 0 ∧
      s.calls.countP (Call.sampled node) = 0 := by
  refine ⟨List.countP_eq_zero.2 fun o ho => ?_, List.countP_eq_zero.2 fun c hc => ?_,
    List.countP_eq_zero.2 fun c hc => ?_⟩
  · intro hopen
    rw [Bool.and_eq_true, beq_iff_eq] at hopen
    have := h.observers o ho
    rw [hopen.1, hnode] at this
    cases this
  · have hfits := h.fits c hc
    rcases c with ⟨request, phase⟩
    cases phase with
    | release n stats =>
      intro hn
      have hn' : n = node := by simpa [Call.closing] using hn
      rw [hn'] at hfits
      exact absurd hfits.2 (by rw [hnode]; simp)
    | _ => simp [Call.closing]
  · intro hsampled
    rw [Call.sampled, Bool.and_eq_true] at hsampled
    obtain ⟨hrecords, hphase⟩ := hsampled
    have hfits := h.fits c hc
    rcases c with ⟨request, phase⟩
    cases phase with
    | publish stats =>
      obtain ⟨n, hn, hstats⟩ := hfits
      rw [Request.records_unique hn hrecords, hnode] at hstats
      cases hstats
    | done =>
      obtain ⟨stats, hstats⟩ := hfits node hrecords
      rw [hnode] at hstats
      cases hstats
    | _ => cases hphase

/-- One call goes on, the map stays: what is left to show is about the new phase and the
counters. -/
theorem Inv.change (h : Inv restored s) (hnodes : t.nodes = s.nodes) {phase : Phase}
    (hcalls : t.calls = s.calls.set task { c with phase := phase })
    (hfits : Call.Fits s.nodes { c with phase := phase })
    (hobservers : ∀ o ∈ t.observers, s.nodes o.node = some o.stats)
    (htally : ∀ {node stats counters}, s.nodes node = some stats →
      s.heap[stats]? = some counters → s.Tallied restored node stats counters →
        ∃ counters', t.heap[stats]? = some counters' ∧ t.Tallied restored node stats counters') :
    Inv restored t where
  injective := by
    rw [hnodes]
    exact h.injective
  observers := by
    rw [hnodes]
    exact hobservers
  fits := by
    rw [hnodes, hcalls]
    intro c' hc'
    rcases List.mem_or_eq_of_mem_set hc' with hc' | rfl
    · exact h.fits c' hc'
    · exact hfits
  present := by
    rw [hnodes]
    intro node stats hnode
    obtain ⟨counters, hheap, htally'⟩ := h.present hnode
    exact htally hnode hheap htally'
  absent := by
    rw [hnodes]
    exact h.absent

theorem locked_set {calls : List Call} (htask : calls[task]? = some c) {stats : Nat}
    (hphase : c.phase ≠ .publish stats) (c' : Call) {writer : Option Nat}
    (h : ∀ i ∈ writer, ∃ d, calls[i]? = some d ∧ d.phase = .publish stats) :
    ∀ i ∈ writer, ∃ d, (calls.set task c')[i]? = some d ∧ d.phase = .publish stats := by
  intro i hi
  obtain ⟨d, hd, hpublish⟩ := h i hi
  have hne : task ≠ i := by
    rintro rfl
    rw [htask] at hd
    cases hd
    exact hphase hpublish
  exact ⟨d, by rw [List.getElem?_set_ne hne, hd], hpublish⟩

theorem Tally.set {before openFlows stats : Nat} {node : Str} {calls : List Call}
    {counters : NodeStats} (h : Tally before openFlows calls node stats counters)
    (c' : Call) (htask : calls[task]? = some c) (hpublish : c.phase ≠ .publish stats)
    (hsampled : c'.sampled node = c.sampled node) (hclosing : c'.closing node = c.closing node) :
    Tally before openFlows (calls.set task c') node stats counters where
  active := by rw [h.active, countP_set_of_eq htask hclosing]
  samples := by rw [h.samples, countP_set_of_eq htask hsampled]
  published := h.published
  locked := locked_set htask hpublish c' h.locked

theorem Inv.goto (h : Inv restored s) (htask : s.calls[task]? = some c) {phase : Phase}
    (hfits : Call.Fits s.nodes { c with phase := phase })
    (hpublish : ∀ stats, c.phase ≠ .publish stats)
    (hsampled : ∀ node, Call.sampled node { c with phase := phase } = c.sampled node)
    (hclosing : ∀ node, Call.closing node { c with phase := phase } = c.closing node) :
    Inv restored (s.goto task c phase) := by
  refine h.change rfl rfl hfits h.observers ?_
  intro node stats counters hnode hheap htally
  exact ⟨counters, hheap, htally.set _ htask (hpublish stats) (hsampled node) (hclosing node)⟩

theorem visitAll_fits {request : Request} (h : ∀ n, request.records n = false)
    (nodes : Str → Option Nat) (names : List Str) : Call.Fits nodes ⟨request, visitAll names⟩ := by
  cases names with
  | nil =>
    intro n hn
    rw [h n] at hn
    cases hn
  | cons node rest => exact h

theorem visitAll_uncounted {request : Request} (h : ∀ n, request.records n = false)
    (names : List Str) (node : Str) :
    Call.sampled node ⟨request, visitAll names⟩ = false ∧
      Call.closing node ⟨request, visitAll names⟩ = false := by
  cases names <;> simp [Call.sampled, Call.closing, visitAll, h node]

theorem getElem?_modify_cases {heap : List NodeStats} {stats other : Nat} {counters : NodeStats}
    (f : NodeStats → NodeStats) (h : heap[other]? = some counters) :
    (heap.modify stats f)[other]? = some (if stats = other then f counters else counters) := by
  rw [List.getElem?_modify, h]
  split_ifs <;> rfl

theorem Inv.node_eq_iff (h : Inv restored s) {m n : Str} {a b : Nat} (hm : s.nodes m = some a)
    (hn : s.nodes n = some b) : a = b ↔ m = n := by
  constructor
  · rintro rfl
    exact h.injective hm hn
  · rintro rfl
    rw [hm] at hn
    exact Option.some.inj hn

theorem Inv.insert (h : Inv restored s) {request : Request} {node : Str} {use : Use}
    (htask : s.calls[task]? = some ⟨request, .insert node use⟩) (hnew : s.nodes node = none)
    (hstep : s.advance task ⟨request, .insert node use⟩ = some t) : Inv restored t := by
  cases hstep
  have hfits : use.Fits node request := h.fits _ (List.mem_of_getElem? htask)
  have hsub {n : Str} {stats : Nat} (hn : s.nodes n = some stats) :
      Function.update s.nodes node (some s.heap.length) n = some stats := by
    rw [Function.update_of_ne, hn]
    rintro rfl
    rw [hnew] at hn
    cases hn
  have hfresh {n : Str} : s.nodes n ≠ some s.heap.length := by
    intro hn
    obtain ⟨counters, hheap, -⟩ := h.present hn
    simp at hheap
  refine ⟨?_, fun o ho => hsub (h.observers o ho), ?_, ?_, ?_⟩
  · intro m n stats hm hn
    simp only [Function.update_apply] at hm hn
    split_ifs at hm hn with hmn hnn hnn
    · rw [hmn, hnn]
    · cases hm
      exact absurd hn hfresh
    · cases hn
      exact absurd hm hfresh
    · exact h.injective hm hn
  · intro c' hc'
    rcases List.mem_or_eq_of_mem_set hc' with hc' | rfl
    · exact (h.fits c' hc').mono hsub
    · exact ⟨hfits, Function.update_self ..⟩
  · intro n stats hn
    simp only [Function.update_apply] at hn
    split_ifs at hn with hnode
    · cases hn
      rw [hnode]
      obtain ⟨hopen, hclosing, hsampled⟩ := h.nothing hnew
      have hempty : Tally (restored node) (s.openFlows node) s.calls node s.heap.length {} := by
        refine ⟨by rw [hopen, hclosing], ?_, fun _ => rfl, fun i hi => by cases hi⟩
        rw [hsampled, h.absent hnew]
        rfl
      exact ⟨{}, by simp, hempty.set _ htask (fun h => by cases h) (by simp [Call.sampled]) rfl⟩
    · obtain ⟨counters, hheap, htally⟩ := h.present hn
      refine ⟨counters, ?_, htally.set _ htask (fun h => by cases h) (by simp [Call.sampled]) rfl⟩
      rw [List.getElem?_append_left (List.getElem?_eq_some_iff.1 hheap).1, hheap]
  · intro n hn
    simp only [Function.update_apply] at hn
    split_ifs at hn
    exact h.absent hn

/-- `open_connection`, and the new observer. -/
theorem Inv.observe (h : Inv restored s) {request : Request} {node : Str} {stats : Nat}
    (htask : s.calls[task]? = some ⟨request, .holding node stats .observe⟩)
    (hroom : ∀ counters ∈ s.heap[stats]?, counters.activeConn + 1 < 2 ^ 32)
    (hstep : s.advance task ⟨request, .holding node stats .observe⟩ = some t) : Inv restored t := by
  have hcalls : t.calls = s.calls.set task ⟨request, .done⟩ := by cases hstep; rfl
  have hobservers : t.observers = s.observers ++ [⟨node, stats, false⟩] := by cases hstep; rfl
  have hheap : t.heap = s.heap.modify stats .openConnection := by cases hstep; rfl
  have hnodes : t.nodes = s.nodes := by cases hstep; rfl
  obtain ⟨hfits, hnode⟩ : (∀ n, request.records n = false) ∧ s.nodes node = some stats :=
    h.fits _ (List.mem_of_getElem? htask)
  refine h.change (c := ⟨request, .holding node stats .observe⟩) hnodes hcalls ?_ ?_ ?_
  · intro n hn
    rw [hfits n] at hn
    cases hn
  · rw [hobservers]
    intro o ho
    rcases List.mem_append.1 ho with ho | ho
    · exact h.observers o ho
    · rw [List.mem_singleton.1 ho]
      exact hnode
  · intro n other counters hn hother htally
    obtain ⟨hactive, hsamples, hpublished, hlocked⟩ := htally.set ⟨request, .done⟩ htask
      (fun h => by cases h) (by simp [Call.sampled, hfits n]) rfl
    have hopen : t.openFlows n = s.openFlows n + if node = n then 1 else 0 := by
      rw [State.openFlows, hobservers, countP_snoc]
      simp [State.openFlows]
    have hiff := h.node_eq_iff hnode hn
    unfold State.Tallied
    rw [hheap, hcalls, hopen]
    refine ⟨_, getElem?_modify_cases .openConnection hother, ?_, ?_, ?_, ?_⟩
    · by_cases hne : node = n
      · -- the flow is counted under its node
        have hlt := hroom counters (by rw [hiff.2 hne, hother]; rfl)
        rw [if_pos (hiff.2 hne), if_pos hne, NodeStats.openConnection, Nat.mod_eq_of_lt hlt]
        simp only
        omega
      · rw [if_neg (fun heq => hne (hiff.1 heq)), if_neg hne, hactive, Nat.add_zero]
    · rw [← hsamples]
      split_ifs <;> rfl
    · split_ifs <;> exact hpublished
    · split_ifs <;> exact hlocked

/-- The count of samples goes up, under the lock. -/
theorem Inv.sample (h : Inv restored s) {request : Request} {node : Str} {stats : Nat}
    (htask : s.calls[task]? = some ⟨request, .holding node stats .sample⟩)
    (hstep : s.advance task ⟨request, .holding node stats .sample⟩ = some t) : Inv restored t := by
  obtain ⟨hfits, hnode⟩ : request.records node = true ∧ s.nodes node = some stats :=
    h.fits _ (List.mem_of_getElem? htask)
  obtain ⟨counters, hcounters, hstep⟩ := Option.bind_eq_some_iff.1 hstep
  split_ifs at hstep with hfree
  have hcalls : t.calls = s.calls.set task ⟨request, .publish stats⟩ := by cases hstep; rfl
  have hobservers : t.observers = s.observers := by cases hstep; rfl
  have hheap : t.heap = s.heap.modify stats (.record task) := by cases hstep; rfl
  have hnodes : t.nodes = s.nodes := by cases hstep; rfl
  refine h.change (c := ⟨request, .holding node stats .sample⟩) hnodes hcalls ⟨node, hfits, hnode⟩
    ?_ ?_
  · rw [hobservers]
    exact h.observers
  · intro n other counters' hn hother htally
    have hiff := h.node_eq_iff hnode hn
    have hopen : t.openFlows n = s.openFlows n := by rw [State.openFlows, hobservers]; rfl
    unfold State.Tallied
    rw [hheap, hcalls, hopen]
    refine ⟨_, getElem?_modify_cases (.record task) hother, ?_⟩
    by_cases hne : node = n
    · cases hne
      cases hiff.2 rfl
      rw [hcounters] at hother
      cases hother
      rw [if_pos rfl]
      have hsampled := countP_set_add htask ⟨request, .publish stats⟩ (Call.sampled node)
      simp only [Call.sampled, hfits, Bool.and_true, Bool.and_false, Bool.false_eq_true, if_false,
        if_true] at hsampled
      refine ⟨?_, ?_, fun h => (by cases h), ?_⟩
      · have hclosing : (s.calls.set task ⟨request, .publish stats⟩).countP (Call.closing node) =
            s.calls.countP (Call.closing node) := countP_set_of_eq htask rfl
        rw [hclosing]
        exact htally.active
      · have := htally.samples
        rw [NodeStats.record]
        simp only
        omega
      · intro i hi
        cases hi
        exact ⟨_, List.getElem?_set_self (List.getElem?_eq_some_iff.1 htask).1, rfl⟩
    · rw [if_neg (fun heq => hne (hiff.1 heq))]
      refine htally.set _ htask (fun h => by cases h) ?_ rfl
      have hother : request.records n = false := by
        rw [Bool.eq_false_iff]
        exact fun hn => hne (Request.records_unique hfits hn)
      simp [Call.sampled, hother]

/-- `sample_count` takes over the new count, and the lock is free. -/
theorem Inv.publish (h : Inv restored s) {request : Request} {stats : Nat}
    (htask : s.calls[task]? = some ⟨request, .publish stats⟩)
    (hstep : s.advance task ⟨request, .publish stats⟩ = some t) : Inv restored t := by
  obtain ⟨node, hfits, hnode⟩ : ∃ node, request.records node = true ∧ s.nodes node = some stats :=
    h.fits _ (List.mem_of_getElem? htask)
  have hcalls : t.calls = s.calls.set task ⟨request, .done⟩ := by cases hstep; rfl
  have hobservers : t.observers = s.observers := by cases hstep; rfl
  have hheap : t.heap = s.heap.modify stats .publish := by cases hstep; rfl
  have hnodes : t.nodes = s.nodes := by cases hstep; rfl
  refine h.change (c := ⟨request, .publish stats⟩) hnodes hcalls ?_ ?_ ?_
  · intro n hn
    exact ⟨stats, Request.records_unique hfits hn ▸ hnode⟩
  · rw [hobservers]
    exact h.observers
  · intro n other counters hn hother htally
    have hopen : t.openFlows n = s.openFlows n := by rw [State.openFlows, hobservers]; rfl
    have hclosing : (s.calls.set task ⟨request, .done⟩).countP (Call.closing n) =
        s.calls.countP (Call.closing n) := countP_set_of_eq htask rfl
    have hsampled : (s.calls.set task ⟨request, .done⟩).countP (Call.sampled n) =
        s.calls.countP (Call.sampled n) := countP_set_of_eq htask rfl
    unfold State.Tallied
    rw [hheap, hcalls, hopen]
    refine ⟨_, getElem?_modify_cases .publish hother, ?_⟩
    by_cases heq : stats = other
    · rw [if_pos heq]
      exact ⟨by rw [hclosing]; exact htally.active, by rw [hsampled]; exact htally.samples,
        fun _ => rfl, fun i hi => by cases hi⟩
    · rw [if_neg heq]
      exact htally.set _ htask (fun hphase => heq (by cases hphase; rfl)) rfl rfl

/-- The flow is marked as closed; it stays in the counter until the next access of the call. -/
theorem Inv.swap (h : Inv restored s) {request : Request} {flow : Nat} {o : FlowObserver}
    (htask : s.calls[task]? = some ⟨request, .swap flow⟩) (ho : s.observers[flow]? = some o)
    (hopened : o.closed = false) (hnodes : t.nodes = s.nodes) (hheap : t.heap = s.heap)
    (hcalls : t.calls = s.calls.set task ⟨request, .release o.node o.stats⟩)
    (hobservers : t.observers = s.observers.set flow { o with closed := true }) :
    Inv restored t := by
  have hfits : ∀ n, request.records n = false := h.fits _ (List.mem_of_getElem? htask)
  have hnode : s.nodes o.node = some o.stats := h.observers o (List.mem_of_getElem? ho)
  refine h.change (c := ⟨request, .swap flow⟩) hnodes hcalls ⟨hfits, hnode⟩ ?_ ?_
  · rw [hobservers]
    intro o' ho'
    rcases List.mem_or_eq_of_mem_set ho' with ho' | rfl
    · exact h.observers o' ho'
    · exact hnode
  · intro n other counters hn hother htally
    -- the flow goes over from the open ones to the calls that close
    have hclosing : (s.calls.set task ⟨request, .release o.node o.stats⟩).countP (Call.closing n) =
        s.calls.countP (Call.closing n) + if o.node == n then 1 else 0 :=
      countP_set_add htask ⟨request, .release o.node o.stats⟩ (Call.closing n)
    have hopen : (s.observers.set flow { o with closed := true }).countP
        (fun o => o.node == n && !o.closed) + (if o.node == n then 1 else 0) = s.openFlows n := by
      have := countP_set_add ho { o with closed := true } fun o => o.node == n && !o.closed
      simpa [hopened, State.openFlows] using this
    have hsampled : (s.calls.set task ⟨request, .release o.node o.stats⟩).countP (Call.sampled n) =
        s.calls.countP (Call.sampled n) := countP_set_of_eq htask (by simp [Call.sampled])
    unfold State.Tallied State.openFlows
    rw [hheap, hcalls, hobservers]
    refine ⟨counters, hother, ?_, ?_, htally.published, ?_⟩
    · rw [hclosing, htally.active]
      omega
    · rw [hsampled]
      exact htally.samples
    · exact locked_set htask (fun h => by cases h) _ htally.locked

/-- `close_connection`. -/
theorem Inv.release (h : Inv restored s) {request : Request} {node : Str} {stats : Nat}
    (htask : s.calls[task]? = some ⟨request, .release node stats⟩)
    (hstep : s.advance task ⟨request, .release node stats⟩ = some t) : Inv restored t := by
  obtain ⟨hfits, hnode⟩ : (∀ n, request.records n = false) ∧ s.nodes node = some stats :=
    h.fits _ (List.mem_of_getElem? htask)
  have hcalls : t.calls = s.calls.set task ⟨request, .done⟩ := by cases hstep; rfl
  have hobservers : t.observers = s.observers := by cases hstep; rfl
  have hheap : t.heap = s.heap.modify stats .closeConnection := by cases hstep; rfl
  have hnodes : t.nodes = s.nodes := by cases hstep; rfl
  refine h.change (c := ⟨request, .release node stats⟩) hnodes hcalls ?_ ?_ ?_
  · intro n hn
    rw [hfits n] at hn
    cases hn
  · rw [hobservers]
    exact h.observers
  · intro n other counters hn hother htally
    have hopen : t.openFlows n = s.openFlows n := by rw [State.openFlows, hobservers]; rfl
    have hclosing := countP_set_add htask ⟨request, .done⟩ (Call.closing n)
    have hsampled : (s.calls.set task ⟨request, .done⟩).countP (Call.sampled n) =
        s.calls.countP (Call.sampled n) := countP_set_of_eq htask (by simp [Call.sampled, hfits n])
    have hiff := h.node_eq_iff hnode hn
    unfold State.Tallied
    rw [hheap, hcalls, hopen]
    refine ⟨_, getElem?_modify_cases .closeConnection hother, ?_, ?_, ?_, ?_⟩
    · have := htally.active
      simp only [Call.closing, Bool.false_eq_true, if_false, beq_iff_eq] at hclosing
      by_cases hne : node = n
      · rw [if_pos (hiff.2 hne), NodeStats.closeConnection]
        rw [if_pos hne] at hclosing
        simp only
        omega
      · rw [if_neg fun heq => hne (hiff.1 heq)]
        rw [if_neg hne] at hclosing
        omega
    · rw [hsampled, ← htally.samples]
      split_ifs <;> rfl
    · split_ifs <;> exact htally.published
    · split_ifs <;> exact locked_set htask (fun h => by cases h) _ htally.locked

theorem start_fits (request : Request) (nodes : Str → Option Nat) :
    Call.Fits nodes ⟨request, request.start⟩ := by
  cases request with
  | recordSuccess node | recordFailure node => exact beq_self_eq_true node
  | chooseNode members avoid => exact visitAll_fits (fun _ => rfl) _ _
  | _ => exact fun _ => rfl

theorem start_uncounted (request : Request) (node : Str) :
    Call.sampled node ⟨request, request.start⟩ = false ∧
      Call.closing node ⟨request, request.start⟩ = false := by
  cases request with
  | chooseNode members avoid => exact visitAll_uncounted (fun _ => rfl) _ node
  | _ => exact ⟨by simp [Call.sampled, Request.start], rfl⟩

theorem Inv.call (h : Inv restored s) (request : Request) :
    Inv restored { s with calls := s.calls ++ [⟨request, request.start⟩] } where
  injective := h.injective
  observers := h.observers
  fits := by
    intro c hc
    rcases List.mem_append.1 hc with hc | hc
    · exact h.fits c hc
    · rw [List.mem_singleton.1 hc]
      exact start_fits request _
  present := by
    intro node stats hnode
    obtain ⟨counters, hheap, htally⟩ := h.present hnode
    obtain ⟨hsampled, hclosing⟩ := start_uncounted request node
    refine ⟨counters, hheap, ?_, ?_, htally.published, ?_⟩
    · rw [countP_snoc, hclosing]
      exact htally.active
    · rw [countP_snoc, hsampled]
      exact htally.samples
    · intro i hi
      obtain ⟨c, hc, hphase⟩ := htally.locked i hi
      exact ⟨c, by rw [List.getElem?_append_left (List.getElem?_eq_some_iff.1 hc).1, hc], hphase⟩
  absent := h.absent

/-- **A step in which nothing is lost keeps the invariant.** -/
theorem Inv.step {m : Move} (h : Inv restored s) (hok : NothingLost s m)
    (hstep : Smart.step s m = some t) : Inv restored t := by
  cases m with
  | call request =>
    simp only [Smart.step] at hstep
    split_ifs at hstep
    cases hstep
    exact h.call request
  | turn task =>
    obtain ⟨⟨request, phase⟩, htask, hstep⟩ := Option.bind_eq_some_iff.1 hstep
    have hfits := h.fits _ (List.mem_of_getElem? htask)
    have hok : phase.Safe s := hok _ htask
    cases phase with
    | look node use =>
      simp only [State.advance] at hstep
      split at hstep <;> cases hstep
      · next stats hnode =>
        exact h.goto htask ⟨hfits, hnode⟩ (fun _ h => by cases h) (by simp [Call.sampled])
          fun _ => rfl
      · exact h.goto htask hfits (fun _ h => by cases h) (by simp [Call.sampled]) fun _ => rfl
    | insert node use => exact h.insert htask hok hstep
    | holding node stats use =>
      cases use with
      | observe => exact h.observe htask hok hstep
      | sample => exact h.sample htask hstep
      | visit rest =>
        cases hstep
        have hrecords : ∀ n, request.records n = false := hfits.1
        exact h.goto htask (visitAll_fits hrecords _ rest) (fun _ h => by cases h)
          (fun n => (visitAll_uncounted hrecords rest n).1.trans (by simp [Call.sampled]))
          fun n => (visitAll_uncounted hrecords rest n).2
    | publish stats => exact h.publish htask hstep
    | swap flow =>
      obtain ⟨o, ho, hstep⟩ := Option.bind_eq_some_iff.1 hstep
      have hrecords : ∀ n, request.records n = false := hfits
      split_ifs at hstep with hclosed
      · cases hstep
        exact h.goto htask (fun n hn => by rw [hrecords n] at hn; cases hn) (fun _ h => by cases h)
          (by simp [Call.sampled, hrecords]) fun _ => rfl
      · cases hstep
        exact h.swap htask ho (Bool.eq_false_iff.2 hclosed) rfl rfl rfl rfl
    | release node stats => exact h.release htask hstep
    | done => cases hstep

end Steps

/-! ### Whole runs -/

theorem Initial.inv {restored : Str → Nat} {s : State} (h : Initial restored s) :
    Inv restored s where
  injective := h.injective
  observers := by
    rw [h.noObserver]
    exact fun o ho => absurd ho List.not_mem_nil
  fits := by
    rw [h.noCall]
    exact fun c hc => absurd hc List.not_mem_nil
  present := by
    intro node stats hnode
    refine ⟨_, h.loaded hnode, ?_, ?_, fun _ => rfl, fun i hi => by cases hi⟩
    · rw [State.openFlows, h.noObserver, h.noCall]
      rfl
    · rw [h.noCall]
      rfl
  absent := h.absent

theorem initial_new : Initial (fun _ => 0) State.new :=
  ⟨rfl, rfl, fun h => (by cases h), fun h => (by cases h), fun _ => rfl⟩

/-- At rest every `record_*` call is in the samples and no flow is being closed. -/
theorem Inv.counted {restored : Str → Nat} {s : State} (h : Inv restored s) (hquiet : s.Quiet) :
    Counted restored s := by
  have hsampled (node : Str) : s.calls.countP (Call.sampled node) = s.records node := by
    apply List.countP_congr
    intro c hc
    rw [Call.sampled, hquiet c hc, Bool.and_true]
  have hclosing (node : Str) : s.calls.countP (Call.closing node) = 0 := by
    rw [List.countP_eq_zero]
    intro c hc
    rw [Call.closing, hquiet c hc]
    exact Bool.false_ne_true
  intro node
  cases hnode : s.nodes node with
  | none =>
    obtain ⟨hopen, -, hnone⟩ := h.nothing hnode
    exact ⟨hopen, (hsampled node).symm.trans hnone⟩
  | some stats =>
    obtain ⟨counters, hheap, htally⟩ := h.present hnode
    have hactive := htally.active
    have hsamples := htally.samples
    rw [hclosing] at hactive
    rw [hsampled] at hsamples
    have hfree : counters.writer = none := by
      cases hwriter : counters.writer with
      | none => rfl
      | some i =>
        obtain ⟨c, hc, hphase⟩ := htally.locked i hwriter
        rw [hquiet c (List.mem_of_getElem? hc)] at hphase
        cases hphase
    have hpublished := htally.published hfree
    exact ⟨counters, hheap, hactive, hpublished.trans hsamples, hpublished.symm⟩

/-- **In every run in which no insertion meets an object, the counters are right at rest.** -/
theorem reach_counted {restored : Str → Nat} {s t : State} (hinit : Initial restored s)
    (h : Reach step NothingLost s t) (hquiet : t.Quiet) : Counted restored t :=
  (h.inv (fun _ _ _ hi hok hm => hi.step hok hm) hinit.inv).counted hquiet

/-- Two calls look a name up before either inserts: the first opens a flow, the second replaces the
object.  At rest the flow is open and the object under the name counts none. -/
theorem overwritten_flow : ∃ t,
    runMoves step State.new [.call (.openFlow ['a']), .call (.ensureNode ['a']), .turn 0, .turn 1,
      .turn 0, .turn 0, .turn 1, .turn 1] = some t ∧
    t.Quiet ∧ ¬Counted (fun _ => 0) t := by
  refine ⟨⟨Function.update (Function.update (fun _ => none) ['a'] (some 0)) ['a'] (some 1),
    [{ activeConn := 1 }, {}], [⟨['a'], 0, false⟩],
    [⟨.openFlow ['a'], .done⟩, ⟨.ensureNode ['a'], .done⟩]⟩, rfl, by decide, ?_⟩
  intro hcounted
  obtain ⟨counters, hheap, hactive, -⟩ := hcounted ['a']
  cases hheap
  cases hactive

/-- Two flows are opened one after the other, a sample is recorded, and one of the flows is closed
twice. -/
theorem reach_counted_in_turn : ∃ t,
    runMoves (onlyOk step NothingLost) State.new [.call (.openFlow ['a']), .turn 0, .turn 0, .turn 0,
      .call (.openFlow ['a']), .turn 1, .turn 1, .call (.recordSuccess ['a']), .turn 2, .turn 2,
      .turn 2, .call (.onClose 0), .call (.onClose 0), .turn 3, .turn 4, .turn 3] = some t ∧
    Counted (fun _ => 0) t := by
  have hrun : runMoves (onlyOk step NothingLost) State.new [.call (.openFlow ['a']), .turn 0, .turn 0,
      .turn 0, .call (.openFlow ['a']), .turn 1, .turn 1, .call (.recordSuccess ['a']), .turn 2,
      .turn 2, .turn 2, .call (.onClose 0), .call (.onClose 0), .turn 3, .turn 4, .turn 3] =
        some ⟨Function.update (fun _ => none) ['a'] (some 0), [⟨1, 1, 1, none⟩],
          [⟨['a'], 0, true⟩, ⟨['a'], 0, false⟩],
          [⟨.openFlow ['a'], .done⟩, ⟨.openFlow ['a'], .done⟩, ⟨.recordSuccess ['a'], .done⟩,
            ⟨.onClose 0, .done⟩, ⟨.onClose 0, .done⟩]⟩ := rfl
  exact ⟨_, hrun, reach_counted initial_new (reach_of_onlyOk hrun) (by decide)⟩

end WutherCore.Smart
