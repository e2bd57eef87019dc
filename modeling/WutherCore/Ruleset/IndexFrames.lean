import WutherCore.Ruleset.IndexEval

/-!
# Evaluation through the index, call by call

`evaluate_indexed_matcher`, `evaluate_aliases` and `matches_indexed` call each other, and share one stack
of names.  `runCall` is the three of them with the stack as a state and with two budgets: the calls that are
active at a time, and those of them that evaluate a set.  Without a budget there is no result.

* `runCall_matcher`: with enough of both, the result is that of `evaluateIndexedMatcher`, and the stack is as
  it was.
* `need_le`: what is enough depends only on the height of the logical rules.
* `evaluation_terminates`: evaluation ends, whatever the references of the sets; at most 34 evaluations of
  sets are active at a time.
-/

namespace WutherCore.Ruleset

open WutherCore.Text

/-! ### Loops over calls -/

section Loops

variable {α ρ σ : Type}

/-- A loop that joins the results of calls, and stops early at some of them. -/
def joinCalls (join : ρ → ρ → ρ) (stop : ρ → Bool) (call : α → σ → Option (ρ × σ)) :
    List α → ρ × σ → Option (ρ × σ)
  | [], acc => some acc
  | x :: xs, acc => do
    let (result, state) ← call x acc.2
    let acc := join acc.1 result
    if stop acc then some (acc, state) else joinCalls join stop call xs (acc, state)

/-- The same loop over results. -/
def joined (join : ρ → ρ → ρ) (stop : ρ → Bool) (value : α → ρ) : List α → ρ → ρ
  | [], acc => acc
  | x :: xs, acc =>
    let acc := join acc (value x)
    if stop acc then acc else joined join stop value xs acc

variable {join : ρ → ρ → ρ} {stop : ρ → Bool} {call : α → σ → Option (ρ × σ)} {value : α → ρ}

theorem joinCalls_eq {xs : List α} {state : σ} (h : ∀ x ∈ xs, call x state = some (value x, state))
    (acc : ρ) : joinCalls join stop call xs (acc, state) = some (joined join stop value xs acc, state) := by
  induction xs generalizing acc with
  | nil => rfl
  | cons x xs ih =>
    rw [List.forall_mem_cons] at h
    simp only [joinCalls, joined, h.1, Option.bind_eq_bind, Option.bind_some]
    split
    · rfl
    · exact ih h.2 _

theorem joined_never (xs : List α) (acc : ρ) :
    joined join (fun _ => false) value xs acc = xs.foldl (fun acc x => join acc (value x)) acc := by
  induction xs generalizing acc with
  | nil => rfl
  | cons x xs ih => exact ih _

end Loops

/-! ### The calls -/

/-- A call of one of the three functions. -/
inductive Call
  | matcher (name : Str) (m : SetMatcher) (ctx : RulesetMatchContext) (destinationIpResolved : Bool)
  | aliases (names : List Str) (ctx : RulesetMatchContext) (destinationIpResolved : Bool)
  | rule (rule : LogicalRule LeafMatcher) (ctx : RulesetMatchContext) (destinationIpResolved : Bool)

/-- The longest stack on which a name is pushed. -/
def stackCap : Nat := 32

open RulesetMatchOutcome in
/-- `evaluate_indexed_matcher`, `evaluate_aliases` and `LogicalRule::matches_indexed`. -/
def runCall (cr : Crates) (state : RulesetIndexState) (processResolved : Bool) :
    (calls sets : Nat) → Call → List Str → Option (RulesetMatchOutcome × List Str)
  | 0, _, _, _ => none
  | calls + 1, sets, .matcher name m ctx resolved, stack =>
    match sets with
    | 0 => none
    | sets + 1 =>
      if stack.contains name || stack.length > stackCap then some (notMatched, stack)
      else
        let stack := name :: stack
        let outcome := m.matchesContextDeferred cr ctx processResolved resolved
        if outcome = matched then some (outcome, stack.tail)
        else do
          let acc ← joinCalls RulesetMatchOutcome.or (fun _ => false)
            (fun names => runCall cr state processResolved calls sets (.aliases names ctx resolved))
            m.destinationAliases (outcome, stack)
          let acc ← joinCalls RulesetMatchOutcome.or (fun _ => false)
            (fun names => runCall cr state processResolved calls sets (.aliases names ctx.sourceContext true))
            m.sourceAliases acc
          let (outcome, stack) ← joinCalls RulesetMatchOutcome.or (fun _ => false)
            (fun rule => runCall cr state processResolved calls sets (.rule rule ctx resolved))
            (m.logicalRules.filter (·.hasExternalRefs)) acc
          return (outcome, stack.tail)
  | calls + 1, sets, .aliases names ctx resolved, stack =>
    joinCalls RulesetMatchOutcome.or (· = matched)
      (fun entry => runCall cr state processResolved calls sets (.matcher entry.1 entry.2 ctx resolved))
      (names.filterMap fun name => (state.matchers name).map fun m => (name, m)) (notMatched, stack)
  | calls + 1, sets, .rule (.leaf leaf) ctx resolved, stack =>
    runCall cr state processResolved calls sets (.matcher leaf.name leaf.toSet ctx resolved) stack
  | calls + 1, sets, .rule (.and children) ctx resolved, stack =>
    joinCalls RulesetMatchOutcome.and (· = notMatched)
      (fun child => runCall cr state processResolved calls sets (.rule child ctx resolved)) children
      (matched, stack)
  | calls + 1, sets, .rule (.or children) ctx resolved, stack =>
    joinCalls RulesetMatchOutcome.or (· = matched)
      (fun child => runCall cr state processResolved calls sets (.rule child ctx resolved)) children
      (notMatched, stack)
  | calls + 1, sets, .rule (.not child) ctx resolved, stack => do
    let (outcome, stack) ← runCall cr state processResolved calls sets (.rule child ctx resolved) stack
    return (outcome.not, stack)

/-- `RulesetIndex::matches_context_deferred`, with the budgets. -/
def RulesetIndex.runDeferred (cr : Crates) (index : RulesetIndex) (calls sets : Nat) (name : Str)
    (ctx : RulesetMatchContext) (processResolved destinationIpResolved : Bool) :
    Option RulesetMatchOutcome :=
  match index.state.matchers name with
  | none => some .notMatched
  | some m =>
    (runCall cr index.state processResolved calls sets (.matcher name m ctx destinationIpResolved) []).map
      Prod.fst

/-! ### What is enough -/

/-- The largest of some numbers. -/
def largest (ns : List Nat) : Nat := ns.foldr max 0

theorem le_largest {ns : List Nat} {n : Nat} (h : n ∈ ns) : n ≤ largest ns := by
  induction ns with
  | nil => cases h
  | cons k ns ih =>
    rcases List.mem_cons.1 h with rfl | h
    · exact le_max_left ..
    · exact (ih h).trans (le_max_right ..)

theorem largest_le {ns : List Nat} {b : Nat} (h : ∀ n ∈ ns, n ≤ b) : largest ns ≤ b := by
  induction ns with
  | nil => exact Nat.zero_le b
  | cons k ns ih =>
    rw [List.forall_mem_cons] at h
    exact max_le h.1 (ih h.2)

namespace LogicalRule

variable {α : Type}

mutual

/-- The height of a tree. -/
def height : LogicalRule α → Nat
  | leaf _ => 1
  | and children => heightOf children + 1
  | or children => heightOf children + 1
  | not child => child.height + 1

/-- The height of the highest of some trees. -/
def heightOf : List (LogicalRule α) → Nat
  | [] => 0
  | child :: children => max child.height (heightOf children)

end

theorem height_le_heightOf {c : LogicalRule α} {cs : List (LogicalRule α)} (h : c ∈ cs) :
    c.height ≤ heightOf cs := by
  induction cs with
  | nil => cases h
  | cons c' cs ih =>
    rw [heightOf]
    rcases List.mem_cons.1 h with rfl | h
    · exact le_max_left ..
    · exact (ih h).trans (le_max_right ..)

end LogicalRule

/-- How many calls are active at a time while a set is evaluated, at most: by the room on the stack and
the height of the logical rules on the way. -/
def need (state : RulesetIndexState) : Nat → SetMatcher → Nat
  | 0, _ => 1
  | room + 1, m =>
    2 + max (largest (m.references.map fun name => ((state.matchers name).map (need state room)).getD 0))
      (largest (m.logicalRules.map fun rule =>
        rule.height + largest (rule.leaves.map fun leaf => need state room leaf.toSet)))

section Run

variable {cr : Crates} {state : RulesetIndexState} {processResolved : Bool}

theorem evaluateAliases_eq_joined (evaluate : Str → SetMatcher → RulesetMatchOutcome) (names : List Str)
    (acc : RulesetMatchOutcome) :
    evaluateAliases state evaluate names acc = joined RulesetMatchOutcome.or (· = .matched)
      (fun entry : Str × SetMatcher => evaluate entry.1 entry.2)
      (names.filterMap fun name => (state.matchers name).map fun m => (name, m)) acc := by
  induction names generalizing acc with
  | nil => rfl
  | cons name names ih =>
    rw [evaluateAliases]
    cases hfound : state.matchers name with
    | none => simp [hfound, ih]
    | some m => simp [hfound, ih, joined]

theorem outcomeAll_eq_joined {α : Type} (f : α → RulesetMatchOutcome) (cs : List (LogicalRule α))
    (acc : RulesetMatchOutcome) : LogicalRule.outcomeAll f cs acc =
      joined RulesetMatchOutcome.and (· = .notMatched) (LogicalRule.outcome f) cs acc := by
  induction cs generalizing acc with
  | nil => rw [LogicalRule.outcomeAll, joined]
  | cons c cs ih => simp [LogicalRule.outcomeAll, joined, ih]

theorem outcomeAny_eq_joined {α : Type} (f : α → RulesetMatchOutcome) (cs : List (LogicalRule α))
    (acc : RulesetMatchOutcome) : LogicalRule.outcomeAny f cs acc =
      joined RulesetMatchOutcome.or (· = .matched) (LogicalRule.outcome f) cs acc := by
  induction cs generalizing acc with
  | nil => rw [LogicalRule.outcomeAny, joined]
  | cons c cs ih => simp [LogicalRule.outcomeAny, joined, ih]

theorem runCall_aliases {evaluate : Str → SetMatcher → RulesetMatchOutcome} {names stack : List Str}
    {ctx : RulesetMatchContext} {resolved : Bool} {sets n : Nat}
    (h : ∀ name ∈ names, ∀ m, state.matchers name = some m → ∀ calls ≥ n,
      runCall cr state processResolved calls sets (.matcher name m ctx resolved) stack =
        some (evaluate name m, stack)) {calls : Nat} (hcalls : n + 1 ≤ calls) :
    runCall cr state processResolved calls sets (.aliases names ctx resolved) stack =
      some (evaluateAliases state evaluate names .notMatched, stack) := by
  obtain ⟨calls, rfl⟩ := Nat.exists_eq_add_of_le' (Nat.one_le_of_lt hcalls)
  rw [runCall, evaluateAliases_eq_joined]
  refine joinCalls_eq (fun entry hentry => ?_) _
  obtain ⟨name, hname, hfound⟩ := List.mem_filterMap.1 hentry
  obtain ⟨m, hm, rfl⟩ := Option.map_eq_some_iff.1 hfound
  exact h name hname m hm calls (by omega)

/-- A logical rule, if each of its leaves is evaluated. -/
theorem runCall_rule {evaluate : LeafMatcher → RulesetMatchOutcome} {stack : List Str}
    {ctx : RulesetMatchContext} {resolved : Bool} {sets n : Nat} (rule : LogicalRule LeafMatcher)
    (h : ∀ leaf ∈ rule.leaves, ∀ calls ≥ n,
      runCall cr state processResolved calls sets (.matcher leaf.name leaf.toSet ctx resolved) stack =
        some (evaluate leaf, stack)) {calls : Nat} (hcalls : rule.height + n ≤ calls) :
    runCall cr state processResolved calls sets (.rule rule ctx resolved) stack =
      some (rule.outcome evaluate, stack) := by
  induction rule using LogicalRule.induct generalizing calls with
  | leaf a =>
    rw [LogicalRule.height] at hcalls
    obtain ⟨calls, rfl⟩ := Nat.exists_eq_add_of_le' (show 1 ≤ calls by omega)
    rw [runCall, LogicalRule.outcome]
    exact h a (by simp) calls (by omega)
  | and cs ih =>
    rw [LogicalRule.height] at hcalls
    obtain ⟨calls, rfl⟩ := Nat.exists_eq_add_of_le' (show 1 ≤ calls by omega)
    rw [runCall, LogicalRule.outcome, outcomeAll_eq_joined]
    refine joinCalls_eq (fun c hc => ?_) _
    have hheight := LogicalRule.height_le_heightOf hc
    exact ih c hc (fun leaf hleaf => h leaf (by simpa using ⟨c, hc, hleaf⟩)) (by omega)
  | or cs ih =>
    rw [LogicalRule.height] at hcalls
    obtain ⟨calls, rfl⟩ := Nat.exists_eq_add_of_le' (show 1 ≤ calls by omega)
    rw [runCall, LogicalRule.outcome, outcomeAny_eq_joined]
    refine joinCalls_eq (fun c hc => ?_) _
    have hheight := LogicalRule.height_le_heightOf hc
    exact ih c hc (fun leaf hleaf => h leaf (by simpa using ⟨c, hc, hleaf⟩)) (by omega)
  | not c ih =>
    rw [LogicalRule.height] at hcalls
    obtain ⟨calls, rfl⟩ := Nat.exists_eq_add_of_le' (show 1 ≤ calls by omega)
    rw [runCall, LogicalRule.outcome, ih (by simpa using h) (by omega)]
    rfl

theorem need_set (state : RulesetIndexState) (room : Nat) {m m' : SetMatcher} {name : Str}
    (hname : name ∈ m.references) (hfound : state.matchers name = some m') : 2 + need state room m' ≤ need state (room + 1) m := by
  have hle := le_largest (List.mem_map_of_mem (f := fun name =>
    ((state.matchers name).map (need state room)).getD 0) hname)
  simp only [hfound, Option.map_some, Option.getD_some] at hle
  rw [need]
  omega

theorem need_leaf (state : RulesetIndexState) (room : Nat) {m : SetMatcher} {rule : LogicalRule LeafMatcher}
    (hrule : rule ∈ m.logicalRules) : 2 + (rule.height + largest (rule.leaves.map fun leaf =>
      need state room leaf.toSet)) ≤ need state (room + 1) m := by
  have hle := le_largest (List.mem_map_of_mem (f := fun rule : LogicalRule LeafMatcher =>
    rule.height + largest (rule.leaves.map fun leaf => need state room leaf.toSet)) hrule)
  rw [need]
  omega

/-- With enough of both budgets, a set is evaluated, and the stack is as it was. -/
theorem runCall_matcher (room : Nat) {stack : List Str} (hstack : stack.length + room = stackCap + 1)
    (name : Str) (m : SetMatcher) (ctx : RulesetMatchContext) (resolved : Bool) {calls sets : Nat}
    (hcalls : need state room m ≤ calls) (hsets : room + 1 ≤ sets) :
    runCall cr state processResolved calls sets (.matcher name m ctx resolved) stack =
      some (evaluateIndexedMatcher cr state processResolved room stack name m ctx resolved, stack) := by
  induction room generalizing stack name m ctx resolved calls sets with
  | zero =>
    rw [need] at hcalls
    obtain ⟨calls, rfl⟩ := Nat.exists_eq_add_of_le' hcalls
    obtain ⟨sets, rfl⟩ := Nat.exists_eq_add_of_le' hsets
    have hlong : stack.length > stackCap := by omega
    simp [runCall, hlong, evaluateIndexedMatcher]
  | succ room ih =>
    have htwo : 2 ≤ need state (room + 1) m := by
      rw [need]
      omega
    obtain ⟨calls, rfl⟩ := Nat.exists_eq_add_of_le' (show 1 ≤ calls by omega)
    obtain ⟨sets, rfl⟩ := Nat.exists_eq_add_of_le' (Nat.one_le_of_lt hsets)
    have hshort : ¬stack.length > stackCap := by omega
    have hinner : (name :: stack).length + room = stackCap + 1 := by
      rw [List.length_cons]
      omega
    -- The sets that are referred to, in either context.
    have haliases : ∀ names, (∀ n ∈ names, n ∈ m.references) → ∀ ctx resolved,
        runCall cr state processResolved calls sets (.aliases names ctx resolved) (name :: stack) =
          some (evaluateAliases state (fun n m' => evaluateIndexedMatcher cr state processResolved room
            (name :: stack) n m' ctx resolved) names .notMatched, name :: stack) := by
      intro names hnames ctx resolved
      refine runCall_aliases (n := calls - 1) (fun n hn m' hfound calls' hcalls' => ?_) (by omega)
      have hneed := need_set state room (hnames n hn) hfound
      exact ih hinner n m' ctx resolved (by omega) (by omega)
    have hdst : ∀ names ∈ m.destinationAliases, ∀ n ∈ names, n ∈ m.references := fun names hnames n hn =>
      RulesetMatcher.mem_references.2 (.inl ⟨names, hnames, hn⟩)
    have hsrc : ∀ names ∈ m.sourceAliases, ∀ n ∈ names, n ∈ m.references := fun names hnames n hn =>
      RulesetMatcher.mem_references.2 (.inr ⟨names, hnames, hn⟩)
    have hrules : ∀ rule ∈ m.logicalRules.filter (·.hasExternalRefs),
        runCall cr state processResolved calls sets (.rule rule ctx resolved) (name :: stack) =
          some (rule.outcome fun leaf => evaluateIndexedMatcher cr state processResolved room
            (name :: stack) leaf.name leaf.toSet ctx resolved, name :: stack) := by
      intro rule hrule
      have hneed := need_leaf state room (List.mem_filter.1 hrule).1
      refine runCall_rule rule (n := largest (rule.leaves.map fun leaf => need state room leaf.toSet))
        (fun leaf hleaf calls hcalls => ?_) (by omega)
      have hle := le_largest (List.mem_map_of_mem (f := fun leaf : LeafMatcher =>
        need state room leaf.toSet) hleaf)
      exact ih hinner leaf.name leaf.toSet ctx resolved (hle.trans hcalls) (by omega)
    rw [runCall, evaluateIndexedMatcher]
    by_cases hname : stack.contains name = true
    · simp only [hname, Bool.true_or, if_true]
    · rw [Bool.not_eq_true] at hname
      simp only [hname, hshort, decide_false, Bool.or_self, Bool.false_eq_true, if_false]
      split_ifs with hmatched
      · rfl
      · rw [joinCalls_eq (fun names hnames => haliases names (hdst names hnames) ctx resolved),
          Option.bind_eq_bind, Option.bind_some,
          joinCalls_eq (fun names hnames => haliases names (hsrc names hnames) ctx.sourceContext true),
          Option.bind_some, joinCalls_eq hrules, Option.bind_some, joined_never, joined_never, joined_never]
        rfl

theorem need_le {height : Nat} (hheight : ∀ name m, state.matchers name = some m →
      ∀ rule ∈ m.logicalRules, rule.height ≤ height) (room : Nat) (m : SetMatcher)
    (hm : ∀ rule ∈ m.logicalRules, rule.height ≤ height) :
    need state room m ≤ 1 + room * (height + 2) := by
  induction room generalizing m with
  | zero => rw [need, Nat.zero_mul]
  | succ room ih =>
    have hsets : largest (m.references.map fun name => ((state.matchers name).map (need state room)).getD 0) ≤
        1 + room * (height + 2) := by
      refine largest_le fun n hn => ?_
      obtain ⟨name, -, rfl⟩ := List.mem_map.1 hn
      cases hfound : state.matchers name with
      | none => exact Nat.zero_le _
      | some m' => exact ih m' (hheight name m' hfound)
    have hrules : largest (m.logicalRules.map fun rule => rule.height +
        largest (rule.leaves.map fun leaf => need state room leaf.toSet)) ≤
        height + (1 + room * (height + 2)) := by
      refine largest_le fun n hn => ?_
      obtain ⟨rule, hrule, rfl⟩ := List.mem_map.1 hn
      refine Nat.add_le_add (hm rule hrule) (largest_le fun n hn => ?_)
      obtain ⟨leaf, -, rfl⟩ := List.mem_map.1 hn
      exact ih leaf.toSet fun rule hrule => by simp [LeafMatcher.toSet_logicalRules] at hrule
    rw [need, Nat.succ_mul]
    omega

end Run

/-- **Evaluation through the index ends, whatever the references of the sets.**  At most 34 evaluations of
sets are active at a time, the last of which is refused by the stack; and where no logical rule is higher
than a bound, the bound and the stack limit the calls of all three functions. -/
theorem evaluation_terminates (cr : Crates) (index : RulesetIndex) (name : Str) (ctx : RulesetMatchContext)
    (processResolved destinationIpResolved : Bool) :
    (∃ enough, ∀ calls ≥ enough, ∀ sets ≥ stackCap + 2,
      index.runDeferred cr calls sets name ctx processResolved destinationIpResolved =
        some (index.matchesContextDeferred cr name ctx processResolved destinationIpResolved)) ∧
    ∀ height, (∀ name m, index.state.matchers name = some m → ∀ rule ∈ m.logicalRules,
        rule.height ≤ height) →
      ∀ calls ≥ 1 + (stackCap + 1) * (height + 2), ∀ sets ≥ stackCap + 2,
        index.runDeferred cr calls sets name ctx processResolved destinationIpResolved =
          some (index.matchesContextDeferred cr name ctx processResolved destinationIpResolved) := by
  have hrun : ∀ m, index.state.matchers name = some m → ∀ calls ≥ need index.state stackRoom m,
      ∀ sets ≥ stackCap + 2,
      index.runDeferred cr calls sets name ctx processResolved destinationIpResolved =
        some (index.matchesContextDeferred cr name ctx processResolved destinationIpResolved) := by
    intro m hfound calls hcalls sets hsets
    have hset : runCall cr index.state processResolved calls sets (.matcher name m ctx destinationIpResolved)
        [] = some (evaluateIndexedMatcher cr index.state processResolved stackRoom [] name m ctx
          destinationIpResolved, []) :=
      runCall_matcher stackRoom rfl name m ctx destinationIpResolved hcalls hsets
    simp only [RulesetIndex.runDeferred, RulesetIndex.matchesContextDeferred, hfound, hset, Option.map_some]
  cases hfound : index.state.matchers name with
  | none =>
    have hmissing : ∀ calls sets,
        index.runDeferred cr calls sets name ctx processResolved destinationIpResolved =
          some (index.matchesContextDeferred cr name ctx processResolved destinationIpResolved) := by
      intro calls sets
      simp only [RulesetIndex.runDeferred, RulesetIndex.matchesContextDeferred, hfound]
    exact ⟨⟨0, fun calls _ sets _ => hmissing calls sets⟩, fun _ _ calls _ sets _ => hmissing calls sets⟩
  | some m =>
    refine ⟨⟨_, hrun m hfound⟩, fun height hheight calls hcalls sets hsets => ?_⟩
    have hneed := need_le hheight stackRoom m (hheight name m hfound)
    exact hrun m hfound calls (hneed.trans hcalls) sets hsets

/-- Two sets that lead to each other in logical rules, and one that leads to itself. -/
def cyclicSets : List SetMatcher :=
  [compile .ascii "a" [tcpTo "b"], compile .ascii "b" [tcpTo "a"], compile .ascii "c" [tcpTo "c"]]

theorem evaluation_terminates_cyclic : ∃ outcome,
    (indexOf cyclicSets).runDeferred .ascii 133 34 "a" tcpContext false false = some outcome := by
  have hheight : ∀ name m, (indexOf cyclicSets).state.matchers name = some m → ∀ rule ∈ m.logicalRules,
      rule.height ≤ 2 := by
    intro name m hfound
    obtain ⟨hmem, -⟩ := indexOf_found hfound
    have hall : ∀ m ∈ cyclicSets, ∀ rule ∈ m.logicalRules, rule.height ≤ 2 := by decide +kernel
    exact hall m hmem
  exact ⟨_, (evaluation_terminates .ascii (indexOf cyclicSets) "a" tcpContext false false).2 2 hheight
    133 (by decide) 34 (by decide)⟩

end WutherCore.Ruleset
