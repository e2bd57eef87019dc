import WutherCore.Data.Chain
import WutherCore.Ruleset.Deferred
import WutherCore.Ruleset.Index

/-!
# Evaluation through the index

A classical set may refer to other sets of the index, also inside its logical rules.  The index
evaluates a set with a stack of the names that are being evaluated: a name that is on the stack, or
a stack of more than 32 names, answers `NotMatched`.

* `evaluateIndexedMatcher` is the evaluator.  The room that is left on the stack is its recursion
  argument.
* `IsMeaning` are the recursive equations of what the sets of an index mean.  When the chains of
  references fit on the stack, they have exactly one solution (`exists_meaning`, `meaning_unique`).
* All leaves of logical rules are evaluated under one name, so a leaf that is reached from another
  leaf looks like a cycle.  Where no chain passes two of them, the evaluator computes the meaning
  (`evaluateIndexedMatcher_eq`).
-/

namespace WutherCore.Ruleset

open WutherCore.Text WutherCore.Net WutherCore.Data Relation

/-! ### Outcomes -/

namespace RulesetMatchOutcome

/-- `or_outcome`. -/
def or (left right : RulesetMatchOutcome) : RulesetMatchOutcome :=
  if left = matched || right = matched then matched
  else deferred (left.requirements.1 || right.requirements.1)
    (left.requirements.2 || right.requirements.2)

/-- `and_outcome`. -/
def and (left right : RulesetMatchOutcome) : RulesetMatchOutcome :=
  if left = notMatched || right = notMatched then notMatched
  else if left = matched then right
  else if right = matched then left
  else deferred (left.requirements.1 || right.requirements.1)
    (left.requirements.2 || right.requirements.2)

/-- The outcome of a negation. -/
def not : RulesetMatchOutcome → RulesetMatchOutcome
  | matched => notMatched
  | notMatched => matched
  | deferred => deferred

@[simp] theorem ofBool_or (a b : Bool) : (ofBool a).or (ofBool b) = ofBool (a || b) := by
  cases a <;> cases b <;> rfl

@[simp] theorem ofBool_and (a b : Bool) : (ofBool a).and (ofBool b) = ofBool (a && b) := by
  cases a <;> cases b <;> rfl

@[simp] theorem ofBool_not (a : Bool) : (ofBool a).not = ofBool !a := by cases a <;> rfl

@[simp] theorem ofBool_eq_matched (a : Bool) : ofBool a = matched ↔ a = true := by
  cases a <;> simp [ofBool]

@[simp] theorem ofBool_eq_notMatched (a : Bool) : ofBool a = notMatched ↔ a = false := by
  cases a <;> simp [ofBool]

/-- An outcome that waits for nothing. -/
def Closed (o : RulesetMatchOutcome) : Prop := ∃ b, o = ofBool b

theorem Closed.or {a b : RulesetMatchOutcome} (ha : a.Closed) (hb : b.Closed) : (a.or b).Closed := by
  obtain ⟨x, rfl⟩ := ha
  obtain ⟨y, rfl⟩ := hb
  exact ⟨x || y, ofBool_or x y⟩

theorem foldl_or_closed {α : Type} {o : α → RulesetMatchOutcome} (h : ∀ x, (o x).Closed)
    (xs : List α) {acc : RulesetMatchOutcome} (hacc : acc.Closed) :
    (xs.foldl (fun acc x => acc.or (o x)) acc).Closed := by
  induction xs generalizing acc with
  | nil => exact hacc
  | cons x xs ih => exact ih (hacc.or (h x))

theorem foldl_or_ofBool {α : Type} {o : α → RulesetMatchOutcome} {f : α → Bool} {xs : List α}
    (h : ∀ x ∈ xs, o x = ofBool (f x)) (b : Bool) :
    xs.foldl (fun acc x => acc.or (o x)) (ofBool b) = ofBool (b || xs.any f) := by
  induction xs generalizing b with
  | nil => simp
  | cons x xs ih =>
    rw [List.forall_mem_cons] at h
    rw [List.foldl_cons, h.1, ofBool_or, ih h.2, List.any_cons, Bool.or_assoc]

end RulesetMatchOutcome

namespace LogicalRule

variable {α : Type} (f : α → RulesetMatchOutcome)

mutual

/-- The outcome of a tree, given the outcomes of its leaves. -/
def outcome : LogicalRule α → RulesetMatchOutcome
  | leaf a => f a
  | and children => outcomeAll children .matched
  | or children => outcomeAny children .notMatched
  | not child => child.outcome.not

/-- The loop over the children of a conjunction. -/
def outcomeAll : List (LogicalRule α) → RulesetMatchOutcome → RulesetMatchOutcome
  | [], acc => acc
  | child :: children, acc =>
      let acc := acc.and child.outcome
      if acc = .notMatched then acc else outcomeAll children acc

/-- The loop over the children of a disjunction. -/
def outcomeAny : List (LogicalRule α) → RulesetMatchOutcome → RulesetMatchOutcome
  | [], acc => acc
  | child :: children, acc =>
      let acc := acc.or child.outcome
      if acc = .matched then acc else outcomeAny children acc

end

variable {f} {g : α → Bool}

theorem outcomeAll_ofBool {cs : List (LogicalRule α)}
    (h : ∀ c ∈ cs, c.outcome f = .ofBool (c.eval g)) (b : Bool) :
    outcomeAll f cs (.ofBool b) = .ofBool (b && cs.all (eval g)) := by
  induction cs generalizing b with
  | nil => simp [outcomeAll]
  | cons c cs ih =>
    obtain ⟨hc, hcs⟩ := List.forall_mem_cons.1 h
    rw [outcomeAll, hc, RulesetMatchOutcome.ofBool_and, ih hcs, List.all_cons, ← Bool.and_assoc]
    cases b && c.eval g <;> simp

theorem outcomeAny_ofBool {cs : List (LogicalRule α)}
    (h : ∀ c ∈ cs, c.outcome f = .ofBool (c.eval g)) (b : Bool) :
    outcomeAny f cs (.ofBool b) = .ofBool (b || cs.any (eval g)) := by
  induction cs generalizing b with
  | nil => simp [outcomeAny]
  | cons c cs ih =>
    obtain ⟨hc, hcs⟩ := List.forall_mem_cons.1 h
    rw [outcomeAny, hc, RulesetMatchOutcome.ofBool_or, ih hcs, List.any_cons, ← Bool.or_assoc]
    cases b || c.eval g <;> simp

theorem outcome_ofBool (r : LogicalRule α) (h : ∀ a ∈ r.leaves, f a = .ofBool (g a)) :
    r.outcome f = .ofBool (r.eval g) := by
  induction r using induct with
  | leaf a => simpa [outcome] using h a (by simp)
  | and cs ih =>
    rw [outcome, eval_and]
    exact outcomeAll_ofBool (fun c hc => ih c hc fun a ha => h a (by simpa using ⟨c, hc, ha⟩)) true
  | or cs ih =>
    rw [outcome, eval_or]
    exact outcomeAny_ofBool (fun c hc => ih c hc fun a ha => h a (by simpa using ⟨c, hc, ha⟩)) false
  | not c ih =>
    rw [outcome, eval_not, ih (by simpa using h), RulesetMatchOutcome.ofBool_not]

end LogicalRule

/-! ### The evaluator -/

/-- The context in which the sets behind a source rule are evaluated: the source takes the place of
the destination. -/
def RulesetMatchContext.sourceContext (ctx : RulesetMatchContext) : RulesetMatchContext :=
  { ctx with dstHost := [], dstIp := ctx.srcIp, dstPort := ctx.srcPort }

/-- The names behind the rules on the destination, in the order of evaluation. -/
def RulesetMatcher.destinationAliases {L : Type} (m : RulesetMatcher L) : List (List Str) :=
  m.destinationGeositeAliases ++ (m.destinationGeoipAliases ++ m.destinationAsnAliases)

/-- The names behind the rules on the source, in the order of evaluation. -/
def RulesetMatcher.sourceAliases {L : Type} (m : RulesetMatcher L) : List (List Str) :=
  m.sourceGeoipAliases ++ m.sourceAsnAliases

/-- A leaf as a set: it has no logical rules. -/
def LeafMatcher.toSet (m : LeafMatcher) : SetMatcher :=
  { m with logicalRules := m.logicalRules.map Empty.elim }

/-- The loop of `evaluate_aliases`. -/
def evaluateAliases (state : RulesetIndexState) (evaluate : Str → SetMatcher → RulesetMatchOutcome) :
    List Str → RulesetMatchOutcome → RulesetMatchOutcome
  | [], outcome => outcome
  | name :: aliases, outcome =>
      match state.matchers name with
      | none => evaluateAliases state evaluate aliases outcome
      | some m =>
          let outcome := outcome.or (evaluate name m)
          if outcome = .matched then outcome else evaluateAliases state evaluate aliases outcome

/-- `evaluate_indexed_matcher`, with the room that the names so far leave on the stack: when there
is none, the stack is longer than 32. -/
def evaluateIndexedMatcher (cr : Crates) (state : RulesetIndexState) (processResolved : Bool) :
    Nat → List Str → Str → SetMatcher → RulesetMatchContext → Bool → RulesetMatchOutcome
  | 0, _, _, _, _, _ => .notMatched
  | room + 1, stack, name, m, ctx, destinationIpResolved =>
      if stack.contains name then .notMatched
      else
        let stack := name :: stack
        let aliases := fun ctx destinationIpResolved names =>
          evaluateAliases state (fun name m =>
            evaluateIndexedMatcher cr state processResolved room stack name m ctx
              destinationIpResolved) names .notMatched
        let outcome := m.matchesContextDeferred cr ctx processResolved destinationIpResolved
        if outcome = .matched then outcome
        else
          let outcome := m.destinationAliases.foldl
            (fun outcome names => outcome.or (aliases ctx destinationIpResolved names)) outcome
          let outcome := m.sourceAliases.foldl
            (fun outcome names => outcome.or (aliases ctx.sourceContext true names)) outcome
          (m.logicalRules.filter (·.hasExternalRefs)).foldl
            (fun outcome rule => outcome.or (rule.outcome fun leaf =>
              evaluateIndexedMatcher cr state processResolved room stack leaf.name leaf.toSet ctx
                destinationIpResolved)) outcome

/-- The longest stack of names: a name is pushed while there are at most 32. -/
def stackRoom : Nat := 33

/-- `RulesetIndex::matches_context_deferred`. -/
def RulesetIndex.matchesContextDeferred (cr : Crates) (index : RulesetIndex) (name : Str)
    (ctx : RulesetMatchContext) (processResolved destinationIpResolved : Bool) :
    RulesetMatchOutcome :=
  match index.state.matchers name with
  | none => .notMatched
  | some m =>
      evaluateIndexedMatcher cr index.state processResolved stackRoom [] name m ctx
        destinationIpResolved

/-! ### The meaning of an index -/

section Meaning

variable (cr : Crates)

/-- What a matcher means when the sets of the index mean `M`: its own rules, and the sets behind its
rules on regions and AS numbers. -/
def RulesetMatcher.meaning {L : Type} (M : Str → RulesetMatchContext → Bool) (m : RulesetMatcher L)
    (rule : L → Bool) (ctx : RulesetMatchContext) : Bool :=
  m.matchesContextWith cr ctx rule || m.destinationAliases.any (·.any (M · ctx)) ||
    m.sourceAliases.any (·.any (M · ctx.sourceContext))

/-- What a logical rule means: the tree over the meanings of its leaves. -/
def LogicalRule.meaning (M : Str → RulesetMatchContext → Bool) (rule : LogicalRule LeafMatcher)
    (ctx : RulesetMatchContext) : Bool :=
  rule.eval fun leaf => leaf.meaning cr M Empty.elim ctx

/-- What a set means. -/
def SetMatcher.meaning (M : Str → RulesetMatchContext → Bool) (m : SetMatcher)
    (ctx : RulesetMatchContext) : Bool :=
  RulesetMatcher.meaning cr M m (fun rule => rule.meaning cr M ctx) ctx

/-- The equations of a meaning: a missing set does not match. -/
def IsMeaning (state : RulesetIndexState) (M : Str → RulesetMatchContext → Bool) : Prop :=
  ∀ name ctx, M name ctx = (state.matchers name).any (SetMatcher.meaning cr M · ctx)

/-- The meaning up to a number of nested sets. -/
def meaningUpTo (state : RulesetIndexState) : Nat → Str → RulesetMatchContext → Bool
  | 0, _, _ => false
  | k + 1, name, ctx =>
      (state.matchers name).any (SetMatcher.meaning cr (meaningUpTo state k) · ctx)

end Meaning

/-! ### References -/

/-- A matcher under the name by which it is evaluated. -/
structure Node where
  name : Str
  matcher : SetMatcher

/-- The names a matcher refers to, logical rules aside. -/
def RulesetMatcher.references {L : Type} (m : RulesetMatcher L) : List Str :=
  m.destinationAliases.flatten ++ m.sourceAliases.flatten

/-- One step of evaluation: to a set referred to, or to a leaf of a logical rule that refers to
sets. -/
inductive Edge (state : RulesetIndexState) : Node → Node → Prop
  | set {x : Node} {name : Str} {m : SetMatcher} (mem : name ∈ x.matcher.references)
      (found : state.matchers name = some m) : Edge state x ⟨name, m⟩
  | leaf {x : Node} {rule : LogicalRule LeafMatcher} {leaf : LeafMatcher}
      (mem : rule ∈ x.matcher.logicalRules) (external : rule.hasExternalRefs = true)
      (mem_leaves : leaf ∈ rule.leaves) : Edge state x ⟨leaf.name, leaf.toSet⟩

/-- A set refers to a name, by itself or in a logical rule. -/
def SetMatcher.Refers (m : SetMatcher) (name : Str) : Prop :=
  name ∈ m.references ∨ ∃ rule ∈ m.logicalRules, ∃ leaf ∈ rule.leaves, name ∈ leaf.references

theorem RulesetMatcher.mem_references {L : Type} {m : RulesetMatcher L} {name : Str} :
    name ∈ m.references ↔ (∃ names ∈ m.destinationAliases, name ∈ names) ∨
      ∃ names ∈ m.sourceAliases, name ∈ names := by
  simp [references]

theorem RulesetMatcher.hasAliases_of_mem {L : Type} {m : RulesetMatcher L} {name : Str}
    (h : name ∈ m.references) : m.hasAliases = true := by
  by_contra hno
  simp only [hasAliases, Bool.or_eq_true, Bool.not_eq_true', not_or, Bool.not_eq_false,
    List.isEmpty_iff] at hno
  simp [references, destinationAliases, sourceAliases, hno] at h

theorem LogicalRule.hasExternalRefs_of_mem {rule : LogicalRule LeafMatcher} {leaf : LeafMatcher}
    {name : Str} (hleaf : leaf ∈ rule.leaves) (h : name ∈ leaf.references) :
    rule.hasExternalRefs = true := by
  rw [hasExternalRefs, anyLeaf_eq, List.any_eq_true]
  exact ⟨leaf, hleaf, leaf.hasAliases_of_mem h⟩

section Bound

variable {state : RulesetIndexState} {name name' : Str} {m m' : SetMatcher} {k : Nat}

theorem refers_bound (h : ChainBound (Edge state) (k + 1) ⟨name, m⟩) (hrefers : m.Refers name')
    (hfound : state.matchers name' = some m') : ChainBound (Edge state) k ⟨name', m'⟩ := by
  rcases hrefers with hmem | ⟨rule, hrule, leaf, hleaf, hmem⟩
  · exact h.step (.set hmem hfound)
  · -- the leaf takes one place on the way
    have hstep := h.step (.leaf hrule (rule.hasExternalRefs_of_mem hleaf hmem) hleaf)
    obtain ⟨k, rfl⟩ := Nat.exists_eq_add_of_lt hstep.pos
    rw [Nat.zero_add] at hstep ⊢
    exact (hstep.step (.set hmem hfound)).mono (Nat.le_succ k)

end Bound

/-! ### Existence and uniqueness of the meaning -/

section Unique

variable {cr : Crates} {state : RulesetIndexState} {M M' : Str → RulesetMatchContext → Bool}

theorem RulesetMatcher.matchesContextWith_rule {L : Type} {m : RulesetMatcher L}
    {rule rule' : L → Bool} (h : ∀ r ∈ m.logicalRules, rule r = rule' r)
    (ctx : RulesetMatchContext) :
    m.matchesContextWith cr ctx rule = m.matchesContextWith cr ctx rule' := by
  have hany : m.logicalRules.any rule = m.logicalRules.any rule' := by
    rw [Bool.eq_iff_iff, List.any_eq_true, List.any_eq_true]
    exact exists_congr fun r => and_congr_right fun hr => by rw [h r hr]
  rw [matchesContextWith, matchesContextWith, hany]

theorem any_any_congr {α : Type} {f g : α → Bool} {xss : List (List α)}
    (h : ∀ xs ∈ xss, ∀ x ∈ xs, f x = g x) : xss.any (·.any f) = xss.any (·.any g) := by
  have hany : ∀ xs ∈ xss, xs.any f = xs.any g := by
    intro xs hxs
    rw [Bool.eq_iff_iff, List.any_eq_true, List.any_eq_true]
    exact exists_congr fun x => and_congr_right fun hx => by rw [h xs hxs x hx]
  rw [Bool.eq_iff_iff, List.any_eq_true, List.any_eq_true]
  exact exists_congr fun xs => and_congr_right fun hxs => by rw [hany xs hxs]

theorem RulesetMatcher.meaning_congr {L : Type} {m : RulesetMatcher L} {rule rule' : L → Bool}
    (hM : ∀ name ∈ m.references, ∀ ctx, M name ctx = M' name ctx)
    (hrule : ∀ r ∈ m.logicalRules, rule r = rule' r) (ctx : RulesetMatchContext) :
    m.meaning cr M rule ctx = m.meaning cr M' rule' ctx := by
  rw [meaning, meaning, matchesContextWith_rule hrule]
  congr 1
  · congr 1
    exact any_any_congr fun names hnames name hname =>
      hM name (mem_references.2 (.inl ⟨names, hnames, hname⟩)) ctx
  · exact any_any_congr fun names hnames name hname =>
      hM name (mem_references.2 (.inr ⟨names, hnames, hname⟩)) ctx.sourceContext

theorem SetMatcher.meaning_congr {m : SetMatcher}
    (h : ∀ name, m.Refers name → ∀ ctx, M name ctx = M' name ctx) (ctx : RulesetMatchContext) :
    m.meaning cr M ctx = m.meaning cr M' ctx := by
  refine RulesetMatcher.meaning_congr (fun name hname => h name (.inl hname)) (fun r hr => ?_) ctx
  refine r.eval_congr fun leaf hleaf => ?_
  exact leaf.meaning_congr (fun name hname => h name (.inr ⟨r, hr, leaf, hleaf, hname⟩))
    (fun l => l.elim) ctx

theorem meaningUpTo_missing {name : Str} (h : state.matchers name = none) (k : Nat)
    (ctx : RulesetMatchContext) : meaningUpTo cr state k name ctx = false := by
  cases k <;> simp [meaningUpTo, h]

theorem meaningUpTo_stable {k j : Nat} {name : Str} {m : SetMatcher}
    (hfound : state.matchers name = some m) (hbound : ChainBound (Edge state) k ⟨name, m⟩)
    (hkj : k ≤ j) (ctx : RulesetMatchContext) :
    meaningUpTo cr state j name ctx = meaningUpTo cr state k name ctx := by
  induction k generalizing j name m ctx with
  | zero => exact absurd hbound.pos (lt_irrefl 0)
  | succ k ih =>
    obtain ⟨j, rfl⟩ := Nat.exists_eq_add_of_le' (Nat.one_le_of_lt hkj)
    rw [meaningUpTo, meaningUpTo, hfound, Option.any_some, Option.any_some]
    refine SetMatcher.meaning_congr (fun name' hrefers ctx => ?_) ctx
    cases hfound' : state.matchers name' with
    | none => rw [meaningUpTo_missing hfound', meaningUpTo_missing hfound']
    | some m' => exact ih hfound' (refers_bound hbound hrefers hfound') (by omega) ctx

variable {k : Nat}
  (hbound : ∀ name m, state.matchers name = some m → ChainBound (Edge state) k ⟨name, m⟩)

include hbound

theorem exists_meaning : IsMeaning cr state (meaningUpTo cr state k) := by
  intro name ctx
  cases hfound : state.matchers name with
  | none => rw [meaningUpTo_missing hfound, Option.any_none]
  | some m =>
    obtain ⟨k, rfl⟩ := Nat.exists_eq_add_of_le' (hbound name m hfound).pos
    rw [meaningUpTo, hfound, Option.any_some, Option.any_some]
    refine SetMatcher.meaning_congr (fun name' hrefers ctx => ?_) ctx
    cases hfound' : state.matchers name' with
    | none => rw [meaningUpTo_missing hfound', meaningUpTo_missing hfound']
    | some m' =>
      have hstep := refers_bound (hbound name m hfound) hrefers hfound'
      exact (meaningUpTo_stable hfound' hstep (Nat.le_succ k) ctx).symm

theorem meaning_unique (hM : IsMeaning cr state M) (hM' : IsMeaning cr state M') : M = M' := by
  have hfound : ∀ k name m, state.matchers name = some m →
      ChainBound (Edge state) k ⟨name, m⟩ → ∀ ctx, M name ctx = M' name ctx := by
    intro k
    induction k with
    | zero => exact fun _ _ _ h => absurd h.pos (lt_irrefl 0)
    | succ k ih =>
      intro name m hm hk ctx
      rw [hM, hM', hm, Option.any_some, Option.any_some]
      refine SetMatcher.meaning_congr (fun name' hrefers ctx => ?_) ctx
      cases hm' : state.matchers name' with
      | none => rw [hM, hM', hm', Option.any_none, Option.any_none]
      | some m' => exact ih name' m' hm' (refers_bound hk hrefers hm') ctx
  funext name ctx
  cases hm : state.matchers name with
  | none => rw [hM, hM', hm, Option.any_none, Option.any_none]
  | some m => exact hfound k name m hm (hbound name m hm) ctx

end Unique

/-! ### The evaluator computes the meaning -/

/-- What compilation guarantees of a set: a semantic program comes without logical rules, and the
leaves of logical rules share one name. -/
structure SetMatcher.Shaped (m : SetMatcher) : Prop where
  program : m.semanticProgram ≠ none → m.logicalRules = []
  leaves : ∀ rule ∈ m.logicalRules, ∀ leaf ∈ rule.leaves, leaf.name = "logical"

theorem LeafMatcher.toSet_logicalRules (leaf : LeafMatcher) : leaf.toSet.logicalRules = [] := by
  rw [toSet]
  cases h : leaf.logicalRules with
  | nil => rfl
  | cons l ls => exact l.elim

theorem LeafMatcher.toSet_shaped (leaf : LeafMatcher) : leaf.toSet.Shaped where
  program _ := leaf.toSet_logicalRules
  leaves rule hrule := by
    rw [toSet_logicalRules] at hrule
    cases hrule

section Evaluator

variable {cr : Crates} {state : RulesetIndexState} {M : Str → RulesetMatchContext → Bool}

theorem LeafMatcher.toSet_meaning (leaf : LeafMatcher) (ctx : RulesetMatchContext) :
    leaf.toSet.meaning cr M ctx = leaf.meaning cr M Empty.elim ctx := by
  have hrules : ∀ rule : LogicalRule LeafMatcher → Bool,
      leaf.toSet.matchesContextWith cr ctx rule = leaf.matchesContextWith cr ctx Empty.elim := by
    intro rule
    have hleaf : leaf.logicalRules = [] := by
      cases h : leaf.logicalRules with
      | nil => rfl
      | cons l ls => exact l.elim
    simp only [RulesetMatcher.matchesContextWith, toSet_logicalRules, hleaf, List.any_nil]
    rfl
  rw [SetMatcher.meaning, RulesetMatcher.meaning, RulesetMatcher.meaning, hrules]
  rfl

theorem SetMatcher.matchesContextDeferred_resolved (m : SetMatcher) (ctx : RulesetMatchContext) :
    m.matchesContextDeferred cr ctx true true = .ofBool (m.matchesContext cr ctx) := by
  rw [matchesContextDeferred, matchesContext]
  cases h : m.semanticProgram with
  | some program =>
    rw [RulesetMatcher.matchesContextWith, h]
    exact program.root.matchesLazy_resolved
  | none =>
    cases m.matchesContextWith cr ctx fun rule => !rule.hasExternalRefs && rule.matches cr ctx <;>
      simp <;> rfl

theorem evaluateAliases_ofBool {evaluate : Str → SetMatcher → RulesetMatchOutcome} {f : Str → Bool}
    {names : List Str} (hnone : ∀ name ∈ names, state.matchers name = none → f name = false)
    (hsome : ∀ name ∈ names, ∀ m, state.matchers name = some m → evaluate name m = .ofBool (f name))
    (b : Bool) : evaluateAliases state evaluate names (.ofBool b) = .ofBool (b || names.any f) := by
  induction names generalizing b with
  | nil => simp [evaluateAliases]
  | cons name names ih =>
    rw [List.forall_mem_cons] at hnone hsome
    rw [evaluateAliases]
    cases hfound : state.matchers name with
    | none =>
      rw [ih hnone.2 hsome.2, List.any_cons, hnone.1 hfound, Bool.false_or]
    | some m =>
      simp only [hsome.1 m hfound, RulesetMatchOutcome.ofBool_or]
      rw [ih hnone.2 hsome.2, List.any_cons, ← Bool.or_assoc]
      cases b || f name <;> simp

theorem any_split {α : Type} {f g ext : α → Bool} (xs : List α)
    (h : ∀ x ∈ xs, ext x = false → f x = g x) :
    xs.any f = (xs.any (fun x => !ext x && g x) || (xs.filter ext).any f) := by
  induction xs with
  | nil => rfl
  | cons x xs ih =>
    rw [List.forall_mem_cons] at h
    rw [List.any_cons, ih h.2, List.any_cons, List.filter_cons]
    cases hx : ext x with
    | true =>
      simp only [if_true, List.any_cons, Bool.not_true, Bool.false_and, Bool.false_or]
      ac_rfl
    | false => simp [h.1 hx, Bool.or_assoc]

/-- The meaning splits into what a set matches by itself, the sets it refers to, and the logical
rules that refer to sets. -/
theorem SetMatcher.meaning_eq {m : SetMatcher} (hm : m.Shaped) (ctx : RulesetMatchContext) :
    m.meaning cr M ctx =
      (m.matchesContext cr ctx || m.destinationAliases.any (·.any (M · ctx)) ||
        m.sourceAliases.any (·.any (M · ctx.sourceContext)) ||
        (m.logicalRules.filter (·.hasExternalRefs)).any (·.meaning cr M ctx)) := by
  have hplain : ∀ rule : LogicalRule LeafMatcher, rule.hasExternalRefs = false →
      rule.meaning cr M ctx = rule.matches cr ctx := by
    intro rule hrule
    refine rule.eval_congr fun leaf hleaf => ?_
    have hno : ∀ name, name ∉ leaf.references := fun name hname => by
      rw [rule.hasExternalRefs_of_mem hleaf hname] at hrule
      cases hrule
    have hempty : ∀ M' : Str → RulesetMatchContext → Bool,
        leaf.meaning cr M Empty.elim ctx = leaf.meaning cr M' Empty.elim ctx := fun M' =>
      leaf.meaning_congr (fun name hname => absurd hname (hno name)) (fun l => l.elim) ctx
    rw [hempty fun _ _ => false, RulesetMatcher.meaning]
    have hfalse : ∀ xss : List (List Str), xss.any (fun xs => xs.any fun _ => false) = false := by
      simp
    rw [hfalse, hfalse, Bool.or_false, Bool.or_false, LeafMatcher.matchesContext]
  have hsplit : m.matchesContextWith cr ctx (·.meaning cr M ctx) = (m.matchesContext cr ctx ||
      (m.logicalRules.filter (·.hasExternalRefs)).any (·.meaning cr M ctx)) := by
    rw [matchesContext]
    by_cases hprogram : m.semanticProgram = none
    · rw [matchesContextWith_eq hprogram, matchesContextWith_eq hprogram,
        any_split m.logicalRules fun rule _ => hplain rule, ← Bool.or_assoc]
    · have hnil := hm.program hprogram
      rw [hnil, List.filter_nil, List.any_nil, Bool.or_false]
      exact RulesetMatcher.matchesContextWith_rule (by simp [hnil]) ctx
  rw [meaning, RulesetMatcher.meaning, hsplit]
  ac_rfl

/-- **The evaluator computes the meaning** of a node whose chains fit in the room, provided that no
name comes back on a chain or is on the stack. -/
theorem evaluateIndexedMatcher_eq (hM : IsMeaning cr state M)
    (hshaped : ∀ name m, state.matchers name = some m → m.Shaped) {room : Nat} {stack : List Str}
    {x : Node} (hx : x.matcher.Shaped) (hbound : ChainBound (Edge state) room x)
    (hfresh : ∀ y, ReflTransGen (Edge state) x y → y.name ∉ stack)
    (hdistinct : ∀ y z, ReflTransGen (Edge state) x y → TransGen (Edge state) y z →
      y.name ≠ z.name) (ctx : RulesetMatchContext) :
    evaluateIndexedMatcher cr state true room stack x.name x.matcher ctx true =
      .ofBool (x.matcher.meaning cr M ctx) := by
  induction room generalizing stack x ctx with
  | zero => exact absurd hbound.pos (lt_irrefl 0)
  | succ room ih =>
    -- along an edge, the name of `x` moves to the stack
    have hstep : ∀ y, Edge state x y → y.matcher.Shaped → ∀ ctx,
        evaluateIndexedMatcher cr state true room (x.name :: stack) y.name y.matcher ctx true =
          .ofBool (y.matcher.meaning cr M ctx) := by
      intro y hxy hy ctx
      refine ih hy (hbound.step hxy) (fun z hyz => ?_) (fun z w hyz hzw => ?_) ctx
      · rw [List.mem_cons, not_or]
        exact ⟨(hdistinct x z .refl (.head' hxy hyz)).symm, hfresh z (.head hxy hyz)⟩
      · exact hdistinct z w (.head hxy hyz) hzw
    have haliases : ∀ names, (∀ name ∈ names, name ∈ x.matcher.references) → ∀ ctx,
        evaluateAliases state (fun name m =>
          evaluateIndexedMatcher cr state true room (x.name :: stack) name m ctx true)
          names .notMatched = .ofBool (names.any (M · ctx)) := by
      intro names hnames ctx
      refine evaluateAliases_ofBool (fun name _ hnone => ?_) (fun name hname m hsome => ?_) false
      · rw [hM, hnone, Option.any_none]
      · rw [hM, hsome, Option.any_some]
        exact hstep ⟨name, m⟩ (.set (hnames name hname) hsome) (hshaped name m hsome) ctx
    have hdst : ∀ names ∈ x.matcher.destinationAliases, ∀ name ∈ names,
        name ∈ x.matcher.references := fun names hnames name hname =>
      RulesetMatcher.mem_references.2 (.inl ⟨names, hnames, hname⟩)
    have hsrc : ∀ names ∈ x.matcher.sourceAliases, ∀ name ∈ names,
        name ∈ x.matcher.references := fun names hnames name hname =>
      RulesetMatcher.mem_references.2 (.inr ⟨names, hnames, hname⟩)
    have hrules : ∀ rule ∈ x.matcher.logicalRules.filter (·.hasExternalRefs),
        rule.outcome (fun leaf => evaluateIndexedMatcher cr state true room (x.name :: stack)
          leaf.name leaf.toSet ctx true) = .ofBool (rule.meaning cr M ctx) := by
      intro rule hrule
      obtain ⟨hmem, hext⟩ := List.mem_filter.1 hrule
      refine rule.outcome_ofBool fun leaf hleaf => ?_
      rw [← leaf.toSet_meaning]
      exact hstep ⟨leaf.name, leaf.toSet⟩ (.leaf hmem hext hleaf) leaf.toSet_shaped ctx
    have hname : stack.contains x.name = false := by
      simpa using hfresh x .refl
    rw [evaluateIndexedMatcher, hname, SetMatcher.meaning_eq hx]
    simp only [Bool.false_eq_true, if_false, SetMatcher.matchesContextDeferred_resolved]
    rw [RulesetMatchOutcome.foldl_or_ofBool fun names hnames => haliases names (hdst names hnames) ctx,
      RulesetMatchOutcome.foldl_or_ofBool fun names hnames =>
        haliases names (hsrc names hnames) ctx.sourceContext,
      RulesetMatchOutcome.foldl_or_ofBool hrules]
    cases x.matcher.matchesContext cr ctx <;> simp

end Evaluator

theorem evaluateAliases_closed {state : RulesetIndexState}
    {evaluate : Str → SetMatcher → RulesetMatchOutcome} (h : ∀ name m, (evaluate name m).Closed)
    (names : List Str) {acc : RulesetMatchOutcome} (hacc : acc.Closed) :
    (evaluateAliases state evaluate names acc).Closed := by
  induction names generalizing acc with
  | nil => exact hacc
  | cons name names ih =>
    rw [evaluateAliases]
    cases state.matchers name with
    | none => exact ih hacc
    | some m =>
      have hor := hacc.or (h name m)
      dsimp only
      split_ifs
      · exact hor
      · exact ih hor

theorem evaluateIndexedMatcher_closed (cr : Crates) (state : RulesetIndexState) (room : Nat)
    (stack : List Str) (name : Str) (m : SetMatcher) (ctx : RulesetMatchContext) :
    (evaluateIndexedMatcher cr state true room stack name m ctx true).Closed := by
  induction room generalizing stack name m ctx with
  | zero => exact ⟨false, rfl⟩
  | succ room ih =>
    have hown : (m.matchesContextDeferred cr ctx true true).Closed :=
      ⟨_, m.matchesContextDeferred_resolved ctx⟩
    have hleaf : ∀ rule : LogicalRule LeafMatcher,
        (rule.outcome fun leaf => evaluateIndexedMatcher cr state true room (name :: stack)
          leaf.name leaf.toSet ctx true).Closed := by
      intro rule
      choose b hb using fun leaf : LeafMatcher => ih (name :: stack) leaf.name leaf.toSet ctx
      exact ⟨_, rule.outcome_ofBool fun leaf _ => hb leaf⟩
    rw [evaluateIndexedMatcher]
    split_ifs with hstack
    · exact ⟨false, rfl⟩
    · dsimp only
      split_ifs with hmatched
      · exact hown
      · refine RulesetMatchOutcome.foldl_or_closed hleaf _
          (RulesetMatchOutcome.foldl_or_closed (fun names => ?_) _
            (RulesetMatchOutcome.foldl_or_closed (fun names => ?_) _ hown))
        · exact evaluateAliases_closed (fun name' m => ih _ name' m _) names ⟨false, rfl⟩
        · exact evaluateAliases_closed (fun name' m => ih _ name' m _) names ⟨false, rfl⟩

theorem RulesetIndex.matchesContextDeferred_closed (cr : Crates) (index : RulesetIndex) (name : Str)
    (ctx : RulesetMatchContext) : (index.matchesContextDeferred cr name ctx true true).Closed := by
  rw [matchesContextDeferred]
  cases index.state.matchers name with
  | none => exact ⟨false, rfl⟩
  | some m => exact evaluateIndexedMatcher_closed cr index.state stackRoom [] name m ctx

/-! ### Compiled sets -/

/-- A set that one of the compilers made. -/
inductive SetMatcher.IsCompiled (cr : Crates) : SetMatcher → Prop
  | entries (name : Str) (es : List ClassicalEntry) : IsCompiled cr (compile cr name es)
  | semantic (name : Str) (program : RulesetProgram) : IsCompiled cr (compileSemantic name program)
  | mrs (name : Str) (payload : MrsPayload) : IsCompiled cr (compileMrs name payload)

theorem compileLeaf_name (cr : Crates) (e : ClassicalEntry) :
    (compileLeaf cr e).name = "logical" := by
  rw [compileLeaf, compileWith, RulesetMatcher.name_install]
  rfl

theorem SetMatcher.IsCompiled.shaped {cr : Crates} {m : SetMatcher} (h : IsCompiled cr m) :
    m.Shaped := by
  have hnil : ∀ m : SetMatcher, m.logicalRules = [] → m.Shaped := fun m hm =>
    ⟨fun _ => hm, fun rule hrule => by simp [hm] at hrule⟩
  cases h with
  | entries name es =>
    refine ⟨fun h => absurd compileWith_semanticProgram h, fun rule hrule leaf hleaf => ?_⟩
    obtain ⟨e, -, t, -, rfl⟩ := mem_logicalRules hrule
    rw [LogicalRule.leaves_map] at hleaf
    obtain ⟨e', -, rfl⟩ := List.mem_map.1 hleaf
    exact compileLeaf_name cr e'
  | semantic name program =>
    refine hnil _ ?_
    rw [compileSemantic, RulesetMatcher.logicalRules_install]
  | mrs name payload =>
    refine hnil _ ?_
    cases payload <;> rw [compileMrs, RulesetMatcher.logicalRules_install]

section Names

variable {cr : Crates} {state : RulesetIndexState}
  (hshaped : ∀ name m, state.matchers name = some m → m.Shaped)

include hshaped

theorem reached {name : Str} {m : SetMatcher} (hfound : state.matchers name = some m) {y : Node}
    (h : ReflTransGen (Edge state) ⟨name, m⟩ y) :
    y.matcher.Shaped ∧ (state.matchers y.name = some y.matcher ∨ y.name = "logical") := by
  induction h with
  | refl => exact ⟨hshaped name m hfound, .inl hfound⟩
  | tail _ hyz ih =>
    cases hyz with
    | set hmem hfound => exact ⟨hshaped _ _ hfound, .inl hfound⟩
    | leaf hmem hext hleaf => exact ⟨LeafMatcher.toSet_shaped _, .inr (ih.1.leaves _ hmem _ hleaf)⟩

theorem names_distinct {k : Nat} {name : Str} {m : SetMatcher}
    (hfound : state.matchers name = some m)
    (hbound : ∀ name m, state.matchers name = some m → ChainBound (Edge state) k ⟨name, m⟩)
    (hleaf : ∀ y z, ReflTransGen (Edge state) ⟨name, m⟩ y → TransGen (Edge state) y z →
      y.name = "logical" → z.name ≠ "logical") (y z : Node)
    (hy : ReflTransGen (Edge state) ⟨name, m⟩ y) (hz : TransGen (Edge state) y z) :
    y.name ≠ z.name := by
  intro heq
  by_cases hname : y.name = "logical"
  · exact hleaf y z hy hz hname (heq ▸ hname)
  · have hy' := (reached hshaped hfound hy).2.resolve_right hname
    have hz' := (reached hshaped hfound (hy.trans hz.to_reflTransGen)).2.resolve_right (heq ▸ hname)
    have hmatcher : y.matcher = z.matcher := by
      rw [heq, hz'] at hy'
      exact (Option.some.inj hy').symm
    have hyz : y = z := by
      cases y
      cases z
      simp_all
    subst hyz
    exact (hbound _ _ hy').not_transGen_self hz

end Names

/-- No chain of references from the set passes two nodes with the name of the leaves. -/
def OneLeaf (state : RulesetIndexState) (name : Str) : Prop :=
  ∀ m, state.matchers name = some m → ∀ y z, ReflTransGen (Edge state) ⟨name, m⟩ y →
    TransGen (Edge state) y z → y.name = "logical" → z.name ≠ "logical"

section Check

variable {state : RulesetIndexState}

/-- The nodes one step of evaluation leads to. -/
def successors (state : RulesetIndexState) (x : Node) : List Node :=
  x.matcher.references.filterMap (fun name => (state.matchers name).map (Node.mk name)) ++
    (x.matcher.logicalRules.filter (·.hasExternalRefs)).flatMap
      fun rule => rule.leaves.map fun leaf => ⟨leaf.name, leaf.toSet⟩

theorem Edge.mem_successors {x y : Node} (h : Edge state x y) : y ∈ successors state x := by
  rw [successors, List.mem_append]
  cases h with
  | set hmem hfound => exact .inl (List.mem_filterMap.2 ⟨_, hmem, by rw [hfound, Option.map_some]⟩)
  | leaf hmem hext hleaf =>
    exact .inr (List.mem_flatMap.2 ⟨_, List.mem_filter.2 ⟨hmem, hext⟩, List.mem_map_of_mem hleaf⟩)

/-- The chains from a node have at most the given number of nodes. -/
def fits (state : RulesetIndexState) : Nat → Node → Bool
  | 0, _ => false
  | k + 1, x => (successors state x).all (fits state k)

theorem chainBound_of_fits {k : Nat} {x : Node} (h : fits state k x = true) :
    ChainBound (Edge state) k x := by
  induction k generalizing x with
  | zero => cases h
  | succ k ih => exact .of_step fun y hxy => ih (List.all_eq_true.1 h y hxy.mem_successors)

/-- The chains from a node pass at most one leaf, and none where one was seen before. -/
def leafOnce (state : RulesetIndexState) : Nat → Bool → Node → Bool
  | 0, _, _ => false
  | k + 1, seen, x =>
      let isLeaf : Bool := x.name = "logical"
      !(seen && isLeaf) && (successors state x).all (leafOnce state k (seen || isLeaf))

theorem leafOnce_reached {k : Nat} {x y : Node} {seen : Bool} (h : leafOnce state k seen x = true)
    (hxy : ReflTransGen (Edge state) x y) :
    (seen = true → y.name ≠ "logical") ∧
      ∀ z, Edge state y z → y.name = "logical" → ∃ k', leafOnce state k' true z = true := by
  induction hxy using ReflTransGen.head_induction_on generalizing k seen with
  | refl =>
    cases k with
    | zero => cases h
    | succ k =>
      simp only [leafOnce, Bool.and_eq_true, Bool.not_eq_true', List.all_eq_true] at h
      refine ⟨fun hseen hname => ?_, fun z hz hname => ⟨k, ?_⟩⟩
      · simp [hseen, hname] at h
      · simpa [hname] using h.2 z hz.mem_successors
  | head hxc _ ih =>
    cases k with
    | zero => cases h
    | succ k =>
      simp only [leafOnce, Bool.and_eq_true, List.all_eq_true] at h
      obtain ⟨hseen, hreached⟩ := ih (h.2 _ hxc.mem_successors)
      exact ⟨fun hs => hseen (by simp [hs]), hreached⟩

theorem oneLeaf_of_leafOnce {k : Nat} {name : Str}
    (h : (state.matchers name).all (fun m => leafOnce state k false ⟨name, m⟩) = true) :
    OneLeaf state name := by
  intro m hm y z hy hz hname
  rw [hm, Option.all_some] at h
  obtain ⟨c, hyc, hcz⟩ := TransGen.head'_iff.1 hz
  obtain ⟨k', hc⟩ := (leafOnce_reached h hy).2 c hyc hname
  exact (leafOnce_reached hc hcz).1 rfl

end Check

/-- The index of a list of sets. -/
def indexOf (sets : List SetMatcher) : RulesetIndex where
  state := { matchers := fun name => sets.find? (·.name = name) }

theorem indexOf_found {sets : List SetMatcher} {name : Str} {m : SetMatcher}
    (h : (indexOf sets).state.matchers name = some m) : m ∈ sets ∧ m.name = name :=
  ⟨List.mem_of_find?_eq_some h, by simpa using List.find?_some h⟩

theorem indexOf_bound {sets : List SetMatcher}
    (h : sets.all (fun m => fits (indexOf sets).state stackRoom ⟨m.name, m⟩) = true) (name : Str)
    (m : SetMatcher) (hm : (indexOf sets).state.matchers name = some m) :
    ChainBound (Edge (indexOf sets).state) stackRoom ⟨name, m⟩ := by
  obtain ⟨hmem, rfl⟩ := indexOf_found hm
  exact chainBound_of_fits (List.all_eq_true.1 h m hmem)

/-- The entry `AND,((GEOSITE,name),(NETWORK,tcp))`. -/
def tcpTo (name : String) : ClassicalEntry :=
  { kind := .and, value := "((GEOSITE," ++ name ++ "),(NETWORK,tcp))" }

/-- The sets `a` and `b`, each of which leads to the next in a logical rule, and `c`, a domain. -/
def tcpSets : List SetMatcher :=
  [compile .ascii "a" [tcpTo "b"], compile .ascii "b" [tcpTo "c"],
    compile .ascii "c" [{ kind := .domain, value := "example.com" }]]

/-- A TCP connection to the domain. -/
def tcpContext : RulesetMatchContext := { dstHost := "example.com", network := some "tcp" }

theorem tcpSets_compiled (name : Str) (m : SetMatcher)
    (h : (indexOf tcpSets).state.matchers name = some m) : SetMatcher.IsCompiled .ascii m := by
  obtain ⟨hmem, -⟩ := indexOf_found h
  simp only [tcpSets, List.mem_cons, List.not_mem_nil, or_false] at hmem
  rcases hmem with rfl | rfl | rfl <;> exact .entries _ _

theorem tcpSets_bound (name : Str) (m : SetMatcher)
    (h : (indexOf tcpSets).state.matchers name = some m) :
    ChainBound (Edge (indexOf tcpSets).state) stackRoom ⟨name, m⟩ :=
  indexOf_bound (by decide +kernel) name m h

end WutherCore.Ruleset
