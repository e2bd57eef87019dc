import WutherCore.Resolver.Policy

/-!
# Rule sets in DNS policies

A DNS policy asks a rule set of the index by itself; a route asks the index, which also evaluates the sets that it
refers to.  The two agree unless only a reference matches, or the set matches by rules on what is pending.

* `ReferenceMatches`: some set behind an alias, or a logical rule that refers to sets, is evaluated to a match.
* `evaluateIndexedMatcher_matched`: the index matches by the rules of the set itself or by a reference.
* `matchesHost_set_agrees_iff`: when a policy and a route agree on a set.
-/

namespace WutherCore.Ruleset

open WutherCore.Text WutherCore.Net

/-! ### Outcomes that match -/

namespace RulesetMatchOutcome

theorem or_eq_matched {a b : RulesetMatchOutcome} : a.or b = matched ↔ a = matched ∨ b = matched := by
  simp only [or, Bool.or_eq_true, decide_eq_true_eq]
  by_cases h : a = matched ∨ b = matched
  · rw [if_pos h]
    exact iff_of_true rfl h
  · rw [if_neg h]
    exact iff_of_false (deferred_ne_matched _ _) h

theorem foldl_or_eq_matched {α : Type} {o : α → RulesetMatchOutcome} (xs : List α) {acc : RulesetMatchOutcome} :
    xs.foldl (fun acc x => acc.or (o x)) acc = matched ↔ acc = matched ∨ ∃ x ∈ xs, o x = matched := by
  induction xs generalizing acc with
  | nil => simp
  | cons x xs ih => rw [List.foldl_cons, ih, or_eq_matched, or_assoc, List.exists_mem_cons_iff]

end RulesetMatchOutcome

section References

variable (cr : Crates) (state : RulesetIndexState) (p : Bool)

/-- A set behind one of these names is evaluated to a match. -/
def AliasMatches (evaluate : Str → SetMatcher → RulesetMatchOutcome) (names : List Str) : Prop :=
  ∃ name ∈ names, ∃ m, state.matchers name = some m ∧ evaluate name m = .matched

variable {state} in
theorem evaluateAliases_eq_matched {evaluate : Str → SetMatcher → RulesetMatchOutcome} (names : List Str)
    {acc : RulesetMatchOutcome} :
    evaluateAliases state evaluate names acc = .matched ↔ acc = .matched ∨ AliasMatches state evaluate names := by
  unfold AliasMatches
  induction names generalizing acc with
  | nil => simp [evaluateAliases]
  | cons name names ih =>
    rw [evaluateAliases, List.exists_mem_cons_iff]
    cases hfound : state.matchers name with
    | none =>
      rw [ih]
      simp
    | some m =>
      have hhead : (∃ m', some m = some m' ∧ evaluate name m' = .matched) ↔ evaluate name m = .matched := by simp
      dsimp only
      rw [hhead, ← or_assoc, ← RulesetMatchOutcome.or_eq_matched]
      split_ifs with hmatched
      · exact iff_of_true hmatched (.inl hmatched)
      · exact ih

/-- A set that a matcher refers to, or a logical rule of its that refers to sets, is evaluated to a match.  The sets
behind its rules on the source are asked for the source. -/
def ReferenceMatches (room : Nat) (stack : List Str) (m : SetMatcher) (ctx : RulesetMatchContext) (d : Bool) : Prop :=
  let evaluate ctx d name m := evaluateIndexedMatcher cr state p room stack name m ctx d
  (∃ names ∈ m.destinationAliases, AliasMatches state (evaluate ctx d) names) ∨
    (∃ names ∈ m.sourceAliases, AliasMatches state (evaluate ctx.sourceContext true) names) ∨
    ∃ rule ∈ m.logicalRules, rule.hasExternalRefs = true ∧
      rule.outcome (fun leaf => evaluate ctx d leaf.name leaf.toSet) = .matched

variable {cr state p} {room : Nat} {stack : List Str} {name : Str} {m : SetMatcher} {ctx : RulesetMatchContext}
  {d : Bool}

/-- **The index matches by the rules of the set itself, or by a reference.** -/
theorem evaluateIndexedMatcher_matched (hstack : stack.contains name = false) :
    evaluateIndexedMatcher cr state p (room + 1) stack name m ctx d = .matched ↔
      m.matchesContextDeferred cr ctx p d = .matched ∨ ReferenceMatches cr state p room (name :: stack) m ctx d := by
  rw [evaluateIndexedMatcher, hstack, if_neg Bool.false_ne_true]
  dsimp only
  by_cases hown : m.matchesContextDeferred cr ctx p d = .matched
  · rw [if_pos hown]
    exact iff_of_true hown (.inl hown)
  · have haliases (ctx : RulesetMatchContext) (d : Bool) (names : List Str) :
        evaluateAliases state (fun name' m => evaluateIndexedMatcher cr state p room (name :: stack) name' m ctx d)
            names .notMatched = .matched ↔
          AliasMatches state (fun name' m => evaluateIndexedMatcher cr state p room (name :: stack) name' m ctx d)
            names := by
      rw [evaluateAliases_eq_matched]
      exact or_iff_right fun h => by cases h
    rw [if_neg hown, RulesetMatchOutcome.foldl_or_eq_matched, RulesetMatchOutcome.foldl_or_eq_matched,
      RulesetMatchOutcome.foldl_or_eq_matched, or_assoc, or_assoc]
    apply or_congr_right
    unfold ReferenceMatches
    simp only [haliases, List.mem_filter, and_assoc]

theorem matchesContext_of_deferred (h : m.matchesContextDeferred cr ctx p d = .matched) :
    m.matchesContext cr ctx = true := by
  unfold SetMatcher.matchesContextDeferred at h
  cases hprogram : m.semanticProgram with
  | some program =>
    rw [hprogram] at h
    rw [SetMatcher.matchesContext, RulesetMatcher.matchesContextWith, hprogram]
    exact RulesetExpr.matchesLazy_decides program.root true (RulesetMatchOutcome.verdict_eq_true.2 h) ctx
      (mem_completions_self _ _ _)
  | none =>
    rw [hprogram] at h
    dsimp only at h
    by_contra hnot
    rw [if_neg hnot] at h
    exact RulesetMatchOutcome.deferred_ne_matched _ _ h

end References

end WutherCore.Ruleset

namespace WutherCore.Resolver

open WutherCore.Text WutherCore.Net WutherCore.Ruleset

/-! ### Policies and routes -/

section Agreement

variable {cr : Crates} {index : RulesetIndex} {name host : Str}

/-- The context that carries only a host. -/
def hostContext (host : Str) : RulesetMatchContext := { dstHost := host }

/-- A set of the index is matched by a reference, for a host. -/
def SetReferenceMatches (cr : Crates) (index : RulesetIndex) (p d : Bool) (name : Str) (m : SetMatcher) (host : Str) :
    Prop :=
  ReferenceMatches cr index.state p (stackRoom - 1) [name] m (hostContext host) d

theorem matchesHost_set {m : SetMatcher} {savedResponse : Option (List IpAddr)}
    (hfound : index.state.matchers name = some m) :
    matchesHost cr host savedResponse (some index) (.set name) = m.matchesContext cr (hostContext host) := by
  rw [matchesHost, setMatches, Option.bind_some, hfound, Option.any_some]
  rfl

theorem indexed_matched {m : SetMatcher} (hfound : index.state.matchers name = some m) (p d : Bool) :
    index.matchesContextDeferred cr name (hostContext host) p d = .matched ↔
      m.matchesContextDeferred cr (hostContext host) p d = .matched ∨
        SetReferenceMatches cr index p d name m host := by
  have hroom : stackRoom = stackRoom - 1 + 1 := rfl
  unfold SetReferenceMatches
  rw [RulesetIndex.matchesContextDeferred, hfound]
  dsimp only
  rw [hroom, evaluateIndexedMatcher_matched rfl, Nat.add_sub_cancel]

/-- Nothing that a policy leaves out decides on a set: if it matches by its own rules, these wait for nothing or a
reference matches too, and if not, no reference matches. -/
structure OwnRulesDecide (cr : Crates) (index : RulesetIndex) (p d : Bool) (name host : Str) (m : SetMatcher) :
    Prop where
  waits : m.matchesContext cr (hostContext host) = true →
    m.matchesContextDeferred cr (hostContext host) p d = .matched ∨ SetReferenceMatches cr index p d name m host
  references : m.matchesContext cr (hostContext host) = false → ¬SetReferenceMatches cr index p d name m host

theorem matchesHost_set_found {m : SetMatcher} {savedResponse : Option (List IpAddr)}
    (hfound : index.state.matchers name = some m) (p d : Bool) :
    (matchesHost cr host savedResponse (some index) (.set name) = true ↔
        index.matchesContextDeferred cr name (hostContext host) p d = .matched) ↔
      OwnRulesDecide cr index p d name host m := by
  rw [matchesHost_set hfound, indexed_matched hfound]
  constructor
  · intro h
    refine ⟨h.1, fun hown hrefs => ?_⟩
    rw [h.2 (.inr hrefs)] at hown
    cases hown
  · intro h
    constructor
    · exact h.waits
    · rintro (hdeferred | hrefs)
      · exact matchesContext_of_deferred hdeferred
      · by_contra hown
        exact h.references (Bool.eq_false_of_not_eq_true hown) hrefs

end Agreement

/-- The set `sites` of the domain `example.com`, and the set `all` that refers to it with `GEOSITE,sites`. -/
def referringSets : List SetMatcher :=
  [compile .ascii "sites" [{ kind := .domain, value := "example.com" }],
    compile .ascii "all" [{ kind := .geoSite, value := "sites" }]]

end WutherCore.Resolver
