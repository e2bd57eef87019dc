import WutherCore.Data.Chain
import WutherCore.Route.Matchers

/-!
# The route engine

`decideDetailed` walks the steps of a plan in order and takes the first that matches.  A step may
hand over to a list of sub-rules, and `PASS` leaves all of them at once.  The depth of sub-rules is
bounded by their number.

* `FirstMatch` is the meaning of a walk, as derivations: with a bound on the depth it follows the
  code, without one it is the reference.
* Every plan has a derivation with the bound, and its outcome is what the code computes
  (`evaluateSteps_iff`), so the walk ends also where sub-rules call each other in a circle.
* Where they do not, the bound changes nothing (`firstMatch_unbounded`).
-/

namespace WutherCore.Route

open WutherCore.Text WutherCore.Net WutherCore.Data WutherCore.Ruleset Relation

/-- `StepFlow`. -/
inductive StepFlow (α : Type)
  | result (value : α)
  | continueMain
  | exhausted

/-- `RouteEngine`: the plan, the tables, and the rules that are switched off. -/
structure RouteEngine where
  plan : RoutePlan
  tables : MatchTables
  disabledRules : List Bool

/-- `RouteEngine::with_rulesets`, and `RouteEngine::new` where there are none; none where preparing
the tables panics. -/
def RouteEngine.new (cr : Crates) (plan : RoutePlan) (rulesets : Option RulesetIndex) :
    Option RouteEngine := do
  let prepared ← PreparedMatchers.compile cr plan
  return ⟨plan, { rulesets, prepared }, List.replicate plan.steps.length false⟩

/-- Whether a step of the main list is switched off. The steps of sub-rules have no switches. -/
def isDisabled (disabled : Option (List Bool)) (index : Nat) : Bool :=
  disabled.any fun flags => flags.getD index false

/-- What a hit on a step reports. -/
def reportStep (disabled : Option (List Bool)) (index : Nat) (step : RouteStep) :
    DetailedRouteDecision where
  decision := .fromAction step.action
  matcher := matcherKind step.matcher
  hit := describeRouteStep (disabled.map fun _ => index) step

section Walk

variable (plan : RoutePlan) (hit : RouteStep → Bool)

/-- The loop of `evaluate_steps`, given the walk of a branch. -/
def walkSteps (call : List RouteStep → StepFlow DetailedRouteDecision)
    (disabled : Option (List Bool)) (depth : Nat) :
    Nat → List RouteStep → StepFlow DetailedRouteDecision
  | _, [] => .exhausted
  | index, step :: steps =>
      if isDisabled disabled index then walkSteps call disabled depth (index + 1) steps
      else if !hit step then walkSteps call disabled depth (index + 1) steps
      else match step.action with
        | .subRule name =>
            match plan.subRule name with
            | none => walkSteps call disabled depth (index + 1) steps
            | some branch =>
                match call branch with
                | .result decision => .result decision
                | .continueMain =>
                    if depth = 0 then walkSteps call disabled depth (index + 1) steps
                    else .continueMain
                | .exhausted => walkSteps call disabled depth (index + 1) steps
        | .pass =>
            if depth > 0 then .continueMain else walkSteps call disabled depth (index + 1) steps
        | .passRule => walkSteps call disabled depth (index + 1) steps
        | _ => .result (reportStep disabled index step)

/-- `evaluate_steps`, by the depth that is left: when there is none, the depth is greater than the
number of sub-rules. -/
def walk : Nat → Option (List Bool) → Nat → List RouteStep → StepFlow DetailedRouteDecision
  | 0, _, _, _ => .exhausted
  | room + 1, disabled, depth, steps =>
      walkSteps plan hit (walk room none (depth + 1)) disabled depth 0 steps

end Walk

section Decide

variable (cr : Crates) (engine : RouteEngine)

/-- `evaluate_steps`. -/
def RouteEngine.evaluateSteps (input : MatchInput) (processResolved destinationIpResolved : Bool)
    (disabled : Option (List Bool)) (depth : Nat) (steps : List RouteStep) :
    StepFlow DetailedRouteDecision :=
  walk engine.plan (fun step => stepMatches cr engine.tables input processResolved
      (destinationIpResolved || step.options.noResolve) step.matcher)
    (engine.plan.subRules.length + 1 - depth) disabled depth steps

/-- The decision when no step matches. -/
def fallback : DetailedRouteDecision where
  decision := .direct
  matcher := "fallback"
  hit := .fallback

/-- The decision that a walk of the main list ends in. -/
def StepFlow.decision : StepFlow DetailedRouteDecision → DetailedRouteDecision
  | result decision => decision
  | continueMain | exhausted => fallback

/-- `decide_detailed`. -/
def RouteEngine.decideDetailed (ctx : FlowContext) : DetailedRouteDecision :=
  let input := MatchInput.new cr ctx
  (engine.evaluateSteps cr input true input.resolvedIp.isSome (some engine.disabledRules) 0
    engine.plan.steps).decision

end Decide

/-! ### Walks as derivations -/

/-- A walk of the remaining steps, from an index on, ends in an outcome. The depth of sub-rules is
bounded by `bound`, or not at all. -/
inductive FirstMatch (plan : RoutePlan) (hit : RouteStep → Bool) (bound : Option Nat) :
    Option (List Bool) → Nat → Nat → List RouteStep → StepFlow DetailedRouteDecision → Prop
  /-- No step is left. -/
  | done {disabled depth index} : FirstMatch plan hit bound disabled depth index [] .exhausted
  /-- A step that is off or does not match. -/
  | skip {disabled depth index step steps flow}
      (inactive : isDisabled disabled index = true ∨ hit step = false)
      (rest : FirstMatch plan hit bound disabled depth (index + 1) steps flow) :
      FirstMatch plan hit bound disabled depth index (step :: steps) flow
  /-- The first hit decides. -/
  | decide {disabled depth index step steps} (active : isDisabled disabled index = false)
      (matched : hit step = true)
      (action : step.action = .direct ∨ step.action = .block ∨ ∃ name, step.action = .group name) :
      FirstMatch plan hit bound disabled depth index (step :: steps)
        (.result (reportStep disabled index step))
  /-- `PASS-RULE`, and `PASS` in the main list, go on to the next step. -/
  | pass {disabled depth index step steps flow} (active : isDisabled disabled index = false)
      (matched : hit step = true)
      (action : step.action = .passRule ∨ step.action = .pass ∧ depth = 0)
      (rest : FirstMatch plan hit bound disabled depth (index + 1) steps flow) :
      FirstMatch plan hit bound disabled depth index (step :: steps) flow
  /-- `PASS` in a sub-rule leaves all sub-rules. -/
  | leave {disabled depth index step steps} (active : isDisabled disabled index = false)
      (matched : hit step = true) (action : step.action = .pass) (nested : 0 < depth) :
      FirstMatch plan hit bound disabled depth index (step :: steps) .continueMain
  /-- Sub-rules that are missing, or too deep, go on to the next step. -/
  | ignore {disabled depth index step steps name flow} (active : isDisabled disabled index = false)
      (matched : hit step = true) (action : step.action = .subRule name)
      (absent : plan.subRule name = none ∨ ∃ n, bound = some n ∧ n < depth + 1)
      (rest : FirstMatch plan hit bound disabled depth (index + 1) steps flow) :
      FirstMatch plan hit bound disabled depth index (step :: steps) flow
  /-- Sub-rules that do not leave to the caller of the walk return to the next step. -/
  | resume {disabled depth index step steps name branch inner flow}
      (active : isDisabled disabled index = false) (matched : hit step = true)
      (action : step.action = .subRule name) (found : plan.subRule name = some branch)
      (within : ∀ n, bound = some n → depth + 1 ≤ n)
      (call : FirstMatch plan hit bound none (depth + 1) 0 branch inner)
      (back : inner = .exhausted ∨ inner = .continueMain ∧ depth = 0)
      (rest : FirstMatch plan hit bound disabled depth (index + 1) steps flow) :
      FirstMatch plan hit bound disabled depth index (step :: steps) flow
  /-- Sub-rules that decide, or leave all sub-rules from inside one, end the walk. -/
  | finish {disabled depth index step steps name branch inner}
      (active : isDisabled disabled index = false) (matched : hit step = true)
      (action : step.action = .subRule name) (found : plan.subRule name = some branch)
      (within : ∀ n, bound = some n → depth + 1 ≤ n)
      (call : FirstMatch plan hit bound none (depth + 1) 0 branch inner)
      (last : (∃ decision, inner = .result decision) ∨ inner = .continueMain ∧ 0 < depth) :
      FirstMatch plan hit bound disabled depth index (step :: steps) inner

section Bounded

variable {plan : RoutePlan} {hit : RouteStep → Bool}

/-- The loop has a derivation when the walks of the branches have, or are too deep. -/
theorem firstMatch_walkSteps {n depth : Nat} {call : List RouteStep → StepFlow DetailedRouteDecision}
    (hcall : ∀ branch, n < depth + 1 ∧ call branch = .exhausted ∨
      depth + 1 ≤ n ∧ FirstMatch plan hit (some n) none (depth + 1) 0 branch (call branch))
    (disabled : Option (List Bool)) (index : Nat) (steps : List RouteStep) :
    FirstMatch plan hit (some n) disabled depth index steps
      (walkSteps plan hit call disabled depth index steps) := by
  induction steps generalizing index with
  | nil => exact .done
  | cons step steps ih =>
    rw [walkSteps]
    by_cases hdis : isDisabled disabled index = true
    · rw [if_pos hdis]
      exact .skip (.inl hdis) (ih _)
    by_cases hhit : hit step = true
    swap
    · rw [if_neg hdis, if_pos (by simpa using hhit)]
      exact .skip (.inr (by simpa using hhit)) (ih _)
    rw [if_neg hdis, if_neg (by simpa using hhit)]
    rw [Bool.not_eq_true] at hdis
    cases haction : step.action with
    | direct => exact .decide hdis hhit (.inl haction)
    | block => exact .decide hdis hhit (.inr (.inl haction))
    | group name => exact .decide hdis hhit (.inr (.inr ⟨name, haction⟩))
    | passRule => exact .pass hdis hhit (.inl haction) (ih _)
    | pass =>
      dsimp only
      split_ifs with hdepth
      · exact .leave hdis hhit haction hdepth
      · exact .pass hdis hhit (.inr ⟨haction, by omega⟩) (ih _)
    | subRule name =>
      dsimp only
      cases hfound : plan.subRule name with
      | none => exact .ignore hdis hhit haction (.inl hfound) (ih _)
      | some branch =>
        dsimp only
        rcases hcall branch with ⟨hdeep, hexhausted⟩ | ⟨hwithin, hbranch⟩
        · rw [hexhausted]
          exact .ignore hdis hhit haction (.inr ⟨n, rfl, hdeep⟩) (ih _)
        · have hbound : ∀ k, some n = some k → depth + 1 ≤ k := by
            rintro k ⟨⟩
            exact hwithin
          cases hflow : call branch with
          | result decision =>
            rw [hflow] at hbranch
            exact .finish hdis hhit haction hfound hbound hbranch (.inl ⟨decision, rfl⟩)
          | exhausted =>
            rw [hflow] at hbranch
            exact .resume hdis hhit haction hfound hbound hbranch (.inl rfl) (ih _)
          | continueMain =>
            rw [hflow] at hbranch
            dsimp only
            split_ifs with hdepth
            · exact .resume hdis hhit haction hfound hbound hbranch (.inr ⟨rfl, hdepth⟩) (ih _)
            · exact .finish hdis hhit haction hfound hbound hbranch (.inr ⟨rfl, by omega⟩)

theorem firstMatch_walk {n room depth : Nat} (hn : depth + room = n)
    (disabled : Option (List Bool)) (steps : List RouteStep) :
    FirstMatch plan hit (some n) disabled depth 0 steps
      (walk plan hit (room + 1) disabled depth steps) := by
  induction room generalizing depth disabled steps with
  | zero => exact firstMatch_walkSteps (fun branch => .inl ⟨by omega, rfl⟩) disabled 0 steps
  | succ room ih =>
    refine firstMatch_walkSteps (fun branch => .inr ⟨by omega, ?_⟩) disabled 0 steps
    exact ih (by omega) none branch

theorem walk_branch {n depth : Nat} (h : depth + 1 ≤ n) (branch : List RouteStep) :
    walk plan hit (n - depth) none (depth + 1) branch =
      walkSteps plan hit (walk plan hit (n - (depth + 1)) none (depth + 1 + 1)) none (depth + 1) 0
        branch := by
  rw [show n - depth = n - (depth + 1) + 1 by omega, walk]

/-- A derivation ends in what the code computes. -/
theorem walkSteps_of_firstMatch {n depth index : Nat} {disabled : Option (List Bool)}
    {steps : List RouteStep} {flow : StepFlow DetailedRouteDecision}
    (h : FirstMatch plan hit (some n) disabled depth index steps flow) (hdepth : depth ≤ n) :
    walkSteps plan hit (walk plan hit (n - depth) none (depth + 1)) disabled depth index steps =
      flow := by
  induction h with
  | done => rfl
  | skip inactive _ ih =>
    rw [walkSteps]
    rcases inactive with h | h <;> simp [h, ih hdepth]
  | decide active matched action =>
    rw [walkSteps]
    rcases action with h | h | ⟨name, h⟩ <;> simp [active, matched, h]
  | pass active matched action _ ih =>
    rw [walkSteps]
    rcases action with h | ⟨h, hzero⟩
    · simp [active, matched, h, ih hdepth]
    · simp [active, matched, h, hzero, ← ih hdepth]
  | leave active matched action nested =>
    rw [walkSteps]
    simp [active, matched, action, nested]
  | @ignore _ depth _ _ _ name _ active matched action absent _ ih =>
    rw [walkSteps]
    rcases absent with hnone | ⟨k, hk, hdeep⟩
    · simp [active, matched, action, hnone, ih hdepth]
    · have hroom : n - depth = 0 := by
        cases hk
        omega
      simp only [active, matched, action, Bool.false_eq_true, if_false, Bool.not_true]
      rw [← ih hdepth, hroom]
      cases plan.subRule name <;> rfl
  | @resume _ depth _ _ _ _ branch inner _ active matched action found within _ back _ ihcall ih =>
    have hinner : walk plan hit (n - depth) none (depth + 1) branch = inner := by
      rw [walk_branch (within n rfl), ihcall (within n rfl)]
    rw [walkSteps]
    rcases back with rfl | ⟨rfl, hzero⟩
    · simp [active, matched, action, found, hinner, ih hdepth]
    · simp only [active, matched, action, found, hinner, Bool.false_eq_true, if_false, Bool.not_true]
      rw [if_pos hzero, ih hdepth]
  | @finish _ depth _ _ _ _ branch inner active matched action found within _ last ihcall =>
    have hinner : walk plan hit (n - depth) none (depth + 1) branch = inner := by
      rw [walk_branch (within n rfl), ihcall (within n rfl)]
    rw [walkSteps]
    rcases last with ⟨decision, rfl⟩ | ⟨rfl, hnested⟩
    · simp [active, matched, action, found, hinner]
    · simp [active, matched, action, found, hinner, hnested.ne']

/-- **The code computes the bounded walk**, on every plan. -/
theorem walk_iff (plan : RoutePlan) (hit : RouteStep → Bool) {n depth : Nat} (hdepth : depth ≤ n)
    (disabled : Option (List Bool)) (steps : List RouteStep)
    (flow : StepFlow DetailedRouteDecision) :
    walk plan hit (n + 1 - depth) disabled depth steps = flow ↔
      FirstMatch plan hit (some n) disabled depth 0 steps flow := by
  rw [show n + 1 - depth = n - depth + 1 by omega]
  constructor
  · rintro rfl
    exact firstMatch_walk (by omega) disabled steps
  · exact fun h => walkSteps_of_firstMatch h hdepth

end Bounded

/-! ### Plans without circles -/

section Unbounded

variable {plan : RoutePlan} {hit : RouteStep → Bool}

/-- One list of sub-rules hands over to another. -/
def SubRuleEdge (plan : RoutePlan) (a b : Str) : Prop :=
  (∃ branch, plan.subRule a = some branch ∧ ∃ step ∈ branch, step.action = .subRule b) ∧
    (plan.subRule b).isSome

/-- No list of sub-rules comes back to itself. -/
def RoutePlan.Acyclic (plan : RoutePlan) : Prop :=
  ∀ name, ¬TransGen (SubRuleEdge plan) name name

/-- The bound leaves room for all sub-rules that the steps can reach. -/
def Ample (plan : RoutePlan) (bound : Option Nat) (depth : Nat) (steps : List RouteStep) : Prop :=
  ∀ n, bound = some n → ∀ step ∈ steps, ∀ name, step.action = .subRule name →
    (plan.subRule name).isSome → ChainBound (SubRuleEdge plan) (n - depth) name

theorem Ample.tail {bound : Option Nat} {depth : Nat} {step : RouteStep} {steps : List RouteStep}
    (h : Ample plan bound depth (step :: steps)) : Ample plan bound depth steps :=
  fun n hn step' hstep' => h n hn step' (List.mem_cons_of_mem _ hstep')

theorem Ample.within {bound : Option Nat} {depth : Nat} {step : RouteStep} {steps : List RouteStep}
    (h : Ample plan bound depth (step :: steps)) {name : Str} (haction : step.action = .subRule name)
    (hfound : (plan.subRule name).isSome) (n : Nat) (hn : bound = some n) : depth + 1 ≤ n := by
  have hpos := (h n hn step List.mem_cons_self name haction hfound).pos
  omega

theorem Ample.branch {bound : Option Nat} {depth : Nat} {step : RouteStep} {steps : List RouteStep}
    (h : Ample plan bound depth (step :: steps)) {name : Str} (haction : step.action = .subRule name)
    {branch : List RouteStep} (hfound : plan.subRule name = some branch) :
    Ample plan bound (depth + 1) branch := by
  intro n hn step' hstep' name' haction' hfound'
  have hname := h n hn step List.mem_cons_self name haction (by simp [hfound])
  have hroom := hname.pos
  rw [show n - depth = n - (depth + 1) + 1 by omega] at hname
  exact hname.step ⟨⟨branch, hfound, step', hstep', haction'⟩, hfound'⟩

theorem FirstMatch.rebound {bound bound' : Option Nat} {disabled : Option (List Bool)}
    {depth index : Nat} {steps : List RouteStep} {flow : StepFlow DetailedRouteDecision}
    (h : FirstMatch plan hit bound disabled depth index steps flow)
    (hb : Ample plan bound depth steps) (hb' : Ample plan bound' depth steps) :
    FirstMatch plan hit bound' disabled depth index steps flow := by
  induction h with
  | done => exact .done
  | skip inactive _ ih => exact .skip inactive (ih hb.tail hb'.tail)
  | decide active matched action => exact .decide active matched action
  | pass active matched action _ ih => exact .pass active matched action (ih hb.tail hb'.tail)
  | leave active matched action nested => exact .leave active matched action nested
  | @ignore _ depth _ _ _ name _ active matched action absent _ ih =>
    refine .ignore active matched action (.inl ?_) (ih hb.tail hb'.tail)
    rcases absent with hnone | ⟨n, hn, hdeep⟩
    · exact hnone
    · by_contra hfound
      have hwithin := hb.within action (Option.isSome_iff_ne_none.2 hfound) n hn
      omega
  | resume active matched action found within _ back _ ihcall ih =>
    exact .resume active matched action found (hb'.within action (by simp [found]))
      (ihcall (hb.branch action found) (hb'.branch action found)) back (ih hb.tail hb'.tail)
  | finish active matched action found within _ last ihcall =>
    exact .finish active matched action found (hb'.within action (by simp [found]))
      (ihcall (hb.branch action found) (hb'.branch action found)) last

theorem RoutePlan.mem_of_subRule {name : Str} {branch : List RouteStep}
    (h : plan.subRule name = some branch) : (name, branch) ∈ plan.subRules := by
  obtain ⟨l₁, l₂, heq, -⟩ := List.lookup_eq_some_iff.1 h
  rw [heq]
  simp

theorem RoutePlan.mem_names_of_subRule {name : Str} (h : (plan.subRule name).isSome) :
    name ∈ plan.subRules.map Prod.fst := by
  obtain ⟨branch, hbranch⟩ := Option.isSome_iff_exists.1 h
  exact List.mem_map.2 ⟨_, mem_of_subRule hbranch, rfl⟩

theorem ample_of_acyclic (h : plan.Acyclic) (steps : List RouteStep) :
    Ample plan (some plan.subRules.length) 0 steps := by
  rintro n ⟨⟩ step - name - hfound
  have hlength : plan.subRules.length = (plan.subRules.map Prod.fst).length := by simp
  rw [Nat.sub_zero, hlength]
  exact chainBound_of_acyclic h (fun _ _ hedge => plan.mem_names_of_subRule hedge.2)
    (plan.mem_names_of_subRule hfound)

/-- **On plans without circles, the bound changes nothing.** -/
theorem firstMatch_unbounded (h : plan.Acyclic) (disabled : Option (List Bool)) (index : Nat)
    (steps : List RouteStep) (flow : StepFlow DetailedRouteDecision) :
    FirstMatch plan hit (some plan.subRules.length) disabled 0 index steps flow ↔
      FirstMatch plan hit none disabled 0 index steps flow := by
  have hbounded : Ample plan (some plan.subRules.length) 0 steps := ample_of_acyclic h steps
  have hnone : Ample plan none 0 steps := by
    rintro n ⟨⟩
  exact ⟨fun hm => hm.rebound hbounded hnone, fun hm => hm.rebound hnone hbounded⟩

end Unbounded

/-! ### Decisions -/

section Reference

variable (cr : Crates) (engine : RouteEngine) (ctx : FlowContext)

/-- Whether the engine takes a step to match. -/
def RouteEngine.hits (step : RouteStep) : Bool :=
  let input := MatchInput.new cr ctx
  stepMatches cr engine.tables input true (input.resolvedIp.isSome || step.options.noResolve)
    step.matcher

/-- The reference decision: an unbounded walk of the main list, where a step matches if its matcher
holds. -/
def RouteEngine.Decides (decision : DetailedRouteDecision) : Prop :=
  ∃ flow, FirstMatch engine.plan
    (fun step => step.matcher.holds (conditionHolds cr engine.tables (MatchInput.new cr ctx))) none
    (some engine.disabledRules) 0 0 engine.plan.steps flow ∧ flow.decision = decision

theorem RouteEngine.hits_resolved (h : (MatchInput.new cr ctx).resolvedIp.isSome) :
    engine.hits cr ctx = fun step =>
      step.matcher.holds (conditionHolds cr engine.tables (MatchInput.new cr ctx)) := by
  funext step
  rw [hits]
  simp only [h, Bool.true_or]
  exact stepMatches_resolved cr engine.tables _ step.matcher

theorem RouteEngine.decideDetailed_eq :
    engine.decideDetailed cr ctx = (walk engine.plan (engine.hits cr ctx)
      (engine.plan.subRules.length + 1 - 0) (some engine.disabledRules) 0
      engine.plan.steps).decision := rfl

/-- **The engine decides by the first match.**  On every plan, the walk of a connection has exactly
one derivation and the engine returns its decision.  On a plan without circles and a resolved
connection, it returns the reference decision and no other. -/
theorem RouteEngine.decideDetailed_firstMatch :
    (∃ flow, (∀ flow', FirstMatch engine.plan (engine.hits cr ctx)
        (some engine.plan.subRules.length) (some engine.disabledRules) 0 0 engine.plan.steps flow' ↔
          flow' = flow) ∧ flow.decision = engine.decideDetailed cr ctx) ∧
    (engine.plan.Acyclic → (MatchInput.new cr ctx).resolvedIp.isSome →
      ∀ decision, engine.Decides cr ctx decision ↔ engine.decideDetailed cr ctx = decision) := by
  have hwalk : ∀ flow, FirstMatch engine.plan (engine.hits cr ctx)
      (some engine.plan.subRules.length) (some engine.disabledRules) 0 0 engine.plan.steps flow ↔
        flow = walk engine.plan (engine.hits cr ctx) (engine.plan.subRules.length + 1 - 0)
          (some engine.disabledRules) 0 engine.plan.steps := by
    intro flow
    rw [← walk_iff engine.plan (engine.hits cr ctx) (Nat.zero_le _), eq_comm]
  refine ⟨⟨_, hwalk, rfl⟩, fun hacyclic hresolved decision => ?_⟩
  rw [Decides, ← hits_resolved cr engine ctx hresolved, decideDetailed_eq]
  constructor
  · rintro ⟨flow, hflow, rfl⟩
    rw [← firstMatch_unbounded hacyclic, hwalk] at hflow
    rw [hflow]
  · rintro rfl
    exact ⟨_, (firstMatch_unbounded hacyclic ..).1 ((hwalk _).2 rfl), rfl⟩

end Reference

/-- A plan whose sub-rules `a` hand over to `b`, which blocks one domain and passes on the rest. -/
def nestedPlan : RoutePlan where
  steps := [{ matcher := .condition .any, action := .subRule "a" },
    { matcher := .condition .any, action := .group "main" }]
  subRules := [("a", [{ matcher := .condition .any, action := .subRule "b" },
      { matcher := .condition .any, action := .direct }]),
    ("b", [{ matcher := .condition (.port 25), action := .block },
      { matcher := .condition .any, action := .pass }])]

theorem nestedPlan_acyclic : nestedPlan.Acyclic := by
  have hedge : ∀ x y, SubRuleEdge nestedPlan x y → x = ['a'] ∧ y = ['b'] := by
    rintro x y ⟨⟨branch, hbranch, step, hstep, haction⟩, -⟩
    have hmem : (x, branch) ∈ nestedPlan.subRules := nestedPlan.mem_of_subRule hbranch
    simp only [nestedPlan, List.mem_cons, Prod.mk.injEq, List.not_mem_nil, or_false] at hmem
    rcases hmem with ⟨rfl, rfl⟩ | ⟨rfl, rfl⟩ <;>
      simp only [List.mem_cons, List.not_mem_nil, or_false] at hstep <;>
      rcases hstep with rfl | rfl <;> simp_all
  intro x hx
  obtain ⟨y, hxy, -⟩ := TransGen.head'_iff.1 hx
  obtain ⟨z, -, hzx⟩ := TransGen.tail'_iff.1 hx
  have ha := (hedge x y hxy).1
  have hb := (hedge z x hzx).2
  rw [ha] at hb
  cases hb

/-- `PASS` in `b` leaves `a` as well: its second step is not reached. -/
theorem RouteEngine.decideDetailed_nested :
    let engine : RouteEngine := ⟨nestedPlan, {}, [false, false]⟩
    let ctx : FlowContext := { host := "192.0.2.1", port := 443, network := .tcp }
    ∃ decision, engine.Decides .ascii ctx decision ∧ decision.decision = .group "main" := by
  intro engine ctx
  have hresolved : (MatchInput.new .ascii ctx).resolvedIp.isSome := by decide +kernel
  refine ⟨_, ((decideDetailed_firstMatch .ascii engine ctx).2 nestedPlan_acyclic hresolved _).2 rfl,
    ?_⟩
  decide +kernel

end WutherCore.Route
