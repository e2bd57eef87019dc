import WutherCore.Route.Engine

/-!
# From a connection to its decision

Before the engine decides, a connection may be given the process behind it and the address of its
host.  Both are looked up on demand: `needsProcess` and `needsDestinationIp` ask for the first
answer on the way that is missing, with `firstRequirement`.

* `decideFor` is the way of a connection through both lookups to `decideDetailed`.
* The first missing answer may be the address, and behind it a rule on the process.  In strict mode
  such a rule is then decided without the process.
* `Disputed` says that a walk reaches a rule whose answer turns on the metadata of the process.
  Where no walk does, the strict mode decides as if the process had been looked up
  (`decideFor_strict`).
-/

namespace WutherCore.Route

open WutherCore.Text WutherCore.Net WutherCore.Ruleset

/-! ### Requirements -/

/-- What a matched step does, by its action: it decides, enters its sub-rules, leaves them or goes on
to the rest. `evaluate_steps` and `first_requirement` have this in common. -/
def takeAction {α : Type} (plan : RoutePlan) (call : List RouteStep → StepFlow α) (depth : Nat)
    (rest : StepFlow α) (decided : α) : RouteAction → StepFlow α
  | .subRule name =>
      match plan.subRule name with
      | none => rest
      | some branch =>
          match call branch with
          | .result value => .result value
          | .continueMain => if depth = 0 then rest else .continueMain
          | .exhausted => rest
  | .pass => if depth > 0 then .continueMain else rest
  | .passRule => rest
  | _ => .result decided

section Requirement

variable (plan : RoutePlan) (state : RouteStep → MatchState)

/-- The loop of `first_requirement`, given the walk of a branch. -/
def requirementSteps (call : List RouteStep → StepFlow MatchState)
    (disabled : Option (List Bool)) (depth : Nat) : Nat → List RouteStep → StepFlow MatchState
  | _, [] => .exhausted
  | index, step :: steps =>
      let rest := requirementSteps call disabled depth (index + 1) steps
      if isDisabled disabled index then rest
      else match state step with
        | .notMatched => rest
        | .matched => takeAction plan call depth rest .matched step.action
        | .deferred process destinationIp => .result (.deferred process destinationIp)

/-- `first_requirement`, by the depth that is left, as in `walk`. -/
def requirement : Nat → Option (List Bool) → Nat → List RouteStep → StepFlow MatchState
  | 0, _, _, _ => .exhausted
  | room + 1, disabled, depth, steps =>
      requirementSteps plan state (requirement room none (depth + 1)) disabled depth 0 steps

end Requirement

section Lookups

variable (cr : Crates) (engine : RouteEngine)

/-- `first_requirement`. -/
def RouteEngine.firstRequirement (input : MatchInput) (processResolved destinationIpResolved : Bool)
    (disabled : Option (List Bool)) (depth : Nat) (steps : List RouteStep) : StepFlow MatchState :=
  requirement engine.plan (fun step => stepMatchState cr engine.tables input processResolved
      (destinationIpResolved || step.options.noResolve) step.matcher)
    (engine.plan.subRules.length + 1 - depth) disabled depth steps

/-- A walk that ended at an answer that waits for the process. -/
def StepFlow.waitsForProcess : StepFlow MatchState → Bool
  | result (.deferred process _) => process
  | _ => false

/-- A walk that ended at an answer that waits for the destination address. -/
def StepFlow.waitsForDestinationIp : StepFlow MatchState → Bool
  | result (.deferred _ destinationIp) => destinationIp
  | _ => false

/-- `needs_process`. -/
def RouteEngine.needsProcess (ctx : FlowContext) : Bool :=
  let input := MatchInput.new cr ctx
  (engine.firstRequirement cr input false input.resolvedIp.isSome (some engine.disabledRules) 0
    engine.plan.steps).waitsForProcess

/-- `needs_destination_ip`. -/
def RouteEngine.needsDestinationIp (ctx : FlowContext) : Bool :=
  if ctx.ip.isSome || (parseIpAddr ctx.host).isSome then false
  else (engine.firstRequirement cr (MatchInput.new cr ctx) true false (some engine.disabledRules) 0
    engine.plan.steps).waitsForDestinationIp

/-! ### The pipeline -/

/-- `FindProcessMode`. -/
inductive FindProcessMode
  | off
  | strict
  | always
  deriving DecidableEq, Repr

/-- `ProcessInfo`. -/
structure ProcessInfo where
  name : Str
  path : Str
  uid : UInt32
  packageNames : List Str := []

/-- What does not belong to the engine: the target of the build, whether the connection is one of
the program's own, what the finder knows about it, and the answers of the resolver, none where it
fails. -/
structure Surroundings where
  windows : Bool := false
  isInner : Bool := false
  found : Option ProcessInfo := none
  resolve : Str → Option (List IpAddr) := fun _ => none

/-- The metadata that a lookup fills in. Windows has no user ids. -/
def FlowContext.withProcess (ctx : FlowContext) (windows : Bool) (info : ProcessInfo) : FlowContext :=
  { ctx with
    process := some info.name
    ruleset := { ctx.ruleset with
      processPath := some info.path
      packageNames := info.packageNames
      uid := if windows then none else some info.uid } }

/-- `enrich_with_process`, on the flow context of the metadata. -/
def RouteEngine.enrichWithProcess (env : Surroundings) (mode : FindProcessMode) (ctx : FlowContext) :
    FlowContext :=
  if ctx.process.isSome then ctx
  else if env.isInner then ctx
  else
    let shouldLookup := match mode with
      | .off => false
      | .always => true
      | .strict => engine.needsProcess cr ctx
    if !shouldLookup then ctx
    else match env.found with
      | none => ctx
      | some info => ctx.withProcess env.windows info

/-- `resolve_route_destination`. -/
def RouteEngine.resolveRouteDestination (env : Surroundings) (ctx : FlowContext) : FlowContext :=
  if !engine.needsDestinationIp cr ctx then ctx
  else match env.resolve ctx.host with
    | some (ip :: _) => { ctx with ip := some ip }
    | _ => ctx

/-- The decision on a connection: `enrich_with_process`, `resolve_route_destination` and
`decide_detailed`, in this order. -/
def RouteEngine.decideFor (env : Surroundings) (mode : FindProcessMode) (ctx : FlowContext) :
    DetailedRouteDecision :=
  engine.decideDetailed cr
    (engine.resolveRouteDestination cr env (engine.enrichWithProcess cr env mode ctx))

end Lookups

/-! ### Walks with disputed answers -/

/-- Two answers as one, which waits where they differ. -/
def MatchState.agreed (s s' : MatchState) : MatchState := if s = s' then s else .deferred true false

/-- What a walk over agreed answers says about the walks over the one answers and over the other:
it stops at a disputed answer, or they end in the same way. -/
inductive Follows {α : Type} : StepFlow MatchState → StepFlow α → StepFlow α → Prop
  | disputed {flow flow'} : Follows (.result (.deferred true false)) flow flow'
  | result {s value} : Follows (.result s) (.result value) (.result value)
  | continueMain : Follows .continueMain .continueMain .continueMain
  | exhausted : Follows .exhausted .exhausted .exhausted

section Follow

variable {plan : RoutePlan} {depth : Nat}

theorem walkSteps_matched {hit : RouteStep → Bool} {step : RouteStep} (h : hit step = true)
    {call : List RouteStep → StepFlow DetailedRouteDecision} {disabled : Option (List Bool)}
    {index : Nat} (hdis : isDisabled disabled index = false) (steps : List RouteStep) :
    walkSteps plan hit call disabled depth index (step :: steps) =
      takeAction plan call depth (walkSteps plan hit call disabled depth (index + 1) steps)
        (reportStep disabled index step) step.action := by
  rw [walkSteps, hdis, h]
  cases step.action with
  | subRule name =>
    simp only [takeAction]
    cases plan.subRule name with
    | none => rfl
    | some branch => cases hcall : call branch <;> simp [hcall]
  | _ => rfl

theorem walkSteps_skipped {hit : RouteStep → Bool} {step : RouteStep}
    {call : List RouteStep → StepFlow DetailedRouteDecision} {disabled : Option (List Bool)}
    {index : Nat} (h : isDisabled disabled index = true ∨ hit step = false)
    (steps : List RouteStep) :
    walkSteps plan hit call disabled depth index (step :: steps) =
      walkSteps plan hit call disabled depth (index + 1) steps := by
  rw [walkSteps]
  rcases h with h | h
  · rw [if_pos h]
  · rw [h, Bool.not_false, if_pos rfl, ite_self]

/-- Walks that agree on the branches and on the rest agree on a matched step. -/
theorem takeAction_follows {α : Type} {callF : List RouteStep → StepFlow MatchState}
    {call call' : List RouteStep → StepFlow α}
    (hcall : ∀ branch, Follows (callF branch) (call branch) (call' branch))
    {restF : StepFlow MatchState} {rest rest' : StepFlow α} (hrest : Follows restF rest rest')
    (s : MatchState) (value : α) (action : RouteAction) :
    Follows (takeAction plan callF depth restF s action)
      (takeAction plan call depth rest value action)
      (takeAction plan call' depth rest' value action) := by
  cases action with
  | direct | block | group name => exact .result
  | passRule => exact hrest
  | pass =>
    by_cases hdepth : depth > 0
    · simp only [takeAction, if_pos hdepth]
      exact .continueMain
    · simp only [takeAction, if_neg hdepth]
      exact hrest
  | subRule name =>
    simp only [takeAction]
    cases plan.subRule name with
    | none => exact hrest
    | some branch =>
      -- what the branches end in decides whether the rest is walked
      have hbranch := hcall branch
      dsimp only
      revert hbranch
      generalize callF branch = flowF, call branch = flow, call' branch = flow'
      intro hbranch
      cases hbranch with
      | disputed => exact .disputed
      | result => exact .result
      | exhausted => exact hrest
      | continueMain =>
        by_cases hdepth : depth = 0
        · simp only [if_pos hdepth]
          exact hrest
        · simp only [if_neg hdepth]
          exact .continueMain

theorem walkSteps_follows {hit hit' : RouteStep → Bool}
    {callF : List RouteStep → StepFlow MatchState}
    {call call' : List RouteStep → StepFlow DetailedRouteDecision}
    (hcall : ∀ branch, Follows (callF branch) (call branch) (call' branch))
    (disabled : Option (List Bool)) (index : Nat) (steps : List RouteStep) :
    Follows (requirementSteps plan
        (fun step => (MatchState.ofBool (hit step)).agreed (.ofBool (hit' step))) callF disabled depth
        index steps)
      (walkSteps plan hit call disabled depth index steps)
      (walkSteps plan hit' call' disabled depth index steps) := by
  induction steps generalizing index with
  | nil => exact .exhausted
  | cons step steps ih =>
    rw [requirementSteps]
    by_cases hdis : isDisabled disabled index = true
    · rw [if_pos hdis, walkSteps_skipped (.inl hdis), walkSteps_skipped (.inl hdis)]
      exact ih _
    rw [if_neg hdis]
    rw [Bool.not_eq_true] at hdis
    cases hhit : hit step <;> cases hhit' : hit' step
    · rw [walkSteps_skipped (.inr hhit), walkSteps_skipped (.inr hhit')]
      exact ih _
    · exact .disputed
    · exact .disputed
    · rw [walkSteps_matched hhit hdis, walkSteps_matched hhit' hdis]
      exact takeAction_follows hcall (ih _) _ _ _

theorem requirementSteps_follows {state state' : RouteStep → MatchState}
    {callF call call' : List RouteStep → StepFlow MatchState}
    (hcall : ∀ branch, Follows (callF branch) (call branch) (call' branch))
    (disabled : Option (List Bool)) (index : Nat) (steps : List RouteStep) :
    Follows (requirementSteps plan (fun step => (state step).agreed (state' step)) callF disabled
        depth index steps)
      (requirementSteps plan state call disabled depth index steps)
      (requirementSteps plan state' call' disabled depth index steps) := by
  induction steps generalizing index with
  | nil => exact .exhausted
  | cons step steps ih =>
    rw [requirementSteps, requirementSteps, requirementSteps]
    by_cases hdis : isDisabled disabled index = true
    · rw [if_pos hdis, if_pos hdis, if_pos hdis]
      exact ih _
    rw [if_neg hdis, if_neg hdis, if_neg hdis, MatchState.agreed]
    by_cases hsame : state step = state' step
    · rw [if_pos hsame, ← hsame]
      cases state step with
      | notMatched => exact ih _
      | matched => exact takeAction_follows hcall (ih _) _ _ _
      | deferred process destinationIp => exact .result
    · rw [if_neg hsame]
      exact .disputed

theorem walk_follows (hit hit' : RouteStep → Bool) (room : Nat) (disabled : Option (List Bool))
    (steps : List RouteStep) :
    Follows (requirement plan
        (fun step => (MatchState.ofBool (hit step)).agreed (.ofBool (hit' step))) room disabled depth
        steps)
      (walk plan hit room disabled depth steps) (walk plan hit' room disabled depth steps) := by
  induction room generalizing disabled depth steps with
  | zero => exact .exhausted
  | succ room ih => exact walkSteps_follows (fun branch => ih none branch) disabled 0 steps

theorem requirement_follows (state state' : RouteStep → MatchState) (room : Nat)
    (disabled : Option (List Bool)) (steps : List RouteStep) :
    Follows (requirement plan (fun step => (state step).agreed (state' step)) room disabled depth
        steps)
      (requirement plan state room disabled depth steps)
      (requirement plan state' room disabled depth steps) := by
  induction room generalizing disabled depth steps with
  | zero => exact .exhausted
  | succ room ih => exact requirementSteps_follows (fun branch => ih none branch) disabled 0 steps

theorem Follows.eq {α : Type} {flowF : StepFlow MatchState} {flow flow' : StepFlow α}
    (h : Follows flowF flow flow') (hne : flowF ≠ .result (.deferred true false)) : flow = flow' := by
  cases h with
  | disputed => exact absurd rfl hne
  | result | continueMain | exhausted => rfl

/-- A step that decides when it matches. -/
def RouteStep.Decides (step : RouteStep) : Prop :=
  step.action = .direct ∨ step.action = .block ∨ ∃ name, step.action = .group name

theorem takeAction_decides {α : Type} {step : RouteStep} (h : step.Decides)
    (call : List RouteStep → StepFlow α) (rest : StepFlow α) (value : α) :
    takeAction plan call depth rest value step.action = .result value := by
  rcases h with h | h | ⟨name, h⟩ <;> rw [h] <;> rfl

theorem walkSteps_index {hit : RouteStep → Bool}
    {call : List RouteStep → StepFlow DetailedRouteDecision} {disabled : List Bool}
    {steps : List RouteStep} (hsteps : ∀ step ∈ steps, step.Decides) {i index : Nat}
    (h : i < index) :
    (walkSteps plan hit call (some disabled) depth index steps).decision.hit.index ≠ some i := by
  induction steps generalizing index with
  | nil => exact nofun
  | cons step steps ih =>
    obtain ⟨hstep, hsteps⟩ := List.forall_mem_cons.1 hsteps
    by_cases hskip : isDisabled (some disabled) index = true ∨ hit step = false
    · rw [walkSteps_skipped hskip]
      exact ih hsteps (by omega)
    · simp only [not_or, Bool.not_eq_true, Bool.not_eq_false] at hskip
      rw [walkSteps_matched hskip.2 hskip.1, takeAction_decides hstep]
      show some index ≠ some i
      exact fun heq => h.ne' (Option.some.inj heq)

/-- Where all steps decide, the first disputed step makes the difference: one walk reports it, the
other only later steps. -/
theorem walkSteps_ne {hit hit' : RouteStep → Bool} {callF : List RouteStep → StepFlow MatchState}
    {call call' : List RouteStep → StepFlow DetailedRouteDecision} {disabled : List Bool}
    {steps : List RouteStep} (hsteps : ∀ step ∈ steps, step.Decides) {index : Nat}
    (h : requirementSteps plan
        (fun step => (MatchState.ofBool (hit step)).agreed (.ofBool (hit' step))) callF (some disabled)
        depth index steps = .result (.deferred true false)) :
    (walkSteps plan hit call (some disabled) depth index steps).decision ≠
      (walkSteps plan hit' call' (some disabled) depth index steps).decision := by
  induction steps generalizing index with
  | nil => cases h
  | cons step steps ih =>
    obtain ⟨hstep, hsteps⟩ := List.forall_mem_cons.1 hsteps
    have hlater : ∀ hit call, (walkSteps plan hit call (some disabled) depth (index + 1)
        steps).decision.hit.index ≠ some index :=
      fun hit call => walkSteps_index hsteps (Nat.lt_succ_self index)
    rw [requirementSteps] at h
    by_cases hdis : isDisabled (some disabled) index = true
    · rw [if_pos hdis] at h
      rw [walkSteps_skipped (.inl hdis), walkSteps_skipped (.inl hdis)]
      exact ih hsteps h
    rw [if_neg hdis] at h
    rw [Bool.not_eq_true] at hdis
    cases hhit : hit step <;> cases hhit' : hit' step <;> rw [hhit, hhit'] at h
    · rw [walkSteps_skipped (.inr hhit), walkSteps_skipped (.inr hhit')]
      exact ih hsteps h
    · rw [walkSteps_skipped (.inr hhit), walkSteps_matched hhit' hdis, takeAction_decides hstep]
      intro heq
      exact hlater hit call (congrArg (·.hit.index) heq)
    · rw [walkSteps_skipped (.inr hhit'), walkSteps_matched hhit hdis, takeAction_decides hstep]
      intro heq
      exact hlater hit' call' (congrArg (·.hit.index) heq.symm)
    · rw [show (MatchState.ofBool true).agreed (.ofBool true) = .matched from rfl] at h
      dsimp only at h
      rw [takeAction_decides hstep] at h
      cases h

end Follow

/-! ### Lookups on demand -/

section OnDemand

variable (cr : Crates) (engine : RouteEngine)

/-- The answer of the engine to a step, once the process is as resolved as it will be. -/
def RouteEngine.answer (ctx : FlowContext) (step : RouteStep) : MatchState :=
  let input := MatchInput.new cr ctx
  stepMatchState cr engine.tables input true (input.resolvedIp.isSome || step.options.noResolve)
    step.matcher

/-- The main list, walked over two ways to answer, reaches a step on which they differ. -/
def RouteEngine.Disputed (state state' : RouteStep → MatchState) : Prop :=
  requirement engine.plan (fun step => (state step).agreed (state' step))
    (engine.plan.subRules.length + 1) (some engine.disabledRules) 0 engine.plan.steps =
      .result (.deferred true false)

/-- Nothing in the search for a rule on the destination address turns on the metadata of a process. A
connection whose address is known needs no search. -/
def RouteEngine.SearchSettled (env : Surroundings) (ctx : FlowContext) (info : ProcessInfo) : Prop :=
  (MatchInput.new cr ctx).resolvedIp = none →
    ¬engine.Disputed (engine.answer cr ctx) (engine.answer cr (ctx.withProcess env.windows info))

/-- Nothing in the decision turns on the metadata of a process. -/
def RouteEngine.DecisionSettled (env : Surroundings) (ctx : FlowContext) (info : ProcessInfo) : Prop :=
  ¬engine.Disputed
    (fun step => .ofBool (engine.hits cr (engine.resolveRouteDestination cr env ctx) step))
    (fun step => .ofBool (engine.hits cr
      ((engine.resolveRouteDestination cr env ctx).withProcess env.windows info) step))

/-- A lookup on demand is as good as one in advance: the process is known or not asked for, it is
needed at once, or nothing turns on it. -/
def RouteEngine.LookupOnDemand (env : Surroundings) (ctx : FlowContext) : Prop :=
  ctx.process.isSome ∨ env.isInner = true ∨ engine.needsProcess cr ctx = true ∨
    ∀ info, env.found = some info →
      engine.SearchSettled cr env ctx info ∧ engine.DecisionSettled cr env ctx info

variable {cr engine}

theorem RouteEngine.resolvedIp_withProcess (ctx : FlowContext) (windows : Bool)
    (info : ProcessInfo) :
    (MatchInput.new cr (ctx.withProcess windows info)).resolvedIp =
      (MatchInput.new cr ctx).resolvedIp := rfl

theorem RouteEngine.needsDestinationIp_eq (ctx : FlowContext) :
    engine.needsDestinationIp cr ctx = ((MatchInput.new cr ctx).resolvedIp.isNone &&
      (requirement engine.plan (engine.answer cr ctx) (engine.plan.subRules.length + 1)
        (some engine.disabledRules) 0 engine.plan.steps).waitsForDestinationIp) := by
  have hresolved : (MatchInput.new cr ctx).resolvedIp.isSome =
      (ctx.ip.isSome || (parseIpAddr ctx.host).isSome) := by
    simp [MatchInput.new]
  rw [needsDestinationIp, ← hresolved]
  cases hip : (MatchInput.new cr ctx).resolvedIp with
  | some ip => rfl
  | none =>
    have hanswer : engine.answer cr ctx = fun step => stepMatchState cr engine.tables
        (MatchInput.new cr ctx) true (false || step.options.noResolve) step.matcher := by
      funext step
      rw [answer, hip, Option.isSome_none]
    rw [hanswer]
    rfl

/-- Where the search for a rule on the address is settled, the metadata does not change its
result. -/
theorem RouteEngine.resolveRouteDestination_withProcess {env : Surroundings} {ctx : FlowContext}
    {info : ProcessInfo} (h : engine.SearchSettled cr env ctx info) :
    engine.resolveRouteDestination cr env (ctx.withProcess env.windows info) =
      (engine.resolveRouteDestination cr env ctx).withProcess env.windows info := by
  have hneeds : engine.needsDestinationIp cr (ctx.withProcess env.windows info) =
      engine.needsDestinationIp cr ctx := by
    rw [needsDestinationIp_eq, needsDestinationIp_eq, resolvedIp_withProcess]
    cases hip : (MatchInput.new cr ctx).resolvedIp with
    | some ip => rw [Option.isNone_some, Bool.false_and, Bool.false_and]
    | none => rw [(requirement_follows _ _ _ _ _).eq (h hip)]
  rw [resolveRouteDestination, resolveRouteDestination, hneeds]
  cases engine.needsDestinationIp cr ctx with
  | false => rfl
  | true =>
    show (match env.resolve ctx.host with | some (ip :: _) => _ | _ => _) = _
    rcases env.resolve ctx.host with _ | _ | ⟨ip, ips⟩ <;> rfl

theorem RouteEngine.decideDetailed_of_not_disputed {ctx ctx' : FlowContext}
    (h : ¬engine.Disputed (fun step => .ofBool (engine.hits cr ctx step))
      (fun step => .ofBool (engine.hits cr ctx' step))) :
    engine.decideDetailed cr ctx = engine.decideDetailed cr ctx' := by
  rw [decideDetailed_eq, decideDetailed_eq]
  exact congrArg StepFlow.decision ((walk_follows _ _ _ _ _).eq h)

theorem RouteEngine.not_disputed_of_decideDetailed {ctx ctx' : FlowContext}
    (hplan : ∀ step ∈ engine.plan.steps, step.Decides)
    (h : engine.decideDetailed cr ctx = engine.decideDetailed cr ctx') :
    ¬engine.Disputed (fun step => .ofBool (engine.hits cr ctx step))
      (fun step => .ofBool (engine.hits cr ctx' step)) := by
  intro hdisputed
  rw [decideDetailed_eq, decideDetailed_eq] at h
  exact walkSteps_ne hplan hdisputed h

theorem RouteEngine.enrichWithProcess_strict (cr : Crates) (engine : RouteEngine)
    (env : Surroundings) (ctx : FlowContext) :
    engine.LookupOnDemand cr env ctx ∧
        engine.enrichWithProcess cr env .strict ctx = engine.enrichWithProcess cr env .always ctx ∨
      ctx.process = none ∧ env.isInner = false ∧ engine.needsProcess cr ctx = false ∧
        engine.enrichWithProcess cr env .strict ctx = ctx ∧
        ∃ info, env.found = some info ∧
          engine.enrichWithProcess cr env .always ctx = ctx.withProcess env.windows info := by
  unfold enrichWithProcess LookupOnDemand
  cases hprocess : ctx.process with
  | some process => exact .inl ⟨.inl rfl, rfl⟩
  | none =>
    cases hinner : env.isInner with
    | true => exact .inl ⟨.inr (.inl rfl), rfl⟩
    | false =>
      cases hneeds : engine.needsProcess cr ctx with
      | true => exact .inl ⟨.inr (.inr (.inl rfl)), rfl⟩
      | false =>
        cases hfound : env.found with
        | none => exact .inl ⟨.inr (.inr (.inr nofun)), rfl⟩
        | some info => exact .inr ⟨rfl, rfl, rfl, rfl, info, rfl, rfl⟩

/-- **The strict mode decides as if the process had been looked up**, where the lookup on demand is
as good as one in advance.  Where all steps of the main list decide and the search for the address
is settled, this is also necessary: the first step on which the metadata tells makes the difference. -/
theorem RouteEngine.decideFor_strict (cr : Crates) (engine : RouteEngine) (env : Surroundings)
    (ctx : FlowContext) :
    (engine.LookupOnDemand cr env ctx →
      engine.decideFor cr env .strict ctx = engine.decideFor cr env .always ctx) ∧
    ((∀ step ∈ engine.plan.steps, step.Decides) →
      (∀ info, env.found = some info → engine.SearchSettled cr env ctx info) →
        engine.decideFor cr env .strict ctx = engine.decideFor cr env .always ctx →
          engine.LookupOnDemand cr env ctx) := by
  rcases enrichWithProcess_strict cr engine env ctx with
    ⟨hdemand, hsame⟩ | ⟨hprocess, hinner, hneeds, hstrict, info, hfound, halways⟩
  · rw [decideFor, decideFor, hsame]
    exact ⟨fun _ => rfl, fun _ _ _ => hdemand⟩
  · have hcond : engine.LookupOnDemand cr env ctx ↔
        engine.SearchSettled cr env ctx info ∧ engine.DecisionSettled cr env ctx info := by
      simp [LookupOnDemand, hprocess, hinner, hneeds, hfound]
    rw [hcond, decideFor, decideFor, hstrict, halways]
    refine ⟨fun h => ?_, fun hplan hsearch h => ⟨hsearch info hfound, ?_⟩⟩
    · rw [resolveRouteDestination_withProcess h.1]
      exact decideDetailed_of_not_disputed h.2
    · rw [resolveRouteDestination_withProcess (hsearch info hfound)] at h
      exact not_disputed_of_decideDetailed hplan h

end OnDemand

/-- A plan with a rule on the address in front of a rule on the process. -/
def addressFirst : RoutePlan where
  steps := [{ matcher := .condition (.cidr "10.0.0.0/8"), action := .direct },
    { matcher := .condition (.process "curl"), action := .group "proxy" },
    { matcher := .condition .any, action := .block }]

/-- `curl` asks for a host whose address is outside of the network. -/
def curlSurroundings : Surroundings where
  found := some { name := "curl", path := "/usr/bin/curl", uid := 1000 }
  resolve := fun _ => some [.v4 0x5db8d822#32]

/-- A connection by `curl`. -/
def curlFlow (host : String) : FlowContext := { host, port := 443, network := .tcp }

theorem RouteEngine.plan_of_new {cr : Crates} {plan : RoutePlan} {rulesets : Option RulesetIndex}
    {engine : RouteEngine} (h : RouteEngine.new cr plan rulesets = some engine) :
    engine.plan = plan := by
  simp only [RouteEngine.new, Option.bind_eq_bind, Option.bind_eq_some_iff] at h
  obtain ⟨prepared, -, h⟩ := h
  cases h
  rfl

/-- A connection to an address inside of the network is settled by the first rule. -/
theorem RouteEngine.decideFor_strict_inside :
    ∃ engine, RouteEngine.new .ascii addressFirst none = some engine ∧
      engine.LookupOnDemand .ascii curlSurroundings (curlFlow "10.0.0.1") ∧
        engine.decideFor .ascii curlSurroundings .strict (curlFlow "10.0.0.1") =
          engine.decideFor .ascii curlSurroundings .always (curlFlow "10.0.0.1") := by
  have hrun : (RouteEngine.new .ascii addressFirst none).map (fun engine =>
      decide (engine.decideFor .ascii curlSurroundings .strict (curlFlow "10.0.0.1") =
        engine.decideFor .ascii curlSurroundings .always (curlFlow "10.0.0.1"))) = some true := by decide +kernel
  obtain ⟨engine, hengine, hsame⟩ := Option.map_eq_some_iff.1 hrun
  have hdecides : ∀ step ∈ engine.plan.steps, step.Decides := by
    rw [plan_of_new hengine]
    simp [addressFirst, RouteStep.Decides]
  have hspec := decideFor_strict .ascii engine curlSurroundings (curlFlow "10.0.0.1")
  have hdemand := hspec.2 hdecides (fun _ _ hnone => by
    have hsome : parseIpAddr "10.0.0.1" ≠ none := by decide +kernel
    exact absurd hnone hsome) (of_decide_eq_true hsame)
  exact ⟨engine, hengine, hdemand, hspec.1 hdemand⟩

/-- The first rule waits for the address, so the process is not looked up; then the second rule does
not match, although it is `curl` that asks. -/
theorem RouteEngine.decideFor_addressFirst :
    ¬∀ (cr : Crates) (plan : RoutePlan) (rulesets : Option RulesetIndex) (engine : RouteEngine),
      RouteEngine.new cr plan rulesets = some engine → ∀ env ctx,
        engine.decideFor cr env .strict ctx = engine.decideFor cr env .always ctx := by
  intro h
  have hrun : (RouteEngine.new .ascii addressFirst none).map (fun engine =>
      ((engine.decideFor .ascii curlSurroundings .strict (curlFlow "example.com")).decision,
        (engine.decideFor .ascii curlSurroundings .always (curlFlow "example.com")).decision)) =
      some (.block, .group "proxy") := by decide +kernel
  obtain ⟨engine, hengine, heq⟩ := Option.map_eq_some_iff.1 hrun
  rw [h .ascii addressFirst none engine hengine curlSurroundings] at heq
  obtain ⟨hblock, hgroup⟩ := Prod.mk.inj heq
  rw [hblock] at hgroup
  cases hgroup

end WutherCore.Route
