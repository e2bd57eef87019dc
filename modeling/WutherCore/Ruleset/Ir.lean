import WutherCore.Logic.Kleene
import WutherCore.Ruleset.Context
import WutherCore.Ruleset.DomainSet

/-!
# The semantic ruleset IR

`RulesetExpr` is the Boolean tree that the sing-box JSON and SRS front ends produce.  `matches`
evaluates it on a context; `matchesLazy` evaluates it while process metadata or the destination
address may be pending.

* `matchesLazy_verdict`: on verdicts, `matchesLazy` is the three-valued evaluation of the tree.
* `matchesLazy_decides`: a closed answer holds in every completion of the context.
* `matchesLazy_resolved`: with everything resolved the answer is the one of `matches`.
-/

namespace WutherCore.Ruleset

open WutherCore.Text WutherCore.Net

/-! ### Predicates -/

/-- A closed interval of ports. A reversed one, which the SRS reader lets through, is empty. -/
structure PortRange where
  start : UInt16
  stop : UInt16

/-- `PortRange::new`. -/
def PortRange.new (start stop : UInt16) : Option PortRange :=
  if start ≤ stop then some ⟨start, stop⟩ else none

/-- `PortRange::contains`. -/
def PortRange.contains (r : PortRange) (port : UInt16) : Bool := r.start ≤ port && port ≤ r.stop

/-- A leaf of the IR. A compiled `RegexSet` is its `is_match`. -/
inductive RulesetPredicate
  | domain (domains : List Str)
  | domainSuffix (suffixes : List Str)
  | domainKeyword (keywords : List Str)
  | domainRegex (regex : Str → Bool)
  | dstIpCidr (networks : List IpNet)
  | srcIpCidr (networks : List IpNet)
  | dstPort (ranges : List PortRange)
  | srcPort (ranges : List PortRange)
  | processName (names : List Str)
  | network (networks : List Str)
  | singboxDomainMatcher (matcher : CompactDomainSet)
  | singboxDomainKeyword (keywords : List Str)
  | singboxDomainRegex (regex : Str → Bool)
  | singboxNetwork (networks : List Str)
  | queryType (types : List UInt16)
  | processPath (paths : List Str)
  | processPathRegex (regex : Str → Bool)
  | packageName (packages : List Str)
  | packageNameRegex (regex : Str → Bool)
  | wifiSsid (values : List Str)
  | wifiBssid (values : List Str)
  | networkType (types : List UInt8)
  | networkIsExpensive
  | networkIsConstrained
  | networkInterfaceAddress (requirements : List (UInt8 × List IpNet))
  | defaultInterfaceAddress (prefixes : List IpNet)
  | adGuardDomainMatcher (matcher : CompactDomainSet)

/-- `domain_has_suffix`: a suffix with a leading dot excludes the domain itself. -/
def domainHasSuffix (host suffix : Str) : Bool :=
  if suffix.head? = some '.' then
    decide (1 < suffix.length) && decide (suffix.length < host.length) && endsWith host suffix
  else
    host == suffix || (decide (suffix.length < host.length) && endsWith host ('.' :: suffix))

/-- `char::is_ascii_hexdigit`. -/
def isAsciiHexdigit (c : Char) : Bool :=
  ('0' ≤ c && c ≤ '9') || ('a' ≤ c && c ≤ 'f') || ('A' ≤ c && c ≤ 'F')

/-- Pairs of characters with a colon between. -/
def colonPairs : Str → Str
  | a :: b :: c :: s => a :: b :: ':' :: colonPairs (c :: s)
  | s => s

/-- `normalize_wifi_bssid`: twelve hex digits are written in pairs and lower case. -/
def normalizeWifiBssid (value : Str) : Str :=
  let trimmed := trim value
  let compact := trimmed.filter fun c => !(c == ':' || c == '-' || c == '.')
  if compact.length == 12 && compact.all isAsciiHexdigit then
    toAsciiLowercase (colonPairs compact)
  else trimmed

/-- `ip_networks_overlap`. -/
def ipNetworksOverlap : IpNet → IpNet → Bool
  | .v4 left, .v4 right => left.contains right.network || right.contains left.network
  | .v6 left, .v6 right => left.contains right.network || right.contains left.network
  | _, _ => false

namespace RulesetPredicate

/-- `RulesetPredicate::matches`. The sets behind the two domain matchers come from the SRS reader;
the lookups of such a set stay in bounds. -/
def «matches» (cr : Crates) (ctx : RulesetMatchContext) : RulesetPredicate → Bool
  | domain domains =>
      let host := normalizeDomain cr ctx.dstHost
      !host.isEmpty && domains.any (host == ·)
  | domainSuffix suffixes =>
      let host := normalizeDomain cr ctx.dstHost
      !host.isEmpty && suffixes.any (domainHasSuffix host)
  | domainKeyword keywords =>
      let host := normalizeDomain cr ctx.dstHost
      !host.isEmpty && keywords.any (contains host)
  | domainRegex regex =>
      let host := normalizeDomain cr ctx.dstHost
      !host.isEmpty && regex host
  | dstIpCidr networks => (destinationIp ctx).any fun ip => networks.any (·.contains ip)
  | srcIpCidr networks => ctx.srcIp.any fun ip => networks.any (·.contains ip)
  | dstPort ranges => ctx.dstPort.any fun port => ranges.any (·.contains port)
  | srcPort ranges => ctx.srcPort.any fun port => ranges.any (·.contains port)
  | processName names => ctx.processName.any fun name => names.any (· == name)
  | network networks => ctx.network.any fun network => networks.any (eqIgnoreAsciiCase · network)
  | singboxDomainMatcher matcher =>
      let host := cr.toLowercase ctx.dstHost
      !host.isEmpty && (matcher.matchesDomain host).getD false
  | singboxDomainKeyword keywords =>
      let host := cr.toLowercase ctx.dstHost
      !host.isEmpty && keywords.any (contains host)
  | singboxDomainRegex regex =>
      let host := cr.toLowercase ctx.dstHost
      !host.isEmpty && regex host
  | singboxNetwork networks => ctx.network.any fun network => networks.any (· == network)
  | queryType types => (ctx.queryType.filter (· != 0)).any types.contains
  | processPath paths =>
      ((ctx.processPath.filter (!·.isEmpty)).any fun path => paths.any (· == path)) ||
        (cr.isAndroid && ctx.packageNames.any paths.contains)
  | processPathRegex regex => (ctx.processPath.filter (!·.isEmpty)).any regex
  | packageName packages => ctx.packageNames.any packages.contains
  | packageNameRegex regex => ctx.packageNames.any regex
  | wifiSsid values => ctx.wifiSsid.any fun ssid => values.any (· == ssid)
  | wifiBssid values =>
      (ctx.wifiBssid.map normalizeWifiBssid).any fun bssid => values.any (· == bssid)
  | networkType types => ctx.networkType.any types.contains
  | networkIsExpensive => ctx.networkIsExpensive == some true
  | networkIsConstrained => ctx.networkIsConstrained == some true
  | networkInterfaceAddress requirements =>
      !ctx.networkInterfaceAddresses.isEmpty && requirements.all fun (interfaceType, prefixes) =>
        ctx.networkInterfaceAddresses.any fun interface =>
          !interface.isOwn && interface.interfaceType == interfaceType &&
            prefixes.any (ipNetworksOverlap · interface.address)
  | defaultInterfaceAddress prefixes =>
      !ctx.defaultInterfaceAddresses.isEmpty &&
        prefixes.all fun p => ctx.defaultInterfaceAddresses.any (ipNetworksOverlap p)
  | adGuardDomainMatcher matcher =>
      let host := cr.toLowercase ctx.dstHost
      !host.isEmpty && (matcher.matchesAdguard host).getD false

/-- `requires_process_metadata`. -/
def requiresProcessMetadata : RulesetPredicate → Bool
  | processName _ | processPath _ | processPathRegex _ | packageName _ | packageNameRegex _ => true
  | _ => false

/-- `requires_destination_ip`. -/
def requiresDestinationIp : RulesetPredicate → Bool
  | dstIpCidr _ => true
  | _ => false

theorem matches_withProcess (cr : Crates) {p : RulesetPredicate}
    (h : p.requiresProcessMetadata = false) (ctx : RulesetMatchContext) (m : ProcessMetadata) :
    p.matches cr (ctx.withProcess m) = p.matches cr ctx := by
  cases p <;> first | rfl | simp [requiresProcessMetadata] at h

theorem matches_withDstIp (cr : Crates) {p : RulesetPredicate}
    (h : p.requiresDestinationIp = false) (ctx : RulesetMatchContext) (ip : Option IpAddr) :
    p.matches cr (ctx.withDstIp ip) = p.matches cr ctx := by
  cases p <;> first | rfl | simp [requiresDestinationIp] at h

end RulesetPredicate

/-! ### Expressions -/

/-- The Boolean tree of a rule set. -/
inductive RulesetExpr
  | any (children : List RulesetExpr)
  | all (children : List RulesetExpr)
  | not (child : RulesetExpr)
  | predicate (p : RulesetPredicate)

namespace RulesetExpr

@[elab_as_elim]
theorem induct {motive : RulesetExpr → Prop} (any : ∀ cs, (∀ c ∈ cs, motive c) → motive (any cs))
    (all : ∀ cs, (∀ c ∈ cs, motive c) → motive (all cs))
    (not : ∀ c, motive c → motive (not c)) (predicate : ∀ p, motive (predicate p))
    (e : RulesetExpr) : motive e :=
  @RulesetExpr.rec motive (fun cs => ∀ c ∈ cs, motive c) any all not predicate (by simp)
    (fun _ _ hc hcs => List.forall_mem_cons.2 ⟨hc, hcs⟩) e

section Matches

variable (cr : Crates) (ctx : RulesetMatchContext)

mutual

/-- `RulesetExpr::matches`. -/
def «matches» : RulesetExpr → Bool
  | any children => matchesAny children
  | all children => matchesAll children
  | not child => !child.matches
  | predicate p => p.matches cr ctx

/-- Some child matches. -/
def matchesAny : List RulesetExpr → Bool
  | [] => false
  | child :: children => child.matches || matchesAny children

/-- Every child matches. -/
def matchesAll : List RulesetExpr → Bool
  | [] => true
  | child :: children => child.matches && matchesAll children

end

@[simp] theorem matchesAny_eq (cs : List RulesetExpr) :
    matchesAny cr ctx cs = cs.any (·.matches cr ctx) := by
  induction cs with
  | nil => rfl
  | cons c cs ih => rw [matchesAny, ih, List.any_cons]

@[simp] theorem matchesAll_eq (cs : List RulesetExpr) :
    matchesAll cr ctx cs = cs.all (·.matches cr ctx) := by
  induction cs with
  | nil => rfl
  | cons c cs ih => rw [matchesAll, ih, List.all_cons]

end Matches

/-! ### Lazy evaluation -/

open RulesetMatchOutcome

section Lazy

variable (cr : Crates) (ctx : RulesetMatchContext) (processResolved destinationIpResolved : Bool)

mutual

/-- `RulesetExpr::matches_lazy`. -/
def matchesLazy : RulesetExpr → RulesetMatchOutcome
  | any children => lazyAny false false children
  | all children => lazyAll false false children
  | not child =>
      match child.matchesLazy with
      | matched => notMatched
      | notMatched => matched
      | deferred => deferred
  | predicate p =>
      let needsProcess := !processResolved && p.requiresProcessMetadata
      let needsDestinationIp := !destinationIpResolved && p.requiresDestinationIp
      if needsProcess || needsDestinationIp then
        RulesetMatchOutcome.deferred needsProcess needsDestinationIp
      else if p.matches cr ctx then matched
      else notMatched

/-- The loop over the children of `Any`, with what has been missing so far. -/
def lazyAny (needsProcess needsDestinationIp : Bool) : List RulesetExpr → RulesetMatchOutcome
  | [] => RulesetMatchOutcome.deferred needsProcess needsDestinationIp
  | child :: children =>
      match child.matchesLazy with
      | matched => matched
      | notMatched => lazyAny needsProcess needsDestinationIp children
      | deferred =>
          lazyAny (needsProcess || deferred.requirements.1)
            (needsDestinationIp || deferred.requirements.2) children

/-- The loop over the children of `All`, with what has been missing so far. -/
def lazyAll (needsProcess needsDestinationIp : Bool) : List RulesetExpr → RulesetMatchOutcome
  | [] =>
      if needsProcess || needsDestinationIp then
        RulesetMatchOutcome.deferred needsProcess needsDestinationIp
      else matched
  | child :: children =>
      match child.matchesLazy with
      | notMatched => notMatched
      | matched => lazyAll needsProcess needsDestinationIp children
      | deferred =>
          lazyAll (needsProcess || deferred.requirements.1)
            (needsDestinationIp || deferred.requirements.2) children

end

theorem lazyAny_verdict (np nd : Bool) (cs : List RulesetExpr) :
    (lazyAny cr ctx processResolved destinationIpResolved np nd cs).verdict =
      Kleene.any ((deferred np nd).verdict :: cs.map fun c =>
        (c.matchesLazy cr ctx processResolved destinationIpResolved).verdict) := by
  induction cs generalizing np nd with
  | nil => simp [lazyAny]
  | cons c cs ih =>
    rw [lazyAny, List.map_cons, Kleene.any_cons, Kleene.any_cons]
    cases c.matchesLazy cr ctx processResolved destinationIpResolved with
    | matched => simp
    | notMatched => simp [ih]
    | _ =>
      -- an open child is absorbed by what was missing before it
      rw [ih, Kleene.any_cons, ← Kleene.or_assoc]
      cases np <;> cases nd <;> rfl

theorem lazyAll_verdict (np nd : Bool) (cs : List RulesetExpr) :
    (lazyAll cr ctx processResolved destinationIpResolved np nd cs).verdict =
      Kleene.all ((if np || nd then none else some true) :: cs.map fun c =>
        (c.matchesLazy cr ctx processResolved destinationIpResolved).verdict) := by
  induction cs generalizing np nd with
  | nil => cases np <;> cases nd <;> rfl
  | cons c cs ih =>
    rw [lazyAll, List.map_cons, Kleene.all_cons, Kleene.all_cons]
    cases c.matchesLazy cr ctx processResolved destinationIpResolved with
    | matched => simp [ih]
    | notMatched => simp
    | _ =>
      rw [ih, Kleene.all_cons, ← Kleene.and_assoc]
      cases np <;> cases nd <;> rfl

end Lazy

section Soundness

variable {cr : Crates} {ctx : RulesetMatchContext} {p d : Bool}

theorem not_verdict (e : RulesetExpr) :
    ((not e).matchesLazy cr ctx p d).verdict = Kleene.not (e.matchesLazy cr ctx p d).verdict := by
  rw [matchesLazy]
  cases e.matchesLazy cr ctx p d <;> rfl

theorem predicate_decides (q : RulesetPredicate) :
    Kleene.Decides (completions p d ctx) ((predicate q).matchesLazy cr ctx p d).verdict
      fun c => q.matches cr c := by
  intro b hb c hc
  rw [matchesLazy] at hb
  by_cases hneeds : ((!p && q.requiresProcessMetadata) || (!d && q.requiresDestinationIp)) = true
  · simp [hneeds, deferred_verdict_of_needs hneeds] at hb
  · obtain ⟨m, ip, rfl⟩ := hc
    have hq : q.matches cr ctx = b := by
      simp only [hneeds] at hb
      cases hm : q.matches cr ctx <;> simpa [hm] using hb
    rw [Bool.not_eq_true, Bool.or_eq_false_iff] at hneeds
    obtain ⟨hproc, hip⟩ := hneeds
    -- an unresolved field is not read, a resolved one is unchanged
    have hsame : ∀ c', q.matches cr (if p then c' else c'.withProcess m) = q.matches cr c' := by
      intro c'
      cases p
      · exact q.matches_withProcess cr (by simpa using hproc) c' m
      · rfl
    have hsame' : q.matches cr (if d then ctx else ctx.withDstIp ip) = q.matches cr ctx := by
      cases d
      · exact q.matches_withDstIp cr (by simpa using hip) ctx ip
      · rfl
    rw [← hq, ← hsame', ← hsame]
    cases p <;> cases d <;> rfl

/-- **A closed answer of `matchesLazy` holds in every completion.** -/
theorem matchesLazy_decides (e : RulesetExpr) :
    Kleene.Decides (completions p d ctx) (e.matchesLazy cr ctx p d).verdict
      fun c => e.matches cr c := by
  induction e using induct with
  | any cs ih =>
    rw [matchesLazy, lazyAny_verdict, Kleene.any_cons, deferred, verdict_notMatched,
      Kleene.false_or]
    simpa [«matches»] using Kleene.Decides.any ih
  | all cs ih =>
    rw [matchesLazy, lazyAll_verdict, Kleene.all_cons, Bool.or_self, if_neg (by simp),
      Kleene.true_and]
    simpa [«matches»] using Kleene.Decides.all ih
  | not c ih =>
    rw [not_verdict]
    simpa [«matches»] using ih.not
  | predicate q => simpa [«matches»] using predicate_decides q

theorem matchesLazy_resolved (e : RulesetExpr) :
    e.matchesLazy cr ctx true true = ofBool (e.matches cr ctx) := by
  have hclosed : (e.matchesLazy cr ctx true true).verdict ≠ none := by
    induction e using induct with
    | any cs ih =>
      rw [matchesLazy, lazyAny_verdict]
      refine Kleene.any_ne_none ?_
      simpa [deferred] using ih
    | all cs ih =>
      rw [matchesLazy, lazyAll_verdict]
      refine Kleene.all_ne_none ?_
      simpa using ih
    | not c ih =>
      rw [not_verdict]
      simpa [Kleene.not] using ih
    | predicate q => cases h : q.matches cr ctx <;> simp [matchesLazy, h]
  obtain ⟨b, hb⟩ := Option.ne_none_iff_exists'.1 hclosed
  have hmatches : e.matches cr ctx = b :=
    matchesLazy_decides e b hb ctx (mem_completions_self _ _ _)
  rw [hmatches]
  cases b
  · exact verdict_eq_false.1 hb
  · exact verdict_eq_true.1 hb

end Soundness

/-- **Lazy evaluation is sound and complete**: an answer given while metadata is missing holds in
every completion, and with everything resolved the answer is the one of `matches`. -/
theorem matchesLazy_sound_complete (cr : Crates) (e : RulesetExpr) (ctx : RulesetMatchContext) :
    (∀ processResolved destinationIpResolved,
      (e.matchesLazy cr ctx processResolved destinationIpResolved = matched →
        ∀ c ∈ completions processResolved destinationIpResolved ctx, e.matches cr c = true) ∧
      (e.matchesLazy cr ctx processResolved destinationIpResolved = notMatched →
        ∀ c ∈ completions processResolved destinationIpResolved ctx, e.matches cr c = false)) ∧
    e.matchesLazy cr ctx true true = ofBool (e.matches cr ctx) := by
  refine ⟨fun p d => ⟨fun h => ?_, fun h => ?_⟩, matchesLazy_resolved e⟩
  · exact matchesLazy_decides e true (verdict_eq_true.2 h)
  · exact matchesLazy_decides e false (verdict_eq_false.2 h)

/-! ### Destination addresses -/

mutual

/-- The destination networks of a tree, in the order in which `visit_destination_ip_cidrs` meets
them. Conditions and inversion around them do not count. -/
def destinationIpCidrs : RulesetExpr → List IpNet
  | any children => childrenIpCidrs children
  | all children => childrenIpCidrs children
  | not child => child.destinationIpCidrs
  | predicate (.dstIpCidr networks) => networks
  | predicate _ => []

/-- The destination networks of a list of trees. -/
def childrenIpCidrs : List RulesetExpr → List IpNet
  | [] => []
  | child :: children => child.destinationIpCidrs ++ childrenIpCidrs children

end

mutual

/-- `is_destination_ip_union`. -/
def isDestinationIpUnion : RulesetExpr → Bool
  | predicate (.dstIpCidr _) => true
  | any children => areDestinationIpUnions children
  | all [child] => child.isDestinationIpUnion
  | all _ => false
  | not _ => false
  | predicate _ => false

/-- Every tree of a list is a union of destination networks. -/
def areDestinationIpUnions : List RulesetExpr → Bool
  | [] => true
  | child :: children => child.isDestinationIpUnion && areDestinationIpUnions children

end

theorem childrenIpCidrs_eq (cs : List RulesetExpr) :
    childrenIpCidrs cs = cs.flatMap destinationIpCidrs := by
  induction cs with
  | nil => rfl
  | cons c cs ih => rw [childrenIpCidrs, ih, List.flatMap_cons]

theorem areDestinationIpUnions_eq (cs : List RulesetExpr) :
    areDestinationIpUnions cs = cs.all isDestinationIpUnion := by
  induction cs with
  | nil => rfl
  | cons c cs ih => rw [areDestinationIpUnions, ih, List.all_cons]

/-- **A union of destination networks matches exactly the addresses in its networks.** -/
theorem matches_of_isDestinationIpUnion (cr : Crates) (ctx : RulesetMatchContext) (e : RulesetExpr)
    (h : e.isDestinationIpUnion = true) :
    e.matches cr ctx = (destinationIp ctx).any fun ip => e.destinationIpCidrs.any (·.contains ip) := by
  induction e using induct with
  | any cs ih =>
    rw [isDestinationIpUnion, areDestinationIpUnions_eq, List.all_eq_true] at h
    have hcs : ∀ c ∈ cs, c.matches cr ctx =
        (destinationIp ctx).any fun ip => c.destinationIpCidrs.any (·.contains ip) :=
      fun c hc => ih c hc (h c hc)
    rw [«matches», matchesAny_eq, destinationIpCidrs, childrenIpCidrs_eq]
    cases hip : destinationIp ctx with
    | none => simpa [hip] using hcs
    | some ip =>
      simp only [hip, Option.any_some, List.any_flatMap] at hcs ⊢
      rw [Bool.eq_iff_iff, List.any_eq_true, List.any_eq_true]
      exact exists_congr fun c => and_congr_right fun hc => by rw [hcs c hc]
  | all cs ih =>
    match cs, h with
    | [c], h =>
      have hc := ih c (by simp) (by simpa [isDestinationIpUnion] using h)
      simp [«matches», destinationIpCidrs, childrenIpCidrs, hc]
  | not c ih => simp [isDestinationIpUnion] at h
  | predicate q =>
    cases q with
    | dstIpCidr networks => rfl
    | _ => simp [isDestinationIpUnion] at h

end RulesetExpr

/-! ### Programs -/

/-- `RulesetProgram`. -/
structure RulesetProgram where
  version : UInt8
  ruleCount : Nat
  root : RulesetExpr

namespace RulesetProgram

/-- `RulesetProgram::matches`. -/
def «matches» (cr : Crates) (program : RulesetProgram) (ctx : RulesetMatchContext) : Bool :=
  program.root.matches cr ctx

/-- `RulesetProgram::matches_deferred`. -/
def matchesDeferred (cr : Crates) (program : RulesetProgram) (ctx : RulesetMatchContext)
    (processResolved destinationIpResolved : Bool) : RulesetMatchOutcome :=
  program.root.matchesLazy cr ctx processResolved destinationIpResolved

end RulesetProgram

end WutherCore.Ruleset
