import WutherCore.Ruleset.Matcher

/-!
# Deferred evaluation of classical rule sets

`matchesContextDeferred` answers before the process or the destination address is known.  A closed
answer is trusted by the route engine, so it should hold in every completion of the context.

* `NotMatched` does, except that rules marked `no-resolve` are answered as if the address stayed
  unknown.
* `Matched` does when the rules on pending metadata do not stand under a negation.

Both parts rest on one fact about a matcher: a completion changes nothing but its rules on the
destination address and on the process (`matchesContextWith_eq`).
-/

namespace WutherCore.Ruleset

open WutherCore.Text WutherCore.Net WutherCore.Data

/-! ### Rules on pending metadata -/

namespace ClassicalKind

/-- The kinds of rules that read the process. -/
def readsProcess : ClassicalKind → Bool
  | processName | processPath | processNameRegex | processPathRegex | processNameWildcard
  | processPathWildcard => true
  | _ => false

/-- The kinds of rules that read the destination address. -/
def readsDestinationIp : ClassicalKind → Bool
  | ipCidr | ipSuffix => true
  | _ => false

end ClassicalKind

/-- Whether an entry reads metadata that is not resolved. -/
def readsPending (processResolved destinationIpResolved : Bool) (e : ClassicalEntry) : Bool :=
  (!processResolved && e.kind.readsProcess) ||
    (!destinationIpResolved && e.kind.readsDestinationIp)

/-- Whether an entry reads the destination address without asking for it. -/
def isSilent (e : ClassicalEntry) : Bool := e.kind.readsDestinationIp && e.noResolve

/-- What is not resolved is absent. -/
structure Pending (processResolved destinationIpResolved : Bool) (ctx : RulesetMatchContext) :
    Prop where
  process : processResolved = false →
    ctx.processName = none ∧ ctx.processPath = none ∧ ctx.packageNames = []
  destination : destinationIpResolved = false → destinationIp ctx = none

/-! ### One matcher -/

section Matcher

variable {L : Type} {cr : Crates} {m : RulesetMatcher L} {ctx c : RulesetMatchContext} {p d : Bool}

/-- The rules that a completion cannot change. -/
def RulesetMatcher.matchesFixed (cr : Crates) (m : RulesetMatcher L) (ctx : RulesetMatchContext) :
    Bool :=
  m.matchAll || m.matchesHost cr ctx || ctx.srcIp.any (m.matchesSourceIp cr) ||
    m.matchesRegion ctx || m.matchesMetadata cr ctx

@[simp] theorem matchesFixed_install {prefixes : Except RulesetPrefixError IpPrefixes}
    {semantics : RulesetIpPrefixSemantics} :
    (m.installDestinationPrefixes prefixes semantics).matchesFixed cr ctx =
      m.matchesFixed cr ctx := by
  cases prefixes <;> rfl

theorem matchesContextWith_eq (hm : m.semanticProgram = none) (rule : L → Bool) :
    m.matchesContextWith cr ctx rule =
      (m.matchesFixed cr ctx || (destinationIp ctx).any (m.matchesDestinationIp cr) ||
        m.matchesProcess cr ctx || m.logicalRules.any rule) := by
  simp only [RulesetMatcher.matchesContextWith, hm, RulesetMatcher.matchesFixed]
  ac_rfl

theorem matchesFixed_completion (hc : c ∈ completions p d ctx) :
    m.matchesFixed cr c = m.matchesFixed cr ctx := by
  obtain ⟨pm, ip, rfl⟩ := hc
  cases p <;> cases d <;> rfl

theorem destinationIp_completion (hc : c ∈ completions p true ctx) :
    destinationIp c = destinationIp ctx := by
  obtain ⟨pm, ip, rfl⟩ := hc
  cases p <;> rfl

theorem matchesProcess_completion (hc : c ∈ completions true d ctx) :
    m.matchesProcess cr c = m.matchesProcess cr ctx := by
  obtain ⟨pm, ip, rfl⟩ := hc
  cases d <;> rfl

theorem matchesProcess_eq_false (hm : m.readsProcess = false) :
    m.matchesProcess cr ctx = false := by
  simp only [RulesetMatcher.readsProcess, Bool.or_eq_false_iff, Bool.not_eq_false',
    List.isEmpty_iff, Option.isSome_eq_false_iff, Option.isNone_iff_eq_none] at hm
  obtain ⟨⟨⟨⟨⟨h1, h2⟩, h3⟩, h4⟩, h5⟩, h6⟩ := hm
  have hname : ∀ s, m.matchesProcessName s = false := by
    simp [RulesetMatcher.matchesProcessName, h1, h3, h5]
  have hpath : ∀ s, m.matchesProcessPath cr s = false := by
    simp [RulesetMatcher.matchesProcessPath, h2, h4, h6]
  simp [RulesetMatcher.matchesProcess, hname, hpath, Option.any_eq_false]

theorem matchesContextWith_congr (hm : m.semanticProgram = none)
    (hproc : p = false → m.readsProcess = false)
    (hdst : d = false → ∀ ip, m.matchesDestinationIp cr ip = false) {rule rule' : L → Bool}
    (hrule : ∀ l ∈ m.logicalRules, rule' l = rule l) (hc : c ∈ completions p d ctx) :
    m.matchesContextWith cr c rule' = m.matchesContextWith cr ctx rule := by
  have hp : m.matchesProcess cr c = m.matchesProcess cr ctx := by
    cases p
    · rw [matchesProcess_eq_false (hproc rfl), matchesProcess_eq_false (hproc rfl)]
    · exact matchesProcess_completion hc
  have hd : (destinationIp c).any (m.matchesDestinationIp cr) =
      (destinationIp ctx).any (m.matchesDestinationIp cr) := by
    cases d
    · have hnone : m.matchesDestinationIp cr = fun _ => false := funext (hdst rfl)
      rw [hnone]
      cases destinationIp c <;> cases destinationIp ctx <;> rfl
    · rw [destinationIp_completion hc]
  have hr : m.logicalRules.any rule' = m.logicalRules.any rule := by
    rw [Bool.eq_iff_iff, List.any_eq_true, List.any_eq_true]
    exact exists_congr fun l => and_congr_right fun hl => by rw [hrule l hl]
  rw [matchesContextWith_eq hm, matchesContextWith_eq hm, matchesFixed_completion hc, hp, hd, hr]

theorem matchesContextWith_mono (hm : m.semanticProgram = none) (hpend : Pending p d ctx)
    {rule rule' : L → Bool} (hrule : ∀ l ∈ m.logicalRules, rule l = true → rule' l = true)
    (hc : c ∈ completions p d ctx) (h : m.matchesContextWith cr ctx rule = true) :
    m.matchesContextWith cr c rule' = true := by
  rw [matchesContextWith_eq hm] at h ⊢
  simp only [Bool.or_eq_true, matchesFixed_completion hc] at h ⊢
  rcases h with ((h | h) | h) | h
  · exact .inl (.inl (.inl h))
  · refine .inl (.inl (.inr ?_))
    cases d
    · simp [hpend.destination rfl] at h
    · rwa [destinationIp_completion hc]
  · refine .inl (.inr ?_)
    cases p
    · obtain ⟨hname, hpath, hpkg⟩ := hpend.process rfl
      simp [RulesetMatcher.matchesProcess, hname, hpath, hpkg] at h
    · rwa [matchesProcess_completion hc]
  · obtain ⟨l, hl, h⟩ := List.any_eq_true.1 h
    exact .inr (List.any_eq_true.2 ⟨l, hl, hrule l hl h⟩)

end Matcher

/-! ### Compiled entries -/

section Compiled

variable {L : Type} {cr : Crates} {logical : ClassicalEntry → Option L} {name : Str}
  {es : List ClassicalEntry}

theorem compileWith_semanticProgram : (compileWith cr logical name es).semanticProgram = none := by
  rw [compileWith, RulesetMatcher.semanticProgram_install]
  rfl

theorem compileWith_matchesDestinationIp (laws : cr.IpNetworkLaws)
    (hcidr : ∀ e ∈ es, e.kind = .ipCidr → cr.parseIpNet e.value = none)
    (hsuffix : ∀ e ∈ es, e.kind = .ipSuffix → parseIpSuffix e.value = none) (ip : IpAddr) :
    (compileWith cr logical name es).matchesDestinationIp cr ip = false := by
  have hvalues : ∀ {β : Type} (kind : ClassicalKind) (f : Str → Option β),
      (∀ e ∈ es, e.kind = kind → f e.value = none) → (valuesOf kind es).filterMap f = [] := by
    intro β kind f hf
    rw [List.filterMap_eq_nil_iff]
    intro v hv
    obtain ⟨e, he, rfl⟩ := List.mem_map.1 hv
    exact hf e (List.mem_of_mem_filter he) (by simpa using (List.mem_filter.1 he).2)
  have htable : tableOf cr (cidrsOf cr .ipCidr es) = {} := by
    rw [cidrsOf, hvalues _ _ hcidr]
    rfl
  rw [compileWith, RulesetMatcher.matchesDestinationIp_install]
  simp only [RulesetMatcher.matchesDestinationIp, compileRules, hvalues _ _ hsuffix, htable,
    PrefixTable.contains, laws.longestMatch_eq]
  cases ip <;> rfl

/-- A compiled matcher that does not ask for the destination address has no rule on it, unless one
is marked `no-resolve`. -/
theorem compileWith_silent (laws : cr.IpNetworkLaws) (hsilent : ∀ e ∈ es, isSilent e = false)
    (hask : (compileWith cr logical name es).asksDestinationIp = false) (ip : IpAddr) :
    (compileWith cr logical name es).matchesDestinationIp cr ip = false := by
  have hres : ∀ e ∈ es, requiresResolution cr e = false := by
    rw [compileWith, RulesetMatcher.asksDestinationIp_install] at hask
    have hflag : es.any (requiresResolution cr) = false := by
      simpa [RulesetMatcher.asksDestinationIp, compileRules] using hask
    simpa [List.any_eq_false] using hflag
  refine compileWith_matchesDestinationIp laws (fun e he hk => ?_) (fun e he hk => ?_) ip
  · have h1 := hsilent e he
    have h2 := hres e he
    simp_all [isSilent, requiresResolution, ClassicalKind.readsDestinationIp]
  · have h1 := hsilent e he
    have h2 := hres e he
    simp_all [isSilent, requiresResolution, ClassicalKind.readsDestinationIp]

theorem valuesOf_singleton {kind : ClassicalKind} {e : ClassicalEntry} (h : e.kind ≠ kind) :
    valuesOf kind [e] = [] := by
  simp [valuesOf, ofKind, h]

theorem compileLeaf_readsProcess {e : ClassicalEntry} (h : e.kind.readsProcess = false) :
    (compileLeaf cr e).readsProcess = false := by
  have hvalues : ∀ kind : ClassicalKind, kind.readsProcess = true → valuesOf kind [e] = [] := by
    intro kind hk
    exact valuesOf_singleton fun heq => by simp [← heq, h] at hk
  rw [compileLeaf, compileWith, RulesetMatcher.readsProcess_install]
  simp [RulesetMatcher.readsProcess, compileRules, compileRegexSet, compileGlobSet,
    hvalues .processName rfl, hvalues .processPath rfl, hvalues .processNameRegex rfl,
    hvalues .processPathRegex rfl, hvalues .processNameWildcard rfl,
    hvalues .processPathWildcard rfl]

theorem compileLeaf_matchesDestinationIp (laws : cr.IpNetworkLaws) {e : ClassicalEntry}
    (h : e.kind.readsDestinationIp = false) (ip : IpAddr) :
    (compileLeaf cr e).matchesDestinationIp cr ip = false := by
  refine compileWith_matchesDestinationIp laws ?_ ?_ ip
  · rintro e' he' hk
    rw [List.mem_singleton.1 he'] at hk
    simp [hk, ClassicalKind.readsDestinationIp] at h
  · rintro e' he' hk
    rw [List.mem_singleton.1 he'] at hk
    simp [hk, ClassicalKind.readsDestinationIp] at h

end Compiled

/-! ### Logical rules -/

section Logical

variable {cr : Crates} {name : Str} {es : List ClassicalEntry} {ctx c : RulesetMatchContext}
  {p d : Bool}

theorem mem_logicalRules {rule : LogicalRule LeafMatcher}
    (h : rule ∈ (compile cr name es).logicalRules) :
    ∃ e ∈ es, ∃ t, entryTree cr e = some t ∧ rule = t.map (compileLeaf cr) := by
  rw [compile, compileWith, RulesetMatcher.logicalRules_install] at h
  obtain ⟨e, he, hrule⟩ := List.mem_filterMap.1 h
  obtain ⟨t, ht, rfl⟩ := Option.map_eq_some_iff.1 hrule
  exact ⟨e, List.mem_of_mem_filter he, t, ht, rfl⟩

theorem leaf_congr (e : ClassicalEntry)
    (hproc : p = false → (compileLeaf cr e).readsProcess = false)
    (hdst : d = false → ∀ ip, (compileLeaf cr e).matchesDestinationIp cr ip = false)
    (hc : c ∈ completions p d ctx) :
    (compileLeaf cr e).matchesContext cr c = (compileLeaf cr e).matchesContext cr ctx :=
  matchesContextWith_congr compileWith_semanticProgram hproc hdst (fun l => l.elim) hc

theorem leaf_mono (e : ClassicalEntry) (hpend : Pending p d ctx) (hc : c ∈ completions p d ctx)
    (h : (compileLeaf cr e).matchesContext cr ctx = true) :
    (compileLeaf cr e).matchesContext cr c = true :=
  matchesContextWith_mono compileWith_semanticProgram hpend (fun l => l.elim) hc h

theorem rule_congr (laws : cr.IpNetworkLaws) (t : LogicalRule ClassicalEntry)
    (hproc : p = false → (t.map (compileLeaf cr)).needsProcess = false)
    (hask : d = false → (t.map (compileLeaf cr)).needsDestinationIp = false)
    (hsilent : d = false → t.anyLeaf isSilent = false) (hc : c ∈ completions p d ctx) :
    (t.map (compileLeaf cr)).matches cr c = (t.map (compileLeaf cr)).matches cr ctx := by
  rw [LogicalRule.needsProcess, LogicalRule.anyLeaf_map, LogicalRule.anyLeaf_eq_false] at hproc
  rw [LogicalRule.needsDestinationIp, LogicalRule.anyLeaf_map, LogicalRule.anyLeaf_eq_false] at hask
  rw [LogicalRule.anyLeaf_eq_false] at hsilent
  rw [LogicalRule.matches, LogicalRule.matches, LogicalRule.eval_map, LogicalRule.eval_map]
  refine t.eval_congr fun e he => ?_
  refine leaf_congr e (fun hp => hproc hp e he) (fun hd => ?_) hc
  exact compileWith_silent laws (by simpa using hsilent hd e he) (hask hd e he)

theorem rule_mono (laws : cr.IpNetworkLaws) (t : LogicalRule ClassicalEntry)
    (hmono : t.monotone (readsPending p d) true = true) (hpend : Pending p d ctx)
    (hc : c ∈ completions p d ctx) (h : (t.map (compileLeaf cr)).matches cr ctx = true) :
    (t.map (compileLeaf cr)).matches cr c = true := by
  rw [LogicalRule.matches, LogicalRule.eval_map] at h ⊢
  refine (LogicalRule.eval_le_of_monotone (fun e he => ?_) (fun e he => ?_) t).1 hmono h
  · simp only [readsPending, Bool.or_eq_false_iff, Bool.and_eq_false_iff, Bool.not_eq_false'] at he
    refine (leaf_congr e (fun hp => ?_) (fun hd => ?_) hc).symm
    · exact compileLeaf_readsProcess (by simpa [hp] using he.1)
    · exact compileLeaf_matchesDestinationIp laws (by simpa [hd] using he.2)
  · exact leaf_mono e hpend hc he

end Logical

/-! ### Soundness -/

/-- No rule on the destination address is marked `no-resolve`, at any depth. -/
def NoSilentRule (cr : Crates) (es : List ClassicalEntry) : Prop :=
  ∀ e ∈ es, ∀ t, entryTree cr e = some t → t.anyLeaf isSilent = false

/-- No rule on pending metadata stands under an odd number of negations. -/
def NoNegatedPending (cr : Crates) (processResolved destinationIpResolved : Bool)
    (es : List ClassicalEntry) : Prop :=
  ∀ e ∈ es, ∀ t, entryTree cr e = some t →
    t.monotone (readsPending processResolved destinationIpResolved) true = true

theorem matchesContextDeferred_eq (cr : Crates) (name : Str) (es : List ClassicalEntry)
    (ctx : RulesetMatchContext) (p d : Bool) :
    (compile cr name es).matchesContextDeferred cr ctx p d =
      if (compile cr name es).matchesContext cr ctx then .matched
      else RulesetMatchOutcome.deferred (!p && (compile cr name es).hasProcessPredicates)
        (!d && (compile cr name es).hasDestinationIpPredicates) := by
  rw [SetMatcher.matchesContextDeferred, compile, compileWith_semanticProgram]

theorem entryTree_leaf {cr : Crates} {e : ClassicalEntry} (h : e.kind.isLogical = false) :
    entryTree cr e = some (.leaf e) := by
  simp [entryTree, ruleTree, h]

theorem deferred_notMatched {cr : Crates} (laws : cr.IpNetworkLaws) {name : Str}
    {es : List ClassicalEntry} {ctx c : RulesetMatchContext} {p d : Bool}
    (hsilent : d = false → NoSilentRule cr es) (hc : c ∈ completions p d ctx)
    (h : (compile cr name es).matchesContextDeferred cr ctx p d = .notMatched) :
    (compile cr name es).matchesContext cr c = false := by
  rw [matchesContextDeferred_eq] at h
  split_ifs at h with hmatch
  obtain ⟨hproc, hdst⟩ := RulesetMatchOutcome.deferred_eq_notMatched.1 h
  rw [SetMatcher.hasProcessPredicates, SetMatcher.hasDestinationIpPredicates] at *
  have hp : p = false → (compile cr name es).readsProcess = false ∧
      ∀ r ∈ (compile cr name es).logicalRules, r.needsProcess = false := by
    rintro rfl
    simpa [List.any_eq_false] using hproc
  have hd : d = false → (compile cr name es).asksDestinationIp = false ∧
      ∀ r ∈ (compile cr name es).logicalRules, r.needsDestinationIp = false := by
    rintro rfl
    simpa [List.any_eq_false] using hdst
  rw [← Bool.eq_false_iff.2 hmatch]
  refine matchesContextWith_congr compileWith_semanticProgram (fun h => (hp h).1) (fun h => ?_)
    (fun r hr => ?_) hc
  · refine compileWith_silent laws (fun e he => ?_) (hd h).1
    cases hk : e.kind.isLogical with
    | true => revert hk; cases hkind : e.kind <;> simp [ClassicalKind.isLogical, isSilent, hkind,
        ClassicalKind.readsDestinationIp]
    | false => simpa using hsilent h e he _ (entryTree_leaf hk)
  · obtain ⟨e, he, t, ht, rfl⟩ := mem_logicalRules hr
    rw [rule_congr laws t (fun h => (hp h).2 _ hr) (fun h => (hd h).2 _ hr)
      (fun h => hsilent h e he t ht) hc]

theorem deferred_matched {cr : Crates} (laws : cr.IpNetworkLaws) {name : Str}
    {es : List ClassicalEntry} {ctx c : RulesetMatchContext} {p d : Bool}
    (hmono : NoNegatedPending cr p d es) (hpend : Pending p d ctx) (hc : c ∈ completions p d ctx)
    (h : (compile cr name es).matchesContextDeferred cr ctx p d = .matched) :
    (compile cr name es).matchesContext cr c = true := by
  rw [matchesContextDeferred_eq] at h
  split_ifs at h with hmatch
  · refine matchesContextWith_mono compileWith_semanticProgram hpend (fun r hr hrule => ?_) hc hmatch
    obtain ⟨e, he, t, ht, rfl⟩ := mem_logicalRules hr
    rw [Bool.and_eq_true] at hrule ⊢
    exact ⟨hrule.1, rule_mono laws t (hmono e he t ht) hpend hc hrule.2⟩
  · exact absurd h (RulesetMatchOutcome.deferred_ne_matched _ _)

/-- **Deferred evaluation of classical rule sets.** With the unresolved metadata absent,
`NotMatched` holds in every completion of a set without `no-resolve` rules on a pending address,
and `Matched` holds in every completion of a set that does not negate rules on pending metadata. -/
theorem matchesContextDeferred_sound {cr : Crates} (laws : cr.IpNetworkLaws) (name : Str)
    (es : List ClassicalEntry) {ctx : RulesetMatchContext} {p d : Bool} (hpend : Pending p d ctx) :
    ((d = false → NoSilentRule cr es) →
      (compile cr name es).matchesContextDeferred cr ctx p d = .notMatched →
        ∀ c ∈ completions p d ctx, (compile cr name es).matchesContext cr c = false) ∧
    (NoNegatedPending cr p d es →
      (compile cr name es).matchesContextDeferred cr ctx p d = .matched →
        ∀ c ∈ completions p d ctx, (compile cr name es).matchesContext cr c = true) :=
  ⟨fun hsilent h _ hc => deferred_notMatched laws hsilent hc h,
    fun hmono h _ hc => deferred_matched laws hmono hpend hc h⟩

/-- A set with one `no-resolve` prefix. -/
def noResolveEntries : List ClassicalEntry :=
  [{ kind := .ipCidr, value := "10.0.0.0/8", policy := some "no-resolve" }]

/-- A connection to a domain that is not resolved. -/
def unresolvedContext : RulesetMatchContext := { dstHost := "example.com" }

theorem matchesContextDeferred_sound_domain :
    let es : List ClassicalEntry :=
      [{ kind := .domain, value := "example.com" }, { kind := .processName, value := "curl" }]
    (compile .ascii "mixed" es).matchesContextDeferred .ascii unresolvedContext false false =
      .matched ∧
    ∀ c ∈ completions false false unresolvedContext,
      (compile .ascii "mixed" es).matchesContext .ascii c = true := by
  have hpend : Pending false false unresolvedContext :=
    ⟨fun _ => ⟨rfl, rfl, rfl⟩, fun _ => by decide +kernel⟩
  have hanswer : (compile .ascii "mixed" [{ kind := .domain, value := "example.com" },
      { kind := .processName, value := "curl" }]).matchesContextDeferred .ascii unresolvedContext
      false false = .matched := by decide +kernel
  refine ⟨hanswer, (matchesContextDeferred_sound Crates.ascii_ipNetworkLaws _ _ hpend).2 ?_ hanswer⟩
  intro e he t ht
  have hleaf : e.kind.isLogical = false := by
    simp only [List.mem_cons, List.not_mem_nil, or_false] at he
    rcases he with rfl | rfl <;> rfl
  rw [entryTree_leaf hleaf] at ht
  cases ht
  rfl

/-- A `no-resolve` prefix is answered `NotMatched`, and matches once the address is known. -/
theorem matchesContextDeferred_noResolve :
    Pending true false unresolvedContext ∧
    (compile .ascii "lan" noResolveEntries).matchesContextDeferred .ascii unresolvedContext
      true false = .notMatched ∧
    unresolvedContext.withDstIp (some (.v4 0x0a010203#32)) ∈
      completions true false unresolvedContext ∧
    (compile .ascii "lan" noResolveEntries).matchesContext .ascii
      (unresolvedContext.withDstIp (some (.v4 0x0a010203#32))) = true := by
  refine ⟨⟨by simp, fun _ => by decide +kernel⟩, by decide +kernel,
    ⟨⟨none, none, []⟩, _, rfl⟩, by decide +kernel⟩

end WutherCore.Ruleset
