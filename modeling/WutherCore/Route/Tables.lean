import Mathlib
import WutherCore.Data.Table
import WutherCore.Route.Matchers

/-!
# What the prepared tables hold

The conditions of a plan share the prepared tables.  Nearly every table holds, under each key, a
value that depends on the key only, so a condition finds the same value whatever the plan holds
besides.  Two tables are different: `normalizedValues` is shared by the domain conditions and by
the conditions on processes and inbounds, which normalize differently, and keeps what came first; and
the keyword automaton is built for all keywords at once.

* `Collected`: what one condition does to the tables.
* `Prepared`: what the tables hold for the conditions that were collected.
* `rule_alone`: a rule is answered as it would be alone, when its domains have the same form in the
  plan and in the rule; for a lone `DOMAIN` that can match at all, only then.
-/

namespace WutherCore.Route

open WutherCore.Text WutherCore.Net WutherCore.Data WutherCore.Ruleset

/-! ### Keys -/

namespace RouteCondition

/-- The key in `destinationCidrs`. -/
def cidrKey : RouteCondition → Option Str
  | cidr value => some value
  | _ => none

/-- The key in `sourceCidrs`. -/
def srcCidrKey : RouteCondition → Option Str
  | srcCidr value => some value
  | _ => none

/-- The key in `destinationIpSuffixes`. -/
def ipSuffixKey : RouteCondition → Option Str
  | ipSuffix value => some value
  | _ => none

/-- The key in `sourceIpSuffixes`. -/
def srcIpSuffixKey : RouteCondition → Option Str
  | srcIpSuffix value => some value
  | _ => none

/-- The key in `domainRegexes`. -/
def domainRegexKey : RouteCondition → Option Str
  | domainRegex pattern => some pattern
  | _ => none

/-- The key in `domainWildcards`. -/
def domainWildcardKey : RouteCondition → Option Str
  | domainWildcard pattern => some pattern
  | _ => none

/-- The key in `processRegexes`. -/
def processRegexKey : RouteCondition → Option Str
  | processRegex pattern | processPathRegex pattern => some pattern
  | _ => none

/-- The key in `processWildcards`. -/
def processWildcardKey : RouteCondition → Option Str
  | processWildcard pattern | processPathWildcard pattern => some pattern
  | _ => none

/-- The key in `geositeAliases`. -/
def geositeKey : RouteCondition → Option Str
  | geoSite code => some code
  | _ => none

/-- The key in `geoipAliases`. -/
def geoipKey : RouteCondition → Option Str
  | geoIp code | srcGeoIp code => some code
  | _ => none

/-- The key in `asnAliases`. -/
def asnKey : RouteCondition → Option UInt32
  | ipAsn asn | srcIpAsn asn => some asn
  | _ => none

/-- The text of a keyword. -/
def keywordKey : RouteCondition → Option Str
  | keyword value => some value
  | _ => none

/-- What a condition puts under a text in `normalizedValues`: the domain conditions in one form, the
conditions on processes and inbounds in another. -/
def normalForm (cr : Crates) (key : Str) : RouteCondition → Option Str
  | domain value | suffix value =>
      if value = key then some (normalizeRouteDomain cr value) else none
  | process value | processPath value | inUser value | inName value | inType value
  | rematchName value => if value = key then some (cr.toLowercase value) else none
  | _ => none

end RouteCondition

open RouteCondition

/-- The glob of a `DOMAIN-WILDCARD`. -/
def prepareDomainWildcard (cr : Crates) (pattern : Str) : Option (Str → Bool) :=
  compileGlob cr (normalizeDomainPattern cr pattern)

/-- A new keyword goes to the end of the patterns. -/
def pushKeyword (patterns : List Str) (pattern : Str) : List Str :=
  if pattern ∈ patterns then patterns else patterns ++ [pattern]

/-- The patterns of the keywords among the conditions. -/
def keywordPatternsOf (cs : List RouteCondition) : List Str :=
  ((cs.filterMap keywordKey).map toAsciiLowercase).foldl pushKeyword []

/-! ### One condition -/

section Collect

variable {cr : Crates} {c : RouteCondition} {t t' : PreparedMatchers}

/-- What one condition does to the tables whose values depend on their keys only. -/
structure Collected (cr : Crates) (c : RouteCondition) (t t' : PreparedMatchers) : Prop where
  destinationCidrs : Stored cr.parseIpNet c.cidrKey t.destinationCidrs t'.destinationCidrs := by
    exact stored_none
  sourceCidrs : Stored cr.parseIpNet c.srcCidrKey t.sourceCidrs t'.sourceCidrs := by
    exact stored_none
  destinationIpSuffixes : Stored parseIpSuffix c.ipSuffixKey t.destinationIpSuffixes
    t'.destinationIpSuffixes := by exact stored_none
  sourceIpSuffixes : Stored parseIpSuffix c.srcIpSuffixKey t.sourceIpSuffixes
    t'.sourceIpSuffixes := by exact stored_none
  domainRegexes : Stored (prepareDomainRegex cr) c.domainRegexKey t.domainRegexes
    t'.domainRegexes := by exact stored_none
  domainWildcards : Stored (prepareDomainWildcard cr) c.domainWildcardKey t.domainWildcards
    t'.domainWildcards := by exact stored_none
  processRegexes : Stored (fun p => (cr.regexNew p).toOption) c.processRegexKey t.processRegexes
    t'.processRegexes := by exact stored_none
  processWildcards : Stored (compileGlob cr) c.processWildcardKey t.processWildcards
    t'.processWildcards := by exact stored_none
  geositeAliases : Stored (fun v => some (rulesetAliasCandidates "geosite" v)) c.geositeKey
    t.geositeAliases t'.geositeAliases := by exact stored_none
  geoipAliases : Stored (fun v => some (rulesetAliasCandidates "geoip" v)) c.geoipKey
    t.geoipAliases t'.geoipAliases := by exact stored_none
  asnAliases : Stored (fun n => some (rulesetAliasCandidates "asn" (decimal n.toNat))) c.asnKey
    t.asnAliases t'.asnAliases := by exact stored_none

theorem stored_orInsertM {κ α : Type} [DecidableEq κ] {f s s' : κ → Option α} {key : κ}
    (h : orInsertM s key (f key) = some s') : Stored f (some key) s s' := by
  unfold orInsertM at h
  split_ifs at h with hs
  · cases h
    exact stored_keep hs
  · obtain ⟨a, ha, rfl⟩ := Option.map_eq_some_iff.1 h
    exact stored_update ha

/-- **What a condition stores.** -/
theorem collect_collected (h : collect cr t c = some t') : Collected cr c t t' := by
  cases c with
  | domainRegex pattern =>
    obtain ⟨table, htable, h⟩ := Option.bind_eq_some_iff.1 h
    cases h
    exact { domainRegexes := stored_orInsertM htable }
  | domainWildcard pattern =>
    obtain ⟨table, htable, h⟩ := Option.bind_eq_some_iff.1 h
    cases h
    exact { domainWildcards := stored_orInsertM (f := prepareDomainWildcard cr) htable }
  | processRegex pattern | processPathRegex pattern =>
    obtain ⟨table, htable, h⟩ := Option.bind_eq_some_iff.1 h
    cases h
    exact { processRegexes := stored_orInsertM (f := fun p => (cr.regexNew p).toOption) htable }
  | processWildcard pattern | processPathWildcard pattern =>
    obtain ⟨table, htable, h⟩ := Option.bind_eq_some_iff.1 h
    cases h
    exact { processWildcards := stored_orInsertM htable }
  | cidr value =>
    cases h
    cases hv : cr.parseIpNet value with
    | none => exact { destinationCidrs := stored_skip hv }
    | some network => exact { destinationCidrs := stored_update hv }
  | srcCidr value =>
    cases h
    cases hv : cr.parseIpNet value with
    | none => exact { sourceCidrs := stored_skip hv }
    | some network => exact { sourceCidrs := stored_update hv }
  | ipSuffix value =>
    cases h
    cases hv : parseIpSuffix value with
    | none => exact { destinationIpSuffixes := stored_skip hv }
    | some suffix => exact { destinationIpSuffixes := stored_update hv }
  | srcIpSuffix value =>
    cases h
    cases hv : parseIpSuffix value with
    | none => exact { sourceIpSuffixes := stored_skip hv }
    | some suffix => exact { sourceIpSuffixes := stored_update hv }
  | geoSite code =>
    cases h
    exact { geositeAliases := stored_update rfl }
  | geoIp code | srcGeoIp code =>
    cases h
    exact { geoipAliases := stored_update rfl }
  | ipAsn asn | srcIpAsn asn =>
    cases h
    exact { asnAliases := stored_update rfl }
  | keyword value =>
    simp only [collect] at h
    split at h <;> cases h <;> exact {}
  | _ =>
    cases h
    exact {}

theorem orInsert_apply {κ α : Type} [DecidableEq κ] (s : κ → Option α) (key : κ) (a : α) (k : κ) :
    orInsert s key a k = (s k).or (if key = k then some a else none) := by
  unfold orInsert insertKey
  by_cases hk : key = k
  · subst hk
    cases hs : s key with
    | none => simp
    | some b => simp [hs]
  · cases hs : (s key).isSome with
    | true => simp [hk]
    | false => simp [hk, Function.update_of_ne (Ne.symm hk)]

theorem collect_normalizedValues (h : collect cr t c = some t') (k : Str) :
    t'.normalizedValues k = (t.normalizedValues k).or (c.normalForm cr k) := by
  cases c with
  | domain value | suffix value | process value | processPath value | inUser value | inName value
  | inType value | rematchName value =>
    cases h
    exact orInsert_apply ..
  | domainRegex pattern | domainWildcard pattern | processRegex pattern | processPathRegex pattern
  | processWildcard pattern | processPathWildcard pattern =>
    obtain ⟨table, -, h⟩ := Option.bind_eq_some_iff.1 h
    cases h
    exact Option.or_none.symm
  | cidr value | srcCidr value | ipSuffix value | srcIpSuffix value =>
    cases h
    split <;> exact Option.or_none.symm
  | keyword value =>
    simp only [collect] at h
    split at h <;> cases h <;> exact Option.or_none.symm
  | _ =>
    cases h
    exact Option.or_none.symm

/-- The part of the tables that is about keywords. -/
def keywordPart (t : PreparedMatchers) : (Str → Option Nat) × (Str → Option Nat) × List Str :=
  (t.keywordIds, t.keywordUniqueIds, t.keywordPatterns)

theorem collect_keywordPart (h : collect cr t c = some t') (hc : c.keywordKey = none) :
    keywordPart t' = keywordPart t := by
  cases c with
  | domainRegex pattern | domainWildcard pattern | processRegex pattern | processPathRegex pattern
  | processWildcard pattern | processPathWildcard pattern =>
    obtain ⟨table, -, h⟩ := Option.bind_eq_some_iff.1 h
    cases h
    rfl
  | cidr value | srcCidr value | ipSuffix value | srcIpSuffix value =>
    cases h
    split <;> rfl
  | keyword value => cases hc
  | _ =>
    cases h
    rfl

/-- The pattern of a condition builds. -/
def builds (cr : Crates) : RouteCondition → Bool
  | .domainRegex pattern => (prepareDomainRegex cr pattern).isSome
  | .domainWildcard pattern => (prepareDomainWildcard cr pattern).isSome
  | .processRegex pattern | .processPathRegex pattern => (cr.regexNew pattern).toOption.isSome
  | .processWildcard pattern | .processPathWildcard pattern => (compileGlob cr pattern).isSome
  | _ => true

theorem bind_orInsertM {κ α β : Type} [DecidableEq κ] {s : κ → Option α} {key : κ}
    {value : Option α} (g : (κ → Option α) → β) (h : value.isSome) :
    ∃ b, (orInsertM s key value >>= fun s' => pure (g s')) = some b := by
  obtain ⟨a, rfl⟩ := Option.isSome_iff_exists.1 h
  unfold orInsertM
  split_ifs
  · exact ⟨_, rfl⟩
  · exact ⟨_, rfl⟩

theorem collect_of_builds (t : PreparedMatchers) (h : builds cr c = true) :
    ∃ t', collect cr t c = some t' := by
  cases c with
  | domainRegex pattern | domainWildcard pattern | processRegex pattern | processPathRegex pattern
  | processWildcard pattern | processPathWildcard pattern =>
    exact bind_orInsertM _ h
  | keyword value =>
    simp only [collect]
    split <;> exact ⟨_, rfl⟩
  | _ => exact ⟨_, rfl⟩

end Collect

/-! ### All conditions -/

section Run

variable {cr : Crates} {cs : List RouteCondition} {t : PreparedMatchers}

theorem normalizedValues_run (h : cs.foldlM (collect cr) {} = some t) (v : Str) :
    t.normalizedValues v = cs.findSome? (normalForm cr v) := by
  refine foldlM_induct (P := fun done t => t.normalizedValues v = done.findSome? (normalForm cr v))
    rfl ?_ h
  intro done c t t' ht hc
  rw [collect_normalizedValues hc, ht, List.findSome?_append, List.findSome?_singleton]

theorem keywordPatternsOf_append (done : List RouteCondition) (c : RouteCondition) :
    keywordPatternsOf (done ++ [c]) = match c.keywordKey with
      | some v => pushKeyword (keywordPatternsOf done) (toAsciiLowercase v)
      | none => keywordPatternsOf done := by
  unfold keywordPatternsOf
  cases hc : c.keywordKey with
  | none => simp [hc]
  | some v => simp [hc]

@[simp] theorem insertKey_self {κ α : Type} [DecidableEq κ] (s : κ → Option α) (key : κ) (a : α) :
    insertKey s key a key = some a := Function.update_self ..

theorem insertKey_of_ne {κ α : Type} [DecidableEq κ] (s : κ → Option α) {key k : κ} (h : k ≠ key)
    (a : α) : insertKey s key a k = s k := Function.update_of_ne h ..

/-- What the tables know about the keywords among the conditions: the numbers of the keywords, the
numbers of the patterns, and the patterns. -/
structure Keywords (cs : List RouteCondition) (ids unique : Str → Option Nat) (patterns : List Str) :
    Prop where
  eq : patterns = keywordPatternsOf cs
  pattern : ∀ p i, unique p = some i → patterns[i]? = some p
  known : ∀ p ∈ patterns, (unique p).isSome
  id : ∀ v, .keyword v ∈ cs → ∃ i, ids v = some i ∧ patterns[i]? = some (toAsciiLowercase v)

section Keyword

variable {done : List RouteCondition} {ids unique : Str → Option Nat} {patterns : List Str}

theorem Keywords.other (h : Keywords done ids unique patterns) {c : RouteCondition}
    (hc : c.keywordKey = none) : Keywords (done ++ [c]) ids unique patterns where
  eq := by rw [keywordPatternsOf_append, hc, h.eq]
  pattern := h.pattern
  known := h.known
  id v hv := by
    refine h.id v ((List.mem_append.1 hv).resolve_right fun hv => ?_)
    rw [← List.mem_singleton.1 hv] at hc
    cases hc

theorem Keywords.again (h : Keywords done ids unique patterns) {v : Str} {i : Nat}
    (hi : unique (toAsciiLowercase v) = some i) :
    Keywords (done ++ [.keyword v]) (insertKey ids v i) unique patterns where
  eq := by
    have hmem := List.mem_of_getElem? (h.pattern _ i hi)
    rw [keywordPatternsOf_append, keywordKey, ← h.eq]
    exact (if_pos hmem).symm
  pattern := h.pattern
  known := h.known
  id w hw := by
    by_cases hwv : w = v
    · subst hwv
      exact ⟨i, insertKey_self .., h.pattern _ i hi⟩
    · rw [insertKey_of_ne _ hwv]
      exact h.id w ((List.mem_append.1 hw).resolve_right (by simp [hwv]))

/-- A keyword with a new pattern. -/
theorem Keywords.push (h : Keywords done ids unique patterns) {v : Str}
    (hnew : unique (toAsciiLowercase v) = none) :
    Keywords (done ++ [.keyword v]) (insertKey ids v patterns.length)
      (insertKey unique (toAsciiLowercase v) patterns.length)
      (patterns ++ [toAsciiLowercase v]) := by
  have hmem : toAsciiLowercase v ∉ patterns := by
    intro hmem
    have := h.known _ hmem
    rw [hnew] at this
    cases this
  have hlast : (patterns ++ [toAsciiLowercase v])[patterns.length]? = some (toAsciiLowercase v) := by
    simp
  have hold : ∀ {i : Nat} {p : Str}, patterns[i]? = some p →
      (patterns ++ [toAsciiLowercase v])[i]? = some p := by
    intro i p hi
    rw [List.getElem?_append_left (List.getElem?_eq_some_iff.1 hi).1, hi]
  refine ⟨?_, fun p i hp => ?_, fun p hp => ?_, fun w hw => ?_⟩
  · rw [keywordPatternsOf_append, keywordKey, ← h.eq]
    exact (if_neg hmem).symm
  · by_cases hpv : p = toAsciiLowercase v
    · subst hpv
      rw [insertKey_self] at hp
      cases hp
      exact hlast
    · rw [insertKey_of_ne _ hpv] at hp
      exact hold (h.pattern p i hp)
  · by_cases hpv : p = toAsciiLowercase v
    · subst hpv
      rw [insertKey_self]
      rfl
    · rw [insertKey_of_ne _ hpv]
      exact h.known p ((List.mem_append.1 hp).resolve_right (by simpa using hpv))
  · by_cases hwv : w = v
    · subst hwv
      exact ⟨_, insertKey_self .., hlast⟩
    · obtain ⟨j, hj, hp⟩ := h.id w ((List.mem_append.1 hw).resolve_right (by simp [hwv]))
      exact ⟨j, (insertKey_of_ne _ hwv _).trans hj, hold hp⟩

end Keyword

theorem keywords_run (h : cs.foldlM (collect cr) {} = some t) :
    Keywords cs t.keywordIds t.keywordUniqueIds t.keywordPatterns := by
  refine foldlM_induct
    (P := fun cs t => Keywords cs t.keywordIds t.keywordUniqueIds t.keywordPatterns)
    ⟨rfl, by simp, by simp, by simp⟩ ?_ h
  intro done c t t' ht hc
  cases hkey : c.keywordKey with
  | none =>
    have hpart := collect_keywordPart hc hkey
    simp only [keywordPart, Prod.mk.injEq] at hpart
    rw [hpart.1, hpart.2.1, hpart.2.2]
    exact ht.other hkey
  | some v =>
    cases c with
    | keyword value =>
      simp only [collect] at hc
      split at hc
      · rename_i i hi
        cases hc
        exact ht.again hi
      · rename_i hnew
        cases hc
        exact ht.push hnew
    | _ => cases hkey

theorem table_run {κ α : Type} {f : κ → Option α} {key : RouteCondition → Option κ}
    (table : PreparedMatchers → κ → Option α) (hinit : ∀ k, table {} k = none)
    (hstored : ∀ c t t', Collected cr c t t' → Stored f (key c) (table t) (table t'))
    (h : cs.foldlM (collect cr) {} = some t) :
    (∀ k a, table t k = some a → f k = some a) ∧
      ∀ c ∈ cs, ∀ k, key c = some k → table t k = f k :=
  stored_foldlM hinit (fun t c t' hc => hstored c t t' (collect_collected hc)) h

theorem isSome_of_orInsertM {κ α : Type} [DecidableEq κ] {f s s' : κ → Option α} {key : κ}
    (h : orInsertM s key (f key) = some s') (hs : ∀ k a, s k = some a → f k = some a) :
    (f key).isSome := by
  unfold orInsertM at h
  split_ifs at h with hkey
  · obtain ⟨a, ha⟩ := Option.isSome_iff_exists.1 hkey
    rw [hs key a ha]
    rfl
  · obtain ⟨a, ha, -⟩ := Option.map_eq_some_iff.1 h
    rw [ha]
    rfl

/-- A condition that is collected after others builds: its pattern is built now, or it was found and
comes from the same key. -/
theorem builds_of_collect {c : RouteCondition} {t' : PreparedMatchers}
    (h : cs.foldlM (collect cr) {} = some t) (hc : collect cr t c = some t') :
    builds cr c = true := by
  cases c with
  | domainRegex pattern =>
    obtain ⟨table, htable, -⟩ := Option.bind_eq_some_iff.1 hc
    exact isSome_of_orInsertM htable
      (table_run (·.domainRegexes) (fun _ => rfl) (fun _ _ _ h => h.domainRegexes) h).1
  | domainWildcard pattern =>
    obtain ⟨table, htable, -⟩ := Option.bind_eq_some_iff.1 hc
    exact isSome_of_orInsertM (f := prepareDomainWildcard cr) htable
      (table_run (·.domainWildcards) (fun _ => rfl) (fun _ _ _ h => h.domainWildcards) h).1
  | processRegex pattern | processPathRegex pattern =>
    obtain ⟨table, htable, -⟩ := Option.bind_eq_some_iff.1 hc
    exact isSome_of_orInsertM (f := fun p => (cr.regexNew p).toOption) htable
      (table_run (·.processRegexes) (fun _ => rfl) (fun _ _ _ h => h.processRegexes) h).1
  | processWildcard pattern | processPathWildcard pattern =>
    obtain ⟨table, htable, -⟩ := Option.bind_eq_some_iff.1 hc
    exact isSome_of_orInsertM htable
      (table_run (·.processWildcards) (fun _ => rfl) (fun _ _ _ h => h.processWildcards) h).1
  | _ => rfl

theorem builds_of_run (h : cs.foldlM (collect cr) {} = some t) : ∀ c ∈ cs, builds cr c = true := by
  refine (foldlM_induct (P := fun done t => done.foldlM (collect cr) {} = some t ∧
    ∀ c ∈ done, builds cr c = true) ⟨rfl, by simp⟩ ?_ h).2
  rintro done c t t' ⟨hrun, hdone⟩ hc
  refine ⟨?_, List.forall_mem_append.2 ⟨hdone, ?_⟩⟩
  · rw [List.foldlM_append, hrun]
    simpa using hc
  · simpa using builds_of_collect hrun hc

theorem run_of_builds (h : ∀ c ∈ cs, builds cr c = true) (t : PreparedMatchers) :
    ∃ t', cs.foldlM (collect cr) t = some t' := by
  induction cs generalizing t with
  | nil => exact ⟨t, rfl⟩
  | cons c cs ih =>
    rw [List.forall_mem_cons] at h
    obtain ⟨t', ht'⟩ := collect_of_builds t h.1
    rw [List.foldlM_cons, ht']
    exact ih h.2 t'

/-- What compiled tables hold for the conditions of a plan. -/
structure Prepared (cr : Crates) (cs : List RouteCondition) (t : PreparedMatchers) : Prop where
  destinationCidrs : ∀ c ∈ cs, ∀ k, c.cidrKey = some k → t.destinationCidrs k = cr.parseIpNet k
  sourceCidrs : ∀ c ∈ cs, ∀ k, c.srcCidrKey = some k → t.sourceCidrs k = cr.parseIpNet k
  destinationIpSuffixes :
    ∀ c ∈ cs, ∀ k, c.ipSuffixKey = some k → t.destinationIpSuffixes k = parseIpSuffix k
  sourceIpSuffixes :
    ∀ c ∈ cs, ∀ k, c.srcIpSuffixKey = some k → t.sourceIpSuffixes k = parseIpSuffix k
  domainRegexes :
    ∀ c ∈ cs, ∀ k, c.domainRegexKey = some k → t.domainRegexes k = prepareDomainRegex cr k
  domainWildcards :
    ∀ c ∈ cs, ∀ k, c.domainWildcardKey = some k → t.domainWildcards k = prepareDomainWildcard cr k
  processRegexes :
    ∀ c ∈ cs, ∀ k, c.processRegexKey = some k → t.processRegexes k = (cr.regexNew k).toOption
  processWildcards :
    ∀ c ∈ cs, ∀ k, c.processWildcardKey = some k → t.processWildcards k = compileGlob cr k
  geositeAliases : ∀ c ∈ cs, ∀ k, c.geositeKey = some k →
    t.geositeAliases k = some (rulesetAliasCandidates "geosite" k)
  geoipAliases : ∀ c ∈ cs, ∀ k, c.geoipKey = some k →
    t.geoipAliases k = some (rulesetAliasCandidates "geoip" k)
  asnAliases : ∀ c ∈ cs, ∀ k, c.asnKey = some k →
    t.asnAliases k = some (rulesetAliasCandidates "asn" (decimal k.toNat))
  normalizedValues : ∀ v, t.normalizedValues v = cs.findSome? (normalForm cr v)
  keywords : Keywords cs t.keywordIds t.keywordUniqueIds t.keywordPatterns
  keywordAutomaton : t.keywordPatterns ≠ [] →
    t.keywordAutomaton = cr.ahoCorasickFind t.keywordPatterns

theorem prepared_of_compile {plan : RoutePlan} (h : PreparedMatchers.compile cr plan = some t) :
    Prepared cr plan.conditions t := by
  obtain ⟨t₀, hrun, h⟩ := Option.bind_eq_some_iff.1 h
  have hsame : ∃ automaton, t = { t₀ with keywordAutomaton := automaton } ∧
      (t₀.keywordPatterns ≠ [] → automaton = cr.ahoCorasickFind t₀.keywordPatterns) := by
    split_ifs at h with hempty
    · cases h
      exact ⟨_, rfl, fun hne => absurd (List.isEmpty_iff.1 hempty) hne⟩
    · cases h
      exact ⟨_, rfl, fun _ => rfl⟩
  obtain ⟨automaton, rfl, hautomaton⟩ := hsame
  have hnormal := normalizedValues_run hrun
  have hkeywords := keywords_run hrun
  exact {
    destinationCidrs :=
      (table_run (·.destinationCidrs) (fun _ => rfl) (fun _ _ _ h => h.destinationCidrs) hrun).2
    sourceCidrs := (table_run (·.sourceCidrs) (fun _ => rfl) (fun _ _ _ h => h.sourceCidrs) hrun).2
    destinationIpSuffixes := (table_run (·.destinationIpSuffixes) (fun _ => rfl)
      (fun _ _ _ h => h.destinationIpSuffixes) hrun).2
    sourceIpSuffixes :=
      (table_run (·.sourceIpSuffixes) (fun _ => rfl) (fun _ _ _ h => h.sourceIpSuffixes) hrun).2
    domainRegexes :=
      (table_run (·.domainRegexes) (fun _ => rfl) (fun _ _ _ h => h.domainRegexes) hrun).2
    domainWildcards :=
      (table_run (·.domainWildcards) (fun _ => rfl) (fun _ _ _ h => h.domainWildcards) hrun).2
    processRegexes :=
      (table_run (·.processRegexes) (fun _ => rfl) (fun _ _ _ h => h.processRegexes) hrun).2
    processWildcards :=
      (table_run (·.processWildcards) (fun _ => rfl) (fun _ _ _ h => h.processWildcards) hrun).2
    geositeAliases :=
      (table_run (·.geositeAliases) (fun _ => rfl) (fun _ _ _ h => h.geositeAliases) hrun).2
    geoipAliases :=
      (table_run (·.geoipAliases) (fun _ => rfl) (fun _ _ _ h => h.geoipAliases) hrun).2
    asnAliases := (table_run (·.asnAliases) (fun _ => rfl) (fun _ _ _ h => h.asnAliases) hrun).2
    normalizedValues := hnormal
    keywords := hkeywords
    keywordAutomaton := hautomaton }

end Run

/-! ### Rules on their own -/

/-- The plan of one rule. -/
def RoutePlan.ofStep (step : RouteStep) : RoutePlan := { steps := [step], subRules_sorted := noSubRules_sorted }

theorem RoutePlan.conditions_ofStep (step : RouteStep) :
    (RoutePlan.ofStep step).conditions = step.matcher.conditions := by
  simp [ofStep, conditions]

/-- The rules of a plan: its steps and those of its sub-rules. -/
def RoutePlan.rules (plan : RoutePlan) : List RouteStep := plan.steps ++ plan.subRules.flatMap Prod.snd

theorem RoutePlan.mem_conditions {plan : RoutePlan} {step : RouteStep} (h : step ∈ plan.rules)
    {c : RouteCondition} (hc : c ∈ step.matcher.conditions) : c ∈ plan.conditions :=
  List.mem_flatMap.2 ⟨step, h, hc⟩

/-- What a rule relies on in `aho_corasick`: the patterns found are those that the text contains, in
any ASCII case. -/
structure KeywordLaws (cr : Crates) : Prop where
  mem_find : ∀ patterns find, cr.ahoCorasickFind patterns = some find → ∀ s i,
    i ∈ find s ↔ ∃ p, patterns[i]? = some p ∧ containsNoCase s p = true

theorem ascii_keywordLaws : KeywordLaws .ascii where
  mem_find patterns find h s i := by
    cases h
    rw [List.mem_findIdxs_iff_exists_getElem_pos]
    constructor
    · rintro ⟨hlt, hp⟩
      exact ⟨_, List.getElem?_eq_getElem hlt, hp⟩
    · rintro ⟨p, hp, hcontains⟩
      obtain ⟨hlt, rfl⟩ := List.getElem?_eq_some_iff.1 hp
      exact ⟨hlt, hcontains⟩

/-- The keyword automaton of the conditions builds. -/
def keywordsBuild (cr : Crates) (cs : List RouteCondition) : Bool :=
  (cr.ahoCorasickFind (keywordPatternsOf cs)).isSome

/-- A rule shares no table with a rule that would change its answer: each domain of the rule has the
form in the plan that it has in the rule alone, and the keyword automata both build or both do not. -/
structure Uncoupled (cr : Crates) (plan : RoutePlan) (step : RouteStep) : Prop where
  domain : ∀ v, .domain v ∈ step.matcher.conditions ∨ .suffix v ∈ step.matcher.conditions →
    plan.conditions.findSome? (normalForm cr v) =
      step.matcher.conditions.findSome? (normalForm cr v)
  keyword : ∀ v, .keyword v ∈ step.matcher.conditions →
    keywordsBuild cr plan.conditions = keywordsBuild cr step.matcher.conditions

section Alone

variable {cr : Crates} {cs cs' : List RouteCondition} {t t' : PreparedMatchers}

theorem Prepared.keywordMatches_eq (laws : KeywordLaws cr) (h : Prepared cr cs t) {v : Str}
    (hv : .keyword v ∈ cs) (input : MatchInput) :
    ∃ i, t.keywordIds v = some i ∧ input.keywordMatches t i =
      (keywordsBuild cr cs && input.eitherHost (containsNoCase · (toAsciiLowercase v))) := by
  obtain ⟨i, hi, hp⟩ := h.keywords.id v hv
  refine ⟨i, hi, ?_⟩
  obtain ⟨hlt, -⟩ := List.getElem?_eq_some_iff.1 hp
  have hne : t.keywordPatterns ≠ [] := List.ne_nil_of_length_pos (by omega)
  rw [MatchInput.keywordMatches, decide_eq_true hlt, Bool.true_and, h.keywordAutomaton hne,
    keywordsBuild, ← h.keywords.eq]
  cases hfind : cr.ahoCorasickFind t.keywordPatterns with
  | none => rfl
  | some find =>
    have hmem : ∀ s, (find s).contains i = containsNoCase s (toAsciiLowercase v) := by
      intro s
      rw [Bool.eq_iff_iff, List.contains_iff_mem, laws.mem_find _ _ hfind]
      simp [hp]
    simp only [Option.any_some, Option.isSome_some, Bool.true_and, MatchInput.eitherHost, hmem]

/-- **A condition is answered alike from the tables of two lists that hold it**, when they agree on
what the tables share. -/
theorem conditionState_eq (laws : KeywordLaws cr) (h : Prepared cr cs t) (h' : Prepared cr cs' t')
    {c : RouteCondition} (hc : c ∈ cs) (hc' : c ∈ cs')
    (hdomain : ∀ v, c = .domain v ∨ c = .suffix v →
      cs.findSome? (normalForm cr v) = cs'.findSome? (normalForm cr v))
    (hkeyword : ∀ v, c = .keyword v → keywordsBuild cr cs = keywordsBuild cr cs')
    (extraCidrs : List IpNet) (rulesets : Option RulesetIndex) (input : MatchInput)
    (processResolved destinationIpResolved : Bool) :
    conditionState cr ⟨extraCidrs, rulesets, t⟩ input processResolved destinationIpResolved c =
      conditionState cr ⟨extraCidrs, rulesets, t'⟩ input processResolved destinationIpResolved c := by
  unfold conditionState
  congr 1
  cases c with
  | domain v =>
    simp only [conditionAnswer, h.normalizedValues, h'.normalizedValues, hdomain v (.inl rfl)]
  | suffix v =>
    simp only [conditionAnswer, h.normalizedValues, h'.normalizedValues, hdomain v (.inr rfl)]
  | keyword v =>
    obtain ⟨i, hi, hmatch⟩ := h.keywordMatches_eq laws hc input
    obtain ⟨i', hi', hmatch'⟩ := h'.keywordMatches_eq laws hc' input
    simp only [conditionAnswer, hi, hi', hmatch, hmatch', hkeyword v rfl]
  | domainRegex v =>
    simp only [conditionAnswer, h.domainRegexes _ hc v rfl, h'.domainRegexes _ hc' v rfl]
  | domainWildcard v =>
    simp only [conditionAnswer, h.domainWildcards _ hc v rfl, h'.domainWildcards _ hc' v rfl]
  | processRegex v | processPathRegex v =>
    simp only [conditionAnswer, h.processRegexes _ hc v rfl, h'.processRegexes _ hc' v rfl]
  | processWildcard v | processPathWildcard v =>
    simp only [conditionAnswer, h.processWildcards _ hc v rfl, h'.processWildcards _ hc' v rfl]
  | cidr v =>
    simp only [conditionAnswer, h.destinationCidrs _ hc v rfl, h'.destinationCidrs _ hc' v rfl]
  | srcCidr v => simp only [conditionAnswer, h.sourceCidrs _ hc v rfl, h'.sourceCidrs _ hc' v rfl]
  | ipSuffix v =>
    simp only [conditionAnswer, h.destinationIpSuffixes _ hc v rfl,
      h'.destinationIpSuffixes _ hc' v rfl]
  | srcIpSuffix v =>
    simp only [conditionAnswer, h.sourceIpSuffixes _ hc v rfl, h'.sourceIpSuffixes _ hc' v rfl]
  | geoSite v =>
    simp only [conditionAnswer, h.geositeAliases _ hc v rfl, h'.geositeAliases _ hc' v rfl]
  | geoIp v | srcGeoIp v =>
    simp only [conditionAnswer, h.geoipAliases _ hc v rfl, h'.geoipAliases _ hc' v rfl]
  | ipAsn n | srcIpAsn n =>
    simp only [conditionAnswer, h.asnAliases _ hc n rfl, h'.asnAliases _ hc' n rfl]
  | _ => rfl

theorem exists_compile_ofStep {plan : RoutePlan} (h : PreparedMatchers.compile cr plan = some t)
    {step : RouteStep} (hstep : step ∈ plan.rules) :
    ∃ t', PreparedMatchers.compile cr (.ofStep step) = some t' := by
  obtain ⟨t₀, hrun, -⟩ := Option.bind_eq_some_iff.1 h
  have hbuilds : ∀ c ∈ (RoutePlan.ofStep step).conditions, builds cr c = true := by
    rw [RoutePlan.conditions_ofStep]
    exact fun c hc => builds_of_run hrun c (RoutePlan.mem_conditions hstep hc)
  obtain ⟨t₁, hrun₁⟩ := run_of_builds hbuilds {}
  rw [PreparedMatchers.compile, hrun₁]
  simp only [Option.bind_eq_bind, Option.bind_some]
  split_ifs
  · exact ⟨_, rfl⟩
  · exact ⟨_, rfl⟩

end Alone

section Tree

variable {answer answer' : Bool → RouteCondition → MatchState}

theorem RouteMatcher.mem_conditionsOf {parts : List RouteMatcher} {part : RouteMatcher}
    (hpart : part ∈ parts) {c : RouteCondition} (hc : c ∈ part.conditions) :
    c ∈ conditionsOf parts := by
  induction parts with
  | nil => cases hpart
  | cons m parts ih =>
    rw [conditionsOf, List.mem_append]
    rcases List.mem_cons.1 hpart with rfl | hpart
    · exact .inl hc
    · exact .inr (ih hpart)

theorem treeAll_congr {parts : List RouteMatcher} {resolved : Bool}
    (h : ∀ m ∈ parts, treeState answer resolved m = treeState answer' resolved m) (p d : Bool) :
    treeAll answer resolved parts p d = treeAll answer' resolved parts p d := by
  induction parts generalizing p d with
  | nil => rfl
  | cons m parts ih =>
    rw [List.forall_mem_cons] at h
    rw [treeAll, treeAll, h.1]
    cases treeState answer' resolved m with
    | matched => exact ih h.2 _ _
    | notMatched => rfl
    | deferred p' d' => exact ih h.2 _ _

theorem treeAny_congr {parts : List RouteMatcher} {resolved : Bool}
    (h : ∀ m ∈ parts, treeState answer resolved m = treeState answer' resolved m) (p d : Bool) :
    treeAny answer resolved parts p d = treeAny answer' resolved parts p d := by
  induction parts generalizing p d with
  | nil => rfl
  | cons m parts ih =>
    rw [List.forall_mem_cons] at h
    rw [treeAny, treeAny, h.1]
    cases treeState answer' resolved m with
    | matched => rfl
    | notMatched => exact ih h.2 _ _
    | deferred p' d' => exact ih h.2 _ _

theorem treeState_congr (m : RouteMatcher)
    (h : ∀ c ∈ m.conditions, ∀ resolved, answer resolved c = answer' resolved c) (resolved : Bool) :
    treeState answer resolved m = treeState answer' resolved m := by
  induction m using RouteMatcher.induct generalizing resolved with
  | condition c => exact h c (by simp [RouteMatcher.conditions]) resolved
  | and parts ih =>
    rw [treeState, treeState]
    exact treeAll_congr
      (fun m hm => ih m hm (fun c hc => h c (RouteMatcher.mem_conditionsOf hm hc)) resolved) _ _
  | or parts ih =>
    rw [treeState, treeState]
    exact treeAny_congr
      (fun m hm => ih m hm (fun c hc => h c (RouteMatcher.mem_conditionsOf hm hc)) resolved) _ _
  | not m ih => rw [treeState, treeState, ih h]
  | noResolve m ih => rw [treeState, treeState, ih h]

end Tree

section Rules

variable {cr : Crates} (laws : KeywordLaws cr) {plan : RoutePlan} {t t' : PreparedMatchers}
  (h : PreparedMatchers.compile cr plan = some t) {step : RouteStep} (hstep : step ∈ plan.rules)
  (h' : PreparedMatchers.compile cr (.ofStep step) = some t')

include h hstep h'

include laws in
theorem stepMatchState_alone (huncoupled : Uncoupled cr plan step) (extraCidrs : List IpNet)
    (rulesets : Option RulesetIndex) (input : MatchInput)
    (processResolved destinationIpResolved : Bool) :
    stepMatchState cr ⟨extraCidrs, rulesets, t⟩ input processResolved destinationIpResolved
        step.matcher =
      stepMatchState cr ⟨extraCidrs, rulesets, t'⟩ input processResolved destinationIpResolved
        step.matcher := by
  have hprepared := prepared_of_compile h
  have hprepared' := prepared_of_compile h'
  rw [RoutePlan.conditions_ofStep] at hprepared'
  refine treeState_congr _ (fun c hc resolved => ?_) _
  refine conditionState_eq laws hprepared hprepared' (RoutePlan.mem_conditions hstep hc) hc ?_ ?_ _ _ _
    _ _
  · rintro v (rfl | rfl)
    · exact huncoupled.domain v (.inl hc)
    · exact huncoupled.domain v (.inr hc)
  · rintro v rfl
    exact huncoupled.keyword v hc

/-- A lone `DOMAIN` that matches some host on its own is uncoupled, if the plan does not change its
answers. -/
theorem uncoupled_of_domain {v : Str} (hmatcher : step.matcher = .condition (.domain v))
    {ctx : FlowContext} (hctx : (MatchInput.new cr ctx).normalizedHost = normalizeRouteDomain cr v)
    (hsame : stepMatches cr ⟨[], none, t⟩ (.new cr ctx) true true step.matcher =
      stepMatches cr ⟨[], none, t'⟩ (.new cr ctx) true true step.matcher) :
    Uncoupled cr plan step := by
  have hprepared := prepared_of_compile h
  have hprepared' := prepared_of_compile h'
  have hconditions : step.matcher.conditions = [.domain v] := by
    rw [hmatcher, RouteMatcher.conditions]
  rw [RoutePlan.conditions_ofStep, hconditions] at hprepared'
  have halone : t'.normalizedValues v = some (normalizeRouteDomain cr v) := by
    rw [hprepared'.normalizedValues]
    simp [normalForm]
  -- the plan has some form for the domain, and the host tells it from others
  obtain ⟨form, hform⟩ : ∃ form, t.normalizedValues v = some form := by
    rw [hprepared.normalizedValues]
    refine Option.isSome_iff_exists.1 (List.findSome?_isSome_iff.2 ⟨.domain v, ?_, ?_⟩)
    · exact RoutePlan.mem_conditions hstep (by rw [hconditions]; exact List.mem_singleton_self _)
    · simp [normalForm]
  have heq : normalizeRouteDomain cr v = form := by
    have hbool : ∀ a b, (MatchState.ofBool a == .matched) = (MatchState.ofBool b == .matched) →
        a = b := by decide
    have := hbool _ _ (by simpa [stepMatches, hmatcher, stepMatchState, treeState, conditionState,
      conditionAnswer, readsProcess, hctx, halone, hform] using hsame)
    simpa using this
  refine ⟨fun w hw => ?_, fun w hw => ?_⟩
  · obtain rfl : w = v := by simpa [hconditions] using hw
    rw [← hprepared.normalizedValues, hconditions, ← hprepared'.normalizedValues, hform, halone, heq]
  · simp [hconditions] at hw

end Rules

/-- **An uncoupled rule is answered in a plan as it is alone**, and a lone `DOMAIN` that matches some
host on its own is answered so only when it is uncoupled. -/
theorem rule_alone {cr : Crates} (laws : KeywordLaws cr) {plan : RoutePlan} {t : PreparedMatchers}
    (h : PreparedMatchers.compile cr plan = some t) {step : RouteStep} (hstep : step ∈ plan.rules) :
    ∃ t', PreparedMatchers.compile cr (.ofStep step) = some t' ∧
      (Uncoupled cr plan step →
        ∀ extraCidrs rulesets ctx processResolved destinationIpResolved,
          stepMatchState cr ⟨extraCidrs, rulesets, t⟩ (.new cr ctx) processResolved
              destinationIpResolved step.matcher =
            stepMatchState cr ⟨extraCidrs, rulesets, t'⟩ (.new cr ctx) processResolved
              destinationIpResolved step.matcher) ∧
      ∀ v, step.matcher = .condition (.domain v) →
        (∃ ctx, (MatchInput.new cr ctx).normalizedHost = normalizeRouteDomain cr v) →
        (∀ ctx, stepMatches cr ⟨[], none, t⟩ (.new cr ctx) true true step.matcher =
          stepMatches cr ⟨[], none, t'⟩ (.new cr ctx) true true step.matcher) →
        Uncoupled cr plan step := by
  obtain ⟨t', h'⟩ := exists_compile_ofStep h hstep
  refine ⟨t', h', ?_, ?_⟩
  · intro huncoupled extraCidrs rulesets ctx processResolved destinationIpResolved
    exact stepMatchState_alone laws h hstep h' huncoupled _ _ _ _ _
  · rintro v hmatcher ⟨ctx, hctx⟩ hsame
    exact uncoupled_of_domain h hstep h' hmatcher hctx (hsame ctx)

/-- A plan in which a process has the text of a domain. -/
def processFirst : RoutePlan where
  steps := [{ matcher := .condition (.process "example.com."), action := .direct },
    { matcher := .condition (.domain "example.com."), action := .block }]
  subRules_sorted := noSubRules_sorted

/-- The rule on the domain. -/
def domainRule : RouteStep where
  matcher := .condition (.domain "example.com.")
  action := .block

/-- A connection to the domain. -/
def exampleFlow : FlowContext := { host := "example.com", port := 443, network := .tcp }

/-- A plan with the rule on the domain in first place. -/
def domainFirst : RoutePlan where
  steps := [domainRule, { matcher := .condition (.process "example.com."), action := .direct }]
  subRules_sorted := noSubRules_sorted

theorem rule_alone_domainFirst : ∃ t t', PreparedMatchers.compile .ascii domainFirst = some t ∧
    PreparedMatchers.compile .ascii (.ofStep domainRule) = some t' ∧
      ∀ extraCidrs rulesets ctx processResolved destinationIpResolved,
        stepMatchState .ascii ⟨extraCidrs, rulesets, t⟩ (.new .ascii ctx) processResolved
            destinationIpResolved domainRule.matcher =
          stepMatchState .ascii ⟨extraCidrs, rulesets, t'⟩ (.new .ascii ctx) processResolved
            destinationIpResolved domainRule.matcher := by
  have hsome : (PreparedMatchers.compile .ascii domainFirst).isSome := rfl
  obtain ⟨t, ht⟩ := Option.isSome_iff_exists.1 hsome
  have hmem : domainRule ∈ domainFirst.rules := by simp [RoutePlan.rules, domainFirst]
  obtain ⟨t', ht', hsame, -⟩ := rule_alone ascii_keywordLaws ht hmem
  refine ⟨t, t', ht, ht', hsame ⟨fun v hv => ?_, fun v hv => ?_⟩⟩
  · obtain rfl : v = "example.com.".toList := by
      simpa [domainRule, RouteMatcher.conditions] using hv
    rfl
  · simp [domainRule, RouteMatcher.conditions] at hv

/-- Behind the rule on the process, the rule on the domain no longer matches its host. -/
theorem rule_coupled_processFirst : ¬∀ (cr : Crates), KeywordLaws cr → ∀ plan t,
    PreparedMatchers.compile cr plan = some t → ∀ step ∈ plan.rules, ∀ t',
      PreparedMatchers.compile cr (.ofStep step) = some t' →
        ∀ extraCidrs rulesets ctx processResolved destinationIpResolved,
          stepMatches cr ⟨extraCidrs, rulesets, t⟩ (.new cr ctx) processResolved
              destinationIpResolved step.matcher =
            stepMatches cr ⟨extraCidrs, rulesets, t'⟩ (.new cr ctx) processResolved
              destinationIpResolved step.matcher := by
  intro h
  have hplan : (PreparedMatchers.compile .ascii processFirst).map (fun t => stepMatches .ascii
      ⟨[], none, t⟩ (.new .ascii exampleFlow) true true domainRule.matcher) = some false := by rfl
  have halone : (PreparedMatchers.compile .ascii (.ofStep domainRule)).map (fun t => stepMatches
      .ascii ⟨[], none, t⟩ (.new .ascii exampleFlow) true true domainRule.matcher) = some true := by rfl
  obtain ⟨t, ht, hfalse⟩ := Option.map_eq_some_iff.1 hplan
  obtain ⟨t', ht', htrue⟩ := Option.map_eq_some_iff.1 halone
  have hsame := h .ascii ascii_keywordLaws processFirst t ht domainRule
    (by simp [RoutePlan.rules, processFirst, domainRule]) t' ht' [] none exampleFlow true true
  rw [hfalse, htrue] at hsame
  cases hsame

end WutherCore.Route
