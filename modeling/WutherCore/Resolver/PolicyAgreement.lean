import WutherCore.Resolver.PolicySyntax

/-!
# When the two syntaxes agree

A rule is written as a mapping and as a line.  The parsers agree unless the strategy is not known, which only a mapping
rejects; the options are those of `direct` or `proxy`, which a line drops; a TTL does not fit 32 bits, of which a mapping
keeps the low ones; or no address parses behind `hosts:` or `ip:`, which a line takes for the name of a group.

* `DnsAction.effect`: what the resolver does for an action.
* `SameRule`: two results of the parsers that reject or do the same.
* `syntaxes_agree_iff`: when the syntaxes agree on a rule.
-/

namespace WutherCore.Resolver

open WutherCore.Text WutherCore.Net WutherCore.Ruleset

/-! ### What a rule does -/

/-- What `resolve_policy_qtype` does for the action of a rule: a lookup that ends it, a lookup of which the response is
kept, or something without a lookup. -/
inductive Effect
  | lookup (server : Str) (opts : QueryOptions)
  | keep (server : Str) (opts : QueryOptions)
  | other (action : DnsAction)
  deriving DecidableEq

/-- The arms of `resolve_policy_qtype`: `Direct` and `Proxy` are looked up without options. -/
def DnsAction.effect : DnsAction → Effect
  | .direct group | .proxy group => .lookup group {}
  | .route server opts => .lookup server opts
  | .evaluate server opts => .keep server opts
  | action => .other action

/-- Both results are rejections, or rules that match the same hosts and responses and have the same effect. -/
def SameRule (cr : Crates) : Option PolicyRule → Option PolicyRule → Prop
  | none, none => True
  | some rule, some rule' =>
      (∀ host savedResponse rulesets, matchesHost cr host savedResponse rulesets rule.matcher =
        matchesHost cr host savedResponse rulesets rule'.matcher) ∧
      rule.action.effect = rule'.action.effect
  | _, _ => False

/-! ### What both syntaxes carry -/

/-- The strategy is absent or known. -/
def Options.StrategyKnown (o : Options) : Prop := ∀ s ∈ o.strategy, (GroupStrategy.parse s).isSome = true

/-- The TTL is absent or fits 32 bits. -/
def Options.TtlFits (o : Options) : Prop := ∀ ttl ∈ o.ttl, ttl.toNat < UInt32.size

/-- No option changes a query. -/
def Options.Idle (cr : Crates) (o : Options) : Prop :=
  o.noCache = false ∧ o.noOptimisticCache = false ∧ o.ttl = none ∧ o.subnet.bind (parseSubnet cr) = none ∧
    o.strategy = none

/-- Both syntaxes carry the options of an action, or its addresses. -/
def Verb.Carried (cr : Crates) (o : Options) : Verb → Prop
  | .evaluate _ | .route _ => o.TtlFits
  | .direct _ | .proxy _ => o.Idle cr
  | .accept ips => (parseIps ips).isSome = true
  | .drop | .reject | .rcode _ | .fake | .respond => True

/-- Addresses of which none parses, behind `accept:`: both syntaxes reject them. -/
def Verb.Rejected (head : Str) (v : Verb) : Prop :=
  ∃ ips, v = .accept ips ∧ parseIps ips = none ∧ head = "accept:".toList ++ join "," ips

/-- The condition is a network that does not parse, or the addresses are rejected, or the strategy is known and both
syntaxes carry the rest. -/
def WrittenRule.Agrees (cr : Crates) (r : WrittenRule) (w : Spelling) : Prop :=
  r.condition.matcher cr = none ∨ r.verb.Rejected w.head ∨ (r.options.StrategyKnown ∧ r.verb.Carried cr r.options)

section Agreement

variable {cr : Crates} {o : Options} {v : Verb} {head : Str}

theorem inMapping_of_known (h : o.StrategyKnown) :
    o.inMapping cr = some (o.inMappingWith cr (o.strategy.bind GroupStrategy.parse)) := by
  unfold Options.inMapping
  cases hstrategy : o.strategy with
  | none => rfl
  | some value =>
    obtain ⟨strategy, hparse⟩ := Option.isSome_iff_exists.1 (h value hstrategy)
    dsimp only
    rw [hparse, Option.bind_some, hparse]
    rfl

theorem inMapping_of_unknown (h : ¬o.StrategyKnown) : o.inMapping cr = none := by
  unfold Options.inMapping
  cases hstrategy : o.strategy with
  | none =>
    refine absurd (fun value hvalue => ?_) h
    rw [hstrategy] at hvalue
    cases hvalue
  | some value =>
    cases hparse : GroupStrategy.parse value with
    | none =>
      dsimp only
      rw [hparse]
      rfl
    | some strategy =>
      refine absurd (fun value' hvalue' => ?_) h
      rw [hstrategy] at hvalue'
      cases hvalue'
      rw [hparse]
      rfl

theorem options_eq_iff : o.inMappingWith cr (o.strategy.bind GroupStrategy.parse) = o.inLine cr ↔ o.TtlFits := by
  have hfields : o.inMappingWith cr (o.strategy.bind GroupStrategy.parse) = o.inLine cr ↔
      o.ttl.map UInt64.toUInt32 = o.ttl.bind Options.lineTtl := by
    unfold Options.inMappingWith Options.inLine
    rw [QueryOptions.mk.injEq]
    simp only [true_and, and_true]
  rw [hfields]
  unfold Options.TtlFits
  cases o.ttl with
  | none => exact iff_of_true rfl nofun
  | some ttl =>
    rw [Option.map_some, Option.bind_some, Options.lineTtl]
    split_ifs with hfits
    · refine iff_of_true rfl fun ttl' h => ?_
      cases h
      exact hfits
    · refine iff_of_false nofun fun h => hfits (h ttl rfl)

theorem options_eq_default_iff (h : o.StrategyKnown) :
    o.inMappingWith cr (o.strategy.bind GroupStrategy.parse) = {} ↔ o.Idle cr := by
  have hstrategy : o.strategy.bind GroupStrategy.parse = none ↔ o.strategy = none := by
    cases hvalue : o.strategy with
    | none => exact iff_of_true rfl rfl
    | some value =>
      obtain ⟨strategy, hparse⟩ := Option.isSome_iff_exists.1 (h value hvalue)
      rw [Option.bind_some, hparse]
      exact iff_of_false nofun nofun
  unfold Options.inMappingWith Options.Idle
  rw [QueryOptions.mk.injEq, Option.map_eq_none_iff, hstrategy]

theorem not_rejected (hv : ∀ ips, v ≠ .accept ips) : ¬v.Rejected head := by
  rintro ⟨ips, heq, -⟩
  exact hv ips heq

theorem inLine_eq_none_iff (opts : QueryOptions) : v.inLine head opts = none ↔ v.Rejected head := by
  unfold Verb.Rejected
  cases v with
  | accept ips =>
    have hrejected : (∃ ips', Verb.accept ips = .accept ips' ∧ parseIps ips' = none ∧
        head = "accept:".toList ++ join "," ips') ↔ parseIps ips = none ∧ head = "accept:".toList ++ join "," ips := by
      constructor
      · rintro ⟨ips', heq, hnone, hhead⟩
        cases heq
        exact ⟨hnone, hhead⟩
      · rintro ⟨hnone, hhead⟩
        exact ⟨ips, rfl, hnone, hhead⟩
    rw [hrejected, Verb.inLine]
    split_ifs with hhead
    · rw [Option.map_eq_none_iff]
      exact (and_iff_left hhead).symm
    · exact iff_of_false nofun fun h => hhead h.2
  | drop | reject | rcode code | fake | respond | evaluate group | route group | direct group | proxy group =>
    exact iff_of_false nofun (not_rejected nofun)

theorem sameRule_some {matcher : HostMatch} {action action' : DnsAction} :
    SameRule cr (some ⟨matcher, action⟩) (some ⟨matcher, action'⟩) ↔ action.effect = action'.effect :=
  and_iff_right fun _ _ _ => rfl

/-- With a known strategy, the syntaxes agree on an action when it is rejected or carried. -/
theorem verb_agrees_iff (hknown : o.StrategyKnown) (matcher : HostMatch) :
    SameRule cr ((v.inMapping (o.inMappingWith cr (o.strategy.bind GroupStrategy.parse))).map (PolicyRule.mk matcher))
        ((v.inLine head (o.inLine cr)).map (PolicyRule.mk matcher)) ↔
      v.Rejected head ∨ v.Carried cr o := by
  cases v with
  | accept ips =>
    cases hips : parseIps ips with
    | some addresses =>
      have hcarried : (Verb.accept ips).Carried cr o := by
        rw [Verb.Carried, hips]
        rfl
      have hline : (Verb.accept ips).inLine head (o.inLine cr) = some (.accept addresses) := by
        rw [Verb.inLine, hips]
        split_ifs <;> rfl
      rw [hline, Verb.inMapping, hips]
      exact iff_of_true (sameRule_some.2 rfl) (.inr hcarried)
    | none =>
      have hnotCarried : ¬(Verb.accept ips).Carried cr o := by
        rw [Verb.Carried, hips]
        exact Bool.false_ne_true
      rw [or_iff_left hnotCarried, ← inLine_eq_none_iff (o.inLine cr), Verb.inMapping, hips]
      cases (Verb.accept ips).inLine head (o.inLine cr) with
      | none => exact iff_of_true trivial rfl
      | some action => exact iff_of_false id nofun
  | evaluate group | route group =>
    rw [or_iff_right, Verb.Carried, ← @options_eq_iff cr]
    · refine sameRule_some.trans ?_
      rw [DnsAction.effect, DnsAction.effect]
      simp
    · exact not_rejected nofun
  | direct group | proxy group =>
    rw [or_iff_right, Verb.Carried, ← options_eq_default_iff hknown]
    · refine sameRule_some.trans ?_
      rw [DnsAction.effect, DnsAction.effect]
      simp
    · exact not_rejected nofun
  | drop | reject | rcode code | fake | respond => exact iff_of_true (sameRule_some.2 rfl) (.inr trivial)

/-- **When the two syntaxes agree on a rule.** -/
theorem syntaxes_agree_iff (cr : Crates) {r : WrittenRule} {w : Spelling} (hspelled : r.Spelled w)
    (hfits : r.FitsLine w) :
    SameRule cr (parseRuleValue cr (.mapping (r.mapping w))) (parseRuleValue cr (.string (r.line w))) ↔
      r.Agrees cr w := by
  have hmapping : parseRuleValue cr (.mapping (r.mapping w)) = parseRuleMapping cr (r.mapping w) := rfl
  have hline : parseRuleValue cr (.string (r.line w)) = parseRuleLine cr (r.line w) := rfl
  unfold WrittenRule.Agrees
  rw [hmapping, hline, parseRuleMapping_mapping hspelled hfits, parseRuleLine_line hspelled hfits]
  cases r.condition.matcher cr with
  | none => exact iff_of_true trivial (.inl rfl)
  | some matcher =>
    have hsome : ¬(some matcher = none) := nofun
    rw [or_iff_right hsome]
    by_cases hknown : r.options.StrategyKnown
    · rw [inMapping_of_known hknown, and_iff_right hknown, ← verb_agrees_iff hknown matcher]
      have hmap (action : Option DnsAction) : (do
          let action ← action
          some (PolicyRule.mk matcher action)) = action.map (PolicyRule.mk matcher) := by
        cases action <;> rfl
      exact Iff.of_eq (congrArg₂ (SameRule cr) (hmap _) (hmap _))
    · rw [inMapping_of_unknown hknown, or_iff_left fun h => hknown h.1, ← inLine_eq_none_iff (r.options.inLine cr)]
      cases r.verb.inLine w.head (r.options.inLine cr) with
      | none => exact iff_of_true trivial rfl
      | some action => exact iff_of_false id nofun

end Agreement

/-- The rule of the documentation of `push_value`: the set `cn` is resolved by the group `cn-dns` with a client subnet. -/
def subnetRule (verb : Verb) : WrittenRule where
  condition := .set "cn".toList
  verb
  options := { subnet := some "1.2.3.0/24".toList }

/-- How it is written, with an action of a group. -/
def subnetSpelling (key : String) : Spelling where
  conditionKey := "set"
  before := "set:"
  verbKey := key
  verbValue := .string "cn-dns".toList
  head := key.toList ++ ":cn-dns".toList

theorem known_default : ({} : OptionNames).Known := ⟨by decide, by decide, by decide, by decide, by decide, by decide⟩

theorem subnetRule_spelled {verb : Verb} {key : String} (hkey : key ∈ verb.keys)
    (hvalue : .string "cn-dns".toList ∈ verb.values) (hhead : key.toList ++ ":cn-dns".toList ∈ verb.heads) :
    (subnetRule verb).Spelled (subnetSpelling key) where
  conditionKey := List.mem_cons_self
  before := List.mem_cons_self
  verbKey := hkey
  verbValue := hvalue
  head := hhead
  names := known_default

theorem subnetRule_fits {verb : Verb} {key : String} (hkey : key = "route" ∨ key = "direct")
    (hverb : ∀ ips, verb ≠ .accept ips) : (subnetRule verb).FitsLine (subnetSpelling key) := by
  have hlhs : (subnetRule verb).lhs (subnetSpelling key) = "set:cn".toList := by
    change "set:".toList ++ "cn".toList = "set:cn".toList
    decide
  have htexts : (subnetRule verb).options.texts (subnetSpelling key).names = ["ecs=1.2.3.0/24".toList] := by
    change ["ecs=".toList ++ "1.2.3.0/24".toList] = ["ecs=1.2.3.0/24".toList]
    decide
  have hrhs : (subnetRule verb).rhs (subnetSpelling key) = key.toList ++ ":cn-dns?ecs=1.2.3.0/24".toList := by
    rcases hkey with rfl | rfl <;> rfl
  constructor
  case lhs =>
    rw [hlhs]
    exact Text.trimmed_of_trim_eq rfl
  case comment =>
    rw [hlhs]
    decide
  case arrow =>
    rw [hlhs]
    decide
  case rhs =>
    rw [hrhs]
    rcases hkey with rfl | rfl <;> exact Text.trimmed_of_trim_eq rfl
  case head => rcases hkey with rfl | rfl <;> exact Text.trimmed_of_trim_eq rfl
  case question => rcases hkey with rfl | rfl <;> decide
  case texts =>
    rw [htexts]
    intro text htext
    cases List.mem_singleton.1 htext
    exact ⟨Text.trimmed_of_trim_eq rfl, by simp [isRejectSeparator]⟩
  case ips =>
    intro ips heq
    exact absurd heq (hverb ips)

/-- The rule with `route` is the same in both syntaxes. -/
theorem syntaxes_agree_route :
    (subnetRule (.route "cn-dns".toList)).Agrees .ascii (subnetSpelling "route") ∧
      SameRule .ascii
        (parseRuleValue .ascii (.mapping ((subnetRule (.route "cn-dns".toList)).mapping (subnetSpelling "route"))))
        (parseRuleValue .ascii (.string ((subnetRule (.route "cn-dns".toList)).line (subnetSpelling "route")))) := by
  have hagrees : (subnetRule (.route "cn-dns".toList)).Agrees .ascii (subnetSpelling "route") :=
    .inr (.inr ⟨nofun, nofun⟩)
  refine ⟨hagrees, (syntaxes_agree_iff .ascii ?_ ?_).2 hagrees⟩
  · exact subnetRule_spelled List.mem_cons_self List.mem_cons_self List.mem_cons_self
  · exact subnetRule_fits (.inl rfl) nofun

/-- **The rule with `direct` has a client subnet as a mapping, and none as a line.** -/
theorem line_drops_subnet :
    ¬∀ (cr : Crates) (r : WrittenRule) (w : Spelling), r.Spelled w → r.FitsLine w →
      SameRule cr (parseRuleValue cr (.mapping (r.mapping w))) (parseRuleValue cr (.string (r.line w))) := by
  intro hall
  have hspelled : (subnetRule (.direct "cn-dns".toList)).Spelled (subnetSpelling "direct") :=
    subnetRule_spelled List.mem_cons_self List.mem_cons_self List.mem_cons_self
  have hfits : (subnetRule (.direct "cn-dns".toList)).FitsLine (subnetSpelling "direct") :=
    subnetRule_fits (.inr rfl) nofun
  have hmapping : parseRuleValue .ascii
      (.mapping ((subnetRule (.direct "cn-dns".toList)).mapping (subnetSpelling "direct"))) =
        some ⟨.set "cn".toList, .route "cn-dns".toList
          { clientSubnet := some (.v4 ⟨0x01020300#32, 24, by decide⟩) }⟩ := by
    rfl
  have hline : parseRuleValue .ascii
      (.string ((subnetRule (.direct "cn-dns".toList)).line (subnetSpelling "direct"))) =
        some ⟨.set "cn".toList, .direct "cn-dns".toList⟩ :=
    parseRuleLine_line hspelled hfits
  have hsame := hall .ascii _ _ hspelled hfits
  rw [hmapping, hline] at hsame
  exact absurd hsame.2 (by decide)

end WutherCore.Resolver
