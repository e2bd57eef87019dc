import Mathlib
import WutherCore.Capture.RedirectRules
import WutherCore.Data.Priority
import WutherCore.Ruleset.Crates

/-!
# Where the policy rules of `auto_redirect` send a packet

The rules are words on the command line of `ip`.  `readRule` reads them as `ip rule add` does, `verdict`
is the table that the first matching rule looks up, by priority.

* `Level`: the rules that `buildRules` makes for one purpose have one priority and look up one table.
* `verdict_tun_iff`: a packet of an enabled family goes to the TUN table exactly if it is to be captured.
* `rules_classify`: the same with the order of the priorities; other families are left alone.
-/

namespace WutherCore.Capture.Redirect

open WutherCore.Text WutherCore.Data WutherCore.Net
open WutherCore.Ruleset (parseNet parseNet_display)

/-- `table_matches_index`. -/
def tableMatchesIndex (table : Str) (index : Nat) : Bool :=
  if table = ("default" : Str) then index == 253
  else if table = ("main" : Str) then index == 254
  else if table = ("local" : Str) then index == 255
  else parseUnsigned (2 ^ 32) table == some index

/-! ### Packets and rules -/

/-- The protocols that rules name. -/
inductive Protocol
  | tcp
  | udp
  deriving DecidableEq, Repr

/-- The name of a protocol in a rule. -/
def Protocol.text : Protocol → Str
  | .tcp => "tcp"
  | .udp => "udp"

/-- A TCP or UDP packet that was generated on this host. -/
structure Packet where
  destination : IpAddr
  protocol : Protocol
  mark : Nat

/-- The family of a packet. -/
def Packet.family (packet : Packet) : IpFamily :=
  match packet.destination with
  | .v4 _ => .v4
  | .v6 _ => .v6

/-- A rule of the kernel. -/
structure IpRule where
  priority : Nat
  iif : Option Str
  protocol : Option Str
  destination : Option IpNet
  mark : Option Nat
  table : Str
  deriving DecidableEq

/-- A mark, in hexadecimal behind `0x` or in decimal. -/
def readMark : Str → Option Nat
  | '0' :: 'x' :: digits =>
    if digits ≠ [] ∧ digits.all (isDigitOf 16) then some (valueOf 16 digits) else none
  | s => parseUnsigned (2 ^ 32) s

/-- What is read of a word, where it is there. -/
def readOptional {α : Type} (read : Str → Option α) : Option Str → Option (Option α)
  | none => some none
  | some s => (read s).map some

/-- The rule that `ip rule add` reads from a selector. -/
def readRule (selector : List Str) : Option IpRule := do
  let priority ← (field "priority" selector).bind (parseUnsigned (2 ^ 32))
  let destination ← readOptional parseNet (field "to" selector)
  let mark ← readOptional readMark (field "fwmark" selector)
  let table ← field "lookup" selector
  return ⟨priority, field "iif" selector, field "ipproto" selector, destination, mark, table⟩

/-- Whether a rule matches a packet of its family.  A packet of this host comes in through `lo`. -/
def IpRule.admits (packet : Packet) (rule : IpRule) : Bool :=
  rule.iif.all (· == ("lo" : Str)) && rule.protocol.all (· == packet.protocol.text) &&
    rule.destination.all (·.contains packet.destination) && rule.mark.all (· == packet.mark)

/-- The rules of a family, as the kernel has them. -/
def kernelRules (rules : List OwnedIpRule) (family : IpFamily) : List IpRule :=
  (rules.filter fun rule => rule.family = family).filterMap fun rule => readRule rule.selector

/-- The table that a packet is sent to. -/
def verdict (rules : List OwnedIpRule) (packet : Packet) : Option Str :=
  (firstMatch IpRule.priority (IpRule.admits packet) (kernelRules rules packet.family)).map IpRule.table

/-! ### What is to be captured -/

/-- The mark of the traffic of the process. -/
def outputMark (plan : CapturePlan) : Nat :=
  (plan.outputMark.filter (· ≠ 0)).getD defaultAutoRedirectOutputMark

/-- Whether an address is in a subnet of the TUN device. -/
def InTunSubnet (plan : CapturePlan) : IpAddr → Prop
  | .v4 a => plan.tunV4Cidr.contains a = true
  | .v6 a => ∃ net, plan.tunV6Cidr = some net ∧ net.contains a = true

/-- Whether an address is a target that is let pass by. -/
def Bypassed (plan : CapturePlan) (a : IpAddr) : Prop :=
  (∃ net ∈ plan.excludeCidrs, net.contains a = true) ∨
    (∃ net ∈ plan.routeExcludeAddresses, net.contains a = true) ∨ a ∈ plan.loopbackAddresses

/-- Whether an address is one of those that are routed. -/
def Routed (plan : CapturePlan) (a : IpAddr) : Prop :=
  plan.routeAddresses = [] ∨ ∃ net ∈ plan.routeAddresses, net.contains a = true

/-- Whether a packet is to be sent to the TUN device. -/
def ToCapture (plan : CapturePlan) (packet : Packet) : Prop :=
  InTunSubnet plan packet.destination ∨
    packet.mark ≠ outputMark plan ∧ ¬Bypassed plan packet.destination ∧ Routed plan packet.destination

/-! ### Reading -/

theorem readMark_hex (mark : Nat) : readMark ('0' :: 'x' :: hex mark) = some mark := by
  have hspec := hex_spec mark
  have hne : hex mark ≠ [] := Nat.toDigits_ne_nil
  rw [readMark, if_pos ⟨hne, List.all_eq_true.2 hspec.2⟩, hspec.1]

theorem readRule_eq {selector : List Str} {priority : Nat} {destination : Option IpNet} {mark : Option Nat}
    {table : Str} (hp : priority < 2 ^ 32) (hpriority : field "priority" selector = some (decimal priority))
    (hto : field "to" selector = destination.map IpNet.display)
    (hmark : field "fwmark" selector = mark.map fun m => '0' :: 'x' :: hex m)
    (hlookup : field "lookup" selector = some table) :
    readRule selector =
      some ⟨priority, field "iif" selector, field "ipproto" selector, destination, mark, table⟩ := by
  have hdestination : readOptional parseNet (destination.map IpNet.display) = some destination := by
    cases destination with
    | none => rfl
    | some net => rw [Option.map_some, readOptional, parseNet_display, Option.map_some]
  have hread : readOptional readMark (mark.map fun m => '0' :: 'x' :: hex m) = some mark := by
    cases mark with
    | none => rfl
    | some m => rw [Option.map_some, readOptional, readMark_hex, Option.map_some]
  rw [readRule, hpriority, hto, hmark, hlookup, Option.bind_some, parseUnsigned_decimal hp, hdestination,
    hread]
  rfl

theorem readRule_destinationRule {family : IpFamily} {priority : Nat} {destination : Option IpNet}
    {protocol : Option Str} {lookup : Str} {layer : RuleLayer} (h : priority < 2 ^ 32) :
    readRule (destinationRule family priority destination true protocol lookup layer).selector =
      some ⟨priority, some ("lo" : Str), protocol, destination, none, lookup⟩ := by
  set selector := (destinationRule family priority destination true protocol lookup layer).selector
    with hselector
  obtain ⟨hpriority, hproto, hto⟩ :=
    field_destinationRule family priority destination true protocol lookup layer
  have hrest : field "iif" selector = some ("lo" : Str) ∧ field "fwmark" selector = none ∧
      field "lookup" selector = some lookup := by
    cases protocol <;> cases destination <;> simp [hselector, destinationRule, field]
  rw [readRule_eq h hpriority hto (hrest.2.1.trans (Option.map_none ..).symm) hrest.2.2, hrest.1, hproto]

theorem readRule_markRule {family : IpFamily} {priority mark : Nat} {lookup : Str} (h : priority < 2 ^ 32) :
    readRule (markRule family priority mark lookup).selector =
      some ⟨priority, some ("lo" : Str), none, none, some mark, lookup⟩ := by
  set selector := (markRule family priority mark lookup).selector with hselector
  have hfields : field "priority" selector = some (decimal priority) ∧
      field "iif" selector = some ("lo" : Str) ∧ field "ipproto" selector = none ∧ field "to" selector = none ∧
      field "fwmark" selector = some ('0' :: 'x' :: hex mark) ∧ field "lookup" selector = some lookup := by
    simp [hselector, markRule, field]
  obtain ⟨hpriority, hiif, hproto, hto, hmark, hlookup⟩ := hfields
  have hread : readRule selector = some ⟨priority, field "iif" selector, field "ipproto" selector, none,
      some mark, lookup⟩ := readRule_eq h hpriority hto hmark hlookup
  rw [hread, hiif, hproto]

theorem display_injective {m n : IpNet} (h : m.display = n.display) : m = n := by
  have hm := parseNet_display m
  rw [h, parseNet_display n] at hm
  exact (Option.some.inj hm).symm

theorem get?_keep {m : AssocMap Str IpNet} (hm : ∀ text n, m.get? text = some n → n.display = text)
    (first n : IpNet) (text : Str) :
    let m' := if m.contains first.display then m else m.insert first.display first
    (m'.get? text = some n → n.display = text) ∧
      (m'.get? n.display = some n ↔ n = first ∨ m.get? n.display = some n) := by
  dsimp only
  split_ifs with hcontains
  · refine ⟨hm text n, Iff.symm (or_iff_right_of_imp ?_)⟩
    rintro rfl
    obtain ⟨found, hfound⟩ := Option.isSome_iff_exists.1 hcontains
    rw [hfound, display_injective (hm _ _ hfound)]
  · constructor
    · intro hget
      by_cases htext : text = first.display
      · rw [htext, AssocMap.get?_insert_self] at hget
        rw [← Option.some.inj hget, htext]
      · rw [AssocMap.get?_insert_of_ne _ _ htext] at hget
        exact hm text n hget
    · by_cases hn : n = first
      · subst hn
        simp
      · have hdisplay : n.display ≠ first.display := fun h => hn (display_injective h)
        rw [AssocMap.get?_insert_of_ne _ _ hdisplay]
        exact (or_iff_right hn).symm

theorem mem_canonicalNets {nets : List IpNet} {net : IpNet} : net ∈ canonicalNets nets ↔ net ∈ nets := by
  set keep := fun (unique : AssocMap Str IpNet) (net : IpNet) =>
    if unique.contains net.display then unique else unique.insert net.display net with hkeep
  have hfold : ∀ (todo : List IpNet) (m : AssocMap Str IpNet),
      (∀ text n, m.get? text = some n → n.display = text) →
      (∀ text n, (todo.foldl keep m).get? text = some n → n.display = text) ∧
      ∀ n, (todo.foldl keep m).get? n.display = some n ↔ n ∈ todo ∨ m.get? n.display = some n := by
    intro todo
    induction todo with
    | nil => exact fun m hm => ⟨hm, by simp⟩
    | cons first todo ih =>
      intro m hm
      obtain ⟨hkeys, hget⟩ := ih (keep m first) fun text n => (get?_keep hm first n text).1
      refine ⟨hkeys, fun n => ?_⟩
      rw [List.foldl_cons, hget, (get?_keep hm first n []).2, List.mem_cons]
      tauto
  obtain ⟨hkeys, hget⟩ := hfold nets .empty (by simp)
  have hmem : net ∈ canonicalNets nets ↔ ∃ text, (text, net) ∈ (nets.foldl keep .empty).entries := by
    rw [canonicalNets, List.mem_map]
    simp [AssocMap.sorted, (List.perm_insertionSort _ _).mem_iff, hkeep]
  rw [hmem]
  constructor
  · rintro ⟨text, hentry⟩
    have htext := AssocMap.get?_eq_some.2 hentry
    rw [← hkeys text net htext] at htext
    simpa using (hget net).1 htext
  · intro hnet
    exact ⟨net.display, AssocMap.get?_eq_some.1 ((hget net).2 (.inl hnet))⟩

theorem contains_host {w : Nat} (a x : BitVec w) :
    (⟨a, w, le_rfl⟩ : Subnet w).contains x = true ↔ x = a := by
  rw [Subnet.contains_iff, Subnet.block, Subnet.size, Nat.sub_self, Nat.pow_zero, Nat.div_one, Nat.div_one]
  exact BitVec.toNat_inj

theorem hostNet_contains (a x : IpAddr) : (hostNet a).contains x = true ↔ x = a := by
  cases a <;> cases x <;> simp [hostNet, IpNet.contains, contains_host]

theorem bypassed_iff (plan : CapturePlan) (a : IpAddr) :
    (∃ net ∈ mergedBypassTargets plan, net.contains a = true) ↔ Bypassed plan a := by
  unfold mergedBypassTargets Bypassed
  simp only [mem_canonicalNets, List.mem_append, List.mem_map]
  constructor
  · rintro ⟨net, (hnet | hnet) | ⟨host, hhost, rfl⟩, hcontains⟩
    · exact .inl ⟨net, hnet, hcontains⟩
    · exact .inr (.inl ⟨net, hnet, hcontains⟩)
    · rw [(hostNet_contains host a).1 hcontains]
      exact .inr (.inr hhost)
  · rintro (⟨net, hnet, hcontains⟩ | ⟨net, hnet, hcontains⟩ | hhost)
    · exact ⟨net, .inl (.inl hnet), hcontains⟩
    · exact ⟨net, .inl (.inr hnet), hcontains⟩
    · exact ⟨hostNet a, .inr ⟨a, hhost, rfl⟩, (hostNet_contains a a).2 rfl⟩

/-! ### The rules of one purpose -/

theorem mem_kernelRules {rules : List OwnedIpRule} {family : IpFamily} {rule : IpRule} :
    rule ∈ kernelRules rules family ↔
      ∃ r ∈ rules, r.family = family ∧ readRule r.selector = some rule := by
  simp [kernelRules, List.mem_filterMap, and_assoc]

theorem kernelRules_append (a b : List OwnedIpRule) (family : IpFamily) :
    kernelRules (a ++ b) family = kernelRules a family ++ kernelRules b family := by
  rw [kernelRules, List.filter_append, List.filterMap_append, kernelRules, kernelRules]

/-- The rules of one purpose have one priority and look up one table, and one of them matches exactly if
the condition holds. -/
structure Level (rules : List OwnedIpRule) (packet : Packet) (priority : Nat) (table : Str)
    (condition : Prop) : Prop where
  uniform : ∀ rule ∈ kernelRules rules packet.family, rule.priority = priority ∧ rule.table = table
  hits : (∃ rule ∈ kernelRules rules packet.family, rule.admits packet = true) ↔ condition

/-- A packet is of a family that the rules are made for. -/
def Enabled (ipv6 : Bool) (packet : Packet) : Prop := packet.family ∈ enabledFamilies ipv6

variable {plan : CapturePlan} {ipv6 : Bool} {tables : BypassLookupTables} {p : RulePriorities}
  {rules : List OwnedIpRule} {packet : Packet} {table : Str}

theorem familyForNet_of_contains {net : IpNet} (h : net.contains packet.destination = true) :
    familyForNet net = packet.family := by
  unfold Packet.family
  cases hdst : packet.destination <;> cases net <;> simp [IpNet.contains, hdst, familyForNet] at h ⊢

theorem enabled_filter (henabled : Enabled ipv6 packet) {net : IpNet} (h : familyForNet net = packet.family) :
    (ipv6 || familyForNet net == .v4) = true := by
  cases ipv6 with
  | true => rfl
  | false =>
    have hv4 : packet.family = .v4 := by simpa [Enabled, enabledFamilies] using henabled
    rw [h, hv4]
    rfl

theorem level_bypass (h : bypassRules plan ipv6 tables p = .ok rules) (hp : p.routeBypass < 2 ^ 32)
    (henabled : Enabled ipv6 packet) (htable : tables.forFamily packet.family = .ok table) :
    Level rules packet p.routeBypass table (Bypassed plan packet.destination) := by
  have hall := mapM_eq_ok.1 h
  have hmem : ∀ rule, rule ∈ kernelRules rules packet.family ↔ ∃ net ∈ mergedBypassTargets plan,
      familyForNet net = packet.family ∧
        rule = ⟨p.routeBypass, some ("lo" : Str), none, some net, none, table⟩ := by
    intro rule
    rw [mem_kernelRules]
    constructor
    · rintro ⟨r, hr, hfamily, hread⟩
      obtain ⟨net, hnet, hrule⟩ := exists_left_of_forall₂ hall hr
      obtain ⟨lookup, hlookup, hrule⟩ := bind_eq_ok.1 hrule
      cases hrule
      have hfamily : familyForNet net = packet.family := hfamily
      rw [hfamily, htable] at hlookup
      cases hlookup
      rw [readRule_destinationRule hp] at hread
      exact ⟨net, (List.mem_filter.1 hnet).1, hfamily, (Option.some.inj hread).symm⟩
    · rintro ⟨net, hnet, hfamily, rfl⟩
      have hfilter : net ∈ (mergedBypassTargets plan).filter fun net => ipv6 || familyForNet net == .v4 :=
        List.mem_filter.2 ⟨hnet, enabled_filter henabled hfamily⟩
      obtain ⟨r, hr, hrule⟩ := exists_right_of_forall₂ hall hfilter
      obtain ⟨lookup, hlookup, hrule⟩ := bind_eq_ok.1 hrule
      cases hrule
      rw [hfamily, htable] at hlookup
      cases hlookup
      exact ⟨_, hr, hfamily, readRule_destinationRule hp⟩
  constructor
  · intro rule hrule
    obtain ⟨net, -, -, rfl⟩ := (hmem rule).1 hrule
    exact ⟨rfl, rfl⟩
  · rw [← bypassed_iff]
    constructor
    · rintro ⟨rule, hrule, hadmits⟩
      obtain ⟨net, hnet, -, rfl⟩ := (hmem rule).1 hrule
      exact ⟨net, hnet, by simpa [IpRule.admits] using hadmits⟩
    · rintro ⟨net, hnet, hcontains⟩
      refine ⟨_, (hmem _).2 ⟨net, hnet, familyForNet_of_contains hcontains, rfl⟩, ?_⟩
      simpa [IpRule.admits] using hcontains

theorem level_mark (h : markRules plan ipv6 tables p = .ok rules) (hp : p.outboundMark < 2 ^ 32)
    (henabled : Enabled ipv6 packet) (htable : tables.forFamily packet.family = .ok table) :
    Level rules packet p.outboundMark table (packet.mark = outputMark plan) := by
  have hall := mapM_eq_ok.1 h
  have hmem : ∀ rule, rule ∈ kernelRules rules packet.family ↔
      rule = ⟨p.outboundMark, some ("lo" : Str), none, none, some (outputMark plan), table⟩ := by
    intro rule
    rw [mem_kernelRules]
    constructor
    · rintro ⟨r, hr, hfamily, hread⟩
      obtain ⟨family, -, hrule⟩ := exists_left_of_forall₂ hall hr
      obtain ⟨lookup, hlookup, hrule⟩ := bind_eq_ok.1 hrule
      cases hrule
      have hfamily : family = packet.family := hfamily
      rw [hfamily, htable] at hlookup
      cases hlookup
      rw [readRule_markRule hp] at hread
      exact (Option.some.inj hread).symm
    · rintro rfl
      obtain ⟨r, hr, hrule⟩ := exists_right_of_forall₂ hall henabled
      obtain ⟨lookup, hlookup, hrule⟩ := bind_eq_ok.1 hrule
      cases hrule
      rw [htable] at hlookup
      cases hlookup
      exact ⟨_, hr, rfl, readRule_markRule hp⟩
  constructor
  · intro rule hrule
    rw [(hmem rule).1 hrule]
    exact ⟨rfl, rfl⟩
  · constructor
    · rintro ⟨rule, hrule, hadmits⟩
      rw [(hmem rule).1 hrule] at hadmits
      have hmark : outputMark plan = packet.mark := by simpa [IpRule.admits] using hadmits
      exact hmark.symm
    · intro hmark
      refine ⟨_, (hmem _).2 rfl, ?_⟩
      simp [IpRule.admits, hmark]

/-- Rules for both protocols and some destinations. -/
theorem level_protocols {α : Type} (family : α → IpFamily) (net : α → Option IpNet) (xs : List α)
    {priority : Nat} (hp : priority < 2 ^ 32)
    (hrules : rules = (xs.product protocols).map fun e =>
      destinationRule (family e.1) priority (net e.1) true (some e.2) table .capture) :
    Level rules packet priority table
      (∃ x ∈ xs, family x = packet.family ∧ (net x).all (·.contains packet.destination) = true) := by
  subst hrules
  have hprotocol : packet.protocol.text ∈ protocols := by
    cases packet.protocol
    · exact List.mem_cons_self
    · exact List.mem_cons_of_mem _ List.mem_cons_self
  have hmem : ∀ rule, rule ∈ kernelRules ((xs.product protocols).map fun e =>
      destinationRule (family e.1) priority (net e.1) true (some e.2) table .capture) packet.family ↔
      ∃ x ∈ xs, ∃ protocol ∈ protocols, family x = packet.family ∧
        rule = ⟨priority, some ("lo" : Str), some protocol, net x, none, table⟩ := by
    intro rule
    rw [mem_kernelRules]
    constructor
    · rintro ⟨r, hr, hfamily, hread⟩
      obtain ⟨⟨x, protocol⟩, he, rfl⟩ := List.mem_map.1 hr
      obtain ⟨hx, hproto⟩ := List.pair_mem_product.1 he
      rw [readRule_destinationRule hp] at hread
      exact ⟨x, hx, protocol, hproto, hfamily, (Option.some.inj hread).symm⟩
    · rintro ⟨x, hx, protocol, hproto, hfamily, rfl⟩
      exact ⟨_, List.mem_map.2 ⟨(x, protocol), List.pair_mem_product.2 ⟨hx, hproto⟩, rfl⟩, hfamily,
        readRule_destinationRule hp⟩
  constructor
  · intro rule hrule
    obtain ⟨x, -, protocol, -, -, rfl⟩ := (hmem rule).1 hrule
    exact ⟨rfl, rfl⟩
  · constructor
    · rintro ⟨rule, hrule, hadmits⟩
      obtain ⟨x, hx, protocol, -, hfamily, rfl⟩ := (hmem rule).1 hrule
      simp only [IpRule.admits, Bool.and_eq_true] at hadmits
      exact ⟨x, hx, hfamily, hadmits.1.2⟩
    · rintro ⟨x, hx, hfamily, hcontains⟩
      refine ⟨_, (hmem _).2 ⟨x, hx, _, hprotocol, hfamily, rfl⟩, ?_⟩
      simp [IpRule.admits, hcontains]

theorem Level.congr {priority : Nat} {c d : Prop} (h : Level rules packet priority table c) (hcd : c ↔ d) :
    Level rules packet priority table d := ⟨h.uniform, h.hits.trans hcd⟩

theorem level_tun (h : tunRules plan ipv6 p = .ok rules) (hp : p.tunSubnet < 2 ^ 32)
    (henabled : Enabled ipv6 packet) :
    Level rules packet p.tunSubnet (decimal plan.iproute2TableIndex)
      (InTunSubnet plan packet.destination) := by
  have hfamily : ∀ net : IpNet, familyForNet net = packet.family ∧
      net.contains packet.destination = true ↔ net.contains packet.destination = true :=
    fun net => ⟨And.right, fun h => ⟨familyForNet_of_contains h, h⟩⟩
  unfold tunRules at h
  cases ipv6 with
  | true =>
    rw [if_pos rfl] at h
    split at h
    · next net hnet =>
      cases h
      refine (level_protocols familyForNet some [.v4 plan.tunV4Cidr, .v6 net] hp rfl).congr ?_
      simp only [Option.all_some, hfamily, List.mem_cons, List.not_mem_nil, or_false, exists_eq_or_imp,
        exists_eq_left]
      cases packet.destination <;> simp [IpNet.contains, InTunSubnet, hnet]
    · cases h
  | false =>
    cases h
    have hv4 : packet.family = .v4 := by simpa [Enabled, enabledFamilies] using henabled
    refine (level_protocols familyForNet some [.v4 plan.tunV4Cidr] hp rfl).congr ?_
    simp only [Option.all_some, hfamily, List.mem_cons, List.not_mem_nil, or_false, exists_eq_left]
    cases hdst : packet.destination <;> simp [IpNet.contains, InTunSubnet, Packet.family, hdst] at hv4 ⊢

theorem level_capture (hp : p.capture < 2 ^ 32) (henabled : Enabled ipv6 packet) :
    Level (captureRules plan ipv6 p) packet p.capture (decimal plan.iproute2TableIndex)
      (Routed plan packet.destination) := by
  unfold captureRules
  dsimp only
  have hnil : canonicalNets plan.routeAddresses = [] ↔ plan.routeAddresses = [] := by
    simp only [List.eq_nil_iff_forall_not_mem, mem_canonicalNets]
  split_ifs with hempty
  · refine (level_protocols id (fun _ => none) (enabledFamilies ipv6) hp rfl).congr ?_
    constructor
    · exact fun _ => .inl (hnil.1 (List.isEmpty_iff.1 hempty))
    · exact fun _ => ⟨packet.family, henabled, rfl, rfl⟩
  · refine (level_protocols familyForNet some _ hp rfl).congr ?_
    have hne : plan.routeAddresses ≠ [] := fun h => hempty (List.isEmpty_iff.2 (hnil.2 h))
    simp only [List.mem_filter, mem_canonicalNets, Option.all_some]
    constructor
    · rintro ⟨net, ⟨hnet, -⟩, -, hcontains⟩
      exact .inr ⟨net, hnet, hcontains⟩
    · rintro (h | ⟨net, hnet, hcontains⟩)
      · exact absurd h hne
      · have hfamily := familyForNet_of_contains hcontains
        exact ⟨net, ⟨hnet, enabled_filter henabled hfamily⟩, hfamily, hcontains⟩

/-! ### All rules -/

/-- The priorities are distinct, in the order of the rules, and before that of the main table. -/
structure RulePriorities.Ordered (p : RulePriorities) : Prop where
  pos : 0 < p.tunSubnet
  tunSubnet_lt : p.tunSubnet < p.routeBypass
  routeBypass_lt : p.routeBypass < p.outboundMark
  outboundMark_lt : p.outboundMark < p.capture
  capture_le : p.capture ≤ maxIproute2AutoRedirectRuleIndex

theorem RulePriorities.Ordered.small (hp : p.Ordered) : p.tunSubnet < 2 ^ 32 ∧ p.routeBypass < 2 ^ 32 ∧
    p.outboundMark < 2 ^ 32 ∧ p.capture < 2 ^ 32 := by
  obtain ⟨-, htb, hbm, hmc, hmax⟩ := hp
  unfold maxIproute2AutoRedirectRuleIndex at hmax
  omega

theorem ordered_of_rulePriorities {capture : Nat} (h : rulePriorities capture = .ok p) : p.Ordered := by
  unfold rulePriorities at h
  split_ifs at h with hmax hsmall
  cases h
  exact ⟨by dsimp only; omega, by dsimp only; omega, by dsimp only; omega, by dsimp only; omega, by
    dsimp only; omega⟩

theorem buildRules_parts (h : buildRules plan ipv6 tables = .ok rules) :
    ∃ p bypass marks tun, rulePriorities plan.iproute2RuleIndex = .ok p ∧
      bypassRules plan ipv6 tables p = .ok bypass ∧ markRules plan ipv6 tables p = .ok marks ∧
      tunRules plan ipv6 p = .ok tun ∧ rules = bypass ++ marks ++ tun ++ captureRules plan ipv6 p := by
  obtain ⟨p, hp, h⟩ := bind_eq_ok.1 h
  obtain ⟨bypass, hbypass, h⟩ := bind_eq_ok.1 h
  obtain ⟨marks, hmarks, h⟩ := bind_eq_ok.1 h
  obtain ⟨tun, htun, h⟩ := bind_eq_ok.1 h
  cases h
  exact ⟨p, bypass, marks, tun, hp, hbypass, hmarks, htun, rfl⟩

/-- A packet goes to the TUN table: a rule matches it, and the first one looks up that table. -/
def GoesToTun (plan : CapturePlan) (rules : List OwnedIpRule) (packet : Packet) : Prop :=
  ∃ table, verdict rules packet = some table ∧ tableMatchesIndex table plan.iproute2TableIndex = true

theorem tableMatchesIndex_decimal {index : Nat} (h : index < 2 ^ 32) :
    tableMatchesIndex (decimal index) index = true := by
  have hdigits : ∀ name : Str, (∃ c ∈ name, c.isDigit = false) → decimal index ≠ name := by
    rintro name ⟨c, hc, hdigit⟩ rfl
    rw [decimal_isDigit hc] at hdigit
    cases hdigit
  unfold tableMatchesIndex
  rw [if_neg (hdigits _ ⟨'d', by decide, by decide⟩), if_neg (hdigits _ ⟨'m', by decide, by decide⟩),
    if_neg (hdigits _ ⟨'l', by decide, by decide⟩), parseUnsigned_decimal h, beq_self_eq_true]

/-- Where four levels of rules are searched in the order of their priorities. -/
theorem goesToTun_iff {bypass marks tun capture : List OwnedIpRule} {tunTable : Str} {b m t c : Prop}
    (hp : p.Ordered) (hb : Level bypass packet p.routeBypass table b)
    (hm : Level marks packet p.outboundMark table m) (ht : Level tun packet p.tunSubnet tunTable t)
    (hc : Level capture packet p.capture tunTable c)
    (htable : tableMatchesIndex table plan.iproute2TableIndex = false)
    (htun : tableMatchesIndex tunTable plan.iproute2TableIndex = true) :
    GoesToTun plan (bypass ++ marks ++ tun ++ capture) packet ↔ t ∨ ¬m ∧ ¬b ∧ c := by
  obtain ⟨-, htb, hbm, hmc, -⟩ := hp
  have hmem : ∀ rule, rule ∈ kernelRules (bypass ++ marks ++ tun ++ capture) packet.family ↔
      rule ∈ kernelRules bypass packet.family ∨ rule ∈ kernelRules marks packet.family ∨
        rule ∈ kernelRules tun packet.family ∨ rule ∈ kernelRules capture packet.family := by
    intro rule
    simp only [kernelRules_append, List.mem_append, or_assoc]
  -- Where the condition of a level holds, one of its rules matches.
  have hfound : ∀ {level : List OwnedIpRule} {priority : Nat} {lookup : Str} {d : Prop},
      Level level packet priority lookup d → (∀ rule ∈ kernelRules level packet.family,
        rule ∈ kernelRules (bypass ++ marks ++ tun ++ capture) packet.family) → d →
      ∃ rule ∈ kernelRules (bypass ++ marks ++ tun ++ capture) packet.family,
        rule.admits packet = true ∧ rule.priority = priority := by
    intro level priority lookup d hlevel hsub hd
    obtain ⟨rule, hrule, hadmits⟩ := hlevel.hits.2 hd
    exact ⟨rule, hsub rule hrule, hadmits, (hlevel.uniform rule hrule).1⟩
  have hfoundB := hfound hb fun rule h => (hmem rule).2 (.inl h)
  have hfoundM := hfound hm fun rule h => (hmem rule).2 (.inr (.inl h))
  have hfoundT := hfound ht fun rule h => (hmem rule).2 (.inr (.inr (.inl h)))
  have hfoundC := hfound hc fun rule h => (hmem rule).2 (.inr (.inr (.inr h)))
  unfold GoesToTun verdict
  cases hfirst : firstMatch IpRule.priority (IpRule.admits packet)
      (kernelRules (bypass ++ marks ++ tun ++ capture) packet.family) with
  | none =>
    have hnone := firstMatch_eq_none_iff.1 hfirst
    have hmiss : ∀ {d : Prop} {priority : Nat}, (d → ∃ rule ∈ kernelRules (bypass ++ marks ++ tun ++ capture)
        packet.family, rule.admits packet = true ∧ rule.priority = priority) → ¬d := by
      intro d priority hd h
      obtain ⟨rule, hrule, hadmits, -⟩ := hd h
      rw [hnone rule hrule] at hadmits
      cases hadmits
    have ht := hmiss hfoundT
    have hc := hmiss hfoundC
    simp [ht, hc]
  | some rule =>
    have hhits := hits_of_firstMatch hfirst
    -- No level with a smaller priority has its condition.
    have hmiss : ∀ {d : Prop} {priority : Nat}, (d → ∃ other ∈ kernelRules (bypass ++ marks ++ tun ++ capture)
        packet.family, other.admits packet = true ∧ other.priority = priority) →
        priority < rule.priority → ¬d := by
      intro d priority hd hlt h
      obtain ⟨other, hother, hadmits, hpriority⟩ := hd h
      have hle := le_of_firstMatch hfirst hother hadmits
      omega
    have htables : (∃ lookup, some rule.table = some lookup ∧
        tableMatchesIndex lookup plan.iproute2TableIndex = true) ↔
        tableMatchesIndex rule.table plan.iproute2TableIndex = true := by simp
    rw [Option.map_some, htables]
    rcases (hmem rule).1 (mem_of_firstMatch hfirst) with hrule | hrule | hrule | hrule
    · obtain ⟨hpriority, hlookup⟩ := hb.uniform rule hrule
      have ht := hmiss hfoundT (by omega)
      have hb := hb.hits.1 ⟨rule, hrule, hhits⟩
      simp [hlookup, htable, ht, hb]
    · obtain ⟨hpriority, hlookup⟩ := hm.uniform rule hrule
      have ht := hmiss hfoundT (by omega)
      have hm := hm.hits.1 ⟨rule, hrule, hhits⟩
      simp [hlookup, htable, ht, hm]
    · obtain ⟨-, hlookup⟩ := ht.uniform rule hrule
      have ht := ht.hits.1 ⟨rule, hrule, hhits⟩
      simp [hlookup, htun, ht]
    · obtain ⟨hpriority, hlookup⟩ := hc.uniform rule hrule
      have hb := hmiss hfoundB (by omega)
      have hm := hmiss hfoundM (by omega)
      have hc := hc.hits.1 ⟨rule, hrule, hhits⟩
      simp [hlookup, htun, hb, hm, hc]

theorem verdict_tun_iff (h : buildRules plan ipv6 tables = .ok rules) (henabled : Enabled ipv6 packet)
    (htables : ∀ family ∈ enabledFamilies ipv6, ∀ table, tables.forFamily family = .ok table →
      tableMatchesIndex table plan.iproute2TableIndex = false)
    (hindex : plan.iproute2TableIndex < 2 ^ 32) :
    GoesToTun plan rules packet ↔ ToCapture plan packet := by
  obtain ⟨p, bypass, marks, tun, hp, hbypass, hmarks, htun, rfl⟩ := buildRules_parts h
  have hordered := ordered_of_rulePriorities hp
  have hsmall := hordered.small
  obtain ⟨table, htable⟩ : ∃ table, tables.forFamily packet.family = .ok table := by
    obtain ⟨r, -, hrule⟩ := exists_right_of_forall₂ (mapM_eq_ok.1 hmarks) henabled
    obtain ⟨lookup, hlookup, -⟩ := bind_eq_ok.1 hrule
    exact ⟨lookup, hlookup⟩
  rw [goesToTun_iff hordered (level_bypass hbypass hsmall.2.1 henabled htable)
    (level_mark hmarks hsmall.2.2.1 henabled htable) (level_tun htun hsmall.1 henabled)
    (level_capture hsmall.2.2.2 henabled) (htables _ henabled _ htable) (tableMatchesIndex_decimal hindex)]
  rfl

/-- Every rule is of an enabled family, and has one of the four priorities. -/
theorem rule_of_buildRules (h : buildRules plan ipv6 tables = .ok rules)
    (hp : rulePriorities plan.iproute2RuleIndex = .ok p) : ∀ r ∈ rules, r.family ∈ enabledFamilies ipv6 ∧
      ∃ rule, readRule r.selector = some rule ∧
        rule.priority ∈ [p.tunSubnet, p.routeBypass, p.outboundMark, p.capture] := by
  obtain ⟨p', bypass, marks, tun, hp', hbypass, hmarks, htun, rfl⟩ := buildRules_parts h
  rw [hp] at hp'
  cases hp'
  have hsmall := (ordered_of_rulePriorities hp).small
  have hv4 : IpFamily.v4 ∈ enabledFamilies ipv6 := by cases ipv6 <;> decide
  have hfilter : ∀ net : IpNet, (ipv6 || familyForNet net == .v4) = true →
      familyForNet net ∈ enabledFamilies ipv6 := by
    intro net hnet
    cases ipv6 with
    | true => cases net <;> simp [familyForNet, enabledFamilies]
    | false => simpa [enabledFamilies] using hnet
  intro r hr
  simp only [List.mem_append, or_assoc] at hr
  rcases hr with hr | hr | hr | hr
  · obtain ⟨net, hnet, hrule⟩ := exists_left_of_forall₂ (mapM_eq_ok.1 hbypass) hr
    obtain ⟨lookup, -, hrule⟩ := bind_eq_ok.1 hrule
    cases hrule
    exact ⟨hfilter net (List.mem_filter.1 hnet).2, _, readRule_destinationRule hsmall.2.1, by simp⟩
  · obtain ⟨family, hfamily, hrule⟩ := exists_left_of_forall₂ (mapM_eq_ok.1 hmarks) hr
    obtain ⟨lookup, -, hrule⟩ := bind_eq_ok.1 hrule
    cases hrule
    exact ⟨hfamily, _, readRule_markRule hsmall.2.2.1, by simp⟩
  · unfold tunRules at htun
    cases ipv6 with
    | true =>
      rw [if_pos rfl] at htun
      split at htun
      · cases htun
        rcases List.mem_append.1 hr with hr | hr
        all_goals
          obtain ⟨protocol, -, rfl⟩ := List.mem_map.1 hr
          exact ⟨by simp [destinationRule, enabledFamilies], _, readRule_destinationRule hsmall.1, by simp⟩
      · cases htun
    | false =>
      cases htun
      obtain ⟨protocol, -, rfl⟩ := List.mem_map.1 hr
      exact ⟨hv4, _, readRule_destinationRule hsmall.1, by simp⟩
  · unfold captureRules at hr
    dsimp only at hr
    split_ifs at hr
    · obtain ⟨⟨family, protocol⟩, he, rfl⟩ := List.mem_map.1 hr
      exact ⟨(List.pair_mem_product.1 he).1, _, readRule_destinationRule hsmall.2.2.2, by simp⟩
    · obtain ⟨⟨net, protocol⟩, he, rfl⟩ := List.mem_map.1 hr
      exact ⟨hfilter net (List.mem_filter.1 (List.pair_mem_product.1 he).1).2, _,
        readRule_destinationRule hsmall.2.2.2, by simp⟩

theorem verdict_of_disabled (h : buildRules plan ipv6 tables = .ok rules) (hdisabled : ¬Enabled ipv6 packet) :
    verdict rules packet = none := by
  obtain ⟨p, -, -, -, hp, -⟩ := buildRules_parts h
  have hnone : firstMatch IpRule.priority (IpRule.admits packet) (kernelRules rules packet.family) =
      none := by
    rw [firstMatch_eq_none_iff]
    intro rule hrule
    obtain ⟨r, hr, hfamily, -⟩ := mem_kernelRules.1 hrule
    have henabled := (rule_of_buildRules h hp r hr).1
    rw [hfamily] at henabled
    exact absurd henabled hdisabled
  rw [verdict, hnone]
  rfl

/-- **A packet of an enabled family goes to the TUN table exactly if it is to be captured; a packet of
another family meets no rule.  The rules have four priorities, distinct and in the order of what they are
for.** -/
theorem rules_classify (plan : CapturePlan) (ipv6 : Bool) (tables : BypassLookupTables)
    (rules : List OwnedIpRule) (h : buildRules plan ipv6 tables = .ok rules)
    (htables : ∀ family ∈ enabledFamilies ipv6, ∀ table, tables.forFamily family = .ok table →
      tableMatchesIndex table plan.iproute2TableIndex = false)
    (hindex : plan.iproute2TableIndex < 2 ^ 32) :
    (∀ packet, Enabled ipv6 packet → (GoesToTun plan rules packet ↔ ToCapture plan packet)) ∧
      (∀ packet, ¬Enabled ipv6 packet → verdict rules packet = none) ∧
      ∃ p, rulePriorities plan.iproute2RuleIndex = .ok p ∧ p.Ordered ∧
        ∀ r ∈ rules, ∃ rule, readRule r.selector = some rule ∧
          rule.priority ∈ [p.tunSubnet, p.routeBypass, p.outboundMark, p.capture] := by
  obtain ⟨p, -, -, -, hp, -⟩ := buildRules_parts h
  refine ⟨fun packet henabled => verdict_tun_iff h henabled htables hindex,
    fun packet hdisabled => verdict_of_disabled h hdisabled, p, hp, ordered_of_rulePriorities hp, ?_⟩
  intro r hr
  exact (rule_of_buildRules h hp r hr).2

theorem exists_mapM_eq_ok {α β ε : Type} {f : α → Except ε β} {as : List α}
    (h : ∀ a ∈ as, ∃ b, f a = .ok b) : ∃ bs, as.mapM f = .ok bs := by
  obtain ⟨bs, hall⟩ := exists_forall₂ h
  exact ⟨bs, mapM_eq_ok.2 hall⟩

/-- The rules are made if there are a table and a TUN subnet for each family. -/
theorem exists_buildRules (hp : rulePriorities plan.iproute2RuleIndex = .ok p)
    (htables : ∀ family ∈ enabledFamilies ipv6, ∃ table, tables.forFamily family = .ok table)
    (htun : ipv6 = true → plan.tunV6Cidr.isSome) : ∃ rules, buildRules plan ipv6 tables = .ok rules := by
  obtain ⟨bypass, hbypass⟩ : ∃ bypass, bypassRules plan ipv6 tables p = .ok bypass := by
    refine exists_mapM_eq_ok fun net hnet => ?_
    have hfamily : familyForNet net ∈ enabledFamilies ipv6 := by
      have hnet := (List.mem_filter.1 hnet).2
      cases ipv6 with
      | true => cases net <;> simp [familyForNet, enabledFamilies]
      | false => simpa [enabledFamilies] using hnet
    obtain ⟨table, htable⟩ := htables _ hfamily
    exact ⟨_, by rw [htable]; rfl⟩
  obtain ⟨marks, hmarks⟩ : ∃ marks, markRules plan ipv6 tables p = .ok marks := by
    refine exists_mapM_eq_ok fun family hfamily => ?_
    obtain ⟨table, htable⟩ := htables family hfamily
    exact ⟨_, by rw [htable]; rfl⟩
  obtain ⟨tun, htun⟩ : ∃ tun, tunRules plan ipv6 p = .ok tun := by
    unfold tunRules
    cases ipv6 with
    | true =>
      obtain ⟨net, hnet⟩ := Option.isSome_iff_exists.1 (htun rfl)
      rw [if_pos rfl, hnet]
      exact ⟨_, rfl⟩
    | false => exact ⟨_, rfl⟩
  refine ⟨bypass ++ marks ++ tun ++ captureRules plan ipv6 p, ?_⟩
  simp only [buildRules, hp, hbypass, hmarks, htun, bind, Except.bind]
  rfl

/-- A plan with subnets of both families and one target that is let pass by. -/
def smallPlan : CapturePlan where
  on := true
  autoRoute := true
  autoRedirect := true
  traffic := .system
  strictRoute := false
  routeAddressSet := []
  routeExcludeAddressSet := []
  interfaceName := "wuther0"
  iproute2TableIndex := 2022
  iproute2RuleIndex := 9000
  ipv6Enabled := true
  tunV4Cidr := ⟨0xc6120001, 30, by decide⟩
  tunV6Cidr := some ⟨0xfdfe <<< 112, 126, by decide⟩
  outputMark := none
  excludeCidrs := [.v4 ⟨0xc6000000, 8, eight_le_32⟩]
  routeAddresses := []
  routeExcludeAddresses := []
  loopbackAddresses := []

/-- The TUN subnet is captured although a target that is let pass by contains it. -/
theorem rules_classify_small : ∃ rules,
    buildRules smallPlan true ⟨"main", some ("main" : Str)⟩ = .ok rules ∧
      GoesToTun smallPlan rules ⟨.v4 0xc6120002, .udp, 0x2024⟩ := by
  obtain ⟨rules, hrules⟩ : ∃ rules, buildRules smallPlan true ⟨"main", some ("main" : Str)⟩ = .ok rules := by
    refine exists_buildRules (p := ⟨8997, 8998, 8999, 9000⟩) rfl ?_ fun _ => rfl
    rintro (_ | _) -
    · exact ⟨_, rfl⟩
    · exact ⟨_, rfl⟩
  have htables : ∀ family ∈ enabledFamilies true, ∀ table,
      BypassLookupTables.forFamily ⟨"main", some ("main" : Str)⟩ family = .ok table →
        tableMatchesIndex table smallPlan.iproute2TableIndex = false := by
    rintro family - table htable
    cases family <;> cases htable <;> decide
  have hclassify := (rules_classify smallPlan true _ rules hrules htables (by decide)).1
  have hsubnet : InTunSubnet smallPlan (.v4 0xc6120002) :=
    show smallPlan.tunV4Cidr.contains 0xc6120002 = true by decide
  exact ⟨rules, hrules, (hclassify ⟨.v4 0xc6120002, .udp, 0x2024⟩ (by simp [Enabled, Packet.family,
    enabledFamilies])).2 (.inl hsubnet)⟩

/-- With IPv6 left out, an IPv6 packet is not captured, whatever its destination. -/
theorem rules_classify_fails : ¬ ∀ (plan : CapturePlan) (ipv6 : Bool) (tables : BypassLookupTables)
    (rules : List OwnedIpRule) (packet : Packet), buildRules plan ipv6 tables = .ok rules →
      (∀ family ∈ enabledFamilies ipv6, ∀ table, tables.forFamily family = .ok table →
        tableMatchesIndex table plan.iproute2TableIndex = false) →
      (GoesToTun plan rules packet ↔ ToCapture plan packet) := by
  intro h
  set packet : Packet := ⟨.v6 0x20010db8000000000000000000000001, .tcp, 0⟩ with hpacket
  obtain ⟨rules, hrules⟩ : ∃ rules, buildRules smallPlan false ⟨"main", none⟩ = .ok rules := by
    refine exists_buildRules (p := ⟨8997, 8998, 8999, 9000⟩) rfl ?_ nofun
    intro family hfamily
    rw [enabledFamilies, if_neg (by decide), List.mem_singleton] at hfamily
    rw [hfamily]
    exact ⟨_, rfl⟩
  have hcapture : ToCapture smallPlan packet := by
    refine .inr ⟨by simp [hpacket, outputMark, smallPlan, defaultAutoRedirectOutputMark], ?_, .inl rfl⟩
    simp [Bypassed, smallPlan, hpacket, IpNet.contains]
  have hdisabled : ¬Enabled false packet := by
    simp [Enabled, Packet.family, enabledFamilies, hpacket]
  have htables : ∀ family ∈ enabledFamilies false, ∀ table,
      BypassLookupTables.forFamily ⟨"main", none⟩ family = .ok table →
        tableMatchesIndex table smallPlan.iproute2TableIndex = false := by
    rintro family - table htable
    cases family <;> cases htable
    decide
  obtain ⟨table, htable, -⟩ := (h smallPlan false _ rules packet hrules htables).2 hcapture
  rw [verdict_of_disabled hrules hdisabled] at htable
  cases htable

end WutherCore.Capture.Redirect
