import WutherCore.Resolver.PolicyRules
import WutherCore.Text.Trim

/-!
# Rules in both syntaxes

A rule that can be written as a mapping and as a line: a condition, an action and options, each under one of the names
that a syntax has for it.

* `WrittenRule`, `Spelling`: a rule, and the names under which it is written; `mapping` and `line` write it.
* `parseRuleMapping_mapping`, `parseRuleLine_line`: what the two parsers read.
-/

namespace WutherCore.Resolver

open WutherCore.Text WutherCore.Net WutherCore.Ruleset WutherCore.Data

/-! ### Texts -/

section Texts

variable {s t : Str}

theorem trim_append {w w' : Str} (hw : ∀ c ∈ w, isWhitespace c = true) (hw' : ∀ c ∈ w', isWhitespace c = true)
    (ht : Trimmed t) : trim (w ++ (t ++ w')) = t := by
  rw [trim, List.dropWhile_append_of_pos hw]
  cases t with
  | nil =>
    rw [List.nil_append, List.dropWhile_eq_nil_iff.2 hw']
    rfl
  | cons c t =>
    have hc : ¬isWhitespace c = true := by
      rw [ht.head c rfl]
      exact Bool.false_ne_true
    rw [List.cons_append, List.dropWhile_cons_of_neg hc, ← List.cons_append, List.rdropWhile, List.reverse_append,
      List.dropWhile_append_of_pos (by simpa using hw')]
    have hself : (c :: t).rdropWhile isWhitespace = c :: t := by
      rw [List.rdropWhile_eq_self_iff]
      intro hne
      rw [ht.last _ (List.getLast?_eq_some_getLast hne)]
      exact Bool.false_ne_true
    exact hself

theorem trim_padded {w w' : Str} (hw : ∀ c ∈ w, isWhitespace c = true) (hw' : ∀ c ∈ w', isWhitespace c = true)
    (s : Str) : trim (w ++ (s ++ w')) = trim s := by
  obtain ⟨v, v', hs, hv, hv'⟩ := trim_decompose s
  have hall (c : Char) (hc : c ∈ w ++ v) : isWhitespace c = true := (List.mem_append.1 hc).elim (hw c) (hv c)
  have hall' (c : Char) (hc : c ∈ v' ++ w') : isWhitespace c = true := (List.mem_append.1 hc).elim (hv' c) (hw' c)
  have hpieces : w ++ (s ++ w') = w ++ v ++ (trim s ++ (v' ++ w')) := by
    conv_lhs => rw [hs]
    simp only [List.append_assoc]
  rw [hpieces, trim_append hall hall' (trimmed_trim s)]

theorem trim_dropWhile (s : Str) : trim (s.dropWhile isWhitespace) = trim s := by
  have hhead (c : Char) (hc : c ∈ s.takeWhile isWhitespace) : isWhitespace c = true := List.mem_takeWhile_imp hc
  have h := trim_padded hhead (List.forall_mem_nil _) (s.dropWhile isWhitespace)
  rw [List.append_nil, List.takeWhile_append_dropWhile] at h
  exact h.symm

theorem trim_rdropWhile (s : Str) : trim (s.rdropWhile isWhitespace) = trim s := by
  have hlast (c : Char) (hc : c ∈ s.rtakeWhile isWhitespace) : isWhitespace c = true := List.mem_rtakeWhile_imp hc
  have h := trim_padded (List.forall_mem_nil _) hlast (s.rdropWhile isWhitespace)
  have hpieces : s.rdropWhile isWhitespace ++ s.rtakeWhile isWhitespace = s := by
    rw [List.rdropWhile, List.rtakeWhile, ← List.reverse_append, List.takeWhile_append_dropWhile, List.reverse_reverse]
  rw [List.nil_append, hpieces] at h
  exact h.symm

theorem splitOnce_of_notMem {c : Char} (h : c ∉ s) : splitOnce c s = none := by
  induction s with
  | nil => rfl
  | cons a s ih =>
    rw [List.mem_cons, not_or] at h
    have ha : ¬(a == c) = true := fun heq => h.1 (beq_iff_eq.1 heq).symm
    rw [splitOnce, if_neg ha, ih h.2, Option.map_none]

/-! An arrow splits a text where the part before has none. -/

theorem splitArrow_cons_eq_none {c : Char} (h : splitArrow (c :: s) = none) :
    ¬(c = '-' ∧ s.head? = some '>') ∧ splitArrow s = none := by
  rw [splitArrow] at h
  split_ifs at h with harrow
  exact ⟨harrow, Option.map_eq_none_iff.1 h⟩

theorem splitArrow_suffix (h : splitArrow s = none) (ht : t <:+ s) : splitArrow t = none := by
  obtain ⟨w, rfl⟩ := ht
  induction w with
  | nil => exact h
  | cons c w ih => exact ih (splitArrow_cons_eq_none h).2

theorem splitArrow_append (h : splitArrow s = none) (t : Str) :
    splitArrow (s ++ '-' :: '>' :: t) = some (s, t) := by
  induction s with
  | nil => rfl
  | cons c s ih =>
    obtain ⟨hhead, hrest⟩ := splitArrow_cons_eq_none h
    have hhead' : ¬(c = '-' ∧ (s ++ '-' :: '>' :: t).head? = some '>') := by
      rintro ⟨hc, hnext⟩
      cases s with
      | nil => cases hnext
      | cons d s => exact hhead ⟨hc, hnext⟩
    rw [List.cons_append, splitArrow, if_neg hhead', ih hrest, Option.map_some]

theorem splitArrow_space (h : splitArrow s = none) : splitArrow (s ++ [' ']) = none := by
  induction s with
  | nil => decide
  | cons c s ih =>
    obtain ⟨hhead, hrest⟩ := splitArrow_cons_eq_none h
    have hhead' : ¬(c = '-' ∧ (s ++ [' ']).head? = some '>') := by
      rintro ⟨hc, hnext⟩
      cases s with
      | nil => cases hnext
      | cons d s => exact hhead ⟨hc, hnext⟩
    rw [List.cons_append, splitArrow, if_neg hhead', ih hrest, Option.map_none]

end Texts

/-! ### Lines -/

section Lines

variable {cr : Crates}

theorem trim_arrow (lhs rhs : Str) :
    trim (lhs ++ '-' :: '>' :: rhs) =
      lhs.dropWhile isWhitespace ++ '-' :: '>' :: rhs.rdropWhile isWhitespace := by
  have hstart : (lhs ++ '-' :: '>' :: rhs).dropWhile isWhitespace =
      lhs.dropWhile isWhitespace ++ '-' :: '>' :: rhs := by
    rw [List.dropWhile_append]
    split_ifs with hempty
    · rw [List.isEmpty_iff.1 hempty]
      rfl
    · rfl
  have hend (front : Str) : (front ++ '-' :: '>' :: rhs).rdropWhile isWhitespace =
      front ++ '-' :: '>' :: rhs.rdropWhile isWhitespace := by
    have hreverse : (front ++ '-' :: '>' :: rhs).reverse = rhs.reverse ++ '>' :: '-' :: front.reverse := by simp
    rw [List.rdropWhile, hreverse, List.dropWhile_append]
    split_ifs with hempty
    · have hnil : rhs.rdropWhile isWhitespace = [] := by
        rw [List.rdropWhile, List.isEmpty_iff.1 hempty, List.reverse_nil]
      rw [hnil]
      simp [isWhitespace]
    · rw [List.rdropWhile]
      simp
  rw [trim, hstart, hend]

/-- **A line is read as its two sides around the first arrow.** -/
theorem parseRuleLine_eq {lhs rhs : Str} (harrow : splitArrow lhs = none) (hcomment : (trim lhs).head? ≠ some '#') :
    parseRuleLine cr (lhs ++ '-' :: '>' :: rhs) =
      (do
        let matcher ← parseLhs cr (trim lhs)
        let action ← parseRhs cr (trim rhs)
        some ⟨matcher, action⟩) := by
  have hne : lhs.dropWhile isWhitespace ++ '-' :: '>' :: rhs.rdropWhile isWhitespace ≠ [] := by simp
  have hhead : (lhs.dropWhile isWhitespace ++ '-' :: '>' :: rhs.rdropWhile isWhitespace).head? ≠ some '#' := by
    cases hfront : lhs.dropWhile isWhitespace with
    | nil =>
      intro heq
      cases heq
    | cons c front =>
      -- what begins the line begins its left-hand side
      intro heq
      apply hcomment
      have hc : isWhitespace c = false := by
        have := List.head?_dropWhile_not isWhitespace lhs
        rwa [hfront] at this
      rw [← trim_dropWhile, hfront, trim, List.dropWhile_cons_of_neg (by rw [hc]; exact Bool.false_ne_true)]
      obtain ⟨rest, hrest⟩ := List.rdropWhile_prefix isWhitespace (c :: front)
      cases hkept : (c :: front).rdropWhile isWhitespace with
      | nil =>
        rw [List.rdropWhile_eq_nil_iff] at hkept
        rw [hkept c List.mem_cons_self] at hc
        cases hc
      | cons d kept =>
        rw [hkept] at hrest
        cases hrest
        exact heq
  have hsplit := splitArrow_append (splitArrow_suffix harrow (List.dropWhile_suffix isWhitespace))
    (rhs.rdropWhile isWhitespace)
  unfold parseRuleLine
  dsimp only
  rw [trim_arrow, hsplit, Option.bind_eq_bind, Option.bind_some]
  dsimp only
  rw [trim_dropWhile, trim_rdropWhile]
  simp only [hne, hhead, decide_false, Bool.or_self]
  rfl

end Lines

/-! ### Conditions -/

/-- A condition of a rule: a left-hand side as it stands, or a kind of condition and its text. -/
inductive Condition
  | written (lhs : Str)
  | domain (name : Str)
  | suffix (name : Str)
  | keyword (text : Str)
  | set (name : Str)
  | response (cidr : Str)

namespace Condition

/-- The text of a condition. -/
def text : Condition → Str
  | written s | domain s | suffix s | keyword s | set s | response s => s

/-- The keys of a condition in a mapping. -/
def keys : Condition → List String
  | written _ => ["match"]
  | domain _ => ["domain"]
  | suffix _ => ["suffix", "host"]
  | keyword _ => ["keyword"]
  | set _ => ["set", "geosite", "geoip", "ruleset"]
  | response _ => ["match_response", "response"]

/-- What stands before the text of a condition in a line. -/
def prefixes : Condition → List String
  | written _ => [""]
  | domain _ => ["domain:", "="]
  | suffix _ => ["suffix:", "*."]
  | keyword _ => ["keyword:", "~"]
  | set _ => ["set:", "geosite:", "geoip:", "ruleset:"]
  | response _ => ["match_response:", "response:"]

/-- What a condition matches; a network that does not parse, nothing. -/
def matcher (cr : Crates) : Condition → Option HostMatch
  | written lhs => parseLhs cr lhs
  | domain name => some (.domain name)
  | suffix name => some (.suffix name)
  | keyword text => some (.keyword text)
  | set name => some (.set name)
  | response cidr => (cr.parseIpNet cidr).map .responseIpCidr

end Condition

/-- An entry of a mapping. -/
def field (key : String) (value : Yaml) : Yaml × Yaml := (.string key.toList, value)

/-! The entries of a mapping are found by their keys. -/

namespace Mapping

@[simp] theorem get_nil (k : String) : Mapping.get [] k = none := rfl

theorem get_field (key : String) (value : Yaml) (m : Mapping) (k : String) :
    Mapping.get (field key value :: m) k = if key = k then some value else m.get k := by
  unfold Mapping.get
  by_cases h : key = k
  · subst h
    have hpos : (field key value).1.isText key.toList = true := beq_self_eq_true key.toList
    rw [List.find?_cons, hpos, if_pos rfl]
    rfl
  · have hneg : (field key value).1.isText k.toList = false := by
      change (key.toList == k.toList) = false
      rw [beq_eq_false_iff_ne, Ne, String.toList_inj]
      exact h
    rw [List.find?_cons, hneg, if_neg h]

theorem get_append (m m' : Mapping) (k : String) : Mapping.get (m ++ m') k = (m.get k).or (m'.get k) := by
  unfold Mapping.get
  rw [List.find?_append, Option.map_or]

end Mapping

section Conditions

variable {cr : Crates}

theorem parseLhs_condition (c : Condition) {before : String} (hbefore : before ∈ c.prefixes)
    (htrimmed : Trimmed (before.toList ++ c.text)) : parseLhs cr (before.toList ++ c.text) = c.matcher cr := by
  cases c with
  | written lhs =>
    cases List.mem_singleton.1 hbefore
    rfl
  | domain name =>
    rw [parseLhs, htrimmed.trim_eq]
    simp only [Condition.prefixes, List.mem_cons, List.not_mem_nil, or_false] at hbefore
    rcases hbefore with rfl | rfl <;> rfl
  | suffix name =>
    rw [parseLhs, htrimmed.trim_eq]
    simp only [Condition.prefixes, List.mem_cons, List.not_mem_nil, or_false] at hbefore
    rcases hbefore with rfl | rfl <;> rfl
  | keyword text =>
    rw [parseLhs, htrimmed.trim_eq]
    simp only [Condition.prefixes, List.mem_cons, List.not_mem_nil, or_false] at hbefore
    rcases hbefore with rfl | rfl <;> rfl
  | set name =>
    rw [parseLhs, htrimmed.trim_eq]
    simp only [Condition.prefixes, List.mem_cons, List.not_mem_nil, or_false] at hbefore
    rcases hbefore with rfl | rfl | rfl | rfl <;> rfl
  | response cidr =>
    rw [parseLhs, htrimmed.trim_eq]
    simp only [Condition.prefixes, List.mem_cons, List.not_mem_nil, or_false] at hbefore
    rcases hbefore with rfl | rfl <;> rfl

theorem parseMatcher_condition (c : Condition) {key : String} (hkey : key ∈ c.keys) :
    parseMatcher cr [field key (.string c.text)] = c.matcher cr := by
  cases c with
  | written lhs | domain name | keyword text =>
    cases List.mem_singleton.1 hkey
    rfl
  | suffix name | response cidr =>
    simp only [Condition.keys, List.mem_cons, List.not_mem_nil, or_false] at hkey
    rcases hkey with rfl | rfl <;> rfl
  | set name =>
    simp only [Condition.keys, List.mem_cons, List.not_mem_nil, or_false] at hkey
    rcases hkey with rfl | rfl | rfl | rfl <;> rfl

end Conditions

/-! ### Actions -/

/-- An action of a rule.  The addresses are texts. -/
inductive Verb
  | drop
  | reject
  | rcode (code : PreRcode)
  | accept (ips : List Str)
  | fake
  | respond
  | evaluate (group : Str)
  | route (group : Str)
  | direct (group : Str)
  | proxy (group : Str)

namespace Verb

/-- The keys of an action in a mapping. -/
def keys : Verb → List String
  | drop => ["drop"]
  | reject => ["reject", "refuse"]
  | rcode code => (rcodeKeys.filter (·.2 = code)).map Prod.fst
  | accept _ => ["accept", "hosts", "ips"]
  | fake => ["fake"]
  | respond => ["respond"]
  | evaluate _ => ["evaluate"]
  | route _ => ["route"]
  | direct _ => ["direct"]
  | proxy _ => ["proxy"]

/-- The values of an action in a mapping: the addresses are a sequence, or a text with commas. -/
def values : Verb → List Yaml
  | accept ips => [.sequence (ips.map .string), .string (join "," ips)]
  | evaluate group | route group | direct group | proxy group => [.string group]
  | drop | reject | rcode _ | fake | respond => [.bool true]

/-- How a line writes a response with a code. -/
def rcodeHeads : PreRcode → List String
  | .noerror => ["noerror", "empty", "null", "predefined:NOERROR"]
  | .formerr => ["formerr", "predefined:FORMERR"]
  | .servfail => ["servfail", "predefined:SERVFAIL"]
  | .nxdomain => ["nxdomain", "predefined:NXDOMAIN"]
  | .notimp => ["notimp", "predefined:NOTIMP"]
  | .refused => ["predefined:REFUSED"]

/-- How a line writes an action, before its options. -/
def heads : Verb → List Str
  | drop => ["drop".toList]
  | reject => ["reject".toList, "block".toList, "refuse".toList, "refused".toList]
  | rcode code => (rcodeHeads code).map String.toList
  | accept ips => ["accept:".toList ++ join "," ips, "hosts:".toList ++ join "," ips, "ip:".toList ++ join "," ips]
  | fake => ["fake".toList]
  | respond => ["respond".toList]
  | evaluate group => ["evaluate:".toList ++ group]
  | route group => ["route:".toList ++ group]
  | direct group => ["direct:".toList ++ group]
  | proxy group => ["proxy:".toList ++ group]

/-- The action that a mapping gives. -/
def inMapping (opts : QueryOptions) : Verb → Option DnsAction
  | drop => some (.reject { method := .drop })
  | reject => some (.reject {})
  | rcode code => some (rcodeOnly code)
  | accept ips => (parseIps ips).map .accept
  | fake => some .fake
  | respond => some .respond
  | evaluate group => some (.evaluate group opts)
  | route group | direct group | proxy group => some (.route group opts)

/-- The action that a line gives: `direct` and `proxy` have no options, and addresses behind `hosts:` or `ip:` of which
none parses are the name of a group. -/
def inLine (head : Str) (opts : QueryOptions) : Verb → Option DnsAction
  | drop => some (.reject { method := .drop })
  | reject => some (.reject {})
  | rcode code => some (rcodeOnly code)
  | accept ips =>
      if head = "accept:".toList ++ join "," ips then (parseIps ips).map .accept
      else some (((parseIps ips).map .accept).getD (.proxy head))
  | fake => some .fake
  | respond => some .respond
  | evaluate group => some (.evaluate group opts)
  | route group => some (.route group opts)
  | direct group => some (.direct group)
  | proxy group => some (.proxy group)

end Verb

section Verbs

variable {ips : List Str}

theorem parseIps_join (hips : ∀ ip ∈ ips, Trimmed ip ∧ ',' ∉ ip) :
    parseIps (((join "," ips).splitOn ',').map trim) = parseIps ips := by
  cases ips with
  | nil =>
    rw [show join "," [] = [] from rfl, List.splitOn_nil]
    decide
  | cons ip ips =>
    have hsplit : (join "," (ip :: ips)).splitOn ',' = ip :: ips :=
      List.splitOn_intercalate ',' (fun ip hip => (hips ip hip).2) (List.cons_ne_nil _ _)
    have htrim : (ip :: ips).map trim = ip :: ips := by
      conv_rhs => rw [← List.map_id (ip :: ips)]
      exact List.map_congr_left fun ip hip => (hips ip hip).1.trim_eq
    rw [hsplit, htrim]

theorem filterMap_asStr (ips : List Str) : (ips.map Yaml.string).filterMap Yaml.asStr = ips := by
  rw [List.filterMap_map]
  exact List.filterMap_some

theorem acceptIn_other {key k : String} (value : Yaml) (h : key ≠ k) : acceptIn [field key value] k = none := by
  unfold acceptIn Mapping.getSeq Mapping.getStr
  rw [Mapping.get_field, if_neg h]
  rfl

theorem acceptIn_field (hips : ∀ ip ∈ ips, Trimmed ip ∧ ',' ∉ ip) {key : String} {value : Yaml}
    (hvalue : value ∈ (Verb.accept ips).values) : acceptIn [field key value] key = parseIps ips := by
  unfold acceptIn Mapping.getSeq Mapping.getStr
  rw [Mapping.get_field, if_pos rfl, Option.bind_some, Option.bind_some]
  simp only [Verb.values, List.mem_cons, List.not_mem_nil, or_false] at hvalue
  rcases hvalue with rfl | rfl
  · change ((some ((ips.map Yaml.string).filterMap Yaml.asStr)).bind parseIps).or none = parseIps ips
    rw [filterMap_asStr, Option.or_none]
    rfl
  · exact parseIps_join hips

theorem findSome?_acceptIn (hips : ∀ ip ∈ ips, Trimmed ip ∧ ',' ∉ ip) {key : String} {value : Yaml}
    (hkey : key ∈ (Verb.accept ips).keys) (hvalue : value ∈ (Verb.accept ips).values) :
    ["accept", "hosts", "ips"].findSome? (acceptIn [field key value]) = parseIps ips := by
  have hone : acceptIn [field key value] key = parseIps ips := acceptIn_field hips hvalue
  simp only [Verb.keys, List.mem_cons, List.not_mem_nil, or_false] at hkey
  rw [List.findSome?_cons, List.findSome?_cons, List.findSome?_cons, List.findSome?_nil]
  rcases hkey with rfl | rfl | rfl
  · rw [hone, acceptIn_other value (by decide), acceptIn_other value (by decide)]
    cases parseIps ips <;> rfl
  · rw [hone, acceptIn_other value (by decide), acceptIn_other value (by decide)]
    cases parseIps ips <;> rfl
  · rw [hone, acceptIn_other value (by decide), acceptIn_other value (by decide)]
    cases parseIps ips <;> rfl

theorem parseAction_verb (v : Verb) (opts : QueryOptions)
    (hips : ∀ ips, v = .accept ips → ∀ ip ∈ ips, Trimmed ip ∧ ',' ∉ ip) {key : String} {value : Yaml}
    (hkey : key ∈ v.keys) (hvalue : value ∈ v.values) : parseAction [field key value] opts = v.inMapping opts := by
  cases v with
  | accept ips =>
    have hfind := findSome?_acceptIn (hips ips rfl) hkey hvalue
    have hrest : parseAction [field key value] opts =
        (["accept", "hosts", "ips"].findSome? (acceptIn [field key value])).map .accept := by
      simp only [Verb.keys, List.mem_cons, List.not_mem_nil, or_false] at hkey
      unfold parseAction
      rcases hkey with rfl | rfl | rfl
      · cases ["accept", "hosts", "ips"].findSome? (acceptIn [field "accept" value]) <;> rfl
      · cases ["accept", "hosts", "ips"].findSome? (acceptIn [field "hosts" value]) <;> rfl
      · cases ["accept", "hosts", "ips"].findSome? (acceptIn [field "ips" value]) <;> rfl
    rw [hrest, hfind]
    rfl
  | rcode code =>
    cases List.mem_singleton.1 hvalue
    cases code <;> first | cases List.mem_singleton.1 hkey; rfl | cases hkey
  | reject =>
    cases List.mem_singleton.1 hvalue
    simp only [Verb.keys, List.mem_cons, List.not_mem_nil, or_false] at hkey
    rcases hkey with rfl | rfl <;> rfl
  | drop | fake | respond | evaluate group | route group | direct group | proxy group =>
    cases List.mem_singleton.1 hvalue
    cases List.mem_singleton.1 hkey
    rfl

theorem headAction_accept (hips : ∀ ip ∈ ips, Trimmed ip ∧ ',' ∉ ip) {rhs head : Str} (opts : QueryOptions)
    (hhead : head ∈ (Verb.accept ips).heads) (htrimmed : Trimmed head) :
    headAction rhs head opts = (Verb.accept ips).inLine head opts := by
  have hline : (Verb.accept ips).inLine head opts =
      if head = "accept:".toList ++ join "," ips then
        (parseIps (((join "," ips).splitOn ',').map trim)).map .accept
      else some (((parseIps (((join "," ips).splitOn ',').map trim)).map .accept).getD (.proxy head)) := by
    rw [parseIps_join hips]
    rfl
  rw [hline]
  unfold headAction
  rw [htrimmed.trim_eq]
  simp only [Verb.heads, List.mem_cons, List.not_mem_nil, or_false] at hhead
  rcases hhead with rfl | rfl | rfl
  · rw [if_pos rfl]
    rfl
  · have hne : ¬"hosts:".toList ++ join "," ips = "accept:".toList ++ join "," ips := by
      intro heq
      cases heq
    rw [if_neg hne]
    change (((parseIps (((join "," ips).splitOn ',').map trim)).map DnsAction.accept).or
      (some (.proxy ("hosts:".toList ++ join "," ips)))) = _
    cases parseIps (((join "," ips).splitOn ',').map trim) <;> rfl
  · have hne : ¬"ip:".toList ++ join "," ips = "accept:".toList ++ join "," ips := by
      intro heq
      cases heq
    rw [if_neg hne]
    change (((parseIps (((join "," ips).splitOn ',').map trim)).map DnsAction.accept).or
      (some (.proxy ("ip:".toList ++ join "," ips)))) = _
    cases parseIps (((join "," ips).splitOn ',').map trim) <;> rfl

theorem headAction_rcode {code : PreRcode} {rhs head : Str} (opts : QueryOptions)
    (hhead : head ∈ (Verb.rcode code).heads) : headAction rhs head opts = some (rcodeOnly code) := by
  cases code <;> simp only [Verb.heads, Verb.rcodeHeads, List.map_cons, List.map_nil, List.mem_cons, List.not_mem_nil,
    or_false] at hhead
  case noerror => rcases hhead with rfl | rfl | rfl | rfl <;> rfl
  case refused =>
    rw [hhead]
    rfl
  all_goals rcases hhead with rfl | rfl <;> rfl

theorem headAction_verb (v : Verb) (hips : ∀ ips, v = .accept ips → ∀ ip ∈ ips, Trimmed ip ∧ ',' ∉ ip) {rhs head : Str}
    (opts : QueryOptions) (hhead : head ∈ v.heads) (htrimmed : Trimmed head)
    (hreject : v = .reject → parseReject rhs = {}) : headAction rhs head opts = v.inLine head opts := by
  cases v with
  | accept ips => exact headAction_accept (hips ips rfl) opts hhead htrimmed
  | rcode code => exact headAction_rcode opts hhead
  | reject =>
    simp only [Verb.heads, List.mem_cons, List.not_mem_nil, or_false] at hhead
    rcases hhead with rfl | rfl | rfl | rfl
    · change some (DnsAction.reject (parseReject rhs)) = _
      rw [hreject rfl]
      rfl
    · change some (DnsAction.reject (parseReject rhs)) = _
      rw [hreject rfl]
      rfl
    · rfl
    · rfl
  | drop | fake | respond =>
    cases List.mem_singleton.1 hhead
    rfl
  | evaluate group | route group | direct group | proxy group =>
    cases List.mem_singleton.1 hhead
    unfold headAction
    rw [htrimmed.trim_eq]
    rfl

end Verbs

/-! ### Options -/

/-- The options of a rule.  A subnet and a strategy are texts. -/
structure Options where
  noCache : Bool := false
  noOptimisticCache : Bool := false
  ttl : Option UInt64 := none
  subnet : Option Str := none
  strategy : Option Str := none

/-- The names of the options: keys in a mapping, and what a line writes. -/
structure OptionNames where
  noCacheKey : String := "no_cache"
  noCacheFlag : String := "nocache"
  noOptimisticKey : String := "no_optimistic_cache"
  noOptimisticFlag : String := "nooptcache"
  subnetKey : String := "ecs"
  subnetFlag : String := "ecs="

namespace OptionNames

def noCacheKeys : List String := ["no_cache", "disable_cache", "nocache"]

def noCacheFlags : List String := ["nocache", "no-cache", "disable_cache"]

def noOptimisticKeys : List String := ["no_optimistic_cache", "disable_optimistic_cache", "nooptcache"]

def noOptimisticFlags : List String := ["nooptcache", "no-optimistic", "disable_optimistic_cache"]

def subnetKeys : List String := ["client_subnet", "ecs"]

def subnetFlags : List String := ["ecs=", "client_subnet="]

/-- The names are among those of their options. -/
structure Known (n : OptionNames) : Prop where
  noCacheKey : n.noCacheKey ∈ noCacheKeys
  noCacheFlag : n.noCacheFlag ∈ noCacheFlags
  noOptimisticKey : n.noOptimisticKey ∈ noOptimisticKeys
  noOptimisticFlag : n.noOptimisticFlag ∈ noOptimisticFlags
  subnetKey : n.subnetKey ∈ subnetKeys
  subnetFlag : n.subnetFlag ∈ subnetFlags

end OptionNames

/-- An entry of a mapping that may be absent. -/
def optionalField (key : String) (value : Option Yaml) : Mapping := (value.map (field key)).toList

namespace Options

variable (o : Options) (n : OptionNames)

/-- A flag in a mapping. -/
def flag (on : Bool) : Option Yaml := if on then some (.bool true) else none

/-- The entries of a mapping for options. -/
def fields : Mapping :=
  optionalField n.noCacheKey (flag o.noCache) ++ optionalField n.noOptimisticKey (flag o.noOptimisticCache) ++
    optionalField "ttl" (o.ttl.map .posInt) ++ optionalField n.subnetKey (o.subnet.map .string) ++
    optionalField "strategy" (o.strategy.map .string)

/-- The options of a line. -/
def texts : List Str :=
  (if o.noCache then [n.noCacheFlag.toList] else []) ++
    (if o.noOptimisticCache then [n.noOptimisticFlag.toList] else []) ++
    (o.ttl.map fun ttl => "ttl=".toList ++ decimal ttl.toNat).toList ++
    (o.subnet.map fun s => n.subnetFlag.toList ++ s).toList ++
    (o.strategy.map fun s => "strategy=".toList ++ s).toList

/-- A TTL that a line can give. -/
def lineTtl (ttl : UInt64) : Option UInt32 := if ttl.toNat < UInt32.size then some ttl.toUInt32 else none

/-- The options that a mapping gives, with a strategy. -/
def inMappingWith (cr : Crates) (strategy : Option GroupStrategy) : QueryOptions where
  disableCache := o.noCache
  disableOptimisticCache := o.noOptimisticCache
  rewriteTtl := o.ttl.map UInt64.toUInt32
  clientSubnet := o.subnet.bind (parseSubnet cr)
  strategy

/-- The options that a mapping gives: a strategy that is not known fails. -/
def inMapping (cr : Crates) : Option QueryOptions :=
  match o.strategy with
  | some value => (GroupStrategy.parse value).map fun strategy => o.inMappingWith cr (some strategy)
  | none => some (o.inMappingWith cr none)

/-- The options that a line gives: what is not known is left out. -/
def inLine (cr : Crates) : QueryOptions where
  disableCache := o.noCache
  disableOptimisticCache := o.noOptimisticCache
  rewriteTtl := o.ttl.bind lineTtl
  clientSubnet := o.subnet.bind (parseSubnet cr)
  strategy := o.strategy.bind GroupStrategy.parse

end Options

section OptionSyntax

variable {cr : Crates} {o : Options} {n : OptionNames}

theorem get_optionalField (key : String) (value : Option Yaml) (k : String) :
    (optionalField key value).get k = if key = k then value else none := by
  unfold optionalField
  cases value with
  | none => simp
  | some value =>
    rw [Option.map_some, Option.toList_some, Mapping.get_field]
    rfl

theorem asBool_flag (on : Bool) : ((Options.flag on).bind Yaml.asBool).getD false = on := by cases on <;> rfl

theorem get_fields (k : String) :
    (o.fields n).get k =
      ((((if n.noCacheKey = k then Options.flag o.noCache else none).or
        (if n.noOptimisticKey = k then Options.flag o.noOptimisticCache else none)).or
        (if "ttl" = k then o.ttl.map .posInt else none)).or
        (if n.subnetKey = k then o.subnet.map .string else none)).or
        (if "strategy" = k then o.strategy.map .string else none) := by
  unfold Options.fields
  simp only [Mapping.get_append, get_optionalField]

theorem ne_of_disjoint {ks ks' : List String} (hdisjoint : ∀ k ∈ ks, k ∉ ks') {k k' : String} (hk : k ∈ ks)
    (hk' : k' ∈ ks') : k ≠ k' := by
  rintro rfl
  exact hdisjoint k hk hk'

section Keys

open OptionNames

variable {k : String}

theorem get_noCache (hn : n.Known) (hk : k ∈ noCacheKeys) :
    (o.fields n).get k = if n.noCacheKey = k then Options.flag o.noCache else none := by
  have hoptimistic : n.noOptimisticKey ≠ k := ne_of_disjoint (by decide) hn.noOptimisticKey hk
  have httl : "ttl" ≠ k := by
    rintro rfl
    exact absurd hk (by decide)
  have hsubnet : n.subnetKey ≠ k := ne_of_disjoint (by decide) hn.subnetKey hk
  have hstrategy : "strategy" ≠ k := by
    rintro rfl
    exact absurd hk (by decide)
  rw [get_fields, if_neg hoptimistic, if_neg httl, if_neg hsubnet, if_neg hstrategy]
  simp only [Option.or_none]

theorem get_noOptimistic (hn : n.Known) (hk : k ∈ noOptimisticKeys) :
    (o.fields n).get k = if n.noOptimisticKey = k then Options.flag o.noOptimisticCache else none := by
  have hcache : n.noCacheKey ≠ k := ne_of_disjoint (by decide) hn.noCacheKey hk
  have httl : "ttl" ≠ k := by
    rintro rfl
    exact absurd hk (by decide)
  have hsubnet : n.subnetKey ≠ k := ne_of_disjoint (by decide) hn.subnetKey hk
  have hstrategy : "strategy" ≠ k := by
    rintro rfl
    exact absurd hk (by decide)
  rw [get_fields, if_neg hcache, if_neg httl, if_neg hsubnet, if_neg hstrategy]
  simp only [Option.or_none, Option.none_or]

theorem get_subnet (hn : n.Known) (hk : k ∈ subnetKeys) :
    (o.fields n).get k = if n.subnetKey = k then o.subnet.map .string else none := by
  have hcache : n.noCacheKey ≠ k := ne_of_disjoint (by decide) hn.noCacheKey hk
  have hoptimistic : n.noOptimisticKey ≠ k := ne_of_disjoint (by decide) hn.noOptimisticKey hk
  have httl : "ttl" ≠ k := by
    rintro rfl
    exact absurd hk (by decide)
  have hstrategy : "strategy" ≠ k := by
    rintro rfl
    exact absurd hk (by decide)
  rw [get_fields, if_neg hcache, if_neg hoptimistic, if_neg httl, if_neg hstrategy]
  simp only [Option.or_none, Option.none_or]

theorem get_other (hn : n.Known) (hk : k ∉ noCacheKeys ++ (noOptimisticKeys ++ subnetKeys)) :
    (o.fields n).get k =
      (if "ttl" = k then o.ttl.map .posInt else none).or (if "strategy" = k then o.strategy.map .string else none) := by
  simp only [List.mem_append, not_or] at hk
  have hcache : n.noCacheKey ≠ k := fun h => hk.1 (h ▸ hn.noCacheKey)
  have hoptimistic : n.noOptimisticKey ≠ k := fun h => hk.2.1 (h ▸ hn.noOptimisticKey)
  have hsubnet : n.subnetKey ≠ k := fun h => hk.2.2 (h ▸ hn.subnetKey)
  rw [get_fields, if_neg hcache, if_neg hoptimistic, if_neg hsubnet]
  simp only [Option.or_none, Option.none_or]

end Keys

theorem asStr_string (s : Option Str) : (s.map Yaml.string).bind Yaml.asStr = s := by cases s <;> rfl

theorem asU64_posInt (n : Option UInt64) : (n.map Yaml.posInt).bind Yaml.asU64 = n := by cases n <;> rfl

theorem getStr_strategy (hn : n.Known) : (o.fields n).getStr "strategy" = o.strategy := by
  have hget : (o.fields n).get "strategy" = o.strategy.map .string := by
    rw [get_other hn (by decide)]
    rfl
  rw [Mapping.getStr, hget, asStr_string]

/-- **The entries for options are read back, whatever their names.** -/
theorem mappingOptions_fields (hn : n.Known) (strategy : Option GroupStrategy) :
    mappingOptions cr (o.fields n) strategy = o.inMappingWith cr strategy := by
  have httl : (o.fields n).getU64 "ttl" = o.ttl := by
    have hget : (o.fields n).get "ttl" = o.ttl.map .posInt := by
      rw [get_other hn (by decide)]
      simp
    rw [Mapping.getU64, hget, asU64_posInt]
  have hcache : ((o.fields n).getBool "no_cache" || (o.fields n).getBool "disable_cache" ||
      (o.fields n).getBool "nocache") = o.noCache := by
    unfold Mapping.getBool
    rw [get_noCache hn (by decide), get_noCache hn (by decide), get_noCache hn (by decide)]
    have hkey := hn.noCacheKey
    simp only [OptionNames.noCacheKeys, List.mem_cons, List.not_mem_nil, or_false] at hkey
    rcases hkey with hkey | hkey | hkey <;> rw [hkey] <;> simp [asBool_flag]
  have hoptimistic : ((o.fields n).getBool "no_optimistic_cache" || (o.fields n).getBool "disable_optimistic_cache" ||
      (o.fields n).getBool "nooptcache") = o.noOptimisticCache := by
    unfold Mapping.getBool
    rw [get_noOptimistic hn (by decide), get_noOptimistic hn (by decide), get_noOptimistic hn (by decide)]
    have hkey := hn.noOptimisticKey
    simp only [OptionNames.noOptimisticKeys, List.mem_cons, List.not_mem_nil, or_false] at hkey
    rcases hkey with hkey | hkey | hkey <;> rw [hkey] <;> simp [asBool_flag]
  have hsubnet : ((o.fields n).getStr "client_subnet").or ((o.fields n).getStr "ecs") = o.subnet := by
    unfold Mapping.getStr
    rw [get_subnet hn (by decide), get_subnet hn (by decide)]
    have hkey := hn.subnetKey
    simp only [OptionNames.subnetKeys, List.mem_cons, List.not_mem_nil, or_false] at hkey
    rcases hkey with hkey | hkey <;> rw [hkey] <;> simp [asStr_string]
  unfold mappingOptions Options.inMappingWith
  rw [httl, hcache, hoptimistic, hsubnet]

theorem parseOptions_fields (hn : n.Known) : parseOptions cr (o.fields n) = o.inMapping cr := by
  unfold parseOptions Options.inMapping
  rw [getStr_strategy hn]
  cases o.strategy with
  | none =>
    dsimp only
    rw [mappingOptions_fields hn]
  | some value =>
    dsimp only
    cases GroupStrategy.parse value with
    | none => rfl
    | some strategy => rw [Option.map_some, Option.map_some, mappingOptions_fields hn]

/-! A line gives the options one by one. -/

theorem parseUnsigned_decimal_of_le {bound m : Nat} (h : bound ≤ m) : parseUnsigned bound (decimal m) = none := by
  have hvalue : Nat.ofDigitChars 10 (decimal m) 0 = m := Nat.ofDigitChars_ten_toDigits
  have hdigits : parseDigits bound (decimal m) = none := by
    unfold parseDigits
    rw [hvalue, if_neg]
    rintro ⟨-, -, hlt⟩
    omega
  unfold parseUnsigned
  split
  · rename_i rest hplus
    have hmem : '+' ∈ decimal m := by
      rw [hplus]
      exact List.mem_cons_self
    exact absurd (decimal_isDigit hmem) (by decide)
  · exact hdigits

theorem parseOption_ttl (q : QueryOptions) (ttl : UInt64) (htrimmed : Trimmed ("ttl=".toList ++ decimal ttl.toNat)) :
    parseOption cr q ("ttl=".toList ++ decimal ttl.toNat) =
      { q with rewriteTtl := (Options.lineTtl ttl).or q.rewriteTtl } := by
  have hparse : parseU32 (decimal ttl.toNat) = Options.lineTtl ttl := by
    unfold parseU32 Options.lineTtl
    split_ifs with h
    · rw [parseUnsigned_decimal h]
      rfl
    · rw [parseUnsigned_decimal_of_le (Nat.le_of_not_lt h)]
      rfl
  rw [parseOption_of_ttl cr q htrimmed.trim_eq, hparse]

theorem parseOption_subnet (q : QueryOptions) {before : String} (hbefore : before ∈ OptionNames.subnetFlags) (s : Str)
    (htrimmed : Trimmed (before.toList ++ s)) :
    parseOption cr q (before.toList ++ s) = { q with clientSubnet := (parseSubnet cr s).or q.clientSubnet } := by
  simp only [OptionNames.subnetFlags, List.mem_cons, List.not_mem_nil, or_false] at hbefore
  refine parseOption_of_subnet cr q ?_ htrimmed.trim_eq
  rcases hbefore with rfl | rfl
  · exact .inl rfl
  · exact .inr rfl

theorem parseOption_strategy (q : QueryOptions) (s : Str) (htrimmed : Trimmed ("strategy=".toList ++ s)) :
    parseOption cr q ("strategy=".toList ++ s) = { q with strategy := GroupStrategy.parse s } := by
  unfold parseOption
  rw [htrimmed.trim_eq]
  rfl

theorem parseOption_noCache (q : QueryOptions) {flag : String} (hflag : flag ∈ OptionNames.noCacheFlags) :
    parseOption cr q flag.toList = { q with disableCache := true } := by
  simp only [OptionNames.noCacheFlags, List.mem_cons, List.not_mem_nil, or_false] at hflag
  rcases hflag with rfl | rfl | rfl <;> rfl

theorem parseOption_noOptimistic (q : QueryOptions) {flag : String} (hflag : flag ∈ OptionNames.noOptimisticFlags) :
    parseOption cr q flag.toList = { q with disableOptimisticCache := true } := by
  simp only [OptionNames.noOptimisticFlags, List.mem_cons, List.not_mem_nil, or_false] at hflag
  rcases hflag with rfl | rfl | rfl <;> rfl

/-- **The options of a line are read back, as far as it can give them.** -/
theorem foldl_texts (hn : n.Known) (htrimmed : ∀ text ∈ o.texts n, Trimmed text) :
    (o.texts n).foldl (parseOption cr) {} = o.inLine cr := by
  have hcache (q : QueryOptions) : (if o.noCache then [n.noCacheFlag.toList] else []).foldl (parseOption cr) q =
      { q with disableCache := o.noCache || q.disableCache } := by
    cases o.noCache with
    | true => exact parseOption_noCache q hn.noCacheFlag
    | false => rfl
  have hoptimistic (q : QueryOptions) :
      (if o.noOptimisticCache then [n.noOptimisticFlag.toList] else []).foldl (parseOption cr) q =
        { q with disableOptimisticCache := o.noOptimisticCache || q.disableOptimisticCache } := by
    cases o.noOptimisticCache with
    | true => exact parseOption_noOptimistic q hn.noOptimisticFlag
    | false => rfl
  unfold Options.texts at htrimmed ⊢
  simp only [List.mem_append, Option.mem_toList, or_imp, forall_and] at htrimmed
  obtain ⟨⟨⟨-, httl⟩, hsubnet⟩, hstrategy⟩ := htrimmed
  have httl' (q : QueryOptions) :
      (o.ttl.map fun ttl => "ttl=".toList ++ decimal ttl.toNat).toList.foldl (parseOption cr) q =
        { q with rewriteTtl := (o.ttl.bind Options.lineTtl).or q.rewriteTtl } := by
    cases hvalue : o.ttl with
    | none => rfl
    | some ttl => exact parseOption_ttl q ttl (httl _ (by rw [hvalue]; rfl))
  have hsubnet' (q : QueryOptions) :
      (o.subnet.map fun s => n.subnetFlag.toList ++ s).toList.foldl (parseOption cr) q =
        { q with clientSubnet := (o.subnet.bind (parseSubnet cr)).or q.clientSubnet } := by
    cases hvalue : o.subnet with
    | none => rfl
    | some s => exact parseOption_subnet q hn.subnetFlag s (hsubnet _ (by rw [hvalue]; rfl))
  have hstrategy' (q : QueryOptions) :
      (o.strategy.map fun s => "strategy=".toList ++ s).toList.foldl (parseOption cr) q =
        { q with strategy := o.strategy.elim q.strategy GroupStrategy.parse } := by
    cases hvalue : o.strategy with
    | none => rfl
    | some s => exact parseOption_strategy q s (hstrategy _ (by rw [hvalue]; rfl))
  rw [List.foldl_append, List.foldl_append, List.foldl_append, List.foldl_append, hcache, hoptimistic, httl', hsubnet',
    hstrategy']
  unfold Options.inLine
  simp only [Bool.or_false, Option.or_none]
  cases o.strategy <;> rfl

/-! No option of a line is one of a rejection. -/

theorem parseRejectOption_text (hn : n.Known) (r : RejectOptions) {text : Str} (htext : text ∈ o.texts n)
    (htrimmed : Trimmed text) : parseRejectOption r text = r := by
  unfold parseRejectOption
  rw [htrimmed.trim_eq]
  unfold Options.texts at htext
  simp only [List.mem_append, Option.mem_toList, Option.map_eq_some_iff] at htext
  rcases htext with (((hcache | hoptimistic) | ⟨ttl, -, rfl⟩) | ⟨s, -, rfl⟩) | ⟨s, -, rfl⟩
  · have hflag := hn.noCacheFlag
    split_ifs at hcache
    · cases List.mem_singleton.1 hcache
      simp only [OptionNames.noCacheFlags, List.mem_cons, List.not_mem_nil, or_false] at hflag
      rcases hflag with hflag | hflag | hflag <;> rw [hflag] <;> rfl
    · cases hcache
  · have hflag := hn.noOptimisticFlag
    split_ifs at hoptimistic
    · cases List.mem_singleton.1 hoptimistic
      simp only [OptionNames.noOptimisticFlags, List.mem_cons, List.not_mem_nil, or_false] at hflag
      rcases hflag with hflag | hflag | hflag <;> rw [hflag] <;> rfl
    · cases hoptimistic
  · rfl
  · have hflag := hn.subnetFlag
    simp only [OptionNames.subnetFlags, List.mem_cons, List.not_mem_nil, or_false] at hflag
    rcases hflag with hflag | hflag <;> rw [hflag] <;> rfl
  · rfl

theorem foldl_reject (hn : n.Known) {texts : List Str} (htexts : ∀ text ∈ texts, text ∈ o.texts n ∧ Trimmed text)
    (r : RejectOptions) : texts.foldl parseRejectOption r = r := by
  induction texts with
  | nil => rfl
  | cons text texts ih =>
    rw [List.forall_mem_cons] at htexts
    rw [List.foldl_cons, parseRejectOption_text hn r htexts.1.1 htexts.1.2, ih htexts.2]

end OptionSyntax

theorem splitOnP_join {texts : List Str} (hne : texts ≠ []) (htexts : ∀ text ∈ texts, ∀ c ∈ text,
    isRejectSeparator c = false) : (join "," texts).splitOnP isRejectSeparator = texts := by
  induction texts with
  | nil => exact absurd rfl hne
  | cons text texts ih =>
    rw [List.forall_mem_cons] at htexts
    cases texts with
    | nil =>
      rw [join_singleton]
      exact List.splitOnP_eq_singleton htexts.1
    | cons text' texts =>
      have hjoin : join "," (text :: text' :: texts) = text ++ ',' :: join "," (text' :: texts) := join_cons_cons _ _ _
      rw [hjoin, List.splitOnP_append_cons_of_forall_mem htexts.1 ',' (by decide),
        ih (List.cons_ne_nil _ _) htexts.2]

/-! ### Rules -/

/-- A rule that can be written in both syntaxes. -/
structure WrittenRule where
  condition : Condition
  verb : Verb
  options : Options := {}

/-- How a rule is written: under which names, and with which of the forms of its action. -/
structure Spelling where
  conditionKey : String
  before : String
  verbKey : String
  verbValue : Yaml
  head : Str
  names : OptionNames := {}

namespace WrittenRule

variable (r : WrittenRule) (w : Spelling)

/-- A rule as a mapping. -/
def mapping : Mapping :=
  field w.conditionKey (.string r.condition.text) :: field w.verbKey w.verbValue :: r.options.fields w.names

/-- The left-hand side of a rule. -/
def lhs : Str := w.before.toList ++ r.condition.text

/-- The right-hand side of a rule: a question mark stands before options. -/
def rhs : Str :=
  w.head ++ if r.options.texts w.names = [] then [] else '?' :: join "," (r.options.texts w.names)

/-- A rule as a line. -/
def line : Str := r.lhs w ++ " -> ".toList ++ r.rhs w

/-- The names are among those of the parts of the rule. -/
structure Spelled : Prop where
  conditionKey : w.conditionKey ∈ r.condition.keys
  before : w.before ∈ r.condition.prefixes
  verbKey : w.verbKey ∈ r.verb.keys
  verbValue : w.verbValue ∈ r.verb.values
  head : w.head ∈ r.verb.heads
  names : w.names.Known

/-- The texts of the rule can stand in a line: no white space around them is lost, and none has a mark that a line is
split at. -/
structure FitsLine : Prop where
  lhs : Trimmed (r.lhs w)
  comment : (r.lhs w).head? ≠ some '#'
  arrow : splitArrow (r.lhs w) = none
  rhs : Trimmed (r.rhs w)
  head : Trimmed w.head
  question : '?' ∉ w.head
  texts : ∀ text ∈ r.options.texts w.names, Trimmed text ∧ ∀ c ∈ text, isRejectSeparator c = false
  ips : ∀ ips, r.verb = .accept ips → ∀ ip ∈ ips, Trimmed ip ∧ ',' ∉ ip

end WrittenRule

section RuleSyntax

variable {cr : Crates} {r : WrittenRule} {w : Spelling} {m m' : Mapping}

/-- The keys of conditions. -/
def conditionKeys : List String :=
  ["match", "domain", "suffix", "host", "keyword", "set", "geosite", "geoip", "ruleset", "match_response", "response"]

/-- The keys of actions. -/
def actionKeys : List String :=
  ["drop", "no_drop", "reject", "refuse", "method", "nxdomain", "noerror", "servfail", "formerr", "notimp", "accept",
    "hosts", "ips", "fake", "respond", "evaluate", "route", "direct", "proxy"]

/-- The keys of options. -/
def optionKeys : List String :=
  "ttl" :: "strategy" :: (OptionNames.noCacheKeys ++ (OptionNames.noOptimisticKeys ++ OptionNames.subnetKeys))

/-! Each part of a mapping depends only on its own keys. -/

theorem parseMatcher_congr (h : ∀ k ∈ conditionKeys, m.get k = m'.get k) : parseMatcher cr m = parseMatcher cr m' := by
  have hstr (k : String) (hk : k ∈ conditionKeys) : m.getStr k = m'.getStr k := by
    rw [Mapping.getStr, Mapping.getStr, h k hk]
  unfold parseMatcher
  rw [hstr "match" (by decide), hstr "domain" (by decide), hstr "suffix" (by decide), hstr "host" (by decide),
    hstr "keyword" (by decide), hstr "set" (by decide), hstr "geosite" (by decide), hstr "geoip" (by decide),
    hstr "ruleset" (by decide), hstr "match_response" (by decide), hstr "response" (by decide)]

theorem parseOptions_congr (h : ∀ k ∈ optionKeys, m.get k = m'.get k) : parseOptions cr m = parseOptions cr m' := by
  have hstr (k : String) (hk : k ∈ optionKeys) : m.getStr k = m'.getStr k := by
    rw [Mapping.getStr, Mapping.getStr, h k hk]
  have hbool (k : String) (hk : k ∈ optionKeys) : m.getBool k = m'.getBool k := by
    rw [Mapping.getBool, Mapping.getBool, h k hk]
  have hoptions : mappingOptions cr m = mappingOptions cr m' := by
    funext strategy
    unfold mappingOptions Mapping.getU64
    rw [hbool "no_cache" (by decide), hbool "disable_cache" (by decide), hbool "nocache" (by decide),
      hbool "no_optimistic_cache" (by decide), hbool "disable_optimistic_cache" (by decide),
      hbool "nooptcache" (by decide), h "ttl" (by decide), hstr "client_subnet" (by decide), hstr "ecs" (by decide)]
  unfold parseOptions
  rw [hstr "strategy" (by decide), hoptions]

theorem parseAction_congr (h : ∀ k ∈ actionKeys, m.get k = m'.get k) (opts : QueryOptions) :
    parseAction m opts = parseAction m' opts := by
  have hstr (k : String) (hk : k ∈ actionKeys) : m.getStr k = m'.getStr k := by
    rw [Mapping.getStr, Mapping.getStr, h k hk]
  have hbool (k : String) (hk : k ∈ actionKeys) : m.getBool k = m'.getBool k := by
    rw [Mapping.getBool, Mapping.getBool, h k hk]
  have haccept (k : String) (hk : k ∈ actionKeys) : acceptIn m k = acceptIn m' k := by
    rw [acceptIn, acceptIn, Mapping.getSeq, Mapping.getSeq, hstr k hk, h k hk]
  have hips : ["accept", "hosts", "ips"].findSome? (acceptIn m) = ["accept", "hosts", "ips"].findSome? (acceptIn m') := by
    simp only [List.findSome?_cons, haccept "accept" (by decide), haccept "hosts" (by decide),
      haccept "ips" (by decide)]
    rfl
  have hrcode : (rcodeKeys.find? fun code => m.getBool code.1) = rcodeKeys.find? fun code => m'.getBool code.1 := by
    unfold rcodeKeys
    simp only [List.find?_cons, hbool "nxdomain" (by decide), hbool "noerror" (by decide),
      hbool "servfail" (by decide), hbool "formerr" (by decide), hbool "notimp" (by decide)]
    rfl
  unfold parseAction
  rw [hbool "drop" (by decide), hbool "no_drop" (by decide), hbool "reject" (by decide), hbool "refuse" (by decide),
    hstr "method" (by decide), hrcode, hips, hbool "fake" (by decide), hbool "respond" (by decide),
    hstr "evaluate" (by decide), hstr "route" (by decide), hstr "direct" (by decide), hstr "proxy" (by decide)]

theorem mem_conditionKeys {c : Condition} {k : String} (h : k ∈ c.keys) : k ∈ conditionKeys := by
  have hall : ∀ ks ∈ [["match"], ["domain"], ["suffix", "host"], ["keyword"], ["set", "geosite", "geoip", "ruleset"],
      ["match_response", "response"]], ∀ k ∈ ks, k ∈ conditionKeys := by decide
  cases c <;> exact hall _ (by simp [Condition.keys]) k h

theorem mem_actionKeys {v : Verb} {k : String} (h : k ∈ v.keys) : k ∈ actionKeys := by
  cases v with
  | rcode code =>
    have hall : ∀ code ∈ rcodeKeys, code.1 ∈ actionKeys := by decide
    obtain ⟨code', hmem, rfl⟩ := List.mem_map.1 h
    exact hall code' (List.mem_filter.1 hmem).1
  | reject | accept ips =>
    have hall : ∀ ks ∈ [["reject", "refuse"], ["accept", "hosts", "ips"]], ∀ k ∈ ks, k ∈ actionKeys := by decide
    exact hall _ (by simp [Verb.keys]) k h
  | drop | fake | respond | evaluate group | route group | direct group | proxy group =>
    cases List.mem_singleton.1 h
    decide

theorem get_fields_none {o : Options} {n : OptionNames} (hn : n.Known) {k : String} (hk : k ∉ optionKeys) :
    (o.fields n).get k = none := by
  unfold optionKeys at hk
  rw [List.mem_cons, not_or, List.mem_cons, not_or] at hk
  have httl : ¬"ttl" = k := fun h => hk.1 h.symm
  have hstrategy : ¬"strategy" = k := fun h => hk.2.1 h.symm
  rw [get_other hn hk.2.2, if_neg httl, if_neg hstrategy]
  rfl

section Get

variable (hspelled : r.Spelled w) {k : String}

include hspelled

theorem get_mapping_condition (hk : k ∈ conditionKeys) :
    (r.mapping w).get k = Mapping.get [field w.conditionKey (.string r.condition.text)] k := by
  have hverb : ¬w.verbKey = k := ne_of_disjoint (by decide) (mem_actionKeys hspelled.verbKey) hk
  have hoption : k ∉ optionKeys := by
    have hdisjoint : ∀ k ∈ conditionKeys, k ∉ optionKeys := by decide
    exact hdisjoint k hk
  unfold WrittenRule.mapping
  rw [Mapping.get_field, Mapping.get_field, if_neg hverb, get_fields_none hspelled.names hoption, Mapping.get_field,
    Mapping.get_nil]

theorem get_mapping_action (hk : k ∈ actionKeys) :
    (r.mapping w).get k = Mapping.get [field w.verbKey w.verbValue] k := by
  have hcondition : ¬w.conditionKey = k := ne_of_disjoint (by decide) (mem_conditionKeys hspelled.conditionKey) hk
  have hoption : k ∉ optionKeys := by
    have hdisjoint : ∀ k ∈ actionKeys, k ∉ optionKeys := by decide
    exact hdisjoint k hk
  unfold WrittenRule.mapping
  rw [Mapping.get_field, if_neg hcondition, Mapping.get_field, get_fields_none hspelled.names hoption,
    Mapping.get_field, Mapping.get_nil]

theorem get_mapping_option (hk : k ∈ optionKeys) : (r.mapping w).get k = (r.options.fields w.names).get k := by
  have hcondition : ¬w.conditionKey = k := ne_of_disjoint (by decide) (mem_conditionKeys hspelled.conditionKey) hk
  have hverb : ¬w.verbKey = k := ne_of_disjoint (by decide) (mem_actionKeys hspelled.verbKey) hk
  unfold WrittenRule.mapping
  rw [Mapping.get_field, if_neg hcondition, Mapping.get_field, if_neg hverb]

/-- **A mapping is read as its parts.** -/
theorem parseRuleMapping_mapping (hfits : r.FitsLine w) :
    parseRuleMapping cr (r.mapping w) =
      (do
        let matcher ← r.condition.matcher cr
        let opts ← r.options.inMapping cr
        let action ← r.verb.inMapping opts
        some ⟨matcher, action⟩) := by
  have hmatcher : parseMatcher cr (r.mapping w) = r.condition.matcher cr := by
    rw [parseMatcher_congr fun k hk => get_mapping_condition hspelled hk]
    exact parseMatcher_condition r.condition hspelled.conditionKey
  have hoptions : parseOptions cr (r.mapping w) = r.options.inMapping cr := by
    rw [parseOptions_congr fun k hk => get_mapping_option hspelled hk]
    exact parseOptions_fields hspelled.names
  have haction (opts : QueryOptions) : parseAction (r.mapping w) opts = r.verb.inMapping opts := by
    rw [parseAction_congr fun k hk => get_mapping_action hspelled hk]
    exact parseAction_verb r.verb opts hfits.ips hspelled.verbKey hspelled.verbValue
  unfold parseRuleMapping
  rw [hmatcher, hoptions]
  simp only [haction]

theorem reject_head (hreject : r.verb = .reject) : ∀ c ∈ w.head, isRejectSeparator c = false := by
  have hhead := hspelled.head
  have hall : ∀ head ∈ Verb.reject.heads, ∀ c ∈ head, isRejectSeparator c = false := by
    simp [Verb.heads, isRejectSeparator]
  rw [hreject] at hhead
  exact hall w.head hhead

theorem parseRhs_rhs (hfits : r.FitsLine w) :
    parseRhs cr (r.rhs w) = r.verb.inLine w.head (r.options.inLine cr) := by
  have htexts : (r.options.texts w.names).foldl (parseOption cr) {} = r.options.inLine cr :=
    foldl_texts hspelled.names fun text htext => (hfits.texts text htext).1
  unfold parseRhs WrittenRule.rhs
  by_cases hnone : r.options.texts w.names = []
  · rw [if_pos hnone, List.append_nil, splitOnce_of_notMem hfits.question]
    rw [hnone] at htexts
    dsimp only
    rw [← htexts]
    apply headAction_verb r.verb hfits.ips _ hspelled.head hfits.head
    intro hreject
    rw [parseReject, List.splitOnP_eq_singleton (reject_head hspelled hreject)]
    rfl
  · have hcomma : (join "," (r.options.texts w.names)).splitOn ',' = r.options.texts w.names := by
      apply List.splitOn_intercalate ',' _ hnone
      intro text htext hmem
      have := (hfits.texts text htext).2 ',' hmem
      cases this
    rw [if_neg hnone, splitOnce_append hfits.question]
    dsimp only
    rw [parseOpts, hcomma, htexts]
    apply headAction_verb r.verb hfits.ips _ hspelled.head hfits.head
    intro hreject
    rw [parseReject, List.splitOnP_append_cons_of_forall_mem (reject_head hspelled hreject) '?' (by decide),
      splitOnP_join hnone fun text htext => (hfits.texts text htext).2]
    exact foldl_reject hspelled.names (fun text htext => ⟨htext, (hfits.texts text htext).1⟩) {}

/-- **A line is read as its parts.** -/
theorem parseRuleLine_line (hfits : r.FitsLine w) :
    parseRuleLine cr (r.line w) =
      (do
        let matcher ← r.condition.matcher cr
        let action ← r.verb.inLine w.head (r.options.inLine cr)
        some ⟨matcher, action⟩) := by
  have hspace : ∀ c ∈ [' '], isWhitespace c = true := List.all_eq_true.1 rfl
  have hlhs : trim (r.lhs w ++ [' ']) = r.lhs w := trim_append (List.forall_mem_nil _) hspace hfits.lhs
  have hrhs : trim (' ' :: r.rhs w) = r.rhs w := by
    have := trim_append hspace (List.forall_mem_nil _) hfits.rhs
    rwa [List.append_nil] at this
  have hcomment : (trim (r.lhs w ++ [' '])).head? ≠ some '#' := by
    rw [hlhs]
    exact hfits.comment
  have hline : r.line w = (r.lhs w ++ [' ']) ++ '-' :: '>' :: (' ' :: r.rhs w) := by
    unfold WrittenRule.line
    rw [List.append_assoc, List.append_assoc]
    rfl
  rw [hline, parseRuleLine_eq (splitArrow_space hfits.arrow) hcomment, hlhs, hrhs, parseRhs_rhs hspelled hfits]
  have hcondition : parseLhs cr (r.lhs w) = r.condition.matcher cr :=
    parseLhs_condition r.condition hspelled.before hfits.lhs
  rw [hcondition]

end Get

end RuleSyntax

end WutherCore.Resolver
