import WutherCore.Data.Except
import WutherCore.Ruleset.Srs

/-!
# Hostile SRS files

Every part of the SRS reader is `Sound`: it panics exactly when it scans a bitmap that is not
orderly, and what it returns holds only domain sets that are proper trees.  The proofs follow the
readers; the only part with an argument of its own is the loop over the items of a rule, which ends
because no item comes twice.

* `parseBody_sound`: the reader as a whole is sound.
* `parse_safe_iff`: a body is read without a panic, and into sets that can be searched in bounds,
  exactly when the bitmaps in it are orderly.
-/

namespace WutherCore.Ruleset

open WutherCore.Text WutherCore.Data WutherCore.Data.Run

/-! ### The domain sets of a program -/

/-- The domain sets of a predicate. -/
def RulesetPredicate.domainSets : RulesetPredicate → List CompactDomainSet
  | singboxDomainMatcher matcher => [matcher]
  | adGuardDomainMatcher matcher => [matcher]
  | _ => []

namespace RulesetExpr

mutual

/-- The domain sets of an expression. -/
def domainSets : RulesetExpr → List CompactDomainSet
  | any children => childrenDomainSets children
  | all children => childrenDomainSets children
  | not child => child.domainSets
  | predicate p => p.domainSets

/-- The domain sets of a list of expressions. -/
def childrenDomainSets : List RulesetExpr → List CompactDomainSet
  | [] => []
  | child :: children => child.domainSets ++ childrenDomainSets children

end

theorem childrenDomainSets_eq (cs : List RulesetExpr) :
    childrenDomainSets cs = cs.flatMap domainSets := by
  induction cs with
  | nil => rfl
  | cons c cs ih => rw [childrenDomainSets, ih, List.flatMap_cons]

/-- All domain sets of the expression are proper trees. -/
def Proper (e : RulesetExpr) : Prop := ∀ s ∈ e.domainSets, s.Proper

@[simp] theorem proper_any {cs : List RulesetExpr} : (any cs).Proper ↔ ∀ c ∈ cs, c.Proper := by
  simp only [Proper, domainSets, childrenDomainSets_eq, List.mem_flatMap]
  exact ⟨fun h c hc s hs => h s ⟨c, hc, hs⟩, fun h s ⟨c, hc, hs⟩ => h c hc s hs⟩

@[simp] theorem proper_all {cs : List RulesetExpr} : (all cs).Proper ↔ ∀ c ∈ cs, c.Proper := by
  simp only [Proper, domainSets, childrenDomainSets_eq, List.mem_flatMap]
  exact ⟨fun h c hc s hs => h s ⟨c, hc, hs⟩, fun h s ⟨c, hc, hs⟩ => h c hc s hs⟩

@[simp] theorem proper_not {c : RulesetExpr} : (not c).Proper ↔ c.Proper := Iff.rfl

@[simp] theorem proper_predicate {p : RulesetPredicate} :
    (predicate p).Proper ↔ ∀ s ∈ p.domainSets, s.Proper := Iff.rfl

end RulesetExpr

namespace Srs

variable {α : Type}

/-- The part panics exactly when it scans a bitmap that is not orderly, and its values satisfy
`Q`. -/
def Sound (Q : α → Prop) (m : Decode α) : Prop := Safe (fun bits => ¬Orderly bits) Q m

/-- A part that scans no bad bitmap of its own accord; nothing is said about its values. -/
abbrev Total (m : Decode α) : Prop := Sound (fun _ => True) m

theorem Sound.total {Q : α → Prop} {m : Decode α} (h : Sound Q m) : Total m :=
  h.mono fun _ _ => trivial

theorem gets_total (f : State → α) : Total (gets f) := safe_gets fun _ => trivial

/-! ### Bytes, numbers and lists -/

theorem bump_total (update : State → State) (total : State → Nat) (maximum : Nat)
    (message : String) : Total (bump update total maximum message) :=
  (safe_modify update).bind fun _ _ =>
    (gets_total _).bind fun _ _ => Sound.total (safe_rejectIf _ _)

theorem addRule_sound (depth : Nat) :
    Sound (fun _ => depth ≤ maxLogicalDepth) (addRule depth) :=
  (safe_rejectIf _ _).bind fun _ h => (bump_total _ _ _ _).mono fun _ _ => Nat.le_of_not_lt h

theorem take_sound (length : Nat) (field : String) :
    Sound (fun bytes => bytes.length = length) (take length field) := by
  refine (gets_total _).bind fun position _ => (safe_rejectIf _ _).bind fun _ _ => ?_
  refine (gets_total _).bind fun bytes _ => (safe_rejectIf _ _).bind fun _ hlen => ?_
  refine (safe_modify _).bind fun _ _ => safe_pure ?_
  rw [List.length_take]
  omega

theorem asArray_total {n : Nat} {bytes : List UInt8} (h : bytes.length = n) :
    Total (asArray n bytes) :=
  safe_orCrash ⟨bytes, if_pos h, trivial⟩

theorem readU8_total (field : String) : Total (readU8 field) := by
  refine (take_sound 1 field).bind fun bytes hlength => safe_orCrash ?_
  exact ⟨_, List.getElem?_eq_getElem (by omega), trivial⟩

theorem readBool_total (field : String) : Total (readBool field) :=
  (readU8_total field).bind fun _ _ => (safe_rejectIf _ _).bind fun _ _ => safe_pure trivial

theorem readU16BE_total (field : String) : Total (readU16BE field) :=
  (take_sound 2 field).bind fun _ h => (asArray_total h).bind fun _ _ => safe_pure trivial

theorem readU64BE_total (field : String) : Total (readU64BE field) :=
  (take_sound 8 field).bind fun _ h => (asArray_total h).bind fun _ _ => safe_pure trivial

theorem readUvarintFrom_total (field : String) (rounds index value : Nat) :
    Total (readUvarintFrom field rounds index value) := by
  induction rounds generalizing index value with
  | zero => exact safe_fail _
  | succ rounds ih =>
    refine (readU8_total field).bind fun byte _ => (safe_rejectIf _ _).bind fun _ _ => ?_
    dsimp only
    split_ifs
    · exact (safe_rejectIf _ _).bind fun _ _ => safe_pure trivial
    · exact ih _ _

theorem readLen_sound (field : String) (maximum : Nat) :
    Sound (fun value => value ≤ maximum) (readLen field maximum) :=
  (readUvarintFrom_total field 10 0 0).bind fun _ _ =>
    (safe_rejectIf _ _).bind fun _ h => safe_pure (Nat.le_of_not_lt h)

theorem forIndex_total {f : Nat → Decode α} (h : ∀ i, Total (f i)) (start count : Nat) :
    Total (forIndex f start count) := Sound.total (safe_forIndex h start count)

theorem readString_total (field : String) (maximumStringBytes index : Nat) :
    Total (readString field maximumStringBytes index) := by
  refine (readLen_sound _ _).bind fun length _ => (bump_total _ _ _ _).bind fun _ _ => ?_
  refine (take_sound length field).bind fun bytes _ => ?_
  cases fromUtf8 bytes with
  | some value => exact safe_pure trivial
  | none => exact safe_fail _

theorem readStringList_total (field : String) (maximumItems maximumStringBytes : Nat) :
    Total (readStringList field maximumItems maximumStringBytes) :=
  (readLen_sound _ _).bind fun _ _ => (bump_total _ _ _ _).bind fun _ _ =>
    forIndex_total (readString_total field maximumStringBytes) _ _

theorem readStrings_total (field : String) : Total (readStrings field) :=
  (readStringList_total _ _ _).bind fun _ _ => (bump_total _ _ _ _).bind fun _ _ =>
    safe_pure trivial

theorem readPatterns_total (field : String) : Total (readPatterns field) :=
  (readStringList_total _ _ _).bind fun _ _ => (bump_total _ _ _ _).bind fun _ _ =>
    (bump_total _ _ _ _).bind fun _ _ => safe_pure trivial

theorem readCount_total (field : String) : Total (readCount field) :=
  (readLen_sound _ _).bind fun _ _ => (bump_total _ _ _ _).bind fun _ _ =>
    (bump_total _ _ _ _).bind fun _ _ => safe_pure trivial

theorem readU16List_total (field : String) : Total (readU16List field) :=
  (readCount_total field).bind fun _ _ => forIndex_total (fun _ => readU16BE_total field) _ _

theorem readU8List_total (field : String) : Total (readU8List field) :=
  (readCount_total field).bind fun _ _ => (take_sound _ _).total

theorem readPortList_total (field : String) : Total (readPortList field) := by
  refine (readCount_total field).bind fun _ _ => forIndex_total (fun _ => ?_) _ _
  refine (readU16BE_total field).bind fun port _ => safe_orCrash ?_
  exact ⟨⟨port, port⟩, if_pos (UInt16.le_refl port), trivial⟩

theorem readPortRangeList_total (field : String) : Total (readPortRangeList field) :=
  (readStrings_total field).bind fun _ _ => safe_ofExcept fun _ _ => trivial

/-! ### Networks -/

theorem readPrefix_total (field : String) : Total (readPrefix field) :=
  (readLen_sound _ _).bind fun _ _ => (take_sound _ _).bind fun _ _ =>
    (readU8_total _).bind fun _ _ => safe_ofExcept fun _ _ => trivial

theorem readPrefixList_total (field : String) : Total (readPrefixList field) :=
  (readCount_total field).bind fun _ _ =>
    forIndex_total (fun _ => (readPrefix_total field).mapError _) _ _

theorem readInterfaceEntries_total (count index : Nat) (seen : List UInt8) :
    Total (readInterfaceEntries count index seen) := by
  induction count generalizing index seen with
  | zero => exact safe_pure trivial
  | succ count ih =>
    refine (readU8_total _).bind fun _ _ => (safe_rejectIf _ _).bind fun _ _ => ?_
    refine ((readPrefixList_total _).mapError _).bind fun _ _ => (safe_rejectIf _ _).bind fun _ _ => ?_
    exact (ih _ _).bind fun _ _ => safe_pure trivial

theorem readNetworkInterfaceAddresses_total : Total readNetworkInterfaceAddresses :=
  (readLen_sound _ _).bind fun _ _ => (bump_total _ _ _ _).bind fun _ _ =>
    readInterfaceEntries_total _ _ _

theorem readIpAddr_total (field : String) : Total (readIpAddr field) := by
  refine (readLen_sound _ _).bind fun length _ => (take_sound length field).bind fun bytes _ => ?_
  split_ifs with _ h16
  · exact safe_pure trivial
  · exact (asArray_total h16).bind fun _ _ => safe_pure trivial
  · exact safe_fail _

theorem readIpRanges_total (field : String) (count index : Nat) (previous : Option Net.IpAddr) :
    Total (readIpRanges field count index previous) := by
  induction count generalizing index previous with
  | zero => exact safe_pure trivial
  | succ count ih =>
    refine (readIpAddr_total _).bind fun start _ => (readIpAddr_total _).bind fun stop _ => ?_
    refine (safe_rejectIf _ _).bind fun _ _ => (safe_rejectIf _ _).bind fun _ _ => ?_
    refine (safe_rejectIf _ _).bind fun _ _ => (safe_ofExcept fun _ _ => trivial).bind fun _ _ => ?_
    exact (bump_total _ _ _ _).bind fun _ _ => (ih _ _).bind fun _ _ => safe_pure trivial

theorem readIpSet_total (field : String) : Total (readIpSet field) :=
  (readU8_total _).bind fun _ _ => (safe_rejectIf _ _).bind fun _ _ =>
    (readU64BE_total _).bind fun _ _ => (safe_rejectIf _ _).bind fun _ _ =>
      (bump_total _ _ _ _).bind fun _ _ => readIpRanges_total _ _ _ _

/-! ### Domain sets -/

theorem checkBitmaps_total (leaves labelBitmap : List UInt64) (nodeCount effectiveBits : Nat) :
    Total (checkBitmaps leaves labelBitmap nodeCount effectiveBits) :=
  (safe_rejectIf _ _).bind fun _ _ => (safe_rejectIf _ _).bind fun _ _ =>
    (safe_rejectIf _ _).bind fun _ _ => (safe_rejectIf _ _).bind fun _ _ =>
      Sound.total (safe_rejectIf _ _)

theorem scanLabels_sound {labelsLength : Nat} {bits : List Bool}
    (hlength : bits.length = 2 * labelsLength + 1) (hlabels : labelsLength < 2 ^ 32) :
    Sound (fun offsets => scanBitmap labelsLength bits = .ok offsets)
      (scanLabels labelsLength bits) :=
  safe_emit_ofEnding (scanBitmap_panic hlength hlabels) fun _ h => h

theorem readU64Slice_total (field : String) (maximum : Nat) : Total (readU64Slice field maximum) :=
  (readLen_sound _ _).bind fun _ _ => forIndex_total (fun _ => readU64BE_total field) _ _

/-- **A domain set that is read is a proper tree.** -/
theorem readCompactDomainSet_sound (field : String) :
    Sound CompactDomainSet.Proper (readCompactDomainSet field) := by
  refine (readU8_total _).bind fun _ _ => (safe_rejectIf _ _).bind fun _ _ => ?_
  refine (readU64Slice_total _ _).bind fun leaves _ => ?_
  refine (readU64Slice_total _ _).bind fun labelBitmap _ => ?_
  refine (readLen_sound _ _).bind fun labelsLength hmaximum => ?_
  refine (bump_total _ _ _ _).bind fun _ _ => (take_sound _ _).bind fun labels hlabels => ?_
  refine (checkBitmaps_total _ _ _ _).bind fun _ _ => ?_
  refine (scanLabels_sound ?_ ?_).bind fun childOffsets hscan => ?_
  · rw [List.length_map, List.length_range]
    omega
  · exact hmaximum.trans_lt (by decide)
  refine (safe_rejectIf _ _).bind fun _ _ => (bump_total _ _ _ _).bind fun _ _ => safe_pure ?_
  subst hlabels
  exact scanBitmap_proper hscan

/-! ### Rules -/

/-- The domain sets of the rule are proper trees. -/
structure DefaultRule.Proper (rule : DefaultRule) : Prop where
  domainMatcher : ∀ s ∈ rule.domainMatcher, s.Proper
  adguardDomainMatcher : ∀ s ∈ rule.adguardDomainMatcher, s.Proper

theorem readItem_sound {rule : DefaultRule} (h : rule.Proper) (item : RuleItem) :
    Sound DefaultRule.Proper (readItem rule item) := by
  have hsame : ∀ {β : Type} {m : Decode β} {update : β → DefaultRule},
      Total m → (∀ b, (update b).domainMatcher = rule.domainMatcher) →
      (∀ b, (update b).adguardDomainMatcher = rule.adguardDomainMatcher) →
      Sound DefaultRule.Proper (m >>= fun b => pure (update b)) :=
    fun hm hdomain hadguard => hm.bind fun b _ => safe_pure
      ⟨by rw [hdomain]; exact h.domainMatcher, by rw [hadguard]; exact h.adguardDomainMatcher⟩
  cases item with
  | queryType => exact hsame (readU16List_total _) (fun _ => rfl) fun _ => rfl
  | domain =>
    refine (readCompactDomainSet_sound _).bind fun matcher hmatcher => safe_pure ⟨?_, ?_⟩
    · rintro s ⟨⟩
      exact hmatcher
    · exact h.adguardDomainMatcher
  | adguardDomain =>
    refine (readCompactDomainSet_sound _).bind fun matcher hmatcher => safe_pure ⟨?_, ?_⟩
    · exact h.domainMatcher
    · rintro s ⟨⟩
      exact hmatcher
  | domainRegex | processPathRegex | packageNameRegex =>
    exact hsame (readPatterns_total _) (fun _ => rfl) fun _ => rfl
  | sourceIpCidr | ipCidr => exact hsame (readIpSet_total _) (fun _ => rfl) fun _ => rfl
  | sourcePort | port => exact hsame (readPortList_total _) (fun _ => rfl) fun _ => rfl
  | sourcePortRange | portRange =>
    exact hsame (readPortRangeList_total _) (fun _ => rfl) fun _ => rfl
  | networkType => exact hsame (readU8List_total _) (fun _ => rfl) fun _ => rfl
  | networkIsExpensive | networkIsConstrained =>
    exact safe_pure ⟨h.domainMatcher, h.adguardDomainMatcher⟩
  | networkInterfaceAddress =>
    exact hsame readNetworkInterfaceAddresses_total (fun _ => rfl) fun _ => rfl
  | defaultInterfaceAddress => exact hsame (readPrefixList_total _) (fun _ => rfl) fun _ => rfl
  | network | domainKeyword | processName | processPath | packageName | wifiSsid | wifiBssid =>
    exact hsame (readStrings_total _) (fun _ => rfl) fun _ => rfl

theorem length_le_of_nodup {seen : List RuleItem} (h : seen.Nodup) : seen.length ≤ 24 :=
  (List.subperm_of_subset h fun item _ => by
    cases item <;> decide : seen.Subperm ruleItems).length_le

theorem readItems_sound {room : Nat} {seen : List RuleItem} {rule : DefaultRule}
    (hseen : seen.Nodup) (hroom : seen.length + room = 25) (h : rule.Proper) :
    Sound (fun r => r.1.Proper) (readItems room seen rule) := by
  induction room generalizing seen rule with
  | zero =>
    have := length_le_of_nodup hseen
    omega
  | succ room ih =>
    refine (readU8_total _).bind fun itemType _ => ?_
    split_ifs
    · exact (readBool_total _).bind fun _ _ => safe_pure h
    · cases ruleItems[itemType.toNat]? with
      | none => exact safe_fail _
      | some item =>
        refine (gets_total _).bind fun _ _ => (safe_rejectIf _ _).bind fun _ _ => ?_
        refine (safe_rejectIf _ _).bind fun _ hnew => (readItem_sound h item).bind fun rule' h' => ?_
        exact ih (List.nodup_cons.2 ⟨hnew, hseen⟩) (by rw [List.length_cons]; omega) h'

theorem listGroup_proper {values : List α} {p : List α → RulesetPredicate}
    (hp : (p values).domainSets = []) : ∀ e ∈ listGroup values p, e.Proper := by
  intro e he
  unfold listGroup at he
  split_ifs at he
  · cases he
  · obtain rfl := List.mem_singleton.1 he
    simp [hp]

theorem regexGroup_proper {cr : Crates} {field : String} {patterns : List Str}
    {p : (Str → Bool) → RulesetPredicate} {group : List RulesetExpr}
    (hp : ∀ regex, (p regex).domainSets = [])
    (h : regexGroup cr field patterns p = .ok group) : ∀ e ∈ group, e.Proper := by
  unfold regexGroup at h
  split_ifs at h
  · cases h
    simp
  · cases hregex : cr.regexSet patterns with
    | error e => simp [hregex] at h
    | ok regex =>
      simp only [hregex] at h
      cases h
      simp [hp]

theorem matcherGroup_proper {matcher : Option CompactDomainSet}
    {p : CompactDomainSet → RulesetPredicate} (hp : ∀ s, (p s).domainSets = [s])
    (h : ∀ s ∈ matcher, s.Proper) : ∀ e ∈ matcherGroup matcher p, e.Proper := by
  intro e he
  obtain ⟨s, hs, rfl⟩ := List.mem_map.1 he
  simpa [hp] using h s (Option.mem_toList.1 hs)

theorem flagGroup_proper {flag : Bool} {p : RulesetPredicate} (hp : p.domainSets = []) :
    ∀ e ∈ flagGroup flag p, e.Proper := by
  cases flag <;> simp [flagGroup, hp]

theorem anyGroup_proper {alternatives : List RulesetExpr} (h : ∀ e ∈ alternatives, e.Proper) :
    ∀ e ∈ anyGroup alternatives, e.Proper := by
  unfold anyGroup
  split_ifs
  · simp
  · simpa using h

theorem applyInvert_proper {e : RulesetExpr} {invert : Bool} (h : e.Proper) :
    (applyInvert e invert).Proper := by
  cases invert <;> exact h

theorem compileDefaultRule_proper {cr : Crates} {rule : DefaultRule} {invert : Bool}
    {e : RulesetExpr} (h : rule.Proper) (hok : compileDefaultRule cr rule invert = .ok e) :
    e.Proper := by
  obtain ⟨domainRegex, hdomain, hok⟩ := bind_eq_ok.1 hok
  obtain ⟨pathRegex, hpath, hok⟩ := bind_eq_ok.1 hok
  obtain ⟨packageRegex, hpackage, hok⟩ := bind_eq_ok.1 hok
  have hdomain := regexGroup_proper (fun _ => rfl) hdomain
  have hpath := regexGroup_proper (fun _ => rfl) hpath
  have hpackage := regexGroup_proper (fun _ => rfl) hpackage
  dsimp only at hok
  split_ifs at hok
  cases hok
  refine applyInvert_proper (RulesetExpr.proper_all.2 ?_)
  simp only [List.forall_mem_append, and_assoc]
  refine ⟨anyGroup_proper ?_, listGroup_proper rfl, listGroup_proper rfl, listGroup_proper rfl,
    listGroup_proper rfl, listGroup_proper rfl, listGroup_proper rfl, hpath, listGroup_proper rfl,
    hpackage, listGroup_proper rfl, listGroup_proper rfl, listGroup_proper rfl,
    listGroup_proper rfl, flagGroup_proper rfl, flagGroup_proper rfl, listGroup_proper rfl,
    listGroup_proper rfl⟩
  simp only [List.forall_mem_append, and_assoc]
  exact ⟨matcherGroup_proper (fun _ => rfl) h.domainMatcher, listGroup_proper rfl, hdomain,
    matcherGroup_proper (fun _ => rfl) h.adguardDomainMatcher, listGroup_proper rfl⟩

theorem readDefaultRule_sound (cr : Crates) :
    Sound RulesetExpr.Proper (readDefaultRule cr) := by
  refine (readItems_sound List.nodup_nil rfl ⟨by simp, by simp⟩).bind fun (rule, invert) h => ?_
  exact safe_ofExcept fun e hok => compileDefaultRule_proper h hok

theorem readLogicalRule_sound {readChild : Decode RulesetExpr}
    (h : Sound RulesetExpr.Proper readChild) :
    Sound RulesetExpr.Proper (readLogicalRule readChild) := by
  refine (readU8_total _).bind fun mode _ => (safe_rejectIf _ _).bind fun _ _ => ?_
  refine (readLen_sound _ _).bind fun length _ => (safe_rejectIf _ _).bind fun _ _ => ?_
  refine (bump_total _ _ _ _).bind fun _ _ => ?_
  refine (safe_forIndex (fun _ => h.mapError _) _ _).bind fun children hchildren => ?_
  refine (readBool_total _).bind fun invert _ => safe_pure (applyInvert_proper ?_)
  split_ifs
  · exact RulesetExpr.proper_all.2 hchildren
  · exact RulesetExpr.proper_any.2 hchildren

theorem readRule_sound (cr : Crates) {room depth : Nat} (hroom : depth + room = 66)
    (hpos : 0 < room) : Sound RulesetExpr.Proper (readRule cr room depth) := by
  induction room generalizing depth with
  | zero => omega
  | succ room ih =>
    refine (addRule_sound depth).bind fun _ hdepth => (readU8_total _).bind fun ruleType _ => ?_
    rw [maxLogicalDepth] at hdepth
    split_ifs
    · exact readDefaultRule_sound cr
    · exact readLogicalRule_sound (ih (by omega) (by omega))
    · exact safe_fail _

/-- **The reader panics exactly on a bitmap that is not orderly, and the domain sets of a program are
proper trees.** -/
theorem parseBody_sound (cr : Crates) (version : UInt8) :
    Sound (fun program => program.root.Proper) (parseBody cr version) := by
  refine (readLen_sound _ _).bind fun ruleCount _ => (bump_total _ _ _ _).bind fun _ _ => ?_
  refine (safe_forIndex (fun _ => (readRule_sound cr rfl (by decide)).mapError _) _ _).bind
    fun rules hrules => (gets_total _).bind fun _ _ => ?_
  exact (safe_rejectIf _ _).bind fun _ _ => safe_pure (RulesetExpr.proper_any.2 hrules)

/-! ### Bodies -/

/-- The run of the reader on a decompressed body. -/
def run (cr : Crates) (version : UInt8) (body : List UInt8) :
    List (List Bool) × Ending ParseError (RulesetProgram × State) :=
  parseBody cr version { bytes := body, version }

/-- The bitmaps of domain sets that the reader comes to in a body. -/
def labelBitmaps (cr : Crates) (version : UInt8) (body : List UInt8) : List (List Bool) :=
  (run cr version body).1

/-- The body is read into an error or a program, without indexing out of bounds, and the lookups in
the domain sets of the program stay in bounds on every domain. -/
def SafeOn (cr : Crates) (version : UInt8) (body : List UInt8) : Prop :=
  match (run cr version body).2 with
  | .panic => False
  | .error _ => True
  | .ok (program, _) => ∀ s ∈ program.root.domainSets, s.Proper ∧
      ∀ domain, (s.matchesDomain domain).isSome ∧ (s.matchesAdguard domain).isSome

/-- **Reading is safe exactly when the bitmaps in the body are orderly.** -/
theorem safeOn_iff (cr : Crates) (version : UInt8) (body : List UInt8) :
    SafeOn cr version body ↔ ∀ bits ∈ labelBitmaps cr version body, Orderly bits := by
  have hsound := parseBody_sound cr version { bytes := body, version }
  rw [SafeOn, labelBitmaps, run]
  revert hsound
  rcases parseBody cr version { bytes := body, version } with ⟨trace, ⟨program, _⟩ | e | _⟩
  · rintro ⟨htrace, hproper⟩
    refine iff_of_true (fun s hs => ⟨hproper s hs, fun domain => ?_⟩) fun bits hbits =>
      not_not.1 (htrace bits hbits)
    exact ⟨(hproper s hs).matchesDomain_isSome domain, (hproper s hs).matchesAdguard_isSome domain⟩
  · intro htrace
    exact iff_of_true trivial fun bits hbits => not_not.1 (htrace bits hbits)
  · rintro ⟨bits, hbits, hbad⟩
    exact iff_of_false id fun h => hbad (h bits hbits)

/-- A domain set of two nodes that closes the root and then gives a child to the second node. -/
theorem not_safeOn_orphan :
    ¬SafeOn .ascii 1 [1, 0, 2, 0, 1, 0, 0, 0, 0, 0, 0, 0, 1, 1, 0, 0, 0, 0, 0, 0, 0, 5, 1, 97] := by
  have h : (run .ascii 1
      [1, 0, 2, 0, 1, 0, 0, 0, 0, 0, 0, 0, 1, 1, 0, 0, 0, 0, 0, 0, 0, 5, 1, 97]).2 = .panic := by
    rfl
  rw [SafeOn, h]
  exact id

end Srs

end WutherCore.Ruleset
