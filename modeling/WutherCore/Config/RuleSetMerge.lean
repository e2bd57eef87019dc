import Mathlib
import WutherCore.Data.AssocMap
import WutherCore.Data.Except
import WutherCore.Text.Str

/-!
# Merging rule sets

`merge_compatible_rule_sets` adds the rule sets of sing-box and of Mihomo to the native ones.  A name must be defined
once; the code looks for names that are defined already where it inserts, but not where it inserts an inline entry.

* `ownSets`, `ownSingbox`, `ownProviders`: what the three inputs define, each on its own.
* `merge_exact_iff`: when what is merged is what they define.
-/

namespace WutherCore.Config

open WutherCore.Data WutherCore.Text

/-- `rule_error`. -/
structure RuleError where
  location : Str
  message : Str
  hint : Str

/-- An error with the texts of the source. -/
def ruleError {α : Type} (location : Str) (message : Str) (hint : String) : Except RuleError α :=
  .error ⟨location, message, hint.toList⟩

/-- `RuleSetSpec`. -/
structure RuleSetSpec where
  url : Option Str
  path : Option Str
  payload : List Str
  type : Str
  format : Option Str
  every : Nat
  via : Str
  deriving DecidableEq

/-- `DEFAULT_UPDATE_INTERVAL`, in seconds. -/
def defaultUpdateInterval : Nat := 24 * 60 * 60

/-- `SingboxRuleSetTags`. -/
inductive SingboxRuleSetTags
  | one (tag : Str)
  | many (tags : List Str)

/-- The tags. -/
def SingboxRuleSetTags.list : SingboxRuleSetTags → List Str
  | .one tag => [tag]
  | .many tags => tags

/-- `SingboxRuleSetSpec`, over the values of YAML. -/
structure SingboxRuleSetSpec (Yaml : Type) where
  kind : Option Str := none
  tag : SingboxRuleSetTags
  format : Option Str := none
  path : Option Str := none
  url : Option Str := none
  rules : Option (List Yaml) := none
  updateInterval : Option Nat := none
  downloadDetour : Option Str := none
  httpClient : Option Yaml := none

/-- `MihomoRuleProviderSpec`. -/
structure MihomoRuleProviderSpec where
  kind : Str
  url : Option Str := none
  path : Option Str := none
  payload : Option (List Str) := none
  behavior : Str
  format : Option Str := none
  interval : Option Nat := none
  proxy : Option Str := none

/-- The checks of single fields, with the place they report: `normalize_canonical_spec`,
`normalize_singbox_file_format`, `normalize_singbox_http_client`, `validate_http_url`, the encoding of inline rules,
and what becomes of one provider of Mihomo.  Nothing is assumed of them. -/
structure FieldChecks (Yaml : Type) where
  canonical : RuleSetSpec → Str → Except RuleError RuleSetSpec
  fileFormat : Option Str → Str → Str → Except RuleError Str
  httpClient : Option Str → Option Yaml → Str → Except RuleError Str
  httpUrl : Str → Str → Except RuleError Unit
  inlineBody : List Yaml → Str → Except RuleError Str
  provider : MihomoRuleProviderSpec → Str → Except RuleError RuleSetSpec

/-- The rule sets by their names. -/
abbrev RuleSets := AssocMap Str RuleSetSpec

/-- `require_nonempty`. -/
def requireNonempty (value location : Str) (field : String) : Except RuleError Unit :=
  if trim value = [] then .error ⟨location, field.toList ++ " 不能为空".toList, "填写非空 ".toList ++ field.toList⟩
  else .ok ()

/-- `required_string`. -/
def requiredString (value : Option Str) (location : Str) (field missing : String) : Except RuleError Str :=
  match value with
  | none => .error ⟨location, missing.toList, "添加非空 ".toList ++ field.toList⟩
  | some value => (requireNonempty value location field).map fun _ => value

/-- `reject_present`, for fields with their reasons. -/
def rejectPresent (location : Str) : List (String × Bool × String) → Except RuleError Unit
  | [] => .ok ()
  | (field, present, reason) :: fields =>
      if present then
        .error ⟨location, "字段 `".toList ++ field.toList ++ "` 在当前 type 下无效：".toList ++ reason.toList,
          "删除 ".toList ++ field.toList⟩
      else rejectPresent location fields

/-- `compat_interval`. -/
def compatInterval (interval : Option Nat) (location : Str) : Except RuleError Nat :=
  if interval.getD defaultUpdateInterval = 0 then
    ruleError location "刷新周期不能为 0".toList "设置正数秒或 duration（例如 86400 / 24h）"
  else .ok (interval.getD defaultUpdateInterval)

/-- The loop of `normalize_tags`. -/
def checkTags (location : Str) : (seen tags : List Str) → Except RuleError Unit
  | _, [] => .ok ()
  | seen, tag :: tags =>
      if trim tag = [] then ruleError location "sing-box rule-set tag 不能为空".toList "填写非空 tag"
      else if tag ∈ seen then
        ruleError location ("tag `".toList ++ tag ++ "` 在同一条配置中重复".toList) "删除重复 tag"
      else checkTags location (tag :: seen) tags

/-- `normalize_tags`. -/
def normalizeTags (tags : List Str) (location : Str) : Except RuleError (List Str) :=
  if tags = [] then ruleError location "sing-box rule-set tag 列表不能为空".toList "至少添加一个 tag"
  else (checkTags location [] tags).map fun _ => tags

/-- `replace` of a text that is not empty. -/
def replaceText (c : Char) (p replacement : Str) (s : Str) : Str :=
  match s with
  | [] => []
  | x :: rest =>
      if (c :: p).isPrefixOf (x :: rest) then replacement ++ replaceText c p replacement (rest.drop p.length)
      else x :: replaceText c p replacement rest
termination_by s.length
decreasing_by
  · rw [List.length_drop, List.length_cons]
    omega
  · rw [List.length_cons]
    omega

/-- Where the rules of an entry come from: a text of its own, or a path or URL for its tags. -/
inductive Source
  | inline (name body : Str)
  | files (source : Str) (remote : Bool) (format : Str) (every : Nat) (via : Str)

section

variable {Yaml : Type} (checks : FieldChecks Yaml)

/-- The kind of an entry. -/
def SingboxRuleSetSpec.kindText (raw : SingboxRuleSetSpec Yaml) : Str :=
  toAsciiLowercase (trim (raw.kind.getD "inline".toList))

/-- The tag of an inline entry. -/
def singleTag (tags : List Str) (location : Str) : Except RuleError Str :=
  match tags with
  | [name] => .ok name
  | _ => ruleError location "sing-box inline rule-set 不允许 tag 列表".toList "每个 inline rule-set 只保留一个 tag"

/-- The checks of an entry of sing-box. -/
def entrySource (raw : SingboxRuleSetSpec Yaml) (tags : List Str) (location : Str) : Except RuleError Source :=
  if raw.kindText = "inline".toList then do
    let name ← singleTag tags location
    rejectPresent location [
      ("format", raw.format.isSome, "inline rule-set 的规则直接来自 rules"),
      ("path", raw.path.isSome, "inline rule-set 不读取文件"),
      ("url", raw.url.isSome, "inline rule-set 不下载文件"),
      ("update_interval", raw.updateInterval.isSome, "inline rule-set 不会刷新"),
      ("download_detour", raw.downloadDetour.isSome, "inline rule-set 不会下载"),
      ("http_client", raw.httpClient.isSome, "inline rule-set 不会下载")]
    match raw.rules with
    | none => ruleError location "sing-box inline rule-set 缺少 rules".toList "添加 headless rules 列表"
    | some rules => (checks.inlineBody rules location).map (.inline name)
  else if raw.kindText = "local".toList then do
    rejectPresent location [
      ("url", raw.url.isSome, "local rule-set 只使用 path"),
      ("rules", raw.rules.isSome, "local rule-set 的内容来自 path"),
      ("update_interval", raw.updateInterval.isSome, "sing-box 只允许 remote rule-set 设置 update_interval"),
      ("download_detour", raw.downloadDetour.isSome, "local rule-set 不会下载"),
      ("http_client", raw.httpClient.isSome, "local rule-set 不会下载")]
    let path ← requiredString raw.path location "path" "type: local 必须提供 path"
    let format ← checks.fileFormat raw.format path location
    return .files path false format defaultUpdateInterval "direct".toList
  else if raw.kindText = "remote".toList then do
    rejectPresent location [
      ("path", raw.path.isSome, "remote rule-set 只使用 url；缓存由 manager 管理"),
      ("rules", raw.rules.isSome, "remote rule-set 的内容来自 url")]
    let url ← requiredString raw.url location "url" "type: remote 必须提供 url"
    checks.httpUrl url location
    let format ← checks.fileFormat raw.format url location
    let via ← checks.httpClient raw.downloadDetour raw.httpClient location
    let every ← compatInterval raw.updateInterval location
    return .files url true format every via
  else
    ruleError location ("未知 sing-box rule-set type `".toList ++ raw.kindText ++ ['`'])
      "type 仅允许 inline / local / remote"

/-- The specification of an inline entry. -/
def inlineSpec (body : Str) : RuleSetSpec :=
  ⟨none, none, [body], "mixed".toList, some "json".toList, defaultUpdateInterval, "direct".toList⟩

/-- The specification of one tag of an entry with a path or URL. -/
def tagSpec (source : Str) (remote : Bool) (format : Str) (every : Nat) (via location tag : Str) :
    Except RuleError RuleSetSpec :=
  let expanded := replaceText '\x7b' "tag\x7d".toList tag source
  checks.canonical ⟨if remote then some expanded else none, if remote then none else some expanded, [], "mixed".toList,
    some format, every, via⟩ location

/-- The check of `expand_singbox_sources_with_via` that several tags have a place in the path or URL. -/
def checkPlaceholder (source : Str) (tags : List Str) (location : Str) : Except RuleError Unit :=
  if 1 < tags.length ∧ contains source "\x7btag\x7d".toList = false then
    ruleError location "多个 tag 共用的 path/url 缺少 `\x7btag\x7d` 占位符".toList
      "在 path/url 中加入 `\x7btag\x7d`，或拆成多个 rule-set 条目"
  else .ok ()

/-- The loop of `expand_singbox_sources_with_via`. -/
def expandSources (spec : Str → Except RuleError RuleSetSpec) (location : Str) :
    (result : RuleSets) → (tags : List Str) → Except RuleError RuleSets
  | result, [] => .ok result
  | result, tag :: tags =>
      (spec tag).bind fun spec' =>
        if result.contains tag then
          ruleError location ("重复的 sing-box rule-set tag `".toList ++ tag ++ ['`']) "每个 tag 只能定义一次"
        else expandSources spec location (result.insert tag spec') tags

/-- The place of an entry. -/
def entryLocation (index : Nat) : Str := "route.rule_set[".toList ++ decimal index ++ [']']

/-- One turn of the loop of `normalize_singbox_rule_sets`. -/
def addEntry (result : RuleSets) (index : Nat) (raw : SingboxRuleSetSpec Yaml) : Except RuleError RuleSets :=
  let location := entryLocation index
  (normalizeTags raw.tag.list location).bind fun tags =>
    (entrySource checks raw tags location).bind fun
      | .inline name body => .ok (result.insert name (inlineSpec body))
      | .files source remote format every via =>
          (checkPlaceholder source tags location).bind fun _ =>
            expandSources (tagSpec checks source remote format every via location) location result tags

/-- The loop of `normalize_singbox_rule_sets`. -/
def addEntries : (result : RuleSets) → (index : Nat) → List (SingboxRuleSetSpec Yaml) → Except RuleError RuleSets
  | result, _, [] => .ok result
  | result, index, raw :: specs => (addEntry checks result index raw).bind fun result =>
      addEntries result (index + 1) specs

/-- `normalize_singbox_rule_sets`. -/
def normalizeSingboxRuleSets (specs : List (SingboxRuleSetSpec Yaml)) : Except RuleError RuleSets :=
  addEntries checks .empty 0 specs

/-- The check of the path of a provider. -/
def claimPath (location name : Str) (path : Option Str) (paths : AssocMap Str Str) :
    Except RuleError (AssocMap Str Str) :=
  match path with
  | none => .ok paths
  | some path => (requireNonempty path location "path").bind fun _ =>
      match paths.get? path with
      | some previous =>
          ruleError location ("path `".toList ++ path ++ "` 已被 provider `".toList ++ previous ++ "` 使用".toList)
            "Mihomo provider 的 path 必须唯一；为其中一个 provider 更换缓存/文件路径"
      | none => .ok (paths.insert path name)

/-- The loop of `normalize_mihomo_rule_providers`. -/
def ownProviders : (paths : AssocMap Str Str) → List (Str × MihomoRuleProviderSpec) →
    Except RuleError (List (Str × RuleSetSpec))
  | _, [] => .ok []
  | paths, (name, provider) :: providers =>
      if trim name = [] then
        ruleError "rule-providers".toList "provider 名称不能为空".toList "为每个 rule-providers 条目设置非空名称"
      else do
        let location := "rule-providers.".toList ++ name
        let paths ← claimPath location name provider.path paths
        let spec ← checks.provider provider location
        let rest ← ownProviders paths providers
        return (name, spec) :: rest

/-- `normalize_mihomo_rule_providers`. -/
def normalizeMihomoRuleProviders (providers : AssocMap Str MihomoRuleProviderSpec) : Except RuleError RuleSets :=
  (ownProviders checks .empty providers.sorted).map (AssocMap.empty.insertAll ·)

/-- A native rule set. -/
def ownSet (e : Str × RuleSetSpec) : Except RuleError (Str × RuleSetSpec) :=
  if trim e.1 = [] then
    ruleError "route.sets".toList "规则集名称不能为空".toList "为每个 route.sets 条目设置非空名称"
  else (checks.canonical e.2 ("route.sets.".toList ++ e.1)).map fun spec => (e.1, spec)

/-- The native rule sets. -/
def ownSets (sets : RuleSets) : Except RuleError (List (Str × RuleSetSpec)) := sets.sorted.mapM (ownSet checks)

/-- `insert_unique`, for each of a list of rule sets. -/
def insertUnique (source : String) : (sets : RuleSets) → List (Str × RuleSetSpec) → Except RuleError RuleSets
  | sets, [] => .ok sets
  | sets, (name, spec) :: rest =>
      if sets.contains name then
        ruleError source.toList ("规则集名称/tag `".toList ++ name ++ "` 重复".toList)
          "route.sets、route.rule_set tag 与 rule-providers 名称必须全局唯一"
      else insertUnique source (sets.insert name spec) rest

/-- `merge_compatible_rule_sets`. -/
def mergeCompatibleRuleSets (sets : RuleSets) (singbox : List (SingboxRuleSetSpec Yaml))
    (mihomo : AssocMap Str MihomoRuleProviderSpec) : Except RuleError RuleSets := do
  let native ← ownSets checks sets
  let fromSingbox ← normalizeSingboxRuleSets checks singbox
  let sets ← insertUnique "route.rule_set" (AssocMap.empty.insertAll native) fromSingbox.sorted
  let fromMihomo ← normalizeMihomoRuleProviders checks mihomo
  insertUnique "rule-providers" sets fromMihomo.sorted

/-! ### What the inputs define -/

/-- What an entry of sing-box defines. -/
def ownEntry (index : Nat) (raw : SingboxRuleSetSpec Yaml) : Except RuleError (List (Str × RuleSetSpec)) :=
  let location := entryLocation index
  (normalizeTags raw.tag.list location).bind fun tags =>
    (entrySource checks raw tags location).bind fun
      | .inline name body => .ok [(name, inlineSpec body)]
      | .files source remote format every via =>
          (checkPlaceholder source tags location).bind fun _ =>
            tags.mapM fun tag => (tagSpec checks source remote format every via location tag).map (tag, ·)

/-- What the entries of sing-box define. -/
def ownSingbox : (index : Nat) → List (SingboxRuleSetSpec Yaml) → Except RuleError (List (Str × RuleSetSpec))
  | _, [] => .ok []
  | index, raw :: specs => (ownEntry checks index raw).bind fun defs =>
      (ownSingbox (index + 1) specs).map (defs ++ ·)

/-- An entry of its own text. -/
def IsInline (raw : SingboxRuleSetSpec Yaml) : Prop := raw.kindText = "inline".toList

/-- No entry of a kind has a tag that was seen before. -/
def Fresh (kind : SingboxRuleSetSpec Yaml → Prop) : (seen : List Str) → List (SingboxRuleSetSpec Yaml) → Prop
  | _, [] => True
  | seen, raw :: specs => (kind raw → ∀ tag ∈ raw.tag.list, tag ∉ seen) ∧ Fresh kind (seen ++ raw.tag.list) specs

/-- The names that the three inputs define. -/
def names (sets : RuleSets) (singbox : List (SingboxRuleSetSpec Yaml))
    (mihomo : AssocMap Str MihomoRuleProviderSpec) : List Str :=
  sets.entries.map Prod.fst ++ singbox.flatMap (fun raw => raw.tag.list) ++ mihomo.entries.map Prod.fst

/-- What is merged has every name once, with what its own entry defines. -/
def MergesExactly (sets : RuleSets) (singbox : List (SingboxRuleSetSpec Yaml))
    (mihomo : AssocMap Str MihomoRuleProviderSpec) : Prop :=
  ∀ merged, mergeCompatibleRuleSets checks sets singbox mihomo = .ok merged →
    (names sets singbox mihomo).Nodup ∧
      ∃ native entries providers, ownSets checks sets = .ok native ∧ ownSingbox checks 0 singbox = .ok entries ∧
        ownProviders checks .empty mihomo.sorted = .ok providers ∧
        ∀ e ∈ native ++ entries ++ providers, merged.get? e.1 = some e.2

/-- The inputs are sound but for the tags of inline entries: each is accepted on its own, no entry with a path or URL
repeats a tag, and no name is in two of them. -/
def AcceptedOtherwise (sets : RuleSets) (singbox : List (SingboxRuleSetSpec Yaml))
    (mihomo : AssocMap Str MihomoRuleProviderSpec) : Prop :=
  (∃ native, ownSets checks sets = .ok native) ∧ (∃ entries, ownSingbox checks 0 singbox = .ok entries) ∧
    (∃ providers, ownProviders checks .empty mihomo.sorted = .ok providers) ∧
    Fresh (fun raw => ¬IsInline raw) [] singbox ∧
    (∀ raw ∈ singbox, ∀ tag ∈ raw.tag.list, sets.get? tag = none) ∧
    ∀ name, mihomo.get? name ≠ none → sets.get? name = none ∧ ∀ raw ∈ singbox, name ∉ raw.tag.list

/-! ### Names and their specifications -/

theorem get?_insert_eq_none {m : RuleSets} {k k' : Str} {v : RuleSetSpec} :
    (m.insert k v).get? k' = none ↔ k' ≠ k ∧ m.get? k' = none := by
  by_cases hk : k' = k
  · simp [hk]
  · simp [AssocMap.get?_insert_of_ne m v hk, hk]

theorem get?_insertAll_eq_none {m : RuleSets} {es : List (Str × RuleSetSpec)} {k : Str} :
    (m.insertAll es).get? k = none ↔ m.get? k = none ∧ k ∉ es.map Prod.fst := by
  induction es generalizing m with
  | nil => simp [AssocMap.insertAll]
  | cons e es ih =>
    have hsteps : m.insertAll (e :: es) = (m.insert e.1 e.2).insertAll es := rfl
    rw [hsteps, ih, get?_insert_eq_none, List.map_cons, List.mem_cons, not_or]
    tauto

theorem contains_eq_false_iff {m : RuleSets} {k : Str} : m.contains k = false ↔ m.get? k = none := by
  rw [AssocMap.contains, Option.isSome_eq_false_iff, Option.isNone_iff_eq_none]

theorem insertUnique_ok_iff {source : String} {es : List (Str × RuleSetSpec)} {sets r : RuleSets} :
    insertUnique source sets es = .ok r ↔
      (es.map Prod.fst).Nodup ∧ (∀ e ∈ es, sets.get? e.1 = none) ∧ r = sets.insertAll es := by
  induction es generalizing sets with
  | nil => simp [insertUnique, AssocMap.insertAll, eq_comm]
  | cons e es ih =>
    obtain ⟨name, spec⟩ := e
    rw [insertUnique, List.map_cons, List.nodup_cons, List.forall_mem_cons]
    cases hcontains : sets.contains name with
    | true =>
      rw [if_pos rfl]
      refine iff_of_false (fun h => by cases h) fun h => ?_
      rw [contains_eq_false_iff.2 h.2.1.1] at hcontains
      cases hcontains
    | false =>
      have hnone := contains_eq_false_iff.1 hcontains
      have hsteps : (sets.insert name spec).insertAll es = sets.insertAll ((name, spec) :: es) := rfl
      rw [if_neg Bool.false_ne_true, ih, hsteps]
      simp only [get?_insert_eq_none, List.mem_map, hnone, true_and]
      constructor
      · rintro ⟨hnodup, hall, rfl⟩
        refine ⟨⟨?_, hnodup⟩, fun e he => (hall e he).2, rfl⟩
        rintro ⟨e, he, heq⟩
        exact (hall e he).1 heq
      · rintro ⟨⟨hnot, hnodup⟩, hall, rfl⟩
        exact ⟨hnodup, fun e he => ⟨fun heq => hnot ⟨e, he, heq⟩, hall e he⟩, rfl⟩

theorem expandSources_ok_iff {spec : Str → Except RuleError RuleSetSpec} {location : Str} {tags : List Str}
    {result r : RuleSets} (hnodup : tags.Nodup) :
    expandSources spec location result tags = .ok r ↔
      ∃ defs, (tags.mapM fun tag => (spec tag).map (tag, ·)) = .ok defs ∧ (∀ tag ∈ tags, result.get? tag = none) ∧
        r = result.insertAll defs := by
  induction tags generalizing result with
  | nil => simp [expandSources, pure, Except.pure, AssocMap.insertAll, eq_comm]
  | cons tag tags ih =>
    rw [List.nodup_cons] at hnodup
    rw [expandSources, bind_eq_ok, List.mapM_cons]
    constructor
    · rintro ⟨spec', hspec, h⟩
      split_ifs at h with hcontains
      · cases h
      · have hnone := contains_eq_false_iff.1 (Bool.not_eq_true _ ▸ hcontains)
        obtain ⟨defs, hdefs, hall, rfl⟩ := (ih hnodup.2).1 h
        refine ⟨(tag, spec') :: defs, bind_eq_ok.2 ⟨_, map_eq_ok.2 ⟨spec', hspec, rfl⟩, bind_eq_ok.2
          ⟨defs, hdefs, rfl⟩⟩, ?_, rfl⟩
        exact List.forall_mem_cons.2 ⟨hnone, fun t ht => (get?_insert_eq_none.1 (hall t ht)).2⟩
    · rintro ⟨defs, hdefs, hall, rfl⟩
      obtain ⟨_, hhead, hdefs⟩ := bind_eq_ok.1 hdefs
      obtain ⟨spec', hspec, rfl⟩ := map_eq_ok.1 hhead
      obtain ⟨rest, hrest, hdefs⟩ := bind_eq_ok.1 hdefs
      obtain rfl := Except.ok.inj hdefs
      rw [List.forall_mem_cons] at hall
      refine ⟨spec', hspec, ?_⟩
      rw [contains_eq_false_iff.2 hall.1, if_neg Bool.false_ne_true]
      refine (ih hnodup.2).2 ⟨rest, hrest, fun t ht => get?_insert_eq_none.2 ⟨?_, hall.2 t ht⟩, rfl⟩
      rintro rfl
      exact hnodup.1 ht

theorem checkTags_ok {location : Str} {seen tags : List Str} (h : checkTags location seen tags = .ok ()) :
    tags.Nodup ∧ ∀ tag ∈ tags, tag ∉ seen := by
  induction tags generalizing seen with
  | nil => simp
  | cons tag tags ih =>
    rw [checkTags] at h
    split_ifs at h with hempty hseen
    · cases h
    · cases h
    · obtain ⟨hnodup, hnot⟩ := ih h
      refine ⟨List.nodup_cons.2 ⟨fun hmem => hnot tag hmem List.mem_cons_self, hnodup⟩, ?_⟩
      exact List.forall_mem_cons.2 ⟨hseen, fun t ht hmem => hnot t ht (List.mem_cons_of_mem _ hmem)⟩

theorem normalizeTags_ok {tags tags' : List Str} {location : Str} (h : normalizeTags tags location = .ok tags') :
    tags' = tags ∧ tags.Nodup := by
  rw [normalizeTags] at h
  split_ifs at h
  · cases h
  · obtain ⟨u, hcheck, rfl⟩ := map_eq_ok.1 h
    exact ⟨rfl, (checkTags_ok hcheck).1⟩

/-- An entry has its rules of its own exactly if it is inline; it has one tag then. -/
theorem entrySource_ok {raw : SingboxRuleSetSpec Yaml} {tags : List Str} {location : Str} {source : Source}
    (h : entrySource checks raw tags location = .ok source) :
    match source with
    | .inline name _ => IsInline raw ∧ tags = [name]
    | .files .. => ¬IsInline raw := by
  rw [entrySource] at h
  split_ifs at h with hinline
  · obtain ⟨name, hname, h⟩ := bind_eq_ok.1 h
    obtain ⟨_, -, h⟩ := bind_eq_ok.1 h
    cases hrules : raw.rules with
    | none =>
      rw [hrules] at h
      cases h
    | some rules =>
      rw [hrules] at h
      obtain ⟨body, -, rfl⟩ := map_eq_ok.1 h
      match tags, hname with
      | [_], hname => exact ⟨hinline, by rw [Except.ok.inj hname]⟩
  · obtain ⟨_, -, h⟩ := bind_eq_ok.1 h
    obtain ⟨path, -, h⟩ := bind_eq_ok.1 h
    obtain ⟨format, -, h⟩ := bind_eq_ok.1 h
    obtain rfl := Except.ok.inj h
    exact hinline
  · obtain ⟨_, -, h⟩ := bind_eq_ok.1 h
    obtain ⟨url, -, h⟩ := bind_eq_ok.1 h
    obtain ⟨_, -, h⟩ := bind_eq_ok.1 h
    obtain ⟨format, -, h⟩ := bind_eq_ok.1 h
    obtain ⟨via, -, h⟩ := bind_eq_ok.1 h
    obtain ⟨every, -, h⟩ := bind_eq_ok.1 h
    obtain rfl := Except.ok.inj h
    exact hinline
  · cases h

theorem ownEntry_keys {index : Nat} {raw : SingboxRuleSetSpec Yaml} {defs : List (Str × RuleSetSpec)}
    (h : ownEntry checks index raw = .ok defs) : defs.map Prod.fst = raw.tag.list ∧ raw.tag.list.Nodup := by
  obtain ⟨tags, htags, h⟩ := bind_eq_ok.1 h
  obtain ⟨rfl, hnodup⟩ := normalizeTags_ok htags
  refine ⟨?_, hnodup⟩
  obtain ⟨source, hsource, h⟩ := bind_eq_ok.1 h
  have hkind := entrySource_ok checks hsource
  cases source with
  | inline name body =>
    obtain rfl := Except.ok.inj h
    exact hkind.2.symm
  | files source remote format every via =>
    obtain ⟨u, -, h⟩ := bind_eq_ok.1 h
    have hrel : List.Forall₂ (fun tag e => tag = e.1) raw.tag.list defs := (mapM_eq_ok.1 h).imp fun tag e he => by
      obtain ⟨spec, -, rfl⟩ := map_eq_ok.1 he
      rfl
    have hkeys : List.Forall₂ (· = ·) raw.tag.list (defs.map Prod.fst) := List.forall₂_map_right_iff.2 hrel
    rw [List.forall₂_eq_eq_eq] at hkeys
    exact hkeys.symm

theorem addEntry_ok_iff {result r : RuleSets} {index : Nat} {raw : SingboxRuleSetSpec Yaml} :
    addEntry checks result index raw = .ok r ↔
      ∃ defs, ownEntry checks index raw = .ok defs ∧
        (¬IsInline raw → ∀ tag ∈ raw.tag.list, result.get? tag = none) ∧ r = result.insertAll defs := by
  unfold addEntry ownEntry
  cases htags : normalizeTags raw.tag.list (entryLocation index) with
  | error e => simp [Except.bind, htags]
  | ok tags =>
    obtain ⟨rfl, hnodup⟩ := normalizeTags_ok htags
    cases hsource : entrySource checks raw raw.tag.list (entryLocation index) with
    | error e => simp [Except.bind, htags, hsource]
    | ok source =>
      have hkind := entrySource_ok checks hsource
      cases source with
      | inline name body =>
        have hinline : ¬¬IsInline raw := not_not.2 hkind.1
        simp [Except.bind, htags, hsource, hinline, AssocMap.insertAll, eq_comm]
      | files source remote format every via =>
        cases hplace : checkPlaceholder source raw.tag.list (entryLocation index) with
        | error e => simp [Except.bind, htags, hsource, hplace]
        | ok u =>
          have hfiles : ¬IsInline raw := hkind
          simp only [Except.bind, htags, hsource, hplace, hfiles, not_false_eq_true, forall_const]
          exact expandSources_ok_iff hnodup

theorem addEntries_ok_iff {specs : List (SingboxRuleSetSpec Yaml)} {result r : RuleSets} {index : Nat}
    (seen : List Str) (hseen : ∀ t, result.get? t = none ↔ t ∉ seen) :
    addEntries checks result index specs = .ok r ↔
      ∃ defs, ownSingbox checks index specs = .ok defs ∧ Fresh (fun raw => ¬IsInline raw) seen specs ∧
        r = result.insertAll defs := by
  induction specs generalizing result index seen with
  | nil => simp [addEntries, ownSingbox, Fresh, AssocMap.insertAll, eq_comm]
  | cons raw specs ih =>
    have hnext : ∀ defs, ownEntry checks index raw = .ok defs →
        ∀ t, (result.insertAll defs).get? t = none ↔ t ∉ seen ++ raw.tag.list := fun defs hdefs t => by
      rw [get?_insertAll_eq_none, (ownEntry_keys checks hdefs).1, hseen, List.mem_append, not_or]
    rw [addEntries, ownSingbox, bind_eq_ok]
    constructor
    · rintro ⟨result', hentry, h⟩
      obtain ⟨defs, hdefs, hfresh, rfl⟩ := (addEntry_ok_iff checks).1 hentry
      obtain ⟨rest, hrest, hfresh', rfl⟩ := (ih _ (hnext defs hdefs)).1 h
      refine ⟨defs ++ rest, bind_eq_ok.2 ⟨defs, hdefs, map_eq_ok.2 ⟨rest, hrest, rfl⟩⟩, ⟨?_, hfresh'⟩, ?_⟩
      · exact fun hkind t ht => (hseen t).1 (hfresh hkind t ht)
      · rw [AssocMap.insertAll, AssocMap.insertAll, AssocMap.insertAll, List.foldl_append]
    · rintro ⟨all, hall, ⟨hfresh, hfresh'⟩, rfl⟩
      obtain ⟨defs, hdefs, hall⟩ := bind_eq_ok.1 hall
      obtain ⟨rest, hrest, rfl⟩ := map_eq_ok.1 hall
      refine ⟨result.insertAll defs, (addEntry_ok_iff checks).2 ⟨defs, hdefs, ?_, rfl⟩,
        (ih _ (hnext defs hdefs)).2 ⟨rest, hrest, hfresh', ?_⟩⟩
      · exact fun hkind t ht => (hseen t).2 (hfresh hkind t ht)
      · rw [AssocMap.insertAll, AssocMap.insertAll, AssocMap.insertAll, List.foldl_append]

theorem nodup_iff_fresh {specs : List (SingboxRuleSetSpec Yaml)} (seen : List Str)
    (htags : ∀ raw ∈ specs, raw.tag.list.Nodup) :
    (specs.flatMap (fun raw => raw.tag.list)).Nodup ∧ (∀ t ∈ specs.flatMap (fun raw => raw.tag.list), t ∉ seen) ↔
      Fresh IsInline seen specs ∧ Fresh (fun raw => ¬IsInline raw) seen specs := by
  induction specs generalizing seen with
  | nil => simp [Fresh]
  | cons raw specs ih =>
    rw [List.forall_mem_cons] at htags
    have hone : (∀ t ∈ raw.tag.list, t ∉ seen) ↔ (IsInline raw → ∀ t ∈ raw.tag.list, t ∉ seen) ∧
        (¬IsInline raw → ∀ t ∈ raw.tag.list, t ∉ seen) := by
      by_cases hkind : IsInline raw <;> simp [hkind]
    have hrest := ih (seen ++ raw.tag.list) htags.2
    rw [Fresh, Fresh, and_and_and_comm, ← hone, ← hrest, List.flatMap_cons, List.nodup_append]
    simp only [List.mem_append, not_or]
    constructor
    · rintro ⟨⟨-, hnodup, hdisjoint⟩, hseen⟩
      exact ⟨fun t ht => hseen t (.inl ht), hnodup, fun t ht => ⟨hseen t (.inr ht), fun hmem =>
        hdisjoint t hmem t ht rfl⟩⟩
    · rintro ⟨hseen, hnodup, hall⟩
      refine ⟨⟨htags.1, hnodup, fun t ht t' ht' heq => (hall t' ht').2 (heq ▸ ht)⟩, ?_⟩
      rintro t (ht | ht)
      · exact hseen t ht
      · exact (hall t ht).1

theorem get?_insertAll_sorted (m rows : RuleSets) (k : Str) :
    (m.insertAll rows.sorted).get? k = (rows.get? k).or (m.get? k) := by
  have hperm : rows.sorted.Perm rows.entries := List.perm_insertionSort _ _
  have hnodup : (rows.sorted.map Prod.fst).Nodup := (hperm.map Prod.fst).nodup_iff.2 rows.nodup
  cases hrow : rows.get? k with
  | some spec =>
    exact AssocMap.get?_insertAll_of_mem _ _ hnodup (hperm.mem_iff.2 (AssocMap.get?_eq_some.1 hrow))
  | none =>
    refine AssocMap.get?_insertAll_of_notMem _ _ fun hmem => ?_
    exact AssocMap.get?_eq_none.1 hrow ((hperm.map Prod.fst).mem_iff.1 hmem)

theorem ownSets_keys {sets : RuleSets} {native : List (Str × RuleSetSpec)} (h : ownSets checks sets = .ok native) :
    native.map Prod.fst = sets.sorted.map Prod.fst := by
  have hrel : List.Forall₂ (fun e e' => e.1 = e'.1) sets.sorted native := (mapM_eq_ok.1 h).imp fun e e' he => by
    rw [ownSet] at he
    split_ifs at he
    · cases he
    · obtain ⟨spec, -, rfl⟩ := map_eq_ok.1 he
      rfl
  have hkeys : List.Forall₂ (· = ·) (sets.sorted.map Prod.fst) (native.map Prod.fst) :=
    List.forall₂_map_left_iff.2 (List.forall₂_map_right_iff.2 hrel)
  rw [List.forall₂_eq_eq_eq] at hkeys
  exact hkeys.symm

theorem ownProviders_keys {es : List (Str × MihomoRuleProviderSpec)} {paths : AssocMap Str Str}
    {defs : List (Str × RuleSetSpec)} (h : ownProviders checks paths es = .ok defs) :
    defs.map Prod.fst = es.map Prod.fst := by
  induction es generalizing paths defs with
  | nil =>
    obtain rfl := Except.ok.inj h
    rfl
  | cons e es ih =>
    rw [ownProviders] at h
    split_ifs at h
    · cases h
    · obtain ⟨paths', -, h⟩ := bind_eq_ok.1 h
      obtain ⟨spec, -, h⟩ := bind_eq_ok.1 h
      obtain ⟨rest, hrest, h⟩ := bind_eq_ok.1 h
      obtain rfl := Except.ok.inj h
      rw [List.map_cons, List.map_cons, ih hrest]

theorem ownSingbox_keys {specs : List (SingboxRuleSetSpec Yaml)} {index : Nat} {defs : List (Str × RuleSetSpec)}
    (h : ownSingbox checks index specs = .ok defs) :
    defs.map Prod.fst = specs.flatMap (fun raw => raw.tag.list) ∧ ∀ raw ∈ specs, raw.tag.list.Nodup := by
  induction specs generalizing index defs with
  | nil =>
    obtain rfl := Except.ok.inj h
    simp
  | cons raw specs ih =>
    obtain ⟨first, hfirst, h⟩ := bind_eq_ok.1 h
    obtain ⟨rest, hrest, rfl⟩ := map_eq_ok.1 h
    obtain ⟨hkeys, hnodup⟩ := ownEntry_keys checks hfirst
    obtain ⟨hkeys', hnodup'⟩ := ih hrest
    rw [List.map_append, hkeys, hkeys', List.flatMap_cons]
    exact ⟨rfl, List.forall_mem_cons.2 ⟨hnodup, hnodup'⟩⟩

theorem insertUnique_sorted_ok_iff {source : String} {m rows r : RuleSets} :
    insertUnique source m rows.sorted = .ok r ↔
      (∀ k, rows.get? k ≠ none → m.get? k = none) ∧ r = m.insertAll rows.sorted := by
  have hperm : rows.sorted.Perm rows.entries := List.perm_insertionSort _ _
  have hnodup : (rows.sorted.map Prod.fst).Nodup := (hperm.map Prod.fst).nodup_iff.2 rows.nodup
  rw [insertUnique_ok_iff, and_iff_right hnodup]
  refine and_congr_left fun _ => ⟨fun h k hk => ?_, fun h e he => h e.1 ?_⟩
  · obtain ⟨spec, hspec⟩ := Option.ne_none_iff_exists'.1 hk
    exact h (k, spec) (hperm.mem_iff.2 (AssocMap.get?_eq_some.1 hspec))
  · rw [AssocMap.get?_eq_some.2 (show (e.1, e.2) ∈ rows.entries from hperm.mem_iff.1 he)]
    exact Option.some_ne_none _

theorem get?_insertAll_keys {ν : Type} {m : AssocMap Str ν} {defs : List (Str × RuleSetSpec)}
    (h : defs.map Prod.fst = m.sorted.map Prod.fst) (k : Str) :
    (AssocMap.empty.insertAll defs).get? k = none ↔ m.get? k = none := by
  have hperm : m.sorted.Perm m.entries := List.perm_insertionSort _ _
  rw [get?_insertAll_eq_none, h, (hperm.map Prod.fst).mem_iff, ← AssocMap.get?_eq_none (m := m)]
  exact and_iff_right (AssocMap.get?_empty k)

/-- What the merge comes to. -/
def mergedOf (native entries providers : List (Str × RuleSetSpec)) : RuleSets :=
  ((AssocMap.empty.insertAll native).insertAll (AssocMap.empty.insertAll entries).sorted).insertAll
    (AssocMap.empty.insertAll providers).sorted

/-- The merge succeeds exactly if the inputs are accepted but for the tags of inline entries. -/
theorem merge_ok_iff {sets : RuleSets} {singbox : List (SingboxRuleSetSpec Yaml)}
    {mihomo : AssocMap Str MihomoRuleProviderSpec} {native entries providers : List (Str × RuleSetSpec)}
    (hnative : ownSets checks sets = .ok native) (hentries : ownSingbox checks 0 singbox = .ok entries)
    (hproviders : ownProviders checks .empty mihomo.sorted = .ok providers) {r : RuleSets} :
    mergeCompatibleRuleSets checks sets singbox mihomo = .ok r ↔
      AcceptedOtherwise checks sets singbox mihomo ∧ r = mergedOf native entries providers := by
  have hsets := get?_insertAll_keys (ownSets_keys checks hnative)
  have hmihomo := get?_insertAll_keys (ownProviders_keys checks hproviders)
  have htags (k : Str) : (AssocMap.empty.insertAll entries).get? k = none ↔ ∀ raw ∈ singbox, k ∉ raw.tag.list := by
    rw [get?_insertAll_eq_none, (ownSingbox_keys checks hentries).1, and_iff_right (AssocMap.get?_empty k)]
    simp
  have hsingbox (s : RuleSets) : normalizeSingboxRuleSets checks singbox = .ok s ↔
      Fresh (fun raw => ¬IsInline raw) [] singbox ∧ s = AssocMap.empty.insertAll entries := by
    rw [normalizeSingboxRuleSets, addEntries_ok_iff checks [] (fun t => by simp), hentries]
    simp
  have hchain : mergeCompatibleRuleSets checks sets singbox mihomo = .ok r ↔
      ∃ s, normalizeSingboxRuleSets checks singbox = .ok s ∧
        ∃ m, insertUnique "route.rule_set" (AssocMap.empty.insertAll native) s.sorted = .ok m ∧
          insertUnique "rule-providers" m (AssocMap.empty.insertAll providers).sorted = .ok r := by
    have hlast : normalizeMihomoRuleProviders checks mihomo = .ok (AssocMap.empty.insertAll providers) := by
      rw [normalizeMihomoRuleProviders, hproviders]
      rfl
    rw [mergeCompatibleRuleSets, hnative, hlast]
    change (normalizeSingboxRuleSets checks singbox).bind _ = _ ↔ _
    exact bind_eq_ok.trans (exists_congr fun s => and_congr_right fun _ => bind_eq_ok)
  simp only [hchain, hsingbox, insertUnique_sorted_ok_iff, and_assoc, exists_and_left, exists_eq_left,
    get?_insertAll_sorted, Option.or_eq_none_iff, hsets, hmihomo, htags, ne_eq, AcceptedOtherwise, hnative, hentries,
    hproviders]
  constructor
  · rintro ⟨hfresh, hdisjoint, hlast, rfl⟩
    refine ⟨⟨_, rfl⟩, ⟨_, rfl⟩, ⟨_, rfl⟩, hfresh, fun raw hraw tag htag => ?_, fun k hk => (hlast k hk).symm, rfl⟩
    exact hdisjoint tag fun hall => hall raw hraw htag
  · rintro ⟨-, -, -, hfresh, hdisjoint, hlast, rfl⟩
    refine ⟨hfresh, fun k hk => ?_, fun k hk => (hlast k hk).symm, rfl⟩
    simp only [not_forall, not_not] at hk
    obtain ⟨raw, hraw, htag⟩ := hk
    exact hdisjoint raw hraw k htag

theorem nodup_names {sets : RuleSets} {singbox : List (SingboxRuleSetSpec Yaml)}
    {mihomo : AssocMap Str MihomoRuleProviderSpec} (h : AcceptedOtherwise checks sets singbox mihomo)
    (htags : (singbox.flatMap fun raw => raw.tag.list).Nodup) : (names sets singbox mihomo).Nodup := by
  obtain ⟨-, -, -, -, hsets, hmihomo⟩ := h
  rw [names, List.nodup_append, List.nodup_append]
  refine ⟨⟨sets.nodup, htags, ?_⟩, mihomo.nodup, ?_⟩
  · rintro k hk k' hk' rfl
    obtain ⟨raw, hraw, htag⟩ := List.mem_flatMap.1 hk'
    exact AssocMap.get?_eq_none.1 (hsets raw hraw k htag) hk
  · rintro k hk k' hk' rfl
    have hnot := hmihomo k fun hnone => AssocMap.get?_eq_none.1 hnone hk'
    rcases List.mem_append.1 hk with hk | hk
    · exact AssocMap.get?_eq_none.1 hnot.1 hk
    · obtain ⟨raw, hraw, htag⟩ := List.mem_flatMap.1 hk
      exact hnot.2 raw hraw htag

theorem get?_mergedOf {native entries providers : List (Str × RuleSetSpec)}
    (h : ((native ++ entries ++ providers).map Prod.fst).Nodup) {e : Str × RuleSetSpec}
    (he : e ∈ native ++ entries ++ providers) : (mergedOf native entries providers).get? e.1 = some e.2 := by
  rw [List.map_append, List.map_append, List.nodup_append, List.nodup_append] at h
  obtain ⟨⟨hnative, hentries, hdisjoint⟩, hproviders, hlast⟩ := h
  have hnone {defs : List (Str × RuleSetSpec)} (hnot : e.1 ∉ defs.map Prod.fst) :
      (AssocMap.empty.insertAll defs).get? e.1 = none :=
    get?_insertAll_eq_none.2 ⟨AssocMap.get?_empty _, hnot⟩
  have hsome {defs : List (Str × RuleSetSpec)} (hnodup : (defs.map Prod.fst).Nodup) (hmem : e ∈ defs) :
      (AssocMap.empty.insertAll defs).get? e.1 = some e.2 := AssocMap.get?_insertAll_of_mem _ _ hnodup hmem
  rw [mergedOf, get?_insertAll_sorted, get?_insertAll_sorted]
  rcases List.mem_append.1 he with he | he
  · have hkey : e.1 ∉ providers.map Prod.fst := fun hmem => by
      refine hlast e.1 ?_ e.1 hmem rfl
      rw [← List.map_append]
      exact List.mem_map_of_mem he
    rw [hnone hkey, Option.none_or]
    rcases List.mem_append.1 he with he | he
    · rw [hnone fun hmem => hdisjoint e.1 (List.mem_map_of_mem he) e.1 hmem rfl, Option.none_or, hsome hnative he]
    · rw [hsome hentries he, Option.some_or]
  · rw [hsome hproviders he, Option.some_or]

/-- The merge is what it should be exactly if no inline entry repeats a tag, or something else is refused. -/
theorem merge_exact_iff (sets : RuleSets) (singbox : List (SingboxRuleSetSpec Yaml))
    (mihomo : AssocMap Str MihomoRuleProviderSpec) :
    MergesExactly checks sets singbox mihomo ↔
      (AcceptedOtherwise checks sets singbox mihomo → Fresh IsInline [] singbox) := by
  constructor
  · intro h haccepted
    have hparts := haccepted
    obtain ⟨⟨native, hnative⟩, ⟨entries, hentries⟩, ⟨providers, hproviders⟩, -⟩ := hparts
    have hmerge := (merge_ok_iff checks hnative hentries hproviders).2 ⟨haccepted, rfl⟩
    have hnodup := (h _ hmerge).1
    rw [names, List.nodup_append, List.nodup_append] at hnodup
    exact ((nodup_iff_fresh [] (ownSingbox_keys checks hentries).2).1 ⟨hnodup.1.2.1, by simp⟩).1
  · intro h merged hmerge
    obtain ⟨native, hnative, hrest⟩ := bind_eq_ok.1 hmerge
    obtain ⟨s, hsingbox, hrest⟩ := bind_eq_ok.1 hrest
    obtain ⟨m, -, hrest⟩ := bind_eq_ok.1 hrest
    obtain ⟨m', hmihomo, -⟩ := bind_eq_ok.1 hrest
    obtain ⟨entries, hentries, hfresh, -⟩ := (addEntries_ok_iff checks [] (fun t => by simp)).1 hsingbox
    obtain ⟨providers, hproviders, -⟩ := map_eq_ok.1 hmihomo
    obtain ⟨haccepted, rfl⟩ := (merge_ok_iff checks hnative hentries hproviders).1 hmerge
    have htags := (nodup_iff_fresh [] (ownSingbox_keys checks hentries).2).2 ⟨h haccepted, hfresh⟩
    have hnames := nodup_names checks haccepted htags.1
    refine ⟨hnames, native, entries, providers, hnative, hentries, hproviders, fun e he => get?_mergedOf ?_ he⟩
    have hperm : ((native ++ entries ++ providers).map Prod.fst).Perm (names sets singbox mihomo) := by
      rw [List.map_append, List.map_append, ownSets_keys checks hnative, (ownSingbox_keys checks hentries).1,
        ownProviders_keys checks hproviders]
      exact (((List.perm_insertionSort _ _).map _).append_right _).append ((List.perm_insertionSort _ _).map _)
    exact hperm.nodup_iff.2 hnames

end

/-! ### A definition that is lost -/

/-- The checks, as they are for the entries below. -/
def exampleChecks : FieldChecks Unit where
  canonical spec _ := .ok spec
  fileFormat _ _ _ := .ok "json".toList
  httpClient _ _ _ := .ok "direct".toList
  httpUrl _ _ := .ok ()
  inlineBody _ _ := .ok "\x7b\"rules\":[],\"version\":5\x7d".toList
  provider _ location := ruleError location [] ""

/-- A local entry and an inline one, with the same tag. -/
def exampleEntries : List (SingboxRuleSetSpec Unit) :=
  [{ kind := some "local".toList, tag := .one "ads".toList, path := some "ads.json".toList },
    { tag := .one "ads".toList, rules := some [] }]

/-- The inline entry takes the place of the local one. -/
theorem merge_loses_definition :
    (∃ merged, mergeCompatibleRuleSets exampleChecks .empty exampleEntries .empty = .ok merged) ∧
      ¬MergesExactly exampleChecks .empty exampleEntries .empty := by
  have hmerge : ∃ merged, mergeCompatibleRuleSets exampleChecks .empty exampleEntries .empty = .ok merged :=
    ⟨_, rfl⟩
  refine ⟨hmerge, fun h => ?_⟩
  obtain ⟨merged, hmerged⟩ := hmerge
  exact absurd (h merged hmerged).1 (by decide)

end WutherCore.Config
