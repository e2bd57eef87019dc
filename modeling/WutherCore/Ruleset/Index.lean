import Mathlib.Logic.Function.Basic
import WutherCore.Ruleset.Matcher

/-!
# The ruleset index

`RulesetIndex` holds the live matchers by name, the names that are declared but not loaded, a
revision and the value of the watch channel.  `step` is one of its operations; the update lock is
held through an operation, so a run is a sequence of steps.

Consumers of a prefix snapshot reinstall routes only when the revision changes.  That is sound
because a step that keeps the revision keeps every name's view (`step_view`), and so does a run
(`run_view`).
-/

namespace WutherCore.Ruleset

open WutherCore.Text WutherCore.Net

/-- `RulesetAvailability`: why a name has no matcher. -/
inductive RulesetAvailability
  | pending
  | unavailable
  deriving DecidableEq, Repr

/-- `RulesetIndexState`. A hash map is the function of its lookups. -/
structure RulesetIndexState where
  revision : Nat := 0
  matchers : Str → Option SetMatcher := fun _ => none
  availability : Str → Option RulesetAvailability := fun _ => none

/-- `RulesetIndex`: the state and the value on the watch channel. -/
structure RulesetIndex where
  state : RulesetIndexState := {}
  prefixRevisions : Nat := 0

/-! ### Snapshots -/

/-- `RulesetIpPrefixStatus`. -/
inductive RulesetIpPrefixStatus
  | ready (semantics : RulesetIpPrefixSemantics)
  | pending
  | unavailable
  | missing
  | tooManyPrefixes (limit : Nat)
  | allocationFailed
  | invalidRange (family : String)
  deriving DecidableEq

/-- `RulesetIpPrefixSet`. -/
structure RulesetIpPrefixSet where
  name : Str
  status : RulesetIpPrefixStatus
  prefixes : IpPrefixes

/-- `RulesetIpPrefixSnapshot`. -/
structure RulesetIpPrefixSnapshot where
  revision : Nat
  sets : List RulesetIpPrefixSet

/-- What the index knows about the prefixes of a name. -/
inductive PrefixView
  | loaded (prefixes : Except RulesetPrefixError (RulesetIpPrefixSemantics × IpPrefixes))
  | absent (availability : Option RulesetAvailability)

/-- The view of a name in a state. -/
def RulesetIndexState.view (state : RulesetIndexState) (name : Str) : PrefixView :=
  match state.matchers name with
  | some m => .loaded m.destinationIpPrefixes
  | none => .absent (state.availability name)

/-- The status and the prefixes that a view is published as. -/
def PrefixView.publish : PrefixView → RulesetIpPrefixStatus × IpPrefixes
  | loaded (.ok (semantics, prefixes)) => (.ready semantics, prefixes)
  | loaded (.error (.tooManyPrefixes limit)) => (.tooManyPrefixes limit, {})
  | loaded (.error .allocationFailed) => (.allocationFailed, {})
  | loaded (.error (.invalidRange family)) => (.invalidRange family, {})
  | absent (some .pending) => (.pending, {})
  | absent (some .unavailable) => (.unavailable, {})
  | absent none => (.missing, {})

/-- `build_ip_prefix_snapshot`: the requested names, each once, in order. -/
def buildIpPrefixSnapshot (state : RulesetIndexState) (names : List Str) :
    RulesetIpPrefixSnapshot where
  revision := state.revision
  sets := names.eraseDups.map fun name =>
    ⟨name, (state.view name).publish.1, (state.view name).publish.2⟩

/-! ### Operations -/

/-- `bump_prefix_revision`: none where the counter of 64 bits is exhausted and the operation
panics. -/
def bumpPrefixRevision (state : RulesetIndexState) : Option RulesetIndexState :=
  if state.revision + 1 < 2 ^ 64 then some { state with revision := state.revision + 1 } else none

/-- `publish_prefix_revision`: the channel only moves forward. -/
def publishPrefixRevision (revision published : Nat) : Nat :=
  if revision > published then revision else published

/-- Stores a state under a new revision and publishes it; a panic leaves the index as it was. -/
def RulesetIndex.commit (index : RulesetIndex) (state : RulesetIndexState) : RulesetIndex :=
  match bumpPrefixRevision state with
  | none => index
  | some state => ⟨state, publishPrefixRevision state.revision index.prefixRevisions⟩

/-- The loop of `declare`, with whether a name was added. -/
def declareNames : List Str → RulesetIndexState → Bool → RulesetIndexState × Bool
  | [], state, changed => (state, changed)
  | name :: names, state, changed =>
      if (state.matchers name).isNone && (state.availability name).isNone then
        declareNames names
          { state with availability := Function.update state.availability name (some .pending) } true
      else declareNames names state changed

/-- An operation on the index. -/
inductive IndexOp
  | declare (names : List Str)
  | markUnavailable (name : Str)
  | insert (m : SetMatcher)

/-- `RulesetIndex::insert`. -/
def RulesetIndex.insert (index : RulesetIndex) (m : SetMatcher) : RulesetIndex :=
  let state := index.state
  let prefixChanged := (match state.matchers m.name with
    | some previous => !previous.hasSameDestinationPrefixes m
    | none => true) || (state.availability m.name).isSome
  let state := { state with
    matchers := Function.update state.matchers m.name (some m)
    availability := Function.update state.availability m.name none }
  if prefixChanged then index.commit state else { index with state }

/-- One operation. -/
def RulesetIndex.step (index : RulesetIndex) : IndexOp → RulesetIndex
  | .declare names =>
      let (state, changed) := declareNames names index.state false
      if changed then index.commit state else index
  | .markUnavailable name =>
      let state := index.state
      if (state.matchers name).isSome || state.availability name == some .unavailable then index
      else index.commit
        { state with availability := Function.update state.availability name (some .unavailable) }
  | .insert m => index.insert m

/-- A run of operations. -/
def RulesetIndex.run (index : RulesetIndex) (ops : List IndexOp) : RulesetIndex :=
  ops.foldl step index

/-! ### The invariant -/

/-- The channel shows the revision, and a name with a matcher is not marked as absent. -/
structure RulesetIndex.Inv (index : RulesetIndex) : Prop where
  published : index.prefixRevisions = index.state.revision
  disjoint : ∀ name, (index.state.matchers name).isSome → index.state.availability name = none

/-- What one operation may do: nothing, or store a state under the next revision, or replace a
matcher by one with the same prefixes. -/
inductive RulesetIndex.Effect (index : RulesetIndex) : RulesetIndex → Prop
  | keep : Effect index index
  | bump (state : RulesetIndexState) (matchers : ∀ name, (index.state.matchers name).isSome →
      (state.matchers name).isSome)
      (disjoint : ∀ name, (state.matchers name).isSome → state.availability name = none)
      (revision : state.revision = index.state.revision + 1) :
      Effect index ⟨state, publishPrefixRevision state.revision index.prefixRevisions⟩
  | replace (m previous : SetMatcher) (current : index.state.matchers m.name = some previous)
      (same : previous.hasSameDestinationPrefixes m = true) :
      Effect index { index with state := { index.state with
        matchers := Function.update index.state.matchers m.name (some m)
        availability := Function.update index.state.availability m.name none } }

theorem RulesetIndex.commit_effect (index : RulesetIndex) (state : RulesetIndexState)
    (matchers : ∀ name, (index.state.matchers name).isSome → (state.matchers name).isSome)
    (disjoint : ∀ name, (state.matchers name).isSome → state.availability name = none)
    (revision : state.revision = index.state.revision) : index.Effect (index.commit state) := by
  unfold commit bumpPrefixRevision
  split_ifs with h
  · exact .bump _ matchers disjoint (by simp [revision])
  · exact .keep

theorem declareNames_spec (names : List Str) (state : RulesetIndexState) (changed : Bool) :
    (declareNames names state changed).1.matchers = state.matchers ∧
      (declareNames names state changed).1.revision = state.revision ∧
      ((∀ name, (state.matchers name).isSome → state.availability name = none) →
        ∀ name, (state.matchers name).isSome →
          (declareNames names state changed).1.availability name = none) := by
  induction names generalizing state changed with
  | nil => exact ⟨rfl, rfl, fun h => h⟩
  | cons n names ih =>
    rw [declareNames]
    split_ifs with hn
    · obtain ⟨hm, hr, hd⟩ := ih
        { state with availability := Function.update state.availability n (some .pending) } true
      refine ⟨hm, hr, fun h => hd fun name hname => ?_⟩
      have hne : name ≠ n := by
        rintro rfl
        simp_all
      simpa [hne] using h name hname
    · exact ih state changed

/-- Every operation has one of the three effects. -/
theorem RulesetIndex.step_effect {index : RulesetIndex} (h : index.Inv) (op : IndexOp) :
    index.Effect (index.step op) := by
  cases op with
  | declare names =>
    obtain ⟨hm, hr, hd⟩ := declareNames_spec names index.state false
    simp only [step]
    split_ifs
    · refine index.commit_effect _ (fun name hname => ?_) (fun name hname => ?_) hr
      · rwa [hm]
      · rw [hm] at hname
        exact hd h.disjoint name hname
    · exact .keep
  | markUnavailable name =>
    simp only [step]
    split_ifs with hc
    · exact .keep
    · refine index.commit_effect _ (fun _ hn => hn) (fun n hn => ?_) rfl
      have hne : n ≠ name := by
        rintro rfl
        simp_all
      simpa [hne] using h.disjoint n hn
  | insert m =>
    simp only [step, insert]
    split_ifs with hc
    · refine index.commit_effect _ (fun n hn => ?_) (fun n hn => ?_) rfl
      · by_cases hne : n = m.name <;> simp_all
      · by_cases hne : n = m.name
        · simp [hne]
        · have := h.disjoint n (by simpa [hne] using hn)
          simpa [hne] using this
    · rw [Bool.not_eq_true, Bool.or_eq_false_iff] at hc
      cases hprev : index.state.matchers m.name with
      | none => simp [hprev] at hc
      | some previous => exact .replace m previous hprev (by simpa [hprev] using hc.1)

namespace RulesetIndex

variable {index index' : RulesetIndex}

/-! ### One step -/

theorem Effect.inv (e : index.Effect index') (h : index.Inv) : index'.Inv := by
  cases e with
  | keep => exact h
  | bump state _ disjoint revision =>
    refine ⟨?_, disjoint⟩
    rw [publishPrefixRevision, revision, h.published, if_pos (Nat.lt_succ_self _)]
  | replace m previous current same =>
    refine ⟨h.published, fun name hname => ?_⟩
    by_cases hne : name = m.name
    · simp [hne]
    · have := h.disjoint name (by simpa [hne] using hname)
      simpa [hne] using this

theorem Effect.revision_le (e : index.Effect index') :
    index.state.revision ≤ index'.state.revision := by
  cases e with
  | keep => exact Nat.le_refl _
  | bump state _ _ revision => exact revision ▸ Nat.le_succ _
  | replace => exact Nat.le_refl _

theorem Effect.live (e : index.Effect index') {name : Str}
    (h : (index.state.matchers name).isSome) : (index'.state.matchers name).isSome := by
  cases e with
  | keep => exact h
  | bump state matchers _ _ => exact matchers name h
  | replace m previous current same => by_cases hne : name = m.name <;> simp_all

theorem destinationIpPrefixes_eq {m m' : SetMatcher}
    (h : m.hasSameDestinationPrefixes m' = true) :
    m.destinationIpPrefixes = m'.destinationIpPrefixes := by
  simp only [RulesetMatcher.hasSameDestinationPrefixes, Bool.and_eq_true, beq_iff_eq] at h
  obtain ⟨⟨h1, h2⟩, h3⟩ := h
  rw [RulesetMatcher.destinationIpPrefixes, RulesetMatcher.destinationIpPrefixes, h1, h2, h3]

theorem Effect.view (e : index.Effect index')
    (h : index'.state.revision = index.state.revision) (name : Str) :
    index'.state.view name = index.state.view name := by
  cases e with
  | keep => rfl
  | bump state _ _ revision =>
    have : state.revision = index.state.revision := h
    omega
  | replace m previous current same =>
    by_cases hne : name = m.name
    · simp [RulesetIndexState.view, hne, current, destinationIpPrefixes_eq same]
    · simp [RulesetIndexState.view, hne]

/-! ### Runs -/

theorem run_inv (h : index.Inv) (ops : List IndexOp) : (index.run ops).Inv := by
  induction ops generalizing index with
  | nil => exact h
  | cons op ops ih => exact ih ((step_effect h op).inv h)

theorem run_revision_le (h : index.Inv) (ops : List IndexOp) :
    index.state.revision ≤ (index.run ops).state.revision := by
  induction ops generalizing index with
  | nil => exact Nat.le_refl _
  | cons op ops ih =>
    have e := step_effect h op
    exact e.revision_le.trans (ih (e.inv h))

theorem run_live (h : index.Inv) (ops : List IndexOp) {name : Str}
    (hlive : (index.state.matchers name).isSome) :
    ((index.run ops).state.matchers name).isSome := by
  induction ops generalizing index with
  | nil => exact hlive
  | cons op ops ih =>
    have e := step_effect h op
    exact ih (e.inv h) (e.live hlive)

theorem run_view (h : index.Inv) (ops : List IndexOp)
    (hrev : (index.run ops).state.revision = index.state.revision) (name : Str) :
    (index.run ops).state.view name = index.state.view name := by
  induction ops generalizing index with
  | nil => rfl
  | cons op ops ih =>
    have e := step_effect h op
    have hle := e.revision_le
    have hle' := run_revision_le (e.inv h) ops
    -- the revision never falls, so no step on the way changed it
    have hstep : (index.step op).state.revision = index.state.revision := by
      have : ((index.step op).run ops).state.revision = index.state.revision := hrev
      omega
    have htail := ih (e.inv h) (by
      have : ((index.step op).run ops).state.revision = index.state.revision := hrev
      omega)
    exact htail.trans (e.view hstep name)

theorem snapshot_eq {a b : RulesetIndexState} (hrev : a.revision = b.revision)
    (hview : ∀ name, a.view name = b.view name) (names : List Str) :
    buildIpPrefixSnapshot a names = buildIpPrefixSnapshot b names := by
  simp only [buildIpPrefixSnapshot, hrev, hview]

theorem markUnavailable_matchers (name : Str) :
    (index.step (.markUnavailable name)).state.matchers = index.state.matchers := by
  simp only [step]
  split_ifs
  · rfl
  · unfold commit bumpPrefixRevision
    split_ifs <;> rfl

theorem inv_new : ({} : RulesetIndex).Inv := ⟨rfl, fun _ h => by simp at h⟩

/-- **Publication.** Along any run from a new index: the revision never falls; two snapshots at one
revision are equal; no name is live and marked unavailable, and a live name stays live;
`mark_unavailable` discards no matcher; the channel shows the revision. -/
theorem publication (ops more : List IndexOp) :
    let before := ({} : RulesetIndex).run ops
    let after := before.run more
    before.state.revision ≤ after.state.revision ∧
    (before.state.revision = after.state.revision → ∀ names,
      buildIpPrefixSnapshot before.state names = buildIpPrefixSnapshot after.state names) ∧
    (∀ name, ¬((before.state.matchers name).isSome ∧
      before.state.availability name = some .unavailable)) ∧
    (∀ name, (before.state.matchers name).isSome → (after.state.matchers name).isSome) ∧
    (∀ name, (before.step (.markUnavailable name)).state.matchers = before.state.matchers) ∧
    before.prefixRevisions = before.state.revision := by
  intro before after
  have hinv : before.Inv := run_inv inv_new ops
  refine ⟨run_revision_le hinv more, fun hrev names => ?_, fun name hboth => ?_,
    fun name hlive => run_live hinv more hlive, fun name => markUnavailable_matchers name,
    hinv.published⟩
  · exact snapshot_eq hrev (fun name => (run_view hinv more hrev.symm name).symm) names
  · simp [hinv.disjoint name hboth.1] at hboth

end RulesetIndex

end WutherCore.Ruleset
