import Mathlib
import WutherCore.Engine.State

/-!
# Pins and the store

The three calls that move a pin, each under the lock of the pins: `setGroupPin`, `clearGroupPin` and
`completeGroupManualProbe`.  Memory and store are changed by two writes, and the store may refuse
its own; the calls undo the first write then.

* `Runtime.call_cases`: a call is refused, is undone, or moves the pin in memory and in the store.
* **`pins_inSync`**: along every sequence of calls, what the pin of a group and its row agree on they
  go on agreeing on, and a call that fails leaves pins and picks as they are.
* `build_inSync`: a runtime starts with the pins of its store.
-/

namespace WutherCore.Engine

open WutherCore.Text WutherCore.Data

variable {κ ω : Type}

namespace Runtime

/-! ### The calls -/

section Calls

variable (r : Runtime κ ω)

/-- The selector of a group, changed in its place. -/
def withGroup (group : Str) (s : GroupSelector) : Runtime κ ω :=
  { r with groups := r.groups.modify group fun _ => s }

/-- The next revision of the nodes. -/
def bumpRevision : Runtime κ ω := { r with nodeRevision := r.nodeRevision + 1 }

/-- A batch of writes to the store; `none` is an error. -/
def commit (commits : Bool) (ops : List BatchOp) : Option (Runtime κ ω) :=
  (commitBatch r.store commits ops).map fun store => { r with store }

/-- `clear_group_pin`. -/
def clearGroupPin (group : Str) (commits : Bool) : Bool × Runtime κ ω :=
  match r.groups.get? group with
  | none => (false, r)
  | some selector =>
    match r.commit commits [.delete .groupPin group, .delete .groupManual group] with
    | none => (false, r)
    | some r =>
      let cleared := selector.clearPin
      let r := r.withGroup group cleared.2
      (true, if cleared.1.isSome then r.bumpRevision else r)

/-- `set_group_pin`. -/
def setGroupPin (group node : Str) (source : PinSource) (nowMs : UInt64) (commits : Bool) :
    Bool × Runtime κ ω :=
  if node = [] then r.clearGroupPin group commits
  else match r.groups.get? group with
    | none => (false, r)
    | some selector =>
      if node ∉ selector.members then (false, r)
      else
        let previousPin := selector.currentPin
        let previousPick := selector.lastPick
        let pinned := selector.setPin node source nowMs
        let r := r.withGroup group pinned.2
        match r.commit commits [.putGroupPin group (pinned.1.blob selector.plan.choose),
            .delete .groupManual group] with
        | none =>
          (false, r.withGroup group
            (pinned.2.restorePinAfterFailedCommit previousPin previousPick))
        | some r => (true, r.bumpRevision)

/-- `complete_group_manual_probe`. -/
def completeGroupManualProbe (group : Str) (token : ManualProbeToken) (anySuccess commits : Bool) :
    Bool × Runtime κ ω :=
  match r.groups.get? group with
  | none => (false, r)
  | some selector =>
    let previousPin := selector.currentPin
    let previousPick := selector.lastPick
    let probed := selector.completeManualProbe token anySuccess
    if !probed.1 then (false, r)
    else
      let r := r.withGroup group probed.2
      match r.commit commits [.delete .groupPin group, .delete .groupManual group] with
      | none =>
        (false, r.withGroup group
          (probed.2.restorePinAfterFailedCommit previousPin previousPick))
      | some r => (true, r.bumpRevision)

end Calls

end Runtime

/-- A call that may move the pin of a group.  `commits` says whether the store takes the writes. -/
inductive PinCall
  | set (group node : Str) (source : PinSource) (nowMs : UInt64) (commits : Bool)
  | clear (group : Str) (commits : Bool)
  | completeProbe (group : Str) (token : ManualProbeToken) (anySuccess commits : Bool)

/-- The group of a call. -/
def PinCall.group : PinCall → Str
  | .set group .. => group
  | .clear group _ => group
  | .completeProbe group .. => group

namespace Runtime

/-- A call, with its answer. -/
def call (r : Runtime κ ω) : PinCall → Bool × Runtime κ ω
  | .set group node source nowMs commits => r.setGroupPin group node source nowMs commits
  | .clear group commits => r.clearGroupPin group commits
  | .completeProbe group token anySuccess commits =>
    r.completeGroupManualProbe group token anySuccess commits

/-- Calls one after the other. -/
def run (r : Runtime κ ω) (calls : List PinCall) : Runtime κ ω :=
  calls.foldl (fun r c => (r.call c).2) r

end Runtime

/-! ### What a call can do -/

/-- The row of the pin of a group. -/
def GroupSelector.pinBlob (s : GroupSelector) : Option GroupPinBlob :=
  s.pin.map (GroupPin.blob s.plan.choose)

/-- The store with the given row for a group, and no old one. -/
def Store.record (s : Store) (group : Str) : Option GroupPinBlob → Store
  | some blob =>
    { groupPin := s.groupPin.insert group blob, groupManual := s.groupManual.erase group }
  | none => { groupPin := s.groupPin.erase group, groupManual := s.groupManual.erase group }

/-- The calls that draw a generation. -/
def PinCall.IsSet : PinCall → Prop
  | .set .. => True
  | _ => False

/-- What a call that succeeds does to the selector of its group. -/
def PinCall.Moves : PinCall → GroupSelector → GroupSelector → Prop
  | .set _ node source nowMs _, s, s' =>
    node = [] ∧ s' = { s with pin := none } ∨
      node ≠ [] ∧ node ∈ s.members ∧ s' = (s.setPin node source nowMs).2
  | .clear .., s, s' => s' = { s with pin := none }
  | .completeProbe _ token _ _, s, s' =>
    s' = { s with pin := none } ∧ token.releaseAfterSuccess = true ∧
      ∃ pin, s.pin = some pin ∧ token.generation = some pin.generation

/-- The selector of a group is exchanged, in memory and in the store. -/
structure Runtime.Recorded (r : Runtime κ ω) (group : Str) (s' : GroupSelector)
    (r' : Runtime κ ω) : Prop where
  plan : r'.plan = r.plan
  nodes : r'.nodes = r.nodes
  groups : r'.groups = r.groups.modify group fun _ => s'
  store : r'.store = r.store.map fun store => store.record group s'.pinBlob

namespace Runtime

variable {r : Runtime κ ω} {group : Str}

theorem withGroup_withGroup (s s' : GroupSelector) :
    (r.withGroup group s).withGroup group s' = r.withGroup group s' := by
  rw [withGroup, withGroup, withGroup, AssocMap.modify_modify]
  rfl

theorem withGroup_self {s : GroupSelector} (h : r.groups.get? group = some s) :
    r.withGroup group s = r := by
  rw [withGroup, AssocMap.modify_eq_self h]

theorem commit_cases (r : Runtime κ ω) (commits : Bool) (ops : List BatchOp) :
    r.commit commits ops = none ∨
      r.commit commits ops = some { r with store := r.store.map fun s => ops.foldl Store.apply s } := by
  rcases commitBatch_cases r.store commits ops with h | h
  · exact .inl (by rw [commit, h, Option.map_none])
  · exact .inr (by rw [commit, h, Option.map_some])

theorem clearGroupPin_cases (r : Runtime κ ω) (group : Str) (commits : Bool) :
    r.clearGroupPin group commits = (false, r) ∨
      ∃ s, r.groups.get? group = some s ∧ (r.clearGroupPin group commits).1 = true ∧
        r.Recorded group { s with pin := none } (r.clearGroupPin group commits).2 := by
  unfold clearGroupPin
  cases hs : r.groups.get? group with
  | none => exact .inl rfl
  | some s =>
    rcases commit_cases r commits [.delete .groupPin group, .delete .groupManual group] with
      hc | hc
    · rw [hc]
      exact .inl rfl
    · rw [hc]
      refine .inr ⟨s, rfl, rfl, ?_⟩
      -- only the revision depends on whether there was a pin
      dsimp only
      split_ifs <;> exact ⟨rfl, rfl, rfl, rfl⟩

theorem setGroupPin_cases (r : Runtime κ ω) (group : Str) {node : Str} (source : PinSource)
    (nowMs : UInt64) (commits : Bool) (hnode : node ≠ []) :
    r.setGroupPin group node source nowMs commits = (false, r) ∨
      ∃ s, r.groups.get? group = some s ∧ node ∈ s.members ∧
        (r.setGroupPin group node source nowMs commits =
            (false, r.withGroup group { s with pinGeneration := s.pinGeneration + 1 }) ∨
          (r.setGroupPin group node source nowMs commits).1 = true ∧
            r.Recorded group (s.setPin node source nowMs).2
              (r.setGroupPin group node source nowMs commits).2) := by
  unfold setGroupPin
  rw [if_neg hnode]
  cases hs : r.groups.get? group with
  | none => exact .inl rfl
  | some s =>
    by_cases hmem : node ∈ s.members
    swap
    · exact .inl (if_pos hmem)
    simp only [not_not.2 hmem, if_false]
    refine .inr ⟨s, rfl, hmem, ?_⟩
    rcases commit_cases (r.withGroup group (s.setPin node source nowMs).2) commits
      [.putGroupPin group ((s.setPin node source nowMs).1.blob s.plan.choose),
        .delete .groupManual group] with hc | hc
    · rw [hc]
      exact .inl (congrArg (Prod.mk false) (withGroup_withGroup _ _))
    · rw [hc]
      exact .inr ⟨rfl, rfl, rfl, rfl, rfl⟩

theorem completeGroupManualProbe_cases (r : Runtime κ ω) (group : Str) (token : ManualProbeToken)
    (anySuccess commits : Bool) :
    r.completeGroupManualProbe group token anySuccess commits = (false, r) ∨
      ∃ s pin, r.groups.get? group = some s ∧ token.releaseAfterSuccess = true ∧
        s.pin = some pin ∧ token.generation = some pin.generation ∧
        (r.completeGroupManualProbe group token anySuccess commits).1 = true ∧
        r.Recorded group { s with pin := none }
          (r.completeGroupManualProbe group token anySuccess commits).2 := by
  unfold completeGroupManualProbe
  cases hs : r.groups.get? group with
  | none => exact .inl rfl
  | some s =>
    rcases s.completeManualProbe_cases token anySuccess with
      hp | ⟨hp, hrelease, pin, hpin, hgen⟩
    · simp [hp]
    · simp only [hp, Bool.not_true, Bool.false_eq_true, if_false]
      rcases commit_cases (r.withGroup group { s with pin := none }) commits
        [.delete .groupPin group, .delete .groupManual group] with hc | hc
      · rw [hc]
        refine .inl (congrArg (Prod.mk false) ?_)
        rw [withGroup_withGroup]
        exact withGroup_self hs
      · rw [hc]
        exact .inr ⟨s, pin, rfl, hrelease, hpin, hgen, rfl, rfl, rfl, rfl, rfl⟩

/-- What a call can do: it is refused, it is undone up to the counter, or it moves the pin of its
group in memory and in the store. -/
theorem call_cases (r : Runtime κ ω) (c : PinCall) :
    r.call c = (false, r) ∨
      (∃ s, r.groups.get? c.group = some s ∧ c.IsSet ∧
        r.call c = (false, r.withGroup c.group { s with pinGeneration := s.pinGeneration + 1 })) ∨
      ∃ s s', r.groups.get? c.group = some s ∧ c.Moves s s' ∧ (r.call c).1 = true ∧
        r.Recorded c.group s' (r.call c).2 := by
  cases c with
  | set group node source nowMs commits =>
    by_cases hnode : node = []
    · have hclear : r.call (.set group node source nowMs commits) = r.clearGroupPin group commits :=
        if_pos hnode
      rw [hclear]
      rcases clearGroupPin_cases r group commits with h | ⟨s, hs, htrue, hrec⟩
      · exact .inl h
      · exact .inr (.inr ⟨s, _, hs, .inl ⟨hnode, rfl⟩, htrue, hrec⟩)
    · rcases setGroupPin_cases r group source nowMs commits hnode with
        h | ⟨s, hs, hmem, h | ⟨htrue, hrec⟩⟩
      · exact .inl h
      · exact .inr (.inl ⟨s, hs, trivial, h⟩)
      · exact .inr (.inr ⟨s, _, hs, .inr ⟨hnode, hmem, rfl⟩, htrue, hrec⟩)
  | clear group commits =>
    rcases clearGroupPin_cases r group commits with h | ⟨s, hs, htrue, hrec⟩
    · exact .inl h
    · exact .inr (.inr ⟨s, _, hs, rfl, htrue, hrec⟩)
  | completeProbe group token anySuccess commits =>
    rcases completeGroupManualProbe_cases r group token anySuccess commits with
      h | ⟨s, pin, hs, hrelease, hpin, hgen, htrue, hrec⟩
    · exact .inl h
    · exact .inr (.inr ⟨s, _, hs, ⟨rfl, hrelease, pin, hpin, hgen⟩, htrue, hrec⟩)

end Runtime

/-! ### Memory and store -/

/-- The pin that the store holds for a group, as the next start reads it: the row of `group_pin`, or
the pick in the row of `group_manual`. -/
def Store.persistedPin (s : Store) (group : Str) : Option GroupPinBlob :=
  match (s.groupPin.get? group).filter fun blob => blob.node ≠ [] with
  | some blob => some blob
  | none => ((s.groupManual.get? group).filter (· ≠ [])).map fun picked =>
      { node := picked
        strategy := []
        generation := 1
        createdAtMs := 0
        source := PinSource.restored.asStr }

/-- The pins in memory and in the store agree on a view of them: on the whole rows, or on a part. -/
def Runtime.InSync {β : Type} (view : GroupPinBlob → β) (r : Runtime κ ω) : Prop :=
  ∀ store, r.store = some store → ∀ group s, r.groups.get? group = some s →
    (store.persistedPin group).map view = s.pinBlob.map view

theorem Store.persistedPin_record_self (s : Store) (group : Str) {row : Option GroupPinBlob}
    (h : ∀ blob, row = some blob → blob.node ≠ []) :
    (s.record group row).persistedPin group = row := by
  cases row with
  | none => simp [record, persistedPin]
  | some blob =>
    have hkept : (some blob).filter (fun blob => blob.node ≠ []) = some blob := by
      simp [Option.filter, h blob rfl]
    simp only [record, persistedPin, AssocMap.get?_insert_self, hkept]

theorem Store.persistedPin_record_of_ne (s : Store) {group group' : Str}
    (row : Option GroupPinBlob) (h : group' ≠ group) :
    (s.record group row).persistedPin group' = s.persistedPin group' := by
  cases row with
  | none => simp [record, persistedPin, AssocMap.get?_erase_of_ne _ h]
  | some blob =>
    simp [record, persistedPin, AssocMap.get?_erase_of_ne _ h, AssocMap.get?_insert_of_ne _ _ h]

theorem PinCall.Moves.node_ne_nil {c : PinCall} {s s' : GroupSelector} (h : c.Moves s s')
    {blob : GroupPinBlob} (hblob : s'.pinBlob = some blob) : blob.node ≠ [] := by
  have hnone : ({ s with pin := none } : GroupSelector).pinBlob = none := rfl
  cases c with
  | set group node source nowMs commits =>
    rcases h with ⟨-, rfl⟩ | ⟨hnode, -, rfl⟩
    · rw [hnone] at hblob
      cases hblob
    · cases hblob
      exact hnode
  | clear group commits =>
    cases h
    rw [hnone] at hblob
    cases hblob
  | completeProbe group token anySuccess commits =>
    obtain ⟨rfl, -⟩ := h
    rw [hnone] at hblob
    cases hblob

namespace Runtime

variable {β : Type} {view : GroupPinBlob → β} {r r' : Runtime κ ω} {group : Str}
  {s s' : GroupSelector}

theorem Recorded.get?_self (h : r.Recorded group s' r') (hs : r.groups.get? group = some s) :
    r'.groups.get? group = some s' := by
  rw [h.groups, AssocMap.get?_modify_self, hs]
  rfl

theorem Recorded.get?_of_ne (h : r.Recorded group s' r') {group' : Str} (hne : group' ≠ group) :
    r'.groups.get? group' = r.groups.get? group' := by
  rw [h.groups, AssocMap.get?_modify_of_ne _ _ hne]

theorem Recorded.persistedPin_eq (h : r.Recorded group s' r')
    (hnode : ∀ blob, s'.pinBlob = some blob → blob.node ≠ []) {store : Store}
    (hstore : r'.store = some store) : store.persistedPin group = s'.pinBlob := by
  rw [h.store] at hstore
  obtain ⟨store₀, -, rfl⟩ := Option.map_eq_some_iff.1 hstore
  exact store₀.persistedPin_record_self group hnode

theorem Recorded.inSync (h : r.Recorded group s' r') (hs : r.groups.get? group = some s)
    (hnode : ∀ blob, s'.pinBlob = some blob → blob.node ≠ []) (hsync : r.InSync view) :
    r'.InSync view := by
  intro store hstore group' s₁ hs₁
  by_cases hne : group' = group
  · subst hne
    rw [h.get?_self hs] at hs₁
    cases hs₁
    rw [h.persistedPin_eq hnode hstore]
  · rw [h.get?_of_ne hne] at hs₁
    rw [h.store] at hstore
    obtain ⟨store₀, hstore₀, rfl⟩ := Option.map_eq_some_iff.1 hstore
    rw [store₀.persistedPin_record_of_ne _ hne]
    exact hsync store₀ hstore₀ group' s₁ hs₁

theorem get?_withGroup_counter (hs : r.groups.get? group = some s) (generation : UInt64)
    (group' : Str) :
    ∃ f : GroupSelector → GroupSelector, (∀ s, (f s).plan = s.plan ∧ (f s).pin = s.pin ∧
        (f s).lastPick = s.lastPick) ∧
      (r.withGroup group { s with pinGeneration := generation }).groups.get? group' =
        (r.groups.get? group').map f := by
  by_cases hne : group' = group
  · subst hne
    refine ⟨fun s => { s with pinGeneration := generation }, fun _ => ⟨rfl, rfl, rfl⟩, ?_⟩
    rw [withGroup, AssocMap.get?_modify_self, hs]
    rfl
  · refine ⟨id, fun _ => ⟨rfl, rfl, rfl⟩, ?_⟩
    rw [withGroup, AssocMap.get?_modify_of_ne _ _ hne, Option.map_id, id]

/-- The state of a group that a user sees: its pin and its last pick. -/
def pinState (r : Runtime κ ω) (group : Str) : Option (Option GroupPin × Option Str) :=
  (r.groups.get? group).map fun s => (s.pin, s.lastPick)

theorem pinState_call_of_false (r : Runtime κ ω) (c : PinCall) (h : (r.call c).1 = false)
    (group : Str) : (r.call c).2.pinState group = r.pinState group := by
  rcases call_cases r c with heq | ⟨s, hs, -, heq⟩ | ⟨s, s', hs, -, htrue, -⟩
  · rw [heq]
  · obtain ⟨f, hf, hget⟩ := get?_withGroup_counter hs (s.pinGeneration + 1) group
    rw [heq, pinState, pinState, hget, Option.map_map]
    refine congrArg (fun g => (r.groups.get? group).map g) (funext fun s => ?_)
    exact Prod.ext (hf s).2.1 (hf s).2.2
  · rw [htrue] at h
    cases h

theorem inSync_call (c : PinCall) (hsync : r.InSync view) : (r.call c).2.InSync view := by
  rcases call_cases r c with heq | ⟨s, hs, -, heq⟩ | ⟨s, s', hs, hmoves, -, hrec⟩
  · rw [heq]
    exact hsync
  · rw [heq]
    intro store hstore group s₁ hs₁
    obtain ⟨f, hf, hget⟩ := get?_withGroup_counter hs (s.pinGeneration + 1) group
    rw [hget] at hs₁
    obtain ⟨s₀, hs₀, rfl⟩ := Option.map_eq_some_iff.1 hs₁
    rw [GroupSelector.pinBlob, (hf s₀).1, (hf s₀).2.1]
    exact hsync store hstore group s₀ hs₀
  · exact hrec.inSync hs (fun _ => hmoves.node_ne_nil) hsync

theorem inSync_run (calls : List PinCall) (hsync : r.InSync view) : (r.run calls).InSync view := by
  induction calls generalizing r with
  | nil => exact hsync
  | cons c calls ih => exact ih (inSync_call c hsync)

/-- What a start makes of a row: the node, and a generation from one on. -/
def restoredView (blob : GroupPinBlob) : Str × UInt64 := (blob.node, max blob.generation 1)

theorem restoredView_restoreRow {blob : GroupPinBlob} (h : blob.node ≠ []) (base : GroupPlan) :
    (restoreRow blob (GroupSelector.new base)).pinBlob.map restoredView =
      some (restoredView blob) := by
  have hmax : max (max blob.generation 1) 1 = max blob.generation 1 := by
    rw [max_generation blob.generation, max_generation]
    split_ifs <;> rfl
  rw [restoreRow, if_neg h]
  exact congrArg some (Prod.ext rfl hmax)

/-- A runtime starts with the pins of its store. -/
theorem build_inSync (plan : RuntimePlan κ) (outbounds : AssocMap Str ω) (store : Option Store)
    (nowMs : Str → UInt64) :
    (Runtime.build plan outbounds store (fun _ => true) nowMs).InSync restoredView := by
  intro store₀ hstore group s hs
  cases hstore
  rw [get?_build] at hs
  obtain ⟨s₀, hs₀, rfl⟩ := Option.map_eq_some_iff.1 hs
  obtain ⟨base, rfl⟩ := RuntimePlan.get?_freshGroups hs₀
  have hrow : readRow (some store₀) (fun _ => true) group = store₀.groupPin.get? group := rfl
  have hmanual : readManual (some store₀) (fun _ => true) group = store₀.groupManual.get? group :=
    rfl
  rw [hrow, hmanual, Store.persistedPin]
  by_cases hblob : ∃ blob, store₀.groupPin.get? group = some blob ∧ blob.node ≠ []
  · -- the row is restored, and the old row does not count
    obtain ⟨blob, hget, hnode⟩ := hblob
    have hkept : (some blob).filter (fun blob => blob.node ≠ []) = some blob := by
      simp [Option.filter, hnode]
    have hpinned : (restoreRow blob (GroupSelector.new base)).pin.isNone = false := by
      rw [restoreRow, if_neg hnode]
      rfl
    have hsame : ∀ picked : Option Str, picked.elim id (restoreManual (nowMs group))
        (restoreRow blob (GroupSelector.new base)) = restoreRow blob (GroupSelector.new base) := by
      intro picked
      cases picked with
      | none => rfl
      | some picked => simp [restoreManual, hpinned]
    rw [hget, hkept, Option.elim_some, hsame, restoredView_restoreRow hnode]
    rfl
  · -- there is no row that counts
    have hfresh : (store₀.groupPin.get? group).elim id restoreRow (GroupSelector.new base) =
        GroupSelector.new base := by
      cases hget : store₀.groupPin.get? group with
      | none => rfl
      | some blob =>
        have hnode : blob.node = [] := by_contra fun h => hblob ⟨blob, hget, h⟩
        exact if_pos hnode
    have hnone : (store₀.groupPin.get? group).filter (fun blob => blob.node ≠ []) = none := by
      rw [Option.filter_eq_none_iff]
      intro blob hget hnode
      exact hblob ⟨blob, hget, of_decide_eq_true hnode⟩
    rw [hfresh, hnone]
    cases hpicked : store₀.groupManual.get? group with
    | none => rfl
    | some picked =>
      by_cases hempty : picked = []
      · subst hempty
        rfl
      · have hkept : (some picked).filter (fun picked => picked ≠ []) = some picked := by
          simp [Option.filter, hempty]
        have hset : restoreManual (nowMs group) picked (GroupSelector.new base) =
            (GroupSelector.new base).setManual picked (nowMs group) := by
          simp [restoreManual, GroupSelector.new, hempty]
        rw [hkept, Option.elim_some, hset]
        rfl

/-- **Pins and rows.**  Whatever the pins in memory and in the store agree on at first, they agree on
after every call of a sequence, whether or not the store takes the writes.  After a call that
succeeds the row of its group is exactly the row of its pin; a call that fails leaves every pin and
every last pick as it was. -/
theorem pins_inSync {β : Type} (view : GroupPinBlob → β) (r : Runtime κ ω) (h : r.InSync view)
    (calls : List PinCall) (c : PinCall) :
    (((r.run calls).call c).2).InSync view ∧
      (((r.run calls).call c).1 = true → ∀ store s, ((r.run calls).call c).2.store = some store →
        ((r.run calls).call c).2.groups.get? c.group = some s →
        store.persistedPin c.group = s.pinBlob) ∧
      (((r.run calls).call c).1 = false → ∀ group,
        ((r.run calls).call c).2.pinState group = (r.run calls).pinState group) := by
  refine ⟨inSync_call c (inSync_run calls h), fun htrue store s hstore hs => ?_,
    fun hfalse => pinState_call_of_false _ c hfalse⟩
  rcases call_cases (r.run calls) c with heq | ⟨s₀, -, -, heq⟩ | ⟨s₀, s', hs₀, hmoves, -, hrec⟩
  · rw [heq] at htrue
    cases htrue
  · rw [heq] at htrue
    cases htrue
  · rw [hrec.get?_self hs₀] at hs
    cases hs
    exact hrec.persistedPin_eq (fun _ => hmoves.node_ne_nil) hstore

/-- A runtime with one group of two nodes and an empty store. -/
def oneGroup : Runtime Unit Unit :=
  Runtime.build
    { feeds := []
      nodes := []
      groups := AssocMap.empty.insert "g".toList
        { choose := .fast, members := ["a".toList, "b".toList] } }
    AssocMap.empty (some { groupPin := AssocMap.empty, groupManual := AssocMap.empty })
    (fun _ => true) (fun _ => 0)

/-- A pin that is set, and one that the store refuses. -/
theorem pins_inSync_refused :
    ((oneGroup.run [.set "g".toList "a".toList .clashApi 1 true]).call
      (.set "g".toList "b".toList .nativeApi 2 false)).2.InSync restoredView ∧
    ((oneGroup.run [.set "g".toList "a".toList .clashApi 1 true]).call
      (.set "g".toList "b".toList .nativeApi 2 false)).2.pinState "g".toList =
      some (some ⟨"a".toList, 1, 1, .clashApi⟩, some "a".toList) := by
  have h := pins_inSync restoredView oneGroup (build_inSync _ _ _ _)
    [.set "g".toList "a".toList .clashApi 1 true] (.set "g".toList "b".toList .nativeApi 2 false)
  exact ⟨h.1, (h.2.2 (by decide +kernel) "g".toList).trans (by decide +kernel)⟩

end Runtime

end WutherCore.Engine
