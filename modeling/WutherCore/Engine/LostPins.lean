import Mathlib
import WutherCore.Engine.Interleaving

/-!
# Runs without lost pins

The invariant of a run in which every write of a pin is guarded, and what it says when all calls and
updates have completed.

* `target` and `rowTarget`: what the cells and the row of a group are to hold while a call runs;
* `World.Inv`, kept by the steps of a call (`inv_pinStep`) and of an update (`inv_updateStep`);
* **`guarded_pinsKept`**: each group ends with the pin of its last successful call;
* `pin_lost_between_copy_and_publication`: a run that is not guarded, and loses a pin.
-/

namespace WutherCore.Engine

open WutherCore.Text WutherCore.Data

variable {κ ω : Type}

/-! ### The invariant -/

/-- The pin of a group by the calls that have succeeded, from the pins at the start. -/
def settled (pin₀ : Str → Option GroupPin) (log : List (Str × Option GroupPin)) (group : Str) :
    Option GroupPin :=
  (lastOutcome log group).getD (pin₀ group)

/-- The pin that the cells of a group have while a call runs.  Nothing is said of the cells that a
failed call has yet to write back. -/
def target (pin₀ : Str → Option GroupPin) (log : List (Str × Option GroupPin)) (group : Str) :
    Option PinThread → Option (Option GroupPin)
  | some (.setWritten g _ _ pin _ _) => some (if group = g then some pin else settled pin₀ log group)
  | some (.setFailed g _ _ _) => if group = g then none else some (settled pin₀ log group)
  | some (.returning (some (g, pin))) => some (if group = g then pin else settled pin₀ log group)
  | _ => some (settled pin₀ log group)

/-- The pin whose row the store has while a call runs. -/
def rowTarget (log : List (Str × Option GroupPin)) (group : Str) :
    Option PinThread → Option (Option GroupPin)
  | some (.clearPersisted g _) => if group = g then some none else lastOutcome log group
  | some (.returning (some (g, pin))) => if group = g then some pin else lastOutcome log group
  | _ => lastOutcome log group

section Targets

variable {pin₀ : Str → Option GroupPin} {log : List (Str × Option GroupPin)} {group g : Str}
  {cell : Nat} {previousPin : Option GroupPin} {previousPick : Option Str}

theorem target_setWritten {strategy : ChooseStrategy} {pin : GroupPin} :
    target pin₀ log group (some (.setWritten g cell strategy pin previousPin previousPick)) =
      some (if group = g then some pin else settled pin₀ log group) := rfl

theorem target_setFailed :
    target pin₀ log group (some (.setFailed g cell previousPin previousPick)) =
      if group = g then none else some (settled pin₀ log group) := rfl

theorem target_returning {pin : Option GroupPin} :
    target pin₀ log group (some (.returning (some (g, pin)))) =
      some (if group = g then pin else settled pin₀ log group) := rfl

theorem rowTarget_clearPersisted :
    rowTarget log group (some (.clearPersisted g cell)) =
      if group = g then some none else lastOutcome log group := rfl

theorem rowTarget_returning {pin : Option GroupPin} :
    rowTarget log group (some (.returning (some (g, pin)))) =
      if group = g then some pin else lastOutcome log group := rfl

end Targets

theorem target_none (pin₀ : Str → Option GroupPin) (log : List (Str × Option GroupPin))
    (group : Str) : target pin₀ log group none = some (settled pin₀ log group) := rfl

theorem rowTarget_none (log : List (Str × Option GroupPin)) (group : Str) :
    rowTarget log group none = lastOutcome log group := rfl

namespace World

/-- A group has a cell, as it is published or as it will be. -/
def Reaches (w : World κ ω) (group : Str) (cell : Nat) : Prop :=
  w.groups.get? group = some cell ∨ w.pendingGroups.get? group = some cell

/-- What the thread of the pins has seen. -/
def ThreadOk (pin₀ : Str → Option GroupPin) (w : World κ ω) : Option PinThread → Prop
  | some (.setLoaded group _ _ cell _) => ∃ s, w.cells[cell]? = some (group, s) ∧
      forgetSource s.pin = forgetSource (settled pin₀ w.log group)
  | some (.setRead group _ _ cell _ previousPin _) => (∃ s, w.cells[cell]? = some (group, s)) ∧
      forgetSource previousPin = forgetSource (settled pin₀ w.log group)
  | some (.setWritten group cell _ _ previousPin _) => (∃ s, w.cells[cell]? = some (group, s)) ∧
      forgetSource previousPin = forgetSource (settled pin₀ w.log group)
  | some (.setFailed group cell previousPin _) => (∃ s, w.cells[cell]? = some (group, s)) ∧
      forgetSource previousPin = forgetSource (settled pin₀ w.log group)
  | some (.clearLoaded group cell) => ∃ s, w.cells[cell]? = some (group, s)
  | some (.clearPersisted group cell) => ∃ s, w.cells[cell]? = some (group, s)
  | _ => True

/-- The invariant of a run without lost pins. -/
structure Inv (pin₀ : Str → Option GroupPin) (w : World κ ω) : Prop where
  cells : ∀ group cell, w.Reaches group cell → ∃ s, w.cells[cell]? = some (group, s) ∧
    ∀ pin, target pin₀ w.log group w.pinThread = some pin → forgetSource s.pin = forgetSource pin
  rows : ∀ store, w.store = some store → ∀ group pin,
    rowTarget w.log group w.pinThread = some pin →
    ∃ strategy, store.groupPin.get? group = pin.map (GroupPin.blob strategy)
  thread : w.ThreadOk pin₀ w.pinThread
  complete : ∀ group ∈ w.plan.groupNames, ∃ cell, w.pendingGroups.get? group = some cell
  rest : ∀ providerNodes rest groups,
    w.updateThread = some (.copying providerNodes rest groups) →
    ∀ e ∈ rest, e.1 ∈ w.plan.groupNames

variable {pin₀ : Str → Option GroupPin} {w w' : World κ ω}

theorem pinsKept_of_inv (h : w.Inv pin₀) (hq : w.Quiet) : w.PinsKept := by
  intro group pin hpin
  refine ⟨fun s hs => ?_, fun store hstore => ?_⟩
  · obtain ⟨cell, hcell, hs⟩ := Option.bind_eq_some_iff.1 hs
    obtain ⟨s', hs', htarget⟩ := h.cells group cell (.inl hcell)
    rw [selector, hs'] at hs
    cases hs
    refine htarget pin ?_
    rw [hq.1, target_none, settled, hpin, Option.getD_some]
  · refine h.rows store hstore group pin ?_
    rw [hq.1, rowTarget_none, hpin]

/-! ### Steps of a call -/

theorem Inv.sameCells (h : w.Inv pin₀) (hplan : w'.plan = w.plan) (hcells : w'.cells = w.cells)
    (hgroups : w'.groups = w.groups) (hupdate : w'.updateThread = w.updateThread)
    (htarget : ∀ group pin, target pin₀ w'.log group w'.pinThread = some pin →
      target pin₀ w.log group w.pinThread = some pin)
    (hrows : ∀ store, w'.store = some store → ∀ group pin,
      rowTarget w'.log group w'.pinThread = some pin →
      ∃ strategy, store.groupPin.get? group = pin.map (GroupPin.blob strategy))
    (hthread : w'.ThreadOk pin₀ w'.pinThread) : w'.Inv pin₀ := by
  have hpending : w'.pendingGroups = w.pendingGroups := by
    rw [pendingGroups, pendingGroups, hupdate, hgroups]
  refine ⟨fun group cell hreach => ?_, hrows, hthread, ?_, ?_⟩
  · rw [Reaches, hgroups, hpending] at hreach
    obtain ⟨s, hs, hpin⟩ := h.cells group cell hreach
    exact ⟨s, hcells ▸ hs, fun pin hp => hpin pin (htarget group pin hp)⟩
  · rw [hplan, hpending]
    exact h.complete
  · rw [hplan, hupdate]
    exact h.rest

/-- A write of a pin to the one cell that its group has. -/
theorem Inv.write (h : w.Inv pin₀) {group : Str} {cell : Nat} {s s' : GroupSelector}
    {t : PinThread} (hcell : w.cells[cell]? = some (group, s))
    (honly : ∀ cell', w.Reaches group cell' → cell' = cell)
    (hself : ∀ pin, target pin₀ w.log group (some t) = some pin →
      forgetSource s'.pin = forgetSource pin)
    (hother : ∀ group', group' ≠ group → target pin₀ w.log group' (some t) =
      target pin₀ w.log group' w.pinThread)
    (hrows : ∀ group' pin, rowTarget w.log group' (some t) = some pin →
      rowTarget w.log group' w.pinThread = some pin)
    (hthread : ((w.write cell s').pinNext t).ThreadOk pin₀ (some t)) :
    ((w.write cell s').pinNext t).Inv pin₀ := by
  refine ⟨fun group' cell' hreach => ?_, fun store hstore group' pin hpin =>
    h.rows store hstore group' pin (hrows group' pin hpin), hthread, h.complete, h.rest⟩
  change ∃ s, (w.cells.modify cell fun c => (c.1, s'))[cell']? = some (group', s) ∧ _
  by_cases hg : group' = group
  · subst hg
    have hc := honly cell' hreach
    subst hc
    refine ⟨s', ?_, hself⟩
    rw [List.getElem?_modify_eq, hcell]
    rfl
  · obtain ⟨s₁, hs₁, hpin⟩ := h.cells group' cell' hreach
    have hne : cell ≠ cell' := by
      rintro rfl
      rw [hcell] at hs₁
      cases hs₁
      exact hg rfl
    refine ⟨s₁, ?_, fun pin hp => hpin pin ?_⟩
    · rw [List.getElem?_modify_ne _ _ hne, hs₁]
    · rw [← hother group' hg]
      exact hp

theorem commit_cases (w : World κ ω) (commits : Bool) (ops : List BatchOp) :
    w.commit commits ops = none ∨
      w.commit commits ops = some { w with store := w.store.map fun s => ops.foldl Store.apply s } := by
  rcases commitBatch_cases w.store commits ops with h | h
  · exact .inl (by rw [commit, h, Option.map_none])
  · exact .inr (by rw [commit, h, Option.map_some])

theorem Inv.pinNext (h : w.Inv pin₀) {t t' : PinThread} (ht : w.pinThread = some t)
    (htarget : ∀ group pin, target pin₀ w.log group (some t') = some pin →
      target pin₀ w.log group (some t) = some pin)
    (hrows : ∀ group pin, rowTarget w.log group (some t') = some pin →
      rowTarget w.log group (some t) = some pin)
    (hthread : w.ThreadOk pin₀ (some t')) : (w.pinNext t').Inv pin₀ :=
  h.sameCells rfl rfl rfl rfl (fun group pin hp => ht ▸ htarget group pin hp)
    (fun store hstore group pin hp => h.rows store hstore group pin (ht ▸ hrows group pin hp))
    hthread

theorem getElem?_write {cell : Nat} {group : Str} {s : GroupSelector} (s' : GroupSelector)
    (hcell : w.cells[cell]? = some (group, s)) :
    (w.write cell s').cells[cell]? = some (group, s') := by
  change (w.cells.modify cell fun c => (c.1, s'))[cell]? = _
  rw [List.getElem?_modify_eq, hcell]
  rfl

theorem selector_eq_some {cell : Nat} {s : GroupSelector} (h : w.selector cell = some s)
    {group : Str} (hcell : ∃ s, w.cells[cell]? = some (group, s)) :
    w.cells[cell]? = some (group, s) := by
  obtain ⟨s', hs'⟩ := hcell
  rw [selector, hs'] at h
  cases h
  exact hs'

section PinSteps

variable {nowMs : UInt64} {commits : Bool} {group node : Str} {source : PinSource} {cell : Nat}
  {strategy : ChooseStrategy} {pin : GroupPin} {previousPin : Option GroupPin}
  {previousPick : Option Str}

theorem inv_setLocked (h : w.Inv pin₀) (ht : w.pinThread = some (.setLocked group node source))
    (hs : w.pinStep nowMs commits (.setLocked group node source) = some w') : w'.Inv pin₀ := by
  unfold pinStep at hs
  cases hg : w.groups.get? group with
  | none =>
    simp only [hg] at hs
    cases hs
    exact h.pinNext ht (fun _ _ hp => hp) (fun _ _ hp => hp) trivial
  | some cell =>
    simp only [hg] at hs
    obtain ⟨s, hsel, rfl⟩ := Option.map_eq_some_iff.1 hs
    by_cases hmem : node ∈ s.members
    · rw [if_neg (not_not.2 hmem)]
      refine h.pinNext ht (fun _ _ hp => hp) (fun _ _ hp => hp) ?_
      obtain ⟨s', hs', htarget⟩ := h.cells group cell (.inl hg)
      exact ⟨s', hs', htarget _ (by rw [ht]; rfl)⟩
    · rw [if_pos hmem]
      exact h.pinNext ht (fun _ _ hp => hp) (fun _ _ hp => hp) trivial

theorem inv_setLoaded (h : w.Inv pin₀)
    (ht : w.pinThread = some (.setLoaded group node source cell strategy))
    (hs : w.pinStep nowMs commits (.setLoaded group node source cell strategy) = some w') :
    w'.Inv pin₀ := by
  obtain ⟨s, hsel, rfl⟩ := Option.map_eq_some_iff.1 hs
  refine h.pinNext ht (fun _ _ hp => hp) (fun _ _ hp => hp) ?_
  have hthread := h.thread
  rw [ht] at hthread
  obtain ⟨s', hs', hpin⟩ := hthread
  have hcell := selector_eq_some hsel ⟨s', hs'⟩
  rw [hs'] at hcell
  cases hcell
  exact ⟨⟨s, hs'⟩, hpin⟩

theorem inv_setRead (h : w.Inv pin₀)
    (ht : w.pinThread =
      some (.setRead group node source cell strategy previousPin previousPick))
    (honly : ∀ cell', w.Reaches group cell' → cell' = cell)
    (hs : w.pinStep nowMs commits
      (.setRead group node source cell strategy previousPin previousPick) = some w') :
    w'.Inv pin₀ := by
  obtain ⟨s, hsel, rfl⟩ := Option.map_eq_some_iff.1 hs
  have hthread := h.thread
  rw [ht] at hthread
  have hcell := selector_eq_some hsel hthread.1
  refine h.write hcell honly (fun pin hp => ?_) (fun group' hne => ?_) (fun group' pin hp => ?_)
    ⟨⟨_, getElem?_write _ hcell⟩, hthread.2⟩
  · rw [target_setWritten, if_pos rfl] at hp
    cases hp
    rfl
  · rw [ht, target_setWritten, if_neg hne]
    rfl
  · rw [ht]
    exact hp

theorem inv_setWritten (h : w.Inv pin₀)
    (ht : w.pinThread =
      some (.setWritten group cell strategy pin previousPin previousPick))
    (hs : w.pinStep nowMs commits
      (.setWritten group cell strategy pin previousPin previousPick) = some w') :
    w'.Inv pin₀ := by
  have hthread := h.thread
  rw [ht] at hthread
  unfold pinStep at hs
  rcases commit_cases w commits [.putGroupPin group (pin.blob strategy),
    .delete .groupManual group] with hc | hc
  · simp only [hc] at hs
    cases hs
    refine h.pinNext ht (fun group' p hp => ?_) (fun _ _ hp => hp) hthread
    rw [target_setFailed] at hp
    split_ifs at hp with hne
    rw [target_setWritten, if_neg hne]
    exact hp
  · simp only [hc] at hs
    cases hs
    refine h.sameCells rfl rfl rfl rfl (fun group' p hp => ht ▸ hp) ?_ trivial
    intro store hstore group' p hp
    obtain ⟨store₀, hstore₀, rfl⟩ := Option.map_eq_some_iff.1 hstore
    change rowTarget w.log group' (some (.returning (some (group, some pin)))) = some p at hp
    rw [rowTarget_returning] at hp
    change ∃ strategy', (store₀.groupPin.insert group (pin.blob strategy)).get? group' = _
    by_cases hne : group' = group
    · subst hne
      rw [if_pos rfl] at hp
      cases hp
      exact ⟨strategy, AssocMap.get?_insert_self _ _ _⟩
    · rw [if_neg hne] at hp
      rw [AssocMap.get?_insert_of_ne _ _ hne]
      refine h.rows store₀ hstore₀ group' p ?_
      rw [ht]
      exact hp

theorem inv_setFailed (h : w.Inv pin₀)
    (ht : w.pinThread = some (.setFailed group cell previousPin previousPick))
    (honly : ∀ cell', w.Reaches group cell' → cell' = cell)
    (hs : w.pinStep nowMs commits (.setFailed group cell previousPin previousPick) = some w') :
    w'.Inv pin₀ := by
  obtain ⟨s, hsel, rfl⟩ := Option.map_eq_some_iff.1 hs
  have hthread := h.thread
  rw [ht] at hthread
  have hcell := selector_eq_some hsel hthread.1
  refine h.write hcell honly (fun pin hp => ?_) (fun group' hne => ?_) (fun group' pin hp => ?_)
    trivial
  · cases hp
    exact hthread.2
  · rw [ht, target_setFailed, if_neg hne]
    rfl
  · rw [ht]
    exact hp

theorem inv_clearLocked (h : w.Inv pin₀) (ht : w.pinThread = some (.clearLocked group))
    (hs : w.pinStep nowMs commits (.clearLocked group) = some w') : w'.Inv pin₀ := by
  unfold pinStep at hs
  cases hg : w.groups.get? group with
  | none =>
    simp only [hg] at hs
    cases hs
    exact h.pinNext ht (fun _ _ hp => hp) (fun _ _ hp => hp) trivial
  | some cell =>
    simp only [hg] at hs
    cases hs
    obtain ⟨s, hcell, -⟩ := h.cells group cell (.inl hg)
    exact h.pinNext ht (fun _ _ hp => hp) (fun _ _ hp => hp) ⟨s, hcell⟩

theorem inv_clearLoaded (h : w.Inv pin₀) (ht : w.pinThread = some (.clearLoaded group cell))
    (hs : w.pinStep nowMs commits (.clearLoaded group cell) = some w') : w'.Inv pin₀ := by
  have hthread := h.thread
  rw [ht] at hthread
  unfold pinStep at hs
  rcases commit_cases w commits [.delete .groupPin group, .delete .groupManual group] with
    hc | hc
  · simp only [hc] at hs
    cases hs
    exact h.pinNext ht (fun _ _ hp => hp) (fun _ _ hp => hp) trivial
  · simp only [hc] at hs
    cases hs
    refine h.sameCells rfl rfl rfl rfl (fun group' p hp => ht ▸ hp) ?_ hthread
    intro store hstore group' p hp
    obtain ⟨store₀, hstore₀, rfl⟩ := Option.map_eq_some_iff.1 hstore
    change rowTarget w.log group' (some (.clearPersisted group cell)) = some p at hp
    rw [rowTarget_clearPersisted] at hp
    change ∃ strategy', (store₀.groupPin.erase group).get? group' = _
    by_cases hne : group' = group
    · subst hne
      rw [if_pos rfl] at hp
      cases hp
      exact ⟨.manual, AssocMap.get?_erase_self _ _⟩
    · rw [if_neg hne] at hp
      rw [AssocMap.get?_erase_of_ne _ hne]
      refine h.rows store₀ hstore₀ group' p ?_
      rw [ht]
      exact hp

theorem inv_clearPersisted (h : w.Inv pin₀)
    (ht : w.pinThread = some (.clearPersisted group cell))
    (honly : ∀ cell', w.Reaches group cell' → cell' = cell)
    (hs : w.pinStep nowMs commits (.clearPersisted group cell) = some w') : w'.Inv pin₀ := by
  obtain ⟨s, hsel, rfl⟩ := Option.map_eq_some_iff.1 hs
  have hthread := h.thread
  rw [ht] at hthread
  have hcell := selector_eq_some hsel hthread
  refine h.write hcell honly (fun pin hp => ?_) (fun group' hne => ?_) (fun group' pin hp => ?_)
    trivial
  · rw [target_returning, if_pos rfl] at hp
    cases hp
    rfl
  · rw [ht, target_returning, if_neg hne]
    rfl
  · rw [ht]
    exact hp

theorem inv_returning {outcome : Option (Str × Option GroupPin)} (h : w.Inv pin₀)
    (ht : w.pinThread = some (.returning outcome))
    (hs : w.pinStep nowMs commits (.returning outcome) = some w') : w'.Inv pin₀ := by
  cases hs
  cases outcome with
  | none =>
    refine h.sameCells rfl rfl rfl rfl (fun group' p hp => ht ▸ hp) ?_ trivial
    intro store hstore group' p hp
    refine h.rows store hstore group' p ?_
    rw [ht]
    exact hp
  | some entry =>
    obtain ⟨group, pin⟩ := entry
    have hlast : ∀ group', lastOutcome ((group, pin) :: w.log) group' =
        if group' = group then some pin else lastOutcome w.log group' := by
      intro group'
      unfold lastOutcome
      rw [List.find?_cons]
      by_cases hne : group' = group
      · simp [hne]
      · simp [hne, Ne.symm hne]
    refine h.sameCells rfl rfl rfl rfl (fun group' p hp => ?_) ?_ trivial
    · rw [ht, target_returning]
      change target pin₀ ((group, pin) :: w.log) group' none = some p at hp
      rw [target_none, settled, hlast] at hp
      split_ifs at hp ⊢ with hne
      · exact hp
      · exact hp
    · intro store hstore group' p hp
      refine h.rows store hstore group' p ?_
      rw [ht, rowTarget_returning]
      change lastOutcome ((group, pin) :: w.log) group' = some p at hp
      rwa [hlast] at hp

end PinSteps

theorem inv_pinStep {nowMs : UInt64} {commits : Bool} {t : PinThread} (h : w.Inv pin₀)
    (ht : w.pinThread = some t)
    (hguard : ∀ group cell, w.writes = some (group, cell) →
      w.groups.get? group = some cell ∧ w.pendingGroups.get? group = some cell)
    (hs : w.pinStep nowMs commits t = some w') : w'.Inv pin₀ := by
  have honly : ∀ group cell, w.writes = some (group, cell) → ∀ cell', w.Reaches group cell' →
      cell' = cell := by
    intro group cell hw cell' hreach
    obtain ⟨hpub, hpend⟩ := hguard group cell hw
    rcases hreach with hr | hr
    · exact Option.some.inj (hr.symm.trans hpub)
    · exact Option.some.inj (hr.symm.trans hpend)
  cases t with
  | setLocked group node source => exact inv_setLocked h ht hs
  | setLoaded group node source cell strategy => exact inv_setLoaded h ht hs
  | setRead group node source cell strategy previousPin previousPick =>
    exact inv_setRead h ht (honly group cell (by rw [writes, ht])) hs
  | setWritten group cell strategy pin previousPin previousPick => exact inv_setWritten h ht hs
  | setFailed group cell previousPin previousPick =>
    exact inv_setFailed h ht (honly group cell (by rw [writes, ht])) hs
  | clearLocked group => exact inv_clearLocked h ht hs
  | clearLoaded group cell => exact inv_clearLoaded h ht hs
  | clearPersisted group cell =>
    exact inv_clearPersisted h ht (honly group cell (by rw [writes, ht])) hs
  | returning outcome => exact inv_returning h ht hs

/-! ### Steps of an update -/

theorem ThreadOk.mono {t : Option PinThread} (h : w.ThreadOk pin₀ t) (hlog : w'.log = w.log)
    (hcells : ∀ (i : Nat) e, w.cells[i]? = some e → w'.cells[i]? = some e) :
    w'.ThreadOk pin₀ t := by
  have hcell : ∀ {cell : Nat} {group : Str}, (∃ s, w.cells[cell]? = some (group, s)) →
      ∃ s, w'.cells[cell]? = some (group, s) := fun ⟨s, hs⟩ => ⟨s, hcells _ _ hs⟩
  match t with
  | some (.setLoaded _ _ _ _ _) =>
    obtain ⟨s, hs, hpin⟩ := h
    exact ⟨s, hcells _ _ hs, hlog ▸ hpin⟩
  | some (.setRead _ _ _ _ _ _ _) => exact ⟨hcell h.1, hlog ▸ h.2⟩
  | some (.setWritten _ _ _ _ _ _) => exact ⟨hcell h.1, hlog ▸ h.2⟩
  | some (.setFailed _ _ _ _) => exact ⟨hcell h.1, hlog ▸ h.2⟩
  | some (.clearLoaded _ _) => exact hcell h
  | some (.clearPersisted _ _) => exact hcell h
  | some (.setLocked _ _ _) => trivial
  | some (.clearLocked _) => trivial
  | some (.returning _) => trivial
  | none => trivial

theorem Inv.sameGroups (h : w.Inv pin₀) (hplan : w'.plan = w.plan) (hcells : w'.cells = w.cells)
    (hgroups : w'.groups = w.groups) (hpending : w'.pendingGroups = w.pendingGroups)
    (hstore : w'.store = w.store) (hthread : w'.pinThread = w.pinThread) (hlog : w'.log = w.log)
    (hrest : ∀ providerNodes rest groups,
      w'.updateThread = some (.copying providerNodes rest groups) →
      ∀ e ∈ rest, e.1 ∈ w.plan.groupNames) : w'.Inv pin₀ := by
  refine ⟨?_, ?_, ?_, ?_, ?_⟩
  · simp only [Reaches, hgroups, hpending, hcells, hlog, hthread]
    exact h.cells
  · rw [hstore, hlog, hthread]
    exact h.rows
  · rw [hthread]
    exact h.thread.mono hlog fun i e he => hcells ▸ he
  · rw [hplan, hpending]
    exact h.complete
  · rw [hplan]
    exact hrest

/-- The step that copies a pin into a new cell. -/
theorem inv_rebuild (h : w.Inv pin₀) {providerNodes : AssocMap Str (List Str)} {group : Str}
    {base : GroupPlan} {rest : List (Str × GroupPlan)} {groups : AssocMap Str Nat}
    (ht : w.updateThread = some (.copying providerNodes ((group, base) :: rest) groups)) :
    Inv pin₀ { w with
      cells := w.cells ++
        [(group, rebuildGroup providerNodes base ((groups.get? group).bind w.selector))]
      updateThread :=
        some (.copying providerNodes rest (groups.insert group w.cells.length)) } := by
  have hpending : w.pendingGroups = groups := by rw [pendingGroups, ht]
  have hmem : group ∈ w.plan.groupNames := h.rest _ _ _ ht _ List.mem_cons_self
  obtain ⟨cell, hcell⟩ := h.complete group hmem
  obtain ⟨s, hs, hpin⟩ := h.cells group cell (.inr hcell)
  rw [hpending] at hcell
  have hold : (groups.get? group).bind w.selector = some s := by
    rw [hcell, Option.bind_some, selector, hs]
    rfl
  have hkept : ∀ (i : Nat) e, w.cells[i]? = some e →
      (w.cells ++ [(group, rebuildGroup providerNodes base
        ((groups.get? group).bind w.selector))])[i]? = some e := by
    intro i e hi
    rw [List.getElem?_append_left (List.getElem?_eq_some_iff.1 hi).1, hi]
  refine ⟨fun group' cell' hreach => ?_, h.rows, ?_, fun group' hg => ?_, ?_⟩
  · rcases hreach with hr | hr
    · obtain ⟨s', hs', hp'⟩ := h.cells group' cell' (.inl hr)
      exact ⟨s', hkept _ _ hs', hp'⟩
    · change (groups.insert group w.cells.length).get? group' = some cell' at hr
      by_cases hne : group' = group
      · -- the new cell has the pin of the old one
        subst hne
        rw [AssocMap.get?_insert_self] at hr
        cases hr
        refine ⟨_, by rw [List.getElem?_append_right le_rfl, Nat.sub_self]; rfl, fun p hp => ?_⟩
        rw [rebuildGroup_pin, hold, Option.bind_some, ← hpin p hp]
        unfold forgetSource
        rw [Option.map_map]
        rfl
      · rw [AssocMap.get?_insert_of_ne _ _ hne, ← hpending] at hr
        obtain ⟨s', hs', hp'⟩ := h.cells group' cell' (.inr hr)
        exact ⟨s', hkept _ _ hs', hp'⟩
  · exact h.thread.mono rfl hkept
  · change ∃ cell, (groups.insert group w.cells.length).get? group' = some cell
    by_cases hne : group' = group
    · subst hne
      exact ⟨_, AssocMap.get?_insert_self _ _ _⟩
    · rw [AssocMap.get?_insert_of_ne _ _ hne, ← hpending]
      exact h.complete group' hg
  · intro pn rest' groups' heq e he
    cases heq
    exact h.rest _ _ _ ht e (List.mem_cons_of_mem _ he)

theorem inv_publish (h : w.Inv pin₀) {providerNodes : AssocMap Str (List Str)}
    {groups : AssocMap Str Nat} (ht : w.updateThread = some (.copying providerNodes [] groups)) :
    Inv pin₀ { w with groups, updateThread := some .returning } := by
  have hpending : w.pendingGroups = groups := by rw [pendingGroups, ht]
  refine ⟨fun group cell hreach => ?_, h.rows, h.thread.mono rfl fun _ _ he => he, ?_,
    fun _ _ _ heq => by cases heq⟩
  · have hr : groups.get? group = some cell := by
      rcases hreach with hr | hr
      · exact hr
      · exact hr
    exact h.cells group cell (.inr (hpending ▸ hr))
  · intro group hg
    obtain ⟨cell, hcell⟩ := h.complete group hg
    exact ⟨cell, hpending ▸ hcell⟩

/-- Each step of an update keeps the invariant. -/
theorem inv_updateStep (buildOutbound : ParsedNode κ → Except Str ω) {t : UpdateThread κ}
    (h : w.Inv pin₀) (ht : w.updateThread = some t) :
    (w.updateStep buildOutbound t).Inv pin₀ := by
  cases t with
  | locked feed nodes =>
    have hpending : w.pendingGroups = w.groups := by rw [pendingGroups, ht]
    cases hr : registerFeed buildOutbound w.plan w.nodes feed nodes with
    | error e =>
      simp only [updateStep, hr]
      exact h.sameGroups rfl rfl rfl hpending.symm rfl rfl rfl fun _ _ _ heq => by cases heq
    | ok table =>
      simp only [updateStep, hr]
      exact h.sameGroups rfl rfl rfl hpending.symm rfl rfl rfl fun _ _ _ heq => by cases heq
  | registered =>
    have hpending : w.pendingGroups = w.groups := by rw [pendingGroups, ht]
    refine h.sameGroups rfl rfl rfl hpending.symm rfl rfl rfl ?_
    intro pn rest groups heq e he
    cases heq
    exact List.mem_map.2 ⟨e, (List.perm_insertionSort _ _).mem_iff.1 he, rfl⟩
  | copying providerNodes rest groups =>
    have hpending : w.pendingGroups = groups := by rw [pendingGroups, ht]
    cases rest with
    | nil => exact inv_publish h ht
    | cons g rest =>
      obtain ⟨group, base⟩ := g
      by_cases hfeed : base.hasFeed = true
      · simp only [updateStep, hfeed, if_true]
        exact inv_rebuild h ht
      · simp only [updateStep, hfeed]
        refine h.sameGroups rfl rfl rfl hpending.symm rfl rfl rfl ?_
        intro pn rest' groups' heq e he
        cases heq
        exact h.rest _ _ _ ht e (List.mem_cons_of_mem _ he)
  | returning =>
    have hpending : w.pendingGroups = w.groups := by rw [pendingGroups, ht]
    exact h.sameGroups rfl rfl rfl hpending.symm rfl rfl rfl fun _ _ _ heq => by cases heq

/-! ### Runs -/

/-- Each guarded move keeps the invariant. -/
theorem inv_step (buildOutbound : ParsedNode κ → Except Str ω) {m : Move κ} (h : w.Inv pin₀)
    (hguard : m.Guarded w) (hs : w.step buildOutbound m = some w') : w'.Inv pin₀ := by
  -- a call that takes the free lock has seen nothing yet
  have hlock : w.pinThread.isSome = false → ∀ t : PinThread,
      (∀ group, target pin₀ w.log group (some t) = some (settled pin₀ w.log group)) →
      (∀ group, rowTarget w.log group (some t) = lastOutcome w.log group) →
      w.ThreadOk pin₀ (some t) → (w.pinNext t).Inv pin₀ := by
    intro hfree t htarget hrow hok
    have ht : w.pinThread = none := Option.isNone_iff_eq_none.1 (by simpa using hfree)
    refine h.sameCells rfl rfl rfl rfl (fun group p hp => ?_)
      (fun store hstore group p hp => h.rows store hstore group p ?_) hok
    · rw [ht, target_none]
      exact (htarget group).symm.trans hp
    · rw [ht, rowTarget_none]
      exact (hrow group).symm.trans hp
  cases m with
  | setGroupPin group node source =>
    simp only [step] at hs
    split_ifs at hs with hfree hnode
    · cases hs
      exact hlock (by simpa using hfree) _ (fun _ => rfl) (fun _ => rfl) trivial
    · cases hs
      exact hlock (by simpa using hfree) _ (fun _ => rfl) (fun _ => rfl) trivial
  | clearGroupPin group =>
    simp only [step] at hs
    split_ifs at hs with hfree
    cases hs
    exact hlock (by simpa using hfree) _ (fun _ => rfl) (fun _ => rfl) trivial
  | pin nowMs commits =>
    obtain ⟨t, ht, hs⟩ := Option.bind_eq_some_iff.1 hs
    exact inv_pinStep h ht hguard hs
  | applyFeedNodes feed nodes =>
    simp only [step] at hs
    by_cases hfeed : feed ∈ w.plan.feeds
    · rw [if_neg (not_not.2 hfeed)] at hs
      split_ifs at hs with hfree
      cases hs
      have ht : w.updateThread = none := Option.isNone_iff_eq_none.1 (by simpa using hfree)
      have hpending : w.pendingGroups = w.groups := by rw [pendingGroups, ht]
      exact h.sameGroups rfl rfl rfl hpending.symm rfl rfl rfl fun _ _ _ heq => by cases heq
    · rw [if_pos hfeed] at hs
      cases hs
      exact h
  | update =>
    obtain ⟨t, ht, rfl⟩ := Option.map_eq_some_iff.1 hs
    exact inv_updateStep buildOutbound h ht

/-- The world of a runtime in which nothing runs: one cell for each group. -/
def ofRuntime (r : Runtime κ ω) : World κ ω where
  plan := r.plan
  nodes := r.nodes
  cells := r.groups.entries
  groups :=
    { entries := r.groups.entries.zipIdx.map fun e => (e.1.1, e.2)
      nodup := by
        have hkeys : (r.groups.entries.zipIdx.map fun e => (e.1.1, e.2)).map Prod.fst =
            (r.groups.entries.zipIdx.map Prod.fst).map Prod.fst := by
          rw [List.map_map, List.map_map]
          rfl
        rw [hkeys, List.zipIdx_map_fst]
        exact r.groups.nodup }
  store := r.store
  pinThread := none
  updateThread := none
  log := []

theorem getElem?_ofRuntime {r : Runtime κ ω} {group : Str} {cell : Nat} :
    (ofRuntime r).groups.get? group = some cell ↔
      ∃ s, r.groups.entries[cell]? = some (group, s) := by
  rw [AssocMap.get?_eq_some]
  change (group, cell) ∈ r.groups.entries.zipIdx.map (fun e => (e.1.1, e.2)) ↔ _
  rw [List.mem_map]
  constructor
  · rintro ⟨⟨⟨g, s⟩, i⟩, hmem, heq⟩
    cases heq
    exact ⟨s, List.mem_zipIdx_iff_getElem?.1 hmem⟩
  · rintro ⟨s, hs⟩
    exact ⟨((group, s), cell), List.mem_zipIdx_iff_getElem?.2 hs, rfl⟩

theorem inv_ofRuntime (r : Runtime κ ω)
    (hplan : ∀ group ∈ r.plan.groupNames, ∃ s, r.groups.get? group = some s) :
    (ofRuntime r).Inv fun group => (r.groups.get? group).bind GroupSelector.pin := by
  refine ⟨fun group cell hreach => ?_, fun _ _ _ _ hp => (Option.some_ne_none _ hp.symm).elim,
    trivial, fun group hg => ?_, fun _ _ _ heq => by cases heq⟩
  · obtain ⟨s, hs⟩ := getElem?_ofRuntime.1 (hreach.elim id id)
    refine ⟨s, hs, fun pin hp => ?_⟩
    have hget : r.groups.get? group = some s :=
      AssocMap.get?_eq_some.2 (List.mem_of_getElem? hs)
    cases hp
    change forgetSource s.pin = forgetSource ((r.groups.get? group).bind GroupSelector.pin)
    rw [hget, Option.bind_some]
  · obtain ⟨s, hs⟩ := hplan group hg
    obtain ⟨cell, hcell⟩ := List.getElem?_of_mem (AssocMap.get?_eq_some.1 hs)
    exact ⟨cell, getElem?_ofRuntime.2 ⟨s, hcell⟩⟩

/-- One move of a run. -/
def Steps (buildOutbound : ParsedNode κ → Except Str ω) (w w' : World κ ω) : Prop :=
  ∃ m : Move κ, w.step buildOutbound m = some w'

/-- One guarded move of a run. -/
def GuardedSteps (buildOutbound : ParsedNode κ → Except Str ω) (w w' : World κ ω) : Prop :=
  ∃ m : Move κ, m.Guarded w ∧ w.step buildOutbound m = some w'

theorem inv_run {buildOutbound : ParsedNode κ → Except Str ω}
    (hrun : Relation.ReflTransGen (GuardedSteps buildOutbound) w w') (h : w.Inv pin₀) :
    w'.Inv pin₀ := by
  induction hrun with
  | refl => exact h
  | tail _ hstep ih =>
    obtain ⟨m, hguard, hs⟩ := hstep
    exact inv_step buildOutbound ih hguard hs

/-- **No lost pin.**  For every interleaving of calls and updates whose moves are all guarded: once all
of them have completed, each group has the pin of the last successful call for it, in memory and in
the store. -/
theorem guarded_pinsKept (buildOutbound : ParsedNode κ → Except Str ω) (plan : RuntimePlan κ)
    (outbounds : AssocMap Str ω) (store : Option Store) (reads : Table → Bool)
    (nowMs : Str → UInt64) {w : World κ ω}
    (hrun : Relation.ReflTransGen (GuardedSteps buildOutbound)
      (ofRuntime (Runtime.build plan outbounds store reads nowMs)) w)
    (hquiet : w.Quiet) : w.PinsKept := by
  refine pinsKept_of_inv (inv_run hrun (inv_ofRuntime _ fun group hg => ?_)) hquiet
  rw [Runtime.get?_build]
  obtain ⟨s, hs⟩ := plan.exists_get?_freshGroups hg
  rw [hs]
  exact ⟨_, rfl⟩

/-- The moves of a list, one after the other. -/
def run (buildOutbound : ParsedNode κ → Except Str ω) (w : World κ ω) (moves : List (Move κ)) :
    Option (World κ ω) :=
  moves.foldlM (fun w m => w.step buildOutbound m) w

theorem steps_of_run {buildOutbound : ParsedNode κ → Except Str ω} {moves : List (Move κ)}
    (h : w.run buildOutbound moves = some w') :
    Relation.ReflTransGen (Steps buildOutbound) w w' := by
  induction moves generalizing w with
  | nil =>
    cases h
    exact .refl
  | cons m moves ih =>
    rw [run, List.foldlM_cons] at h
    obtain ⟨w₁, hw₁, h⟩ := Option.bind_eq_some_iff.1 h
    exact .head ⟨m, hw₁⟩ (ih h)

instance (w : World κ ω) (m : Move κ) : Decidable (m.Guarded w) :=
  match m with
  | .pin _ _ =>
    match hw : w.writes with
    | none => .isTrue fun _ _ h => by rw [hw] at h; cases h
    | some (group, cell) => decidable_of_iff
        (w.groups.get? group = some cell ∧ w.pendingGroups.get? group = some cell)
        ⟨fun h _ _ heq => by rw [hw] at heq; cases heq; exact h, fun h => h group cell hw⟩
  | .setGroupPin _ _ _ => .isTrue trivial
  | .clearGroupPin _ => .isTrue trivial
  | .applyFeedNodes _ _ => .isTrue trivial
  | .update => .isTrue trivial

/-- The moves of a list, as long as they are guarded. -/
def guardedRun (buildOutbound : ParsedNode κ → Except Str ω) (w : World κ ω)
    (moves : List (Move κ)) : Option (World κ ω) :=
  moves.foldlM (fun w m => if m.Guarded w then w.step buildOutbound m else none) w

theorem guardedSteps_of_run {buildOutbound : ParsedNode κ → Except Str ω} {moves : List (Move κ)}
    (h : w.guardedRun buildOutbound moves = some w') :
    Relation.ReflTransGen (GuardedSteps buildOutbound) w w' := by
  induction moves generalizing w with
  | nil =>
    cases h
    exact .refl
  | cons m moves ih =>
    rw [guardedRun, List.foldlM_cons] at h
    obtain ⟨w₁, hw₁, h⟩ := Option.bind_eq_some_iff.1 h
    split_ifs at hw₁ with hg
    exact .head ⟨m, hg, hw₁⟩ (ih h)

/-- A group of a feed and a node, and an empty store. -/
def feedWorld : World Unit Unit :=
  ofRuntime (Runtime.build
    { feeds := ["f".toList]
      nodes := []
      groups := AssocMap.empty.insert "g".toList
        { choose := .fast, members := ["feed:f".toList, "a".toList] } }
    AssocMap.empty (some { groupPin := AssocMap.empty, groupManual := AssocMap.empty })
    (fun _ => true) (fun _ => 0))

/-- The steps of a call that pins the node: load, read, write, persist, and return. -/
def pinNode : List (Move Unit) :=
  [.setGroupPin "g".toList "a".toList .clashApi, .pin 7 true, .pin 7 true, .pin 7 true, .pin 7 true,
    .pin 7 true]

/-- The steps of an update without nodes: register, load, copy, publish, and return. -/
def updateFeed : List (Move Unit) :=
  [.applyFeedNodes "f".toList [], .update, .update, .update, .update, .update]

/-- Whether all has completed, with the last outcome for the group and its pin. -/
def summary (w : World Unit Unit) :
    Bool × Option (Option GroupPin) × Option (Option GroupPin) :=
  (w.pinThread.isNone && w.updateThread.isNone, lastOutcome w.log "g".toList,
    (w.published "g".toList).map GroupSelector.pin)

theorem quiet_of_summary {w : World Unit Unit} (h : w.summary.1 = true) : w.Quiet := by
  obtain ⟨hp, hu⟩ := Bool.and_eq_true_iff.1 h
  exact ⟨Option.isNone_iff_eq_none.1 hp, Option.isNone_iff_eq_none.1 hu⟩

/-- A pin that is set before an update copies it survives. -/
theorem guarded_pinsKept_before :
    ∃ w : World Unit Unit,
      Relation.ReflTransGen (GuardedSteps fun _ => .ok ()) feedWorld w ∧ w.Quiet ∧ w.PinsKept ∧
      lastOutcome w.log "g".toList = some (some ⟨"a".toList, 1, 7, .clashApi⟩) := by
  have hsum : (feedWorld.guardedRun (fun _ => .ok ()) (pinNode ++ updateFeed)).map summary =
      some (true, some (some ⟨"a".toList, 1, 7, .clashApi⟩),
        some (some ⟨"a".toList, 1, 7, .restored⟩)) := by
    decide +kernel
  obtain ⟨w, hw, hsum⟩ := Option.map_eq_some_iff.1 hsum
  have hquiet : w.Quiet := quiet_of_summary (by rw [hsum])
  refine ⟨w, guardedSteps_of_run hw, hquiet, ?_, (Prod.mk.inj (Prod.mk.inj hsum).2).1⟩
  exact guarded_pinsKept (fun _ => .ok ()) _ _ _ _ _ (guardedSteps_of_run hw) hquiet

/-- A pin that is set between the copy of an update and its publication is lost. -/
theorem pin_lost_between_copy_and_publication :
    ¬∀ w : World Unit Unit, Relation.ReflTransGen (Steps fun _ => .ok ()) feedWorld w →
      w.Quiet → w.PinsKept := by
  intro h
  have hsum : (feedWorld.run (fun _ => .ok ())
      (updateFeed.take 4 ++ pinNode ++ updateFeed.drop 4)).map summary =
      some (true, some (some ⟨"a".toList, 1, 7, .clashApi⟩), some none) := by
    decide +kernel
  obtain ⟨w, hw, hsum⟩ := Option.map_eq_some_iff.1 hsum
  have hkept := h w (steps_of_run hw) (quiet_of_summary (by rw [hsum]))
  obtain ⟨hlast, hpin⟩ := Prod.mk.inj (Prod.mk.inj hsum).2
  obtain ⟨s, hs, hnone⟩ := Option.map_eq_some_iff.1 hpin
  have hsame := (hkept "g".toList _ hlast).1 s hs
  rw [hnone] at hsame
  cases hsame

end World

end WutherCore.Engine
