import Mathlib
import WutherCore.Engine.Feeds

/-!
# Pins and feed updates at the same time

Calls that move a pin hold one lock and feed updates hold another, so that one of each may run at a
time, step by step.  A selector is a cell that is shared by whoever has loaded it: an update copies the
pins of the groups that it builds anew into new cells and then publishes all of them at once.

* `World`: the cells, the groups that are published, the store, and the two threads that hold the locks;
* `World.step`: one step of one of the threads, or a call that takes a free lock;
* `World.PinsKept`: no pin is lost;
* `Move.Guarded`: the moves that lose none.
-/

namespace WutherCore.Engine

open WutherCore.Text WutherCore.Data

variable {κ ω : Type}

/-! ### Threads -/

/-- The call that holds the lock of the pins, by what it does next. -/
inductive PinThread
  /-- `set_group_pin`: load the groups and find the selector. -/
  | setLocked (group node : Str) (source : PinSource)
  /-- Read the pin and the pick that are there. -/
  | setLoaded (group node : Str) (source : PinSource) (cell : Nat) (strategy : ChooseStrategy)
  /-- Write the pin, and with it the counter and the pick, which no other thread reads. -/
  | setRead (group node : Str) (source : PinSource) (cell : Nat) (strategy : ChooseStrategy)
      (previousPin : Option GroupPin) (previousPick : Option Str)
  /-- Persist the pin. -/
  | setWritten (group : Str) (cell : Nat) (strategy : ChooseStrategy) (pin : GroupPin)
      (previousPin : Option GroupPin) (previousPick : Option Str)
  /-- Write back what was there. -/
  | setFailed (group : Str) (cell : Nat) (previousPin : Option GroupPin)
      (previousPick : Option Str)
  /-- `clear_group_pin`: load the groups and find the selector. -/
  | clearLocked (group : Str)
  /-- Delete the row. -/
  | clearLoaded (group : Str) (cell : Nat)
  /-- Clear the pin. -/
  | clearPersisted (group : Str) (cell : Nat)
  /-- Return, with the pin that the group has now if the call has succeeded, and unlock. -/
  | returning (outcome : Option (Str × Option GroupPin))

/-- The update that holds the lock of the nodes, by what it does next. -/
inductive UpdateThread (κ : Type)
  /-- Check the nodes and register them. -/
  | locked (feed : Str) (nodes : List (ParsedNode κ))
  /-- Load the groups. -/
  | registered
  /-- Build the next group anew, or publish the groups. -/
  | copying (providerNodes : AssocMap Str (List Str)) (rest : List (Str × GroupPlan))
      (groups : AssocMap Str Nat)
  /-- Return and unlock. -/
  | returning

/-- The state that the threads share.  A cell is a selector with the name of its group.  `log` is the
history of the calls that have succeeded, the latest first. -/
structure World (κ ω : Type) where
  plan : RuntimePlan κ
  nodes : NodeTable κ ω
  cells : List (Str × GroupSelector)
  groups : AssocMap Str Nat
  store : Option Store
  pinThread : Option PinThread
  updateThread : Option (UpdateThread κ)
  log : List (Str × Option GroupPin)

/-- What can happen next. -/
inductive Move (κ : Type)
  /-- A call takes the lock of the pins. -/
  | setGroupPin (group node : Str) (source : PinSource)
  | clearGroupPin (group : Str)
  /-- The thread that holds the lock of the pins goes on. -/
  | pin (nowMs : UInt64) (commits : Bool)
  /-- An update takes the lock of the nodes. -/
  | applyFeedNodes (feed : Str) (nodes : List (ParsedNode κ))
  /-- The thread that holds the lock of the nodes goes on. -/
  | update

namespace World

variable (w : World κ ω)

/-- The selector in a cell. -/
def selector (cell : Nat) : Option GroupSelector := w.cells[cell]?.map Prod.snd

/-- A selector written to its cell. -/
def write (cell : Nat) (s : GroupSelector) : World κ ω :=
  { w with cells := w.cells.modify cell fun c => (c.1, s) }

/-- The thread of the pins goes on to another step. -/
def pinNext (t : PinThread) : World κ ω := { w with pinThread := some t }

/-- The thread of the nodes goes on to another step. -/
def updateNext (t : UpdateThread κ) : World κ ω := { w with updateThread := some t }

/-- A batch of writes to the store; `none` is an error. -/
def commit (commits : Bool) (ops : List BatchOp) : Option (World κ ω) :=
  (commitBatch w.store commits ops).map fun store => { w with store }

/-- One step of a call. -/
def pinStep (nowMs : UInt64) (commits : Bool) : PinThread → Option (World κ ω)
  | .setLocked group node source =>
    match w.groups.get? group with
    | none => some (w.pinNext (.returning none))
    | some cell => (w.selector cell).map fun s =>
      if node ∉ s.members then w.pinNext (.returning none)
      else w.pinNext (.setLoaded group node source cell s.plan.choose)
  | .setLoaded group node source cell strategy => (w.selector cell).map fun s =>
    w.pinNext (.setRead group node source cell strategy s.currentPin s.lastPick)
  | .setRead group node source cell strategy previousPin previousPick =>
    (w.selector cell).map fun s =>
      let pinned := s.setPin node source nowMs
      (w.write cell pinned.2).pinNext
        (.setWritten group cell strategy pinned.1 previousPin previousPick)
  | .setWritten group cell strategy pin previousPin previousPick =>
    match w.commit commits [.putGroupPin group (pin.blob strategy),
        .delete .groupManual group] with
    | none => some (w.pinNext (.setFailed group cell previousPin previousPick))
    | some w => some (w.pinNext (.returning (some (group, some pin))))
  | .setFailed _ cell previousPin previousPick => (w.selector cell).map fun s =>
    (w.write cell (s.restorePinAfterFailedCommit previousPin previousPick)).pinNext
      (.returning none)
  | .clearLocked group =>
    match w.groups.get? group with
    | none => some (w.pinNext (.returning none))
    | some cell => some (w.pinNext (.clearLoaded group cell))
  | .clearLoaded group cell =>
    match w.commit commits [.delete .groupPin group, .delete .groupManual group] with
    | none => some (w.pinNext (.returning none))
    | some w => some (w.pinNext (.clearPersisted group cell))
  | .clearPersisted group cell => (w.selector cell).map fun s =>
    (w.write cell s.clearPin.2).pinNext (.returning (some (group, none)))
  | .returning outcome =>
    some { w with pinThread := none, log := outcome.toList ++ w.log }

/-- One step of an update. -/
def updateStep (buildOutbound : ParsedNode κ → Except Str ω) :
    UpdateThread κ → World κ ω
  | .locked feed nodes =>
    match registerFeed buildOutbound w.plan w.nodes feed nodes with
    | .error _ => w.updateNext .returning
    | .ok table => { w with nodes := table, updateThread := some .registered }
  | .registered => w.updateNext
    (.copying (providerNodesByName w.nodes.nodeInfo) w.plan.groups.sorted w.groups)
  | .copying providerNodes ((group, base) :: rest) groups =>
    if base.hasFeed then
      let old := (groups.get? group).bind w.selector
      { w with
        cells := w.cells ++ [(group, rebuildGroup providerNodes base old)]
        updateThread :=
          some (.copying providerNodes rest (groups.insert group w.cells.length)) }
    else w.updateNext (.copying providerNodes rest groups)
  | .copying _ [] groups => { w with groups, updateThread := some .returning }
  | .returning => { w with updateThread := none }

/-- One move, where it is possible. -/
def step (buildOutbound : ParsedNode κ → Except Str ω) : Move κ → Option (World κ ω)
  | .setGroupPin group node source =>
    if w.pinThread.isSome then none
    else some (w.pinNext
      (if node = [] then .clearLocked group else .setLocked group node source))
  | .clearGroupPin group =>
    if w.pinThread.isSome then none else some (w.pinNext (.clearLocked group))
  | .pin nowMs commits => w.pinThread.bind (w.pinStep nowMs commits)
  | .applyFeedNodes feed nodes =>
    -- an unknown feed is refused before the lock
    if feed ∉ w.plan.feeds then some w
    else if w.updateThread.isSome then none else some (w.updateNext (.locked feed nodes))
  | .update => w.updateThread.map (w.updateStep buildOutbound)

/-! ### What is to hold -/

/-- All calls and updates have completed. -/
def Quiet : Prop := w.pinThread = none ∧ w.updateThread = none

/-- The selector of a group that is published. -/
def published (group : Str) : Option GroupSelector := (w.groups.get? group).bind w.selector

end World

/-- What the last successful call for a group has left: `none` if there was none. -/
def lastOutcome (log : List (Str × Option GroupPin)) (group : Str) : Option (Option GroupPin) :=
  (log.find? (·.1 = group)).map Prod.snd

/-- A pin but for the note of its source, which a rebuilt group does not keep. -/
def forgetSource (pin : Option GroupPin) : Option GroupPin :=
  pin.map fun pin => { pin with source := .restored }

/-- No pin is lost: each group has the pin of its last successful call, in memory and in the store. -/
def World.PinsKept (w : World κ ω) : Prop :=
  ∀ group pin, lastOutcome w.log group = some pin →
    (∀ s, w.published group = some s → forgetSource s.pin = forgetSource pin) ∧
    ∀ store, w.store = some store →
      ∃ strategy, store.groupPin.get? group = pin.map (GroupPin.blob strategy)

/-- The groups as the update under way will publish them. -/
def World.pendingGroups (w : World κ ω) : AssocMap Str Nat :=
  match w.updateThread with
  | some (.copying _ _ groups) => groups
  | _ => w.groups

/-- The group and the cell that the thread of the pins writes a pin to next. -/
def World.writes (w : World κ ω) : Option (Str × Nat) :=
  match w.pinThread with
  | some (.setRead group _ _ cell _ _ _) => some (group, cell)
  | some (.setFailed group cell _ _) => some (group, cell)
  | some (.clearPersisted group cell) => some (group, cell)
  | _ => none

/-- The moves that lose no pin: a pin is written to the cell that is published, while no update under
way has copied it. -/
def Move.Guarded (w : World κ ω) : Move κ → Prop
  | .pin _ _ => ∀ group cell, w.writes = some (group, cell) →
      w.groups.get? group = some cell ∧ w.pendingGroups.get? group = some cell
  | _ => True

end WutherCore.Engine
