import Mathlib.Logic.Function.Basic
import WutherCore.Data.Indexed
import WutherCore.Data.Moves
import WutherCore.Net.Addr

/-!
# The flow table of the NAT

`NatTable` of `nat.rs` keeps an entry for each flow under a number, with an index from the flow to the
number.  Threads work on it at the same time.  Who inserts, touches, looks up or removes first takes the
lock of the flow's place in the index, and holds it while it goes to the entry; but the numbers that
`touch`, `remove` and `purge` work with were read before that, when anything could still happen.

* `NatTable`, `World`, `World.step`: the maps, the threads, and one access to a map in each step.
* `World.Sound`: the maps are inverse to each other when nobody is at work, a flow keeps its number, no
  entry becomes older, and `purge` removes what has been out of use for long enough.
* `Move.Guarded`: a new flow does not get a number that is in use.  The numbers have 64 bits and start
  again at zero.
-/

namespace WutherCore.Capture

open WutherCore.Net WutherCore.Data

/-- `FlowKey`. -/
structure FlowKey where
  network : String
  src : SocketAddr
  dst : SocketAddr
  deriving DecidableEq

/-- `NatEntry`. -/
structure NatEntry where
  source : SocketAddr
  originalDst : SocketAddr
  fakeHost : Option String
  network : String
  createdAt : Nat
  lastSeen : Nat

/-- `FlowKey::from_entry`. -/
def NatEntry.flowKey (e : NatEntry) : FlowKey := ⟨e.network, e.source, e.originalDst⟩

/-- The update of an entry by `insert`. -/
def NatEntry.merge (current entry : NatEntry) : NatEntry :=
  { current with
    createdAt := if entry.createdAt < current.createdAt then entry.createdAt else current.createdAt
    lastSeen := if current.lastSeen < entry.lastSeen then entry.lastSeen else current.lastSeen
    fakeHost := if entry.fakeHost.isSome then entry.fakeHost else current.fakeHost }

theorem NatEntry.lastSeen_merge (current entry : NatEntry) :
    (current.merge entry).lastSeen = max current.lastSeen entry.lastSeen := by
  show (if current.lastSeen < entry.lastSeen then entry.lastSeen else current.lastSeen) = _
  split_ifs <;> omega

/-- The update of an entry by `touch` and `lookup_flow`. -/
def NatEntry.touch (now : Nat) (e : NatEntry) : NatEntry := { e with lastSeen := now }

/-- `NatTable`. -/
structure NatTable where
  map : AssocMap UInt64 NatEntry
  byFlow : AssocMap FlowKey UInt64
  ttl : Nat
  nextId : UInt64

/-- `NatTable::new`. -/
def NatTable.new (ttl : Nat) : NatTable := ⟨.empty, .empty, ttl, 1⟩

namespace NatTable

/-- What a call returns. -/
inductive Reply
  | inserted (key : FlowKey) (id : UInt64)
  | touched
  | found (entry : Option NatEntry)
  | removed (entry : Option NatEntry)
  | purged

/-- Where a thread stands.  The lock of a flow is held from the lookup in the index on. -/
inductive Phase
  | idle
  | insert (entry : NatEntry)
  | insertOccupied (entry : NatEntry) (id : UInt64)
  | insertMissing (entry : NatEntry) (id : UInt64)
  | insertVacant (entry : NatEntry)
  | insertStore (entry : NatEntry) (id : UInt64)
  | insertPublish (entry : NatEntry) (id : UInt64)
  | touch (id : UInt64)
  | touchLock (id : UInt64) (key : FlowKey)
  | touchOccupied (id : UInt64) (key : FlowKey)
  | lookupFlow (key : FlowKey)
  | lookupOccupied (key : FlowKey) (id : UInt64)
  | lookupMissing (key : FlowKey)
  | remove (id : UInt64)
  | removeLock (id : UInt64) (key : FlowKey)
  | removeLocked (id : UInt64) (key : FlowKey)
  | removeIndex (id : UInt64) (key : FlowKey) (removed : Option NatEntry)
  | purgeCollect (now : Nat) (candidates : List (UInt64 × FlowKey))
  | purgeNext (now : Nat) (candidates : List (UInt64 × FlowKey))
  | purgeLocked (now : Nat) (id : UInt64) (key : FlowKey) (rest : List (UInt64 × FlowKey))
  | purgeExpired (now : Nat) (id : UInt64) (key : FlowKey) (rest : List (UInt64 × FlowKey))
  | purgeIndex (now : Nat) (id : UInt64) (key : FlowKey) (rest : List (UInt64 × FlowKey))
  | returned (reply : Reply)

/-- The flow whose lock is held. -/
def Phase.holds : Phase → Option FlowKey
  | .insertOccupied e _ | .insertMissing e _ | .insertVacant e | .insertStore e _
  | .insertPublish e _ => some e.flowKey
  | .touchOccupied _ key | .lookupOccupied key _ | .lookupMissing key | .removeLocked _ key
  | .removeIndex _ key _ | .purgeLocked _ _ key _ | .purgeExpired _ _ key _ | .purgeIndex _ _ key _ =>
      some key
  | .idle | .insert _ | .touch _ | .touchLock _ _ | .lookupFlow _ | .remove _ | .removeLock _ _
  | .purgeCollect _ _ | .purgeNext _ _ | .returned _ => none

/-- The numbers that a thread has in hand, with the flows that they stood for. -/
def Phase.handles : Phase → List (UInt64 × FlowKey)
  | .insertOccupied e id | .insertMissing e id | .insertStore e id | .insertPublish e id =>
      [(id, e.flowKey)]
  | .touchLock id key | .touchOccupied id key | .lookupOccupied key id | .removeLock id key
  | .removeLocked id key | .removeIndex id key _ => [(id, key)]
  | .purgeCollect _ candidates | .purgeNext _ candidates => candidates
  | .purgeLocked _ id key rest | .purgeExpired _ id key rest | .purgeIndex _ id key rest =>
      (id, key) :: rest
  | .idle | .insert _ | .insertVacant _ | .touch _ | .lookupFlow _ | .lookupMissing _ | .remove _
  | .returned _ => []

/-- What a thread is asked to do. -/
inductive Call
  | insert (entry : NatEntry)
  | touch (id : UInt64)
  | lookupFlow (key : FlowKey)
  | remove (id : UInt64)
  | purge

/-- The table, the clock, the locks and the threads; with the flow that each number was last given to. -/
structure World where
  table : NatTable
  now : Nat
  locks : FlowKey → Option Nat
  threads : Nat → Phase
  owner : UInt64 → Option FlowKey

/-- What happens. `look` is the iteration of `purge`, which comes to each entry at some time. -/
inductive Move
  | tick (span : Nat)
  | call (i : Nat) (c : Call)
  | look (i : Nat) (id : UInt64)
  | collected (i : Nat)
  | act (i : Nat)

namespace World

/-- The empty table. -/
def init (ttl now : Nat) : World := ⟨.new ttl, now, fun _ => none, fun _ => .idle, fun _ => none⟩

variable (w : World)

/-- A thread goes on. -/
def goTo (i : Nat) (phase : Phase) : World := { w with threads := Function.update w.threads i phase }

/-- A thread takes a lock that nobody holds. -/
def acquire (i : Nat) (key : FlowKey) (phase : Phase) : Option World :=
  if w.locks key = none then
    some { w.goTo i phase with locks := Function.update w.locks key (some i) }
  else none

/-- A thread gives its lock back. -/
def release (i : Nat) (key : FlowKey) (phase : Phase) : World :=
  { w.goTo i phase with locks := Function.update w.locks key none }

/-- A change of the map of the entries. -/
def setMap (map : AssocMap UInt64 NatEntry) : World := { w with table := { w.table with map := map } }

/-- A change of the index. -/
def setByFlow (byFlow : AssocMap FlowKey UInt64) : World :=
  { w with table := { w.table with byFlow := byFlow } }

/-- `index.remove()` if the index still leads to the number. -/
def unindex (id : UInt64) (key : FlowKey) : World :=
  if w.table.byFlow.get? key = some id then w.setByFlow (w.table.byFlow.erase key) else w

/-- An entry is out of use since the time to live, for `purge`. -/
def isExpired (now : Nat) (e : NatEntry) : Bool := w.table.ttl ≤ now - e.lastSeen

/-- The beginning of a call.  The times of an entry have been read from the clock. -/
def begin (i : Nat) : Call → Option World
  | .insert e => if e.lastSeen ≤ w.now then some (w.goTo i (.insert e)) else none
  | .touch id => some (w.goTo i (.touch id))
  | .lookupFlow key => some (w.goTo i (.lookupFlow key))
  | .remove id => some (w.goTo i (.remove id))
  | .purge => some (w.goTo i (.purgeCollect w.now []))

/-- The next step of a thread. -/
def act (i : Nat) : Phase → Option World
  | .idle => none
  | .insert e =>
      match w.table.byFlow.get? e.flowKey with
      | some id => w.acquire i e.flowKey (.insertOccupied e id)
      | none => w.acquire i e.flowKey (.insertVacant e)
  | .insertOccupied e id =>
      if w.table.map.contains id then
        some ((w.setMap (w.table.map.modify id (·.merge e))).release i e.flowKey
          (.returned (.inserted e.flowKey id)))
      else some (w.goTo i (.insertMissing e id))
  | .insertMissing e id =>
      some ((w.setMap (w.table.map.insert id e)).release i e.flowKey (.returned (.inserted e.flowKey id)))
  | .insertVacant e =>
      some
        { w.goTo i (.insertStore e w.table.nextId) with
          table := { w.table with nextId := w.table.nextId + 1 }
          owner := Function.update w.owner w.table.nextId (some e.flowKey) }
  | .insertStore e id => some ((w.setMap (w.table.map.insert id e)).goTo i (.insertPublish e id))
  | .insertPublish e id =>
      some ((w.setByFlow (w.table.byFlow.insert e.flowKey id)).release i e.flowKey
        (.returned (.inserted e.flowKey id)))
  | .touch id =>
      match w.table.map.get? id with
      | some e => some (w.goTo i (.touchLock id e.flowKey))
      | none => some (w.goTo i (.returned .touched))
  | .touchLock id key =>
      if w.table.byFlow.get? key = some id then w.acquire i key (.touchOccupied id key)
      else if w.locks key = none then some (w.goTo i (.returned .touched)) else none
  | .touchOccupied id key =>
      some ((w.setMap (w.table.map.modify id (·.touch w.now))).release i key (.returned .touched))
  | .lookupFlow key =>
      match w.table.byFlow.get? key with
      | some id => w.acquire i key (.lookupOccupied key id)
      | none => if w.locks key = none then some (w.goTo i (.returned (.found none))) else none
  | .lookupOccupied key id =>
      match w.table.map.get? id with
      | some e =>
          some ((w.setMap (w.table.map.modify id (·.touch w.now))).release i key
            (.returned (.found (some (e.touch w.now)))))
      | none => some (w.goTo i (.lookupMissing key))
  | .lookupMissing key =>
      some ((w.setByFlow (w.table.byFlow.erase key)).release i key (.returned (.found none)))
  | .remove id =>
      match w.table.map.get? id with
      | some e => some (w.goTo i (.removeLock id e.flowKey))
      | none => some (w.goTo i (.returned (.removed none)))
  | .removeLock id key => w.acquire i key (.removeLocked id key)
  -- without an entry in the index the next step has nothing to remove there
  | .removeLocked id key =>
      some ((w.setMap (w.table.map.erase id)).goTo i (.removeIndex id key (w.table.map.get? id)))
  | .removeIndex id key removed =>
      some ((w.unindex id key).release i key (.returned (.removed removed)))
  | .purgeCollect _ _ => none
  | .purgeNext _ [] => some (w.goTo i (.returned .purged))
  | .purgeNext now ((id, key) :: rest) => w.acquire i key (.purgeLocked now id key rest)
  | .purgeLocked now id key rest =>
      if (w.table.map.get? id).any (w.isExpired now) then some (w.goTo i (.purgeExpired now id key rest))
      else some (w.release i key (.purgeNext now rest))
  | .purgeExpired now id key rest =>
      if w.table.map.contains id then
        some ((w.setMap (w.table.map.erase id)).goTo i (.purgeIndex now id key rest))
      else some (w.release i key (.purgeNext now rest))
  | .purgeIndex now id key rest => some ((w.unindex id key).release i key (.purgeNext now rest))
  | .returned _ => some (w.goTo i .idle)

/-- One move. -/
def step : Move → Option World
  | .tick span => some { w with now := w.now + span }
  | .call i c =>
      match w.threads i with
      | .idle => w.begin i c
      | _ => none
  | .look i id =>
      match w.threads i, w.table.map.get? id with
      | .purgeCollect now candidates, some e =>
          if w.isExpired now e then
            some (w.goTo i (.purgeCollect now (candidates ++ [(id, e.flowKey)])))
          else some w
      | _, _ => none
  | .collected i =>
      match w.threads i with
      | .purgeCollect now candidates => some (w.goTo i (.purgeNext now candidates))
      | _ => none
  | .act i => w.act i (w.threads i)

/-- Nobody is at work. -/
def Quiet : Prop := ∀ i, w.threads i = .idle

/-- A number is in use: by an entry, by the index, or by a thread. -/
def InUse (id : UInt64) : Prop :=
  (∃ e, w.table.map.get? id = some e) ∨ (∃ key, w.table.byFlow.get? key = some id) ∨
    ∃ i key, (id, key) ∈ (w.threads i).handles

end World

/-- A new flow does not get a number that is in use. -/
def Move.Guarded (w : World) : Move → Prop
  | .act i => ∀ e, w.threads i = .insertVacant e → ¬w.InUse w.table.nextId
  | _ => True

/-- What is promised of the table. -/
structure World.Sound (w : World) : Prop where
  inverse : w.Quiet → Indexed NatEntry.flowKey w.table.map w.table.byFlow
  keepsId : ∀ m w', w.step m = some w' → ∀ key id,
    w.table.byFlow.get? key = some id →
      w'.table.byFlow.get? key = some id ∨
        (w'.table.byFlow.get? key = none ∧ w.table.map.get? id = none)
  returnsId : ∀ i w', w.step (.act i) = some w' → ∀ key id, w'.threads i = .returned (.inserted key id) →
    w'.table.byFlow.get? key = some id ∧ ∃ e, w'.table.map.get? id = some e ∧ e.flowKey = key
  forward : ∀ m w', w.step m = some w' → ∀ id e e',
    w.table.map.get? id = some e → w'.table.map.get? id = some e' →
      e.lastSeen ≤ e'.lastSeen ∧ e'.flowKey = e.flowKey
  purged : ∀ m w', w.step m = some w' → ∀ id e, w.table.map.get? id = some e →
    w'.table.map.get? id = none →
      (∃ i key, m = .act i ∧ w.threads i = .removeLocked id key) ∨ e.lastSeen + w.table.ttl ≤ w.now

end NatTable

end WutherCore.Capture
