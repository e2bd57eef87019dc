import Mathlib
import WutherCore.Data.Moves
import WutherCore.Data.Pool

/-!
# The XMUX connection pool

`XmuxManager` hands out leases on pooled connections.  The vector of entries is behind a lock; the
counters of an entry are atomics that lease drops and `consume_request` change without it; a
creation in progress holds a slot that its drop guard gives back.

`Manager` is the pool with its calls, leases and requests, each in a phase.  A move is one access:
to an atomic, to the connection, or one round of a loop under the lock.  Reads for one decision are
one access where what they read only falls meanwhile: then the decision is the one of the first of
them, or of the last.  An `await` is a phase in which a call can be cancelled.
-/

namespace WutherCore.Xhttp.Xmux

open WutherCore.Data

/-- `i64::MAX`, which stands for a number of requests without limit. -/
abbrev maxI64 : Int := 2 ^ 63 - 1

/-- `XmuxSampleRange`. -/
structure XmuxSampleRange where
  min : Int64
  max : Int64
  deriving DecidableEq

/-- A value that `sample` may give. -/
def XmuxSampleRange.Samples (range : XmuxSampleRange) (value : Int64) : Prop :=
  if range.min = range.max then value = range.min else range.min ≤ value ∧ value < range.max

instance (range : XmuxSampleRange) (value : Int64) : Decidable (range.Samples value) :=
  inferInstanceAs (Decidable
    (if range.min = range.max then value = range.min else range.min ≤ value ∧ value < range.max))

/-- `XmuxLimits`. -/
structure XmuxLimits where
  maxConcurrency : Int
  maxConnections : Int
  cMaxReuseTimes : XmuxSampleRange
  hMaxRequestTimes : XmuxSampleRange
  hMaxReusableSecs : XmuxSampleRange

/-- `Entry`, with the values that were sampled for it, whether its connection says that it is
closed, and whether the pool closed it. -/
structure Entry where
  running : Int
  leftUsage : Int
  leftRequests : Int
  unreusableAt : Option Nat
  retired : Bool
  closed : Bool
  reuseTimes : Int
  requestTimes : Int
  poolClosed : Bool
  deriving DecidableEq

namespace Entry

/-- The entry of a new connection: the first use is the lease that its creation returns. -/
def create (reuseTimes requestTimes : Int64) (unreusableAt : Option Nat) : Entry where
  running := 1
  leftUsage := if reuseTimes.toInt > 0 then reuseTimes.toInt - 1 else -1
  leftRequests := if requestTimes.toInt > 0 then requestTimes.toInt else maxI64
  unreusableAt := unreusableAt
  retired := false
  closed := false
  reuseTimes := reuseTimes.toInt
  requestTimes := requestTimes.toInt
  poolClosed := false

/-- `request_stale`. -/
def requestStale (e : Entry) (now : Nat) : Bool :=
  e.closed || e.leftRequests == 0 || e.unreusableAt.any (· ≤ now)

/-- `stale`. -/
def stale (e : Entry) (now : Nat) : Bool :=
  e.closed || e.leftUsage == 0 || e.leftRequests == 0 || e.unreusableAt.any (· ≤ now)

/-- The first access of `retire`. -/
def setRetired (e : Entry) : Entry := { e with retired := true }

/-- `connection.close()`. -/
def close (e : Entry) : Entry := { e with closed := true, poolClosed := true }

/-- `decrement_if_positive` on `left_usage`, and one more lease. -/
def lease (e : Entry) : Entry :=
  { e with
    leftUsage := if e.leftUsage > 0 then e.leftUsage - 1 else e.leftUsage
    running := e.running + 1 }

/-- The `fetch_sub` of a lease drop. -/
def unlease (e : Entry) : Entry := { e with running := e.running - 1 }

/-- The successful `compare_exchange` of `consume_request`. -/
def serve (e : Entry) : Entry := { e with leftRequests := e.leftRequests - 1 }

end Entry

/-- What a sweep over the entries is for: to choose one, or to add a new one. -/
inductive After
  | choose
  | pool (entry : Entry)
  deriving DecidableEq

/-- Where an `acquire` call is.  `start` reads the clock and `wait` waits for the lock; `sweep` is
the `retain`, with `retire` and `shut` for an entry that is stale; then the call decides, and
either takes an entry, or reserves a slot, creates a connection and pools it, or waits. -/
inductive Phase
  | start (after : After)
  | wait (now : Nat) (after : After)
  | sweep (now : Nat) (after : After)
  | retire (e : Nat) (now : Nat) (after : After)
  | shut (e : Nat) (now : Nat) (after : After)
  | decide
  | filter (mayCreate : Bool)
  | grant (e : Nat)
  | reserve
  | create
  | release
  | notified
  | done
  deriving DecidableEq

/-- Where a lease is: in use, in one of the steps of its drop, or gone. -/
inductive LeasePhase
  | live
  | checkRetired
  | checkRunning
  | shut
  | gone
  deriving DecidableEq

/-- A lease of an entry. -/
structure Lease where
  entry : Nat
  phase : LeasePhase
  deriving DecidableEq

/-- Where a `consume_request` call is. -/
inductive RequestPhase
  | check
  | load
  | exchange (current : Int)
  | done (result : Bool)
  deriving DecidableEq

/-- A `consume_request` call on a lease of an entry. -/
structure Request where
  entry : Nat
  phase : RequestPhase
  deriving DecidableEq

/-- The pool.  `heap` has all entries that were created, `entries` those of the vector, where
`todo` is the part that a sweep has still to see. -/
structure Manager where
  clock : Nat := 0
  heap : List Entry := []
  entries : List Nat := []
  todo : List Nat := []
  lock : Option Nat := none
  creating : Nat := 0
  calls : List Phase := []
  leases : List Lease := []
  requests : List Request := []
  deriving DecidableEq

/-- One access.  In `turn`, `pick` is the random index of the entry that is chosen. -/
inductive Move
  | acquire
  | turn (call pick : Nat)
  | created (call : Nat) (reuseTimes requestTimes reusableSecs : Int64)
  | failed (call : Nat)
  | cancel (call : Nat)
  | drop (lease : Nat)
  | dropTurn (lease : Nat)
  | consume (lease : Nat)
  | requestTurn (request : Nat)
  | connectionClosed (entry : Nat)
  | tick (nanos : Nat)

namespace Manager

variable (limits : XmuxLimits)

/-- A call goes on with another phase. -/
def goto (s : Manager) (i : Nat) (phase : Phase) : Manager := { s with calls := s.calls.set i phase }

/-- An entry changes. -/
def update (s : Manager) (e : Nat) (f : Entry → Entry) : Manager :=
  { s with heap := s.heap.modify e f }

/-- The entries that have room for one more lease. -/
def candidates (s : Manager) : List Nat :=
  s.entries.filter fun e =>
    decide (limits.maxConcurrency ≤ 0) ||
      s.heap[e]?.any fun entry => entry.running < limits.maxConcurrency

/-- The checks of `acquire` before it creates a connection. -/
def mayCreate (s : Manager) : Bool :=
  let total := s.entries.length + s.creating
  let belowConnectionLimit :=
    decide (limits.maxConnections ≤ 0) || decide ((total : Int) < limits.maxConnections)
  belowConnectionLimit && (decide (limits.maxConnections > 0) || s.creating == 0)

/-- Whether the connection limit asks for another connection. -/
def createForConnectionLimit (s : Manager) : Bool :=
  decide (limits.maxConnections > 0) &&
    decide (((s.entries.length + s.creating : Nat) : Int) < limits.maxConnections)

/-- The next access of an `acquire` call. -/
def advance (s : Manager) (i pick : Nat) : Phase → Option Manager
  | .start after => some (s.goto i (.wait s.clock after))
  | .wait now after =>
      if s.lock = none then
        some { s.goto i (.sweep now after) with lock := some i, todo := s.entries, entries := [] }
      else none
  | .sweep now after =>
      match s.todo with
      | e :: todo =>
          s.heap[e]?.bind fun entry =>
            if entry.stale now then
              some { (s.update e .setRetired).goto i (.retire e now after) with todo := todo }
            else some { s with todo := todo, entries := s.entries ++ [e] }
      | [] =>
          match after with
          | .choose => some (s.goto i .decide)
          | .pool entry =>
              some { s.goto i .release with
                heap := s.heap ++ [entry]
                entries := s.entries ++ [s.heap.length]
                leases := s.leases ++ [⟨s.heap.length, .live⟩]
                lock := none }
  | .retire e now after =>
      s.heap[e]?.bind fun entry =>
        if entry.retired = true ∧ entry.running ≤ 0 then some (s.goto i (.shut e now after))
        else some (s.goto i (.sweep now after))
  | .shut e now after => some ((s.update e .close).goto i (.sweep now after))
  | .decide =>
      if (s.entries.isEmpty || s.createForConnectionLimit limits) && s.mayCreate limits then
        some (s.goto i .reserve)
      else some (s.goto i (.filter (s.mayCreate limits)))
  | .filter mayCreate =>
      if (s.candidates limits).isEmpty then
        if mayCreate then some (s.goto i .reserve)
        else some { s.goto i .notified with lock := none }
      else (s.candidates limits)[pick]?.map fun e => s.goto i (.grant e)
  | .grant e =>
      some { (s.update e .lease).goto i .done with
        leases := s.leases ++ [⟨e, .live⟩]
        lock := none }
  | .reserve => some { s.goto i .create with creating := s.creating + 1, lock := none }
  | .create => none
  | .release => some { s.goto i .done with creating := s.creating - 1 }
  | .notified => some (s.goto i (.start .choose))
  | .done => none

/-- The factory has made a connection, and its limits are sampled. -/
def created (s : Manager) (i : Nat) (reuseTimes requestTimes reusableSecs : Int64) :
    Phase → Option Manager
  | .create =>
      if limits.cMaxReuseTimes.Samples reuseTimes ∧ limits.hMaxRequestTimes.Samples requestTimes ∧
          limits.hMaxReusableSecs.Samples reusableSecs then
        let unreusableAt :=
          if reusableSecs.toInt > 0 then some (s.clock + reusableSecs.toInt.toNat * 1000000000)
          else none
        some (s.goto i (.start (.pool (.create reuseTimes requestTimes unreusableAt))))
      else none
  | _ => none

/-- The factory fails. -/
def failed (s : Manager) (i : Nat) : Phase → Option Manager
  | .create => some (s.goto i .release)
  | _ => none

/-- A call is dropped at an `await`: a creation still gives its slot back. -/
def cancel (s : Manager) (i : Nat) : Phase → Option Manager
  | .wait _ .choose => some (s.goto i .done)
  | .wait _ (.pool _) => some (s.goto i .release)
  | .create => some (s.goto i .release)
  | .notified => some (s.goto i .done)
  | _ => none

/-- The next access of a lease drop, after its `fetch_sub`. -/
def dropTurn (s : Manager) (l : Nat) (lease : Lease) : Option Manager :=
  let goto (phase : LeasePhase) : Manager :=
    { s with leases := s.leases.set l { lease with phase := phase } }
  s.heap[lease.entry]?.bind fun entry =>
    match lease.phase with
    | .live => none
    | .checkRetired => if entry.retired then some (goto .checkRunning) else some (goto .gone)
    | .checkRunning => if entry.running ≤ 0 then some (goto .shut) else some (goto .gone)
    | .shut => some { goto .gone with heap := s.heap.modify lease.entry .close }
    | .gone => none

/-- The next access of a `consume_request` call. -/
def requestTurn (s : Manager) (r : Nat) (request : Request) : Option Manager :=
  let goto (phase : RequestPhase) : Manager :=
    { s with requests := s.requests.set r { request with phase := phase } }
  s.heap[request.entry]?.bind fun entry =>
    match request.phase with
    | .check =>
        if entry.requestStale s.clock then some (goto (.done false)) else some (goto .load)
    | .load =>
        if entry.leftRequests = maxI64 then some (goto (.done true))
        else if entry.leftRequests ≤ 0 then some (goto (.done false))
        else some (goto (.exchange entry.leftRequests))
    | .exchange current =>
        if entry.leftRequests = current then
          some { goto (.done true) with heap := s.heap.modify request.entry .serve }
        else some (goto .load)
    | .done _ => none

/-- A move of the system. -/
def step (s : Manager) : Move → Option Manager
  | .acquire => some { s with calls := s.calls ++ [.start .choose] }
  | .turn i pick => s.calls[i]?.bind (s.advance limits i pick)
  | .created i reuseTimes requestTimes reusableSecs =>
      s.calls[i]?.bind (s.created limits i reuseTimes requestTimes reusableSecs)
  | .failed i => s.calls[i]?.bind (s.failed i)
  | .cancel i => s.calls[i]?.bind (s.cancel i)
  | .drop l =>
      s.leases[l]?.bind fun lease =>
        if lease.phase = .live then
          some { s.update lease.entry .unlease with
            leases := s.leases.set l { lease with phase := .checkRetired } }
        else none
  | .dropTurn l => s.leases[l]?.bind (s.dropTurn l)
  | .consume l =>
      s.leases[l]?.bind fun lease =>
        if lease.phase = .live then
          some { s with requests := s.requests ++ [⟨lease.entry, .check⟩] }
        else none
  | .requestTurn r => s.requests[r]?.bind (s.requestTurn r)
  | .connectionClosed e => some (s.update e fun entry => { entry with closed := true })
  | .tick nanos => some { s with clock := s.clock + nanos }

end Manager

/-! ### What is counted -/

/-- The lease is in use. -/
def Lease.live (e : Nat) (lease : Lease) : Bool := lease.entry == e && lease.phase == .live

/-- The lease is being dropped. -/
def Lease.dropping (e : Nat) (lease : Lease) : Bool :=
  lease.entry == e && lease.phase != .live && lease.phase != .gone

/-- The call was granted a request. -/
def Request.served (e : Nat) (request : Request) : Bool :=
  request.entry == e && request.phase == .done true

namespace Phase

/-- The call is retiring the entry. -/
def retiring (e : Nat) : Phase → Bool
  | .retire n _ _ => n == e
  | .shut n _ _ => n == e
  | _ => false

/-- The call has reserved a slot and its connection is not pooled yet. -/
def creation : Phase → Bool
  | .start (.pool _) => true
  | .wait _ (.pool _) => true
  | .sweep _ (.pool _) => true
  | .retire _ _ (.pool _) => true
  | .shut _ _ (.pool _) => true
  | .create => true
  | _ => false

end Phase

namespace Manager

/-- The leases of an entry that are in use. -/
def live (s : Manager) (e : Nat) : Nat := s.leases.countP (Lease.live e)

/-- The leases that an entry has ever had. -/
def leased (s : Manager) (e : Nat) : Nat := s.leases.countP (·.entry == e)

/-- The requests that an entry has been granted. -/
def served (s : Manager) (e : Nat) : Nat := s.requests.countP (Request.served e)

/-- The creations in progress. -/
def creations (s : Manager) : Nat := s.calls.countP Phase.creation

end Manager

/-- What the pool promises. -/
structure Sound (limits : XmuxLimits) (s : Manager) : Prop where
  connections : 0 < limits.maxConnections →
    ((s.entries.length + s.todo.length + s.creations : Nat) : Int) ≤ limits.maxConnections
  concurrency : 0 < limits.maxConcurrency → ∀ e, (s.live e : Int) ≤ limits.maxConcurrency
  reuse : ∀ e, ∀ entry ∈ s.heap[e]?, 0 < entry.reuseTimes → (s.leased e : Int) ≤ entry.reuseTimes
  requests : ∀ e, ∀ entry ∈ s.heap[e]?, 0 < entry.requestTimes → entry.requestTimes ≠ maxI64 →
    (s.served e : Int) ≤ entry.requestTimes
  closedOnly : ∀ e, ∀ entry ∈ s.heap[e]?, entry.poolClosed = true →
    entry.retired = true ∧ s.live e = 0
  closedOnce : ∀ e, ∀ entry ∈ s.heap[e]?, entry.retired = true → s.live e = 0 →
    (∀ lease ∈ s.leases, lease.dropping e = false) → (∀ phase ∈ s.calls, phase.retiring e = false) →
      entry.poolClosed = true
  slots : s.creating = s.creations + s.calls.countP (· == .release)

end WutherCore.Xhttp.Xmux
