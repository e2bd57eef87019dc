import Mathlib
import WutherCore.Data.Moves
import WutherCore.Data.Pool
import WutherCore.Text.Str

/-!
# URL tests of one node and URL

`test_node_internal` probes a node with at most one call at a time; the calls that wait for it may
reuse its result.  The result is not kept as a value: `record_timing` writes it into a
`NodeUrlStats` with one access for each field, and `cached_result` reads it back in the same way.
`mark_runtime_failure` writes to the same fields without the lock.

`Tester` is the `NodeUrlStats` of one node and URL with the calls that use it.  A move is one access.
Durations are in nanoseconds.
-/

namespace WutherCore.Health

open WutherCore.Data WutherCore.Text

/-- `DelayError`. -/
inductive DelayError
  | unknownNode (node : Str)
  | badUrl (reason : Str)
  | dial (reason : Str)
  | http (reason : Str)
  | tls (reason : Str)
  | statusMismatch (status : UInt16)
  | timeout
  | closed
  deriving DecidableEq

/-- `DEAD_DELAY`. -/
def deadDelay : UInt32 := 2 ^ 32 - 1

/-- `u64::MAX`. -/
def maxU64 : UInt64 := 2 ^ 64 - 1

/-- `HISTORY_CAP`. -/
def historyCap : Nat := 10

/-- `SCHEDULER_TICK`. -/
def schedulerTick : Nat := 1000000000

/-- `FAILURE_RETRY_MIN`. -/
def failureRetryMin : Nat := 5 * 1000000000

/-- `FAILURE_RETRY_MAX`. -/
def failureRetryMax : Nat := 5 * 60 * 1000000000

/-- `ProbeTiming`. -/
structure ProbeTiming where
  delayMs : UInt32 := 0
  connectMs : UInt32 := 0
  handshakeMs : UInt32 := 0
  responseMs : UInt32 := 0
  unified : Bool := false
  deriving DecidableEq

/-- `HistoryEntry`. -/
structure HistoryEntry where
  timeMs : UInt64
  delayMs : UInt32
  connectMs : UInt32
  handshakeMs : UInt32
  responseMs : UInt32
  unified : Bool
  deriving DecidableEq

/-- `NodeUrlStats`.  The `By` fields are the calls that have last written to `alive`, to
`last_delay_ms`, to `last_error` and to `probe_signature`. -/
structure NodeUrlStats where
  alive : Bool := true
  lastDelayMs : UInt32 := 0
  lastSeenMs : UInt64 := 0
  nextDueMs : UInt64 := 0
  consecutiveFailures : UInt32 := 0
  requestedIntervalMs : UInt64 := maxU64
  probeGeneration : UInt64 := 0
  probeSignature : UInt64 := 0
  probeLock : Option Nat := none
  lastError : Option DelayError := none
  history : List HistoryEntry := []
  aliveBy : Option Nat := none
  delayBy : Option Nat := none
  errorBy : Option Nat := none
  signatureBy : Option Nat := none
  deriving DecidableEq

/-- The parameters of a probe that its signature is about, besides the URL: `limit`, `expected` and
`unified`. -/
structure Params where
  limit : Nat
  expected : List (UInt16 × UInt16)
  unified : Bool
  deriving DecidableEq

/-- The arguments of `record_timing`. -/
structure Record where
  timing : ProbeTiming
  alive : Bool
  interval : Nat
  error : Option DelayError
  signature : UInt64
  deriving DecidableEq

/-- The variables of `record_timing`. -/
structure Locals where
  now : UInt64 := 0
  failures : UInt32 := 0
  requestedInterval : UInt64 := 0
  deriving DecidableEq

/-- `failure_retry_delay`. -/
def failureRetryDelay (failures : UInt32) (configuredInterval : Nat) : Nat :=
  let shift := min (failures.toNat - 1) 16
  min (min (failureRetryMin * 2 ^ shift) (max configuredInterval failureRetryMin)) failureRetryMax

/-- `u64::saturating_add`. -/
def saturatingAdd (a : UInt64) (b : Nat) : UInt64 := .ofNat (min (a.toNat + b) maxU64.toNat)

/-- The time of the next probe that `record_timing` sets. -/
def Record.due (r : Record) (locals : Locals) : UInt64 :=
  let interval :=
    if locals.requestedInterval = maxU64 then r.interval
    else min r.interval (locals.requestedInterval.toNat * 1000000)
  let retry :=
    if r.alive then max interval schedulerTick else failureRetryDelay locals.failures interval
  saturatingAdd locals.now (min (retry / 1000000) maxU64.toNat)

/-- The accesses of `record_timing`, in their order. -/
inductive RecordStep
  | alive
  | lastDelay
  | lastSeen
  | consecutiveFailures
  | requestedInterval
  | nextDue
  | lastError
  | history
  | signature
  | generation
  deriving DecidableEq

/-- The access that comes after another. -/
def RecordStep.next : RecordStep → Option RecordStep
  | .alive => some .lastDelay
  | .lastDelay => some .lastSeen
  | .lastSeen => some .consecutiveFailures
  | .consecutiveFailures => some .requestedInterval
  | .requestedInterval => some .nextDue
  | .nextDue => some .lastError
  | .lastError => some .history
  | .history => some .signature
  | .signature => some .generation
  | .generation => none

namespace NodeUrlStats

/-- An access of `record_timing` by a call, which begins with a look at the clock. -/
def record (stats : NodeUrlStats) (i : Nat) (now : UInt64) (r : Record) (locals : Locals) :
    RecordStep → NodeUrlStats × Locals
  | .alive => ({ stats with alive := r.alive, aliveBy := some i }, { locals with now := now })
  | .lastDelay =>
      ({ stats with
          lastDelayMs := if r.alive then r.timing.delayMs else deadDelay
          delayBy := some i },
        locals)
  | .lastSeen => ({ stats with lastSeenMs := locals.now }, locals)
  | .consecutiveFailures =>
      if r.alive then ({ stats with consecutiveFailures := 0 }, { locals with failures := 0 })
      else
        ({ stats with consecutiveFailures := stats.consecutiveFailures + 1 },
          { locals with failures := stats.consecutiveFailures + 1 })
  | .requestedInterval => (stats, { locals with requestedInterval := stats.requestedIntervalMs })
  | .nextDue => ({ stats with nextDueMs := r.due locals }, locals)
  | .lastError => ({ stats with lastError := r.error, errorBy := some i }, locals)
  | .history =>
      let entry : HistoryEntry :=
        { timeMs := locals.now
          delayMs := if r.alive then r.timing.delayMs else 0
          connectMs := r.timing.connectMs
          handshakeMs := r.timing.handshakeMs
          responseMs := r.timing.responseMs
          unified := r.timing.unified }
      let history := stats.history ++ [entry]
      ({ stats with history := history.drop (history.length - historyCap) }, locals)
  | .signature => ({ stats with probeSignature := r.signature, signatureBy := some i }, locals)
  | .generation => ({ stats with probeGeneration := stats.probeGeneration + 1 }, locals)

end NodeUrlStats

/-- The result of a call: `probed` by itself, `reused` from another, `notDue` for a scheduled call
that need not probe, or an error that is found before a probe. -/
inductive Outcome
  | probed (result : Except DelayError UInt32)
  | reused (result : Except DelayError UInt32)
  | notDue (result : Except DelayError UInt32)
  | rejected (error : DelayError)
  | cancelled
  | marked
  deriving DecidableEq

/-- What a call does next.  The accesses of `cached_result` are `alive`, `delay` and `error`, with
whether the call reuses a result. -/
inductive Phase
  | observe
  | lock (observed : UInt64)
  | generation (observed : UInt64)
  | signature
  | due
  | alive (reuse : Bool)
  | delay (reuse : Bool)
  | error (reuse : Bool)
  | lookup
  | permit
  | probing
  | record (r : Record) (locals : Locals) (next : RecordStep)
  | unlock (outcome : Outcome)
  | done (outcome : Outcome)
  deriving DecidableEq

/-- A call of `test_node_internal`, or of `mark_runtime_failure`, which has no parameters.  Kept are
the probes and failures that were recorded when it began, the result of its own probe, what it
records, and the call whose signature it has found to be its own. -/
structure Call where
  params : Option Params
  interval : Nat
  force : Bool
  phase : Phase
  arrived : Nat
  probe : Option (Except DelayError ProbeTiming) := none
  recorded : Option Record := none
  source : Option Nat := none
  deriving DecidableEq

/-- The statistics of a node and URL, and the calls.  `log` has the calls that have recorded a result,
by the increment of the generation. -/
structure Tester where
  stats : NodeUrlStats := {}
  calls : List Call := []
  log : List Nat := []
  deriving DecidableEq

/-- A move: a call begins; it makes its next access, at a time; the node is looked up, a permit of the
semaphore is given, the probe ends; the call is cancelled at an `await`.  The last two are the accesses
of `request_interval`. -/
inductive Move
  | testNodeInternal (params : Params) (interval : Nat) (force : Bool)
  | markRuntimeFailure (reason : Str)
  | turn (call : Nat) (now : UInt64)
  | lookedUp (call : Nat) (found : Bool)
  | permitted (call : Nat) (granted : Bool)
  | probed (call : Nat) (result : Except DelayError ProbeTiming)
  | cancel (call : Nat)
  | requestInterval (intervalMs : UInt64)
  | requestDue (dueMs : UInt64)

/-- What a probe with a result records. -/
def probeRecord (signature : UInt64) (interval : Nat) : Except DelayError ProbeTiming → Record
  | .ok timing => ⟨timing, true, interval, none, signature⟩
  | .error e => ⟨{}, false, interval, some e, signature⟩

/-- What `mark_runtime_failure` records. -/
def failureRecord (reason : Str) : Record := ⟨{}, false, failureRetryMin, some (.dial reason), 0⟩

namespace Tester

variable (node : Str) (urlError : Option DelayError) (hash : Params → UInt64)

/-- A call goes on with another phase. -/
def goto (s : Tester) (i : Nat) (c : Call) (phase : Phase) : Tester :=
  { s with calls := s.calls.set i { c with phase := phase } }

/-- A call that may not reuse a result: a scheduled one first looks whether a probe is due. -/
def afterCheck (c : Call) : Phase := if c.force then .lookup else .due

/-- The end of `cached_result`. -/
def cached (reuse : Bool) (result : Except DelayError UInt32) : Phase :=
  .unlock (if reuse then .reused result else .notDue result)

/-- The next access of a call. -/
def advance (s : Tester) (i : Nat) (now : UInt64) (c : Call) : Option Tester :=
  match c.phase with
  | .observe => some (s.goto i c (.lock s.stats.probeGeneration))
  | .lock observed =>
      if s.stats.probeLock = none then
        some { s.goto i c (.generation observed) with
          stats := { s.stats with probeLock := some i } }
      else none
  | .generation observed =>
      some (s.goto i c
        (if s.stats.probeGeneration ≠ observed then .signature else afterCheck c))
  | .signature =>
      if some s.stats.probeSignature = c.params.map hash then
        some (s.goto i { c with source := s.stats.signatureBy } (.alive true))
      else some (s.goto i c (afterCheck c))
  | .due => some (s.goto i c (if s.stats.nextDueMs ≤ now then .lookup else .alive false))
  | .alive reuse => some (s.goto i c (if s.stats.alive then .delay reuse else .error reuse))
  | .delay reuse =>
      some (s.goto i c
        (if s.stats.lastDelayMs ≠ 0 ∧ s.stats.lastDelayMs ≠ deadDelay then
          cached reuse (.ok s.stats.lastDelayMs)
        else .error reuse))
  | .error reuse => some (s.goto i c (cached reuse (.error (s.stats.lastError.getD .timeout))))
  | .record r locals next =>
      let (stats, locals) := s.stats.record i now r locals next
      match next.next with
      | some after => some { s.goto i c (.record r locals after) with stats := stats }
      | none =>
          some { s.goto i c (match c.probe with
            | some result => .unlock (.probed (result.map (·.delayMs)))
            | none => .done .marked) with
              stats := stats
              log := s.log ++ [i] }
  | .unlock outcome =>
      some { s.goto i c (.done outcome) with stats := { s.stats with probeLock := none } }
  | _ => none

/-- The node is looked up. -/
def lookedUp (s : Tester) (i : Nat) (found : Bool) (c : Call) : Option Tester :=
  if c.phase = .lookup then
    some (s.goto i c (if found then .permit else .unlock (.rejected (.unknownNode node))))
  else none

/-- The semaphore gives a permit or is closed. -/
def permitted (s : Tester) (i : Nat) (granted : Bool) (c : Call) : Option Tester :=
  if c.phase = .permit then
    some (s.goto i c (if granted then .probing else .unlock (.rejected .closed)))
  else none

/-- The probe ends, and `record_timing` begins. -/
def probed (s : Tester) (i : Nat) (result : Except DelayError ProbeTiming) (c : Call) :
    Option Tester :=
  match c.phase, c.params with
  | .probing, some params =>
      let r := probeRecord (hash params) c.interval result
      some (s.goto i { c with probe := some result, recorded := some r } (.record r {} .alive))
  | _, _ => none

/-- The call is dropped where it waits. -/
def cancel (s : Tester) (i : Nat) (c : Call) : Option Tester :=
  match c.phase with
  | .lock _ => some (s.goto i c (.done .cancelled))
  | .permit => some (s.goto i c (.unlock .cancelled))
  | .probing => some (s.goto i c (.unlock .cancelled))
  | _ => none

/-- A call begins. -/
def begin (s : Tester) (c : Call) : Tester := { s with calls := s.calls ++ [c] }

/-- A move. -/
def step (s : Tester) : Move → Option Tester
  | .testNodeInternal params interval force =>
      let phase := match urlError with
        | some e => .done (.rejected e)
        | none => .observe
      some (s.begin
        { params := some params, interval := interval, force := force, phase := phase
          arrived := s.log.length })
  | .markRuntimeFailure reason =>
      let r := failureRecord reason
      some (s.begin
        { params := none, interval := failureRetryMin, force := false
          phase := .record r {} .alive, arrived := s.log.length, recorded := some r })
  | .turn i now => s.calls[i]?.bind (s.advance hash i now)
  | .lookedUp i found => s.calls[i]?.bind (s.lookedUp node i found)
  | .permitted i granted => s.calls[i]?.bind (s.permitted i granted)
  | .probed i result => s.calls[i]?.bind (s.probed hash i result)
  | .cancel i => s.calls[i]?.bind (s.cancel i)
  | .requestInterval intervalMs =>
      some { s with stats := { s.stats with
        requestedIntervalMs := min s.stats.requestedIntervalMs intervalMs } }
  | .requestDue dueMs =>
      some { s with stats := { s.stats with nextDueMs := min s.stats.nextDueMs dueMs } }

/-- The result is that of a probe with the same parameters which was recorded after the call began. -/
def Reuses (s : Tester) (c : Call) (result : Except DelayError UInt32) : Prop :=
  ∃ k w other probe, c.arrived ≤ k ∧ s.log[k]? = some w ∧ s.calls[w]? = some other ∧
    other.params = c.params ∧ other.probe = some probe ∧ result = probe.map (·.delayMs)

/-- **Single flight.**  At most one call probes; what a call reuses is the result of such a probe; and
a forced call never returns what it finds without that. -/
structure SingleFlight (s : Tester) : Prop where
  oneProbe : ∀ (i j : Nat) ci cj, s.calls[i]? = some ci → s.calls[j]? = some cj →
    ci.phase = .probing → cj.phase = .probing → i = j
  reuses : ∀ c ∈ s.calls, ∀ result, c.phase = .done (.reused result) → s.Reuses c result
  forced : ∀ c ∈ s.calls, c.force = true → ∀ result, c.phase ≠ .done (.notDue result)

end Tester

end WutherCore.Health
