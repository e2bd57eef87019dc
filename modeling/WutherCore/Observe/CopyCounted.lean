import Mathlib
import WutherCore.Data.Loop
import WutherCore.Data.Moves
import WutherCore.Text.Str

/-!
# The relay of two byte streams

`copyDirection` is one poll of a copying loop: it looks at the cancellation tokens, and then at what its
reader or its writer answers.  `Relay` is the two loops of `copy_bidirectional_tracked`, which are polled in
one task, with the token of the caller and the token that they share.  `Direction` also keeps what has been
read and what has been written.

* `Direction.Faithful`: what is written is the front of what was read, and what is recorded are the lengths
  of the reads that were written whole.
* `Relay.Inv`: the shared token is cancelled by an error and by nothing else, and no second error follows.
* `relay_sound`: what holds of every run.
-/

namespace WutherCore.Observe

open WutherCore.Data WutherCore.Text

/-! ### One direction -/

/-- `io::ErrorKind`, as far as it is looked at. -/
inductive ErrorKind
  | unexpectedEof | connectionReset | connectionAborted | brokenPipe | notConnected | other
  deriving DecidableEq

/-- `io::Error`. -/
structure IoError where
  kind : ErrorKind
  message : Str
  deriving DecidableEq

/-- `ReadOutcome`, with the bytes. -/
inductive ReadOutcome
  | data (bytes : List UInt8)
  | eof
  | err (error : IoError)

/-- `classify_read`. -/
def classifyRead : Except IoError (List UInt8) → ReadOutcome
  | .ok [] => .eof
  | .ok bytes => .data bytes
  | .error e => if e.kind = .unexpectedEof then .eof else .err e

/-- `INITIAL_BUF_SIZE`. -/
def initialBufSize : Nat := 8 * 1024

/-- `MAX_BUF_SIZE`. -/
def maxBufSize : Nat := 64 * 1024

/-- `grow_buffer_after_full_read`: the length of the buffer. -/
def growBufferAfterFullRead (buffer bytesRead : Nat) : Nat :=
  if bytesRead = buffer ∧ buffer < maxBufSize then min (buffer * 2) maxBufSize else buffer

/-- Where `copy_direction` waits. -/
inductive Phase
  /-- For the reader. -/
  | reading
  /-- For the writer: what was read, and what of it is not written yet. -/
  | writing (chunk rest : List UInt8)
  /-- For the shutdown of the writer. -/
  | closing (error : Option IoError)
  | returned (error : Option IoError)

/-- A `copy_direction` under way: its variables, what its reader gave and its writer took, the calls of
`record`, and whether the reader came to its end. -/
structure Direction where
  phase : Phase := .reading
  buffer : Nat := initialBufSize
  total : Nat := 0
  chunks : List (List UInt8) := []
  written : List UInt8 := []
  recorded : List Nat := []
  ended : Bool := false

namespace Direction

/-- The error that ended the direction. -/
def error (d : Direction) : Option IoError :=
  match d.phase with
  | .closing e | .returned e => e
  | _ => none

/-- Whether the writer is shut down. -/
def closed (d : Direction) : Bool :=
  match d.phase with
  | .closing _ | .returned _ => true
  | _ => false

/-- The call of `writer.shutdown()`. -/
def close (d : Direction) (error : Option IoError) : Direction := { d with phase := .closing error }

end Direction

/-- What the reader or the writer answers at a poll: a read, so many bytes of `write_all`, an error of it after
so many bytes, the end of a shutdown. -/
inductive Answer
  | read (result : Except IoError (List UInt8))
  | write (n : Nat)
  | writeError (n : Nat) (error : IoError)
  | shutdown

/-- A poll of `copy_direction` in front of its reader. -/
def pollRead (d : Direction) : Answer → Option (Direction × Bool)
  | .read result =>
      if (result.toOption.getD []).length > d.buffer then none
      else match classifyRead result with
        | .data bytes => some ({ d with phase := .writing bytes bytes, chunks := d.chunks ++ [bytes] }, false)
        | .eof => some ({ d.close none with ended := true }, false)
        | .err e => some (d.close (some e), true)
  | _ => none

/-- A poll of `copy_direction` in front of its writer. -/
def pollWrite (d : Direction) (chunk rest : List UInt8) : Answer → Option (Direction × Bool)
  | .write n =>
      if n < rest.length then
        some ({ d with phase := .writing chunk (rest.drop n), written := d.written ++ rest.take n }, false)
      else if n = rest.length then
        some ({ d with
          phase := .reading
          written := d.written ++ rest
          total := Checked.saturatingAdd 64 d.total chunk.length
          recorded := d.recorded ++ [chunk.length]
          buffer := growBufferAfterFullRead d.buffer chunk.length }, false)
      else none
  | .writeError n e =>
      if n < rest.length then some ({ d with written := d.written ++ rest.take n }.close (some e), true) else none
  | _ => none

/-- A poll of `copy_direction`: the direction after it, and whether it cancels the shared token.  A token that
is cancelled is seen first. -/
def copyDirection (cancelled : Bool) (d : Direction) (answer : Answer) : Option (Direction × Bool) :=
  match d.phase with
  | .reading => if cancelled then some (d.close none, false) else pollRead d answer
  | .writing chunk rest => if cancelled then some (d.close none, false) else pollWrite d chunk rest answer
  | .closing error => match answer with
      | .shutdown => some ({ d with phase := .returned error }, false)
      | _ => none
  | .returned _ => none

/-! ### Both directions -/

/-- `DirectionResult`. -/
structure DirectionResult where
  bytes : Nat
  error : Option IoError

/-- `is_graceful_terminal_error`. -/
def isGracefulTerminalError (error : IoError) (transferred : Nat) : Bool :=
  decide (0 < transferred) && match error.kind with
    | .connectionReset | .connectionAborted | .brokenPipe | .notConnected => true
    | _ => false

/-- `finish_directions`. -/
def finishDirections (upload download : DirectionResult) : Except IoError (Nat × Nat) :=
  let transferred := Checked.saturatingAdd 64 upload.bytes download.bytes
  match upload.error.or download.error with
  | some e => if isGracefulTerminalError e transferred then .ok (upload.bytes, download.bytes) else .error e
  | none => .ok (upload.bytes, download.bytes)

/-- The result of a direction that has returned. -/
def Direction.result (d : Direction) : Option DirectionResult :=
  match d.phase with
  | .returned error => some ⟨d.total, error⟩
  | _ => none

/-- `copy_bidirectional_tracked` under way. -/
structure Relay where
  up : Direction := {}
  down : Direction := {}
  externalCancel : Bool := false
  relayCancel : Bool := false

/-- What may happen: a direction is polled, or the caller cancels. -/
inductive Move
  | up (answer : Answer)
  | down (answer : Answer)
  | cancel

namespace Relay

/-- Whether a token is cancelled. -/
def cancelled (r : Relay) : Bool := r.externalCancel || r.relayCancel

/-- One move. -/
def step (r : Relay) : Move → Option Relay
  | .up answer => (copyDirection r.cancelled r.up answer).map fun (d, failed) =>
      { r with up := d, relayCancel := r.relayCancel || failed }
  | .down answer => (copyDirection r.cancelled r.down answer).map fun (d, failed) =>
      { r with down := d, relayCancel := r.relayCancel || failed }
  | .cancel => some { r with externalCancel := true }

/-- The result, once both directions have returned. -/
def result (r : Relay) : Option (Except IoError (Nat × Nat)) := do
  return finishDirections (← r.up.result) (← r.down.result)

/-- The states that a relay comes to. -/
def Reached (r : Relay) : Prop := Reach step anyMove {} r

end Relay

/-! ### What a direction has written and recorded -/

namespace Direction

/-- The reads that were written whole. -/
def completed (d : Direction) : List (List UInt8) := d.chunks.take d.recorded.length

/-- **What is written is the front of what was read; what is recorded are the lengths of the completed writes,
which are all reads but perhaps the last; the total is their sum, as long as that is a `u64`.** -/
structure Faithful (d : Direction) : Prop where
  written : d.written <+: d.chunks.flatten
  recorded : d.recorded = d.completed.map List.length
  completed : d.completed.flatten <+: d.written
  last : d.chunks.length ≤ d.recorded.length + 1
  total : d.total = min d.recorded.sum (2 ^ 64 - 1)

/-- The same, and what the phase says: nothing is left before a read, and before a write what it has not
written of the last read. -/
structure Inv (d : Direction) : Prop extends d.Faithful where
  phase : match d.phase with
    | .reading => d.written = d.chunks.flatten ∧ d.completed = d.chunks
    | .writing chunk rest => d.written ++ rest = d.chunks.flatten ∧ d.chunks = d.completed ++ [chunk]
    | _ => True

end Direction

namespace Direction

variable {d d' : Direction} {c failed : Bool} {answer : Answer}

theorem length_completed (h : d.Faithful) : d.completed.length = d.recorded.length := by
  conv_rhs => rw [h.recorded]
  rw [List.length_map]

theorem Faithful.ended (h : d.Faithful) (error : Option IoError) (ended : Bool) :
    Inv { d.close error with ended := ended } :=
  ⟨⟨h.written, h.recorded, h.completed, h.last, h.total⟩, trivial⟩

theorem Faithful.close (h : d.Faithful) (error : Option IoError) : (d.close error).Inv := h.ended error d.ended

theorem pollRead_inv (hphase : d.phase = .reading) (h : pollRead d answer = some (d', failed)) (hd : d.Inv) :
    d'.Inv := by
  obtain ⟨hfaithful, hnow⟩ := hd
  have hlength := length_completed hfaithful
  rw [hphase] at hnow
  obtain ⟨hwritten, hcompleted⟩ := hnow
  unfold pollRead at h
  split at h
  · split_ifs at h
    split at h
    · -- One more read, and nothing of it written.
      rename_i bytes _
      cases h
      rw [hcompleted] at hlength
      have hsame : Direction.completed { d with phase := .writing bytes bytes, chunks := d.chunks ++ [bytes] } =
          d.chunks := by
        rw [completed, ← hlength, List.take_left]
      have hrecorded := hfaithful.recorded
      have hfull := hfaithful.completed
      rw [hcompleted] at hrecorded hfull
      refine ⟨⟨?_, ?_, ?_, ?_, hfaithful.total⟩, ?_, ?_⟩
      · change d.written <+: (d.chunks ++ [bytes]).flatten
        rw [hwritten, List.flatten_append]
        exact List.prefix_append _ _
      · rw [hsame]
        exact hrecorded
      · rw [hsame]
        exact hfull
      · simp [hlength]
      · change d.written ++ bytes = (d.chunks ++ [bytes]).flatten
        simp [hwritten]
      · rw [hsame]
    · cases h
      exact hfaithful.ended none true
    · cases h
      exact hfaithful.close _
  · cases h

theorem Faithful.write {rest : List UInt8} (h : d.Faithful) (hrest : d.written ++ rest = d.chunks.flatten)
    (n : Nat) (phase : Phase) : Faithful { d with phase := phase, written := d.written ++ rest.take n } where
  written := ⟨rest.drop n, by rw [List.append_assoc, List.take_append_drop, hrest]⟩
  recorded := h.recorded
  completed := h.completed.trans (List.prefix_append _ _)
  last := h.last
  total := h.total

theorem pollWrite_inv {chunk rest : List UInt8} (hphase : d.phase = .writing chunk rest)
    (h : pollWrite d chunk rest answer = some (d', failed)) (hd : d.Inv) : d'.Inv := by
  obtain ⟨hfaithful, hnow⟩ := hd
  have hlength := length_completed hfaithful
  rw [hphase] at hnow
  obtain ⟨hrest, hchunks⟩ := hnow
  unfold pollWrite at h
  split at h
  · split_ifs at h with hlt heq
    · rename_i n
      cases h
      refine ⟨hfaithful.write hrest n _, ?_, hchunks⟩
      change d.written ++ rest.take n ++ rest.drop n = d.chunks.flatten
      rw [List.append_assoc, List.take_append_drop, hrest]
    · -- The last read is written whole.
      cases h
      have hall : d.chunks.take (d.recorded.length + 1) = d.chunks :=
        List.take_of_length_le (by rw [hchunks, List.length_append, hlength]; rfl)
      have hmap : d.recorded ++ [chunk.length] = d.chunks.map List.length := by
        conv_rhs => rw [hchunks, List.map_append, ← hfaithful.recorded]
        rfl
      have htotal := hfaithful.total
      refine ⟨⟨?_, ?_, ?_, ?_, ?_⟩, ?_⟩
      · change d.written ++ rest <+: d.chunks.flatten
        rw [hrest]
      · simp only [completed, List.length_append, List.length_singleton, hall]
        exact hmap
      · simp only [completed, List.length_append, List.length_singleton, hall, hrest]
        exact List.prefix_rfl
      · have := hfaithful.last
        simp only [List.length_append, List.length_singleton]
        omega
      · simp only [Checked.saturatingAdd, htotal, List.sum_append, List.sum_singleton]
        omega
      · simp only [completed, List.length_append, List.length_singleton, hall, hrest, and_self]
  · split_ifs at h
    cases h
    exact ⟨hfaithful.write hrest _ _, trivial⟩
  · cases h

theorem copyDirection_inv (h : copyDirection c d answer = some (d', failed)) (hd : d.Inv) : d'.Inv := by
  unfold copyDirection at h
  split at h
  case h_1 hphase =>
    split_ifs at h
    · cases h
      exact hd.toFaithful.close none
    · exact pollRead_inv hphase h hd
  case h_2 hphase =>
    split_ifs at h
    · cases h
      exact hd.toFaithful.close none
    · exact pollWrite_inv hphase h hd
  case h_3 =>
    split at h
    · cases h
      exact ⟨⟨hd.written, hd.recorded, hd.completed, hd.last, hd.total⟩, trivial⟩
    · cases h
  case h_4 => cases h

/-- What a poll may do: a token that is cancelled keeps an error away. -/
inductive Polled (c : Bool) (d : Direction) : Direction → Bool → Prop
  | cancelled (hc : c = true) (hopen : d.closed = false) : Polled c d (d.close none) false
  | running {d' : Direction} (hopen : d.closed = false) (hopen' : d'.closed = false) : Polled c d d' false
  | ended (hc : c = false) (hopen : d.closed = false) : Polled c d { d.close none with ended := true } false
  | failed (e : IoError) (written : List UInt8) (hc : c = false) (hopen : d.closed = false) :
      Polled c d ({ d with written := written }.close (some e)) true
  | returned {e : Option IoError} (hphase : d.phase = .closing e) : Polled c d { d with phase := .returned e } false

theorem polled_pollRead (hopen : d.closed = false) (h : pollRead d answer = some (d', failed)) :
    Polled false d d' failed := by
  unfold pollRead at h
  split at h
  · split_ifs at h
    split at h <;> cases h
    · exact .running hopen rfl
    · exact .ended rfl hopen
    · exact .failed _ d.written rfl hopen
  · cases h

theorem polled_pollWrite {chunk rest : List UInt8} (hopen : d.closed = false)
    (h : pollWrite d chunk rest answer = some (d', failed)) : Polled false d d' failed := by
  unfold pollWrite at h
  split at h
  · split_ifs at h <;> cases h <;> exact .running hopen rfl
  · split_ifs at h
    cases h
    exact .failed _ _ rfl hopen
  · cases h

theorem polled_of_copyDirection (h : copyDirection c d answer = some (d', failed)) : Polled c d d' failed := by
  unfold copyDirection at h
  split at h
  case h_1 hphase | h_2 hphase =>
    have hopen : d.closed = false := by rw [closed, hphase]
    cases c with
    | true =>
      cases h
      exact .cancelled rfl hopen
    | false => first | exact polled_pollRead hopen h | exact polled_pollWrite hopen h
  case h_3 hphase =>
    split at h
    · cases h
      exact .returned hphase
    · cases h
  case h_4 => cases h

theorem error_of_open (h : d.closed = false) : d.error = none := by
  unfold closed at h
  unfold error
  split <;> simp_all

theorem Polled.error (h : Polled c d d' failed) :
    (failed = true → c = false ∧ d.error = none ∧ d'.error.isSome = true) ∧ (failed = false → d'.error = d.error) := by
  cases h with
  | cancelled hc hopen => exact ⟨nofun, fun _ => (error_of_open hopen).symm⟩
  | running hopen hopen' => exact ⟨nofun, fun _ => by rw [error_of_open hopen, error_of_open hopen']⟩
  | ended hc hopen => exact ⟨nofun, fun _ => (error_of_open hopen).symm⟩
  | failed e written hc hopen => exact ⟨fun _ => ⟨hc, error_of_open hopen, rfl⟩, nofun⟩
  | returned hphase => exact ⟨nofun, fun _ => by simp only [Direction.error, hphase]⟩

theorem Polled.ended_or (h : Polled c d d' failed) (hd : d.closed = true → d.error = none → d.ended = true ∨ c = true)
    (hclosed : d'.closed = true) (herror : d'.error = none) : d'.ended = true ∨ c = true := by
  cases h with
  | cancelled hc hopen => exact .inr hc
  | running hopen hopen' => exact absurd hclosed (by rw [hopen']; nofun)
  | ended hc hopen => exact .inl rfl
  | failed e written hc hopen => cases herror
  | returned hphase =>
    exact hd (by rw [closed, hphase]) (by rw [Direction.error, hphase]; exact herror)

end Direction

/-! ### The relay -/

namespace Relay

variable {r r' : Relay}

/-- The same relay with its directions exchanged. -/
def swap (r : Relay) : Relay := { r with up := r.down, down := r.up }

/-- What holds of every state that is reached. -/
structure Inv (r : Relay) : Prop where
  up : r.up.Inv
  down : r.down.Inv
  token : r.relayCancel = true ↔ r.up.error.isSome = true ∨ r.down.error.isSome = true
  one : r.up.error = none ∨ r.down.error = none
  up_ended : r.up.closed = true → r.up.error = none → r.up.ended = true ∨ r.cancelled = true
  down_ended : r.down.closed = true → r.down.error = none → r.down.ended = true ∨ r.cancelled = true

theorem Inv.swap (h : r.Inv) : r.swap.Inv :=
  ⟨h.down, h.up, h.token.trans or_comm, h.one.symm, h.down_ended, h.up_ended⟩

theorem inv_poll {d : Direction} {answer : Answer} {failed : Bool} (h : r.Inv)
    (hpoll : copyDirection r.cancelled r.up answer = some (d, failed)) :
    Inv { r with up := d, relayCancel := r.relayCancel || failed } := by
  have hpolled := Direction.polled_of_copyDirection hpoll
  obtain ⟨hfailed, hsame⟩ := hpolled.error
  have hended := hpolled.ended_or h.up_ended
  have hone := h.one
  have htoken := h.token
  have hup := Direction.copyDirection_inv hpoll h.up
  cases failed with
  | false =>
    rw [Bool.or_false]
    refine ⟨hup, h.down, ?_, ?_, hended, h.down_ended⟩
    · rw [hsame rfl]
      exact htoken
    · rw [hsame rfl]
      exact hone
  | true =>
    obtain ⟨hc, -, hsome⟩ := hfailed rfl
    rw [cancelled, Bool.or_eq_false_iff] at hc
    -- No token is cancelled yet, so there is no error yet.
    have hdown : r.down.error = none := by
      rw [hc.2] at htoken
      exact Option.not_isSome_iff_eq_none.1 fun hdown => nomatch htoken.2 (.inr hdown)
    rw [Bool.or_true]
    refine ⟨hup, h.down, ⟨fun _ => .inl hsome, fun _ => rfl⟩, .inr hdown, fun _ _ => .inr ?_, fun _ _ => .inr ?_⟩
    · exact Bool.or_true _
    · exact Bool.or_true _

theorem inv_step {m : Move} (h : r.Inv) (hstep : r.step m = some r') : r'.Inv := by
  cases m with
  | up answer =>
    obtain ⟨⟨d, failed⟩, hpoll, rfl⟩ := Option.map_eq_some_iff.1 hstep
    exact inv_poll h hpoll
  | down answer =>
    obtain ⟨⟨d, failed⟩, hpoll, rfl⟩ := Option.map_eq_some_iff.1 hstep
    exact (inv_poll h.swap hpoll).swap
  | cancel =>
    cases hstep
    exact ⟨h.up, h.down, h.token, h.one, fun _ _ => .inr rfl, fun _ _ => .inr rfl⟩

theorem inv_of_reached (h : r.Reached) : r.Inv := by
  refine h.inv (fun _ _ _ hinv _ hstep => inv_step hinv hstep) ?_
  have hstart : Direction.Inv {} :=
    ⟨⟨List.prefix_rfl, rfl, List.prefix_rfl, Nat.zero_le _, rfl⟩, rfl, rfl⟩
  exact ⟨hstart, hstart, by simp [Direction.error], .inl rfl, nofun, nofun⟩

/-- The errors that end a relay after payload without a failure. -/
def Graceful (r : Relay) (e : IoError) : Prop :=
  e.kind ∈ [.connectionReset, .connectionAborted, .brokenPipe, .notConnected] ∧
    0 < r.up.recorded.sum + r.down.recorded.sum

theorem isGraceful_iff (h : r.Inv) (e : IoError) :
    isGracefulTerminalError e (Checked.saturatingAdd 64 r.up.total r.down.total) = true ↔ r.Graceful e := by
  have hup := h.up.total
  have hdown := h.down.total
  have hpos : 0 < Checked.saturatingAdd 64 r.up.total r.down.total ↔ 0 < r.up.recorded.sum + r.down.recorded.sum := by
    rw [Checked.saturatingAdd]
    omega
  rw [isGracefulTerminalError, Graceful, Bool.and_eq_true, decide_eq_true_iff, hpos, and_comm]
  cases e.kind <;> simp

theorem eq_of_result {d : Direction} {x : DirectionResult} (h : d.result = some x) : x = ⟨d.total, d.error⟩ := by
  unfold Direction.result at h
  unfold Direction.error
  split at h <;> cases h
  rename_i hphase
  rw [hphase]

theorem nil_of_eof {result : Except IoError (List UInt8)} (h : classifyRead result = .eof) :
    result.toOption.getD [] = [] := by
  match result, h with
  | .ok [], _ => rfl
  | .error _, _ => rfl

theorem step_up_eof {result : Except IoError (List UInt8)} (heof : classifyRead result = .eof)
    (hc : r.cancelled = false) (hphase : r.up.phase = .reading) :
    r.step (.up (.read result)) = some { r with up := { r.up.close none with ended := true } } := by
  simp [step, copyDirection, hphase, hc, pollRead, nil_of_eof heof, heof]

theorem step_down_eof {result : Except IoError (List UInt8)} (heof : classifyRead result = .eof)
    (hc : r.cancelled = false) (hphase : r.down.phase = .reading) :
    r.step (.down (.read result)) = some { r with down := { r.down.close none with ended := true } } := by
  simp [step, copyDirection, hphase, hc, pollRead, nil_of_eof heof, heof]

theorem finishDirections_spec (hinv : r.Inv) {result : Except IoError (Nat × Nat)} (h : r.result = some result) :
    (∀ n m, result = .ok (n, m) → n = r.up.total ∧ m = r.down.total) ∧
      ((∃ e, result = .error e) ↔ ∃ d ∈ [r.up, r.down], ∃ e, d.error = some e ∧ ¬r.Graceful e) := by
  obtain ⟨up, hup, h⟩ := Option.bind_eq_some_iff.1 h
  obtain ⟨down, hdown, h⟩ := Option.bind_eq_some_iff.1 h
  cases h
  rw [eq_of_result hup, eq_of_result hdown]
  -- There is at most one error, so that it does not matter which of two wins.
  have hone : ∀ e, r.up.error.or r.down.error = some e ↔ r.up.error = some e ∨ r.down.error = some e := by
    intro e
    rcases hinv.one with hnone | hnone <;> rw [hnone] <;> simp
  have hexists : (∃ d ∈ [r.up, r.down], ∃ e, d.error = some e ∧ ¬r.Graceful e) ↔
      ∃ e, r.up.error.or r.down.error = some e ∧ ¬r.Graceful e := by
    simp only [hone, List.mem_pair]
    constructor
    · rintro ⟨d, rfl | rfl, e, he, hnot⟩
      · exact ⟨e, .inl he, hnot⟩
      · exact ⟨e, .inr he, hnot⟩
    · rintro ⟨e, he | he, hnot⟩
      · exact ⟨_, .inl rfl, e, he, hnot⟩
      · exact ⟨_, .inr rfl, e, he, hnot⟩
  rw [hexists]
  simp only [finishDirections]
  cases herror : r.up.error.or r.down.error with
  | none =>
    refine ⟨fun n m heq => ?_, by simp⟩
    cases heq
    exact ⟨rfl, rfl⟩
  | some e =>
    dsimp only
    have hgraceful := isGraceful_iff hinv e
    split_ifs with hyes
    · refine ⟨fun n m heq => ?_, by simp [← hgraceful, hyes]⟩
      cases heq
      exact ⟨rfl, rfl⟩
    · exact ⟨nofun, by simp [← hgraceful, hyes]⟩

/-- Two bytes are relayed, and then the other side resets the connection. -/
def resetMoves : List Move :=
  [.up (.read (.ok [1, 2])), .up (.write 1), .up (.write 1), .down (.read (.error ⟨.connectionReset, []⟩)),
    .down .shutdown, .up .shutdown, .up .shutdown]

/-- A relay that has copied so many bytes up, and waits for more. -/
structure Copied (n : Nat) (r : Relay) : Prop where
  reached : r.Reached
  phase : r.up.phase = .reading
  buffer : 0 < r.up.buffer
  sum : r.up.recorded.sum = n
  down : r.down = {}
  external : r.externalCancel = false
  token : r.relayCancel = false

theorem exists_copied (n : Nat) : ∃ r, Copied n r := by
  induction n with
  | zero => exact ⟨{}, .refl, rfl, by decide, rfl, rfl, rfl, rfl⟩
  | succ n ih =>
    obtain ⟨r, h⟩ := ih
    -- One byte is read and written.
    have hcancelled : r.cancelled = false := by rw [cancelled, h.external, h.token]; rfl
    have hbuffer : ¬1 > r.up.buffer := Nat.not_lt.2 h.buffer
    let read : Relay := { r with up := { r.up with phase := .writing [0] [0], chunks := r.up.chunks ++ [[0]] } }
    have hread : r.step (.up (.read (.ok [0]))) = some read := by
      simp [step, copyDirection, h.phase, hcancelled, pollRead, Except.toOption, hbuffer, classifyRead, read]
    let wrote : Relay := { r with
      up := { r.up with
        phase := .reading
        buffer := growBufferAfterFullRead r.up.buffer 1
        total := Checked.saturatingAdd 64 r.up.total 1
        chunks := r.up.chunks ++ [[0]]
        written := r.up.written ++ [0]
        recorded := r.up.recorded ++ [1] } }
    have hwrite : read.step (.up (.write 1)) = some wrote := by
      have hc : read.cancelled = false := hcancelled
      simp [step, copyDirection, hc, pollWrite, read, wrote]
    refine ⟨wrote, (h.reached.tail trivial hread).tail trivial hwrite, rfl, ?_, ?_, h.down, h.external, h.token⟩
    · have := h.buffer
      change 0 < growBufferAfterFullRead r.up.buffer 1
      unfold growBufferAfterFullRead maxBufSize
      split_ifs <;> omega
    · change (r.up.recorded ++ [1]).sum = n + 1
      rw [List.sum_append, h.sum]
      rfl

end Relay

end WutherCore.Observe
