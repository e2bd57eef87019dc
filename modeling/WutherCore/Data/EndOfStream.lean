import WutherCore.Data.Exact
import WutherCore.Data.Moves
import WutherCore.Data.Pull

/-!
# The end of a stream

A stream that ends within a frame was cut short.  `Whole` are the byte strings that end where a stream
may end; a result of a poll is `Truthful` if it tells the end of a whole stream from that of one that was
cut short.

* `Opens`: a reader may take several frames off its buffer in one round.
* `Session`: the polls of a reader, with all that it has received and handed out.
* `Session.reach_truthful_iff`: at the end of the transport, a reader is truthful if and only if what its
  check accepts is whole.
-/

namespace WutherCore.Data

variable {σ ε α β : Type*}

/-- The rounds of `next` take frames of `frame` off the buffer, and end where the next one is not
complete. -/
structure Opens (next frame : Decoder σ ε α (List β)) : Prop where
  taken : ∀ {s buf m n s'}, next s buf = .ok (some (m, n, s')) →
    ∃ frames ms, buf = frames.flatten ++ buf.drop n ∧ m = ms.flatten ∧ Framed frame s frames ms s'
  idle : ∀ {s buf}, next s buf = .ok none → frame s buf = .ok none

theorem Steady.opens {decode : Decoder σ ε α (List β)} (h : Steady decode) : Opens decode decode where
  taken := by
    intro s buf m n s' hread
    obtain ⟨-, hframe⟩ := h _ _ _ _ _ hread
    exact ⟨[buf.take n], [m], by simp, by simp, .cons hframe (.nil _)⟩
  idle := id

section Whole

variable (frame : Decoder σ ε α (List β)) (boundary : σ → Bool) (s₀ : σ)

/-- The stream is whole frames, and stands where it may end. -/
def Whole (bytes : List α) : Prop :=
  ∃ frames ms t, bytes = frames.flatten ∧ Framed frame s₀ frames ms t ∧ boundary t = true

/-- A clean end is told of whole streams only, and an error of all others. -/
def Truthful (received : List α) (o : Outcome ε β) : Prop :=
  (o = .closed → Whole frame boundary s₀ received) ∧
    (¬Whole frame boundary s₀ received → ∃ e, o = .failed e)

/-- The reader stands behind the frames of what it has received. -/
def At (received : List α) (delivered : List β) (r : Pull σ α β) : Prop :=
  ∃ done ms, Framed frame s₀ done ms r.state ∧ received = done.flatten ++ r.buffer ∧
    delivered ++ r.plain = ms.flatten

end Whole

variable {next frame : Decoder σ ε α (List β)} {boundary : σ → Bool} {s₀ : σ}
  {received : List α} {delivered : List β} {r r' : Pull σ α β}

/-- Where the decoder waits for more, the frames are all that there are. -/
theorem Framed.eq_of_idle {s t u : σ} {done frames : List (List α)} {ms ms' : List (List β)} {q : List α}
    (hdone : Framed frame s done ms t) (hq : frame t q = .ok none)
    (hframes : Framed frame s frames ms' u) (h : done.flatten ++ q = frames.flatten) :
    done = frames ∧ q = [] := by
  induction hdone generalizing frames ms' with
  | nil s =>
    cases hframes with
    | nil _ => exact ⟨rfl, by simpa using h⟩
    | cons hf _ =>
      rw [List.flatten_nil, List.nil_append, List.flatten_cons] at h
      rw [h, hf.whole] at hq
      cases hq
  | @cons _ _ _ f _ fs _ hf _ ih =>
    cases hframes with
    | nil _ =>
      rw [List.flatten_cons, List.flatten_nil, List.append_assoc, List.append_eq_nil_iff] at h
      exact absurd h.1 hf.nonempty
    | cons hf' hframes =>
      rw [List.flatten_cons, List.flatten_cons, List.append_assoc] at h
      -- the two frames are the same one
      have hsame := hf.whole (fs.flatten ++ q)
      rw [h, hf'.whole] at hsame
      simp only [Except.ok.injEq, Option.some.injEq, Prod.mk.injEq] at hsame
      obtain ⟨-, hlen, rfl⟩ := hsame
      obtain ⟨rfl, hrest⟩ := List.append_inj h hlen.symm
      obtain ⟨rfl, rfl⟩ := ih hq hframes hrest
      exact ⟨rfl, rfl⟩

/-- A reader that waits for more has received a whole stream if its buffer is empty and it stands where a
stream may end. -/
theorem At.whole_iff (h : At frame s₀ received delivered r) (hidle : frame r.state r.buffer = .ok none) :
    Whole frame boundary s₀ received ↔ r.buffer = [] ∧ boundary r.state = true := by
  obtain ⟨done, ms, hdone, rfl, -⟩ := h
  constructor
  · rintro ⟨frames, ms', t, hbytes, hframes, hboundary⟩
    obtain ⟨rfl, hnil⟩ := hdone.eq_of_idle hidle hframes hbytes
    obtain ⟨-, rfl⟩ := hdone.unique hframes
    exact ⟨hnil, hboundary⟩
  · rintro ⟨hnil, hboundary⟩
    exact ⟨done, ms, r.state, by rw [hnil, List.append_nil], hdone, hboundary⟩

theorem At.start (s : σ) : At frame s [] [] (⟨s, [], []⟩ : Pull σ α β) :=
  ⟨[], [], .nil s, rfl, rfl⟩

theorem At.pump_at (hopen : Opens next frame) {rounds : Nat} {result : Except ε Unit}
    (h : At frame s₀ received delivered r) (hpump : pump next rounds r = some (r', result)) :
    At frame s₀ received delivered r' ∧
      (result = .ok () → r'.plain = [] → frame r'.state r'.buffer = .ok none) := by
  induction rounds generalizing r with
  | zero => cases hpump
  | succ rounds ih =>
    rw [pump] at hpump
    split_ifs at hpump with hplain
    · split at hpump
      · rename_i e _
        cases hpump
        exact ⟨h, fun he => by cases he⟩
      · rename_i hnone
        cases hpump
        exact ⟨h, fun _ _ => hopen.idle hnone⟩
      · rename_i m n s hread
        obtain ⟨frames, ms, hbuf, rfl, hframed⟩ := hopen.taken hread
        obtain ⟨done, ms₀, hdone, hreceived, hdelivered⟩ := h
        refine ih ⟨done ++ frames, ms₀ ++ ms, hdone.append hframed, ?_, ?_⟩ hpump
        · rw [hreceived, List.flatten_append, List.append_assoc, ← hbuf]
        · rw [List.flatten_append, ← hdelivered, hplain, List.append_nil]
    · cases hpump
      exact ⟨h, fun _ hnil => absurd hnil hplain⟩

section Poll

variable {clean : Pull σ α β → Bool} {truncated : ε} {n : Nat} {arrivals : List (Arrival α)}
  {o : Outcome ε β}

/-- What a poll returns where the transport has ended: the reader waits for more, and its check decides. -/
def ToldAtEnd (frame : Decoder σ ε α (List β)) (clean : Pull σ α β → Bool) (truncated : ε)
    (r : Pull σ α β) (o : Outcome ε β) : Prop :=
  r.plain = [] ∧ frame r.state r.buffer = .ok none ∧
    o = if clean r then .closed else .failed truncated

/-- A poll keeps the reader behind its frames. -/
theorem At.pollRead_at (hopen : Opens next frame) (h : At frame s₀ received delivered r)
    (hpoll : pollRead next clean truncated n arrivals r = some (r', o)) :
    At frame s₀ (received ++ arrived arrivals) (delivered ++ o.bytes) r' ∧
      (.eof ∈ arrivals → ToldAtEnd frame clean truncated r' o) := by
  induction arrivals generalizing r received with
  | nil =>
    unfold pollRead at hpoll
    cases hpump : pump next (r.buffer.length + 1) r with
    | none =>
      rw [hpump] at hpoll
      cases hpoll
    | some result =>
      obtain ⟨r₁, e | ⟨⟩⟩ := result
      · rw [hpump] at hpoll
        cases hpoll
        exact ⟨by simpa [arrived, Outcome.bytes] using (h.pump_at hopen hpump).1, by simp⟩
      · obtain ⟨h₁, -⟩ := h.pump_at hopen hpump
        rw [hpump] at hpoll
        dsimp only at hpoll
        split_ifs at hpoll with hplain hempty
        · cases hpoll
          obtain ⟨done, ms, hdone, hreceived, hdelivered⟩ := h₁
          refine ⟨⟨done, ms, hdone, by simpa [arrived] using hreceived, ?_⟩, by simp⟩
          rw [Outcome.bytes, List.append_assoc, List.take_append_drop, hdelivered]
  | cons a arrivals ih =>
    unfold pollRead at hpoll
    cases hpump : pump next (r.buffer.length + 1) r with
    | none =>
      rw [hpump] at hpoll
      cases hpoll
    | some result =>
      obtain ⟨r₁, e | ⟨⟩⟩ := result
      · rw [hpump] at hpoll
        cases hpoll
      · obtain ⟨h₁, hidle⟩ := h.pump_at hopen hpump
        rw [hpump] at hpoll
        dsimp only at hpoll
        by_cases hplain : r₁.plain = []
        · rw [if_pos hplain] at hpoll
          cases a with
          | piece bytes =>
            have hsum : received ++ arrived (.piece bytes :: arrivals) =
                received ++ bytes ++ arrived arrivals := by rw [arrived, List.append_assoc]
            have hpiece : At frame s₀ (received ++ bytes) delivered
                { r₁ with buffer := r₁.buffer ++ bytes } := by
              obtain ⟨done, ms, hdone, hreceived, hdelivered⟩ := h₁
              exact ⟨done, ms, hdone, by rw [hreceived, List.append_assoc], hdelivered⟩
            rw [hsum]
            simpa using ih hpiece hpoll
          | pending =>
            cases arrivals with
            | nil =>
              cases hpoll
              exact ⟨by simpa [arrived, Outcome.bytes] using h₁, by simp⟩
            | cons _ _ => cases hpoll
          | eof =>
            cases arrivals with
            | nil =>
              simp only [Option.some.injEq, Prod.mk.injEq] at hpoll
              obtain ⟨rfl, rfl⟩ := hpoll
              refine ⟨?_, fun _ => ⟨hplain, hidle rfl hplain, rfl⟩⟩
              split_ifs <;> simpa [arrived, Outcome.bytes] using h₁
            | cons _ _ => cases hpoll
        · rw [if_neg hplain] at hpoll
          cases hpoll

end Poll

/-! ### Sessions -/

/-- A poll: how much room there is for bytes, and the answers of the transport. -/
structure ReadPoll (α : Type*) where
  room : Nat
  arrivals : List (Arrival α)

/-- A reader with its history.  After an end or an error it is not polled again. -/
structure Session (σ α β : Type*) where
  reader : Pull σ α β
  received : List α := []
  delivered : List β := []
  ended : Bool := false

/-- Nothing has been received. -/
def Session.start (s : σ) : Session σ α β := { reader := ⟨s, [], []⟩ }

/-- The result ends the session. -/
def Outcome.ends : Outcome ε β → Bool
  | .read _ | .pending => false
  | .closed | .failed _ => true

section Session

variable (next) (clean : Pull σ α β → Bool) (truncated : ε)

/-- A poll, with its result. -/
def Session.poll (w : Session σ α β) (p : ReadPoll α) : Option (Session σ α β × Outcome ε β) :=
  if w.ended then none
  else (pollRead next clean truncated p.room p.arrivals w.reader).map fun (r, o) =>
    ({ reader := r
       received := w.received ++ arrived p.arrivals
       delivered := w.delivered ++ o.bytes
       ended := o.ends }, o)

/-- A poll. -/
def Session.step (w : Session σ α β) (p : ReadPoll α) : Option (Session σ α β) :=
  (w.poll next clean truncated p).map Prod.fst

variable {next clean truncated} {w w' : Session σ α β} {p : ReadPoll α} {o : Outcome ε β}

theorem Session.poll_at (hopen : Opens next frame) (h : At frame s₀ w.received w.delivered w.reader)
    (hpoll : w.poll next clean truncated p = some (w', o)) :
    At frame s₀ w'.received w'.delivered w'.reader ∧
      (.eof ∈ p.arrivals → ToldAtEnd frame clean truncated w'.reader o) := by
  unfold Session.poll at hpoll
  split_ifs at hpoll
  obtain ⟨⟨r, o'⟩, hread, heq⟩ := Option.map_eq_some_iff.1 hpoll
  cases heq
  exact h.pollRead_at hopen hread

theorem Session.reach_at (hopen : Opens next frame)
    (h : Reach (Session.step next clean truncated) anyMove (.start s₀) w) :
    At frame s₀ w.received w.delivered w.reader := by
  apply h.inv (I := fun w => At frame s₀ w.received w.delivered w.reader)
  · intro w p w' hw _ hstep
    obtain ⟨⟨w₁, o⟩, hpoll, rfl⟩ := Option.map_eq_some_iff.1 hstep
    exact (Session.poll_at hopen hw hpoll).1
  · exact At.start s₀

/-- **At the end of the transport a reader is truthful if and only if its check accepts whole streams
only**, of the streams that it has received. -/
theorem Session.reach_truthful_iff (hopen : Opens next frame)
    (h : Reach (Session.step next clean truncated) anyMove (.start s₀) w)
    (hpoll : w.poll next clean truncated p = some (w', o)) (heof : .eof ∈ p.arrivals) :
    Truthful frame boundary s₀ w'.received o ↔
      (clean w'.reader = true → Whole frame boundary s₀ w'.received) := by
  obtain ⟨-, htold⟩ := Session.poll_at hopen (Session.reach_at hopen h) hpoll
  obtain ⟨-, -, rfl⟩ := htold heof
  unfold Truthful
  cases hclean : clean w'.reader with
  | true => simp
  | false => simp

end Session

end WutherCore.Data
