import WutherCore.Data.Framing

/-!
# Reading a stream when asked

A reader that decodes only when it is asked for bytes and has none left: `pump` takes frames off the
buffer until one of them gives bytes, `pollRead` asks the transport for more when the next frame is not
complete.

* `Follows`: the reader stands at a frame boundary of the writer, with what has arrived behind it in its
  buffer; the bytes it has handed out and those it keeps are those of the frames before.
* `pollRead_follows`: a poll keeps this, never fails while the stream is not cut short, and hands out
  what comes next.
* `Follows.idle`: a reader that has nothing to hand out has handed out all that has arrived whole.
-/

namespace WutherCore.Data

variable {σ ε α β : Type*}

/-- A reader: the state of its decoder, what has arrived, and what has been decoded. -/
structure Pull (σ α β : Type*) where
  state : σ
  buffer : List α := []
  plain : List β := []

/-- The answers of a transport to a read. -/
inductive Arrival (α : Type*)
  | piece (bytes : List α)
  | pending
  | eof

/-- The bytes that arrive. -/
def arrived : List (Arrival α) → List α
  | [] => []
  | .piece bytes :: arrivals => bytes ++ arrived arrivals
  | .pending :: arrivals => arrived arrivals
  | .eof :: arrivals => arrived arrivals

/-- The results of a poll. -/
inductive Outcome (ε β : Type*)
  | read (bytes : List β)
  | pending
  | closed
  | failed (e : ε)

/-- The bytes that a poll hands out. -/
def Outcome.bytes : Outcome ε β → List β
  | read bytes => bytes
  | pending | closed | failed _ => []

variable (decode : Decoder σ ε α (List β))

/-- Frames are taken off the buffer until there are bytes to hand out, or the next frame is not complete.
The counter bounds the rounds; `none` when it runs out. -/
def pump : Nat → Pull σ α β → Option (Pull σ α β × Except ε Unit)
  | 0, _ => none
  | rounds + 1, r =>
    if r.plain = [] then
      match decode r.state r.buffer with
      | .error e => some (r, .error e)
      | .ok none => some (r, .ok ())
      | .ok (some (m, consumed, s)) => pump rounds ⟨s, r.buffer.drop consumed, m⟩
    else some (r, .ok ())

/-- A poll of the reader for at most `n` bytes, with the answers of the transport: `clean` says in which
states the stream may end, and `truncated` is the error in the others.  There is no result if the answers
are not those to what the reader asks. -/
def pollRead (clean : Pull σ α β → Bool) (truncated : ε) (n : Nat) (arrivals : List (Arrival α))
    (r : Pull σ α β) : Option (Pull σ α β × Outcome ε β) :=
  match pump decode (r.buffer.length + 1) r with
  | none => none
  | some (r, .error e) => if arrivals.isEmpty then some (r, .failed e) else none
  | some (r, .ok ()) =>
    if r.plain = [] then
      match arrivals with
      | [.pending] => some (r, .pending)
      | [.eof] => some (r, if clean r then .closed else .failed truncated)
      | .piece bytes :: arrivals =>
        pollRead clean truncated n arrivals { r with buffer := r.buffer ++ bytes }
      | _ => none
    else if arrivals.isEmpty then some ({ r with plain := r.plain.drop n }, .read (r.plain.take n))
    else none

/-! ### Following a writer -/

/-- The reader has nothing to hand out before more arrives. -/
def Pull.Idle (r : Pull σ α β) : Prop := r.plain = [] ∧ decode r.state r.buffer = .ok none

/-- `received` of the frames has arrived and `delivered` of their messages was handed out: the decoder
stands after the frames `done`, and what has arrived behind them is in the buffer. -/
structure Follows (s : σ) (done todo : List (List α)) (ms₁ ms₂ : List (List β)) (t : σ)
    (received : List α) (delivered : List β) (r : Pull σ α β) : Prop where
  before : Framed decode s done ms₁ r.state
  after : Framed decode r.state todo ms₂ t
  received_eq : received = done.flatten ++ r.buffer
  delivered_eq : delivered ++ r.plain = ms₁.flatten
  buffer_le : r.buffer <+: todo.flatten

variable {decode} {s t t' : σ} {done todo more : List (List α)} {ms₁ ms₂ ms₃ : List (List β)}
  {received rest : List α} {delivered : List β} {r r' : Pull σ α β}

theorem Follows.start (s : σ) : Follows decode s [] [] [] [] s [] [] ⟨s, [], []⟩ where
  before := .nil s
  after := .nil s
  received_eq := rfl
  delivered_eq := rfl
  buffer_le := List.nil_prefix

theorem Follows.extend (h : Follows decode s done todo ms₁ ms₂ t received delivered r)
    (hmore : Framed decode t more ms₃ t') :
    Follows decode s done (todo ++ more) ms₁ (ms₂ ++ ms₃) t' received delivered r where
  before := h.before
  after := h.after.append hmore
  received_eq := h.received_eq
  delivered_eq := h.delivered_eq
  buffer_le := by
    rw [List.flatten_append]
    exact h.buffer_le.trans (List.prefix_append _ _)

theorem Follows.arrive (h : Follows decode s done todo ms₁ ms₂ t received delivered r) {piece : List α}
    (hp : received ++ piece <+: (done ++ todo).flatten) :
    Follows decode s done todo ms₁ ms₂ t (received ++ piece) delivered
      { r with buffer := r.buffer ++ piece } where
  before := h.before
  after := h.after
  received_eq := by rw [h.received_eq, List.append_assoc]
  delivered_eq := h.delivered_eq
  buffer_le := by
    rw [h.received_eq, List.flatten_append, List.append_assoc] at hp
    exact (List.prefix_append_right_inj _).1 hp

theorem Follows.take (h : Follows decode s done todo ms₁ ms₂ t received delivered r) (n : Nat) :
    Follows decode s done todo ms₁ ms₂ t received (delivered ++ r.plain.take n)
      { r with plain := r.plain.drop n } where
  before := h.before
  after := h.after
  received_eq := h.received_eq
  delivered_eq := by rw [List.append_assoc, List.take_append_drop, h.delivered_eq]
  buffer_le := h.buffer_le

theorem Follows.incomplete (h : Follows decode s done todo ms₁ ms₂ t received delivered r)
    (hi : r.Idle decode) : Incomplete r.buffer todo := by
  have hafter := h.after
  have hle := h.buffer_le
  cases hafter with
  | nil _ => exact List.prefix_nil.1 hle
  | cons hf _ =>
    rw [List.flatten_cons] at hle
    rcases prefix_append_cases hle with hcut | ⟨c, hc, -⟩
    · exact hcut
    · have hdecode := hi.2
      rw [hc, hf.whole] at hdecode
      cases hdecode

theorem Follows.delivered_eq_of_idle (h : Follows decode s done todo ms₁ ms₂ t received delivered r)
    (hi : r.Idle decode) : delivered = ms₁.flatten := by
  rw [← h.delivered_eq, hi.1, List.append_nil]

/-- The loop of the decoder leads to bytes or to an idle reader. -/
theorem pump_follows (h : Follows decode s done todo ms₁ ms₂ t received delivered r)
    (hd : decode t [] = .ok none) {rounds : Nat} (hr : r.buffer.length < rounds) :
    ∃ r' done' todo' ms₁' ms₂', pump decode rounds r = some (r', .ok ()) ∧
      Follows decode s done' todo' ms₁' ms₂' t received delivered r' ∧
      done' ++ todo' = done ++ todo ∧ ms₁' ++ ms₂' = ms₁ ++ ms₂ ∧
      (r'.plain = [] → r'.Idle decode) := by
  induction rounds generalizing r done todo ms₁ ms₂ with
  | zero => omega
  | succ rounds ih =>
    by_cases hplain : r.plain = []
    · have hafter := h.after
      cases hafter with
      | nil _ =>
        -- the reader stands behind the last frame
        have hnil : r.buffer = [] := by simpa using h.buffer_le
        have hnone : decode r.state r.buffer = .ok none := by rw [hnil, hd]
        refine ⟨r, done, [], ms₁, [], ?_, h, rfl, rfl, fun _ => ⟨hplain, hnone⟩⟩
        rw [pump, if_pos hplain, hnone]
      | @cons _ s' _ frame m frames ms hf hrest =>
        have hle := h.buffer_le
        rw [List.flatten_cons] at hle
        rcases prefix_append_cases hle with ⟨hcut, hne⟩ | ⟨c, hc, hcle⟩
        · have hnone := hf.cut _ hcut hne
          refine ⟨r, done, frame :: frames, ms₁, m :: ms, ?_, h, rfl, rfl, fun _ => ⟨hplain, hnone⟩⟩
          rw [pump, if_pos hplain, hnone]
        · have hnext : Follows decode s (done ++ [frame]) frames (ms₁ ++ [m]) ms t received delivered
              ⟨s', c, m⟩ := by
            refine ⟨h.before.append (.cons hf (.nil _)), hrest, ?_, ?_, hcle⟩
            · rw [h.received_eq, hc]
              simp
            · have hout := h.delivered_eq
              rw [hplain, List.append_nil] at hout
              simp [hout]
          have hlen : c.length < rounds := by
            have hpos := List.length_pos_iff.2 hf.nonempty
            rw [hc, List.length_append] at hr
            omega
          obtain ⟨r', done', todo', ms₁', ms₂', hpump, hfollows, hframes, hms, hidle⟩ := ih hnext hlen
          refine ⟨r', done', todo', ms₁', ms₂', ?_, hfollows, ?_, ?_, hidle⟩
          · rw [pump, if_pos hplain, hc, hf.whole]
            simp only [List.drop_left, hpump]
          · rw [hframes, List.append_assoc, List.singleton_append]
          · rw [hms, List.append_assoc, List.singleton_append]
    · refine ⟨r, done, todo, ms₁, ms₂, ?_, h, rfl, rfl, fun hnil => absurd hnil hplain⟩
      rw [pump, if_neg hplain]

/-- What a result says of the reader that has returned it. -/
def Outcome.Told (decode : Decoder σ ε α (List β)) (clean : Pull σ α β → Bool) (truncated : ε) (n : Nat)
    (r : Pull σ α β) : Outcome ε β → Prop
  | read bytes => 0 < n → bytes ≠ []
  | pending => r.Idle decode
  | closed => r.Idle decode ∧ clean r = true
  | failed e => r.Idle decode ∧ clean r = false ∧ e = truncated

section Poll

variable {clean : Pull σ α β → Bool} {truncated : ε} {n : Nat} {arrivals : List (Arrival α)}
  {o : Outcome ε β}

/-- **A poll follows the writer**: it hands out what comes next, and fails only if the stream is cut
where it may not end. -/
theorem pollRead_follows (h : Follows decode s done todo ms₁ ms₂ t received delivered r)
    (hd : decode t [] = .ok none) (hin : received ++ arrived arrivals <+: (done ++ todo).flatten)
    (hpoll : pollRead decode clean truncated n arrivals r = some (r', o)) :
    ∃ done' todo' ms₁' ms₂',
      Follows decode s done' todo' ms₁' ms₂' t (received ++ arrived arrivals) (delivered ++ o.bytes) r' ∧
      done' ++ todo' = done ++ todo ∧ ms₁' ++ ms₂' = ms₁ ++ ms₂ ∧
      o.Told decode clean truncated n r' := by
  induction arrivals generalizing r received done todo ms₁ ms₂ with
  | nil =>
    obtain ⟨r₁, done₁, todo₁, ms₁', ms₂', hpump, h₁, hframes, hms, -⟩ :=
      pump_follows h hd (Nat.lt_add_one _)
    unfold pollRead at hpoll
    rw [hpump] at hpoll
    dsimp only at hpoll
    split_ifs at hpoll with hplain hempty
    · cases hpoll
      rw [arrived, List.append_nil]
      refine ⟨done₁, todo₁, ms₁', ms₂', h₁.take n, hframes, hms, fun hn hnil => hplain ?_⟩
      rcases List.take_eq_nil_iff.1 hnil with hzero | hnil
      · omega
      · exact hnil
  | cons a arrivals ih =>
    obtain ⟨r₁, done₁, todo₁, ms₁', ms₂', hpump, h₁, hframes, hms, hidle⟩ :=
      pump_follows h hd (Nat.lt_add_one _)
    unfold pollRead at hpoll
    rw [hpump] at hpoll
    dsimp only at hpoll
    by_cases hplain : r₁.plain = []
    · rw [if_pos hplain] at hpoll
      cases a with
      | piece bytes =>
        have hsum : received ++ arrived (.piece bytes :: arrivals) =
            received ++ bytes ++ arrived arrivals := by rw [arrived, List.append_assoc]
        rw [hsum] at hin ⊢
        rw [← hframes] at hin
        have hpiece := h₁.arrive ((List.prefix_append _ _).trans hin)
        obtain ⟨done', todo', ms₁'', ms₂'', hfollows, hframes', hms', htold⟩ := ih hpiece hin hpoll
        exact ⟨done', todo', ms₁'', ms₂'', hfollows, hframes'.trans hframes, hms'.trans hms, htold⟩
      | pending =>
        cases arrivals with
        | nil =>
          cases hpoll
          refine ⟨done₁, todo₁, ms₁', ms₂', ?_, hframes, hms, hidle hplain⟩
          simpa [arrived, Outcome.bytes] using h₁
        | cons _ _ => cases hpoll
      | eof =>
        cases arrivals with
        | nil =>
          simp only [Option.some.injEq, Prod.mk.injEq] at hpoll
          obtain ⟨rfl, rfl⟩ := hpoll
          refine ⟨done₁, todo₁, ms₁', ms₂', ?_, hframes, hms, ?_⟩
          · split_ifs <;> simpa [arrived, Outcome.bytes] using h₁
          · split_ifs with hclean
            · exact ⟨hidle hplain, hclean⟩
            · exact ⟨hidle hplain, Bool.not_eq_true _ ▸ hclean, rfl⟩
        | cons _ _ => cases hpoll
    · rw [if_neg hplain] at hpoll
      cases hpoll

theorem pollRead_returns (clean : Pull σ α β → Bool) (truncated : ε) (n : Nat)
    (h : Follows decode s done todo ms₁ ms₂ t received delivered r) (hd : decode t [] = .ok none) :
    (∃ r' bytes, pollRead decode clean truncated n [] r = some (r', .read bytes)) ∨
      ∃ r', pollRead decode clean truncated n [.pending] r = some (r', .pending) := by
  obtain ⟨r₁, _, _, _, _, hpump, -⟩ := pump_follows h hd (Nat.lt_add_one r.buffer.length)
  by_cases hplain : r₁.plain = []
  · right
    refine ⟨r₁, ?_⟩
    unfold pollRead
    rw [hpump]
    simp only [hplain, if_true]
  · left
    refine ⟨{ r₁ with plain := r₁.plain.drop n }, r₁.plain.take n, ?_⟩
    unfold pollRead
    rw [hpump]
    simp [hplain]

end Poll

/-! ### Where a stream is cut -/

theorem done_eq_of_incomplete {whole left : List (List α)} {q : List α}
    (hne : ∀ f ∈ done ++ todo, f ≠ []) (hsplit : done ++ todo = whole ++ left)
    (hq : done.flatten ++ q = whole.flatten) (hi : Incomplete q todo) : done = whole ∧ q = [] := by
  rcases List.append_eq_append_iff.1 hsplit with ⟨x, rfl, rfl⟩ | ⟨x, rfl, rfl⟩
  · rw [List.flatten_append, List.append_cancel_left_eq] at hq
    cases x with
    | nil => exact ⟨by simp, by simpa using hq⟩
    | cons f x =>
      -- the next frame has arrived whole
      obtain ⟨hpre, hneq⟩ := hi
      rw [List.flatten_cons] at hq
      exact absurd (hpre.eq_of_length_le (by rw [hq]; simp)) hneq
  · rw [List.flatten_append, List.append_assoc, List.append_right_eq_self, List.append_eq_nil_iff] at hq
    obtain rfl : x = [] := by
      cases x with
      | nil => rfl
      | cons f x =>
        rw [List.flatten_cons, List.append_eq_nil_iff] at hq
        exact absurd hq.1.1 (hne f (by simp))
    exact ⟨by simp, hq.2⟩

end WutherCore.Data
