import Mathlib.Data.List.Basic
import Mathlib.Data.List.Infix
import Mathlib.Order.Basic

/-!
# Slices, chunks and frames of a stream

The parts of a list that a byte protocol takes apart: `slice l i j`, the elements from `i` up to `j`,
and `chunks n l`, the pieces of at most `n` elements.

A stream of frames is read by a decoder that has a state of its own.  It is given what has arrived so
far; it asks for more, fails, or returns a message with the length of its frame.

* `drain`, `feed`, `feedAll`: the reading loop, on pieces of the stream as they arrive.
* `Frame`, `Framed`: frames that the decoder reads whole and never in part.
* `feedAll_synced`: however the stream is cut into pieces, the reader stands at a frame boundary of
  the writer, in the writer's state, and has delivered the messages before it.
* `Carries.delivered`: the same about what a writer has put on the wire, which may end within a frame.
-/

namespace WutherCore.Data

variable {α : Type*}

/-! ### Slices -/

/-- `&l[i..j]`. -/
def slice (l : List α) (i j : Nat) : List α := (l.drop i).take (j - i)

theorem slice_append_left {a b : List α} {i j : Nat} (h : j ≤ a.length) :
    slice (a ++ b) i j = slice a i j := by
  unfold slice
  rcases Nat.le_total i a.length with hi | hi
  · rw [List.drop_append_of_le_length hi, List.take_append_of_le_length (by simp; omega)]
  · have hij : j - i = 0 := by omega
    simp [hij]

theorem slice_append_right {a b : List α} {i j : Nat} (h : a.length ≤ i) :
    slice (a ++ b) i j = slice b (i - a.length) (j - a.length) := by
  unfold slice
  have hij : j - a.length - (i - a.length) = j - i := by omega
  rw [List.drop_append, List.drop_eq_nil_of_le h, List.nil_append, hij]

theorem slice_zero_length {l : List α} {j : Nat} (h : l.length = j) : slice l 0 j = l := by
  subst h
  simp [slice]

@[simp] theorem slice_zero_zero (l : List α) : slice l 0 0 = [] := by simp [slice]

theorem slice_length {l : List α} {i j : Nat} (h : j ≤ l.length) : (slice l i j).length = j - i := by
  simp only [slice, List.length_take, List.length_drop]
  omega

theorem slice_middle {a b c : List α} {i j : Nat} (hi : a.length = i) (hj : i + b.length = j) :
    slice (a ++ (b ++ c)) i j = b := by
  rw [slice_append_right hi.le, slice_append_left (by omega), hi, Nat.sub_self]
  exact slice_zero_length (by omega)

theorem prefix_append_cases {q a b : List α} (h : q <+: a ++ b) :
    (q <+: a ∧ q ≠ a) ∨ ∃ c, q = a ++ c ∧ c <+: b := by
  obtain ⟨rest, hrest⟩ := h
  rcases List.append_eq_append_iff.1 hrest with ⟨c, ha, -⟩ | ⟨c, hq, hb⟩
  · by_cases hq : q = a
    · exact .inr ⟨[], by simp [hq], List.nil_prefix⟩
    · exact .inl ⟨⟨c, ha.symm⟩, hq⟩
  · exact .inr ⟨c, hq, rest, hb.symm⟩

/-! ### Chunks -/

/-- The first chunks of a list, at most as many as the counter says. -/
def chunksUpTo (n : Nat) : Nat → List α → List (List α)
  | 0, _ => []
  | _ + 1, [] => []
  | count + 1, a :: l => (a :: l).take n :: chunksUpTo n count ((a :: l).drop n)

/-- `l.chunks(n)`: pieces of `n` elements, and a last one of what is left.  Each takes an element at
least, so there are no more of them than elements. -/
def chunks (n : Nat) (l : List α) : List (List α) := chunksUpTo n l.length l

theorem chunksUpTo_eq_chunks {n : Nat} (hn : 0 < n) (count : Nat) (l : List α)
    (h : l.length ≤ count) : chunksUpTo n count l = chunks n l := by
  have key : ∀ (c d : Nat) (l : List α), l.length ≤ c → l.length ≤ d →
      chunksUpTo n c l = chunksUpTo n d l := by
    intro c
    induction c with
    | zero =>
      intro d l hc _
      obtain rfl : l = [] := List.eq_nil_of_length_eq_zero (by omega)
      cases d <;> rfl
    | succ c ih =>
      intro d l hc hd
      cases l with
      | nil => cases d <;> rfl
      | cons a l =>
        cases d with
        | zero => simp at hd
        | succ d =>
          have hdrop : ((a :: l).drop n).length ≤ l.length := by simp; omega
          simp only [List.length_cons, Nat.add_le_add_iff_right] at hc hd
          rw [chunksUpTo, chunksUpTo, ih d _ (hdrop.trans hc) (hdrop.trans hd)]
  exact key _ _ _ h (le_refl _)

@[simp] theorem chunks_nil (n : Nat) : chunks n ([] : List α) = [] := rfl

theorem chunks_of_ne_nil {n : Nat} (hn : 0 < n) {l : List α} (hl : l ≠ []) :
    chunks n l = l.take n :: chunks n (l.drop n) := by
  cases l with
  | nil => exact absurd rfl hl
  | cons a l =>
    rw [chunks, List.length_cons, chunksUpTo, chunksUpTo_eq_chunks hn]
    simp
    omega

theorem chunks_induction {n : Nat} (hn : 0 < n) {motive : List α → Prop} (nil : motive [])
    (step : ∀ l, l ≠ [] → motive (l.drop n) → motive l) (l : List α) : motive l := by
  induction hk : l.length using Nat.strong_induction_on generalizing l with
  | _ k ih =>
    by_cases hl : l = []
    · exact hl ▸ nil
    · have hpos : 0 < l.length := List.length_pos_iff.2 hl
      exact step l hl (ih _ (by simp; omega) _ rfl)

theorem flatten_chunks {n : Nat} (hn : 0 < n) (l : List α) : (chunks n l).flatten = l := by
  induction l using chunks_induction hn with
  | nil => rfl
  | step l hl ih => rw [chunks_of_ne_nil hn hl, List.flatten_cons, ih, List.take_append_drop]

theorem chunks_flatten {n : Nat} {ps : List (List α)} (hps : ∀ p ∈ ps, 0 < p.length ∧ p.length ≤ n)
    (hfull : ∀ p ∈ ps.dropLast, p.length = n) : chunks n ps.flatten = ps := by
  induction ps with
  | nil => rfl
  | cons p ps ih =>
    obtain ⟨hp, hpn⟩ := hps p List.mem_cons_self
    have hne : (p :: ps).flatten ≠ [] := by
      intro h
      rw [List.flatten_cons, List.append_eq_nil_iff] at h
      simp [h.1] at hp
    rw [chunks_of_ne_nil (by omega) hne, List.flatten_cons]
    cases ps with
    | nil => simp [List.take_of_length_le hpn, List.drop_of_length_le hpn]
    | cons q qs =>
      -- A piece that others follow is a full chunk.
      have hpe : p.length = n := hfull p (by simp)
      have hrest := ih (fun r hr => hps r (List.mem_cons_of_mem _ hr))
        fun r hr => hfull r (by
          rw [List.dropLast_cons_of_ne_nil (List.cons_ne_nil q qs)]
          exact List.mem_cons_of_mem _ hr)
      rw [List.take_left' hpe, List.drop_left' hpe, hrest]

theorem length_of_mem_chunks {n : Nat} (hn : 0 < n) {l c : List α} (hc : c ∈ chunks n l) :
    0 < c.length ∧ c.length ≤ n := by
  induction l using chunks_induction hn with
  | nil => cases hc
  | step l hl ih =>
    rw [chunks_of_ne_nil hn hl, List.mem_cons] at hc
    rcases hc with rfl | hc
    · have hpos : 0 < l.length := List.length_pos_iff.2 hl
      simp only [List.length_take]
      omega
    · exact ih hc

theorem length_chunks {n : Nat} (hn : 0 < n) (l : List α) :
    (chunks n l).length = (l.length + n - 1) / n := by
  induction l using chunks_induction hn with
  | nil => simp [Nat.div_eq_of_lt (Nat.sub_lt hn Nat.one_pos)]
  | step l hl ih =>
    have hpos : 0 < l.length := List.length_pos_iff.2 hl
    rw [chunks_of_ne_nil hn hl, List.length_cons, ih, List.length_drop]
    rcases Nat.lt_or_ge n l.length with h | h
    · rw [show l.length + n - 1 = l.length - n + n - 1 + n by omega, Nat.add_div_right _ hn]
    · rw [show l.length - n + n - 1 = n - 1 by omega, Nat.div_eq_of_lt (Nat.sub_lt hn Nat.one_pos),
        show l.length + n - 1 = l.length - 1 + n by omega, Nat.add_div_right _ hn,
        Nat.div_eq_of_lt (by omega)]

theorem length_le_length_flatten {pieces : List (List α)} (h : ∀ c ∈ pieces, c ≠ []) :
    pieces.length ≤ pieces.flatten.length := by
  induction pieces with
  | nil => simp
  | cons c pieces ih =>
    rw [List.forall_mem_cons] at h
    have hpos := List.length_pos_iff.2 h.1
    have hrest := ih h.2
    simp only [List.length_cons, List.flatten_cons, List.length_append]
    omega

/-! ### The reading loop -/

variable {σ ε β : Type*}

/-- A decoder: from its state and what has arrived, a message with the length of its frame and the
next state; nothing while the frame is not complete. -/
abbrev Decoder (σ ε α β : Type*) := σ → List α → Except ε (Option (β × Nat × σ))

/-- A reader of a stream. -/
structure Receiver (σ α β : Type*) where
  state : σ
  buffer : List α := []
  delivered : List β := []

/-- The reader that has received nothing. -/
def Receiver.start (s : σ) : Receiver σ α β := { state := s }

variable (decode : Decoder σ ε α β)

/-- The loop of a reader: messages are delivered until the decoder asks for more or fails.  The
counter bounds the rounds; `none` when it runs out. -/
def drain : Nat → Receiver σ α β → Option (Receiver σ α β × Except ε Unit)
  | 0, _ => none
  | rounds + 1, r =>
    match decode r.state r.buffer with
    | .error e => some (r, .error e)
    | .ok none => some (r, .ok ())
    | .ok (some (m, consumed, s)) =>
      drain rounds ⟨s, r.buffer.drop consumed, r.delivered ++ [m]⟩

/-- A piece of the stream arrives. -/
def feed (r : Receiver σ α β) (piece : List α) : Option (Receiver σ α β × Except ε Unit) :=
  drain decode ((r.buffer ++ piece).length + 1) { r with buffer := r.buffer ++ piece }

/-- The pieces of the stream arrive one after another; nothing is read after an error. -/
def feedAll (r : Receiver σ α β) : List (List α) → Option (Receiver σ α β × Except ε Unit)
  | [] => some (r, .ok ())
  | piece :: pieces =>
    match feed decode r piece with
    | some (r', .ok ()) => feedAll r' pieces
    | result => result

/-! ### Frames -/

/-- In the state `s` the decoder reads `frame` as the message `m`, whatever follows it, and asks for
more as long as it is cut short. -/
structure Frame (s : σ) (frame : List α) (m : β) (s' : σ) : Prop where
  nonempty : frame ≠ []
  whole : ∀ rest, decode s (frame ++ rest) = .ok (some (m, frame.length, s'))
  cut : ∀ p, p <+: frame → p ≠ frame → decode s p = .ok none

/-- The frames carry the messages one by one, from the state `s` to `s'`. -/
inductive Framed : σ → List (List α) → List β → σ → Prop
  | nil (s) : Framed s [] [] s
  | cons {s s' t frame m frames ms} :
      Frame decode s frame m s' → Framed s' frames ms t → Framed s (frame :: frames) (m :: ms) t

variable {decode} {s s' t : σ} {frames frames' done todo : List (List α)} {ms ms' : List β}
  {q rest received piece : List α} {r : Receiver σ α β}

theorem Framed.append (h : Framed decode s frames ms s') (h' : Framed decode s' frames' ms' t) :
    Framed decode s (frames ++ frames') (ms ++ ms') t := by
  induction h with
  | nil s => exact h'
  | cons hf _ ih => exact .cons hf (ih h')

theorem Framed.eq_nil (h : Framed decode s [] ms t) : ms = [] := by
  cases h
  rfl

theorem Framed.split (h : Framed decode s (done ++ todo) ms t) :
    ∃ s' ms₁ ms₂, ms = ms₁ ++ ms₂ ∧ Framed decode s done ms₁ s' ∧ Framed decode s' todo ms₂ t := by
  induction done generalizing s ms with
  | nil => exact ⟨s, [], ms, rfl, .nil s, h⟩
  | cons frame done ih =>
    cases h with
    | cons hf h =>
      obtain ⟨s', ms₁, ms₂, rfl, h₁, h₂⟩ := ih h
      exact ⟨s', _ :: ms₁, ms₂, rfl, .cons hf h₁, h₂⟩

theorem Framed.nonempty (h : Framed decode s frames ms s') : ∀ f ∈ frames, f ≠ [] := by
  induction h with
  | nil s => simp
  | cons hf _ ih => exact List.forall_mem_cons.2 ⟨hf.nonempty, ih⟩

theorem Framed.unique (h : Framed decode s frames ms s') (h' : Framed decode s frames ms' t) :
    ms = ms' ∧ s' = t := by
  induction h generalizing ms' with
  | nil s =>
    cases h'
    exact ⟨rfl, rfl⟩
  | cons hf _ ih =>
    cases h' with
    | cons hf' h' =>
      have heq := (hf.whole []).symm.trans (hf'.whole [])
      simp only [Except.ok.injEq, Option.some.injEq, Prod.mk.injEq, true_and] at heq
      obtain ⟨rfl, rfl⟩ := heq
      obtain ⟨rfl, rfl⟩ := ih h'
      exact ⟨rfl, rfl⟩

theorem drain_framed (h : Framed decode s frames ms s') (rounds : Nat) (out : List β) :
    drain decode (frames.length + rounds) ⟨s, frames.flatten ++ q, out⟩ =
      drain decode rounds ⟨s', q, out ++ ms⟩ := by
  induction h generalizing out with
  | nil s => simp
  | @cons s s' t frame m frames ms hf _ ih =>
    rw [List.length_cons, Nat.add_right_comm, drain, List.flatten_cons, List.append_assoc]
    simp only [hf.whole, List.drop_left, ih, List.append_assoc, List.singleton_append]

/-! ### Where a stream is cut -/

/-- `q` is what has arrived of the first of the frames, less than the whole of it. -/
def Incomplete (q : List α) : List (List α) → Prop
  | [] => q = []
  | frame :: _ => q <+: frame ∧ q ≠ frame

theorem eq_nil_of_incomplete (h : Incomplete todo.flatten todo) : todo = [] := by
  cases todo with
  | nil => rfl
  | cons frame todo =>
    obtain ⟨hpre, hne⟩ := h
    exact absurd (hpre.eq_of_length_le (by simp)) hne

theorem exists_incomplete (h : q ++ rest = frames.flatten) (hne : ∀ f ∈ frames, f ≠ []) :
    ∃ done todo tail, frames = done ++ todo ∧ q = done.flatten ++ tail ∧ Incomplete tail todo := by
  induction frames generalizing q with
  | nil =>
    obtain ⟨rfl, -⟩ := List.append_eq_nil_iff.1 h
    exact ⟨[], [], [], rfl, rfl, rfl⟩
  | cons frame frames ih =>
    rw [List.forall_mem_cons] at hne
    rw [List.flatten_cons] at h
    rcases List.append_eq_append_iff.1 h with ⟨a, rfl, ha⟩ | ⟨c, rfl, hc⟩
    · by_cases hq : q = q ++ a
      · -- the whole frame has arrived, and nothing after it
        obtain rfl : a = [] := by simpa using hq
        obtain ⟨done, todo, tail, rfl, hd, ht⟩ := ih (q := []) (by simpa using ha) hne.2
        refine ⟨q :: done, todo, tail, by simp, ?_, ht⟩
        rw [List.flatten_cons, List.append_assoc, ← hd, List.append_nil]
      · exact ⟨[], (q ++ a) :: frames, q, rfl, rfl, List.prefix_append _ _, hq⟩
    · obtain ⟨done, todo, tail, rfl, rfl, ht⟩ := ih hc.symm hne.2
      exact ⟨frame :: done, todo, tail, rfl, by simp, ht⟩

/-! ### The reader follows the writer -/

/-- After the bytes `received`, the reader `r` stands at a frame boundary of the writer: it has the
state that the writer had there, it has delivered the messages of the frames before it, and its buffer
is what has arrived of the next frame. -/
def Synced (decode : Decoder σ ε α β) (s : σ) (frames : List (List α)) (ms : List β) (t : σ)
    (received : List α) (r : Receiver σ α β) : Prop :=
  ∃ done todo ms₂, frames = done ++ todo ∧ ms = r.delivered ++ ms₂ ∧
    Framed decode s done r.delivered r.state ∧ Framed decode r.state todo ms₂ t ∧
    received = done.flatten ++ r.buffer ∧ Incomplete r.buffer todo

theorem drain_incomplete (h : Framed decode s todo ms t) (hd : decode t [] = .ok none)
    (hq : Incomplete q todo) (rounds : Nat) (out : List β) :
    drain decode (rounds + 1) ⟨s, q, out⟩ = some (⟨s, q, out⟩, .ok ()) := by
  have hnone : decode s q = .ok none := by
    cases h with
    | nil s => exact (show q = [] from hq) ▸ hd
    | cons hf _ => exact hf.cut q hq.1 hq.2
  simp [drain, hnone]

theorem feed_synced (hd : decode t [] = .ok none) (hr : Synced decode s frames ms t received r)
    (h : received ++ piece ++ rest = frames.flatten) :
    ∃ r', feed decode r piece = some (r', .ok ()) ∧
      Synced decode s frames ms t (received ++ piece) r' := by
  obtain ⟨done, todo, ms₂, rfl, rfl, hdone, htodo, rfl, -⟩ := hr
  have hflat : r.buffer ++ piece ++ rest = todo.flatten := by
    simpa only [List.flatten_append, List.append_assoc, List.append_cancel_left_eq] using h
  obtain ⟨more, todo, tail, rfl, hq, htail⟩ := exists_incomplete hflat htodo.nonempty
  obtain ⟨s', ms₁, ms₂, rfl, hmore, htodo⟩ := htodo.split
  -- the rounds of the loop: one for each frame, and one that finds the next frame incomplete
  obtain ⟨rounds, hrounds⟩ : ∃ k, (r.buffer ++ piece).length + 1 = more.length + (k + 1) := by
    have hlen := length_le_length_flatten hmore.nonempty
    refine ⟨(r.buffer ++ piece).length - more.length, ?_⟩
    rw [hq, List.length_append]
    omega
  refine ⟨⟨s', tail, r.delivered ++ ms₁⟩, ?_, done ++ more, todo, ms₂, ?_, ?_, ?_, htodo, ?_, htail⟩
  · rw [feed, hrounds, hq, drain_framed hmore, drain_incomplete htodo hd htail]
  · rw [List.append_assoc]
  · rw [List.append_assoc]
  · exact hdone.append hmore
  · rw [List.append_assoc, hq, List.flatten_append, List.append_assoc]

/-- **However a stream of frames is cut into pieces, the reader stands where the writer stood**, after
each of them: at a frame boundary, in the writer's state, with the messages before it delivered. -/
theorem feedAll_synced (hd : decode t [] = .ok none) (h : Framed decode s frames ms t)
    {pieces : List (List α)} (hp : pieces.flatten ++ rest = frames.flatten) :
    ∃ r, feedAll decode (.start s) pieces = some (r, .ok ()) ∧
      Synced decode s frames ms t pieces.flatten r := by
  have key : ∀ (pieces : List (List α)) (received : List α) (r : Receiver σ α β),
      Synced decode s frames ms t received r →
      received ++ pieces.flatten ++ rest = frames.flatten →
      ∃ r', feedAll decode r pieces = some (r', .ok ()) ∧
        Synced decode s frames ms t (received ++ pieces.flatten) r' := by
    intro pieces
    induction pieces with
    | nil =>
      intro received r hr _
      exact ⟨r, rfl, by simpa using hr⟩
    | cons piece pieces ih =>
      intro received r hr hflat
      rw [List.flatten_cons, ← List.append_assoc] at hflat ⊢
      have hpiece : received ++ piece ++ (pieces.flatten ++ rest) = frames.flatten := by
        simpa only [List.append_assoc] using hflat
      obtain ⟨r₁, hfeed, hr₁⟩ := feed_synced hd hr hpiece
      obtain ⟨r₂, hall, hr₂⟩ := ih _ _ hr₁ hflat
      exact ⟨r₂, by rw [feedAll, hfeed]; exact hall, hr₂⟩
  have hstart : Synced decode s frames ms t [] (.start s) := by
    refine ⟨[], frames, ms, rfl, rfl, .nil s, h, rfl, ?_⟩
    cases frames with
    | nil => rfl
    | cons f _ => exact ⟨List.nil_prefix, (h.nonempty f List.mem_cons_self).symm⟩
  obtain ⟨r, hall, hr⟩ := key pieces [] (.start s) hstart (by simpa using hp)
  exact ⟨r, hall, hr⟩

theorem Framed.feedAll (h : Framed decode s frames ms t) (hd : decode t [] = .ok none)
    {pieces : List (List α)} (hp : pieces.flatten = frames.flatten) :
    feedAll decode (.start s) pieces = some (⟨t, [], ms⟩, .ok ()) := by
  have hall : pieces.flatten ++ [] = frames.flatten := by rw [hp, List.append_nil]
  obtain ⟨⟨state, buffer, delivered⟩, hr, done, todo, ms₂, hsplit, hms, hdone, htodo, hreceived, hi⟩ :=
    feedAll_synced hd h hall
  rw [hp, hsplit, List.flatten_append, List.append_cancel_left_eq] at hreceived
  obtain rfl : todo = [] := eq_nil_of_incomplete (hreceived ▸ hi)
  obtain rfl : buffer = [] := hi
  cases htodo
  rw [List.append_nil] at hsplit hms
  rw [hr, hms]

/-! ### What a writer has put on the wire -/

/-- The wire carries the messages in whole frames, and behind them at most the first part of another
frame. -/
def Carries (decode : Decoder σ ε α β) (s : σ) (wire : List α) (ms : List β) : Prop :=
  ∃ frames t todo ms₂ u tail, wire = frames.flatten ++ tail ∧ Framed decode s frames ms t ∧
    Framed decode t todo ms₂ u ∧ decode u [] = .ok none ∧ Incomplete tail todo

theorem Framed.carries (h : Framed decode s frames ms t) (hd : decode t [] = .ok none) :
    Carries decode s frames.flatten ms :=
  ⟨frames, t, [], [], t, [], (List.append_nil _).symm, h, .nil t, hd, rfl⟩

/-- The first part of further frames carries the first of their messages, and not all of them if it is
cut short. -/
theorem Framed.carries_cut (h : Framed decode s frames ms t) (hmore : Framed decode t todo ms' s')
    (hd : decode s' [] = .ok none) (hq : q <+: todo.flatten) (hne : q ≠ todo.flatten) :
    ∃ ms₁ m ms₂, ms' = ms₁ ++ m :: ms₂ ∧ Carries decode s (frames.flatten ++ q) (ms ++ ms₁) := by
  obtain ⟨rest, hrest⟩ := hq
  obtain ⟨whole, left, tail, rfl, rfl, htail⟩ := exists_incomplete hrest hmore.nonempty
  obtain ⟨t', ms₁, ms₂, rfl, hwhole, hleft⟩ := hmore.split
  cases hleft with
  | nil _ =>
    obtain rfl : tail = [] := htail
    exact absurd (by simp) hne
  | @cons _ _ _ f m left ms₂ hf hleft =>
    refine ⟨ms₁, m, ms₂, rfl, frames ++ whole, t', f :: left, m :: ms₂, s', tail, ?_,
      h.append hwhole, .cons hf hleft, hd, htail⟩
    rw [List.flatten_append, List.append_assoc]

theorem Framed.carries_header {γ : Type*} {decode : Decoder σ ε α (List γ)} {ms : List (List γ)}
    {m : List γ} (h : Framed decode s frames ms t) (hmore : Framed decode t todo [[], m] s')
    (hd : decode s' [] = .ok none) (hq : q <+: todo.flatten) (hne : q ≠ todo.flatten) :
    ∃ ms', ms'.flatten = ms.flatten ∧ Carries decode s (frames.flatten ++ q) ms' := by
  obtain ⟨ms₁, m', ms₂, hms, hcarries⟩ := h.carries_cut hmore hd hq hne
  refine ⟨ms ++ ms₁, ?_, hcarries⟩
  cases ms₁ with
  | nil => rw [List.append_nil]
  | cons m₁ ms₁ =>
    cases ms₁ with
    | nil =>
      rw [List.singleton_append, List.cons.injEq] at hms
      simp [← hms.1]
    | cons m₂ ms₁ => simp at hms

theorem prefix_of_incomplete {done' todo' : List (List α)} {q' : List α}
    (hsplit : done ++ todo = done' ++ todo') (hq : done.flatten ++ q <+: done'.flatten ++ q')
    (hi : Incomplete q' todo') : done <+: done' := by
  rcases List.append_eq_append_iff.1 hsplit with ⟨x, rfl, -⟩ | ⟨x, rfl, rfl⟩
  · exact List.prefix_append _ _
  · cases x with
    | nil => rw [List.append_nil]
    | cons f x =>
      -- a frame of which only a part has arrived would have arrived whole
      obtain ⟨hpre, hne⟩ := hi
      rw [List.flatten_append, List.append_assoc, List.prefix_append_right_inj, List.flatten_cons,
        List.append_assoc] at hq
      have hle : f <+: q' := (List.prefix_append _ _).trans hq
      exact absurd (hpre.eq_of_length_le hle.length_le) hne

/-- **However the wire is cut into pieces, the reader gets what it carries**, as far as it has arrived. -/
theorem Carries.delivered {wire : List α} (h : Carries decode s wire ms) {pieces : List (List α)}
    (hp : pieces.flatten ++ rest = wire) :
    ∃ r, feedAll decode (.start s) pieces = some (r, .ok ()) ∧ r.delivered <+: ms ∧
      (rest = [] → r.delivered = ms) := by
  obtain ⟨frames, t, todo, ms₂, u, tail, rfl, hframes, htodo, hd, htail⟩ := h
  have hprefix : pieces.flatten <+: (frames ++ todo).flatten := by
    have htail' : tail <+: todo.flatten := by
      cases todo with
      | nil =>
        obtain rfl : tail = [] := htail
        exact List.nil_prefix
      | cons f todo => exact htail.1.trans (List.prefix_append _ _)
    have hpieces : pieces.flatten <+: frames.flatten ++ tail := ⟨rest, hp⟩
    rw [List.flatten_append]
    exact hpieces.trans ((List.prefix_append_right_inj _).2 htail')
  obtain ⟨rest', hrest'⟩ := hprefix
  obtain ⟨r, hr, done', todo', _, hsplit, -, hdone', -, hreceived, hi⟩ :=
    feedAll_synced hd (hframes.append htodo) hrest'
  have hpart : done'.flatten ++ r.buffer <+: frames.flatten ++ tail := hreceived ▸ ⟨rest, hp⟩
  obtain ⟨x, rfl⟩ := prefix_of_incomplete hsplit.symm hpart htail
  obtain ⟨s', ms', ms'', rfl, hdone, -⟩ := hframes.split
  obtain ⟨rfl, -⟩ := hdone'.unique hdone
  refine ⟨r, hr, List.prefix_append _ _, ?_⟩
  rintro rfl
  -- everything has arrived: no frame is left
  have hall : (done' ++ x).flatten ++ tail <+: done'.flatten ++ r.buffer := by
    rw [← hp, ← hreceived, List.append_nil]
  have hle := (prefix_of_incomplete hsplit hall hi).length_le
  obtain rfl : x = [] := by
    rw [List.length_append] at hle
    exact List.eq_nil_of_length_eq_zero (by omega)
  rw [List.append_nil] at hframes
  exact (hdone'.unique hframes).1

end WutherCore.Data
