import Mathlib.Data.List.Basic
import Mathlib.Data.List.Infix

/-!
# Parsing a buffer that grows

A parser that is run from the start each time more has arrived: it asks for more, fails, or is done and
says how many elements it has used.

* `Incremental`: what a parser has settled on a buffer stays settled when more arrives, and it is done
  with the elements it has used alone.  `Incremental.bind` is the rule for parsers one after the other.
* `Incremental.needMore_of_isPrefix`, `Incremental.done_append`: it is done with those elements and no
  fewer, whatever follows them.
* `Incremental.gather_eq_done`: however a stream is cut into pieces, the loop that gathers them ends with
  what the parser says of the whole.
-/

namespace WutherCore.Data

variable {ε α β γ : Type*}

/-- What a parser says of a buffer. -/
inductive Parsed (ε β : Type*)
  | needMore
  | invalid (e : ε)
  | done (value : β) (consumed : Nat)
  deriving DecidableEq, Repr

/-- What the next parser says, given the value and the end of what has been parsed. -/
def Parsed.bind (r : Parsed ε β) (next : β → Nat → Parsed ε γ) : Parsed ε γ :=
  match r with
  | .needMore => .needMore
  | .invalid e => .invalid e
  | .done value consumed => next value consumed

/-- A parser that may be run again on a longer buffer.  It is run on buffers of at least `start` elements,
the first of which have been parsed before. -/
structure Incremental (start : Nat) (parse : List α → Parsed ε β) : Prop where
  settled : ∀ {p q}, start ≤ p.length → p <+: q → parse p ≠ .needMore → parse q = parse p
  bounds : ∀ {p b n}, start ≤ p.length → parse p = .done b n → start ≤ n ∧ n ≤ p.length
  used : ∀ {p b n}, start ≤ p.length → parse p = .done b n → parse (p.take n) = .done b n

/-- The loop that takes pieces of the stream into its buffer until the parser is done: the buffer it has
then, what the parser says of it, and the pieces that are still to come. -/
def gather (parse : List α → Parsed ε β) (buffer : List α) :
    List (List α) → List α × Parsed ε β × List (List α)
  | [] => (buffer, parse buffer, [])
  | piece :: pieces =>
    match parse buffer with
    | .needMore => gather parse (buffer ++ piece) pieces
    | result => (buffer, result, piece :: pieces)

theorem gather_result (parse : List α → Parsed ε β) (buffer : List α) (pieces : List (List α)) :
    (gather parse buffer pieces).2.1 = parse (gather parse buffer pieces).1 := by
  induction pieces generalizing buffer with
  | nil => rfl
  | cons piece pieces ih =>
    rw [gather]
    split
    · exact ih _
    · rfl

namespace Incremental

variable {start : Nat} {parse : List α → Parsed ε β} {p input : List α} {b : β} {n : Nat}

/-- One parser after the other: the second is run on the same buffer, and starts where the first ended. -/
theorem bind (h : Incremental start parse) {next : β → Nat → List α → Parsed ε γ}
    (hnext : ∀ {p b n}, start ≤ p.length → parse p = .done b n → Incremental n (next b n)) :
    Incremental start fun p => (parse p).bind fun b n => next b n p where
  settled := by
    intro p q hp hpq hne
    cases hparse : parse p with
    | needMore => simp [hparse, Parsed.bind] at hne
    | invalid e => rw [h.settled hp hpq (by rw [hparse]; nofun), hparse]; rfl
    | done b n =>
      rw [h.settled hp hpq (by rw [hparse]; nofun), hparse]
      rw [hparse] at hne
      exact (hnext hp hparse).settled (h.bounds hp hparse).2 hpq hne
  bounds := by
    intro p c k hp hdone
    cases hparse : parse p with
    | needMore => simp [hparse, Parsed.bind] at hdone
    | invalid e => simp [hparse, Parsed.bind] at hdone
    | done b n =>
      simp only [hparse, Parsed.bind] at hdone
      obtain ⟨hstart, hn⟩ := h.bounds hp hparse
      obtain ⟨hnk, hk⟩ := (hnext hp hparse).bounds hn hdone
      exact ⟨hstart.trans hnk, hk⟩
  used := by
    intro p c k hp hdone
    cases hparse : parse p with
    | needMore => simp [hparse, Parsed.bind] at hdone
    | invalid e => simp [hparse, Parsed.bind] at hdone
    | done b n =>
      simp only [hparse, Parsed.bind] at hdone
      obtain ⟨hstart, hn⟩ := h.bounds hp hparse
      obtain ⟨hnk, hk⟩ := (hnext hp hparse).bounds hn hdone
      -- The first parser is done with its own elements, and so with those of both.
      have hfirst := h.used hp hparse
      have hboth : parse (p.take k) = .done b n := by
        rw [h.settled (p := p.take n) (by simp; omega) (List.take_prefix_take_left hnk)
          (by rw [hfirst]; nofun), hfirst]
      rw [hboth]
      exact (hnext hp hparse).used hn hdone

theorem needMore_of_isPrefix (h : Incremental 0 parse) (hdone : parse input = .done b n)
    (hp : p <+: input) (hlen : p.length < n) : parse p = .needMore := by
  by_contra hne
  have hsame := h.settled (Nat.zero_le _) hp hne
  rw [hdone] at hsame
  have hle := (h.bounds (Nat.zero_le _) hsame.symm).2
  omega

theorem done_append (h : Incremental 0 parse) (hdone : parse input = .done b n) (rest : List α) :
    parse (input.take n ++ rest) = .done b n := by
  have hused := h.used (Nat.zero_le _) hdone
  rw [h.settled (Nat.zero_le _) (List.prefix_append _ rest) (by rw [hused]; nofun), hused]

theorem gather_spec (h : Incremental 0 parse) (buffer : List α) (pieces : List (List α)) :
    (gather parse buffer pieces).2.1 = parse (buffer ++ pieces.flatten) ∧
      (gather parse buffer pieces).1 ++ (gather parse buffer pieces).2.2.flatten =
        buffer ++ pieces.flatten := by
  induction pieces generalizing buffer with
  | nil => simp [gather]
  | cons piece pieces ih =>
    have hsame := h.settled (Nat.zero_le _) (List.prefix_append buffer (piece :: pieces).flatten)
    -- The loop goes on with a longer buffer, or what it has is settled.
    cases hparse : parse buffer with
    | needMore =>
      have hnext := ih (buffer ++ piece)
      rw [gather, hparse]
      simpa using hnext
    | invalid e =>
      rw [gather, hparse, hsame (by rw [hparse]; nofun), hparse]
      exact ⟨rfl, rfl⟩
    | done b n =>
      rw [gather, hparse, hsame (by rw [hparse]; nofun), hparse]
      exact ⟨rfl, rfl⟩

/-- **However a stream is cut into pieces, the loop is done when the parser is done with the whole; what
it has not used and what is still to come is the rest of the stream.** -/
theorem gather_eq_done (h : Incremental 0 parse) {pieces : List (List α)}
    (hdone : parse pieces.flatten = .done b n) :
    ∃ buffer rest, gather parse [] pieces = (buffer, .done b n, rest) ∧
      buffer.drop n ++ rest.flatten = pieces.flatten.drop n := by
  obtain ⟨hresult, hwhole⟩ := h.gather_spec [] pieces
  rw [List.nil_append] at hresult hwhole
  refine ⟨_, _, Prod.ext rfl (Prod.ext (hresult.trans hdone) rfl), ?_⟩
  have hbuffer : parse (gather parse [] pieces).1 = .done b n := by
    rw [← gather_result parse, hresult, hdone]
  rw [← hwhole, List.drop_append_of_le_length (h.bounds (Nat.zero_le _) hbuffer).2]

end Incremental

end WutherCore.Data
