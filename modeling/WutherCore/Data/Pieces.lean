import Mathlib.Data.List.Basic

/-!
# Putting pieces together

A datagram is cut into pieces, each with the offset of its data and a mark whether more follow.
`Piece.join` puts pieces together that follow one another and belong to the same datagram;
`Piece.join_cut` says that the pieces of a cut give back the whole.
-/

namespace WutherCore.Data

variable {κ α : Type*} [DecidableEq κ]

/-- A piece of a datagram: what it belongs to, the headers it brings along, where its data stand, and
whether more follow. -/
structure Piece (κ α : Type*) where
  key : κ
  head : List α
  offset : Nat
  more : Bool
  data : List α

/-- A piece that follows: it belongs to the same datagram, and its data start where those before end. -/
def Piece.append (p q : Piece κ α) : Option (Piece κ α) :=
  if p.more ∧ q.key = p.key ∧ q.offset = p.offset + p.data.length then
    some { p with more := q.more, data := p.data ++ q.data }
  else none

/-- The pieces put together, with the headers of the first. -/
def Piece.join : List (Piece κ α) → Option (Piece κ α)
  | [] => none
  | p :: ps => ps.foldlM Piece.append p

/-- The pieces of `data`, which start at `offset`, one for each part; the headers are those of `head`,
and `last` says whether more follow after the last one. -/
def Piece.cut (key : κ) (head : Nat → List α) (last : Bool) : Nat → List (List α) → List (Piece κ α)
  | _, [] => []
  | offset, part :: parts =>
    ⟨key, head offset, offset, !parts.isEmpty || last, part⟩ ::
      cut key head last (offset + part.length) parts

theorem Piece.foldlM_append_cut {key : κ} {head : Nat → List α} {last : Bool}
    {parts : List (List α)} {p : Piece κ α} (hkey : p.key = key) (hmore : p.more = (!parts.isEmpty || last)) :
    (cut key head last (p.offset + p.data.length) parts).foldlM Piece.append p =
      some { p with more := last, data := p.data ++ parts.flatten } := by
  induction parts generalizing p with
  | nil =>
    simp only [List.isEmpty_nil, Bool.not_true, Bool.false_or] at hmore
    simp [cut, ← hmore]
  | cons part parts ih =>
    simp only [List.isEmpty_cons, Bool.not_false, Bool.true_or] at hmore
    rw [cut, List.foldlM_cons, Piece.append, if_pos ⟨hmore, hkey.symm, rfl⟩]
    have hnext := ih (p := { p with
      more := !parts.isEmpty || last, data := p.data ++ part }) hkey rfl
    rw [List.length_append, ← Nat.add_assoc] at hnext
    refine hnext.trans ?_
    simp

/-- **The pieces of a cut give back the whole.** -/
theorem Piece.join_cut (key : κ) (head : Nat → List α) (last : Bool) (offset : Nat)
    {parts : List (List α)} (h : parts ≠ []) :
    Piece.join (Piece.cut key head last offset parts) =
      some ⟨key, head offset, offset, last, parts.flatten⟩ := by
  cases parts with
  | nil => exact absurd rfl h
  | cons part parts => exact Piece.foldlM_append_cut (p := ⟨key, _, offset, _, part⟩) rfl rfl

@[simp] theorem Piece.join_singleton (p : Piece κ α) : Piece.join [p] = some p := rfl

end WutherCore.Data
