import Mathlib.Data.List.Basic
import Mathlib.Data.List.Infix

/-!
# Writing to a transport

A writer hands bytes to a transport until all are taken or the transport is not ready.  `writeOut` is
that loop, along the answers of the transport.
-/

namespace WutherCore.Data

variable {α : Type*}

/-- The answers of a transport to a write: so many bytes were taken, or it is not ready. -/
inductive Answer
  | ready (n : Nat)
  | pending
  deriving DecidableEq, Repr

/-- What of the bytes is written, and whether it is all of them.  There is no result if the answers are
too few, or if one of them is not an answer to what was handed over; an answer of no bytes is an error of
the stream. -/
def writeOut : List α → List Answer → Option (List α × Bool)
  | [], _ => some ([], true)
  | _ :: _, [] => none
  | _ :: _, .pending :: _ => some ([], false)
  | b :: rest, .ready n :: answers =>
    if 0 < n ∧ n ≤ (b :: rest).length then
      (writeOut ((b :: rest).drop n) answers).map fun (written, all) =>
        ((b :: rest).take n ++ written, all)
    else none

variable {bytes written : List α} {answers : List Answer} {all : Bool}

theorem writeOut_pending (h : writeOut bytes answers = some (written, all))
    (hp : answers.head? = some .pending) : written = [] ∧ (all = true ↔ bytes = []) := by
  cases bytes with
  | nil =>
    simp only [writeOut, Option.some.injEq, Prod.mk.injEq] at h
    exact ⟨h.1.symm, by simp [← h.2]⟩
  | cons b rest =>
    cases answers with
    | nil => simp at hp
    | cons a answers =>
      obtain rfl : a = .pending := by simpa using hp
      simp only [writeOut, Option.some.injEq, Prod.mk.injEq] at h
      exact ⟨h.1.symm, by simp [← h.2]⟩

theorem writeOut_ready (h : writeOut bytes answers = some (written, all)) (hp : .pending ∉ answers) :
    written = bytes ∧ all = true := by
  induction bytes, answers using writeOut.induct generalizing written all with
  | case1 answers =>
    simp only [writeOut, Option.some.injEq, Prod.mk.injEq] at h
    exact ⟨h.1.symm, h.2.symm⟩
  | case2 b rest => simp [writeOut] at h
  | case3 b rest answers => simp at hp
  | case4 b rest n answers hn ih =>
    rw [writeOut, if_pos hn, Option.map_eq_some_iff] at h
    obtain ⟨⟨written', all'⟩, hrest, heq⟩ := h
    obtain ⟨rfl, rfl⟩ := ih hrest (fun hmem => hp (List.mem_cons_of_mem _ hmem))
    cases heq
    exact ⟨List.take_append_drop n (b :: rest), rfl⟩
  | case5 b rest n answers hn =>
    rw [writeOut, if_neg hn] at h
    cases h

theorem writeOut_append_drop (h : writeOut bytes answers = some (written, all)) :
    written ++ bytes.drop written.length = bytes ∧ (all = true → written = bytes) := by
  induction bytes, answers using writeOut.induct generalizing written all with
  | case1 answers =>
    simp only [writeOut, Option.some.injEq, Prod.mk.injEq] at h
    simp [← h.1]
  | case2 b rest => simp [writeOut] at h
  | case3 b rest answers =>
    simp only [writeOut, Option.some.injEq, Prod.mk.injEq] at h
    simp [← h.1, ← h.2]
  | case4 b rest n answers hn ih =>
    rw [writeOut, if_pos hn, Option.map_eq_some_iff] at h
    obtain ⟨⟨written', all'⟩, hrest, heq⟩ := h
    obtain ⟨hparts, hall⟩ := ih hrest
    cases heq
    have hlen : ((b :: rest).take n).length = n := by
      rw [List.length_take]
      omega
    refine ⟨?_, fun ht => ?_⟩
    · rw [List.length_append, hlen, ← List.drop_drop, List.append_assoc, hparts, List.take_append_drop]
    · rw [hall ht, List.take_append_drop]
  | case5 b rest n answers hn =>
    rw [writeOut, if_neg hn] at h
    cases h

theorem writeOut_ne (h : writeOut bytes answers = some (written, false)) : written ≠ bytes := by
  induction bytes, answers using writeOut.induct generalizing written with
  | case1 answers => simp [writeOut] at h
  | case2 b rest => simp [writeOut] at h
  | case3 b rest answers =>
    simp only [writeOut, Option.some.injEq, Prod.mk.injEq] at h
    simp [← h.1]
  | case4 b rest n answers hn ih =>
    rw [writeOut, if_pos hn, Option.map_eq_some_iff] at h
    obtain ⟨⟨written', all'⟩, hrest, heq⟩ := h
    simp only [Prod.mk.injEq] at heq
    obtain ⟨rfl, rfl⟩ := heq
    intro hall
    exact ih hrest (List.append_cancel_left (hall.trans (List.take_append_drop n (b :: rest)).symm))
  | case5 b rest n answers hn =>
    rw [writeOut, if_neg hn] at h
    cases h

theorem writeOut_whole (h : bytes ≠ []) : writeOut bytes [.ready bytes.length] = some (bytes, true) := by
  cases bytes with
  | nil => exact absurd rfl h
  | cons b rest =>
    rw [writeOut, if_pos ⟨by simp, le_refl _⟩, List.drop_length, writeOut]
    simp

end WutherCore.Data
