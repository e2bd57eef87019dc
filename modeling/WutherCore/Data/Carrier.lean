import Mathlib.Data.List.Infix

/-!
# Carriers that may fail

A stream that is polled writes to another one, its carrier.  `Reply` is what the carrier answers to one
write: it is not ready, it took so many bytes, or it failed.  `Poll` is what a poll of the stream comes
to.  An answer of no bytes is an answer; it is up to the stream to call it an error.
-/

namespace WutherCore.Data

/-- What a carrier answers to a write. -/
inductive Reply
  | pending
  | took (n : Nat)
  | failed
  deriving DecidableEq, Repr

/-- What a poll comes to: `Poll<io::Result<α>>`. -/
inductive Poll (α : Type*)
  | pending
  | ready (value : α)
  | failed
  deriving DecidableEq, Repr

section

variable {β : Type*} {bytes wire wire' : List β} {reply : Reply} {result : Poll Nat}

/-- One write to a carrier that has been given `wire`.  There is no result if the answer is no answer to
what was handed over: more bytes than that. -/
def carry (bytes wire : List β) : Reply → Option (Poll Nat × List β)
  | .pending => some (.pending, wire)
  | .took n => if n ≤ bytes.length then some (.ready n, wire ++ bytes.take n) else none
  | .failed => some (.failed, wire)

theorem carry_cases (h : carry bytes wire reply = some (result, wire')) :
    (result = .pending ∧ wire' = wire) ∨ (result = .failed ∧ wire' = wire) ∨
      ∃ n, n ≤ bytes.length ∧ result = .ready n ∧ wire' = wire ++ bytes.take n := by
  cases reply with
  | pending =>
    cases h
    exact .inl ⟨rfl, rfl⟩
  | failed =>
    cases h
    exact .inr (.inl ⟨rfl, rfl⟩)
  | took n =>
    by_cases hn : n ≤ bytes.length
    · rw [carry, if_pos hn] at h
      cases h
      exact .inr (.inr ⟨n, hn, rfl, rfl⟩)
    · rw [carry, if_neg hn] at h
      cases h

end

end WutherCore.Data
