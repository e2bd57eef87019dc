import Mathlib

/-!
# Loops and checked arithmetic

The body of a `loop` is a function of the state: one turn goes on with a new state, stops with a
value, or panics.  `Returns body s a` says that the loop started in `s` comes to an end with `a`;
a loop that only goes on from the states of an invariant returns nothing (`not_returns`).

`add`, `sub` and `shl` are the operations of `w`-bit integers, with no value where the machine's
would overflow.
-/

namespace WutherCore.Data

/-- What one turn of a loop does. -/
inductive Turn (σ α : Type)
  | again (state : σ)
  | stop (value : α)

section Loop

variable {σ α : Type} {body : σ → Option (Turn σ α)}

/-- The value of a loop within a number of turns; none if it panics or goes on. -/
def turns (body : σ → Option (Turn σ α)) : Nat → σ → Option α
  | 0, _ => none
  | n + 1, s =>
      (body s).bind fun
        | .again s' => turns body n s'
        | .stop a => some a

/-- The loop comes to an end with this value. -/
def Returns (body : σ → Option (Turn σ α)) (s : σ) (a : α) : Prop :=
  ∃ n, turns body n s = some a

theorem returns_of_stop {s : σ} {a b : α} (h : body s = some (.stop a)) :
    Returns body s b ↔ b = a := by
  constructor
  · rintro ⟨n, hn⟩
    cases n with
    | zero => cases hn
    | succ n =>
      rw [turns, h] at hn
      cases hn
      rfl
  · rintro rfl
    exact ⟨1, by rw [turns, h]; rfl⟩

theorem returns_of_again {s s' : σ} {a : α} (h : body s = some (.again s')) :
    Returns body s a ↔ Returns body s' a := by
  constructor
  · rintro ⟨n, hn⟩
    cases n with
    | zero => cases hn
    | succ n =>
      rw [turns, h] at hn
      exact ⟨n, hn⟩
  · rintro ⟨n, hn⟩
    exact ⟨n + 1, by rw [turns, h]; exact hn⟩

theorem not_returns (P : σ → Prop) (hbody : ∀ s, P s → ∃ s', body s = some (.again s') ∧ P s')
    {s : σ} (hs : P s) (a : α) : ¬Returns body s a := by
  rintro ⟨n, hn⟩
  induction n generalizing s with
  | zero => cases hn
  | succ n ih =>
    obtain ⟨s', hbody', hs'⟩ := hbody s hs
    rw [turns, hbody'] at hn
    exact ih hs' hn

theorem Returns.unique {s : σ} {a b : α} (ha : Returns body s a) (hb : Returns body s b) :
    a = b := by
  obtain ⟨n, hn⟩ := ha
  induction n generalizing s with
  | zero => cases hn
  | succ n ih =>
    cases hs : body s with
    | none =>
      rw [turns, hs] at hn
      cases hn
    | some turn =>
      cases turn with
      | again s' =>
        rw [turns, hs] at hn
        exact ih ((returns_of_again hs).1 hb) hn
      | stop c =>
        have hac := (returns_of_stop hs).1 ⟨n + 1, hn⟩
        have hbc := (returns_of_stop hs).1 hb
        rw [hac, hbc]

end Loop

/-! ### Checked arithmetic -/

namespace Checked

/-- `+` on `w`-bit integers. -/
def add (w a b : Nat) : Option Nat := if a + b < 2 ^ w then some (a + b) else none

/-- `-` on unsigned integers. -/
def sub (a b : Nat) : Option Nat := if b ≤ a then some (a - b) else none

/-- `<<` on `w`-bit integers: the amount must be less than the width. -/
def shl (w a bits : Nat) : Option Nat := if bits < w then some (a * 2 ^ bits % 2 ^ w) else none

/-- `saturating_add` on `w`-bit integers. -/
def saturatingAdd (w a b : Nat) : Nat := min (a + b) (2 ^ w - 1)

/-- `leading_zeros` of a `w`-bit integer. -/
def leadingZeros (w n : Nat) : Nat := w - n.size

theorem add_of_lt {w a b : Nat} (h : a + b < 2 ^ w) : add w a b = some (a + b) := if_pos h

theorem add_of_le {w a b : Nat} (h : 2 ^ w ≤ a + b) : add w a b = none := if_neg (by omega)

theorem sub_of_le {a b : Nat} (h : b ≤ a) : sub a b = some (a - b) := if_pos h

theorem shl_one {w bits : Nat} (h : bits < w) : shl w 1 bits = some (2 ^ bits) := by
  rw [shl, if_pos h, Nat.one_mul, Nat.mod_eq_of_lt (Nat.pow_lt_pow_right (by decide) h)]

theorem saturatingAdd_of_lt {w a b : Nat} (h : a + b < 2 ^ w) : saturatingAdd w a b = a + b := by
  rw [saturatingAdd]
  omega

theorem saturatingAdd_le {w a b c : Nat} (hc : c < 2 ^ w - 1) :
    saturatingAdd w a b ≤ c ↔ a + b ≤ c := by
  rw [saturatingAdd]
  omega

theorem size_eq_log2 {n : Nat} (hn : 0 < n) : n.size = n.log2 + 1 := by
  have hne : n ≠ 0 := by omega
  apply Nat.le_antisymm
  · exact Nat.size_le.2 Nat.lt_log2_self
  · exact Nat.lt_size.2 (Nat.log2_self_le hne)

theorem log2_eq_leadingZeros {w n : Nat} (hn : 0 < n) (h : n < 2 ^ w) :
    leadingZeros w n + 1 + n.log2 = w := by
  have hsize : n.size ≤ w := Nat.size_le.2 h
  have := size_eq_log2 hn
  rw [leadingZeros]
  omega

end Checked

end WutherCore.Data
