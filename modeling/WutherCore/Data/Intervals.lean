import Mathlib.Data.List.Pairwise
import Mathlib.Tactic.Common

/-!
# Lists of intervals

Closed intervals of natural numbers, by their first and last element, and lists of them in order.
`without` takes an interval out of another; what is left of a list in order is again in order
(`Apart.flatMap_without`), and has the numbers that it should have (`inSome_flatMap_without`).
-/

namespace WutherCore.Data

/-- A number lies in some interval of the list. -/
def InSome (rs : List (Nat × Nat)) (x : Nat) : Prop := ∃ r ∈ rs, r.1 ≤ x ∧ x ≤ r.2

/-- The intervals are not empty, and each ends before the next one starts. -/
structure Apart (rs : List (Nat × Nat)) : Prop where
  nonempty : ∀ r ∈ rs, r.1 ≤ r.2
  apart : rs.Pairwise fun r s => r.2 < s.1

/-- What is left of an interval without the numbers from `a` to `b`. -/
def without (a b : Nat) (r : Nat × Nat) : List (Nat × Nat) :=
  if b < r.1 ∨ r.2 < a then [r]
  else (if r.1 < a then [(r.1, a - 1)] else []) ++ if b < r.2 then [(b + 1, r.2)] else []

variable {a b x : Nat} {r s : Nat × Nat} {rs : List (Nat × Nat)}

theorem inSome_without (hab : a ≤ b) :
    InSome (without a b r) x ↔ (r.1 ≤ x ∧ x ≤ r.2) ∧ ¬(a ≤ x ∧ x ≤ b) := by
  unfold without InSome
  split_ifs <;> simp <;> omega

theorem bounds_of_mem_without (hr : r.1 ≤ r.2) (hs : s ∈ without a b r) :
    r.1 ≤ s.1 ∧ s.1 ≤ s.2 ∧ s.2 ≤ r.2 := by
  unfold without at hs
  split_ifs at hs with hout hleft hright hright
  · rw [List.mem_singleton.1 hs]
    exact ⟨Nat.le_refl _, hr, Nat.le_refl _⟩
  · simp only [List.singleton_append, List.mem_cons, List.not_mem_nil, or_false] at hs
    rcases hs with rfl | rfl <;> dsimp only <;> omega
  · simp only [List.append_nil, List.mem_singleton] at hs
    subst hs
    dsimp only
    omega
  · simp only [List.nil_append, List.mem_singleton] at hs
    subst hs
    dsimp only
    omega
  · simp at hs

theorem apart_without (hab : a ≤ b) : (without a b r).Pairwise fun r s => r.2 < s.1 := by
  unfold without
  split_ifs <;> simp
  omega

theorem inSome_flatMap_without (hab : a ≤ b) :
    InSome (rs.flatMap (without a b)) x ↔ InSome rs x ∧ ¬(a ≤ x ∧ x ≤ b) := by
  constructor
  · rintro ⟨s, hs, hx⟩
    obtain ⟨r, hr, hsr⟩ := List.mem_flatMap.1 hs
    obtain ⟨hxr, hnot⟩ := (inSome_without hab).1 ⟨s, hsr, hx⟩
    exact ⟨⟨r, hr, hxr⟩, hnot⟩
  · rintro ⟨⟨r, hr, hx⟩, hnot⟩
    obtain ⟨s, hs, hxs⟩ := (inSome_without hab).2 ⟨hx, hnot⟩
    exact ⟨s, List.mem_flatMap.2 ⟨r, hr, hs⟩, hxs⟩

theorem Apart.flatMap_without (h : Apart rs) (hab : a ≤ b) : Apart (rs.flatMap (without a b)) where
  nonempty := by
    intro s hs
    obtain ⟨r, hr, hsr⟩ := List.mem_flatMap.1 hs
    exact (bounds_of_mem_without (h.nonempty r hr) hsr).2.1
  apart := by
    rw [List.pairwise_flatMap]
    refine ⟨fun r _ => apart_without hab, h.apart.imp_of_mem fun {r r'} hr hr' hlt s hs s' hs' => ?_⟩
    -- The pieces lie within their intervals.
    have hbefore := (bounds_of_mem_without (h.nonempty r hr) hs).2.2
    have hafter := (bounds_of_mem_without (h.nonempty r' hr') hs').1
    omega

theorem Apart.singleton (h : a ≤ b) : Apart [(a, b)] :=
  ⟨by simpa using h, List.pairwise_singleton _ _⟩

end WutherCore.Data
