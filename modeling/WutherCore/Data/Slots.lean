import Mathlib.Data.List.Basic
import Mathlib.Data.List.ReduceOption
import Mathlib.Algebra.Order.BigOperators.Group.List
import Mathlib.Algebra.Order.Monoid.NatCast
import Mathlib.Algebra.Order.Ring.Nat

/-!
# Slots

A list of slots, `List (Option α)`, of which some are filled.  What they hold is `slots.reduceOption`.

* `reduceOption_set_perm`: an empty slot is filled.
* `eq_map_some_of_length`: as many values as slots, so every slot is filled.
* `SlotsOf`: the slots hold only elements of a list, each at its place; `SlotsOf.sublist`,
  `SlotsOf.eq_of_full`.
-/

namespace WutherCore.Data

variable {α : Type*} {slots : List (Option α)} {values : List α} {i : Nat} {a : α}

theorem reduceOption_set_perm (h : slots[i]? = some none) (a : α) :
    (slots.set i (some a)).reduceOption.Perm (a :: slots.reduceOption) := by
  induction slots generalizing i with
  | nil => cases h
  | cons slot slots ih =>
    cases i with
    | zero =>
      cases h
      simp
    | succ i =>
      have hrest := ih (i := i) h
      cases slot with
      | none => simpa using hrest
      | some b =>
        simp only [List.set_cons_succ, List.reduceOption_cons_of_some]
        exact (hrest.cons b).trans (.swap a b _)

theorem length_reduceOption_set (h : slots[i]? = some none) (a : α) :
    (slots.set i (some a)).reduceOption.length = slots.reduceOption.length + 1 := by
  rw [(reduceOption_set_perm h a).length_eq, List.length_cons]

theorem sum_reduceOption_set (h : slots[i]? = some none) (a : α) (f : α → Nat) :
    ((slots.set i (some a)).reduceOption.map f).sum = f a + (slots.reduceOption.map f).sum := by
  rw [((reduceOption_set_perm h a).map f).sum_eq, List.map_cons, List.sum_cons]

@[simp] theorem reduceOption_map_some (values : List α) : (values.map some).reduceOption = values := by
  simp [List.reduceOption]

theorem eq_map_some_of_length (h : slots.reduceOption.length = slots.length) :
    slots = slots.reduceOption.map some := by
  have hall := List.reduceOption_length_eq_iff.1 h
  clear h
  induction slots with
  | nil => rfl
  | cons slot slots ih =>
    rw [List.forall_mem_cons] at hall
    obtain ⟨b, rfl⟩ := Option.isSome_iff_exists.1 hall.1
    rw [List.reduceOption_cons_of_some, List.map_cons, ← ih hall.2]

/-- There are as many slots as elements of `values`, and what they hold stands at the same place
there. -/
def SlotsOf (slots : List (Option α)) (values : List α) : Prop :=
  slots.length = values.length ∧ ∀ (i : Nat) a, slots[i]? = some (some a) → values[i]? = some a

namespace SlotsOf

theorem replicate (values : List α) : SlotsOf (List.replicate values.length none) values := by
  refine ⟨by simp, fun i a h => ?_⟩
  rw [List.getElem?_replicate] at h
  split_ifs at h
  cases h

theorem set (h : SlotsOf slots values) (ha : values[i]? = some a) :
    SlotsOf (slots.set i (some a)) values := by
  refine ⟨by simp [h.1], fun j b hb => ?_⟩
  rw [List.getElem?_set] at hb
  split_ifs at hb with hij
  · subst hij
    cases hb
    exact ha
  · exact h.2 j b hb

theorem sublist (h : SlotsOf slots values) : slots.reduceOption.Sublist values := by
  induction slots generalizing values with
  | nil => simp
  | cons slot slots ih =>
    obtain ⟨hlen, hslots⟩ := h
    cases values with
    | nil => cases hlen
    | cons b values =>
      have hrest : SlotsOf slots values :=
        ⟨by simpa using hlen, fun i a hi => by simpa using hslots (i + 1) a (by simpa using hi)⟩
      cases slot with
      | none => simpa using (ih hrest).cons b
      | some a =>
        obtain rfl : b = a := by simpa using hslots 0 a rfl
        simpa using (ih hrest).cons_cons b

theorem sum_le (h : SlotsOf slots values) (f : α → Nat) :
    (slots.reduceOption.map f).sum ≤ (values.map f).sum :=
  (h.sublist.map f).sum_le_sum fun _ _ => Nat.zero_le _

theorem eq_of_full {parts : List α} (h : SlotsOf (parts.map some) values) : parts = values := by
  apply List.ext_getElem?
  intro i
  have hlen : parts.length = values.length := by simpa using h.1
  rcases Nat.lt_or_ge i parts.length with hi | hi
  · have hpart : (parts.map some)[i]? = some (some parts[i]) := by simp [hi]
    rw [h.2 i _ hpart, List.getElem?_eq_getElem hi]
  · rw [List.getElem?_eq_none hi, List.getElem?_eq_none (by omega)]

end SlotsOf

end WutherCore.Data
