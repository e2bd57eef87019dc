import Mathlib.Data.List.Sort

/-!
# Rules with priorities

A table of rules is searched in the order of their priorities, the smallest first, and rules of one
priority in the order in which they were added.

* `firstMatch_eq_some`, `firstMatch_eq_none_iff`: the rule that is found matches, and none with a smaller
  priority does.
-/

namespace WutherCore.Data

variable {α : Type*} (priority : α → Nat) (hits : α → Bool)

/-- The first rule that matches, by priority. -/
def firstMatch (rules : List α) : Option α :=
  (rules.insertionSort fun a b => priority a ≤ priority b).find? hits

variable {priority hits} {rules : List α} {a : α}

theorem mem_of_firstMatch (h : firstMatch priority hits rules = some a) : a ∈ rules :=
  (List.perm_insertionSort _ rules).subset (List.mem_of_find?_eq_some h)

theorem hits_of_firstMatch (h : firstMatch priority hits rules = some a) : hits a = true :=
  List.find?_some h

theorem le_of_firstMatch (h : firstMatch priority hits rules = some a) {b : α} (hb : b ∈ rules)
    (hhits : hits b = true) : priority a ≤ priority b := by
  obtain ⟨-, before, after, hsplit, hbefore⟩ := List.find?_eq_some_iff_append.1 h
  have hsorted := List.pairwise_insertionSort (fun a b => priority a ≤ priority b) rules
  rw [hsplit] at hsorted
  have hb' := (List.perm_insertionSort (fun a b => priority a ≤ priority b) rules).symm.subset hb
  rw [hsplit, List.mem_append, List.mem_cons] at hb'
  rcases hb' with hb' | rfl | hb'
  · have hmiss := hbefore b hb'
    rw [hhits] at hmiss
    cases hmiss
  · exact Nat.le_refl _
  · exact (List.pairwise_cons.1 (List.pairwise_append.1 hsorted).2.1).1 b hb'

theorem firstMatch_eq_none_iff :
    firstMatch priority hits rules = none ↔ ∀ a ∈ rules, hits a = false := by
  have hperm := List.perm_insertionSort (fun a b => priority a ≤ priority b) rules
  rw [firstMatch, List.find?_eq_none]
  constructor
  · intro h a ha
    exact Bool.eq_false_of_not_eq_true (h a (hperm.symm.subset ha))
  · intro h a ha
    rw [h a (hperm.subset ha)]
    exact Bool.false_ne_true

end WutherCore.Data
