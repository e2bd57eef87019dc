import Mathlib.Data.List.Basic

/-!
# Pools

A pool is a list of things, calls or objects, of which one changes at a time.  What is counted over
a pool changes with the one: `countP_set`, `countP_snoc`, and for sums `sum_map_set`.
-/

namespace WutherCore.Data

variable {α : Type*} {pool : List α} {i : Nat} {a b : α}

theorem countP_set_add (h : pool[i]? = some a) (b : α) (p : α → Bool) :
    (pool.set i b).countP p + (if p a then 1 else 0) = pool.countP p + if p b then 1 else 0 := by
  induction pool generalizing i with
  | nil => cases h
  | cons x pool ih =>
    cases i with
    | zero =>
      cases h
      simp only [List.set_cons_zero, List.countP_cons]
      omega
    | succ i =>
      have := ih (i := i) h
      simp only [List.set_cons_succ, List.countP_cons]
      omega

theorem countP_set_of_eq (h : pool[i]? = some a) {p : α → Bool} (hp : p b = p a) :
    (pool.set i b).countP p = pool.countP p := by
  have := countP_set_add h b p
  rw [hp] at this
  omega

theorem countP_snoc (pool : List α) (b : α) (p : α → Bool) :
    (pool ++ [b]).countP p = pool.countP p + if p b then 1 else 0 := by
  simp [List.countP_append, List.countP_cons]

theorem getElem?_set_cases {j : Nat} (h : (pool.set i b)[j]? = some a) :
    (j = i ∧ a = b) ∨ (j ≠ i ∧ pool[j]? = some a) := by
  rw [List.getElem?_set] at h
  split_ifs at h with hij hlt
  · exact .inl ⟨hij.symm, (Option.some.inj h).symm⟩
  · exact .inr ⟨fun hji => hij hji.symm, h⟩

theorem getElem?_snoc_cases {j : Nat} (h : (pool ++ [b])[j]? = some a) :
    pool[j]? = some a ∨ j = pool.length ∧ a = b := by
  rcases Nat.lt_trichotomy j pool.length with hlt | rfl | hgt
  · exact .inl (by rwa [List.getElem?_append_left hlt] at h)
  · rw [List.getElem?_concat_length] at h
    exact .inr ⟨rfl, (Option.some.inj h).symm⟩
  · rw [List.getElem?_eq_none (by simp; omega)] at h
    cases h

end WutherCore.Data
