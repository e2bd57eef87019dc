import Mathlib.Data.List.Destutter
import Mathlib.Data.List.Lex
import Mathlib.Data.List.Sort

/-!
# Derived orders, and lists kept sorted without repetition

A `derive(Ord)` compares the index of the variant first and then the fields in the order of their
declaration.  Written as a word of numbers (the index, then the words of the fields), a value is
compared by comparing words lexicographically, as long as each word says itself where it ends:
`Keyed` is the class of types with such words, and `Keyed.linearOrder` the order they induce.

`Vec.sort` and `Vec.dedup` are the operations of that name.  One after the other they bring a list into
a form that depends on its members only (`Vec.dedup_sort_eq_of_mem_iff`), and `Vec.pairs` are the two
elements `i < j` of a list, of which each unordered pair of a list without repetition gives exactly one.
-/

namespace WutherCore.Data

/-- A type whose values are written as words that say themselves where they end. -/
class Keyed (α : Type*) where
  key : α → List Nat
  key_append_iff : ∀ {a b : α} {s t : List Nat}, key a ++ s = key b ++ t ↔ a = b ∧ s = t

namespace Keyed

variable {α : Type*}

attribute [simp] key_append_iff

theorem key_injective [Keyed α] : Function.Injective (key : α → List Nat) := by
  intro a b h
  exact (key_append_iff.1 (congrArg (· ++ []) h)).1

/-- The order of the words. -/
@[reducible] def linearOrder [Keyed α] : LinearOrder α := LinearOrder.lift' key key_injective

instance : Keyed Nat where
  key n := [n]
  key_append_iff := by simp

instance {w : Nat} : Keyed (BitVec w) where
  key x := [x.toNat]
  key_append_iff := by simp [BitVec.toNat_inj]

instance : Keyed UInt16 where
  key x := [x.toNat]
  key_append_iff := by simp [UInt16.toNat_inj]

instance : Keyed UInt32 where
  key x := [x.toNat]
  key_append_iff := by simp [UInt32.toNat_inj]

/-- An absent value comes before a present one. -/
instance [Keyed α] : Keyed (Option α) where
  key
    | none => [0]
    | some a => 1 :: key a
  key_append_iff {a b s t} := by cases a <;> cases b <;> simp

/-- A text is read up to its end, which comes before every character. -/
def textKey : List Char → List Nat
  | [] => [0]
  | c :: cs => (c.toNat + 1) :: textKey cs

theorem textKey_append : ∀ {a b : List Char} {s t : List Nat},
    textKey a ++ s = textKey b ++ t → a = b ∧ s = t
  | [], [], s, t, h => by simpa [textKey] using h
  | [], d :: ds, s, t, h => by simp [textKey] at h
  | c :: cs, [], s, t, h => by simp [textKey] at h
  | c :: cs, d :: ds, s, t, h => by
    simp only [textKey, List.cons_append, List.cons.injEq] at h
    have hcd : c = d := Char.toNat_inj.1 (Nat.succ.inj h.1)
    obtain ⟨rfl, hst⟩ := textKey_append h.2
    exact ⟨by rw [hcd], hst⟩

instance : Keyed (List Char) where
  key := textKey
  key_append_iff {a b s t} := by
    constructor
    · exact textKey_append
    · rintro ⟨rfl, rfl⟩
      rfl

end Keyed

/-! ### Lists sorted without repetition -/

namespace Vec

section SortDedup

variable {α : Type*} [LinearOrder α]

/-- `Vec::sort`. -/
def sort (l : List α) : List α := l.insertionSort (· ≤ ·)

/-- `Vec::dedup`: one element of each run of equal ones. -/
def dedup (l : List α) : List α := l.destutter (· ≠ ·)

theorem mem_sort {l : List α} {x : α} : x ∈ sort l ↔ x ∈ l := List.mem_insertionSort _

theorem mem_destutter'_ne {l : List α} {a x : α} :
    x ∈ l.destutter' (· ≠ ·) a ↔ x = a ∨ x ∈ l := by
  induction l generalizing a with
  | nil => simp
  | cons b l ih =>
    rw [List.destutter'_cons]
    by_cases hab : a = b
    · rw [if_neg (not_not.2 hab), ih, hab]
      simp
    · rw [if_pos hab, List.mem_cons, ih, List.mem_cons]

theorem mem_dedup {l : List α} {x : α} : x ∈ dedup l ↔ x ∈ l := by
  cases l with
  | nil => simp [dedup]
  | cons a l => rw [dedup, List.destutter_cons', mem_destutter'_ne, List.mem_cons]

theorem mem_dedup_sort {l : List α} {x : α} : x ∈ dedup (sort l) ↔ x ∈ l := by
  rw [mem_dedup, mem_sort]

theorem pairwise_dedup_sort (l : List α) : (dedup (sort l)).Pairwise (· < ·) := by
  have hle : (dedup (sort l)).Pairwise (· ≤ ·) :=
    (List.pairwise_insertionSort (· ≤ ·) l).sublist (List.destutter_sublist _ _)
  have hne : (dedup (sort l)).IsChain (· ≠ ·) := List.isChain_destutter _ _
  have hlt : (dedup (sort l)).IsChain (· < ·) := by
    rw [List.isChain_iff_getElem] at hne ⊢
    intro i hi
    exact lt_of_le_of_ne (List.isChain_iff_getElem.1 hle.isChain i hi) (hne i hi)
  exact List.isChain_iff_pairwise.1 hlt

theorem nodup_dedup_sort (l : List α) : (dedup (sort l)).Nodup :=
  (pairwise_dedup_sort l).imp fun h => ne_of_lt h

/-- **`sort` and `dedup` leave what depends on the members only.** -/
theorem dedup_sort_eq_of_mem_iff {l m : List α} (h : ∀ x, x ∈ l ↔ x ∈ m) :
    dedup (sort l) = dedup (sort m) := by
  have hperm : (dedup (sort l)).Perm (dedup (sort m)) := by
    rw [List.perm_ext_iff_of_nodup (nodup_dedup_sort l) (nodup_dedup_sort m)]
    intro x
    rw [mem_dedup_sort, mem_dedup_sort, h x]
  exact hperm.eq_of_pairwise (fun a b _ _ hab hba => absurd hab (lt_asymm hba))
    (pairwise_dedup_sort l) (pairwise_dedup_sort m)

end SortDedup

/-! ### The pairs of a list -/

section Pairs

variable {α β : Type*}

/-- The elements at two places `i < j`, in the order of two nested loops. -/
def pairs : List α → List (α × α)
  | [] => []
  | a :: l => l.map (a, ·) ++ pairs l

theorem mem_of_mem_pairs {l : List α} {x y : α} (h : (x, y) ∈ pairs l) : x ∈ l ∧ y ∈ l := by
  induction l with
  | nil => simp [pairs] at h
  | cons a l ih =>
    rw [pairs, List.mem_append, List.mem_map] at h
    obtain ⟨b, hb, hab⟩ | h := h
    · cases hab
      exact ⟨List.mem_cons_self, List.mem_cons_of_mem _ hb⟩
    · exact ⟨List.mem_cons_of_mem _ (ih h).1, List.mem_cons_of_mem _ (ih h).2⟩

theorem mem_pairs_or {l : List α} {x y : α} (hx : x ∈ l) (hy : y ∈ l) (hne : x ≠ y) :
    (x, y) ∈ pairs l ∨ (y, x) ∈ pairs l := by
  induction l with
  | nil => simp at hx
  | cons a l ih =>
    simp only [pairs, List.mem_append, List.mem_map, Prod.mk.injEq]
    rw [List.mem_cons] at hx hy
    obtain rfl | hx := hx
    · have hyl : y ∈ l := hy.resolve_left (Ne.symm hne)
      exact .inl (.inl ⟨y, hyl, rfl, rfl⟩)
    · obtain rfl | hy := hy
      · exact .inr (.inl ⟨x, hx, rfl, rfl⟩)
      · exact (ih hx hy).imp .inr .inr

theorem pairwise_of_mem_pairs {r : α → α → Prop} {l : List α} (h : l.Pairwise r) {x y : α}
    (hxy : (x, y) ∈ pairs l) : r x y := by
  induction l with
  | nil => simp [pairs] at hxy
  | cons a l ih =>
    rw [List.pairwise_cons] at h
    rw [pairs, List.mem_append, List.mem_map] at hxy
    obtain ⟨b, hb, hab⟩ | hxy := hxy
    · cases hab
      exact h.1 y hb
    · exact ih h.2 hxy

end Pairs

end Vec

end WutherCore.Data
