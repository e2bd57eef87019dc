import Mathlib.Data.List.Basic

/-!
# Tries

A trie over an arbitrary alphabet, its children in an association list.  `insert` marks a path,
`hits` asks whether a marked path lies on the way of a key.  A key is hit exactly by the paths that
are prefixes of it (`hits_insert`).
-/

namespace WutherCore.Data

variable {σ : Type*} [DecidableEq σ]

/-- A trie node: whether a path ends here, and the children. -/
inductive Trie (σ : Type*)
  | node (terminal : Bool) (children : List (σ × Trie σ))

namespace Trie

/-- The trie without paths. -/
def empty : Trie σ := node false []

instance : Inhabited (Trie σ) := ⟨node false []⟩

/-- Whether a path ends at the root. -/
def terminal : Trie σ → Bool
  | node t _ => t

/-- The child under a letter. -/
def child (a : σ) : Trie σ → Option (Trie σ)
  | node _ children => children.lookup a

/-- The association list with the entry of a letter replaced or added. -/
def setEntry (a : σ) (c : Trie σ) : List (σ × Trie σ) → List (σ × Trie σ)
  | [] => [(a, c)]
  | (b, d) :: children => if a = b then (a, c) :: children else (b, d) :: setEntry a c children

/-- The trie with the child under a letter replaced or added. -/
def setChild : Trie σ → σ → Trie σ → Trie σ
  | node t children, a, c => node t (setEntry a c children)

/-- Marks a path. -/
def insert : List σ → Trie σ → Trie σ
  | [], node _ children => node true children
  | a :: path, t => t.setChild a (insert path ((t.child a).getD empty))

/-- Whether a marked path is met on the way of the key. -/
def hits : List σ → Trie σ → Bool
  | [], t => t.terminal
  | a :: key, t =>
      match t.child a with
      | none => false
      | some c => c.terminal || hits key c

@[simp] theorem terminal_setChild (a : σ) (c t : Trie σ) :
    (t.setChild a c).terminal = t.terminal := by
  cases t
  rfl

theorem lookup_cons_ite (a b : σ) (c : Trie σ) (children : List (σ × Trie σ)) :
    ((a, c) :: children).lookup b = if b = a then some c else children.lookup b := by
  rw [List.lookup_cons]
  by_cases h : b = a
  · simp [h]
  · simp [h, beq_eq_false_iff_ne.2 h]

theorem lookup_setEntry (a b : σ) (c : Trie σ) (children : List (σ × Trie σ)) :
    (setEntry a c children).lookup b = if b = a then some c else children.lookup b := by
  induction children with
  | nil => rw [setEntry, lookup_cons_ite, List.lookup_nil]
  | cons e children ih =>
    obtain ⟨d, e⟩ := e
    by_cases had : a = d
    · rw [setEntry, if_pos had, lookup_cons_ite, lookup_cons_ite, had]
      split_ifs <;> rfl
    · rw [setEntry, if_neg had, lookup_cons_ite, lookup_cons_ite, ih]
      by_cases hbd : b = d
      · rw [if_pos hbd, if_neg (fun h => had (h.symm.trans hbd)), if_pos hbd]
      · rw [if_neg hbd, if_neg hbd]

theorem child_setChild (a b : σ) (c t : Trie σ) :
    (t.setChild a c).child b = if b = a then some c else t.child b := by
  obtain ⟨terminal, children⟩ := t
  exact lookup_setEntry a b c children

omit [DecidableEq σ] in
@[simp] theorem terminal_empty : (empty : Trie σ).terminal = false := rfl

@[simp] theorem hits_empty (key : List σ) : (empty : Trie σ).hits key = false := by
  cases key <;> rfl

/-- **Marking a path adds the keys it is a prefix of.** -/
theorem hits_insert {path : List σ} (hne : path ≠ []) (key : List σ) (t : Trie σ) :
    (t.insert path).hits key = (path.isPrefixOf key || t.hits key) := by
  induction path generalizing key t with
  | nil => exact absurd rfl hne
  | cons a path ih =>
    cases key with
    | nil => simp [insert, hits]
    | cons b key =>
      rw [insert, hits, child_setChild, hits]
      by_cases hba : b = a
      · subst hba
        rw [if_pos rfl]
        cases path with
        | nil =>
          have hroot : ∀ u : Trie σ, (u.insert []).terminal = true := by
            rintro ⟨_, _⟩
            rfl
          simp [hroot]
        | cons p path =>
          simp only [ih (List.cons_ne_nil p path)]
          have hroot : ∀ u : Trie σ, (u.insert (p :: path)).terminal = u.terminal := fun u =>
            terminal_setChild p _ u
          cases t.child b with
          | none => simp [hroot]
          | some c => simp [hroot, Bool.or_left_comm]
      · simp [hba, Ne.symm hba]

theorem hits_insert_iff {path : List σ} (hne : path ≠ []) (key : List σ) (t : Trie σ) :
    (t.insert path).hits key = true ↔ path <+: key ∨ t.hits key = true := by
  rw [hits_insert hne, Bool.or_eq_true, List.isPrefixOf_iff_prefix]

end Trie

end WutherCore.Data
