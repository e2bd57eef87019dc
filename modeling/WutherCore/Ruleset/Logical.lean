import Mathlib.Data.List.Basic

/-!
# Logical rules

The AND/OR/NOT trees of classical rule sets, over an arbitrary type of leaves.

* `eval` is the meaning of a tree for a meaning of its leaves, `anyLeaf` asks for a leaf with a
  property, `map` replaces the leaves.
* `Monotone` says that certain leaves stand only under an even number of negations.  Raising the
  meaning of such leaves can only raise the meaning of the tree (`eval_le_of_monotone`).
-/

namespace WutherCore.Ruleset

/-- `LogicalRule`, over the type of its leaves. -/
inductive LogicalRule (α : Type)
  | leaf (a : α)
  | and (children : List (LogicalRule α))
  | or (children : List (LogicalRule α))
  | not (child : LogicalRule α)

namespace LogicalRule

variable {α β : Type}

@[elab_as_elim]
theorem induct {motive : LogicalRule α → Prop} (leaf : ∀ a, motive (leaf a))
    (and : ∀ cs, (∀ c ∈ cs, motive c) → motive (and cs))
    (or : ∀ cs, (∀ c ∈ cs, motive c) → motive (or cs))
    (not : ∀ c, motive c → motive (not c)) (r : LogicalRule α) : motive r :=
  @LogicalRule.rec α motive (fun cs => ∀ c ∈ cs, motive c) leaf and or not (by simp)
    (fun _ _ hc hcs => List.forall_mem_cons.2 ⟨hc, hcs⟩) r

section Eval

variable (f : α → Bool)

mutual

/-- The value of a tree, given the values of its leaves. -/
def eval : LogicalRule α → Bool
  | leaf a => f a
  | and children => evalAll children
  | or children => evalAny children
  | not child => !child.eval

/-- Every tree of a list is true. -/
def evalAll : List (LogicalRule α) → Bool
  | [] => true
  | child :: children => child.eval && evalAll children

/-- Some tree of a list is true. -/
def evalAny : List (LogicalRule α) → Bool
  | [] => false
  | child :: children => child.eval || evalAny children

end

mutual

/-- Whether some leaf has the property. -/
def anyLeaf : LogicalRule α → Bool
  | leaf a => f a
  | and children => anyLeaves children
  | or children => anyLeaves children
  | not child => child.anyLeaf

/-- Whether some leaf of a list of trees has the property. -/
def anyLeaves : List (LogicalRule α) → Bool
  | [] => false
  | child :: children => child.anyLeaf || anyLeaves children

end

mutual

/-- The leaves with the property stand under an even number of negations; under an odd number when
`positive` is false. -/
def monotone (positive : Bool) : LogicalRule α → Bool
  | leaf a => positive || !f a
  | and children => allMonotone positive children
  | or children => allMonotone positive children
  | not child => child.monotone !positive

/-- Every tree of a list is monotone. -/
def allMonotone (positive : Bool) : List (LogicalRule α) → Bool
  | [] => true
  | child :: children => child.monotone positive && allMonotone positive children

end

@[simp] theorem eval_leaf (a : α) : (leaf a).eval f = f a := rfl

@[simp] theorem eval_and (cs : List (LogicalRule α)) : (and cs).eval f = cs.all (eval f) := by
  change evalAll f cs = cs.all (eval f)
  induction cs with
  | nil => rfl
  | cons c cs ih => exact congrArg (c.eval f && ·) ih

@[simp] theorem eval_or (cs : List (LogicalRule α)) : (or cs).eval f = cs.any (eval f) := by
  change evalAny f cs = cs.any (eval f)
  induction cs with
  | nil => rfl
  | cons c cs ih => exact congrArg (c.eval f || ·) ih

@[simp] theorem eval_not (c : LogicalRule α) : (not c).eval f = !c.eval f := rfl

theorem anyLeaves_eq (cs : List (LogicalRule α)) : anyLeaves f cs = cs.any (anyLeaf f) := by
  induction cs with
  | nil => rfl
  | cons c cs ih => exact congrArg (c.anyLeaf f || ·) ih

@[simp] theorem anyLeaf_leaf (a : α) : (leaf a).anyLeaf f = f a := rfl

@[simp] theorem anyLeaf_and (cs : List (LogicalRule α)) :
    (and cs).anyLeaf f = cs.any (anyLeaf f) := anyLeaves_eq f cs

@[simp] theorem anyLeaf_or (cs : List (LogicalRule α)) :
    (or cs).anyLeaf f = cs.any (anyLeaf f) := anyLeaves_eq f cs

@[simp] theorem anyLeaf_not (c : LogicalRule α) : (not c).anyLeaf f = c.anyLeaf f := rfl

theorem allMonotone_eq (p : Bool) (cs : List (LogicalRule α)) :
    allMonotone f p cs = cs.all (monotone f p) := by
  induction cs with
  | nil => rfl
  | cons c cs ih => exact congrArg (c.monotone f p && ·) ih

end Eval

/-! ### The leaves -/

mutual

/-- The leaves of a tree, from left to right. -/
def leaves : LogicalRule α → List α
  | leaf a => [a]
  | and children => leavesOf children
  | or children => leavesOf children
  | not child => child.leaves

/-- The leaves of a list of trees. -/
def leavesOf : List (LogicalRule α) → List α
  | [] => []
  | child :: children => child.leaves ++ leavesOf children

end

theorem leavesOf_eq (cs : List (LogicalRule α)) : leavesOf cs = cs.flatMap leaves := by
  induction cs with
  | nil => rfl
  | cons c cs ih => rw [List.flatMap_cons, ← ih]; rfl

@[simp] theorem leaves_leaf (a : α) : (leaf a).leaves = [a] := rfl

@[simp] theorem leaves_and (cs : List (LogicalRule α)) : (and cs).leaves = cs.flatMap leaves :=
  leavesOf_eq cs

@[simp] theorem leaves_or (cs : List (LogicalRule α)) : (or cs).leaves = cs.flatMap leaves :=
  leavesOf_eq cs

@[simp] theorem leaves_not (c : LogicalRule α) : (not c).leaves = c.leaves := rfl

theorem anyLeaf_eq (f : α → Bool) (r : LogicalRule α) : r.anyLeaf f = r.leaves.any f := by
  induction r using induct with
  | leaf a => simp
  | and cs ih =>
    rw [anyLeaf_and, leaves_and, List.any_flatMap, Bool.eq_iff_iff, List.any_eq_true,
      List.any_eq_true]
    exact exists_congr fun c => and_congr_right fun hc => by rw [ih c hc]
  | or cs ih =>
    rw [anyLeaf_or, leaves_or, List.any_flatMap, Bool.eq_iff_iff, List.any_eq_true,
      List.any_eq_true]
    exact exists_congr fun c => and_congr_right fun hc => by rw [ih c hc]
  | not c ih => rw [anyLeaf_not, leaves_not, ih]

theorem anyLeaf_eq_false {f : α → Bool} {r : LogicalRule α} :
    r.anyLeaf f = false ↔ ∀ a ∈ r.leaves, f a = false := by
  rw [anyLeaf_eq, List.any_eq_false]
  simp only [Bool.not_eq_true]

/-! ### Replacing the leaves -/

section Map

variable (f : α → β)

mutual

/-- The tree with its leaves replaced. -/
def map : LogicalRule α → LogicalRule β
  | leaf a => leaf (f a)
  | and children => and (mapList children)
  | or children => or (mapList children)
  | not child => not child.map

/-- The trees with their leaves replaced. -/
def mapList : List (LogicalRule α) → List (LogicalRule β)
  | [] => []
  | child :: children => child.map :: mapList children

end

theorem mapList_eq (cs : List (LogicalRule α)) : mapList f cs = cs.map (map f) := by
  induction cs with
  | nil => rfl
  | cons c cs ih => rw [mapList, ih, List.map_cons]

theorem eval_map (g : β → Bool) (r : LogicalRule α) : (r.map f).eval g = r.eval (g ∘ f) := by
  induction r using induct with
  | leaf a => simp [map]
  | and cs ih =>
    rw [map, eval_and, eval_and, mapList_eq, List.all_map, Bool.eq_iff_iff, List.all_eq_true,
      List.all_eq_true]
    exact forall₂_congr fun c hc => by rw [Function.comp_apply, ih c hc]
  | or cs ih =>
    rw [map, eval_or, eval_or, mapList_eq, List.any_map, Bool.eq_iff_iff, List.any_eq_true,
      List.any_eq_true]
    exact exists_congr fun c => and_congr_right fun hc => by rw [Function.comp_apply, ih c hc]
  | not c ih => rw [map, eval_not, eval_not, ih]

theorem anyLeaf_map (g : β → Bool) (r : LogicalRule α) :
    (r.map f).anyLeaf g = r.anyLeaf (g ∘ f) := by
  have hlist : ∀ cs : List (LogicalRule α),
      (∀ c ∈ cs, (c.map f).anyLeaf g = c.anyLeaf (g ∘ f)) →
        (cs.map (map f)).any (anyLeaf g) = cs.any (anyLeaf (g ∘ f)) := by
    intro cs ih
    rw [List.any_map, Bool.eq_iff_iff, List.any_eq_true, List.any_eq_true]
    exact exists_congr fun c => and_congr_right fun hc => by rw [Function.comp_apply, ih c hc]
  induction r using induct with
  | leaf a => simp [map]
  | and cs ih => rw [map, anyLeaf_and, anyLeaf_and, mapList_eq, hlist cs ih]
  | or cs ih => rw [map, anyLeaf_or, anyLeaf_or, mapList_eq, hlist cs ih]
  | not c ih => rw [map, anyLeaf_not, anyLeaf_not, ih]

theorem leaves_map (r : LogicalRule α) : (r.map f).leaves = r.leaves.map f := by
  have hlist : ∀ cs : List (LogicalRule α), (∀ c ∈ cs, (c.map f).leaves = c.leaves.map f) →
      (cs.map (map f)).flatMap leaves = (cs.flatMap leaves).map f := by
    intro cs ih
    induction cs with
    | nil => rfl
    | cons c cs ihcs =>
      rw [List.forall_mem_cons] at ih
      rw [List.map_cons, List.flatMap_cons, List.flatMap_cons, List.map_append, ih.1, ihcs ih.2]
  induction r using induct with
  | leaf a => simp [map]
  | and cs ih => rw [map, leaves_and, leaves_and, mapList_eq, hlist cs ih]
  | or cs ih => rw [map, leaves_or, leaves_or, mapList_eq, hlist cs ih]
  | not c ih => rw [map, leaves_not, leaves_not, ih]

end Map

/-! ### Changing the values of the leaves -/

theorem eval_congr {f g : α → Bool} (r : LogicalRule α) (h : ∀ a ∈ r.leaves, f a = g a) :
    r.eval f = r.eval g := by
  induction r using induct with
  | leaf a => simpa using h a (by simp)
  | and cs ih =>
    have hcs : ∀ c ∈ cs, c.eval f = c.eval g := fun c hc =>
      ih c hc fun a ha => h a (by simpa using ⟨c, hc, ha⟩)
    rw [eval_and, eval_and, Bool.eq_iff_iff, List.all_eq_true, List.all_eq_true]
    exact forall₂_congr fun c hc => by rw [hcs c hc]
  | or cs ih =>
    have hcs : ∀ c ∈ cs, c.eval f = c.eval g := fun c hc =>
      ih c hc fun a ha => h a (by simpa using ⟨c, hc, ha⟩)
    rw [eval_or, eval_or, Bool.eq_iff_iff, List.any_eq_true, List.any_eq_true]
    exact exists_congr fun c => and_congr_right fun hc => by rw [hcs c hc]
  | not c ih => rw [eval_not, eval_not, ih (by simpa using h)]

/-- **Raising the leaves raises a monotone tree.** The leaves outside `rises` keep their value. -/
theorem eval_le_of_monotone {f g rises : α → Bool} (hsame : ∀ a, rises a = false → f a = g a)
    (hle : ∀ a, f a = true → g a = true) (r : LogicalRule α) :
    (r.monotone rises true = true → r.eval f = true → r.eval g = true) ∧
      (r.monotone rises false = true → r.eval g = true → r.eval f = true) := by
  induction r using induct with
  | leaf a =>
    refine ⟨fun _ => by simpa using hle a, fun hm => ?_⟩
    have ha : f a = g a := hsame a (by simpa [monotone] using hm)
    simp [ha]
  | and cs ih =>
    simp only [monotone, allMonotone_eq, eval_and, List.all_eq_true]
    exact ⟨fun hm hf c hc => (ih c hc).1 (hm c hc) (hf c hc),
      fun hm hg c hc => (ih c hc).2 (hm c hc) (hg c hc)⟩
  | or cs ih =>
    simp only [monotone, allMonotone_eq, eval_or, List.all_eq_true, List.any_eq_true]
    refine ⟨?_, ?_⟩
    · rintro hm ⟨c, hc, hf⟩
      exact ⟨c, hc, (ih c hc).1 (hm c hc) hf⟩
    · rintro hm ⟨c, hc, hg⟩
      exact ⟨c, hc, (ih c hc).2 (hm c hc) hg⟩
  | not c ih =>
    -- a negation swaps the two halves
    simp only [monotone, eval_not, Bool.not_eq_true', Bool.not_true, Bool.not_false]
    refine ⟨fun hm hf => ?_, fun hm hg => ?_⟩
    · by_contra hg
      exact absurd (ih.2 hm (by simpa using hg)) (by simp [hf])
    · by_contra hf
      exact absurd (ih.1 hm (by simpa using hf)) (by simp [hg])

end LogicalRule

end WutherCore.Ruleset
