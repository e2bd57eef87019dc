import Mathlib.Data.Set.Basic

/-!
# Three-valued evaluation

A verdict reached before everything is known is `some b`, or `none` while it is open.  `Decides`
says what a verdict promises: in every world that is still possible the two-valued meaning agrees
with it.  The connectives `not`, `any` and `all` are Kleene's strong ones; each keeps `Decides`,
and on closed verdicts each is the Boolean connective.
-/

namespace WutherCore.Kleene

variable {ω : Type*}

/-- The verdict `o` agrees with the meaning `f` in every world of `S`. -/
def Decides (S : Set ω) (o : Option Bool) (f : ω → Bool) : Prop :=
  ∀ b, o = some b → ∀ w ∈ S, f w = b

/-- Negation. -/
def not (o : Option Bool) : Option Bool := o.map (!·)

/-- Disjunction: open unless one side is true or both are false. -/
def or : Option Bool → Option Bool → Option Bool
  | some true, _ => some true
  | _, some true => some true
  | some false, some false => some false
  | _, _ => none

/-- Conjunction: open unless one side is false or both are true. -/
def and : Option Bool → Option Bool → Option Bool
  | some false, _ => some false
  | _, some false => some false
  | some true, some true => some true
  | _, _ => none

/-- Disjunction of a list of verdicts. -/
def any (os : List (Option Bool)) : Option Bool := os.foldr or (some false)

/-- Conjunction of a list of verdicts. -/
def all (os : List (Option Bool)) : Option Bool := os.foldr and (some true)

@[simp] theorem any_nil : any [] = some false := rfl

@[simp] theorem any_cons (o : Option Bool) (os : List (Option Bool)) :
    any (o :: os) = or o (any os) := rfl

@[simp] theorem all_nil : all [] = some true := rfl

@[simp] theorem all_cons (o : Option Bool) (os : List (Option Bool)) :
    all (o :: os) = and o (all os) := rfl

@[simp] theorem or_true (o : Option Bool) : or o (some true) = some true := by
  rcases o with _ | (_ | _) <;> rfl

@[simp] theorem true_or (o : Option Bool) : or (some true) o = some true := rfl

@[simp] theorem or_false (o : Option Bool) : or o (some false) = o := by
  rcases o with _ | (_ | _) <;> rfl

@[simp] theorem false_or (o : Option Bool) : or (some false) o = o := by
  rcases o with _ | (_ | _) <;> rfl

theorem or_assoc (a b c : Option Bool) : or (or a b) c = or a (or b c) := by
  rcases a with _ | (_ | _) <;> rcases b with _ | (_ | _) <;> rcases c with _ | (_ | _) <;> rfl

@[simp] theorem and_false (o : Option Bool) : and o (some false) = some false := by
  rcases o with _ | (_ | _) <;> rfl

@[simp] theorem false_and (o : Option Bool) : and (some false) o = some false := rfl

@[simp] theorem and_true (o : Option Bool) : and o (some true) = o := by
  rcases o with _ | (_ | _) <;> rfl

@[simp] theorem true_and (o : Option Bool) : and (some true) o = o := by
  rcases o with _ | (_ | _) <;> rfl

theorem and_assoc (a b c : Option Bool) : and (and a b) c = and a (and b c) := by
  rcases a with _ | (_ | _) <;> rcases b with _ | (_ | _) <;> rcases c with _ | (_ | _) <;> rfl

theorem or_eq_true {a b : Option Bool} : or a b = some true ↔ a = some true ∨ b = some true := by
  rcases a with _ | (_ | _) <;> rcases b with _ | (_ | _) <;> simp [or]

theorem or_eq_false {a b : Option Bool} : or a b = some false ↔ a = some false ∧ b = some false := by
  rcases a with _ | (_ | _) <;> rcases b with _ | (_ | _) <;> simp [or]

theorem and_eq_true {a b : Option Bool} : and a b = some true ↔ a = some true ∧ b = some true := by
  rcases a with _ | (_ | _) <;> rcases b with _ | (_ | _) <;> simp [and]

theorem and_eq_false {a b : Option Bool} :
    and a b = some false ↔ a = some false ∨ b = some false := by
  rcases a with _ | (_ | _) <;> rcases b with _ | (_ | _) <;> simp [and]

theorem any_eq_true {os : List (Option Bool)} : any os = some true ↔ some true ∈ os := by
  induction os with
  | nil => simp
  | cons o os ih => rw [any_cons, or_eq_true, ih, List.mem_cons, eq_comm]

theorem any_eq_false {os : List (Option Bool)} :
    any os = some false ↔ ∀ o ∈ os, o = some false := by
  induction os with
  | nil => simp
  | cons o os ih => rw [any_cons, or_eq_false, ih, List.forall_mem_cons]

theorem all_eq_true {os : List (Option Bool)} :
    all os = some true ↔ ∀ o ∈ os, o = some true := by
  induction os with
  | nil => simp
  | cons o os ih => rw [all_cons, and_eq_true, ih, List.forall_mem_cons]

theorem all_eq_false {os : List (Option Bool)} : all os = some false ↔ some false ∈ os := by
  induction os with
  | nil => simp
  | cons o os ih => rw [all_cons, and_eq_false, ih, List.mem_cons, eq_comm]

theorem any_ne_none {os : List (Option Bool)} (h : ∀ o ∈ os, o ≠ none) : any os ≠ none := by
  induction os with
  | nil => simp
  | cons o os ih =>
    rw [List.forall_mem_cons] at h
    have htail := ih h.2
    rw [any_cons]
    revert htail
    rcases o with _ | (_ | _) <;> rcases any os with _ | (_ | _) <;> simp_all [or]

theorem all_ne_none {os : List (Option Bool)} (h : ∀ o ∈ os, o ≠ none) : all os ≠ none := by
  induction os with
  | nil => simp
  | cons o os ih =>
    rw [List.forall_mem_cons] at h
    have htail := ih h.2
    rw [all_cons]
    revert htail
    rcases o with _ | (_ | _) <;> rcases all os with _ | (_ | _) <;> simp_all [and]

theorem Decides.not {S : Set ω} {o : Option Bool} {f : ω → Bool} (h : Decides S o f) :
    Decides S (not o) fun w => !f w := by
  intro b hb w hw
  obtain ⟨c, rfl, rfl⟩ := Option.map_eq_some_iff.1 hb
  exact congrArg (!·) (h c rfl w hw)

section Lists

variable {α : Type*} {S : Set ω} {l : List α} {o : α → Option Bool} {f : α → ω → Bool}

theorem Decides.any (h : ∀ a ∈ l, Decides S (o a) (f a)) :
    Decides S (any (l.map o)) fun w => l.any (f · w) := by
  rintro (_ | _) hb w hw
  · rw [any_eq_false] at hb
    refine List.any_eq_false.2 fun a ha => ?_
    simp [h a ha false (hb _ (List.mem_map_of_mem ha)) w hw]
  · obtain ⟨a, ha, hoa⟩ := List.mem_map.1 (any_eq_true.1 hb)
    exact List.any_eq_true.2 ⟨a, ha, h a ha true hoa w hw⟩

theorem Decides.all (h : ∀ a ∈ l, Decides S (o a) (f a)) :
    Decides S (all (l.map o)) fun w => l.all (f · w) := by
  rintro (_ | _) hb w hw
  · obtain ⟨a, ha, hoa⟩ := List.mem_map.1 (all_eq_false.1 hb)
    exact List.all_eq_false.2 ⟨a, ha, by simp [h a ha false hoa w hw]⟩
  · rw [all_eq_true] at hb
    exact List.all_eq_true.2 fun a ha => h a ha true (hb _ (List.mem_map_of_mem ha)) w hw

end Lists

end WutherCore.Kleene
