import Mathlib.Data.List.GetD

/-!
# Random choices

A computation that draws random numbers is a computation over an endless list of them
(`Draw`), of which every draw takes the first and reduces it to the range it asks for.  A fact that
does not depend on what is drawn holds `Always`; the rules below take such a fact through a
computation without a look at the numbers.
-/

namespace WutherCore.Data

/-- The numbers a generator is going to give. -/
abbrev Draws := Nat → Nat

/-- A computation that draws random numbers. -/
abbrev Draw (α : Type) := StateM Draws α

namespace Draw

variable {α β : Type} {P : α → Prop} {Q : β → Prop}

/-- `random_range(0..n)`. -/
def below (n : Nat) : Draw Nat := fun d => (d 0 % n, fun i => d (i + 1))

/-- The fact holds of the result, whatever is drawn. -/
def Always (P : α → Prop) (x : Draw α) : Prop := ∀ d, P (x.run d).1

theorem always_pure {a : α} (h : P a) : Always P (pure a) := fun _ => h

theorem Always.bind {x : Draw α} {f : α → Draw β} (hx : Always P x) (hf : ∀ a, P a → Always Q (f a)) :
    Always Q (x >>= f) := fun d => hf _ (hx d) _

theorem Always.mono {R : α → Prop} {x : Draw α} (hx : Always P x) (h : ∀ a, P a → R a) : Always R x :=
  fun d => h _ (hx d)

theorem always_below {n : Nat} (h : 0 < n) : Always (· < n) (below n) := fun _ => Nat.mod_lt _ h

/-- One of the elements of a list: `list[random_range(0..list.len())]`. -/
def choose [Inhabited α] (l : List α) : Draw α := do
  let i ← below l.length
  pure (l.getD i default)

theorem always_choose [Inhabited α] {l : List α} (h : l ≠ []) : Always (· ∈ l) (choose l) := by
  unfold choose
  refine (always_below (List.length_pos_iff.2 h)).bind ?_
  intro i hi
  apply always_pure
  rw [List.getD_eq_getElem _ _ hi]
  exact List.getElem_mem hi

/-- `fill_bytes`, on an array of `n` bytes. -/
def bytes : Nat → Draw (List UInt8)
  | 0 => pure []
  | n + 1 => do
    let byte ← below 256
    let rest ← bytes n
    pure (UInt8.ofNat byte :: rest)

theorem always_bytes (n : Nat) : Always (·.length = n) (bytes n) := by
  induction n with
  | zero => exact always_pure rfl
  | succ n ih =>
    have hbyte : Always (fun _ => True) (below 256) := fun _ => trivial
    refine hbyte.bind fun byte _ => ih.bind fun rest hrest => always_pure ?_
    rw [List.length_cons, hrest]

end Draw

end WutherCore.Data
