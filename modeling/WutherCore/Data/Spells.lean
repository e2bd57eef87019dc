import Mathlib.Data.List.Basic

/-!
# Words along the edges of a graph

`Spells edge v w n`: a way from `v` to `n` whose edges carry the letters of `w`.  Where a node has at
most one edge for a letter (`Deterministic`) a word leads to one node.
-/

namespace WutherCore.Data

variable {ν β : Type}

/-- A way whose edges carry the letters of a word. -/
inductive Spells (edge : ν → β → ν → Prop) : ν → List β → ν → Prop
  | nil (v : ν) : Spells edge v [] v
  | cons {v u n : ν} {b : β} {w : List β} (step : edge v b u) (rest : Spells edge u w n) :
      Spells edge v (b :: w) n

/-- At most one edge for a letter. -/
def Deterministic (edge : ν → β → ν → Prop) : Prop := ∀ v b u u', edge v b u → edge v b u' → u = u'

namespace Spells

variable {edge : ν → β → ν → Prop} {v n m : ν} {b : β} {w w' : List β}

@[simp] theorem nil_iff : Spells edge v [] n ↔ n = v := by
  constructor
  · rintro ⟨⟩
    rfl
  · rintro rfl
    exact .nil n

theorem cons_iff : Spells edge v (b :: w) n ↔ ∃ u, edge v b u ∧ Spells edge u w n := by
  constructor
  · rintro (_ | ⟨step, rest⟩)
    exact ⟨_, step, rest⟩
  · rintro ⟨u, step, rest⟩
    exact .cons step rest

theorem singleton_iff : Spells edge v [b] n ↔ edge v b n := by
  rw [cons_iff]
  constructor
  · rintro ⟨u, step, rest⟩
    rwa [nil_iff.1 rest]
  · exact fun step => ⟨n, step, .nil n⟩

theorem append (h : Spells edge v w n) (h' : Spells edge n w' m) : Spells edge v (w ++ w') m := by
  induction h with
  | nil => exact h'
  | cons step _ ih => exact .cons step (ih h')

end Spells

end WutherCore.Data
