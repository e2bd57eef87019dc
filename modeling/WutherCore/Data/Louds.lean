import Mathlib.Data.Bool.Count
import Mathlib.Data.List.Induction
import Mathlib.Tactic.SplitIfs

/-!
# Trees written level by level as bits

A tree is written as one string of bits: for each node, in the order in which the nodes are
introduced, a `false` for each child and then a `true`.  The node of a bit is the number of `true`s
before it, the child that a `false` introduces is one more than the number of `false`s before it.

On an arbitrary string of bits a child may be given to a node that is not there yet.  `Orphan` marks
these bits.  `IsOne bits i p` says where the `true` number `i` stands.
-/

namespace WutherCore.Data.Louds

variable (bits : List Bool)

/-- The number of `true`s before a position: the node that the position belongs to. -/
def ones (p : Nat) : Nat := (bits.take p).count true

/-- The number of `false`s before a position: the children introduced so far. -/
def zeros (p : Nat) : Nat := (bits.take p).count false

/-- The depth of a node. -/
inductive NodeDepth : Nat → Nat → Prop
  | root : NodeDepth 0 0
  | child {q d : Nat} (bit : bits[q]? = some false) (parent : NodeDepth (ones bits q) d) :
      NodeDepth (zeros bits q + 1) (d + 1)

/-- A child of a node that is not introduced yet, in a tree of `n` nodes. -/
structure Orphan (n p : Nat) : Prop where
  bit : bits[p]? = some false
  early : zeros bits p < ones bits p
  inside : ones bits p < n

theorem ones_mono {p q : Nat} (h : p ≤ q) : ones bits p ≤ ones bits q :=
  (List.take_sublist_take_left h).count_le true

theorem zeros_mono {p q : Nat} (h : p ≤ q) : zeros bits p ≤ zeros bits q :=
  (List.take_sublist_take_left h).count_le false

variable {bits}

theorem ones_append (pre rest : List Bool) : ones (pre ++ rest) pre.length = pre.count true := by
  rw [ones, List.take_left]

theorem zeros_append (pre rest : List Bool) : zeros (pre ++ rest) pre.length = pre.count false := by
  rw [zeros, List.take_left]

theorem zeros_succ {p : Nat} (h : bits[p]? = some false) : zeros bits (p + 1) = zeros bits p + 1 := by
  rw [zeros, zeros, List.take_add_one, h]
  simp

theorem zeros_injective {p q : Nat} (hp : bits[p]? = some false) (hq : bits[q]? = some false)
    (h : zeros bits p = zeros bits q) : p = q := by
  rcases Nat.lt_trichotomy p q with hlt | heq | hlt
  · have := zeros_mono bits (Nat.succ_le_of_lt hlt)
    rw [Nat.succ_eq_add_one, zeros_succ hp] at this
    omega
  · exact heq
  · have := zeros_mono bits (Nat.succ_le_of_lt hlt)
    rw [Nat.succ_eq_add_one, zeros_succ hq] at this
    omega

theorem ones_succ {p : Nat} (h : bits[p]? = some true) : ones bits (p + 1) = ones bits p + 1 := by
  rw [ones, ones, List.take_add_one, h]
  simp

theorem ones_succ_of_false {p : Nat} (h : bits[p]? = some false) : ones bits (p + 1) = ones bits p := by
  rw [ones, ones, List.take_add_one, h]
  simp

theorem zeros_succ_of_true {p : Nat} (h : bits[p]? = some true) : zeros bits (p + 1) = zeros bits p := by
  rw [zeros, zeros, List.take_add_one, h]
  simp

theorem ones_add_zeros {p : Nat} (h : p ≤ bits.length) : ones bits p + zeros bits p = p := by
  rw [ones, zeros, List.count_true_add_count_false, List.length_take, Nat.min_eq_left h]

theorem ones_take {p k : Nat} (h : p ≤ k) : ones (bits.take k) p = ones bits p := by
  rw [ones, ones, List.take_take, Nat.min_eq_left h]

theorem ones_length : ones bits bits.length = bits.count true := by rw [ones, List.take_length]

theorem ones_le_count (p : Nat) : ones bits p ≤ bits.count true := (List.take_sublist p bits).count_le true

theorem zeros_le_count (p : Nat) : zeros bits p ≤ bits.count false :=
  (List.take_sublist p bits).count_le false

theorem NodeDepth.unique {k d d' : Nat} (h : NodeDepth bits k d) (h' : NodeDepth bits k d') :
    d = d' := by
  induction h generalizing d' with
  | root =>
    generalize hk : 0 = k at h'
    cases h' with
    | root => rfl
    | child => omega
  | child bit _ ih =>
    generalize hk : zeros bits _ + 1 = k at h'
    cases h' with
    | root => omega
    | child bit' parent' =>
      obtain rfl := zeros_injective bit bit' (by omega)
      rw [ih parent']

/-! ### The `true` of a number -/

/-- The `true` number `i`, counted from 0, is at position `p`. -/
def IsOne (bits : List Bool) (i p : Nat) : Prop := bits[p]? = some true ∧ ones bits p = i

theorem IsOne.lt_length {i p : Nat} (h : IsOne bits i p) : p < bits.length :=
  (List.getElem?_eq_some_iff.1 h.1).1

theorem IsOne.unique {i p q : Nat} (hp : IsOne bits i p) (hq : IsOne bits i q) : p = q := by
  rcases Nat.lt_trichotomy p q with hlt | heq | hlt
  · have hmono := ones_mono bits (Nat.succ_le_of_lt hlt)
    rw [Nat.succ_eq_add_one, ones_succ hp.1, hp.2, hq.2] at hmono
    omega
  · exact heq
  · have hmono := ones_mono bits (Nat.succ_le_of_lt hlt)
    rw [Nat.succ_eq_add_one, ones_succ hq.1, hp.2, hq.2] at hmono
    omega

theorem exists_isOne {i : Nat} (h : i < bits.count true) : ∃ p, IsOne bits i p := by
  induction bits using List.reverseRecOn with
  | nil => exact absurd h (Nat.not_lt_zero i)
  | append_singleton bits b ih =>
    by_cases hi : i < bits.count true
    · obtain ⟨p, hp, hones⟩ := ih hi
      have hlt := (List.getElem?_eq_some_iff.1 hp).1
      refine ⟨p, by rw [List.getElem?_append_left hlt, hp], ?_⟩
      rw [ones, List.take_append_of_le_length hlt.le]
      exact hones
    · rw [List.count_append] at h
      cases b with
      | false =>
        rw [show [false].count true = 0 from rfl] at h
        omega
      | true =>
        rw [show [true].count true = 1 from rfl] at h
        refine ⟨bits.length, by rw [List.getElem?_append_right (le_refl _), Nat.sub_self]; rfl, ?_⟩
        rw [ones_append]
        omega

/-! ### Trees -/

/-- The bits of a tree of `n` nodes: each node has its `true`, and it is introduced before its own bits. -/
structure IsTree (bits : List Bool) (n : Nat) : Prop where
  length : bits.length + 1 = 2 * n
  count : bits.count true = n
  ordered : ∀ p < bits.length, ones bits p ≤ zeros bits p

/-- A bit that gives node `v` the child `c`. -/
def IsChild (bits : List Bool) (p v c : Nat) : Prop :=
  bits[p]? = some false ∧ ones bits p = v ∧ zeros bits p + 1 = c

theorem exists_isZero {i : Nat} (h : i < bits.count false) : ∃ p, bits[p]? = some false ∧ zeros bits p = i := by
  induction bits using List.reverseRecOn with
  | nil => exact absurd h (Nat.not_lt_zero i)
  | append_singleton bits b ih =>
    by_cases hi : i < bits.count false
    · obtain ⟨p, hp, hzeros⟩ := ih hi
      have hlt := (List.getElem?_eq_some_iff.1 hp).1
      refine ⟨p, by rw [List.getElem?_append_left hlt, hp], ?_⟩
      rw [zeros, List.take_append_of_le_length hlt.le]
      exact hzeros
    · rw [List.count_append] at h
      cases b with
      | true =>
        rw [show [true].count false = 0 from rfl] at h
        omega
      | false =>
        rw [show [false].count false = 1 from rfl] at h
        refine ⟨bits.length, by rw [List.getElem?_append_right (le_refl _), Nat.sub_self]; rfl, ?_⟩
        rw [zeros_append]
        omega

namespace IsTree

variable {n : Nat} (h : IsTree bits n)

include h

theorem count_false : bits.count false + 1 = n := by
  have hsum := List.count_true_add_count_false bits
  have hlength := h.length
  have hcount := h.count
  omega

theorem child_lt {p v c : Nat} (hc : IsChild bits p v c) : v < c ∧ c < n := by
  obtain ⟨hbit, rfl, rfl⟩ := hc
  have hp := (List.getElem?_eq_some_iff.1 hbit).1
  have hle := h.ordered p hp
  have hcount : zeros bits (p + 1) ≤ bits.count false := zeros_le_count (p + 1)
  rw [zeros_succ hbit] at hcount
  have := h.count_false
  omega

theorem exists_parent {c : Nat} (hpos : 0 < c) (hc : c < n) : ∃ p v, IsChild bits p v c := by
  have hfalse := h.count_false
  obtain ⟨p, hbit, hzeros⟩ := exists_isZero (show c - 1 < bits.count false by omega)
  exact ⟨p, ones bits p, hbit, rfl, by omega⟩

end IsTree

theorem IsChild.unique {p q v u c : Nat} (hp : IsChild bits p v c) (hq : IsChild bits q u c) : p = q ∧ v = u := by
  obtain ⟨hpbit, rfl, hpc⟩ := hp
  obtain ⟨hqbit, rfl, hqc⟩ := hq
  obtain rfl := zeros_injective hpbit hqbit (by omega)
  exact ⟨rfl, rfl⟩

end WutherCore.Data.Louds
