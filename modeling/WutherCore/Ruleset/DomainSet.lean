import Mathlib.Data.List.Infix
import WutherCore.Text.Str

/-!
# The compact domain set

`CompactDomainSet` is a trie in succinct form: the edges of all nodes stand in one list, edge `e`
leads to node `e + 1`, and `childOffsets` cuts the list into the edges of each node.  The lookups
index these lists; a lookup here is `none` where the indexing of the source is out of bounds.

* `matchesDomain` walks the reversed domain byte by byte; the labels `\r` and `\n` mark a suffix.
* `matchesAdguard` also follows the wildcards `*` and `\x08`, within a depth and a call budget.
-/

namespace WutherCore.Ruleset

open WutherCore.Text

/-- A byte as a character literal of the source writes it. -/
def byte (c : Char) : UInt8 := UInt8.ofNat c.toNat

/-- The bytes of a text. -/
def utf8 (s : Str) : List UInt8 := s.flatMap String.utf8EncodeChar

/-- The decoded succinct set: leaf bitmap, child offsets, edge labels, number of terminals. -/
structure CompactDomainSet where
  leaves : List UInt64
  childOffsets : List UInt32
  labels : List UInt8
  terminalCount : Nat

/-- What the edges of a node say about the next byte. -/
inductive EdgeScan
  | hit
  | next (node : Nat)
  | stuck

namespace CompactDomainSet

variable (s : CompactDomainSet)

/-- Whether the bitmap marks a node as terminal. -/
def isLeaf (node : Nat) : Bool :=
  match s.leaves[node / 64]? with
  | some word => word.toNat.testBit (node % 64)
  | none => false

/-- The edges of a node. -/
def children (node : Nat) : Option (List Nat) := do
  let start ← s.childOffsets[node]?
  let stop ← s.childOffsets[node + 1]?
  return List.range' start.toNat (stop.toNat - start.toNat)

/-! ### Plain domains -/

/-- One pass over the edges of a node for the byte `current`. -/
def scanEdges (current : UInt8) : List Nat → Option EdgeScan
  | [] => some .stuck
  | edge :: edges => do
      let label ← s.labels[edge]?
      if label == byte '\r' then return .hit
      else if label == byte '\n' && current == byte '.' && s.isLeaf (edge + 1) then return .hit
      else if label == current then return .next (edge + 1)
      else scanEdges current edges

/-- Whether one of the edges carries one of the labels. -/
def anyLabel (labels : List UInt8) : List Nat → Option Bool
  | [] => some false
  | edge :: edges => do
      let label ← s.labels[edge]?
      if labels.contains label then return true else anyLabel labels edges

/-- The walk of `matches_domain` from a node over the rest of the key. -/
def walk (node : Nat) : List UInt8 → Option Bool
  | [] => do
      if s.isLeaf node then return true
      else s.anyLabel [byte '\r', byte '\n'] (← s.children node)
  | current :: key => do
      match ← s.scanEdges current (← s.children node) with
      | .hit => return true
      | .next next => walk next key
      | .stuck => return false

/-- `matches_domain`. -/
def matchesDomain (domain : Str) : Option Bool := s.walk 0 (utf8 domain.reverse)

/-! ### AdGuard patterns -/

/-- A recursive call of `adguard_has`: the key, the node and the budget left; the answer comes with
the budget left after it. -/
abbrev AdguardCall := List UInt8 → Nat → Nat → Option (Bool × Nat)

/-- Tries the call on each of the keys in turn. -/
def trySuffixes (call : AdguardCall) (node : Nat) : List (List UInt8) → Nat → Option (Bool × Nat)
  | [], budget => some (false, budget)
  | key :: keys, budget => do
      let (found, budget) ← call key node budget
      if found then return (true, budget) else trySuffixes call node keys budget

/-- One pass over the edges of a node for the first byte of `current :: key`. -/
def scanEdgesAdguard (call : AdguardCall) (current : UInt8) (key : List UInt8) :
    List Nat → Nat → Option (EdgeScan × Nat)
  | [], budget => some (.stuck, budget)
  | edge :: edges, budget => do
      let label ← s.labels[edge]?
      if label == byte '\r' then return (.hit, budget)
      else if label == byte '\n' && current == byte '.' && s.isLeaf (edge + 1) then
        return (.hit, budget)
      else if label == current then return (.next (edge + 1), budget)
      else if label == byte '*' || label == byte '\x08' then
        let (found, budget) ← trySuffixes call (edge + 1) (current :: key).tails budget
        if found then return (.hit, budget) else scanEdgesAdguard call current key edges budget
      else scanEdgesAdguard call current key edges budget

/-- The edges of the node where the key ends. -/
def finishAdguard (call : AdguardCall) : List Nat → Nat → Option (Bool × Nat)
  | [], budget => some (false, budget)
  | edge :: edges, budget => do
      let label ← s.labels[edge]?
      if label == byte '\r' || label == byte '\n' || label == byte '\x08' then
        return (true, budget)
      else if label == byte '*' then
        let (found, budget) ← call [] (edge + 1) budget
        if found then return (true, budget) else finishAdguard call edges budget
      else finishAdguard call edges budget

/-- The loop of `adguard_has` over the key. -/
def walkAdguard (call : AdguardCall) : AdguardCall
  | [], node, budget => do
      if s.isLeaf node then return (true, budget)
      else s.finishAdguard call (← s.children node) budget
  | current :: key, node, budget => do
      match ← s.scanEdgesAdguard call current key (← s.children node) budget with
      | (.hit, budget) => return (true, budget)
      | (.next next, budget) => walkAdguard call key next budget
      | (.stuck, budget) => return (false, budget)

/-- `adguard_has`, with the number of nested calls that the depth limit still allows. -/
def adguardHas : (depth : Nat) → AdguardCall
  | 0, _, _, budget => some (false, budget)
  | depth + 1, key, node, budget =>
      if budget == 0 then some (false, budget)
      else s.walkAdguard (adguardHas depth) key node (budget - 1)

/-- The rests of the key behind its dots. -/
def afterDots : List UInt8 → List (List UInt8)
  | [] => []
  | b :: key => if b == byte '.' then key :: afterDots key else afterDots key

/-- The loop of `matches_adguard`: each rest of the key, as a suffix pattern. -/
def tryKeys : List (List UInt8) → Nat → Option Bool
  | [], _ => some false
  | key :: keys, budget => do
      let (found, budget) ← s.adguardHas 101 (byte '\x08' :: key) 0 budget
      if found then return true else tryKeys keys budget

/-- `matches_adguard`. -/
def matchesAdguard (domain : Str) : Option Bool := do
  let key := utf8 domain.reverse
  let (found, budget) ← s.adguardHas 101 key 0 1000000
  if found then return true else s.tryKeys (key :: afterDots key) budget

/-! ### Proper trees -/

/-- Edge `e`, which leads to node `e + 1`, is an edge of node `v`. -/
def IsEdge (v e : Nat) : Prop :=
  ∃ start stop, s.childOffsets[v]? = some start ∧ s.childOffsets[v + 1]? = some stop ∧
    start.toNat ≤ e ∧ e < stop.toNat

/-- The offsets increase, and every node but the root has exactly one parent, which comes before
it. -/
structure Proper : Prop where
  length_eq : s.childOffsets.length = s.labels.length + 2
  monotone : s.childOffsets.Pairwise (· ≤ ·)
  parent : ∀ e < s.labels.length, ∃! v, v < e + 1 ∧ s.IsEdge v e
  edge_lt : ∀ v e, s.IsEdge v e → e < s.labels.length

section InBounds

variable {s} (h : s.Proper)

include h

theorem Proper.children_spec {node : Nat} (hnode : node ≤ s.labels.length) :
    ∃ edges, s.children node = some edges ∧ ∀ e ∈ edges, e < s.labels.length := by
  have hlength := h.length_eq
  have hstart : node < s.childOffsets.length := by omega
  have hstop : node + 1 < s.childOffsets.length := by omega
  refine ⟨_, by rw [children, List.getElem?_eq_getElem hstart, List.getElem?_eq_getElem hstop]; rfl,
    fun e he => h.edge_lt node e ?_⟩
  rw [List.mem_range'_1] at he
  exact ⟨_, _, List.getElem?_eq_getElem hstart, List.getElem?_eq_getElem hstop, by omega, by omega⟩

end InBounds

section Edges

variable {s} {edges : List Nat} (hedges : ∀ e ∈ edges, e < s.labels.length)

include hedges

theorem scanEdges_spec (current : UInt8) :
    ∃ scan, s.scanEdges current edges = some scan ∧
      ∀ next, scan = .next next → next ≤ s.labels.length := by
  induction edges with
  | nil => exact ⟨.stuck, rfl, by simp⟩
  | cons edge edges ih =>
    rw [List.forall_mem_cons] at hedges
    simp only [scanEdges, List.getElem?_eq_getElem hedges.1, Option.bind_eq_bind, Option.bind_some]
    split_ifs
    · exact ⟨_, rfl, by simp⟩
    · exact ⟨_, rfl, by simp⟩
    · refine ⟨_, rfl, fun next hnext => ?_⟩
      cases hnext
      exact hedges.1
    · exact ih hedges.2

theorem anyLabel_isSome (labels : List UInt8) : (s.anyLabel labels edges).isSome := by
  induction edges with
  | nil => rfl
  | cons edge edges ih =>
    rw [List.forall_mem_cons] at hedges
    simp only [anyLabel, List.getElem?_eq_getElem hedges.1, Option.bind_eq_bind, Option.bind_some]
    split_ifs
    · rfl
    · exact ih hedges.2

end Edges

theorem Proper.walk_isSome {s : CompactDomainSet} (h : s.Proper) (key : List UInt8) {node : Nat}
    (hnode : node ≤ s.labels.length) : (s.walk node key).isSome := by
  induction key generalizing node with
  | nil =>
    obtain ⟨edges, hchildren, hedges⟩ := h.children_spec hnode
    rw [walk]
    split_ifs
    · rfl
    · rw [hchildren]
      exact anyLabel_isSome hedges _
  | cons current key ih =>
    obtain ⟨edges, hchildren, hedges⟩ := h.children_spec hnode
    obtain ⟨scan, hscan, hnext⟩ := scanEdges_spec hedges current
    simp only [walk, hchildren, Option.bind_eq_bind, Option.bind_some, hscan]
    cases scan with
    | hit => rfl
    | stuck => rfl
    | next next => exact ih (hnext next rfl)

/-- **The plain lookup in a proper tree stays in bounds.** -/
theorem Proper.matchesDomain_isSome {s : CompactDomainSet} (h : s.Proper) (domain : Str) :
    (s.matchesDomain domain).isSome := h.walk_isSome _ (Nat.zero_le _)

section Adguard

variable {s} {call : AdguardCall}
  (hcall : ∀ key node budget, node ≤ s.labels.length → (call key node budget).isSome)

include hcall

theorem trySuffixes_isSome {node : Nat} (hnode : node ≤ s.labels.length)
    (keys : List (List UInt8)) (budget : Nat) : (trySuffixes call node keys budget).isSome := by
  induction keys generalizing budget with
  | nil => rfl
  | cons key keys ih =>
    obtain ⟨⟨found, budget'⟩, hfound⟩ := Option.isSome_iff_exists.1 (hcall key node budget hnode)
    simp only [trySuffixes, hfound, Option.bind_eq_bind, Option.bind_some]
    split_ifs
    · rfl
    · exact ih budget'

theorem scanEdgesAdguard_spec (current : UInt8) (key : List UInt8) {edges : List Nat}
    (hedges : ∀ e ∈ edges, e < s.labels.length) (budget : Nat) :
    ∃ scan budget', s.scanEdgesAdguard call current key edges budget = some (scan, budget') ∧
      ∀ next, scan = .next next → next ≤ s.labels.length := by
  induction edges generalizing budget with
  | nil => exact ⟨.stuck, budget, rfl, by simp⟩
  | cons edge edges ih =>
    rw [List.forall_mem_cons] at hedges
    simp only [scanEdgesAdguard, List.getElem?_eq_getElem hedges.1, Option.bind_eq_bind,
      Option.bind_some]
    split_ifs
    · exact ⟨_, _, rfl, by simp⟩
    · exact ⟨_, _, rfl, by simp⟩
    · refine ⟨_, _, rfl, fun next hnext => ?_⟩
      cases hnext
      exact hedges.1
    · obtain ⟨⟨found, budget'⟩, hfound⟩ := Option.isSome_iff_exists.1
        (trySuffixes_isSome hcall hedges.1 (current :: key).tails budget)
      rw [hfound, Option.bind_some]
      dsimp only
      split_ifs
      · exact ⟨_, _, rfl, by simp⟩
      · exact ih hedges.2 budget'
    · exact ih hedges.2 budget

theorem finishAdguard_isSome {edges : List Nat} (hedges : ∀ e ∈ edges, e < s.labels.length)
    (budget : Nat) : (s.finishAdguard call edges budget).isSome := by
  induction edges generalizing budget with
  | nil => rfl
  | cons edge edges ih =>
    rw [List.forall_mem_cons] at hedges
    simp only [finishAdguard, List.getElem?_eq_getElem hedges.1, Option.bind_eq_bind,
      Option.bind_some]
    split_ifs
    · rfl
    · obtain ⟨⟨found, budget'⟩, hfound⟩ :=
        Option.isSome_iff_exists.1 (hcall [] (edge + 1) budget hedges.1)
      rw [hfound, Option.bind_some]
      dsimp only
      split_ifs
      · rfl
      · exact ih hedges.2 budget'
    · exact ih hedges.2 budget

theorem Proper.walkAdguard_isSome (h : s.Proper) (key : List UInt8) (node budget : Nat)
    (hnode : node ≤ s.labels.length) : (s.walkAdguard call key node budget).isSome := by
  induction key generalizing node budget with
  | nil =>
    obtain ⟨edges, hchildren, hedges⟩ := h.children_spec hnode
    rw [walkAdguard]
    split_ifs
    · rfl
    · rw [hchildren]
      exact finishAdguard_isSome hcall hedges budget
  | cons current key ih =>
    obtain ⟨edges, hchildren, hedges⟩ := h.children_spec hnode
    obtain ⟨scan, budget', hscan, hnext⟩ := scanEdgesAdguard_spec hcall current key hedges budget
    simp only [walkAdguard, hchildren, Option.bind_eq_bind, Option.bind_some, hscan]
    cases scan with
    | hit => rfl
    | stuck => rfl
    | next next => exact ih next budget' (hnext next rfl)

end Adguard

theorem Proper.adguardHas_isSome {s : CompactDomainSet} (h : s.Proper) (depth : Nat)
    (key : List UInt8) (node budget : Nat) (hnode : node ≤ s.labels.length) :
    (s.adguardHas depth key node budget).isSome := by
  induction depth generalizing key node budget with
  | zero => rfl
  | succ depth ih =>
    rw [adguardHas]
    split_ifs
    · rfl
    · exact h.walkAdguard_isSome ih key node (budget - 1) hnode

/-- **The AdGuard lookup in a proper tree stays in bounds.** -/
theorem Proper.matchesAdguard_isSome {s : CompactDomainSet} (h : s.Proper) (domain : Str) :
    (s.matchesAdguard domain).isSome := by
  have hkeys : ∀ keys budget, (s.tryKeys keys budget).isSome := by
    intro keys
    induction keys with
    | nil => exact fun _ => rfl
    | cons key keys ih =>
      intro budget
      obtain ⟨⟨found, budget'⟩, hfound⟩ := Option.isSome_iff_exists.1
        (h.adguardHas_isSome 101 (byte '\x08' :: key) 0 budget (Nat.zero_le _))
      simp only [tryKeys, hfound, Option.bind_eq_bind, Option.bind_some]
      split_ifs
      · rfl
      · exact ih budget'
  obtain ⟨⟨found, budget⟩, hfound⟩ := Option.isSome_iff_exists.1
    (h.adguardHas_isSome 101 (utf8 domain.reverse) 0 1000000 (Nat.zero_le _))
  simp only [matchesAdguard, hfound, Option.bind_eq_bind, Option.bind_some]
  split_ifs
  · rfl
  · exact hkeys _ _

end CompactDomainSet

end WutherCore.Ruleset
