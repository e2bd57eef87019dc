import WutherCore.Data.Spells
import WutherCore.Ruleset.SrsSafe

/-!
# The words of a compact domain set

A compact domain set is a list of words, those that lead from the root to a terminal node.  A word matches
a reversed domain as it stands, or by a marker at its end: `\n` for a domain and its subdomains, `\r` for
all that goes on from there.

The walk tries the edges of a node in the order of their labels, so a domain that goes on with a byte
below `\r` along the tree never sees the marker `\r` there (`Shadowed`).

* `matchesDomain_iff_words`: the walk finds exactly the words that match and are not shadowed.
-/

namespace WutherCore.Ruleset

open WutherCore.Text WutherCore.Data

/-- A word of the list matches a reversed domain. -/
def WordMatches (w key : List UInt8) : Prop :=
  w = key ∨ (∃ p, w = p ++ [byte '\n'] ∧ (key = p ∨ ∃ rest, key = p ++ byte '.' :: rest)) ∨
    ∃ p rest, w = p ++ [byte '\r'] ∧ key = p ++ rest

namespace CompactDomainSet

variable (s : CompactDomainSet)

/-- An edge from one node to another, with its label. -/
def Edge (v : Nat) (b : UInt8) (n : Nat) : Prop := ∃ e, s.IsEdge v e ∧ s.labels[e]? = some b ∧ n = e + 1

/-- The words of the list. -/
def Word (w : List UInt8) : Prop := ∃ n, Spells s.Edge 0 w n ∧ s.isLeaf n = true

/-- Strictly increasing labels of the edges of a node. -/
def Sorted : Prop :=
  ∀ v e e' b b', s.IsEdge v e → s.IsEdge v e' → e < e' → s.labels[e]? = some b → s.labels[e']? = some b' →
    b < b'

/-- The edges with a marker lead to leaves. -/
def MarkersEnd : Prop :=
  ∀ v b n, s.Edge v b n → b = byte '\n' ∨ b = byte '\r' → s.isLeaf n = true ∧ ∀ e, ¬s.IsEdge n e

/-- A word `p ++ "\r"`, while the key goes on from `p` with a smaller byte, and the tree does too. -/
def Shadowed (v : Nat) (w key : List UInt8) : Prop :=
  ∃ p c rest n, w = p ++ [byte '\r'] ∧ key = p ++ c :: rest ∧ c < byte '\r' ∧ Spells s.Edge v (p ++ [c]) n

/-- A word matches, from a node on, and is not shadowed. -/
def Found (v : Nat) (key : List UInt8) : Prop :=
  ∃ w n, Spells s.Edge v w n ∧ s.isLeaf n = true ∧ WordMatches w key ∧ ¬s.Shadowed v w key

/-- A marker of the node says that the key matches, whatever follows this byte. -/
def Marked (v : Nat) (c : UInt8) : Prop :=
  ((∃ n, s.Edge v (byte '\r') n) ∧ ¬(c < byte '\r' ∧ ∃ n, s.Edge v c n)) ∨
    (c = byte '.' ∧ ∃ n, s.Edge v (byte '\n') n)

variable {s}

theorem Sorted.deterministic (h : s.Sorted) : Deterministic s.Edge := by
  rintro v b _ _ ⟨e, he, hb, rfl⟩ ⟨e', he', hb', rfl⟩
  rcases Nat.lt_trichotomy e e' with hlt | rfl | hlt
  · exact absurd (h v e e' b b he he' hlt hb hb') (UInt8.lt_irrefl b)
  · rfl
  · exact absurd (h v e' e b b he' he hlt hb' hb) (UInt8.lt_irrefl b)

/-! ### The words found, a byte at a time -/

section Found

variable {s : CompactDomainSet} (hsorted : s.Sorted) (hmarkers : s.MarkersEnd) {v n : Nat} {c : UInt8} {key w : List UInt8}

theorem wordMatches_nil : WordMatches w [] ↔ w = [] ∨ w = [byte '\n'] ∨ w = [byte '\r'] := by
  unfold WordMatches
  constructor
  · rintro (rfl | ⟨p, rfl, rfl | ⟨rest, h⟩⟩ | ⟨p, rest, rfl, h⟩)
    · exact .inl rfl
    · exact .inr (.inl rfl)
    · simp at h
    · rw [(List.append_eq_nil_iff.1 h.symm).1]
      exact .inr (.inr rfl)
  · rintro (rfl | rfl | rfl)
    · exact .inl rfl
    · exact .inr (.inl ⟨[], rfl, .inl rfl⟩)
    · exact .inr (.inr ⟨[], [], rfl, rfl⟩)

theorem wordMatches_cons {b : UInt8} :
    WordMatches (b :: w) (c :: key) ↔
      (b = c ∧ WordMatches w key) ∨ (b = byte '\n' ∧ w = [] ∧ c = byte '.') ∨ (b = byte '\r' ∧ w = []) := by
  unfold WordMatches
  constructor
  · rintro (h | ⟨p, hp, h | ⟨rest, h⟩⟩ | ⟨p, rest, hp, h⟩)
    · exact .inl ⟨(List.cons.inj h).1, .inl (List.cons.inj h).2⟩
    · subst h
      obtain ⟨rfl, hw⟩ := List.cons.inj hp
      exact .inl ⟨rfl, .inr (.inl ⟨key, hw, .inl rfl⟩)⟩
    · cases p with
      | nil =>
        obtain ⟨hb, hw⟩ := List.cons.inj hp
        exact .inr (.inl ⟨hb, hw, (List.cons.inj h).1⟩)
      | cons a p =>
        obtain ⟨rfl, hw⟩ := List.cons.inj hp
        obtain ⟨hc, hkey⟩ := List.cons.inj h
        exact .inl ⟨hc.symm, .inr (.inl ⟨p, hw, .inr ⟨rest, hkey⟩⟩)⟩
    · cases p with
      | nil =>
        obtain ⟨hb, hw⟩ := List.cons.inj hp
        exact .inr (.inr ⟨hb, hw⟩)
      | cons a p =>
        obtain ⟨rfl, hw⟩ := List.cons.inj hp
        obtain ⟨hc, hkey⟩ := List.cons.inj h
        exact .inl ⟨hc.symm, .inr (.inr ⟨p, rest, hw, hkey⟩)⟩
  · rintro (⟨rfl, rfl | ⟨p, rfl, rfl | ⟨rest, rfl⟩⟩ | ⟨p, rest, rfl, rfl⟩⟩ | ⟨rfl, rfl, rfl⟩ | ⟨rfl, rfl⟩)
    · exact .inl rfl
    · exact .inr (.inl ⟨b :: key, rfl, .inl rfl⟩)
    · exact .inr (.inl ⟨b :: p, rfl, .inr ⟨rest, rfl⟩⟩)
    · exact .inr (.inr ⟨b :: p, rest, rfl, rfl⟩)
    · exact .inr (.inl ⟨[], rfl, .inr ⟨key, rfl⟩⟩)
    · exact .inr (.inr ⟨[], c :: key, rfl, rfl⟩)

theorem not_wordMatches_nil : ¬WordMatches [] (c :: key) := by
  unfold WordMatches
  rintro (h | ⟨p, h, _⟩ | ⟨p, _, h, _⟩)
  · cases h
  · simp at h
  · simp at h

theorem shadowed_cons (hsorted : s.Sorted) {b : UInt8} (hedge : s.Edge v b n) :
    s.Shadowed v (b :: w) (c :: key) ↔
      (b = byte '\r' ∧ w = [] ∧ c < byte '\r' ∧ ∃ m, s.Edge v c m) ∨ (b = c ∧ s.Shadowed n w key) := by
  constructor
  · rintro ⟨p, d, rest, m, hp, hkey, hlt, hm⟩
    cases p with
    | nil =>
      obtain ⟨hb, hw⟩ := List.cons.inj hp
      obtain ⟨rfl, -⟩ := List.cons.inj hkey
      exact .inl ⟨hb, hw, hlt, m, Spells.singleton_iff.1 hm⟩
    | cons a p =>
      obtain ⟨rfl, hw⟩ := List.cons.inj hp
      obtain ⟨hc, hkey⟩ := List.cons.inj hkey
      obtain ⟨u, hu, hm⟩ := Spells.cons_iff.1 hm
      obtain rfl := hsorted.deterministic _ _ _ _ hedge hu
      exact .inr ⟨hc.symm, p, d, rest, m, hw, hkey, hlt, hm⟩
  · rintro (⟨rfl, rfl, hlt, m, hm⟩ | ⟨rfl, p, d, rest, m, rfl, rfl, hlt, hm⟩)
    · exact ⟨[], c, key, m, rfl, rfl, hlt, Spells.singleton_iff.2 hm⟩
    · exact ⟨b :: p, d, rest, m, rfl, rfl, hlt, .cons hedge hm⟩

include hmarkers in
theorem found_nil :
    s.Found v [] ↔ s.isLeaf v = true ∨ ∃ b n, s.Edge v b n ∧ (b = byte '\n' ∨ b = byte '\r') := by
  constructor
  · rintro ⟨w, n, hw, hleaf, hmatches, -⟩
    rcases wordMatches_nil.1 hmatches with rfl | rfl | rfl
    · rw [Spells.nil_iff.1 hw] at hleaf
      exact .inl hleaf
    · exact .inr ⟨_, n, Spells.singleton_iff.1 hw, .inl rfl⟩
    · exact .inr ⟨_, n, Spells.singleton_iff.1 hw, .inr rfl⟩
  · have hclear (w : List UInt8) : ¬s.Shadowed v w [] := by
      rintro ⟨p, c, rest, m, -, h, -⟩
      simp at h
    rintro (hleaf | ⟨b, n, hedge, hb⟩)
    · exact ⟨[], v, .nil v, hleaf, wordMatches_nil.2 (.inl rfl), hclear _⟩
    · have hmatches : WordMatches [b] [] := by
        rcases hb with rfl | rfl
        · exact wordMatches_nil.2 (.inr (.inl rfl))
        · exact wordMatches_nil.2 (.inr (.inr rfl))
      exact ⟨[b], n, Spells.singleton_iff.2 hedge, (hmarkers v b n hedge hb).1, hmatches, hclear _⟩

include hsorted hmarkers in
theorem found_cons : s.Found v (c :: key) ↔ s.Marked v c ∨ ∃ n, s.Edge v c n ∧ s.Found n key := by
  constructor
  · rintro ⟨w, m, hw, hleaf, hmatches, hclear⟩
    cases w with
    | nil => exact absurd hmatches not_wordMatches_nil
    | cons b w =>
      obtain ⟨n, hedge, hrest⟩ := Spells.cons_iff.1 hw
      rw [shadowed_cons hsorted hedge] at hclear
      rcases wordMatches_cons.1 hmatches with ⟨rfl, hrestMatches⟩ | ⟨rfl, -, rfl⟩ | ⟨rfl, rfl⟩
      · exact .inr ⟨n, hedge, w, m, hrest, hleaf, hrestMatches, fun h => hclear (.inr ⟨rfl, h⟩)⟩
      · exact .inl (.inr ⟨rfl, n, hedge⟩)
      · exact .inl (.inl ⟨⟨n, hedge⟩, fun ⟨hlt, h⟩ => hclear (.inl ⟨rfl, rfl, hlt, h⟩)⟩)
  · rintro ((⟨⟨n, hedge⟩, hclear⟩ | ⟨rfl, n, hedge⟩) | ⟨n, hedge, w, m, hrest, hleaf, hmatches, hclear⟩)
    · refine ⟨[byte '\r'], n, Spells.singleton_iff.2 hedge, (hmarkers _ _ _ hedge (.inr rfl)).1,
        wordMatches_cons.2 (.inr (.inr ⟨rfl, rfl⟩)), ?_⟩
      rw [shadowed_cons hsorted hedge]
      rintro (⟨-, -, hlt, h⟩ | ⟨-, p, d, rest, k, h, -⟩)
      · exact hclear ⟨hlt, h⟩
      · simp at h
    · refine ⟨[byte '\n'], n, Spells.singleton_iff.2 hedge, (hmarkers _ _ _ hedge (.inl rfl)).1,
        wordMatches_cons.2 (.inr (.inl ⟨rfl, rfl, rfl⟩)), ?_⟩
      rw [shadowed_cons hsorted hedge]
      rintro (⟨h, -⟩ | ⟨h, -⟩)
      · exact absurd h (by decide)
      · exact absurd h (by decide)
    · refine ⟨c :: w, m, .cons hedge hrest, hleaf, wordMatches_cons.2 (.inl ⟨rfl, hmatches⟩), ?_⟩
      rw [shadowed_cons hsorted hedge]
      rintro (⟨rfl, -, hlt, -⟩ | ⟨-, h⟩)
      · exact UInt8.lt_irrefl _ hlt
      · exact hclear h

end Found

/-! ### The edges of a node -/

section Edges

variable (s) in
/-- One of the edges carries the label. -/
def Carries (edges : List Nat) (b : UInt8) : Prop := ∃ e ∈ edges, s.labels[e]? = some b

variable (s) in
/-- `Marked`, of edges in a list. -/
def MarkedIn (edges : List Nat) (c : UInt8) : Prop :=
  (s.Carries edges (byte '\r') ∧ ¬(c < byte '\r' ∧ s.Carries edges c)) ∨
    (c = byte '.' ∧ s.Carries edges (byte '\n'))

variable {edge : Nat} {edges : List Nat} {a b c : UInt8}

theorem carries_cons (ha : s.labels[edge]? = some a) :
    s.Carries (edge :: edges) b ↔ a = b ∨ s.Carries edges b := by
  unfold Carries
  rw [List.exists_mem_cons_iff, ha, Option.some_inj]

/-- What a pass over edges in the order of their labels finds. -/
theorem scanEdges_cases (c : UInt8) (hin : ∀ e ∈ edges, e < s.labels.length)
    (hsorted : edges.Pairwise fun e e' => ∀ b b', s.labels[e]? = some b → s.labels[e']? = some b' → b < b')
    (hleaf : ∀ e ∈ edges, s.labels[e]? = some (byte '\n') → s.isLeaf (e + 1) = true) :
    ∃ scan, s.scanEdges c edges = some scan ∧
      match scan with
      | .hit => s.MarkedIn edges c
      | .next n => ¬s.MarkedIn edges c ∧ ∃ e ∈ edges, s.labels[e]? = some c ∧ n = e + 1
      | .stuck => ¬s.MarkedIn edges c ∧ ¬s.Carries edges c := by
  induction edges with
  | nil =>
    refine ⟨.stuck, rfl, ?_, ?_⟩
    · rintro (⟨⟨e, he, -⟩, -⟩ | ⟨-, e, he, -⟩) <;> cases he
    · rintro ⟨e, he, -⟩
      cases he
  | cons edge edges ih =>
    rw [List.forall_mem_cons] at hin hleaf
    rw [List.pairwise_cons] at hsorted
    obtain ⟨a, ha⟩ : ∃ a, s.labels[edge]? = some a := ⟨_, List.getElem?_eq_getElem hin.1⟩
    have hrest (b : UInt8) (hb : s.Carries edges b) : a < b := by
      obtain ⟨e, he, hb⟩ := hb
      exact hsorted.1 e he a b ha hb
    rw [scanEdges, ha]
    simp only [Option.bind_eq_bind, Option.bind_some, MarkedIn, carries_cons ha, beq_iff_eq, Bool.and_eq_true]
    split_ifs with hsuffix hroot hsame
    · refine ⟨.hit, rfl, .inl ⟨.inl hsuffix, ?_⟩⟩
      rintro ⟨hlt, h | h⟩
      · exact UInt8.lt_irrefl _ (hsuffix ▸ h ▸ hlt)
      · exact UInt8.lt_asymm hlt (hsuffix ▸ hrest c h)
    · exact ⟨.hit, rfl, .inr ⟨hroot.1.2, .inl hroot.1.1⟩⟩
    · refine ⟨.next (edge + 1), rfl, ?_, edge, List.mem_cons_self, hsame ▸ ha, rfl⟩
      rintro (⟨h | h, hclear⟩ | ⟨hdot, h | h⟩)
      · exact hsuffix h
      · exact hclear ⟨hsame ▸ hrest _ h, .inl hsame⟩
      · rw [hsame, hdot] at h
        exact absurd h (by decide)
      · have hlt := hrest _ h
        rw [hsame, hdot] at hlt
        exact absurd hlt (by decide)
    · obtain ⟨scan, hscan, hcases⟩ := ih hin.2 hsorted.2 hleaf.2
      have hroot' : c = byte '.' → a ≠ byte '\n' := fun hdot h =>
        hroot ⟨⟨h, hdot⟩, hleaf.1 (h ▸ ha)⟩
      have hmarked : ((a = byte '\r' ∨ s.Carries edges (byte '\r')) ∧
          ¬(c < byte '\r' ∧ (a = c ∨ s.Carries edges c)) ∨
          c = byte '.' ∧ (a = byte '\n' ∨ s.Carries edges (byte '\n'))) ↔ s.MarkedIn edges c := by
        unfold MarkedIn
        simp only [hsuffix, hsame, false_or]
        constructor
        · rintro (h | ⟨hdot, h | h⟩)
          · exact .inl h
          · exact absurd h (hroot' hdot)
          · exact .inr ⟨hdot, h⟩
        · rintro (h | ⟨hdot, h⟩)
          · exact .inl h
          · exact .inr ⟨hdot, .inr h⟩
      refine ⟨scan, hscan, ?_⟩
      cases scan with
      | hit => exact hmarked.2 hcases
      | next n =>
        obtain ⟨hclear, e, he, hc, hn⟩ := hcases
        exact ⟨fun h => hclear (hmarked.1 h), e, List.mem_cons_of_mem _ he, hc, hn⟩
      | stuck =>
        refine ⟨fun h => hcases.1 (hmarked.1 h), ?_⟩
        rintro (h | h)
        · exact hsame h
        · exact hcases.2 h

theorem anyLabel_iff {labels : List UInt8} (hin : ∀ e ∈ edges, e < s.labels.length) :
    s.anyLabel labels edges = some true ↔ ∃ b ∈ labels, s.Carries edges b := by
  induction edges with
  | nil =>
    rw [anyLabel]
    constructor
    · rintro ⟨⟩
    · rintro ⟨b, -, e, he, -⟩
      cases he
  | cons edge edges ih =>
    rw [List.forall_mem_cons] at hin
    obtain ⟨a, ha⟩ : ∃ a, s.labels[edge]? = some a := ⟨_, List.getElem?_eq_getElem hin.1⟩
    rw [anyLabel, ha]
    simp only [Option.bind_eq_bind, Option.bind_some, carries_cons ha, List.contains_iff_mem]
    split_ifs with hmem
    · exact ⟨fun _ => ⟨a, hmem, .inl rfl⟩, fun _ => rfl⟩
    · rw [ih hin.2]
      constructor
      · rintro ⟨b, hb, h⟩
        exact ⟨b, hb, .inr h⟩
      · rintro ⟨b, hb, rfl | h⟩
        · exact absurd hb hmem
        · exact ⟨b, hb, h⟩

theorem Proper.children_edges (h : s.Proper) {v : Nat} (hv : v ≤ s.labels.length) :
    ∃ edges, s.children v = some edges ∧ (∀ e ∈ edges, e < s.labels.length) ∧
      (∀ e, e ∈ edges ↔ s.IsEdge v e) ∧ edges.Pairwise (· < ·) := by
  have hlength := h.length_eq
  have hstart : v < s.childOffsets.length := by omega
  have hstop : v + 1 < s.childOffsets.length := by omega
  obtain ⟨edges, hchildren, hin⟩ := h.children_spec hv
  refine ⟨edges, hchildren, hin, ?_, ?_⟩
  all_goals
    rw [children, List.getElem?_eq_getElem hstart, List.getElem?_eq_getElem hstop] at hchildren
    cases hchildren
  · intro e
    rw [List.mem_range'_1, IsEdge, List.getElem?_eq_getElem hstart, List.getElem?_eq_getElem hstop]
    constructor
    · rintro ⟨hle, hlt⟩
      exact ⟨_, _, rfl, rfl, hle, by omega⟩
    · rintro ⟨start, stop, h1, h2, hle, hlt⟩
      cases h1
      cases h2
      omega
  · exact List.pairwise_lt_range'

theorem carries_iff {v : Nat} (hedges : ∀ e, e ∈ edges ↔ s.IsEdge v e) :
    s.Carries edges b ↔ ∃ n, s.Edge v b n := by
  constructor
  · rintro ⟨e, he, hb⟩
    exact ⟨e + 1, e, (hedges e).1 he, hb, rfl⟩
  · rintro ⟨_, e, he, hb, rfl⟩
    exact ⟨e, (hedges e).2 he, hb⟩

theorem markedIn_iff {v : Nat} (hedges : ∀ e, e ∈ edges ↔ s.IsEdge v e) :
    s.MarkedIn edges c ↔ s.Marked v c := by
  unfold MarkedIn Marked
  rw [carries_iff hedges, carries_iff hedges, carries_iff hedges]

end Edges

/-- The walk from a node finds what is there to be found. -/
theorem walk_iff (h : s.Proper) (hsorted : s.Sorted) (hmarkers : s.MarkersEnd) (key : List UInt8) {v : Nat}
    (hv : v ≤ s.labels.length) : s.walk v key = some true ↔ s.Found v key := by
  induction key generalizing v with
  | nil =>
    obtain ⟨edges, hchildren, hin, hedges, -⟩ := h.children_edges hv
    rw [walk, found_nil hmarkers]
    split_ifs with hleaf
    · exact ⟨fun _ => .inl hleaf, fun _ => rfl⟩
    · rw [hchildren]
      simp only [Option.bind_eq_bind, Option.bind_some, anyLabel_iff hin, carries_iff hedges]
      constructor
      · rintro ⟨b, hb, n, hedge⟩
        rw [List.mem_pair] at hb
        exact .inr ⟨b, n, hedge, hb.symm⟩
      · rintro (hleaf' | ⟨b, n, hedge, hb⟩)
        · exact absurd hleaf' hleaf
        · exact ⟨b, List.mem_pair.2 hb.symm, n, hedge⟩
  | cons c key ih =>
    obtain ⟨edges, hchildren, hin, hedges, hpairwise⟩ := h.children_edges hv
    have hlabels : edges.Pairwise fun e e' =>
        ∀ b b', s.labels[e]? = some b → s.labels[e']? = some b' → b < b' :=
      hpairwise.imp_of_mem fun he he' hlt b b' => hsorted v _ _ b b' ((hedges _).1 he) ((hedges _).1 he') hlt
    have hleaf : ∀ e ∈ edges, s.labels[e]? = some (byte '\n') → s.isLeaf (e + 1) = true := fun e he hb =>
      (hmarkers v _ (e + 1) ⟨e, (hedges e).1 he, hb, rfl⟩ (.inl rfl)).1
    obtain ⟨scan, hscan, hcases⟩ := scanEdges_cases c hin hlabels hleaf
    rw [walk, hchildren, found_cons hsorted hmarkers]
    simp only [Option.bind_eq_bind, Option.bind_some, hscan]
    cases scan with
    | hit => exact ⟨fun _ => .inl ((markedIn_iff hedges).1 hcases), fun _ => rfl⟩
    | next n =>
      obtain ⟨hclear, e, he, hb, rfl⟩ := hcases
      have hedge : s.Edge v c (e + 1) := ⟨e, (hedges e).1 he, hb, rfl⟩
      rw [markedIn_iff hedges] at hclear
      rw [ih (hin e he)]
      constructor
      · exact fun hfound => .inr ⟨e + 1, hedge, hfound⟩
      · rintro (hmarked | ⟨n, hedge', hfound⟩)
        · exact absurd hmarked hclear
        · obtain rfl := hsorted.deterministic _ _ _ _ hedge hedge'
          exact hfound
    | stuck =>
      obtain ⟨hclear, hstuck⟩ := hcases
      rw [markedIn_iff hedges] at hclear
      rw [carries_iff hedges] at hstuck
      constructor
      · rintro ⟨⟩
      · rintro (hmarked | ⟨n, hedge, -⟩)
        · exact absurd hmarked hclear
        · exact absurd ⟨n, hedge⟩ hstuck

/-- **The walk finds the words that match and are not shadowed**, and those are all that match if the domain
has no byte below `\r`. -/
theorem matchesDomain_iff_words {field : String} {st st' : Srs.State}
    (hread : (Srs.readCompactDomainSet field st).2 = .ok (s, st')) (hsorted : s.Sorted)
    (hmarkers : s.MarkersEnd) (domain : Str) :
    (s.matchesDomain domain = some true ↔
        ∃ w, s.Word w ∧ WordMatches w (utf8 domain.reverse) ∧ ¬s.Shadowed 0 w (utf8 domain.reverse)) ∧
      ((∀ b ∈ utf8 domain.reverse, byte '\r' ≤ b) →
        (s.matchesDomain domain = some true ↔ ∃ w, s.Word w ∧ WordMatches w (utf8 domain.reverse))) := by
  have hproper : s.Proper := (Srs.readCompactDomainSet_sound field).of_ok hread
  have hwords : s.matchesDomain domain = some true ↔
      ∃ w, s.Word w ∧ WordMatches w (utf8 domain.reverse) ∧ ¬s.Shadowed 0 w (utf8 domain.reverse) := by
    rw [matchesDomain, walk_iff hproper hsorted hmarkers _ (Nat.zero_le _)]
    constructor
    · rintro ⟨w, n, hw, hleaf, hmatches, hclear⟩
      exact ⟨w, ⟨n, hw, hleaf⟩, hmatches, hclear⟩
    · rintro ⟨w, ⟨n, hw, hleaf⟩, hmatches, hclear⟩
      exact ⟨w, n, hw, hleaf, hmatches, hclear⟩
  refine ⟨hwords, fun hbytes => hwords.trans ?_⟩
  constructor
  · rintro ⟨w, hw, hmatches, -⟩
    exact ⟨w, hw, hmatches⟩
  · rintro ⟨w, hw, hmatches⟩
    refine ⟨w, hw, hmatches, ?_⟩
    rintro ⟨p, c, rest, n, -, hkey, hlt, -⟩
    have hc : c ∈ utf8 domain.reverse := by
      rw [hkey]
      simp
    exact UInt8.lt_irrefl _ (UInt8.lt_of_lt_of_le hlt (hbytes c hc))

/-- A set with the words `"\n"` and `"\r"`: the second matches every domain. -/
def twoWords : CompactDomainSet where
  leaves := [6]
  childOffsets := [0, 2, 2, 2]
  labels := [10, 13]
  terminalCount := 2

/-- The set in a file. -/
def twoWordsFile : Srs.State where
  bytes := [0, 1, 0, 0, 0, 0, 0, 0, 0, 6, 1, 0, 0, 0, 0, 0, 0, 0, 28, 2, 10, 13]
  version := 1

/-- The state behind the set. -/
def twoWordsRead : Srs.State where
  bytes := []
  position := 22
  version := 1
  totalStringBytes := 2
  totalSemanticItems := 2

theorem read_twoWords :
    (Srs.readCompactDomainSet "domain" twoWordsFile).2 = .ok (twoWords, twoWordsRead) := rfl

theorem isEdge_twoWords {v e : Nat} : twoWords.IsEdge v e ↔ v = 0 ∧ e < 2 := by
  constructor
  · rintro ⟨start, stop, hstart, hstop, hle, hlt⟩
    match v with
    | 0 =>
      cases hstop
      exact ⟨rfl, hlt⟩
    | 1 | 2 =>
      cases hstart
      cases hstop
      exact absurd hlt (Nat.not_lt.2 hle)
    | v + 3 => cases hstop
  · rintro ⟨rfl, hlt⟩
    exact ⟨0, 2, rfl, rfl, Nat.zero_le e, hlt⟩

theorem sorted_twoWords : twoWords.Sorted := by
  intro v e e' b b' he he' hlt hb hb'
  obtain ⟨-, he'⟩ := isEdge_twoWords.1 he'
  obtain rfl : e = 0 := by omega
  obtain rfl : e' = 1 := by omega
  cases hb
  cases hb'
  decide

theorem markersEnd_twoWords : twoWords.MarkersEnd := by
  rintro v b _ ⟨e, he, hb, rfl⟩ -
  obtain ⟨rfl, he⟩ := isEdge_twoWords.1 he
  refine ⟨?_, fun e' he' => ?_⟩
  · match e with
    | 0 => decide
    | 1 => decide
  · exact absurd (isEdge_twoWords.1 he').1 (Nat.succ_ne_zero e)

theorem matchesDomain_iff_words_com :
    (twoWords.matchesDomain "com".toList = some true ↔
        ∃ w, twoWords.Word w ∧ WordMatches w (utf8 "com".toList.reverse) ∧
          ¬twoWords.Shadowed 0 w (utf8 "com".toList.reverse)) ∧
      ((∀ b ∈ utf8 "com".toList.reverse, byte '\r' ≤ b) →
        (twoWords.matchesDomain "com".toList = some true ↔
          ∃ w, twoWords.Word w ∧ WordMatches w (utf8 "com".toList.reverse))) :=
  matchesDomain_iff_words read_twoWords sorted_twoWords markersEnd_twoWords _

/-- The domain `"x\n"` is not matched, though a word of the set matches it. -/
theorem not_matchesDomain_newline :
    (Srs.readCompactDomainSet "domain" twoWordsFile).2 = .ok (twoWords, twoWordsRead) ∧ twoWords.Sorted ∧
      twoWords.MarkersEnd ∧ twoWords.matchesDomain ['x', '\n'] = some false ∧
      ∃ w, twoWords.Word w ∧ WordMatches w (utf8 ['x', '\n'].reverse) := by
  refine ⟨rfl, sorted_twoWords, markersEnd_twoWords, by decide +kernel, [byte '\r'], ⟨2, ?_, by decide⟩, ?_⟩
  · exact Spells.singleton_iff.2 ⟨1, isEdge_twoWords.2 ⟨rfl, by decide⟩, rfl, rfl⟩
  · exact .inr (.inr ⟨[], utf8 ['x', '\n'].reverse, rfl, rfl⟩)

end CompactDomainSet

end WutherCore.Ruleset
