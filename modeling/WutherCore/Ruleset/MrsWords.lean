import WutherCore.Ruleset.MrsHas

/-!
# The words of an MRS domain set

A set is a list of words, those that lead from the root to a terminal node.  A word matches a reversed domain
letter by letter, where `*` stands for one label of the domain and `+` for all that is left of it; both stand
for something that is there.

The search does not come back to a wildcard from everywhere, and it does not always go where an edge leads:

* an edge below `*` that carries the domain on hides the edges `*` and `+` of its node (`Shadowed`);
* where the domain ends at a node that is not terminal the search ends too, whatever it has passed (`DeadEnd`);
* a child is found where the sample for it is the first of its word (`Aligned`).

`Clear` says that a word matches in spite of the first two.

* `has_iff_words`: where the search is aligned, `has` finds out whether some word matches if, and only if,
  a word that matches is `Clear`.
* `alignedSearch_of_small`: every search in a set of 65 nodes at most is aligned.
-/

namespace WutherCore.Ruleset.Mrs

open WutherCore.Text WutherCore.Data WutherCore.Data.Louds

/-! ### Words -/

/-- A byte that stands for itself. -/
def Literal (c : UInt8) : Prop := c ≠ singleWildcard ∧ c ≠ complexWildcard

instance (c : UInt8) : Decidable (Literal c) :=
  inferInstanceAs (Decidable (c ≠ singleWildcard ∧ c ≠ complexWildcard))

/-- The key from the end of its first label on. -/
def labelRest (key : List UInt8) : List UInt8 := key.dropWhile (· != domainStep)

/-- A word matches a reversed domain, or what is left of it. -/
inductive WordMatches : List UInt8 → List UInt8 → Prop
  | nil : WordMatches [] []
  | letter {c : UInt8} {w key : List UInt8} (literal : Literal c) (rest : WordMatches w key) :
      WordMatches (c :: w) (c :: key)
  | label {label w key : List UInt8} (plain : domainStep ∉ label) (rest : WordMatches w key) :
      WordMatches (singleWildcard :: domainStep :: w) (label ++ domainStep :: key)
  | last {label : List UInt8} (plain : domainStep ∉ label) (nonempty : label ≠ []) :
      WordMatches [singleWildcard] label
  | remaining {c : UInt8} {w key : List UInt8} : WordMatches (complexWildcard :: w) (c :: key)

namespace MrsDomainSet

variable (s : MrsDomainSet)

/-- The words of the set. -/
def Word (w : List UInt8) : Prop := ∃ v, Spells s.Edge 0 w v ∧ getBit s.leaves v = true

/-- An edge that comes before the wildcards carries the key on. -/
def Shadowed (v : Nat) (c : UInt8) : Prop := c < singleWildcard ∧ ∃ u, s.Edge v c u

/-- The search sees an edge `+`. -/
def Complex (v : Nat) (c : UInt8) : Prop := ¬s.Shadowed v c ∧ ∃ u, s.Edge v complexWildcard u

/-- A way that the search may take, with the letters of the key and past wildcards, to the end of the key at a node
that is not terminal. -/
inductive DeadEnd : Nat → List UInt8 → Prop
  | here {v : Nat} (leaf : getBit s.leaves v = false) : DeadEnd v []
  | letter {v u : Nat} {c : UInt8} {key : List UInt8} (literal : Literal c) (edge : s.Edge v c u)
      (rest : DeadEnd u key) : DeadEnd v (c :: key)
  | label {v x y : Nat} {c : UInt8} {key rest : List UInt8} (seen : ¬s.Shadowed v c)
      (edge : s.Edge v singleWildcard x) (label : labelRest (c :: key) = domainStep :: rest)
      (step : s.Edge x domainStep y) (behind : DeadEnd y rest) : DeadEnd v (c :: key)

/-- A word matches from this node on, and the search gets to its end: no wildcard of it is hidden, and where it has a
wildcard the letters of the key do not lead the search to a dead end before. -/
inductive Clear : Nat → List UInt8 → Prop
  | here {v : Nat} (leaf : getBit s.leaves v = true) : Clear v []
  | remaining {v : Nat} {c : UInt8} {key : List UInt8} (complex : s.Complex v c) : Clear v (c :: key)
  | letter {v u : Nat} {c : UInt8} {key : List UInt8} (literal : Literal c) (edge : s.Edge v c u)
      (rest : Clear u key) : Clear v (c :: key)
  | last {v x : Nat} {c : UInt8} {key : List UInt8} (seen : ¬s.Shadowed v c)
      (alive : Literal c → ∀ u, s.Edge v c u → ¬s.DeadEnd u key) (edge : s.Edge v singleWildcard x)
      (label : labelRest (c :: key) = []) (leaf : getBit s.leaves x = true) : Clear v (c :: key)
  | label {v x y : Nat} {c : UInt8} {key rest : List UInt8} (seen : ¬s.Shadowed v c)
      (alive : Literal c → ∀ u, s.Edge v c u → ¬s.DeadEnd u key) (edge : s.Edge v singleWildcard x)
      (label : labelRest (c :: key) = domainStep :: rest) (step : s.Edge x domainStep y)
      (behind : Clear y rest) : Clear v (c :: key)

/-- The sample from which the bits of this node are found is the first of its word. -/
def Aligned (v : Nat) : Prop :=
  ∀ sample, IsOne s.bits (64 * ((v - 1) / 64)) sample → skew s.bits sample = 0

/-- The search goes through aligned nodes only, as long as there is something left of the key. -/
inductive AlignedSearch : Nat → List UInt8 → Prop
  | nil (v : Nat) : AlignedSearch v []
  | cons {v : Nat} {c : UInt8} {key : List UInt8} (here : s.Aligned v)
      (letter : ¬s.Complex v c → Literal c → ∀ u, s.Edge v c u → AlignedSearch u key)
      (wildcard : ¬s.Shadowed v c → ¬s.Complex v c →
        (Literal c → ∀ u, s.Edge v c u → ¬s.Clear u key ∧ ¬s.DeadEnd u key) →
        ∀ x rest, s.Edge v singleWildcard x → labelRest (c :: key) = domainStep :: rest → s.Aligned x)
      (behind : ¬s.Shadowed v c → ¬s.Complex v c →
        (Literal c → ∀ u, s.Edge v c u → ¬s.Clear u key ∧ ¬s.DeadEnd u key) →
        ∀ x y rest, s.Edge v singleWildcard x → labelRest (c :: key) = domainStep :: rest →
          s.Edge x domainStep y → AlignedSearch y rest) :
      AlignedSearch v (c :: key)

/-- Some word matches, from a node on. -/
def Found (v : Nat) (key : List UInt8) : Prop :=
  ∃ w n, Spells s.Edge v w n ∧ getBit s.leaves n = true ∧ WordMatches w key

variable {s}

theorem found_root {key : List UInt8} : s.Found 0 key ↔ ∃ w, s.Word w ∧ WordMatches w key := by
  constructor
  · rintro ⟨w, n, hspells, hleaf, hmatches⟩
    exact ⟨w, ⟨n, hspells, hleaf⟩, hmatches⟩
  · rintro ⟨w, ⟨n, hspells, hleaf⟩, hmatches⟩
    exact ⟨w, n, hspells, hleaf, hmatches⟩

theorem WellFormed.exists_terminal (h : s.WellFormed) {v : Nat} (hv : v < s.nodeCount) :
    ∃ w n, Spells s.Edge v w n ∧ getBit s.leaves n = true := by
  obtain ⟨left, hleft⟩ : ∃ left, v + left = s.nodeCount := ⟨s.nodeCount - v, by omega⟩
  induction left using Nat.strongRecOn generalizing v with
  | _ left ih =>
    by_cases hchild : ∃ p c, IsChild s.bits p v c
    · obtain ⟨p, c, hc⟩ := hchild
      obtain ⟨hlt, hcount⟩ := h.tree.child_lt hc
      have hlabel : c - 1 < s.labels.length := by
        have := h.nodeCount_eq
        omega
      obtain ⟨w, n, hspells, hleaf⟩ := ih (s.nodeCount - c) (by omega) hcount (by omega)
      exact ⟨_, n, .cons ⟨p, hc, List.getElem?_eq_getElem hlabel⟩ hspells, hleaf⟩
    · refine ⟨[], v, .nil v, h.terminal v hv fun p c hc => hchild ⟨p, c, hc⟩⟩

theorem Edge.lt (h : s.WellFormed) {v u : Nat} {b : UInt8} (edge : s.Edge v b u) : u < s.nodeCount := by
  obtain ⟨p, hc, -⟩ := edge
  exact (h.tree.child_lt hc).2

end MrsDomainSet

theorem labelRest_eq_nil {key : List UInt8} (h : labelRest key = []) : domainStep ∉ key := by
  intro hmem
  have := List.dropWhile_eq_nil_iff.1 h _ hmem
  simp at this

theorem head_labelRest {key rest : List UInt8} {b : UInt8} (h : labelRest key = b :: rest) : b = domainStep := by
  have hnot := List.head?_dropWhile_not (· != domainStep) key
  rw [← labelRest, h, List.head?_cons] at hnot
  simpa using hnot

theorem labelRest_eq_cons {key rest : List UInt8} (h : labelRest key = domainStep :: rest) :
    ∃ label, domainStep ∉ label ∧ key = label ++ domainStep :: rest := by
  refine ⟨key.takeWhile (· != domainStep), fun hmem => ?_, ?_⟩
  · have := List.mem_takeWhile_imp hmem
    simp at this
  · rw [← h, labelRest, List.takeWhile_append_dropWhile]

/-- **A clear way is a word that matches.** -/
theorem MrsDomainSet.Clear.found {s : MrsDomainSet} (h : s.WellFormed) {v : Nat} {key : List UInt8}
    (hclear : s.Clear v key) : s.Found v key := by
  induction hclear with
  | here leaf => exact ⟨[], _, .nil _, leaf, .nil⟩
  | remaining complex =>
    obtain ⟨-, u, edge⟩ := complex
    obtain ⟨w, n, hspells, hleaf⟩ := h.exists_terminal (edge.lt h)
    exact ⟨complexWildcard :: w, n, .cons edge hspells, hleaf, .remaining⟩
  | letter literal edge _ ih =>
    obtain ⟨w, n, hspells, hleaf, hmatches⟩ := ih
    exact ⟨_, n, .cons edge hspells, hleaf, .letter literal hmatches⟩
  | last _ _ edge label leaf =>
    refine ⟨[singleWildcard], _, Spells.singleton_iff.2 edge, leaf, ?_⟩
    exact .last (labelRest_eq_nil label) (List.cons_ne_nil _ _)
  | label _ _ edge label step _ ih =>
    obtain ⟨w, n, hspells, hleaf, hmatches⟩ := ih
    obtain ⟨first, hplain, hkey⟩ := labelRest_eq_cons label
    refine ⟨_, n, .cons edge (.cons step hspells), hleaf, ?_⟩
    rw [hkey]
    exact .label hplain hmatches

/-! ### What comes next -/

namespace MrsDomainSet

variable {s : MrsDomainSet} {v : Nat} {c : UInt8} {key : List UInt8}

theorem clear_nil_iff : s.Clear v [] ↔ getBit s.leaves v = true := by
  constructor
  · rintro ⟨leaf⟩
    exact leaf
  · exact .here

/-- The letters of the key lead to a dead end. -/
def LetterDead (s : MrsDomainSet) (v : Nat) (c : UInt8) (key : List UInt8) : Prop :=
  Literal c ∧ ∃ u, s.Edge v c u ∧ s.DeadEnd u key

/-- The letters of the key lead on. -/
def LetterClear (s : MrsDomainSet) (v : Nat) (c : UInt8) (key : List UInt8) : Prop :=
  Literal c ∧ ∃ u, s.Edge v c u ∧ s.Clear u key

theorem clear_cons_iff :
    s.Clear v (c :: key) ↔ s.Complex v c ∨ s.LetterClear v c key ∨
      ¬s.Shadowed v c ∧ ¬s.LetterDead v c key ∧ ∃ x, s.Edge v singleWildcard x ∧
        (labelRest (c :: key) = [] ∧ getBit s.leaves x = true ∨
          ∃ rest y, labelRest (c :: key) = domainStep :: rest ∧ s.Edge x domainStep y ∧ s.Clear y rest) := by
  constructor
  · intro h
    cases h with
    | remaining complex => exact .inl complex
    | letter literal edge rest => exact .inr (.inl ⟨literal, _, edge, rest⟩)
    | last seen alive edge label leaf =>
      refine .inr (.inr ⟨seen, ?_, _, edge, .inl ⟨label, leaf⟩⟩)
      rintro ⟨literal, u, hu, hdead⟩
      exact alive literal u hu hdead
    | label seen alive edge label step behind =>
      refine .inr (.inr ⟨seen, ?_, _, edge, .inr ⟨_, _, label, step, behind⟩⟩)
      rintro ⟨literal, u, hu, hdead⟩
      exact alive literal u hu hdead
  · rintro (complex | ⟨literal, u, edge, rest⟩ | ⟨seen, alive, x, edge, ⟨label, leaf⟩ | ⟨rest, y, label, step, behind⟩⟩)
    · exact .remaining complex
    · exact .letter literal edge rest
    · exact .last seen (fun literal u hu hdead => alive ⟨literal, u, hu, hdead⟩) edge label leaf
    · exact .label seen (fun literal u hu hdead => alive ⟨literal, u, hu, hdead⟩) edge label step behind

theorem deadEnd_cons_iff :
    s.DeadEnd v (c :: key) ↔ s.LetterDead v c key ∨
      ¬s.Shadowed v c ∧ ∃ x rest y, s.Edge v singleWildcard x ∧ labelRest (c :: key) = domainStep :: rest ∧
        s.Edge x domainStep y ∧ s.DeadEnd y rest := by
  constructor
  · intro h
    cases h with
    | letter literal edge rest => exact .inl ⟨literal, _, edge, rest⟩
    | label seen edge label step behind => exact .inr ⟨seen, _, _, _, edge, label, step, behind⟩
  · rintro (⟨literal, u, edge, rest⟩ | ⟨seen, x, rest, y, edge, label, step, behind⟩)
    · exact .letter literal edge rest
    · exact .label seen edge label step behind

end MrsDomainSet

/-! ### The bits of a node -/

/-- An edge with its place. -/
def MrsDomainSet.EdgeAt (s : MrsDomainSet) (p v : Nat) (b : UInt8) (c : Nat) : Prop :=
  IsChild s.bits p v c ∧ s.labels[c - 1]? = some b

/-- The bits of a node start here. -/
def MrsDomainSet.Starts (s : MrsDomainSet) (v p : Nat) : Prop :=
  v = 0 ∧ p = 0 ∨ ∃ u q, IsOne s.bits u q ∧ v = u + 1 ∧ p = q + 1

/-- The bits of a node: its edges, and the bit that ends it. -/
structure Block (s : MrsDomainSet) (v start stop : Nat) : Prop where
  le : start ≤ stop
  stop_one : s.bits[stop]? = some true
  inside : ∀ q, start ≤ q → q < stop → s.bits[q]? = some false ∧ ones s.bits q = v
  of_edge : ∀ q, s.bits[q]? = some false → ones s.bits q = v → start ≤ q ∧ q < stop

namespace MrsDomainSet

variable {s : MrsDomainSet}

theorem Starts.ones_eq {v p : Nat} (h : s.Starts v p) : ones s.bits p = v := by
  rcases h with ⟨rfl, rfl⟩ | ⟨u, q, hone, rfl, rfl⟩
  · rfl
  · rw [ones_succ hone.1, hone.2]

theorem WellFormed.block (h : s.WellFormed) {v p : Nat} (hv : v < s.nodeCount) (hstart : s.Starts v p) :
    ∃ e, Block s v p e := by
  obtain ⟨e, he⟩ := exists_isOne (show v < s.bits.count true by rw [h.tree.count]; exact hv)
  have hp := hstart.ones_eq
  refine ⟨e, ?_, he.1, ?_, ?_⟩
  · by_contra hlt
    have hmono := ones_mono s.bits (show e + 1 ≤ p by omega)
    rw [ones_succ he.1, he.2, hp] at hmono
    omega
  · intro q hpq hqe
    have hlow := ones_mono s.bits hpq
    have hhigh := ones_mono s.bits hqe.le
    rw [he.2] at hhigh
    rw [hp] at hlow
    have hones : ones s.bits q = v := by omega
    refine ⟨?_, hones⟩
    have hq := hqe.trans he.lt_length
    rw [List.getElem?_eq_getElem hq]
    cases hbit : s.bits[q] with
    | false => rfl
    | true =>
      have hone : IsOne s.bits v q := ⟨by rw [List.getElem?_eq_getElem hq, hbit], hones⟩
      have := hone.unique he
      omega
  · intro q hbit hones
    constructor
    · rcases hstart with ⟨-, rfl⟩ | ⟨u, r, hone, rfl, rfl⟩
      · exact Nat.zero_le q
      · by_contra hlt
        have hmono := ones_mono s.bits (show q ≤ r by omega)
        rw [hone.2] at hmono
        omega
    · by_contra hge
      rcases Nat.eq_or_lt_of_le (Nat.le_of_not_lt hge) with rfl | hlt
      · rw [he.1] at hbit
        cases hbit
      · have hmono := ones_mono s.bits (Nat.succ_le_of_lt hlt)
        rw [Nat.succ_eq_add_one, ones_succ he.1, he.2] at hmono
        omega

theorem WellFormed.edgeAt (h : s.WellFormed) {p : Nat} (hbit : s.bits[p]? = some false) :
    ∃ b, s.EdgeAt p (ones s.bits p) b (zeros s.bits p + 1) := by
  have hchild : IsChild s.bits p (ones s.bits p) (zeros s.bits p + 1) := ⟨hbit, rfl, rfl⟩
  obtain ⟨-, hlt⟩ := h.tree.child_lt hchild
  have hlabel : zeros s.bits p + 1 - 1 < s.labels.length := by
    have := h.nodeCount_eq
    omega
  exact ⟨_, hchild, List.getElem?_eq_getElem hlabel⟩

theorem Edge.exists_edgeAt {v u : Nat} {b : UInt8} (h : s.Edge v b u) : ∃ p, s.EdgeAt p v b u := h

namespace EdgeAt

variable {p q v u w : Nat} {a b : UInt8}

theorem edge (h : s.EdgeAt p v b u) : s.Edge v b u := ⟨p, h⟩

theorem in_block {start stop : Nat} (h : s.EdgeAt p v b u) (hblock : Block s v start stop) :
    start ≤ p ∧ p < stop := hblock.of_edge p h.1.1 h.1.2.1

theorem label_lt (hwell : s.WellFormed) (hp : s.EdgeAt p v a u) (hq : s.EdgeAt q v b w) (hlt : p < q) : a < b :=
  hwell.sorted p q v u w a b hlt hp.1 hq.1 hp.2 hq.2

theorem lt_of_label (hwell : s.WellFormed) (hp : s.EdgeAt p v a u) (hq : s.EdgeAt q v b w) (hlt : a < b) : p < q := by
  rcases Nat.lt_trichotomy p q with hpq | rfl | hpq
  · exact hpq
  · have hsame := hp.1.2.2.symm.trans hq.1.2.2
    have ha := hp.2
    rw [hsame, hq.2] at ha
    cases ha
    exact absurd hlt (UInt8.lt_irrefl _)
  · exact absurd (label_lt hwell hq hp hpq) (UInt8.lt_asymm hlt)

theorem label_eq (hp : s.EdgeAt p v a u) : s.labels[p - v]? = some a := by
  obtain ⟨⟨hbit, rfl, rfl⟩, hlabel⟩ := hp
  have hsum := ones_add_zeros (List.getElem?_eq_some_iff.1 hbit).1.le
  rwa [show p - ones s.bits p = zeros s.bits p + 1 - 1 by omega]

theorem node_le (hp : s.EdgeAt p v a u) : v ≤ p := by
  obtain ⟨⟨hbit, rfl, rfl⟩, -⟩ := hp
  have hsum := ones_add_zeros (List.getElem?_eq_some_iff.1 hbit).1.le
  omega

end EdgeAt

theorem WellFormed.childOf_edge (h : s.WellFormed) (strict : Bool) {p v u : Nat} {b : UInt8}
    (hedge : s.EdgeAt p v b u) :
    ∃ start, childOf strict s p = some (some (u, start)) ∧ (s.Starts u start ↔ s.Aligned u) := by
  obtain ⟨start, hchild, sample, q, hsample, hq, rfl⟩ := h.childOf_spec strict hedge.1.1
  obtain ⟨⟨-, -, rfl⟩, -⟩ := hedge
  refine ⟨q + 1, hchild, ?_, fun haligned => .inr ⟨zeros s.bits p, q, ?_, rfl, rfl⟩⟩
  · intro hstart sample' hsample'
    obtain rfl := hsample'.unique hsample
    have hones := hstart.ones_eq
    rw [ones_succ hq.1, hq.2] at hones
    have hskew : skew s.bits sample' ≤ ones s.bits sample' := Nat.sub_le _ _
    rw [hsample.2] at hskew
    omega
  · rwa [haligned sample hsample, Nat.sub_zero] at hq

end MrsDomainSet

/-! ### Where the search goes -/

section Leads

variable {s : MrsDomainSet} {strict : Bool} {key : List UInt8} {st st' st'' : Search}

/-- From one state the search comes to the other. -/
def Leads (strict : Bool) (s : MrsDomainSet) (key : List UInt8) (st st' : Search) : Prop :=
  ∀ answer, Returns (searchRound strict s key) st answer ↔ Returns (searchRound strict s key) st' answer

theorem Leads.refl (st : Search) : Leads strict s key st st := fun _ => Iff.rfl

theorem Leads.trans (h : Leads strict s key st st') (h' : Leads strict s key st' st'') : Leads strict s key st st'' :=
  fun answer => (h answer).trans (h' answer)

theorem Leads.of_round (h : searchRound strict s key st = some (.again st')) : Leads strict s key st st' :=
  fun _ => returns_of_again h

variable (h : s.WellFormed) {v p i u : Nat} {b c : UInt8} {S : List WildcardCursor}

include h

theorem searchRound_edge (hc : key[i]? = some c) (hedge : s.EdgeAt p v b u) :
    searchRound strict s key ⟨v, p, i, S⟩ =
      if b = complexWildcard then some (.stop true)
      else if b = singleWildcard then some (.again ⟨v, p + 1, i, ⟨p, i⟩ :: S⟩)
      else if b = c then
        (childOf strict s p).map fun
          | none => .stop false
          | some (nodeId, bmIdx) => .again ⟨nodeId, bmIdx, i + 1, S⟩
      else some (.again ⟨v, p + 1, i, S⟩) := by
  have hp := (List.getElem?_eq_some_iff.1 hedge.1.1).1
  rw [MrsDomainSet.length_bits] at hp
  have hbit := (MrsDomainSet.getElem?_bits hp).symm.trans hedge.1.1
  have hadd : Checked.add 31 p 1 = some (p + 1) := by
    have := h.effective_lt
    exact Checked.add_of_lt (by omega)
  unfold searchRound
  dsimp only
  rw [hc]
  dsimp only
  rw [if_neg (by omega), h.readBit_bitmap strict hp, Option.bind_some, Option.some.inj hbit,
    if_neg Bool.false_ne_true, if_neg (Nat.not_lt.2 hedge.node_le), hedge.label_eq]
  dsimp only
  rw [hadd]
  rfl

theorem searchRound_end (hc : key[i]? = some c) (hbit : s.bits[p]? = some true) :
    searchRound strict s key ⟨v, p, i, S⟩ = backtrack strict s key ⟨v, p, i, S⟩ := by
  have hp := (List.getElem?_eq_some_iff.1 hbit).1
  rw [MrsDomainSet.length_bits] at hp
  have hbits := (MrsDomainSet.getElem?_bits hp).symm.trans hbit
  unfold searchRound
  dsimp only
  rw [hc]
  dsimp only
  rw [if_neg (by omega), h.readBit_bitmap strict hp, Option.bind_some, Option.some.inj hbits, if_pos rfl]

theorem returns_of_complex (hc : key[i]? = some c) (hedge : s.EdgeAt p v complexWildcard u) :
    Returns (searchRound strict s key) ⟨v, p, i, S⟩ true :=
  (returns_of_stop (by rw [searchRound_edge h hc hedge, if_pos rfl])).2 rfl

theorem Leads.push (hc : key[i]? = some c) (hedge : s.EdgeAt p v singleWildcard u) :
    Leads strict s key ⟨v, p, i, S⟩ ⟨v, p + 1, i, ⟨p, i⟩ :: S⟩ :=
  .of_round (by rw [searchRound_edge h hc hedge, if_neg (by decide), if_pos rfl])

theorem Leads.descend (hc : key[i]? = some c) (hliteral : Literal c) (hedge : s.EdgeAt p v c u) :
    ∃ start, Leads strict s key ⟨v, p, i, S⟩ ⟨u, start, i + 1, S⟩ ∧ (s.Aligned u → s.Starts u start) := by
  obtain ⟨start, hchild, hstart⟩ := h.childOf_edge strict hedge
  refine ⟨start, .of_round ?_, hstart.2⟩
  rw [searchRound_edge h hc hedge, if_neg hliteral.2, if_neg hliteral.1, if_pos rfl, hchild]
  rfl

theorem Leads.pass {start stop q : Nat} (hblock : Block s v start stop) (hc : key[i]? = some c) (hp : start ≤ p)
    (hpq : p ≤ q) (hq : q ≤ stop)
    (hpass : ∀ r, p ≤ r → r < q → ∀ b u, s.EdgeAt r v b u → b ≠ complexWildcard ∧ b ≠ singleWildcard ∧ b ≠ c) :
    Leads strict s key ⟨v, p, i, S⟩ ⟨v, q, i, S⟩ := by
  induction q, hpq using Nat.le_induction with
  | base => exact .refl _
  | succ q hpq ih =>
    have hfirst := ih (by omega) fun r hr hrq => hpass r hr (by omega)
    obtain ⟨hbit, hones⟩ := hblock.inside q (by omega) (by omega)
    obtain ⟨b, hedge⟩ := h.edgeAt hbit
    rw [hones] at hedge
    obtain ⟨hplus, hstar, hne⟩ := hpass q hpq (Nat.lt_succ_self q) b _ hedge
    refine hfirst.trans (.of_round ?_)
    rw [searchRound_edge h hc hedge, if_neg hplus, if_neg hstar, if_neg hne]

end Leads

/-! ### Through the edges of a node -/

theorem lt_singleWildcard {c : UInt8} (hlt : c < complexWildcard) (hne : c ≠ singleWildcard) : c < singleWildcard := by
  have hplus : complexWildcard.toNat = 43 := rfl
  have hstar : singleWildcard.toNat = 42 := rfl
  rw [UInt8.lt_iff_toNat_lt] at hlt ⊢
  have : c.toNat ≠ singleWildcard.toNat := fun heq => hne (UInt8.toNat_inj.1 heq)
  omega

theorem singleWildcard_lt {c : UInt8} (hge : ¬c < singleWildcard) (hne : c ≠ singleWildcard) : singleWildcard < c :=
  (UInt8.lt_or_lt_of_ne hne).resolve_left hge

theorem literal_of_lt {c : UInt8} (hless : c < singleWildcard) : Literal c := by
  constructor
  · rintro rfl
    exact UInt8.lt_irrefl _ hless
  · rintro rfl
    exact absurd hless (by decide)

section Scan

variable {s : MrsDomainSet} {strict : Bool} {key : List UInt8} (h : s.WellFormed) {v start stop i p : Nat} {c : UInt8}
  {S : List WildcardCursor}

/-- The search has passed the edge `*` of a node, or there is none. -/
structure PastStar (s : MrsDomainSet) (v start stop p : Nat) : Prop where
  start_le : start ≤ p
  le_stop : p ≤ stop
  no_star : ∀ r b u, s.EdgeAt r v b u → p ≤ r → b ≠ singleWildcard
  le_of_lt : ∀ r b u, s.EdgeAt r v b u → singleWildcard < b → p ≤ r

include h

theorem exists_pastStar (hblock : Block s v start stop) (hc : key[i]? = some c) (hseen : ¬s.Shadowed v c) :
    ∃ p S', Leads strict s key ⟨v, start, i, S⟩ ⟨v, p, i, S'⟩ ∧ PastStar s v start stop p ∧
      (S' = S ∧ (∀ x, ¬s.Edge v singleWildcard x) ∨ ∃ q x, s.EdgeAt q v singleWildcard x ∧ S' = ⟨q, i⟩ :: S) := by
  by_cases hstar : ∃ x, s.Edge v singleWildcard x
  · obtain ⟨x, hx⟩ := hstar
    obtain ⟨q, hedge⟩ := hx.exists_edgeAt
    obtain ⟨hle, hlt⟩ := hedge.in_block hblock
    refine ⟨q + 1, ⟨q, i⟩ :: S, ?_, ⟨by omega, hlt, ?_, ?_⟩, .inr ⟨q, x, hedge, rfl⟩⟩
    · refine (Leads.pass h hblock hc (le_refl start) hle hlt.le ?_).trans (Leads.push h hc hedge)
      intro r _ hr b u hb
      have hless := hb.label_lt h hedge hr
      refine ⟨?_, ?_, ?_⟩
      · rintro rfl
        exact absurd hless (by decide)
      · rintro rfl
        exact UInt8.lt_irrefl _ hless
      · rintro rfl
        exact hseen ⟨hless, u, hb.edge⟩
    · rintro r b u hb hr rfl
      exact absurd (hedge.label_lt h hb hr) (UInt8.lt_irrefl _)
    · intro r b u hb hless
      exact hedge.lt_of_label h hb hless
  · push Not at hstar
    refine ⟨start, S, .refl _, ⟨le_refl start, hblock.le, ?_, ?_⟩, .inl ⟨rfl, hstar⟩⟩
    · rintro r b u hb - rfl
      exact hstar u hb.edge
    · intro r b u hb _
      exact (hb.in_block hblock).1

theorem PastStar.complex (hpast : PastStar s v start stop p) (hblock : Block s v start stop) (hc : key[i]? = some c)
    (hcomplex : s.Complex v c) : Returns (searchRound strict s key) ⟨v, p, i, S⟩ true := by
  obtain ⟨hseen, u, hu⟩ := hcomplex
  obtain ⟨q, hedge⟩ := hu.exists_edgeAt
  have hq := hpast.le_of_lt q _ u hedge (by decide)
  refine (Leads.pass h hblock hc hpast.start_le hq (hedge.in_block hblock).2.le ?_ true).2
    (returns_of_complex h hc hedge)
  intro r hr hrq b w hb
  have hless := hb.label_lt h hedge hrq
  have hne := hpast.no_star r b w hb hr
  refine ⟨?_, hne, ?_⟩
  · rintro rfl
    exact UInt8.lt_irrefl _ hless
  · rintro rfl
    exact hseen ⟨lt_singleWildcard hless hne, w, hb.edge⟩

theorem PastStar.letter (hpast : PastStar s v start stop p) (hblock : Block s v start stop) (hc : key[i]? = some c)
    (hseen : ¬s.Shadowed v c) (hplus : ∀ u, ¬s.Edge v complexWildcard u) (hliteral : Literal c) {u : Nat}
    (hedge : s.Edge v c u) :
    ∃ start, Leads strict s key ⟨v, p, i, S⟩ ⟨u, start, i + 1, S⟩ ∧ (s.Aligned u → s.Starts u start) := by
  obtain ⟨q, hq⟩ := hedge.exists_edgeAt
  have hless : singleWildcard < c := singleWildcard_lt (fun hlt => hseen ⟨hlt, u, hedge⟩) hliteral.1
  obtain ⟨start', hleads, hstart⟩ := @Leads.descend _ strict _ h _ _ _ _ _ S hc hliteral hq
  have hpq := hpast.le_of_lt q c u hq hless
  refine ⟨start', (Leads.pass h hblock hc hpast.start_le hpq (hq.in_block hblock).2.le ?_).trans hleads,
    hstart⟩
  intro r hr hrq b w hb
  refine ⟨?_, hpast.no_star r b w hb hr, ?_⟩
  · rintro rfl
    exact hplus w hb.edge
  · rintro rfl
    exact UInt8.lt_irrefl _ (hb.label_lt h hq hrq)

theorem PastStar.end (hpast : PastStar s v start stop p) (hblock : Block s v start stop) (hc : key[i]? = some c)
    (hplus : ∀ u, ¬s.Edge v complexWildcard u) (hletter : Literal c → ∀ u, ¬s.Edge v c u) :
    Leads strict s key ⟨v, p, i, S⟩ ⟨v, stop, i, S⟩ := by
  refine Leads.pass h hblock hc hpast.start_le hpast.le_stop (le_refl stop) ?_
  intro r hr _ b w hb
  have hne := hpast.no_star r b w hb hr
  have hne' : b ≠ complexWildcard := by
    rintro rfl
    exact hplus w hb.edge
  refine ⟨hne', hne, ?_⟩
  rintro rfl
  exact hletter ⟨hne, hne'⟩ w hb.edge

theorem Leads.shadowed (hblock : Block s v start stop) (hc : key[i]? = some c) (hless : c < singleWildcard) {u : Nat}
    (hedge : s.Edge v c u) :
    ∃ start', Leads strict s key ⟨v, start, i, S⟩ ⟨u, start', i + 1, S⟩ ∧ (s.Aligned u → s.Starts u start') := by
  obtain ⟨q, hq⟩ := hedge.exists_edgeAt
  obtain ⟨start', hleads, hstart⟩ := @Leads.descend _ strict _ h _ _ _ _ _ S hc (literal_of_lt hless) hq
  obtain ⟨hle, hlt⟩ := hq.in_block hblock
  refine ⟨start', (Leads.pass h hblock hc (le_refl start) hle hlt.le ?_).trans hleads, hstart⟩
  intro r _ hrq b w hb
  have hb' := hb.label_lt h hq hrq
  refine ⟨?_, ?_, ?_⟩
  · rintro rfl
    exact absurd (UInt8.lt_trans hb' hless) (by decide)
  · rintro rfl
    exact absurd hless (UInt8.lt_asymm hb')
  · rintro rfl
    exact UInt8.lt_irrefl _ hb'

end Scan

/-! ### Back to a wildcard -/

theorem drop_length_takeWhile {α : Type} (q : α → Bool) (l : List α) :
    l.drop (l.takeWhile q).length = l.dropWhile q := by
  calc l.drop (l.takeWhile q).length
      = (l.takeWhile q ++ l.dropWhile q).drop (l.takeWhile q).length := by rw [List.takeWhile_append_dropWhile]
    _ = l.dropWhile q := List.drop_left

theorem drop_nextStep (key : List UInt8) (j : Nat) : key.drop (nextStep key j) = labelRest (key.drop j) := by
  rw [nextStep, ← List.drop_drop, drop_length_takeWhile, labelRest]

section Fails

variable {s : MrsDomainSet} {strict : Bool} {key : List UInt8} {st st' : Search} {S : List WildcardCursor}

/-- The search comes to the end of a node with the key not at its end: it goes back to what is on the stack. -/
def Fails (strict : Bool) (s : MrsDomainSet) (key : List UInt8) (st : Search) (S : List WildcardCursor) : Prop :=
  ∃ u e j c, key[j]? = some c ∧ s.bits[e]? = some true ∧ Leads strict s key st ⟨u, e, j, S⟩

theorem Fails.of_leads (hleads : Leads strict s key st st') (hfails : Fails strict s key st' S) :
    Fails strict s key st S := by
  obtain ⟨u, e, j, c, hc, hbit, hrest⟩ := hfails
  exact ⟨u, e, j, c, hc, hbit, hleads.trans hrest⟩

variable (h : s.WellFormed)

include h

theorem Fails.nil (hfails : Fails strict s key st []) : Returns (searchRound strict s key) st false := by
  obtain ⟨u, e, j, c, hc, hbit, hleads⟩ := hfails
  refine (hleads false).2 ((returns_of_stop ?_).2 rfl)
  rw [searchRound_end h hc hbit]
  rfl

variable {q i v x : Nat} (hedge : s.EdgeAt q v singleWildcard x)

include hedge

theorem Fails.last (hfails : Fails strict s key st (⟨q, i⟩ :: S)) (hi : i ≤ key.length)
    (hlabel : labelRest (key.drop i) = []) :
    if getBit s.leaves x = true then Returns (searchRound strict s key) st true else Fails strict s key st S := by
  obtain ⟨u, e, j, c, hc, hbit, hleads⟩ := hfails
  obtain ⟨start, hchild, -⟩ := h.childOf_edge strict hedge
  have hx := (h.tree.child_lt hedge.1).2
  have hend : nextStep key i = key.length := by
    have hle := (nextStep_spec key hi).2.1
    rw [← drop_nextStep, List.drop_eq_nil_iff] at hlabel
    exact Nat.le_antisymm hle hlabel
  have hround : searchRound strict s key ⟨u, e, j, ⟨q, i⟩ :: S⟩ =
      some (if getBit s.leaves x = true then .stop true else .again ⟨u, e, j, S⟩) := by
    rw [searchRound_end h hc hbit, backtrack]
    dsimp only
    rw [hchild, Option.bind_some]
    dsimp only
    rw [if_pos hend, h.readBit_leaves strict hx, Option.map_some]
  split_ifs at hround ⊢ with hleaf
  · exact (hleads true).2 ((returns_of_stop hround).2 rfl)
  · exact ⟨u, e, j, c, hc, hbit, hleads.trans (.of_round hround)⟩

/-- The wildcard takes a label, and the search goes on behind it. -/
theorem Fails.label (hfails : Fails strict s key st (⟨q, i⟩ :: S)) {rest : List UInt8}
    (hlabel : labelRest (key.drop i) = domainStep :: rest) (haligned : s.Aligned x) :
    (∀ y, s.Edge x domainStep y → ∃ start j, Leads strict s key st ⟨y, start, j, S⟩ ∧ key.drop j = rest ∧
      (s.Aligned y → s.Starts y start)) ∧
      ((∀ y, ¬s.Edge x domainStep y) → Fails strict s key st S) := by
  obtain ⟨u, e, j, c, hc, hbit, hleads⟩ := hfails
  obtain ⟨start, hchild, hstart⟩ := h.childOf_edge strict hedge
  obtain ⟨stop, hblock⟩ := h.block (h.tree.child_lt hedge.1).2 (hstart.2 haligned)
  obtain ⟨found, hfound, hspec⟩ := findStep_cases h x start
  rw [← drop_nextStep] at hlabel
  have hne : nextStep key i ≠ key.length := by
    intro heq
    rw [heq, List.drop_length] at hlabel
    cases hlabel
  have hround : searchRound strict s key ⟨u, e, j, ⟨q, i⟩ :: S⟩ =
      some (match found with
        | none => .again ⟨u, e, j, S⟩
        | some bmIdx => .again ⟨x, bmIdx, nextStep key i, S⟩) := by
    rw [searchRound_end h hc hbit, backtrack]
    dsimp only
    rw [hchild, Option.bind_some]
    dsimp only
    rw [if_neg hne, hfound, Option.map_some]
    cases found <;> rfl
  cases found with
  | none =>
    refine ⟨fun y hy => ?_, fun _ => ⟨u, e, j, c, hc, hbit, hleads.trans (.of_round hround)⟩⟩
    -- every bit from the start of the node to the edge is an edge of it
    obtain ⟨p, hp⟩ := hy.exists_edgeAt
    obtain ⟨hle, hlt⟩ := hp.in_block hblock
    refine absurd hp.label_eq (hspec.none_spec rfl p hle fun r hr hrp => ?_)
    obtain ⟨hrbit, hones⟩ := hblock.inside r hr (by omega)
    obtain ⟨b, hb⟩ := h.edgeAt hrbit
    rw [hones] at hb
    exact ⟨hrbit, hb.node_le, (List.getElem?_eq_some_iff.1 hb.label_eq).1⟩
  | some p =>
    obtain ⟨hle, hpbit, hxp, hplabel⟩ := hspec.some_spec p rfl
    have hlt : p < stop := by
      by_contra hge
      have hbit := hspec.run p rfl stop hblock.le (Nat.le_of_not_lt hge)
      rw [hblock.stop_one] at hbit
      cases hbit
    obtain ⟨b, hb⟩ := h.edgeAt hpbit
    rw [(hblock.inside p hle hlt).2] at hb
    rw [hb.label_eq] at hplabel
    cases hplabel
    have hcons : key[nextStep key i]? = some domainStep := by
      rw [← Nat.add_zero (nextStep key i), ← List.getElem?_drop, hlabel]
      rfl
    have hdrop : key.drop (nextStep key i + 1) = rest := by
      rw [← List.drop_drop, hlabel]
      rfl
    refine ⟨fun y hy => ?_, fun hnone => absurd hb.edge (hnone _)⟩
    obtain rfl := h.deterministic _ _ _ _ hb.edge hy
    obtain ⟨start', hdescend, hstart'⟩ := @Leads.descend _ strict _ h _ _ _ _ _ S hcons (by decide) hb
    exact ⟨start', _, (hleads.trans (.of_round hround)).trans hdescend, hdrop, hstart'⟩

end Fails

/-! ### The answer -/

section Outcome

variable {s : MrsDomainSet} {strict : Bool} {key k k' : List UInt8} {st st' : Search} {v u x : Nat} {c : UInt8}

/-- What becomes of the search from node `v` on, with `k` left of the key. -/
structure Outcome (strict : Bool) (s : MrsDomainSet) (key : List UInt8) (st : Search) (v : Nat) (k : List UInt8) :
    Prop where
  clear : s.Clear v k → Returns (searchRound strict s key) st true
  dead : ¬s.Clear v k → s.DeadEnd v k → Returns (searchRound strict s key) st false
  back : ¬s.Clear v k → ¬s.DeadEnd v k → Fails strict s key st st.stack

namespace Outcome

theorem of_clear (hclear : s.Clear v k) (hreturns : Returns (searchRound strict s key) st true) :
    Outcome strict s key st v k where
  clear _ := hreturns
  dead hnot := absurd hclear hnot
  back hnot := absurd hclear hnot

theorem of_dead (hclear : ¬s.Clear v k) (hdead : s.DeadEnd v k)
    (hreturns : Returns (searchRound strict s key) st false) : Outcome strict s key st v k where
  clear h := absurd h hclear
  dead _ _ := hreturns
  back _ hnot := absurd hdead hnot

theorem of_back (hclear : ¬s.Clear v k) (hdead : ¬s.DeadEnd v k) (hfails : Fails strict s key st st.stack) :
    Outcome strict s key st v k where
  clear h := absurd h hclear
  dead _ h := absurd h hdead
  back _ _ := hfails

theorem of_leads (hleads : Leads strict s key st st') (hstack : st'.stack = st.stack)
    (hclear : s.Clear v k ↔ s.Clear u k') (hdead : s.DeadEnd v k ↔ s.DeadEnd u k')
    (h : Outcome strict s key st' u k') : Outcome strict s key st v k where
  clear hv := (hleads true).2 (h.clear (hclear.1 hv))
  dead hnot hv := (hleads false).2 (h.dead (fun hu => hnot (hclear.2 hu)) (hdead.1 hv))
  back hnot hnot' := by
    rw [← hstack]
    exact .of_leads hleads (h.back (fun hu => hnot (hclear.2 hu)) fun hu => hnot' (hdead.2 hu))

end Outcome

variable (h : s.WellFormed)

include h

theorem clear_cons_of_shadowed (hless : c < singleWildcard) (hliteral : Literal c) (hu : s.Edge v c u) :
    (s.Clear v (c :: k) ↔ s.Clear u k) ∧ (s.DeadEnd v (c :: k) ↔ s.DeadEnd u k) := by
  have hshadowed : s.Shadowed v c := ⟨hless, u, hu⟩
  have hunique (w : Nat) (hw : s.Edge v c w) : w = u := h.deterministic _ _ _ _ hw hu
  constructor
  · rw [MrsDomainSet.clear_cons_iff]
    constructor
    · rintro (⟨hseen, -⟩ | ⟨-, w, hw, hclear⟩ | ⟨hseen, -⟩)
      · exact absurd hshadowed hseen
      · rwa [← hunique w hw]
      · exact absurd hshadowed hseen
    · exact fun hclear => .inr (.inl ⟨hliteral, u, hu, hclear⟩)
  · rw [MrsDomainSet.deadEnd_cons_iff]
    constructor
    · rintro (⟨-, w, hw, hdead⟩ | ⟨hseen, -⟩)
      · rwa [← hunique w hw]
      · exact absurd hshadowed hseen
    · exact fun hdead => .inl ⟨hliteral, u, hu, hdead⟩

theorem clear_cons_of_wildcard (hseen : ¬s.Shadowed v c) (hcomplex : ¬s.Complex v c)
    (hclear : ¬s.LetterClear v c k) (hdead : ¬s.LetterDead v c k) (hx : s.Edge v singleWildcard x) :
    (s.Clear v (c :: k) ↔ labelRest (c :: k) = [] ∧ getBit s.leaves x = true ∨
        ∃ rest y, labelRest (c :: k) = domainStep :: rest ∧ s.Edge x domainStep y ∧ s.Clear y rest) ∧
      (s.DeadEnd v (c :: k) ↔
        ∃ rest y, labelRest (c :: k) = domainStep :: rest ∧ s.Edge x domainStep y ∧ s.DeadEnd y rest) := by
  have hunique (w : Nat) (hw : s.Edge v singleWildcard w) : w = x := h.deterministic _ _ _ _ hw hx
  constructor
  · rw [MrsDomainSet.clear_cons_iff]
    constructor
    · rintro (hcomplex' | hclear' | ⟨-, -, w, hw, hrest⟩)
      · exact absurd hcomplex' hcomplex
      · exact absurd hclear' hclear
      · rwa [hunique w hw] at hrest
    · exact fun hrest => .inr (.inr ⟨hseen, hdead, x, hx, hrest⟩)
  · rw [MrsDomainSet.deadEnd_cons_iff]
    constructor
    · rintro (hdead' | ⟨-, w, rest, y, hw, hlabel, hy, hrest⟩)
      · exact absurd hdead' hdead
      · rw [hunique w hw] at hy
        exact ⟨rest, y, hlabel, hy, hrest⟩
    · rintro ⟨rest, y, hlabel, hy, hrest⟩
      exact .inr ⟨hseen, x, rest, y, hx, hlabel, hy, hrest⟩

omit h in
theorem not_clear_cons (hcomplex : ¬s.Complex v c) (hclear : ¬s.LetterClear v c k) (hdead : ¬s.LetterDead v c k)
    (hnone : ∀ x, ¬s.Edge v singleWildcard x) : ¬s.Clear v (c :: k) ∧ ¬s.DeadEnd v (c :: k) := by
  rw [MrsDomainSet.clear_cons_iff, MrsDomainSet.deadEnd_cons_iff]
  constructor
  · rintro (hcomplex' | hclear' | ⟨-, -, x, hx, -⟩)
    · exact hcomplex hcomplex'
    · exact hclear hclear'
    · exact hnone x hx
  · rintro (hdead' | ⟨-, x, -, -, hx, -⟩)
    · exact hdead hdead'
    · exact hnone x hx

theorem outcome_nil {p i : Nat} {S : List WildcardCursor} (hv : v < s.nodeCount) (hi : key.drop i = []) :
    Outcome strict s key ⟨v, p, i, S⟩ v [] := by
  have hround : searchRound strict s key ⟨v, p, i, S⟩ = some (.stop (getBit s.leaves v)) := by
    rw [List.drop_eq_nil_iff] at hi
    unfold searchRound
    dsimp only
    rw [List.getElem?_eq_none hi]
    dsimp only
    rw [h.readBit_leaves strict hv, Option.map_some]
  cases hleaf : getBit s.leaves v with
  | true => exact .of_clear (.here hleaf) ((returns_of_stop hround).2 hleaf.symm)
  | false =>
    refine .of_dead ?_ (.here hleaf) ((returns_of_stop hround).2 hleaf.symm)
    rw [MrsDomainSet.clear_nil_iff, hleaf]
    exact Bool.false_ne_true

/-- The search is back at an edge `*` of the node. -/
theorem outcome_of_wildcard {q i : Nat} (hk : key.drop i = c :: k) (hseen : ¬s.Shadowed v c) (hcomplex : ¬s.Complex v c)
    (hclear : ¬s.LetterClear v c k) (hdead : ¬s.LetterDead v c k) (hq : s.EdgeAt q v singleWildcard x)
    (hfails : Fails strict s key st (⟨q, i⟩ :: st.stack))
    (haligned : ∀ rest, labelRest (c :: k) = domainStep :: rest → s.Aligned x)
    (hbehind : ∀ rest y start j, labelRest (c :: k) = domainStep :: rest → s.Edge x domainStep y →
      key.drop j = rest → (s.Aligned y → s.Starts y start) → Outcome strict s key ⟨y, start, j, st.stack⟩ y rest) :
    Outcome strict s key st v (c :: k) := by
  obtain ⟨hclearIff, hdeadIff⟩ := clear_cons_of_wildcard h hseen hcomplex hclear hdead hq.edge
  cases hrest : labelRest (c :: k) with
  | nil =>
    have hi : i ≤ key.length := by
      by_contra hgt
      rw [List.drop_eq_nil_of_le (by omega)] at hk
      cases hk
    have hlast := hfails.last h hq hi (by rw [hk, hrest])
    have hnot : ¬s.DeadEnd v (c :: k) := by
      rw [hdeadIff, hrest]
      rintro ⟨rest, y, hcons, -⟩
      cases hcons
    split_ifs at hlast with hleaf
    · exact .of_clear (hclearIff.2 (.inl ⟨hrest, hleaf⟩)) hlast
    · refine .of_back ?_ hnot hlast
      rw [hclearIff, hrest]
      rintro (⟨-, hleaf'⟩ | ⟨rest, y, hcons, -⟩)
      · exact hleaf hleaf'
      · cases hcons
  | cons b rest =>
    obtain rfl : b = domainStep := head_labelRest hrest
    obtain ⟨hstep, hno⟩ := hfails.label h hq (by rw [hk, hrest]) (haligned rest hrest)
    by_cases hy : ∃ y, s.Edge x domainStep y
    · obtain ⟨y, hy⟩ := hy
      obtain ⟨start', j, hleads, hj, hstart'⟩ := hstep y hy
      have hunique (z : Nat) (hz : s.Edge x domainStep z) : z = y := h.deterministic _ _ _ _ hz hy
      refine .of_leads hleads rfl (hclearIff.trans ?_) (hdeadIff.trans ?_) (hbehind rest y start' j hrest hy hj hstart')
      · rw [hrest]
        constructor
        · rintro (⟨hnil, -⟩ | ⟨rest', z, hcons, hz, hclear'⟩)
          · cases hnil
          · cases hcons
            rwa [← hunique z hz]
        · exact fun hclear' => .inr ⟨rest, y, rfl, hy, hclear'⟩
      · rw [hrest]
        constructor
        · rintro ⟨rest', z, hcons, hz, hdead'⟩
          cases hcons
          rwa [← hunique z hz]
        · exact fun hdead' => ⟨rest, y, rfl, hy, hdead'⟩
    · push Not at hy
      refine .of_back ?_ ?_ (hno hy)
      · rw [hclearIff, hrest]
        rintro (⟨hnil, -⟩ | ⟨rest', z, -, hz, -⟩)
        · cases hnil
        · exact hy z hz
      · rw [hdeadIff]
        rintro ⟨rest', z, -, hz, -⟩
        exact hy z hz

/-- **From every node the search does what the ways from there say**, by induction on what is left of the key. -/
theorem search_outcome {p i : Nat} {S : List WildcardCursor} (hv : v < s.nodeCount) (hk : key.drop i = k)
    (haligned : s.AlignedSearch v k) (hstart : s.Aligned v → s.Starts v p) :
    Outcome strict s key ⟨v, p, i, S⟩ v k := by
  generalize hn : k.length = n
  induction n using Nat.strongRecOn generalizing v k p i S with
  | _ n ih =>
    cases haligned with
    | nil => exact outcome_nil h hv hk
    | @cons _ c k here letter wildcard behind =>
      have hc : key[i]? = some c := by
        rw [← Nat.add_zero i, ← List.getElem?_drop, hk]
        rfl
      have hdrop : key.drop (i + 1) = k := by
        rw [← List.drop_drop, hk]
        rfl
      have hi : i ≤ key.length := (List.getElem?_eq_some_iff.1 hc).1.le
      have hnext {u p : Nat} {S : List WildcardCursor} (hcomplex : ¬s.Complex v c) (hliteral : Literal c)
          (hu : s.Edge v c u) (hp : s.Aligned u → s.Starts u p) : Outcome strict s key ⟨u, p, i + 1, S⟩ u k :=
        ih k.length (by rw [← hn, List.length_cons]; exact Nat.lt_succ_self _) (hu.lt h) hdrop
          (letter hcomplex hliteral u hu) hp rfl
      obtain ⟨stop, hblock⟩ := h.block hv (hstart here)
      by_cases hshadowed : s.Shadowed v c
      · obtain ⟨hless, u, hu⟩ := hshadowed
        have hcomplex : ¬s.Complex v c := fun hcomplex => hcomplex.1 ⟨hless, u, hu⟩
        have hliteral : Literal c := literal_of_lt hless
        obtain ⟨start', hleads, hstart'⟩ := @Leads.shadowed _ strict _ h _ _ _ _ _ S hblock hc hless _ hu
        obtain ⟨hclear, hdead⟩ := clear_cons_of_shadowed (k := k) h hless hliteral hu
        exact .of_leads hleads rfl hclear hdead (hnext hcomplex hliteral hu hstart')
      obtain ⟨p', S', hleads, hpast, hstack⟩ := @exists_pastStar _ strict _ h _ _ _ _ _ S hblock hc hshadowed
      by_cases hcomplex : s.Complex v c
      · exact .of_clear (.remaining hcomplex) ((hleads true).2 (hpast.complex h hblock hc hcomplex))
      have hplus (u : Nat) (hu : s.Edge v complexWildcard u) : False := hcomplex ⟨hshadowed, u, hu⟩
      have hletter {u : Nat} (hliteral : Literal c) (hu : s.Edge v c u) :
          ∃ st', Leads strict s key ⟨v, p, i, S⟩ st' ∧ st'.stack = S' ∧ Outcome strict s key st' u k := by
        obtain ⟨start', hleads', hstart'⟩ :=
          @PastStar.letter _ strict _ h _ _ _ _ _ _ S' hpast hblock hc hshadowed hplus hliteral _ hu
        exact ⟨_, hleads.trans hleads', rfl, hnext hcomplex hliteral hu hstart'⟩
      by_cases hclear : s.LetterClear v c k
      · obtain ⟨hliteral, u, hu, hclear⟩ := hclear
        obtain ⟨st', hleads', -, houtcome⟩ := hletter hliteral hu
        exact .of_clear (.letter hliteral hu hclear) ((hleads' true).2 (houtcome.clear hclear))
      by_cases hdead : s.LetterDead v c k
      · have hnot : ¬s.Clear v (c :: k) := by
          rw [MrsDomainSet.clear_cons_iff]
          rintro (hcomplex' | hclear' | ⟨-, halive, -⟩)
          · exact hcomplex hcomplex'
          · exact hclear hclear'
          · exact halive hdead
        obtain ⟨hliteral, u, hu, hdead⟩ := hdead
        obtain ⟨st', hleads', -, houtcome⟩ := hletter hliteral hu
        refine .of_dead hnot (.letter hliteral hu hdead) ((hleads' false).2 (houtcome.dead ?_ hdead))
        exact fun hu' => hclear ⟨hliteral, u, hu, hu'⟩
      -- the letters of the key lead nowhere: the search is back at the stack
      have hfails : Fails strict s key ⟨v, p, i, S⟩ S' := by
        by_cases hedge : Literal c ∧ ∃ u, s.Edge v c u
        · obtain ⟨hliteral, u, hu⟩ := hedge
          obtain ⟨st', hleads', rfl, houtcome⟩ := hletter hliteral hu
          exact .of_leads hleads' (houtcome.back (fun h => hclear ⟨hliteral, u, hu, h⟩)
            fun h => hdead ⟨hliteral, u, hu, h⟩)
        · refine ⟨v, stop, i, c, hc, hblock.stop_one, hleads.trans (hpast.end h hblock hc hplus ?_)⟩
          exact fun hliteral u hu => hedge ⟨hliteral, u, hu⟩
      rcases hstack with ⟨rfl, hnone⟩ | ⟨q, x, hq, rfl⟩
      · obtain ⟨hclear, hdead⟩ := not_clear_cons hcomplex hclear hdead hnone
        exact .of_back hclear hdead hfails
      have halive (hliteral : Literal c) (u : Nat) (hu : s.Edge v c u) : ¬s.Clear u k ∧ ¬s.DeadEnd u k :=
        ⟨fun h => hclear ⟨hliteral, u, hu, h⟩, fun h => hdead ⟨hliteral, u, hu, h⟩⟩
      refine @outcome_of_wildcard _ _ _ _ ⟨v, p, i, S⟩ _ _ _ h _ _ hk hshadowed hcomplex hclear hdead hq hfails
        (fun rest => wildcard hshadowed hcomplex halive x rest hq.edge) ?_
      intro rest y start' j hrest hy hj hstart'
      have hlength : rest.length < n := by
        have := (List.dropWhile_suffix (p := (· != domainStep)) (l := c :: k)).length_le
        rw [← labelRest, hrest, hn, List.length_cons] at this
        exact this
      exact ih rest.length hlength (hy.lt h) hj (behind hshadowed hcomplex halive x y rest hq.edge hrest hy) hstart' rfl

end Outcome

theorem has_iff_clear {s : MrsDomainSet} (h : s.WellFormed) (strict : Bool) (lower : Char → Char) (key : Str)
    (haligned : s.AlignedSearch 0 (searchKey lower key)) :
    Has strict lower s key true ↔ s.Clear 0 (searchKey lower key) := by
  unfold Has
  by_cases hempty : searchKey lower key = []
  · rw [if_pos hempty, hempty, MrsDomainSet.clear_nil_iff, h.root]
    exact eq_comm
  rw [if_neg hempty]
  have hpos : 0 < s.nodeCount := by
    have := h.nodeCount_eq
    omega
  have houtcome : Outcome strict s (searchKey lower key) .start 0 (searchKey lower key) :=
    search_outcome h hpos List.drop_zero haligned fun _ => .inl ⟨rfl, rfl⟩
  refine ⟨fun htrue => ?_, houtcome.clear⟩
  by_contra hclear
  have hfalse : Returns (searchRound strict s (searchKey lower key)) .start false := by
    by_cases hdead : s.DeadEnd 0 (searchKey lower key)
    · exact houtcome.dead hclear hdead
    · exact (houtcome.back hclear hdead).nil h
  exact Bool.false_ne_true (hfalse.unique htrue)

/-- **`has` finds out whether a word matches if, and only if, a word that matches is not missed**, where the search goes
through aligned nodes. -/
theorem has_iff_words {r : List UInt8} {s : MrsDomainSet} (h : MrsDomainSet.read r = some (.ok s)) (strict : Bool)
    (lower : Char → Char) (key : Str) (haligned : s.AlignedSearch 0 (searchKey lower key)) :
    (Has strict lower s key true ↔ ∃ w, s.Word w ∧ WordMatches w (searchKey lower key)) ↔
      ((∃ w, s.Word w ∧ WordMatches w (searchKey lower key)) → s.Clear 0 (searchKey lower key)) := by
  have hwell := MrsDomainSet.read_wellFormed h
  have hhas := has_iff_clear hwell strict lower key haligned
  constructor
  · exact fun hiff hword => hhas.1 (hiff.2 hword)
  · intro himp
    constructor
    · exact fun htrue => MrsDomainSet.found_root.1 ((hhas.1 htrue).found hwell)
    · exact fun hword => hhas.2 (himp hword)

/-! ### Small sets -/

theorem MrsDomainSet.aligned_of_small {s : MrsDomainSet} (hsmall : s.nodeCount ≤ 65) {v : Nat} (hv : v < s.nodeCount) :
    s.Aligned v := by
  intro sample hone
  rw [Nat.div_eq_of_lt (by omega), Nat.mul_zero] at hone
  rw [skew, hone.2, Nat.zero_sub]

/-- **The search in a small set is aligned.** -/
theorem alignedSearch_of_small {s : MrsDomainSet} (h : s.WellFormed) (hsmall : s.nodeCount ≤ 65) {v : Nat}
    (hv : v < s.nodeCount) (key : List UInt8) : s.AlignedSearch v key := by
  generalize hn : key.length = n
  induction n using Nat.strongRecOn generalizing v key with
  | _ n ih =>
    cases key with
    | nil => exact .nil v
    | cons c key =>
      refine .cons (MrsDomainSet.aligned_of_small hsmall hv) ?_ ?_ ?_
      · intro _ _ u hu
        exact ih key.length (by rw [← hn, List.length_cons]; exact Nat.lt_succ_self _) (hu.lt h) key rfl
      · intro _ _ _ x _ hx _
        exact MrsDomainSet.aligned_of_small hsmall (hx.lt h)
      · intro _ _ _ x y rest _ hrest hy
        have hlength := (List.dropWhile_suffix (p := (· != domainStep)) (l := c :: key)).length_le
        rw [← labelRest, hrest, hn, List.length_cons] at hlength
        exact ih rest.length hlength (hy.lt h) rest rfl

/-! ### Two words -/

/-- The set of the rules `*.com` and `ba.com`. -/
def wildcardFile : List UInt8 :=
  [1] ++ [0, 0, 0, 0, 0, 0, 0, 1] ++ [0, 0, 0, 0, 0, 0, 0, 160] ++ [0, 0, 0, 0, 0, 0, 0, 1] ++
    [0, 0, 0, 0, 0, 0, 108, 170] ++ [0, 0, 0, 0, 0, 0, 0, 7] ++ [109, 111, 99, 46, 42, 97, 98]

def wildcardSet : MrsDomainSet where
  leaves := [160]
  labelBitmap := [27818]
  labels := [109, 111, 99, 46, 42, 97, 98]
  ranks := [0, 8]
  selects := [1]
  nodeCount := 8
  effectiveBitmapBits := 15

theorem read_wildcardSet : MrsDomainSet.read wildcardFile = some (.ok wildcardSet) := rfl

theorem has_iff_words_wildcardSet :
    (Has false id wildcardSet "a.com".toList true ↔
      ∃ w, wildcardSet.Word w ∧ WordMatches w (searchKey id "a.com".toList)) ↔
      ((∃ w, wildcardSet.Word w ∧ WordMatches w (searchKey id "a.com".toList)) →
        wildcardSet.Clear 0 (searchKey id "a.com".toList)) :=
  has_iff_words read_wildcardSet false id _
    (alignedSearch_of_small (MrsDomainSet.read_wellFormed read_wildcardSet) (by decide) (by decide) _)

/-- `a.com` is not found in a set with `*.com`, where another word begins with the letter of its label. -/
theorem has_misses_a_word :
    ¬∀ (r : List UInt8) (s : MrsDomainSet), MrsDomainSet.read r = some (.ok s) → ∀ (lower : Char → Char) (key : Str),
      (Has false lower s key true ↔ ∃ w, s.Word w ∧ WordMatches w (searchKey lower key)) := by
  intro hall
  have hkey : searchKey id "a.com".toList = [109, 111, 99, 46, 97] := by decide
  have hword : wildcardSet.Word [109, 111, 99, 46, 42] := by
    refine ⟨5, .cons (u := 1) ⟨0, ?_, rfl⟩ (.cons (u := 2) ⟨2, ?_, rfl⟩ (.cons (u := 3) ⟨4, ?_, rfl⟩
      (.cons (u := 4) ⟨6, ?_, rfl⟩ (.cons (u := 5) ⟨8, ?_, rfl⟩ (.nil 5))))), rfl⟩
    all_goals exact ⟨rfl, rfl, rfl⟩
  have hmatches : WordMatches [109, 111, 99, 46, 42] [109, 111, 99, 46, 97] :=
    .letter (by decide) (.letter (by decide) (.letter (by decide) (.letter (by decide)
      (.last (by decide) (List.cons_ne_nil _ _)))))
  have hfalse : Returns (searchRound false wildcardSet [109, 111, 99, 46, 97]) .start false := ⟨7, rfl⟩
  have htrue := (hall _ _ read_wildcardSet id "a.com".toList).2 ⟨_, hword, by rw [hkey]; exact hmatches⟩
  rw [Has, hkey, if_neg (List.cons_ne_nil _ _)] at htrue
  exact Bool.false_ne_true (hfalse.unique htrue)

end WutherCore.Ruleset.Mrs
