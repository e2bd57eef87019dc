import WutherCore.Ruleset.MrsDomain

/-!
# The search in MRS domain sets

`searchRound` is a round of the loop of `MrsDomainSet::has`: it looks at one bit of the bitmap, and goes on to
the next bit, into a child, or back to a wildcard that has been passed.  The rounds of the two outer loops of the
source are the same rounds here.

* `has_safe`: in a set that the reader accepts the search comes to an end, with no index out of range.
-/

namespace WutherCore.Ruleset.Mrs

open WutherCore.Text WutherCore.Data WutherCore.Data.Louds

/-! ### The search -/

def complexWildcard : UInt8 := byte '+'
def singleWildcard : UInt8 := byte '*'
def domainStep : UInt8 := byte '.'

/-- `WildcardCursor`. -/
structure WildcardCursor where
  bmIdx : Nat
  index : Nat

/-- The variables of `has`; the cursor that was pushed last comes first. -/
structure Search where
  nodeId : Nat
  bmIdx : Nat
  i : Nat
  stack : List WildcardCursor

/-- `count_zeros`. -/
def countZeros (strict : Bool) (s : MrsDomainSet) (i : Nat) : Option Nat :=
  (rank64 strict s.labelBitmap s.ranks i).map (i - ·)

/-- `select_ith_one`. -/
def selectIthOne (strict : Bool) (s : MrsDomainSet) (i : Nat) : Option Nat :=
  select32R64 strict s.labelBitmap s.selects s.ranks i

/-- The node behind an edge, and where its bits start. -/
def childOf (strict : Bool) (s : MrsDomainSet) (bmIdx : Nat) : Option (Option (Nat × Nat)) :=
  match Checked.add 31 bmIdx 1 with
  | none => some none
  | some afterEdge =>
      (countZeros strict s afterEdge).bind fun nodeId =>
        if nodeId = 0 ∨ nodeId ≥ s.nodeCount then some none
        else
          (selectIthOne strict s (nodeId - 1)).bind fun delimiter =>
            match Checked.add 31 delimiter 1 with
            | none => some none
            | some start => some (some (nodeId, start))

/-- The next `.` of the key, or its end. -/
def nextStep (key : List UInt8) (j : Nat) : Nat := j + ((key.drop j).takeWhile (· != domainStep)).length

/-- A round of the loop that looks for the edge `.` of a node. -/
def stepRound (strict : Bool) (s : MrsDomainSet) (nodeId bmIdx : Nat) : Option (Turn Nat (Option Nat)) :=
  if bmIdx ≥ s.effectiveBitmapBits then some (.stop none)
  else
    (readBit strict s.labelBitmap bmIdx).bind fun bit =>
      if bit = true then some (.stop none)
      -- a negative difference is a `usize` out of range
      else if bmIdx < nodeId then some (.stop none)
      else
        match s.labels[bmIdx - nodeId]? with
        | none => some (.stop none)
        | some label =>
            if label = domainStep then some (.stop (some bmIdx))
            else (Checked.add 31 bmIdx 1).map .again

/-- The edge `.` of a node whose bits start here. -/
def findStep (strict : Bool) (s : MrsDomainSet) (nodeId start : Nat) : Option (Option Nat) :=
  turns (stepRound strict s nodeId) (s.effectiveBitmapBits + 1) start

/-- Back to the wildcard that was passed last: the key goes on with its next label. -/
def backtrack (strict : Bool) (s : MrsDomainSet) (key : List UInt8) (st : Search) : Option (Turn Search Bool) :=
  match st.stack with
  | [] => some (.stop false)
  | cursor :: stack =>
      (childOf strict s cursor.bmIdx).bind fun
        | none => some (.stop false)
        | some (nodeId, start) =>
            let j := nextStep key cursor.index
            if j = key.length then
              (readBit strict s.leaves nodeId).map fun leaf =>
                if leaf = true then .stop true else .again { st with stack }
            else
              (findStep strict s nodeId start).map fun
                | none => .again { st with stack }
                | some bmIdx => .again { nodeId, bmIdx, i := j, stack }

/-- A round of the loops of `has`. -/
def searchRound (strict : Bool) (s : MrsDomainSet) (key : List UInt8) (st : Search) : Option (Turn Search Bool) :=
  match key[st.i]? with
  | none => (readBit strict s.leaves st.nodeId).map .stop
  | some c =>
      if st.bmIdx ≥ s.effectiveBitmapBits then some (.stop false)
      else
        (readBit strict s.labelBitmap st.bmIdx).bind fun bit =>
          if bit = true then backtrack strict s key st
          else if st.bmIdx < st.nodeId then some (.stop false)
          else
            match s.labels[st.bmIdx - st.nodeId]? with
            | none => some (.stop false)
            | some label =>
                if label = complexWildcard then some (.stop true)
                else if label = singleWildcard then
                  (Checked.add 31 st.bmIdx 1).map fun bmIdx =>
                    .again { st with bmIdx, stack := ⟨st.bmIdx, st.i⟩ :: st.stack }
                else if label = c then
                  (childOf strict s st.bmIdx).map fun
                    | none => .stop false
                    | some (nodeId, bmIdx) => .again { st with nodeId, bmIdx, i := st.i + 1 }
                else (Checked.add 31 st.bmIdx 1).map fun bmIdx => .again { st with bmIdx }

/-- The key as the trie has it: reversed by characters, and in lower case. -/
def searchKey (lower : Char → Char) (key : Str) : List UInt8 := utf8 (key.reverse.map lower)

/-- The root, at the start of the key. -/
def Search.start : Search := { nodeId := 0, bmIdx := 0, i := 0, stack := [] }

/-- `has` ends with this answer. -/
def Has (strict : Bool) (lower : Char → Char) (s : MrsDomainSet) (key : Str) (answer : Bool) : Prop :=
  if searchKey lower key = [] then answer = false
  else Returns (searchRound strict s (searchKey lower key)) .start answer

/-! ### The bits of the set -/

namespace MrsDomainSet

variable {s : MrsDomainSet}

theorem length_bits : s.bits.length = s.effectiveBitmapBits := by simp [bits]

theorem getElem?_bits {i : Nat} (hi : i < s.effectiveBitmapBits) :
    s.bits[i]? = some (getBit s.labelBitmap i) := by
  rw [bits, List.getElem?_map, List.getElem?_range hi]
  rfl

namespace WellFormed

variable (h : s.WellFormed)

include h

theorem bits_eq : s.bits = (bitsOf s.labelBitmap).take s.effectiveBitmapBits := by
  apply List.ext_getElem?
  intro i
  rw [List.getElem?_take, MrsDomainSet.bits, List.getElem?_map]
  split_ifs with hi
  · have hlen := h.bitmap_length
    rw [List.getElem?_range hi, getElem?_bitsOf_eq (by omega)]
    rfl
  · rw [List.getElem?_eq_none (by simpa using hi)]
    rfl

theorem ones_bits {p : Nat} (hp : p ≤ s.effectiveBitmapBits) : ones (bitsOf s.labelBitmap) p = ones s.bits p := by
  rw [h.bits_eq, ones_take hp]

theorem isOne_iff {i p : Nat} : IsOne (bitsOf s.labelBitmap) i p ↔ IsOne s.bits i p := by
  have hlen := h.bitmap_length
  constructor
  · intro hone
    have hlt := hone.lt_length
    rw [length_bitsOf] at hlt
    have hbit := hone.1
    rw [getElem?_bitsOf_eq hlt] at hbit
    have hp : p < s.effectiveBitmapBits := by
      by_contra hge
      rw [h.padding p (by omega)] at hbit
      cases hbit
    exact ⟨by rw [getElem?_bits hp, hbit], by rw [← h.ones_bits hp.le, hone.2]⟩
  · intro hone
    have hlt := hone.lt_length
    rw [length_bits] at hlt
    have hbit := hone.1
    rw [getElem?_bits hlt] at hbit
    exact ⟨by rw [getElem?_bitsOf_eq (by omega), hbit], by rw [h.ones_bits hlt.le, hone.2]⟩

theorem count_le : s.nodeCount ≤ (bitsOf s.labelBitmap).count true := by
  rw [← h.tree.count, h.bits_eq]
  exact (List.take_sublist _ _).count_le true

theorem effective_lt : s.effectiveBitmapBits < 2 ^ 31 := h.bitmap_length.trans_lt h.indexed.small

theorem readBit_bitmap (strict : Bool) {p : Nat} (hp : p < s.effectiveBitmapBits) :
    readBit strict s.labelBitmap p = some (getBit s.labelBitmap p) := readBit_eq (hp.trans_le h.bitmap_length)

theorem readBit_leaves (strict : Bool) {v : Nat} (hv : v < s.nodeCount) :
    readBit strict s.leaves v = some (getBit s.leaves v) := readBit_eq (hv.trans_le h.leaves_length)

end WellFormed

/-- Where the search lets the bits of node `v + 1` start: behind the end of an earlier node, as many back as the
word of the sample has ones before it. -/
def StartsAt (s : MrsDomainSet) (v start : Nat) : Prop :=
  ∃ sample q, IsOne s.bits (64 * (v / 64)) sample ∧ IsOne s.bits (v - skew s.bits sample) q ∧ start = q + 1

theorem StartsAt.unique {v a b : Nat} (ha : s.StartsAt v a) (hb : s.StartsAt v b) : a = b := by
  obtain ⟨sample, q, hsample, hq, rfl⟩ := ha
  obtain ⟨sample', q', hsample', hq', rfl⟩ := hb
  obtain rfl := hsample.unique hsample'
  rw [hq.unique hq']

/-- **The child behind an edge.** -/
theorem WellFormed.childOf_spec (h : s.WellFormed) (strict : Bool) {p : Nat} (hbit : s.bits[p]? = some false) :
    ∃ start, childOf strict s p = some (some (zeros s.bits p + 1, start)) ∧ s.StartsAt (zeros s.bits p) start := by
  have hp := (List.getElem?_eq_some_iff.1 hbit).1
  have hsum : ones s.bits p + zeros s.bits p = p := ones_add_zeros hp.le
  rw [length_bits] at hp
  have heffective := h.effective_lt
  have hlen := h.bitmap_length
  have hones := ones_succ_of_false hbit
  obtain ⟨-, hchild⟩ := h.tree.child_lt ⟨hbit, rfl, rfl⟩
  have hcount := h.count_le
  obtain ⟨sample, q, hsample, hq, hselect⟩ := select32R64_spec strict h.indexed.counted
    (i := zeros s.bits p) (by omega)
  rw [h.isOne_iff] at hsample hq
  have hslt := hsample.lt_length
  have hqlt := hq.lt_length
  rw [length_bits] at hslt hqlt
  rw [clamped, if_pos (by omega)] at hselect
  have hskew : skew (bitsOf s.labelBitmap) sample = skew s.bits sample := by
    rw [skew, skew, h.ones_bits hslt.le, h.ones_bits (by omega)]
  rw [hskew] at hq
  refine ⟨q + 1, ?_, sample, q, hsample, hq, rfl⟩
  have hzeros : p + 1 - ones (bitsOf s.labelBitmap) (p + 1) = zeros s.bits p + 1 := by
    rw [h.ones_bits (by omega), hones]
    omega
  unfold childOf
  rw [Checked.add_of_lt (by omega)]
  dsimp only
  rw [countZeros, rank64_eq h.indexed.counted (by omega), Option.map_some, Option.bind_some, hzeros, if_neg (by omega),
    Nat.add_sub_cancel, selectIthOne, hselect, Option.bind_some, Checked.add_of_lt (by omega)]

end MrsDomainSet

/-! ### A round of the search -/

section Round

variable {s : MrsDomainSet} {key : List UInt8} {st st' : Search}

theorem childOf_strict (h : s.WellFormed) {p : Nat} (hbit : s.bits[p]? = some false) :
    childOf true s p = childOf false s p := by
  obtain ⟨start, hstrict, hstart⟩ := h.childOf_spec true hbit
  obtain ⟨start', hsource, hstart'⟩ := h.childOf_spec false hbit
  rw [hstrict, hsource, hstart.unique hstart']

/-- What the search for the edge `.` finds: the first edge of this label in the run of edges that starts here. -/
structure StepFound (s : MrsDomainSet) (v start : Nat) (found : Option Nat) : Prop where
  some_spec : ∀ p, found = some p → start ≤ p ∧ s.bits[p]? = some false ∧ v ≤ p ∧
    s.labels[p - v]? = some domainStep
  run : ∀ p, found = some p → ∀ q, start ≤ q → q ≤ p → s.bits[q]? = some false
  none_spec : found = none → ∀ p, start ≤ p →
    (∀ q, start ≤ q → q ≤ p → s.bits[q]? = some false ∧ v ≤ q ∧ q - v < s.labels.length) →
    s.labels[p - v]? ≠ some domainStep

theorem StepFound.none_of {v p : Nat} (h : ¬(s.bits[p]? = some false ∧ v ≤ p ∧ p - v < s.labels.length)) :
    StepFound s v p none where
  some_spec := nofun
  run := nofun
  none_spec _ _ hq hall := absurd (hall p (le_refl p) hq) h

theorem findStep_spec (h : s.WellFormed) (strict : Bool) (v start : Nat) :
    ∃ found, findStep strict s v start = some found ∧ StepFound s v start found := by
  have hturns (rounds p : Nat) (hpos : 0 < rounds) (hrounds : s.effectiveBitmapBits < rounds + p) :
      ∃ found, turns (stepRound strict s v) rounds p = some found ∧ StepFound s v p found := by
    induction rounds generalizing p with
    | zero => exact absurd hpos (lt_irrefl 0)
    | succ rounds ih =>
      rw [turns, stepRound]
      by_cases hp : p ≥ s.effectiveBitmapBits
      · rw [if_pos hp]
        refine ⟨none, rfl, .none_of fun hin => ?_⟩
        rw [List.getElem?_eq_none (by rw [MrsDomainSet.length_bits]; exact hp)] at hin
        cases hin.1
      rw [if_neg hp, h.readBit_bitmap strict (by omega), Option.bind_some]
      have hbits := MrsDomainSet.getElem?_bits (s := s) (i := p) (by omega)
      cases hbit : getBit s.labelBitmap p with
      | true =>
        rw [hbit] at hbits
        rw [if_pos rfl]
        refine ⟨none, rfl, .none_of fun hin => ?_⟩
        rw [hbits] at hin
        cases hin.1
      | false =>
        rw [hbit] at hbits
        rw [if_neg Bool.false_ne_true]
        by_cases hv : p < v
        · rw [if_pos hv]
          exact ⟨none, rfl, .none_of fun hin => by omega⟩
        rw [if_neg hv]
        cases hlabel : s.labels[p - v]? with
        | none =>
          rw [List.getElem?_eq_none_iff] at hlabel
          exact ⟨none, rfl, .none_of fun hin => by omega⟩
        | some label =>
          dsimp only
          split_ifs with hstep
          · refine ⟨some p, rfl, ?_, ?_, fun h => (by cases h)⟩
            · rintro _ ⟨⟩
              exact ⟨le_refl p, hbits, by omega, hlabel.trans (congrArg some hstep)⟩
            · rintro _ ⟨⟩ q hle hge
              rwa [Nat.le_antisymm hge hle]
          · have hsmall := h.effective_lt
            rw [Checked.add_of_lt (by omega)]
            obtain ⟨found, hfound, hspec⟩ := ih (p + 1) (by omega) (by omega)
            refine ⟨found, hfound, ?_, ?_, ?_⟩
            · intro q hq
              obtain ⟨hle, hrest⟩ := hspec.some_spec q hq
              exact ⟨by omega, hrest⟩
            · intro q hq r hr hrq
              rcases Nat.eq_or_lt_of_le hr with rfl | hlt
              · exact hbits
              · exact hspec.run q hq r hlt hrq
            · intro hnone q hq hall
              rcases Nat.eq_or_lt_of_le hq with rfl | hlt
              · rw [hlabel]
                exact fun h => hstep (Option.some.inj h)
              · exact hspec.none_spec hnone q hlt fun r hr hr' => hall r (by omega) hr'
  exact hturns _ _ (Nat.succ_pos _) (by omega)

theorem findStep_strict (h : s.WellFormed) (v start : Nat) : findStep true s v start = findStep false s v start := by
  have hround : stepRound true s v = stepRound false s v := by
    funext p
    unfold stepRound
    by_cases hp : p ≥ s.effectiveBitmapBits
    · rw [if_pos hp, if_pos hp]
    · rw [h.readBit_bitmap true (by omega), h.readBit_bitmap false (by omega)]
  rw [findStep, hround, findStep]

/-- What holds of the variables of the search. -/
structure Search.Inv (s : MrsDomainSet) (key : List UInt8) (st : Search) : Prop where
  node : st.nodeId < s.nodeCount
  cursors : ∀ cursor ∈ st.stack, s.bits[cursor.bmIdx]? = some false ∧ cursor.index < key.length

/-- The search stands at an edge `.` and goes on with a `.`. -/
structure Search.AtStep (s : MrsDomainSet) (key : List UInt8) (st : Search) : Prop where
  bit : s.bits[st.bmIdx]? = some false
  node_le : st.nodeId ≤ st.bmIdx
  label : s.labels[st.bmIdx - st.nodeId]? = some domainStep
  here : key[st.i]? = some domainStep

/-- What a round may do, when it does not end the search. -/
inductive Progress (s : MrsDomainSet) (key : List UInt8) (st st' : Search) : Prop
  | pass (inside : st.i < key.length) (room : st.bmIdx < s.effectiveBitmapBits) (i_eq : st'.i = st.i)
      (bmIdx_eq : st'.bmIdx = st.bmIdx + 1) (stack_eq : st'.stack = st.stack)
  | wildcard (inside : st.i < key.length) (room : st.bmIdx < s.effectiveBitmapBits) (i_eq : st'.i = st.i)
      (bmIdx_eq : st'.bmIdx = st.bmIdx + 1) (stack_eq : st'.stack = ⟨st.bmIdx, st.i⟩ :: st.stack)
  | descend (inside : st.i < key.length) (i_eq : st'.i = st.i + 1) (stack_eq : st'.stack = st.stack)
  | fail (cursor : WildcardCursor) (stack_eq : st.stack = cursor :: st'.stack) (i_eq : st'.i = st.i)
      (bmIdx_eq : st'.bmIdx = st.bmIdx)
  | resume (cursor : WildcardCursor) (stack_eq : st.stack = cursor :: st'.stack) (le : cursor.index ≤ st'.i)
      (inside : st'.i < key.length) (atStep : st'.AtStep s key)

theorem takeWhile_length_spec {α : Type} (p : α → Bool) (l : List α) :
    (l.takeWhile p).length = l.length ∨ ∃ a, l[(l.takeWhile p).length]? = some a ∧ p a = false := by
  induction l with
  | nil => exact .inl rfl
  | cons a l ih =>
    cases ha : p a with
    | false =>
      rw [List.takeWhile_cons_of_neg (by rw [ha]; exact Bool.false_ne_true)]
      exact .inr ⟨a, rfl, ha⟩
    | true =>
      rw [List.takeWhile_cons_of_pos ha, List.length_cons, List.length_cons]
      rcases ih with hlen | ⟨b, hb, hpb⟩
      · exact .inl (congrArg (· + 1) hlen)
      · exact .inr ⟨b, hb, hpb⟩

theorem nextStep_spec (key : List UInt8) {j : Nat} (hj : j ≤ key.length) :
    j ≤ nextStep key j ∧ nextStep key j ≤ key.length ∧
      (nextStep key j = key.length ∨ key[nextStep key j]? = some domainStep) := by
  have hlen := (List.takeWhile_sublist (p := (· != domainStep)) (l := key.drop j)).length_le
  have hdrop : (key.drop j).length = key.length - j := List.length_drop
  have hspec := takeWhile_length_spec (· != domainStep) (key.drop j)
  unfold nextStep
  refine ⟨Nat.le_add_right _ _, by omega, ?_⟩
  rcases hspec with hall | ⟨a, ha, hstep⟩
  · left
    omega
  · right
    rw [List.getElem?_drop] at ha
    rw [ha, bne_eq_false_iff_eq.1 hstep]

theorem childOf_cases (h : s.WellFormed) {p : Nat} (hbit : s.bits[p]? = some false) :
    ∃ v start, v < s.nodeCount ∧ ∀ strict, childOf strict s p = some (some (v, start)) := by
  obtain ⟨start, hstart, -⟩ := h.childOf_spec true hbit
  refine ⟨_, start, (h.tree.child_lt ⟨hbit, rfl, rfl⟩).2, fun strict => ?_⟩
  cases strict with
  | true => exact hstart
  | false => rw [← childOf_strict h hbit, hstart]

theorem findStep_cases (h : s.WellFormed) (v start : Nat) :
    ∃ found, (∀ strict, findStep strict s v start = some found) ∧ StepFound s v start found := by
  obtain ⟨found, hfound, hspec⟩ := findStep_spec h true v start
  refine ⟨found, fun strict => ?_, hspec⟩
  cases strict with
  | true => exact hfound
  | false => rw [← findStep_strict h, hfound]

theorem backtrack_spec (h : s.WellFormed) (hst : st.Inv s key) :
    ∃ turn, (∀ strict, backtrack strict s key st = some turn) ∧
      ∀ st', turn = .again st' → st'.Inv s key ∧ Progress s key st st' := by
  unfold backtrack
  cases hstack : st.stack with
  | nil => exact ⟨_, fun _ => rfl, nofun⟩
  | cons cursor stack =>
    have hcursors := hst.cursors
    rw [hstack, List.forall_mem_cons] at hcursors
    obtain ⟨⟨hbit, hindex⟩, hrest⟩ := hcursors
    obtain ⟨v, start, hv, hchild⟩ := childOf_cases h hbit
    have hfail : ({ st with stack } : Search).Inv s key ∧ Progress s key st { st with stack } :=
      ⟨⟨hst.node, hrest⟩, .fail cursor hstack rfl rfl⟩
    obtain ⟨hle, hend, hstep⟩ := nextStep_spec key hindex.le
    simp only [hchild, Option.bind_some]
    by_cases hj : nextStep key cursor.index = key.length
    · simp only [if_pos hj, h.readBit_leaves _ hv, Option.map_some]
      refine ⟨_, fun _ => rfl, fun st' hst' => ?_⟩
      split_ifs at hst' with hleaf
      cases hst'
      exact hfail
    · obtain ⟨found, hfound, hspec⟩ := findStep_cases h v start
      simp only [if_neg hj, hfound, Option.map_some]
      refine ⟨_, fun _ => rfl, fun st' hst' => ?_⟩
      cases found with
      | none =>
        cases hst'
        exact hfail
      | some p =>
        cases hst'
        obtain ⟨-, hp, hvp, hlabel⟩ := hspec.some_spec p rfl
        have hlt : nextStep key cursor.index < key.length := by omega
        exact ⟨⟨hv, hrest⟩, .resume cursor hstack hle hlt ⟨hp, hvp, hlabel, hstep.resolve_left hj⟩⟩

/-- **A round reads only what is there, and gets on.** -/
theorem searchRound_spec (h : s.WellFormed) (hst : st.Inv s key) :
    ∃ turn, (∀ strict, searchRound strict s key st = some turn) ∧
      ∀ st', turn = .again st' → st'.Inv s key ∧ Progress s key st st' := by
  unfold searchRound
  cases hc : key[st.i]? with
  | none =>
    simp only [h.readBit_leaves _ hst.node, Option.map_some]
    exact ⟨_, fun _ => rfl, nofun⟩
  | some c =>
    have hi := (List.getElem?_eq_some_iff.1 hc).1
    dsimp only
    by_cases hroom : st.bmIdx ≥ s.effectiveBitmapBits
    · simp only [if_pos hroom]
      exact ⟨_, fun _ => rfl, nofun⟩
    have hbits := MrsDomainSet.getElem?_bits (s := s) (i := st.bmIdx) (by omega)
    have hread (strict : Bool) := h.readBit_bitmap strict (p := st.bmIdx) (by omega)
    have hadd : Checked.add 31 st.bmIdx 1 = some (st.bmIdx + 1) := by
      have := h.effective_lt
      exact Checked.add_of_lt (by omega)
    simp only [if_neg hroom, hread, Option.bind_some]
    cases hbit : getBit s.labelBitmap st.bmIdx with
    | true =>
      simp only [if_true]
      exact backtrack_spec h hst
    | false =>
      rw [hbit] at hbits
      simp only [Bool.false_eq_true, if_false]
      by_cases hnode : st.bmIdx < st.nodeId
      · simp only [if_pos hnode]
        exact ⟨_, fun _ => rfl, nofun⟩
      simp only [if_neg hnode]
      cases hlabel : s.labels[st.bmIdx - st.nodeId]? with
      | none => exact ⟨_, fun _ => rfl, nofun⟩
      | some label =>
        dsimp only
        split_ifs with hplus hstar hsame
        · exact ⟨_, fun _ => rfl, nofun⟩
        · rw [hadd]
          refine ⟨_, fun _ => rfl, fun st' hst' => ?_⟩
          cases hst'
          refine ⟨⟨hst.node, ?_⟩, .wildcard hi (by omega) rfl rfl rfl⟩
          rw [List.forall_mem_cons]
          exact ⟨⟨hbits, hi⟩, hst.cursors⟩
        · obtain ⟨v, start, hv, hchild⟩ := childOf_cases h hbits
          simp only [hchild, Option.map_some]
          refine ⟨_, fun _ => rfl, fun st' hst' => ?_⟩
          cases hst'
          exact ⟨⟨hv, hst.cursors⟩, .descend hi rfl rfl⟩
        · rw [hadd]
          refine ⟨_, fun _ => rfl, fun st' hst' => ?_⟩
          cases hst'
          exact ⟨⟨hst.node, hst.cursors⟩, .pass hi (by omega) rfl rfl rfl⟩

theorem Search.AtStep.round (h : s.WellFormed) (hat : st.AtStep s key) :
    ∃ turn, (∀ strict, searchRound strict s key st = some turn) ∧
      ∀ st', turn = .again st' → st'.i = st.i + 1 ∧ st'.stack = st.stack := by
  have hp := (List.getElem?_eq_some_iff.1 hat.bit).1
  rw [MrsDomainSet.length_bits] at hp
  have hbits := (MrsDomainSet.getElem?_bits hp).symm.trans hat.bit
  have hnode := hat.node_le
  obtain ⟨v, start, -, hchild⟩ := childOf_cases h hat.bit
  unfold searchRound
  rw [hat.here]
  simp only [if_neg (Nat.not_le.2 hp), h.readBit_bitmap _ hp, Option.bind_some, Option.some.inj hbits,
    if_neg Bool.false_ne_true, if_neg (Nat.not_lt.2 hnode), hat.label,
    if_neg (show domainStep ≠ complexWildcard by decide), if_neg (show domainStep ≠ singleWildcard by decide),
    if_true, hchild, Option.map_some]
  refine ⟨_, fun _ => rfl, fun st' hst' => ?_⟩
  cases hst'
  exact ⟨rfl, rfl⟩

end Round

/-! ### The search comes to an end -/

section Ends

variable {s : MrsDomainSet} {key : List UInt8} {st st' : Search}

/-- A bound on the rounds from a node on, with so many bytes of the key left. -/
def budget (room : Nat) : Nat → Nat
  | 0 => 0
  | left + 1 => room * (2 + budget room left) + budget room left + 1

/-- The rounds that a cursor on the stack may give. -/
def WildcardCursor.rounds (room length : Nat) (cursor : WildcardCursor) : Nat :=
  1 + budget room (length - cursor.index - 1)

/-- The rounds at the place of the search. -/
def Search.roundsHere (room length : Nat) (st : Search) : Nat :=
  if st.i < length then
    (room - st.bmIdx) * (2 + budget room (length - st.i - 1)) + budget room (length - st.i - 1) + 1
  else 0

/-- A bound on the rounds of a search. -/
def Search.rounds (room length : Nat) (st : Search) : Nat :=
  st.roundsHere room length + (st.stack.map (·.rounds room length)).sum

theorem budget_mono (room : Nat) {a b : Nat} (h : a ≤ b) : budget room a ≤ budget room b := by
  induction h with
  | refl => exact le_refl _
  | step _ ih =>
    rw [budget]
    omega

theorem Search.roundsHere_le (room length : Nat) (st : Search) :
    st.roundsHere room length ≤ budget room (length - st.i) := by
  unfold roundsHere
  split_ifs with hi
  · obtain ⟨left, hleft⟩ : ∃ left, length - st.i = left + 1 := ⟨length - st.i - 1, by omega⟩
    have hmul := Nat.mul_le_mul_right (2 + budget room left) (Nat.sub_le room st.bmIdx)
    rw [hleft, Nat.add_sub_cancel, budget]
    omega
  · exact Nat.zero_le _

/-- A round, or two where it goes back to a wildcard, lowers the bound. -/
theorem Progress.rounds_lt (h : Progress s key st st') :
    st'.rounds s.effectiveBitmapBits key.length < st.rounds s.effectiveBitmapBits key.length ∨
      st'.AtStep s key ∧ ∀ st'' : Search, st''.i = st'.i + 1 → st''.stack = st'.stack →
        st''.rounds s.effectiveBitmapBits key.length < st.rounds s.effectiveBitmapBits key.length := by
  generalize hroom : s.effectiveBitmapBits = room at *
  have hsum (cursor : WildcardCursor) (stack : List WildcardCursor) :
      ((cursor :: stack).map (·.rounds room key.length)).sum =
        cursor.rounds room key.length + (stack.map (·.rounds room key.length)).sum := by
    rw [List.map_cons, List.sum_cons]
  have hhere (inside : st.i < key.length) : st.roundsHere room key.length =
      (room - st.bmIdx) * (2 + budget room (key.length - st.i - 1)) + budget room (key.length - st.i - 1) + 1 :=
    if_pos inside
  unfold Search.rounds
  cases h with
  | pass inside space i_eq bmIdx_eq stack_eq =>
    left
    obtain ⟨k, hk⟩ : ∃ k, room - st.bmIdx = k + 1 := ⟨room - st.bmIdx - 1, by omega⟩
    rw [hhere inside, Search.roundsHere, if_pos (by omega), i_eq, bmIdx_eq, stack_eq, ← Nat.sub_sub, hk,
      Nat.add_sub_cancel, Nat.succ_mul]
    omega
  | wildcard inside space i_eq bmIdx_eq stack_eq =>
    left
    obtain ⟨k, hk⟩ : ∃ k, room - st.bmIdx = k + 1 := ⟨room - st.bmIdx - 1, by omega⟩
    rw [hhere inside, Search.roundsHere, if_pos (by omega), i_eq, bmIdx_eq, stack_eq, hsum, WildcardCursor.rounds,
      ← Nat.sub_sub, hk, Nat.add_sub_cancel, Nat.succ_mul]
    dsimp only
    omega
  | descend inside i_eq stack_eq =>
    left
    have hle := st'.roundsHere_le room key.length
    rw [i_eq, ← Nat.sub_sub] at hle
    rw [hhere inside, stack_eq]
    omega
  | fail cursor stack_eq i_eq bmIdx_eq =>
    left
    rw [stack_eq, hsum, WildcardCursor.rounds, Search.roundsHere, Search.roundsHere, i_eq, bmIdx_eq]
    omega
  | resume cursor stack_eq le inside atStep =>
    right
    refine ⟨atStep, fun st'' hi hstack => ?_⟩
    have hle := st''.roundsHere_le room key.length
    have hmono := budget_mono room (show key.length - st''.i ≤ key.length - cursor.index - 1 by omega)
    rw [stack_eq, hsum, WildcardCursor.rounds, hstack]
    omega

/-- **The search comes to an end, with every index in range.** -/
theorem search_ends (h : s.WellFormed) (hst : st.Inv s key) :
    ∃ answer, ∀ strict, Returns (searchRound strict s key) st answer := by
  generalize hn : st.rounds s.effectiveBitmapBits key.length = n
  induction n using Nat.strongRecOn generalizing st with
  | _ n ih =>
    obtain ⟨turn, hturn, hprogress⟩ := searchRound_spec h hst
    cases turn with
    | stop answer => exact ⟨answer, fun strict => (returns_of_stop (hturn strict)).2 rfl⟩
    | again st' =>
      obtain ⟨hst', hstep⟩ := hprogress st' rfl
      rcases hstep.rounds_lt with hlt | ⟨hat, hlt⟩
      · obtain ⟨answer, hanswer⟩ := ih _ (hn ▸ hlt) hst' rfl
        exact ⟨answer, fun strict => (returns_of_again (hturn strict)).2 (hanswer strict)⟩
      · obtain ⟨turn', hturn', hprogress'⟩ := searchRound_spec h hst'
        obtain ⟨turn'', hturn'', hdescend⟩ := hat.round h
        obtain rfl : turn' = turn'' := Option.some.inj ((hturn' true).symm.trans (hturn'' true))
        cases turn' with
        | stop answer =>
          refine ⟨answer, fun strict => (returns_of_again (hturn strict)).2 ?_⟩
          exact (returns_of_stop (hturn' strict)).2 rfl
        | again st'' =>
          obtain ⟨hi, hstack⟩ := hdescend st'' rfl
          obtain ⟨answer, hanswer⟩ := ih _ (hn ▸ hlt st'' hi hstack) (hprogress' st'' rfl).1 rfl
          refine ⟨answer, fun strict => (returns_of_again (hturn strict)).2 ?_⟩
          exact (returns_of_again (hturn' strict)).2 (hanswer strict)

end Ends

/-- **A set that the reader accepts is a tree, and every search in it comes to an end**, with no index out of range:
the answer is the same where such an index has no value. -/
theorem has_safe {r : List UInt8} {s : MrsDomainSet} (h : MrsDomainSet.read r = some (.ok s)) :
    s.WellFormed ∧
      (∀ c, 0 < c → c < s.nodeCount → ∃ v < c, ∃ b, s.Edge v b c ∧ ∀ u a, s.Edge u a c → u = v ∧ a = b) ∧
      (∀ v < s.nodeCount, ∃ w, Spells s.Edge 0 w v) ∧
      ∀ (lower : Char → Char) (key : Str), ∃ answer, ∀ strict, Has strict lower s key answer := by
  have hwell := MrsDomainSet.read_wellFormed h
  refine ⟨hwell, fun c hpos hc => hwell.parent hpos hc, fun v hv => hwell.exists_word hv, fun lower key => ?_⟩
  unfold Has
  by_cases hempty : searchKey lower key = []
  · exact ⟨false, fun _ => by rw [if_pos hempty]⟩
  · have hpos : 0 < s.nodeCount := by
      have := hwell.nodeCount_eq
      omega
    obtain ⟨answer, hanswer⟩ := search_ends hwell
      (show Search.Inv s (searchKey lower key) .start from ⟨hpos, nofun⟩)
    exact ⟨answer, fun strict => by rw [if_neg hempty]; exact hanswer strict⟩

/-- A set with the one word `a`. -/
def oneWordFile : List UInt8 :=
  [1] ++ [0, 0, 0, 0, 0, 0, 0, 1] ++ [0, 0, 0, 0, 0, 0, 0, 2] ++ [0, 0, 0, 0, 0, 0, 0, 1] ++
    [0, 0, 0, 0, 0, 0, 0, 6] ++ [0, 0, 0, 0, 0, 0, 0, 1] ++ [97]

def oneWord : MrsDomainSet where
  leaves := [2]
  labelBitmap := [6]
  labels := [97]
  ranks := [0, 2]
  selects := [1]
  nodeCount := 2
  effectiveBitmapBits := 3

theorem read_oneWord : MrsDomainSet.read oneWordFile = some (.ok oneWord) := rfl

theorem has_safe_oneWord :
    oneWord.WellFormed ∧ ∀ (lower : Char → Char) (key : Str), ∃ answer, ∀ strict, Has strict lower oneWord key answer :=
  have h := has_safe read_oneWord
  ⟨h.1, h.2.2.2⟩

end WutherCore.Ruleset.Mrs
