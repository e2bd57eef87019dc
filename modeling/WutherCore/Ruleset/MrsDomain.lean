import WutherCore.Data.Spells
import WutherCore.Ruleset.Mrs
import WutherCore.Ruleset.MrsBitmap

/-!
# The reader of MRS domain sets

The `domain` payload of a mihomo MRS file is a trie in succinct form: a bitmap with the children of all
nodes, level by level, one label for each child, and a bitmap of the terminal nodes.

* `validateSuccinctSet_wellFormed`: what is accepted is a tree, with the labels of siblings in order.
* `read_wellFormed`: the same of `read`, and the indexes for rank and select.
-/

namespace WutherCore.Ruleset.Mrs

open WutherCore.Text WutherCore.Data WutherCore.Data.Louds
open WutherCore.Ruleset.Srs (hasPadding)

/-- `MAX_DOMAIN_NODES`. -/
def maxDomainNodes : Nat := 8 * 1024 * 1024

/-- `MAX_DOMAIN_LEAF_WORDS`. -/
def maxDomainLeafWords : Nat := (maxDomainNodes + 63) / 64

/-- `MAX_DOMAIN_BITMAP_WORDS`. -/
def maxDomainBitmapWords : Nat := (2 * maxDomainNodes - 1 + 63) / 64

/-- `MrsDomainSet`. -/
structure MrsDomainSet where
  leaves : List UInt64
  labelBitmap : List UInt64
  labels : List UInt8
  ranks : List Nat
  selects : List Nat
  nodeCount : Nat
  effectiveBitmapBits : Nat

/-! ### Validation -/

/-- The variables of the loops of `validate_succinct_set`. -/
structure Scan where
  nodeIndex : Nat
  edgeIndex : Nat
  depths : List Nat
  parentDepth : Nat
  childCount : Nat
  previousLabel : Option UInt8

/-- The start of the loop over the bits of a node. -/
def Scan.enter (st : Scan) : Except ParseError Scan :=
  match st.depths[st.nodeIndex]? with
  | none => .error (mrsError "domain label bitmap references an unreachable node")
  | some parentDepth => .ok { st with parentDepth, childCount := 0, previousLabel := none }

/-- A bit of a child. -/
def Scan.child (labels : List UInt8) (st : Scan) : Except ParseError Scan :=
  match labels[st.edgeIndex]? with
  | none => .error (mrsError "domain label bitmap has more edges than labels")
  | some label =>
      if st.previousLabel.any (label ≤ ·) = true then
        .error (mrsError "domain sibling labels are not strictly increasing")
      else if st.parentDepth + 1 > maxDomainDepth then
        .error (mrsError s!"domain trie depth exceeds {maxDomainDepth}")
      else
        .ok { st with
          edgeIndex := st.edgeIndex + 1
          depths := st.depths ++ [st.parentDepth + 1]
          childCount := st.childCount + 1
          previousLabel := some label }

/-- The bit that ends a node. -/
def Scan.close (leaves : List UInt64) (st : Scan) : Except ParseError Scan :=
  if st.childCount = 0 ∧ getBit leaves st.nodeIndex = false then
    .error (mrsError "domain childless node is not terminal")
  else .ok { st with nodeIndex := st.nodeIndex + 1 }

/-- The loop over the nodes, within a node; the bits left. -/
def scanBits (leaves : List UInt64) (labels : List UInt8) : List Bool → Scan → Except ParseError (List Bool × Scan)
  | [], _ => .error (mrsError "domain label bitmap ended before node delimiter")
  | false :: bits, st => (st.child labels).bind fun st => scanBits leaves labels bits st
  | true :: bits, st =>
      (st.close leaves).bind fun st =>
        if st.nodeIndex = labels.length + 1 then .ok (bits, st)
        else st.enter.bind fun st => scanBits leaves labels bits st

/-- `validate_succinct_set`: the number of nodes and of bits. -/
def validateSuccinctSet (leaves labelBitmap : List UInt64) (labels : List UInt8) : Except ParseError (Nat × Nat) :=
  let nodeCount := labels.length + 1
  let effectiveBits := nodeCount * 2 - 1
  let expectedBitmapWords := (effectiveBits + 63) / 64
  if labelBitmap.length ≠ expectedBitmapWords then
    .error (mrsError s!"domain label bitmap word count {labelBitmap.length}, expected {expectedBitmapWords}")
  else if effectiveBits % 64 ≠ 0 ∧ hasPadding effectiveBits (labelBitmap.getLast?.getD 0) = true then
    .error (mrsError "domain label bitmap padding is non-zero")
  else
    let allowedLeafWords := (nodeCount + 63) / 64
    if leaves.length ≠ allowedLeafWords then
      .error (mrsError s!"domain leaves word count {leaves.length}, expected {allowedLeafWords}")
    else if nodeCount % 64 ≠ 0 ∧ hasPadding nodeCount (leaves.getLast?.getD 0) = true then
      .error (mrsError "domain leaves reference non-existent nodes")
    else if getBit leaves 0 = true then .error (mrsError "domain root cannot be terminal")
    else if getBit leaves (nodeCount - 1) = false then .error (mrsError "domain final node must be terminal")
    else
      (Scan.enter ⟨0, 0, [0], 0, 0, none⟩).bind fun st =>
        (scanBits leaves labels ((List.range effectiveBits).map (getBit labelBitmap)) st).bind fun (bits, st) =>
          if bits ≠ [] ∨ st.edgeIndex ≠ labels.length ∨ st.depths.length ≠ nodeCount then
            .error (mrsError "domain succinct set has unreferenced labels or bitmap bits")
          else .ok (nodeCount, effectiveBits)

/-! ### The reader -/

/-- `read_bounded_len`, of a length that is not zero. -/
def readBoundedLen (field : String) (maximum : Nat) (r : List UInt8) : Except ParseError (Nat × List UInt8) :=
  (readFull 8 r).bind fun (buf, r) =>
    let raw := ofBytesBE buf
    if 2 ^ 63 ≤ raw then .error (mrsError s!"{field} is negative")
    else if raw = 0 ∨ raw > maximum then
      .error (mrsError s!"{field} {raw} is outside allowed range {1}..={maximum}")
    else .ok (raw, r)

/-- `read_u64_vec_be`. -/
def readU64VecBE : Nat → List UInt8 → Except ParseError (List UInt64 × List UInt8)
  | 0, r => .ok ([], r)
  | n + 1, r =>
      (readFull 8 r).bind fun (buf, r) =>
        (readU64VecBE n r).map fun (out, r) => (UInt64.ofNat (ofBytesBE buf) :: out, r)

/-- `MrsDomainSet::read`. -/
def MrsDomainSet.read (r : List UInt8) : Option (Except ParseError MrsDomainSet) :=
  let lists : Except ParseError (List UInt64 × List UInt64 × List UInt8 × Nat × Nat) := do
    let (version, r) ← readFull 1 r
    if version ≠ [1] then
      .error (.unsupportedBinary "MRS domain_set version != 1（不兼容的 mihomo MRS 版本）")
    else do
      let (leavesLen, r) ← readBoundedLen "domain leaves_len" maxDomainLeafWords r
      let (leaves, r) ← readU64VecBE leavesLen r
      let (labelmapLen, r) ← readBoundedLen "domain labelmap_len" maxDomainBitmapWords r
      let (labelBitmap, r) ← readU64VecBE labelmapLen r
      let (labelsLen, r) ← readBoundedLen "domain labels_len" (maxDomainNodes - 1) r
      let (labels, _) ← readFull labelsLen r
      let (nodeCount, effectiveBitmapBits) ← validateSuccinctSet leaves labelBitmap labels
      return (leaves, labelBitmap, labels, nodeCount, effectiveBitmapBits)
  match lists with
  | .error e => some (.error e)
  | .ok (leaves, labelBitmap, labels, nodeCount, effectiveBitmapBits) =>
      (indexSelect32R64 false labelBitmap).map fun
        | .error message => .error (mrsError s!"domain bitmap index failed: {message}")
        | .ok (selects, ranks) =>
            .ok { leaves, labelBitmap, labels, ranks, selects, nodeCount, effectiveBitmapBits }

/-! ### What the validation checks -/

namespace Scan

variable {leaves : List UInt64} {labels : List UInt8} {bits : List Bool} {k : Nat} {st st' : Scan}

/-- What holds within a node, before bit `k`. -/
structure Inv (leaves : List UInt64) (labels : List UInt8) (bits : List Bool) (k : Nat) (st : Scan) : Prop where
  le : k ≤ bits.length
  node_eq : st.nodeIndex = ones bits k
  edge_eq : st.edgeIndex = zeros bits k
  depths_length : st.depths.length = st.edgeIndex + 1
  inside : st.nodeIndex ≤ st.edgeIndex
  edges_le : st.edgeIndex ≤ labels.length
  ordered : ∀ p < k, ones bits p ≤ zeros bits p
  sorted : ∀ p q a b, p < q → q < k → bits[p]? = some false → bits[q]? = some false →
    ones bits p = ones bits q → labels[zeros bits p]? = some a → labels[zeros bits q]? = some b → a < b
  previous : ∀ p a, p < k → bits[p]? = some false → ones bits p = ones bits k →
    labels[zeros bits p]? = some a → ∃ b, st.previousLabel = some b ∧ a ≤ b
  childless : (∀ p < k, bits[p]? = some false → ones bits p ≠ ones bits k) → st.childCount = 0
  terminal : ∀ v < ones bits k, (∀ p, bits[p]? = some false → ones bits p ≠ v) → getBit leaves v = true

theorem child_cases (h : st.child labels = .ok st') :
    ∃ label, labels[st.edgeIndex]? = some label ∧ (∀ b, st.previousLabel = some b → b < label) ∧
      st' = { st with
        edgeIndex := st.edgeIndex + 1
        depths := st.depths ++ [st.parentDepth + 1]
        childCount := st.childCount + 1
        previousLabel := some label } := by
  unfold child at h
  cases hlabel : labels[st.edgeIndex]? with
  | none =>
    rw [hlabel] at h
    cases h
  | some label =>
    rw [hlabel] at h
    dsimp only at h
    split_ifs at h with hprevious hdepth
    cases h
    refine ⟨label, rfl, fun b hb => ?_, rfl⟩
    rw [hb, Option.any_some, decide_eq_true_eq] at hprevious
    exact UInt8.not_le.1 hprevious

theorem close_cases (h : st.close leaves = .ok st') :
    (st.childCount = 0 → getBit leaves st.nodeIndex = true) ∧ st' = { st with nodeIndex := st.nodeIndex + 1 } := by
  unfold close at h
  split_ifs at h with hempty
  cases h
  refine ⟨fun hzero => ?_, rfl⟩
  by_contra hbit
  exact hempty ⟨hzero, Bool.eq_false_of_not_eq_true hbit⟩

theorem enter_cases (h : st.enter = .ok st') : st.nodeIndex < st.depths.length ∧
    ∃ parentDepth, st' = { st with parentDepth, childCount := 0, previousLabel := none } := by
  unfold enter at h
  cases hdepth : st.depths[st.nodeIndex]? with
  | none =>
    rw [hdepth] at h
    cases h
  | some parentDepth =>
    rw [hdepth] at h
    cases h
    exact ⟨(List.getElem?_eq_some_iff.1 hdepth).1, parentDepth, rfl⟩

/-- A child of the node. -/
theorem Inv.step_child (h : Inv leaves labels bits k st) (hbit : bits[k]? = some false)
    (hchild : st.child labels = .ok st') : Inv leaves labels bits (k + 1) st' := by
  obtain ⟨label, hlabel, hprevious, rfl⟩ := child_cases hchild
  have hk := (List.getElem?_eq_some_iff.1 hbit).1
  have hlt := (List.getElem?_eq_some_iff.1 hlabel).1
  have hones := ones_succ_of_false hbit
  have hzeros := zeros_succ hbit
  rw [h.edge_eq] at hlabel
  constructor
  case le => exact hk
  case node_eq => exact h.node_eq.trans hones.symm
  case edge_eq => exact (congrArg (· + 1) h.edge_eq).trans hzeros.symm
  case depths_length =>
    rw [List.length_append, List.length_singleton, h.depths_length]
  case inside => exact h.inside.trans (Nat.le_succ _)
  case edges_le => exact hlt
  case ordered =>
    intro p hp
    rcases Nat.lt_succ_iff_lt_or_eq.1 hp with hp | rfl
    · exact h.ordered p hp
    · rw [← h.node_eq, ← h.edge_eq]
      exact h.inside
  case sorted =>
    intro p q a b hpq hq hpbit hqbit hsame ha hb
    rcases Nat.lt_succ_iff_lt_or_eq.1 hq with hq | rfl
    · exact h.sorted p q a b hpq hq hpbit hqbit hsame ha hb
    · obtain ⟨c, hc, hac⟩ := h.previous p a hpq hpbit hsame ha
      rw [hlabel] at hb
      cases hb
      exact UInt8.lt_of_le_of_lt hac (hprevious c hc)
  case previous =>
    intro p a hp hpbit hsame ha
    refine ⟨label, rfl, ?_⟩
    rcases Nat.lt_succ_iff_lt_or_eq.1 hp with hp | rfl
    · obtain ⟨c, hc, hac⟩ := h.previous p a hp hpbit (hsame.trans hones) ha
      exact UInt8.le_trans hac (UInt8.le_of_lt (hprevious c hc))
    · rw [hlabel] at ha
      cases ha
      exact UInt8.le_refl _
  case childless =>
    intro hnone
    exact absurd hones.symm (hnone k (Nat.lt_succ_self k) hbit)
  case terminal =>
    intro v hv
    rw [hones] at hv
    exact h.terminal v hv

theorem Inv.terminal_succ (h : Inv leaves labels bits k st) (hbit : bits[k]? = some true)
    (hclose : st.close leaves = .ok st') (v : Nat) (hv : v < ones bits (k + 1))
    (hnone : ∀ p, bits[p]? = some false → ones bits p ≠ v) : getBit leaves v = true := by
  obtain ⟨hleaf, -⟩ := close_cases hclose
  rw [ones_succ hbit] at hv
  rcases Nat.lt_succ_iff_lt_or_eq.1 hv with hv | rfl
  · exact h.terminal v hv hnone
  · rw [← h.node_eq]
    exact hleaf (h.childless fun p _ => hnone p)

/-- The next node. -/
theorem Inv.step_close (h : Inv leaves labels bits k st) (hbit : bits[k]? = some true) {st'' : Scan}
    (hclose : st.close leaves = .ok st') (henter : st'.enter = .ok st'') :
    Inv leaves labels bits (k + 1) st'' := by
  have hterminal := h.terminal_succ hbit hclose
  obtain ⟨-, rfl⟩ := close_cases hclose
  obtain ⟨hdepth, parentDepth, rfl⟩ := enter_cases henter
  have hk := (List.getElem?_eq_some_iff.1 hbit).1
  have hones := ones_succ hbit
  have hearlier : ∀ p < k + 1, ones bits p ≠ ones bits (k + 1) := by
    intro p hp
    have hmono := ones_mono bits (Nat.lt_succ_iff.1 hp)
    omega
  constructor
  case le => exact hk
  case node_eq => exact (congrArg (· + 1) h.node_eq).trans hones.symm
  case edge_eq => exact h.edge_eq.trans (zeros_succ_of_true hbit).symm
  case depths_length => exact h.depths_length
  case inside =>
    have hlength := h.depths_length
    dsimp only at hdepth ⊢
    omega
  case edges_le => exact h.edges_le
  case ordered =>
    intro p hp
    rcases Nat.lt_succ_iff_lt_or_eq.1 hp with hp | rfl
    · exact h.ordered p hp
    · rw [← h.node_eq, ← h.edge_eq]
      exact h.inside
  case sorted =>
    intro p q a b hpq hq hpbit hqbit
    rcases Nat.lt_succ_iff_lt_or_eq.1 hq with hq | rfl
    · exact h.sorted p q a b hpq hq hpbit hqbit
    · rw [hbit] at hqbit
      cases hqbit
  case previous =>
    intro p a hp hpbit hsame
    exact absurd hsame (hearlier p hp)
  case childless => exact fun _ => rfl
  case terminal => exact hterminal

/-- What holds when the last node has ended with the last bit. -/
structure Done (leaves : List UInt64) (labels : List UInt8) (bits : List Bool) (st : Scan) : Prop where
  ones_eq : ones bits bits.length = labels.length + 1
  zeros_eq : zeros bits bits.length = st.edgeIndex
  ordered : ∀ p < bits.length, ones bits p ≤ zeros bits p
  sorted : ∀ p q a b, p < q → bits[p]? = some false → bits[q]? = some false → ones bits p = ones bits q →
    labels[zeros bits p]? = some a → labels[zeros bits q]? = some b → a < b
  terminal : ∀ v < labels.length + 1, (∀ p, bits[p]? = some false → ones bits p ≠ v) → getBit leaves v = true

/-- The last node. -/
theorem Inv.done (h : Inv leaves labels bits k st) (hbit : bits[k]? = some true)
    (hclose : st.close leaves = .ok st') (hlast : st'.nodeIndex = labels.length + 1)
    (hend : bits.drop (k + 1) = []) : Done leaves labels bits st' := by
  have hterminal := h.terminal_succ hbit hclose
  obtain ⟨-, rfl⟩ := close_cases hclose
  have hk := (List.getElem?_eq_some_iff.1 hbit).1
  have hones := ones_succ hbit
  have hlength : bits.length = k + 1 := by
    rw [List.drop_eq_nil_iff] at hend
    omega
  have hcount : ones bits (k + 1) = labels.length + 1 := by
    rw [hones, ← h.node_eq]
    exact hlast
  constructor
  case ones_eq => rw [hlength, hcount]
  case zeros_eq => rw [hlength, zeros_succ_of_true hbit, ← h.edge_eq]
  case ordered =>
    intro p hp
    rw [hlength] at hp
    rcases Nat.lt_succ_iff_lt_or_eq.1 hp with hp | rfl
    · exact h.ordered p hp
    · rw [← h.node_eq, ← h.edge_eq]
      exact h.inside
  case sorted =>
    intro p q a b hpq hpbit hqbit
    have hq := (List.getElem?_eq_some_iff.1 hqbit).1
    rw [hlength] at hq
    rcases Nat.lt_succ_iff_lt_or_eq.1 hq with hq | rfl
    · exact h.sorted p q a b hpq hq hpbit hqbit
    · rw [hbit] at hqbit
      cases hqbit
  case terminal =>
    intro v hv
    exact hterminal v (by omega)

theorem scanBits_done {words : List Bool} (h : Inv leaves labels bits k st) (hwords : bits.drop k = words)
    (hscan : scanBits leaves labels words st = .ok ([], st')) : Done leaves labels bits st' := by
  induction words generalizing k st with
  | nil => cases hscan
  | cons bit words ih =>
    obtain ⟨hbit, hrest⟩ : bits[k]? = some bit ∧ bits.drop (k + 1) = words := by
      constructor
      · rw [← Nat.add_zero k, ← List.getElem?_drop, hwords]
        rfl
      · rw [← List.drop_drop, hwords]
        rfl
    cases bit with
    | false =>
      rw [scanBits] at hscan
      obtain ⟨st₁, hchild, hscan⟩ := bind_eq_ok.1 hscan
      exact ih (h.step_child hbit hchild) hrest hscan
    | true =>
      rw [scanBits] at hscan
      obtain ⟨st₁, hclose, hscan⟩ := bind_eq_ok.1 hscan
      split_ifs at hscan with hlast
      · cases hscan
        exact h.done hbit hclose hlast hrest
      · obtain ⟨st₂, henter, hscan⟩ := bind_eq_ok.1 hscan
        exact ih (h.step_close hbit hclose henter) hrest hscan

theorem Inv.init {st : Scan} (h : Scan.enter ⟨0, 0, [0], 0, 0, none⟩ = .ok st) (leaves : List UInt64)
    (labels : List UInt8) (bits : List Bool) : Inv leaves labels bits 0 st := by
  cases h
  constructor
  case le => exact Nat.zero_le _
  case node_eq => rfl
  case edge_eq => rfl
  case depths_length => rfl
  case inside => exact le_refl 0
  case edges_le => exact Nat.zero_le _
  case ordered => exact fun p hp => absurd hp (Nat.not_lt_zero p)
  case sorted => exact fun p q a b _ hq => absurd hq (Nat.not_lt_zero q)
  case previous => exact fun p a hp => absurd hp (Nat.not_lt_zero p)
  case childless => exact fun _ => rfl
  case terminal => exact fun v hv => absurd hv (Nat.not_lt_zero v)

end Scan

/-! ### Sets that are accepted -/

/-- The bits of the tree. -/
def MrsDomainSet.bits (s : MrsDomainSet) : List Bool :=
  (List.range s.effectiveBitmapBits).map (getBit s.labelBitmap)

/-- A set as the reader accepts it. -/
structure MrsDomainSet.WellFormed (s : MrsDomainSet) : Prop where
  nodeCount_eq : s.nodeCount = s.labels.length + 1
  effective_eq : s.effectiveBitmapBits + 1 = 2 * s.nodeCount
  tree : IsTree s.bits s.nodeCount
  sorted : ∀ p q v c d a b, p < q → IsChild s.bits p v c → IsChild s.bits q v d →
    s.labels[c - 1]? = some a → s.labels[d - 1]? = some b → a < b
  terminal : ∀ v < s.nodeCount, (∀ p c, ¬IsChild s.bits p v c) → getBit s.leaves v = true
  root : getBit s.leaves 0 = false
  leaves_length : s.nodeCount ≤ 64 * s.leaves.length
  bitmap_length : s.effectiveBitmapBits ≤ 64 * s.labelBitmap.length
  padding : ∀ i, s.effectiveBitmapBits ≤ i → getBit s.labelBitmap i = false
  indexed : Indexed s.labelBitmap s.selects s.ranks

theorem testBit_of_hasPadding {used j : Nat} {w : UInt64} (h : hasPadding used w = false) (hj : used % 64 ≤ j) :
    w.toNat.testBit j = false := by
  rcases Nat.lt_or_ge j 64 with hlt | hge
  · unfold hasPadding at h
    have hmask := toNat_mask (Nat.mod_lt used (by decide : 0 < 64))
    generalize (1 : UInt64) <<< UInt64.ofNat (used % 64) - 1 = mask at hmask h
    have hzero : w &&& ~~~mask = 0 := by simpa using h
    have hbit : (w &&& ~~~mask).toBitVec.getLsbD j = false := by
      rw [hzero]
      simp
    have hmaskBit : mask.toBitVec.getLsbD j = false := by
      rw [BitVec.getLsbD, UInt64.toNat_toBitVec, hmask, Nat.testBit_two_pow_sub_one]
      simpa using hj
    rw [UInt64.toBitVec_and, UInt64.toBitVec_not, BitVec.getLsbD_and, BitVec.getLsbD_not, hmaskBit] at hbit
    simpa [hlt, BitVec.getLsbD] using hbit
  · exact Nat.testBit_lt_two_pow (w.toNat_lt.trans_le (Nat.pow_le_pow_right (by decide) hge))

theorem getBit_padding {bm : List UInt64} {used i : Nat} (hlen : bm.length = (used + 63) / 64)
    (hpad : ¬(used % 64 ≠ 0 ∧ hasPadding used (bm.getLast?.getD 0) = true)) (hi : used ≤ i) :
    getBit bm i = false := by
  unfold getBit
  rcases Nat.lt_or_ge (i / 64) bm.length with hlt | hge
  · have hlast : bm.getLast? = bm[i / 64]? := by
      rw [List.getLast?_eq_getElem?]
      congr 1
      omega
    rw [hlast, List.getElem?_eq_getElem hlt, Option.getD_some] at hpad
    rw [List.getElem?_eq_getElem hlt]
    have hnone : hasPadding used bm[i / 64] = false := by
      by_contra hsome
      exact hpad ⟨by omega, Bool.eq_true_of_not_eq_false hsome⟩
    exact testBit_of_hasPadding hnone (by omega)
  · rw [List.getElem?_eq_none hge]

/-! ### What the reader accepts -/

theorem validateSuccinctSet_cases {leaves labelBitmap : List UInt64} {labels : List UInt8}
    {nodeCount effectiveBits : Nat} (h : validateSuccinctSet leaves labelBitmap labels = .ok (nodeCount, effectiveBits)) :
    nodeCount = labels.length + 1 ∧ effectiveBits = nodeCount * 2 - 1 ∧
      labelBitmap.length = (effectiveBits + 63) / 64 ∧ leaves.length = (nodeCount + 63) / 64 ∧
      (∀ i, effectiveBits ≤ i → getBit labelBitmap i = false) ∧ getBit leaves 0 = false ∧
      ∃ st, Scan.Done leaves labels ((List.range effectiveBits).map (getBit labelBitmap)) st ∧
        st.edgeIndex = labels.length := by
  unfold validateSuccinctSet at h
  dsimp only at h
  split_ifs at h with hwords hpadding hleafWords hleafPadding hroot hfinal
  obtain ⟨st, henter, h⟩ := bind_eq_ok.1 h
  obtain ⟨⟨rest, st'⟩, hscan, h⟩ := bind_eq_ok.1 h
  dsimp only at h
  split_ifs at h with hend
  cases h
  push Not at hend hwords hleafWords
  obtain ⟨rfl, hedges, -⟩ := hend
  exact ⟨rfl, rfl, hwords, hleafWords, fun i hi => getBit_padding hwords hpadding hi,
    Bool.eq_false_of_not_eq_true hroot, st', Scan.scanBits_done (.init henter _ _ _) rfl hscan, hedges⟩

theorem readFull_length {n : Nat} {r buf rest : List UInt8} (h : readFull n r = .ok (buf, rest)) : buf.length = n := by
  unfold readFull at h
  split_ifs at h with hn
  cases h
  rw [List.length_take, Nat.min_eq_left hn]

theorem readBoundedLen_le {field : String} {maximum n : Nat} {r rest : List UInt8}
    (h : readBoundedLen field maximum r = .ok (n, rest)) : n ≤ maximum := by
  obtain ⟨⟨buf, r'⟩, -, h⟩ := bind_eq_ok.1 h
  dsimp only at h
  split_ifs at h with hnegative hrange
  cases h
  omega

/-- The lists of a set that passes the validation. -/
structure Validated (leaves labelBitmap : List UInt64) (labels : List UInt8) (nodeCount effectiveBits : Nat) : Prop where
  valid : validateSuccinctSet leaves labelBitmap labels = .ok (nodeCount, effectiveBits)
  labels_lt : labels.length < maxDomainNodes

theorem Validated.small {leaves labelBitmap : List UInt64} {labels : List UInt8} {nodeCount effectiveBits : Nat}
    (h : Validated leaves labelBitmap labels nodeCount effectiveBits) : 64 * labelBitmap.length < 2 ^ 31 := by
  obtain ⟨hnodes, heffective, hbitmap, -⟩ := validateSuccinctSet_cases h.valid
  have hlt := h.labels_lt
  rw [show maxDomainNodes = 8388608 from rfl] at hlt
  omega

theorem Validated.wellFormed {leaves labelBitmap : List UInt64} {labels : List UInt8} {nodeCount effectiveBits : Nat}
    (h : Validated leaves labelBitmap labels nodeCount effectiveBits) {selects ranks : List Nat}
    (hindexed : Indexed labelBitmap selects ranks) :
    MrsDomainSet.WellFormed ⟨leaves, labelBitmap, labels, ranks, selects, nodeCount, effectiveBits⟩ := by
  obtain ⟨hnodes, heffective, hbitmap, hleaves, hpadding, hroot, st, hdone, hedges⟩ :=
    validateSuccinctSet_cases h.valid
  have hbits : ((List.range effectiveBits).map (getBit labelBitmap)).length = effectiveBits := by simp
  have hones := hdone.ones_eq
  constructor
  case nodeCount_eq => exact hnodes
  case effective_eq =>
    show effectiveBits + 1 = 2 * nodeCount
    omega
  case tree =>
    constructor
    · show ((List.range effectiveBits).map (getBit labelBitmap)).length + 1 = 2 * nodeCount
      omega
    · rw [ones_length] at hones
      exact hones.trans hnodes.symm
    · exact hdone.ordered
  case sorted =>
    rintro p q v c d a b hpq ⟨hp, hpv, rfl⟩ ⟨hq, hqv, rfl⟩ ha hb
    exact hdone.sorted p q a b hpq hp hq (hpv.trans hqv.symm) ha hb
  case terminal =>
    intro v hv hnone
    exact hdone.terminal v (by rw [← hnodes]; exact hv) fun p hp hpv => hnone p _ ⟨hp, hpv, rfl⟩
  case root => exact hroot
  case leaves_length =>
    show nodeCount ≤ 64 * leaves.length
    omega
  case bitmap_length =>
    show effectiveBits ≤ 64 * labelBitmap.length
    omega
  case padding => exact hpadding
  case indexed => exact hindexed

/-- The reader never panics, and what it accepts is validated and indexed. -/
theorem MrsDomainSet.read_cases (r : List UInt8) :
    ∃ result, MrsDomainSet.read r = some result ∧ ∀ s, result = .ok s → s.WellFormed := by
  unfold MrsDomainSet.read
  dsimp only
  split
  · exact ⟨_, rfl, nofun⟩
  rename_i leaves labelBitmap labels nodeCount effectiveBits hlists
  have hvalidated : Validated leaves labelBitmap labels nodeCount effectiveBits := by
    obtain ⟨⟨version, r₁⟩, -, hlists⟩ := bind_eq_ok.1 hlists
    dsimp only at hlists
    split_ifs at hlists with hversion
    obtain ⟨⟨leavesLen, r₂⟩, -, hlists⟩ := bind_eq_ok.1 hlists
    obtain ⟨⟨leaves', r₃⟩, -, hlists⟩ := bind_eq_ok.1 hlists
    obtain ⟨⟨labelmapLen, r₄⟩, -, hlists⟩ := bind_eq_ok.1 hlists
    obtain ⟨⟨labelBitmap', r₅⟩, -, hlists⟩ := bind_eq_ok.1 hlists
    obtain ⟨⟨labelsLen, r₆⟩, hlabelsLen, hlists⟩ := bind_eq_ok.1 hlists
    obtain ⟨⟨labels', r₇⟩, hlabels, hlists⟩ := bind_eq_ok.1 hlists
    obtain ⟨⟨nodeCount', effectiveBits'⟩, hvalid, hlists⟩ := bind_eq_ok.1 hlists
    cases hlists
    have hle := readBoundedLen_le hlabelsLen
    have hlength := readFull_length hlabels
    refine ⟨hvalid, ?_⟩
    rw [hlength]
    exact hle.trans_lt (by decide)
  obtain ⟨selects, ranks, hindex, hindexed⟩ := indexSelect32R64_spec false hvalidated.small
  rw [hindex]
  refine ⟨_, rfl, ?_⟩
  rintro _ ⟨⟩
  exact hvalidated.wellFormed hindexed

/-- **What the reader accepts is a tree.** -/
theorem MrsDomainSet.read_wellFormed {r : List UInt8} {s : MrsDomainSet}
    (h : MrsDomainSet.read r = some (.ok s)) : s.WellFormed := by
  obtain ⟨result, hresult, hwell⟩ := MrsDomainSet.read_cases r
  rw [h] at hresult
  exact hwell s (Option.some.inj hresult).symm

/-- An edge of the tree, with its label. -/
def MrsDomainSet.Edge (s : MrsDomainSet) (v : Nat) (b : UInt8) (c : Nat) : Prop :=
  ∃ p, IsChild s.bits p v c ∧ s.labels[c - 1]? = some b

section Tree

variable {s : MrsDomainSet} (h : s.WellFormed)

include h

theorem MrsDomainSet.WellFormed.deterministic : Deterministic s.Edge := by
  rintro v b c d ⟨p, hp, hb⟩ ⟨q, hq, hb'⟩
  rcases Nat.lt_trichotomy p q with hlt | rfl | hlt
  · exact absurd (h.sorted p q v c d b b hlt hp hq hb hb') (UInt8.lt_irrefl b)
  · exact hp.2.2.symm.trans hq.2.2
  · exact absurd (h.sorted q p v d c b b hlt hq hp hb' hb) (UInt8.lt_irrefl b)

theorem MrsDomainSet.WellFormed.parent {c : Nat} (hpos : 0 < c) (hc : c < s.nodeCount) :
    ∃ v < c, ∃ b, s.Edge v b c ∧ ∀ u a, s.Edge u a c → u = v ∧ a = b := by
  obtain ⟨p, v, hp⟩ := h.tree.exists_parent hpos hc
  have hlabel : c - 1 < s.labels.length := by
    have := h.nodeCount_eq
    omega
  refine ⟨v, (h.tree.child_lt hp).1, s.labels[c - 1], ⟨p, hp, List.getElem?_eq_getElem hlabel⟩, ?_⟩
  rintro u a ⟨q, hq, ha⟩
  rw [List.getElem?_eq_getElem hlabel] at ha
  exact ⟨(hq.unique hp).2, (Option.some.inj ha).symm⟩

theorem MrsDomainSet.WellFormed.exists_word {v : Nat} (hv : v < s.nodeCount) : ∃ w, Spells s.Edge 0 w v := by
  induction v using Nat.strongRecOn with
  | _ v ih =>
    rcases Nat.eq_zero_or_pos v with rfl | hpos
    · exact ⟨[], .nil 0⟩
    · obtain ⟨u, hu, b, hedge, -⟩ := h.parent hpos hv
      obtain ⟨w, hw⟩ := ih u hu (hu.trans hv)
      exact ⟨w ++ [b], hw.append (Spells.singleton_iff.2 hedge)⟩

end Tree

end WutherCore.Ruleset.Mrs
