import WutherCore.Data.Louds
import WutherCore.Data.Run
import WutherCore.Ruleset.Context
import WutherCore.Ruleset.DomainSet

/-!
# The bitmap of a compact domain set

An SRS file holds a domain set as a tree of nodes written level by level: a bitmap in which each node
has a `0` for each child and a closing `1`, and one label for each child.  `scanBitmap` is the loop of
the reader over the bitmap; it collects the child offsets and checks the depth of every node.

The loop looks up the depth of the current node when it meets a child.  On a hostile bitmap the
current node may not have been introduced yet, and the lookup is out of bounds.

* `scanBitmap_panic`: the scan panics exactly on the bitmaps that are not `Orderly`.
* `scanBitmap_proper`: the child offsets of a scan that ends well make a proper tree.
-/

namespace WutherCore.Ruleset

open WutherCore.Data WutherCore.Data.Louds

/-- `binary_error`. -/
def binaryError (message : String) : ParseError := .other s!"SRS: {message}"

/-- `MAX_DOMAIN_DEPTH`. -/
def maxDomainDepth : Nat := 1024

/-- The variables of the loop over the bitmap. The offset of a node is pushed when the node before it
is closed. -/
structure DomainScan where
  nodeIndex : Nat := 0
  labelIndex : Nat := 0
  childOffsets : List UInt32 := [0]
  depths : List Nat := [0]

/-- One bit of the bitmap: `true` closes the current node, `false` gives it a child. -/
def DomainScan.step (labelsLength : Nat) (st : DomainScan) : Bool → Ending ParseError DomainScan
  | true =>
      if st.labelIndex < 2 ^ 32 then
        .ok { st with
          nodeIndex := st.nodeIndex + 1
          childOffsets := st.childOffsets ++ [UInt32.ofNat st.labelIndex] }
      else .error (binaryError "compact domain child offset 超出 u32")
  | false =>
      if st.labelIndex ≥ labelsLength then
        .error (binaryError "compact domain bitmap 的 child 数超过 labels")
      else
        match st.depths[st.nodeIndex]? with
        | none => .panic
        | some depth =>
            if depth + 1 > maxDomainDepth then
              .error (binaryError s!"compact domain 深度超过上限 {maxDomainDepth}")
            else
              .ok { st with
                labelIndex := st.labelIndex + 1
                depths := st.depths ++ [depth + 1] }

/-- The loop over the nodes of the set and the bits of each node; the child offsets. -/
def scanFrom (labelsLength : Nat) (bits : List Bool) (st : DomainScan) :
    Ending ParseError (List UInt32) :=
  if st.nodeIndex = labelsLength + 1 then
    if bits ≠ [] ∨ st.labelIndex ≠ labelsLength then
      .error (binaryError "compact domain 含未引用 label")
    else .ok st.childOffsets
  else
    match bits with
    | [] => .error (binaryError "compact domain bitmap 在节点结束前 EOF")
    | bit :: bits =>
        match st.step labelsLength bit with
        | .ok st => scanFrom labelsLength bits st
        | .error e => .error e
        | .panic => .panic

/-- The scan of a bitmap. -/
def scanBitmap (labelsLength : Nat) (bits : List Bool) : Ending ParseError (List UInt32) :=
  scanFrom labelsLength bits {}

/-! ### Bitmaps that the scan can read -/

/-- A child of a node of the greatest depth: the scan ends here with an error. -/
def Deep (bits : List Bool) (q : Nat) : Prop :=
  bits[q]? = some false ∧ NodeDepth bits (ones bits q) maxDomainDepth

/-- The bitmap gives no child to a node that is not introduced yet, up to where it is too deep. -/
def Orderly (bits : List Bool) : Prop :=
  ∀ p, Orphan bits ((bits.length + 1) / 2) p → ∃ q < p, Deep bits q

/-! ### The invariant of the loop -/

/-- What holds when the bits of `pre` have been read. -/
structure DomainScan.Inv (bits pre : List Bool) (st : DomainScan) : Prop where
  nodeIndex_eq : st.nodeIndex = pre.count true
  labelIndex_eq : st.labelIndex = pre.count false
  depths_length : st.depths.length = st.labelIndex + 1
  depth : ∀ k d, st.depths[k]? = some d → NodeDepth bits k d ∧ d ≤ maxDomainDepth
  offsets_length : st.childOffsets.length = st.nodeIndex + 1
  offset_le : ∀ offset ∈ st.childOffsets, offset.toNat ≤ st.labelIndex
  monotone : st.childOffsets.Pairwise (· ≤ ·)
  /-- Every label so far belongs to a node before it, closed or current. -/
  owner : ∀ e < st.labelIndex, ∃ v start, v ≤ e ∧ st.childOffsets[v]? = some start ∧
    start.toNat ≤ e ∧
      (v = st.nodeIndex ∨ ∃ stop, st.childOffsets[v + 1]? = some stop ∧ e < stop.toNat)

namespace DomainScan

variable {labelsLength : Nat} {bits pre rest : List Bool} {st st' : DomainScan}

theorem step_cases {bit : Bool} (h : st.step labelsLength bit = .ok st') :
    (bit = true ∧ st.labelIndex < 2 ^ 32 ∧ st' = { st with
      nodeIndex := st.nodeIndex + 1
      childOffsets := st.childOffsets ++ [UInt32.ofNat st.labelIndex] }) ∨
    (bit = false ∧ st.labelIndex < labelsLength ∧ ∃ depth, st.depths[st.nodeIndex]? = some depth ∧
      depth < maxDomainDepth ∧ st' = { st with
        labelIndex := st.labelIndex + 1
        depths := st.depths ++ [depth + 1] }) := by
  cases bit with
  | true =>
    rw [step] at h
    split_ifs at h with hlt
    cases h
    exact .inl ⟨rfl, hlt, rfl⟩
  | false =>
    rw [step] at h
    split_ifs at h with hge
    cases hdepth : st.depths[st.nodeIndex]? with
    | none => simp [hdepth] at h
    | some depth =>
      simp only [hdepth] at h
      split_ifs at h with hdeep
      cases h
      exact .inr ⟨rfl, by omega, depth, rfl, by omega, rfl⟩

theorem Inv.init (bits : List Bool) : Inv bits [] {} where
  nodeIndex_eq := rfl
  labelIndex_eq := rfl
  depths_length := rfl
  depth k d h := by
    cases k with
    | zero =>
      cases h
      exact ⟨.root, Nat.zero_le _⟩
    | succ k => simp at h
  offsets_length := rfl
  offset_le := by simp
  monotone := List.pairwise_singleton _ _
  owner e he := absurd he (Nat.not_lt_zero e)

/-- The closing bit of a node. -/
theorem Inv.close (h : Inv bits pre st) (hlt : st.labelIndex < 2 ^ 32) :
    Inv bits (pre ++ [true]) { st with
      nodeIndex := st.nodeIndex + 1
      childOffsets := st.childOffsets ++ [UInt32.ofNat st.labelIndex] } := by
  have hoffset : (UInt32.ofNat st.labelIndex).toNat = st.labelIndex := by
    rw [UInt32.toNat_ofNat', Nat.mod_eq_of_lt hlt]
  constructor
  case nodeIndex_eq => simp [h.nodeIndex_eq]
  case labelIndex_eq => simp [h.labelIndex_eq]
  case depths_length => exact h.depths_length
  case depth => exact h.depth
  case offsets_length => simp [h.offsets_length]
  case offset_le =>
    intro offset hmem
    rcases List.mem_append.1 hmem with hmem | hmem
    · exact h.offset_le offset hmem
    · obtain rfl := List.mem_singleton.1 hmem
      exact hoffset.le
  case monotone =>
    refine List.pairwise_append.2 ⟨h.monotone, List.pairwise_singleton _ _, fun a ha b hb => ?_⟩
    obtain rfl := List.mem_singleton.1 hb
    rw [UInt32.le_iff_toNat_le, hoffset]
    exact h.offset_le a ha
  case owner =>
    intro e he
    obtain ⟨v, start, hv, hstart, hle, hstop⟩ := h.owner e he
    have hvlt : v < st.childOffsets.length := (List.getElem?_eq_some_iff.1 hstart).1
    refine ⟨v, start, hv, by rw [List.getElem?_append_left hvlt]; exact hstart, hle, .inr ?_⟩
    rcases hstop with rfl | ⟨stop, hstop, hlt'⟩
    · refine ⟨_, ?_, hoffset.symm ▸ he⟩
      rw [← h.offsets_length, List.getElem?_concat_length]
    · have hvlt' : v + 1 < st.childOffsets.length := (List.getElem?_eq_some_iff.1 hstop).1
      exact ⟨stop, by rw [List.getElem?_append_left hvlt']; exact hstop, hlt'⟩

/-- A child of a node that has been introduced. -/
theorem Inv.child (h : Inv (pre ++ false :: rest) pre st) {depth : Nat}
    (hdepth : st.depths[st.nodeIndex]? = some depth) (hlt : depth < maxDomainDepth) :
    Inv (pre ++ false :: rest) (pre ++ [false]) { st with
      labelIndex := st.labelIndex + 1
      depths := st.depths ++ [depth + 1] } := by
  have hnode : st.nodeIndex ≤ st.labelIndex := by
    have hlt : st.nodeIndex < st.depths.length := (List.getElem?_eq_some_iff.1 hdepth).1
    have := h.depths_length
    omega
  constructor
  case nodeIndex_eq => simp [h.nodeIndex_eq]
  case labelIndex_eq => simp [h.labelIndex_eq]
  case depths_length => simp [h.depths_length]
  case depth =>
    intro k d hk
    rcases Nat.lt_or_ge k st.depths.length with hk' | hge
    · rw [List.getElem?_append_left hk'] at hk
      exact h.depth k d hk
    · -- the new node is the child that the bit at the end of `pre` introduces
      have hkeq : k = st.depths.length := by
        have := (List.getElem?_eq_some_iff.1 hk).1
        rw [List.length_append, List.length_singleton] at this
        omega
      subst hkeq
      rw [List.getElem?_concat_length] at hk
      cases hk
      have hbit : (pre ++ false :: rest)[pre.length]? = some false := by simp
      have hparent := (h.depth _ _ hdepth).1
      rw [h.nodeIndex_eq, ← ones_append pre (false :: rest)] at hparent
      have hchild := NodeDepth.child hbit hparent
      rw [zeros_append, ← h.labelIndex_eq, ← h.depths_length] at hchild
      exact ⟨hchild, hlt⟩
  case offsets_length => exact h.offsets_length
  case offset_le => exact fun offset hmem => (h.offset_le offset hmem).trans (Nat.le_succ _)
  case monotone => exact h.monotone
  case owner =>
    intro e he
    rcases Nat.lt_succ_iff_lt_or_eq.1 he with hlt | rfl
    · exact h.owner e hlt
    · have hlast : st.nodeIndex < st.childOffsets.length := by
        have := h.offsets_length
        omega
      exact ⟨st.nodeIndex, _, hnode, List.getElem?_eq_getElem hlast,
        h.offset_le _ (List.getElem_mem hlast), .inl rfl⟩

/-- **A step keeps the invariant.** -/
theorem Inv.step {bit : Bool} (h : Inv (pre ++ bit :: rest) pre st)
    (hstep : st.step labelsLength bit = .ok st') : Inv (pre ++ bit :: rest) (pre ++ [bit]) st' := by
  rcases step_cases hstep with ⟨rfl, hlt, rfl⟩ | ⟨rfl, -, depth, hdepth, hlt, rfl⟩
  · exact h.close hlt
  · exact h.child hdepth hlt

theorem Inv.ones_eq (h : Inv bits pre st) (hbits : bits = pre ++ rest) :
    ones bits pre.length = st.nodeIndex := by
  rw [hbits, ones_append, h.nodeIndex_eq]

theorem Inv.zeros_eq (h : Inv bits pre st) (hbits : bits = pre ++ rest) :
    zeros bits pre.length = st.labelIndex := by
  rw [hbits, zeros_append, h.labelIndex_eq]

/-! ### Panics -/

/-- Neither an orphan nor a child that is too deep stands before position `p`. -/
def Clean (bits : List Bool) (p : Nat) : Prop :=
  ∀ q < p, ¬Orphan bits ((bits.length + 1) / 2) q ∧ ¬Deep bits q

theorem Clean.succ {p : Nat} (h : Clean bits p) (horphan : ¬Orphan bits ((bits.length + 1) / 2) p)
    (hdeep : ¬Deep bits p) : Clean bits (p + 1) := by
  intro q hq
  rcases Nat.lt_succ_iff_lt_or_eq.1 hq with hlt | rfl
  · exact h q hlt
  · exact ⟨horphan, hdeep⟩

theorem Clean.orderly {p : Nat} (h : Clean bits p)
    (hrest : ∀ q ≥ p, Orphan bits ((bits.length + 1) / 2) q → ∃ q' < q, Deep bits q') :
    Orderly bits := by
  intro q hq
  rcases Nat.lt_or_ge q p with hlt | hge
  · exact absurd hq (h q hlt).1
  · exact hrest q hge hq

theorem Inv.child_spec (h : Inv bits pre st) (hbits : bits = pre ++ false :: rest) {depth : Nat}
    (hdepth : st.depths[st.nodeIndex]? = some depth) :
    ¬Orphan bits ((bits.length + 1) / 2) pre.length ∧
      (Deep bits pre.length ↔ maxDomainDepth ≤ depth) := by
  have hones := h.ones_eq hbits
  have hzeros := h.zeros_eq hbits
  obtain ⟨hnode, hle⟩ := h.depth _ _ hdepth
  constructor
  · intro horphan
    have hlt : st.nodeIndex < st.depths.length := (List.getElem?_eq_some_iff.1 hdepth).1
    have hlength := h.depths_length
    have hearly := horphan.early
    omega
  · rw [Deep, hones]
    constructor
    · rintro ⟨-, hdeep⟩
      exact (hdeep.unique hnode).le
    · intro hge
      obtain rfl : depth = maxDomainDepth := by omega
      exact ⟨by rw [hbits]; simp, hnode⟩

/-- What one step says about the bitmap. -/
theorem Inv.step_spec {bit : Bool} (h : Inv bits pre st) (hbits : bits = pre ++ bit :: rest)
    (hlength : bits.length = 2 * labelsLength + 1) (hlabels : labelsLength < 2 ^ 32)
    (hnode : st.nodeIndex ≤ labelsLength) (hlabel : st.labelIndex ≤ labelsLength) :
    match st.step labelsLength bit with
    | .ok st' => ¬Orphan bits ((bits.length + 1) / 2) pre.length ∧ ¬Deep bits pre.length ∧
        st'.nodeIndex ≤ labelsLength + 1 ∧ st'.labelIndex ≤ labelsLength
    | .error _ => ∀ q ≥ pre.length, Orphan bits ((bits.length + 1) / 2) q → ∃ q' < q, Deep bits q'
    | .panic => Orphan bits ((bits.length + 1) / 2) pre.length := by
  have hones := h.ones_eq hbits
  have hzeros := h.zeros_eq hbits
  have hbit : bits[pre.length]? = some bit := by rw [hbits]; simp
  cases bit with
  | true =>
    rw [DomainScan.step, if_pos (hlabel.trans_lt hlabels)]
    refine ⟨fun horphan => ?_, fun hdeep => ?_, by simpa using hnode, hlabel⟩
    · exact absurd (hbit.symm.trans horphan.bit) (by simp)
    · exact absurd (hbit.symm.trans hdeep.1) (by simp)
  | false =>
    rw [DomainScan.step]
    split_ifs with hfull
    · -- all labels are used up, and an orphan would leave one for each node before it
      intro q hq horphan
      have := zeros_mono bits hq
      have := horphan.early
      have := horphan.inside
      omega
    · cases hdepth : st.depths[st.nodeIndex]? with
      | none =>
        have hge := List.getElem?_eq_none_iff.1 hdepth
        have := h.depths_length
        exact ⟨hbit, by omega, by omega⟩
      | some depth =>
        obtain ⟨horphan, hdeep⟩ := h.child_spec hbits hdepth
        dsimp only
        split_ifs with hmax
        · intro q hq hq'
          rcases Nat.lt_or_eq_of_le hq with hlt | rfl
          · exact ⟨pre.length, hlt, hdeep.2 (by omega)⟩
          · exact absurd hq' horphan
        · refine ⟨horphan, fun hd => absurd (hdeep.1 hd) (by omega), Nat.le_succ_of_le hnode, ?_⟩
          exact Nat.lt_of_not_le hfull

/-- The scan from a state in which nothing bad has been read. -/
theorem scanFrom_panic (hbits : bits = pre ++ rest) (hlength : bits.length = 2 * labelsLength + 1)
    (hlabels : labelsLength < 2 ^ 32) (h : Inv bits pre st) (hnode : st.nodeIndex ≤ labelsLength + 1)
    (hlabel : st.labelIndex ≤ labelsLength) (hclean : Clean bits pre.length) :
    scanFrom labelsLength rest st = .panic ↔ ¬Orderly bits := by
  induction rest generalizing pre st with
  | nil =>
    have horderly : Orderly bits := hclean.orderly fun q hq horphan => by
      have hlt := (List.getElem?_eq_some_iff.1 horphan.bit).1
      rw [hbits, List.append_nil] at hlt
      omega
    rw [scanFrom]
    split_ifs <;> simp [horderly]
  | cons bit rest ih =>
    rw [scanFrom]
    split_ifs with hdone hleft
    · -- every node is closed, and an orphan belongs to an open one
      have horderly : Orderly bits := hclean.orderly fun q hq horphan => by
        have := ones_mono bits hq
        have := h.ones_eq hbits
        have := horphan.inside
        omega
      simp [horderly]
    · simp at hleft
    · have hspec := h.step_spec hbits hlength hlabels (by omega) hlabel
      cases hstep : st.step labelsLength bit with
      | ok st' =>
        rw [hstep] at hspec
        obtain ⟨horphan, hdeep, hnode', hlabel'⟩ := hspec
        have hbits' : bits = (pre ++ [bit]) ++ rest := by rw [hbits, List.append_assoc]; rfl
        have h' : Inv bits (pre ++ [bit]) st' := by
          rw [hbits] at h ⊢
          exact h.step hstep
        refine ih hbits' h' hnode' hlabel' ?_
        rw [List.length_append, List.length_singleton]
        exact hclean.succ horphan hdeep
      | error e =>
        rw [hstep] at hspec
        simp [hclean.orderly hspec]
      | panic =>
        rw [hstep] at hspec
        have hbad : ¬Orderly bits := fun horderly => by
          obtain ⟨q, hq, hdeep⟩ := horderly _ hspec
          exact (hclean q hq).2 hdeep
        simp [hbad]

theorem scanFrom_ok {offsets : List UInt32} (h : Inv (pre ++ rest) pre st)
    (hok : scanFrom labelsLength rest st = .ok offsets) :
    ∃ st', Inv (pre ++ rest) (pre ++ rest) st' ∧ st'.nodeIndex = labelsLength + 1 ∧
      st'.labelIndex = labelsLength ∧ st'.childOffsets = offsets := by
  induction rest generalizing pre st with
  | nil =>
    rw [scanFrom] at hok
    split_ifs at hok with hdone hleft
    cases hok
    exact ⟨st, by simpa using h, hdone, by simpa using hleft, rfl⟩
  | cons bit rest ih =>
    rw [scanFrom] at hok
    split_ifs at hok with hdone hleft
    · simp at hleft
    · cases hstep : st.step labelsLength bit with
      | ok st' =>
        rw [hstep] at hok
        have h' := h.step hstep
        rw [← List.singleton_append, ← List.append_assoc] at h' ⊢
        exact ih h' hok
      | error e => simp [hstep] at hok
      | panic => simp [hstep] at hok

/-- The offsets of a finished scan make a proper tree. -/
theorem Inv.proper (h : Inv bits pre st) (hnode : st.nodeIndex = labelsLength + 1)
    (hlabel : st.labelIndex = labelsLength) {s : CompactDomainSet}
    (hoffsets : s.childOffsets = st.childOffsets) (hlabels : s.labels.length = labelsLength) :
    s.Proper := by
  have hmono : ∀ {v v' : Nat} {a b : UInt32}, v ≤ v' → st.childOffsets[v]? = some a →
      st.childOffsets[v']? = some b → a.toNat ≤ b.toNat := by
    intro v v' a b hle ha hb
    obtain ⟨hv, rfl⟩ := List.getElem?_eq_some_iff.1 ha
    obtain ⟨hv', rfl⟩ := List.getElem?_eq_some_iff.1 hb
    rcases Nat.eq_or_lt_of_le hle with rfl | hlt
    · exact Nat.le_refl _
    · exact UInt32.le_iff_toNat_le.1 (List.pairwise_iff_getElem.1 h.monotone v v' hv hv' hlt)
  constructor
  case length_eq => rw [hoffsets, hlabels, h.offsets_length, hnode]
  case monotone => rw [hoffsets]; exact h.monotone
  case edge_lt =>
    rintro v e ⟨start, stop, -, hstop, -, hlt⟩
    rw [hoffsets] at hstop
    have := h.offset_le stop (List.mem_of_getElem? hstop)
    omega
  case parent =>
    intro e he
    obtain ⟨v, start, hv, hstart, hle, hcurrent | ⟨stop, hstop, hlt⟩⟩ := h.owner e (by omega)
    · -- there are fewer labels than nodes, so the last node owns none of them
      omega
    · refine ⟨v, ⟨by omega, start, stop, ?_, ?_, hle, hlt⟩, ?_⟩
      · rw [hoffsets]; exact hstart
      · rw [hoffsets]; exact hstop
      · rintro v' ⟨-, start', stop', hstart', hstop', hle', hlt'⟩
        rw [hoffsets] at hstart' hstop'
        rcases Nat.lt_trichotomy v' v with hcmp | rfl | hcmp
        · have := hmono hcmp hstop' hstart
          omega
        · rfl
        · have := hmono hcmp hstop hstart'
          omega

end DomainScan

/-- **The scan panics exactly on the bitmaps that are not orderly.** -/
theorem scanBitmap_panic {labelsLength : Nat} {bits : List Bool}
    (hlength : bits.length = 2 * labelsLength + 1) (hlabels : labelsLength < 2 ^ 32) :
    scanBitmap labelsLength bits = .panic ↔ ¬Orderly bits :=
  DomainScan.scanFrom_panic rfl hlength hlabels (.init bits) (Nat.zero_le _) (Nat.zero_le _)
    fun q hq => absurd hq (Nat.not_lt_zero q)

/-- **The offsets of a scan that ends well make a proper tree.** -/
theorem scanBitmap_proper {bits : List Bool} {s : CompactDomainSet}
    (hok : scanBitmap s.labels.length bits = .ok s.childOffsets) : s.Proper := by
  have hinit : DomainScan.Inv ([] ++ bits) [] {} := .init bits
  obtain ⟨st, h, hnode, hlabel, hoffsets⟩ := DomainScan.scanFrom_ok hinit hok
  exact h.proper hnode hlabel hoffsets.symm rfl

end WutherCore.Ruleset
