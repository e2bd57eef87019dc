import WutherCore.Data.Except
import WutherCore.Data.Words
import WutherCore.Data.Loop
import WutherCore.Ruleset.Srs

/-!
# Rank and select on the bitmap of an MRS domain set

`rank64` counts the ones before a position, and `select32R64` finds a one by its number, with the two
indexes that `indexSelect32R64` makes.  Where an index is out of range the source has a fallback; the
`strict` versions have no value there.

* `rank64_eq`: `rank64` counts right.
* `select32R64_spec`: `select32R64` finds an earlier one, by the number of ones that the word of the sample
  has before it (`skew`).
* `rank_select_exact_iff`: so it finds the right one if that number is zero.
-/

namespace WutherCore.Ruleset.Mrs

open WutherCore.Data WutherCore.Data.Louds
open WutherCore.Net.Subnet (trailingZeros)

/-! ### The functions -/

/-- The fallback for an index that is out of range. -/
def outside {α : Type} (strict : Bool) (fallback : α) : Option α := if strict then none else some fallback

/-- `get_bit`: outside, a zero. -/
def getBit (bm : List UInt64) (i : Nat) : Bool :=
  match bm[i / 64]? with
  | none => false
  | some word => word.toNat.testBit (i % 64)

/-- `get_bit`, watched. -/
def readBit (strict : Bool) (bm : List UInt64) (i : Nat) : Option Bool :=
  if i / 64 < bm.length then some (getBit bm i) else outside strict (getBit bm i)

/-- The loop of `select_within_word`: so many times, the lowest one is cleared. -/
def clearOnes : (idx w : Nat) → Option Nat
  | 0, w => some w
  | idx + 1, w => (Checked.sub w 1).bind fun below => clearOnes idx (w &&& below)

/-- `select_within_word`. -/
def selectWithinWord (strict : Bool) (w : UInt64) (idx : Nat) : Option Nat :=
  (clearOnes idx w.toNat).bind fun w => if w = 0 then outside strict 0 else some (trailingZeros 64 w)

/-- The `ranks` of `index_select32_r64`, behind the first. -/
def ranksFrom : (acc : Nat) → List UInt64 → Except String (List Nat)
  | _, [] => .ok []
  | acc, w :: bm =>
      let acc := acc + Srs.countOnes w
      if acc ≥ 2 ^ 64 then .error "rank index count overflow"
      else if acc ≥ 2 ^ 31 then .error "rank index exceeds i32"
      else (ranksFrom acc bm).map (acc :: ·)

/-- The `while` loop of `index_select32_r64`: the samples in a word, and the next target. -/
def samplesInWord (strict : Bool) (w : UInt64) (wi count : Nat) :
    (rounds nextTarget : Nat) → Option (Except String (List Nat × Nat))
  | 0, _ => none
  | rounds + 1, nextTarget =>
      if count + Srs.countOnes w > nextTarget then
        (Checked.sub nextTarget count).bind fun need =>
          (selectWithinWord strict w need).bind fun bit =>
            let position := wi * 64 + bit
            if position ≥ 2 ^ 64 then some (.error "select bit position overflow")
            else if position ≥ 2 ^ 31 then some (.error "select index exceeds i32")
            else if nextTarget + 64 ≥ 2 ^ 64 then some (.error "select target overflow")
            else (samplesInWord strict w wi count rounds (nextTarget + 64)).map fun rest =>
              rest.map fun found => (position :: found.1, found.2)
      else some (.ok ([], nextTarget))

/-- The `selects` of `index_select32_r64`. -/
def selectsFrom (strict : Bool) : List UInt64 → (wi nextTarget count : Nat) → Option (Except String (List Nat))
  | [], _, _, _ => some (.ok [])
  | w :: bm, wi, nextTarget, count =>
      (samplesInWord strict w wi count (Srs.countOnes w + 1) nextTarget).bind fun
        | .error e => some (.error e)
        | .ok (samples, nextTarget) =>
            if count + Srs.countOnes w ≥ 2 ^ 64 then some (.error "select count overflow")
            else (selectsFrom strict bm (wi + 1) nextTarget (count + Srs.countOnes w)).map fun rest =>
              rest.map (samples ++ ·)

/-- `index_select32_r64`: the indexes `selects` and `ranks`. -/
def indexSelect32R64 (strict : Bool) (bm : List UInt64) : Option (Except String (List Nat × List Nat)) :=
  match ranksFrom 0 bm with
  | .error e => some (.error e)
  | .ok ranks => (selectsFrom strict bm 0 0 0).map fun selects => selects.map fun selects => (selects, 0 :: ranks)

/-- `rank64`. -/
def rank64 (strict : Bool) (bm : List UInt64) (ranks : List Nat) (i : Nat) : Option Nat :=
  if i = 0 then some 0
  else
    (match ranks[i / 64]? with
      | none => outside strict (ranks.getLast?.getD 0)
      | some base => some base).bind fun base =>
        if i % 64 = 0 then some base
        else
          match bm[i / 64]? with
          | none => outside strict base
          | some word =>
              some (Checked.saturatingAdd 31 base (Srs.countOnes (word &&& (1 <<< UInt64.ofNat (i % 64) - 1))))

/-- `bitmap_end`. -/
def bitmapEnd (bm : List UInt64) : Nat := if bm.length * 64 < 2 ^ 31 then bm.length * 64 else 2 ^ 31 - 1

/-- `bit_position_or_end`. -/
def bitPositionOrEnd (bm : List UInt64) (word bit : Nat) : Nat :=
  if word * 64 + bit < 2 ^ 31 then word * 64 + bit else bitmapEnd bm

/-- The loop of `select32_r64` and `scan_select` over the words from `wi` on. -/
def selectFrom (strict : Bool) (bm : List UInt64) : List UInt64 → (wi remaining : Nat) → Option Nat
  | [], _, _ => outside strict (bitmapEnd bm)
  | w :: words, wi, remaining =>
      if Srs.countOnes w > remaining then (selectWithinWord strict w remaining).map (bitPositionOrEnd bm wi)
      else selectFrom strict bm words (wi + 1) (remaining - Srs.countOnes w)

/-- `scan_select`, as a fallback. -/
def scanSelect (strict : Bool) (bm : List UInt64) (i : Nat) : Option Nat :=
  if strict then none else selectFrom strict bm bm 0 i

/-- `select32_r64`. -/
def select32R64 (strict : Bool) (bm : List UInt64) (selects ranks : List Nat) (i : Nat) : Option Nat :=
  if selects = [] then outside strict 0
  else
    match selects[i / 64]? with
    | none => scanSelect strict bm i
    | some startBit =>
      let startWord := startBit / 64
      match bm[startWord]?, ranks[startWord]? with
      | some word, some rank =>
          let inWord := Srs.countOnes (word &&& (1 <<< UInt64.ofNat (startBit % 64) - 1))
          let pre := Checked.saturatingAdd 31 rank inWord
          if i < pre then scanSelect strict bm i
          else selectFrom strict bm (bm.drop startWord) startWord (i - pre)
      | _, _ => scanSelect strict bm i

/-! ### Words -/

variable {strict : Bool} {bm : List UInt64} {w : UInt64}

theorem countOnes_eq (w : UInt64) : Srs.countOnes w = popcount w := by
  rw [Srs.countOnes, popcount, wordBits, List.count, List.countP_map]
  apply List.countP_congr
  simp

theorem getElem?_bitsOf_eq {i : Nat} (h : i < 64 * bm.length) : (bitsOf bm)[i]? = some (getBit bm i) := by
  have hword : i / 64 < bm.length := by omega
  rw [getElem?_bitsOf, getBit, List.getElem?_eq_getElem hword]
  rfl

theorem readBit_eq {i : Nat} (h : i < 64 * bm.length) : readBit strict bm i = some (getBit bm i) :=
  if_pos (by omega)

theorem trailingZeros_lowest {width t : Nat} (q : Nat) (h : t < width) :
    trailingZeros width (2 ^ (t + 1) * q + 2 ^ t) = t := by
  induction t generalizing width with
  | zero =>
    obtain ⟨width, rfl⟩ := Nat.exists_eq_succ_of_ne_zero h.ne'
    rw [trailingZeros, if_pos (by omega)]
  | succ t ih =>
    obtain ⟨width, rfl⟩ := Nat.exists_eq_succ_of_ne_zero (Nat.ne_zero_of_lt h)
    have heven : 2 ^ (t + 1 + 1) * q + 2 ^ (t + 1) = 2 * (2 ^ (t + 1) * q + 2 ^ t) := by ring
    rw [trailingZeros, heven, if_neg (by omega), Nat.mul_div_cancel_left _ (by decide), ih (by omega)]

theorem clearOnes_spec {bits : List Bool} {i idx n : Nat} (h : Cleared bits i n)
    (hlt : i + idx < bits.count true) : ∃ n', clearOnes idx n = some n' ∧ Cleared bits (i + idx) n' := by
  induction idx generalizing i n with
  | zero => exact ⟨n, rfl, h⟩
  | succ idx ih =>
    have hpos := h.pos (by omega)
    obtain ⟨n', hn', hcleared⟩ := ih (h.clear hpos) (by omega)
    refine ⟨n', ?_, by rwa [show i + (idx + 1) = i + 1 + idx by omega]⟩
    rw [clearOnes, Checked.sub_of_le (by omega), Option.bind_some, hn']

theorem selectWithinWord_spec (strict : Bool) {idx : Nat} (h : idx < popcount w) :
    ∃ t, selectWithinWord strict w idx = some t ∧ IsOne (wordBits w) idx t := by
  obtain ⟨n, hn, hcleared⟩ := clearOnes_spec (cleared_wordBits w) (by rwa [Nat.zero_add])
  rw [Nat.zero_add] at hcleared
  have hpos := hcleared.pos h
  obtain ⟨t, q, hlow⟩ := exists_lowest hpos
  have hone := hcleared.lowest hlow
  have ht : t < 64 := by
    have := hone.lt_length
    rwa [length_wordBits] at this
  refine ⟨t, ?_, hone⟩
  rw [selectWithinWord, hn, Option.bind_some, if_neg hpos.ne', hlow, trailingZeros_lowest q ht]

/-! ### The indexes -/

section Index

variable {words : List UInt64} {k : Nat}

theorem ones_bitsOf_le_count (bm : List UInt64) (p : Nat) : ones (bitsOf bm) p ≤ (bitsOf bm).count true :=
  ones_le_count p

/-- `ranksFrom` counts right if it succeeds, and it does if the count is an `i32`. -/
theorem ranksFrom_spec (hacc : ones (bitsOf bm) (64 * k) < 2 ^ 31) (hwords : bm.drop k = words) :
    (∀ ranks, ranksFrom (ones (bitsOf bm) (64 * k)) words = .ok ranks →
      ranks.length = words.length ∧ (bitsOf bm).count true < 2 ^ 31 ∧
        ∀ j < words.length, ranks[j]? = some (ones (bitsOf bm) (64 * (k + 1 + j)))) ∧
      ((bitsOf bm).count true < 2 ^ 31 → ∃ ranks, ranksFrom (ones (bitsOf bm) (64 * k)) words = .ok ranks) := by
  induction words generalizing k with
  | nil =>
    rw [List.drop_eq_nil_iff] at hwords
    rw [ones, List.take_of_length_le (by rw [length_bitsOf]; omega)] at hacc
    refine ⟨fun ranks h => ?_, fun _ => ⟨[], rfl⟩⟩
    cases h
    exact ⟨rfl, hacc, fun j hj => absurd hj (Nat.not_lt_zero j)⟩
  | cons w words ih =>
    obtain ⟨hw, hrest⟩ := getElem?_of_drop hwords
    have hle := ones_bitsOf_le_count bm (64 * (k + 1))
    rw [ranksFrom, countOnes_eq, ← ones_bitsOf_succ hw]
    by_cases hsmall : ones (bitsOf bm) (64 * (k + 1)) < 2 ^ 31
    · rw [if_neg (by omega), if_neg (by omega)]
      obtain ⟨hok, hexists⟩ := ih hsmall hrest
      refine ⟨fun ranks h => ?_, fun htotal => ?_⟩
      · obtain ⟨ranks, hranks, rfl⟩ := map_eq_ok.1 h
        obtain ⟨hlength, htotal, hget⟩ := hok ranks hranks
        refine ⟨by rw [List.length_cons, List.length_cons, hlength], htotal, fun j hj => ?_⟩
        cases j with
        | zero => rfl
        | succ j =>
          rw [List.getElem?_cons_succ, hget j (by rw [List.length_cons] at hj; omega)]
          congr 3
          omega
      · obtain ⟨ranks, hranks⟩ := hexists htotal
        exact ⟨_, by rw [hranks]; rfl⟩
    · refine ⟨fun ranks h => ?_, fun htotal => absurd (hle.trans_lt htotal) hsmall⟩
      by_cases hlarge : ones (bitsOf bm) (64 * (k + 1)) ≥ 2 ^ 64
      · rw [if_pos hlarge] at h
        cases h
      · rw [if_neg hlarge, if_pos (by omega)] at h
        cases h

/-- A word has a sample if it has the next target, and no more than one; its position must be an `i32`. -/
theorem samplesInWord_spec (strict : Bool) {target : Nat} (htotal : (bitsOf bm).count true < 2 ^ 31)
    (hw : bm[k]? = some w) (hle : ones (bitsOf bm) (64 * k) ≤ target)
    (hlt : target < ones (bitsOf bm) (64 * k) + 64) :
    (target < ones (bitsOf bm) (64 * (k + 1)) ∧ ∃ p, IsOne (bitsOf bm) target p ∧
        ((p < 2 ^ 31 ∧ samplesInWord strict w k (ones (bitsOf bm) (64 * k)) (Srs.countOnes w + 1) target =
            some (.ok ([p], target + 64))) ∨
          (2 ^ 31 ≤ p ∧ ∃ e, samplesInWord strict w k (ones (bitsOf bm) (64 * k)) (Srs.countOnes w + 1) target =
            some (.error e)))) ∨
      (ones (bitsOf bm) (64 * (k + 1)) ≤ target ∧
        samplesInWord strict w k (ones (bitsOf bm) (64 * k)) (Srs.countOnes w + 1) target =
          some (.ok ([], target))) := by
  have hsucc := ones_bitsOf_succ hw
  have hpop := popcount_le w
  have hbound := ones_bitsOf_le_count bm (64 * (k + 1))
  rcases Nat.lt_or_ge target (ones (bitsOf bm) (64 * (k + 1))) with hin | hout
  · left
    obtain ⟨t, ht, hone⟩ := selectWithinWord_spec strict
      (show target - ones (bitsOf bm) (64 * k) < popcount w by omega)
    have hone' := isOne_bitsOf hw hone
    rw [Nat.add_sub_cancel' hle] at hone'
    refine ⟨hin, 64 * k + t, hone', ?_⟩
    obtain ⟨rounds, hrounds⟩ : ∃ rounds, Srs.countOnes w = rounds + 1 :=
      Nat.exists_eq_succ_of_ne_zero (by rw [countOnes_eq]; omega)
    rw [samplesInWord, if_pos (by rw [countOnes_eq]; omega), Checked.sub_of_le hle, Option.bind_some, ht,
      Option.bind_some]
    dsimp only
    by_cases hp : 64 * k + t < 2 ^ 31
    · refine .inl ⟨hp, ?_⟩
      rw [if_neg (by omega), if_neg (by omega), if_neg (by omega), hrounds, samplesInWord,
        if_neg (by rw [countOnes_eq]; omega)]
      simp only [Option.map_some, Except.map, Nat.mul_comm k 64]
    · refine .inr ⟨Nat.not_lt.1 hp, ?_⟩
      by_cases hlarge : k * 64 + t ≥ 2 ^ 64
      · exact ⟨_, if_pos hlarge⟩
      · exact ⟨_, by rw [if_neg hlarge, if_pos (by omega)]⟩
  · right
    refine ⟨hout, ?_⟩
    rw [samplesInWord, if_neg (by rw [countOnes_eq]; omega)]

theorem selectsFrom_spec (strict : Bool) (target : Nat) (htotal : (bitsOf bm).count true < 2 ^ 31)
    (hwords : bm.drop k = words) (hle : ones (bitsOf bm) (64 * k) ≤ target)
    (hlt : target < ones (bitsOf bm) (64 * k) + 64) :
    ∃ result, selectsFrom strict words k target (ones (bitsOf bm) (64 * k)) = some result ∧
      (∀ selects, result = .ok selects →
        (∀ j p, selects[j]? = some p → IsOne (bitsOf bm) (target + 64 * j) p ∧ p < 2 ^ 31) ∧
          (bitsOf bm).count true ≤ target + 64 * selects.length) ∧
      (64 * bm.length < 2 ^ 31 → ∃ selects, result = .ok selects) := by
  induction words generalizing k target with
  | nil =>
    have hend : bm.length ≤ k := by
      rwa [List.drop_eq_nil_iff] at hwords
    rw [ones, List.take_of_length_le (by rw [length_bitsOf]; omega)] at hle
    refine ⟨.ok [], rfl, fun selects h => ?_, fun _ => ⟨[], rfl⟩⟩
    cases h
    exact ⟨fun j p h => by simp at h, hle⟩
  | cons w words ih =>
    obtain ⟨hw, hrest⟩ := getElem?_of_drop hwords
    have hsucc := ones_bitsOf_succ hw
    have hbound := ones_bitsOf_le_count bm (64 * (k + 1))
    have hpop := popcount_le w
    have hcount : ones (bitsOf bm) (64 * k) + Srs.countOnes w = ones (bitsOf bm) (64 * (k + 1)) := by
      rw [countOnes_eq, hsucc]
    rw [selectsFrom, hcount]
    rcases samplesInWord_spec strict htotal hw hle hlt with ⟨hin, p, hp, hsamples⟩ | ⟨hout, hsamples⟩
    · rcases hsamples with ⟨hsmall, hsamples⟩ | ⟨hlarge, e, hsamples⟩
      · obtain ⟨result, hresult, hok, hexists⟩ := ih (target + 64) hrest (by omega) (by omega)
        refine ⟨result.map ([p] ++ ·), ?_, fun selects h => ?_, fun hlen => ?_⟩
        · rw [hsamples, Option.bind_some]
          dsimp only
          rw [if_neg (by omega), hresult]
          rfl
        · obtain ⟨rest, hrest, rfl⟩ := map_eq_ok.1 h
          obtain ⟨hones, hlength⟩ := hok rest hrest
          refine ⟨fun j q hj => ?_, by rw [List.singleton_append, List.length_cons]; omega⟩
          cases j with
          | zero =>
            cases hj
            exact ⟨hp, hsmall⟩
          | succ j =>
            have := hones j q hj
            rwa [show target + 64 + 64 * j = target + 64 * (j + 1) by omega] at this
        · obtain ⟨rest, rfl⟩ := hexists hlen
          exact ⟨_, rfl⟩
      · refine ⟨.error e, by rw [hsamples, Option.bind_some], fun _ h => (by cases h), fun hlen => ?_⟩
        have := hp.lt_length
        rw [length_bitsOf] at this
        omega
    · obtain ⟨result, hresult, hok, hexists⟩ := ih target hrest hout (by omega)
      refine ⟨result.map ([] ++ ·), ?_, fun selects h => ?_, fun hlen => ?_⟩
      · rw [hsamples, Option.bind_some]
        dsimp only
        rw [if_neg (by omega), hresult]
        rfl
      · obtain ⟨rest, hrest, rfl⟩ := map_eq_ok.1 h
        exact hok rest hrest
      · obtain ⟨rest, rfl⟩ := hexists hlen
        exact ⟨_, rfl⟩

/-- What the two indexes say of a list of words, however long it is. -/
structure Counted (bm : List UInt64) (selects ranks : List Nat) : Prop where
  total : (bitsOf bm).count true < 2 ^ 31
  ranks_length : ranks.length = bm.length + 1
  rank : ∀ k ≤ bm.length, ranks[k]? = some (ones (bitsOf bm) (64 * k))
  select : ∀ j p, selects[j]? = some p → IsOne (bitsOf bm) (64 * j) p ∧ p < 2 ^ 31
  selects_length : (bitsOf bm).count true ≤ 64 * selects.length

/-- The two indexes of a list of words. -/
structure Indexed (bm : List UInt64) (selects ranks : List Nat) : Prop where
  small : 64 * bm.length < 2 ^ 31
  ranks_length : ranks.length = bm.length + 1
  rank : ∀ k ≤ bm.length, ranks[k]? = some (ones (bitsOf bm) (64 * k))
  select : ∀ j p, selects[j]? = some p → IsOne (bitsOf bm) (64 * j) p
  selects_length : (bitsOf bm).count true ≤ 64 * selects.length

theorem count_lt_of_small (h : 64 * bm.length < 2 ^ 31) : (bitsOf bm).count true < 2 ^ 31 := by
  have := List.count_le_length (a := true) (l := bitsOf bm)
  rw [length_bitsOf] at this
  omega

theorem Indexed.counted {selects ranks : List Nat} (h : Indexed bm selects ranks) : Counted bm selects ranks where
  total := count_lt_of_small h.small
  ranks_length := h.ranks_length
  rank := h.rank
  select j p hj := by
    have hone := h.select j p hj
    have hlt := hone.lt_length
    rw [length_bitsOf] at hlt
    exact ⟨hone, hlt.trans h.small⟩
  selects_length := h.selects_length

/-- **What `indexSelect32R64` returns counts the ones.** -/
theorem counted_of_indexSelect {selects ranks : List Nat}
    (h : indexSelect32R64 strict bm = some (.ok (selects, ranks))) : Counted bm selects ranks := by
  have hzero : ones (bitsOf bm) (64 * 0) = 0 := rfl
  have hranksFrom := (ranksFrom_spec (by rw [hzero]; decide) (List.drop_zero (l := bm))).1
  rw [hzero] at hranksFrom
  unfold indexSelect32R64 at h
  cases hranks : ranksFrom 0 bm with
  | error e => rw [hranks] at h; cases h
  | ok ranks₁ =>
    rw [hranks] at h
    obtain ⟨hlength, htotal, hget⟩ := hranksFrom ranks₁ hranks
    obtain ⟨result, hresult, hok, -⟩ := selectsFrom_spec strict 0 htotal List.drop_zero (le_refl 0)
      (by rw [hzero]; decide)
    rw [hzero] at hresult
    rw [hresult] at h
    obtain ⟨selects₁, hselects, heq⟩ := map_eq_ok.1 (Option.some.inj h)
    cases heq
    obtain ⟨hones, hcount⟩ := hok _ hselects
    refine ⟨htotal, by rw [List.length_cons, hlength], fun k hk => ?_, fun j p hj => ?_, ?_⟩
    · cases k with
      | zero => rfl
      | succ k => rw [List.getElem?_cons_succ, hget k hk, Nat.zero_add, Nat.add_comm]
    · have := hones j p hj
      rwa [Nat.zero_add] at this
    · rwa [Nat.zero_add] at hcount

theorem indexSelect32R64_spec (strict : Bool) (hlen : 64 * bm.length < 2 ^ 31) :
    ∃ selects ranks, indexSelect32R64 strict bm = some (.ok (selects, ranks)) ∧ Indexed bm selects ranks := by
  have hzero : ones (bitsOf bm) (64 * 0) = 0 := rfl
  have htotal := count_lt_of_small hlen
  obtain ⟨ranks, hranks⟩ := (ranksFrom_spec (by rw [hzero]; decide) (List.drop_zero (l := bm))).2 htotal
  obtain ⟨result, hresult, -, hexists⟩ := selectsFrom_spec strict 0 htotal List.drop_zero (le_refl 0)
    (by rw [hzero]; decide)
  obtain ⟨selects, rfl⟩ := hexists hlen
  rw [hzero] at hranks hresult
  have hindex : indexSelect32R64 strict bm = some (.ok (selects, 0 :: ranks)) := by
    rw [indexSelect32R64, hranks, hresult]
    rfl
  have hcounted := counted_of_indexSelect hindex
  exact ⟨selects, 0 :: ranks, hindex, hlen, hcounted.ranks_length, hcounted.rank,
    fun j p hj => (hcounted.select j p hj).1, hcounted.selects_length⟩

end Index

/-! ### Rank and select -/

section Select

variable {selects ranks : List Nat} {i : Nat}

/-- **`rank64` counts the ones before a position.** -/
theorem rank64_eq (h : Counted bm selects ranks) (hi : i ≤ 64 * bm.length) :
    rank64 strict bm ranks i = some (ones (bitsOf bm) i) := by
  unfold rank64
  by_cases hzero : i = 0
  · rw [if_pos hzero, hzero]
    rfl
  rw [if_neg hzero]
  have htotal := h.total
  have hbase := h.rank (i / 64) (by omega)
  have hdiv := Nat.div_add_mod i 64
  rw [hbase]
  dsimp only [Option.bind_some]
  split_ifs with hmod
  · rw [hmod, Nat.add_zero] at hdiv
    rw [hdiv]
  · have hword : i / 64 < bm.length := by omega
    have hget := List.getElem?_eq_getElem hword
    have hr : i % 64 < 64 := Nat.mod_lt i (by decide)
    have hones := ones_bitsOf hget hr.le
    have hle := ones_bitsOf_le_count bm i
    rw [hdiv] at hones
    rw [hget]
    dsimp only
    rw [countOnes_eq, popcount_and_mask _ hr, Checked.saturatingAdd_of_lt (by omega), ← hones]

/-- What is returned for a position: it must be an `i32`. -/
def clamped (bm : List UInt64) (p : Nat) : Nat := if p < 2 ^ 31 then p else bitmapEnd bm

theorem selectFrom_spec {words : List UInt64} {k : Nat} (strict : Bool) (remaining : Nat)
    (hwords : bm.drop k = words) (hlt : ones (bitsOf bm) (64 * k) + remaining < (bitsOf bm).count true) :
    ∃ p, selectFrom strict bm words k remaining = some (clamped bm p) ∧
      IsOne (bitsOf bm) (ones (bitsOf bm) (64 * k) + remaining) p := by
  induction words generalizing k remaining with
  | nil =>
    rw [List.drop_eq_nil_iff] at hwords
    rw [ones, List.take_of_length_le (by rw [length_bitsOf]; omega)] at hlt
    omega
  | cons w words ih =>
    obtain ⟨hw, hrest⟩ := getElem?_of_drop hwords
    have hsucc := ones_bitsOf_succ hw
    rw [selectFrom, countOnes_eq]
    split_ifs with hin
    · obtain ⟨t, ht, hone⟩ := selectWithinWord_spec strict hin
      refine ⟨64 * k + t, ?_, isOne_bitsOf hw hone⟩
      rw [ht, Option.map_some, bitPositionOrEnd, clamped, Nat.mul_comm]
    · obtain ⟨p, hp, hone⟩ := ih (remaining - popcount w) hrest (by omega)
      refine ⟨p, hp, ?_⟩
      rwa [hsucc, show ones (bitsOf bm) (64 * k) + popcount w + (remaining - popcount w) =
        ones (bitsOf bm) (64 * k) + remaining by omega] at hone

/-- The number of ones before a position in its own word. -/
def skew (bits : List Bool) (p : Nat) : Nat := ones bits p - ones bits (64 * (p / 64))

/-- **`select32R64` leaves out of account what the word of the sample has before the sample.** -/
theorem select32R64_spec (strict : Bool) (h : Counted bm selects ranks) (hi : i < (bitsOf bm).count true) :
    ∃ s p, IsOne (bitsOf bm) (64 * (i / 64)) s ∧ IsOne (bitsOf bm) (i - skew (bitsOf bm) s) p ∧
      select32R64 strict bm selects ranks i = some (clamped bm p) := by
  have hsmall := h.total
  have htotal := h.selects_length
  have hbucket : i / 64 < selects.length := by omega
  have hget := List.getElem?_eq_getElem hbucket
  have hs := (h.select _ _ hget).1
  generalize selects[i / 64] = s at hget hs
  have hslt := hs.lt_length
  rw [length_bitsOf] at hslt
  have hword : s / 64 < bm.length := by omega
  have hgetWord := List.getElem?_eq_getElem hword
  have hr : s % 64 < 64 := Nat.mod_lt s (by decide)
  have hrank := h.rank (s / 64) hword.le
  have hones := ones_bitsOf hgetWord hr.le
  rw [Nat.div_add_mod, hs.2] at hones
  have hskew : skew (bitsOf bm) s = ones (wordBits bm[s / 64]) (s % 64) := by
    rw [skew, hs.2, hones, Nat.add_sub_cancel_left]
  have hdrop : bm.drop (s / 64) = bm.drop (s / 64) := rfl
  obtain ⟨p, hp, hone⟩ := selectFrom_spec strict (i - 64 * (i / 64)) hdrop
    (by omega)
  refine ⟨s, p, hs, ?_, ?_⟩
  · rwa [hskew, show i - ones (wordBits bm[s / 64]) (s % 64) =
      ones (bitsOf bm) (64 * (s / 64)) + (i - 64 * (i / 64)) by omega]
  · have hne : selects ≠ [] := by
      rintro rfl
      exact absurd hbucket (Nat.not_lt_zero _)
    have hpre : Checked.saturatingAdd 31 (ones (bitsOf bm) (64 * (s / 64)))
        (Srs.countOnes (bm[s / 64] &&& (1 <<< UInt64.ofNat (s % 64) - 1))) = 64 * (i / 64) := by
      have hle := ones_bitsOf_le_count bm s
      rw [hs.2] at hle
      rw [countOnes_eq, popcount_and_mask _ hr, Checked.saturatingAdd_of_lt (by omega), ← hones]
    rw [select32R64, if_neg hne, hget]
    dsimp only
    rw [hgetWord, hrank]
    dsimp only
    rw [hpre, if_neg (by omega), hp]

/-- **Where select finds the right one: where the sample is the first one of its word, and the position an `i32`.**
`rank64` counts right everywhere. -/
theorem rank_select_exact_iff (h : indexSelect32R64 strict bm = some (.ok (selects, ranks))) :
    (∀ i ≤ 64 * bm.length, rank64 strict bm ranks i = some (ones (bitsOf bm) i)) ∧
      ∀ k p s, IsOne (bitsOf bm) k p → IsOne (bitsOf bm) (64 * (k / 64)) s →
        (select32R64 strict bm selects ranks k = some p ↔ skew (bitsOf bm) s = 0 ∧ p < 2 ^ 31) := by
  have hcounted := counted_of_indexSelect h
  refine ⟨fun i hi => rank64_eq hcounted hi, fun k p s hp hs => ?_⟩
  have hk : k < (bitsOf bm).count true := by
    have := ones_bitsOf_le_count bm (p + 1)
    rw [ones_succ hp.1, hp.2] at this
    omega
  obtain ⟨s', q, hs', hq, hselect⟩ := select32R64_spec strict hcounted hk
  obtain rfl := hs.unique hs'
  have hle : skew (bitsOf bm) s ≤ k := by
    have : 64 * (k / 64) ≤ k := Nat.mul_div_le k 64
    rw [skew, hs.2]
    omega
  have hplt := hp.lt_length
  rw [length_bitsOf] at hplt
  rw [hselect, Option.some_inj]
  constructor
  · intro heq
    have hpsmall : p < 2 ^ 31 := by
      by_contra hlarge
      rw [← heq, clamped, bitmapEnd] at hlarge
      split_ifs at hlarge <;> omega
    refine ⟨?_, hpsmall⟩
    by_contra hskew
    -- The one that is found is an earlier one.
    have hlt : q < p := by
      by_contra hge
      have := ones_mono (bitsOf bm) (Nat.not_lt.1 hge)
      rw [hp.2, hq.2] at this
      omega
    rw [clamped, if_pos (hlt.trans hpsmall)] at heq
    omega
  · rintro ⟨hskew, hsmall⟩
    rw [hskew, Nat.sub_zero] at hq
    obtain rfl := hp.unique hq
    rw [clamped, if_pos hsmall]

/-- A word with four zeros, and a word without. -/
def skewedBitmap : List UInt64 := [0x0FFFFFFFFFFFFFFF, 0xFFFFFFFFFFFFFFFF]

/-- The one number 63 is at 67. -/
theorem rank_select_exact_skewed : ∃ selects ranks, indexSelect32R64 false skewedBitmap = some (.ok (selects, ranks)) ∧
    select32R64 false skewedBitmap selects ranks 63 = some 67 := by
  have hindex : indexSelect32R64 false skewedBitmap = some (.ok ([0, 68], [0, 60, 124])) := rfl
  refine ⟨_, _, hindex, ((rank_select_exact_iff hindex).2 63 67 0 ?_ ?_).2 ?_⟩
  · exact ⟨by decide +kernel, by decide +kernel⟩
  · exact ⟨by decide +kernel, by decide +kernel⟩
  · exact ⟨by decide +kernel, by decide⟩

/-- The one number 64 is at 68, behind four others of its word; 64 is found. -/
theorem select_finds_earlier : ∃ selects ranks, indexSelect32R64 false skewedBitmap = some (.ok (selects, ranks)) ∧
    IsOne (bitsOf skewedBitmap) 64 68 ∧ select32R64 false skewedBitmap selects ranks 64 = some 64 :=
  ⟨[0, 68], [0, 60, 124], rfl, ⟨by decide +kernel, by decide +kernel⟩, rfl⟩

end Select

end WutherCore.Ruleset.Mrs
