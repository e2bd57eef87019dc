import Mathlib.Data.List.Basic
import Mathlib.Logic.Function.Basic
import Mathlib.Tactic.Ring

/-!
# The grids of the small sudoku

`generateAllGrids` fills the sixteen cells in the order of the rows and keeps what breaks no row, column
or box.  Both sudoku encodings of the source enumerate the grids in this way and take four cells of a
grid as a puzzle; what they rest on is that each grid has four cells no other grid agrees with
(`exists_unique_cells`), and that there are at least 256 grids (`length_generateAllGrids_ge`).

The enumeration is too slow to be evaluated on grids as such.  `codes` does the same on grids written as
numbers, three bits a cell, and looks only at the cells filled before; `map_digit_codes` says that it
gives the same grids, and `codes_covered` is evaluated.
-/

namespace WutherCore.Sudoku

/-- The numbers in the sixteen cells, in the order of the rows; zero while a cell is empty. -/
abbrev Grid := Nat → Nat

/-- Whether the row, the column and the box of the cell do not hold the number. -/
def allowed (g : Grid) (idx num : Nat) : Bool :=
  let row := idx / 4
  let col := idx % 4
  let br := row / 2 * 2
  let bc := col / 2 * 2
  ((List.range 4).all fun i => g (row * 4 + i) != num && g (i * 4 + col) != num) &&
    (List.range 2).all fun r => (List.range 2).all fun c => g ((br + r) * 4 + (bc + c)) != num

/-- `backtrack`, with `n` cells left to fill. -/
def backtrack : Nat → Grid → List Grid
  | 0, g => [g]
  | n + 1, g => (List.range' 1 4).flatMap fun num =>
    if allowed g (15 - n) num then backtrack n (Function.update g (15 - n) num) else []

/-- `generate_all_grids`. -/
@[irreducible] def generateAllGrids : List Grid := backtrack 16 fun _ => 0

/-- Whether two grids agree on the cells. -/
def agree (cells : List Nat) (g h : Grid) : Bool := cells.all fun p => h p == g p

theorem agree_iff {cells : List Nat} {g h : Grid} :
    agree cells g h = true ↔ ∀ p ∈ cells, h p = g p := by
  simp [agree]

/-! ### Cells hold one to four -/

theorem cells_of_mem_backtrack {n : Nat} {g h : Grid} (hn : n ≤ 16)
    (hg : ∀ p < 16 - n, 1 ≤ g p ∧ g p ≤ 4) (hh : h ∈ backtrack n g) :
    ∀ p < 16, 1 ≤ h p ∧ h p ≤ 4 := by
  induction n generalizing g with
  | zero =>
    rw [backtrack, List.mem_singleton] at hh
    rw [hh]
    exact hg
  | succ n ih =>
    rw [backtrack, List.mem_flatMap] at hh
    obtain ⟨num, hnum, hh⟩ := hh
    rw [List.mem_range'_1] at hnum
    split_ifs at hh with hallowed
    · refine ih (by omega) ?_ hh
      intro p hp
      by_cases hpi : p = 15 - n
      · rw [hpi, Function.update_self]
        omega
      · rw [Function.update_of_ne hpi]
        exact hg p (by omega)
    · exact absurd hh List.not_mem_nil

theorem cells_of_mem {g : Grid} (hg : g ∈ generateAllGrids) {p : Nat} (hp : p < 16) :
    1 ≤ g p ∧ g p ≤ 4 := by
  rw [generateAllGrids] at hg
  exact cells_of_mem_backtrack (le_refl _) (fun _ h => absurd h (Nat.not_lt_zero _)) hg p hp

/-! ### Grids as numbers -/

/-- Cell `i` of a grid written as a number. -/
def digit (code i : Nat) : Nat := Nat.land (Nat.shiftRight code (Nat.mul 3 i)) 7

/-- The cells before a cell that share its row, its column or its box. -/
def earlier : Nat → List Nat
  | 0 => []
  | 1 => [0]
  | 2 => [0, 1]
  | 3 => [0, 1, 2]
  | 4 => [0, 1]
  | 5 => [0, 1, 4]
  | 6 => [2, 3, 4, 5]
  | 7 => [2, 3, 4, 5, 6]
  | 8 => [0, 4]
  | 9 => [1, 5, 8]
  | 10 => [2, 6, 8, 9]
  | 11 => [3, 7, 8, 9, 10]
  | 12 => [0, 4, 8, 9]
  | 13 => [1, 5, 8, 9, 12]
  | 14 => [2, 6, 10, 11, 12, 13]
  | 15 => [3, 7, 10, 11, 12, 13, 14]
  | _ => []

/-- Whether no cell of the list holds the number. -/
def free (code num : Nat) : List Nat → Bool
  | [] => true
  | p :: ps => cond (Nat.beq (digit code p) num) false (free code num ps)

/-- `backtrack` on numbers. -/
def codes : Nat → Nat → List Nat
  | 0, code => [code]
  | n + 1, code => (List.range' 1 4).flatMap fun num =>
    cond (free code num (earlier (15 - n))) (codes n (code + num * 8 ^ (15 - n))) []

/-- The bits of the cells. -/
def maskOf : List Nat → Nat
  | [] => 0
  | p :: ps => Nat.lor (Nat.shiftLeft 7 (Nat.mul 3 p)) (maskOf ps)

/-- How many of the grids have these bits under the mask. -/
def countMasked (mask bits : Nat) : List Nat → Nat
  | [] => 0
  | c :: cs =>
    cond (Nat.beq (Nat.land c mask) bits) (Nat.succ (countMasked mask bits cs)) (countMasked mask bits cs)

/-- Whether the grid is alone with its bits under one of the masks. -/
def alone (all : List Nat) (code : Nat) : List Nat → Bool
  | [] => false
  | mask :: rest =>
    cond (Nat.beq (countMasked mask (Nat.land code mask) all) 1) true (alone all code rest)

/-- Whether each grid of the list is. -/
def allAlone (all masks : List Nat) : List Nat → Bool
  | [] => true
  | code :: rest => cond (alone all code masks) (allAlone all masks rest) false

/-- Four choices of four cells that suffice for all grids. -/
def choices : List (List Nat) := [[0, 2, 9, 11], [0, 3, 13, 14], [0, 2, 13, 15], [0, 3, 9, 10]]

theorem digit_eq (code i : Nat) : digit code i = code / 8 ^ i % 8 := by
  have h8 : (8 : Nat) ^ i = 2 ^ (3 * i) := by rw [show (8 : Nat) = 2 ^ 3 from rfl, ← Nat.pow_mul]
  have hshift : Nat.shiftRight code (Nat.mul 3 i) = code / 2 ^ (3 * i) :=
    Nat.shiftRight_eq_div_pow code (3 * i)
  rw [digit, hshift, h8]
  exact Nat.and_two_pow_sub_one_eq_mod _ 3

theorem digit_of_lt {code i : Nat} (h : code < 8 ^ i) : digit code i = 0 := by
  rw [digit_eq, Nat.div_eq_of_lt h, Nat.zero_mod]

theorem digit_write {code idx num : Nat} (hcode : code < 8 ^ idx) (hnum : num < 8) :
    digit (code + num * 8 ^ idx) = Function.update (digit code) idx num := by
  funext i
  rw [digit_eq]
  rcases Nat.lt_trichotomy i idx with hi | rfl | hi
  · -- below the cell the number is a multiple of eight
    rw [Function.update_of_ne (by omega), digit_eq]
    have hpow : num * 8 ^ idx = 8 ^ i * (8 * (num * 8 ^ (idx - i - 1))) := by
      have h : idx = i + (1 + (idx - i - 1)) := by omega
      conv_lhs => rw [h, Nat.pow_add, Nat.pow_add, Nat.pow_one]
      ring
    rw [hpow, Nat.add_mul_div_left _ _ (Nat.pow_pos (by decide)), Nat.add_mul_mod_self_left]
  · rw [Function.update_self, Nat.add_mul_div_right _ _ (Nat.pow_pos (by decide)),
      Nat.div_eq_of_lt hcode, Nat.zero_add, Nat.mod_eq_of_lt hnum]
  · have hle : 8 ^ (idx + 1) ≤ 8 ^ i := Nat.pow_le_pow_right (by decide) hi
    have hsum : code + num * 8 ^ idx < 8 ^ (idx + 1) := by
      have h7 : num * 8 ^ idx ≤ 7 * 8 ^ idx := Nat.mul_le_mul_right _ (by omega)
      rw [Nat.pow_succ]
      omega
    rw [Function.update_of_ne (by omega), digit_of_lt (by omega), Nat.div_eq_of_lt (by omega)]

theorem free_iff {code num : Nat} {ps : List Nat} :
    free code num ps = true ↔ ∀ p ∈ ps, digit code p ≠ num := by
  induction ps with
  | nil => simp [free]
  | cons p ps ih =>
    rw [free, List.forall_mem_cons, ← ih]
    cases h : Nat.beq (digit code p) num with
    | true => simp [Nat.eq_of_beq_eq_true h]
    | false => simp [Nat.ne_of_beq_eq_false h]

/-- The cells that `allowed` looks at. -/
def looked (idx : Nat) : List Nat :=
  let row := idx / 4
  let col := idx % 4
  let br := row / 2 * 2
  let bc := col / 2 * 2
  (List.range 4).flatMap (fun i => [row * 4 + i, i * 4 + col]) ++
    (List.range 2).flatMap fun r => (List.range 2).map fun c => (br + r) * 4 + (bc + c)

theorem allowed_iff {g : Grid} {idx num : Nat} :
    allowed g idx num = true ↔ ∀ p ∈ looked idx, g p ≠ num := by
  simp only [allowed, looked, Bool.and_eq_true, List.all_eq_true, bne_iff_ne, List.mem_append,
    List.mem_flatMap, List.mem_map, List.mem_cons, List.not_mem_nil, or_false]
  constructor
  · rintro ⟨hlines, hbox⟩ p (⟨i, hi, rfl | rfl⟩ | ⟨r, hr, c, hc, rfl⟩)
    · exact (hlines i hi).1
    · exact (hlines i hi).2
    · exact hbox r hr c hc
  · intro h
    refine ⟨fun i hi => ⟨h _ (.inl ⟨i, hi, .inl rfl⟩), h _ (.inl ⟨i, hi, .inr rfl⟩)⟩, ?_⟩
    intro r hr c hc
    exact h _ (.inr ⟨r, hr, c, hc, rfl⟩)

theorem looked_cases : ∀ idx < 16, (∀ p ∈ looked idx, p ∈ earlier idx ∨ idx ≤ p) ∧
    ∀ p ∈ earlier idx, p ∈ looked idx := by
  decide

theorem allowed_digit {code idx num : Nat} (hidx : idx < 16) (hcode : code < 8 ^ idx)
    (hnum : 0 < num) : allowed (digit code) idx num = free code num (earlier idx) := by
  rw [Bool.eq_iff_iff, allowed_iff, free_iff]
  obtain ⟨hlooked, hearlier⟩ := looked_cases idx hidx
  constructor
  · intro h p hp
    exact h p (hearlier p hp)
  · intro h p hp
    rcases hlooked p hp with hp | hp
    · exact h p hp
    · have hle : 8 ^ idx ≤ 8 ^ p := Nat.pow_le_pow_right (by decide) hp
      rw [digit_of_lt (by omega)]
      omega

/-- **The enumeration on numbers gives the grids.** -/
theorem map_digit_codes {n code : Nat} (hn : n ≤ 16) (hcode : code < 8 ^ (16 - n)) :
    (codes n code).map digit = backtrack n (digit code) := by
  induction n generalizing code with
  | zero => rfl
  | succ n ih =>
    rw [codes, backtrack, List.map_flatMap]
    apply List.flatMap_congr
    intro num hnum
    rw [List.mem_range'_1] at hnum
    have hidx : 16 - (n + 1) = 15 - n := by omega
    rw [hidx] at hcode
    rw [allowed_digit (by omega) hcode (by omega)]
    cases free code num (earlier (15 - n)) with
    | false => simp
    | true =>
      have hnext : code + num * 8 ^ (15 - n) < 8 ^ (16 - n) := by
        have h4 : num * 8 ^ (15 - n) ≤ 4 * 8 ^ (15 - n) := Nat.mul_le_mul_right _ (by omega)
        rw [show 16 - n = 15 - n + 1 by omega, Nat.pow_succ]
        omega
      rw [cond_true, if_pos rfl, ih (by omega) hnext, digit_write hcode (by omega)]

theorem generateAllGrids_eq : generateAllGrids = (codes 16 0).map digit := by
  rw [map_digit_codes (le_refl _) (by decide), generateAllGrids]
  congr 1
  funext i
  rw [digit_of_lt (Nat.pow_pos (by decide))]

/-! ### Each grid has a puzzle -/

theorem land_shiftLeft (c k : Nat) :
    Nat.land c (Nat.shiftLeft 7 k) = Nat.shiftLeft (Nat.land (Nat.shiftRight c k) 7) k := by
  have h : c &&& 7 <<< k = (c >>> k &&& 7) <<< k := by
    apply Nat.eq_of_testBit_eq
    intro j
    rw [Nat.testBit_and, Nat.testBit_shiftLeft, Nat.testBit_shiftLeft, Nat.testBit_and,
      Nat.testBit_shiftRight]
    by_cases hj : k ≤ j
    · rw [Nat.add_sub_cancel' hj, Bool.and_left_comm]
    · simp [hj]
  exact h

theorem land_maskOf_congr {c code : Nat} {cells : List Nat}
    (h : ∀ p ∈ cells, digit c p = digit code p) :
    Nat.land c (maskOf cells) = Nat.land code (maskOf cells) := by
  induction cells with
  | nil => simp [maskOf]
  | cons p ps ih =>
    rw [List.forall_mem_cons] at h
    have hor : ∀ a b d : Nat, Nat.land a (Nat.lor b d) = Nat.lor (Nat.land a b) (Nat.land a d) :=
      Nat.and_or_distrib_left
    have hp := h.1
    simp only [digit] at hp
    rw [maskOf, hor, hor, ih h.2, land_shiftLeft, land_shiftLeft, hp]

theorem countP_agree_le (cells : List Nat) (code : Nat) (cs : List Nat) :
    (cs.map digit).countP (agree cells (digit code)) ≤
      countMasked (maskOf cells) (Nat.land code (maskOf cells)) cs := by
  induction cs with
  | nil => exact Nat.zero_le _
  | cons c cs ih =>
    rw [countMasked, List.map_cons, List.countP_cons]
    by_cases hagree : agree cells (digit code) (digit c) = true
    · have hbits : Nat.beq (Nat.land c (maskOf cells)) (Nat.land code (maskOf cells)) = true := by
        rw [land_maskOf_congr (agree_iff.1 hagree)]
        exact Nat.beq_refl _
      rw [hbits, cond_true, if_pos hagree]
      exact Nat.succ_le_succ ih
    · rw [if_neg hagree, Nat.add_zero]
      cases Nat.beq (Nat.land c (maskOf cells)) (Nat.land code (maskOf cells)) with
      | true => exact Nat.le_succ_of_le ih
      | false => exact ih

theorem countP_agree_eq_one {cells : List Nat} {code : Nat} {cs : List Nat} (hcode : code ∈ cs)
    (h : countMasked (maskOf cells) (Nat.land code (maskOf cells)) cs = 1) :
    (cs.map digit).countP (agree cells (digit code)) = 1 := by
  have hle := countP_agree_le cells code cs
  have hpos : 0 < (cs.map digit).countP (agree cells (digit code)) :=
    List.countP_pos_iff.2 ⟨digit code, List.mem_map_of_mem hcode, agree_iff.2 fun _ _ => rfl⟩
  omega

theorem exists_of_alone {all : List Nat} {code : Nat} {masks : List Nat}
    (h : alone all code masks = true) :
    ∃ mask ∈ masks, countMasked mask (Nat.land code mask) all = 1 := by
  induction masks with
  | nil => exact absurd h Bool.false_ne_true
  | cons mask rest ih =>
    rw [alone] at h
    cases hone : Nat.beq (countMasked mask (Nat.land code mask) all) 1 with
    | true => exact ⟨mask, List.mem_cons_self, Nat.eq_of_beq_eq_true hone⟩
    | false =>
      rw [hone, cond_false] at h
      obtain ⟨mask', hmem, hcount⟩ := ih h
      exact ⟨mask', List.mem_cons_of_mem _ hmem, hcount⟩

theorem alone_of_allAlone {all masks l : List Nat}
    (h : allAlone all masks l = true) : ∀ code ∈ l, alone all code masks = true := by
  induction l with
  | nil => simp
  | cons code rest ih =>
    rw [allAlone] at h
    cases hcode : alone all code masks with
    | false => simp [hcode] at h
    | true =>
      rw [hcode, cond_true] at h
      exact List.forall_mem_cons.2 ⟨hcode, ih h⟩

theorem digit_of_mem_codes {n code c i : Nat} (hn : n ≤ 16) (hcode : code < 8 ^ (16 - n))
    (hc : c ∈ codes n code) (hi : i < 16 - n) : digit c i = digit code i := by
  induction n generalizing code with
  | zero => rw [List.mem_singleton.1 hc]
  | succ n ih =>
    rw [codes, List.mem_flatMap] at hc
    obtain ⟨num, hnum, hc⟩ := hc
    rw [List.mem_range'_1] at hnum
    rw [show 16 - (n + 1) = 15 - n by omega] at hcode hi
    cases hfree : free code num (earlier (15 - n)) with
    | false => simp [hfree] at hc
    | true =>
      rw [hfree, cond_true] at hc
      have hnext : code + num * 8 ^ (15 - n) < 8 ^ (16 - n) := by
        have h4 : num * 8 ^ (15 - n) ≤ 4 * 8 ^ (15 - n) := Nat.mul_le_mul_right _ (by omega)
        rw [show 16 - n = 15 - n + 1 by omega, Nat.pow_succ]
        omega
      rw [ih (by omega) hnext hc (by omega), digit_write hcode (by omega),
        Function.update_of_ne (by omega)]

theorem codes_sixteen : codes 16 0 = (List.range' 1 4).flatMap (codes 15) := by
  rw [codes]
  apply List.flatMap_congr
  intro num _
  simp [earlier, free]

/-- The evaluation: each number starts at least 64 grids, and each grid is alone among them with four of
its cells. -/
theorem codes_covered : ∀ num ∈ List.range' 1 4,
    (Nat.ble 64 (codes 15 num).length &&
      allAlone (codes 15 num) (choices.map maskOf) (codes 15 num)) = true := by
  -- one evaluation for each number, so that no two are in memory together
  simp only [List.range'_succ, List.range'_zero, List.forall_mem_cons, Nat.reduceAdd]
  refine ⟨?_, ?_, ?_, ?_, List.forall_mem_nil _⟩
  · decide +kernel
  · decide +kernel
  · decide +kernel
  · decide +kernel

theorem length_codes_ge {num : Nat} (hnum : num ∈ List.range' 1 4) : 64 ≤ (codes 15 num).length := by
  have h := codes_covered num hnum
  generalize codes 15 num = l at h ⊢
  rw [Bool.and_eq_true] at h
  exact Nat.le_of_ble_eq_true h.1

theorem length_generateAllGrids_ge : 256 ≤ generateAllGrids.length := by
  have h1 := length_codes_ge (show 1 ∈ List.range' 1 4 by decide)
  have h2 := length_codes_ge (show 2 ∈ List.range' 1 4 by decide)
  have h3 := length_codes_ge (show 3 ∈ List.range' 1 4 by decide)
  have h4 := length_codes_ge (show 4 ∈ List.range' 1 4 by decide)
  rw [generateAllGrids_eq, List.length_map, codes_sixteen]
  simp only [List.range'_succ, List.range'_zero, List.flatMap_cons, List.flatMap_nil, List.length_append,
    List.length_nil, Nat.reduceAdd]
  omega

theorem zero_mem_choices : ∀ cells ∈ choices, 0 ∈ cells := by decide

theorem countP_agree_of_ne {num num' code : Nat} (hnum : num ∈ List.range' 1 4)
    (hnum' : num' ∈ List.range' 1 4) (hne : num' ≠ num) (hcode : code ∈ codes 15 num)
    {cells : List Nat} (hcells : 0 ∈ cells) :
    ((codes 15 num').map digit).countP (agree cells (digit code)) = 0 := by
  rw [List.mem_range'_1] at hnum hnum'
  rw [List.countP_eq_zero]
  intro h hh hagree
  obtain ⟨c, hc, rfl⟩ := List.mem_map.1 hh
  have hfirst : ∀ n < 8, digit n 0 = n := by decide
  have hc0 := digit_of_mem_codes (i := 0) (by decide) (by omega) hc (by decide)
  have hcode0 := digit_of_mem_codes (i := 0) (by decide) (by omega) hcode (by decide)
  have h0 := agree_iff.1 hagree 0 hcells
  rw [hc0, hcode0, hfirst _ (by omega), hfirst _ (by omega)] at h0
  exact hne h0

/-- **Each grid has four cells in which no other grid agrees with it.** -/
theorem exists_unique_cells {g : Grid} (hg : g ∈ generateAllGrids) :
    ∃ cells ∈ choices, generateAllGrids.countP (agree cells g) = 1 := by
  rw [generateAllGrids_eq, codes_sixteen] at hg ⊢
  obtain ⟨code, hcode, rfl⟩ := List.mem_map.1 hg
  obtain ⟨num, hnum, hcode⟩ := List.mem_flatMap.1 hcode
  have halone : ∃ cells ∈ choices, ((codes 15 num).map digit).countP (agree cells (digit code)) = 1 := by
    have h := codes_covered num hnum
    generalize codes 15 num = l at h hcode ⊢
    rw [Bool.and_eq_true] at h
    obtain ⟨mask, hmask, hone⟩ := exists_of_alone (alone_of_allAlone h.2 code hcode)
    obtain ⟨cells, hcells, rfl⟩ := List.mem_map.1 hmask
    exact ⟨cells, hcells, countP_agree_eq_one hcode hone⟩
  obtain ⟨cells, hcells, hone⟩ := halone
  refine ⟨cells, hcells, ?_⟩
  -- the grids that start with another number count nothing
  have hother : ∀ num' ∈ List.range' 1 4,
      ((codes 15 num').map digit).countP (agree cells (digit code)) = if num' = num then 1 else 0 := by
    intro num' hnum'
    split_ifs with heq
    · rw [heq, hone]
    · exact countP_agree_of_ne hnum hnum' heq hcode (zero_mem_choices cells hcells)
  have hcounts : (List.range' 1 4).map
      (List.countP (agree cells (digit code)) ∘ fun num' => (codes 15 num').map digit) =
        (List.range' 1 4).map fun num' => if num' = num then 1 else 0 := List.map_congr_left hother
  rw [List.map_flatMap, List.countP_flatMap, hcounts]
  clear hother hcounts hone hcode hg
  revert num
  decide

end WutherCore.Sudoku
