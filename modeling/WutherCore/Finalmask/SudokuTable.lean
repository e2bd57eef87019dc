import Mathlib
import WutherCore.Data.AssocMap
import WutherCore.Finalmask.SudokuLayout
import WutherCore.Sudoku.Clues

/-!
# Tables of the sudoku mask

`buildTable` gives each byte a grid and, for each four cells in which no other grid agrees with it, the
four hints of these cells.  The grids come in an order drawn from the password; the generator behind it is
a parameter, the numbers it gives for the places of the shuffle.

A table that is built is sound (`Table.Sound`): each byte has hints, and any order of them leads back to
the byte.  That a table is always built (`exists_buildTable`) rests on each grid having four such cells.
-/

namespace WutherCore.Finalmask

open WutherCore.Data WutherCore.Sudoku WutherCore.Young WutherCore.Text

/-- `Table`. -/
structure Table where
  encode : List (List (List UInt8))
  decode : AssocMap Nat UInt8
  layout : Layout

/-- The numbers `lo..hi`. -/
def numbers (lo hi : Nat) : List Nat := List.range' lo (hi - lo)

/-- `hint_positions`. -/
def hintPositions : List (List Nat) :=
  (numbers 0 13).flatMap fun a => (numbers (a + 1) 14).flatMap fun b =>
    (numbers (b + 1) 15).flatMap fun c => (numbers (c + 1) 16).map fun d => [a, b, c, d]

/-- The groups of the cells, in order. -/
def groupsOf (grid : Grid) (positions : List Nat) : List UInt8 :=
  Vec.sort (positions.map (clueGroup grid))

/-- `pack_key`: four bytes as a number. -/
def packKey (bytes : List UInt8) : Nat := ofBytesBE bytes

/-- The patterns of a grid: the groups of each four cells in which no other grid agrees with it. -/
def patternsOf (grids : List Grid) (grid : Grid) : List (List UInt8) :=
  hintPositions.filterMap fun positions =>
    let groups := groupsOf grid positions
    if (grids.countP fun g => packKey (groupsOf g positions) == packKey groups) = 1 then
      some groups
    else
      none

/-- `build_base_patterns`.  The source goes through the cells first and adds to the patterns of each
grid, which gives the same lists. -/
def buildBasePatterns : Except String (List (List (List UInt8))) :=
  let grids := generateAllGrids
  let patterns := grids.map (patternsOf grids)
  if patterns.any List.isEmpty then
    .error "a sudoku grid has no uniquely decodable clue set"
  else
    .ok patterns

/-- `slice::swap`. -/
def swap (l : List Nat) (i j : Nat) : List Nat := (l.set i (l.getD j 0)).set j (l.getD i 0)

/-- The shuffle of `build_table`: from the last place down, each place is swapped with one at or before
it.  `values` are the outputs of the generator that the reduction accepts. -/
def shuffle (values : Nat → UInt32) (n : Nat) : List Nat :=
  (numbers 1 n).reverse.foldl
    (fun order index => swap order index ((values index).toNat * (index + 1) / 2 ^ 32)) (List.range n)

/-- The hints of one byte are added to the table of keys. -/
def addPatterns (layout : Layout) (byte : UInt8) (decode : AssocMap Nat UInt8)
    (patterns : List (List UInt8)) : Except IoError (AssocMap Nat UInt8) :=
  patterns.foldlM (fun decode groups =>
    let key := packKey (Vec.sort (groups.map layout.encodeGroup))
    if (decode.get? key).any (· ≠ byte) then
      .error (invalidInput "sudoku decode key collision")
    else
      .ok (decode.insert key byte)) decode

/-- The table of the patterns chosen for the bytes. -/
def tableOf (layout : Layout) (chosen : List (List (List UInt8))) : Except IoError Table := do
  let decode ← (List.range 256).foldlM (fun decode byte =>
    addPatterns layout (UInt8.ofNat byte) decode (chosen.getD byte [])) AssocMap.empty
  .ok ⟨chosen.map fun patterns => patterns.map fun groups => groups.map layout.encodeGroup, decode, layout⟩

/-- `build_table`. -/
def buildTable (values : Nat → UInt32) (layout : Layout) : Except IoError Table := do
  let patterns ← buildBasePatterns.mapError invalidInput
  if patterns.length < 256 then
    .error (invalidInput "not enough sudoku grids")
  else
    let order := shuffle values patterns.length
    tableOf layout ((List.range 256).map fun byte => patterns.getD (order.getD byte 0) [])

namespace Table

/-- The byte of four hints, in whatever order they come. -/
def lookup (table : Table) (hints : List UInt8) : Option UInt8 := table.decode.get? (packSorted hints)

/-- What the encodings need of a table. -/
structure Sound (table : Table) : Prop where
  layout : table.layout.Sound
  nonempty : ∀ byte : UInt8, table.encode.getD byte.toNat [] ≠ []
  length : ∀ byte : UInt8, ∀ hints ∈ table.encode.getD byte.toNat [], hints.length = 4
  hint : ∀ byte : UInt8, ∀ hints ∈ table.encode.getD byte.toNat [], ∀ h ∈ hints,
    table.layout.isHint h = true
  lookup_eq : ∀ byte : UInt8, ∀ hints ∈ table.encode.getD byte.toNat [], ∀ hints',
    hints'.Perm hints → table.lookup hints' = some byte

end Table

/-! ### The table of keys -/

/-- The patterns lead to the byte. -/
def Leads (layout : Layout) (decode : AssocMap Nat UInt8) (byte : UInt8) (patterns : List (List UInt8)) :
    Prop :=
  ∀ groups ∈ patterns, decode.get? (packKey (Vec.sort (groups.map layout.encodeGroup))) = some byte

/-- Adding patterns keeps what the keys before lead to, and the new ones lead to the byte. -/
theorem addPatterns_spec {layout : Layout} {byte : UInt8} {decode decode' : AssocMap Nat UInt8}
    {patterns : List (List UInt8)} (h : addPatterns layout byte decode patterns = .ok decode') :
    (∀ key b, decode.get? key = some b → decode'.get? key = some b) ∧
      Leads layout decode' byte patterns := by
  induction patterns generalizing decode with
  | nil =>
    cases h
    exact ⟨fun _ _ h => h, fun _ h => absurd h List.not_mem_nil⟩
  | cons groups patterns ih =>
    unfold addPatterns at h
    rw [List.foldlM_cons] at h
    obtain ⟨next, hnext, h⟩ := bind_eq_ok.1 h
    obtain ⟨hkeep, hleads⟩ := ih h
    dsimp only at hnext
    split_ifs at hnext with hclash
    cases hnext
    have hstep : ∀ key b, decode.get? key = some b →
        (decode.insert (packKey (Vec.sort (groups.map layout.encodeGroup))) byte).get? key = some b := by
      intro key b hkey
      by_cases hsame : key = packKey (Vec.sort (groups.map layout.encodeGroup))
      · -- no clash, so the key led to this byte already
        rw [← hsame, hkey] at hclash
        have hb : b = byte := by simpa using hclash
        rw [← hsame, AssocMap.get?_insert_self, hb]
      · rw [AssocMap.get?_insert_of_ne _ _ hsame, hkey]
    refine ⟨fun key b hkey => hkeep key b (hstep key b hkey), ?_⟩
    intro g hg
    rcases List.mem_cons.1 hg with rfl | hg
    · exact hkeep _ _ (AssocMap.get?_insert_self _ _ _)
    · exact hleads g hg

theorem addAll_spec {layout : Layout} {chosen : List (List (List UInt8))} {bytes : List Nat}
    {decode decode' : AssocMap Nat UInt8}
    (h : bytes.foldlM (fun decode byte =>
      addPatterns layout (UInt8.ofNat byte) decode (chosen.getD byte [])) decode = .ok decode') :
    (∀ key b, decode.get? key = some b → decode'.get? key = some b) ∧
      ∀ byte ∈ bytes, Leads layout decode' (UInt8.ofNat byte) (chosen.getD byte []) := by
  induction bytes generalizing decode with
  | nil =>
    cases h
    exact ⟨fun _ _ h => h, fun _ h => absurd h List.not_mem_nil⟩
  | cons byte bytes ih =>
    rw [List.foldlM_cons] at h
    obtain ⟨next, hnext, h⟩ := bind_eq_ok.1 h
    obtain ⟨hkeep, hrest⟩ := ih h
    obtain ⟨hkeep', hleads⟩ := addPatterns_spec hnext
    refine ⟨fun key b hkey => hkeep _ _ (hkeep' _ _ hkey), ?_⟩
    intro b hb
    rcases List.mem_cons.1 hb with rfl | hb
    · exact fun groups hgroups => hkeep _ _ (hleads groups hgroups)
    · exact hrest b hb

/-! ### The order of the grids -/

theorem mem_numbers {lo hi x : Nat} : x ∈ numbers lo hi ↔ lo ≤ x ∧ x < hi := by
  rw [numbers, List.mem_range'_1]
  omega

theorem swap_perm {l : List Nat} {i j : Nat} (hi : i < l.length) (hj : j < l.length) :
    (swap l i j).Perm l := by
  rw [swap, List.getD_eq_getElem _ _ hi, List.getD_eq_getElem _ _ hj]
  exact List.set_set_perm hi hj

theorem reduced_lt (value : UInt32) (n : Nat) (hn : 0 < n) : value.toNat * n / 2 ^ 32 < n := by
  rw [Nat.div_lt_iff_lt_mul (by decide), Nat.mul_comm n]
  exact Nat.mul_lt_mul_of_pos_right value.toNat_lt hn

theorem shuffle_perm (values : Nat → UInt32) (n : Nat) : (shuffle values n).Perm (List.range n) := by
  have hfold : ∀ (indices : List Nat) (order : List Nat), order.length = n →
      (∀ index ∈ indices, index < n) →
      (indices.foldl (fun order index => swap order index ((values index).toNat * (index + 1) / 2 ^ 32))
        order).Perm order := by
    intro indices
    induction indices with
    | nil => exact fun _ _ _ => List.Perm.refl _
    | cons index indices ih =>
      intro order hlen hlt
      rw [List.forall_mem_cons] at hlt
      have hj := reduced_lt (values index) (index + 1) (Nat.succ_pos _)
      have hswap : (swap order index ((values index).toNat * (index + 1) / 2 ^ 32)).Perm order :=
        swap_perm (by omega) (by omega)
      exact (ih _ (hswap.length_eq.trans hlen) hlt.2).trans hswap
  apply hfold _ _ List.length_range
  intro index hindex
  rw [List.mem_reverse, mem_numbers] at hindex
  exact hindex.2

/-! ### The patterns -/

theorem mem_hintPositions {l : List Nat} :
    l ∈ hintPositions ↔ ∃ a b c d, l = [a, b, c, d] ∧ a < b ∧ b < c ∧ c < d ∧ d < 16 := by
  simp only [hintPositions, List.mem_flatMap, List.mem_map, mem_numbers]
  constructor
  · rintro ⟨a, ha, b, hb, c, hc, d, hd, rfl⟩
    exact ⟨a, b, c, d, rfl, by omega, by omega, by omega, by omega⟩
  · rintro ⟨a, b, c, d, rfl, hab, hbc, hcd, hd⟩
    exact ⟨a, by omega, b, by omega, c, by omega, d, by omega, rfl⟩

theorem cells_of_mem_hintPositions {l : List Nat} (h : l ∈ hintPositions) : l.length = 4 ∧ Cells l := by
  obtain ⟨a, b, c, d, rfl, hab, hbc, hcd, hd⟩ := mem_hintPositions.1 h
  refine ⟨rfl, ?_, ?_⟩
  · simp only [List.pairwise_cons, List.forall_mem_cons, List.not_mem_nil, false_implies, implies_true,
      List.Pairwise.nil, and_true]
    omega
  · simp only [List.forall_mem_cons, List.not_mem_nil, false_implies, implies_true, and_true]
    omega

theorem choices_subset : ∀ cells ∈ choices, cells ∈ hintPositions := by
  intro cells hcells
  rw [mem_hintPositions]
  simp only [choices, List.mem_cons, List.not_mem_nil, or_false] at hcells
  rcases hcells with rfl | rfl | rfl | rfl
  · exact ⟨0, 2, 9, 11, rfl, by decide⟩
  · exact ⟨0, 3, 13, 14, rfl, by decide⟩
  · exact ⟨0, 2, 13, 15, rfl, by decide⟩
  · exact ⟨0, 3, 9, 10, rfl, by decide⟩

theorem groupsOf_perm (grid : Grid) (positions : List Nat) :
    (groupsOf grid positions).Perm (positions.map (clueGroup grid)) := List.perm_insertionSort _ _

theorem packKey_eq_iff {g h : Grid} (hg : g ∈ generateAllGrids) (hh : h ∈ generateAllGrids)
    {ps : List Nat} (hps : Cells ps) :
    packKey (groupsOf h ps) = packKey (groupsOf g ps) ↔ agree ps g h = true := by
  rw [agree_iff]
  constructor
  · intro hkey
    have hperm : (ps.map (clueGroup h)).Perm (ps.map (clueGroup g)) :=
      perm_of_packSorted_eq (by rw [List.length_map, List.length_map]) hkey
    exact (groups_perm hg hh hps hps hperm.symm).2
  · intro hagree
    rw [groupsOf, groupsOf, groups_congr hagree]

theorem countP_key_eq {g : Grid} (hg : g ∈ generateAllGrids) {ps : List Nat} (hps : Cells ps) :
    (generateAllGrids.countP fun h => packKey (groupsOf h ps) == packKey (groupsOf g ps)) =
      generateAllGrids.countP (agree ps g) := by
  apply List.countP_congr
  intro h hh
  rw [beq_iff_eq]
  exact packKey_eq_iff hg hh hps

theorem mem_patternsOf {g : Grid} (hg : g ∈ generateAllGrids) {groups : List UInt8} :
    groups ∈ patternsOf generateAllGrids g ↔ ∃ ps ∈ hintPositions, groups = groupsOf g ps ∧
      generateAllGrids.countP (agree ps g) = 1 := by
  rw [patternsOf, List.mem_filterMap]
  constructor
  · rintro ⟨ps, hps, h⟩
    obtain ⟨hcount, h⟩ := Option.ite_none_right_eq_some.1 h
    rw [countP_key_eq hg (cells_of_mem_hintPositions hps).2] at hcount
    exact ⟨ps, hps, (Option.some.inj h).symm, hcount⟩
  · rintro ⟨ps, hps, rfl, hcount⟩
    rw [← countP_key_eq hg (cells_of_mem_hintPositions hps).2] at hcount
    exact ⟨ps, hps, if_pos hcount⟩

theorem length_of_mem_patternsOf {g : Grid} (hg : g ∈ generateAllGrids) {groups : List UInt8}
    (h : groups ∈ patternsOf generateAllGrids g) : groups.length = 4 := by
  obtain ⟨ps, hps, rfl, -⟩ := (mem_patternsOf hg).1 h
  rw [(groupsOf_perm g ps).length_eq, List.length_map, (cells_of_mem_hintPositions hps).1]

theorem buildBasePatterns_eq :
    buildBasePatterns = .ok (generateAllGrids.map (patternsOf generateAllGrids)) := by
  unfold buildBasePatterns
  dsimp only
  rw [if_neg]
  rw [List.any_eq_true]
  rintro ⟨patterns, hpatterns, hempty⟩
  obtain ⟨g, hg, rfl⟩ := List.mem_map.1 hpatterns
  obtain ⟨cells, hcells, hone⟩ := exists_unique_cells hg
  have hmem : groupsOf g cells ∈ patternsOf generateAllGrids g :=
    (mem_patternsOf hg).2 ⟨cells, choices_subset cells hcells, rfl, hone⟩
  rw [List.isEmpty_iff.1 hempty] at hmem
  exact List.not_mem_nil hmem

/-! ### A table that is built -/

section Build

variable {values : Nat → UInt32} {layout : Layout} {table : Table}

/-- The place of the grid of a byte. -/
def placeOf (values : Nat → UInt32) (byte : Nat) : Nat :=
  (shuffle values generateAllGrids.length).getD byte 0

theorem placeOf_lt {byte : Nat} (hbyte : byte < 256) : placeOf values byte < generateAllGrids.length := by
  have hperm := shuffle_perm values generateAllGrids.length
  have hlen := length_generateAllGrids_ge
  have hlt : byte < (shuffle values generateAllGrids.length).length := by
    rw [hperm.length_eq, List.length_range]
    omega
  have hmem : placeOf values byte ∈ shuffle values generateAllGrids.length := by
    rw [placeOf, List.getD_eq_getElem _ _ hlt]
    exact List.getElem_mem hlt
  exact List.mem_range.1 (hperm.subset hmem)

theorem placeOf_injective {byte byte' : Nat} (hbyte : byte < 256) (hbyte' : byte' < 256)
    (h : placeOf values byte = placeOf values byte') : byte = byte' := by
  have hperm := shuffle_perm values generateAllGrids.length
  have hlen := length_generateAllGrids_ge
  have hnodup : (shuffle values generateAllGrids.length).Nodup := hperm.nodup_iff.2 List.nodup_range
  have hlt : ∀ b < 256, b < (shuffle values generateAllGrids.length).length := by
    intro b hb
    rw [hperm.length_eq, List.length_range]
    omega
  rw [placeOf, placeOf, List.getD_eq_getElem _ _ (hlt _ hbyte), List.getD_eq_getElem _ _ (hlt _ hbyte')] at h
  exact (List.Nodup.getElem_inj_iff hnodup).1 h

/-- The grid of a byte. -/
def gridOf (values : Nat → UInt32) (byte : Nat) : Grid :=
  generateAllGrids.getD (placeOf values byte) fun _ => 0

theorem gridOf_mem {byte : Nat} (hbyte : byte < 256) : gridOf values byte ∈ generateAllGrids := by
  rw [gridOf, List.getD_eq_getElem _ _ (placeOf_lt hbyte)]
  exact List.getElem_mem _

/-- The patterns of the bytes. -/
def chosenOf (values : Nat → UInt32) : List (List (List UInt8)) :=
  (List.range 256).map fun byte => patternsOf generateAllGrids (gridOf values byte)

theorem chosenOf_getD {byte : Nat} (hbyte : byte < 256) :
    (chosenOf values).getD byte [] = patternsOf generateAllGrids (gridOf values byte) := by
  rw [chosenOf, List.getD_eq_getElem?_getD, List.getElem?_map, List.getElem?_range hbyte,
    Option.map_some, Option.getD_some]

theorem buildTable_of {patterns : List (List (List UInt8))} (h : buildBasePatterns = .ok patterns)
    (hlen : 256 ≤ patterns.length) :
    buildTable values layout = tableOf layout ((List.range 256).map fun byte =>
      patterns.getD ((shuffle values patterns.length).getD byte 0) []) := by
  rw [buildTable, h]
  simp only [Except.mapError, bind, Except.bind]
  rw [if_neg (Nat.not_lt.2 hlen)]

theorem buildTable_eq (values : Nat → UInt32) (layout : Layout) :
    buildTable values layout = tableOf layout (chosenOf values) := by
  have hlen : (generateAllGrids.map (patternsOf generateAllGrids)).length = generateAllGrids.length :=
    List.length_map _
  have hge : 256 ≤ (generateAllGrids.map (patternsOf generateAllGrids)).length :=
    Nat.le_trans length_generateAllGrids_ge (Nat.le_of_eq hlen.symm)
  rw [buildTable_of buildBasePatterns_eq hge, hlen, chosenOf]
  refine congrArg (tableOf layout) (List.map_congr_left fun byte hbyte => ?_)
  have hlt : placeOf values byte < generateAllGrids.length := placeOf_lt (List.mem_range.1 hbyte)
  have hplace : (shuffle values generateAllGrids.length).getD byte 0 = placeOf values byte := rfl
  rw [hplace, List.getD_eq_getElem?_getD, List.getElem?_map, List.getElem?_eq_getElem hlt,
    Option.map_some, Option.getD_some, gridOf, List.getD_eq_getElem _ _ hlt]

theorem encode_getD {byte : Nat} (hbyte : byte < 256) (layout : Layout) :
    ((chosenOf values).map fun patterns => patterns.map fun groups =>
      groups.map layout.encodeGroup).getD byte [] =
        (patternsOf generateAllGrids (gridOf values byte)).map fun groups =>
          groups.map layout.encodeGroup := by
  rw [List.getD_eq_getElem?_getD, List.getElem?_map, chosenOf, List.getElem?_map,
    List.getElem?_range hbyte, Option.map_some, Option.map_some, Option.getD_some]

/-- **A table that is built is sound.** -/
theorem buildTable_sound (hlayout : layout.Sound) (h : buildTable values layout = .ok table) :
    table.Sound := by
  rw [buildTable_eq, tableOf] at h
  obtain ⟨decode, hdecode, h⟩ := bind_eq_ok.1 h
  cases h
  have hleads := (addAll_spec hdecode).2
  have hbyte : ∀ byte : UInt8, byte.toNat < 256 := fun byte => byte.toNat_lt
  refine ⟨hlayout, fun byte => ?_, fun byte hints hhints => ?_, fun byte hints hhints h hh => ?_,
    fun byte hints hhints hints' hperm => ?_⟩
  · have hgrid : gridOf values byte.toNat ∈ generateAllGrids := gridOf_mem (hbyte byte)
    obtain ⟨cells, hcells, hone⟩ := exists_unique_cells hgrid
    have hmem : groupsOf (gridOf values byte.toNat) cells ∈
        patternsOf generateAllGrids (gridOf values byte.toNat) :=
      (mem_patternsOf hgrid).2 ⟨cells, choices_subset cells hcells, rfl, hone⟩
    rw [encode_getD (hbyte byte)]
    exact List.ne_nil_of_mem (List.mem_map_of_mem hmem)
  · rw [encode_getD (hbyte byte)] at hhints
    obtain ⟨groups, hgroups, rfl⟩ := List.mem_map.1 hhints
    rw [List.length_map, length_of_mem_patternsOf (gridOf_mem (hbyte byte)) hgroups]
  · rw [encode_getD (hbyte byte)] at hhints
    obtain ⟨groups, -, rfl⟩ := List.mem_map.1 hhints
    obtain ⟨group, -, rfl⟩ := List.mem_map.1 hh
    exact hlayout.isHint_encode group
  · rw [encode_getD (hbyte byte)] at hhints
    obtain ⟨groups, hgroups, rfl⟩ := List.mem_map.1 hhints
    have hlead := hleads byte.toNat (List.mem_range.2 (hbyte byte)) groups
      (by rw [chosenOf_getD (hbyte byte)]; exact hgroups)
    rw [UInt8.ofNat_toNat] at hlead
    rw [Table.lookup, packSorted_eq_of_perm hperm]
    exact hlead

/-! ### A table is always built -/

theorem and_3f_of_lt : ∀ group : UInt8, group.toNat < 64 → group &&& 0x3f = group := by decide +kernel

theorem and_3f_of_mem {g : Grid} (hg : g ∈ generateAllGrids) {ps : List Nat} (hps : Cells ps)
    {group : UInt8} (h : group ∈ groupsOf g ps) : group &&& 0x3f = group := by
  obtain ⟨p, hp, rfl⟩ := List.mem_map.1 ((groupsOf_perm g ps).subset h)
  apply and_3f_of_lt
  have hp16 := hps.2 p hp
  have hcell := cells_of_mem hg hp16
  rw [toNat_clueGroup hg hp16]
  omega

theorem decode_hints (hlayout : layout.Sound) {g : Grid} (hg : g ∈ generateAllGrids) {ps : List Nat}
    (hps : Cells ps) :
    ((groupsOf g ps).map layout.encodeGroup).map (fun h => (layout.decodeGroup h).getD 0) =
      groupsOf g ps := by
  rw [List.map_map]
  conv_rhs => rw [← List.map_id (groupsOf g ps)]
  apply List.map_congr_left
  intro group hgroup
  rw [Function.comp_apply, hlayout.decode_encode, Option.getD_some, and_3f_of_mem hg hps hgroup, id]

theorem place_unique {α : Type} {l : List α} {p : α → Bool} (h : l.countP p = 1) {i j : Nat}
    (hi : i < l.length) (hj : j < l.length) (hpi : p l[i] = true) (hpj : p l[j] = true) : i = j := by
  have hlt : ∀ {i j : Nat} (hi : i < l.length) (hj : j < l.length), p l[i] = true → p l[j] = true →
      ¬ i < j := by
    intro i j hi hj hpi hpj hij
    have hfirst : 0 < (l.take j).countP p :=
      List.countP_pos_iff.2 ⟨l[i], List.mem_take_iff_getElem.2 ⟨i, by omega, rfl⟩, hpi⟩
    have hsecond : 0 < (l.drop j).countP p :=
      List.countP_pos_iff.2 ⟨l[j], List.mem_drop_iff_getElem.2 ⟨0, by omega, by simp⟩, hpj⟩
    have hsum : (l.take j).countP p + (l.drop j).countP p = l.countP p := by
      rw [← List.countP_append, List.take_append_drop]
    omega
  rcases Nat.lt_trichotomy i j with hij | rfl | hji
  · exact absurd hij (hlt hi hj hpi hpj)
  · rfl
  · exact absurd hji (hlt hj hi hpj hpi)

/-- **The hints of one byte are those of no other**, in whatever order they come. -/
theorem byte_unique (hlayout : layout.Sound) {byte byte' : Nat} (hbyte : byte < 256)
    (hbyte' : byte' < 256) {groups groups' : List UInt8}
    (h : groups ∈ patternsOf generateAllGrids (gridOf values byte))
    (h' : groups' ∈ patternsOf generateAllGrids (gridOf values byte'))
    (hkey : packSorted (groups.map layout.encodeGroup) = packSorted (groups'.map layout.encodeGroup)) :
    byte = byte' := by
  have hg : gridOf values byte ∈ generateAllGrids := gridOf_mem hbyte
  have hg' : gridOf values byte' ∈ generateAllGrids := gridOf_mem hbyte'
  have hlen := (length_of_mem_patternsOf hg h).trans (length_of_mem_patternsOf hg' h').symm
  obtain ⟨ps, hps, rfl, hone⟩ := (mem_patternsOf hg).1 h
  obtain ⟨ps', hps', rfl, -⟩ := (mem_patternsOf hg').1 h'
  have hcells := (cells_of_mem_hintPositions hps).2
  have hcells' := (cells_of_mem_hintPositions hps').2
  have hperm := perm_of_packSorted_eq (by rw [List.length_map, List.length_map, hlen]) hkey
  have hgroups := hperm.map fun h => (layout.decodeGroup h).getD 0
  rw [decode_hints hlayout hg hcells, decode_hints hlayout hg' hcells'] at hgroups
  have hclues := (groupsOf_perm _ _).symm.trans (hgroups.trans (groupsOf_perm _ _))
  obtain ⟨rfl, hagree⟩ := groups_perm hg hg' hcells hcells' hclues
  -- both grids agree with the first on its cells, so they stand at one place
  suffices hplace : placeOf values byte = placeOf values byte' from placeOf_injective hbyte hbyte' hplace
  have hat : ∀ b < 256, gridOf values b = generateAllGrids.getD (placeOf values b) fun _ => 0 :=
    fun b _ => rfl
  apply place_unique hone (placeOf_lt hbyte) (placeOf_lt hbyte')
  · rw [agree_iff]
    intro p _
    rw [hat byte hbyte, List.getD_eq_getElem _ _ (placeOf_lt hbyte)]
  · rw [agree_iff]
    intro p hp
    have hp' := hagree p hp
    rw [hat byte' hbyte', List.getD_eq_getElem _ _ (placeOf_lt hbyte')] at hp'
    exact hp'

/-- Every key in the table is that of a pattern of its byte. -/
def Known (values : Nat → UInt32) (layout : Layout) (decode : AssocMap Nat UInt8) : Prop :=
  ∀ key b, decode.get? key = some b → ∃ groups ∈ patternsOf generateAllGrids (gridOf values b.toNat),
    key = packSorted (groups.map layout.encodeGroup)

theorem exists_addPatterns (hlayout : layout.Sound) {byte : Nat} (hbyte : byte < 256)
    {patterns : List (List UInt8)}
    (hpatterns : ∀ groups ∈ patterns, groups ∈ patternsOf generateAllGrids (gridOf values byte))
    {decode : AssocMap Nat UInt8} (hknown : Known values layout decode) :
    ∃ decode', addPatterns layout (UInt8.ofNat byte) decode patterns = .ok decode' ∧
      Known values layout decode' := by
  induction patterns generalizing decode with
  | nil => exact ⟨decode, rfl, hknown⟩
  | cons groups patterns ih =>
    rw [List.forall_mem_cons] at hpatterns
    have hnat : (UInt8.ofNat byte).toNat = byte := UInt8.toNat_ofNat_of_lt' hbyte
    have hclash : (decode.get? (packSorted (groups.map layout.encodeGroup))).any
        (· ≠ UInt8.ofNat byte) = false := by
      cases hget : decode.get? (packSorted (groups.map layout.encodeGroup)) with
      | none => rfl
      | some b =>
        obtain ⟨groups', hgroups', hkey⟩ := hknown _ _ hget
        have hsame := byte_unique hlayout hbyte b.toNat_lt hpatterns.1 hgroups' hkey
        have hb : b = UInt8.ofNat byte := by rw [hsame, UInt8.ofNat_toNat]
        simp [hb]
    have hnext : Known values layout
        (decode.insert (packSorted (groups.map layout.encodeGroup)) (UInt8.ofNat byte)) := by
      intro key b hget
      by_cases hsame : key = packSorted (groups.map layout.encodeGroup)
      · rw [hsame, AssocMap.get?_insert_self] at hget
        cases hget
        rw [hnat]
        exact ⟨groups, hpatterns.1, hsame⟩
      · rw [AssocMap.get?_insert_of_ne _ _ hsame] at hget
        exact hknown key b hget
    obtain ⟨decode', hdecode', hknown'⟩ := ih hpatterns.2 hnext
    refine ⟨decode', ?_, hknown'⟩
    unfold addPatterns
    rw [List.foldlM_cons]
    have hstep : (if (decode.get? (packSorted (groups.map layout.encodeGroup))).any
        (· ≠ UInt8.ofNat byte) = true then .error (invalidInput "sudoku decode key collision")
        else .ok (decode.insert (packSorted (groups.map layout.encodeGroup)) (UInt8.ofNat byte)) :
          Except IoError _) =
        .ok (decode.insert (packSorted (groups.map layout.encodeGroup)) (UInt8.ofNat byte)) := by
      rw [hclash, if_neg Bool.false_ne_true]
    exact (congrArg (· >>= _) hstep).trans hdecode'

/-- **Every sound layout has a table, whatever the password.** -/
theorem exists_buildTable (hlayout : layout.Sound) (values : Nat → UInt32) :
    ∃ table, buildTable values layout = .ok table := by
  have hfold : ∀ (bytes : List Nat), (∀ byte ∈ bytes, byte < 256) → ∀ decode,
      Known values layout decode → ∃ decode', bytes.foldlM (fun decode byte =>
        addPatterns layout (UInt8.ofNat byte) decode ((chosenOf values).getD byte [])) decode =
          .ok decode' := by
    intro bytes
    induction bytes with
    | nil => exact fun _ decode _ => ⟨decode, rfl⟩
    | cons byte bytes ih =>
      intro hlt decode hknown
      rw [List.forall_mem_cons] at hlt
      have hpatterns : ∀ groups ∈ (chosenOf values).getD byte [],
          groups ∈ patternsOf generateAllGrids (gridOf values byte) := by
        rw [chosenOf_getD hlt.1]
        exact fun _ h => h
      obtain ⟨next, hnext, hknown'⟩ := exists_addPatterns hlayout hlt.1 hpatterns hknown
      obtain ⟨decode', hdecode'⟩ := ih hlt.2 next hknown'
      refine ⟨decode', ?_⟩
      rw [List.foldlM_cons, hnext]
      exact hdecode'
  obtain ⟨decode, hdecode⟩ := hfold (List.range 256) (fun _ h => List.mem_range.1 h) AssocMap.empty
    (fun key b h => by simp at h)
  rw [buildTable_eq, tableOf, hdecode]
  exact ⟨_, rfl⟩

end Build

end WutherCore.Finalmask
