import WutherCore.Sudoku.Grid
import WutherCore.Sudoku.Hints

/-!
# Clues of a grid

A clue is a cell and its number, written as a six-bit group: the number less one in the upper two bits,
the cell in the lower four.  The groups of some cells of a grid determine these cells and their numbers
(`groups_perm`), in whatever order they come.
-/

namespace WutherCore.Sudoku

open WutherCore.Data

/-- `clue_group`. -/
def clueGroup (g : Grid) (position : Nat) : UInt8 :=
  (UInt8.ofNat (g position) - 1) <<< 4 ||| UInt8.ofNat position &&& 15

theorem toNat_group : ∀ val < 5, 1 ≤ val → ∀ pos < 16,
    ((UInt8.ofNat val - 1) <<< 4 ||| UInt8.ofNat pos &&& 15).toNat = (val - 1) * 16 + pos := by
  decide +kernel

theorem toNat_clueGroup {g : Grid} (hg : g ∈ generateAllGrids) {p : Nat} (hp : p < 16) :
    (clueGroup g p).toNat = (g p - 1) * 16 + p := by
  obtain ⟨h1, h4⟩ := cells_of_mem hg hp
  exact toNat_group (g p) (by omega) h1 p hp

/-- A choice of cells, in order. -/
def Cells (cells : List Nat) : Prop := cells.Pairwise (· < ·) ∧ ∀ p ∈ cells, p < 16

/-- **The groups of a choice of cells tell the cells and their numbers**, in whatever order they come. -/
theorem groups_perm {g h : Grid} (hg : g ∈ generateAllGrids) (hh : h ∈ generateAllGrids)
    {ps qs : List Nat} (hps : Cells ps) (hqs : Cells qs)
    (hperm : (ps.map (clueGroup g)).Perm (qs.map (clueGroup h))) :
    ps = qs ∧ ∀ p ∈ ps, h p = g p := by
  have hcell : ∀ {f : Grid}, f ∈ generateAllGrids → ∀ {l : List Nat}, Cells l →
      (l.map (clueGroup f)).map (fun x => x.toNat % 16) = l := by
    intro f hf l hl
    rw [List.map_map]
    conv_rhs => rw [← List.map_id l]
    apply List.map_congr_left
    intro p hp
    have hp16 := hl.2 p hp
    rw [Function.comp_apply, toNat_clueGroup hf hp16, id]
    omega
  have hsame : ps = qs := by
    have hmap := hperm.map fun x => x.toNat % 16
    rw [hcell hg hps, hcell hh hqs] at hmap
    exact hmap.eq_of_pairwise (fun a b _ _ hab hba => absurd hab (Nat.lt_asymm hba)) hps.1 hqs.1
  subst hsame
  refine ⟨rfl, fun p hp => ?_⟩
  -- the group of the cell is among those of the other grid, and there it is the cell's own
  have hmem : clueGroup g p ∈ ps.map (clueGroup h) := hperm.subset (List.mem_map_of_mem hp)
  obtain ⟨q, hq, hqp⟩ := List.mem_map.1 hmem
  have hnat := congrArg UInt8.toNat hqp
  rw [toNat_clueGroup hh (hps.2 q hq), toNat_clueGroup hg (hps.2 p hp)] at hnat
  have hp16 := hps.2 p hp
  have hq16 := hps.2 q hq
  have hpq : q = p := by omega
  subst hpq
  have hg1 := cells_of_mem hg hp16
  have hh1 := cells_of_mem hh hp16
  omega

theorem groups_congr {g h : Grid} {ps : List Nat} (hagree : ∀ p ∈ ps, h p = g p) :
    ps.map (clueGroup h) = ps.map (clueGroup g) := by
  apply List.map_congr_left
  intro p hp
  rw [clueGroup, clueGroup, hagree p hp]

end WutherCore.Sudoku
