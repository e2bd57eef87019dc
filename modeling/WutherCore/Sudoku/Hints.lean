import Mathlib
import WutherCore.Data.Keyed
import WutherCore.Data.Rand
import WutherCore.Data.Transducer
import WutherCore.Data.Bit
import WutherCore.Text.Radix

/-!
# Hints in a noisy stream

A byte is sent as four hints, in any order and with noise before each.  The reader skips noise, collects
four hints and looks them up; after each byte it turns to the next table.  `always_reads` says that what
the writer makes of a byte is read back, whatever it draws.
-/

namespace WutherCore.Sudoku

open WutherCore.Data Draw Transducer

/-- The state of a reader: the number of the table it is at and the hints collected. -/
structure HintState where
  index : Nat
  hints : List UInt8
  deriving DecidableEq

/-- Four bytes as the key of the table: in order, as one number. -/
def packSorted (hints : List UInt8) : Nat := Text.ofBytesBE (Vec.sort hints)

theorem packSorted_eq_of_perm {hints hints' : List UInt8} (h : hints.Perm hints') :
    packSorted hints = packSorted hints' := by
  have hsort : Vec.sort hints = Vec.sort hints' := by
    have hperm : (Vec.sort hints).Perm (Vec.sort hints') :=
      (List.perm_insertionSort _ _).trans (h.trans (List.perm_insertionSort _ _).symm)
    exact hperm.eq_of_pairwise (fun a b _ _ hab hba => le_antisymm hab hba)
      (List.pairwise_insertionSort _ _) (List.pairwise_insertionSort _ _)
  rw [packSorted, packSorted, hsort]

theorem foldl_bytes_injective {a b : List UInt8} {x y : Nat} (hlen : a.length = b.length)
    (h : (a.map UInt8.toNat).foldl (fun acc d => acc * 256 + d) x =
      (b.map UInt8.toNat).foldl (fun acc d => acc * 256 + d) y) : x = y ∧ a = b := by
  induction a generalizing b x y with
  | nil =>
    cases b with
    | nil => exact ⟨h, rfl⟩
    | cons d b => simp at hlen
  | cons c a ih =>
    cases b with
    | nil => simp at hlen
    | cons d b =>
      obtain ⟨hxy, rfl⟩ := ih (Nat.succ.inj hlen) h
      dsimp only at hxy
      have hc : c.toNat < 256 := c.toNat_lt
      have hd : d.toNat < 256 := d.toNat_lt
      have hcd : c = d := UInt8.toNat_inj.1 (by omega)
      exact ⟨by omega, by rw [hcd]⟩

theorem perm_of_packSorted_eq {hints hints' : List UInt8} (hlen : hints.length = hints'.length)
    (h : packSorted hints = packSorted hints') : hints.Perm hints' := by
  have hperm : ∀ l : List UInt8, (Vec.sort l).Perm l := fun l => List.perm_insertionSort _ l
  have hsort : Vec.sort hints = Vec.sort hints' :=
    (foldl_bytes_injective ((hperm _).length_eq.trans (hlen.trans (hperm _).length_eq.symm)) h).2
  exact (hperm hints).symm.trans (hsort ▸ hperm hints')

section Reader

variable {ε : Type} (isHint : Nat → UInt8 → Bool) (lookup : Nat → List UInt8 → Option UInt8) (miss : ε)

/-- One byte of the stream: noise is skipped, and the fourth hint makes a byte. -/
def readHint (s : HintState) (byte : UInt8) : Except ε (HintState × List UInt8) :=
  if !isHint s.index byte then
    .ok (s, [])
  else
    let hints := s.hints ++ [byte]
    if hints.length ≠ 4 then
      .ok (⟨s.index, hints⟩, [])
    else
      match lookup s.index hints with
      | none => .error miss
      | some decoded => .ok (⟨s.index + 1, []⟩, [decoded])

variable {isHint lookup miss} {k : Nat} {acc : List UInt8} {byte decoded : UInt8}

theorem readHint_noise (s : HintState) (h : isHint s.index byte = false) :
    readHint isHint lookup miss s byte = .ok (s, []) := by
  rw [readHint, h]
  rfl

theorem readHint_hint (h : isHint k byte = true) (hlen : acc.length + 1 ≠ 4) :
    readHint isHint lookup miss ⟨k, acc⟩ byte = .ok (⟨k, acc ++ [byte]⟩, []) := by
  rw [readHint, h]
  have hlen' : (acc ++ [byte]).length ≠ 4 := by simpa using hlen
  rw [Bool.not_true, if_neg Bool.false_ne_true]
  exact if_pos hlen'

theorem readHint_last (h : isHint k byte = true) (hlen : acc.length + 1 = 4)
    (hlookup : lookup k (acc ++ [byte]) = some decoded) :
    readHint isHint lookup miss ⟨k, acc⟩ byte = .ok (⟨k + 1, []⟩, [decoded]) := by
  rw [readHint, h]
  have hlen' : ¬ (acc ++ [byte]).length ≠ 4 := by simpa using hlen
  rw [Bool.not_true, if_neg Bool.false_ne_true]
  dsimp only
  rw [if_neg hlen', hlookup]

theorem reads_noise {s : HintState} {noise : List UInt8} (h : ∀ x ∈ noise, isHint s.index x = false) :
    Reads (readHint isHint lookup miss) s noise s [] := by
  induction noise with
  | nil => exact Reads.nil
  | cons x noise ih =>
    rw [List.forall_mem_cons] at h
    exact (ih h.2).cons (readHint_noise s h.1)

/-! ### The writer -/

/-- The hints one after the other, each after what `pad` inserts. -/
def interleave (pad : Draw (List UInt8)) : List UInt8 → Draw (List UInt8)
  | [] => pure []
  | hint :: hints => do
    let noise ← pad
    let rest ← interleave pad hints
    pure (noise ++ hint :: rest)

/-- **Four hints among noise are read back**, whatever noise is drawn. -/
theorem always_reads {pad : Draw (List UInt8)} (hpad : Always (∀ x ∈ ·, isHint k x = false) pad)
    {hints : List UInt8} (hne : hints ≠ []) (hlen : acc.length + hints.length = 4)
    (hhint : ∀ h ∈ hints, isHint k h = true) (hlookup : lookup k (acc ++ hints) = some decoded) :
    Always (fun out => Reads (readHint isHint lookup miss) ⟨k, acc⟩ out ⟨k + 1, []⟩ [decoded])
      (interleave pad hints) := by
  induction hints generalizing acc with
  | nil => exact absurd rfl hne
  | cons hint hints ih =>
    rw [List.forall_mem_cons] at hhint
    rw [List.length_cons] at hlen
    rw [interleave]
    refine hpad.bind fun noise hnoise => ?_
    have hskip : Reads (readHint isHint lookup miss) ⟨k, acc⟩ noise ⟨k, acc⟩ [] := reads_noise hnoise
    cases hints with
    | nil =>
      -- the last of the four
      refine (always_pure (P := fun rest => rest = []) rfl).bind fun rest hrest => always_pure ?_
      rw [hrest]
      exact hskip.append (Reads.single (readHint_last hhint.1 hlen hlookup))
    | cons hint' hints =>
      have hne4 : acc.length + 1 ≠ 4 := by
        rw [List.length_cons] at hlen
        omega
      have hrest := @ih (acc ++ [hint]) (List.cons_ne_nil _ _)
        (by rw [List.length_append, List.length_singleton]; omega) hhint.2
        (by rw [List.append_assoc]; exact hlookup)
      refine hrest.bind fun rest hrest => always_pure ?_
      exact hskip.append (hrest.cons (readHint_hint hhint.1 hne4))

end Reader

/-! ### The orders of four -/

/-- `PERM4`. -/
def perm4 : List (List Nat) := [
  [0, 1, 2, 3], [0, 1, 3, 2], [0, 2, 1, 3], [0, 2, 3, 1], [0, 3, 1, 2], [0, 3, 2, 1],
  [1, 0, 2, 3], [1, 0, 3, 2], [1, 2, 0, 3], [1, 2, 3, 0], [1, 3, 0, 2], [1, 3, 2, 0],
  [2, 0, 1, 3], [2, 0, 3, 1], [2, 1, 0, 3], [2, 1, 3, 0], [2, 3, 0, 1], [2, 3, 1, 0],
  [3, 0, 1, 2], [3, 0, 2, 1], [3, 1, 0, 2], [3, 1, 2, 0], [3, 2, 0, 1], [3, 2, 1, 0]]

theorem perm_of_mem_perm4 : ∀ p ∈ perm4, p.Perm [0, 1, 2, 3] := by decide

theorem map_perm4 {p : List Nat} (hp : p ∈ perm4) {hints : List UInt8} (hlen : hints.length = 4) :
    (p.map fun i => hints.getD i 0).Perm hints := by
  obtain ⟨a, b, c, d, rfl⟩ := List.length_eq_four.1 hlen
  exact (perm_of_mem_perm4 p hp).map _

end WutherCore.Sudoku
