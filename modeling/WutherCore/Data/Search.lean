import Mathlib.Data.List.Basic
import Mathlib.Data.Nat.Find

/-!
# Binary search in a list of intervals

`binarySearchBy` is the search of the standard library: the position is narrowed to one element,
which is then compared.  The comparison answers where an element stands relative to what is sought.

On a list that the comparison cuts into elements before, at and after the target (`Ordered`), the
search answers whether some element is the target (`binarySearchBy_iff`).
-/

namespace WutherCore.Data

variable {α : Type*} (cmp : α → Ordering) (l : List α)

/-- The comparison at an index; past the end it is `gt`. -/
def cmpAt (i : Nat) : Ordering := (l[i]?.map cmp).getD .gt

/-- The loop: the `size` elements from `base` on remain. -/
def narrow (base size : Nat) : Nat :=
  if 1 < size then
    narrow (if cmpAt cmp l (base + size / 2) = .gt then base else base + size / 2) (size - size / 2)
  else base
termination_by size

/-- `slice::binary_search_by(..).is_ok()`. -/
def binarySearchBy : Bool := !l.isEmpty && cmpAt cmp l (narrow cmp l 0 l.length) == .eq

/-- The comparisons along the list never go back: `lt`, then `eq`, then `gt`. -/
def Ordered : Prop :=
  ∀ i j, i ≤ j → (cmpAt cmp l j ≠ .gt → cmpAt cmp l i ≠ .gt) ∧
    (cmpAt cmp l j = .lt → cmpAt cmp l i = .lt)

variable {cmp l}

theorem narrow_last (h : Ordered cmp l) {last : Nat} (hlast : cmpAt cmp l last ≠ .gt)
    (hnext : ∀ i, last < i → cmpAt cmp l i = .gt) (base size : Nat)
    (hbase : base ≤ last) (hsize : last < base + size) : narrow cmp l base size = last := by
  induction base, size using narrow.induct cmp l with
  | case1 base size hlt ih =>
    rw [narrow, if_pos hlt]
    apply ih
    · split_ifs with hgt
      · exact hbase
      · by_contra hcon
        exact hgt (hnext _ (by omega))
    · split_ifs with hgt
      · -- everything from the middle on is after the target
        have : last < base + size / 2 := by
          by_contra hcon
          exact (h _ _ (by omega : base + size / 2 ≤ last)).1 hlast hgt
        omega
      · omega
  | case2 base size hge =>
    rw [narrow, if_neg hge]
    omega

/-- **The search finds the target exactly when it is there.** -/
theorem binarySearchBy_iff (h : Ordered cmp l) :
    binarySearchBy cmp l = true ↔ ∃ a ∈ l, cmp a = .eq := by
  rw [binarySearchBy, Bool.and_eq_true, beq_iff_eq]
  constructor
  · rintro ⟨-, heq⟩
    rw [cmpAt] at heq
    cases ha : l[narrow cmp l 0 l.length]? with
    | none => rw [ha] at heq; cases heq
    | some a => exact ⟨a, List.mem_of_getElem? ha, by simpa [ha] using heq⟩
  · rintro ⟨a, ha, hcmp⟩
    obtain ⟨k, hk, hka⟩ := List.mem_iff_getElem.1 ha
    have hkeq : cmpAt cmp l k = .eq := by simp [cmpAt, List.getElem?_eq_getElem hk, hka, hcmp]
    have hkne : cmpAt cmp l k ≠ .gt := by simp [hkeq]
    -- the last index that is not after the target
    have hbound : ∀ i, l.length ≤ i → cmpAt cmp l i = .gt := by
      intro i hi
      simp [cmpAt, List.getElem?_eq_none hi]
    let last := Nat.findGreatest (fun i => cmpAt cmp l i ≠ .gt) l.length
    have hlast : cmpAt cmp l last ≠ .gt :=
      Nat.findGreatest_spec (P := fun i => cmpAt cmp l i ≠ .gt) (Nat.le_of_lt hk) hkne
    have hnext : ∀ i, last < i → cmpAt cmp l i = .gt := by
      intro i hi
      rcases Nat.lt_or_ge l.length i with hi' | hi'
      · exact hbound i (Nat.le_of_lt hi')
      · by_contra hcon
        exact Nat.findGreatest_is_greatest hi hi' hcon
    have hkl : k ≤ last := Nat.le_findGreatest (Nat.le_of_lt hk) hkne
    have hlen : last < l.length := by
      by_contra hcon
      exact hlast (hbound last (by omega))
    have hnarrow : narrow cmp l 0 l.length = last :=
      narrow_last h hlast hnext 0 l.length (Nat.zero_le _) (by omega)
    refine ⟨by cases l <;> simp_all, ?_⟩
    rw [hnarrow]
    cases hc : cmpAt cmp l last with
    | eq => rfl
    | gt => exact absurd hc hlast
    | lt => exact absurd ((h k last hkl).2 hc) (by simp [hkeq])

end WutherCore.Data
