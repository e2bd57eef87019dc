import Mathlib.Data.List.Chain
import Mathlib.Data.List.Perm.Subperm
import Mathlib.Logic.Relation

/-!
# Chains of bounded length

`ChainBound r k x` says that no chain of `r` from `x` has more than `k` elements.  A relation whose
chains are bounded has no cycle (`ChainBound.not_transGen_self`), and the bound goes down along it
(`ChainBound.step`), which makes it a measure for recursion along the relation.

On finitely many elements, having no cycle is enough: `chainBound_of_acyclic`.
-/

namespace WutherCore.Data

open Relation

variable {α : Type*} {r : α → α → Prop} {k j : Nat} {x y : α}

/-- Every chain from `x` has at most `k` elements, `x` included. -/
def ChainBound (r : α → α → Prop) (k : Nat) (x : α) : Prop :=
  ∀ path, List.IsChain r (x :: path) → path.length < k

theorem ChainBound.pos (h : ChainBound r k x) : 0 < k := h [] (List.isChain_singleton x)

theorem ChainBound.mono (h : ChainBound r k x) (hkj : k ≤ j) : ChainBound r j x :=
  fun path hpath => (h path hpath).trans_le hkj

theorem ChainBound.step (h : ChainBound r (k + 1) x) (hxy : r x y) : ChainBound r k y := by
  intro path hpath
  have hlen := h (y :: path) (List.isChain_cons_cons.2 ⟨hxy, hpath⟩)
  rw [List.length_cons] at hlen
  omega

theorem ChainBound.of_step (h : ∀ y, r x y → ChainBound r k y) : ChainBound r (k + 1) x := by
  intro path hpath
  cases path with
  | nil => exact Nat.succ_pos k
  | cons y path =>
    obtain ⟨hxy, hpath⟩ := List.isChain_cons_cons.1 hpath
    exact Nat.succ_lt_succ (h y hxy path hpath)

theorem ChainBound.transGen (h : ChainBound r (k + 1) x) (hxy : TransGen r x y) :
    ChainBound r k y := by
  induction hxy with
  | single hxy => exact h.step hxy
  | tail _ hyz ih => exact (ih.mono (Nat.le_succ k)).step hyz

theorem ChainBound.not_transGen_self (h : ChainBound r k x) : ¬TransGen r x x := by
  induction k with
  | zero => exact absurd h.pos (lt_irrefl 0)
  | succ k ih => exact fun hxx => ih (h.transGen hxx) hxx

theorem chainBound_of_acyclic {keys : List α} (hacyclic : ∀ x, ¬TransGen r x x)
    (hkeys : ∀ x y, r x y → y ∈ keys) (hx : x ∈ keys) : ChainBound r keys.length x := by
  intro path hpath
  have hpairwise : (x :: path).Pairwise (TransGen r) :=
    List.isChain_iff_pairwise.1 (hpath.imp fun _ _ => TransGen.single)
  have hnodup : (x :: path).Nodup :=
    hpairwise.imp fun {a b} (hab : TransGen r a b) (heq : a = b) => hacyclic a (heq ▸ hab)
  have hsubset : ∀ y ∈ x :: path, y ∈ keys :=
    hpath.induction (· ∈ keys) _ (fun {_ _} hyz _ => hkeys _ _ hyz) fun _ => hx
  exact (List.subperm_of_subset hnodup hsubset).length_le

end WutherCore.Data
