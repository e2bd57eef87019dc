import Mathlib.Data.List.MinMax
import Mathlib.Data.List.Nodup
import Mathlib.Data.List.Sort

/-!
# Maps

`AssocMap κ ν` is a map as the list of its entries, with different keys.  Its lookups do not depend
on the order of the list.  What iterates over a hash map is given an `Iteration`, the order of the
moment, about which nothing is known; what iterates over a B-tree map sees `sorted`.
-/

namespace WutherCore.Data

/-- A finite map. -/
structure AssocMap (κ ν : Type*) where
  entries : List (κ × ν)
  nodup : (entries.map Prod.fst).Nodup

/-- The order in which a hash map is iterated. -/
structure Iteration (κ ν : Type*) where
  order : List (κ × ν) → List (κ × ν)
  perm : ∀ l, (order l).Perm l

/-- The entries as they are listed. -/
def Iteration.listed {κ ν : Type*} : Iteration κ ν := ⟨id, fun _ => .refl _⟩

open Classical in
theorem forall_iteration {κ ν : Type*} {l : List (κ × ν)} {p : List (κ × ν) → Prop} :
    (∀ it : Iteration κ ν, p (it.order l)) ↔ ∀ es : List (κ × ν), es.Perm l → p es := by
  refine ⟨fun h es hes => ?_, fun h it => h _ (it.perm l)⟩
  let it : Iteration κ ν := ⟨fun l' => if l' = l then es else l', fun l' => by
    split
    · next heq => exact heq ▸ hes
    · exact .refl _⟩
  have hit : it.order l = es := if_pos rfl
  exact hit ▸ h it

namespace AssocMap

variable {κ ν : Type*}

/-- The map without entries. -/
def empty : AssocMap κ ν := ⟨[], List.nodup_nil⟩

/-- `len`. -/
def size (m : AssocMap κ ν) : Nat := m.entries.length

/-- `retain`. -/
def retain (keep : κ → ν → Bool) (m : AssocMap κ ν) : AssocMap κ ν where
  entries := m.entries.filter fun e => keep e.1 e.2
  nodup := m.nodup.sublist (List.filter_sublist.map _)

/-- A change of the value of one key, where the map has it: `get_mut`. -/
def modify [DecidableEq κ] (m : AssocMap κ ν) (k : κ) (f : ν → ν) : AssocMap κ ν where
  entries := m.entries.map fun e => if e.1 = k then (e.1, f e.2) else e
  nodup := by
    have hkeys : (m.entries.map fun e => if e.1 = k then (e.1, f e.2) else e).map Prod.fst =
        m.entries.map Prod.fst := by
      rw [List.map_map]
      refine List.map_congr_left fun e _ => ?_
      by_cases h : e.1 = k <;> simp [h]
    rw [hkeys]
    exact m.nodup

/-- The entries by increasing keys: `BTreeMap::iter`. -/
def sorted [LE κ] [DecidableLE κ] (m : AssocMap κ ν) : List (κ × ν) :=
  m.entries.insertionSort fun a b => a.1 ≤ b.1

/-- The first entry of least value, in the order of an iteration: `iter().min_by_key(f)`. -/
def minBy (it : Iteration κ ν) (f : κ × ν → Nat) (m : AssocMap κ ν) : Option (κ × ν) :=
  (it.order m.entries).argmin f

section Keys

variable [DecidableEq κ]

/-- `get`. -/
def get? (m : AssocMap κ ν) (k : κ) : Option ν := (m.entries.find? fun e => e.1 = k).map Prod.snd

/-- `contains_key`. -/
def contains (m : AssocMap κ ν) (k : κ) : Bool := (m.get? k).isSome

/-- `remove`. -/
def erase (m : AssocMap κ ν) (k : κ) : AssocMap κ ν := m.retain fun k' _ => k' ≠ k

/-- `insert`. -/
def insert (m : AssocMap κ ν) (k : κ) (v : ν) : AssocMap κ ν where
  entries := (k, v) :: (m.erase k).entries
  nodup := by
    refine List.nodup_cons.2 ⟨?_, (m.erase k).nodup⟩
    simp [erase, retain]

/-! ### Lookups -/

variable {m : AssocMap κ ν} {k k' : κ} {v v' : ν}

theorem get?_eq_some : m.get? k = some v ↔ (k, v) ∈ m.entries := by
  obtain ⟨entries, nodup⟩ := m
  induction entries with
  | nil => simp [get?]
  | cons e entries ih =>
    obtain ⟨k₀, v₀⟩ := e
    rw [List.map_cons, List.nodup_cons] at nodup
    have ih := ih nodup.2
    unfold get? at ih ⊢
    by_cases hk : k₀ = k
    · subst hk
      have hnot : (k₀, v) ∉ entries := fun h =>
        nodup.1 (List.mem_map.2 ⟨_, h, rfl⟩)
      simp [hnot, eq_comm]
    · simpa [hk, Ne.symm hk] using ih

theorem get?_eq_none : m.get? k = none ↔ k ∉ m.entries.map Prod.fst := by
  rw [Option.eq_none_iff_forall_ne_some]
  simp [get?_eq_some]

theorem mem_keys_iff : k ∈ m.entries.map Prod.fst ↔ ∃ v, m.get? k = some v := by
  simp [get?_eq_some]

@[simp] theorem get?_empty (k : κ) : (empty : AssocMap κ ν).get? k = none := rfl

theorem get?_retain_eq_some {keep : κ → ν → Bool} :
    (m.retain keep).get? k = some v ↔ m.get? k = some v ∧ keep k v = true := by
  simp [get?_eq_some, retain]

theorem get?_retain (m : AssocMap κ ν) (keep : κ → ν → Bool) (k : κ) :
    (m.retain keep).get? k = (m.get? k).filter (keep k) := by
  ext v
  rw [get?_retain_eq_some, Option.filter_eq_some_iff]

theorem get?_modify_eq_some {f : ν → ν} :
    (m.modify k f).get? k' = some v ↔
      ∃ v', m.get? k' = some v' ∧ v = if k' = k then f v' else v' := by
  simp only [get?_eq_some, modify, List.mem_map]
  constructor
  · rintro ⟨⟨a, b⟩, hab, h⟩
    by_cases ha : a = k
    · simp only [ha, if_true, Prod.mk.injEq] at h
      exact ⟨b, by rwa [← h.1, ← ha], by rw [if_pos h.1.symm, h.2]⟩
    · simp only [ha, if_false, Prod.mk.injEq] at h
      exact ⟨b, by rwa [← h.1], by rw [if_neg (h.1 ▸ ha), h.2]⟩
  · rintro ⟨v', hv', rfl⟩
    refine ⟨(k', v'), hv', ?_⟩
    by_cases hk : k' = k <;> simp [hk]

@[simp] theorem get?_modify_self (m : AssocMap κ ν) (k : κ) (f : ν → ν) :
    (m.modify k f).get? k = (m.get? k).map f := by
  ext v
  rw [get?_modify_eq_some, Option.map_eq_some_iff]
  simp [eq_comm]

theorem get?_modify_of_ne (m : AssocMap κ ν) (f : ν → ν) (h : k' ≠ k) :
    (m.modify k f).get? k' = m.get? k' := by
  ext v
  simp [get?_modify_eq_some, h]

theorem get?_erase_eq_some : (m.erase k).get? k' = some v ↔ m.get? k' = some v ∧ k' ≠ k := by
  simp [erase, get?_retain_eq_some]

@[simp] theorem get?_erase_self (m : AssocMap κ ν) (k : κ) : (m.erase k).get? k = none := by
  rw [Option.eq_none_iff_forall_ne_some]
  intro v h
  exact (get?_erase_eq_some.1 h).2 rfl

theorem get?_erase_of_ne (m : AssocMap κ ν) (h : k' ≠ k) : (m.erase k).get? k' = m.get? k' := by
  ext v
  simp [get?_erase_eq_some, h]

@[simp] theorem get?_insert_self (m : AssocMap κ ν) (k : κ) (v : ν) :
    (m.insert k v).get? k = some v :=
  get?_eq_some.2 List.mem_cons_self

theorem get?_insert_of_ne (m : AssocMap κ ν) (v : ν) (h : k' ≠ k) :
    (m.insert k v).get? k' = m.get? k' := by
  ext v'
  rw [get?_eq_some, insert, List.mem_cons, ← get?_eq_some, get?_erase_of_ne m h]
  simp [h]

/-- Entries inserted one after the other. -/
def insertAll (m : AssocMap κ ν) (es : List (κ × ν)) : AssocMap κ ν :=
  es.foldl (fun m e => m.insert e.1 e.2) m

theorem get?_insertAll_of_notMem (es : List (κ × ν)) (m : AssocMap κ ν)
    (h : k ∉ es.map Prod.fst) : (m.insertAll es).get? k = m.get? k := by
  induction es generalizing m with
  | nil => rfl
  | cons e es ih =>
    rw [List.map_cons, List.mem_cons, not_or] at h
    rw [insertAll, List.foldl_cons]
    exact (ih _ h.2).trans (get?_insert_of_ne m _ h.1)

theorem get?_insertAll_of_mem (es : List (κ × ν)) (m : AssocMap κ ν)
    (hn : (es.map Prod.fst).Nodup) (h : (k, v) ∈ es) : (m.insertAll es).get? k = some v := by
  induction es generalizing m with
  | nil => cases h
  | cons e es ih =>
    rw [List.map_cons, List.nodup_cons] at hn
    rw [insertAll, List.foldl_cons]
    cases h with
    | head => exact (get?_insertAll_of_notMem es _ hn.1).trans (get?_insert_self m k v)
    | tail _ h => exact ih _ hn.2 h

theorem mem_of_get?_insertAll (es : List (κ × ν)) (m : AssocMap κ ν)
    (h : (m.insertAll es).get? k = some v) : m.get? k = some v ∨ (k, v) ∈ es := by
  induction es generalizing m with
  | nil => exact .inl h
  | cons e es ih =>
    rw [insertAll, List.foldl_cons] at h
    rcases ih _ h with h | h
    · by_cases hk : k = e.1
      · subst hk
        rw [get?_insert_self] at h
        cases h
        exact .inr List.mem_cons_self
      · rw [get?_insert_of_ne m _ hk] at h
        exact .inl h
    · exact .inr (List.mem_cons_of_mem _ h)

theorem get?_insertAll (es : List (κ × ν)) (m : AssocMap κ ν) (k : κ) :
    (m.insertAll es).get? k = ((es.reverse.find? fun e => e.1 = k).map Prod.snd).or (m.get? k) := by
  induction es generalizing m with
  | nil => rfl
  | cons e es ih =>
    have hins : (m.insertAll (e :: es)).get? k = ((m.insert e.1 e.2).insertAll es).get? k := rfl
    rw [hins, ih, List.reverse_cons, List.find?_append]
    cases hfound : es.reverse.find? fun e => e.1 = k with
    | some e' => rfl
    | none =>
      by_cases hk : k = e.1
      · subst hk
        simp
      · rw [get?_insert_of_ne m _ hk]
        simp [Ne.symm hk]

/-- Changes of values made one after the other, each by a row for its key. -/
def modifyAll {ρ : Type*} (m : AssocMap κ ν) (f : κ → ρ → ν → ν) (rows : List (κ × ρ)) :
    AssocMap κ ν :=
  rows.foldl (fun m row => m.modify row.1 (f row.1 row.2)) m

section ModifyAll

variable {ρ : Type*} {f : κ → ρ → ν → ν}

theorem get?_modifyAll_of_notMem (rows : List (κ × ρ)) (m : AssocMap κ ν)
    (h : k ∉ rows.map Prod.fst) : (m.modifyAll f rows).get? k = m.get? k := by
  induction rows generalizing m with
  | nil => rfl
  | cons row rows ih =>
    rw [List.map_cons, List.mem_cons, not_or] at h
    rw [modifyAll, List.foldl_cons]
    exact (ih _ h.2).trans (get?_modify_of_ne m _ h.1)

theorem get?_modifyAll_of_mem (rows : List (κ × ρ)) (m : AssocMap κ ν) {row : ρ}
    (hn : (rows.map Prod.fst).Nodup) (h : (k, row) ∈ rows) :
    (m.modifyAll f rows).get? k = (m.get? k).map (f k row) := by
  induction rows generalizing m with
  | nil => cases h
  | cons row' rows ih =>
    rw [List.map_cons, List.nodup_cons] at hn
    rw [modifyAll, List.foldl_cons]
    cases h with
    | head => exact (get?_modifyAll_of_notMem rows _ hn.1).trans (get?_modify_self m k _)
    | tail _ h =>
      have hne : k ≠ row'.1 := fun heq => hn.1 (heq ▸ List.mem_map.2 ⟨_, h, rfl⟩)
      rw [← get?_modify_of_ne m (f row'.1 row'.2) hne]
      exact ih _ hn.2 h

theorem get?_modifyAll_sorted [LE κ] [DecidableLE κ] (m : AssocMap κ ν) (rows : AssocMap κ ρ)
    (k : κ) :
    (m.modifyAll f rows.sorted).get? k = (m.get? k).map ((rows.get? k).elim id (f k)) := by
  have hperm : rows.sorted.Perm rows.entries := List.perm_insertionSort _ _
  cases hrow : rows.get? k with
  | some row =>
    refine get?_modifyAll_of_mem _ _ ?_ (hperm.mem_iff.2 (get?_eq_some.1 hrow))
    exact (hperm.map Prod.fst).nodup_iff.2 rows.nodup
  | none =>
    have hkey : k ∉ rows.sorted.map Prod.fst := fun hmem =>
      get?_eq_none.1 hrow ((hperm.map Prod.fst).mem_iff.1 hmem)
    rw [get?_modifyAll_of_notMem _ _ hkey, Option.elim_none, Option.map_id, id]

end ModifyAll

theorem modify_eq_self (h : m.get? k = some v) : (m.modify k fun _ => v) = m := by
  obtain ⟨entries, nodup⟩ := m
  simp only [modify, mk.injEq]
  conv_rhs => rw [← List.map_id entries]
  refine List.map_congr_left fun e he => ?_
  by_cases hk : e.1 = k
  · have hv := get?_eq_some.2 (show (e.1, e.2) ∈ (AssocMap.mk entries nodup).entries from he)
    rw [hk, h] at hv
    rw [if_pos hk, Option.some.inj hv, id]
  · rw [if_neg hk, id]

theorem modify_modify (m : AssocMap κ ν) (k : κ) (f g : ν → ν) :
    (m.modify k f).modify k g = m.modify k (g ∘ f) := by
  simp only [modify, mk.injEq, List.map_map]
  refine List.map_congr_left fun e _ => ?_
  by_cases hk : e.1 = k <;> simp [hk]

theorem retain_eq_self {keep : κ → ν → Bool} (h : ∀ k v, m.get? k = some v → keep k v = true) :
    m.retain keep = m := by
  have hall : ∀ e ∈ m.entries, keep e.1 e.2 = true := fun e he => h e.1 e.2 (get?_eq_some.2 he)
  obtain ⟨entries, nodup⟩ := m
  simp only [retain, mk.injEq]
  exact List.filter_eq_self.2 hall

/-! ### Sizes -/

omit [DecidableEq κ] in
theorem size_retain_le (m : AssocMap κ ν) (keep : κ → ν → Bool) : (m.retain keep).size ≤ m.size :=
  List.length_filter_le _ _

@[simp] theorem size_modify (m : AssocMap κ ν) (k : κ) (f : ν → ν) : (m.modify k f).size = m.size :=
  List.length_map _

theorem erase_eq_self (h : m.get? k = none) : m.erase k = m := by
  refine retain_eq_self fun k' v hv => ?_
  have hne : k' ≠ k := by
    rintro rfl
    simp [h] at hv
  simpa using hne

theorem erase_insert_of_none (h : m.get? k = none) (v : ν) : (m.insert k v).erase k = m := by
  have herase : (m.insert k v).erase k = m.erase k := by simp [erase, insert, retain]
  rw [herase, erase_eq_self h]

theorem size_erase (h : m.get? k = some v) : (m.erase k).size + 1 = m.size := by
  have hmem : k ∈ m.entries.map Prod.fst := mem_keys_iff.2 ⟨v, h⟩
  have hone : m.entries.countP (fun e => decide (e.1 = k)) = 1 := by
    have hcount := List.count_eq_one_of_mem m.nodup hmem
    rw [List.count, List.countP_map] at hcount
    rw [← hcount]
    exact List.countP_congr fun e _ => by simp
  have hsplit := List.length_eq_countP_add_countP (fun e : κ × ν => decide (e.1 = k)) (l := m.entries)
  rw [hone, Nat.add_comm] at hsplit
  rw [size, size, hsplit, erase, retain, ← List.countP_eq_length_filter]
  congr 1
  exact List.countP_congr fun e _ => by simp

theorem size_erase_le (m : AssocMap κ ν) (k : κ) : (m.erase k).size ≤ m.size := by
  cases h : m.get? k with
  | none => rw [erase_eq_self h]
  | some v =>
    rw [← size_erase h]
    exact Nat.le_succ _

theorem size_insert (m : AssocMap κ ν) (k : κ) (v : ν) : (m.insert k v).size = (m.erase k).size + 1 :=
  List.length_cons

theorem size_insert_of_none (h : m.get? k = none) (v : ν) : (m.insert k v).size = m.size + 1 := by
  rw [size_insert, erase_eq_self h]

theorem size_insert_of_some (h : m.get? k = some v') (v : ν) : (m.insert k v).size = m.size := by
  rw [size_insert, size_erase h]

theorem get?_foldl_erase_eq_some {ks : List κ} :
    (ks.foldl erase m).get? k = some v ↔ m.get? k = some v ∧ k ∉ ks := by
  induction ks generalizing m with
  | nil => simp
  | cons k' ks ih =>
    rw [List.foldl_cons, ih, get?_erase_eq_some, List.mem_cons, not_or, and_assoc]

theorem size_foldl_erase {ks : List κ} (hks : ks.Nodup) (h : ∀ k ∈ ks, ∃ v, m.get? k = some v) :
    (ks.foldl erase m).size + ks.length = m.size := by
  induction ks generalizing m with
  | nil => rfl
  | cons k ks ih =>
    rw [List.nodup_cons] at hks
    rw [List.forall_mem_cons] at h
    obtain ⟨v, hv⟩ := h.1
    have hrest : ∀ k' ∈ ks, ∃ v, (m.erase k).get? k' = some v := by
      intro k' hk'
      have hne : k' ≠ k := fun heq => hks.1 (heq ▸ hk')
      rw [get?_erase_of_ne m hne]
      exact h.2 k' hk'
    rw [List.foldl_cons, List.length_cons, ← Nat.add_assoc, ih hks.2 hrest, size_erase hv]

/-! ### Minimal entries -/

theorem minBy_mem {it : Iteration κ ν} {f : κ × ν → Nat} {e : κ × ν} (h : m.minBy it f = some e) :
    m.get? e.1 = some e.2 ∧ ∀ k v, m.get? k = some v → f e ≤ f (k, v) := by
  have hmem := List.argmin_mem h
  refine ⟨get?_eq_some.2 ((it.perm _).mem_iff.1 hmem), fun k v hv => ?_⟩
  exact List.le_of_mem_argmin ((it.perm _).mem_iff.2 (get?_eq_some.1 hv)) h

end Keys

end AssocMap

end WutherCore.Data
