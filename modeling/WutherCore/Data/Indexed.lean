import WutherCore.Data.AssocMap

/-!
# A map and its index

A table that is searched in two ways is a map with an index beside it: the map leads from places to
entries, the index from the key of an entry to its place.  `Indexed key m index` says that the two are
inverse to each other.  Whoever changes both keeps it: `Indexed.insert`, `Indexed.erase`,
`Indexed.modify`.
-/

namespace WutherCore.Data

variable {ι κ ε : Type*} [DecidableEq ι] [DecidableEq κ]

/-- The index leads from the key of each entry to its place, and nowhere else. -/
def Indexed (key : ε → κ) (m : AssocMap ι ε) (index : AssocMap κ ι) : Prop :=
  ∀ k i, index.get? k = some i ↔ ∃ e, m.get? i = some e ∧ key e = k

namespace Indexed

variable {key : ε → κ} {m : AssocMap ι ε} {index : AssocMap κ ι} {i j : ι} {k k' : κ} {e : ε}

theorem empty (key : ε → κ) : Indexed key (.empty : AssocMap ι ε) .empty := by simp [Indexed]

theorem get?_key (h : Indexed key m index) (he : m.get? i = some e) :
    index.get? (key e) = some i :=
  (h _ _).2 ⟨e, he, rfl⟩

theorem key_eq (h : Indexed key m index) (hk : index.get? k = some i)
    (hk' : index.get? k' = some i) : k = k' := by
  obtain ⟨e, he, rfl⟩ := (h k i).1 hk
  obtain ⟨e', he', rfl⟩ := (h k' i).1 hk'
  rw [he] at he'
  cases he'
  rfl

theorem insert (h : Indexed key m index) (hi : m.get? i = none) (hk : index.get? (key e) = none) :
    Indexed key (m.insert i e) (index.insert (key e) i) := by
  intro k j
  by_cases hkey : k = key e
  · subst hkey
    rw [AssocMap.get?_insert_self, Option.some.injEq]
    constructor
    · rintro rfl
      exact ⟨e, AssocMap.get?_insert_self .., rfl⟩
    · rintro ⟨e', he', hkey⟩
      by_contra hj
      rw [AssocMap.get?_insert_of_ne _ _ (Ne.symm hj)] at he'
      simp [← hkey, h.get?_key he'] at hk
  · rw [AssocMap.get?_insert_of_ne _ _ hkey, h k j]
    refine exists_congr fun e' => and_congr_left fun hkey' => ?_
    by_cases hj : j = i
    · subst hj
      rw [hi, AssocMap.get?_insert_self]
      constructor
      · intro hnone
        cases hnone
      · rintro ⟨⟩
        exact absurd hkey'.symm hkey
    · rw [AssocMap.get?_insert_of_ne _ _ hj]

theorem erase (h : Indexed key m index) (he : m.get? i = some e) :
    Indexed key (m.erase i) (index.erase (key e)) := by
  intro k j
  rw [AssocMap.get?_erase_eq_some, h k j]
  constructor
  · rintro ⟨⟨e', he', rfl⟩, hne⟩
    refine ⟨e', AssocMap.get?_erase_eq_some.2 ⟨he', ?_⟩, rfl⟩
    rintro rfl
    rw [he] at he'
    cases he'
    exact hne rfl
  · rintro ⟨e', he', rfl⟩
    obtain ⟨he', hj⟩ := AssocMap.get?_erase_eq_some.1 he'
    refine ⟨⟨e', he', rfl⟩, fun hkey => hj ?_⟩
    have hi := h.get?_key he
    rw [← hkey, h.get?_key he'] at hi
    cases hi
    rfl

theorem modify (h : Indexed key m index) {f : ε → ε} (hf : ∀ e, key (f e) = key e) :
    Indexed key (m.modify i f) index := by
  intro k j
  rw [h k j]
  by_cases hj : j = i
  · subst hj
    simp only [AssocMap.get?_modify_self, Option.map_eq_some_iff]
    constructor
    · rintro ⟨e, he, rfl⟩
      exact ⟨f e, ⟨e, he, rfl⟩, hf e⟩
    · rintro ⟨_, ⟨e, he, rfl⟩, rfl⟩
      exact ⟨e, he, (hf e).symm⟩
  · simp only [AssocMap.get?_modify_of_ne _ _ hj]

end Indexed

end WutherCore.Data
