import WutherCore.Text.Str

/-!
# Trimmed texts and joined ones

* `trim_decompose`, `Trimmed`: a text is its trimmed part between white space.
* `join_cons_cons`: texts joined with commas.
-/

namespace WutherCore.Text

/-! ### Trimming -/

theorem trim_decompose (s : Str) :
    ∃ w w', s = w ++ (trim s ++ w') ∧ (∀ c ∈ w, isWhitespace c = true) ∧
      ∀ c ∈ w', isWhitespace c = true := by
  refine ⟨s.takeWhile isWhitespace, (s.dropWhile isWhitespace).rtakeWhile isWhitespace, ?_, ?_, ?_⟩
  · have htail : trim s ++ (s.dropWhile isWhitespace).rtakeWhile isWhitespace =
        s.dropWhile isWhitespace := by
      rw [trim, List.rdropWhile, List.rtakeWhile, ← List.reverse_append,
        List.takeWhile_append_dropWhile, List.reverse_reverse]
    rw [htail, List.takeWhile_append_dropWhile]
  · exact fun c hc => List.mem_takeWhile_imp hc
  · exact fun c hc => List.mem_rtakeWhile_imp hc

/-- The text neither starts nor ends with white space. -/
structure Trimmed (s : Str) : Prop where
  head : ∀ c ∈ s.head?, isWhitespace c = false
  last : ∀ c ∈ s.getLast?, isWhitespace c = false

theorem Trimmed.trim_eq {s : Str} (h : Trimmed s) : trim s = s := by
  have hdrop : s.dropWhile isWhitespace = s := by
    cases s with
    | nil => rfl
    | cons c s => rw [List.dropWhile_cons_of_neg (by simpa using h.head c rfl)]
  rw [trim, hdrop, List.rdropWhile_eq_self_iff]
  intro hne
  simpa using h.last _ (List.getLast?_eq_some_getLast hne)

theorem trimmed_trim (s : Str) : Trimmed (trim s) where
  head c hc := by
    obtain ⟨t, ht⟩ := List.rdropWhile_prefix isWhitespace (s.dropWhile isWhitespace)
    have hhead : (s.dropWhile isWhitespace).head? = some c := by
      rw [← ht, List.head?_append, show (List.rdropWhile _ _).head? = some c from hc]
      rfl
    have hdrop := List.head?_dropWhile_not isWhitespace s
    rwa [hhead] at hdrop
  last c hc := by
    have hne : trim s ≠ [] := fun hnil => by simp [hnil] at hc
    rw [List.getLast?_eq_some_getLast hne, Option.mem_some_iff] at hc
    subst hc
    exact Bool.eq_false_iff.2 (List.rdropWhile_last_not isWhitespace _ hne)

theorem trimmed_of_trim_eq {s : Str} (h : trim s = s) : Trimmed s := h ▸ trimmed_trim s

/-! ### Joining -/

theorem join_cons_cons (f g : Str) (fs : List Str) :
    join "," (f :: g :: fs) = f ++ ',' :: join "," (g :: fs) := by
  simp [join, List.intercalate_cons_cons]

@[simp] theorem join_singleton (sep f : Str) : join sep [f] = f := by simp [join]

end WutherCore.Text
