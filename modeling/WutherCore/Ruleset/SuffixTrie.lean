import WutherCore.Ruleset.Matcher

/-!
# The trie of domain suffixes

A host is matched exactly if it is one of the suffixes put into the trie, or has one of them behind a dot
(`suffixTrieMatches_iff`).  The suffixes are stored normalised, the empty one not at all, and the host is read
without the dots at its end.
-/

namespace WutherCore.Ruleset

open WutherCore.Text WutherCore.Data

/-- The suffix is the host, or stands behind a dot at its end. -/
def EndsInLabels (host suffix : Str) : Prop := host = suffix ∨ ∃ front, host = front ++ '.' :: suffix

theorem exists_front (label : Str) (front rest : List Str) (hne : rest ≠ []) :
    ∃ text, ['.'].intercalate (label :: front ++ rest) = text ++ '.' :: ['.'].intercalate rest := by
  induction front generalizing label with
  | nil => exact ⟨label, by simp [List.intercalate_cons_of_ne_nil hne]⟩
  | cons next front ih =>
    obtain ⟨text, htext⟩ := ih next
    refine ⟨label ++ '.' :: text, ?_⟩
    change ['.'].intercalate (label :: (next :: front ++ rest)) = _
    rw [List.intercalate_cons_of_ne_nil (by simp), htext]
    simp

theorem suffixPath_isPrefix_iff (host suffix : Str) :
    suffixPath suffix <+: suffixPath host ↔ EndsInLabels host suffix := by
  rw [suffixPath, suffixPath, List.reverse_prefix]
  constructor
  · rintro ⟨front, hfront⟩
    have hhost : ['.'].intercalate (host.splitOn '.') = host := List.intercalate_splitOn '.'
    have hsuffix : ['.'].intercalate (suffix.splitOn '.') = suffix := List.intercalate_splitOn '.'
    have hne : suffix.splitOn '.' ≠ [] := List.splitOn_ne_nil '.' suffix
    rw [← hfront] at hhost
    cases front with
    | nil =>
      rw [List.nil_append, hsuffix] at hhost
      exact .inl hhost.symm
    | cons label front =>
      obtain ⟨text, htext⟩ := exists_front label front _ hne
      exact .inr ⟨text, by rw [← hhost, htext, hsuffix]⟩
  · rintro (rfl | ⟨front, rfl⟩)
    · exact List.suffix_rfl
    · rw [List.splitOn_append_cons_self]
      exact List.suffix_append _ _

/-- The suffix as `insertSuffix` stores it. -/
def storedSuffix (cr : Crates) (suffix : Str) : Str := normalizeDomain cr (trimMatches '.' suffix)

theorem hits_insertSuffix (cr : Crates) (trie : Trie Str) (suffix host : Str) :
    (insertSuffix cr trie suffix).hits (suffixPath host) = true ↔
      (storedSuffix cr suffix ≠ [] ∧ EndsInLabels host (storedSuffix cr suffix)) ∨ trie.hits (suffixPath host) = true := by
  have hpath : suffixPath (storedSuffix cr suffix) ≠ [] := by
    simp [suffixPath]
  unfold insertSuffix
  change (if (storedSuffix cr suffix).isEmpty then trie else
    trie.insert (suffixPath (storedSuffix cr suffix))).hits (suffixPath host) = true ↔ _
  by_cases hempty : storedSuffix cr suffix = []
  · rw [hempty]
    simp
  · rw [if_neg (by simpa using hempty), Trie.hits_insert_iff hpath, suffixPath_isPrefix_iff]
    simp [hempty]

theorem hits_foldl_insertSuffix (cr : Crates) (suffixes : List Str) (trie : Trie Str) (host : Str) :
    (suffixes.foldl (insertSuffix cr) trie).hits (suffixPath host) = true ↔
      (∃ suffix ∈ suffixes, storedSuffix cr suffix ≠ [] ∧ EndsInLabels host (storedSuffix cr suffix)) ∨
        trie.hits (suffixPath host) = true := by
  induction suffixes generalizing trie with
  | nil => simp
  | cons suffix suffixes ih =>
    rw [List.foldl_cons, ih, hits_insertSuffix]
    simp only [List.exists_mem_cons_iff]
    rw [or_assoc, or_left_comm]

/-- **A host is matched exactly if one of the stored suffixes is the host without the dots at its end, or ends it
at a label; the order of the suffixes does not matter.** -/
theorem suffixTrieMatches_iff (cr : Crates) (suffixes : List Str) (host : Str) :
    (suffixTrieMatches (suffixes.foldl (insertSuffix cr) .empty) host = true ↔
      ∃ suffix ∈ suffixes, storedSuffix cr suffix ≠ [] ∧
        EndsInLabels (trimEndMatches '.' host) (storedSuffix cr suffix)) ∧
      ∀ reordered : List Str, reordered.Perm suffixes →
        suffixTrieMatches (reordered.foldl (insertSuffix cr) .empty) host =
          suffixTrieMatches (suffixes.foldl (insertSuffix cr) .empty) host := by
  have hmatches (suffixes : List Str) : suffixTrieMatches (suffixes.foldl (insertSuffix cr) .empty) host = true ↔
      ∃ suffix ∈ suffixes, storedSuffix cr suffix ≠ [] ∧
        EndsInLabels (trimEndMatches '.' host) (storedSuffix cr suffix) := by
    unfold suffixTrieMatches
    dsimp only
    split_ifs with hempty
    · -- An empty host ends in nothing.
      rw [List.isEmpty_iff] at hempty
      rw [hempty]
      refine iff_of_false not_false ?_
      rintro ⟨suffix, -, hne, hend | ⟨front, hend⟩⟩
      · exact hne hend.symm
      · simp at hend
    · rw [hits_foldl_insertSuffix, Trie.hits_empty]
      simp
  refine ⟨hmatches suffixes, fun reordered hperm => ?_⟩
  rw [Bool.eq_iff_iff, hmatches, hmatches]
  simp only [hperm.mem_iff]

/-- A suffix with a capital letter does not match itself: only its normal form is stored. -/
theorem suffixTrie_misses_own_suffix : ¬∀ (suffixes : List Str) (host : Str),
    suffixTrieMatches (suffixes.foldl (insertSuffix .ascii) .empty) host = true ↔
      ∃ suffix ∈ suffixes, EndsInLabels host suffix := by
  intro h
  have hown := (h ["Example.org".toList] "Example.org".toList).2 ⟨_, List.mem_singleton_self _, .inl rfl⟩
  exact absurd hown (by decide +kernel)

end WutherCore.Ruleset
