import Mathlib.Data.Option.Basic
import Mathlib.Logic.Function.Basic

/-!
# Tables filled along a list

A table holds, under each key, a value that depends on the key only.  It is filled while a list is
read, and a value that is there already may stay.  At the end the table holds the value of every key
that the list asked for, whatever else the list holds.

* `foldlM_induct`: what every step of a partial fold preserves holds at the end.
* `Stored`: what a step may do to a table; `stored_foldlM`: what a run makes of it.
-/

namespace WutherCore.Data

variable {σ β κ α : Type*}

theorem foldlM_induct {step : σ → β → Option σ} {P : List β → σ → Prop} {init last : σ} {bs : List β}
    (hinit : P [] init)
    (hstep : ∀ done b s s', P done s → step s b = some s' → P (done ++ [b]) s')
    (h : bs.foldlM step init = some last) : P bs last := by
  suffices hrun : ∀ done s, P done s → bs.foldlM step s = some last → P (done ++ bs) last from
    hrun [] init hinit h
  clear h hinit
  induction bs with
  | nil =>
    rintro done s hs ⟨⟩
    rwa [List.append_nil]
  | cons b bs ih =>
    intro done s hs h
    rw [List.foldlM_cons] at h
    obtain ⟨s', hb, h⟩ := Option.bind_eq_some_iff.1 h
    rw [List.append_cons]
    exact ih _ _ (hstep done b s s' hs hb) h

/-- What a step does to a table of the values `f`: under its key it stores the value, or it finds
one and keeps it; all other keys are left alone. -/
def Stored (f : κ → Option α) (key : Option κ) (t t' : κ → Option α) : Prop :=
  ∀ k, key ≠ some k ∧ t' k = t k ∨ key = some k ∧ (t' k = f k ∨ (t k).isSome ∧ t' k = t k)

theorem stored_none {f t : κ → Option α} : Stored f none t t := fun _ => .inl ⟨nofun, rfl⟩

theorem stored_skip {f t : κ → Option α} {key : κ} (h : f key = none) : Stored f (some key) t t := by
  intro k
  by_cases hk : key = k
  · subst hk
    cases ht : t key with
    | none => exact .inr ⟨rfl, .inl h.symm⟩
    | some a => exact .inr ⟨rfl, .inr ⟨rfl, rfl⟩⟩
  · exact .inl ⟨by simpa using hk, rfl⟩

theorem stored_keep {f t : κ → Option α} {key : κ} (h : (t key).isSome) : Stored f (some key) t t := by
  intro k
  by_cases hk : key = k
  · subst hk
    exact .inr ⟨rfl, .inr ⟨h, rfl⟩⟩
  · exact .inl ⟨by simpa using hk, rfl⟩

theorem stored_update [DecidableEq κ] {f t : κ → Option α} {key : κ} {a : α} (h : f key = some a) :
    Stored f (some key) t (Function.update t key (some a)) := by
  intro k
  by_cases hk : key = k
  · subst hk
    exact .inr ⟨rfl, .inl (by rw [Function.update_self, h])⟩
  · exact .inl ⟨by simpa using hk, Function.update_of_ne (Ne.symm hk) _ _⟩

/-- **The table of a run** holds values of its keys only, and the value of every key of the list. -/
theorem stored_foldlM {step : σ → β → Option σ} {f : κ → Option α} {table : σ → κ → Option α}
    {key : β → Option κ} {init last : σ} {bs : List β} (hinit : ∀ k, table init k = none)
    (hstep : ∀ s b s', step s b = some s' → Stored f (key b) (table s) (table s'))
    (h : bs.foldlM step init = some last) :
    (∀ k a, table last k = some a → f k = some a) ∧
      ∀ b ∈ bs, ∀ k, key b = some k → table last k = f k := by
  refine foldlM_induct (P := fun done s => (∀ k a, table s k = some a → f k = some a) ∧
    ∀ b ∈ done, ∀ k, key b = some k → table s k = f k) ⟨by simp [hinit], by simp⟩ ?_ h
  rintro done b s s' ⟨hsound, hdone⟩ hb
  have hstored := hstep s b s' hb
  have hsound' : ∀ k a, table s' k = some a → f k = some a := by
    intro k a ha
    rcases hstored k with ⟨-, hk⟩ | ⟨-, hk | ⟨-, hk⟩⟩
    · exact hsound k a (hk ▸ ha)
    · exact hk ▸ ha
    · exact hsound k a (hk ▸ ha)
  refine ⟨hsound', fun c hc k hck => ?_⟩
  rcases List.mem_append.1 hc with hc | hc
  · rcases hstored k with ⟨-, hk⟩ | ⟨-, hk | ⟨-, hk⟩⟩
    · rw [hk, hdone c hc k hck]
    · exact hk
    · rw [hk, hdone c hc k hck]
  · obtain rfl := List.mem_singleton.1 hc
    rcases hstored k with ⟨hne, -⟩ | ⟨-, hk | ⟨hsome, hk⟩⟩
    · exact absurd hck hne
    · exact hk
    · obtain ⟨a, ha⟩ := Option.isSome_iff_exists.1 hsome
      rw [hk, ha, hsound k a ha]

end WutherCore.Data
