import Mathlib.Data.List.Basic

/-!
# Systems that take moves

A system is a function `step : σ → μ → Option σ`: the state after a move, where the move is possible.
`Reach step ok s t` says that moves lead from `s` to `t`, each of them allowed by `ok` in the state
before it.  What every allowed move keeps holds in all states that are reached (`Reach.inv`); a state
that is computed along a list of moves is reached (`reach_of_runMoves`).
-/

namespace WutherCore.Data

variable {σ μ : Type*}

/-- The states that are reached by allowed moves. -/
inductive Reach (step : σ → μ → Option σ) (ok : σ → μ → Prop) (s : σ) : σ → Prop
  | refl : Reach step ok s s
  | tail {t u : σ} {m : μ} : Reach step ok s t → ok t m → step t m = some u → Reach step ok s u

/-- Every move is allowed. -/
abbrev anyMove (_ : σ) (_ : μ) : Prop := True

/-- The state after the moves of a list, if each of them is possible. -/
def runMoves (step : σ → μ → Option σ) (s : σ) (moves : List μ) : Option σ := moves.foldlM step s

/-- The moves of a system that are allowed. -/
def onlyOk (step : σ → μ → Option σ) (ok : σ → μ → Prop) [∀ s m, Decidable (ok s m)] (s : σ) (m : μ) :
    Option σ :=
  if ok s m then step s m else none

variable {step step' : σ → μ → Option σ} {ok ok' : σ → μ → Prop} {s t u : σ} {moves : List μ}

/-- **What every allowed move keeps holds in all states that are reached.** -/
theorem Reach.inv {I : σ → Prop} (hstep : ∀ s m t, I s → ok s m → step s m = some t → I t)
    (h : Reach step ok s t) (hs : I s) : I t := by
  induction h with
  | refl => exact hs
  | tail _ hok hm ih => exact hstep _ _ _ ih hok hm

theorem Reach.trans (h : Reach step ok s t) (h' : Reach step ok t u) : Reach step ok s u := by
  induction h' with
  | refl => exact h
  | tail _ hok hm ih => exact ih.tail hok hm

theorem reach_of_moves (hstep : ∀ s m t, step' s m = some t → ok s m ∧ step s m = some t)
    (h : runMoves step' s moves = some t) : Reach step ok s t := by
  induction moves generalizing s with
  | nil =>
    cases h
    exact .refl
  | cons m moves ih =>
    rw [runMoves, List.foldlM_cons] at h
    obtain ⟨u, hu, h⟩ := Option.bind_eq_some_iff.1 h
    obtain ⟨hok, hm⟩ := hstep _ _ _ hu
    exact (Reach.refl.tail hok hm).trans (ih h)

theorem reach_of_runMoves (h : runMoves step s moves = some t) : Reach step anyMove s t :=
  reach_of_moves (fun _ _ _ hm => ⟨trivial, hm⟩) h

theorem reach_of_onlyOk [∀ s m, Decidable (ok s m)] (h : runMoves (onlyOk step ok) s moves = some t) :
    Reach step ok s t := by
  refine reach_of_moves (fun s m u hm => ?_) h
  unfold onlyOk at hm
  split_ifs at hm with hok
  exact ⟨hok, hm⟩

end WutherCore.Data
