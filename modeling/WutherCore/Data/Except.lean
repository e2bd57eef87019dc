import Mathlib.Data.List.Forall2

/-!
# Computations that may fail

Inversion rules for `Except`: what a successful sequence of steps says about the steps.  A list that is
read element by element is related to its results by `List.Forall₂`; the last section is about that.
-/

namespace WutherCore.Data

variable {ε ε' α β : Type*}

theorem bind_eq_ok {x : Except ε α} {f : α → Except ε β} {b : β} :
    x.bind f = .ok b ↔ ∃ a, x = .ok a ∧ f a = .ok b := by
  cases x with
  | error e => simp [Except.bind]
  | ok a => simp [Except.bind]

theorem mapError_eq_ok {x : Except ε α} {f : ε → ε'} {a : α} :
    x.mapError f = .ok a ↔ x = .ok a := by
  cases x <;> simp [Except.mapError]

theorem map_eq_ok {x : Except ε α} {f : α → β} {b : β} :
    x.map f = .ok b ↔ ∃ a, x = .ok a ∧ f a = b := by
  cases x <;> simp [Except.map]

theorem mapM_eq_ok {f : α → Except ε β} {as : List α} {bs : List β} :
    as.mapM f = .ok bs ↔ List.Forall₂ (fun a b => f a = .ok b) as bs := by
  induction as generalizing bs with
  | nil => simp [pure, Except.pure, eq_comm]
  | cons a as ih =>
    rw [List.mapM_cons]
    constructor
    · intro h
      obtain ⟨b, hb, h⟩ := bind_eq_ok.1 h
      obtain ⟨bs', hbs, h⟩ := bind_eq_ok.1 h
      cases h
      exact .cons hb (ih.1 hbs)
    · rintro (_ | ⟨hb, hbs⟩)
      exact bind_eq_ok.2 ⟨_, hb, bind_eq_ok.2 ⟨_, ih.2 hbs, rfl⟩⟩

/-! ### Related lists -/

section Related

variable {R : α → β → Prop} {as : List α} {bs : List β}

theorem exists_left_of_forall₂ (h : List.Forall₂ R as bs) {b : β} (hb : b ∈ bs) :
    ∃ a ∈ as, R a b := by
  induction h with
  | nil => cases hb
  | cons hab _ ih =>
    rcases List.mem_cons.1 hb with rfl | hb
    · exact ⟨_, List.mem_cons_self, hab⟩
    · obtain ⟨a, ha, hR⟩ := ih hb
      exact ⟨a, List.mem_cons_of_mem _ ha, hR⟩

theorem exists_right_of_forall₂ (h : List.Forall₂ R as bs) {a : α} (ha : a ∈ as) :
    ∃ b ∈ bs, R a b := by
  obtain ⟨b, hb, hR⟩ := exists_left_of_forall₂ (List.Forall₂.flip h) ha
  exact ⟨b, hb, hR⟩

theorem getElem?_of_forall₂ (h : List.Forall₂ R as bs) {i : Nat} {b : β} (hb : bs[i]? = some b) :
    ∃ a, as[i]? = some a ∧ R a b := by
  induction h generalizing i with
  | nil => cases hb
  | cons hab _ ih =>
    cases i with
    | zero =>
      cases hb
      exact ⟨_, rfl, hab⟩
    | succ i => exact ih hb

theorem exists_forall₂ (h : ∀ a ∈ as, ∃ b, R a b) : ∃ bs, List.Forall₂ R as bs := by
  induction as with
  | nil => exact ⟨[], .nil⟩
  | cons a as ih =>
    rw [List.forall_mem_cons] at h
    obtain ⟨b, hb⟩ := h.1
    obtain ⟨bs, hbs⟩ := ih h.2
    exact ⟨b :: bs, .cons hb hbs⟩

end Related

theorem getElem?_mapM_zipIdx {f : α × Nat → Except ε β} {as : List α} {bs : List β}
    (h : as.zipIdx.mapM f = .ok bs) :
    bs.length = as.length ∧
      ∀ i b, bs[i]? = some b → ∃ a, as[i]? = some a ∧ f (a, i) = .ok b := by
  have hrel := mapM_eq_ok.1 h
  refine ⟨by simpa using hrel.length_eq.symm, fun i b hb => ?_⟩
  obtain ⟨⟨a, j⟩, ha, hf⟩ := getElem?_of_forall₂ hrel hb
  rw [List.getElem?_zipIdx, Option.map_eq_some_iff] at ha
  obtain ⟨a', ha', heq⟩ := ha
  obtain ⟨rfl, rfl⟩ := Prod.mk.inj heq
  rw [Nat.zero_add] at hf
  exact ⟨_, ha', hf⟩

end WutherCore.Data
