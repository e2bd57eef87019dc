import Mathlib.Data.List.Perm.Basic
import WutherCore.Data.AssocMap

/-!
# First-fit clustering

Elements arrive one after the other.  Each is absorbed by the first bin that accepts it, or starts a
bin of its own behind the others (`Policy.place`).  The bins of a run are made from *clusters* of
elements (`Policy.clusters`, `map_build_placeAll`), so that what a run does to the elements is read off
the clusters:

* `perm_placeAll`: every element is in one cluster.
* `absorbed_placeAll`: a condition holds at every absorption of a run, on the bin before it, when it
  holds along every cluster.
* `pairwise_placeAll`: the clusters one after the other are in the order of arrival when elements join
  the newest bin only.

A table has such bins for each key (`Policy.pushAll`), and what happens at one key depends on the
elements of that key.
-/

namespace WutherCore.Data

theorem forall_split_concat {α : Type*} {as : List α} {a : α} {p : List α → α → Prop} :
    (∀ pre b post, as ++ [a] = pre ++ b :: post → p pre b) ↔
      (∀ pre b post, as = pre ++ b :: post → p pre b) ∧ p as a := by
  constructor
  · exact fun h => ⟨fun pre b post heq => h pre b (post ++ [a]) (by simp [heq]), h as a [] rfl⟩
  · rintro ⟨h, ha⟩ pre b post heq
    rcases List.eq_nil_or_concat post with rfl | ⟨post', c, rfl⟩
    · obtain ⟨rfl, h2⟩ := List.append_inj' heq rfl
      obtain rfl : a = b := by simpa using h2
      exact ha
    · have hsplit : as ++ [a] = (pre ++ b :: post') ++ [c] := by simpa using heq
      exact h pre b post' (List.append_inj_left' hsplit rfl)

theorem forall_split_filter {α : Type*} {as : List α} {p : α → Bool} {q : List α → α → Prop} :
    (∀ pre b post, as.filter p = pre ++ b :: post → q pre b) ↔
      ∀ pre b post, as = pre ++ b :: post → p b = true → q (pre.filter p) b := by
  induction as using List.reverseRecOn with
  | nil => simp
  | append_singleton as a ih =>
    rw [forall_split_concat (p := fun pre b => p b = true → q (pre.filter p) b), ← ih,
      List.filter_append]
    by_cases h : p a = true
    · have ha : [a].filter p = [a] := by simp [h]
      rw [ha, forall_split_concat (p := q)]
      simp [h]
    · have ha : [a].filter p = [] := by simp [h]
      rw [ha, List.append_nil]
      simp [h]

theorem forall_split_map {α β : Type*} (as : List α) {f : α → β} {q : List β → β → Prop} :
    (∀ pre b post, as.map f = pre ++ b :: post → q pre b) ↔
      ∀ pre a post, as = pre ++ a :: post → q (pre.map f) (f a) := by
  constructor
  · rintro h pre a post rfl
    exact h (pre.map f) (f a) (post.map f) (by simp)
  · intro h pre b post heq
    obtain ⟨pre', rest, rfl, rfl, hrest⟩ := List.map_eq_append_iff.1 heq
    obtain ⟨a, post', rfl, rfl, rfl⟩ := List.map_eq_cons_iff.1 hrest
    exact h pre' a post' rfl

/-- How bins of type `β` take up elements of type `α`. -/
structure Policy (α β : Type*) where
  /-- The bin that an element starts. -/
  fresh : α → β
  accepts : β → α → Bool
  absorb : β → α → β

/-- The elements of a bin, in the order in which it took them up. -/
structure Cluster (α : Type*) where
  first : α
  rest : List α

namespace Cluster

variable {α β : Type*}

def toList (g : Cluster α) : List α := g.first :: g.rest

/-- The cluster with one more element. -/
def snoc (g : Cluster α) (a : α) : Cluster α := ⟨g.first, g.rest ++ [a]⟩

def map (f : α → β) (g : Cluster α) : Cluster β := ⟨f g.first, g.rest.map f⟩

theorem toList_snoc (g : Cluster α) (a : α) : (g.snoc a).toList = g.toList ++ [a] := rfl

theorem map_snoc (f : α → β) (g : Cluster α) (a : α) : (g.snoc a).map f = (g.map f).snoc (f a) := by
  simp [snoc, map]

theorem toList_map (f : α → β) (g : Cluster α) : (g.map f).toList = g.toList.map f := rfl

end Cluster

namespace Policy

variable {α β γ κ : Type*} (P : Policy α β)

/-- Takes up one element: `for b in bins { if accepts { absorb; return } } bins.push(fresh)`. -/
def place (a : α) : List β → List β
  | [] => [P.fresh a]
  | b :: bs => if P.accepts b a then P.absorb b a :: bs else b :: place a bs

def placeAll (as : List α) : List β := as.foldl (fun bs a => P.place a bs) []

/-- The bin of a cluster. -/
def build (g : Cluster α) : β := g.rest.foldl P.absorb (P.fresh g.first)

/-- The policy with the clusters in the place of the bins. -/
def clusters : Policy α (Cluster α) where
  fresh a := ⟨a, []⟩
  accepts g a := P.accepts (P.build g) a
  absorb g a := g.snoc a

/-- The policy on elements that carry more than it looks at. -/
def comap (f : γ → α) : Policy γ β where
  fresh c := P.fresh (f c)
  accepts b c := P.accepts b (f c)
  absorb b c := P.absorb b (f c)

variable {P}

@[simp] theorem clusters_fresh (a : α) : P.clusters.fresh a = ⟨a, []⟩ := rfl

@[simp] theorem clusters_accepts (g : Cluster α) (a : α) :
    P.clusters.accepts g a = P.accepts (P.build g) a := rfl

@[simp] theorem clusters_absorb (g : Cluster α) (a : α) : P.clusters.absorb g a = g.snoc a := rfl

theorem placeAll_concat (as : List α) (a : α) : P.placeAll (as ++ [a]) = P.place a (P.placeAll as) := by
  simp [placeAll]

/-- What taking up an element does: a new bin behind the others, or a change of the first one that
accepts. -/
theorem place_cases (a : α) (bs : List β) :
    ((∀ b ∈ bs, P.accepts b a = false) ∧ P.place a bs = bs ++ [P.fresh a]) ∨
      ∃ pre b post, bs = pre ++ b :: post ∧ (∀ c ∈ pre, P.accepts c a = false) ∧
        P.accepts b a = true ∧ P.place a bs = pre ++ P.absorb b a :: post := by
  induction bs with
  | nil => exact .inl ⟨by simp, rfl⟩
  | cons b bs ih =>
    by_cases h : P.accepts b a = true
    · exact .inr ⟨[], b, bs, rfl, by simp, h, by simp [place, h]⟩
    · have hf : P.accepts b a = false := by simpa using h
      rcases ih with ⟨hall, heq⟩ | ⟨pre, c, post, rfl, hpre, hc, heq⟩
      · refine .inl ⟨?_, by simp [place, hf, heq]⟩
        rw [List.forall_mem_cons]
        exact ⟨hf, hall⟩
      · refine .inr ⟨b :: pre, c, post, rfl, ?_, hc, by simp [place, hf, heq]⟩
        rw [List.forall_mem_cons]
        exact ⟨hf, hpre⟩

theorem find?_accepts {a : α} {pre post : List β} {b : β} (hpre : ∀ c ∈ pre, P.accepts c a = false)
    (hb : P.accepts b a = true) : (pre ++ b :: post).find? (P.accepts · a) = some b := by
  have hnone : pre.find? (P.accepts · a) = none := List.find?_eq_none.2 (by simpa using hpre)
  simp [List.find?_append, hnone, hb]

theorem place_comap (f : γ → α) (c : γ) (bs : List β) : (P.comap f).place c bs = P.place (f c) bs := by
  induction bs with
  | nil => rfl
  | cons b bs ih =>
    unfold place
    rw [ih]
    rfl

/-! ### Bins and clusters -/

theorem build_snoc (g : Cluster α) (a : α) : P.build (g.snoc a) = P.absorb (P.build g) a := by
  simp [build, Cluster.snoc]

theorem map_build_place (a : α) (gs : List (Cluster α)) :
    (P.clusters.place a gs).map P.build = P.place a (gs.map P.build) := by
  induction gs with
  | nil => rfl
  | cons g gs ih =>
    by_cases h : P.accepts (P.build g) a = true
    · simp only [place, clusters_accepts, clusters_absorb, h, if_true, List.map_cons, build_snoc]
    · simp only [place, clusters_accepts, h, List.map_cons, ih, Bool.false_eq_true, if_false]

theorem map_build_placeAll (as : List α) : (P.clusters.placeAll as).map P.build = P.placeAll as := by
  induction as using List.reverseRecOn with
  | nil => rfl
  | append_singleton as a ih => rw [placeAll_concat, placeAll_concat, map_build_place, ih]

theorem build_comap (f : γ → α) (g : Cluster γ) : (P.comap f).build g = P.build (g.map f) := by
  simp only [build, Cluster.map, comap, List.foldl_map]

theorem map_place_comap (f : γ → α) (c : γ) (gs : List (Cluster γ)) :
    ((P.comap f).clusters.place c gs).map (Cluster.map f) = P.clusters.place (f c) (gs.map (Cluster.map f)) := by
  induction gs with
  | nil => rfl
  | cons g gs ih =>
    have hacc : (P.comap f).accepts ((P.comap f).build g) c = P.accepts (P.build (g.map f)) (f c) := by
      rw [build_comap]
      rfl
    by_cases h : P.accepts (P.build (g.map f)) (f c) = true
    · simp only [place, clusters_accepts, clusters_absorb, hacc, h, if_true, List.map_cons,
        Cluster.map_snoc]
    · simp only [place, clusters_accepts, hacc, h, Bool.false_eq_true, if_false, List.map_cons, ih]

theorem map_placeAll_comap (f : γ → α) (cs : List γ) :
    ((P.comap f).clusters.placeAll cs).map (Cluster.map f) = P.clusters.placeAll (cs.map f) := by
  induction cs using List.reverseRecOn with
  | nil => rfl
  | append_singleton cs c ih =>
    rw [List.map_append, List.map_singleton, placeAll_concat, placeAll_concat, map_place_comap, ih]

/-! ### The elements of the clusters -/

theorem perm_place (a : α) (gs : List (Cluster α)) :
    ((P.clusters.place a gs).flatMap Cluster.toList).Perm (gs.flatMap Cluster.toList ++ [a]) := by
  rcases place_cases (P := P.clusters) a gs with ⟨-, heq⟩ | ⟨pre, g, post, rfl, -, -, heq⟩
  · simp [heq, Cluster.toList]
  · simp only [heq, clusters_absorb, List.flatMap_append, List.flatMap_cons, Cluster.toList_snoc, List.append_assoc]
    exact (List.perm_append_comm.append_left _).append_left _

theorem perm_placeAll (as : List α) : ((P.clusters.placeAll as).flatMap Cluster.toList).Perm as := by
  induction as using List.reverseRecOn with
  | nil => exact .refl _
  | append_singleton as a ih =>
    rw [placeAll_concat]
    exact (perm_place a _).trans (ih.append_right _)

/-! ### Absorptions -/

/-- Along the cluster, `Q` holds of the bin before each absorption and the element it takes up. -/
def Absorbed (P : Policy α β) (Q : β → α → Prop) (g : Cluster α) : Prop :=
  ∀ pre a post, g.rest = pre ++ a :: post → Q (P.build ⟨g.first, pre⟩) a

theorem absorbed_fresh {Q : β → α → Prop} (a : α) : P.Absorbed Q ⟨a, []⟩ := by
  intro pre b post h
  simp at h

theorem absorbed_snoc {Q : β → α → Prop} {g : Cluster α} {a : α} :
    P.Absorbed Q (g.snoc a) ↔ P.Absorbed Q g ∧ Q (P.build g) a :=
  forall_split_concat (p := fun pre b => Q (P.build ⟨g.first, pre⟩) b)

theorem Absorbed.of_append {Q : β → α → Prop} {g : Cluster α} {pre post : List α}
    (h : P.Absorbed Q g) (heq : g.rest = pre ++ post) : P.Absorbed Q ⟨g.first, pre⟩ := by
  intro pre' a post' hpre
  refine h pre' a (post' ++ post) ?_
  rw [heq, show pre = pre' ++ a :: post' from hpre, List.append_assoc, List.cons_append]

theorem Absorbed.induction {Q : β → α → Prop} {motive : Cluster α → Prop}
    (fresh : ∀ a, motive ⟨a, []⟩)
    (absorb : ∀ g a, P.Absorbed Q g → motive g → Q (P.build g) a → motive (g.snoc a))
    {g : Cluster α} (h : P.Absorbed Q g) : motive g := by
  obtain ⟨first, rest⟩ := g
  induction rest using List.reverseRecOn with
  | nil => exact fresh first
  | append_singleton rest a ih =>
    obtain ⟨hg, ha⟩ := absorbed_snoc.1 (show P.Absorbed Q (Cluster.snoc ⟨first, rest⟩ a) from h)
    exact absorb ⟨first, rest⟩ a hg (ih hg) ha

theorem absorbed_place {Q : β → α → Prop} (a : α) (gs : List (Cluster α)) :
    (∀ g ∈ P.clusters.place a gs, P.Absorbed Q g) ↔ (∀ g ∈ gs, P.Absorbed Q g) ∧
      ∀ b, (gs.map P.build).find? (P.accepts · a) = some b → Q b a := by
  rcases place_cases (P := P.clusters) a gs with ⟨hno, heq⟩ | ⟨pre, g, post, rfl, hpre, hg, heq⟩
  · have hnone : (gs.map P.build).find? (P.accepts · a) = none := by
      rw [List.find?_eq_none]
      intro b hb
      obtain ⟨g, hg, rfl⟩ := List.mem_map.1 hb
      exact Bool.not_eq_true _ ▸ hno g hg
    rw [heq, hnone]
    constructor
    · exact fun h => ⟨fun g hg => h g (List.mem_append_left _ hg), by simp⟩
    · rintro ⟨h, -⟩ g hg
      rcases List.mem_append.1 hg with hg | hg
      · exact h g hg
      · obtain rfl := List.mem_singleton.1 hg
        exact absorbed_fresh a
  · have hfind : ((pre ++ g :: post).map P.build).find? (P.accepts · a) = some (P.build g) := by
      rw [List.map_append, List.map_cons]
      refine find?_accepts ?_ hg
      intro b hb
      obtain ⟨c, hc, rfl⟩ := List.mem_map.1 hb
      exact hpre c hc
    rw [heq, hfind, clusters_absorb]
    simp only [List.forall_mem_append, List.forall_mem_cons, absorbed_snoc, Option.some.injEq,
      forall_eq']
    tauto

theorem absorbed_placeAll {Q : β → α → Prop} (as : List α) :
    (∀ g ∈ P.clusters.placeAll as, P.Absorbed Q g) ↔
      ∀ pre a post, as = pre ++ a :: post →
        ∀ b, (P.placeAll pre).find? (P.accepts · a) = some b → Q b a := by
  induction as using List.reverseRecOn with
  | nil => simp [placeAll]
  | append_singleton as a ih =>
    rw [placeAll_concat, absorbed_place, ih, map_build_placeAll, forall_split_concat]

theorem absorbed_accepts {as : List α} {g : Cluster α} (hg : g ∈ P.clusters.placeAll as) :
    P.Absorbed (fun b a => P.accepts b a = true) g :=
  (absorbed_placeAll (Q := fun b a => P.accepts b a = true) as).2
    (fun _ a _ _ _ hb => List.find?_some (p := (P.accepts · a)) hb) g hg

/-! ### Order -/

section Order

variable {R : α → α → Prop}

theorem sublist_place (a : α) (gs : List (Cluster α)) :
    (gs.flatMap Cluster.toList).Sublist ((P.clusters.place a gs).flatMap Cluster.toList) := by
  rcases place_cases (P := P.clusters) a gs with ⟨-, heq⟩ | ⟨pre, g, post, rfl, -, -, heq⟩
  · simp [heq]
  · simp only [heq, clusters_absorb, List.flatMap_append, List.flatMap_cons, Cluster.toList_snoc,
      List.append_assoc]
    exact ((List.sublist_append_right _ _).append_left _).append_left _

/-- Clusters in order stay in order when the next element joins the last of them, and only then. -/
theorem pairwise_place (hasymm : ∀ a b, R a b → ¬ R b a) {a : α} {gs : List (Cluster α)}
    (hgs : (gs.flatMap Cluster.toList).Pairwise R) (ha : ∀ g ∈ gs, ∀ b ∈ g.toList, R b a) :
    ((P.clusters.place a gs).flatMap Cluster.toList).Pairwise R ↔
      ∀ g ∈ gs.dropLast, P.accepts (P.build g) a = false := by
  have hsnoc : (gs.flatMap Cluster.toList ++ [a]).Pairwise R := by
    rw [List.pairwise_append]
    refine ⟨hgs, List.pairwise_singleton _ _, fun b hb c hc => ?_⟩
    obtain ⟨g, hg, hbg⟩ := List.mem_flatMap.1 hb
    rw [List.mem_singleton.1 hc]
    exact ha g hg b hbg
  rcases place_cases (P := P.clusters) a gs with ⟨hno, heq⟩ | ⟨pre, g, post, rfl, hpre, hg, heq⟩
  · refine iff_of_true ?_ fun g hg => hno g (List.dropLast_subset _ hg)
    rw [heq]
    simpa [Cluster.toList] using hsnoc
  · rcases List.eq_nil_or_concat post with rfl | ⟨post', c, rfl⟩
    · refine iff_of_true ?_ (by simpa using hpre)
      rw [heq]
      simpa [Cluster.toList_snoc] using hsnoc
    · -- The element lands before a cluster that came earlier.
      refine iff_of_false ?_ fun h => ?_
      · intro h
        rw [heq, clusters_absorb, List.flatMap_append, List.flatMap_cons, Cluster.toList_snoc] at h
        have hc : c ∈ pre ++ g :: post'.concat c := by simp
        have h1 := (List.pairwise_append.1 (List.pairwise_append.1 h).2.1).2.2 a (by simp) c.first
          (by simp [Cluster.toList])
        exact hasymm _ _ h1 (ha c hc c.first List.mem_cons_self)
      · have hmem : g ∈ (pre ++ g :: post'.concat c).dropLast := by
          rw [List.concat_eq_append, ← List.cons_append, ← List.append_assoc, List.dropLast_concat]
          simp
        exact Bool.noConfusion ((h g hmem).symm.trans hg)

/-- The clusters of elements that came in order, one after the other, are in order when every element
joins the newest bin or none. -/
theorem pairwise_placeAll (hasymm : ∀ a b, R a b → ¬ R b a) {as : List α} (has : as.Pairwise R) :
    ((P.clusters.placeAll as).flatMap Cluster.toList).Pairwise R ↔
      ∀ pre a post, as = pre ++ a :: post →
        ∀ b ∈ (P.placeAll pre).dropLast, P.accepts b a = false := by
  induction as using List.reverseRecOn with
  | nil => simp [placeAll]
  | append_singleton as a ih =>
    obtain ⟨has', -, hlast⟩ := List.pairwise_append.1 has
    have ha : ∀ g ∈ P.clusters.placeAll as, ∀ b ∈ g.toList, R b a := fun g hg b hb =>
      hlast b ((perm_placeAll as).mem_iff.1 (List.mem_flatMap.2 ⟨g, hg, hb⟩)) a (by simp)
    have hstep : (∀ g ∈ (P.clusters.placeAll as).dropLast, P.accepts (P.build g) a = false) ↔
        ∀ b ∈ (P.placeAll as).dropLast, P.accepts b a = false := by
      rw [← map_build_placeAll (P := P) as, ← List.map_dropLast, List.forall_mem_map]
    rw [placeAll_concat, forall_split_concat, ← ih has', ← hstep]
    constructor
    · intro h
      have hprev := h.sublist (sublist_place a _)
      exact ⟨hprev, (pairwise_place hasymm hprev ha).1 h⟩
    · rintro ⟨hprev, hlast⟩
      exact (pairwise_place hasymm hprev ha).2 hlast

end Order

/-! ### Tables of bins -/

section Table

variable [DecidableEq κ] (P) (key : α → κ)

/-- `items = table.entry(key).or_default()`, and the element is taken up by one of them. -/
def push (m : AssocMap κ (List β)) (a : α) : AssocMap κ (List β) :=
  m.insert (key a) (P.place a ((m.get? (key a)).getD []))

def pushAll (as : List α) : AssocMap κ (List β) := as.foldl (P.push key) AssocMap.empty

variable {P key}

theorem pushAll_concat (as : List α) (a : α) :
    P.pushAll key (as ++ [a]) = P.push key (P.pushAll key as) a := by
  simp [pushAll]

theorem getD_pushAll (as : List α) (k : κ) :
    ((P.pushAll key as).get? k).getD [] = P.placeAll (as.filter (key · = k)) := by
  induction as using List.reverseRecOn with
  | nil => rfl
  | append_singleton as a ih =>
    rw [pushAll_concat, push, List.filter_append]
    by_cases h : key a = k
    · subst h
      have hself : [a].filter (key · = key a) = [a] := by simp
      rw [AssocMap.get?_insert_self, Option.getD_some, ih, hself, placeAll_concat]
    · rw [AssocMap.get?_insert_of_ne _ _ (Ne.symm h), ih]
      simp [h]

theorem mem_keys_pushAll (as : List α) (k : κ) :
    k ∈ (P.pushAll key as).entries.map Prod.fst ↔ ∃ a ∈ as, key a = k := by
  rw [AssocMap.mem_keys_iff]
  induction as using List.reverseRecOn with
  | nil => simp [pushAll]
  | append_singleton as a ih =>
    rw [pushAll_concat, push]
    by_cases h : key a = k
    · subst h
      simp
    · rw [AssocMap.get?_insert_of_ne _ _ (Ne.symm h), ih]
      simp [h]

variable (P key) in
/-- The clusters of a table, with its keys in a given order. -/
def clustersIn (ks : List κ) (as : List α) : List (Cluster α) :=
  ks.flatMap fun k => P.clusters.placeAll (as.filter (key · = k))

theorem map_build_clustersIn (as : List α) {es : List (κ × List β)}
    (hes : es.Perm (P.pushAll key as).entries) :
    (P.clustersIn key (es.map Prod.fst) as).map P.build = es.flatMap Prod.snd := by
  rw [clustersIn, List.flatMap_map, List.map_flatMap]
  refine List.flatMap_congr fun e he => ?_
  have hget := AssocMap.get?_eq_some.2 (hes.mem_iff.1 he)
  rw [map_build_placeAll, ← getD_pushAll, hget, Option.getD_some]

variable (key) in
theorem pushAll_comap (f : γ → α) (cs : List γ) :
    (P.comap f).pushAll (fun c => key (f c)) cs = P.pushAll key (cs.map f) := by
  induction cs using List.reverseRecOn with
  | nil => rfl
  | append_singleton cs c ih =>
    rw [List.map_append, List.map_singleton, pushAll_concat, pushAll_concat, ih, push, push, place_comap]

theorem map_clustersIn_comap (f : γ → α) (ks : List κ) (cs : List γ) :
    ((P.comap f).clustersIn (fun c => key (f c)) ks cs).map (Cluster.map f) =
      P.clustersIn key ks (cs.map f) := by
  rw [clustersIn, clustersIn, List.map_flatMap]
  refine List.flatMap_congr fun k _ => ?_
  rw [map_placeAll_comap, List.filter_map]
  rfl

theorem of_mem_clustersIn {ks : List κ} {as : List α} {g : Cluster α}
    (hg : g ∈ P.clustersIn key ks as) :
    (∀ a ∈ g.toList, a ∈ as ∧ key a = key g.first) ∧
      P.Absorbed (fun b a => P.accepts b a = true) g := by
  obtain ⟨k, -, hk⟩ := List.mem_flatMap.1 hg
  have hmem : ∀ a ∈ g.toList, a ∈ as ∧ key a = k := fun a ha => by
    have hf := (perm_placeAll _).mem_iff.1 (List.mem_flatMap.2 ⟨g, hk, ha⟩)
    simpa using hf
  refine ⟨fun a ha => ⟨(hmem a ha).1, ?_⟩, absorbed_accepts hk⟩
  rw [(hmem a ha).2, (hmem g.first List.mem_cons_self).2]

theorem perm_clustersIn {ks : List κ} {as : List α} (hnodup : ks.Nodup)
    (hks : ∀ a ∈ as, key a ∈ ks) : ((P.clustersIn key ks as).flatMap Cluster.toList).Perm as := by
  induction ks generalizing as with
  | nil =>
    obtain rfl : as = [] := List.eq_nil_iff_forall_not_mem.2 fun a ha => by simpa using hks a ha
    exact .refl _
  | cons k ks ih =>
    obtain ⟨hk, hnodup⟩ := List.nodup_cons.1 hnodup
    -- The elements of the other keys are the same without those of this one.
    have hrest : P.clustersIn key ks as = P.clustersIn key ks (as.filter (key · ≠ k)) := by
      refine List.flatMap_congr fun k' hk' => ?_
      rw [List.filter_filter]
      refine congrArg _ (List.filter_congr fun a _ => ?_)
      by_cases h : key a = k'
      · have hne : k' ≠ k := fun h' => hk (h' ▸ hk')
        simp [h, hne]
      · simp [h]
    have hkeys : ∀ a ∈ as.filter (key · ≠ k), key a ∈ ks := by
      intro a ha
      have := hks a (List.mem_filter.1 ha).1
      simp_all
    have hperm := ih hnodup hkeys
    rw [clustersIn, List.flatMap_cons, List.flatMap_append]
    refine ((perm_placeAll _).append (hrest ▸ hperm)).trans ?_
    simpa using List.filter_append_perm (fun a => decide (key a = k)) as

theorem absorbed_pushAll {Q : β → α → Prop} {ks : List κ} {as : List α} (hks : ∀ a ∈ as, key a ∈ ks) :
    (∀ g ∈ P.clustersIn key ks as, P.Absorbed Q g) ↔
      ∀ pre a post, as = pre ++ a :: post →
        ∀ b, (((P.pushAll key pre).get? (key a)).getD []).find? (P.accepts · a) = some b → Q b a := by
  have hkey : ∀ k, (∀ g ∈ P.clusters.placeAll (as.filter (key · = k)), P.Absorbed Q g) ↔
      ∀ pre a post, as = pre ++ a :: post → key a = k →
        ∀ b, (((P.pushAll key pre).get? (key a)).getD []).find? (P.accepts · a) = some b → Q b a := by
    intro k
    rw [absorbed_placeAll, forall_split_filter (q := fun pre a =>
      ∀ b, (P.placeAll pre).find? (P.accepts · a) = some b → Q b a)]
    refine forall₄_congr fun pre a post _ => ?_
    simp only [decide_eq_true_eq]
    refine forall_congr' fun hk => ?_
    rw [getD_pushAll, hk]
  constructor
  · intro h pre a post heq
    refine (hkey (key a)).1 (fun g hg => h g ?_) pre a post heq rfl
    exact List.mem_flatMap.2 ⟨key a, hks a (by simp [heq]), hg⟩
  · intro h g hg
    obtain ⟨k, -, hk⟩ := List.mem_flatMap.1 hg
    exact (hkey k).2 (fun pre a post heq _ => h pre a post heq) g hk

theorem flatMap_clustersIn (ks : List κ) (as : List α) :
    (P.clustersIn key ks as).flatMap Cluster.toList =
      ks.flatMap fun k => (P.clusters.placeAll (as.filter (key · = k))).flatMap Cluster.toList := by
  rw [clustersIn, List.flatMap_assoc]

theorem mem_cluster_key {as : List α} {k : κ} {a : α} :
    a ∈ (P.clusters.placeAll (as.filter (key · = k))).flatMap Cluster.toList ↔ a ∈ as ∧ key a = k := by
  rw [(perm_placeAll _).mem_iff]
  simp

theorem filter_clustersIn (p : κ → Bool) (ks : List κ) (as : List α) :
    ((P.clustersIn key ks as).flatMap Cluster.toList).filter (fun a => p (key a)) =
      (P.clustersIn key (ks.filter p) as).flatMap Cluster.toList := by
  rw [flatMap_clustersIn, flatMap_clustersIn]
  induction ks with
  | nil => rfl
  | cons k ks ih =>
    rw [List.flatMap_cons, List.filter_append, ih]
    by_cases h : p k = true
    · rw [List.filter_cons_of_pos h, List.flatMap_cons, List.filter_eq_self.2 fun a ha => by
        rw [(mem_cluster_key.1 ha).2, h]]
    · rw [List.filter_cons_of_neg h, List.filter_eq_nil_iff.2 fun a ha => by
        rw [(mem_cluster_key.1 ha).2]; exact h, List.nil_append]

variable (key) in
/-- Whatever the order of the keys, the elements of some keys come in order when they have one key
between them, and each joins the newest bin of its key or none. -/
theorem pairwise_clustersIn {R : α → α → Prop} (hasymm : ∀ a b, R a b → ¬ R b a) {as : List α}
    (has : as.Pairwise R) (p : κ → Bool) :
    (∀ es : List (κ × List β), es.Perm (P.pushAll key as).entries →
        (((P.clustersIn key (es.map Prod.fst) as).flatMap Cluster.toList).filter
          fun a => p (key a)).Pairwise R) ↔
      ∀ pre a post, as = pre ++ a :: post → p (key a) = true →
        (∀ a' ∈ pre, p (key a') = true → key a' = key a) ∧
          ∀ b ∈ (((P.pushAll key pre).get? (key a)).getD []).dropLast, P.accepts b a = false := by
  -- What the newest bins say, for the elements of one key.
  have hnewest : ∀ k, ((P.clusters.placeAll (as.filter (key · = k))).flatMap Cluster.toList).Pairwise R ↔
      ∀ pre a post, as = pre ++ a :: post → key a = k →
        ∀ b ∈ (((P.pushAll key pre).get? (key a)).getD []).dropLast, P.accepts b a = false := by
    intro k
    rw [pairwise_placeAll hasymm (has.sublist List.filter_sublist), forall_split_filter (q := fun pre a =>
      ∀ b ∈ (P.placeAll pre).dropLast, P.accepts b a = false)]
    refine forall₄_congr fun pre a post _ => ?_
    simp only [decide_eq_true_eq]
    refine forall_congr' fun hk => ?_
    rw [getD_pushAll, hk]
  simp only [filter_clustersIn]
  simp only [flatMap_clustersIn]
  constructor
  · intro h pre a post heq hp
    have hentry : ∀ b ∈ as, ∃ e ∈ (P.pushAll key as).entries, e.1 = key b := fun b hb =>
      List.mem_map.1 ((mem_keys_pushAll as (key b)).2 ⟨b, hb, rfl⟩)
    have ha : a ∈ as := by simp [heq]
    obtain ⟨e, he, hek⟩ := hentry a ha
    obtain ⟨l₁, l₂, hl⟩ := List.append_of_mem he
    constructor
    · intro a' ha' hp'
      by_contra hne
      -- Two keys: iterate over that of the later element first.
      have ha's : a' ∈ as := by simp [heq, ha']
      obtain ⟨e', he', hek'⟩ := hentry a' ha's
      have he'' : e' ∈ l₁ ++ l₂ := by
        rw [hl] at he'
        rcases List.mem_append.1 he' with he' | he'
        · exact List.mem_append_left _ he'
        · rcases List.mem_cons.1 he' with rfl | he'
          · exact absurd (hek'.symm.trans hek) hne
          · exact List.mem_append_right _ he'
      obtain ⟨m₁, m₂, hm⟩ := List.append_of_mem he''
      have hperm : (e :: e' :: (m₁ ++ m₂)).Perm (P.pushAll key as).entries := by
        rw [hl]
        refine .trans (.cons e ?_) List.perm_middle.symm
        rw [hm]
        exact List.perm_middle.symm
      have hpair := h _ hperm
      rw [List.map_cons, List.map_cons, hek, hek', List.filter_cons_of_pos hp,
        List.filter_cons_of_pos hp', List.flatMap_cons, List.flatMap_cons] at hpair
      have hR := (List.pairwise_append.1 hpair).2.2 a (mem_cluster_key.2 ⟨ha, rfl⟩) a'
        (List.mem_append_left _ (mem_cluster_key.2 ⟨ha's, rfl⟩))
      rw [heq] at has
      exact hasymm _ _ hR ((List.pairwise_append.1 has).2.2 a' ha' a List.mem_cons_self)
    · refine (hnewest (key a)).1 ?_ pre a post heq rfl
      have hpair := h _ (.refl _)
      rw [hl, List.map_append, List.map_cons, hek, List.filter_append, List.filter_cons_of_pos hp,
        List.flatMap_append, List.flatMap_cons] at hpair
      exact (List.pairwise_append.1 (List.pairwise_append.1 hpair).2.1).1
  · intro h es hes
    have hsame : ∀ a ∈ as, ∀ b ∈ as, p (key a) = true → p (key b) = true → key a = key b := by
      intro a ha b hb hpa hpb
      obtain ⟨pre, post, heq⟩ := List.append_of_mem ha
      rw [heq] at hb
      rcases List.mem_append.1 hb with hb | hb
      · exact ((h pre a post heq hpa).1 b hb hpb).symm
      · rcases List.mem_cons.1 hb with rfl | hb
        · rfl
        · obtain ⟨mid, post', rfl⟩ := List.append_of_mem hb
          exact (h (pre ++ a :: mid) b post' (by simp [heq]) hpb).1 a (by simp) hpa
    have hnodup : ((es.map Prod.fst).filter p).Nodup :=
      ((hes.map Prod.fst).nodup_iff.2 (P.pushAll key as).nodup).filter _
    have hkeys : ∀ k ∈ (es.map Prod.fst).filter p, ∃ a ∈ as, key a = k ∧ p k = true := fun k hk => by
      obtain ⟨hk, hpk⟩ := List.mem_filter.1 hk
      obtain ⟨a, ha, hak⟩ := (mem_keys_pushAll as k).1 ((hes.map Prod.fst).mem_iff.1 hk)
      exact ⟨a, ha, hak, hpk⟩
    cases hks : (es.map Prod.fst).filter p with
    | nil => exact .nil
    | cons k ks =>
      have hone : ks = [] := by
        rw [List.eq_nil_iff_forall_not_mem]
        intro k' hk'
        obtain ⟨a, ha, rfl, hpa⟩ := hkeys k (by simp [hks])
        obtain ⟨b, hb, rfl, hpb⟩ := hkeys k' (by simp [hks, hk'])
        rw [hks, hsame a ha b hb hpa hpb] at hnodup
        exact (List.nodup_cons.1 hnodup).1 hk'
      obtain ⟨-, -, -, hpk⟩ := hkeys k (by simp [hks])
      rw [hone, List.flatMap_cons, List.flatMap_nil, List.append_nil]
      exact (hnewest k).2 fun pre a post heq hak => (h pre a post heq (hak ▸ hpk)).2

end Table

end Policy

end WutherCore.Data
