import Mathlib
import WutherCore.Engine.GroupPick

/-!
# What a group selects

* `pickEligible_admissible`: a selection is one of the candidates; a valid pin is honoured; and a strategy that looks at
  the health of the nodes selects one that is alive, if there is one that the group does not avoid.

Two answers come from a memory.  A `url-test` group answers with its selection of the last ten seconds, and where no
node it compares has a delay with its last selection, a candidate or not (`AnswersFromMemory`).  Sticky sessions give up
after five tries (`Group.SessionFinds`).
-/

namespace WutherCore.Engine

open WutherCore.Text WutherCore.Data WutherCore.Health

/-! ### Members -/

section Members

variable {g : Group} {members : List Str} {url : Str} {tester : Option UrlTester} {n : Str}

theorem mem_of_mem_limitMembers {maxMembers : Nat} (h : n ∈ limitMembers maxMembers members) : n ∈ members := by
  unfold limitMembers at h
  split_ifs at h with hlimit
  · exact List.mem_of_mem_take h
  · exact h

namespace Group

theorem mem_of_mem_nonAvoided (h : n ∈ g.nonAvoidedMembers members url tester) : n ∈ members := by
  unfold nonAvoidedMembers at h
  dsimp only at h
  split_ifs at h with havoid hprimary
  · exact h
  · exact h
  · exact (List.mem_filter.1 h).1

theorem nonAvoided_ne_nil (h : members ≠ []) : g.nonAvoidedMembers members url tester ≠ [] := by
  unfold nonAvoidedMembers
  dsimp only
  split_ifs with havoid hprimary
  · exact h
  · exact h
  · exact hprimary

/-- Some candidate is alive, and the group does not avoid it. -/
def HasAlive (g : Group) (members : List Str) (url : Str) (tester : Option UrlTester) : Prop :=
  ∃ m ∈ members, isAlive tester url m = true ∧ g.isAvoided m = false

theorem HasAlive.mem_nonAvoided {m : Str} (hm : m ∈ members) (halive : isAlive tester url m = true)
    (havoided : g.isAvoided m = false) : m ∈ g.nonAvoidedMembers members url tester := by
  have hprimary : m ∈ members.filter fun m => !g.isAvoided m && isAlive tester url m :=
    List.mem_filter.2 ⟨hm, by rw [havoided, halive]; rfl⟩
  unfold nonAvoidedMembers
  dsimp only
  split_ifs with havoid hempty
  · exact hm
  · exact hm
  · exact hprimary

theorem HasAlive.alive_of_avoid (h : g.HasAlive members url tester) (havoid : g.detail.avoid ≠ [])
    (hn : n ∈ g.nonAvoidedMembers members url tester) : isAlive tester url n = true := by
  obtain ⟨m, hm, halive, havoided⟩ := h
  have hprimary : m ∈ members.filter fun m => !g.isAvoided m && isAlive tester url m :=
    List.mem_filter.2 ⟨hm, by rw [havoided, halive]; rfl⟩
  unfold nonAvoidedMembers at hn
  dsimp only at hn
  rw [if_neg havoid, if_neg (List.ne_nil_of_mem hprimary)] at hn
  have hboth := (List.mem_filter.1 hn).2
  rw [Bool.and_eq_true] at hboth
  exact hboth.2

end Group

end Members

/-! ### Fast selections -/

namespace UrlTester

variable {t : UrlTester} {members : List Str} {url : Str} {b : FastPickResult}

theorem alive_of_delay {node : Str} (h : t.lastDelayForUrl node url ≠ deadDelay) : t.aliveForUrl node url = true := by
  unfold lastDelayForUrl at h
  unfold aliveForUrl
  cases hstats : t.stats node url with
  | none =>
    rw [hstats] at h
    exact absurd rfl h
  | some stats =>
    rw [hstats, Option.map_some, Option.getD_some, NodeUrlStats.lastDelay] at h
    rw [Option.map_some, Option.getD_some]
    by_contra halive
    exact h (if_neg halive)

/-- The scan from a best one on: a member with a delay, or the one before. -/
theorem foldl_fasterOf (t : UrlTester) (members : List Str) (url : Str) (best : Option FastPickResult) :
    (members.foldl (t.fasterOf url) best = best ∧
        (best = none → ∀ m ∈ members, t.lastDelayForUrl m url = deadDelay)) ∨
      ∃ b, members.foldl (t.fasterOf url) best = some b ∧ b.node ∈ members ∧
        t.lastDelayForUrl b.node url ≠ deadDelay := by
  induction members generalizing best with
  | nil => exact .inl ⟨rfl, nofun⟩
  | cons m members ih =>
    rw [List.foldl_cons]
    have hcases : t.fasterOf url best m = best ∧ (best = none → t.lastDelayForUrl m url = deadDelay) ∨
        ∃ d, t.fasterOf url best m = some ⟨m, d⟩ ∧ t.lastDelayForUrl m url ≠ deadDelay := by
      unfold fasterOf
      dsimp only
      by_cases hd : t.lastDelayForUrl m url = deadDelay
      · exact .inl ⟨if_pos hd, fun _ => hd⟩
      · rw [if_neg hd]
        cases best with
        | none => exact .inr ⟨_, rfl, hd⟩
        | some b =>
          dsimp only
          split_ifs with hlt
          · exact .inr ⟨_, rfl, hd⟩
          · exact .inl ⟨rfl, nofun⟩
    rcases hcases with ⟨heq, hdead⟩ | ⟨d, heq, hd⟩
    · rw [heq]
      rcases ih best with ⟨hrest, hall⟩ | ⟨b, hrest, hmem, hb⟩
      · refine .inl ⟨hrest, fun hnone => ?_⟩
        rw [List.forall_mem_cons]
        exact ⟨hdead hnone, hall hnone⟩
      · exact .inr ⟨b, hrest, List.mem_cons_of_mem _ hmem, hb⟩
    · rw [heq]
      rcases ih (some ⟨m, d⟩) with ⟨hrest, -⟩ | ⟨b, hrest, hmem, hb⟩
      · exact .inr ⟨_, hrest, List.mem_cons_self, hd⟩
      · exact .inr ⟨b, hrest, List.mem_cons_of_mem _ hmem, hb⟩

theorem fastest_eq_none (h : t.fastest members url = none) : ∀ m ∈ members, t.lastDelayForUrl m url = deadDelay := by
  rcases foldl_fasterOf t members url none with ⟨-, hall⟩ | ⟨b, hb, -⟩
  · exact hall rfl
  · rw [fastest, hb] at h
    cases h

theorem fastest_eq_some (h : t.fastest members url = some b) :
    b.node ∈ members ∧ t.lastDelayForUrl b.node url ≠ deadDelay := by
  rcases foldl_fasterOf t members url none with ⟨hnone, -⟩ | ⟨b', hb', hmem, hd⟩
  · rw [fastest, hnone] at h
    cases h
  · rw [fastest, hb'] at h
    cases h
    exact ⟨hmem, hd⟩

/-- What `pick_fast` may answer. -/
inductive FastPicks (t : UrlTester) (now : Nat) (group : Str) (members : List Str) (url : Str) : Option Str → Prop
  /-- The selection of the last ten seconds. -/
  | recent (e : Nat × FastPickResult) (last : t.fastPick.get? group = some e) (fresh : now - e.1 < fastPickTtl)
      (mem : e.2.node ∈ members) : FastPicks t now group members url (some e.2.node)
  /-- A member that is alive, where one has a delay. -/
  | alive (n : Str) (mem : n ∈ members) (alive : t.aliveForUrl n url = true)
      (measured : ∃ m ∈ members, t.lastDelayForUrl m url ≠ deadDelay) : FastPicks t now group members url (some n)
  /-- The last selection, whatever it was. -/
  | remembered (e : Nat × FastPickResult) (last : t.fastPick.get? group = some e)
      (dead : ∀ m ∈ members, t.lastDelayForUrl m url = deadDelay) : FastPicks t now group members url (some e.2.node)
  | nothing (dead : ∀ m ∈ members, t.lastDelayForUrl m url = deadDelay) : FastPicks t now group members url none

theorem pickFast_picks (t : UrlTester) (now : Nat) (group : Str) (members : List Str) (url : Str) (tolerance : UInt32) :
    t.FastPicks now group members url (t.pickFast now group members url tolerance).1 := by
  unfold pickFast
  dsimp only
  cases hlast : (t.fastPick.get? group).filter fun e => now - e.1 < fastPickTtl && e.2.node ∈ members with
  | some e =>
    obtain ⟨hget, hboth⟩ := Option.filter_eq_some_iff.1 hlast
    rw [Bool.and_eq_true, decide_eq_true_eq, decide_eq_true_eq] at hboth
    exact .recent e hget hboth.1 hboth.2
  | none =>
    dsimp only
    cases hget : t.fastPick.get? group with
    | none =>
      cases hbest : t.fastest members url with
      | none => exact .nothing (fastest_eq_none hbest)
      | some best =>
        obtain ⟨hmem, hd⟩ := fastest_eq_some hbest
        exact .alive _ hmem (alive_of_delay hd) ⟨_, hmem, hd⟩
    | some e =>
      cases hbest : t.fastest members url with
      | none => exact .remembered e hget (fastest_eq_none hbest)
      | some best =>
        obtain ⟨hmem, hd⟩ := fastest_eq_some hbest
        dsimp only [Option.map_some]
        split_ifs with hkeeps
        · exact .alive _ hkeeps.1 hkeeps.2.1 ⟨_, hmem, hd⟩
        · exact .alive _ hmem (alive_of_delay hd) ⟨_, hmem, hd⟩

end UrlTester

/-! ### The strategies -/

section Strategies

variable {g : Group} {o : Outside} {flow : FlowMeta} {members : List Str} {url : Str} {tester : Option UrlTester}

theorem exists_head (h : members ≠ []) : ∃ n ∈ members, members.head? = some n :=
  ⟨members.head h, List.head_mem h, List.head?_eq_some_head h⟩

/-- A selection of some member, and a live one where one is alive. -/
def PicksAlive (members : List Str) (url : Str) (tester : Option UrlTester) (pick : Option Str) : Prop :=
  ∃ n ∈ members, pick = some n ∧ ((∃ m ∈ members, isAlive tester url m = true) → isAlive tester url n = true)

theorem picksAlive_or_head {found : Option Str} (hmembers : members ≠ [])
    (hsome : ∀ n, found = some n → n ∈ members ∧ isAlive tester url n = true)
    (hnone : found = none → ∀ m ∈ members, isAlive tester url m = false) :
    PicksAlive members url tester (found.or members.head?) := by
  cases found with
  | some n =>
    obtain ⟨hmem, halive⟩ := hsome n rfl
    exact ⟨n, hmem, rfl, fun _ => halive⟩
  | none =>
    obtain ⟨n, hmem, hhead⟩ := exists_head hmembers
    refine ⟨n, hmem, hhead, ?_⟩
    rintro ⟨m, hm, halive⟩
    rw [hnone rfl m hm] at halive
    cases halive

theorem find?_alive {n : Str} (h : members.find? (isAlive tester url) = some n) :
    n ∈ members ∧ isAlive tester url n = true := ⟨List.mem_of_find?_eq_some h, List.find?_some h⟩

theorem Group.tryHashes_spec {tries : Nat} {k : UInt64} {idx : Nat} {m : Str}
    (h : tryHashes o members url tester tries k = some (idx, m)) : m ∈ members ∧ isAlive tester url m = true := by
  induction tries generalizing k with
  | zero => cases h
  | succ tries ih =>
    unfold tryHashes at h
    dsimp only at h
    cases hfound : members[o.jumpHash k members.length]?.filter (isAlive tester url) with
    | none =>
      rw [hfound] at h
      exact ih h
    | some n =>
      rw [hfound] at h
      cases h
      obtain ⟨hget, halive⟩ := Option.filter_eq_some_iff.1 hfound
      exact ⟨List.mem_of_getElem? hget, halive⟩

/-- **Consistent hashing tries five members, and then all.** -/
theorem Group.lbConsistentHashing_picks (o : Outside) (flow : FlowMeta) (url : Str) (tester : Option UrlTester)
    (hmembers : members ≠ []) :
    PicksAlive members url tester (lbConsistentHashing o flow members url tester) := by
  unfold lbConsistentHashing
  rw [if_neg hmembers]
  apply picksAlive_or_head hmembers
  · intro n hn
    cases htry : tryHashes o members url tester 5 (o.lbKey flow) with
    | some found =>
      rw [htry] at hn
      cases hn
      exact tryHashes_spec htry
    | none =>
      rw [htry] at hn
      exact find?_alive hn
  · intro hnone
    have hfind := (Option.or_eq_none_iff.1 hnone).2
    intro m hm
    have := List.find?_eq_none.1 hfind m hm
    exact Bool.eq_false_of_not_eq_true this

/-- **Round robin goes through all members.** -/
theorem Group.lbRoundRobin_picks (url : Str) (tester : Option UrlTester) (hmembers : members ≠ []) :
    PicksAlive members url tester (g.lbRoundRobin members url tester).1 := by
  have hpos := List.length_pos_iff.2 hmembers
  unfold lbRoundRobin
  dsimp only
  rw [if_neg (Nat.pos_iff_ne_zero.1 hpos)]
  apply picksAlive_or_head hmembers
  · intro n hn
    obtain ⟨off, -, hoff⟩ := List.exists_of_findSome?_eq_some hn
    obtain ⟨hget, halive⟩ := Option.filter_eq_some_iff.1 hoff
    exact ⟨List.mem_of_getElem? hget, halive⟩
  · intro hnone m hm
    rw [List.findSome?_eq_none_iff] at hnone
    obtain ⟨i, hi, rfl⟩ := List.getElem_of_mem hm
    -- the offset that leads from the start to this member
    have hstart := Nat.mod_lt g.lb.rr.toNat hpos
    generalize g.lb.rr.toNat % members.length = start at hstart hnone
    have hoff := hnone ((i + (members.length - start)) % members.length)
      (List.mem_range.2 (Nat.mod_lt _ hpos))
    rw [Nat.add_mod_mod, show start + (i + (members.length - start)) = i + members.length by omega,
      Nat.add_mod_right, Nat.mod_eq_of_lt hi, List.getElem?_eq_getElem hi, Option.filter_eq_none_iff] at hoff
    exact Bool.eq_false_of_not_eq_true (hoff _ rfl)

/-- The member that a session remembers is alive, or one of the five that are tried is. -/
def Group.SessionFinds (g : Group) (o : Outside) (flow : FlowMeta) (members : List Str) (url : Str)
    (tester : Option UrlTester) : Prop :=
  ((g.lb.sticky.get o.now (o.lbKeySticky flow)).1.bind fun idx => members[idx]?).any (isAlive tester url) = true ∨
    (tryHashes o members url tester 5 (o.lbKeySticky flow + o.nowNanos)).isSome = true

/-- Sticky sessions try five members. -/
theorem Group.lbSticky_spec (o : Outside) (flow : FlowMeta) (url : Str) (tester : Option UrlTester)
    (hmembers : members ≠ []) :
    ∃ n ∈ members, (g.lbSticky o flow members url tester).1 = some n ∧
      (g.SessionFinds o flow members url tester → isAlive tester url n = true) := by
  unfold lbSticky SessionFinds
  dsimp only
  rw [if_neg hmembers]
  cases hsession : (((g.lb.sticky.get o.now (o.lbKeySticky flow)).1.bind fun idx => members[idx]?).filter
      (isAlive tester url)) with
  | some n =>
    obtain ⟨hget, halive⟩ := Option.filter_eq_some_iff.1 hsession
    obtain ⟨idx, -, hidx⟩ := Option.bind_eq_some_iff.1 hget
    exact ⟨n, List.mem_of_getElem? hidx, rfl, fun _ => halive⟩
  | none =>
    dsimp only
    cases htry : tryHashes o members url tester 5 (o.lbKeySticky flow + o.nowNanos) with
    | some found =>
      obtain ⟨hmem, halive⟩ := tryHashes_spec htry
      exact ⟨found.2, hmem, rfl, fun _ => halive⟩
    | none =>
      obtain ⟨n, hmem, hhead⟩ := exists_head hmembers
      refine ⟨n, hmem, hhead, ?_⟩
      rintro (hany | hsome)
      · obtain ⟨m, hget, halive⟩ := (Option.any_eq_true _ _).1 hany
        rw [Option.filter_eq_none_iff] at hsession
        exact absurd halive (hsession m hget)
      · cases hsome

/-- **A fallback group goes through its members in three tiers.** -/
theorem Group.pickFallback_picks (url : Str) (tester : Option UrlTester) (hmembers : members ≠ []) :
    PicksAlive members url tester (g.pickFallback members url tester) := by
  unfold pickFallback
  apply picksAlive_or_head hmembers
  · intro n hn
    obtain ⟨tier, -, htier⟩ := List.exists_of_findSome?_eq_some hn
    have hboth := List.find?_some htier
    rw [Bool.and_eq_true] at hboth
    exact ⟨List.mem_of_find?_eq_some htier, hboth.2⟩
  · intro hnone m hm
    rw [List.findSome?_eq_none_iff] at hnone
    have htier (tier : Nat) (hlt : tier < 3) (hin : g.inTier tier m = true) : isAlive tester url m = false := by
      have := List.find?_eq_none.1 (hnone tier (List.mem_range.2 hlt)) m hm
      rw [hin, Bool.true_and] at this
      exact Bool.eq_false_of_not_eq_true this
    cases hpreferred : g.isPreferred m with
    | true =>
      cases havoided : g.isAvoided m with
      | true => exact htier 2 (by decide) havoided
      | false => exact htier 0 (by decide) (by rw [inTier, hpreferred, havoided]; rfl)
    | false =>
      cases havoided : g.isAvoided m with
      | true => exact htier 2 (by decide) havoided
      | false => exact htier 1 (by decide) (by rw [inTier, hpreferred, havoided]; rfl)

theorem Group.pickManual_mem (hmembers : members ≠ []) : ∃ n ∈ members, g.pickManual members = some n := by
  unfold pickManual
  cases hfind : members.find? (· = g.detail.defaultSelected) with
  | some n => exact ⟨n, List.mem_of_find?_eq_some hfind, rfl⟩
  | none => exact exists_head hmembers

theorem Group.mem_of_mem_available {n : Str} (h : n ∈ g.available members url tester) : n ∈ members :=
  mem_of_mem_nonAvoided (List.mem_filter.1 h).1

theorem Group.pickRandom_mem (o : Outside) (url : Str) (tester : Option UrlTester) (hmembers : members ≠ []) :
    ∃ n ∈ members, g.pickRandom o members url tester = some n := by
  unfold pickRandom
  dsimp only
  split_ifs with hempty
  · exact exists_head hmembers
  · have hlt := o.randomRange_lt _ (List.length_pos_iff.2 hempty)
    exact ⟨_, mem_of_mem_available (List.getElem_mem hlt), List.getElem?_eq_getElem hlt⟩

theorem Group.pickWeighted_mem (o : Outside) (url : Str) (tester : Option UrlTester) (hmembers : members ≠ []) :
    ∃ n ∈ members, g.pickWeighted o members url tester = some n := by
  unfold pickWeighted
  dsimp only
  split_ifs with hempty
  · exact exists_head hmembers
  · have hlt : (o.weightedIndex ((g.available members url tester).map g.weightFor)).getD 0 <
        (g.available members url tester).length := by
      cases hindex : o.weightedIndex ((g.available members url tester).map g.weightFor) with
      | none => exact List.length_pos_iff.2 hempty
      | some i =>
        have := o.weightedIndex_lt _ i hindex
        rwa [List.length_map] at this
    exact ⟨_, mem_of_mem_available (List.getElem_mem hlt), List.getElem?_eq_getElem hlt⟩

namespace SmartView

variable {view : SmartView} {candidates : List Str} {current : Option Str}

theorem foldl_betterOf_mem {best : Option Str} {n : Str} (h : candidates.foldl view.betterOf best = some n) :
    n ∈ candidates ∨ best = some n := by
  induction candidates generalizing best with
  | nil => exact .inr h
  | cons name candidates ih =>
    rw [List.foldl_cons] at h
    rcases ih h with hmem | hbest
    · exact .inl (List.mem_cons_of_mem _ hmem)
    · unfold betterOf at hbest
      cases best with
      | none => exact .inl (Option.some.inj hbest ▸ List.mem_cons_self)
      | some b =>
        dsimp only at hbest
        split_ifs at hbest with hbetter
        · exact .inl (Option.some.inj hbest ▸ List.mem_cons_self)
        · exact .inr hbest

theorem candidates_subset {avoid : List Str} {n : Str} (h : n ∈ SmartView.candidates avoid members) : n ∈ members := by
  unfold SmartView.candidates at h
  dsimp only at h
  split_ifs at h with hwanted
  · exact h
  · exact (List.mem_filter.1 h).1

theorem coldPick_mem {n : Str} (h : view.coldPick current candidates = some n) : n ∈ candidates := by
  unfold coldPick at h
  dsimp only at h
  split_ifs at h with hcold
  · exact (List.mem_filter.1 (List.mem_of_getElem? h)).1
  · exact (List.mem_filter.1 (List.mem_of_getElem? h)).1

theorem scored_mem (view : SmartView) (current : Option Str) (candidates : List Str) (first : Str) : view.scored current candidates first ∈ candidates ∨
    view.scored current candidates first = first := by
  have hbest : (candidates.foldl view.betterOf none).getD first ∈ candidates ∨
      (candidates.foldl view.betterOf none).getD first = first := by
    cases hfold : candidates.foldl view.betterOf none with
    | none => exact .inr rfl
    | some n => exact .inl ((foldl_betterOf_mem hfold).resolve_right nofun)
  unfold scored
  dsimp only
  cases hcurrent : current.filter (· ∈ candidates) with
  | none => exact hbest
  | some now =>
    dsimp only
    split_ifs with hkeeps
    · exact .inl (by simpa using (Option.filter_eq_some_iff.1 hcurrent).2)
    · exact hbest

/-- **Smart ranks the members and no others.** -/
theorem chooseNode_mem (avoid : List Str) (hmembers : members ≠ []) :
    view.chooseNode avoid current members ∈ members := by
  obtain ⟨first, rest, rfl⟩ := List.exists_cons_of_ne_nil hmembers
  unfold chooseNode
  dsimp only
  split_ifs with hempty
  · exact List.mem_cons_self
  · cases hcold : view.coldPick current (SmartView.candidates avoid (first :: rest)) with
    | some n => exact candidates_subset (coldPick_mem hcold)
    | none =>
      rw [Option.getD_none]
      rcases scored_mem view current (SmartView.candidates avoid (first :: rest)) first with hmem | heq
      · exact candidates_subset hmem
      · rw [heq]
        exact List.mem_cons_self

end SmartView

/-- The group answers with its selection of the last ten seconds. -/
def Group.Reuses (g : Group) (o : Outside) (tester : Option UrlTester) (n : Str) : Prop :=
  ∃ t e, tester = some t ∧ t.fastPick.get? g.detail.name = some e ∧ o.now - e.1 < fastPickTtl ∧ n = e.2.node

/-- The group answers with its last selection, while no node that it compares has a delay. -/
def Group.AnswersFromMemory (g : Group) (members : List Str) (url : Str) (tester : Option UrlTester) (n : Str) : Prop :=
  ∃ t e, tester = some t ∧ t.fastPick.get? g.detail.name = some e ∧ n = e.2.node ∧
    ∀ m ∈ g.urlTestCandidates t members url, t.lastDelayForUrl m url = deadDelay

/-- Some candidate that the group does not avoid is alive, and it has a delay if there is a tester. -/
def Group.HasMeasured (g : Group) (members : List Str) (url : Str) (tester : Option UrlTester) : Prop :=
  ∃ m ∈ members, isAlive tester url m = true ∧ g.isAvoided m = false ∧
    ∀ t, tester = some t → t.lastDelayForUrl m url ≠ deadDelay

theorem Group.mem_of_mem_urlTestCandidates {t : UrlTester} {n : Str} (h : n ∈ g.urlTestCandidates t members url) :
    n ∈ members := by
  have hprimary : n ∈ g.nonAvoidedMembers members url (some t) := by
    unfold urlTestCandidates at h
    dsimp only at h
    split_ifs at h with hprefer
    · exact h
    · split at h
      · split_ifs at h with hfast
        · exact (List.mem_filter.1 h).1
        · exact h
      · exact h
  exact mem_of_mem_nonAvoided hprimary

theorem Group.exists_measured_candidate {t : UrlTester}
    (h : ∃ m ∈ g.nonAvoidedMembers members url (some t), t.lastDelayForUrl m url ≠ deadDelay) :
    ∃ m ∈ g.urlTestCandidates t members url, t.lastDelayForUrl m url ≠ deadDelay := by
  unfold urlTestCandidates
  dsimp only
  split_ifs with hprefer
  · exact h
  · split
    · next fastest preferredFastest _ hpreferred =>
      split_ifs with hfast
      · -- the least delay of the preferred members is that of one of them
        have hmem := List.min?_mem hpreferred
        obtain ⟨hmem, hd⟩ := List.mem_filter.1 hmem
        obtain ⟨m, hm, rfl⟩ := List.mem_map.1 hmem
        exact ⟨m, hm, by simpa using hd⟩
      · exact h
    · exact h

/-- **What a `url-test` group selects.** -/
theorem Group.pickUrlTest_spec (o : Outside) (url : Str) (tester : Option UrlTester) (hmembers : members ≠ []) :
    ∃ n, (g.pickUrlTest o members url tester).1 = some n ∧ (n ∈ members ∨ g.AnswersFromMemory members url tester n) ∧
      (g.HasMeasured members url tester → n ∈ members ∧ (isAlive tester url n = true ∨ g.Reuses o tester n)) := by
  obtain ⟨first, hfirst, hhead⟩ := exists_head hmembers
  cases tester with
  | none => exact ⟨first, hhead, .inl hfirst, fun _ => ⟨hfirst, .inl rfl⟩⟩
  | some t =>
    have hmeasured (h : g.HasMeasured members url (some t)) :
        ∃ m ∈ g.urlTestCandidates t members url, t.lastDelayForUrl m url ≠ deadDelay := by
      obtain ⟨m, hm, halive, havoided, hd⟩ := h
      exact exists_measured_candidate ⟨m, HasAlive.mem_nonAvoided hm halive havoided, hd t rfl⟩
    have hpicks := t.pickFast_picks o.now g.detail.name (g.urlTestCandidates t members url) url g.opts.tolerance
    unfold pickUrlTest
    dsimp only
    generalize (t.pickFast o.now g.detail.name (g.urlTestCandidates t members url) url g.opts.tolerance).1 = pick at *
    cases hpicks with
    | recent e last fresh mem =>
      exact ⟨_, rfl, .inl (mem_of_mem_urlTestCandidates mem),
        fun _ => ⟨mem_of_mem_urlTestCandidates mem, .inr ⟨t, e, rfl, last, fresh, rfl⟩⟩⟩
    | alive n mem alive _ =>
      exact ⟨n, rfl, .inl (mem_of_mem_urlTestCandidates mem), fun _ => ⟨mem_of_mem_urlTestCandidates mem, .inl alive⟩⟩
    | remembered e last dead =>
      refine ⟨_, rfl, .inr ⟨t, e, rfl, last, rfl, dead⟩, fun h => ?_⟩
      obtain ⟨m, hm, hd⟩ := hmeasured h
      exact absurd (dead m hm) hd
    | nothing dead =>
      refine ⟨first, hhead, .inl hfirst, fun h => ?_⟩
      obtain ⟨m, hm, hd⟩ := hmeasured h
      exact absurd (dead m hm) hd

end Strategies

/-! ### The selection -/

section Pick

variable {g : Group} {o : Outside} {flow : FlowMeta} {tester : Option UrlTester} {eligible : Str → Bool}
  {protocolOf : Str → Str} {members : List Str} {url : Str} {n : Str}

namespace Group

theorem mem_eligibleMembers (h : n ∈ g.eligibleMembers eligible protocolOf) :
    n ∈ g.filteredMembers protocolOf ∧ isFeedPlaceholder n = false ∧ eligible n = true := by
  obtain ⟨hmem, heligible⟩ := List.mem_filter.1 (mem_of_mem_limitMembers h)
  obtain ⟨hfiltered, hplaceholder⟩ := List.mem_filter.1 hmem
  exact ⟨hfiltered, by simpa using hplaceholder, heligible⟩

theorem candidates_eq_some (h : g.candidates flow eligible protocolOf = some members) :
    members = g.eligibleMembers eligible protocolOf ∧ members ≠ [] := by
  unfold candidates at h
  dsimp only at h
  split_ifs at h with hudp hfew
  cases h
  refine ⟨rfl, fun hempty => hfew ?_⟩
  rw [hempty, List.length_nil]
  omega

theorem pickPin_mem (h : g.pickPin members url tester = some n) :
    n ∈ members ∧ (g.plan.choose = .manual ∨ isAlive tester url n = true) := by
  obtain ⟨pin, -, hpin⟩ := Option.bind_eq_some_iff.1 h
  split_ifs at hpin with hmem halive
  cases hpin
  exact ⟨hmem, halive⟩

theorem pickPin_eq_some {pin : GroupPin} (hpin : g.pin = some pin) (hmem : pin.node ∈ members)
    (hvalid : g.plan.choose = .manual ∨ isAlive tester url pin.node = true) :
    g.pickPin members url tester = some pin.node := by
  rw [pickPin, hpin, Option.bind_some, if_neg (not_not.2 hmem), if_pos hvalid]

/-- What the strategies have in common: one of the members, or for `url-test` a memory. -/
theorem pickByStrategy_spec (o : Outside) (flow : FlowMeta) (url : Str) (tester : Option UrlTester)
    (hchain : g.plan.choose ≠ .chain) (hmembers : members ≠ []) :
    ∃ n, (g.pickByStrategy o flow members url tester).node = some n ∧
      (n ∈ members ∨ g.plan.choose = .fast ∧ g.AnswersFromMemory members url tester n) := by
  unfold pickByStrategy
  cases hchoose : g.plan.choose with
  | manual =>
    obtain ⟨n, hmem, hn⟩ := g.pickManual_mem hmembers
    exact ⟨n, hn, .inl hmem⟩
  | smart => exact ⟨_, rfl, .inl (SmartView.chooseNode_mem _ hmembers)⟩
  | fast =>
    obtain ⟨n, hn, hcases, -⟩ := g.pickUrlTest_spec o url tester hmembers
    exact ⟨n, hn, hcases.imp id fun hmemory => ⟨rfl, hmemory⟩⟩
  | stable =>
    obtain ⟨n, hmem, hn, -⟩ := g.pickFallback_picks url tester hmembers
    exact ⟨n, hn, .inl hmem⟩
  | spread =>
    have hcandidates : g.nonAvoidedMembers members url tester ≠ [] := nonAvoided_ne_nil hmembers
    unfold pickLoadBalance
    cases g.opts.lbStrategy with
    | consistentHashing =>
      obtain ⟨n, hmem, hn, -⟩ := lbConsistentHashing_picks o flow url tester hcandidates
      exact ⟨n, hn, .inl (mem_of_mem_nonAvoided hmem)⟩
    | roundRobin =>
      obtain ⟨n, hmem, hn, -⟩ := g.lbRoundRobin_picks url tester hcandidates
      exact ⟨n, hn, .inl (mem_of_mem_nonAvoided hmem)⟩
    | stickySessions =>
      obtain ⟨n, hmem, hn, -⟩ := g.lbSticky_spec o flow url tester hcandidates
      exact ⟨n, hn, .inl (mem_of_mem_nonAvoided hmem)⟩
  | random =>
    obtain ⟨n, hmem, hn⟩ := g.pickRandom_mem o url tester hmembers
    exact ⟨n, hn, .inl hmem⟩
  | weighted =>
    obtain ⟨n, hmem, hn⟩ := g.pickWeighted_mem o url tester hmembers
    exact ⟨n, hn, .inl hmem⟩
  | chain => exact absurd hchoose hchain

/-- The strategies that look for a node that is alive whatever they remember. -/
def FindsAlive (g : Group) (o : Outside) (flow : FlowMeta) (members : List Str) (url : Str)
    (tester : Option UrlTester) : Prop :=
  g.plan.choose = .stable ∨ g.plan.choose = .spread ∧
    (g.opts.lbStrategy = .stickySessions → g.detail.avoid ≠ [] ∨ g.SessionFinds o flow members url tester)

theorem pickByStrategy_alive (hmembers : members ≠ []) (hfinds : g.FindsAlive o flow members url tester)
    (halive : g.HasAlive members url tester) :
    ∃ n ∈ members, (g.pickByStrategy o flow members url tester).node = some n ∧ isAlive tester url n = true := by
  obtain ⟨m, hm, hlive, havoided⟩ := halive
  unfold pickByStrategy
  rcases hfinds with hchoose | ⟨hchoose, hsticky⟩
  · rw [hchoose]
    obtain ⟨n, hmem, hn, hn'⟩ := g.pickFallback_picks url tester hmembers
    exact ⟨n, hmem, hn, hn' ⟨m, hm, hlive⟩⟩
  · rw [hchoose]
    have hcandidates : g.nonAvoidedMembers members url tester ≠ [] := nonAvoided_ne_nil hmembers
    have hexists : ∃ m ∈ g.nonAvoidedMembers members url tester, isAlive tester url m = true :=
      ⟨m, HasAlive.mem_nonAvoided hm hlive havoided, hlive⟩
    unfold pickLoadBalance
    cases hstrategy : g.opts.lbStrategy with
    | consistentHashing =>
      obtain ⟨n, hmem, hn, hn'⟩ := lbConsistentHashing_picks o flow url tester hcandidates
      exact ⟨n, mem_of_mem_nonAvoided hmem, hn, hn' hexists⟩
    | roundRobin =>
      obtain ⟨n, hmem, hn, hn'⟩ := g.lbRoundRobin_picks url tester hcandidates
      exact ⟨n, mem_of_mem_nonAvoided hmem, hn, hn' hexists⟩
    | stickySessions =>
      obtain ⟨n, hmem, hn, hn'⟩ := g.lbSticky_spec o flow url tester hcandidates
      refine ⟨n, mem_of_mem_nonAvoided hmem, hn, ?_⟩
      by_cases havoid : g.detail.avoid = []
      · have hfinds := (hsticky hstrategy).resolve_left (not_not.2 havoid)
        apply hn'
        rwa [nonAvoidedMembers, if_pos havoid]
      · exact HasAlive.alive_of_avoid ⟨m, hm, hlive, havoided⟩ havoid hmem

theorem pickEligible_node (h : g.candidates flow eligible protocolOf = some members) :
    (g.pickEligibleWithProtocol o flow tester eligible protocolOf).node =
      (g.pickPin members (g.testUrl tester) (g.activate members tester)).or
        (g.pickByStrategy o flow members (g.testUrl tester) (g.activate members tester)).node := by
  unfold pickEligibleWithProtocol
  rw [h]
  dsimp only
  cases g.pickPin members (g.testUrl tester) (g.activate members tester) <;> rfl

theorem pickEligible_none (h : g.candidates flow eligible protocolOf = none) :
    (g.pickEligibleWithProtocol o flow tester eligible protocolOf).node = none := by
  unfold pickEligibleWithProtocol
  rw [h]

theorem pickEligible_cases (hchain : g.plan.choose ≠ .chain)
    (h : (g.pickEligibleWithProtocol o flow tester eligible protocolOf).node = some n) :
    n ∈ g.eligibleMembers eligible protocolOf ∨ g.plan.choose = .fast ∧
      g.AnswersFromMemory (g.eligibleMembers eligible protocolOf) (g.testUrl tester)
        (g.activate (g.eligibleMembers eligible protocolOf) tester) n := by
  cases hcandidates : g.candidates flow eligible protocolOf with
  | none =>
    rw [pickEligible_none hcandidates] at h
    cases h
  | some members =>
    obtain ⟨rfl, hmembers⟩ := candidates_eq_some hcandidates
    rw [pickEligible_node hcandidates] at h
    cases hpin : g.pickPin _ (g.testUrl tester) (g.activate _ tester) with
    | some node =>
      rw [hpin] at h
      cases h
      exact .inl (pickPin_mem hpin).1
    | none =>
      rw [hpin, Option.none_or] at h
      obtain ⟨n', hn', hcases⟩ := pickByStrategy_spec o flow (g.testUrl tester)
        (g.activate (g.eligibleMembers eligible protocolOf) tester) hchain hmembers
      rw [hn'] at h
      cases h
      exact hcases

end Group

/-- **A selection is a candidate, honours a valid pin, and is alive where the strategy looks for that.**  The candidates
are the members that pass the filters and the predicate; the health of the nodes is that after the group is activated. -/
theorem pickEligible_admissible (g : Group) (o : Outside) (flow : FlowMeta) (tester : Option UrlTester)
    (eligible : Str → Bool) (protocolOf : Str → Str) (hchain : g.plan.choose ≠ .chain) :
    (∀ n, (g.pickEligibleWithProtocol o flow tester eligible protocolOf).node = some n →
        (g.plan.choose = .fast → ¬g.AnswersFromMemory (g.eligibleMembers eligible protocolOf) (g.testUrl tester)
          (g.activate (g.eligibleMembers eligible protocolOf) tester) n) →
        n ∈ g.eligibleMembers eligible protocolOf ∧ n ∈ g.filteredMembers protocolOf ∧ eligible n = true) ∧
      ∀ members, g.candidates flow eligible protocolOf = some members →
        (∀ pin, g.pin = some pin → pin.node ∈ members →
          (g.plan.choose = .manual ∨ isAlive (g.activate members tester) (g.testUrl tester) pin.node = true) →
          (g.pickEligibleWithProtocol o flow tester eligible protocolOf).node = some pin.node) ∧
        (g.FindsAlive o flow members (g.testUrl tester) (g.activate members tester) →
          g.HasAlive members (g.testUrl tester) (g.activate members tester) →
          ∃ n ∈ members, (g.pickEligibleWithProtocol o flow tester eligible protocolOf).node = some n ∧
            isAlive (g.activate members tester) (g.testUrl tester) n = true) ∧
        (g.plan.choose = .fast → g.HasMeasured members (g.testUrl tester) (g.activate members tester) →
          ∃ n ∈ members, (g.pickEligibleWithProtocol o flow tester eligible protocolOf).node = some n ∧
            (isAlive (g.activate members tester) (g.testUrl tester) n = true ∨
              g.Reuses o (g.activate members tester) n)) := by
  constructor
  · intro n hn hmemory
    have hmem : n ∈ g.eligibleMembers eligible protocolOf :=
      (Group.pickEligible_cases hchain hn).resolve_right fun ⟨hfast, hanswers⟩ => hmemory hfast hanswers
    exact ⟨hmem, (Group.mem_eligibleMembers hmem).1, (Group.mem_eligibleMembers hmem).2.2⟩
  · intro members hcandidates
    obtain ⟨-, hmembers⟩ := Group.candidates_eq_some hcandidates
    rw [Group.pickEligible_node hcandidates]
    refine ⟨fun pin hpin hmem hvalid => ?_, fun hfinds halive => ?_, fun hfast hmeasured => ?_⟩
    · rw [Group.pickPin_eq_some hpin hmem hvalid]
      rfl
    · cases hpin : g.pickPin members (g.testUrl tester) (g.activate members tester) with
      | some node =>
        obtain ⟨hmem, hvalid⟩ := Group.pickPin_mem hpin
        refine ⟨node, hmem, rfl, hvalid.resolve_left fun hmanual => ?_⟩
        rcases hfinds with hchoose | ⟨hchoose, -⟩
        · rw [hchoose] at hmanual
          cases hmanual
        · rw [hchoose] at hmanual
          cases hmanual
      | none => exact Group.pickByStrategy_alive hmembers hfinds halive
    · cases hpin : g.pickPin members (g.testUrl tester) (g.activate members tester) with
      | some node =>
        obtain ⟨hmem, hvalid⟩ := Group.pickPin_mem hpin
        refine ⟨node, hmem, rfl, .inl (hvalid.resolve_left fun hmanual => ?_)⟩
        rw [hfast] at hmanual
        cases hmanual
      | none =>
        obtain ⟨n, hn, -, halive⟩ := g.pickUrlTest_spec o (g.testUrl tester)
          (g.activate members tester) hmembers
        obtain ⟨hmem, hcases⟩ := halive hmeasured
        refine ⟨n, hmem, ?_, hcases⟩
        rw [Option.none_or, Group.pickByStrategy, hfast]
        exact hn

end Pick

/-! ### Two runs -/

/-- The first node that is asked for, a second after the epoch of the clock. -/
def firstOutside : Outside where
  lbKey _ := 0
  lbKeySticky _ := 0
  jumpHash _ _ := 0
  jumpHash_lt _ _ h := h
  randomRange _ := 0
  randomRange_lt _ h := h
  weightedIndex _ := none
  weightedIndex_lt _ _ h := nomatch h
  smart _ _ := ⟨fun _ => true, fun _ _ => false, fun _ _ => true, false, 0⟩
  now := 1000000000
  nowNanos := 1000000000

/-- The node `a` is dead and `b` is not; the group `g` selected `a` when the clock began. -/
def deadTester : UrlTester where
  defaultUrl := []
  stats n _ := some { alive := n ≠ "a".toList, lastDelayMs := 50 }
  schedules := ⟨[("g".toList, 0)], List.nodup_singleton _⟩
  fastPick := ⟨[("g".toList, 0, ⟨"a".toList, 100⟩)], List.nodup_singleton _⟩

/-- A group `g` of the nodes `a` and `b`. -/
def groupOfTwo (choose : ChooseStrategy) : Group where
  plan := ⟨choose, ["a".toList, "b".toList]⟩
  pin := none
  pinGeneration := 0
  lastPick := none
  detail := { name := "g".toList }

/-- A flow to port 443. -/
def flowTo443 : FlowMeta := { host := [], port := 443, network := .tcp }

theorem pickEligible_admissible_fallback :
    ∃ n ∈ ["a".toList, "b".toList],
      ((groupOfTwo .stable).pickEligibleWithProtocol firstOutside flowTo443 (some deadTester) (fun _ => true) id).node =
        some n ∧ isAlive (some deadTester) [] n = true :=
  ((pickEligible_admissible (groupOfTwo .stable) firstOutside flowTo443 (some deadTester) (fun _ => true) id
    (by decide)).2 _ rfl).2.1 (.inl rfl) ⟨"b".toList, by decide, rfl, rfl⟩

/-- A `url-test` group answers with its selection of a second ago, which has died since. -/
theorem urlTest_reuses_dead :
    ¬∀ (g : Group) (o : Outside) (flow : FlowMeta) (tester : Option UrlTester) (eligible : Str → Bool)
      (protocolOf : Str → Str) (members : List Str), g.candidates flow eligible protocolOf = some members →
      g.plan.choose = .fast ∨ g.plan.choose = .stable ∨ g.plan.choose = .spread →
      g.HasAlive members (g.testUrl tester) (g.activate members tester) →
      ∃ n ∈ members, (g.pickEligibleWithProtocol o flow tester eligible protocolOf).node = some n ∧
        isAlive (g.activate members tester) (g.testUrl tester) n = true := by
  intro hall
  obtain ⟨n, -, hn, halive⟩ := hall (groupOfTwo .fast) firstOutside flowTo443 (some deadTester) (fun _ => true) id _ rfl
    (.inl rfl) ⟨"b".toList, by decide, rfl, rfl⟩
  have hpicked : ((groupOfTwo .fast).pickEligibleWithProtocol firstOutside flowTo443 (some deadTester) (fun _ => true)
    id).node = some "a".toList := rfl
  rw [hpicked] at hn
  cases hn
  exact absurd halive (by decide)

end WutherCore.Engine
