import WutherCore.Engine.GroupPickSound

/-!
# Runs of fast selections

`UrlTester::pick_fast` repeats the selection of the last ten seconds while the node is a member.  After that it
compares the delay with which the node was selected to the least delay of the members, and keeps the node if it is
within the tolerance.

* `UrlTester.Minimal`: a member with the least delay, which `fastest` finds;
* `FastRun`: a tester whose nodes are probed and fail while the members of one group are selected from.
-/

namespace WutherCore.Engine

open WutherCore.Text WutherCore.Data WutherCore.Health

/-! ### What is recorded -/

/-- The accesses of `record_timing`. -/
def recordSteps : List RecordStep :=
  [.alive, .lastDelay, .lastSeen, .consecutiveFailures, .requestedInterval, .nextDue, .lastError, .history, .signature,
    .generation]

/-- `record_timing`. -/
def NodeUrlStats.recordTiming (stats : NodeUrlStats) (now : UInt64) (r : Record) : NodeUrlStats :=
  (recordSteps.foldl (fun (s : NodeUrlStats × Locals) step => s.1.record 0 now r s.2 step) (stats, {})).1

namespace UrlTester

variable (t : UrlTester) (node url : Str)

/-- A probe of a node with a result: `record_timing` of its statistics. -/
def recordTiming (now : UInt64) (r : Record) : UrlTester :=
  { t with stats := fun n u =>
      if n = node ∧ u = url then some (NodeUrlStats.recordTiming ((t.stats n u).getD {}) now r) else t.stats n u }

/-- `mark_runtime_failure`. -/
def markRuntimeFailure (now : UInt64) (reason : Str) : UrlTester := t.recordTiming node url now (failureRecord reason)

end UrlTester

/-! ### The least delay -/

namespace UrlTester

variable {t : UrlTester} {members : List Str} {url : Str}

/-- A node is alive and has been measured.  A delay of zero is that of a node without a probe. -/
def Measured (t : UrlTester) (url node : Str) : Prop :=
  t.lastDelayForUrl node url ≠ deadDelay ∧ t.lastDelayForUrl node url ≠ 0

instance (t : UrlTester) (url node : Str) : Decidable (t.Measured url node) := inferInstanceAs (Decidable (_ ∧ _))

/-- A node has a delay that is not more than the least of the measured members with a tolerance. -/
def Near (t : UrlTester) (members : List Str) (url : Str) (tolerance : UInt32) (node : Str) : Prop :=
  ∀ m ∈ members, t.Measured url m →
    (t.lastDelayForUrl node url).toNat ≤ (t.lastDelayForUrl m url).toNat + tolerance.toNat

/-- A measured member with the least delay. -/
structure Minimal (t : UrlTester) (members : List Str) (url node : Str) : Prop where
  mem : node ∈ members
  measured : t.Measured url node
  le : ∀ m ∈ members, t.Measured url m → t.lastDelayForUrl node url ≤ t.lastDelayForUrl m url

/-- The delay of what a scan has found, which is that of a dead node before the first one. -/
def delayOf (best : Option FastPickResult) : UInt32 := (best.map (·.delay)).getD deadDelay

/-- What a scan has found has the delay of its node. -/
def Scanned (t : UrlTester) (url : Str) (best : Option FastPickResult) : Prop :=
  ∀ b ∈ best, b.delay = t.lastDelayForUrl b.node url

theorem le_deadDelay (d : UInt32) : d ≤ deadDelay := by
  rw [UInt32.le_iff_toNat_le]
  have := d.toNat_lt
  have hdead : deadDelay.toNat = 2 ^ 32 - 1 := rfl
  omega

theorem fasterOf_spec {best : Option FastPickResult} (hbest : t.Scanned url best) (m : Str) :
    t.Scanned url (t.fasterOf url best m) ∧ delayOf (t.fasterOf url best m) ≤ t.lastDelayForUrl m url ∧
      delayOf (t.fasterOf url best m) ≤ delayOf best := by
  have hmember : t.Scanned url (some ⟨m, t.lastDelayForUrl m url⟩) := by
    intro b hb
    cases hb
    rfl
  unfold fasterOf
  dsimp only
  by_cases hdead : t.lastDelayForUrl m url = deadDelay
  · rw [if_pos hdead, hdead]
    exact ⟨hbest, le_deadDelay _, UInt32.le_refl _⟩
  · rw [if_neg hdead]
    cases best with
    | none => exact ⟨hmember, UInt32.le_refl _, le_deadDelay _⟩
    | some b =>
      dsimp only
      by_cases hlt : t.lastDelayForUrl m url < b.delay
      · rw [if_pos hlt]
        exact ⟨hmember, UInt32.le_refl _, UInt32.le_of_lt hlt⟩
      · rw [if_neg hlt]
        exact ⟨hbest, UInt32.not_lt.1 hlt, UInt32.le_refl _⟩

theorem foldl_fasterOf_le (members : List Str) {best : Option FastPickResult} (hbest : t.Scanned url best) :
    t.Scanned url (members.foldl (t.fasterOf url) best) ∧
      delayOf (members.foldl (t.fasterOf url) best) ≤ delayOf best ∧
      ∀ m ∈ members, delayOf (members.foldl (t.fasterOf url) best) ≤ t.lastDelayForUrl m url := by
  induction members generalizing best with
  | nil => exact ⟨hbest, UInt32.le_refl _, nofun⟩
  | cons m members ih =>
    obtain ⟨hscanned, hm, hbefore⟩ := fasterOf_spec hbest m
    obtain ⟨hrest, hle, hall⟩ := ih hscanned
    rw [List.foldl_cons, List.forall_mem_cons]
    exact ⟨hrest, UInt32.le_trans hle hbefore, UInt32.le_trans hle hm, hall⟩

/-- **The scan finds a member with the least delay.** -/
theorem fastest_le {b : FastPickResult} (h : t.fastest members url = some b) :
    b.delay = t.lastDelayForUrl b.node url ∧ ∀ m ∈ members, b.delay ≤ t.lastDelayForUrl m url := by
  have hnone : t.Scanned url none := nofun
  obtain ⟨hscanned, -, hall⟩ := foldl_fasterOf_le members hnone
  rw [← fastest, h] at hscanned hall
  exact ⟨hscanned b rfl, hall⟩

theorem fastest_minimal {b : FastPickResult} (h : t.fastest members url = some b)
    (hprobed : ∀ m ∈ members, t.lastDelayForUrl m url ≠ 0) : t.Minimal members url b.node := by
  obtain ⟨hmem, hdead⟩ := fastest_eq_some h
  obtain ⟨hdelay, hall⟩ := fastest_le h
  refine ⟨hmem, ⟨hdead, hprobed _ hmem⟩, fun m hm _ => ?_⟩
  rw [← hdelay]
  exact hall m hm

/-- **A delay is within the tolerance of the one that the scan finds when it is near that of all members.** -/
theorem near_iff {b : FastPickResult} (h : t.fastest members url = some b)
    (hprobed : ∀ m ∈ members, t.lastDelayForUrl m url ≠ 0) (tolerance : UInt32) (node : Str) :
    t.Near members url tolerance node ↔ t.lastDelayForUrl node url ≤ saturatingAdd b.delay tolerance := by
  have hminimal := fastest_minimal h hprobed
  obtain ⟨hdelay, hall⟩ := fastest_le h
  have hlt := (t.lastDelayForUrl node url).toNat_lt
  have hsum : (saturatingAdd b.delay tolerance).toNat = min (b.delay.toNat + tolerance.toNat) (2 ^ 32 - 1) := by
    unfold saturatingAdd
    rw [UInt32.toNat_ofNat']
    omega
  rw [UInt32.le_iff_toNat_le, hsum]
  constructor
  · intro hnear
    have := hnear b.node hminimal.mem hminimal.measured
    rw [← hdelay] at this
    omega
  · intro hle m hm _
    have := UInt32.le_iff_toNat_le.1 (hall m hm)
    omega

end UrlTester

/-! ### Runs -/

/-- A tester, and the node that was last selected in a group. -/
structure FastRun where
  tester : UrlTester
  returned : Option Str := none

/-- A move: the statistics of a node are made, as a group is activated or a test begins; a probe of a node ends with a
result; a node fails; the group is selected from. -/
inductive FastMove
  | ensureStats (node url : Str)
  | recordTiming (node url : Str) (now : UInt64) (r : Record)
  | markRuntimeFailure (node url : Str) (now : UInt64) (reason : Str)
  | pickFast (now : Nat) (members : List Str) (url : Str) (tolerance : UInt32)

namespace FastRun

variable {group : Str} {s s' : FastRun} {now : Nat} {members : List Str} {url : Str} {tolerance : UInt32}

/-- `UrlTester::new`. -/
def start (url : Str) : FastRun :=
  { tester := { defaultUrl := url, stats := fun _ _ => none, schedules := .empty, fastPick := .empty } }

def step (group : Str) (s : FastRun) : FastMove → Option FastRun
  | .ensureStats node url => some { s with tester := s.tester.ensureStats node url }
  | .recordTiming node url now r => some { s with tester := s.tester.recordTiming node url now r }
  | .markRuntimeFailure node url now reason =>
      some { s with tester := s.tester.markRuntimeFailure node url now reason }
  | .pickFast now members url tolerance =>
      let (node, tester) := s.tester.pickFast now group members url tolerance
      some ⟨tester, node⟩

/-- A call repeats the selection of the last ten seconds. -/
def Recent (s : FastRun) (group : Str) (now : Nat) (members : List Str) : Prop :=
  ∃ e, s.tester.fastPick.get? group = some e ∧ now - e.1 < fastPickTtl ∧ e.2.node ∈ members

/-- A node may be kept: it is a member and alive, and its delay is within the tolerance. -/
def Keepable (s : FastRun) (members : List Str) (url : Str) (tolerance : UInt32) (node : Str) : Prop :=
  node ∈ members ∧ s.tester.aliveForUrl node url = true ∧ s.tester.Near members url tolerance node

/-- The last selection still has the delay with which it was selected, if it is alive, and each member has been
probed. -/
structure Settled (s : FastRun) (group : Str) (members : List Str) (url : Str) : Prop where
  same : ∀ e, s.tester.fastPick.get? group = some e → e.2.node ∈ members →
    s.tester.aliveForUrl e.2.node url = true → e.2.delay = s.tester.lastDelayForUrl e.2.node url
  probed : ∀ m ∈ members, s.tester.lastDelayForUrl m url ≠ 0

/-- What a call of `pick_fast` answers. -/
structure Answers (s : FastRun) (group : Str) (now : Nat) (members : List Str) (url : Str) (tolerance : UInt32)
    (pick : Option Str) : Prop where
  recent : s.Recent group now members → pick = s.returned
  dead : ¬s.Recent group now members → (∀ m ∈ members, s.tester.lastDelayForUrl m url = deadDelay) → pick = s.returned
  alive : ¬s.Recent group now members → (∃ m ∈ members, s.tester.Measured url m) →
    ∃ n ∈ members, pick = some n ∧ s.tester.aliveForUrl n url = true
  kept : ¬s.Recent group now members → (∃ m ∈ members, s.tester.Measured url m) → s.Settled group members url →
    ∀ n, s.returned = some n → (pick = some n ↔ s.Keepable members url tolerance n)
  minimal : ¬s.Recent group now members → (∃ m ∈ members, s.tester.Measured url m) → s.Settled group members url →
    (∀ n, s.returned = some n → ¬s.Keepable members url tolerance n) →
    ∃ n, pick = some n ∧ s.tester.Minimal members url n

/-- The remembered node is the one that was last returned. -/
def Inv (group : Str) (s : FastRun) : Prop := s.returned = (s.tester.fastPick.get? group).map (·.2.node)

theorem pickFast_of_not_recent (h : ¬s.Recent group now members) :
    s.tester.pickFast now group members url tolerance =
      match (s.tester.fastPick.get? group).map Prod.snd, s.tester.fastest members url with
      | some prev, some best =>
          let final := if s.tester.Keeps members url tolerance prev best then prev else best
          (some final.node, { s.tester with fastPick := s.tester.fastPick.insert group (now, final) })
      | none, some best =>
          (some best.node, { s.tester with fastPick := s.tester.fastPick.insert group (now, best) })
      | some prev, none => (some prev.node, s.tester)
      | none, none => (none, s.tester) := by
  have hnone : ((s.tester.fastPick.get? group).filter fun e =>
      now - e.1 < fastPickTtl && e.2.node ∈ members) = none := by
    rw [Option.filter_eq_none_iff]
    intro e he hboth
    rw [Bool.and_eq_true, decide_eq_true_eq, decide_eq_true_eq] at hboth
    exact h ⟨e, he, hboth⟩
  unfold UrlTester.pickFast
  simp only [hnone]
  all_goals rfl

theorem pickFast_of_recent {e : Nat × FastPickResult} (hget : s.tester.fastPick.get? group = some e)
    (hfresh : now - e.1 < fastPickTtl) (hmem : e.2.node ∈ members) :
    s.tester.pickFast now group members url tolerance = (some e.2.node, s.tester) := by
  unfold UrlTester.pickFast
  dsimp only
  rw [hget, Option.filter_some, if_pos (by rw [decide_eq_true hfresh, decide_eq_true hmem]; rfl)]

/-- **A call remembers the node that it returns.** -/
theorem pickFast_remembers (s : FastRun) (group : Str) (now : Nat) (members : List Str) (url : Str)
    (tolerance : UInt32) : (s.tester.pickFast now group members url tolerance).1 =
      ((s.tester.pickFast now group members url tolerance).2.fastPick.get? group).map (·.2.node) := by
  by_cases hrecent : s.Recent group now members
  · obtain ⟨e, hget, hfresh, hmem⟩ := hrecent
    rw [pickFast_of_recent hget hfresh hmem, hget]
    rfl
  · rw [pickFast_of_not_recent hrecent]
    cases hget : s.tester.fastPick.get? group with
    | none =>
      cases s.tester.fastest members url with
      | none =>
        dsimp only [Option.map_none]
        rw [hget]
        rfl
      | some best =>
        dsimp only [Option.map_none]
        rw [AssocMap.get?_insert_self]
        rfl
    | some e =>
      cases s.tester.fastest members url with
      | none =>
        dsimp only [Option.map_some]
        rw [hget]
        rfl
      | some best =>
        dsimp only [Option.map_some]
        rw [AssocMap.get?_insert_self]
        rfl

theorem Inv.step {m : FastMove} (h : s.Inv group) (hstep : step group s m = some s') : s'.Inv group := by
  cases m with
  | ensureStats node url =>
    cases hstep
    exact h
  | recordTiming node url now r =>
    cases hstep
    exact h
  | markRuntimeFailure node url now reason =>
    cases hstep
    exact h
  | pickFast now members url tolerance =>
    cases hstep
    exact pickFast_remembers _ group now members url tolerance

theorem Inv.reach {url : Str} (h : Reach (FastRun.step group) anyMove (start url) s) : s.Inv group :=
  h.inv (fun _ _ _ hs _ hm => hs.step hm) rfl

theorem keepable_fastest {best : FastPickResult} (hbest : s.tester.fastest members url = some best)
    (hprobed : ∀ m ∈ members, s.tester.lastDelayForUrl m url ≠ 0) : s.Keepable members url tolerance best.node := by
  have hminimal := UrlTester.fastest_minimal hbest hprobed
  refine ⟨hminimal.mem, UrlTester.alive_of_delay hminimal.measured.1, fun m hm hmeasured => ?_⟩
  have := UInt32.le_iff_toNat_le.1 (hminimal.le m hm hmeasured)
  omega

/-- **While its delay is the same, the last selection is kept when it may be.** -/
theorem Settled.keeps_iff (hsettled : s.Settled group members url) {e : Nat × FastPickResult} {best : FastPickResult}
    (hget : s.tester.fastPick.get? group = some e) (hbest : s.tester.fastest members url = some best) :
    s.tester.Keeps members url tolerance e.2 best ↔ s.Keepable members url tolerance e.2.node := by
  unfold UrlTester.Keeps Keepable
  rw [UrlTester.near_iff hbest hsettled.probed]
  constructor
  · rintro ⟨hmem, halive, hle⟩
    rw [hsettled.same e hget hmem halive] at hle
    exact ⟨hmem, halive, hle⟩
  · rintro ⟨hmem, halive, hle⟩
    rw [← hsettled.same e hget hmem halive] at hle
    exact ⟨hmem, halive, hle⟩

/-- **Every call of a run answers with the last selection, where it repeats one, or finds nothing alive; otherwise with
a member that is alive: the last selection if it may be kept, and one with the least delay if not.** -/
theorem pickFast_answers {start₀ : Str} (h : Reach (step group) anyMove (start start₀) s) (now : Nat)
    (members : List Str) (url : Str) (tolerance : UInt32) :
    s.Answers group now members url tolerance (s.tester.pickFast now group members url tolerance).1 := by
  have hinv : s.returned = (s.tester.fastPick.get? group).map (·.2.node) := Inv.reach h
  -- a measured member makes the scan find one
  have hfound (hmeasured : ∃ m ∈ members, s.tester.Measured url m) :
      ∃ best, s.tester.fastest members url = some best := by
    obtain ⟨m, hm, hdelay, -⟩ := hmeasured
    cases hbest : s.tester.fastest members url with
    | some best => exact ⟨best, rfl⟩
    | none => exact absurd (UrlTester.fastest_eq_none hbest m hm) hdelay
  constructor
  case recent =>
    rintro ⟨e, hget, hfresh, hmem⟩
    rw [pickFast_of_recent hget hfresh hmem, hinv, hget]
    rfl
  case dead =>
    intro hrecent hdead
    have hnone : s.tester.fastest members url = none := by
      cases hbest : s.tester.fastest members url with
      | none => rfl
      | some best =>
        obtain ⟨hmem, hdelay⟩ := UrlTester.fastest_eq_some hbest
        exact absurd (hdead _ hmem) hdelay
    rw [pickFast_of_not_recent hrecent, hinv, hnone]
    cases s.tester.fastPick.get? group <;> rfl
  case alive =>
    intro hrecent hmeasured
    obtain ⟨best, hbest⟩ := hfound hmeasured
    obtain ⟨hmem, hdelay⟩ := UrlTester.fastest_eq_some hbest
    rw [pickFast_of_not_recent hrecent, hbest]
    cases s.tester.fastPick.get? group with
    | none => exact ⟨best.node, hmem, rfl, UrlTester.alive_of_delay hdelay⟩
    | some e =>
      dsimp only [Option.map_some]
      split_ifs with hkeeps
      · exact ⟨e.2.node, hkeeps.1, rfl, hkeeps.2.1⟩
      · exact ⟨best.node, hmem, rfl, UrlTester.alive_of_delay hdelay⟩
  case kept =>
    intro hrecent hmeasured hsettled n hn
    obtain ⟨best, hbest⟩ := hfound hmeasured
    rw [hinv] at hn
    obtain ⟨e, hget, rfl⟩ := Option.map_eq_some_iff.1 hn
    rw [pickFast_of_not_recent hrecent, hbest, hget]
    dsimp only [Option.map_some]
    split_ifs with hkeeps
    · exact iff_of_true rfl ((hsettled.keeps_iff hget hbest).1 hkeeps)
    · have hnot : ¬s.Keepable members url tolerance e.2.node := mt (hsettled.keeps_iff hget hbest).2 hkeeps
      refine iff_of_false (fun heq => hnot ?_) hnot
      rw [← Option.some.inj heq]
      exact keepable_fastest hbest hsettled.probed
  case minimal =>
    intro hrecent hmeasured hsettled hnot
    obtain ⟨best, hbest⟩ := hfound hmeasured
    have hminimal := UrlTester.fastest_minimal hbest hsettled.probed
    rw [pickFast_of_not_recent hrecent, hbest]
    cases hget : s.tester.fastPick.get? group with
    | none => exact ⟨best.node, rfl, hminimal⟩
    | some e =>
      have hprev : s.returned = some e.2.node := by
        rw [hinv, hget]
        rfl
      dsimp only [Option.map_some]
      rw [if_neg (mt (hsettled.keeps_iff hget hbest).1 (hnot _ hprev))]
      exact ⟨best.node, rfl, hminimal⟩

/-- A node `a` with a delay of 100 ms, a node `b` with one of 200 ms, a selection, and a failure of what was
selected. -/
def failureOfFastest : List FastMove :=
  [.recordTiming "a".toList [] 0 ⟨{ delayMs := 100 }, true, 0, none, 0⟩,
    .recordTiming "b".toList [] 0 ⟨{ delayMs := 200 }, true, 0, none, 0⟩,
    .pickFast 0 ["a".toList, "b".toList] [] 50,
    .markRuntimeFailure "a".toList [] 0 "reset".toList]

/-- Eleven seconds after the selection, `b` is selected. -/
theorem pickFast_answers_after_failure :
    ∃ s, runMoves (step "g".toList) (start []) failureOfFastest = some s ∧
      (s.tester.pickFast (11 * 1000000000) "g".toList ["a".toList, "b".toList] [] 50).1 = some "b".toList ∧
      s.Answers "g".toList (11 * 1000000000) ["a".toList, "b".toList] [] 50
        (s.tester.pickFast (11 * 1000000000) "g".toList ["a".toList, "b".toList] [] 50).1 :=
  have hrun : runMoves (step "g".toList) (start []) failureOfFastest = some _ := rfl
  ⟨_, hrun, by decide +kernel, pickFast_answers (reach_of_runMoves hrun) _ _ _ _⟩

/-- **A selection that is repeated may have died since.** -/
theorem pickFast_repeats_dead :
    ¬∀ (group url : Str) (s : FastRun), Reach (step group) anyMove (start url) s →
      ∀ (now : Nat) (members : List Str) (tolerance : UInt32) (n : Str),
        (s.tester.pickFast now group members url tolerance).1 = some n → n ∈ members →
        (∃ m ∈ members, s.tester.Measured url m) → s.tester.aliveForUrl n url = true := by
  intro hall
  obtain ⟨s, hs⟩ : ∃ s, runMoves (step "g".toList) (start []) failureOfFastest = some s := ⟨_, rfl⟩
  have hpick : (runMoves (step "g".toList) (start []) failureOfFastest).all fun s =>
      (s.tester.pickFast 1000000000 "g".toList ["a".toList, "b".toList] [] 50).1 = some "a".toList ∧
        s.tester.Measured [] "b".toList ∧ s.tester.aliveForUrl "a".toList [] = false := by
    decide +kernel
  rw [hs, Option.all_some, decide_eq_true_eq] at hpick
  obtain ⟨hpick, hmeasured, hdead⟩ := hpick
  have halive := hall "g".toList [] s (reach_of_runMoves hs) 1000000000 ["a".toList, "b".toList] 50 "a".toList hpick
    List.mem_cons_self ⟨"b".toList, List.mem_cons_of_mem _ List.mem_cons_self, hmeasured⟩
  rw [hdead] at halive
  cases halive

end FastRun

end WutherCore.Engine
