import Mathlib
import WutherCore.Engine.Feeds
import WutherCore.Engine.Pins

/-!
# Manual probes

A manual probe of a group takes time: its token is issued when it begins and handed in when it
completes, and in between the pins of the group may be set and cleared and the group may be built
anew by a feed.  A `Session` is a runtime together with the probes under way, and its events are the
calls in the order in which they take the lock.

* A generation is drawn from the counter of the group, and a group that is built anew starts its
  counter from the generation of its pin.
* **`guarded_keepsNewerPins`**: as long as no update lets a counter fall below a token that is under
  way, and no counter wraps around, a probe never releases a pin that was set after it began.
-/

namespace WutherCore.Engine

open WutherCore.Text WutherCore.Data

variable {κ ω : Type}

/-! ### Sessions -/

/-- A probe under way: the number of the event that began it, its group, and its token. -/
structure Probe where
  id : Nat
  group : Str
  token : ManualProbeToken

/-- A runtime and the probes under way. -/
structure Session (κ ω : Type) where
  runtime : Runtime κ ω
  probes : List Probe
  clock : Nat

/-- The calls of a session. -/
inductive Event (κ : Type)
  | setGroupPin (group node : Str) (source : PinSource) (nowMs : UInt64) (commits : Bool)
  | clearGroupPin (group : Str) (commits : Bool)
  | beginManualProbe (group : Str)
  | completeManualProbe (id : Nat) (anySuccess commits : Bool)
  | applyFeedNodes (feed : Str) (nodes : List (ParsedNode κ))

namespace Session

variable (buildOutbound : ParsedNode κ → Except Str ω)

/-- A session that starts. -/
def start (r : Runtime κ ω) : Session κ ω := { runtime := r, probes := [], clock := 0 }

/-- One event, with its answer. -/
def step (s : Session κ ω) : Event κ → Bool × Session κ ω
  | .setGroupPin group node source nowMs commits =>
    let a := s.runtime.call (.set group node source nowMs commits)
    (a.1, { s with runtime := a.2, clock := s.clock + 1 })
  | .clearGroupPin group commits =>
    let a := s.runtime.call (.clear group commits)
    (a.1, { s with runtime := a.2, clock := s.clock + 1 })
  | .beginManualProbe group =>
    match s.runtime.groups.get? group with
    | none => (false, { s with clock := s.clock + 1 })
    | some selector =>
      (true, { s with
        probes := ⟨s.clock, group, selector.beginManualProbe⟩ :: s.probes
        clock := s.clock + 1 })
  | .completeManualProbe id anySuccess commits =>
    match s.probes.find? (·.id = id) with
    | none => (false, { s with clock := s.clock + 1 })
    | some probe =>
      let a := s.runtime.call (.completeProbe probe.group probe.token anySuccess commits)
      (a.1, { runtime := a.2, probes := s.probes.filter (·.id ≠ id), clock := s.clock + 1 })
  | .applyFeedNodes feed nodes =>
    let a := s.runtime.applyFeedNodes buildOutbound feed nodes
    (a.1.isOk, { s with runtime := a.2, clock := s.clock + 1 })

/-- The session after the first events of a list. -/
def after (s : Session κ ω) (events : List (Event κ)) (k : Nat) : Session κ ω :=
  (events.take k).foldl (fun s e => (s.step buildOutbound e).2) s

/-- The pin of a group. -/
def pin (s : Session κ ω) (group : Str) : Option GroupPin :=
  (s.runtime.groups.get? group).bind GroupSelector.pin

/-- Event `j` pins a node of the group. -/
def PinsAt (s : Session κ ω) (events : List (Event κ)) (j : Nat) (group : Str) : Prop :=
  ∃ node source nowMs commits, node ≠ [] ∧
    events[j]? = some (.setGroupPin group node source nowMs commits) ∧
    ((s.after buildOutbound events j).step buildOutbound
      (.setGroupPin group node source nowMs commits)).1 = true

/-- No probe releases a newer pin: where a probe of a group begins at `i`, a pin is set at `j` and the
probe completes at `k`, the completion leaves the pin of the group alone. -/
def KeepsNewerPins (s : Session κ ω) (events : List (Event κ)) : Prop :=
  ∀ i j k group anySuccess commits, i < j → j < k →
    events[i]? = some (.beginManualProbe group) → s.PinsAt buildOutbound events j group →
    events[k]? = some (.completeManualProbe i anySuccess commits) →
    (s.after buildOutbound events (k + 1)).pin group = (s.after buildOutbound events k).pin group

end Session

/-- The generation that a token can release. -/
def ManualProbeToken.Releases (token : ManualProbeToken) (generation : UInt64) : Prop :=
  token.releaseAfterSuccess = true ∧ token.generation = some generation

/-- The events that keep generations apart: the counter of a group does not wrap around, and an update
that builds a group anew does not set its counter below a token under way. -/
def Event.Guarded (s : Session κ ω) : Event κ → Prop
  | .setGroupPin group .. => ∀ selector, s.runtime.groups.get? group = some selector →
      selector.pinGeneration.toNat + 1 < 2 ^ 64
  | .applyFeedNodes .. => ∀ probe ∈ s.probes, ∀ generation, probe.token.Releases generation →
      (s.runtime.plan.feedGroup probe.group).isSome →
      generation ≤ ((s.pin probe.group).map GroupPin.generation).getD 0
  | _ => True

/-! ### Generations -/

/-- How the calls move a selector: the counter grows, and a pin is an old one or takes a generation
above the old counter. -/
def GroupSelector.Follows (s s' : GroupSelector) : Prop :=
  s.pinGeneration.toNat ≤ s'.pinGeneration.toNat ∧
    ∀ pin', s'.pin = some pin' →
      (∃ pin, s.pin = some pin ∧ pin.generation = pin'.generation) ∨
        s.pinGeneration.toNat < pin'.generation.toNat ∧
          pin'.generation.toNat ≤ s'.pinGeneration.toNat

namespace GroupSelector

variable {s s' : GroupSelector}

theorem Follows.refl (s : GroupSelector) : s.Follows s :=
  ⟨le_rfl, fun pin hpin => .inl ⟨pin, hpin, rfl⟩⟩

theorem follows_cleared (s : GroupSelector) : s.Follows { s with pin := none } :=
  ⟨le_rfl, fun _ h => by cases h⟩

theorem toNat_pinGeneration_succ (h : s.pinGeneration.toNat + 1 < 2 ^ 64) :
    (s.pinGeneration + 1).toNat = s.pinGeneration.toNat + 1 := by
  rw [UInt64.toNat_add]
  exact Nat.mod_eq_of_lt h

theorem follows_counter (h : s.pinGeneration.toNat + 1 < 2 ^ 64) :
    s.Follows { s with pinGeneration := s.pinGeneration + 1 } := by
  refine ⟨?_, fun pin hpin => .inl ⟨pin, hpin, rfl⟩⟩
  change s.pinGeneration.toNat ≤ (s.pinGeneration + 1).toNat
  rw [toNat_pinGeneration_succ h]
  exact Nat.le_succ _

theorem follows_setPin (h : s.pinGeneration.toNat + 1 < 2 ^ 64) (node : Str) (source : PinSource)
    (nowMs : UInt64) : s.Follows (s.setPin node source nowMs).2 := by
  have hsucc := toNat_pinGeneration_succ h
  refine ⟨?_, fun pin' hpin' => .inr ?_⟩
  · change s.pinGeneration.toNat ≤ (s.pinGeneration + 1).toNat
    omega
  · cases hpin'
    change s.pinGeneration.toNat < (s.pinGeneration + 1).toNat ∧
      (s.pinGeneration + 1).toNat ≤ (s.pinGeneration + 1).toNat
    omega

end GroupSelector

namespace Runtime

/-- A call that cannot wrap the counter of its group around. -/
def NoWrap (r : Runtime κ ω) (c : PinCall) : Prop :=
  c.IsSet → ∀ s, r.groups.get? c.group = some s → s.pinGeneration.toNat + 1 < 2 ^ 64

theorem follows_of_moves {r : Runtime κ ω} {c : PinCall} {s s' : GroupSelector}
    (hwrap : r.NoWrap c) (hs : r.groups.get? c.group = some s) (h : c.Moves s s') :
    s.Follows s' := by
  cases c with
  | set group node source nowMs commits =>
    rcases h with ⟨-, rfl⟩ | ⟨-, -, rfl⟩
    · exact s.follows_cleared
    · exact GroupSelector.follows_setPin (hwrap trivial s hs) node source nowMs
  | clear group commits =>
    cases h
    exact s.follows_cleared
  | completeProbe group token anySuccess commits =>
    obtain ⟨rfl, -⟩ := h
    exact s.follows_cleared

theorem call_follows (r : Runtime κ ω) {c : PinCall} (hwrap : r.NoWrap c) {group : Str}
    {s' : GroupSelector} (hs' : (r.call c).2.groups.get? group = some s') :
    ∃ s, r.groups.get? group = some s ∧ s.Follows s' := by
  rcases call_cases r c with heq | ⟨s, hs, hset, heq⟩ | ⟨s, s'', hs, hmoves, -, hrec⟩
  · rw [heq] at hs'
    exact ⟨s', hs', .refl s'⟩
  · rw [heq, withGroup] at hs'
    by_cases hg : group = c.group
    · subst hg
      rw [AssocMap.get?_modify_self, hs] at hs'
      cases hs'
      exact ⟨s, hs, GroupSelector.follows_counter (hwrap hset s hs)⟩
    · rw [AssocMap.get?_modify_of_ne _ _ hg] at hs'
      exact ⟨s', hs', .refl s'⟩
  · by_cases hg : group = c.group
    · subst hg
      rw [hrec.get?_self hs] at hs'
      cases hs'
      exact ⟨s, hs, follows_of_moves hwrap hs hmoves⟩
    · rw [hrec.get?_of_ne hg] at hs'
      exact ⟨s', hs', .refl s'⟩

/-- An update leaves a group alone, or it keeps the generation of its pin and restarts its counter
from there. -/
theorem applyFeedNodes_get? (buildOutbound : ParsedNode κ → Except Str ω) (r : Runtime κ ω)
    (feed : Str) (nodes : List (ParsedNode κ)) {group : Str} {s' : GroupSelector}
    (hs' : (r.applyFeedNodes buildOutbound feed nodes).2.groups.get? group = some s') :
    r.groups.get? group = some s' ∨
      (r.plan.feedGroup group).isSome ∧
        s'.pin = ((r.groups.get? group).bind GroupSelector.pin).map
          (fun pin => { pin with source := .restored }) ∧
        s'.pinGeneration =
          (((r.groups.get? group).bind GroupSelector.pin).map GroupPin.generation).getD 0 := by
  obtain ⟨⟨e, happly⟩, -⟩ | ⟨built, -, -, -, happly⟩ :=
    applyFeedNodes_cases buildOutbound r feed nodes
  · rw [happly] at hs'
    exact .inl hs'
  · rw [happly, get?_rebuildGroups] at hs'
    cases hg : r.plan.feedGroup group with
    | none =>
      rw [hg] at hs'
      exact .inl hs'
    | some base =>
      rw [hg] at hs'
      cases hs'
      exact .inr ⟨rfl, rebuildGroup_pin _ _ _, rebuildGroup_pinGeneration _ _ _⟩

/-! ### Counters, tokens and pins -/

/-- No pin is ahead of the counter of its group. -/
def CountersAhead (r : Runtime κ ω) : Prop :=
  ∀ group s pin, r.groups.get? group = some s → s.pin = some pin →
    pin.generation.toNat ≤ s.pinGeneration.toNat

/-- A generation is not ahead of the counter of a group. -/
def Covers (r : Runtime κ ω) (group : Str) (generation : UInt64) : Prop :=
  ∀ s, r.groups.get? group = some s → generation.toNat ≤ s.pinGeneration.toNat

/-- A generation is older than the pin of a group. -/
def Outdates (r : Runtime κ ω) (group : Str) (generation : UInt64) : Prop :=
  ∀ s pin, r.groups.get? group = some s → s.pin = some pin →
    generation.toNat < pin.generation.toNat

section Step

variable {r : Runtime κ ω} {c : PinCall} {group : Str} {generation : UInt64}

theorem CountersAhead.call (h : r.CountersAhead) (hwrap : r.NoWrap c) :
    (r.call c).2.CountersAhead := by
  intro group s' pin' hs' hpin'
  obtain ⟨s, hs, hle, hpins⟩ := call_follows r hwrap hs'
  rcases hpins pin' hpin' with ⟨pin, hpin, heq⟩ | ⟨-, hle'⟩
  · have := h group s pin hs hpin
    rw [← heq]
    omega
  · exact hle'

theorem Covers.call (h : r.Covers group generation) (hwrap : r.NoWrap c) :
    (r.call c).2.Covers group generation := by
  intro s' hs'
  obtain ⟨s, hs, hle, -⟩ := call_follows r hwrap hs'
  exact (h s hs).trans hle

theorem Outdates.call (h : r.Outdates group generation) (hc : r.Covers group generation)
    (hwrap : r.NoWrap c) : (r.call c).2.Outdates group generation := by
  intro s' pin' hs' hpin'
  obtain ⟨s, hs, -, hpins⟩ := call_follows r hwrap hs'
  rcases hpins pin' hpin' with ⟨pin, hpin, heq⟩ | ⟨hlt, -⟩
  · rw [← heq]
    exact h s pin hs hpin
  · exact (hc s hs).trans_lt hlt

variable {buildOutbound : ParsedNode κ → Except Str ω} {feed : Str} {nodes : List (ParsedNode κ)}

theorem CountersAhead.applyFeedNodes (h : r.CountersAhead) :
    (r.applyFeedNodes buildOutbound feed nodes).2.CountersAhead := by
  intro group s' pin' hs' hpin'
  rcases applyFeedNodes_get? buildOutbound r feed nodes hs' with hs | ⟨-, hpin, hcounter⟩
  · exact h group s' pin' hs hpin'
  · rw [hpin] at hpin'
    obtain ⟨pin, hold, rfl⟩ := Option.map_eq_some_iff.1 hpin'
    rw [hcounter, hold]
    exact le_rfl

theorem Covers.applyFeedNodes (h : r.Covers group generation)
    (hguard : (r.plan.feedGroup group).isSome → generation ≤
      (((r.groups.get? group).bind GroupSelector.pin).map GroupPin.generation).getD 0) :
    (r.applyFeedNodes buildOutbound feed nodes).2.Covers group generation := by
  intro s' hs'
  rcases applyFeedNodes_get? buildOutbound r feed nodes hs' with hs | ⟨hfeed, -, hcounter⟩
  · exact h s' hs
  · rw [hcounter]
    exact UInt64.le_iff_toNat_le.1 (hguard hfeed)

theorem Outdates.applyFeedNodes (h : r.Outdates group generation) :
    (r.applyFeedNodes buildOutbound feed nodes).2.Outdates group generation := by
  intro s' pin' hs' hpin'
  rcases applyFeedNodes_get? buildOutbound r feed nodes hs' with hs | ⟨-, hpin, -⟩
  · exact h s' pin' hs hpin'
  · rw [hpin] at hpin'
    obtain ⟨pin, hold, rfl⟩ := Option.map_eq_some_iff.1 hpin'
    obtain ⟨s, hs, hold⟩ := Option.bind_eq_some_iff.1 hold
    exact h s pin hs hold

theorem Covers.outdates_set {node : Str} {source : PinSource} {nowMs : UInt64} {commits : Bool}
    (h : r.Covers group generation) (hnode : node ≠ [])
    (hwrap : r.NoWrap (.set group node source nowMs commits))
    (htrue : (r.call (.set group node source nowMs commits)).1 = true) :
    (r.call (.set group node source nowMs commits)).2.Outdates group generation := by
  intro s' pin' hs' hpin'
  rcases setGroupPin_cases r group source nowMs commits hnode with
    heq | ⟨s, hs, -, heq | ⟨-, hrec⟩⟩
  · rw [Runtime.call, heq] at htrue
    cases htrue
  · rw [Runtime.call, heq] at htrue
    cases htrue
  · rw [Runtime.call, hrec.get?_self hs] at hs'
    cases hs'
    cases hpin'
    change generation.toNat < (s.pinGeneration + 1).toNat
    rw [GroupSelector.toNat_pinGeneration_succ (hwrap trivial s hs)]
    exact Nat.lt_succ_of_le (h s hs)

theorem Outdates.completeProbe {token : ManualProbeToken} {anySuccess commits : Bool}
    (h : ∀ generation, token.Releases generation → r.Outdates group generation) :
    (r.call (.completeProbe group token anySuccess commits)).2 = r := by
  rcases completeGroupManualProbe_cases r group token anySuccess commits with
    heq | ⟨s, pin, hs, hrelease, hpin, hgen, -, -⟩
  · rw [Runtime.call, heq]
  · exact absurd (h pin.generation ⟨hrelease, hgen⟩ s pin hs hpin) (lt_irrefl _)

end Step

/-- A runtime starts with its counters at its pins. -/
theorem build_countersAhead (plan : RuntimePlan κ) (outbounds : AssocMap Str ω)
    (store : Option Store) (reads : Table → Bool) (nowMs : Str → UInt64) :
    (Runtime.build plan outbounds store reads nowMs).CountersAhead := by
  intro group s pin hs hpin
  rw [get?_build] at hs
  obtain ⟨s₀, hs₀, rfl⟩ := Option.map_eq_some_iff.1 hs
  obtain ⟨base, rfl⟩ := RuntimePlan.get?_freshGroups hs₀
  have hrow : ∀ (row : Option GroupPinBlob) pin,
      (row.elim id restoreRow (GroupSelector.new base)).pin = some pin → pin.generation.toNat ≤
        (row.elim id restoreRow (GroupSelector.new base)).pinGeneration.toNat := by
    intro row pin hpin
    cases row with
    | none => cases hpin
    | some blob =>
      simp only [Option.elim_some, restoreRow] at hpin ⊢
      split_ifs at hpin ⊢ with hnode
      · cases hpin
      · cases hpin
        exact le_of_eq (congrArg UInt64.toNat (max_zero_generation _).symm)
  cases hm : readManual store reads group with
  | none =>
    rw [hm] at hpin
    exact hrow _ pin hpin
  | some picked =>
    rw [hm] at hpin
    simp only [Option.elim_some, restoreManual] at hpin ⊢
    split_ifs at hpin ⊢ with hset
    · cases hpin
      exact le_rfl
    · exact hrow _ pin hpin

end Runtime

/-! ### Runs -/

namespace Session

variable {buildOutbound : ParsedNode κ → Except Str ω} {s : Session κ ω} {events : List (Event κ)}
  {e : Event κ} {i k : Nat}

theorem after_succ (s : Session κ ω) (he : events[k]? = some e) :
    s.after buildOutbound events (k + 1) =
      ((s.after buildOutbound events k).step buildOutbound e).2 := by
  rw [after, after, List.take_add_one, he, Option.toList_some, List.foldl_append]
  rfl

/-- What holds after `k` events: each probe was begun by the event of its number, and no token is ahead
of the counter of its group. -/
structure Inv (events : List (Event κ)) (k : Nat) (s : Session κ ω) : Prop where
  clock : s.clock = k
  began : ∀ p ∈ s.probes, p.id < k ∧ events[p.id]? = some (.beginManualProbe p.group)
  counters : s.runtime.CountersAhead
  tokens : ∀ p ∈ s.probes, ∀ generation, p.token.Releases generation →
    s.runtime.Covers p.group generation

/-- The token of probe `i` is older than the pin of its group. -/
def Outdated (i : Nat) (s : Session κ ω) : Prop :=
  ∀ p ∈ s.probes, p.id = i → ∀ generation, p.token.Releases generation →
    s.runtime.Outdates p.group generation

theorem Inv.began_succ (h : Inv events k s) {p : Probe} (hp : p ∈ s.probes) :
    p.id < k + 1 ∧ events[p.id]? = some (.beginManualProbe p.group) :=
  ⟨(h.began p hp).1.trans k.lt_succ_self, (h.began p hp).2⟩

theorem Inv.call (h : Inv events k s) {c : PinCall} (hwrap : s.runtime.NoWrap c)
    {probes : List Probe} (hsub : ∀ p ∈ probes, p ∈ s.probes) :
    Inv events (k + 1) { runtime := (s.runtime.call c).2, probes, clock := s.clock + 1 } where
  clock := congrArg (· + 1) h.clock
  began p hp := h.began_succ (hsub p hp)
  counters := h.counters.call hwrap
  tokens p hp generation hg := (h.tokens p (hsub p hp) generation hg).call hwrap

theorem Inv.tick (h : Inv events k s) : Inv events (k + 1) { s with clock := s.clock + 1 } where
  clock := congrArg (· + 1) h.clock
  began _ hp := h.began_succ hp
  counters := h.counters
  tokens := h.tokens

theorem Inv.step (h : Inv events k s) (he : events[k]? = some e) (hguard : e.Guarded s) :
    Inv events (k + 1) (s.step buildOutbound e).2 := by
  cases e with
  | setGroupPin group node source nowMs commits =>
    exact h.call (c := .set group node source nowMs commits) (fun _ => hguard) fun _ hp => hp
  | clearGroupPin group commits =>
    exact h.call (c := .clear group commits) (fun h => h.elim) fun _ hp => hp
  | beginManualProbe group =>
    cases hs : s.runtime.groups.get? group with
    | none =>
      simp only [Session.step, hs]
      exact h.tick
    | some selector =>
      simp only [Session.step, hs]
      have ht := h.tick
      refine ⟨ht.clock, fun p hp => ?_, ht.counters, fun p hp generation hg => ?_⟩
      · rcases List.mem_cons.1 hp with rfl | hp
        · exact ⟨h.clock ▸ k.lt_succ_self, h.clock ▸ he⟩
        · exact ht.began p hp
      · rcases List.mem_cons.1 hp with rfl | hp
        · -- the token names the pin of the moment
          intro s₀ hs₀
          obtain ⟨pin, hpin, rfl⟩ := Option.map_eq_some_iff.1 hg.2
          rw [hs] at hs₀
          cases hs₀
          exact h.counters group selector pin hs hpin
        · exact ht.tokens p hp generation hg
  | completeManualProbe id anySuccess commits =>
    cases hp : s.probes.find? (·.id = id) with
    | none =>
      simp only [Session.step, hp]
      exact h.tick
    | some probe =>
      simp only [Session.step, hp]
      exact h.call (c := .completeProbe probe.group probe.token anySuccess commits)
        (fun h => h.elim) fun p hp => (List.mem_filter.1 hp).1
  | applyFeedNodes feed nodes =>
    have ht := h.tick
    exact ⟨ht.clock, ht.began, h.counters.applyFeedNodes, fun p hp generation hg =>
      (h.tokens p hp generation hg).applyFeedNodes (hguard p hp generation hg)⟩

theorem Outdated.call (ho : s.Outdated i) (h : Inv events k s) {c : PinCall}
    (hwrap : s.runtime.NoWrap c) {probes : List Probe} (hsub : ∀ p ∈ probes, p ∈ s.probes)
    (clock : Nat) : Outdated i { runtime := (s.runtime.call c).2, probes, clock } :=
  fun p hp hid generation hg => (ho p (hsub p hp) hid generation hg).call
    (h.tokens p (hsub p hp) generation hg) hwrap

theorem Outdated.step (ho : s.Outdated i) (h : Inv events k s) (hguard : e.Guarded s)
    (hi : i < k) : (s.step buildOutbound e).2.Outdated i := by
  cases e with
  | setGroupPin group node source nowMs commits =>
    exact ho.call (c := .set group node source nowMs commits) h (fun _ => hguard)
      (fun _ hp => hp) _
  | clearGroupPin group commits =>
    exact ho.call (c := .clear group commits) h (fun h => h.elim) (fun _ hp => hp) _
  | beginManualProbe group =>
    cases hs : s.runtime.groups.get? group with
    | none =>
      simp only [Session.step, hs]
      exact ho
    | some selector =>
      simp only [Session.step, hs]
      intro p hp hid
      rcases List.mem_cons.1 hp with rfl | hp
      · have hclock : s.clock = i := hid
        rw [h.clock] at hclock
        omega
      · exact ho p hp hid
  | completeManualProbe id anySuccess commits =>
    cases hp : s.probes.find? (·.id = id) with
    | none =>
      simp only [Session.step, hp]
      exact ho
    | some probe =>
      simp only [Session.step, hp]
      exact ho.call (c := .completeProbe probe.group probe.token anySuccess commits) h
        (fun h => h.elim) (fun p hp => (List.mem_filter.1 hp).1) _
  | applyFeedNodes feed nodes =>
    exact fun p hp hid generation hg => (ho p hp hid generation hg).applyFeedNodes

theorem Inv.outdated_set (h : Inv events k s) {group node : Str} {source : PinSource}
    {nowMs : UInt64} {commits : Bool} (hi : events[i]? = some (.beginManualProbe group))
    (hnode : node ≠ []) (hguard : (Event.setGroupPin group node source nowMs commits).Guarded s)
    (htrue : (s.step buildOutbound (.setGroupPin group node source nowMs commits)).1 = true) :
    (s.step buildOutbound (.setGroupPin group node source nowMs commits)).2.Outdated i := by
  intro p hp hid generation hg
  have hgroup := (h.began p hp).2
  rw [hid, hi] at hgroup
  cases hgroup
  exact (h.tokens p hp generation hg).outdates_set hnode (fun _ => hguard) htrue

theorem Outdated.pin_complete (ho : s.Outdated i) (anySuccess commits : Bool) (group : Str) :
    (s.step buildOutbound (.completeManualProbe i anySuccess commits)).2.pin group =
      s.pin group := by
  cases hp : s.probes.find? (·.id = i) with
  | none => simp only [Session.step, hp, pin]
  | some probe =>
    have hid : probe.id = i := by simpa using List.find?_some hp
    simp only [Session.step, hp, pin]
    rw [Runtime.Outdates.completeProbe (ho probe (List.mem_of_find?_eq_some hp) hid)]

/-- Every event of a list is guarded in the state before it. -/
def GuardedRun (buildOutbound : ParsedNode κ → Except Str ω) (s : Session κ ω)
    (events : List (Event κ)) : Prop :=
  ∀ (k : Nat) (e : Event κ), events[k]? = some e → e.Guarded (s.after buildOutbound events k)

theorem inv_after (hs : s.Inv events 0) (hguard : s.GuardedRun buildOutbound events)
    (hk : k ≤ events.length) : (s.after buildOutbound events k).Inv events k := by
  induction k with
  | zero => exact hs
  | succ k ih =>
    have he : events[k]? = some events[k] := List.getElem?_eq_getElem hk
    rw [after_succ s he]
    exact (ih (Nat.le_of_succ_le hk)).step he (hguard k _ he)

theorem outdated_after (hs : s.Inv events 0) (hguard : s.GuardedRun buildOutbound events)
    {j : Nat} (hij : i < j) (ho : (s.after buildOutbound events j).Outdated i)
    (hjk : j ≤ k) (hk : k ≤ events.length) : (s.after buildOutbound events k).Outdated i := by
  induction k, hjk using Nat.le_induction with
  | base => exact ho
  | succ k hjk ih =>
    have he : events[k]? = some events[k] := List.getElem?_eq_getElem hk
    rw [after_succ s he]
    exact (ih (Nat.le_of_succ_le hk)).step (inv_after hs hguard (Nat.le_of_succ_le hk))
      (hguard k _ he) (hij.trans_le hjk)

/-- **Stale probes.**  In a run whose events are all guarded, a probe never releases a pin that was
set after it began. -/
theorem guarded_keepsNewerPins (buildOutbound : ParsedNode κ → Except Str ω)
    (plan : RuntimePlan κ) (outbounds : AssocMap Str ω) (store : Option Store)
    (reads : Table → Bool) (nowMs : Str → UInt64) (events : List (Event κ))
    (hguard : (start (Runtime.build plan outbounds store reads nowMs)).GuardedRun
      buildOutbound events) :
    (start (Runtime.build plan outbounds store reads nowMs)).KeepsNewerPins
      buildOutbound events := by
  intro i j k group anySuccess commits hij hjk hi hpins hk
  obtain ⟨node, source, now, writes, hnode, hj, htrue⟩ := hpins
  have hstart : (start (Runtime.build plan outbounds store reads nowMs)).Inv events 0 :=
    ⟨rfl, fun _ h => (List.not_mem_nil h).elim, Runtime.build_countersAhead _ _ _ _ _,
      fun _ h => (List.not_mem_nil h).elim⟩
  have hlt : k < events.length := (List.getElem?_eq_some_iff.1 hk).1
  have hset : ((start (Runtime.build plan outbounds store reads nowMs)).after
      buildOutbound events (j + 1)).Outdated i := by
    rw [after_succ _ hj]
    exact (inv_after hstart hguard (hjk.trans hlt).le).outdated_set hi hnode (hguard j _ hj) htrue
  rw [after_succ _ hk]
  exact (outdated_after hstart hguard (hij.trans j.lt_succ_self) hset hjk hlt.le).pin_complete
    anySuccess commits group

/-- A group of a feed and a node. -/
def probedPlan : RuntimePlan Unit where
  feeds := ["f".toList]
  nodes := []
  groups := AssocMap.empty.insert "g".toList
    { choose := .fast, members := ["feed:f".toList, "a".toList] }

/-- A runtime with that group, and no store. -/
def probedRuntime : Runtime Unit Unit :=
  Runtime.build probedPlan AssocMap.empty none (fun _ => true) (fun _ => 0)

/-- A second pin outdates the probe that began under the first. -/
theorem guarded_keepsNewerPins_twice :
    ((start probedRuntime).after (fun _ => .ok ())
      [.setGroupPin "g".toList "a".toList .clashApi 0 true, .beginManualProbe "g".toList,
        .setGroupPin "g".toList "a".toList .clashApi 1 true,
        .completeManualProbe 1 true true] 4).pin "g".toList =
      some ⟨"a".toList, 2, 1, .clashApi⟩ := by
  refine (guarded_keepsNewerPins (fun _ => .ok ()) probedPlan AssocMap.empty none (fun _ => true)
    (fun _ => 0)
    [.setGroupPin "g".toList "a".toList .clashApi 0 true, .beginManualProbe "g".toList,
      .setGroupPin "g".toList "a".toList .clashApi 1 true, .completeManualProbe 1 true true]
    ?_ 1 2 3 "g".toList true true (by decide) (by decide) rfl
    ⟨"a".toList, .clashApi, 1, true, by decide, rfl, by decide +kernel⟩ rfl).trans
    (by decide +kernel)
  -- the counter is at zero before the first pin, and at one before the second
  have hcount : ∀ {r : Runtime Unit Unit} {n : UInt64}, n.toNat + 1 < 2 ^ 64 →
      (r.groups.get? "g".toList).map GroupSelector.pinGeneration = some n →
      ∀ s, r.groups.get? "g".toList = some s → s.pinGeneration.toNat + 1 < 2 ^ 64 := by
    intro r n hn hmap s hs
    rw [hs] at hmap
    cases hmap
    exact hn
  intro k e he
  match k with
  | 0 =>
    cases he
    exact hcount (n := 0) (by decide) (by decide +kernel)
  | 1 =>
    cases he
    trivial
  | 2 =>
    cases he
    exact hcount (n := 1) (by decide) (by decide +kernel)
  | 3 =>
    cases he
    trivial
  | k + 4 => cases he

/-- A counter that starts anew gives the generation of an old token a second time: the pin is set, a
probe begins, the pin is cleared, a feed builds the group anew, the pin is set again, and the probe
releases it. -/
theorem restarted_counter_releases_newer_pin :
    ¬∀ events : List (Event Unit),
      (start probedRuntime).KeepsNewerPins (fun _ => .ok ()) events := by
  intro h
  have hpin := h
    [.setGroupPin "g".toList "a".toList .clashApi 0 true, .beginManualProbe "g".toList,
      .clearGroupPin "g".toList true, .applyFeedNodes "f".toList [],
      .setGroupPin "g".toList "a".toList .clashApi 1 true, .completeManualProbe 1 true true]
    1 4 5 "g".toList true true (by decide) (by decide) rfl
    ⟨"a".toList, .clashApi, 1, true, by decide, rfl, by decide +kernel⟩ rfl
  exact absurd hpin (by decide +kernel)

end Session

end WutherCore.Engine
