import WutherCore.Health.UrlTest

/-!
# When a reused result is that of a probe

At most one call probes at a time, since a probe holds the lock from before the generation is checked
until its result is recorded.  A call that finds the generation changed and the signature its own
returns the result of the probe that has recorded last, in every run in which no other call has
written to the fields it reads meanwhile, and that probe has not measured one of the two delays that
stand for something else (`reach_singleFlight`).
-/

namespace WutherCore.Health

open WutherCore.Data WutherCore.Text

/-- A call has not recorded anything. -/
def Phase.early : Phase → Bool
  | .record _ _ _ => false
  | .unlock _ => false
  | .done _ => false
  | _ => true

namespace Tester

variable (node : Str) (urlError : Option DelayError) (hash : Params → UInt64)

/-- The signature that a call has found to be its own was stored by the call that recorded last, and
that is a probe with the same parameters. -/
def SameProbe (s : Tester) (c : Call) : Prop :=
  ∃ w ∈ s.stats.signatureBy, s.log.getLast? = some w ∧ ∃ other ∈ s.calls[w]?, other.params = c.params

instance (s : Tester) (c : Call) : Decidable (s.SameProbe c) :=
  inferInstanceAs (Decidable (∃ w ∈ s.stats.signatureBy,
    s.log.getLast? = some w ∧ ∃ other ∈ s.calls[w]?, other.params = c.params))

/-- The next access of a call does not go wrong: the signature that it compares, and the fields that
it then reads, are those of one probe, which has not measured `0` or `u32::MAX`. -/
def SafeAt (s : Tester) (c : Call) : Phase → Prop
  | .signature => some s.stats.probeSignature = c.params.map hash → s.SameProbe c
  | .alive true => s.stats.aliveBy = c.source
  | .delay true =>
      s.stats.delayBy = c.source ∧ s.stats.lastDelayMs ≠ 0 ∧ s.stats.lastDelayMs ≠ deadDelay
  | .error true => s.stats.errorBy = c.source
  | _ => True

instance (s : Tester) (c : Call) (phase : Phase) : Decidable (s.SafeAt hash c phase) :=
  match phase with
  | .signature => inferInstanceAs (Decidable (_ → _))
  | .alive true => inferInstanceAs (Decidable (_ = _))
  | .delay true => inferInstanceAs (Decidable (_ ∧ _ ∧ _))
  | .error true => inferInstanceAs (Decidable (_ = _))
  | .alive false => .isTrue trivial
  | .delay false => .isTrue trivial
  | .error false => .isTrue trivial
  | .observe => .isTrue trivial
  | .lock _ => .isTrue trivial
  | .generation _ => .isTrue trivial
  | .due => .isTrue trivial
  | .lookup => .isTrue trivial
  | .permit => .isTrue trivial
  | .probing => .isTrue trivial
  | .record _ _ _ => .isTrue trivial
  | .unlock _ => .isTrue trivial
  | .done _ => .isTrue trivial

/-- A move after which a call returns the result of a probe, if any. -/
def Safe (s : Tester) : Move → Prop
  | .turn i _ => ∀ c ∈ s.calls[i]?, s.SafeAt hash c c.phase
  | _ => True

instance (s : Tester) (move : Move) : Decidable (s.Safe hash move) :=
  match move with
  | .turn i _ => inferInstanceAs (Decidable (∀ c ∈ s.calls[i]?, s.SafeAt hash c c.phase))
  | .testNodeInternal _ _ _ => .isTrue trivial
  | .markRuntimeFailure _ => .isTrue trivial
  | .lookedUp _ _ => .isTrue trivial
  | .permitted _ _ => .isTrue trivial
  | .probed _ _ => .isTrue trivial
  | .cancel _ => .isTrue trivial
  | .requestInterval _ => .isTrue trivial
  | .requestDue _ => .isTrue trivial

/-! ### The invariant -/

/-- A probe with a result and with the parameters of a call, recorded after the call began. -/
def Source (s : Tester) (c : Call) (w : Nat) (result : Except DelayError ProbeTiming) : Prop :=
  (∃ k, c.arrived ≤ k ∧ s.log[k]? = some w) ∧
    ∃ other, s.calls[w]? = some other ∧ other.params = c.params ∧ other.probe = some result

/-- A generation that a call has seen since it began. -/
def Observed (s : Tester) (c : Call) (observed : UInt64) : Prop :=
  ∃ k, c.arrived ≤ k ∧ k ≤ s.log.length ∧ observed = .ofNat k

/-- An outcome may say that a result is reused only where it is. -/
def OutcomeFits (s : Tester) (c : Call) : Outcome → Prop
  | .reused result => s.Reuses c result
  | .notDue _ => c.force = false
  | _ => True

/-- What a call may rely on in its phase. -/
def PhaseFits (s : Tester) (i : Nat) (c : Call) : Phase → Prop
  | .observe => True
  | .lock observed => s.Observed c observed
  | .generation observed => s.stats.probeLock = some i ∧ s.Observed c observed
  | .signature => s.stats.probeLock = some i ∧ c.arrived < s.log.length
  | .due => s.stats.probeLock = some i ∧ c.force = false
  | .alive reuse => s.stats.probeLock = some i ∧
      if reuse then ∃ w result, c.source = some w ∧ s.Source c w result else c.force = false
  | .delay reuse => s.stats.probeLock = some i ∧
      if reuse then ∃ w timing, c.source = some w ∧ s.Source c w (.ok timing) else c.force = false
  | .error reuse => s.stats.probeLock = some i ∧
      if reuse then ∃ w e, c.source = some w ∧ s.Source c w (.error e) else c.force = false
  | .lookup => s.stats.probeLock = some i
  | .permit => s.stats.probeLock = some i
  | .probing => s.stats.probeLock = some i
  | .record r _ _ => c.recorded = some r ∧ (c.params ≠ none → s.stats.probeLock = some i)
  | .unlock outcome => s.stats.probeLock = some i ∧ s.OutcomeFits c outcome
  | .done outcome => s.OutcomeFits c outcome

/-- The invariant of a call. -/
structure CallFits (s : Tester) (i : Nat) (c : Call) : Prop where
  phase : s.PhaseFits i c c.phase
  early : c.phase.early = true → c.probe = none ∧ c.recorded = none
  marks : c.params = none → c.recorded ≠ none ∧ c.probe = none
  records : ∀ r, c.recorded = some r → ∀ params, c.params = some params →
    ∃ result, c.probe = some result ∧ r = probeRecord (hash params) c.interval result
  arrived : c.arrived ≤ s.log.length

/-- A field has what the call that wrote it has recorded. -/
def Tagged (s : Tester) (writer : Option Nat) (P : Record → Prop) : Prop :=
  ∀ w, writer = some w → ∃ other r, s.calls[w]? = some other ∧ other.recorded = some r ∧ P r

/-- The invariant of the tester. -/
structure Inv (s : Tester) : Prop where
  generation : s.stats.probeGeneration = .ofNat s.log.length
  calls : ∀ (i : Nat) c, s.calls[i]? = some c → s.CallFits hash i c
  log : ∀ w ∈ s.log, ∃ other r, s.calls[w]? = some other ∧ other.recorded = some r
  alive : s.Tagged s.stats.aliveBy fun r => s.stats.alive = r.alive
  delay : s.Tagged s.stats.delayBy fun r =>
    s.stats.lastDelayMs = if r.alive then r.timing.delayMs else deadDelay
  error : s.Tagged s.stats.errorBy fun r => s.stats.lastError = r.error

section Turn

variable {hash} {s t : Tester} {i j : Nat} {c q : Call}

/-- What is known about the calls and the log stays known. -/
structure Extends (s t : Tester) : Prop where
  calls : ∀ (w : Nat) other, s.calls[w]? = some other → ∃ other', t.calls[w]? = some other' ∧
    other'.params = other.params ∧ (∀ probe, other.probe = some probe → other'.probe = some probe) ∧
      ∀ r, other.recorded = some r → other'.recorded = some r
  log : s.log <+: t.log

theorem Extends.length_le (h : Extends s t) : s.log.length ≤ t.log.length := h.log.length_le

theorem Extends.get (h : Extends s t) {k w : Nat} (hk : s.log[k]? = some w) : t.log[k]? = some w := by
  obtain ⟨more, hmore⟩ := h.log
  rw [← hmore, List.getElem?_append_left (List.getElem?_eq_some_iff.1 hk).1]
  exact hk

theorem Source.extends {w : Nat} {result : Except DelayError ProbeTiming}
    (h : s.Source c w result) (hext : Extends s t) : t.Source c w result := by
  obtain ⟨⟨k, hk, hlog⟩, other, hother, hparams, hprobe⟩ := h
  obtain ⟨other', hother', hparams', hprobe', -⟩ := hext.calls w other hother
  exact ⟨⟨k, hk, hext.get hlog⟩, other', hother', hparams'.trans hparams, hprobe' _ hprobe⟩

theorem Reuses.extends {result : Except DelayError UInt32} (h : s.Reuses c result)
    (hext : Extends s t) : t.Reuses c result := by
  obtain ⟨k, w, other, probe, hk, hlog, hother, hparams, hprobe, hresult⟩ := h
  obtain ⟨other', hother', hparams', hprobe', -⟩ := hext.calls w other hother
  exact ⟨k, w, other', probe, hk, hext.get hlog, hother', hparams'.trans hparams, hprobe' _ hprobe,
    hresult⟩

theorem Observed.extends {observed : UInt64} (h : s.Observed c observed) (hext : Extends s t) :
    t.Observed c observed := by
  obtain ⟨k, hk, hlog, hobserved⟩ := h
  exact ⟨k, hk, hlog.trans hext.length_le, hobserved⟩

theorem OutcomeFits.extends {outcome : Outcome} (h : s.OutcomeFits c outcome) (hext : Extends s t) :
    t.OutcomeFits c outcome := by
  cases outcome with
  | reused result => exact Reuses.extends h hext
  | notDue result => exact h
  | _ => trivial

/-- What another call relies on stays. -/
theorem PhaseFits.other {phase : Phase} (h : s.PhaseFits j q phase) (hext : Extends s t)
    (hlock : s.stats.probeLock = some j → t.stats.probeLock = some j) : t.PhaseFits j q phase := by
  cases phase with
  | observe => trivial
  | lock observed => exact Observed.extends h hext
  | generation observed => exact ⟨hlock h.1, h.2.extends hext⟩
  | signature => exact ⟨hlock h.1, Nat.lt_of_lt_of_le h.2 hext.length_le⟩
  | due => exact ⟨hlock h.1, h.2⟩
  | alive reuse =>
    refine ⟨hlock h.1, ?_⟩
    cases reuse with
    | false => exact h.2
    | true =>
      obtain ⟨w, result, hw, hsource⟩ := h.2
      exact ⟨w, result, hw, hsource.extends hext⟩
  | delay reuse =>
    refine ⟨hlock h.1, ?_⟩
    cases reuse with
    | false => exact h.2
    | true =>
      obtain ⟨w, timing, hw, hsource⟩ := h.2
      exact ⟨w, timing, hw, hsource.extends hext⟩
  | error reuse =>
    refine ⟨hlock h.1, ?_⟩
    cases reuse with
    | false => exact h.2
    | true =>
      obtain ⟨w, e, hw, hsource⟩ := h.2
      exact ⟨w, e, hw, hsource.extends hext⟩
  | lookup => exact hlock h
  | permit => exact hlock h
  | probing => exact hlock h
  | record r locals next => exact ⟨h.1, fun hparams => hlock (h.2 hparams)⟩
  | unlock outcome => exact ⟨hlock h.1, h.2.extends hext⟩
  | done outcome => exact OutcomeFits.extends h hext

theorem CallFits.other (h : s.CallFits hash j q) (hext : Extends s t)
    (hlock : s.stats.probeLock = some j → t.stats.probeLock = some j) : t.CallFits hash j q where
  phase := h.phase.other hext hlock
  early := h.early
  marks := h.marks
  records := h.records
  arrived := h.arrived.trans hext.length_le

theorem Tagged.extends {writer : Option Nat} {P : Record → Prop} (h : s.Tagged writer P)
    (hext : Extends s t) : t.Tagged writer P := by
  intro w hw
  obtain ⟨other, r, hother, hr, hP⟩ := h w hw
  obtain ⟨other', hother', -, -, hr'⟩ := hext.calls w other hother
  exact ⟨other', r, hother', hr' r hr, hP⟩

theorem extends_set (hi : s.calls[i]? = some c) {c' : Call} (hcalls : t.calls = s.calls.set i c')
    (hlog : s.log <+: t.log) (hparams : c'.params = c.params)
    (hprobe : ∀ probe, c.probe = some probe → c'.probe = some probe)
    (hrecorded : ∀ r, c.recorded = some r → c'.recorded = some r) : Extends s t where
  calls w other hw := by
    have hlt : i < s.calls.length := (List.getElem?_eq_some_iff.1 hi).1
    by_cases hwi : w = i
    · rw [hwi, hi] at hw
      cases hw
      refine ⟨c', ?_, hparams, hprobe, hrecorded⟩
      rw [hcalls, hwi, List.getElem?_set_self hlt]
    · refine ⟨other, ?_, rfl, fun _ h => h, fun _ h => h⟩
      rw [hcalls, List.getElem?_set_ne fun hiw => hwi hiw.symm]
      exact hw
  log := hlog

/-- The fields that are read back, and the generation, are as they were. -/
structure SameFields (a b : NodeUrlStats) : Prop where
  generation : b.probeGeneration = a.probeGeneration
  alive : b.alive = a.alive ∧ b.aliveBy = a.aliveBy
  delay : b.lastDelayMs = a.lastDelayMs ∧ b.delayBy = a.delayBy
  error : b.lastError = a.lastError ∧ b.errorBy = a.errorBy

theorem fits_set (h : s.Inv hash) (hext : Extends s t) {c' : Call}
    (hcalls : t.calls = s.calls.set i c') (hfits : t.CallFits hash i c')
    (hlock : ∀ j, j ≠ i → s.stats.probeLock = some j → t.stats.probeLock = some j) :
    ∀ (j : Nat) q, t.calls[j]? = some q → t.CallFits hash j q := by
  intro j q hj
  rw [hcalls] at hj
  rcases getElem?_set_cases hj with ⟨rfl, rfl⟩ | ⟨hne, hj⟩
  · exact hfits
  · exact (h.calls j q hj).other hext (hlock j hne)

theorem Inv.goto (h : s.Inv hash) (hi : s.calls[i]? = some c) {phase : Phase} {source : Option Nat}
    (hcalls : t.calls = s.calls.set i { c with phase := phase, source := source })
    (hlog : t.log = s.log) (hfields : SameFields s.stats t.stats)
    (hlock : ∀ j, j ≠ i → s.stats.probeLock = some j → t.stats.probeLock = some j)
    (hearly : phase.early = true → c.phase.early = true)
    (hphase : Extends s t → t.PhaseFits i { c with phase := phase, source := source } phase) :
    t.Inv hash := by
  have hext : Extends s t := extends_set hi hcalls (hlog ▸ List.prefix_refl _) rfl (fun _ h => h)
    fun _ h => h
  have hc := h.calls i c hi
  refine ⟨?_, fits_set h hext hcalls ⟨hphase hext, fun he => hc.early (hearly he), hc.marks, hc.records,
    hlog ▸ hc.arrived⟩ hlock, ?_, ?_, ?_, ?_⟩
  · rw [hfields.generation, hlog]
    exact h.generation
  · intro w hw
    obtain ⟨other, r, hother, hr⟩ := h.log w (hlog ▸ hw)
    obtain ⟨other', hother', -, -, hr'⟩ := hext.calls w other hother
    exact ⟨other', r, hother', hr' r hr⟩
  · rw [hfields.alive.1, hfields.alive.2]
    exact h.alive.extends hext
  · rw [hfields.delay.1, hfields.delay.2]
    exact h.delay.extends hext
  · rw [hfields.error.1, hfields.error.2]
    exact h.error.extends hext

theorem Inv.source_record (h : s.Inv hash) {w : Nat}
    {result : Except DelayError ProbeTiming} (hsource : s.Source c w result)
    (hparams : c.params ≠ none) {other : Call} {r : Record} (hother : s.calls[w]? = some other)
    (hr : other.recorded = some r) : ∃ signature interval, r = probeRecord signature interval result := by
  obtain ⟨-, other', hother', hparams', hprobe⟩ := hsource
  rw [hother] at hother'
  cases hother'
  obtain ⟨params, hp⟩ := Option.ne_none_iff_exists'.1 hparams
  obtain ⟨result', hresult, rfl⟩ := (h.calls w other hother).records r hr params (hparams'.trans hp)
  rw [hprobe] at hresult
  cases hresult
  exact ⟨_, _, rfl⟩

theorem CallFits.params_ne_none (h : s.CallFits hash i c) (hearly : c.phase.early = true) :
    c.params ≠ none := fun hnone => (h.marks hnone).1 (h.early hearly).2

theorem Source.reuses {w : Nat} {result : Except DelayError ProbeTiming}
    (h : s.Source c w result) : s.Reuses c (result.map (·.delayMs)) := by
  obtain ⟨⟨k, hk, hlog⟩, other, hother, hparams, hprobe⟩ := h
  exact ⟨k, w, other, result, hk, hlog, hother, hparams, hprobe, rfl⟩

/-- Where the call finds its own signature, that is the one of a probe which has recorded since it
began. -/
theorem Inv.source_of_sameProbe (h : s.Inv hash) (hc : c.params ≠ none)
    (harrived : c.arrived < s.log.length) (hsame : s.SameProbe c) :
    ∃ w result, s.stats.signatureBy = some w ∧ s.Source c w result := by
  obtain ⟨w, hw, hlast, other, hother, hparams⟩ := hsame
  have hlog : s.log[s.log.length - 1]? = some w := by rw [← List.getLast?_eq_getElem?, hlast]
  obtain ⟨other', r, hother', hr⟩ := h.log w (List.mem_of_getElem? hlog)
  rw [show s.calls[w]? = some other from hother] at hother'
  cases hother'
  obtain ⟨params, hp⟩ := Option.ne_none_iff_exists'.1 hc
  obtain ⟨result, hresult, -⟩ := (h.calls w other hother).records r hr params (hparams.trans hp)
  exact ⟨w, result, hw, ⟨s.log.length - 1, by omega, hlog⟩, other, hother, hparams, hresult⟩

theorem phaseFits_afterCheck (c : Call) (hlock : t.stats.probeLock = some i) (q : Call)
    (hforce : q.force = c.force) : t.PhaseFits i q (afterCheck c) := by
  unfold afterCheck
  split_ifs with hc
  · exact hlock
  · exact ⟨hlock, hforce.trans (Bool.eq_false_iff.2 hc)⟩

/-- What an access of `record_timing` does to the fields that are read back. -/
structure Recorded (a b : NodeUrlStats) (i : Nat) (r : Record) : Prop where
  lock : b.probeLock = a.probeLock
  alive : b.alive = a.alive ∧ b.aliveBy = a.aliveBy ∨ b.alive = r.alive ∧ b.aliveBy = some i
  delay : b.lastDelayMs = a.lastDelayMs ∧ b.delayBy = a.delayBy ∨
    (b.lastDelayMs = if r.alive then r.timing.delayMs else deadDelay) ∧ b.delayBy = some i
  error : b.lastError = a.lastError ∧ b.errorBy = a.errorBy ∨
    b.lastError = r.error ∧ b.errorBy = some i

theorem recorded_record (stats : NodeUrlStats) (i : Nat) (now : UInt64) (r : Record) (locals : Locals)
    (next : RecordStep) : Recorded stats (stats.record i now r locals next).1 i r := by
  cases next with
  | alive => exact ⟨rfl, .inr ⟨rfl, rfl⟩, .inl ⟨rfl, rfl⟩, .inl ⟨rfl, rfl⟩⟩
  | lastDelay => exact ⟨rfl, .inl ⟨rfl, rfl⟩, .inr ⟨rfl, rfl⟩, .inl ⟨rfl, rfl⟩⟩
  | lastError => exact ⟨rfl, .inl ⟨rfl, rfl⟩, .inl ⟨rfl, rfl⟩, .inr ⟨rfl, rfl⟩⟩
  | consecutiveFailures =>
    simp only [NodeUrlStats.record]
    split_ifs
    · exact ⟨rfl, .inl ⟨rfl, rfl⟩, .inl ⟨rfl, rfl⟩, .inl ⟨rfl, rfl⟩⟩
    · exact ⟨rfl, .inl ⟨rfl, rfl⟩, .inl ⟨rfl, rfl⟩, .inl ⟨rfl, rfl⟩⟩
  | _ => exact ⟨rfl, .inl ⟨rfl, rfl⟩, .inl ⟨rfl, rfl⟩, .inl ⟨rfl, rfl⟩⟩

theorem generation_record (stats : NodeUrlStats) (i : Nat) (now : UInt64) (r : Record)
    (locals : Locals) (next : RecordStep) : (stats.record i now r locals next).1.probeGeneration =
      if next = .generation then stats.probeGeneration + 1 else stats.probeGeneration := by
  cases next with
  | consecutiveFailures => cases hr : r.alive <;> simp [NodeUrlStats.record, hr]
  | _ => rfl

theorem Tagged.record {writer writer' : Option Nat} {P P' : Record → Prop} {c' : Call} {r : Record}
    (h : s.Tagged writer P) (hext : Extends s t) (hi : t.calls[i]? = some c')
    (hr : c'.recorded = some r)
    (hcases : (writer' = writer ∧ ∀ r, P r → P' r) ∨ (writer' = some i ∧ P' r)) :
    t.Tagged writer' P' := by
  intro w hw
  rcases hcases with ⟨hwriter, hP⟩ | ⟨hwriter, hP⟩
  · obtain ⟨other, r', hother, hr', hP'⟩ := h.extends hext w (hwriter ▸ hw)
    exact ⟨other, r', hother, hr', hP r' hP'⟩
  · rw [hwriter] at hw
    cases hw
    exact ⟨c', r, hi, hr, hP⟩

/-- An access of `record_timing`. -/
theorem Inv.record (h : s.Inv hash) (hi : s.calls[i]? = some c) {r : Record} {locals : Locals}
    {next : RecordStep} {phase : Phase} (hphase : c.phase = .record r locals next)
    (hcalls : t.calls = s.calls.set i { c with phase := phase })
    (hstats : Recorded s.stats t.stats i r) (hlog : t.log = s.log ∨ t.log = s.log ++ [i])
    (hgeneration : t.stats.probeGeneration = .ofNat t.log.length)
    (hearly : phase.early = false) (hfits : t.PhaseFits i { c with phase := phase } phase) :
    t.Inv hash := by
  have hprefix : s.log <+: t.log := by
    rcases hlog with hlog | hlog
    · exact hlog ▸ List.prefix_refl _
    · exact hlog ▸ List.prefix_append _ _
  have hext : Extends s t := extends_set hi hcalls hprefix rfl (fun _ h => h) fun _ h => h
  have hc := h.calls i c hi
  have hr : c.recorded = some r := by
    have := hc.phase
    rw [hphase] at this
    exact this.1
  have hi' : t.calls[i]? = some { c with phase := phase } := by
    rw [hcalls]
    exact List.getElem?_set_self (List.getElem?_eq_some_iff.1 hi).1
  refine ⟨hgeneration, fits_set h hext hcalls ⟨hfits, fun he => ?_, hc.marks, hc.records,
    hc.arrived.trans hext.length_le⟩ (fun j _ hj => hstats.lock.trans hj), fun w hw => ?_, ?_, ?_, ?_⟩
  · rw [show Phase.early phase = true from he] at hearly
    cases hearly
  · have hw' : w ∈ s.log ∨ w = i := by
      rcases hlog with hlog | hlog
      · exact .inl (hlog ▸ hw)
      · rw [hlog] at hw
        exact (List.mem_append.1 hw).imp_right List.mem_singleton.1
    rcases hw' with hw | rfl
    · obtain ⟨other, r', hother, hr'⟩ := h.log w hw
      obtain ⟨other', hother', -, -, hkeep⟩ := hext.calls w other hother
      exact ⟨other', r', hother', hkeep r' hr'⟩
    · exact ⟨_, r, hi', hr⟩
  · refine h.alive.record hext hi' hr (hstats.alive.imp ?_ ?_)
    · exact fun ⟨hsame, hby⟩ => ⟨hby, fun r' hr' => hsame.trans hr'⟩
    · exact fun ⟨hsame, hby⟩ => ⟨hby, hsame⟩
  · refine h.delay.record hext hi' hr (hstats.delay.imp ?_ ?_)
    · exact fun ⟨hsame, hby⟩ => ⟨hby, fun r' hr' => hsame.trans hr'⟩
    · exact fun ⟨hsame, hby⟩ => ⟨hby, hsame⟩
  · refine h.error.record hext hi' hr (hstats.error.imp ?_ ?_)
    · exact fun ⟨hsame, hby⟩ => ⟨hby, fun r' hr' => hsame.trans hr'⟩
    · exact fun ⟨hsame, hby⟩ => ⟨hby, hsame⟩

theorem phaseFits_recorded (hc : s.CallFits hash i c) {r : Record} {locals : Locals}
    {next : RecordStep} (hphase : c.phase = .record r locals next)
    (hlock : t.stats.probeLock = s.stats.probeLock) (q : Call) : t.PhaseFits i q
      (match c.probe with
        | some result => .unlock (.probed (result.map (·.delayMs)))
        | none => .done .marked) := by
  have hrecord := hc.phase
  rw [hphase] at hrecord
  cases hprobe : c.probe with
  | none => trivial
  | some result =>
    refine ⟨hlock.trans (hrecord.2 fun hnone => ?_), trivial⟩
    rw [(hc.marks hnone).2] at hprobe
    cases hprobe

/-- **An access that does not go wrong keeps the invariant.** -/
theorem Inv.advance (h : s.Inv hash) (hi : s.calls[i]? = some c) (hsafe : s.SafeAt hash c c.phase)
    {now : UInt64} (hstep : s.advance hash i now c = some t) : t.Inv hash := by
  have hc := h.calls i c hi
  have hfits := hc.phase
  have hkeep (j : Nat) (_ : j ≠ i) (hj : s.stats.probeLock = some j) :
      s.stats.probeLock = some j := hj
  unfold Tester.advance at hstep
  cases hphase : c.phase with
  | observe =>
    rw [hphase] at hstep hfits
    cases hstep
    refine h.goto hi rfl rfl ⟨rfl, ⟨rfl, rfl⟩, ⟨rfl, rfl⟩, ⟨rfl, rfl⟩⟩ hkeep (fun _ => by rw [hphase]; rfl)
      fun _ => ?_
    exact ⟨s.log.length, hc.arrived, Nat.le_refl _, h.generation⟩
  | lock observed =>
    rw [hphase] at hstep hfits
    simp only at hstep
    split_ifs at hstep with hfree
    cases hstep
    refine h.goto hi rfl rfl ⟨rfl, ⟨rfl, rfl⟩, ⟨rfl, rfl⟩, ⟨rfl, rfl⟩⟩ (fun j _ hj => ?_)
      (fun _ => by rw [hphase]; rfl) fun hext => ⟨rfl, Observed.extends hfits hext⟩
    rw [hfree] at hj
    cases hj
  | generation observed =>
    rw [hphase] at hstep hfits
    cases hstep
    refine h.goto hi rfl rfl ⟨rfl, ⟨rfl, rfl⟩, ⟨rfl, rfl⟩, ⟨rfl, rfl⟩⟩ hkeep (fun _ => by rw [hphase]; rfl)
      fun _ => ?_
    split_ifs with hchanged
    · refine ⟨hfits.1, ?_⟩
      obtain ⟨k, hk, hle, hobserved⟩ := hfits.2
      have hne : k ≠ s.log.length := by
        rintro rfl
        exact hchanged (h.generation.trans hobserved.symm)
      show c.arrived < s.log.length
      omega
    · exact phaseFits_afterCheck (t := s.goto i c _) c hfits.1 _ rfl
  | signature =>
    rw [hphase] at hstep hfits hsafe
    simp only at hstep
    split_ifs at hstep with hmine <;> cases hstep
    · obtain ⟨w, result, hw, hsource⟩ := h.source_of_sameProbe
        (hc.params_ne_none (by rw [hphase]; rfl)) hfits.2 (hsafe hmine)
      refine h.goto hi rfl rfl ⟨rfl, ⟨rfl, rfl⟩, ⟨rfl, rfl⟩, ⟨rfl, rfl⟩⟩ hkeep
        (fun _ => by rw [hphase]; rfl) fun hext => ?_
      exact ⟨hfits.1, w, result, hw, Source.extends hsource hext⟩
    · refine h.goto hi rfl rfl ⟨rfl, ⟨rfl, rfl⟩, ⟨rfl, rfl⟩, ⟨rfl, rfl⟩⟩ hkeep
        (fun _ => by rw [hphase]; rfl) fun _ => ?_
      exact phaseFits_afterCheck (t := s.goto i c _) c hfits.1 _ rfl
  | due =>
    rw [hphase] at hstep hfits
    cases hstep
    refine h.goto hi rfl rfl ⟨rfl, ⟨rfl, rfl⟩, ⟨rfl, rfl⟩, ⟨rfl, rfl⟩⟩ hkeep (fun _ => by rw [hphase]; rfl)
      fun _ => ?_
    split_ifs
    · exact hfits.1
    · exact hfits
  | alive reuse =>
    rw [hphase] at hstep hfits hsafe
    cases hstep
    have hparams := hc.params_ne_none (by rw [hphase]; rfl)
    cases reuse with
    | false =>
      refine h.goto hi rfl rfl ⟨rfl, ⟨rfl, rfl⟩, ⟨rfl, rfl⟩, ⟨rfl, rfl⟩⟩ hkeep
        (fun _ => by rw [hphase]; rfl) fun _ => ?_
      split_ifs
      · exact hfits
      · exact hfits
    | true =>
      -- the flag is the one that the probe has recorded
      obtain ⟨hlock, w, result, hw, hsource⟩ := hfits
      obtain ⟨other, r, hother, hr, halive⟩ := h.alive w (hsafe.trans hw)
      obtain ⟨signature, interval, rfl⟩ := h.source_record hsource hparams hother hr
      refine h.goto hi rfl rfl ⟨rfl, ⟨rfl, rfl⟩, ⟨rfl, rfl⟩, ⟨rfl, rfl⟩⟩ hkeep
        (fun _ => by rw [hphase]; rfl) fun hext => ?_
      cases result with
      | ok timing =>
        rw [show s.stats.alive = true from halive, if_pos rfl] at hext ⊢
        exact ⟨hlock, w, timing, hw, Source.extends hsource hext⟩
      | error e =>
        rw [show s.stats.alive = false from halive, if_neg Bool.false_ne_true] at hext ⊢
        exact ⟨hlock, w, e, hw, Source.extends hsource hext⟩
  | delay reuse =>
    rw [hphase] at hstep hfits hsafe
    cases hstep
    have hparams := hc.params_ne_none (by rw [hphase]; rfl)
    cases reuse with
    | false =>
      refine h.goto hi rfl rfl ⟨rfl, ⟨rfl, rfl⟩, ⟨rfl, rfl⟩, ⟨rfl, rfl⟩⟩ hkeep
        (fun _ => by rw [hphase]; rfl) fun _ => ?_
      split_ifs
      · exact hfits
      · exact hfits
    | true =>
      obtain ⟨hlock, w, timing, hw, hsource⟩ := hfits
      obtain ⟨hby, hvalid⟩ := hsafe
      obtain ⟨other, r, hother, hr, hdelay⟩ := h.delay w (hby.trans hw)
      obtain ⟨signature, interval, rfl⟩ := h.source_record hsource hparams hother hr
      refine h.goto hi rfl rfl ⟨rfl, ⟨rfl, rfl⟩, ⟨rfl, rfl⟩, ⟨rfl, rfl⟩⟩ hkeep
        (fun _ => by rw [hphase]; rfl) fun hext => ?_
      rw [if_pos hvalid, show s.stats.lastDelayMs = timing.delayMs from hdelay] at hext ⊢
      exact ⟨hlock, (Source.extends hsource hext).reuses⟩
  | error reuse =>
    rw [hphase] at hstep hfits hsafe
    cases hstep
    have hparams := hc.params_ne_none (by rw [hphase]; rfl)
    cases reuse with
    | false =>
      refine h.goto hi rfl rfl ⟨rfl, ⟨rfl, rfl⟩, ⟨rfl, rfl⟩, ⟨rfl, rfl⟩⟩ hkeep
        (fun he => by cases he) fun _ => hfits
    | true =>
      obtain ⟨hlock, w, e, hw, hsource⟩ := hfits
      obtain ⟨other, r, hother, hr, herror⟩ := h.error w (hsafe.trans hw)
      obtain ⟨signature, interval, rfl⟩ := h.source_record hsource hparams hother hr
      refine h.goto hi rfl rfl ⟨rfl, ⟨rfl, rfl⟩, ⟨rfl, rfl⟩, ⟨rfl, rfl⟩⟩ hkeep
        (fun he => by cases he) fun hext => ?_
      rw [show s.stats.lastError = some e from herror] at hext ⊢
      exact ⟨hlock, (Source.extends hsource hext).reuses⟩
  | record r locals next =>
    rw [hphase] at hstep hfits
    have hrecorded := recorded_record s.stats i now r locals next
    have hgeneration := generation_record s.stats i now r locals next
    cases hnext : next.next with
    | some after =>
      simp only [hnext] at hstep
      cases hstep
      have hne : next ≠ .generation := by
        rintro rfl
        cases hnext
      rw [if_neg hne] at hgeneration
      refine h.record hi hphase rfl hrecorded (.inl rfl) (hgeneration.trans h.generation) rfl ?_
      exact ⟨hfits.1, fun hparams => hrecorded.lock.trans (hfits.2 hparams)⟩
    | none =>
      simp only [hnext] at hstep
      cases hstep
      have heq : next = .generation := by
        cases next <;> first | rfl | cases hnext
      rw [if_pos heq, h.generation] at hgeneration
      refine h.record hi hphase rfl hrecorded (.inr rfl) (hgeneration.trans ?_) ?_
        (phaseFits_recorded hc hphase hrecorded.lock _)
      · show UInt64.ofNat s.log.length + 1 = UInt64.ofNat (s.log ++ [i]).length
        rw [List.length_append, List.length_singleton, UInt64.ofNat_add]
        rfl
      · cases c.probe <;> rfl
  | unlock outcome =>
    rw [hphase] at hstep hfits
    cases hstep
    refine h.goto hi rfl rfl ⟨rfl, ⟨rfl, rfl⟩, ⟨rfl, rfl⟩, ⟨rfl, rfl⟩⟩ (fun j hj hlock => ?_)
      (fun he => by cases he) fun hext => OutcomeFits.extends hfits.2 hext
    rw [hfits.1] at hlock
    exact absurd (Option.some.inj hlock).symm hj
  | lookup =>
    rw [hphase] at hstep
    cases hstep
  | permit =>
    rw [hphase] at hstep
    cases hstep
  | probing =>
    rw [hphase] at hstep
    cases hstep
  | done outcome =>
    rw [hphase] at hstep
    cases hstep

theorem Inv.event (h : s.Inv hash) (hi : s.calls[i]? = some c) {phase : Phase}
    (hearly : phase.early = true → c.phase.early = true) (hfits : s.PhaseFits i c phase) :
    (s.goto i c phase).Inv hash := by
  refine h.goto hi rfl rfl ⟨rfl, ⟨rfl, rfl⟩, ⟨rfl, rfl⟩, ⟨rfl, rfl⟩⟩ (fun _ _ hj => hj) hearly fun hext => ?_
  have hother := hfits.other hext id
  cases phase <;> exact hother

theorem Inv.lookedUp (h : s.Inv hash) (hi : s.calls[i]? = some c) {found : Bool}
    (hstep : s.lookedUp node i found c = some t) : t.Inv hash := by
  have hfits := (h.calls i c hi).phase
  unfold Tester.lookedUp at hstep
  split_ifs at hstep with hphase hfound <;> cases hstep <;> rw [hphase] at hfits
  · exact h.event hi (fun _ => by rw [hphase]; rfl) hfits
  · exact h.event hi (fun _ => by rw [hphase]; rfl) ⟨hfits, trivial⟩

theorem Inv.permitted (h : s.Inv hash) (hi : s.calls[i]? = some c) {granted : Bool}
    (hstep : s.permitted i granted c = some t) : t.Inv hash := by
  have hfits := (h.calls i c hi).phase
  unfold Tester.permitted at hstep
  split_ifs at hstep with hphase hgranted <;> cases hstep <;> rw [hphase] at hfits
  · exact h.event hi (fun _ => by rw [hphase]; rfl) hfits
  · exact h.event hi (fun _ => by rw [hphase]; rfl) ⟨hfits, trivial⟩

theorem Inv.cancel (h : s.Inv hash) (hi : s.calls[i]? = some c) (hstep : s.cancel i c = some t) :
    t.Inv hash := by
  have hfits := (h.calls i c hi).phase
  unfold Tester.cancel at hstep
  cases hphase : c.phase with
  | lock observed =>
    rw [hphase] at hstep
    cases hstep
    exact h.event hi (fun he => by cases he) trivial
  | permit =>
    rw [hphase] at hstep hfits
    cases hstep
    exact h.event hi (fun he => by cases he) ⟨hfits, trivial⟩
  | probing =>
    rw [hphase] at hstep hfits
    cases hstep
    exact h.event hi (fun he => by cases he) ⟨hfits, trivial⟩
  | _ =>
    rw [hphase] at hstep
    cases hstep

/-- A probe ends. -/
theorem Inv.probed (h : s.Inv hash) (hi : s.calls[i]? = some c)
    {result : Except DelayError ProbeTiming} (hstep : s.probed hash i result c = some t) :
    t.Inv hash := by
  have hc := h.calls i c hi
  unfold Tester.probed at hstep
  split at hstep
  next params hphase hparams =>
    cases hstep
    have hlock := hc.phase
    rw [hphase] at hlock
    obtain ⟨hprobe, hrecorded⟩ := hc.early (by rw [hphase]; rfl)
    have hext : Extends s (s.goto i { c with
        probe := some result, recorded := some (probeRecord (hash params) c.interval result) }
          (.record (probeRecord (hash params) c.interval result) {} .alive)) := by
      refine extends_set hi rfl (List.prefix_refl _) rfl (fun probe hp => ?_) fun r hr => ?_
      · rw [hprobe] at hp
        cases hp
      · rw [hrecorded] at hr
        cases hr
    refine ⟨h.generation, fits_set h hext rfl ⟨⟨rfl, fun _ => hlock⟩, (fun he => by cases he),
      fun hnone => ?_, fun r hr p hp => ?_, hc.arrived⟩ (fun _ _ hj => hj), fun w hw => ?_, h.alive.extends hext,
      h.delay.extends hext, h.error.extends hext⟩
    · rw [show c.params = none from hnone] at hparams
      cases hparams
    · rw [show c.params = some p from hp] at hparams
      cases hparams
      cases hr
      exact ⟨result, rfl, rfl⟩
    · obtain ⟨other, r, hother, hr⟩ := h.log w hw
      obtain ⟨other', hother', -, -, hr'⟩ := hext.calls w other hother
      exact ⟨other', r, hother', hr' r hr⟩
  next => cases hstep

theorem Inv.begin (h : s.Inv hash) (hc : s.CallFits hash s.calls.length c) : (s.begin c).Inv hash := by
  have hext : Extends s (s.begin c) := by
    refine ⟨fun w other hw => ⟨other, ?_, rfl, fun _ h => h, fun _ h => h⟩, List.prefix_refl _⟩
    show (s.calls ++ [c])[w]? = some other
    rw [List.getElem?_append_left (List.getElem?_eq_some_iff.1 hw).1]
    exact hw
  refine ⟨h.generation, fun j q hj => ?_, fun w hw => ?_, h.alive.extends hext, h.delay.extends hext,
    h.error.extends hext⟩
  · rcases getElem?_snoc_cases hj with hj | ⟨rfl, rfl⟩
    · exact (h.calls j q hj).other hext id
    · exact hc.other hext id
  · obtain ⟨other, r, hother, hr⟩ := h.log w hw
    obtain ⟨other', hother', -, -, hr'⟩ := hext.calls w other hother
    exact ⟨other', r, hother', hr' r hr⟩

theorem Inv.withStats (h : s.Inv hash) {stats : NodeUrlStats} (hfields : SameFields s.stats stats)
    (hlock : stats.probeLock = s.stats.probeLock) : ({ s with stats := stats } : Tester).Inv hash := by
  have hext : Extends s { s with stats := stats } :=
    ⟨fun w other hw => ⟨other, hw, rfl, fun _ h => h, fun _ h => h⟩, List.prefix_refl _⟩
  refine ⟨hfields.generation.trans h.generation,
    fun j q hj => (h.calls j q hj).other hext hlock.trans, h.log, ?_, ?_, ?_⟩
  · show Tagged _ stats.aliveBy fun r => stats.alive = r.alive
    rw [hfields.alive.1, hfields.alive.2]
    exact h.alive.extends hext
  · show Tagged _ stats.delayBy fun r =>
      stats.lastDelayMs = if r.alive then r.timing.delayMs else deadDelay
    rw [hfields.delay.1, hfields.delay.2]
    exact h.delay.extends hext
  · show Tagged _ stats.errorBy fun r => stats.lastError = r.error
    rw [hfields.error.1, hfields.error.2]
    exact h.error.extends hext

/-- **Every move that does not go wrong keeps the invariant.** -/
theorem Inv.step (h : s.Inv hash) {move : Move} (hsafe : s.Safe hash move)
    (hstep : s.step node urlError hash move = some t) : t.Inv hash := by
  cases move with
  | testNodeInternal params interval force =>
    cases hstep
    refine h.begin ⟨?_, fun _ => ⟨rfl, rfl⟩, (fun hnone => by cases hnone), (fun r hr => by cases hr),
      Nat.le_refl _⟩
    cases urlError <;> trivial
  | markRuntimeFailure reason =>
    cases hstep
    exact h.begin ⟨⟨rfl, fun hne => absurd rfl hne⟩, (fun he => by cases he),
      fun _ => ⟨(fun hnone => by cases hnone), rfl⟩, (fun _ _ _ hp => by cases hp), Nat.le_refl _⟩
  | turn i now =>
    obtain ⟨c, hi, hstep⟩ := Option.bind_eq_some_iff.1 hstep
    exact h.advance hi (hsafe c hi) hstep
  | lookedUp i found =>
    obtain ⟨c, hi, hstep⟩ := Option.bind_eq_some_iff.1 hstep
    exact h.lookedUp node hi hstep
  | permitted i granted =>
    obtain ⟨c, hi, hstep⟩ := Option.bind_eq_some_iff.1 hstep
    exact h.permitted hi hstep
  | probed i result =>
    obtain ⟨c, hi, hstep⟩ := Option.bind_eq_some_iff.1 hstep
    exact h.probed hi hstep
  | cancel i =>
    obtain ⟨c, hi, hstep⟩ := Option.bind_eq_some_iff.1 hstep
    exact h.cancel hi hstep
  | requestInterval intervalMs =>
    cases hstep
    exact h.withStats ⟨rfl, ⟨rfl, rfl⟩, ⟨rfl, rfl⟩, ⟨rfl, rfl⟩⟩ rfl
  | requestDue dueMs =>
    cases hstep
    exact h.withStats ⟨rfl, ⟨rfl, rfl⟩, ⟨rfl, rfl⟩, ⟨rfl, rfl⟩⟩ rfl

end Turn

theorem inv_empty : ({} : Tester).Inv hash where
  generation := rfl
  calls _ _ hi := by cases hi
  log _ hw := by cases hw
  alive _ hw := by cases hw
  delay _ hw := by cases hw
  error _ hw := by cases hw

theorem Inv.singleFlight {s : Tester} (h : s.Inv hash) : s.SingleFlight where
  oneProbe i j ci cj hi hj hpi hpj := by
    have hfi := (h.calls i ci hi).phase
    have hfj := (h.calls j cj hj).phase
    rw [hpi] at hfi
    rw [hpj] at hfj
    exact Option.some.inj (hfi.symm.trans hfj)
  reuses c hc result hphase := by
    obtain ⟨i, hi⟩ := List.getElem?_of_mem hc
    have hfits := (h.calls i c hi).phase
    rw [hphase] at hfits
    exact hfits
  forced c hc hforce result hphase := by
    obtain ⟨i, hi⟩ := List.getElem?_of_mem hc
    have hfits := (h.calls i c hi).phase
    rw [hphase] at hfits
    rw [show c.force = false from hfits] at hforce
    cases hforce

/-- **In every run that does not go wrong, at most one call probes at a time, and what a call reuses is
the result of such a probe.** -/
theorem reach_singleFlight {s : Tester}
    (h : Reach (Tester.step node urlError hash) (Tester.Safe hash) {} s) : s.SingleFlight :=
  (h.inv (fun _ _ _ hinv hsafe hstep => hinv.step node urlError hsafe hstep)
    (inv_empty hash)).singleFlight hash

/-! ### A call that waits for a probe -/

/-- The parameters of both calls. -/
def sampleParams : Params := ⟨5000000000, [], false⟩

/-- A signature for each number of seconds. -/
def sampleHash (params : Params) : UInt64 := .ofNat (params.limit / 1000000000)

/-- The next accesses of a call. -/
def turns (call count : Nat) : List Move := .replicate count (.turn call 0)

/-- A call probes with a result, and another one waits for it. -/
def waitFor (result : Except DelayError ProbeTiming) : List Move :=
  List.flatten [[.testNodeInternal sampleParams 60000000000 true], turns 0 3,
    [.lookedUp 0 true, .permitted 0 true, .testNodeInternal sampleParams 60000000000 true], turns 1 1,
    [.probed 0 result], turns 0 11]

/-- The second call reuses the 20 milliseconds of the first. -/
theorem reach_singleFlight_waiting :
    ∃ s, runMoves (onlyOk (Tester.step [] none sampleHash) (Tester.Safe sampleHash)) {}
      (waitFor (.ok { delayMs := 20 }) ++ turns 1 6) = some s ∧
        s.calls.map (·.phase) = [.done (.probed (.ok 20)), .done (.reused (.ok 20))] ∧
          s.SingleFlight := by
  have hrun : (runMoves (onlyOk (Tester.step [] none sampleHash) (Tester.Safe sampleHash)) {}
      (waitFor (.ok { delayMs := 20 }) ++ turns 1 6)).any (fun s =>
        decide (s.calls.map (·.phase) =
          [.done (.probed (.ok 20)), .done (.reused (.ok 20))])) = true := by
    decide +kernel
  obtain ⟨s, hs, hdone⟩ := (Option.any_eq_true _ _).1 hrun
  exact ⟨s, hs, of_decide_eq_true hdone, reach_singleFlight [] none sampleHash (reach_of_onlyOk hs)⟩

theorem not_reuses {s : Tester} {c other : Call} {w : Nat} {probe : Except DelayError ProbeTiming}
    {result : Except DelayError UInt32} (hlog : s.log = [w]) (hother : s.calls[w]? = some other)
    (hprobe : other.probe = some probe) (hne : result ≠ probe.map (·.delayMs)) :
    ¬s.Reuses c result := by
  rintro ⟨k, w', other', probe', -, hk, hother', -, hprobe', hresult⟩
  rw [hlog] at hk
  cases List.mem_singleton.1 (List.mem_of_getElem? hk)
  rw [hother] at hother'
  cases hother'
  rw [hprobe] at hprobe'
  cases hprobe'
  exact hne hresult

/-- A call returns a result that no probe has given. -/
def Disagrees (s : Tester) : Prop :=
  ∃ c ∈ s.calls, ∃ result, c.force = true ∧ c.phase = .done (.reused result) ∧ ¬s.Reuses c result

/-- The second call reuses a probe of no milliseconds as a timeout; or it reuses a failure that
`mark_runtime_failure` has recorded in part. -/
theorem reused_not_probed :
    (∃ s, Reach (Tester.step [] none sampleHash) anyMove {} s ∧ s.Disagrees) ∧
      ∃ s, Reach (Tester.step [] none sampleHash) anyMove {} s ∧ s.Disagrees := by
  constructor
  · have hrun : (runMoves (Tester.step [] none sampleHash) {}
        (waitFor (.ok {}) ++ turns 1 7)).any (fun s => decide (s.log = [0] ∧
          (∃ other ∈ s.calls[0]?, other.probe = some (.ok {})) ∧
            ∃ c ∈ s.calls, c.force = true ∧ c.phase = .done (.reused (.error .timeout)))) = true := by
      decide +kernel
    obtain ⟨s, hs, hdone⟩ := (Option.any_eq_true _ _).1 hrun
    obtain ⟨hlog, ⟨other, hother, hprobe⟩, c, hc, hforce, hphase⟩ := of_decide_eq_true hdone
    exact ⟨s, reach_of_runMoves hs, c, hc, _, hforce, hphase,
      not_reuses hlog hother hprobe (by decide)⟩
  · have hrun : (runMoves (Tester.step [] none sampleHash) {} (waitFor (.ok { delayMs := 20 }) ++
        [.markRuntimeFailure []] ++ turns 2 7 ++ turns 1 6)).any (fun s => decide (s.log = [0] ∧
          (∃ other ∈ s.calls[0]?, other.probe = some (.ok { delayMs := 20 })) ∧
            ∃ c ∈ s.calls, c.force = true ∧ c.phase = .done (.reused (.error (.dial []))))) = true := by
      decide +kernel
    obtain ⟨s, hs, hdone⟩ := (Option.any_eq_true _ _).1 hrun
    obtain ⟨hlog, ⟨other, hother, hprobe⟩, c, hc, hforce, hphase⟩ := of_decide_eq_true hdone
    exact ⟨s, reach_of_runMoves hs, c, hc, _, hforce, hphase,
      not_reuses hlog hother hprobe (by decide)⟩

end Tester

end WutherCore.Health
