import WutherCore.Xhttp.Xmux

/-!
# The invariant of the XMUX connection pool

The invariant has three parts: what the counters of an entry are (`Tally`), what a call may rely on
in its phase (`Fits`), and the accounts of the pool itself (`Inv`).  Only the call that holds the
lock relies on the vector and on the counters that grow; what the others rely on stays when an
entry gets older (`Later`).  The accesses that need no lock keep the invariant (`Inv.outside`).
-/

namespace WutherCore.Xhttp.Xmux

open WutherCore.Data

/-- The entry exists and satisfies a predicate. -/
def At (heap : List Entry) (e : Nat) (P : Entry → Prop) : Prop :=
  ∃ entry, heap[e]? = some entry ∧ P entry

/-- What does not change about an entry once it is retired. -/
def Later (a b : Entry) : Prop :=
  a.retired = true → b.retired = true ∧ (a.running = 0 → b.running = 0)

/-- A change that no lock is needed for. -/
structure Calm (a b : Entry) : Prop where
  retired : b.retired = a.retired
  leftUsage : b.leftUsage = a.leftUsage
  running : b.running ≤ a.running
  idle : a.running = 0 → b.running = 0

/-- All entries of a heap are still there, changed in a certain way. -/
def Heap (R : Entry → Entry → Prop) (heap heap' : List Entry) : Prop :=
  ∀ (e : Nat) a, heap[e]? = some a → ∃ b, heap'[e]? = some b ∧ R a b

theorem Later.refl (a : Entry) : Later a a := fun h => ⟨h, id⟩

theorem Calm.refl (a : Entry) : Calm a a := ⟨rfl, rfl, Int.le_refl _, id⟩

theorem Calm.later {a b : Entry} (h : Calm a b) : Later a b := fun ha => ⟨h.retired ▸ ha, h.idle⟩

theorem Heap.refl {R : Entry → Entry → Prop} (hR : ∀ a, R a a) (heap : List Entry) :
    Heap R heap heap := fun _ a h => ⟨a, h, hR a⟩

theorem Heap.snoc {R : Entry → Entry → Prop} (hR : ∀ a, R a a) (heap : List Entry) (b : Entry) :
    Heap R heap (heap ++ [b]) := fun _ a h =>
  ⟨a, by rw [List.getElem?_append_left (List.getElem?_eq_some_iff.1 h).1, h], hR a⟩

theorem getElem?_modify_of {heap : List Entry} {e n : Nat} {a : Entry} (f : Entry → Entry)
    (h : heap[n]? = some a) : (heap.modify e f)[n]? = some (if e = n then f a else a) := by
  rw [List.getElem?_modify, h]
  split_ifs <;> rfl

theorem exists_of_getElem?_modify {heap : List Entry} {e n : Nat} {f : Entry → Entry} {b : Entry}
    (h : (heap.modify e f)[n]? = some b) :
    ∃ a, heap[n]? = some a ∧ b = if e = n then f a else a := by
  rw [List.getElem?_modify] at h
  obtain ⟨a, ha, rfl⟩ := Option.map_eq_some_iff.1 h
  refine ⟨a, ha, ?_⟩
  split_ifs <;> rfl

theorem Heap.modify {R : Entry → Entry → Prop} (hR : ∀ a, R a a) {heap : List Entry} {e : Nat}
    {f : Entry → Entry} (hf : ∀ a, heap[e]? = some a → R a (f a)) : Heap R heap (heap.modify e f) := by
  intro n a h
  refine ⟨_, getElem?_modify_of f h, ?_⟩
  split_ifs with hn
  · exact hf a (hn ▸ h)
  · exact hR a

theorem Heap.mono {R S : Entry → Entry → Prop} (hRS : ∀ {a b}, R a b → S a b)
    {heap heap' : List Entry} (h : Heap R heap heap') : Heap S heap heap' := by
  intro e a ha
  obtain ⟨b, hb, hR⟩ := h e a ha
  exact ⟨b, hb, hRS hR⟩

theorem At.change {R : Entry → Entry → Prop} {heap heap' : List Entry} {e : Nat}
    {P Q : Entry → Prop} (h : At heap e P) (hheap : Heap R heap heap')
    (hPQ : ∀ a b, R a b → P a → Q b) : At heap' e Q := by
  obtain ⟨a, ha, hP⟩ := h
  obtain ⟨b, hb, hR⟩ := hheap e a ha
  exact ⟨b, hb, hPQ a b hR hP⟩

/-- The entry is retired. -/
def Entry.Retired (entry : Entry) : Prop := entry.retired = true

/-- The entry is retired and out of use. -/
def Entry.Idle (entry : Entry) : Prop := entry.retired = true ∧ entry.running = 0

theorem At.retired {heap heap' : List Entry} {e : Nat} (h : At heap e Entry.Retired)
    (hheap : Heap Later heap heap') : At heap' e Entry.Retired :=
  h.change hheap fun _ _ hR hP => (hR hP).1

theorem At.idle {heap heap' : List Entry} {e : Nat} (h : At heap e Entry.Idle)
    (hheap : Heap Later heap heap') : At heap' e Entry.Idle :=
  h.change hheap fun _ _ hR hP => ⟨(hR hP.1).1, (hR hP.1).2 hP.2⟩

/-! ### The counters of an entry -/

/-- The counters of an entry, with its leases in use, all its leases, those being dropped, the
requests granted, and the calls that retire it. -/
structure Tally (limits : XmuxLimits) (live leased dropping served retiring : Nat)
    (entry : Entry) : Prop where
  running : entry.running = live
  concurrency : 0 < limits.maxConcurrency → entry.running ≤ limits.maxConcurrency
  usage : 0 < entry.reuseTimes → leased + entry.leftUsage = entry.reuseTimes ∧ 0 ≤ entry.leftUsage
  atMost : entry.requestTimes ≤ maxI64
  requests : 0 < entry.requestTimes → entry.requestTimes ≠ maxI64 →
    served + entry.leftRequests = entry.requestTimes ∧ 0 ≤ entry.leftRequests
  unlimited : ¬(0 < entry.requestTimes ∧ entry.requestTimes ≠ maxI64) → entry.leftRequests = maxI64
  closedOnly : entry.poolClosed = true → entry.retired = true ∧ live = 0
  covered : entry.retired = true → live = 0 → entry.poolClosed = true ∨ 0 < dropping + retiring

/-- An entry that was not pooled yet. -/
def Fresh (limits : XmuxLimits) (entry : Entry) : Prop := Tally limits 1 1 0 0 0 entry ∧
  entry.retired = false

section Tally

variable {limits : XmuxLimits} {live leased dropping served retiring : Nat} {entry : Entry}

theorem fresh_create (reuseTimes requestTimes : Int64) (unreusableAt : Option Nat) :
    Fresh limits (.create reuseTimes requestTimes unreusableAt) := by
  have hmax : requestTimes.toInt < 2 ^ 63 := Int64.toInt_lt requestTimes
  refine ⟨⟨rfl, fun h => ?_, fun h => ?_, ?_, fun h hne => ?_, fun h => ?_, fun h => ?_, fun h => ?_⟩,
    rfl⟩
  · simp only [Entry.create]
    omega
  · simp only [Entry.create] at h ⊢
    rw [if_pos h]
    omega
  · simp only [Entry.create, maxI64]
    omega
  · simp only [Entry.create] at h hne ⊢
    rw [if_pos h]
    omega
  · simp only [Entry.create, maxI64] at h ⊢
    split_ifs <;> omega
  · cases h
  · cases h

theorem Tally.lease (h : Tally limits live leased dropping served retiring entry)
    (husage : entry.leftUsage ≠ 0) (hretired : entry.retired = false)
    (hroom : 0 < limits.maxConcurrency → entry.running < limits.maxConcurrency) :
    Tally limits (live + 1) (leased + 1) dropping served retiring entry.lease where
  running := by
    have := h.running
    simp only [Entry.lease]
    omega
  concurrency hc := by
    have := hroom hc
    simp only [Entry.lease]
    omega
  usage hr := by
    have := h.usage hr
    simp only [Entry.lease]
    rw [if_pos (by omega)]
    omega
  atMost := h.atMost
  requests := h.requests
  unlimited := h.unlimited
  closedOnly hclosed := by
    rw [(h.closedOnly hclosed).1] at hretired
    cases hretired
  covered hret := by
    rw [show entry.retired = true from hret] at hretired
    cases hretired

theorem Tally.unlease (h : Tally limits (live + 1) leased dropping served retiring entry) :
    Tally limits live leased (dropping + 1) served retiring entry.unlease where
  running := by
    have := h.running
    simp only [Entry.unlease]
    omega
  concurrency hc := by
    have := h.concurrency hc
    simp only [Entry.unlease]
    omega
  usage := h.usage
  atMost := h.atMost
  requests := h.requests
  unlimited := h.unlimited
  closedOnly hclosed := absurd (h.closedOnly hclosed).2 (Nat.succ_ne_zero live)
  covered _ _ := .inr (by omega)

theorem Tally.close (h : Tally limits live leased dropping served retiring entry)
    (hidle : entry.Idle) (dropping' retiring' : Nat) :
    Tally limits live leased dropping' served retiring' entry.close where
  running := h.running
  concurrency := h.concurrency
  usage := h.usage
  atMost := h.atMost
  requests := h.requests
  unlimited := h.unlimited
  closedOnly _ := by
    have := h.running
    rw [hidle.2] at this
    exact ⟨hidle.1, by omega⟩
  covered _ _ := .inl rfl

theorem Tally.setRetired (h : Tally limits live leased dropping served retiring entry) :
    Tally limits live leased dropping served (retiring + 1) entry.setRetired where
  running := h.running
  concurrency := h.concurrency
  usage := h.usage
  atMost := h.atMost
  requests := h.requests
  unlimited := h.unlimited
  closedOnly hclosed := ⟨rfl, (h.closedOnly hclosed).2⟩
  covered _ _ := .inr (by omega)

theorem Tally.serve (h : Tally limits live leased dropping served retiring entry)
    (hpos : 0 < entry.leftRequests) (hmax : entry.leftRequests ≠ maxI64) :
    Tally limits live leased dropping (served + 1) retiring entry.serve where
  running := h.running
  concurrency := h.concurrency
  usage := h.usage
  atMost := h.atMost
  requests hr hne := by
    have := h.requests hr hne
    simp only [Entry.serve] at this ⊢
    omega
  unlimited hun := absurd (h.unlimited hun) hmax
  closedOnly := h.closedOnly
  covered := h.covered

theorem Tally.serve_unlimited (h : Tally limits live leased dropping served retiring entry)
    (hmax : entry.leftRequests = maxI64) (served' : Nat) :
    Tally limits live leased dropping served' retiring entry where
  running := h.running
  concurrency := h.concurrency
  usage := h.usage
  atMost := h.atMost
  requests hr hne := by
    have := h.requests hr hne
    have := h.atMost
    omega
  unlimited := h.unlimited
  closedOnly := h.closedOnly
  covered := h.covered

theorem Tally.cover (h : Tally limits live leased dropping served retiring entry)
    {dropping' retiring' : Nat} (hcover : entry.retired = true → live = 0 →
      0 < dropping + retiring → 0 < dropping' + retiring') :
    Tally limits live leased dropping' served retiring' entry :=
  { h with covered := fun hret hlive => (h.covered hret hlive).imp_right (hcover hret hlive) }

theorem Tally.connectionClosed (h : Tally limits live leased dropping served retiring entry) :
    Tally limits live leased dropping served retiring { entry with closed := true } :=
  ⟨h.running, h.concurrency, h.usage, h.atMost, h.requests, h.unlimited, h.closedOnly, h.covered⟩

end Tally

/-! ### The invariant -/

/-- What a lease in this phase knows about its entry. -/
def LeasePhase.Knows : LeasePhase → Entry → Prop
  | .checkRunning => Entry.Retired
  | .shut => Entry.Idle
  | _ => fun _ => True

/-- A lease has an entry, of which it knows what its phase says. -/
def Lease.Fits (heap : List Entry) (lease : Lease) : Prop := At heap lease.entry lease.phase.Knows

/-- A request has an entry, and a number that it may count down. -/
def Request.Fits (heap : List Entry) (request : Request) : Prop :=
  At heap request.entry (fun _ => True) ∧
    ∀ current, request.phase = .exchange current → 0 < current ∧ current ≠ maxI64

/-- The entry that a sweep will pool is a new one. -/
def After.Fits (limits : XmuxLimits) : After → Prop
  | .choose => True
  | .pool entry => Fresh limits entry

namespace Manager

variable (limits : XmuxLimits) (s : Manager)

/-- The leases of an entry that are being dropped. -/
def dropping (e : Nat) : Nat := s.leases.countP (Lease.dropping e)

/-- The calls that are retiring an entry. -/
def retiring (e : Nat) : Nat := s.calls.countP (Phase.retiring e)

/-- The counters of the entry are what they count. -/
def Tallied (e : Nat) (entry : Entry) : Prop :=
  Tally limits (s.live e) (s.leased e) (s.dropping e) (s.served e) (s.retiring e) entry

/-- The entries that the sweep has kept may be leased once more. -/
def Usable : Prop := ∀ e ∈ s.entries, At s.heap e fun entry => entry.leftUsage ≠ 0

/-- There is room for one more connection. -/
def Room : Prop :=
  0 < limits.maxConnections → ((s.entries.length + s.creating : Nat) : Int) < limits.maxConnections

end Manager

/-- What a call may rely on in its phase. -/
def Fits (limits : XmuxLimits) (s : Manager) (i : Nat) : Phase → Prop
  | .start after => after.Fits limits
  | .wait _ after => after.Fits limits
  | .sweep _ after => s.lock = some i ∧ s.Usable ∧ after.Fits limits
  | .retire e _ after => s.lock = some i ∧ s.Usable ∧ after.Fits limits ∧ At s.heap e Entry.Retired
  | .shut e _ after => s.lock = some i ∧ s.Usable ∧ after.Fits limits ∧ At s.heap e Entry.Idle
  | .decide => s.lock = some i ∧ s.Usable ∧ s.todo = []
  | .filter mayCreate =>
      s.lock = some i ∧ s.Usable ∧ s.todo = [] ∧ (mayCreate = true → s.Room limits)
  | .grant e =>
      s.lock = some i ∧ s.todo = [] ∧ e ∈ s.entries ∧ At s.heap e fun entry =>
        entry.leftUsage ≠ 0 ∧ (0 < limits.maxConcurrency → entry.running < limits.maxConcurrency)
  | .reserve => s.lock = some i ∧ s.todo = [] ∧ s.Room limits
  | _ => True

/-- The call has reserved a slot that it has not given back. -/
def Phase.holdsSlot (phase : Phase) : Bool := phase.creation || phase == .release

theorem countP_holdsSlot (calls : List Phase) :
    calls.countP Phase.holdsSlot = calls.countP Phase.creation + calls.countP (· == .release) := by
  induction calls with
  | nil => rfl
  | cons phase calls ih =>
    rw [List.countP_cons, List.countP_cons, List.countP_cons, ih]
    by_cases hrelease : phase = .release
    · rw [hrelease]
      simp [Phase.holdsSlot, Phase.creation, Nat.add_assoc]
    · have hne : (phase == .release) = false := beq_false_of_ne hrelease
      simp only [Phase.holdsSlot, hne, Bool.or_false, Bool.false_eq_true, if_false]
      omega

/-- The invariant of the pool. -/
structure Inv (limits : XmuxLimits) (s : Manager) : Prop where
  heap : ∀ (e : Nat) entry, s.heap[e]? = some entry → s.Tallied limits e entry
  pooled : ∀ e ∈ s.entries ++ s.todo, At s.heap e fun entry => entry.retired = false
  nodup : (s.entries ++ s.todo).Nodup
  idle : s.lock = none → s.todo = []
  leases : ∀ lease ∈ s.leases, lease.Fits s.heap
  requests : ∀ request ∈ s.requests, request.Fits s.heap
  calls : ∀ (i : Nat) phase, s.calls[i]? = some phase → Fits limits s i phase
  slots : s.creating = s.calls.countP Phase.holdsSlot
  room : 0 < limits.maxConnections →
    ((s.entries.length + s.todo.length + s.creations : Nat) : Int) ≤ limits.maxConnections

section Steps

variable {limits : XmuxLimits} {s t : Manager} {i : Nat} {phase : Phase}

theorem Lease.Fits.later {heap heap' : List Entry} {lease : Lease} (h : lease.Fits heap)
    (hheap : Heap Later heap heap') : lease.Fits heap' := by
  rcases lease with ⟨e, phase⟩
  cases phase with
  | checkRunning => exact At.retired h hheap
  | shut => exact At.idle h hheap
  | _ => exact At.change h hheap fun _ _ _ _ => trivial

theorem Request.Fits.change {heap heap' : List Entry} {R : Entry → Entry → Prop} {request : Request}
    (h : request.Fits heap) (hheap : Heap R heap heap') : request.Fits heap' :=
  ⟨h.1.change hheap fun _ _ _ _ => trivial, h.2⟩

theorem Fits.other (h : Fits limits s i phase) (hlock : s.lock ≠ some i) : Fits limits t i phase := by
  cases phase with
  | start after => exact h
  | wait now after => exact h
  | sweep now after => exact absurd h.1 hlock
  | retire e now after => exact absurd h.1 hlock
  | shut e now after => exact absurd h.1 hlock
  | decide => exact absurd h.1 hlock
  | filter mayCreate => exact absurd h.1 hlock
  | grant e => exact absurd h.1 hlock
  | reserve => exact absurd h.1 hlock
  | _ => trivial

/-- A change that needs no lock keeps what the calls rely on. -/
theorem Fits.calm (h : Fits limits s i phase) (hheap : Heap Calm s.heap t.heap)
    (hlock : t.lock = s.lock) (hentries : t.entries = s.entries) (htodo : t.todo = s.todo)
    (hcreating : t.creating ≤ s.creating) : Fits limits t i phase := by
  have hlater := hheap.mono Calm.later
  have husable (h : s.Usable) : t.Usable := by
    intro e he
    rw [hentries] at he
    exact (h e he).change hheap fun a b hab ha => hab.leftUsage ▸ ha
  have hroom (h : s.Room limits) : t.Room limits := by
    intro hmax
    have := h hmax
    rw [hentries]
    omega
  cases phase with
  | start after => exact h
  | wait now after => exact h
  | sweep now after => exact ⟨hlock.trans h.1, husable h.2.1, h.2.2⟩
  | retire e now after =>
    exact ⟨hlock.trans h.1, husable h.2.1, h.2.2.1, h.2.2.2.retired hlater⟩
  | shut e now after => exact ⟨hlock.trans h.1, husable h.2.1, h.2.2.1, h.2.2.2.idle hlater⟩
  | decide => exact ⟨hlock.trans h.1, husable h.2.1, htodo.trans h.2.2⟩
  | filter mayCreate =>
    exact ⟨hlock.trans h.1, husable h.2.1, htodo.trans h.2.2.1, fun hc => hroom (h.2.2.2 hc)⟩
  | grant e =>
    obtain ⟨hl, ht, he, hentry⟩ := h
    refine ⟨hlock.trans hl, htodo.trans ht, hentries ▸ he, hentry.change hheap ?_⟩
    intro a b hab ha
    refine ⟨hab.leftUsage ▸ ha.1, fun hmax => ?_⟩
    have := ha.2 hmax
    have := hab.running
    omega
  | reserve => exact ⟨hlock.trans h.1, htodo.trans h.2.1, hroom h.2.2⟩
  | _ => trivial

/-- A step outside the calls: the vector and the lock stay, the heap changes calmly. -/
theorem Inv.outside (h : Inv limits s) (hheap : Heap Calm s.heap t.heap) (hcalls : t.calls = s.calls)
    (hlock : t.lock = s.lock) (hentries : t.entries = s.entries) (htodo : t.todo = s.todo)
    (hcreating : t.creating = s.creating)
    (htally : ∀ (e : Nat) entry, t.heap[e]? = some entry → t.Tallied limits e entry)
    (hleases : ∀ lease ∈ t.leases, lease.Fits t.heap)
    (hrequests : ∀ request ∈ t.requests, request.Fits t.heap) : Inv limits t where
  heap := htally
  pooled := by
    rw [hentries, htodo]
    exact fun e he => (h.pooled e he).change hheap fun a b hab ha => hab.retired.trans ha
  nodup := by
    rw [hentries, htodo]
    exact h.nodup
  idle := by
    rw [hlock, htodo]
    exact h.idle
  leases := hleases
  requests := hrequests
  calls := by
    rw [hcalls]
    exact fun i phase hi => (h.calls i phase hi).calm hheap hlock hentries htodo (Nat.le_of_eq hcreating)
  slots := by
    rw [hcalls, hcreating]
    exact h.slots
  room := by
    rw [Manager.creations, hcalls, hentries, htodo]
    exact h.room

/-- One lease goes on, and its entry may change. -/
theorem Inv.setLease (h : Inv limits s) {l e : Nat} {before : LeasePhase} (after : LeasePhase)
    (hl : s.leases[l]? = some ⟨e, before⟩) (f : Entry → Entry)
    (hcalm : ∀ a, s.heap[e]? = some a → Calm a (f a))
    (htally : ∀ a live dropping, s.heap[e]? = some a → s.Tallied limits e a →
      live + (if before = .live then 1 else 0) = s.live e + (if after = .live then 1 else 0) →
      dropping + (if before = .live ∨ before = .gone then 0 else 1) =
        s.dropping e + (if after = .live ∨ after = .gone then 0 else 1) →
      Tally limits live (s.leased e) dropping (s.served e) (s.retiring e) (f a))
    (hfits : Lease.Fits (s.heap.modify e f) ⟨e, after⟩) :
    Inv limits { s with heap := s.heap.modify e f, leases := s.leases.set l ⟨e, after⟩ } := by
  have hheap := Heap.modify Calm.refl hcalm
  have hleased (n : Nat) : (s.leases.set l ⟨e, after⟩).countP (·.entry == n) = s.leased n :=
    countP_set_of_eq hl rfl
  refine h.outside hheap rfl rfl rfl rfl rfl ?_ ?_ ?_
  · intro n b hb
    obtain ⟨a, ha, rfl⟩ := exists_of_getElem?_modify hb
    unfold Manager.Tallied Manager.leased
    rw [hleased]
    by_cases hn : e = n
    · cases hn
      rw [if_pos rfl]
      apply htally a _ _ ha (h.heap e a ha)
      · have := countP_set_add hl ⟨e, after⟩ (Lease.live e)
        simpa [Lease.live, Manager.live] using this
      · have := countP_set_add hl ⟨e, after⟩ (Lease.dropping e)
        cases before <;> cases after <;> simpa [Lease.dropping, Manager.dropping] using this
    · rw [if_neg hn]
      have hne : (e == n) = false := beq_false_of_ne hn
      have hlive : (s.leases.set l ⟨e, after⟩).countP (Lease.live n) = s.live n :=
        countP_set_of_eq hl (by simp [Lease.live, hne])
      have hdropping : (s.leases.set l ⟨e, after⟩).countP (Lease.dropping n) = s.dropping n :=
        countP_set_of_eq hl (by simp [Lease.dropping, hne])
      have htally := h.heap n a ha
      unfold Manager.live Manager.dropping
      rw [hlive, hdropping]
      exact htally
  · intro lease hlease
    rcases List.mem_or_eq_of_mem_set hlease with hlease | rfl
    · exact (h.leases lease hlease).later (hheap.mono Calm.later)
    · exact hfits
  · exact fun request hrequest => (h.requests request hrequest).change hheap

theorem Inv.running_pos (h : Inv limits s) {l e : Nat} (hl : s.leases[l]? = some ⟨e, .live⟩)
    {a : Entry} (ha : s.heap[e]? = some a) : 0 < a.running := by
  have hpos : 0 < s.live e :=
    List.countP_pos_iff.2 ⟨_, List.mem_of_getElem? hl, by simp [Lease.live]⟩
  have := (h.heap e a ha).running
  omega

theorem Inv.drop (h : Inv limits s) {l e : Nat} (hl : s.leases[l]? = some ⟨e, .live⟩) :
    Inv limits { s.update e .unlease with leases := s.leases.set l ⟨e, .checkRetired⟩ } := by
  have hcalm (a : Entry) (ha : s.heap[e]? = some a) : Calm a a.unlease := by
    have hpos := h.running_pos hl ha
    refine ⟨rfl, rfl, ?_, fun hzero => ?_⟩
    · simp only [Entry.unlease]
      omega
    · omega
  refine h.setLease _ hl .unlease hcalm ?_ ?_
  · intro a live dropping ha htally hlive hdropping
    have hlive : live + 1 = s.live e := hlive
    have hdropping : dropping = s.dropping e + 1 := hdropping
    unfold Manager.Tallied at htally
    rw [← hlive] at htally
    rw [hdropping]
    exact htally.unlease
  · exact (h.leases _ (List.mem_of_getElem? hl)).change (Heap.modify Calm.refl hcalm)
      fun _ _ _ _ => trivial

/-- The next access of a lease drop. -/
theorem Inv.dropTurn (h : Inv limits s) {l : Nat} {lease : Lease} (hl : s.leases[l]? = some lease)
    (hstep : s.dropTurn l lease = some t) : Inv limits t := by
  rcases lease with ⟨e, phase⟩
  obtain ⟨entry, hentry, hstep⟩ := Option.bind_eq_some_iff.1 hstep
  have hfits := h.leases _ (List.mem_of_getElem? hl)
  have hsame : s.heap.modify e id = s.heap := List.modify_id ..
  have hself (a : Entry) (_ : s.heap[e]? = some a) : Calm a (id a) := Calm.refl a
  cases phase with
  | live => cases hstep
  | gone => cases hstep
  | checkRetired =>
    simp only at hstep
    split_ifs at hstep with hretired
    · cases hstep
      have := h.setLease .checkRunning hl id hself ?_ ?_
      · rwa [hsame] at this
      · intro a live dropping ha htally hlive hdropping
        cases hlive
        cases hdropping
        exact htally
      · rw [hsame]
        exact ⟨entry, hentry, hretired⟩
    · cases hstep
      have := h.setLease .gone hl id hself ?_ ?_
      · rwa [hsame] at this
      · intro a live dropping ha htally hlive hdropping
        rw [hentry] at ha
        cases ha
        cases hlive
        exact htally.cover fun hret => absurd hret hretired
      · rw [hsame]
        exact ⟨entry, hentry, trivial⟩
  | checkRunning =>
    simp only at hstep
    obtain ⟨entry', hentry', hretired⟩ := hfits
    rw [hentry] at hentry'
    cases hentry'
    have hrunning := (h.heap e entry hentry).running
    split_ifs at hstep with hzero
    · cases hstep
      have := h.setLease .shut hl id hself ?_ ?_
      · rwa [hsame] at this
      · intro a live dropping ha htally hlive hdropping
        cases hlive
        cases hdropping
        exact htally
      · rw [hsame]
        exact ⟨entry, hentry, hretired, by omega⟩
    · cases hstep
      have := h.setLease .gone hl id hself ?_ ?_
      · rwa [hsame] at this
      · intro a live dropping ha htally hlive hdropping
        cases hlive
        -- the entry is in use: its last lease will see to it
        exact htally.cover fun _ hlive => by omega
      · rw [hsame]
        exact ⟨entry, hentry, trivial⟩
  | shut =>
    cases hstep
    have hcalm (a : Entry) (_ : s.heap[e]? = some a) : Calm a a.close :=
      ⟨rfl, rfl, Int.le_refl _, id⟩
    refine h.setLease .gone hl .close hcalm ?_ ?_
    · intro a live dropping ha htally hlive hdropping
      cases hlive
      obtain ⟨a', ha', hidle⟩ := hfits
      rw [ha] at ha'
      cases ha'
      exact htally.close hidle _ _
    · exact At.change hfits (Heap.modify Calm.refl hcalm) fun _ _ _ _ => trivial

theorem Inv.consume (h : Inv limits s) {l e : Nat} (hl : s.leases[l]? = some ⟨e, .live⟩) :
    Inv limits { s with requests := s.requests ++ [⟨e, .check⟩] } := by
  refine h.outside (Heap.refl Calm.refl _) rfl rfl rfl rfl rfl ?_ h.leases ?_
  · intro n a ha
    have hserved : (s.requests ++ [(⟨e, .check⟩ : Request)]).countP (Request.served n) =
        s.served n := by
      rw [countP_snoc]
      simp [Request.served, Manager.served]
    unfold Manager.Tallied Manager.served
    rw [hserved]
    exact h.heap n a ha
  · intro request hrequest
    rcases List.mem_append.1 hrequest with hrequest | hrequest
    · exact h.requests request hrequest
    · rw [List.mem_singleton.1 hrequest]
      exact ⟨At.change (h.leases _ (List.mem_of_getElem? hl)) (Heap.refl Calm.refl _)
        fun _ _ _ _ => trivial, fun current hc => by cases hc⟩

/-- One request goes on, and its entry may change. -/
theorem Inv.setRequest (h : Inv limits s) {r e : Nat} {before : RequestPhase} (after : RequestPhase)
    (hr : s.requests[r]? = some ⟨e, before⟩) (f : Entry → Entry)
    (hcalm : ∀ a, s.heap[e]? = some a → Calm a (f a)) (hbefore : ∀ b, before ≠ .done b)
    (htally : ∀ a, s.heap[e]? = some a → s.Tallied limits e a →
      Tally limits (s.live e) (s.leased e) (s.dropping e)
        (s.served e + if after = .done true then 1 else 0) (s.retiring e) (f a))
    (hafter : ∀ current, after = .exchange current → 0 < current ∧ current ≠ maxI64) :
    Inv limits { s with heap := s.heap.modify e f, requests := s.requests.set r ⟨e, after⟩ } := by
  have hheap := Heap.modify Calm.refl hcalm
  have hdone : (before == .done true) = false := beq_false_of_ne (hbefore true)
  refine h.outside hheap rfl rfl rfl rfl rfl ?_ ?_ ?_
  · intro n b hb
    obtain ⟨a, ha, rfl⟩ := exists_of_getElem?_modify hb
    have hserved := countP_set_add hr ⟨e, after⟩ (Request.served n)
    unfold Manager.Tallied Manager.served
    by_cases hn : e = n
    · cases hn
      have hserved : (s.requests.set r ⟨e, after⟩).countP (Request.served e) =
          s.served e + if after = .done true then 1 else 0 := by
        simpa [Request.served, hdone, Manager.served] using hserved
      rw [if_pos rfl, hserved]
      exact htally a ha (h.heap e a ha)
    · have hne : (e == n) = false := beq_false_of_ne hn
      have hserved : (s.requests.set r ⟨e, after⟩).countP (Request.served n) = s.served n :=
        countP_set_of_eq hr (by simp [Request.served, hne])
      rw [if_neg hn, hserved]
      exact h.heap n a ha
  · exact fun lease hlease => (h.leases lease hlease).later (hheap.mono Calm.later)
  · intro request hrequest
    rcases List.mem_or_eq_of_mem_set hrequest with hrequest | rfl
    · exact (h.requests request hrequest).change hheap
    · exact ⟨(h.requests _ (List.mem_of_getElem? hr)).1.change hheap fun _ _ _ _ => trivial, hafter⟩

/-- The next access of a `consume_request` call. -/
theorem Inv.requestTurn (h : Inv limits s) {r : Nat} {request : Request}
    (hr : s.requests[r]? = some request) (hstep : s.requestTurn r request = some t) :
    Inv limits t := by
  rcases request with ⟨e, phase⟩
  obtain ⟨entry, hentry, hstep⟩ := Option.bind_eq_some_iff.1 hstep
  have hsame : s.heap.modify e id = s.heap := List.modify_id ..
  have hself (a : Entry) (_ : s.heap[e]? = some a) : Calm a (id a) := Calm.refl a
  -- a phase that grants nothing
  have hgoto (after : RequestPhase) (hbefore : ∀ b, phase ≠ .done b) (hafter : after ≠ .done true)
      (hexchange : ∀ current, after = .exchange current → 0 < current ∧ current ≠ maxI64) :
      Inv limits { s with requests := s.requests.set r ⟨e, after⟩ } := by
    have := h.setRequest _ hr id hself hbefore ?_ hexchange
    · rwa [hsame] at this
    · intro a ha htally
      rw [if_neg hafter]
      exact htally
  cases phase with
  | done result => cases hstep
  | check =>
    simp only at hstep
    split_ifs at hstep <;> cases hstep
    · exact hgoto _ (fun _ h => by cases h) (fun h => by cases h) fun _ h => by cases h
    · exact hgoto _ (fun _ h => by cases h) (fun h => by cases h) fun _ h => by cases h
  | load =>
    simp only at hstep
    split_ifs at hstep with hmax hle <;> cases hstep
    · -- no limit
      have := h.setRequest (.done true) hr id hself (fun _ h => by cases h) ?_
        (fun _ h => by cases h)
      · rwa [hsame] at this
      · intro a ha htally
        rw [hentry] at ha
        cases ha
        exact Tally.serve_unlimited htally hmax _
    · exact hgoto _ (fun _ h => by cases h) (fun h => by cases h) fun _ h => by cases h
    · refine hgoto _ (fun _ h => by cases h) (fun h => by cases h) fun current h => ?_
      cases h
      exact ⟨by omega, hmax⟩
  | exchange current =>
    simp only at hstep
    split_ifs at hstep with heq <;> cases hstep
    · obtain ⟨hpos, hmax⟩ := (h.requests _ (List.mem_of_getElem? hr)).2 current rfl
      refine h.setRequest (.done true) hr .serve
        (fun a _ => ⟨rfl, rfl, Int.le_refl _, id⟩) (fun _ h => by cases h) ?_
        fun _ h => by cases h
      intro a ha htally
      rw [hentry] at ha
      cases ha
      rw [if_pos rfl]
      exact Tally.serve htally (heq ▸ hpos) (heq ▸ hmax)
    · exact hgoto _ (fun _ h => by cases h) (fun h => by cases h) fun _ h => by cases h

theorem Inv.connectionClosed (h : Inv limits s) (e : Nat) :
    Inv limits (s.update e fun entry => { entry with closed := true }) := by
  have hcalm : Heap Calm s.heap (s.heap.modify e fun entry => { entry with closed := true }) :=
    Heap.modify Calm.refl fun a _ => ⟨rfl, rfl, Int.le_refl _, id⟩
  refine h.outside hcalm rfl rfl rfl rfl rfl ?_
    (fun lease hlease => (h.leases lease hlease).later (hcalm.mono Calm.later))
    fun request hrequest => (h.requests request hrequest).change hcalm
  intro n b hb
  obtain ⟨a, ha, rfl⟩ := exists_of_getElem?_modify hb
  have htally := h.heap n a ha
  split_ifs
  · exact Tally.connectionClosed htally
  · exact htally

theorem Inv.tick (h : Inv limits s) (nanos : Nat) :
    Inv limits { s with clock := s.clock + nanos } :=
  h.outside (Heap.refl Calm.refl _) rfl rfl rfl rfl rfl h.heap h.leases h.requests

end Steps

end WutherCore.Xhttp.Xmux
