import WutherCore.Xhttp.XmuxInv

/-!
# The XMUX connection pool keeps its limits

The accesses of an `acquire` call keep the invariant, one lemma for each phase.  So all runs from
an empty pool keep the limits (`pool_sound`), with one exception: a sampled number of requests of
`i64::MAX` is no limit, as is one that is not positive (`limits_not_kept`).
-/

namespace WutherCore.Xhttp.Xmux

open WutherCore.Data

section Steps

variable {limits : XmuxLimits} {s t : Manager} {i : Nat} {phase : Phase}

/-- A call goes on with a phase and nothing else changes. -/
theorem Inv.goto (h : Inv limits s) {next : Phase} (hi : s.calls[i]? = some phase)
    (hfits : Fits limits s i next)
    (hslot : next.holdsSlot = phase.holdsSlot)
    (hcreation : next.creation = true → phase.creation = true)
    (hretiring : ∀ e, phase.retiring e = true → next.retiring e = true ∨ s.live e ≠ 0) :
    Inv limits (s.goto i next) where
  heap := by
    intro e entry he
    refine (h.heap e entry he).cover fun _ hlive hcover => ?_
    have := countP_set_add hi next (Phase.retiring e)
    change 0 < s.dropping e + (s.calls.set i next).countP (Phase.retiring e)
    by_cases hphase : phase.retiring e = true
    · have hnext := (hretiring e hphase).resolve_right fun hne => hne hlive
      rw [if_pos hphase, if_pos hnext] at this
      unfold Manager.retiring at hcover
      omega
    · rw [if_neg hphase] at this
      unfold Manager.retiring at hcover
      omega
  pooled := h.pooled
  nodup := h.nodup
  idle := h.idle
  leases := h.leases
  requests := h.requests
  calls := by
    intro j q hj
    rcases getElem?_set_cases hj with ⟨rfl, rfl⟩ | ⟨-, hj⟩
    · exact hfits
    · exact h.calls j q hj
  slots := h.slots.trans (countP_set_of_eq hi hslot).symm
  room := by
    intro hmax
    have hc := countP_set_add hi next Phase.creation
    have hroom := h.room hmax
    change ((s.entries.length + s.todo.length + (s.calls.set i next).countP Phase.creation : Nat) :
      Int) ≤ limits.maxConnections
    unfold Manager.creations at hroom
    by_cases hnext : next.creation = true
    · rw [if_pos hnext, if_pos (hcreation hnext)] at hc
      omega
    · rw [if_neg hnext] at hc
      omega

theorem fits_set {calls : List Phase} {next : Phase} (hfits : Fits limits t i next)
    (hothers : ∀ (j : Nat) q, j ≠ i → calls[j]? = some q → Fits limits t j q) :
    ∀ (j : Nat) q, (calls.set i next)[j]? = some q → Fits limits t j q := by
  intro j q hj
  rcases getElem?_set_cases hj with ⟨rfl, rfl⟩ | ⟨hne, hj⟩
  · exact hfits
  · exact hothers j q hne hj

theorem Inv.others (h : Inv limits s) (hlock : s.lock = none ∨ s.lock = some i) :
    ∀ (j : Nat) q, j ≠ i → s.calls[j]? = some q → Fits limits t j q := by
  intro j q hne hj
  apply (h.calls j q hj).other
  rcases hlock with hlock | hlock
  · rw [hlock]
    exact fun h => by cases h
  · rw [hlock]
    exact fun h => hne (Option.some.inj h).symm

theorem retiring_set (hi : s.calls[i]? = some phase) (next : Phase) {e : Nat}
    (h : next.retiring e = phase.retiring e) :
    (s.calls.set i next).countP (Phase.retiring e) = s.retiring e := countP_set_of_eq hi h

theorem creation_set (hi : s.calls[i]? = some phase) (next : Phase)
    (h : next.creation = phase.creation) :
    (s.calls.set i next).countP Phase.creation = s.creations := countP_set_of_eq hi h

theorem Inv.tally_set (h : Inv limits s) (hi : s.calls[i]? = some phase) (next : Phase) {e : Nat}
    {entry : Entry} (he : s.heap[e]? = some entry) (hret : next.retiring e = phase.retiring e) :
    Tally limits (s.live e) (s.leased e) (s.dropping e) (s.served e)
      ((s.calls.set i next).countP (Phase.retiring e)) entry := by
  rw [retiring_set hi next hret]
  exact h.heap e entry he

theorem Inv.room_set (h : Inv limits s) (hi : s.calls[i]? = some phase) (next : Phase)
    (hcreation : next.creation = phase.creation) {pooled : Nat}
    (hpooled : pooled ≤ s.entries.length + s.todo.length) : 0 < limits.maxConnections →
    ((pooled + (s.calls.set i next).countP Phase.creation : Nat) : Int) ≤ limits.maxConnections := by
  intro hmax
  have := h.room hmax
  rw [creation_set hi next hcreation]
  omega

theorem Inv.slots_set (h : Inv limits s) (hi : s.calls[i]? = some phase) (next : Phase)
    (hslot : next.holdsSlot = phase.holdsSlot) :
    s.creating = (s.calls.set i next).countP Phase.holdsSlot :=
  h.slots.trans (countP_set_of_eq hi hslot).symm

theorem Inv.lock (h : Inv limits s) {now : Nat} {after : After}
    (hi : s.calls[i]? = some (.wait now after)) (hfree : s.lock = none) :
    Inv limits { s.goto i (.sweep now after) with
      lock := some i, todo := s.entries, entries := [] } where
  heap e entry he := h.tally_set hi (.sweep now after) he rfl
  pooled e he := h.pooled e (List.mem_append_left _ he)
  nodup := (List.nodup_append.1 h.nodup).1
  idle := fun h => by cases h
  leases := h.leases
  requests := h.requests
  calls := by
    refine fits_set ?_ (h.others (.inl hfree))
    exact ⟨rfl, fun e he => absurd he List.not_mem_nil, h.calls i _ hi⟩
  slots := h.slots_set hi (.sweep now after) (by cases after <;> rfl)
  room := h.room_set hi (.sweep now after) (by cases after <;> rfl) (by simp)

/-- The sweep keeps an entry that is not stale. -/
theorem Inv.keep (h : Inv limits s) {now e : Nat} {after : After} {todo : List Nat} {entry : Entry}
    (hi : s.calls[i]? = some (.sweep now after)) (htodo : s.todo = e :: todo)
    (he : s.heap[e]? = some entry) (hstale : entry.stale now = false) :
    Inv limits { s with todo := todo, entries := s.entries ++ [e] } where
  heap := h.heap
  pooled := by
    have := h.pooled
    rw [htodo] at this
    simpa [List.append_assoc] using this
  nodup := by
    have := h.nodup
    rw [htodo] at this
    simpa [List.append_assoc] using this
  idle := by
    intro hfree
    have := h.idle hfree
    rw [htodo] at this
    cases this
  leases := h.leases
  requests := h.requests
  calls := by
    obtain ⟨hlock, husable, hafter⟩ := h.calls i _ hi
    have husage : entry.leftUsage ≠ 0 := by
      intro hzero
      simp [Entry.stale, hzero] at hstale
    intro j q hj
    by_cases hne : j = i
    · cases hne
      rw [hi] at hj
      cases hj
      refine ⟨hlock, fun n hn => ?_, hafter⟩
      rcases List.mem_append.1 hn with hn | hn
      · exact husable n hn
      · rw [List.mem_singleton.1 hn]
        exact ⟨entry, he, husage⟩
    · exact h.others (.inr hlock) j q hne hj
  slots := h.slots
  room hmax := by
    have hroom := h.room hmax
    rw [htodo] at hroom
    simp only [List.length_append, List.length_cons, List.length_nil] at hroom ⊢
    unfold Manager.creations at hroom ⊢
    simp only
    omega

/-- The sweep takes a stale entry out and marks it as retired. -/
theorem Inv.sweepRetire (h : Inv limits s) {now e : Nat} {after : After} {todo : List Nat}
    (hi : s.calls[i]? = some (.sweep now after)) (htodo : s.todo = e :: todo) :
    Inv limits { (s.update e .setRetired).goto i (.retire e now after) with todo := todo } := by
  have hlater : Heap Later s.heap (s.heap.modify e .setRetired) :=
    Heap.modify Later.refl fun a _ _ => ⟨rfl, id⟩
  obtain ⟨hlock, husable, hafter⟩ := h.calls i _ hi
  have hnodup := h.nodup
  rw [htodo, List.perm_middle.nodup_iff, List.nodup_cons] at hnodup
  have hpooled := h.pooled
  rw [htodo] at hpooled
  refine ⟨?_, ?_, hnodup.2, ?_, fun lease hlease => (h.leases lease hlease).later hlater,
    fun request hrequest => (h.requests request hrequest).change hlater, ?_, ?_, ?_⟩
  · intro n b hb
    obtain ⟨a, ha, rfl⟩ := exists_of_getElem?_modify hb
    have htally := h.heap n a ha
    by_cases hn : e = n
    · cases hn
      have hretiring : (s.calls.set i (.retire e now after)).countP (Phase.retiring e) =
          s.retiring e + 1 := by
        have := countP_set_add hi (.retire e now after) (Phase.retiring e)
        simpa [Phase.retiring, Manager.retiring] using this
      have htally := Tally.setRetired htally
      rw [← hretiring] at htally
      rw [if_pos rfl]
      exact htally
    · rw [if_neg hn]
      exact h.tally_set hi (.retire e now after) ha (by simp [Phase.retiring, hn])
  · intro n hn
    have hn' : n ∈ s.entries ++ e :: todo := by
      rcases List.mem_append.1 hn with hn | hn
      · exact List.mem_append_left _ hn
      · exact List.mem_append_right _ (List.mem_cons_of_mem e hn)
    have hne : e ≠ n := by
      rintro rfl
      exact hnodup.1 hn
    obtain ⟨a, ha, hretired⟩ := hpooled n hn'
    exact ⟨a, (getElem?_modify_of _ ha).trans (by rw [if_neg hne]), hretired⟩
  · intro hfree
    rw [show s.lock = none from hfree] at hlock
    cases hlock
  · refine fits_set ⟨hlock, fun n hn => ?_, hafter, ?_⟩ (h.others (.inr hlock))
    · exact (husable n hn).change (Heap.modify (R := fun a b => b.leftUsage = a.leftUsage)
        (fun _ => rfl) fun _ _ => rfl) fun _ _ hab ha => hab ▸ ha
    · obtain ⟨a, ha, -⟩ := hpooled e (by simp)
      exact ⟨_, getElem?_modify_of _ ha, by rw [if_pos rfl]; rfl⟩
  · exact h.slots_set hi (.retire e now after) (by cases after <;> rfl)
  · refine h.room_set hi (.retire e now after) (by cases after <;> rfl) ?_
    rw [htodo, List.length_cons]
    exact Nat.add_le_add_left (Nat.le_succ _) _

theorem Inv.retire_shut (h : Inv limits s) {e now : Nat} {after : After} {entry : Entry}
    (hi : s.calls[i]? = some (.retire e now after)) (he : s.heap[e]? = some entry)
    (hidle : entry.retired = true ∧ entry.running ≤ 0) :
    Inv limits (s.goto i (.shut e now after)) := by
  obtain ⟨hlock, husable, hafter, -⟩ := h.calls i _ hi
  have hrunning := (h.heap e entry he).running
  refine h.goto hi ⟨hlock, husable, hafter, entry, he, hidle.1, by omega⟩
    (by cases after <;> rfl) (by cases after <;> exact id) ?_
  exact fun n hn => .inl hn

theorem Inv.retire_sweep (h : Inv limits s) {e now : Nat} {after : After} {entry : Entry}
    (hi : s.calls[i]? = some (.retire e now after)) (he : s.heap[e]? = some entry)
    (hbusy : ¬(entry.retired = true ∧ entry.running ≤ 0)) :
    Inv limits (s.goto i (.sweep now after)) := by
  obtain ⟨hlock, husable, hafter, a, ha, hretired⟩ := h.calls i _ hi
  rw [he] at ha
  cases ha
  have hrunning := (h.heap e entry he).running
  refine h.goto hi ⟨hlock, husable, hafter⟩ (by cases after <;> rfl) (by cases after <;> exact id) ?_
  intro n hn
  have hen : e = n := by simpa [Phase.retiring] using hn
  refine .inr fun hlive => hbusy ⟨hretired, ?_⟩
  rw [hrunning, hen, hlive]
  exact Int.le_refl 0

theorem Inv.shut (h : Inv limits s) {e now : Nat} {after : After}
    (hi : s.calls[i]? = some (.shut e now after)) :
    Inv limits ((s.update e .close).goto i (.sweep now after)) := by
  have hcalm : Heap Calm s.heap (s.heap.modify e .close) :=
    Heap.modify Calm.refl fun a _ => ⟨rfl, rfl, Int.le_refl _, id⟩
  obtain ⟨hlock, husable, hafter, entry, he, hidle⟩ := h.calls i _ hi
  refine ⟨?_, fun n hn => (h.pooled n hn).change hcalm fun a b hab ha => hab.retired.trans ha,
    h.nodup, h.idle, fun lease hlease => (h.leases lease hlease).later (hcalm.mono Calm.later),
    fun request hrequest => (h.requests request hrequest).change hcalm, ?_, ?_, ?_⟩
  · intro n b hb
    obtain ⟨a, ha, rfl⟩ := exists_of_getElem?_modify hb
    by_cases hn : e = n
    · cases hn
      rw [he] at ha
      cases ha
      rw [if_pos rfl]
      exact Tally.close (h.heap e entry he) hidle _ _
    · rw [if_neg hn]
      exact h.tally_set hi (.sweep now after) ha (by simp [Phase.retiring, hn])
  · refine fits_set ⟨hlock, fun n hn => ?_, hafter⟩ (h.others (.inr hlock))
    exact (husable n hn).change hcalm fun a b hab ha => hab.leftUsage ▸ ha
  · exact h.slots_set hi (.sweep now after) (by cases after <;> rfl)
  · exact h.room_set hi (.sweep now after) (by cases after <;> rfl) (Nat.le_refl _)

/-- A new entry is pooled, with the lease of the call that created it. -/
theorem Inv.push (h : Inv limits s) {now : Nat} {entry : Entry}
    (hi : s.calls[i]? = some (.sweep now (.pool entry))) (htodo : s.todo = []) :
    Inv limits { s.goto i .release with
      heap := s.heap ++ [entry]
      entries := s.entries ++ [s.heap.length]
      leases := s.leases ++ [⟨s.heap.length, .live⟩]
      lock := none } := by
  have hheap : Heap Calm s.heap (s.heap ++ [entry]) := Heap.snoc Calm.refl _ _
  have hlater := hheap.mono Calm.later
  obtain ⟨hlock, -, hfresh⟩ := h.calls i _ hi
  have hat {e : Nat} {P : Entry → Prop} (he : At s.heap e P) : e ≠ s.heap.length := by
    obtain ⟨a, ha, -⟩ := he
    exact Nat.ne_of_lt (List.getElem?_eq_some_iff.1 ha).1
  have hpooled := h.pooled
  have hnodup := h.nodup
  have hroom := h.room
  rw [htodo, List.append_nil] at hpooled hnodup
  rw [htodo, List.length_nil, Nat.add_zero] at hroom
  have hlookup : (s.heap ++ [entry])[s.heap.length]? = some entry := List.getElem?_concat_length
  refine ⟨?_, ?_, ?_, fun _ => htodo, ?_, fun request hrequest =>
    (h.requests request hrequest).change hheap, fits_set trivial (h.others (.inr hlock)), ?_, ?_⟩
  · intro n b hb
    change Tally limits ((s.leases ++ [Lease.mk s.heap.length .live]).countP (Lease.live n))
      ((s.leases ++ [Lease.mk s.heap.length .live]).countP fun lease => lease.entry == n)
      ((s.leases ++ [Lease.mk s.heap.length .live]).countP (Lease.dropping n)) (s.served n)
      ((s.calls.set i .release).countP (Phase.retiring n)) _
    rw [retiring_set hi .release rfl, countP_snoc, countP_snoc, countP_snoc]
    rcases getElem?_snoc_cases hb with hb | ⟨rfl, rfl⟩
    · have hne : (s.heap.length == n) = false :=
        beq_false_of_ne (Nat.ne_of_gt (List.getElem?_eq_some_iff.1 hb).1)
      simp only [Lease.live, Lease.dropping, hne, Bool.false_and, Bool.false_eq_true, if_false]
      exact h.heap n b hb
    · -- no lease, request or call knows the new entry
      have hlive : s.leases.countP (Lease.live s.heap.length) = 0 :=
        List.countP_eq_zero.2 fun lease hlease => by
          simp [Lease.live, hat (h.leases lease hlease)]
      have hleased : s.leases.countP (·.entry == s.heap.length) = 0 :=
        List.countP_eq_zero.2 fun lease hlease => by simp [hat (h.leases lease hlease)]
      have hdropping : s.leases.countP (Lease.dropping s.heap.length) = 0 :=
        List.countP_eq_zero.2 fun lease hlease => by
          simp [Lease.dropping, hat (h.leases lease hlease)]
      have hserved : s.served s.heap.length = 0 :=
        List.countP_eq_zero.2 fun request hrequest => by
          simp [Request.served, hat (h.requests request hrequest).1]
      have hretired : s.retiring s.heap.length = 0 := by
        refine List.countP_eq_zero.2 fun q hq => ?_
        obtain ⟨j, hj⟩ := List.getElem?_of_mem hq
        have hfits := h.calls j q hj
        cases q with
        | retire e now after => simp [Phase.retiring, hat hfits.2.2.2]
        | shut e now after => simp [Phase.retiring, hat hfits.2.2.2]
        | _ => simp [Phase.retiring]
      rw [hlive, hleased, hdropping, hretired, Lease.live, Lease.dropping, beq_self_eq_true]
      rw [hserved]
      exact hfresh.1
  · intro e he
    change e ∈ (s.entries ++ [s.heap.length]) ++ s.todo at he
    rw [htodo, List.append_nil] at he
    rcases List.mem_append.1 he with he | he
    · exact (hpooled e he).change hheap fun a b hab ha => hab.retired.trans ha
    · rw [List.mem_singleton.1 he]
      exact ⟨entry, hlookup, hfresh.2⟩
  · show ((s.entries ++ [s.heap.length]) ++ s.todo).Nodup
    rw [htodo, List.append_nil]
    refine List.nodup_append.2 ⟨hnodup, by simp, ?_⟩
    intro e he n hn
    rw [List.mem_singleton.1 hn]
    exact hat (hpooled e he)
  · intro lease hlease
    rcases List.mem_append.1 hlease with hlease | hlease
    · exact (h.leases lease hlease).later hlater
    · rw [List.mem_singleton.1 hlease]
      exact ⟨entry, hlookup, trivial⟩
  · exact h.slots_set hi .release rfl
  · intro hmax
    have hcreation : (s.calls.set i .release).countP Phase.creation + 1 = s.creations :=
      countP_set_add hi .release Phase.creation
    have := hroom hmax
    show (((s.entries ++ [s.heap.length]).length + s.todo.length +
      (s.calls.set i .release).countP Phase.creation : Nat) : Int) ≤ limits.maxConnections
    rw [htodo, List.length_append, List.length_singleton, List.length_nil]
    omega

theorem Inv.unlock (h : Inv limits s) (hi : s.calls[i]? = some phase) (hlock : s.lock = some i)
    (htodo : s.todo = []) {next : Phase} (hfits : ∀ t, Fits limits t i next)
    (hslot : next.holdsSlot = phase.holdsSlot) (hcreation : next.creation = phase.creation)
    (hretiring : ∀ e, next.retiring e = phase.retiring e) :
    Inv limits { s.goto i next with lock := none } where
  heap e _ he := h.tally_set hi next he (hretiring e)
  pooled := h.pooled
  nodup := h.nodup
  idle := fun _ => htodo
  leases := h.leases
  requests := h.requests
  calls := fits_set (hfits _) (h.others (.inr hlock))
  slots := h.slots_set hi next hslot
  room := h.room_set hi next hcreation (Nat.le_refl _)

/-- An entry with room is leased once more. -/
theorem Inv.grant (h : Inv limits s) {e : Nat} (hi : s.calls[i]? = some (.grant e)) :
    Inv limits { (s.update e .lease).goto i .done with
      leases := s.leases ++ [⟨e, .live⟩]
      lock := none } := by
  obtain ⟨hlock, htodo, hmem, entry, he, husage, hroom⟩ := h.calls i _ hi
  obtain ⟨a, ha, hretired⟩ := h.pooled e (List.mem_append_left _ hmem)
  rw [he] at ha
  cases ha
  have hlater : Heap Later s.heap (s.heap.modify e .lease) := by
    refine Heap.modify Later.refl fun a ha hret => ?_
    rw [he] at ha
    cases ha
    rw [hretired] at hret
    cases hret
  refine ⟨?_, ?_, h.nodup, fun _ => htodo, ?_, fun request hrequest =>
    (h.requests request hrequest).change hlater, fits_set trivial (h.others (.inr hlock)), ?_, ?_⟩
  · intro n b hb
    obtain ⟨a, ha, rfl⟩ := exists_of_getElem?_modify hb
    change Tally limits ((s.leases ++ [Lease.mk e .live]).countP (Lease.live n))
      ((s.leases ++ [Lease.mk e .live]).countP fun lease => lease.entry == n)
      ((s.leases ++ [Lease.mk e .live]).countP (Lease.dropping n)) (s.served n)
      ((s.calls.set i .done).countP (Phase.retiring n)) _
    rw [retiring_set hi .done rfl, countP_snoc, countP_snoc, countP_snoc]
    by_cases hn : e = n
    · cases hn
      rw [he] at ha
      cases ha
      simp only [Lease.live, Lease.dropping, beq_self_eq_true]
      exact Tally.lease (h.heap e entry he) husage hretired hroom
    · have hne : (e == n) = false := beq_false_of_ne hn
      simp only [Lease.live, Lease.dropping, hne, Bool.false_and, Bool.false_eq_true, if_false, hn]
      exact h.heap n a ha
  · intro n hn
    obtain ⟨a, ha, hfalse⟩ := h.pooled n hn
    refine ⟨_, getElem?_modify_of _ ha, ?_⟩
    split_ifs
    · exact hfalse
    · exact hfalse
  · intro lease hlease
    rcases List.mem_append.1 hlease with hlease | hlease
    · exact (h.leases lease hlease).later hlater
    · rw [List.mem_singleton.1 hlease]
      exact ⟨_, getElem?_modify_of _ he, trivial⟩
  · exact h.slots_set hi .done rfl
  · exact h.room_set hi .done rfl (Nat.le_refl _)

/-- A slot is reserved. -/
theorem Inv.reserve (h : Inv limits s) (hi : s.calls[i]? = some .reserve) :
    Inv limits { s.goto i .create with creating := s.creating + 1, lock := none } := by
  obtain ⟨hlock, htodo, hroom⟩ := h.calls i _ hi
  have hslots : (s.calls.set i .create).countP Phase.holdsSlot = s.calls.countP Phase.holdsSlot + 1 :=
    countP_set_add hi .create Phase.holdsSlot
  have hcreations : (s.calls.set i .create).countP Phase.creation = s.creations + 1 :=
    countP_set_add hi .create Phase.creation
  have hle : s.creations ≤ s.creating := by
    rw [h.slots, countP_holdsSlot]
    exact Nat.le_add_right _ _
  exact {
    heap := fun e entry he => h.tally_set hi .create he rfl
    pooled := h.pooled
    nodup := h.nodup
    idle := fun _ => htodo
    leases := h.leases
    requests := h.requests
    calls := fits_set trivial (h.others (.inr hlock))
    slots := by
      show s.creating + 1 = (s.calls.set i .create).countP Phase.holdsSlot
      rw [hslots, h.slots]
    room := by
      intro hmax
      have := hroom hmax
      show ((s.entries.length + s.todo.length + (s.calls.set i .create).countP Phase.creation : Nat) :
        Int) ≤ limits.maxConnections
      rw [hcreations, htodo, List.length_nil]
      omega }

theorem Inv.release (h : Inv limits s) (hi : s.calls[i]? = some .release) :
    Inv limits { s.goto i .done with creating := s.creating - 1 } := by
  have hslots : (s.calls.set i .done).countP Phase.holdsSlot + 1 = s.calls.countP Phase.holdsSlot :=
    countP_set_add hi .done Phase.holdsSlot
  exact {
    heap := fun e entry he => h.tally_set hi .done he rfl
    pooled := h.pooled
    nodup := h.nodup
    idle := h.idle
    leases := h.leases
    requests := h.requests
    calls := fits_set trivial fun j q _ hj =>
      (h.calls j q hj).calm (Heap.refl Calm.refl _) rfl rfl rfl (Nat.sub_le _ _)
    slots := by
      show s.creating - 1 = (s.calls.set i .done).countP Phase.holdsSlot
      rw [h.slots]
      omega
    room := h.room_set hi .done rfl (Nat.le_refl _) }

theorem Inv.acquire (h : Inv limits s) : Inv limits { s with calls := s.calls ++ [.start .choose] } where
  heap e entry he := by
    have hretiring : (s.calls ++ [Phase.start .choose]).countP (Phase.retiring e) = s.retiring e := by
      rw [countP_snoc]
      rfl
    unfold Manager.Tallied Manager.retiring
    rw [hretiring]
    exact h.heap e entry he
  pooled := h.pooled
  nodup := h.nodup
  idle := h.idle
  leases := h.leases
  requests := h.requests
  calls j q hj := by
    rcases getElem?_snoc_cases hj with hj | ⟨-, rfl⟩
    · exact h.calls j q hj
    · exact trivial
  slots := by
    show s.creating = (s.calls ++ [Phase.start .choose]).countP Phase.holdsSlot
    rw [countP_snoc, h.slots]
    rfl
  room hmax := by
    show ((s.entries.length + s.todo.length +
      (s.calls ++ [Phase.start .choose]).countP Phase.creation : Nat) : Int) ≤ limits.maxConnections
    rw [countP_snoc]
    exact h.room hmax

theorem room_of_mayCreate (h : s.mayCreate limits = true) : s.Room limits := by
  intro hmax
  simp only [Manager.mayCreate, Bool.and_eq_true, Bool.or_eq_true, decide_eq_true_iff] at h
  exact h.1.resolve_left (Int.not_le.2 hmax)

/-- The next access of an `acquire` call. -/
theorem Inv.advance (h : Inv limits s) {pick : Nat} (hi : s.calls[i]? = some phase)
    (hstep : s.advance limits i pick phase = some t) : Inv limits t := by
  have hfits := h.calls i phase hi
  cases phase with
  | create => cases hstep
  | done => cases hstep
  | start after =>
    cases hstep
    exact h.goto hi hfits (by cases after <;> rfl) (by cases after <;> exact id) fun _ hn => by
      cases hn
  | wait now after =>
    simp only [Manager.advance] at hstep
    split_ifs at hstep with hfree
    cases hstep
    exact h.lock hi hfree
  | sweep now after =>
    simp only [Manager.advance] at hstep
    split at hstep
    next e todo htodo =>
      obtain ⟨entry, he, hstep⟩ := Option.bind_eq_some_iff.1 hstep
      split_ifs at hstep with hstale <;> cases hstep
      · exact h.sweepRetire hi htodo
      · exact h.keep hi htodo he (Bool.not_eq_true _ ▸ hstale)
    next htodo =>
      cases after with
      | choose =>
        cases hstep
        exact h.goto hi ⟨hfits.1, hfits.2.1, htodo⟩ rfl id fun _ hn => by cases hn
      | pool entry =>
        cases hstep
        exact h.push hi htodo
  | retire e now after =>
    obtain ⟨entry, he, hstep⟩ := Option.bind_eq_some_iff.1 hstep
    split_ifs at hstep with hidle <;> cases hstep
    · exact h.retire_shut hi he hidle
    · exact h.retire_sweep hi he hidle
  | shut e now after =>
    cases hstep
    exact h.shut hi
  | decide =>
    obtain ⟨hlock, husable, htodo⟩ := hfits
    simp only [Manager.advance] at hstep
    split_ifs at hstep with hreserve <;> cases hstep
    · rw [Bool.and_eq_true] at hreserve
      exact h.goto hi ⟨hlock, htodo, room_of_mayCreate hreserve.2⟩ rfl id fun _ hn => by cases hn
    · exact h.goto hi ⟨hlock, husable, htodo, room_of_mayCreate⟩ rfl id fun _ hn => by cases hn
  | filter mayCreate =>
    obtain ⟨hlock, husable, htodo, hroom⟩ := hfits
    simp only [Manager.advance] at hstep
    split_ifs at hstep with hempty hcreate
    · cases hstep
      exact h.goto hi ⟨hlock, htodo, hroom hcreate⟩ rfl id fun _ hn => by cases hn
    · cases hstep
      exact h.unlock hi hlock htodo (fun _ => trivial) rfl rfl fun _ => rfl
    · obtain ⟨e, he, rfl⟩ := Option.map_eq_some_iff.1 hstep
      obtain ⟨hmem, hcandidate⟩ := List.mem_filter.1 (List.mem_of_getElem? he)
      obtain ⟨entry, hentry, husage⟩ := husable e hmem
      refine h.goto hi ⟨hlock, htodo, hmem, entry, hentry, husage, fun hmax => ?_⟩ rfl id
        fun _ hn => by cases hn
      rw [hentry, Option.any_some, Bool.or_eq_true, decide_eq_true_iff, decide_eq_true_iff]
        at hcandidate
      exact hcandidate.resolve_left (Int.not_le.2 hmax)
  | grant e =>
    cases hstep
    exact h.grant hi
  | reserve =>
    cases hstep
    exact h.reserve hi
  | release =>
    cases hstep
    exact h.release hi
  | notified =>
    cases hstep
    exact h.goto hi trivial rfl id fun _ hn => by cases hn

theorem Inv.created (h : Inv limits s) {reuseTimes requestTimes reusableSecs : Int64}
    (hi : s.calls[i]? = some phase)
    (hstep : s.created limits i reuseTimes requestTimes reusableSecs phase = some t) :
    Inv limits t := by
  cases phase with
  | create =>
    simp only [Manager.created] at hstep
    split_ifs at hstep
    all_goals
      cases hstep
      exact h.goto hi (fresh_create _ _ _) rfl (fun _ => rfl) fun _ hn => by cases hn
  | _ => cases hstep

theorem Inv.failed (h : Inv limits s) (hi : s.calls[i]? = some phase)
    (hstep : s.failed i phase = some t) : Inv limits t := by
  cases phase with
  | create =>
    cases hstep
    exact h.goto hi trivial rfl (fun hc => by cases hc) fun _ hn => by cases hn
  | _ => cases hstep

theorem Inv.cancel (h : Inv limits s) (hi : s.calls[i]? = some phase)
    (hstep : s.cancel i phase = some t) : Inv limits t := by
  cases phase with
  | wait now after =>
    cases after <;> cases hstep
    · exact h.goto hi trivial rfl id fun _ hn => by cases hn
    · exact h.goto hi trivial rfl (fun hc => by cases hc) fun _ hn => by cases hn
  | create =>
    cases hstep
    exact h.goto hi trivial rfl (fun hc => by cases hc) fun _ hn => by cases hn
  | notified =>
    cases hstep
    exact h.goto hi trivial rfl id fun _ hn => by cases hn
  | _ => cases hstep

/-- **Every access keeps the invariant.** -/
theorem Inv.step (h : Inv limits s) {move : Move} (hstep : s.step limits move = some t) :
    Inv limits t := by
  cases move with
  | acquire =>
    cases hstep
    exact h.acquire
  | turn i pick =>
    obtain ⟨phase, hi, hstep⟩ := Option.bind_eq_some_iff.1 hstep
    exact h.advance hi hstep
  | created i reuseTimes requestTimes reusableSecs =>
    obtain ⟨phase, hi, hstep⟩ := Option.bind_eq_some_iff.1 hstep
    exact h.created hi hstep
  | failed i =>
    obtain ⟨phase, hi, hstep⟩ := Option.bind_eq_some_iff.1 hstep
    exact h.failed hi hstep
  | cancel i =>
    obtain ⟨phase, hi, hstep⟩ := Option.bind_eq_some_iff.1 hstep
    exact h.cancel hi hstep
  | drop l =>
    obtain ⟨⟨e, leasePhase⟩, hl, hstep⟩ := Option.bind_eq_some_iff.1 hstep
    split_ifs at hstep with hlive
    cases hlive
    cases hstep
    exact h.drop hl
  | dropTurn l =>
    obtain ⟨lease, hl, hstep⟩ := Option.bind_eq_some_iff.1 hstep
    exact h.dropTurn hl hstep
  | consume l =>
    obtain ⟨⟨e, leasePhase⟩, hl, hstep⟩ := Option.bind_eq_some_iff.1 hstep
    split_ifs at hstep with hlive
    cases hlive
    cases hstep
    exact h.consume hl
  | requestTurn r =>
    obtain ⟨request, hr, hstep⟩ := Option.bind_eq_some_iff.1 hstep
    exact h.requestTurn hr hstep
  | connectionClosed e =>
    cases hstep
    exact h.connectionClosed e
  | tick nanos =>
    cases hstep
    exact h.tick nanos

end Steps

theorem inv_empty (limits : XmuxLimits) : Inv limits {} where
  heap _ _ he := by cases he
  pooled _ he := by cases he
  nodup := List.nodup_nil
  idle _ := rfl
  leases _ hlease := by cases hlease
  requests _ hrequest := by cases hrequest
  calls _ _ hi := by cases hi
  slots := rfl
  room hmax := by
    simp only [Manager.creations]
    exact Int.le_of_lt hmax

/-- The invariant says that the limits are kept. -/
theorem Inv.sound {limits : XmuxLimits} {s : Manager} (h : Inv limits s) : Sound limits s where
  connections := h.room
  concurrency hmax e := by
    by_cases hlt : e < s.heap.length
    · have hentry := h.heap e _ (List.getElem?_eq_getElem hlt)
      have := hentry.concurrency hmax
      have := hentry.running
      omega
    · -- no lease is on an entry that does not exist
      have hlive : s.live e = 0 := by
        refine List.countP_eq_zero.2 fun lease hlease => ?_
        obtain ⟨a, ha, -⟩ := h.leases lease hlease
        have hne : lease.entry ≠ e := by
          rintro rfl
          exact hlt (List.getElem?_eq_some_iff.1 ha).1
        simp [Lease.live, hne]
      rw [hlive]
      exact Int.le_of_lt hmax
  reuse e entry he hpos := by
    have := (h.heap e entry he).usage hpos
    omega
  requests e entry he hpos hmax := by
    have := (h.heap e entry he).requests hpos hmax
    omega
  closedOnly e entry he := (h.heap e entry he).closedOnly
  closedOnce e entry he hretired hlive hdropping hretiring := by
    apply ((h.heap e entry he).covered hretired hlive).resolve_right
    have hnone : s.dropping e = 0 :=
      List.countP_eq_zero.2 fun lease hlease => by simp [hdropping lease hlease]
    have hno : s.retiring e = 0 :=
      List.countP_eq_zero.2 fun phase hphase => by simp [hretiring phase hphase]
    omega
  slots := h.slots.trans (countP_holdsSlot s.calls)

/-- A creation that failed or was cancelled gives its slot back: its call is about to release one,
and does so when it goes on. -/
def GivesBack (limits : XmuxLimits) (s : Manager) : Prop :=
  ∀ i, (s.calls[i]? = some .create → ∀ move ∈ [Move.failed i, .cancel i],
      ∃ t, s.step limits move = some t ∧ t.calls[i]? = some .release) ∧
    (s.calls[i]? = some .release → ∀ pick,
      ∃ t, s.step limits (.turn i pick) = some t ∧ t.calls[i]? = some .done ∧
        t.creating + 1 = s.creating)

theorem Inv.givesBack {limits : XmuxLimits} {s : Manager} (h : Inv limits s) :
    GivesBack limits s := by
  intro i
  constructor
  · intro hi move hmove
    have hset : (s.calls.set i .release)[i]? = some .release :=
      List.getElem?_set_self (List.getElem?_eq_some_iff.1 hi).1
    rcases List.mem_pair.1 hmove with rfl | rfl
    · exact ⟨s.goto i .release, by simp only [Manager.step, hi]; rfl, hset⟩
    · exact ⟨s.goto i .release, by simp only [Manager.step, hi]; rfl, hset⟩
  · intro hi pick
    refine ⟨{ s.goto i .done with creating := s.creating - 1 },
      by simp only [Manager.step, hi]; rfl,
      List.getElem?_set_self (List.getElem?_eq_some_iff.1 hi).1, ?_⟩
    have hpos : 0 < s.calls.countP Phase.holdsSlot :=
      List.countP_pos_iff.2 ⟨_, List.mem_of_getElem? hi, rfl⟩
    have := h.slots
    show s.creating - 1 + 1 = s.creating
    omega

/-- **In every run of the pool the limits are kept, a connection is closed when its entry is retired
and out of use, and slots are given back.** -/
theorem pool_sound {limits : XmuxLimits} {s : Manager}
    (h : Reach (Manager.step limits) anyMove {} s) : Sound limits s ∧ GivesBack limits s := by
  have hinv := h.inv (fun _ _ _ hinv _ hstep => hinv.step hstep) (inv_empty limits)
  exact ⟨hinv.sound, hinv.givesBack⟩

/-- One connection with one lease at a time and two leases in all. -/
def tightLimits : XmuxLimits := ⟨1, 1, ⟨2, 2⟩, ⟨5, 5⟩, ⟨0, 0⟩⟩

/-- The first creation fails; then an entry is created, leased, dropped and leased again while another
call waits; the next sweep retires it, and the drop of its last lease closes it. -/
def tightMoves : List Move :=
  List.flatten [[.acquire], .replicate 5 (.turn 0 0), [.failed 0, .turn 0 0, .acquire],
    .replicate 5 (.turn 1 0), [.created 1 2 5 0], .replicate 4 (.turn 1 0),
    [.consume 0, .requestTurn 0, .requestTurn 0, .requestTurn 0, .drop 0, .dropTurn 0, .acquire],
    .replicate 7 (.turn 2 0), [.acquire], .replicate 7 (.turn 3 0),
    [.drop 1, .dropTurn 1, .dropTurn 1, .dropTurn 1]]

theorem pool_sound_tight : ∃ s, runMoves (Manager.step tightLimits) {} tightMoves = some s ∧
    (∃ entry ∈ s.heap[0]?, entry.poolClosed = true) ∧ Sound tightLimits s ∧ GivesBack tightLimits s := by
  have hrun : (runMoves (Manager.step tightLimits) {} tightMoves).any
      (fun s => s.heap[0]?.any (·.poolClosed)) = true := by decide +kernel
  obtain ⟨s, hs, hclosed⟩ := (Option.any_eq_true _ _).1 hrun
  exact ⟨s, hs, (Option.any_eq_true _ _).1 hclosed, pool_sound (reach_of_runMoves hs)⟩

/-- No limit on connections and leases, no number of leases, and `i64::MAX` requests. -/
def maxRequests : XmuxLimits := ⟨0, 0, ⟨0, 0⟩, ⟨Int64.maxValue, Int64.maxValue⟩, ⟨0, 0⟩⟩

/-- The first call has created an entry and returned its lease. -/
def firstLease : Manager where
  heap := [.create 0 Int64.maxValue none]
  entries := [0]
  calls := [.done]
  leases := [⟨0, .live⟩]

/-- An entry with `i64::MAX` requests is granted any number of them. -/
theorem unlimited_requests (n : Nat) :
    ∃ requests : List Request, requests.countP (Request.served 0) = n ∧
      Reach (Manager.step maxRequests) anyMove {} { firstLease with requests := requests } := by
  induction n with
  | zero =>
    have hrun : runMoves (Manager.step maxRequests) {} (List.flatten [[.acquire],
        .replicate 5 (.turn 0 0), [.created 0 0 Int64.maxValue 0], .replicate 4 (.turn 0 0)]) =
          some firstLease := by
      decide +kernel
    exact ⟨[], rfl, reach_of_runMoves hrun⟩
  | succ n ih =>
    obtain ⟨requests, hcount, hreach⟩ := ih
    have hlookup (phase : RequestPhase) :
        (requests ++ [(⟨0, phase⟩ : Request)])[requests.length]? = some ⟨0, phase⟩ :=
      List.getElem?_concat_length
    have hset (phase next : RequestPhase) :
        (requests ++ [(⟨0, phase⟩ : Request)]).set requests.length ⟨0, next⟩ =
          requests ++ [⟨0, next⟩] := by simp
    have hcheck : Manager.step maxRequests { firstLease with requests := requests ++ [⟨0, .check⟩] }
        (.requestTurn requests.length) =
          some { firstLease with requests := requests ++ [⟨0, .load⟩] } := by
      rw [← hset .check .load]
      simp only [Manager.step, hlookup]
      rfl
    have hload : Manager.step maxRequests { firstLease with requests := requests ++ [⟨0, .load⟩] }
        (.requestTurn requests.length) =
          some { firstLease with requests := requests ++ [⟨0, .done true⟩] } := by
      rw [← hset .load (.done true)]
      simp only [Manager.step, hlookup]
      rfl
    refine ⟨requests ++ [⟨0, .done true⟩], ?_, ((hreach.tail (m := .consume 0) trivial rfl).tail
      trivial hcheck).tail trivial hload⟩
    rw [countP_snoc, hcount]
    rfl

/-- The entry that was granted more requests than the number that was sampled for it, and leased more
often than the number of leases that was sampled. -/
theorem limits_not_kept : ∃ s, Reach (Manager.step maxRequests) anyMove {} s ∧
    ∃ entry ∈ s.heap[0]?, 0 < entry.requestTimes ∧ entry.requestTimes < (s.served 0 : Int) ∧
      entry.reuseTimes < (s.leased 0 : Int) := by
  obtain ⟨requests, hcount, hreach⟩ := unlimited_requests (2 ^ 63)
  have hleased : (Entry.create 0 Int64.maxValue none).reuseTimes < (firstLease.leased 0 : Int) := by
    decide
  refine ⟨_, hreach, .create 0 Int64.maxValue none, rfl, by decide, ?_, hleased⟩
  show (Entry.create 0 Int64.maxValue none).requestTimes < (requests.countP (Request.served 0) : Int)
  rw [hcount]
  decide

end WutherCore.Xhttp.Xmux
