import WutherCore.Data.Indexed
import WutherCore.Net.Addr

/-!
# The port table of the TCP NAT

`TcpNat` of `tcp_nat.rs` gives each TCP flow a port of its own, by which the flow is found again.
Ports come from a counter of 16 bits, taken modulo the number of ports; a free one is searched for from
the counter on, with as many tries as there are ports.

* `lookup`, `lookupBack`, `removeByPort`, `purgeExpired`; `run` makes calls one after another.
* `Consistent`: the two maps are inverse to each other, and all ports lie in the range.
* `passedOver`: the ports that a search misses.  The number of ports does not divide `2 ^ 16`, so a
  search that comes past the end of the counter meets some ports twice and others not at all.
* `reachable_spec`: after any calls the table is consistent, a flow is found by its port as long as it
  is there, and a search from here fails on a full table only, exactly when no port that it misses is
  the only kind left.
-/

namespace WutherCore.Capture

open WutherCore.Net WutherCore.Data

/-- `PORT_RANGE_START`. -/
def portRangeStart : UInt16 := 30000

/-- `PORT_RANGE_END`. -/
def portRangeEnd : UInt16 := 65535

/-- `PORT_RANGE_SPAN`. -/
def portRangeSpan : Nat := (portRangeEnd - portRangeStart).toNat + 1

/-- `port_in_range`. -/
def portInRange (raw : UInt16) : UInt16 :=
  portRangeStart + UInt16.ofNat ((raw - portRangeStart).toNat % portRangeSpan)

/-- `NatKey`. -/
structure NatKey where
  source : SocketAddr
  destination : SocketAddr
  deriving DecidableEq

/-- `NatSession`. -/
structure NatSession where
  source : SocketAddr
  destination : SocketAddr
  lastSeen : Nat

namespace NatSession

/-- The flow of a session. -/
def key (s : NatSession) : NatKey := ⟨s.source, s.destination⟩

/-- `touch`. -/
def touch (now : Nat) (s : NatSession) : NatSession := { s with lastSeen := now }

@[simp] theorem key_touch (now : Nat) (s : NatSession) : (s.touch now).key = s.key := rfl

end NatSession

/-- `TcpNat`. -/
structure TcpNat where
  timeout : Nat
  nextPort : UInt16
  byPort : AssocMap UInt16 NatSession
  byFlow : AssocMap NatKey UInt16

namespace TcpNat

/-- `TcpNat::new`. -/
def new (timeout : Nat) : TcpNat := ⟨timeout, portRangeStart, .empty, .empty⟩

/-- The loop of `lookup` over the ports, with the tries left. -/
def allocate (now : Nat) (source destination : SocketAddr) : Nat → TcpNat → Option UInt16 × TcpNat
  | 0, nat => (none, nat)
  | tries + 1, nat =>
      let port := portInRange nat.nextPort
      let nat := { nat with nextPort := nat.nextPort + 1 }
      if nat.byPort.contains port then allocate now source destination tries nat
      else
        (some port,
          { nat with
            byPort := nat.byPort.insert port ⟨source, destination, now⟩
            byFlow := nat.byFlow.insert ⟨source, destination⟩ port })

/-- `lookup`. -/
def lookup (now : Nat) (source destination : SocketAddr) (nat : TcpNat) : Option UInt16 × TcpNat :=
  match nat.byFlow.get? ⟨source, destination⟩ with
  | some port =>
      if nat.byPort.contains port then
        (some port, { nat with byPort := nat.byPort.modify port (·.touch now) })
      else
        allocate now source destination portRangeSpan
          { nat with byFlow := nat.byFlow.erase ⟨source, destination⟩ }
  | none => allocate now source destination portRangeSpan nat

/-- `lookup_back`. -/
def lookupBack (now : Nat) (port : UInt16) (nat : TcpNat) : Option NatSession × TcpNat :=
  match nat.byPort.get? port with
  | some session =>
      (some (session.touch now), { nat with byPort := nat.byPort.modify port (·.touch now) })
  | none => (none, nat)

/-- The sessions that `purge_expired` has found, removed one after another. -/
def removeVictims (nat : TcpNat) (victims : List (UInt16 × NatSession)) : TcpNat :=
  victims.foldl (fun nat victim =>
    { nat with
      byPort := nat.byPort.erase victim.1
      byFlow := nat.byFlow.erase victim.2.key }) nat

/-- `purge_expired`. -/
def purgeExpired (now : Nat) (nat : TcpNat) : Nat × TcpNat :=
  let victims := nat.byPort.entries.filter fun e => now - e.2.lastSeen > nat.timeout
  (victims.length, nat.removeVictims victims)

/-- `remove_by_port`. -/
def removeByPort (port : UInt16) (nat : TcpNat) : TcpNat :=
  match nat.byPort.get? port with
  | some session =>
      { nat with
        byPort := nat.byPort.erase port
        byFlow := nat.byFlow.erase session.key }
  | none => nat

/-! ### Runs -/

/-- A call, with the time at which it is made. -/
inductive Call
  | lookup (now : Nat) (source destination : SocketAddr)
  | lookupBack (now : Nat) (port : UInt16)
  | removeByPort (port : UInt16)
  | purgeExpired (now : Nat)

/-- The table after a call. -/
def after (nat : TcpNat) : Call → TcpNat
  | .lookup now source destination => (nat.lookup now source destination).2
  | .lookupBack now port => (nat.lookupBack now port).2
  | .removeByPort port => nat.removeByPort port
  | .purgeExpired now => (nat.purgeExpired now).2

/-- The table after calls made one after another. -/
def run (nat : TcpNat) (calls : List Call) : TcpNat := calls.foldl after nat

theorem run_append (nat : TcpNat) (calls more : List Call) :
    nat.run (calls ++ more) = (nat.run calls).run more :=
  List.foldl_append

theorem run_singleton (nat : TcpNat) (call : Call) : nat.run [call] = nat.after call := rfl

/-! ### What is to hold -/

/-- The two maps are inverse to each other, and all ports lie in the range. -/
structure Consistent (nat : TcpNat) : Prop where
  indexed : Indexed NatSession.key nat.byPort nat.byFlow
  range : ∀ port session, nat.byPort.get? port = some session → portRangeStart ≤ port

/-- Every port of the range is occupied. -/
def Full (nat : TcpNat) : Prop := ∀ port, portRangeStart ≤ port → nat.byPort.contains port = true

/-- The ports that a search from the counter misses. -/
def passedOver (nextPort port : UInt16) : Bool :=
  if portRangeStart ≤ nextPort then 60000 ≤ port && port < nextPort
  else 60000 ≤ port && nextPort.toNat + portRangeSpan ≤ port.toNat

/-- If a port is free, then one is free that a search from here does not miss. -/
def SearchSuffices (nat : TcpNat) : Prop :=
  (∃ port, portRangeStart ≤ port ∧ nat.byPort.contains port = false) →
    ∃ port, portRangeStart ≤ port ∧ passedOver nat.nextPort port = false ∧
      nat.byPort.contains port = false

/-! ### The ports of a search -/

theorem portInRange_toNat (raw : UInt16) :
    (portInRange raw).toNat = 30000 + (raw.toNat + 35536) % 65536 % 35536 := by
  have hspan : portRangeSpan = 35536 := by decide
  have hsub : (raw - portRangeStart).toNat = (raw.toNat + 35536) % 65536 := by
    rw [UInt16.toNat_sub]
    have hstart : portRangeStart.toNat = 30000 := by decide
    omega
  have hlt := Nat.mod_lt ((raw.toNat + 35536) % 65536) (show 0 < 35536 by decide)
  rw [portInRange, UInt16.toNat_add, hsub, hspan, UInt16.toNat_ofNat']
  have hstart : portRangeStart.toNat = 30000 := by decide
  omega

theorem portRangeStart_le_portInRange (raw : UInt16) : portRangeStart ≤ portInRange raw := by
  rw [UInt16.le_iff_toNat_le, portInRange_toNat]
  exact Nat.le_add_right _ _

theorem passedOver_eq_true {nextPort port : UInt16} :
    passedOver nextPort port = true ↔ 60000 ≤ port.toNat ∧
      if 30000 ≤ nextPort.toNat then port.toNat < nextPort.toNat
      else nextPort.toNat + 35536 ≤ port.toNat := by
  have hspan : portRangeSpan = 35536 := by decide
  have hstart : portRangeStart ≤ nextPort ↔ 30000 ≤ nextPort.toNat := UInt16.le_iff_toNat_le
  have hhigh : (60000 : UInt16) ≤ port ↔ 60000 ≤ port.toNat := UInt16.le_iff_toNat_le
  unfold passedOver
  simp only [hspan, hstart, hhigh, UInt16.lt_iff_toNat_lt]
  split_ifs <;> simp

/-- **The ports that a search meets** are those that it does not miss. -/
theorem exists_portInRange_iff {nextPort port : UInt16} (hport : portRangeStart ≤ port) :
    (∃ i < portRangeSpan, portInRange (nextPort + UInt16.ofNat i) = port) ↔
      passedOver nextPort port = false := by
  have hspan : portRangeSpan = 35536 := by decide
  have hp : 30000 ≤ port.toNat := UInt16.le_iff_toNat_le.1 hport
  have hlt := port.toNat_lt
  have hnext := nextPort.toNat_lt
  have hraw : ∀ i, (nextPort + UInt16.ofNat i).toNat = (nextPort.toNat + i) % 65536 := by
    intro i
    rw [UInt16.toNat_add, UInt16.toNat_ofNat']
    omega
  simp only [← UInt16.toNat_inj, portInRange_toNat, hraw, hspan]
  rw [← Bool.not_eq_true, passedOver_eq_true]
  constructor
  · rintro ⟨i, hi, heq⟩ ⟨hhigh, hmissed⟩
    split_ifs at hmissed <;> omega
  · intro hnot
    -- the counter reaches a port once in each turn, and the low ports twice
    by_cases hstart : 30000 ≤ nextPort.toNat
    · rw [if_pos hstart] at hnot
      by_cases hle : nextPort.toNat ≤ port.toNat
      · exact ⟨port.toNat - nextPort.toNat, by omega, by omega⟩
      · exact ⟨port.toNat + 35536 - nextPort.toNat, by omega, by omega⟩
    · rw [if_neg hstart] at hnot
      by_cases hle : nextPort.toNat + 30000 ≤ port.toNat ∧ port.toNat < 60000
      · exact ⟨port.toNat - 30000 - nextPort.toNat, by omega, by omega⟩
      · exact ⟨port.toNat - nextPort.toNat, by omega, by omega⟩

/-! ### Calls keep the table consistent -/

section Calls

variable {nat nat' : TcpNat} {now : Nat} {source destination : SocketAddr} {port : UInt16}

theorem consistent_new (timeout : Nat) : (new timeout).Consistent where
  indexed := Indexed.empty _
  range := by simp [new]

theorem contains_eq_false {m : AssocMap UInt16 NatSession} :
    m.contains port = false ↔ m.get? port = none := by
  simp [AssocMap.contains]

/-- What the loop of `lookup` does: it takes the first free port that it meets, or there is none. -/
theorem allocate_cases (now : Nat) (source destination : SocketAddr) (tries : Nat) (nat : TcpNat) :
    (∃ i < tries, nat.byPort.contains (portInRange (nat.nextPort + UInt16.ofNat i)) = false ∧
      nat.allocate now source destination tries =
        (some (portInRange (nat.nextPort + UInt16.ofNat i)),
          { nat with
            nextPort := nat.nextPort + UInt16.ofNat (i + 1)
            byPort := nat.byPort.insert (portInRange (nat.nextPort + UInt16.ofNat i))
              ⟨source, destination, now⟩
            byFlow := nat.byFlow.insert ⟨source, destination⟩
              (portInRange (nat.nextPort + UInt16.ofNat i)) })) ∨
    (∀ i < tries, nat.byPort.contains (portInRange (nat.nextPort + UInt16.ofNat i)) = true) ∧
      nat.allocate now source destination tries =
        (none, { nat with nextPort := nat.nextPort + UInt16.ofNat tries }) := by
  induction tries generalizing nat with
  | zero => exact .inr ⟨by simp, by simp [allocate]⟩
  | succ tries ih =>
    have hadd : ∀ i, nat.nextPort + 1 + UInt16.ofNat i = nat.nextPort + UInt16.ofNat (i + 1) := by
      intro i
      rw [UInt16.ofNat_add, UInt16.add_assoc, UInt16.add_comm 1]
      rfl
    rw [allocate]
    by_cases hfree : nat.byPort.contains (portInRange nat.nextPort) = true
    · rw [if_pos hfree]
      rcases ih { nat with nextPort := nat.nextPort + 1 } with ⟨i, hi, hcontains, heq⟩ | ⟨hall, heq⟩
      · simp only [hadd] at hcontains heq
        exact .inl ⟨i + 1, Nat.succ_lt_succ hi, hcontains, heq⟩
      · simp only [hadd] at hall heq
        refine .inr ⟨fun i hi => ?_, heq⟩
        cases i with
        | zero => simpa using hfree
        | succ i => exact hall i (Nat.lt_of_succ_lt_succ hi)
    · rw [if_neg hfree]
      exact .inl ⟨0, Nat.succ_pos _, by simpa using hfree, by simp⟩

theorem Consistent.insert (h : nat.Consistent) (hport : portRangeStart ≤ port)
    (hfree : nat.byPort.contains port = false)
    (hnew : nat.byFlow.get? ⟨source, destination⟩ = none) (nextPort : UInt16) :
    Consistent { nat with
      nextPort := nextPort
      byPort := nat.byPort.insert port ⟨source, destination, now⟩
      byFlow := nat.byFlow.insert ⟨source, destination⟩ port } where
  indexed := h.indexed.insert (contains_eq_false.1 hfree) hnew
  range p session hp := by
    by_cases heq : p = port
    · exact heq ▸ hport
    · rw [AssocMap.get?_insert_of_ne _ _ heq] at hp
      exact h.range p session hp

theorem Consistent.allocate (h : nat.Consistent) (tries : Nat)
    (hnew : nat.byFlow.get? ⟨source, destination⟩ = none) :
    (nat.allocate now source destination tries).2.Consistent := by
  rcases allocate_cases now source destination tries nat with ⟨i, -, hfree, heq⟩ | ⟨-, heq⟩
  · rw [heq]
    exact h.insert (portRangeStart_le_portInRange _) hfree hnew _
  · rw [heq]
    exact ⟨h.indexed, h.range⟩

theorem Consistent.touch (h : nat.Consistent) (port : UInt16) :
    Consistent { nat with byPort := nat.byPort.modify port (·.touch now) } where
  indexed := h.indexed.modify fun _ => rfl
  range p session hp := by
    obtain ⟨session', hp, -⟩ := AssocMap.get?_modify_eq_some.1 hp
    exact h.range p session' hp

theorem Consistent.erase (h : nat.Consistent) {session : NatSession}
    (hport : nat.byPort.get? port = some session) :
    Consistent { nat with
      byPort := nat.byPort.erase port
      byFlow := nat.byFlow.erase session.key } where
  indexed := h.indexed.erase hport
  range p session' hp := h.range p session' (AssocMap.get?_erase_eq_some.1 hp).1

theorem Consistent.contains_of_flow (h : nat.Consistent) {key : NatKey}
    (hflow : nat.byFlow.get? key = some port) : nat.byPort.contains port = true := by
  obtain ⟨session, hport, -⟩ := (h.indexed key port).1 hflow
  simp [AssocMap.contains, hport]

theorem Consistent.lookup_eq (h : nat.Consistent) (now : Nat) (source destination : SocketAddr) :
    nat.lookup now source destination =
      match nat.byFlow.get? ⟨source, destination⟩ with
      | some port => (some port, { nat with byPort := nat.byPort.modify port (·.touch now) })
      | none => nat.allocate now source destination portRangeSpan := by
  unfold lookup
  cases hflow : nat.byFlow.get? ⟨source, destination⟩ with
  | none => rfl
  | some port => simp only [h.contains_of_flow hflow, if_true]

theorem Consistent.lookup (h : nat.Consistent) :
    (nat.lookup now source destination).2.Consistent := by
  rw [h.lookup_eq]
  cases hflow : nat.byFlow.get? ⟨source, destination⟩ with
  | none => exact h.allocate _ hflow
  | some port => exact h.touch port

theorem Consistent.lookupBack (h : nat.Consistent) : (nat.lookupBack now port).2.Consistent := by
  unfold TcpNat.lookupBack
  cases nat.byPort.get? port with
  | none => exact h
  | some session => exact h.touch port

theorem Consistent.removeByPort (h : nat.Consistent) : (nat.removeByPort port).Consistent := by
  unfold TcpNat.removeByPort
  cases hport : nat.byPort.get? port with
  | none => exact h
  | some session => exact h.erase hport

theorem Consistent.removeVictims (h : nat.Consistent) {victims : List (UInt16 × NatSession)}
    (hvictims : ∀ v ∈ victims, nat.byPort.get? v.1 = some v.2)
    (hnodup : (victims.map Prod.fst).Nodup) : (nat.removeVictims victims).Consistent := by
  induction victims generalizing nat with
  | nil => exact h
  | cons v victims ih =>
    rw [List.forall_mem_cons] at hvictims
    rw [List.map_cons, List.nodup_cons] at hnodup
    refine ih (h.erase hvictims.1) (fun v' hv' => ?_) hnodup.2
    refine AssocMap.get?_erase_eq_some.2 ⟨hvictims.2 v' hv', fun heq => hnodup.1 ?_⟩
    exact List.mem_map.2 ⟨v', hv', heq⟩

theorem Consistent.purgeExpired (h : nat.Consistent) : (nat.purgeExpired now).2.Consistent := by
  refine h.removeVictims (fun v hv => ?_) ?_
  · exact AssocMap.get?_eq_some.2 (List.mem_filter.1 hv).1
  · exact nat.byPort.nodup.sublist (List.filter_sublist.map _)

theorem Consistent.after (h : nat.Consistent) (call : Call) : (nat.after call).Consistent := by
  cases call with
  | lookup now source destination => exact h.lookup
  | lookupBack now port => exact h.lookupBack
  | removeByPort port => exact h.removeByPort
  | purgeExpired now => exact h.purgeExpired

/-- **Calls keep the table consistent.** -/
theorem Consistent.run (h : nat.Consistent) (calls : List Call) : (nat.run calls).Consistent := by
  induction calls generalizing nat with
  | nil => exact h
  | cons call calls ih => exact ih (h.after call)

end Calls

/-! ### A flow keeps its port -/

section Flow

variable {nat nat' : TcpNat} {now : Nat} {source destination : SocketAddr} {port : UInt16}
  {key : NatKey}

theorem byFlow_removeVictims (victims : List (UInt16 × NatSession)) (nat : TcpNat) :
    (nat.removeVictims victims).byFlow.get? key = nat.byFlow.get? key ∨
      (nat.removeVictims victims).byFlow.get? key = none := by
  induction victims generalizing nat with
  | nil => exact .inl rfl
  | cons v victims ih =>
    rcases ih { nat with byPort := nat.byPort.erase v.1, byFlow := nat.byFlow.erase v.2.key }
      with hsame | hnone
    · by_cases hkey : key = v.2.key
      · exact .inr (hsame.trans (hkey ▸ AssocMap.get?_erase_self _ _))
      · exact .inl (hsame.trans (AssocMap.get?_erase_of_ne _ hkey))
    · exact .inr hnone

/-- A search leaves the other flows where they are. -/
theorem get?_allocate (now : Nat) {source destination : SocketAddr} (hne : key ≠ ⟨source, destination⟩)
    (tries : Nat) (nat : TcpNat) :
    (nat.allocate now source destination tries).2.byFlow.get? key = nat.byFlow.get? key := by
  rcases allocate_cases now source destination tries nat with ⟨i, -, -, heq⟩ | ⟨-, heq⟩
  · rw [heq]
    exact AssocMap.get?_insert_of_ne _ _ hne
  · rw [heq]

/-- A call leaves a flow at its port, or removes it. -/
theorem Consistent.flow_after (h : nat.Consistent) (hflow : nat.byFlow.get? key = some port)
    (call : Call) :
    (nat.after call).byFlow.get? key = some port ∨ (nat.after call).byFlow.get? key = none := by
  cases call with
  | lookup now source destination =>
    left
    rw [TcpNat.after, h.lookup_eq]
    cases hnew : nat.byFlow.get? ⟨source, destination⟩ with
    | some port' => exact hflow
    | none =>
      have hne : key ≠ ⟨source, destination⟩ := by
        rintro rfl
        simp [hflow] at hnew
      exact (get?_allocate now hne portRangeSpan nat).trans hflow
  | lookupBack now port' =>
    left
    rw [TcpNat.after, TcpNat.lookupBack]
    cases nat.byPort.get? port' <;> exact hflow
  | removeByPort port' =>
    rw [TcpNat.after, TcpNat.removeByPort]
    cases nat.byPort.get? port' with
    | none => exact .inl hflow
    | some session =>
      by_cases hkey : key = session.key
      · exact .inr (hkey ▸ AssocMap.get?_erase_self _ _)
      · exact .inl ((AssocMap.get?_erase_of_ne _ hkey).trans hflow)
  | purgeExpired now =>
    rw [← hflow]
    exact byFlow_removeVictims _ nat

theorem Consistent.flow_run (h : nat.Consistent) (hflow : nat.byFlow.get? key = some port)
    {calls : List Call}
    (hlive : ∀ part, part <+: calls → (nat.run part).byFlow.contains key = true) :
    (nat.run calls).byFlow.get? key = some port := by
  induction calls generalizing nat with
  | nil => exact hflow
  | cons call calls ih =>
    refine ih (h.after call) ((h.flow_after hflow call).resolve_right fun hnone => ?_) ?_
    · have hfirst := hlive [call] ⟨calls, rfl⟩
      simp [TcpNat.run, AssocMap.contains, hnone] at hfirst
    · intro part hpart
      exact hlive (call :: part) (List.cons_prefix_cons.2 ⟨rfl, hpart⟩)

theorem Consistent.flow_lookup (h : nat.Consistent)
    (hlookup : nat.lookup now source destination = (some port, nat')) :
    nat'.byFlow.get? ⟨source, destination⟩ = some port := by
  rw [h.lookup_eq] at hlookup
  cases hflow : nat.byFlow.get? ⟨source, destination⟩ with
  | some port' =>
    rw [hflow] at hlookup
    cases hlookup
    exact hflow
  | none =>
    rw [hflow] at hlookup
    rcases allocate_cases now source destination portRangeSpan nat with ⟨i, -, -, heq⟩ | ⟨-, heq⟩
    · cases heq.symm.trans hlookup
      exact AssocMap.get?_insert_self _ _ _
    · cases heq.symm.trans hlookup

theorem Consistent.lookupBack_of_flow (h : nat.Consistent)
    (hflow : nat.byFlow.get? ⟨source, destination⟩ = some port) (now : Nat) :
    ∃ session, (nat.lookupBack now port).1 = some session ∧ session.source = source ∧
      session.destination = destination := by
  obtain ⟨session, hport, hkey⟩ := (h.indexed _ _).1 hflow
  obtain ⟨hsource, hdestination⟩ := NatKey.mk.inj hkey
  refine ⟨session.touch now, ?_, hsource, hdestination⟩
  simp [TcpNat.lookupBack, hport]

theorem Consistent.lookup_eq_none_iff (h : nat.Consistent)
    (hnew : nat.byFlow.get? ⟨source, destination⟩ = none) :
    (nat.lookup now source destination).1 = none ↔
      ∀ port, portRangeStart ≤ port → passedOver nat.nextPort port = false →
        nat.byPort.contains port = true := by
  rw [h.lookup_eq, hnew]
  rcases allocate_cases now source destination portRangeSpan nat with ⟨i, hi, hfree, heq⟩ | ⟨hall, heq⟩
  · -- a free port has been met
    simp only [heq, reduceCtorEq, false_iff]
    intro hall
    have hport := portRangeStart_le_portInRange (nat.nextPort + UInt16.ofNat i)
    have hmet := (exists_portInRange_iff hport).1 ⟨i, hi, rfl⟩
    simp [hall _ hport hmet] at hfree
  · simp only [heq, true_iff]
    intro port hport hmet
    obtain ⟨i, hi, rfl⟩ := (exists_portInRange_iff hport).2 hmet
    exact hall i hi

/-- **A search fails on a full table only, exactly when it does not miss all free ports.** -/
theorem Consistent.lookup_full_iff (h : nat.Consistent)
    (hnew : nat.byFlow.get? ⟨source, destination⟩ = none) :
    ((nat.lookup now source destination).1 = none → nat.Full) ↔ nat.SearchSuffices := by
  rw [h.lookup_eq_none_iff hnew]
  constructor
  · rintro hfull ⟨port, hport, hfree⟩
    by_contra hnone
    push Not at hnone
    have hall : nat.Full := hfull fun p hp hmet => by simpa using hnone p hp hmet
    simp [hall port hport] at hfree
  · intro hsuffices hall port hport
    by_contra hfree
    obtain ⟨p, hp, hmet, hfree⟩ := hsuffices ⟨port, hport, by simpa using hfree⟩
    simp [hall p hp hmet] at hfree

end Flow

/-- **What holds after any calls**: the maps are inverse to each other, different flows have different
ports of the range, a flow is found by its port as long as it is there, and `lookup` of a new flow fails
on a full table only, exactly when its search does not miss all free ports. -/
theorem reachable_spec (timeout : Nat) (calls : List Call) :
    let nat := (new timeout).run calls
    nat.Consistent ∧
      (∀ key key' port, nat.byFlow.get? key = some port → nat.byFlow.get? key' = some port →
        key = key') ∧
      (∀ now source destination port nat',
        nat.lookup now source destination = (some port, nat') →
          ∀ more, (∀ part, part <+: more →
              (nat'.run part).byFlow.contains ⟨source, destination⟩ = true) →
            ∀ now', ∃ session, ((nat'.run more).lookupBack now' port).1 = some session ∧
              session.source = source ∧ session.destination = destination) ∧
      ∀ now source destination, nat.byFlow.get? ⟨source, destination⟩ = none →
        (((nat.lookup now source destination).1 = none → nat.Full) ↔ nat.SearchSuffices) := by
  intro nat
  have h : nat.Consistent := (consistent_new timeout).run calls
  refine ⟨h, fun _ _ _ => h.indexed.key_eq, ?_, fun _ _ _ => h.lookup_full_iff⟩
  intro now source destination port nat' hlookup more hlive now'
  have h' : nat'.Consistent := by
    have hsecond : nat' = (nat.lookup now source destination).2 := by rw [hlookup]
    exact hsecond ▸ h.lookup
  exact (h'.run more).lookupBack_of_flow (h'.flow_run (h.flow_lookup hlookup) hlive) now'

/-! ### A search that misses the free port -/

/-- The clients of one host, by their ports. -/
def client (i : Nat) : SocketAddr := .v4 0x0a000001 (UInt16.ofNat i)

/-- A server. -/
def server : SocketAddr := .v4 0x01010101 443

/-- One flow for each port of the range, in their order. -/
def fillCalls (n : Nat) : List Call := (List.range n).map fun i => .lookup 0 (client i) server

theorem client_inj {i j : Nat} (hi : i < 65536) (hj : j < 65536) (h : client i = client j) :
    i = j := by
  have hport := congrArg UInt16.toNat (SocketAddr.v4.inj h).2
  rw [UInt16.toNat_ofNat', UInt16.toNat_ofNat'] at hport
  omega

theorem lookup_of_free {nat : TcpNat} (now : Nat) {source destination : SocketAddr}
    (hnew : nat.byFlow.get? ⟨source, destination⟩ = none)
    (hfree : ¬nat.byPort.contains (portInRange nat.nextPort) = true) :
    nat.lookup now source destination = (some (portInRange nat.nextPort),
      { nat with
        nextPort := nat.nextPort + 1
        byPort := nat.byPort.insert (portInRange nat.nextPort) ⟨source, destination, now⟩
        byFlow := nat.byFlow.insert ⟨source, destination⟩ (portInRange nat.nextPort) }) := by
  obtain ⟨tries, htries⟩ : ∃ tries, portRangeSpan = tries + 1 := ⟨_, rfl⟩
  simp only [lookup, hnew]
  rw [htries, allocate, if_neg hfree]

/-- The table with the first ports of the range occupied, and the counter behind them. -/
structure Filled (n : Nat) (nat : TcpNat) : Prop where
  nextPort : nat.nextPort.toNat = (30000 + n) % 65536
  contains : ∀ port, nat.byPort.contains port = true ↔
    30000 ≤ port.toNat ∧ port.toNat < 30000 + n
  new : ∀ i, n ≤ i → i < 65536 → nat.byFlow.get? ⟨client i, server⟩ = none

theorem filled_fillCalls (timeout : Nat) {n : Nat} (hn : n ≤ 35536) :
    Filled n ((TcpNat.new timeout).run (fillCalls n)) := by
  induction n with
  | zero =>
    refine ⟨rfl, fun port => ?_, fun i _ _ => rfl⟩
    have hnone : (TcpNat.new timeout).byPort.contains port = false := rfl
    simp only [fillCalls, List.range_zero, List.map_nil, run, List.foldl_nil, hnone,
      Bool.false_eq_true, false_iff]
    omega
  | succ n ih =>
    have ih := ih (by omega)
    set nat := (TcpNat.new timeout).run (fillCalls n)
    have hrun : (TcpNat.new timeout).run (fillCalls (n + 1)) =
        (nat.lookup 0 (client n) server).2 := by
      rw [fillCalls, List.range_succ, List.map_append, run_append]
      rfl
    -- the port of the counter is free, and the first that is met
    have hport : (portInRange nat.nextPort).toNat = 30000 + n := by
      rw [portInRange_toNat, ih.nextPort]
      omega
    have hfree : ¬nat.byPort.contains (portInRange nat.nextPort) = true := by
      rw [ih.contains, hport]
      omega
    have hlookup := lookup_of_free 0 (ih.new n le_rfl (by omega)) hfree
    rw [hrun, hlookup]
    refine ⟨?_, fun port => ?_, fun i hi hlt => ?_⟩
    · rw [UInt16.toNat_add, ih.nextPort]
      have hone : (1 : UInt16).toNat = 1 := rfl
      omega
    · by_cases heq : port = portInRange nat.nextPort
      · subst heq
        simp only [AssocMap.contains, AssocMap.get?_insert_self, Option.isSome_some, true_iff, hport]
        omega
      · have hne : port.toNat ≠ 30000 + n := fun h => heq (UInt16.toNat_inj.1 (h.trans hport.symm))
        have hold := ih.contains port
        simp only [AssocMap.contains, AssocMap.get?_insert_of_ne _ _ heq] at hold ⊢
        rw [hold]
        omega
    · have hne : (⟨client i, server⟩ : NatKey) ≠ ⟨client n, server⟩ := fun h => by
        have := client_inj hlt (by omega) (NatKey.mk.inj h).1
        omega
      rw [AssocMap.get?_insert_of_ne _ _ hne]
      exact ih.new i (by omega) hlt

/-- All ports are given out in order, and then the last of them is given back: the next search starts
at the first port again and comes past the end of the counter before it reaches the free port. -/
theorem Filled.search_misses {nat : TcpNat} (hfilled : Filled 35536 nat) (h : nat.Consistent) :
    (nat.removeByPort 65535).byFlow.get? ⟨client 35536, server⟩ = none ∧
      ((nat.removeByPort 65535).lookup 0 (client 35536) server).1 = none ∧
      (nat.removeByPort 65535).byPort.contains 65535 = false := by
  have hoccupied : nat.byPort.contains 65535 = true := (hfilled.contains 65535).2 (by decide)
  obtain ⟨session, hsession⟩ := Option.isSome_iff_exists.1 hoccupied
  have hremove : nat.removeByPort 65535 =
      { nat with byPort := nat.byPort.erase 65535, byFlow := nat.byFlow.erase session.key } := by
    simp [removeByPort, hsession]
  have hnext : (nat.removeByPort 65535).nextPort = 0 := by
    rw [hremove]
    exact UInt16.toNat_inj.1 hfilled.nextPort
  have hnew : (nat.removeByPort 65535).byFlow.get? ⟨client 35536, server⟩ = none := by
    rw [hremove, Option.eq_none_iff_forall_ne_some]
    intro port hport
    have hold := (AssocMap.get?_erase_eq_some.1 hport).1
    rw [hfilled.new 35536 le_rfl (by omega)] at hold
    cases hold
  refine ⟨hnew, ?_, ?_⟩
  · rw [h.removeByPort.lookup_eq_none_iff hnew, hnext]
    intro port hport hmet
    have hne : port ≠ 65535 := by
      rintro rfl
      simp [show passedOver 0 65535 = true by decide] at hmet
    have hlow : 30000 ≤ port.toNat := UInt16.le_iff_toNat_le.1 hport
    have hold := (hfilled.contains port).2 ⟨hlow, port.toNat_lt⟩
    rw [hremove]
    simpa only [AssocMap.contains, AssocMap.get?_erase_of_ne _ hne] using hold
  · rw [hremove, contains_eq_false]
    exact AssocMap.get?_erase_self _ _

theorem search_misses_free_port :
    ¬∀ (timeout : Nat) (calls : List Call) (now : Nat) (source destination : SocketAddr),
      ((new timeout).run calls).byFlow.get? ⟨source, destination⟩ = none →
        (((new timeout).run calls).lookup now source destination).1 = none →
          ((new timeout).run calls).Full := by
  intro hclaim
  have hcall := hclaim 300 (fillCalls 35536 ++ [.removeByPort 65535]) 0 (client 35536) server
  rw [run_append, run_singleton, after] at hcall
  obtain ⟨hnew, hsearch, hfree⟩ :=
    (filled_fillCalls 300 (le_refl 35536)).search_misses ((consistent_new 300).run _)
  have hfull := hcall hnew hsearch 65535 (by decide)
  rw [hfree] at hfull
  cases hfull

end TcpNat

end WutherCore.Capture
