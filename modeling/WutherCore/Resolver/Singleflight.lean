import WutherCore.Data.AssocMap
import WutherCore.Data.Broadcast
import WutherCore.Data.Moves
import WutherCore.Net.Addr

/-!
# Singleflight

`do_once` of `singleflight.rs`: of the callers that ask for one key at a time, one computes the answer
and sends it to the others.  The calls run at the same time; the steps of a call are those that others
can see.

* `World`, `World.step`: the map of the flights and all calls, the moves of which are interleaved.
* `World.Delivered`: a flight computes once, and whoever joined it returns the result of its owner.
* `Move.Guarded`: nobody looks up a key whose flight has sent its result but is still in the map.
* `guarded_delivers`, `late_caller_lost`.

A caller that finds a flight holds the lock of its entry until it has subscribed, so that finding and
subscribing are one step here: the entry cannot be removed in between.
-/

namespace WutherCore.Resolver

open WutherCore.Net WutherCore.Data

/-- `DnsError`. -/
inductive DnsError
  | failed (message : String)
  | timeout
  | empty
  | rejected (message : String)
  deriving DecidableEq, Repr

namespace Singleflight

/-- `FlightResult`. -/
abbrev FlightResult := Except DnsError (List IpAddr)

/-- What a caller returns when the channel gives it no value. -/
def senderDropped : FlightResult := .error (.failed "singleflight: sender dropped")

/-- How far the owner of a flight has come. -/
inductive Stage
  | entered
  | computing
  | computed (result : FlightResult)
  | sent (result : FlightResult)
  | removed (result : FlightResult)

/-- Where a call of `do_once` stands. A flight is given by its number. -/
inductive Phase
  | called
  | missed
  | waiting (flight pos : Nat)
  | owner (flight : Nat) (stage : Stage)
  | returned (flight : Nat) (result : FlightResult)
  | cancelled

/-- A call of `do_once`. -/
structure Caller (κ : Type*) where
  key : κ
  phase : Phase

/-- A flight: its channel, with whose call it is, how often it has computed, and whether the owner has
dropped its sender. -/
structure Flight (κ : Type*) where
  key : κ
  owner : Nat
  runs : Nat := 0
  tx : Broadcast FlightResult := ⟨1, []⟩
  dropped : Bool := false

/-- `Singleflight`, all flights and all calls. -/
structure World (κ : Type*) where
  map : AssocMap κ Nat
  flights : List (Flight κ)
  callers : List (Caller κ)

/-- The steps of a call. -/
inductive Act
  | lookup
  | enter
  | start
  | finish (result : FlightResult)
  | send
  | remove
  | leave
  | recv
  | cancel

/-- A call begins, or one of them goes a step. -/
inductive Move (κ : Type*)
  | call (key : κ)
  | act (i : Nat) (a : Act)

variable {κ : Type*} [DecidableEq κ]

namespace World

/-- No calls. -/
def init : World κ := ⟨.empty, [], []⟩

variable (w : World κ)

/-- A caller goes on. -/
def goTo (i : Nat) (c : Caller κ) (phase : Phase) : World κ :=
  { w with callers := w.callers.set i { c with phase := phase } }

/-- A change of a flight. -/
def modifyFlight (f : Nat) (g : Flight κ → Flight κ) : World κ :=
  { w with flights := w.flights.modify f g }

/-- A caller subscribes to a flight. -/
def subscribe (i : Nat) (c : Caller κ) (f : Nat) : Option (World κ) :=
  w.flights[f]?.map fun flight => w.goTo i c (.waiting f flight.tx.subscribe)

/-- No sender is left: the owner has dropped its own, and the entry with the other one is gone. -/
def closed (f : Nat) (flight : Flight κ) : Bool :=
  flight.dropped && decide (w.map.get? flight.key ≠ some f)

/-- `recv` of a waiting caller. -/
def recv (i : Nat) (c : Caller κ) (f pos : Nat) : Option (World κ) := do
  let flight ← w.flights[f]?
  match flight.tx.recv (w.closed f flight) pos with
  | .value result => some (w.goTo i c (.returned f result))
  | .lagged => some (w.goTo i c (.returned f senderDropped))
  | .closed => some (w.goTo i c (.returned f senderDropped))
  | .pending => none

/-- The caller enters a flight of its own. -/
def enterFlight (i : Nat) (c : Caller κ) : World κ where
  map := w.map.insert c.key w.flights.length
  flights := w.flights ++ [{ key := c.key, owner := i }]
  callers := w.callers.set i { c with phase := .owner w.flights.length .entered }

/-- A step of a call. -/
def act (i : Nat) (c : Caller κ) (a : Act) : Option (World κ) :=
  match a, c.phase with
  | .lookup, .called =>
      match w.map.get? c.key with
      | some f => w.subscribe i c f
      | none => some (w.goTo i c .missed)
  -- `or_insert`; the entry may have come since the lookup
  | .enter, .missed =>
      match w.map.get? c.key with
      | some f => w.subscribe i c f
      | none => some (w.enterFlight i c)
  | .start, .owner f .entered =>
      some ((w.modifyFlight f fun flight => { flight with runs := flight.runs + 1 }).goTo i c
        (.owner f .computing))
  | .finish result, .owner f .computing => some (w.goTo i c (.owner f (.computed result)))
  | .send, .owner f (.computed result) =>
      some ((w.modifyFlight f fun flight => { flight with tx := flight.tx.send result }).goTo i c
        (.owner f (.sent result)))
  -- `Drop` of the guard removes whatever entry the key has
  | .remove, .owner f (.sent result) =>
      some { w.goTo i c (.owner f (.removed result)) with map := w.map.erase c.key }
  | .leave, .owner f (.removed result) =>
      some ((w.modifyFlight f fun flight => { flight with dropped := true }).goTo i c
        (.returned f result))
  | .recv, .waiting f pos => w.recv i c f pos
  | .cancel, .waiting _ _ => some (w.goTo i c .cancelled)
  | _, _ => none

/-- One move. -/
def step : Move κ → Option (World κ)
  | .call key => some { w with callers := w.callers ++ [⟨key, .called⟩] }
  | .act i a => w.callers[i]?.bind fun c => w.act i c a

end World

/-! ### What the callers get -/

/-- What an owner has computed. -/
def Stage.result : Stage → Option FlightResult
  | .entered | .computing => none
  | .computed result | .sent result | .removed result => some result

/-- The flight that a caller owns or has joined. -/
def Phase.flight : Phase → Option Nat
  | .waiting f _ | .owner f _ | .returned f _ => some f
  | .called | .missed | .cancelled => none

/-- The result that a caller has. -/
def Phase.result : Phase → Option FlightResult
  | .owner _ stage => stage.result
  | .returned _ result => some result
  | .called | .missed | .waiting _ _ | .cancelled => none

/-- The result of the owner of a flight. -/
def World.ownerResult (w : World κ) (f : Nat) : Option FlightResult :=
  (w.flights[f]?.bind fun flight => w.callers[flight.owner]?).bind fun c => c.phase.result

/-- A flight computes once, and whoever has joined it returns the result of its owner. -/
structure World.Delivered (w : World κ) : Prop where
  ownKey : ∀ (i : Nat) (c : Caller κ) (f : Nat), w.callers[i]? = some c → c.phase.flight = some f →
    ∃ flight, w.flights[f]? = some flight ∧ flight.key = c.key
  once : ∀ (f : Nat) (flight : Flight κ), w.flights[f]? = some flight →
    flight.runs ≤ 1 ∧ ((w.ownerResult f).isSome → flight.runs = 1)
  same : ∀ (i : Nat) (c : Caller κ) (f : Nat) (result : FlightResult), w.callers[i]? = some c →
    c.phase = .returned f result → w.ownerResult f = some result
  served : ∀ (i : Nat) (c o : Caller κ) (f pos : Nat) (flight : Flight κ) (result : FlightResult),
    w.callers[i]? = some c → c.phase = .waiting f pos → w.flights[f]? = some flight →
    w.callers[flight.owner]? = some o → o.phase = .returned f result →
    ∃ w', w.step (.act i .recv) = some w' ∧
      w'.callers[i]? = some { c with phase := .returned f result }

/-- Nobody looks up a key whose flight has sent its result and is still in the map. -/
def Move.Guarded (w : World κ) : Move κ → Prop
  | .act i .lookup | .act i .enter =>
      ∀ (c : Caller κ) (f : Nat) (flight : Flight κ), w.callers[i]? = some c →
        w.map.get? c.key = some f → w.flights[f]? = some flight → flight.tx.sent = []
  | _ => True

/-! ### The invariant -/

/-- How often a flight has computed at a stage. -/
def Stage.runs : Stage → Nat
  | .entered => 0
  | .computing | .computed _ | .sent _ | .removed _ => 1

/-- What a flight has sent at a stage. -/
def Stage.values : Stage → List FlightResult
  | .entered | .computing | .computed _ => []
  | .sent result | .removed result => [result]

/-- The flight is in the map. -/
def Stage.InMap : Stage → Prop
  | .removed _ => False
  | .entered | .computing | .computed _ | .sent _ => True

namespace World

/-- What is known about a flight from the stage of its owner. -/
structure Owns (w : World κ) (i : Nat) (k : κ) (stage : Stage) (f : Nat) (flight : Flight κ) :
    Prop where
  get : w.flights[f]? = some flight
  key : flight.key = k
  owner : flight.owner = i
  runs : flight.runs = stage.runs
  sent : flight.tx.sent = stage.values
  dropped : flight.dropped = false
  inMap : stage.InMap ↔ w.map.get? k = some f

/-- What is known about a caller. -/
def Follows (w : World κ) (i : Nat) (key : κ) : Phase → Prop
  | .called | .missed | .cancelled => True
  | .waiting f pos => pos = 0 ∧
      ∃ flight, w.flights[f]? = some flight ∧ flight.key = key ∧ flight.owner ≠ i
  | .owner f stage => ∃ flight, w.Owns i key stage f flight
  | .returned f result => ∃ flight, w.flights[f]? = some flight ∧ flight.key = key ∧
      flight.runs = 1 ∧ flight.tx.sent = [result]

/-- The invariant of the guarded moves. -/
structure Inv (w : World κ) : Prop where
  follows : ∀ (i : Nat) (c : Caller κ), w.callers[i]? = some c → w.Follows i c.key c.phase
  capacity : ∀ (f : Nat) (flight : Flight κ), w.flights[f]? = some flight → flight.tx.capacity = 1
  owners : ∀ (f : Nat) (flight : Flight κ), w.flights[f]? = some flight →
    ∃ c, w.callers[flight.owner]? = some c ∧ c.phase.flight = some f
  entries : ∀ (key : κ) (f : Nat), w.map.get? key = some f →
    ∃ flight, w.flights[f]? = some flight ∧ flight.key = key

theorem inv_init : (init : World κ).Inv where
  follows := fun i c h => by simp [init] at h
  capacity := fun f flight h => by simp [init] at h
  owners := fun f flight h => by simp [init] at h
  entries := fun key f h => by simp [init] at h

variable {w : World κ} {i : Nat} {c : Caller κ}

/-- A flight keeps what a caller knows about it: all if it is the owner, else what has been sent. -/
structure Keeps (i : Nat) (flight flight' : Flight κ) : Prop where
  key : flight'.key = flight.key
  owner : flight'.owner = flight.owner
  own : flight.owner = i → flight' = flight
  result : ∀ result, flight.runs = 1 → flight.tx.sent = [result] →
    flight'.runs = 1 ∧ flight'.tx.sent = [result]

omit [DecidableEq κ] in
theorem Keeps.refl (i : Nat) (flight : Flight κ) : Keeps i flight flight :=
  ⟨rfl, rfl, fun _ => rfl, fun _ hruns hsent => ⟨hruns, hsent⟩⟩

/-- What a caller knows stays true as long as its flight keeps it, and the map has the flights that it
owns as before. -/
theorem Follows.mono {w w' : World κ} {i : Nat} {k : κ} {phase : Phase} (h : w.Follows i k phase)
    (hflights : ∀ (f : Nat) (flight : Flight κ), w.flights[f]? = some flight →
      ∃ flight', w'.flights[f]? = some flight' ∧ Keeps i flight flight')
    (hmap : ∀ f stage, phase = .owner f stage →
      (w'.map.get? k = some f ↔ w.map.get? k = some f)) :
    w'.Follows i k phase := by
  cases phase with
  | called => trivial
  | missed => trivial
  | cancelled => trivial
  | waiting f pos =>
    obtain ⟨hpos, flight, hget, hkey, howner⟩ := h
    obtain ⟨flight', hget', hkeep⟩ := hflights f flight hget
    exact ⟨hpos, flight', hget', hkeep.key.trans hkey, hkeep.owner.symm ▸ howner⟩
  | owner f stage =>
    obtain ⟨flight, howns⟩ := h
    obtain ⟨flight', hget', hkeep⟩ := hflights f flight howns.get
    obtain rfl := hkeep.own howns.owner
    exact ⟨flight', { howns with
      get := hget'
      inMap := howns.inMap.trans (hmap f stage rfl).symm }⟩
  | returned f result =>
    obtain ⟨flight, hget, hkey, hruns, hsent⟩ := h
    obtain ⟨flight', hget', hkeep⟩ := hflights f flight hget
    exact ⟨flight', hget', hkeep.key.trans hkey, hkeep.result result hruns hsent⟩

theorem Follows.flight {k : κ} {phase : Phase} {f : Nat} (h : w.Follows i k phase)
    (hf : phase.flight = some f) : ∃ flight, w.flights[f]? = some flight ∧ flight.key = k := by
  cases phase with
  | called => exact nomatch hf
  | missed => exact nomatch hf
  | cancelled => exact nomatch hf
  | waiting g pos =>
    cases hf
    obtain ⟨-, flight, hget, hkey, -⟩ := h
    exact ⟨flight, hget, hkey⟩
  | owner g stage =>
    cases hf
    obtain ⟨flight, howns⟩ := h
    exact ⟨flight, howns.get, howns.key⟩
  | returned g result =>
    cases hf
    obtain ⟨flight, hget, hkey, -⟩ := h
    exact ⟨flight, hget, hkey⟩

theorem Inv.not_owner (h : w.Inv) (hc : w.callers[i]? = some c) {f : Nat} {flight : Flight κ}
    (hget : w.flights[f]? = some flight) (hphase : c.phase.flight ≠ some f) : flight.owner ≠ i := by
  rintro rfl
  obtain ⟨o, ho, hf⟩ := h.owners f flight hget
  rw [hc, Option.some.injEq] at ho
  exact hphase (ho ▸ hf)

/-- The invariant after a step of a caller: the others know what they knew, and the caller itself
follows what it has done. -/
theorem Inv.update {w' : World κ} {phase : Phase} (h : w.Inv) (hc : w.callers[i]? = some c)
    (hcallers : w'.callers = w.callers.set i { c with phase := phase })
    (hflights : ∀ (f : Nat) (flight : Flight κ), w.flights[f]? = some flight →
      ∃ flight', w'.flights[f]? = some flight' ∧ ∀ j, j ≠ i → Keeps j flight flight')
    (hcapacity : ∀ (f : Nat) (flight : Flight κ), w'.flights[f]? = some flight →
      flight.tx.capacity = 1)
    (hold : ∀ (f : Nat) (flight : Flight κ), w'.flights[f]? = some flight → flight.owner ≠ i →
      ∃ flight', w.flights[f]? = some flight' ∧ flight'.owner = flight.owner)
    (hown : ∀ (f : Nat) (flight : Flight κ), w'.flights[f]? = some flight → flight.owner = i →
      phase.flight = some f)
    (hmap : ∀ (j : Nat) (d : Caller κ) (f : Nat) (stage : Stage), j ≠ i → w.callers[j]? = some d →
      d.phase = .owner f stage → (w'.map.get? d.key = some f ↔ w.map.get? d.key = some f))
    (hentries : ∀ (k : κ) (f : Nat), w'.map.get? k = some f →
      ∃ flight, w'.flights[f]? = some flight ∧ flight.key = k)
    (hphase : w'.Follows i c.key phase) : w'.Inv := by
  have hlt : i < w.callers.length := (List.getElem?_eq_some_iff.1 hc).1
  refine ⟨fun j d hj => ?_, hcapacity, fun f flight hget => ?_, hentries⟩
  · rw [hcallers] at hj
    by_cases hij : j = i
    · subst hij
      rw [List.getElem?_set_self hlt, Option.some.injEq] at hj
      subst hj
      exact hphase
    · rw [List.getElem?_set_ne (Ne.symm hij)] at hj
      refine (h.follows j d hj).mono (fun f flight hget => ?_) fun f stage => hmap j d f stage hij hj
      obtain ⟨flight', hget', hkeep⟩ := hflights f flight hget
      exact ⟨flight', hget', hkeep j hij⟩
  · rw [hcallers]
    by_cases hi : flight.owner = i
    · exact ⟨{ c with phase := phase }, by rw [hi, List.getElem?_set_self hlt],
        hown f flight hget hi⟩
    · obtain ⟨flight', hget', howner⟩ := hold f flight hget hi
      obtain ⟨o, ho, hf⟩ := h.owners f flight' hget'
      exact ⟨o, by rw [List.getElem?_set_ne (Ne.symm hi), ← howner]; exact ho, hf⟩

theorem Inv.goTo (h : w.Inv) (hc : w.callers[i]? = some c) {phase : Phase}
    (hphase : w.Follows i c.key phase)
    (hown : ∀ (f : Nat) (flight : Flight κ), w.flights[f]? = some flight → flight.owner = i →
      phase.flight = some f) :
    (w.goTo i c phase).Inv := by
  refine h.update hc rfl (fun f flight hget => ⟨flight, hget, fun _ _ => .refl _ _⟩) h.capacity
    (fun f flight hget _ => ⟨flight, hget, rfl⟩) hown (fun _ _ _ _ _ _ _ => Iff.rfl) h.entries ?_
  exact hphase.mono (fun _ flight hget => ⟨flight, hget, .refl _ _⟩) fun _ _ _ => Iff.rfl

theorem Inv.subscribe {w' : World κ} (h : w.Inv) (hc : w.callers[i]? = some c)
    (hnone : c.phase.flight = none) {f : Nat} (hf : w.map.get? c.key = some f)
    (hsent : ∀ flight : Flight κ, w.flights[f]? = some flight → flight.tx.sent = [])
    (hw' : w.subscribe i c f = some w') : w'.Inv := by
  obtain ⟨flight, hget, rfl⟩ := Option.map_eq_some_iff.1 hw'
  have hother : ∀ (g : Nat) (flight : Flight κ), w.flights[g]? = some flight → flight.owner ≠ i :=
    fun g flight hget => h.not_owner hc hget (by simp [hnone])
  have hpos : flight.tx.subscribe = 0 := by rw [Broadcast.subscribe, hsent flight hget]; rfl
  obtain ⟨flight', hget', hkey⟩ := h.entries _ _ hf
  refine h.goTo hc ⟨hpos, flight', hget', hkey, hother f flight' hget'⟩ ?_
  exact fun g flight hget howner => absurd howner (hother g flight hget)

theorem Inv.flight_of_owner (h : w.Inv) (hc : w.callers[i]? = some c) {f g : Nat} {flight : Flight κ}
    (hf : c.phase.flight = some f) (hget : w.flights[g]? = some flight) (howner : flight.owner = i) :
    g = f := by
  by_contra hne
  refine h.not_owner hc hget ?_ howner
  rw [hf]
  exact fun heq => hne (Option.some.inj heq).symm

/-- The owner changes its flight. -/
theorem Inv.modifyFlight {f : Nat} {stage : Stage} {phase : Phase} {g : Flight κ → Flight κ}
    {flight : Flight κ} (h : w.Inv) (hc : w.callers[i]? = some c)
    (hphase : c.phase = .owner f stage) (howns : w.Owns i c.key stage f flight)
    (hkey : (g flight).key = flight.key) (howner : (g flight).owner = flight.owner)
    (hcap : (g flight).tx.capacity = flight.tx.capacity)
    (hresult : ∀ result, flight.runs = 1 → flight.tx.sent = [result] →
      (g flight).runs = 1 ∧ (g flight).tx.sent = [result])
    (hflight : phase.flight = some f)
    (hfollows : ∀ w' : World κ, w'.flights[f]? = some (g flight) → w'.map = w.map →
      w'.Follows i c.key phase) :
    ((w.modifyFlight f g).goTo i c phase).Inv := by
  have hself : (w.flights.modify f g)[f]? = some (g flight) := by
    rw [List.getElem?_modify_eq, howns.get]
    rfl
  have hrest : ∀ f', f' ≠ f → (w.flights.modify f g)[f']? = w.flights[f']? :=
    fun f' hne => List.getElem?_modify_ne _ _ hne.symm
  refine h.update hc rfl (fun f' fl hget => ?_) (fun f' fl hget => ?_) (fun f' fl hget hi => ?_)
    (fun f' fl hget hi => ?_) (fun _ _ _ _ _ _ _ => Iff.rfl) (fun k f' hk => ?_)
    (hfollows _ hself rfl)
  · by_cases hf : f' = f
    · subst hf
      obtain rfl := Option.some.inj (hget.symm.trans howns.get)
      refine ⟨_, hself, fun j hj => ⟨hkey, howner, fun hown => ?_, hresult⟩⟩
      exact absurd (hown.symm.trans howns.owner) hj
    · exact ⟨fl, (hrest f' hf).trans hget, fun _ _ => .refl _ _⟩
  · by_cases hf : f' = f
    · subst hf
      rw [← Option.some.inj (hself.symm.trans hget), hcap]
      exact h.capacity f' flight howns.get
    · exact h.capacity f' fl ((hrest f' hf).symm.trans hget)
  · by_cases hf : f' = f
    · subst hf
      rw [← Option.some.inj (hself.symm.trans hget), howner] at hi
      exact absurd howns.owner hi
    · exact ⟨fl, (hrest f' hf).symm.trans hget, rfl⟩
  · by_cases hf : f' = f
    · rw [hf, hflight]
    · exact absurd (h.flight_of_owner hc (by rw [hphase]; rfl) ((hrest f' hf).symm.trans hget) hi) hf
  · obtain ⟨fl, hget, hfl⟩ := h.entries k f' hk
    by_cases hf : f' = f
    · subst hf
      obtain rfl := Option.some.inj (hget.symm.trans howns.get)
      exact ⟨_, hself, hkey.trans hfl⟩
    · exact ⟨fl, (hrest f' hf).trans hget, hfl⟩

/-- A caller that finds no entry enters a flight of its own. -/
theorem Inv.enterFlight (h : w.Inv) (hc : w.callers[i]? = some c) (hnone : c.phase.flight = none)
    (hmap : w.map.get? c.key = none) : (w.enterFlight i c).Inv := by
  have hlast : (w.enterFlight i c).flights[w.flights.length]? = some { key := c.key, owner := i } :=
    List.getElem?_concat_length ..
  have hrest : ∀ (f : Nat) (flight : Flight κ), (w.enterFlight i c).flights[f]? = some flight →
      f ≠ w.flights.length → w.flights[f]? = some flight := by
    intro f flight hget hne
    rcases Nat.lt_or_ge f w.flights.length with hlt | hge
    · exact (List.getElem?_append_left hlt).symm.trans hget
    · have hlt := (List.getElem?_eq_some_iff.1 hget).1
      rw [World.enterFlight, List.length_append, List.length_singleton] at hlt
      exact absurd (by omega) hne
  have hold : ∀ (f : Nat) (flight : Flight κ), w.flights[f]? = some flight →
      f ≠ w.flights.length ∧ (w.enterFlight i c).flights[f]? = some flight := by
    intro f flight hget
    have hlt := (List.getElem?_eq_some_iff.1 hget).1
    exact ⟨hlt.ne, (List.getElem?_append_left hlt).trans hget⟩
  have hnew : ∀ {flight : Flight κ}, (w.enterFlight i c).flights[w.flights.length]? = some flight →
      flight = { key := c.key, owner := i } :=
    fun hget => Option.some.inj (hget.symm.trans hlast)
  refine h.update hc rfl (fun f flight hget => ⟨flight, (hold f flight hget).2, fun _ _ => .refl _ _⟩)
    (fun f flight hget => ?_) (fun f flight hget hi => ?_) (fun f flight hget hi => ?_)
    (fun j d f stage hj hd hf => ?_) (fun k f hk => ?_) ?_
  · by_cases hf : f = w.flights.length
    · subst hf
      rw [hnew hget]
    · exact h.capacity f flight (hrest f flight hget hf)
  · by_cases hf : f = w.flights.length
    · subst hf
      exact absurd (hnew hget ▸ rfl) hi
    · exact ⟨flight, hrest f flight hget hf, rfl⟩
  · by_cases hf : f = w.flights.length
    · rw [hf]
      rfl
    · exact absurd hi (h.not_owner hc (hrest f flight hget hf) (by simp [hnone]))
  · by_cases hk : d.key = c.key
    · obtain ⟨flight, hget, -⟩ := (h.follows j d hd).flight (by rw [hf]; rfl)
      have hne := (hold f flight hget).1
      rw [World.enterFlight, hk, AssocMap.get?_insert_self, hmap]
      simpa using hne.symm
    · rw [World.enterFlight, AssocMap.get?_insert_of_ne _ _ hk]
  · by_cases hkey : k = c.key
    · subst hkey
      rw [World.enterFlight, AssocMap.get?_insert_self, Option.some.injEq] at hk
      exact ⟨_, hk ▸ hlast, rfl⟩
    · rw [World.enterFlight, AssocMap.get?_insert_of_ne _ _ hkey] at hk
      obtain ⟨flight, hget, hfl⟩ := h.entries k f hk
      exact ⟨flight, (hold f flight hget).2, hfl⟩
  · refine ⟨_, hlast, rfl, rfl, rfl, rfl, rfl, ?_⟩
    simp [World.enterFlight, Stage.InMap]

theorem Inv.remove {f : Nat} {result : FlightResult} (h : w.Inv) (hc : w.callers[i]? = some c)
    (hphase : c.phase = .owner f (.sent result)) :
    ({ w.goTo i c (.owner f (.removed result)) with map := w.map.erase c.key } : World κ).Inv := by
  have hfollows := h.follows i c hc
  rw [hphase] at hfollows
  obtain ⟨flight, howns⟩ := hfollows
  have hentry : w.map.get? c.key = some f := howns.inMap.1 trivial
  have hflight : c.phase.flight = some f := by rw [hphase]; rfl
  refine h.update hc rfl (fun f flight hget => ⟨flight, hget, fun _ _ => .refl _ _⟩) h.capacity
    (fun f flight hget _ => ⟨flight, hget, rfl⟩)
    (fun g fl hget hi => by rw [h.flight_of_owner hc hflight hget hi]; rfl)
    (fun j d g stage hj hd hg => ?_) (fun k g hk => ?_) ?_
  · by_cases hkey : d.key = c.key
    · have hd' := h.follows j d hd
      rw [hg] at hd'
      obtain ⟨fl, hd'⟩ := hd'
      have hne : f ≠ g := by
        rintro rfl
        obtain rfl := Option.some.inj (hd'.get.symm.trans howns.get)
        exact hj (hd'.owner.symm.trans howns.owner)
      rw [hkey, hentry, AssocMap.get?_erase_self]
      simpa using hne
    · rw [AssocMap.get?_erase_of_ne _ hkey]
  · exact h.entries k g (AssocMap.get?_erase_eq_some.1 hk).1
  · refine ⟨flight, { howns with inMap := ?_ }⟩
    simp [Stage.InMap]

/-- What is known about a flight: it computes once, and what it has sent is the result of its owner. -/
theorem Inv.flight_spec {f : Nat} {flight : Flight κ} (h : w.Inv) (hget : w.flights[f]? = some flight) :
    flight.runs ≤ 1 ∧ ((w.ownerResult f).isSome → flight.runs = 1) ∧
      (flight.tx.sent = [] ∧ flight.dropped = false ∨
        ∃ result, flight.tx.sent = [result] ∧ w.ownerResult f = some result) := by
  obtain ⟨o, ho, hf⟩ := h.owners f flight hget
  have hfollows := h.follows _ o ho
  have hresult : w.ownerResult f = o.phase.result := by
    simp [World.ownerResult, hget, ho]
  rw [hresult]
  cases hphase : o.phase with
  | called => exact absurd hf (by simp [hphase, Phase.flight])
  | missed => exact absurd hf (by simp [hphase, Phase.flight])
  | cancelled => exact absurd hf (by simp [hphase, Phase.flight])
  | waiting g pos =>
    rw [hphase] at hf hfollows
    cases hf
    -- the owner does not wait for itself
    obtain ⟨-, flight', hget', -, howner⟩ := hfollows
    obtain rfl := Option.some.inj (hget'.symm.trans hget)
    exact absurd rfl howner
  | owner g stage =>
    rw [hphase] at hf hfollows
    cases hf
    obtain ⟨flight', howns⟩ := hfollows
    obtain rfl := Option.some.inj (howns.get.symm.trans hget)
    rw [howns.runs, howns.sent, howns.dropped]
    cases stage <;> simp [Stage.runs, Stage.values, Phase.result, Stage.result]
  | returned g result =>
    rw [hphase] at hf hfollows
    cases hf
    obtain ⟨flight', hget', -, hruns, hsent⟩ := hfollows
    obtain rfl := Option.some.inj (hget'.symm.trans hget)
    rw [hruns, hsent]
    simp [Phase.result]

theorem Inv.recv_eq {f pos : Nat} {flight : Flight κ} (h : w.Inv) (hc : w.callers[i]? = some c)
    (hphase : c.phase = .waiting f pos) (hget : w.flights[f]? = some flight) :
    w.recv i c f pos = flight.tx.sent.head?.map fun result => w.goTo i c (.returned f result) := by
  have hfollows := h.follows i c hc
  rw [hphase] at hfollows
  obtain ⟨rfl, -⟩ := hfollows
  rw [World.recv, hget, Option.bind_eq_bind, Option.bind_some]
  obtain ⟨-, -, ⟨hsent, hdropped⟩ | ⟨result, hsent, -⟩⟩ := h.flight_spec hget
  · rw [Broadcast.recv_of_le (by simp [hsent]), World.closed, hdropped, hsent]
    rfl
  · rw [Broadcast.recv_zero (by rw [h.capacity f flight hget]; decide) hsent, hsent]
    rfl

theorem Inv.call (h : w.Inv) (k : κ) :
    ({ w with callers := w.callers ++ [⟨k, .called⟩] } : World κ).Inv := by
  refine ⟨fun j d hj => ?_, h.capacity, fun f flight hget => ?_, h.entries⟩
  · rcases Nat.lt_or_ge j w.callers.length with hlt | hge
    · rw [List.getElem?_append_left hlt] at hj
      exact (h.follows j d hj).mono (fun _ flight hget => ⟨flight, hget, .refl _ _⟩)
        fun _ _ _ => Iff.rfl
    · rw [List.getElem?_append_right hge] at hj
      obtain rfl := List.mem_singleton.1 (List.mem_of_getElem? hj)
      trivial
  · obtain ⟨o, ho, hf⟩ := h.owners f flight hget
    exact ⟨o, by rw [List.getElem?_append_left (List.getElem?_eq_some_iff.1 ho).1, ho], hf⟩

/-- A step of a caller keeps the invariant, unless it looks up a flight that has sent its result. -/
theorem Inv.act {w' : World κ} {a : Act} (h : w.Inv) (hc : w.callers[i]? = some c)
    (hguard : a = .lookup ∨ a = .enter → ∀ (f : Nat) (flight : Flight κ), w.map.get? c.key = some f →
      w.flights[f]? = some flight → flight.tx.sent = [])
    (hw' : w.act i c a = some w') : w'.Inv := by
  have hfollows := h.follows i c hc
  unfold World.act at hw'
  split at hw' <;> rename_i hphase <;> try rw [hphase] at hfollows
  · have hnone : c.phase.flight = none := by rw [hphase]; rfl
    split at hw' <;> rename_i hmap
    · exact h.subscribe hc hnone hmap (hguard (.inl rfl) _ · hmap) hw'
    · cases hw'
      exact h.goTo hc trivial fun f flight hget howner =>
        absurd howner (h.not_owner hc hget (by simp [hnone]))
  · have hnone : c.phase.flight = none := by rw [hphase]; rfl
    split at hw' <;> rename_i hmap
    · exact h.subscribe hc hnone hmap (hguard (.inr rfl) _ · hmap) hw'
    · cases hw'
      exact h.enterFlight hc hnone hmap
  · cases hw'
    obtain ⟨flight, howns⟩ := hfollows
    have hruns : flight.runs = 0 := howns.runs
    refine h.modifyFlight hc hphase howns rfl rfl rfl (fun _ hr => ?_) rfl fun w' hget hmap => ?_
    · rw [hruns] at hr
      exact nomatch hr
    · exact ⟨_, hget, howns.key, howns.owner, congrArg (· + 1) hruns, howns.sent, howns.dropped,
        by rw [hmap]; exact howns.inMap⟩
  · cases hw'
    obtain ⟨flight, howns⟩ := hfollows
    refine h.goTo hc ⟨flight, howns.get, howns.key, howns.owner, howns.runs, howns.sent,
      howns.dropped, howns.inMap⟩ fun g fl hget howner => ?_
    rw [h.flight_of_owner hc (by rw [hphase]; rfl) hget howner]
    rfl
  · cases hw'
    obtain ⟨flight, howns⟩ := hfollows
    have hsent : flight.tx.sent = [] := howns.sent
    refine h.modifyFlight hc hphase howns rfl rfl rfl (fun _ _ hs => ?_) rfl fun w' hget hmap => ?_
    · rw [hsent] at hs
      exact nomatch hs
    · exact ⟨_, hget, howns.key, howns.owner, howns.runs, by simp [hsent, Stage.values],
        howns.dropped, by rw [hmap]; exact howns.inMap⟩
  · cases hw'
    exact h.remove hc hphase
  · cases hw'
    obtain ⟨flight, howns⟩ := hfollows
    refine h.modifyFlight hc hphase howns rfl rfl rfl (fun _ hr hs => ⟨hr, hs⟩) rfl
      fun w' hget hmap => ?_
    exact ⟨_, hget, howns.key, howns.runs, howns.sent⟩
  · obtain ⟨-, flight, hget, hkey, hne⟩ := hfollows
    rw [h.recv_eq hc hphase hget] at hw'
    obtain ⟨result, hhead, rfl⟩ := Option.map_eq_some_iff.1 hw'
    obtain ⟨-, hruns, ⟨hsent, -⟩ | ⟨result', hsent, hresult⟩⟩ := h.flight_spec hget
    · rw [hsent] at hhead
      exact nomatch hhead
    · rw [hsent] at hhead
      cases hhead
      refine h.goTo hc ⟨flight, hget, hkey, hruns (by rw [hresult]; rfl), hsent⟩ ?_
      intro g fl hg howner
      rw [h.flight_of_owner hc (by rw [hphase]; rfl) hg howner]
      rfl
  · cases hw'
    obtain ⟨-, flight, hget, -, hne⟩ := hfollows
    refine h.goTo hc trivial fun g fl hg howner => ?_
    obtain rfl := h.flight_of_owner hc (by rw [hphase]; rfl) hg howner
    obtain rfl := Option.some.inj (hget.symm.trans hg)
    exact absurd howner hne
  · exact nomatch hw'

/-- **Every guarded move keeps the invariant.** -/
theorem Inv.step {w' : World κ} {m : Move κ} (h : w.Inv) (hguard : m.Guarded w)
    (hm : w.step m = some w') : w'.Inv := by
  cases m with
  | call key =>
    cases hm
    exact h.call key
  | act i a =>
    obtain ⟨c, hc, hm⟩ := Option.bind_eq_some_iff.1 hm
    refine h.act hc (fun ha f flight hf hget => ?_) hm
    rcases ha with rfl | rfl
    · exact hguard c f flight hc hf hget
    · exact hguard c f flight hc hf hget

/-- **The results are delivered.**  In every run in which nobody looks up a key whose flight has sent its
result and is still in the map, each flight computes once, and whoever has joined it returns the result
of its owner. -/
theorem guarded_delivers (hrun : Reach step (fun w m => m.Guarded w) init w) : w.Delivered := by
  have hinv : w.Inv := hrun.inv (fun _ _ _ h hguard hm => h.step hguard hm) inv_init
  refine ⟨fun i c f hc hf => (hinv.follows i c hc).flight hf, fun f flight hget => ?_,
    fun i c f result hc hphase => ?_, fun i c o f pos flight result hc hphase hget ho hresult => ?_⟩
  · obtain ⟨hle, hone, -⟩ := hinv.flight_spec hget
    exact ⟨hle, hone⟩
  · have hfollows := hinv.follows i c hc
    rw [hphase] at hfollows
    obtain ⟨flight, hget, -, -, hsent⟩ := hfollows
    obtain ⟨-, -, ⟨hnil, -⟩ | ⟨result', hsent', hresult⟩⟩ := hinv.flight_spec hget
    · rw [hsent] at hnil
      exact nomatch hnil
    · rw [hsent] at hsent'
      cases hsent'
      exact hresult
  · have howner := hinv.follows _ o ho
    rw [hresult] at howner
    obtain ⟨flight', hget', -, -, hsent⟩ := howner
    obtain rfl := Option.some.inj (hget'.symm.trans hget)
    have hact : w.act i c .recv = w.recv i c f pos := by simp [World.act, hphase]
    refine ⟨w.goTo i c (.returned f result), ?_, ?_⟩
    · rw [World.step, hc, Option.bind_some, hact, hinv.recv_eq hc hphase hget, hsent]
      rfl
    · rw [World.goTo, List.getElem?_set_self (List.getElem?_eq_some_iff.1 hc).1]

/-- The answer of the examples. -/
def someAnswer : FlightResult := .ok [.v4 0x01020304]

theorem guarded_delivers_two : ∃ w : World String,
    Reach step (fun w m => m.Guarded w) init w ∧ w.Delivered ∧
      (w.callers.map fun c => c.phase) = [.returned 0 someAnswer, .returned 0 someAnswer] := by
  have hrun : Reach step (fun w m => m.Guarded w) (init : World String) _ :=
    (((((((((((Reach.refl.tail (m := .call "test.com") trivial rfl).tail
      (m := .call "test.com") trivial rfl).tail
      (m := .act 0 .lookup) (fun c f flight hc hf hget => by cases hc; exact nomatch hf) rfl).tail
      (m := .act 0 .enter) (fun c f flight hc hf hget => by cases hc; exact nomatch hf) rfl).tail
      (m := .act 1 .lookup) (fun c f flight hc hf hget => by cases hc; cases hf; cases hget; rfl)
        rfl).tail
      (m := .act 0 .start) trivial rfl).tail
      (m := .act 0 (.finish someAnswer)) trivial rfl).tail
      (m := .act 0 .send) trivial rfl).tail
      (m := .act 0 .remove) trivial rfl).tail
      (m := .act 0 .leave) trivial rfl).tail
      (m := .act 1 .recv) trivial rfl)
  exact ⟨_, hrun, guarded_delivers hrun, rfl⟩

/-- A caller that looks the key up after the result was sent, and before the entry is removed, gets an
error and not the result. -/
theorem late_caller_lost :
    ¬∀ w : World String, Reach step anyMove init w → w.Delivered := by
  intro h
  have hrun : runMoves step (init : World String)
      [.call "test.com", .call "test.com", .act 0 .lookup, .act 0 .enter, .act 0 .start,
        .act 0 (.finish someAnswer), .act 0 .send, .act 1 .lookup, .act 0 .remove, .act 0 .leave,
        .act 1 .recv] = some _ := rfl
  have hsame : some someAnswer = some senderDropped :=
    (h _ (reach_of_runMoves hrun)).same 1 _ 0 senderDropped rfl rfl
  exact absurd hsame (by simp [someAnswer, senderDropped])

end World

end Singleflight

end WutherCore.Resolver
