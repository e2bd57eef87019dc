import WutherCore.Net.Prefix

/-!
# The ledger of routes

`RouteTable` keeps a ledger of the routes that it has added, so that it can take them out of the system again.
`revertAll` is for the end of the process, and forgets a route that the backend cannot delete; `revertAllChecked` keeps it
for another try.

* `Account` is what the ledger is for: all routes that were ever added, each with its fate.
* `runTable_refines`: over any calls, with any failures of the backend, the ledger has the routes that are still owned,
  in the order in which they were added.
-/

namespace WutherCore.Capture

open WutherCore.Text WutherCore.Net

/-- `ManagedRoute`. -/
structure ManagedRoute where
  dest : IpNet
  gateway : Option IpAddr
  interface : Str
  metric : UInt32
  table : Option UInt32
  deriving DecidableEq

/-- A `RouteBackend` with a state of its own. -/
structure RouteBackend (σ : Type) where
  add : ManagedRoute → σ → Except Str Unit × σ
  del : ManagedRoute → σ → Except Str Unit × σ
  ensure : ManagedRoute → σ → Except Str Unit × σ

/-- `is_expected_route_delete_absence`. -/
def isExpectedRouteDeleteAbsence (error : Str) : Bool :=
  let lower := toAsciiLowercase error
  if "spawn ".toList.isPrefixOf lower then false
  else
    ["rtnetlink answers: no such process", "rtnetlink answers: no such file or directory", "no such process",
      "not in table", "element not found", "(os error 1168)"].any fun needle => contains lower needle.toList

/-- `Debug` of an optional number. -/
def debugTable : Option UInt32 → Str
  | none => "None".toList
  | some n => "Some(".toList ++ decimal n.toNat ++ ")".toList

/-- The report of a route that could not be deleted. -/
def revertError (r : ManagedRoute) (e : Str) : Str :=
  r.dest.display ++ " via ".toList ++ r.interface ++ " (table ".toList ++ debugTable r.table ++ "): ".toList ++ e

/-- Some errors as one, if there are any. -/
def joinErrors (errors : List Str) : Except Str Unit :=
  if errors = [] then .ok () else .error (join "; ".toList errors)

/-- A `RouteTable`: the ledger, and the state of the backend. -/
structure RouteTable (σ : Type) where
  inner : List ManagedRoute
  backend : σ

namespace RouteTable

variable {σ : Type} (b : RouteBackend σ) (t : RouteTable σ)

/-- `add`. -/
def add (r : ManagedRoute) : Except Str Unit × RouteTable σ :=
  match b.add r t.backend with
  | (.error e, s) => (.error e, { t with backend := s })
  | (.ok _, s) => (.ok (), ⟨t.inner ++ [r], s⟩)

/-- A turn of the loop of `reconcile_all`. -/
def ensureTurn (state : List Str × σ) (r : ManagedRoute) : List Str × σ :=
  match b.ensure r state.2 with
  | (.ok _, s) => (state.1, s)
  | (.error e, s) => (state.1 ++ [e], s)

/-- `reconcile_all`. -/
def reconcileAll : Except Str Unit × RouteTable σ :=
  let (errors, s) := t.inner.foldl (ensureTurn b) ([], t.backend)
  (joinErrors errors, { t with backend := s })

/-- A turn of the loop of `revert_all_impl`, on the errors, the routes to retain and the backend. -/
def revertTurn (retainFailed : Bool) (state : List Str × List ManagedRoute × σ) (r : ManagedRoute) :
    List Str × List ManagedRoute × σ :=
  let (errors, failed, s) := state
  match b.del r s with
  | (.ok _, s) => (errors, failed, s)
  | (.error e, s) =>
      if isExpectedRouteDeleteAbsence e then (errors, failed, s)
      else (errors ++ [revertError r e], if retainFailed then failed ++ [r] else failed, s)

/-- `revert_all_impl`: from the last route to the first. -/
def revertAllImpl (retainFailed : Bool) : Except Str Unit × RouteTable σ :=
  let (errors, failed, s) := t.inner.reverse.foldl (revertTurn b retainFailed) ([], [], t.backend)
  (joinErrors errors, ⟨failed.reverse, s⟩)

/-- `revert_all`. -/
def revertAll : RouteTable σ := (t.revertAllImpl b false).2

/-- `revert_all_checked`. -/
def revertAllChecked : Except Str Unit × RouteTable σ := t.revertAllImpl b true

end RouteTable

/-- The calls of a `RouteTable`. -/
inductive RouteCall
  | add (r : ManagedRoute)
  | reconcileAll
  | revertAll
  | revertAllChecked

/-- A call, and what it returns. -/
def RouteTable.call {σ : Type} (b : RouteBackend σ) (t : RouteTable σ) : RouteCall → Except Str Unit × RouteTable σ
  | .add r => t.add b r
  | .reconcileAll => t.reconcileAll b
  | .revertAll => (.ok (), t.revertAll b)
  | .revertAllChecked => t.revertAllChecked b

/-! ### The account -/

/-- What has become of a route that was added. -/
inductive Fate
  /-- It is to be deleted. -/
  | owned
  /-- The backend has deleted it, or it was not there. -/
  | deleted
  /-- It could not be deleted, and nobody will try again. -/
  | abandoned
  deriving DecidableEq

/-- All routes that the backend has added, in their order, with their fates. -/
abbrev Account := List (ManagedRoute × Fate)

/-- The routes of some fates. -/
def Account.withFate (account : Account) (p : Fate → Bool) : List ManagedRoute :=
  (account.filter fun e => p e.2).map Prod.fst

/-- The routes that are owned. -/
def Account.owned (account : Account) : List ManagedRoute := account.withFate (· = .owned)

section Account

variable {σ : Type} (b : RouteBackend σ)

/-- The result of a deletion that has failed. -/
def deletionFailed : Except Str Unit → Bool
  | .ok _ => false
  | .error e => !isExpectedRouteDeleteAbsence e

/-- The fate of a route after a deletion, and the report of a failure. -/
def fateAfter (retainFailed : Bool) (r : ManagedRoute) : Except Str Unit → Fate × List Str
  | .ok _ => (.deleted, [])
  | .error e =>
      if isExpectedRouteDeleteAbsence e then (.deleted, [])
      else (if retainFailed then .owned else .abandoned, [revertError r e])

/-- The results of the deletion of some routes, from the last to the first. -/
def deleteAll : List ManagedRoute → σ → List (ManagedRoute × Except Str Unit) × σ
  | [], s => ([], s)
  | r :: routes, s =>
      let (later, s) := deleteAll routes s
      let deletion := b.del r s
      ((r, deletion.1) :: later, deletion.2)

/-- The deletion of all routes that are owned, from the last to the first. -/
def Account.settle (retainFailed : Bool) : Account → σ → Account × List Str × σ
  | [], s => ([], [], s)
  | (r, fate) :: account, s =>
      let (account, errors, s) := settle retainFailed account s
      if fate = .owned then
        let deletion := b.del r s
        let fate := fateAfter retainFailed r deletion.1
        ((r, fate.1) :: account, errors ++ fate.2, deletion.2)
      else ((r, fate) :: account, errors, s)

/-- A call as the account sees it. -/
def Account.call (account : Account) (s : σ) : RouteCall → Except Str Unit × Account × σ
  | .add r =>
      match b.add r s with
      | (.error e, s) => (.error e, account, s)
      | (.ok _, s) => (.ok (), account ++ [(r, .owned)], s)
  | .reconcileAll =>
      let (errors, s) := account.owned.foldl (RouteTable.ensureTurn b) ([], s)
      (joinErrors errors, account, s)
  | .revertAll => (.ok (), (Account.settle b false account s).1, (Account.settle b false account s).2.2)
  | .revertAllChecked =>
      let (account, errors, s) := Account.settle b true account s
      (joinErrors errors, account, s)

end Account

section Refinement

variable {σ : Type} {b : RouteBackend σ}

theorem owned_cons (r : ManagedRoute) (fate : Fate) (account : Account) :
    Account.owned ((r, fate) :: account) = if fate = .owned then r :: account.owned else account.owned := by
  unfold Account.owned Account.withFate
  by_cases howned : fate = .owned
  · rw [List.filter_cons_of_pos (by simpa using howned), if_pos howned, List.map_cons]
  · rw [List.filter_cons_of_neg (by simpa using howned), if_neg howned]

/-- **The loop of `revert_all_impl` settles the account**: the routes it retains are those that are owned afterwards. -/
theorem foldl_revertTurn (retainFailed : Bool) (account : Account) (s : σ) :
    account.owned.reverse.foldl (RouteTable.revertTurn b retainFailed) ([], [], s) =
      ((Account.settle b retainFailed account s).2.1, (Account.settle b retainFailed account s).1.owned.reverse,
        (Account.settle b retainFailed account s).2.2) := by
  induction account with
  | nil => rfl
  | cons e account ih =>
    obtain ⟨r, fate⟩ := e
    rw [owned_cons, Account.settle]
    by_cases howned : fate = .owned
    · rw [if_pos howned, List.reverse_cons, List.foldl_append, ih]
      generalize Account.settle b retainFailed account s = settled
      obtain ⟨account', errors, s'⟩ := settled
      rw [List.foldl_cons, List.foldl_nil, RouteTable.revertTurn]
      dsimp only
      rw [if_pos howned]
      generalize b.del r s' = deleted
      obtain ⟨result, s''⟩ := deleted
      cases result with
      | ok _ => simp [fateAfter, owned_cons]
      | error e =>
        dsimp only [fateAfter]
        by_cases habsent : isExpectedRouteDeleteAbsence e = true
        · simp [habsent, owned_cons]
        · cases retainFailed <;> simp [habsent, owned_cons]
    · rw [if_neg howned, ih]
      simp [owned_cons, howned]

theorem call_refines (account : Account) (s : σ) (c : RouteCall) :
    RouteTable.call b ⟨account.owned, s⟩ c =
      ((Account.call b account s c).1, ⟨(Account.call b account s c).2.1.owned, (Account.call b account s c).2.2⟩) := by
  cases c with
  | add r =>
    rw [RouteTable.call, RouteTable.add, Account.call]
    generalize b.add r s = added
    obtain ⟨result, s'⟩ := added
    cases result with
    | error e => rfl
    | ok _ =>
      have hsnoc : Account.owned (account ++ [(r, .owned)]) = account.owned ++ [r] := by
        simp [Account.owned, Account.withFate]
      dsimp only
      rw [hsnoc]
  | reconcileAll => rfl
  | revertAll =>
    rw [RouteTable.call, RouteTable.revertAll, RouteTable.revertAllImpl, foldl_revertTurn, Account.call]
    simp
  | revertAllChecked =>
    rw [RouteTable.call, RouteTable.revertAllChecked, RouteTable.revertAllImpl, foldl_revertTurn, Account.call]
    simp

theorem settle_retain (account : Account) (s : σ) :
    (Account.settle b true account s).1.owned =
        ((deleteAll b account.owned s).1.filter fun e => deletionFailed e.2).map Prod.fst ∧
      (Account.settle b true account s).2.2 = (deleteAll b account.owned s).2 := by
  induction account with
  | nil => exact ⟨rfl, rfl⟩
  | cons e account ih =>
    obtain ⟨r, fate⟩ := e
    rw [owned_cons, Account.settle]
    dsimp only
    by_cases howned : fate = .owned
    · rw [if_pos howned, if_pos howned, deleteAll]
      dsimp only
      rw [← ih.2, owned_cons, ih.1]
      refine ⟨?_, rfl⟩
      cases (b.del r (Account.settle b true account s).2.2).1 with
      | ok _ => rfl
      | error e =>
        dsimp only [fateAfter]
        by_cases habsent : isExpectedRouteDeleteAbsence e = true
        · simp [deletionFailed, habsent]
        · simp [deletionFailed, habsent]
    · rw [if_neg howned, if_neg howned, owned_cons, if_neg howned]
      exact ih

end Refinement

/-! ### Runs -/

section Runs

variable {σ : Type} (b : RouteBackend σ)

/-- The results of some calls, and the table after them. -/
def RouteTable.run : RouteTable σ → List RouteCall → List (Except Str Unit) × RouteTable σ
  | t, [] => ([], t)
  | t, c :: calls =>
      let (result, t) := RouteTable.call b t c
      let (results, t) := RouteTable.run t calls
      (result :: results, t)

/-- The same as the account sees it. -/
def Account.run : Account → σ → List RouteCall → List (Except Str Unit) × Account × σ
  | account, s, [] => ([], account, s)
  | account, s, c :: calls =>
      let (result, account, s) := Account.call b account s c
      let (results, account, s) := Account.run account s calls
      (result :: results, account, s)

/-- The routes of the calls that have added one. -/
def addedRoutes : List RouteCall → List (Except Str Unit) → List ManagedRoute
  | .add r :: calls, .ok _ :: results => r :: addedRoutes calls results
  | _ :: calls, _ :: results => addedRoutes calls results
  | _, _ => []

variable {b}

/-- **The table refines its account**, over any calls. -/
theorem runTable_refines (account : Account) (s : σ) (calls : List RouteCall) :
    RouteTable.run b ⟨account.owned, s⟩ calls =
      ((Account.run b account s calls).1,
        ⟨(Account.run b account s calls).2.1.owned, (Account.run b account s calls).2.2⟩) := by
  induction calls generalizing account s with
  | nil => rfl
  | cons c calls ih =>
    rw [RouteTable.run, call_refines, Account.run]
    dsimp only
    rw [ih]

theorem settle_routes (retainFailed : Bool) (account : Account) (s : σ) :
    (Account.settle b retainFailed account s).1.map Prod.fst = account.map Prod.fst := by
  induction account with
  | nil => rfl
  | cons e account ih =>
    obtain ⟨r, fate⟩ := e
    rw [Account.settle]
    dsimp only
    split_ifs with howned
    · rw [List.map_cons, List.map_cons, ih]
    · rw [List.map_cons, List.map_cons, ih]

/-- The account has the routes that were added, in their order. -/
theorem routes_run (account : Account) (s : σ) (calls : List RouteCall) :
    (Account.run b account s calls).2.1.map Prod.fst =
      account.map Prod.fst ++ addedRoutes calls (Account.run b account s calls).1 := by
  induction calls generalizing account s with
  | nil => simp [Account.run, addedRoutes]
  | cons c calls ih =>
    rw [Account.run]
    dsimp only
    rw [ih]
    cases c with
    | add r =>
      rw [Account.call]
      generalize b.add r s = added
      obtain ⟨result, s'⟩ := added
      cases result with
      | error e => rfl
      | ok _ => simp [addedRoutes]
    | reconcileAll => rfl
    | revertAll =>
      rw [Account.call]
      dsimp only
      rw [settle_routes]
      rfl
    | revertAllChecked =>
      rw [Account.call]
      dsimp only
      rw [settle_routes]
      rfl

end Runs

/-- **The ledger is exact.**  After any calls and with any failures of the backend, it has the routes that were added,
less those that were deleted and those that a `revertAll` has given up, in the order in which they were added.  A route
that could not be added is not in it, and a checked revert retains the routes whose deletion has failed. -/
theorem ledger_exact {σ : Type} (b : RouteBackend σ) (s : σ) (calls : List RouteCall) :
    let run := RouteTable.run b ⟨[], s⟩ calls
    let account := (Account.run b [] s calls).2.1
    run.1 = (Account.run b [] s calls).1 ∧ run.2.backend = (Account.run b [] s calls).2.2 ∧
      account.map Prod.fst = addedRoutes calls run.1 ∧ run.2.inner = account.owned ∧
      (∀ r e, (run.2.add b r).1 = .error e → (run.2.add b r).2.inner = run.2.inner) ∧
      (run.2.revertAllChecked b).2.inner =
        ((deleteAll b run.2.inner run.2.backend).1.filter fun e => deletionFailed e.2).map Prod.fst := by
  intro run account
  have hrun : run = ((Account.run b [] s calls).1, ⟨account.owned, (Account.run b [] s calls).2.2⟩) :=
    runTable_refines [] s calls
  rw [hrun]
  refine ⟨rfl, rfl, routes_run [] s calls, rfl, fun r e hfailed => ?_, ?_⟩
  · unfold RouteTable.add at hfailed ⊢
    dsimp only at hfailed ⊢
    generalize b.add r (Account.run b [] s calls).2.2 = added at hfailed ⊢
    obtain ⟨result, s'⟩ := added
    cases result with
    | error e => rfl
    | ok _ => cases hfailed
  · rw [RouteTable.revertAllChecked, RouteTable.revertAllImpl, foldl_revertTurn]
    dsimp only
    rw [List.reverse_reverse]
    exact (settle_retain account _).1

/-- A backend that adds routes and does not delete them. -/
def stuckBackend : RouteBackend Unit where
  add _ s := (.ok (), s)
  del _ s := (.error "boom".toList, s)
  ensure _ s := (.ok (), s)

/-- A route through `x`. -/
def someRoute : ManagedRoute where
  dest := .v4 ⟨0x0a000000, 8, by decide⟩
  gateway := none
  interface := "x".toList
  metric := 1
  table := none

/-- `revertAll` forgets a route that was not deleted. -/
theorem revertAll_forgets :
    ¬∀ (σ : Type) (b : RouteBackend σ) (s : σ) (calls : List RouteCall),
      (RouteTable.run b ⟨[], s⟩ calls).2.inner = (Account.run b [] s calls).2.1.withFate (· ≠ .deleted) := by
  intro hall
  have hledger := hall Unit stuckBackend () [.add someRoute, .revertAll]
  revert hledger
  decide +kernel

end WutherCore.Capture
