import Mathlib.Data.List.Basic

/-!
# Runs that may fail or panic

`Run σ τ ε α` is a computation on a state: it ends in a value, in an error, or in a panic, and leaves
a trace of events.

`Safe bad Q m` says that the run `m` panics exactly when its trace has a bad event, and that its
values satisfy `Q`.  The rules below take it apart along the structure of a program.
-/

namespace WutherCore.Data

/-- How a run ends. -/
inductive Ending (ε α : Type)
  | ok (value : α)
  | error (e : ε)
  | panic

/-- A computation on a state `σ` with events `τ` and errors `ε`. -/
def Run (σ τ ε α : Type) := σ → List τ × Ending ε (α × σ)

namespace Run

variable {σ τ ε α β : Type}

/-- The run that returns a value. -/
def ret (a : α) : Run σ τ ε α := fun s => ([], .ok (a, s))

/-- One run after another. -/
def andThen (m : Run σ τ ε α) (k : α → Run σ τ ε β) : Run σ τ ε β := fun s =>
  match m s with
  | (trace, .ok (a, s)) => (trace ++ (k a s).1, (k a s).2)
  | (trace, .error e) => (trace, .error e)
  | (trace, .panic) => (trace, .panic)

instance : Monad (Run σ τ ε) where
  pure := ret
  bind := andThen

/-- Ends in an error. -/
def fail (e : ε) : Run σ τ ε α := fun _ => ([], .error e)

/-- Ends in a panic. -/
def crash : Run σ τ ε α := fun _ => ([], .panic)

/-- Ends in an error if the condition holds. -/
def rejectIf (c : Prop) [Decidable c] (e : ε) : Run σ τ ε Unit := if c then fail e else ret ()

/-- The value, or a panic where there is none: an index out of bounds. -/
def orCrash : Option α → Run σ τ ε α
  | some a => ret a
  | none => crash

/-- An event. -/
def emit (t : τ) : Run σ τ ε Unit := fun s => ([t], .ok ((), s))

/-- A given ending, in an unchanged state. -/
def ofEnding : Ending ε α → Run σ τ ε α
  | .ok a => ret a
  | .error e => fail e
  | .panic => crash

/-- A computation that may fail, in an unchanged state. -/
def ofExcept : Except ε α → Run σ τ ε α
  | .ok a => ret a
  | .error e => fail e

/-- The value of a part of the state. -/
def gets (f : σ → α) : Run σ τ ε α := fun s => ([], .ok (f s, s))

/-- A change of the state. -/
def modify (f : σ → σ) : Run σ τ ε Unit := fun s => ([], .ok ((), f s))

/-- The run with its error changed. -/
def mapError (f : ε → ε) (m : Run σ τ ε α) : Run σ τ ε α := fun s =>
  match m s with
  | (trace, .error e) => (trace, .error (f e))
  | r => r

/-- The values of a run for each index of a range. -/
def forIndex (f : Nat → Run σ τ ε α) : (start count : Nat) → Run σ τ ε (List α)
  | _, 0 => ret []
  | start, count + 1 => do
      let a ← f start
      let rest ← forIndex f (start + 1) count
      return a :: rest

/-! ### Safety -/

/-- The run panics exactly when its trace has a bad event, and its values satisfy `Q`. -/
def Safe (bad : τ → Prop) (Q : α → Prop) (m : Run σ τ ε α) : Prop :=
  ∀ s, match m s with
    | (trace, .ok (a, _)) => (∀ t ∈ trace, ¬bad t) ∧ Q a
    | (trace, .error _) => ∀ t ∈ trace, ¬bad t
    | (trace, .panic) => ∃ t ∈ trace, bad t

variable {bad : τ → Prop} {Q : α → Prop} {R : β → Prop} {m : Run σ τ ε α}

theorem safe_ret {a : α} (h : Q a) : Safe bad Q (ret a : Run σ τ ε α) :=
  fun _ => ⟨by simp, h⟩

theorem safe_pure {a : α} (h : Q a) : Safe bad Q (pure a : Run σ τ ε α) := safe_ret h

theorem safe_fail (e : ε) : Safe bad Q (fail e : Run σ τ ε α) := fun _ => by simp [fail]

theorem safe_gets {f : σ → α} (h : ∀ s, Q (f s)) : Safe bad Q (gets f : Run σ τ ε α) :=
  fun s => ⟨by simp, h s⟩

theorem safe_modify (f : σ → σ) : Safe bad (fun _ => True) (modify f : Run σ τ ε Unit) :=
  fun _ => ⟨by simp, trivial⟩

theorem safe_rejectIf (c : Prop) [Decidable c] (e : ε) :
    Safe bad (fun _ => ¬c) (rejectIf c e : Run σ τ ε Unit) := by
  unfold rejectIf
  split_ifs with h
  · exact safe_fail e
  · exact safe_ret h

theorem safe_orCrash {a : Option α} (h : ∃ x, a = some x ∧ Q x) :
    Safe bad Q (orCrash a : Run σ τ ε α) := by
  obtain ⟨x, rfl, hx⟩ := h
  exact safe_ret hx

theorem safe_ofExcept {x : Except ε α} (h : ∀ a, x = .ok a → Q a) :
    Safe bad Q (ofExcept x : Run σ τ ε α) := by
  cases x with
  | ok a => exact safe_ret (h a rfl)
  | error e => exact safe_fail e

theorem Safe.mono {Q' : α → Prop} (h : Safe bad Q m) (hQ : ∀ a, Q a → Q' a) : Safe bad Q' m := by
  intro s
  have hs := h s
  revert hs
  rcases m s with ⟨trace, _ | _ | _⟩
  · exact fun hs => ⟨hs.1, hQ _ hs.2⟩
  · exact id
  · exact id

theorem Safe.of_ok (h : Safe bad Q m) {s s' : σ} {a : α} (hm : (m s).2 = .ok (a, s')) : Q a := by
  have hs := h s
  revert hs hm
  rcases m s with ⟨trace, _ | _ | _⟩
  · rintro ⟨⟩ ⟨-, ha⟩
    exact ha
  · rintro ⟨⟩
  · rintro ⟨⟩

theorem Safe.bind {k : α → Run σ τ ε β} (hm : Safe bad Q m) (hk : ∀ a, Q a → Safe bad R (k a)) :
    Safe bad R (m >>= k) := by
  intro s
  have hs := hm s
  show match andThen m k s with
    | (trace, .ok (a, _)) => (∀ t ∈ trace, ¬bad t) ∧ R a
    | (trace, .error _) => ∀ t ∈ trace, ¬bad t
    | (trace, .panic) => ∃ t ∈ trace, bad t
  unfold andThen
  revert hs
  rcases m s with ⟨trace, ⟨a, s'⟩ | e | _⟩
  · rintro ⟨htrace, ha⟩
    have hk' := hk a ha s'
    revert hk'
    dsimp only
    rcases k a s' with ⟨trace', ⟨b, s''⟩ | e | _⟩
    · exact fun hk' => ⟨fun t ht => (List.mem_append.1 ht).elim (htrace t) (hk'.1 t), hk'.2⟩
    · exact fun hk' t ht => (List.mem_append.1 ht).elim (htrace t) (hk' t)
    · exact fun ⟨t, ht, hbad⟩ => ⟨t, List.mem_append_right _ ht, hbad⟩
  · exact id
  · exact id

theorem safe_emit_ofEnding {t : τ} {x : Ending ε α} (hpanic : x = .panic ↔ bad t)
    (hok : ∀ a, x = .ok a → Q a) :
    Safe bad Q (emit t >>= fun _ => ofEnding x : Run σ τ ε α) := by
  intro s
  show match andThen (emit t) (fun _ => ofEnding x) s with
    | (trace, .ok (a, _)) => (∀ t ∈ trace, ¬bad t) ∧ Q a
    | (trace, .error _) => ∀ t ∈ trace, ¬bad t
    | (trace, .panic) => ∃ t ∈ trace, bad t
  cases x with
  | ok a => simpa [andThen, emit, ofEnding, ret] using ⟨fun h => by simp [h] at hpanic, hok a rfl⟩
  | error e => simpa [andThen, emit, ofEnding, fail] using hpanic
  | panic => simpa [andThen, emit, ofEnding, crash] using hpanic

theorem Safe.mapError (h : Safe bad Q m) (f : ε → ε) : Safe bad Q (m.mapError f) := by
  intro s
  have hs := h s
  unfold Run.mapError
  revert hs
  rcases m s with ⟨trace, _ | _ | _⟩ <;> exact id

theorem safe_forIndex {f : Nat → Run σ τ ε α} (h : ∀ i, Safe bad Q (f i)) (start count : Nat) :
    Safe bad (fun as => ∀ a ∈ as, Q a) (forIndex f start count) := by
  induction count generalizing start with
  | zero => exact safe_ret (by simp)
  | succ count ih =>
    refine (h start).bind fun a ha => (ih (start + 1)).bind fun rest hrest => safe_pure ?_
    simpa [ha] using hrest

end Run

end WutherCore.Data
