import WutherCore.Data.Except

/-!
# Reading a stream element by element

A reader that keeps a state, takes one element at a time and may put out some.  What it puts out for a
stream does not depend on how the stream is cut into pieces (`runAll_eq`), so a fact about the whole
stream (`Reads`) is one about every cutting of it.
-/

namespace WutherCore.Data.Transducer

variable {σ α β ε : Type*} (step : σ → α → Except ε (σ × List β))

/-- The reader over one piece of the stream. -/
def run : σ → List α → Except ε (σ × List β)
  | s, [] => .ok (s, [])
  | s, a :: as => do
    let (s, out) ← step s a
    let (s, rest) ← run s as
    .ok (s, out ++ rest)

/-- The reader over the pieces of the stream, one call for each. -/
def runAll : σ → List (List α) → Except ε (σ × List β)
  | s, [] => .ok (s, [])
  | s, piece :: pieces => do
    let (s, out) ← run step s piece
    let (s, rest) ← runAll s pieces
    .ok (s, out ++ rest)

/-- The reader goes from one state to another over the elements and puts out the given ones. -/
def Reads (s : σ) (as : List α) (s' : σ) (out : List β) : Prop := run step s as = .ok (s', out)

variable {step} {s s' s'' : σ} {a : α} {as bs : List α} {out out' : List β}

theorem Reads.nil : Reads step s [] s [] := rfl

theorem Reads.cons (h : step s a = .ok (s', out)) (hs : Reads step s' as s'' out') :
    Reads step s (a :: as) s'' (out ++ out') := by
  unfold Reads at hs ⊢
  rw [run, h]
  change (run step s' as >>= _) = _
  rw [hs]
  rfl

theorem Reads.single (h : step s a = .ok (s', out)) : Reads step s [a] s' out := by
  have h' := Reads.cons h Reads.nil
  rwa [List.append_nil] at h'

theorem reads_cons_iff : Reads step s (a :: as) s'' out ↔
    ∃ s' out' rest, step s a = .ok (s', out') ∧ Reads step s' as s'' rest ∧ out = out' ++ rest := by
  constructor
  · intro h
    unfold Reads at h
    rw [run] at h
    obtain ⟨⟨s', out'⟩, hstep, h⟩ := bind_eq_ok.1 h
    obtain ⟨⟨t, rest⟩, hrun, h⟩ := bind_eq_ok.1 h
    cases h
    exact ⟨s', out', rest, hstep, hrun, rfl⟩
  · rintro ⟨s', out', rest, hstep, hrun, rfl⟩
    exact hrun.cons hstep

theorem Reads.append (ha : Reads step s as s' out) (hb : Reads step s' bs s'' out') :
    Reads step s (as ++ bs) s'' (out ++ out') := by
  induction as generalizing s out with
  | nil =>
    cases ha
    exact hb
  | cons a as ih =>
    obtain ⟨t, o, rest, hstep, hrun, rfl⟩ := reads_cons_iff.1 ha
    rw [List.append_assoc]
    exact (ih hrun).cons hstep

theorem Reads.split (h : Reads step s (as ++ bs) s'' out) :
    ∃ s' o o', Reads step s as s' o ∧ Reads step s' bs s'' o' ∧ out = o ++ o' := by
  induction as generalizing s out with
  | nil => exact ⟨s, [], out, Reads.nil, h, rfl⟩
  | cons a as ih =>
    obtain ⟨t, o, rest, hstep, hrun, rfl⟩ := reads_cons_iff.1 h
    obtain ⟨s', o', o'', hfirst, hsecond, rfl⟩ := ih hrun
    exact ⟨s', o ++ o', o'', hfirst.cons hstep, hsecond, (List.append_assoc _ _ _).symm⟩

/-- **The pieces a stream comes in make no difference.** -/
theorem runAll_eq {pieces : List (List α)} (h : Reads step s pieces.flatten s' out) :
    runAll step s pieces = .ok (s', out) := by
  induction pieces generalizing s out with
  | nil =>
    cases h
    rfl
  | cons piece pieces ih =>
    rw [List.flatten_cons] at h
    obtain ⟨t, o, o', hfirst, hsecond, rfl⟩ := h.split
    have hfirst' : run step s piece = .ok (t, o) := hfirst
    rw [runAll, hfirst']
    change (runAll step t pieces >>= _) = _
    rw [ih hsecond]
    rfl

end WutherCore.Data.Transducer
