import WutherCore.Data.Transport
import WutherCore.Sudoku.Record

/-!
# Sudoku: polls of a record stream

`RecordStream::poll_write` seals what it is given and then hands the frames to the transport.  When the
transport answers `Pending`, the frames that were not written are dropped, and the writer polls again
with the same bytes, which are sealed a second time.

* `World.step`: a poll of the writer, with the answers of the transport.
* `Poll.Ok`: the polls after which the receiver is not lost: `Pending` is answered at once or not at all,
  nothing is written after sealed frames were dropped unless the epoch has moved on, and the epoch has
  not wrapped.
* `World.reach_received`: if all polls are such, the receiver gets what was accepted.
* `polled_twice`: a poll that is repeated after `Pending` is one that is not.
-/

namespace WutherCore.Sudoku

open WutherCore.Data

/-- A poll of the writer: the bytes, the sequence numbers that are drawn when the key is updated, and
the answers of the transport. -/
structure Poll where
  data : List UInt8
  draw : Nat → UInt64
  answers : List Answer

/-- A stream and its writer.  `retry` is what the writer has to poll with, after `Pending`; `last` is
the count of sealed bytes before and after the last frame that was written. -/
structure World where
  send : SendState
  wire : List UInt8 := []
  accepted : List UInt8 := []
  retry : Option (List UInt8) := none
  last : Option (Nat × Nat) := none

/-- The stream of a cryptor that has drawn its first epoch and sequence number. -/
def World.new (epoch : UInt32) (seq : UInt64) : World := { send := { epoch := epoch, seq := seq } }

section Model

variable (cr : Ciphers) (method : AeadMethod) (base : List UInt8)

/-- The count of sealed bytes before and after the last frame of a call. -/
def World.lastFrame (w : World) (data : List UInt8) : Option (Nat × Nat) :=
  if method = .none ∨ data = [] then w.last
  else some (w.send.bytes + beforeLast (chunks maxPlain data), w.send.bytes + data.length)

/-- `RecordStream::poll_write`. -/
def World.step (w : World) (p : Poll) : Option World :=
  if w.retry = none ∨ w.retry = some p.data then
    let (frames, send) := sealFrames cr method base w.send p.draw p.data
    (writeOut frames p.answers).map fun (written, all) =>
      if all then
        { send := send, wire := w.wire ++ written, accepted := w.accepted ++ p.data, retry := none,
          last := w.lastFrame method p.data }
      else
        { w with send := send, wire := w.wire ++ written, retry := some p.data }
  else none

/-- Frames can be written: what was sealed last was written last, or the epoch has moved on since, by
eight at most; and the last frame is sealed in an epoch that has not wrapped. -/
def World.CanWrite (first : UInt32) (w : World) (data : List UInt8) : Prop :=
  (∀ ab ∈ w.last, GoesOn ab.1 ab.2 w.send.bytes) ∧
    first.toNat + (w.send.bytes + beforeLast (chunks maxPlain data)) / keyUpdateAfterBytes < 2 ^ 32

/-- The polls that do no harm: `Pending` is answered at once, or it is not answered and frames can be
written. -/
def Poll.Ok (first : UInt32) (w : World) (p : Poll) : Prop :=
  p.answers.head? = some .pending ∨
    .pending ∉ p.answers ∧ (method = .none ∨ p.data = [] ∨ w.CanWrite first p.data)

instance (first : UInt32) (w : World) (data : List UInt8) : Decidable (w.CanWrite first data) :=
  inferInstanceAs (Decidable (_ ∧ _))

instance (first : UInt32) (w : World) (p : Poll) : Decidable (p.Ok method first w) :=
  inferInstanceAs (Decidable (_ ∨ _))

/-! ### What a poll keeps -/

/-- What is on the wire can be read back: it is the plaintext, or frames from which the receiver gets
what was accepted, and the last of them is the one that `last` is about. -/
structure World.Inv (first : UInt32) (w : World) : Prop where
  sealing : Sealing cr method base first w.send
  plain : method = .none → w.wire = w.accepted
  framed : method ≠ .none → ∃ frames ms r, w.wire = frames.flatten ∧ w.accepted = ms.flatten ∧
    Framed (decodeRecord cr method base) {} frames ms r ∧ r.Cached cr method base ∧
    (w.last = none → r = {}) ∧ ∀ ab ∈ w.last, After first ab.1 ab.2 w.send r

variable {cr method base} {first : UInt32} {w w' : World} {p : Poll} {data : List UInt8}
  {draw : Nat → UInt64}

theorem sealFrames_none (s : SendState) (h : method = .none) :
    sealFrames cr method base s draw data = (data, s) := by
  subst h
  rfl

theorem sealFrames_eq (s : SendState) (h : method ≠ .none) :
    sealFrames cr method base s draw data =
      ((sealChunks cr method base draw s (chunks maxPlain data)).1.flatten,
        (sealChunks cr method base draw s (chunks maxPlain data)).2) := by
  cases method with
  | none => exact absurd rfl h
  | aes128Gcm => rfl
  | chacha20Poly1305 => rfl

theorem sealFrames_nil (s : SendState) : sealFrames cr method base s draw [] = ([], s) := by
  cases method <;> rfl

theorem maxPlain_pos : 0 < maxPlain := by decide

theorem eq_nil_of_sealFrames {s : SendState} (h : (sealFrames cr method base s draw data).1 = []) :
    data = [] := by
  by_cases hm : method = .none
  · rwa [sealFrames_none s hm] at h
  · by_contra hne
    rw [sealFrames_eq s hm, chunks_of_ne_nil maxPlain_pos hne, sealChunks, List.flatten_cons,
      sealFrame] at h
    have hlen := congrArg List.length h
    simp only [List.length_append, Young.u16Bytes_length, List.length_nil] at hlen
    omega

theorem Sealing.sealFrames (h : Sealing cr method base first w.send) :
    Sealing cr method base first (sealFrames cr method base w.send draw data).2 := by
  by_cases hm : method = .none
  · rwa [sealFrames_none _ hm]
  · rw [sealFrames_eq _ hm]
    exact (h.sealChunks draw fun c hc => (length_of_mem_chunks maxPlain_pos hc).2).1

theorem sealFrames_bytes (h : Sealing cr method base first w.send) (hm : method ≠ .none) :
    (sealFrames cr method base w.send draw data).2.bytes = w.send.bytes + data.length := by
  rw [sealFrames_eq _ hm, (h.sealChunks draw fun c hc => (length_of_mem_chunks maxPlain_pos hc).2).2,
    flatten_chunks maxPlain_pos]

theorem After.dropped {s s' : SendState} {r : RecvState} {a b : Nat} (h : After first a b s r)
    (hlt : s.bytes < s'.bytes) : After first a b s' r where
  initialized := h.initialized
  epoch := h.epoch
  size := h.size
  le := h.le.trans hlt.le
  next := by
    intro hb
    have hle := h.le
    omega

theorem World.step_eq_some (h : w.step cr method base p = some w') :
    ∃ written all, writeOut (sealFrames cr method base w.send p.draw p.data).1 p.answers =
        some (written, all) ∧
      w' = if all then
          { send := (sealFrames cr method base w.send p.draw p.data).2, wire := w.wire ++ written,
            accepted := w.accepted ++ p.data, retry := none, last := w.lastFrame method p.data }
        else
          { w with send := (sealFrames cr method base w.send p.draw p.data).2,
                   wire := w.wire ++ written, retry := some p.data } := by
  unfold World.step at h
  dsimp only at h
  split_ifs at h
  obtain ⟨⟨written, all⟩, hpush, rfl⟩ := Option.map_eq_some_iff.1 h
  exact ⟨written, all, hpush, rfl⟩

theorem World.Inv.empty (h : w.Inv cr method base first) (retry : Option (List UInt8)) :
    World.Inv cr method base first { w with retry := retry } :=
  ⟨h.sealing, h.plain, h.framed⟩

theorem World.Inv.dropped (h : w.Inv cr method base first) (hne : data ≠ []) :
    World.Inv cr method base first
      { w with send := (sealFrames cr method base w.send draw data).2, retry := some data } := by
  refine ⟨h.sealing.sealFrames, h.plain, fun hm => ?_⟩
  obtain ⟨frames, ms, r, hwire, haccepted, hframed, hcached, hnone, hlast⟩ := h.framed hm
  have hlt : w.send.bytes < (sealFrames cr method base w.send draw data).2.bytes := by
    have hpos := List.length_pos_iff.2 hne
    rw [sealFrames_bytes h.sealing hm]
    omega
  exact ⟨frames, ms, r, hwire, haccepted, hframed, hcached, hnone, fun ab hab => (hlast ab hab).dropped hlt⟩

/-- The frames of a poll are written. -/
theorem World.Inv.written (hcr : cr.Lawful) (h : w.Inv cr method base first) (hne : data ≠ [])
    (hok : method = .none ∨ w.CanWrite first data) :
    World.Inv cr method base first
      { send := (sealFrames cr method base w.send draw data).2
        wire := w.wire ++ (sealFrames cr method base w.send draw data).1
        accepted := w.accepted ++ data
        retry := none
        last := w.lastFrame method data } := by
  refine ⟨h.sealing.sealFrames, fun hm => ?_, fun hm => ?_⟩
  · dsimp only
    rw [sealFrames_none _ hm, h.plain hm]
  · obtain ⟨frames, ms, r, hwire, haccepted, hframed, hcached, hnone, hlast⟩ := h.framed hm
    obtain ⟨hon, hfits⟩ := hok.resolve_left hm
    have hcheck : r.check w.send.epoch w.send.seq = .ok () := by
      cases hl : w.last with
      | none =>
        rw [hnone hl]
        rfl
      | some ab =>
        have hle := Nat.div_le_div_right (c := keyUpdateAfterBytes)
          (Nat.le_add_right w.send.bytes (beforeLast (chunks maxPlain data)))
        exact (hlast ab hl).check h.sealing (hon ab hl) (by omega)
    have hchunks : chunks maxPlain data ≠ [] := by
      rw [chunks_of_ne_nil maxPlain_pos hne]
      exact List.cons_ne_nil _ _
    obtain ⟨r', hframed', hcached', hafter⟩ := sealChunks_framed hcr draw
      (fun c hc => (length_of_mem_chunks maxPlain_pos hc).2) hchunks h.sealing hcached hcheck hfits
    rw [flatten_chunks maxPlain_pos] at hafter
    have hlastFrame : w.lastFrame method data = some
        (w.send.bytes + beforeLast (chunks maxPlain data), w.send.bytes + data.length) :=
      if_neg (not_or.2 ⟨hm, hne⟩)
    dsimp only
    rw [hlastFrame, sealFrames_eq _ hm, hwire, haccepted]
    refine ⟨_, _, r', List.flatten_append.symm, ?_, hframed.append hframed', hcached', by simp, ?_⟩
    · rw [List.flatten_append, flatten_chunks maxPlain_pos]
    · intro ab hab
      cases hab
      exact hafter

theorem World.Inv.step (hcr : cr.Lawful) (h : w.Inv cr method base first) (hok : p.Ok method first w)
    (hstep : w.step cr method base p = some w') : w'.Inv cr method base first := by
  obtain ⟨written, all, hpush, rfl⟩ := step_eq_some hstep
  by_cases hnil : p.data = []
  · -- nothing is sealed and nothing is asked of the transport
    rw [hnil, sealFrames_nil, writeOut] at hpush
    cases hpush
    rw [hnil, sealFrames_nil]
    simpa [lastFrame] using h.empty none
  · rcases hok with hpending | ⟨hready, hwrite⟩
    · obtain ⟨rfl, hall⟩ := writeOut_pending hpush hpending
      have hfalse : all = false := by
        rw [← Bool.not_eq_true]
        exact fun ht => hnil (eq_nil_of_sealFrames (hall.1 ht))
      rw [hfalse, if_neg Bool.false_ne_true, List.append_nil]
      exact h.dropped hnil
    · obtain ⟨rfl, rfl⟩ := writeOut_ready hpush hready
      rw [if_pos rfl]
      exact h.written hcr hnil (hwrite.imp_right fun hw => hw.resolve_left hnil)

theorem World.Inv.new (epoch : UInt32) (seq : UInt64) : (World.new epoch seq).Inv cr method base epoch where
  sealing := .start epoch seq
  plain := fun _ => rfl
  framed := fun _ => ⟨[], [], {}, rfl, rfl, .nil _, fun _ hk => absurd hk (by simp), fun _ => rfl,
    fun _ hab => absurd hab (by simp [World.new])⟩

/-- What has arrived of a stream, in whatever pieces, is a part of what was accepted, and all of it when
everything has arrived. -/
theorem World.Inv.received (h : w.Inv cr method base first) {pieces : List (List UInt8)}
    {rest : List UInt8} (hp : pieces.flatten ++ rest = w.wire) :
    ∃ plain, received cr method base pieces = some (plain, .ok ()) ∧ plain <+: w.accepted ∧
      (rest = [] → plain = w.accepted) := by
  by_cases hm : method = .none
  · have hwire := h.plain hm
    subst hm
    refine ⟨pieces.flatten, rfl, ⟨rest, hp.trans hwire⟩, ?_⟩
    rintro rfl
    rw [← hwire, ← hp, List.append_nil]
  · obtain ⟨frames, ms, r, hwire, haccepted, hframed, -⟩ := h.framed hm
    obtain ⟨rc, hrc, done, todo, ms₂, hsplit, hms, -, htodo, hreceived, hincomplete⟩ :=
      feedAll_synced (by simp [decodeRecord]) hframed (hp.trans hwire)
    refine ⟨rc.delivered.flatten, ?_, ?_, ?_⟩
    · unfold Sudoku.received
      cases method with
      | none => exact absurd rfl hm
      | aes128Gcm => rw [hrc]; rfl
      | chacha20Poly1305 => rw [hrc]; rfl
    · rw [haccepted, hms, List.flatten_append]
      exact List.prefix_append _ _
    · rintro rfl
      -- everything has arrived: no frame is left
      rw [List.append_nil] at hp
      rw [hp, hwire, hsplit, List.flatten_append, List.append_cancel_left_eq] at hreceived
      obtain rfl : todo = [] := eq_nil_of_incomplete (hreceived ▸ hincomplete)
      cases htodo
      rw [haccepted, hms, List.append_nil]

end Model

/-- **The receiver gets what was accepted.**  Whatever is written, however the transport takes it and
however it arrives: if `Pending` is answered before anything of a call is written or not at all, if
nothing is written in an epoch after frames of it were dropped, and if no frame is sealed in an epoch
that has wrapped, then `open_frames` returns, without an error, a part of what `poll_write` has accepted,
and all of it when everything has arrived. -/
theorem World.reach_received (cr : Ciphers) (hcr : cr.Lawful) (method : AeadMethod) (base : List UInt8)
    (epoch : UInt32) (seq : UInt64) (w : World)
    (h : Reach (World.step cr method base) (fun w p => Poll.Ok method epoch w p) (World.new epoch seq) w)
    (pieces : List (List UInt8)) (rest : List UInt8) (hp : pieces.flatten ++ rest = w.wire) :
    ∃ plain, received cr method base pieces = some (plain, .ok ()) ∧ plain <+: w.accepted ∧
      (rest = [] → plain = w.accepted) := by
  have hinv : w.Inv cr method base epoch :=
    h.inv (fun _ _ _ hi hok hs => hi.step hcr hok hs) (.new epoch seq)
  exact hinv.received hp

/-! ### A cipher -/

/-- A cipher that puts a tag of zeros behind the plaintext. -/
def clearCiphers : Ciphers where
  hmacSha256 := fun _ _ => ⟨List.replicate 32 0, rfl⟩
  encrypt := fun _ _ _ _ plain => plain ++ List.replicate 16 0
  decrypt := fun _ _ _ _ cipher =>
    if cipher.drop (cipher.length - 16) = List.replicate 16 0 then some (cipher.take (cipher.length - 16))
    else none

theorem clearCiphers_lawful : clearCiphers.Lawful where
  opens := by simp [clearCiphers]
  length := by simp [clearCiphers]

/-- A base key. -/
def zeroKey : List UInt8 := List.replicate 32 0

/-- A poll with the given bytes and answers. -/
def pollWith (data : List UInt8) (answers : List Answer) : Poll := ⟨data, fun _ => 1, answers⟩

/-- Two writes, taken in parts, after a first poll that found the transport not ready. -/
theorem reach_received_parts :
    ∃ w, Reach (World.step clearCiphers .aes128Gcm zeroKey) (fun w p => Poll.Ok .aes128Gcm 1 w p)
        (World.new 1 1) w ∧
      w.accepted = [7, 8, 9] ∧
      ∃ plain, received clearCiphers .aes128Gcm zeroKey [w.wire.take 5, w.wire.drop 5] =
          some (plain, .ok ()) ∧
        plain = w.accepted := by
  have hrun : ∃ w, runMoves (onlyOk (World.step clearCiphers .aes128Gcm zeroKey)
      (fun w p => Poll.Ok .aes128Gcm 1 w p)) (World.new 1 1)
      [pollWith [7] [.pending], pollWith [7] [.ready 5, .ready 26], pollWith [8, 9] [.ready 32]] =
        some w ∧ w.accepted = [7, 8, 9] := ⟨_, rfl, rfl⟩
  obtain ⟨w, hw, haccepted⟩ := hrun
  have hreach := reach_of_onlyOk hw
  obtain ⟨plain, hplain, -, hall⟩ := World.reach_received clearCiphers clearCiphers_lawful .aes128Gcm
    zeroKey 1 1 w hreach [w.wire.take 5, w.wire.drop 5] [] (by simp)
  exact ⟨w, hreach, haccepted, plain, hplain, hall rfl⟩

/-- A write is repeated after `Pending`: it is sealed twice, and the receiver finds the second frame out
of order. -/
theorem polled_twice :
    ∃ w, runMoves (World.step clearCiphers .aes128Gcm zeroKey) (World.new 1 1)
        [pollWith [7] [.ready 31], pollWith [8] [.pending], pollWith [8] [.ready 31]] = some w ∧
      w.accepted = [7, 8] ∧
      received clearCiphers .aes128Gcm zeroKey [w.wire] = some ([7], .error .outOfOrder) := by
  refine ⟨_, rfl, rfl, ?_⟩
  decide +kernel

end WutherCore.Sudoku
