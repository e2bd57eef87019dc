import WutherCore.Data.EndOfStream
import WutherCore.Proto.VmessStream
import WutherCore.Sudoku.RecordStream

/-!
# Where streams end

The `poll_read` of the streams of VMess, Snell, Mieru and of the Sudoku records has one branch for the end
of the transport: it reports the end of the stream, whatever is in the buffer.

* `openFrames`, `recordFrame`: the records of Sudoku, as the stream reads them.
* `acceptsEnd`: the check that the four streams have.
* `ends_truthful_iff`: they are truthful about the end of a stream if and only if it is whole.
-/

namespace WutherCore.Sudoku

open WutherCore.Data
open WutherCore.Young (u32OfBytes u64OfBytes)

variable (cr : Ciphers) (method : AeadMethod) (base : List UInt8)

/-- A frame of a record stream; without encryption every byte stands for itself. -/
def recordFrame : Decoder RecvState RecordError UInt8 (List UInt8) :=
  match method with
  | .none => fun r buf =>
    match buf with
    | [] => .ok none
    | b :: _ => .ok (some ([b], 1, r))
  | _ => decodeRecord cr method base

/-- `open_frames`: all frames that have arrived, if there are any. -/
def openFrames : Decoder RecvState RecordError UInt8 (List UInt8) :=
  match method with
  | .none => fun r buf => if buf = [] then .ok none else .ok (some (buf, buf.length, r))
  | _ => fun r buf =>
    match drain (decodeRecord cr method base) (buf.length + 1) ⟨r, buf, []⟩ with
    | none => .ok none
    | some (_, .error e) => .error e
    | some (rc, .ok ()) =>
      if rc.delivered = [] then .ok none
      else .ok (some (rc.delivered.flatten, buf.length - rc.buffer.length, rc.state))

variable {cr method base}

theorem decodeRecord_eq_some {r r' : RecvState} {buf m : List UInt8} {n : Nat}
    (h : decodeRecord cr method base r buf = .ok (some (m, n, r'))) :
    n = 2 + beAt 2 buf 0 ∧ 14 ≤ n ∧ n ≤ buf.length := by
  unfold decodeRecord recordHeaderSize at h
  dsimp only at h
  split_ifs at h with htwo hshort hcut
  · cases h
  · cases h
  · split at h
    · cases h
    · split at h
      · cases h
      · simp only [Except.ok.injEq, Option.some.injEq, Prod.mk.injEq] at h
        omega

theorem decodeRecord_congr {buf buf' : List UInt8} {n : Nat} (hn : n = 2 + beAt 2 buf 0) (h14 : 14 ≤ n)
    (hlen : n ≤ buf.length) (hlen' : n ≤ buf'.length) (htake : buf'.take n = buf.take n) (r : RecvState) :
    decodeRecord cr method base r buf' = decodeRecord cr method base r buf := by
  have hslice : ∀ i j, j ≤ n → slice buf' i j = slice buf i j := by
    intro i j hj
    rw [← List.take_append_drop n buf', ← List.take_append_drop n buf, htake,
      slice_append_left (by rw [List.length_take]; omega),
      slice_append_left (by rw [List.length_take]; omega)]
  have hbe : beAt 2 buf' 0 = beAt 2 buf 0 := by rw [beAt, beAt, hslice 0 (0 + 2) (by omega)]
  unfold decodeRecord
  dsimp only
  rw [hbe, hslice 2 14 h14, hslice 14 _ hn.ge, if_neg (by omega), if_neg (by omega : ¬buf.length < 2),
    if_neg (by omega : ¬buf'.length < 2 + beAt 2 buf 0), if_neg (by omega : ¬buf.length < 2 + beAt 2 buf 0)]

theorem steady_decodeRecord : Steady (decodeRecord cr method base) := by
  intro r buf m n r' h
  obtain ⟨hn, h14, hlen⟩ := decodeRecord_eq_some h
  have htake : (buf.take n).length = n := by
    rw [List.length_take]
    omega
  refine ⟨hlen, List.ne_nil_of_length_pos (by omega), fun rest => ?_, fun p hp hne => ?_⟩
  · have hle : n ≤ (buf.take n ++ rest).length := by
      rw [List.length_append]
      omega
    rw [decodeRecord_congr hn h14 hlen hle (List.take_left' htake), h, htake]
  · have hlt : p.length < n := by
      by_contra hge
      exact hne (hp.eq_of_length_le (by omega))
    unfold decodeRecord recordHeaderSize
    dsimp only
    split_ifs with hshort hbad
    · rfl
    · -- the length has arrived, and is that of the record
      obtain ⟨rest, hrest⟩ := hp.trans (List.take_prefix n buf)
      rw [← hrest, beAt_append_left (by omega)] at hn
      omega
    · rfl
    · obtain ⟨rest, hrest⟩ := hp.trans (List.take_prefix n buf)
      rw [← hrest, beAt_append_left (by omega)] at hn
      omega

theorem steady_recordFrame : Steady (recordFrame cr method base) := by
  cases method with
  | none =>
    intro r buf m n r' h
    cases buf with
    | nil => cases h
    | cons b buf =>
      simp only [recordFrame, Except.ok.injEq, Option.some.injEq, Prod.mk.injEq] at h
      obtain ⟨rfl, rfl, rfl⟩ := h
      refine ⟨by simp, by simp, fun rest => rfl, fun p hp hne => ?_⟩
      have hnil : p = [] := by
        rcases List.prefix_cons_iff.1 hp with rfl | ⟨t, rfl, ht⟩
        · rfl
        · rw [List.take_zero, List.prefix_nil] at ht
          exact absurd (by simp [ht]) hne
      rw [hnil]
      rfl
  | aes128Gcm => exact steady_decodeRecord
  | chacha20Poly1305 => exact steady_decodeRecord

theorem flatten_singletons (bytes : List UInt8) : (bytes.map fun b => [b]).flatten = bytes := by
  induction bytes with
  | nil => rfl
  | cons b bytes ih => rw [List.map_cons, List.flatten_cons, ih, List.singleton_append]

theorem framed_bytes (r : RecvState) (bytes : List UInt8) :
    Framed (recordFrame cr .none base) r (bytes.map fun b => [b]) (bytes.map fun b => [b]) r := by
  induction bytes with
  | nil => exact .nil r
  | cons b bytes ih =>
    have hread : recordFrame cr .none base r [b] = .ok (some ([b], 1, r)) := rfl
    exact .cons (steady_recordFrame _ _ _ _ _ hread).2 ih

/-- The loop of `open_frames`, over the frames that it finds. -/
theorem opens_drain {decode : Decoder RecvState RecordError UInt8 (List UInt8)} (hsteady : Steady decode)
    {next : Decoder RecvState RecordError UInt8 (List UInt8)}
    (hnext : ∀ r buf, next r buf =
      match drain decode (buf.length + 1) ⟨r, buf, []⟩ with
      | none => .ok none
      | some (_, .error e) => .error e
      | some (rc, .ok ()) =>
        if rc.delivered = [] then .ok none
        else .ok (some (rc.delivered.flatten, buf.length - rc.buffer.length, rc.state))) :
    Opens next decode where
  taken := by
    intro r buf m n r' h
    obtain ⟨rc, result, frames, ms, hdrain, hbuf, hdelivered, hframed, -⟩ :=
      hsteady.drain r buf [] (Nat.lt_add_one _)
    rw [hnext, hdrain] at h
    cases result with
    | error e => cases h
    | ok =>
      dsimp only at h
      split_ifs at h with hnil
      · cases h
      · simp only [Except.ok.injEq, Option.some.injEq, Prod.mk.injEq] at h
        obtain ⟨rfl, rfl, rfl⟩ := h
        refine ⟨frames, ms, ?_, by rw [hdelivered, List.nil_append], hframed⟩
        have hdrop : buf.drop (buf.length - rc.buffer.length) = rc.buffer := by
          have hlen : buf.length - rc.buffer.length = frames.flatten.length := by
            rw [hbuf, List.length_append]
            omega
          rw [hlen]
          exact (congrArg (List.drop _) hbuf).trans List.drop_left
        rw [hdrop]
        exact hbuf
  idle := by
    intro r buf h
    obtain ⟨rc, result, frames, ms, hdrain, hbuf, hdelivered, hframed, hidle⟩ :=
      hsteady.drain r buf [] (Nat.lt_add_one _)
    rw [hnext, hdrain] at h
    cases result with
    | error e => cases h
    | ok =>
      dsimp only at h
      split_ifs at h with hnil
      · -- no frame was found, and nothing was taken
        rw [hdelivered, List.nil_append] at hnil
        subst hnil
        cases hframed
        rw [List.flatten_nil, List.nil_append] at hbuf
        rw [hbuf]
        exact hidle rfl
      · cases h

theorem openFrames_opens : Opens (openFrames cr method base) (recordFrame cr method base) := by
  cases method with
  | aes128Gcm => exact opens_drain steady_decodeRecord fun _ _ => rfl
  | chacha20Poly1305 => exact opens_drain steady_decodeRecord fun _ _ => rfl
  | none =>
    refine ⟨?_, ?_⟩
    · intro r buf m n r' h
      simp only [openFrames] at h
      split_ifs at h with hnil
      · cases h
      · simp only [Except.ok.injEq, Option.some.injEq, Prod.mk.injEq] at h
        obtain ⟨rfl, rfl, rfl⟩ := h
        refine ⟨_, _, ?_, (flatten_singletons buf).symm, framed_bytes r buf⟩
        rw [flatten_singletons, List.drop_length, List.append_nil]
    · intro r buf h
      simp only [openFrames] at h
      split_ifs at h with hnil
      · rw [hnil]
        rfl
      · cases h

end WutherCore.Sudoku

namespace WutherCore.Proto

open WutherCore.Data

/-- `if filled == 0 { return Poll::Ready(Ok(())) }`: every end of the transport is the end of the
stream. -/
def acceptsEnd {σ : Type*} (_ : Pull σ UInt8 UInt8) : Bool := true

/-- A stream of chunks may end where no chunk has begun. -/
def RecvState.boundary {κ : Type*} : RecvState κ → Bool
  | waitSalt => true
  | ready _ none => true
  | ready _ (some _) => false

/-- A VMess stream may end where no chunk has begun. -/
def VmessReceiver.boundary (r : VmessReceiver) : Bool :=
  match r.state with
  | .length => true
  | .body _ _ _ => false

section Model

variable {σ ε : Type*}

/-- Of all streams that a reader may receive, in whatever pieces and polls, it is truthful about the end of
those that are whole, and of no others.  `truncated` is an error for streams that are cut short, which the
reader never returns. -/
def TruthfulIffWhole (next frame : Decoder σ ε UInt8 (List UInt8)) (boundary : σ → Bool) (start : σ) :
    Prop :=
  ∀ (truncated : ε) (w w' : Session σ UInt8 UInt8) (p : ReadPoll UInt8) (o : Outcome ε UInt8),
    Reach (Session.step next acceptsEnd truncated) anyMove (.start start) w →
    w.poll next acceptsEnd truncated p = some (w', o) → .eof ∈ p.arrivals →
    (Truthful frame boundary start w'.received o ↔ Whole frame boundary start w'.received)

theorem truthfulIffWhole {next frame : Decoder σ ε UInt8 (List UInt8)} (hopen : Opens next frame)
    (boundary : σ → Bool) (start : σ) : TruthfulIffWhole next frame boundary start := by
  intro truncated w w' p o hreach hpoll heof
  rw [Session.reach_truthful_iff hopen hreach hpoll heof]
  simp [acceptsEnd]

end Model

theorem steady_vmessProgress (cr : Ciphers VmessAead) (h : VmessHashes) : Steady (vmessProgress cr h) :=
  steady_exactly VmessReceiver.need_pos

/-- **The streams are truthful about their end if and only if what they have received is whole.**  A stream
that is cut within a salt, a length or a body, or between the two, is reported to have ended. -/
theorem ends_truthful_iff (vmess : Ciphers VmessAead) (hashes : VmessHashes) (recv : ChunkCryptor)
    (snell : Ciphers SnellCipher) (snellCipher : SnellCipher) (mieru : Ciphers MieruCipher)
    (mieruCipher : MieruCipher) (kdf : Derivations) (master password : List UInt8)
    (sudoku : Sudoku.Ciphers) (method : Sudoku.AeadMethod) (base : List UInt8) :
    TruthfulIffWhole (vmessProgress vmess hashes) (vmessProgress vmess hashes) VmessReceiver.boundary
      ⟨recv, .length⟩ ∧
    TruthfulIffWhole (snellProgress snell kdf snellCipher master)
      (snellProgress snell kdf snellCipher master) (fun s => s.1.boundary) (.waitSalt, .waitStatus) ∧
    TruthfulIffWhole (mieruProgress mieru kdf mieruCipher password)
      (mieruProgress mieru kdf mieruCipher password) (fun s => s.1.boundary) (.waitSalt, ()) ∧
    TruthfulIffWhole (Sudoku.openFrames sudoku method base) (Sudoku.recordFrame sudoku method base)
      (fun _ => true) {} := by
  refine ⟨?_, ?_, ?_, ?_⟩
  · exact truthfulIffWhole (steady_vmessProgress vmess hashes).opens _ _
  · exact truthfulIffWhole (Steady.opens steady_progress) _ _
  · exact truthfulIffWhole (Steady.opens steady_progress) _ _
  · exact truthfulIffWhole Sudoku.openFrames_opens _ _

/-- A byte that is not a whole chunk arrives, and then the transport ends. -/
def cutPoll : ReadPoll UInt8 := ⟨1, [.piece [0], .eof]⟩

theorem cut_of_poll {σ ε : Type*} {next frame : Decoder σ ε UInt8 (List UInt8)} (hopen : Opens next frame)
    (boundary : σ → Bool) {start : σ} {truncated : ε} {w' : Session σ UInt8 UInt8} {o : Outcome ε UInt8}
    (hpoll : Session.poll next acceptsEnd truncated (.start start) cutPoll = some (w', o))
    (hbuf : w'.reader.buffer ≠ []) : o = .closed ∧ ¬Whole frame boundary start w'.received := by
  obtain ⟨hat, htold⟩ := Session.poll_at hopen (At.start start) hpoll
  obtain ⟨-, hidle, ho⟩ := htold (by simp [cutPoll])
  exact ⟨ho, fun hwhole => hbuf ((hat.whole_iff hidle).1 hwhole).1⟩

/-- The four streams after one byte: all of them report a clean end within a salt or a length. -/
theorem cut_streams_end :
    (∃ w', Session.poll (vmessProgress (nonceCiphers _) zeroHashes) acceptsEnd .plainLengthBufSize
        (.start ⟨vmessSend .none 1, .length⟩) cutPoll = some (w', .closed) ∧
      ¬Truthful (vmessProgress (nonceCiphers _) zeroHashes) VmessReceiver.boundary
        ⟨vmessSend .none 1, .length⟩ w'.received .closed) ∧
    (∃ w', Session.poll (snellProgress (nonceCiphers _) zeroDerivations .aes128Gcm []) acceptsEnd
        .emptyResponse (.start (.waitSalt, .waitStatus)) cutPoll = some (w', .closed) ∧
      ¬Truthful (snellProgress (nonceCiphers _) zeroDerivations .aes128Gcm []) (fun s => s.1.boundary)
        (.waitSalt, .waitStatus) w'.received .closed) ∧
    (∃ w', Session.poll (mieruProgress (nonceCiphers _) zeroDerivations .aes256Gcm []) acceptsEnd
        ⟨.aes256Gcm⟩ (.start (.waitSalt, ())) cutPoll = some (w', .closed) ∧
      ¬Truthful (mieruProgress (nonceCiphers _) zeroDerivations .aes256Gcm []) (fun s => s.1.boundary)
        (.waitSalt, ()) w'.received .closed) ∧
    ∃ w', Session.poll (Sudoku.openFrames Sudoku.clearCiphers .aes128Gcm []) acceptsEnd .openFailed
        (.start {}) cutPoll = some (w', .closed) ∧
      ¬Truthful (Sudoku.recordFrame Sudoku.clearCiphers .aes128Gcm []) (fun _ => true) {}
        w'.received .closed := by
  refine ⟨⟨_, rfl, fun h => ?_⟩, ⟨_, rfl, fun h => ?_⟩, ⟨_, rfl, fun h => ?_⟩, ⟨_, rfl, fun h => ?_⟩⟩
  · exact (cut_of_poll (steady_vmessProgress _ _).opens _ rfl (by decide)).2 (h.1 rfl)
  · exact (cut_of_poll (Steady.opens steady_progress) _ rfl (by decide)).2 (h.1 rfl)
  · exact (cut_of_poll (Steady.opens steady_progress) _ rfl (by decide)).2 (h.1 rfl)
  · exact (cut_of_poll Sudoku.openFrames_opens _ rfl (by decide)).2 (h.1 rfl)

/-- A salt arrives, and then the transport ends. -/
def saltPoll : ReadPoll UInt8 := ⟨1, [.piece (List.replicate 16 0), .eof]⟩

/-- A Mieru stream that ends after its salt is whole, and its end is told as it is. -/
theorem ends_truthful_iff_salt :
    ∃ w', Session.poll (mieruProgress (nonceCiphers _) zeroDerivations .aes256Gcm []) acceptsEnd
        ⟨.aes256Gcm⟩ (.start (.waitSalt, ())) saltPoll = some (w', .closed) ∧
      Truthful (mieruProgress (nonceCiphers _) zeroDerivations .aes256Gcm []) (fun s => s.1.boundary)
        (.waitSalt, ()) w'.received .closed := by
  have hrun : ∃ w', Session.poll (mieruProgress (nonceCiphers _) zeroDerivations .aes256Gcm []) acceptsEnd
      ⟨.aes256Gcm⟩ (.start (.waitSalt, ())) saltPoll = some (w', .closed) ∧
      w'.received = List.replicate 16 0 := ⟨_, rfl, rfl⟩
  obtain ⟨w', hpoll, hreceived⟩ := hrun
  refine ⟨w', hpoll, ?_⟩
  have hstreams := ends_truthful_iff (nonceCiphers _) zeroHashes (vmessSend .none 1) (nonceCiphers _) .aes128Gcm
    (nonceCiphers _) .aes256Gcm zeroDerivations [] [] Sudoku.clearCiphers .aes128Gcm []
  refine (hstreams.2.2.1 ⟨.aes256Gcm⟩ _ _ _ _ .refl hpoll (by simp [saltPoll])).2 ?_
  have hsalt : Frame (mieruProgress (nonceCiphers _) zeroDerivations .aes256Gcm []) (.waitSalt, ())
      (List.replicate 16 0) []
      (.ready (Cryptor.new (mieruFormat zeroDerivations .aes256Gcm []) (List.replicate 16 0)) none, ()) :=
    salt_frame ⟨List.replicate 16 0, rfl⟩ ()
  exact ⟨[List.replicate 16 0], [[]], _, hreceived, .cons hsalt (.nil _), rfl⟩

end WutherCore.Proto
