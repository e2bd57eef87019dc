import WutherCore.Data.Moves
import WutherCore.Data.Transport
import WutherCore.Proto.Snell

/-!
# Polls of a stream of sealed chunks

`SnellStream::poll_write` and `MieruStream::poll_write` seal a chunk and hand it to the transport.  When
the transport answers `Pending`, what was not written of the chunk is dropped, and the writer polls again
with the same bytes, which are sealed a second time, under the nonces that follow.

* `World.step`: a poll of the writer, with the answers of the transport.
* `Poll.Ok`: the polls after which the receiver is not lost: after `Pending`, nothing more is written.
* `World.Inv.received`: what the receiver gets.
* `streams_delivered`: if all polls are such, a peer opens what was accepted, for Snell and for Mieru.
-/

namespace WutherCore.Proto

open WutherCore.Data
open WutherCore.Young (Bytes)

variable {κ : Type*}

/-- A poll of the writer: the bytes, and the answers of the transport. -/
structure Poll where
  data : List UInt8
  answers : List Answer

/-- A stream and its writer.  `retry` is what the writer has to poll with, after `Pending`. -/
structure World (κ : Type*) where
  send : Cryptor κ
  wire : List UInt8
  accepted : List UInt8 := []
  retry : Option (List UInt8) := none

section Model

variable (cr : Ciphers κ) (fmt : Format κ)

/-- The stream that `dial_tcp` returns. -/
def World.dialed (salt : Bytes fmt.saltLen) (greeting : List (List UInt8)) : World κ :=
  let (wire, send) := dial cr fmt salt greeting
  { send := send, wire := wire }

/-- `poll_write`. -/
def World.step (w : World κ) (p : Poll) : Option (World κ) :=
  if w.retry = none ∨ w.retry = some p.data then
    let chunk := p.data.take payloadMax
    let (pkt, send) := w.send.encryptChunk cr chunk
    (writeOut pkt p.answers).map fun (written, all) =>
      if all then
        { send := send, wire := w.wire ++ written, accepted := w.accepted ++ chunk, retry := none }
      else
        { w with send := send, wire := w.wire ++ written, retry := some p.data }
  else none

/-- The polls that do no harm: nothing of a chunk that is sealed again is written. -/
def Poll.Ok (w : World κ) (p : Poll) : Prop := w.retry = none ∨ p.answers.head? = some .pending

instance (w : World κ) (p : Poll) : Decidable (p.Ok w) := inferInstanceAs (Decidable (_ ∨ _))

/-- The rounds of a peer that reads the format. -/
def peer : Decoder (RecvState κ × Unit) Unit UInt8 (List UInt8) := progress cr fmt () plainly

/-- What a peer opens of the pieces of a stream, and the error that stopped it. -/
def received (pieces : List (List UInt8)) : Option (List UInt8 × Except Unit Unit) :=
  (feedAll (peer cr fmt) (.start (.waitSalt, ())) pieces).map fun (r, e) => (r.delivered.flatten, e)

/-- The plaintext of a stream: the greeting, cut to chunks, and what was accepted. -/
def plaintext (greeting : List (List UInt8)) (accepted : List UInt8) : List UInt8 :=
  (greeting.map (List.take payloadMax)).flatten ++ accepted

/-! ### What a poll keeps -/

/-- The wire carries the plaintext; if no chunk was dropped, the peer stands where the writer stands. -/
structure World.Inv (greeting : List (List UInt8)) (w : World κ) : Prop where
  carries : ∃ ms, ms.flatten = plaintext greeting w.accepted ∧
    Carries (peer cr fmt) (.waitSalt, ()) w.wire ms
  framed : w.retry = none → ∃ frames ms, w.wire = frames.flatten ∧
    ms.flatten = plaintext greeting w.accepted ∧
    Framed (peer cr fmt) (.waitSalt, ()) frames ms (.ready w.send none, ())

variable {cr fmt} {w w' : World κ} {p : Poll} {greeting : List (List UInt8)} {send : Cryptor κ}

theorem peer_nil (s : RecvState κ × Unit) : peer cr fmt s [] = .ok none := progress_nil s

theorem peer_framed (hcr : cr.Lawful) (send : Cryptor κ) (data : List UInt8) :
    Framed (peer cr fmt) (.ready send none, ()) (send.chunkFrames cr data) [[], data.take payloadMax]
      (.ready send.next.next none, ()) :=
  chunk_framed hcr rfl

theorem encryptChunks_framed (hcr : cr.Lawful) (fmt : Format κ) (send : Cryptor κ)
    (datas : List (List UInt8)) :
    ∃ frames ms, (send.encryptChunks cr datas).1 = frames.flatten ∧
      ms.flatten = (datas.map (List.take payloadMax)).flatten ∧
      Framed (peer cr fmt) (.ready send none, ()) frames ms
        (.ready (send.encryptChunks cr datas).2 none, ()) := by
  induction datas generalizing send with
  | nil => exact ⟨[], [], rfl, rfl, .nil _⟩
  | cons data datas ih =>
    obtain ⟨frames, ms, hwire, hms, hframed⟩ := ih send.next.next
    refine ⟨send.chunkFrames cr data ++ frames, [[], data.take payloadMax] ++ ms, ?_, ?_, ?_⟩
    · simp [Cryptor.encryptChunks, encryptChunk_eq, hwire]
    · simp [hms]
    · rw [Cryptor.encryptChunks, encryptChunk_eq]
      exact (peer_framed hcr send data).append hframed

theorem World.Inv.of_framed {frames ms : List (List UInt8)} (hwire : w.wire = frames.flatten)
    (hms : ms.flatten = plaintext greeting w.accepted)
    (hframed : Framed (peer cr fmt) (.waitSalt, ()) frames ms (.ready w.send none, ())) :
    w.Inv cr fmt greeting where
  carries := ⟨ms, hms, hwire ▸ hframed.carries (peer_nil _)⟩
  framed := fun _ => ⟨frames, ms, hwire, hms, hframed⟩

theorem World.Inv.dialed (hcr : cr.Lawful) (salt : Bytes fmt.saltLen) (greeting : List (List UInt8)) :
    (World.dialed cr fmt salt greeting).Inv cr fmt greeting := by
  obtain ⟨frames, ms, hwire, hms, hframed⟩ :=
    encryptChunks_framed hcr fmt (Cryptor.new fmt salt.1) greeting
  have hdialed : Framed (peer cr fmt) (.waitSalt, ()) (salt.1 :: frames) ([] :: ms)
      (.ready (World.dialed cr fmt salt greeting).send none, ()) := .cons (salt_frame salt ()) hframed
  refine .of_framed ?_ ?_ hdialed
  · rw [List.flatten_cons, ← hwire]
    rfl
  · rw [List.flatten_cons, hms, plaintext]
    exact (List.append_nil _).symm

theorem chunkFrames_take (data : List UInt8) :
    send.chunkFrames cr (data.take payloadMax) = send.chunkFrames cr data := by
  rw [Cryptor.chunkFrames, List.take_take, min_self]
  rfl

theorem World.step_eq_some (h : w.step cr p = some w') :
    ∃ written all,
      writeOut (w.send.chunkFrames cr p.data).flatten p.answers = some (written, all) ∧
      w' = if all then
          { send := w.send.next.next, wire := w.wire ++ written,
            accepted := w.accepted ++ p.data.take payloadMax, retry := none }
        else
          { w with send := w.send.next.next, wire := w.wire ++ written, retry := some p.data } := by
  unfold World.step at h
  dsimp only at h
  rw [encryptChunk_eq, chunkFrames_take] at h
  dsimp only at h
  split_ifs at h
  obtain ⟨⟨written, all⟩, hpush, rfl⟩ := Option.map_eq_some_iff.1 h
  exact ⟨written, all, hpush, rfl⟩

theorem chunkFrames_ne_nil (hcr : cr.Lawful) (data : List UInt8) :
    (send.chunkFrames cr data).flatten ≠ [] := by
  intro hnil
  have hlen := congrArg List.length hnil
  simp [Cryptor.chunkFrames, Cryptor.encrypt, hcr.length] at hlen

theorem World.Inv.step (hcr : cr.Lawful) (h : w.Inv cr fmt greeting) (hok : p.Ok w)
    (hstep : w.step cr p = some w') : w'.Inv cr fmt greeting := by
  obtain ⟨written, all, hpush, rfl⟩ := step_eq_some hstep
  obtain ⟨hparts, hall⟩ := writeOut_append_drop hpush
  rcases hok with hfresh | hpending
  · obtain ⟨frames, ms, hwire, hms, hframed⟩ := h.framed hfresh
    cases all with
    | true =>
      obtain rfl := hall rfl
      refine .of_framed ?_ ?_ (hframed.append (peer_framed hcr w.send p.data))
      · simp [hwire]
      · simp [hms, plaintext]
    | false =>
      -- what of a chunk is cut short is not opened
      obtain ⟨ms', hms', hcarries⟩ := hframed.carries_header (peer_framed hcr w.send p.data) (peer_nil _)
        ⟨_, hparts⟩ (writeOut_ne hpush)
      refine ⟨⟨ms', hms'.trans hms, ?_⟩, fun hnone => absurd hnone (by simp)⟩
      simpa [hwire] using hcarries
  · -- nothing is written, and the chunk is dropped
    obtain ⟨rfl, hnil⟩ := writeOut_pending hpush hpending
    have hfalse : all = false := by
      rw [← Bool.not_eq_true, hnil]
      exact chunkFrames_ne_nil hcr p.data
    rw [hfalse, if_neg Bool.false_ne_true, List.append_nil]
    exact ⟨h.carries, fun hnone => absurd hnone (by simp)⟩

/-- **What has arrived of a stream**, in whatever pieces, is opened without an error, and is all of the
plaintext when everything has arrived. -/
theorem World.Inv.received (h : w.Inv cr fmt greeting) {pieces : List (List UInt8)} {rest : List UInt8}
    (hp : pieces.flatten ++ rest = w.wire) :
    ∃ plain, received cr fmt pieces = some (plain, .ok ()) ∧
      plain <+: plaintext greeting w.accepted ∧ (rest = [] → plain = plaintext greeting w.accepted) := by
  obtain ⟨ms, hms, hcarries⟩ := h.carries
  obtain ⟨r, hr, ⟨ms₂, rfl⟩, hall⟩ := hcarries.delivered hp
  refine ⟨r.delivered.flatten, ?_, ?_, ?_⟩
  · rw [Proto.received, peer, ← peer, hr]
    rfl
  · rw [← hms, List.flatten_append]
    exact List.prefix_append _ _
  · intro hnil
    rw [← hms, ← hall hnil]

variable (cr fmt)

/-- All that a peer receives of a stream is a part of the plaintext, and the whole of it when everything
has arrived; it finds no error. -/
def World.Delivers (greeting : List (List UInt8)) (w : World κ) : Prop :=
  ∀ pieces rest, pieces.flatten ++ rest = w.wire →
    ∃ plain, received cr fmt pieces = some (plain, .ok ()) ∧
      plain <+: plaintext greeting w.accepted ∧ (rest = [] → plain = plaintext greeting w.accepted)

variable {cr fmt}

theorem World.reach_delivers (hcr : cr.Lawful) (salt : Bytes fmt.saltLen)
    (h : Reach (World.step cr) (fun w p => Poll.Ok w p) (World.dialed cr fmt salt greeting) w) :
    w.Delivers cr fmt greeting := by
  have hinv : w.Inv cr fmt greeting :=
    h.inv (fun _ _ _ hi hok hs => hi.step hcr hok hs) (.dialed hcr salt greeting)
  exact fun _ _ hp => hinv.received hp

end Model

/-- **A peer opens what was accepted.**  Whatever is written, however the transport takes it and however
it arrives, for Snell and for Mieru: if nothing is written of a chunk that is sealed a second time, after
`Pending`, then a peer that reads the format opens, without an error, a part of the greeting and of what
`poll_write` has accepted behind it, and all of it when everything has arrived. -/
theorem streams_delivered (kdf : Derivations) :
    (∀ (cr : Ciphers SnellCipher), cr.Lawful → ∀ (cipher : SnellCipher) (master host : List UInt8)
      (salt : Bytes (snellFormat kdf cipher master).saltLen) (version : UInt8) (isUdp : Bool)
      (port : UInt16) (w : World SnellCipher),
      Reach (World.step cr) (fun w p => Poll.Ok w p)
        (World.dialed cr (snellFormat kdf cipher master) salt
          [snellCmdPayload version isUdp host port]) w →
      w.Delivers cr (snellFormat kdf cipher master) [snellCmdPayload version isUdp host port]) ∧
    ∀ (cr : Ciphers MieruCipher), cr.Lawful → ∀ (cipher : MieruCipher)
      (password username target : List UInt8) (salt : Bytes (mieruFormat kdf cipher password).saltLen)
      (now : UInt64) (w : World MieruCipher),
      Reach (World.step cr) (fun w p => Poll.Ok w p)
        (World.dialed cr (mieruFormat kdf cipher password) salt [mieruAuth username now, target]) w →
      w.Delivers cr (mieruFormat kdf cipher password) [mieruAuth username now, target] := by
  constructor
  · intro cr hcr cipher master host salt version isUdp port w h
    exact World.reach_delivers hcr salt h
  · intro cr hcr cipher password username target salt now w h
    exact World.reach_delivers hcr salt h

/-! ### A cipher -/

/-- A cipher that puts the nonce behind the plaintext, as its tag. -/
def nonceCiphers (κ : Type*) : Ciphers κ where
  encrypt := fun _ _ nonce plain => plain ++ (nonce ++ List.replicate 16 0).take 16
  decrypt := fun _ _ nonce ct =>
    if ct.drop (ct.length - 16) = (nonce ++ List.replicate 16 0).take 16 then
      some (ct.take (ct.length - 16))
    else none

theorem nonceCiphers_lawful : (nonceCiphers κ).Lawful where
  opens := by
    intro c key nonce plain
    simp [nonceCiphers]
  length := by simp [nonceCiphers]

/-- Keys that are all zero. -/
def zeroDerivations : Derivations where
  hkdfSha1 := fun _ _ len _ => List.replicate len 0
  pbkdf2HmacSha256 := fun _ _ _ len => List.replicate len 0

/-- A stream of Snell to `a:80`. -/
def snellDialed : World SnellCipher :=
  World.dialed (nonceCiphers _) (snellFormat zeroDerivations .aes128Gcm []) ⟨List.replicate 16 7, rfl⟩
    [snellCmdPayload 4 false [97] 80]

/-- Two writes, taken in parts; the second one is cut short by `Pending`. -/
theorem streams_delivered_parts :
    ∃ w, Reach (World.step (nonceCiphers _)) (fun w p => Poll.Ok w p) snellDialed w ∧
      w.accepted = [1, 2] ∧
      w.Delivers (nonceCiphers _) (snellFormat zeroDerivations .aes128Gcm [])
        [snellCmdPayload 4 false [97] 80] := by
  have hrun : ∃ w, runMoves (onlyOk (World.step (nonceCiphers _)) (fun w p => Poll.Ok w p)) snellDialed
      [⟨[1, 2], [.ready 5, .ready 31]⟩, ⟨[3], [.ready 20, .pending]⟩] = some w ∧ w.accepted = [1, 2] :=
    ⟨_, rfl, rfl⟩
  obtain ⟨w, hw, haccepted⟩ := hrun
  have hreach := reach_of_onlyOk hw
  exact ⟨w, hreach, haccepted, (streams_delivered zeroDerivations).1 _ nonceCiphers_lawful _ _ _ _ _ _ _ w
    hreach⟩

/-- A write is repeated after `Pending`: it is sealed twice, and the peer, which has not seen the first
sealing, does not open the second one. -/
theorem chunk_sealed_twice :
    ∃ w, runMoves (World.step (nonceCiphers _)) snellDialed
        [⟨[1, 2], [.pending]⟩, ⟨[1, 2], [.ready 36]⟩] = some w ∧
      w.accepted = [1, 2] ∧
      ¬w.Delivers (nonceCiphers _) (snellFormat zeroDerivations .aes128Gcm [])
        [snellCmdPayload 4 false [97] 80] := by
  have hrun : ∃ w, runMoves (World.step (nonceCiphers _)) snellDialed
      [⟨[1, 2], [.pending]⟩, ⟨[1, 2], [.ready 36]⟩] = some w ∧ w.accepted = [1, 2] ∧
      (received (nonceCiphers _) (snellFormat zeroDerivations .aes128Gcm []) [w.wire]).map Prod.snd =
        some (.error ()) := by
    refine ⟨_, rfl, rfl, ?_⟩
    decide +kernel
  obtain ⟨w, hw, haccepted, hfailed⟩ := hrun
  refine ⟨w, hw, haccepted, fun hdelivers => ?_⟩
  obtain ⟨plain, hreceived, -⟩ := hdelivers [w.wire] [] (by simp)
  rw [hreceived] at hfailed
  cases hfailed

end WutherCore.Proto
