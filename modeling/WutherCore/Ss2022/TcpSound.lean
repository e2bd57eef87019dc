import Mathlib.Data.List.Nodup
import WutherCore.Ss2022.Tcp

/-!
# Shadowsocks 2022: what a TCP stream delivers

The parts that a writer seals are frames of the reader's decoder (`framed_packets`,
`framed_handshake`), so that the reader follows the writer however the transport takes and delivers what
is sent (`World.Inv`).

* `World.Inv.step`: every move keeps the invariant.
* `World.Inv.clean_iff`: the stream ends cleanly exactly where the last chunk that has arrived is whole.
* `tcp_stream_sound`: what is read is the first part of what was accepted, and all of it after a flush;
  a stream that is cut inside a chunk ends in an error; the first `2 ^ 96` seals have different nonces.
* `nonce_repeats`: the nonces of more seals have not.
-/

namespace WutherCore.Ss2022

open WutherCore.Text WutherCore.Data
open WutherCore.Young (u16Bytes u64Bytes)

/-- What is sealed is opened under its key and nonce, and is 16 bytes longer. -/
structure Primitives.AeadLawful (cr : Primitives) : Prop where
  opens : ∀ cipher key nonce message,
    cr.aeadOpen cipher key nonce (cr.aeadSeal cipher key nonce message) = some message
  length : ∀ cipher key nonce message,
    (cr.aeadSeal cipher key nonce message).length = message.length + 16

variable {cr : Primitives} {ctx : Context}

/-! ### The parts of a stream -/

section Parts

variable (hcr : cr.AeadLawful)
include hcr

theorem sealed_length (c : Ss22Cryptor) (message : List UInt8) :
    (c.sealed cr ctx message).length = message.length + 16 := hcr.length ..

theorem frame_of_openPart {s s' : RecvState} {c : Ss22Cryptor} {message out : List UInt8} (n : Nat)
    (k : List UInt8 → Except StreamError (List UInt8 × RecvState))
    (hs : ∀ buf, decodeTcp cr ctx s buf = openPart cr ctx c n buf k) (hn : n = message.length + 16)
    (hk : k message = .ok (out, s')) :
    Frame (decodeTcp cr ctx) s (c.sealed cr ctx message) out s' := by
  have hlen : (c.sealed cr ctx message).length = message.length + 16 := sealed_length hcr c message
  refine ⟨List.ne_nil_of_length_pos (by omega), fun rest => ?_, fun p hp hne => ?_⟩
  · have hopened : c.opened cr ctx (c.sealed cr ctx message) = .ok message := by
      rw [Ss22Cryptor.opened, Ss22Cryptor.sealed, hcr.opens]
    have hlong : ¬(c.sealed cr ctx message ++ rest).length < n := by
      rw [List.length_append]
      omega
    rw [hs, openPart, if_neg hlong, List.take_left' (by omega), hopened]
    simp only [hk, hlen, hn]
  · have hshort : p.length < n := by
      have hle := hp.length_le
      have hlt : p.length ≠ (c.sealed cr ctx message).length := fun heq => hne (hp.eq_of_length heq)
      omega
    rw [hs, openPart, if_pos hshort]

theorem frame_payload (c : Ss22Cryptor) {chunk : List UInt8} :
    Frame (decodeTcp cr ctx) (.body c (some chunk.length)) (c.sealed cr ctx chunk) chunk
      (.body c.next none) :=
  frame_of_openPart hcr (chunk.length + 16) (fun plain => .ok (plain, .body c.next none))
    (fun _ => rfl) rfl rfl

theorem frame_length (c : Ss22Cryptor) {chunk : List UInt8} (h : chunk.length ≤ payloadMax) :
    Frame (decodeTcp cr ctx) (.body c none)
      (c.sealed cr ctx (u16Bytes (UInt16.ofNat chunk.length))) []
      (.body c.next (some chunk.length)) := by
  have hlt : chunk.length < 2 ^ 16 := by
    unfold payloadMax at h
    omega
  have hlen : beAt 2 (u16Bytes (UInt16.ofNat chunk.length)) 0 = chunk.length := by
    rw [beAt, slice_zero_length (by simp), u16Bytes, UInt16.toNat_ofNat_of_lt' hlt,
      ofBytesBE_toBytesBE (by simpa using hlt)]
  refine frame_of_openPart hcr (2 + 16)
    (fun plain => .ok ([], .body c.next (some (beAt 2 plain 0)))) (fun _ => rfl) (by simp) ?_
  rw [hlen]

theorem framed_packet (c : Ss22Cryptor) {chunk : List UInt8} (h : chunk.length ≤ payloadMax) :
    Framed (decodeTcp cr ctx) (.body c none) (packet cr ctx c chunk) [[], chunk]
      (.body c.next.next none) :=
  .cons (frame_length hcr c h) (.cons (frame_payload hcr c.next) (.nil _))

omit hcr in
/-- The fixed header of a response passes its checks. -/
theorem readFixedHeader_fixedHeader (p : Response ctx) :
    readFixedHeader ctx (p.fixedHeader ctx) = .ok p.initial.length := by
  have hsmall : p.initial.length < 2 ^ 16 := by
    have hle := p.small
    unfold payloadMax at hle
    omega
  set len := u16Bytes (UInt16.ofNat p.initial.length) with hlen
  have htotal : (p.fixedHeader ctx).length = 1 + 8 + ctx.cipher.keyLen + 2 := by
    simp [Response.fixedHeader, ctx.salted]
    omega
  have htime : beAt 8 (p.fixedHeader ctx) 1 = p.timestamp.toNat := by
    have hsplit : p.fixedHeader ctx = [0x01] ++ (u64Bytes p.timestamp ++ (ctx.requestSalt ++ len)) := rfl
    have hbytes : slice (p.fixedHeader ctx) 1 (1 + 8) = u64Bytes p.timestamp := by
      rw [hsplit]
      exact slice_middle rfl (by simp)
    rw [beAt, hbytes]
    exact ofBytesBE_toBytesBE p.timestamp.toNat_lt
  have hsalt : slice (p.fixedHeader ctx) 9 (9 + ctx.cipher.keyLen) = ctx.requestSalt := by
    have hsplit : p.fixedHeader ctx =
        (0x01 :: u64Bytes p.timestamp) ++ (ctx.requestSalt ++ len) := rfl
    rw [hsplit]
    exact slice_middle (by simp) (by rw [ctx.salted])
  have hinitial : beAt 2 (p.fixedHeader ctx) (9 + ctx.cipher.keyLen) = p.initial.length := by
    have hsplit : p.fixedHeader ctx =
        (0x01 :: (u64Bytes p.timestamp ++ ctx.requestSalt)) ++ (len ++ []) := by
      simp [Response.fixedHeader, hlen]
    rw [beAt, hsplit, slice_middle (by simp [ctx.salted]; omega) (by simp [hlen]), hlen, u16Bytes,
      UInt16.toNat_ofNat_of_lt' hsmall, ofBytesBE_toBytesBE (by simpa using hsmall)]
  have htype : byteAt (p.fixedHeader ctx) 0 = 0x01 := rfl
  unfold readFixedHeader
  dsimp only
  rw [if_neg (by rw [htotal]; simp), if_neg (by rw [htype]; simp), htime, if_neg (by simp [p.fresh]),
    if_neg (by rw [hsalt]; simp), hinitial]

omit hcr in
theorem frame_salt (p : Response ctx) : Frame (decodeTcp cr ctx) .waitSalt p.salt []
    (.waitFixedHeader ⟨(Start.response p).key cr ctx, 0⟩) := by
  have hpos : 0 < ctx.cipher.keyLen := by
    cases ctx.cipher <;> decide
  have hlen := p.salted
  refine ⟨List.ne_nil_of_length_pos (by omega), fun rest => ?_, fun q hq hne => ?_⟩
  · have hlong : ¬(p.salt ++ rest).length < ctx.cipher.keyLen := by
      rw [List.length_append]
      omega
    unfold decodeTcp
    dsimp only
    rw [if_neg hlong, List.take_left' hlen, hlen]
    rfl
  · have hshort : q.length < ctx.cipher.keyLen := by
      have hle := hq.length_le
      have hlt : q.length ≠ p.salt.length := fun heq => hne (hq.eq_of_length heq)
      omega
    unfold decodeTcp
    dsimp only
    rw [if_pos hshort]

theorem frame_fixedHeader (p : Response ctx) (c : Ss22Cryptor) :
    Frame (decodeTcp cr ctx) (.waitFixedHeader c) (c.sealed cr ctx (p.fixedHeader ctx)) []
      (.body c.next (some p.initial.length)) := by
  refine frame_of_openPart hcr (1 + 8 + ctx.cipher.keyLen + 2 + 16)
    _ (fun _ => rfl) ?_ ?_
  · simp [Response.fixedHeader, ctx.salted]
    omega
  · simp only [readFixedHeader_fixedHeader p]

theorem framed_handshake (start : Start ctx) :
    ∃ ms, Framed (decodeTcp cr ctx) (start.recvState cr ctx) (start.handshake cr ctx) ms
        (.body (start.cryptor cr ctx) none) ∧ ms.flatten = start.initial ctx := by
  cases start with
  | request key => exact ⟨[], .nil _, rfl⟩
  | response p =>
    exact ⟨[[], [], p.initial], .cons (frame_salt p) (.cons (frame_fixedHeader hcr p _)
      (.cons (frame_payload hcr _) (.nil _))), by simp [Start.initial]⟩

end Parts

/-! ### The chunks of a stream -/

/-- The cryptor after so many chunks. -/
def Ss22Cryptor.skip (c : Ss22Cryptor) : Nat → Ss22Cryptor
  | 0 => c
  | k + 1 => c.next.next.skip k

theorem Ss22Cryptor.skip_succ (c : Ss22Cryptor) (k : Nat) : c.skip (k + 1) = (c.skip k).next.next := by
  induction k generalizing c with
  | zero => rfl
  | succ k ih => exact ih c.next.next

theorem Ss22Cryptor.skip_key (c : Ss22Cryptor) (k : Nat) : (c.skip k).key = c.key := by
  induction k generalizing c with
  | zero => rfl
  | succ k ih => exact ih c.next.next

theorem Ss22Cryptor.skip_nonce (c : Ss22Cryptor) (k : Nat) (hc : c.nonce < 2 ^ 128) :
    (c.skip k).nonce = (c.nonce + 2 * k) % 2 ^ 128 := by
  induction k generalizing c with
  | zero => rw [skip, Nat.mul_zero, Nat.add_zero, Nat.mod_eq_of_lt hc]
  | succ k ih =>
    rw [skip, ih _ (Nat.mod_lt _ (by norm_num))]
    simp only [next]
    omega

theorem packets_append (c : Ss22Cryptor) (chunks chunks' : List (List UInt8)) :
    packets cr ctx c (chunks ++ chunks') =
      packets cr ctx c chunks ++ packets cr ctx (c.skip chunks.length) chunks' := by
  induction chunks generalizing c with
  | nil => rfl
  | cons chunk chunks ih =>
    rw [List.cons_append, packets, packets, ih, List.append_assoc]
    rfl

section Cut

variable (hcr : cr.AeadLawful) {c c' : Ss22Cryptor} {chunks done todo ms : List (List UInt8)}
include hcr

theorem framed_packets (hsmall : ∀ chunk ∈ chunks, chunk.length ≤ payloadMax) (c : Ss22Cryptor) :
    ∃ ms, Framed (decodeTcp cr ctx) (.body c none) (packets cr ctx c chunks) ms
      (.body (c.skip chunks.length) none) := by
  induction chunks generalizing c with
  | nil => exact ⟨[], .nil _⟩
  | cons chunk chunks ih =>
    rw [List.forall_mem_cons] at hsmall
    obtain ⟨ms, hms⟩ := ih hsmall.2 c.next.next
    exact ⟨_, (framed_packet hcr c hsmall.1).append hms⟩

theorem exists_take_of_framed (hsmall : ∀ chunk ∈ chunks, chunk.length ≤ payloadMax)
    (hsplit : done ++ todo = packets cr ctx c chunks)
    (h : Framed (decodeTcp cr ctx) (.body c none) done ms (.body c' none)) :
    ∃ k, done = packets cr ctx c (chunks.take k) := by
  induction chunks generalizing c done ms with
  | nil =>
    rw [packets, List.append_eq_nil_iff] at hsplit
    exact ⟨0, hsplit.1⟩
  | cons chunk chunks ih =>
    rw [List.forall_mem_cons] at hsmall
    rw [packets, packet, List.cons_append, List.cons_append, List.nil_append] at hsplit
    match done, hsplit, h with
    | [], _, _ => exact ⟨0, rfl⟩
    | [part], hsplit, h =>
      -- after a length the reader expects a payload
      obtain rfl : part = _ := (List.cons.inj hsplit).1
      have hstate := (h.unique (.cons (frame_length hcr c hsmall.1) (.nil _))).2
      simp at hstate
    | part :: part' :: done, hsplit, h =>
      simp only [List.cons_append, List.cons.injEq] at hsplit
      obtain ⟨rfl, rfl, hsplit⟩ := hsplit
      obtain ⟨s', ms₁, ms₂, -, hfirst, hrest⟩ := 
        Framed.split (show Framed _ _ (packet cr ctx c chunk ++ done) _ _ from h)
      obtain ⟨-, rfl⟩ := hfirst.unique (framed_packet hcr c hsmall.1)
      obtain ⟨k, rfl⟩ := ih hsmall.2 hsplit hrest
      exact ⟨k + 1, rfl⟩

/-- A reader that expects a length has read what is sent ahead of the chunks. -/
theorem exists_handshake_of_framed {start : Start ctx} {parts : List (List UInt8)}
    (hsplit : done ++ todo = start.handshake cr ctx ++ parts)
    (h : Framed (decodeTcp cr ctx) (start.recvState cr ctx) done ms (.body c' none)) :
    ∃ done', done = start.handshake cr ctx ++ done' ∧ done' ++ todo = parts ∧
      ∃ ms', Framed (decodeTcp cr ctx) (.body (start.cryptor cr ctx) none) done' ms' (.body c' none) := by
  cases start with
  | request key => exact ⟨done, rfl, hsplit, ms, h⟩
  | response p =>
    rw [Start.handshake, List.cons_append, List.cons_append, List.cons_append, List.nil_append] at hsplit
    match done, hsplit, h with
    | [], _, h => cases h
    | [part], hsplit, h =>
      obtain rfl : part = _ := (List.cons.inj hsplit).1
      have hstate := (h.unique (.cons (frame_salt p) (.nil _))).2
      simp at hstate
    | [part, part'], hsplit, h =>
      simp only [List.cons_append, List.cons.injEq] at hsplit
      obtain ⟨rfl, rfl, -⟩ := hsplit
      have hstate := (h.unique (.cons (frame_salt p) (.cons (frame_fixedHeader hcr p _) (.nil _)))).2
      simp at hstate
    | part :: part' :: part'' :: done, hsplit, h =>
      simp only [List.cons_append, List.cons.injEq] at hsplit
      obtain ⟨rfl, rfl, rfl, hsplit⟩ := hsplit
      obtain ⟨ms', hhand, -⟩ := framed_handshake hcr (Start.response p)
      obtain ⟨s', ms₁, ms₂, -, hfirst, hrest⟩ :=
        Framed.split (show Framed _ _ ((Start.response p).handshake cr ctx ++ done) _ _ from h)
      obtain ⟨-, rfl⟩ := hfirst.unique hhand
      exact ⟨done, rfl, hsplit, ms₂, hrest⟩

end Cut

/-! ### Nonces -/

theorem nonceBytes_mod (n : Nat) : nonceBytes (n % 2 ^ 128) = nonceBytes n := by
  have hdigits : ∀ k, k ≤ 16 → digitsBE 256 k (n % 2 ^ 128) = digitsBE 256 k n := by
    intro k
    induction k with
    | zero => exact fun _ => rfl
    | succ k ih =>
      intro hk
      have hdvd : 256 ^ k * 256 ∣ 2 ^ 128 := by
        rw [show (2 : Nat) ^ 128 = 256 ^ 16 by norm_num, ← Nat.pow_succ]
        exact Nat.pow_dvd_pow 256 hk
      rw [digitsBE, digitsBE, ih (by omega), ← Nat.mod_mul_right_div_self, Nat.mod_mod_of_dvd _ hdvd,
        Nat.mod_mul_right_div_self]
  rw [nonceBytes, nonceBytes, toBytesLE, toBytesLE, toBytesBE, toBytesBE, hdigits 12 (by decide)]

theorem nonceBytes_injOn {i j : Nat} (hi : i < 2 ^ 96) (hj : j < 2 ^ 96)
    (h : nonceBytes i = nonceBytes j) : i = j := by
  have hpow : (2 : Nat) ^ 96 = 256 ^ 12 := by norm_num
  rw [hpow] at hi hj
  calc i = ofBytesLE (nonceBytes i) := (ofBytesLE_toBytesLE hi).symm
    _ = ofBytesLE (nonceBytes j) := by rw [h]
    _ = j := ofBytesLE_toBytesLE hj

/-! ### What the moves keep -/

/-- The reader follows the writer, whose parts are on the wire or in the buffer. -/
structure World.Inv (cr : Primitives) (ctx : Context) (start : Start ctx) (w : World) : Prop where
  follows : ∃ done todo ms₁ ms₂, Follows (decodeTcp cr ctx) (start.recvState cr ctx) done todo ms₁ ms₂
    (.body w.send none) w.arrived w.read w.reader ∧
    done ++ todo = start.handshake cr ctx ++ packets cr ctx (start.cryptor cr ctx) w.chunks ∧
    (ms₁ ++ ms₂).flatten = w.accepted
  sent : w.wire ++ w.writeBuf = start.stream cr ctx w.chunks
  arrived_le : w.arrived <+: w.wire
  small : ∀ chunk ∈ w.chunks, chunk.length ≤ payloadMax
  send_eq : w.send = (start.cryptor cr ctx).skip w.chunks.length
  seals_eq : w.seals =
    (List.range (2 + 2 * w.chunks.length)).map fun i => (start.key cr ctx, nonceBytes i)
  waits : w.waiting = true → w.reader.Idle (decodeTcp cr ctx)
  ends : ∀ result ∈ w.ended, w.reader.Idle (decodeTcp cr ctx) ∧
    (result = .ok () ∧ cleanEof w.reader = true ∨
      result = .error truncatedResponse ∧ cleanEof w.reader = false)

variable {start : Start ctx} {w w' : World}

theorem World.Inv.new (hcr : cr.AeadLawful) (start : Start ctx) :
    (World.new cr ctx start).Inv cr ctx start where
  follows := by
    obtain ⟨ms, hframed, hms⟩ := framed_handshake hcr start
    exact ⟨[], start.handshake cr ctx, [], ms, (Follows.start _).extend hframed, by simp [World.new, packets],
      hms⟩
  sent := by simp [World.new, Start.stream, packets]
  arrived_le := List.nil_prefix
  small := by simp [World.new]
  send_eq := rfl
  seals_eq := rfl
  waits := by simp [World.new]
  ends := by simp [World.new]

theorem World.Inv.drain (h : w.Inv cr ctx start) {answers : List Answer} {all : Bool}
    (hd : w.drain answers = some (w', all)) :
    w'.Inv cr ctx start ∧ (all = true → w'.writeBuf = []) := by
  obtain ⟨⟨written, all'⟩, hwrite, heq⟩ := Option.map_eq_some_iff.1 hd
  cases heq
  obtain ⟨hparts, hall⟩ := writeOut_append_drop hwrite
  refine ⟨{ h with sent := ?_, arrived_le := h.arrived_le.trans (List.prefix_append _ _) }, fun ht => ?_⟩
  · rw [← h.sent, List.append_assoc, hparts]
  · rw [hall ht, List.drop_length]

/-- A chunk is accepted. -/
theorem World.Inv.accept (hcr : cr.AeadLawful) (h : w.Inv cr ctx start) {chunk : List UInt8}
    (hsmall : chunk.length ≤ payloadMax) : (w.accept cr ctx chunk).Inv cr ctx start := by
  have hlen : (w.chunks ++ [chunk]).length = w.chunks.length + 1 := by simp
  have hpackets : packets cr ctx (start.cryptor cr ctx) (w.chunks ++ [chunk]) =
      packets cr ctx (start.cryptor cr ctx) w.chunks ++ packet cr ctx w.send chunk := by
    rw [packets_append, ← h.send_eq, packets, packets, List.append_nil]
  refine { h with
    follows := ?_, sent := ?_, small := ?_, send_eq := ?_, seals_eq := ?_ }
  · obtain ⟨done, todo, ms₁, ms₂, hfollows, hframes, hms⟩ := h.follows
    refine ⟨done, _, ms₁, _, hfollows.extend (framed_packet hcr w.send hsmall), ?_, ?_⟩
    · rw [World.accept, hpackets, ← List.append_assoc, ← List.append_assoc, hframes]
    · rw [← List.append_assoc, List.flatten_append, hms]
      simp [World.accept]
  · rw [World.accept, ← List.append_assoc, h.sent, Start.stream, Start.stream, hpackets,
      List.flatten_append, List.append_assoc]
  · intro c hc
    rcases List.mem_append.1 hc with hc | hc
    · exact h.small c hc
    · rwa [List.mem_singleton.1 hc]
  · rw [World.accept, hlen, Ss22Cryptor.skip_succ, ← h.send_eq]
  · -- the counter stands at the number of seals
    have hnonce : w.send.nonce = (2 + 2 * w.chunks.length) % 2 ^ 128 := by
      rw [h.send_eq, Ss22Cryptor.skip_nonce _ _ (by simp [Start.cryptor])]
      rfl
    have hkey : w.send.key = start.key cr ctx := by
      rw [h.send_eq, Ss22Cryptor.skip_key]
      rfl
    have hsecond : nonceBytes w.send.next.nonce = nonceBytes (2 + 2 * w.chunks.length + 1) := by
      rw [Ss22Cryptor.next, hnonce, Nat.mod_add_mod, nonceBytes_mod]
    rw [World.accept, hlen, h.seals_eq, hkey, hsecond, hnonce, nonceBytes_mod,
      show 2 + 2 * (w.chunks.length + 1) = 2 + 2 * w.chunks.length + 1 + 1 by omega, List.range_succ,
      List.range_succ]
    simp

theorem World.Inv.pollWrite (hcr : cr.AeadLawful) (h : w.Inv cr ctx start) {data : List UInt8}
    {first second : List Answer} (hw : w.pollWrite cr ctx data first second = some w') :
    w'.Inv cr ctx start := by
  unfold World.pollWrite at hw
  cases hd : w.drain first with
  | none => simp [hd] at hw
  | some res =>
    obtain ⟨w₁, all⟩ := res
    have hinv := (h.drain hd).1
    rw [hd] at hw
    dsimp only at hw
    split_ifs at hw
    · cases hw
      exact hinv
    · obtain ⟨⟨w₂, all₂⟩, hd₂, rfl⟩ := Option.map_eq_some_iff.1 hw
      exact ((hinv.accept hcr (by simp)).drain hd₂).1
    · cases hw
      exact hinv

theorem World.Inv.pollRead (h : w.Inv cr ctx start) {n : Nat}
    {arrivals : List (Arrival UInt8)} (hr : w.pollRead cr ctx n arrivals = some w') :
    w'.Inv cr ctx start := by
  unfold World.pollRead at hr
  split_ifs at hr with hzero harrived
  · cases hr
    exact h
  · obtain ⟨done, todo, ms₁, ms₂, hfollows, hframes, hms⟩ := h.follows
    cases hp : Data.pollRead (decodeTcp cr ctx) cleanEof truncatedResponse n arrivals w.reader with
    | none => simp [hp] at hr
    | some res =>
      obtain ⟨r, o⟩ := res
      rw [hp] at hr
      cases hr
      have hin : w.arrived ++ Data.arrived arrivals <+: (done ++ todo).flatten := by
        rw [hframes, List.flatten_append]
        exact harrived.trans ⟨w.writeBuf, h.sent⟩
      obtain ⟨done', todo', ms₁', ms₂', hfollows', hframes', hms', htold⟩ :=
        pollRead_follows hfollows (by simp [decodeTcp, openPart]) hin hp
      refine { h with
        follows := ⟨done', todo', ms₁', ms₂', hfollows', hframes'.trans hframes, by rw [hms', hms]⟩
        arrived_le := harrived
        waits := ?_
        ends := ?_ }
      · cases o with
        | pending => exact fun _ => htold
        | read _ => simp
        | closed => simp
        | failed _ => simp
      · cases o with
        | pending => simp
        | read _ => simp
        | closed =>
          obtain ⟨hidle, hclean⟩ := htold
          simpa using ⟨hidle, hclean⟩
        | failed e =>
          obtain ⟨hidle, hclean, rfl⟩ := htold
          simpa using ⟨hidle, hclean⟩

theorem World.Inv.step (hcr : cr.AeadLawful) (h : w.Inv cr ctx start) {m : Move}
    (hm : w.step cr ctx m = some w') : w'.Inv cr ctx start := by
  unfold World.step at hm
  split_ifs at hm
  cases m with
  | write data first second => exact h.pollWrite hcr hm
  | flush answers =>
    obtain ⟨⟨w₁, all⟩, hd, rfl⟩ := Option.map_eq_some_iff.1 hm
    exact (h.drain hd).1
  | read n arrivals => exact h.pollRead hm

/-! ### What is read -/

section Read

variable (hcr : cr.AeadLawful)
include hcr

/-- **A stream may end exactly between two chunks.** -/
theorem World.Inv.clean_iff (h : w.Inv cr ctx start) (hidle : w.reader.Idle (decodeTcp cr ctx)) :
    cleanEof w.reader = true ↔ ∃ k, w.arrived = start.stream cr ctx (w.chunks.take k) := by
  obtain ⟨done, todo, ms₁, ms₂, hfollows, hframes, -⟩ := h.follows
  constructor
  · intro hclean
    obtain ⟨recv, hstate, hbuffer⟩ : ∃ recv, w.reader.state = .body recv none ∧ w.reader.buffer = [] := by
      unfold cleanEof at hclean
      split at hclean
      · rename_i recv hstate
        exact ⟨recv, hstate, by simpa using hclean⟩
      · cases hclean
    have hbefore := hfollows.before
    rw [hstate] at hbefore
    obtain ⟨done', rfl, hparts, ms', hframed⟩ := exists_handshake_of_framed hcr hframes hbefore
    obtain ⟨k, rfl⟩ := exists_take_of_framed hcr h.small hparts hframed
    refine ⟨k, ?_⟩
    rw [hfollows.received_eq, hbuffer, List.append_nil, List.flatten_append, Start.stream]
  · rintro ⟨k, hk⟩
    -- the frames of the chunks that have arrived, and those of the others
    have hsplit : done ++ todo =
        (start.handshake cr ctx ++ packets cr ctx (start.cryptor cr ctx) (w.chunks.take k)) ++
          packets cr ctx ((start.cryptor cr ctx).skip (w.chunks.take k).length) (w.chunks.drop k) := by
      rw [hframes, List.append_assoc, ← packets_append, List.take_append_drop]
    have hne := (hfollows.before.append hfollows.after).nonempty
    have hq : done.flatten ++ w.reader.buffer =
        (start.handshake cr ctx ++
          packets cr ctx (start.cryptor cr ctx) (w.chunks.take k)).flatten := by
      rw [← hfollows.received_eq, hk, Start.stream, List.flatten_append]
    obtain ⟨hdone, hbuffer⟩ := done_eq_of_incomplete hne hsplit hq (hfollows.incomplete hidle)
    obtain ⟨ms, hhand, -⟩ := framed_handshake hcr start
    obtain ⟨ms', hpackets⟩ :=
      framed_packets hcr (fun c hc => h.small c (List.mem_of_mem_take hc)) (start.cryptor cr ctx)
    have hbefore := hfollows.before
    rw [hdone] at hbefore
    obtain ⟨-, hstate⟩ := hbefore.unique (hhand.append hpackets)
    simp [cleanEof, hstate, hbuffer]

omit hcr in
theorem World.Inv.read_eq (h : w.Inv cr ctx start) (hidle : w.reader.Idle (decodeTcp cr ctx))
    (hbuf : w.writeBuf = []) (hall : w.arrived = w.wire) : w.read = w.accepted := by
  obtain ⟨done, todo, ms₁, ms₂, hfollows, hframes, hms⟩ := h.follows
  have hsent := h.sent
  rw [hbuf, List.append_nil, ← hall, hfollows.received_eq, Start.stream, ← List.flatten_append, ← hframes,
    List.flatten_append, List.append_cancel_left_eq] at hsent
  obtain rfl : todo = [] := eq_nil_of_incomplete (hsent ▸ hfollows.incomplete hidle)
  rw [hfollows.delivered_eq_of_idle hidle, ← hms, hfollows.after.eq_nil, List.append_nil]

end Read

/-- What a stream delivers. -/
structure World.Sound (cr : Primitives) (ctx : Context) (start : Start ctx) (w : World) : Prop where
  /-- What is read is the first part of what was accepted. -/
  read_prefix : w.read <+: w.accepted
  /-- It is all of it, once all was written and has arrived, and the reader asks for more or has ended. -/
  read_all : w.writeBuf = [] → w.arrived = w.wire → w.waiting = true ∨ w.ended ≠ none → w.read = w.accepted
  /-- A flush that the transport does not hold up leaves nothing to be written. -/
  flushed : ∀ answers w', w.step cr ctx (.flush answers) = some w' → .pending ∉ answers → w'.writeBuf = []
  /-- The stream ends cleanly only between chunks, and with an error only inside of one. -/
  ends : ∀ result, w.ended = some result →
    (result = .ok () ∧ ∃ k, w.arrived = start.stream cr ctx (w.chunks.take k)) ∨
    (result = .error truncatedResponse ∧ ∀ k, w.arrived ≠ start.stream cr ctx (w.chunks.take k))
  /-- The reader has bytes to hand out, or waits for the transport. -/
  returns : w.ended = none → ∀ n, 0 < n →
    (∃ w', w.step cr ctx (.read n []) = some w' ∧ w.read.length < w'.read.length) ∨
    ∃ w', w.step cr ctx (.read n [.pending]) = some w' ∧ w'.waiting = true
  /-- The first `2 ^ 96` seals are under different nonces. -/
  fresh : w.seals.length ≤ 2 ^ 96 → w.seals.Nodup

theorem World.Inv.fresh (h : w.Inv cr ctx start) (hlen : w.seals.length ≤ 2 ^ 96) : w.seals.Nodup := by
  rw [h.seals_eq] at hlen ⊢
  rw [List.length_map, List.length_range] at hlen
  refine List.Nodup.map_on ?_ List.nodup_range
  intro i hi j hj heq
  rw [List.mem_range] at hi hj
  exact nonceBytes_injOn (by omega) (by omega) (Prod.mk.inj heq).2

theorem World.Inv.returns (h : w.Inv cr ctx start) (hended : w.ended = none) {n : Nat} (hn : 0 < n) :
    (∃ w', w.step cr ctx (.read n []) = some w' ∧ w.read.length < w'.read.length) ∨
      ∃ w', w.step cr ctx (.read n [.pending]) = some w' ∧ w'.waiting = true := by
  obtain ⟨done, todo, ms₁, ms₂, hfollows, hframes, -⟩ := h.follows
  have hd : decodeTcp cr ctx (.body w.send none) [] = .ok none := by simp [decodeTcp, openPart]
  have hin : w.arrived ++ [] <+: w.wire := by
    rw [List.append_nil]
    exact h.arrived_le
  rcases pollRead_returns cleanEof truncatedResponse n hfollows hd with ⟨r, bytes, hp⟩ | ⟨r, hp⟩
  · left
    have hstream : w.arrived ++ Data.arrived [] <+: (done ++ todo).flatten := by
      rw [hframes, List.flatten_append]
      exact hin.trans ⟨w.writeBuf, h.sent⟩
    obtain ⟨_, _, _, _, -, -, -, htold⟩ := pollRead_follows hfollows hd hstream hp
    have hpos := List.length_pos_iff.2 (htold hn)
    refine ⟨{ w with
      reader := r, arrived := w.arrived ++ [], read := w.read ++ bytes, waiting := false, ended := none },
      ?_, ?_⟩
    · simp only [World.step, hended, Option.isSome_none, Bool.false_eq_true, if_false, World.pollRead,
        if_neg hn.ne', Data.arrived, if_pos hin, hp, Outcome.bytes]
    · rw [List.length_append]
      omega
  · right
    refine ⟨{ w with
      reader := r, arrived := w.arrived ++ [], read := w.read ++ [], waiting := true, ended := none },
      ?_, rfl⟩
    simp only [World.step, hended, Option.isSome_none, Bool.false_eq_true, if_false, World.pollRead,
      if_neg hn.ne', Data.arrived, if_pos hin, hp, Outcome.bytes]

theorem World.Inv.sound (hcr : cr.AeadLawful) (h : w.Inv cr ctx start) : w.Sound cr ctx start where
  read_prefix := by
    obtain ⟨done, todo, ms₁, ms₂, hfollows, -, hms⟩ := h.follows
    rw [← hms, List.flatten_append, ← hfollows.delivered_eq, List.append_assoc]
    exact List.prefix_append _ _
  read_all := by
    intro hbuf hall hidle
    refine h.read_eq ?_ hbuf hall
    rcases hidle with hwaits | hended
    · exact h.waits hwaits
    · obtain ⟨result, hresult⟩ := Option.ne_none_iff_exists'.1 hended
      exact (h.ends result hresult).1
  flushed := by
    intro answers w' hstep hpending
    unfold World.step at hstep
    split_ifs at hstep
    obtain ⟨⟨w₁, all⟩, hd, rfl⟩ := Option.map_eq_some_iff.1 hstep
    obtain ⟨⟨written, all'⟩, hwrite, heq⟩ := Option.map_eq_some_iff.1 hd
    cases heq
    rw [(writeOut_ready hwrite hpending).1]
    exact List.drop_length
  ends := by
    intro result hresult
    obtain ⟨hidle, ⟨rfl, hclean⟩ | ⟨rfl, hclean⟩⟩ := h.ends result hresult
    · exact .inl ⟨rfl, (h.clean_iff hcr hidle).1 hclean⟩
    · refine .inr ⟨rfl, fun k hk => ?_⟩
      rw [(h.clean_iff hcr hidle).2 ⟨k, hk⟩] at hclean
      cases hclean
  returns := fun hended _ hn => h.returns hended hn
  fresh := h.fresh

theorem World.Inv.of_reach (hcr : cr.AeadLawful)
    (h : Reach (World.step cr ctx) anyMove (World.new cr ctx start) w) : w.Inv cr ctx start :=
  h.inv (fun _ _ _ hi _ hs => hi.step hcr hs) (.new hcr start)

/-- **A TCP stream delivers what was accepted**, whatever is written, however the transport takes and
delivers it and wherever it ends. -/
theorem tcp_stream_sound (cr : Primitives) (hcr : cr.AeadLawful) (ctx : Context) (start : Start ctx)
    (w : World) (h : Reach (World.step cr ctx) anyMove (World.new cr ctx start) w) :
    w.Sound cr ctx start :=
  (World.Inv.of_reach hcr h).sound hcr

/-! ### A cipher -/

/-- Ciphers that put a tag of zeros behind the plaintext. -/
def clearPrimitives : Primitives where
  aesEncryptBlock := fun _ block => block
  aesDecryptBlock := fun _ block => block
  aeadSeal := fun _ _ _ message => message ++ List.replicate 16 0
  aeadOpen := fun _ _ _ ciphertext =>
    if ciphertext.drop (ciphertext.length - 16) = List.replicate 16 0 then
      some (ciphertext.take (ciphertext.length - 16))
    else none
  xchachaOpen := fun _ _ _ => none
  hash := fun _ => List.replicate 32 0
  deriveKey := fun _ _ len => List.replicate len 0

theorem clearPrimitives_lawful : clearPrimitives.AeadLawful where
  opens := by simp [clearPrimitives]
  length := by simp [clearPrimitives]

/-- A stream of AES-128-GCM. -/
def aesContext : Context where
  cipher := .aes128Gcm
  psk := List.replicate 16 1
  requestSalt := List.replicate 16 2
  now := 1000
  salted := rfl

/-- A response with a first payload of one byte. -/
def aesResponse : Response aesContext where
  salt := List.replicate 16 3
  salted := rfl
  timestamp := 1010
  fresh := by decide
  initial := [7]
  small := by decide

/-- A chunk is written in parts, and the stream is cut inside of it. -/
theorem tcp_stream_sound_cut :
    ∃ w, Reach (World.step clearPrimitives aesContext) anyMove
        (World.new clearPrimitives aesContext (.response aesResponse)) w ∧
      w.accepted = [7, 8, 9] ∧ w.read = [7] ∧ w.ended = some (.error truncatedResponse) ∧
      w.Sound clearPrimitives aesContext (.response aesResponse) := by
  have hrun : (runMoves (World.step clearPrimitives aesContext)
      (World.new clearPrimitives aesContext (.response aesResponse))
      [.write [8, 9] [] [.ready 20, .pending],
        .read 10 [.piece (((Start.response aesResponse).handshake clearPrimitives aesContext).flatten)],
        .read 10 [.piece [0, 2, 0, 0], .eof]]).map (fun w => (w.accepted, w.read, w.ended)) =
      some ([7, 8, 9], [7], some (.error truncatedResponse)) := by decide +kernel
  obtain ⟨w, hw, hends⟩ := Option.map_eq_some_iff.1 hrun
  simp only [Prod.mk.injEq] at hends
  obtain ⟨haccepted, hread, hended⟩ := hends
  have hreach := reach_of_runMoves hw
  exact ⟨w, hreach, haccepted, hread, hended,
    tcp_stream_sound clearPrimitives clearPrimitives_lawful aesContext (.response aesResponse) w hreach⟩

/-! ### More seals than nonces -/

theorem exists_reach_chunks (hcr : cr.AeadLawful) (start : Start ctx) (k : Nat) :
    ∃ w, Reach (World.step cr ctx) anyMove (World.new cr ctx start) w ∧ w.chunks.length = k ∧
      w.writeBuf = [] ∧ w.ended = none := by
  induction k with
  | zero => exact ⟨_, .refl, rfl, rfl, rfl⟩
  | succ k ih =>
    obtain ⟨w, hreach, hlen, hbuf, hended⟩ := ih
    set bytes := (packet cr ctx w.send [0]).flatten with hbytes
    have hne : bytes ≠ [] := by
      have hsealed : (w.send.next.sealed cr ctx [0]).length = 1 + 16 := sealed_length hcr _ _
      intro hnil
      rw [hbytes, packet, List.flatten_cons, List.flatten_cons, List.append_eq_nil_iff,
        List.append_eq_nil_iff] at hnil
      rw [hnil.2.1] at hsealed
      simp at hsealed
    refine ⟨{ w.accept cr ctx [0] with wire := w.wire ++ bytes, writeBuf := [] },
      hreach.tail (m := .write [0] [] [.ready bytes.length]) trivial ?_, ?_, rfl, hended⟩
    · have hout := writeOut_whole hne
      simp [World.step, hended, World.pollWrite, World.drain, hbuf, writeOut, World.accept, payloadMax,
        ← hbytes, hout]
    · simp [World.accept, hlen]

/-- After `2 ^ 95` chunks a nonce is used a second time. -/
theorem nonce_repeats : ∃ w, Reach (World.step clearPrimitives aesContext) anyMove
    (World.new clearPrimitives aesContext (.request (List.replicate 16 0))) w ∧ ¬w.seals.Nodup := by
  obtain ⟨w, hreach, hlen, -⟩ :=
    exists_reach_chunks clearPrimitives_lawful (.request (List.replicate 16 0) : Start aesContext) (2 ^ 95)
  refine ⟨w, hreach, fun hnodup => ?_⟩
  rw [(World.Inv.of_reach clearPrimitives_lawful hreach).seals_eq, hlen] at hnodup
  have hinj := List.inj_on_of_nodup_map hnodup (x := 0) (y := 2 ^ 96) (by simp) (by simp)
  have hsame : nonceBytes 0 = nonceBytes (2 ^ 96) := by decide +kernel
  rw [hsame] at hinj
  simp at hinj

end WutherCore.Ss2022
