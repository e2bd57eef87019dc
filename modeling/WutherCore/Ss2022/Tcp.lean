import WutherCore.Data.Moves
import WutherCore.Data.Pull
import WutherCore.Data.Transport
import WutherCore.Ss2022.Udp

/-!
# Shadowsocks 2022: TCP streams

`Ss22Stream` of `ss2022.rs`.  A write is cut to a chunk, whose length and payload are sealed one after
the other; what the transport does not take at once stays in `write_buf`.  A read goes through the salt
and the fixed header of a response, and then the lengths and payloads of the chunks.

* `Ss22Cryptor`: a key and the counter of its nonces.
* `decodeTcp`: one round of the loop of `poll_read`.
* `World`, `World.step`: a writer, a transport that takes and delivers in parts, and a reader.
-/

namespace WutherCore.Ss2022

open WutherCore.Text WutherCore.Data
open WutherCore.Young (u16Bytes u64Bytes)

/-- `PAYLOAD_MAX`. -/
def payloadMax : Nat := 0xffff

/-- The kinds of the errors of a stream. -/
inductive StreamErrorKind
  | other
  | invalidData
  | unexpectedEof
  deriving DecidableEq, Repr

/-- The errors of a stream. -/
structure StreamError where
  kind : StreamErrorKind
  message : String
  deriving DecidableEq, Repr

/-- `io_err`. -/
def ioErr (message : String) : StreamError := ⟨.other, message⟩

/-- The error at a stream that ends where it may not. -/
def truncatedResponse : StreamError := ⟨.unexpectedEof, "truncated ss2022 response"⟩

/-- The errors of `Ss22Aead::open`. -/
def openFailed : Ss22Cipher → StreamError
  | .aes128Gcm => ⟨.invalidData, "ss2022 AES-128-GCM open failed"⟩
  | .aes256Gcm => ⟨.invalidData, "ss2022 AES-256-GCM open failed"⟩
  | .chacha20Poly1305 => ⟨.invalidData, "ss2022 ChaCha20-Poly1305 open failed"⟩

/-- `Ss22Cryptor`.  Its key has the length of the cipher. -/
structure Ss22Cryptor where
  key : List UInt8
  nonce : Nat
  deriving DecidableEq

/-- The first 12 bytes of a counter of 128 bits, in little-endian order. -/
def nonceBytes (n : Nat) : List UInt8 := toBytesLE 12 n

/-- The cryptor after a nonce was taken. -/
def Ss22Cryptor.next (c : Ss22Cryptor) : Ss22Cryptor := { c with nonce := (c.nonce + 1) % 2 ^ 128 }

/-- What a stream is built with: the cipher, the key, the salt of the request, and the time at which the
fixed header of the response is read. -/
structure Context where
  cipher : Ss22Cipher
  psk : List UInt8
  requestSalt : List UInt8
  now : Nat
  salted : requestSalt.length = cipher.keyLen

/-- `RecvState`. -/
inductive RecvState
  | waitSalt
  | waitFixedHeader (recv : Ss22Cryptor)
  | body (recv : Ss22Cryptor) (expectingLen : Option Nat)
  deriving DecidableEq

section Model

variable (cr : Primitives) (ctx : Context)

/-- `Ss22Cryptor::seal`. -/
def Ss22Cryptor.sealed (c : Ss22Cryptor) (message : List UInt8) : List UInt8 :=
  cr.aeadSeal ctx.cipher c.key (nonceBytes c.nonce) message

/-- `Ss22Cryptor::open`. -/
def Ss22Cryptor.opened (c : Ss22Cryptor) (ciphertext : List UInt8) : Except StreamError (List UInt8) :=
  match cr.aeadOpen ctx.cipher c.key (nonceBytes c.nonce) ciphertext with
  | some plain => .ok plain
  | none => .error (openFailed ctx.cipher)

/-- The checks of a fixed header, and the length of the first payload. -/
def readFixedHeader (plain : List UInt8) : Except StreamError Nat :=
  let saltLen := ctx.cipher.keyLen
  if plain.length ≠ 1 + 8 + saltLen + 2 then .error (ioErr "ss22 fixed header size")
  else if byteAt plain 0 ≠ 0x01 then .error (ioErr "ss22 fixed header type (expect 0x01)")
  else if ¬timestampWithinTolerance (beAt 8 plain 1) ctx.now then
    .error ⟨.invalidData, "ss22 timestamp out of tolerance"⟩
  else if slice plain 9 (9 + saltLen) ≠ ctx.requestSalt then .error (ioErr "ss22 request_salt mismatch")
  else .ok (beAt 2 plain (9 + saltLen))

/-- A sealed part of `n` bytes, if all of it has arrived: what it opens to goes on with `k`. -/
def openPart (recv : Ss22Cryptor) (n : Nat) (buf : List UInt8)
    (k : List UInt8 → Except StreamError (List UInt8 × RecvState)) :
    Except StreamError (Option (List UInt8 × Nat × RecvState)) :=
  if buf.length < n then .ok none
  else
    match recv.opened cr ctx (buf.take n) with
    | .error e => .error e
    | .ok plain =>
      match k plain with
      | .error e => .error e
      | .ok (out, state) => .ok (some (out, n, state))

/-- One round of the loop of `poll_read`: what goes to `plain_buf`, and the next state. -/
def decodeTcp : Decoder RecvState StreamError UInt8 (List UInt8)
  | .waitSalt, buf =>
    let saltLen := ctx.cipher.keyLen
    if buf.length < saltLen then .ok none
    else
      let subkey := deriveSubkey cr ctx.psk (buf.take saltLen) saltLen
      .ok (some ([], saltLen, .waitFixedHeader ⟨subkey, 0⟩))
  | .waitFixedHeader recv, buf =>
    openPart cr ctx recv (1 + 8 + ctx.cipher.keyLen + 2 + 16) buf fun plain =>
      match readFixedHeader ctx plain with
      | .error e => .error e
      | .ok initialLen => .ok ([], .body recv.next (some initialLen))
  | .body recv none, buf =>
    openPart cr ctx recv (2 + 16) buf fun plain => .ok ([], .body recv.next (some (beAt 2 plain 0)))
  | .body recv (some length), buf =>
    openPart cr ctx recv (length + 16) buf fun plain => .ok (plain, .body recv.next none)

/-- `clean_eof`: where a stream may end. -/
def cleanEof (r : Pull RecvState UInt8 UInt8) : Bool :=
  match r.state with
  | .body _ none => r.buffer.isEmpty
  | _ => false

/-! ### Chunks -/

/-- The two sealed parts of a chunk. -/
def packet (c : Ss22Cryptor) (chunk : List UInt8) : List (List UInt8) :=
  [c.sealed cr ctx (u16Bytes (UInt16.ofNat chunk.length)), c.next.sealed cr ctx chunk]

/-- The sealed parts of chunks. -/
def packets : Ss22Cryptor → List (List UInt8) → List (List UInt8)
  | _, [] => []
  | c, chunk :: chunks => packet cr ctx c chunk ++ packets c.next.next chunks

/-! ### A writer and a reader -/

/-- What a peer sends before its chunks: a salt, a fixed header with the salt of the request and a time
that is near enough, and a first payload. -/
structure Response where
  salt : List UInt8
  salted : salt.length = ctx.cipher.keyLen
  timestamp : UInt64
  fresh : timestampWithinTolerance timestamp.toNat ctx.now = true
  initial : List UInt8
  small : initial.length ≤ payloadMax

/-- The two directions of a connection, after their headers: the chunks of a request are read by a peer
that has read the headers that `dial_tcp` has sealed under the first two nonces; those of a response are
read by `Ss22Stream` from the salt on. -/
inductive Start
  | request (key : List UInt8)
  | response (p : Response ctx)

/-- The fixed header of a response. -/
def Response.fixedHeader (p : Response ctx) : List UInt8 :=
  0x01 :: (u64Bytes p.timestamp ++ (ctx.requestSalt ++ u16Bytes (UInt16.ofNat p.initial.length)))

/-- The key of a direction. -/
def Start.key : Start ctx → List UInt8
  | .request key => key
  | .response p => deriveSubkey cr ctx.psk p.salt ctx.cipher.keyLen

/-- The cryptor of the writer after the headers. -/
def Start.cryptor (start : Start ctx) : Ss22Cryptor := ⟨start.key cr ctx, 2⟩

/-- What is sent ahead of the chunks, in the parts in which it is read. -/
def Start.handshake : Start ctx → List (List UInt8)
  | .request _ => []
  | start@(.response p) =>
    [p.salt, Ss22Cryptor.sealed cr ctx ⟨start.key cr ctx, 0⟩ (p.fixedHeader ctx),
      Ss22Cryptor.sealed cr ctx ⟨start.key cr ctx, 1⟩ p.initial]

/-- The payload that is sent ahead of the chunks. -/
def Start.initial : Start ctx → List UInt8
  | .request _ => []
  | .response p => p.initial

/-- The state of the reader. -/
def Start.recvState : Start ctx → RecvState
  | start@(.request _) => .body (start.cryptor cr ctx) none
  | .response _ => .waitSalt

/-- All that is sent, if the chunks are these. -/
def Start.stream (start : Start ctx) (chunks : List (List UInt8)) : List UInt8 :=
  (start.handshake cr ctx).flatten ++ (packets cr ctx (start.cryptor cr ctx) chunks).flatten

/-- A stream between two parties.  `wire` is what the transport has taken and `arrived` what it has
delivered; `seals` are the keys and nonces of all seals of the writer; `waiting` says that the last poll of
the reader has ended with `Pending`, and `ended` how the stream has ended for it. -/
structure World where
  send : Ss22Cryptor
  writeBuf : List UInt8 := []
  wire : List UInt8
  chunks : List (List UInt8) := []
  accepted : List UInt8
  seals : List (List UInt8 × List UInt8)
  reader : Pull RecvState UInt8 UInt8
  arrived : List UInt8 := []
  read : List UInt8 := []
  waiting : Bool := false
  ended : Option (Except StreamError Unit) := none

/-- The headers have been sealed, and nothing has been read. -/
def World.new (start : Start ctx) : World where
  send := start.cryptor cr ctx
  wire := (start.handshake cr ctx).flatten
  accepted := start.initial ctx
  seals := [(start.key cr ctx, nonceBytes 0), (start.key cr ctx, nonceBytes 1)]
  reader := { state := start.recvState cr ctx }

/-- The moves of the parties: `poll_write` with the answers of the transport before and after the chunk
is sealed, `poll_flush` (`poll_shutdown` drains the buffer in the same way), and `poll_read` for at most
`n` bytes with what the transport delivers.  The transport may end the stream anywhere. -/
inductive Move
  | write (data : List UInt8) (first second : List Answer)
  | flush (answers : List Answer)
  | read (n : Nat) (arrivals : List (Arrival UInt8))

/-- `poll_drain_write_buf`. -/
def World.drain (w : World) (answers : List Answer) : Option (World × Bool) :=
  (writeOut w.writeBuf answers).map fun (written, all) =>
    ({ w with wire := w.wire ++ written, writeBuf := w.writeBuf.drop written.length }, all)

/-- A chunk is sealed into the buffer, and counts as accepted. -/
def World.accept (w : World) (chunk : List UInt8) : World :=
  { w with
    send := w.send.next.next
    writeBuf := w.writeBuf ++ (packet cr ctx w.send chunk).flatten
    chunks := w.chunks ++ [chunk]
    accepted := w.accepted ++ chunk
    seals := w.seals ++
      [(w.send.key, nonceBytes w.send.nonce), (w.send.key, nonceBytes w.send.next.nonce)] }

/-- `poll_write`. -/
def World.pollWrite (w : World) (data : List UInt8) (first second : List Answer) : Option World :=
  match w.drain first with
  | none => none
  | some (w, all) =>
    if all then
      if data = [] then some w
      else ((w.accept cr ctx (data.take payloadMax)).drain second).map Prod.fst
    else some w

/-- `poll_read`. -/
def World.pollRead (w : World) (n : Nat) (arrivals : List (Arrival UInt8)) : Option World :=
  if n = 0 then some w
  else if w.arrived ++ Data.arrived arrivals <+: w.wire then
    match Data.pollRead (decodeTcp cr ctx) cleanEof truncatedResponse n arrivals w.reader with
    | none => none
    | some (r, outcome) =>
      some { w with
        reader := r
        arrived := w.arrived ++ Data.arrived arrivals
        read := w.read ++ outcome.bytes
        waiting := match outcome with
          | .pending => true
          | _ => false
        ended := match outcome with
          | .closed => some (.ok ())
          | .failed e => some (.error e)
          | _ => none }
  else none

/-- A move, as long as the reader goes on. -/
def World.step (w : World) (m : Move) : Option World :=
  if w.ended.isSome then none
  else
    match m with
    | .write data first second => w.pollWrite cr ctx data first second
    | .flush answers => (w.drain answers).map Prod.fst
    | .read n arrivals => w.pollRead cr ctx n arrivals

end Model

end WutherCore.Ss2022
