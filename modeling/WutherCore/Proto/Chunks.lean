import WutherCore.Data.Buffer
import WutherCore.Data.Exact
import WutherCore.Young.Wire

/-!
# Streams of sealed chunks

`snell.rs` and `mieru.rs` have the same format: a salt, and then chunks, each of which is its length in
two bytes, sealed, and its bytes, sealed.  Both sides count the sealings in a nonce of twelve bytes.  An
AEAD is a parameter, `Ciphers`.

* `Cryptor`, `encryptChunk`: the writer.
* `progress`: one round of the loop of `poll_read`.
* `chunk_framed`: a chunk is read back by a reader in the state that the writer had before, and leaves it
  in the state that the writer has after.
-/

namespace WutherCore.Proto

open WutherCore.Data WutherCore.Text
open WutherCore.Young (Bytes u16Bytes u16Bytes_length toNat_ofNat16)

variable {κ ρ ε : Type*}

/-- The AEAD crates: of a cipher, a key, a nonce and a text. -/
structure Ciphers (κ : Type*) where
  encrypt : κ → List UInt8 → List UInt8 → List UInt8 → List UInt8
  decrypt : κ → List UInt8 → List UInt8 → List UInt8 → Option (List UInt8)

/-- What is sealed is opened again under the same key and nonce; a tag is 16 bytes long. -/
structure Ciphers.Lawful (cr : Ciphers κ) : Prop where
  opens : ∀ c key nonce plain, cr.decrypt c key nonce (cr.encrypt c key nonce plain) = some plain
  length : ∀ c key nonce plain, (cr.encrypt c key nonce plain).length = plain.length + 16

/-- The length of a tag. -/
def tagLen : Nat := 16

/-- `PAYLOAD_MAX`. -/
def payloadMax : Nat := 0x3fff

/-- Where Snell and Mieru differ: the cipher, the length of the salt, and the key that is derived from
a salt. -/
structure Format (κ : Type*) where
  cipher : κ
  saltLen : Nat
  saltLen_pos : 0 < saltLen
  subkey : List UInt8 → List UInt8

/-! ### The cryptor -/

/-- `SnellCryptor`, `MieruCryptor`. -/
structure Cryptor (κ : Type*) where
  cipher : κ
  key : List UInt8
  nonce : List UInt8

/-- `SnellCryptor::new`, `MieruCryptor::new`, with the key of a salt. -/
def Cryptor.new (fmt : Format κ) (salt : List UInt8) : Cryptor κ :=
  ⟨fmt.cipher, fmt.subkey salt, List.replicate 12 0⟩

/-- One is added to the little-endian number in the bytes; it wraps. -/
def increment : List UInt8 → List UInt8
  | [] => []
  | b :: bytes => if b + 1 = 0 then (b + 1) :: increment bytes else (b + 1) :: bytes

/-- The cryptor after `next_nonce`. -/
def Cryptor.next (c : Cryptor κ) : Cryptor κ := { c with nonce := increment c.nonce }

section Model

variable (cr : Ciphers κ)

/-- `encrypt`. -/
def Cryptor.encrypt (c : Cryptor κ) (msg : List UInt8) : List UInt8 × Cryptor κ :=
  (cr.encrypt c.cipher c.key c.nonce msg, c.next)

/-- `decrypt`. -/
def Cryptor.decrypt (c : Cryptor κ) (ct : List UInt8) : Option (List UInt8) × Cryptor κ :=
  (cr.decrypt c.cipher c.key c.nonce ct, c.next)

/-- `encrypt_chunk`. -/
def Cryptor.encryptChunk (c : Cryptor κ) (data : List UInt8) : List UInt8 × Cryptor κ :=
  let chunk := data.take payloadMax
  let (len, c) := c.encrypt cr (u16Bytes (UInt16.ofNat chunk.length))
  let (body, c) := c.encrypt cr chunk
  (len ++ body, c)

/-- The chunks of a list, one after another. -/
def Cryptor.encryptChunks (c : Cryptor κ) : List (List UInt8) → List UInt8 × Cryptor κ
  | [] => ([], c)
  | data :: datas =>
    let (pkt, c) := c.encryptChunk cr data
    let (wire, c) := c.encryptChunks datas
    (pkt ++ wire, c)

/-- What `dial_tcp` writes, and the cryptor that it leaves to the stream: the salt, and the chunks of a
greeting. -/
def dial (fmt : Format κ) (salt : Bytes fmt.saltLen) (greeting : List (List UInt8)) :
    List UInt8 × Cryptor κ :=
  let (wire, send) := (Cryptor.new fmt salt.1).encryptChunks cr greeting
  (salt.1 ++ wire, send)

/-! ### The reader -/

/-- `RecvState`. -/
inductive RecvState (κ : Type*)
  | waitSalt
  | ready (recv : Cryptor κ) (expectingLen : Option Nat)

/-- How many bytes the next round needs. -/
def RecvState.need (fmt : Format κ) : RecvState κ → Nat
  | waitSalt => fmt.saltLen
  | ready _ none => 2 + tagLen
  | ready _ (some length) => length + tagLen

/-- What a round does with the bytes it needs.  An opened chunk is given to `handle`, which has a state
of its own; `openFailed` is the error of `decrypt`. -/
def RecvState.openNext (fmt : Format κ) (openFailed : ε)
    (handle : ρ → List UInt8 → Except ε (List UInt8 × ρ)) :
    RecvState κ × ρ → List UInt8 → Except ε (List UInt8 × (RecvState κ × ρ))
  | (waitSalt, response), salt => .ok ([], (ready (Cryptor.new fmt salt) none, response))
  | (ready recv none, response), chunk =>
    match recv.decrypt cr chunk with
    | (none, _) => .error openFailed
    | (some dec, recv) => .ok ([], (ready recv (some (beAt 2 dec 0)), response))
  | (ready recv (some _), response), chunk =>
    match recv.decrypt cr chunk with
    | (none, _) => .error openFailed
    | (some dec, recv) =>
      match handle response dec with
      | .error e => .error e
      | .ok (plain, response) => .ok (plain, (ready recv none, response))

/-- One round of the loop of `poll_read`. -/
def progress (fmt : Format κ) (openFailed : ε) (handle : ρ → List UInt8 → Except ε (List UInt8 × ρ)) :
    Decoder (RecvState κ × ρ) ε UInt8 (List UInt8) :=
  exactly (fun s => s.1.need fmt) (RecvState.openNext cr fmt openFailed handle)

/-! ### Frames -/

variable {cr} {fmt : Format κ} {openFailed : ε} {handle : ρ → List UInt8 → Except ε (List UInt8 × ρ)}
  {send : Cryptor κ} {response response' : ρ} {data plain : List UInt8}

theorem RecvState.need_pos (fmt : Format κ) (s : RecvState κ) : 0 < s.need fmt := by
  cases s with
  | waitSalt => exact fmt.saltLen_pos
  | ready recv expectingLen => cases expectingLen <;> simp [need, tagLen]

theorem steady_progress : Steady (progress cr fmt openFailed handle) :=
  steady_exactly fun s => s.1.need_pos fmt

theorem progress_nil (s : RecvState κ × ρ) : progress cr fmt openFailed handle s [] = .ok none :=
  exactly_nil (s.1.need_pos fmt)

theorem progress_frame {s s' : RecvState κ × ρ} {frame : List UInt8} (hlen : frame.length = s.1.need fmt)
    (hopen : RecvState.openNext cr fmt openFailed handle s frame = .ok (plain, s')) :
    Frame (progress cr fmt openFailed handle) s frame plain s' :=
  frame_exactly (s.1.need_pos fmt) hlen hopen

theorem salt_frame (salt : Bytes fmt.saltLen) (response : ρ) :
    Frame (progress cr fmt openFailed handle) (.waitSalt, response) salt.1 []
      (.ready (Cryptor.new fmt salt.1) none, response) :=
  progress_frame salt.2 rfl

theorem length_frame (hcr : cr.Lawful) {n : Nat} (hn : n < 2 ^ 16) :
    Frame (progress cr fmt openFailed handle) (.ready send none, response)
      (send.encrypt cr (u16Bytes (UInt16.ofNat n))).1 [] (.ready send.next (some n), response) := by
  apply progress_frame
  · rw [Cryptor.encrypt, hcr.length, u16Bytes_length]
    rfl
  · have hlen : beAt 2 (u16Bytes (UInt16.ofNat n)) 0 = n := by
      rw [beAt, slice_zero_length (by simp), u16Bytes, toNat_ofNat16 hn,
        ofBytesBE_toBytesBE (by simpa using hn)]
    simp only [RecvState.openNext, Cryptor.decrypt, Cryptor.encrypt, hcr.opens, hlen]

theorem body_frame (hcr : cr.Lawful) (hhandle : handle response data = .ok (plain, response')) :
    Frame (progress cr fmt openFailed handle) (.ready send (some data.length), response)
      (send.encrypt cr data).1 plain (.ready send.next none, response') := by
  apply progress_frame
  · rw [Cryptor.encrypt, hcr.length]
    rfl
  · simp only [RecvState.openNext, Cryptor.decrypt, Cryptor.encrypt, hcr.opens, hhandle]

/-- The frames of a chunk. -/
def Cryptor.chunkFrames (cr : Ciphers κ) (send : Cryptor κ) (data : List UInt8) : List (List UInt8) :=
  [(send.encrypt cr (u16Bytes (UInt16.ofNat (data.take payloadMax).length))).1,
    (send.next.encrypt cr (data.take payloadMax)).1]

theorem encryptChunk_eq : send.encryptChunk cr data =
    ((send.chunkFrames cr data).flatten, send.next.next) := by
  simp [Cryptor.encryptChunk, Cryptor.chunkFrames, Cryptor.encrypt]

/-- **A chunk is read back** by a reader that counts like the writer. -/
theorem chunk_framed (hcr : cr.Lawful)
    (hhandle : handle response (data.take payloadMax) = .ok (plain, response')) :
    Framed (progress cr fmt openFailed handle) (.ready send none, response)
      (send.chunkFrames cr data) [[], plain] (.ready send.next.next none, response') := by
  have hlen : (data.take payloadMax).length < 2 ^ 16 := by
    rw [List.length_take, payloadMax]
    omega
  exact .cons (length_frame hcr hlen) (.cons (body_frame hcr hhandle) (.nil _))

end Model

end WutherCore.Proto
