import WutherCore.Proto.Chunks

/-!
# Snell and Mieru

The two protocols of sealed chunks, `snell.rs` and `mieru.rs`: what their `dial_tcp` writes, and what
their `poll_read` does with an opened chunk.  A Snell server answers with a status byte before the
payload (`handlePayload`); Mieru hands out what it has opened.  The key derivations are parameters,
`Derivations`.
-/

namespace WutherCore.Proto

open WutherCore.Data WutherCore.Text
open WutherCore.Young (Bytes ascii u16Bytes u64Bytes)

variable {κ : Type*}

/-- The crates `hkdf` and `pbkdf2`. -/
structure Derivations where
  /-- `Hkdf::<Sha1>`: of a master key, a salt, a length and an info. -/
  hkdfSha1 : List UInt8 → List UInt8 → Nat → List UInt8 → List UInt8
  /-- `pbkdf2_hmac::<Sha256>`: of a password, a salt, a number of rounds and a length. -/
  pbkdf2HmacSha256 : List UInt8 → List UInt8 → Nat → Nat → List UInt8

/-! ### Snell -/

/-- `SnellCipher`. -/
inductive SnellCipher
  | aes128Gcm
  | chacha20Poly1305
  deriving DecidableEq, Repr

/-- `SnellCipher::key_len`. -/
def SnellCipher.keyLen : SnellCipher → Nat
  | aes128Gcm => 16
  | chacha20Poly1305 => 32

theorem SnellCipher.keyLen_pos (c : SnellCipher) : 0 < c.keyLen := by
  cases c <;> decide

/-- The format of Snell, with the key of the outbound. -/
def snellFormat (kdf : Derivations) (cipher : SnellCipher) (master : List UInt8) : Format SnellCipher where
  cipher := cipher
  saltLen := cipher.keyLen
  saltLen_pos := cipher.keyLen_pos
  subkey := fun salt => kdf.hkdfSha1 master salt cipher.keyLen (ascii "snell-subkey")

namespace SnellCmd

/-- `cmd::CONNECT`. -/
def connect : UInt8 := 0x01

/-- `cmd::UDP_FORWARD`. -/
def udpForward : UInt8 := 0x02

/-- `cmd::UDP_STREAM`. -/
def udpStream : UInt8 := 0x03

/-- `cmd::TUNNEL`. -/
def tunnel : UInt8 := 0x00

/-- `cmd::PONG_RESPONSE`. -/
def pongResponse : UInt8 := 0x01

/-- `cmd::ERROR`. -/
def error : UInt8 := 0x02

end SnellCmd

/-- `cmd_payload`, the first chunk. -/
def snellCmdPayload (version : UInt8) (isUdp : Bool) (host : List UInt8) (port : UInt16) : List UInt8 :=
  let cmdByte :=
    if isUdp then if 4 ≤ version then SnellCmd.udpStream else SnellCmd.udpForward else SnellCmd.connect
  [version, cmdByte, 0, UInt8.ofNat (min host.length 255)] ++ (host ++ u16Bytes port)

/-- `ResponseState`. -/
inductive ResponseState
  | waitStatus
  | payload
  | pongReceived
  | error (remaining : Nat) (errno : UInt8)
  deriving DecidableEq, Repr

/-- The errors of `poll_read`. -/
inductive SnellError
  | openFailed (cipher : SnellCipher)
  | emptyResponse
  | frameTooShort
  /-- The server has refused, with the bytes of its message if they were in the same chunk. -/
  | refused (errno : UInt8) (msg : Option (List UInt8))
  | unknownStatus (status : UInt8)
  deriving DecidableEq, Repr

/-- The texts of the errors; `lossy` is `String::from_utf8_lossy`. -/
def SnellError.text (lossy : List UInt8 → String) : SnellError → String
  | openFailed .aes128Gcm => "snell decrypt aes"
  | openFailed .chacha20Poly1305 => "snell decrypt chacha"
  | emptyResponse => "snell empty response"
  | frameTooShort => "snell error frame too short"
  | refused errno none => "snell error errno=" ++ toString errno
  | refused errno (some msg) => "snell error errno=" ++ toString errno ++ ": " ++ lossy msg
  | unknownStatus status => "snell unknown status byte 0x" ++ (if status < 16 then "0" else "") ++
      String.ofList (hex status.toNat)

/-- `handle_payload`: what an opened chunk adds to the plaintext. -/
def handlePayload : ResponseState → List UInt8 → Except SnellError (List UInt8 × ResponseState)
  | .waitStatus, [] => .error .emptyResponse
  | .waitStatus, status :: dec =>
    if status = SnellCmd.tunnel then .ok (dec, .payload)
    else if status = SnellCmd.pongResponse then .ok ([], .waitStatus)
    else if status = SnellCmd.error then
      match dec with
      | errno :: msgLen :: msg =>
        if msgLen.toNat ≤ msg.length then .error (.refused errno (some (msg.take msgLen.toNat)))
        else .ok ([], .error (msgLen.toNat - msg.length) errno)
      | _ => .error .frameTooShort
    else .error (.unknownStatus status)
  | .payload, dec => .ok (dec, .payload)
  | .pongReceived, _ => .ok ([], .waitStatus)
  | .error remaining errno, dec =>
    if remaining ≤ dec.length then .error (.refused errno none)
    else .ok ([], .error (remaining - dec.length) errno)

/-- The rounds of `SnellStream::poll_read`. -/
def snellProgress (cr : Ciphers SnellCipher) (kdf : Derivations) (cipher : SnellCipher)
    (master : List UInt8) : Decoder (RecvState SnellCipher × ResponseState) SnellError UInt8 (List UInt8) :=
  progress cr (snellFormat kdf cipher master) (.openFailed cipher) handlePayload

/-! ### Mieru -/

/-- `MieruCipher`. -/
inductive MieruCipher
  | aes256Gcm
  | chacha20Poly1305
  deriving DecidableEq, Repr

/-- `SALT_LEN`. -/
def mieruSaltLen : Nat := 16

/-- `PBKDF2_ITER`. -/
def pbkdf2Iter : Nat := 4096

/-- The format of Mieru, with `derive_subkey`. -/
def mieruFormat (kdf : Derivations) (cipher : MieruCipher) (password : List UInt8) : Format MieruCipher where
  cipher := cipher
  saltLen := mieruSaltLen
  saltLen_pos := by decide
  subkey := fun salt => kdf.pbkdf2HmacSha256 password salt pbkdf2Iter 32

/-- `auth`, the first chunk; the second one is the encoded target. -/
def mieruAuth (username : List UInt8) (now : UInt64) : List UInt8 :=
  UInt8.ofNat (min username.length 255) :: (username ++ u64Bytes now)

/-- The error of `poll_read`. -/
structure MieruError where
  /-- The cipher that does not open the chunk. -/
  openFailed : MieruCipher
  deriving DecidableEq, Repr

/-- The texts of the error. -/
def MieruError.text (e : MieruError) : String :=
  match e.openFailed with
  | .aes256Gcm => "mieru aes dec"
  | .chacha20Poly1305 => "mieru chacha dec"

/-- An opened chunk is handed out. -/
def plainly {ε : Type*} (_ : Unit) (dec : List UInt8) : Except ε (List UInt8 × Unit) := .ok (dec, ())

/-- The rounds of `MieruStream::poll_read`. -/
def mieruProgress (cr : Ciphers MieruCipher) (kdf : Derivations) (cipher : MieruCipher)
    (password : List UInt8) : Decoder (RecvState MieruCipher × Unit) MieruError UInt8 (List UInt8) :=
  progress cr (mieruFormat kdf cipher password) ⟨cipher⟩ plainly

end WutherCore.Proto
