import WutherCore.Data.Buffer
import WutherCore.Data.Loop
import WutherCore.Young.FlowOpen

/-!
# The server name of a TLS ClientHello

`parseTlsSni` reads the first record of a connection.  A read outside the buffer would panic; here it
has no value.

* `parseTlsSni_spec`: it always comes to an end, and with which name.
* `ServerNameAt`: where the walk over the extensions meets the first `server_name` extension.
* `ClientHello.encode`: the record of a ClientHello.
-/

namespace WutherCore.Route

open WutherCore.Data WutherCore.Text
open WutherCore.Ruleset (utf8)
open WutherCore.Ruleset.Srs (fromUtf8)

/-! ### The parser -/

/-- The part of `parse_tls_sni` before the loop: where the extensions start, and where they end. -/
def extensionsOf (buf : List UInt8) : Option (Option (Nat × Nat)) :=
  if buf.length < 43 then some none
  else do
    let contentType ← u8At buf 0
    let handshakeType ← u8At buf 5
    if contentType ≠ 0x16 ∨ handshakeType ≠ 0x01 then some none
    else
      let i := 5 + 4 + 2 + 32
      if i ≥ buf.length then some none
      else do
        let sidLen ← u8At buf i
        let i := i + (1 + sidLen)
        if i + 2 > buf.length then some none
        else do
          let csLen ← u16At buf i
          let i := i + (2 + csLen)
          if i + 1 > buf.length then some none
          else do
            let cmLen ← u8At buf i
            let i := i + (1 + cmLen)
            if i + 2 > buf.length then some none
            else do
              let extTotal ← u16At buf i
              let i := i + 2
              some (some (i, i + extTotal))

/-- The data of a `server_name` extension, of the given length, from an index on. -/
def serverName (buf : List UInt8) (i extLen : Nat) : Option (Option Str) :=
  if extLen < 5 then some none
  else do
    let _listLen ← u16At buf i
    let nameType ← u8At buf (i + 2)
    if nameType ≠ 0 then some none
    else do
      let nameLen ← u16At buf (i + 3)
      if i + 5 + nameLen > buf.length then some none
      else some (fromUtf8 ((buf.drop (i + 5)).take nameLen))

/-- A turn of the loop over the extensions. -/
def extension (buf : List UInt8) (extEnd i : Nat) : Option (Turn Nat (Option Str)) :=
  if i + 4 ≤ buf.length ∧ i + 4 ≤ extEnd then do
    let extType ← u16At buf i
    let extLen ← u16At buf (i + 2)
    let i := i + 4
    if i + extLen > buf.length then some (.stop none)
    else if extType = 0x0000 then (serverName buf i extLen).map .stop
    else some (.again (i + extLen))
  else some (.stop none)

/-- `parse_tls_sni`.  Each turn of the loop passes at least the four bytes of a header. -/
def parseTlsSni (buf : List UInt8) : Option (Option Str) :=
  (extensionsOf buf).bind fun
    | none => some none
    | some (start, extEnd) => turns (extension buf extEnd) (buf.length + 1) start

theorem extensionsOf_isSome (buf : List UInt8) : (extensionsOf buf).isSome = true := by
  unfold extensionsOf
  split_ifs with hlen
  · rfl
  obtain ⟨contentType, h0⟩ := u8At_isSome buf 0 (by omega)
  obtain ⟨handshakeType, h5⟩ := u8At_isSome buf 5 (by omega)
  simp only [h0, h5, Option.bind_eq_bind, Option.bind_some]
  split_ifs with _ hsid
  · rfl
  · rfl
  obtain ⟨sidLen, hsid'⟩ := u8At_isSome buf (5 + 4 + 2 + 32) (by omega)
  simp only [hsid', Option.bind_some]
  split_ifs with hcs
  · rfl
  obtain ⟨csLen, hcs'⟩ := u16At_isSome buf (5 + 4 + 2 + 32 + (1 + sidLen)) (by omega)
  simp only [hcs', Option.bind_some]
  split_ifs with hcm
  · rfl
  obtain ⟨cmLen, hcm'⟩ :=
    u8At_isSome buf (5 + 4 + 2 + 32 + (1 + sidLen) + (2 + csLen)) (by omega)
  simp only [hcm', Option.bind_some]
  split_ifs with hext
  · rfl
  obtain ⟨extTotal, hext'⟩ := u16At_isSome buf (5 + 4 + 2 + 32 + (1 + sidLen) + (2 + csLen) + (1 + cmLen)) (by omega)
  simp only [hext', Option.bind_some]
  rfl

/-! ### The walk over the extensions -/

/-- The walk over the extensions gets from one index to another, past extensions that are not
`server_name`. -/
inductive Walk (buf : List UInt8) (extEnd : Nat) : Nat → Nat → Prop
  | here (i : Nat) : Walk buf extEnd i i
  | past {i j extType extLen : Nat} (room : i + 4 ≤ extEnd) (kind : u16At buf i = some extType)
      (other : extType ≠ 0) (length : u16At buf (i + 2) = some extLen)
      (inside : i + 4 + extLen ≤ buf.length) (rest : Walk buf extEnd (i + 4 + extLen) j) :
      Walk buf extEnd i j

/-- The data of the first `server_name` extension, of this declared length, begins at the index. -/
def FirstServerName (buf : List UInt8) (extEnd start i len : Nat) : Prop :=
  ∃ j, Walk buf extEnd start j ∧ i = j + 4 ∧ i ≤ extEnd ∧ u16At buf j = some 0 ∧
    u16At buf (j + 2) = some len ∧ i + len ≤ buf.length

/-- The buffer starts with a ClientHello; in it, the data of the first `server_name` extension, of
this declared length, begins at the index. -/
def ServerNameAt (buf : List UInt8) (i len : Nat) : Prop :=
  ∃ start extEnd, extensionsOf buf = some (some (start, extEnd)) ∧ FirstServerName buf extEnd start i len

/-- The data at the index begins with a `host_name` entry with a text of this length. -/
structure HostName (buf : List UInt8) (i n : Nat) (name : Str) : Prop where
  kind : u8At buf (i + 2) = some 0
  length : u16At buf (i + 3) = some n
  text : fromUtf8 ((buf.drop (i + 5)).take n) = some name

section Walk

variable {buf : List UInt8} {extEnd i j len : Nat} {name : Str}

theorem Walk.unique {j' : Nat} (h : Walk buf extEnd i j) (h' : Walk buf extEnd i j')
    (hj : u16At buf j = some 0) (hj' : u16At buf j' = some 0) : j = j' := by
  induction h with
  | here i =>
    cases h' with
    | here => rfl
    | past _ kind other => rw [hj] at kind; cases kind; exact absurd rfl other
  | past room kind other length inside rest ih =>
    cases h' with
    | here => rw [hj'] at kind; cases kind; exact absurd rfl other
    | past room' kind' other' length' inside' rest' =>
      rw [length] at length'
      cases length'
      exact ih rest' hj

theorem ServerNameAt.unique {i' len' : Nat} (h : ServerNameAt buf i len) (h' : ServerNameAt buf i' len') :
    i = i' ∧ len = len' := by
  obtain ⟨start, extEnd, hbuf, j, hwalk, rfl, -, hkind, hlen, -⟩ := h
  obtain ⟨start', extEnd', hbuf', j', hwalk', rfl, -, hkind', hlen', -⟩ := h'
  rw [hbuf] at hbuf'
  cases hbuf'
  obtain rfl := hwalk.unique hwalk' hkind hkind'
  rw [hlen] at hlen'
  cases hlen'
  exact ⟨rfl, rfl⟩

/-- The entry fits the buffer when its extension has room for the lengths. -/
def Found (buf : List UInt8) (i len : Nat) (name : Str) : Prop :=
  5 ≤ len ∧ ∃ n, HostName buf i n name ∧ i + 5 + n ≤ buf.length

/-- What is read of a `server_name` extension inside the buffer. -/
theorem serverName_spec (buf : List UInt8) (i len : Nat) (hinside : i + len ≤ buf.length) :
    ∃ result, serverName buf i len = some result ∧ ∀ name, result = some name ↔ Found buf i len name := by
  unfold serverName
  split_ifs with hlen
  · refine ⟨none, rfl, fun name => ⟨nofun, ?_⟩⟩
    rintro ⟨hge, -⟩
    omega
  obtain ⟨listLen, hlist⟩ := u16At_isSome buf i (by omega)
  obtain ⟨nameType, hkind⟩ := u8At_isSome buf (i + 2) (by omega)
  obtain ⟨nameLen, hname⟩ := u16At_isSome buf (i + 3) (by omega)
  simp only [hlist, hkind, hname, Option.bind_eq_bind, Option.bind_some]
  split_ifs with hother hlong
  · refine ⟨none, rfl, fun name => ⟨nofun, ?_⟩⟩
    rintro ⟨-, n, hhost, -⟩
    rw [hhost.kind] at hkind
    cases hkind
    exact absurd rfl hother
  · refine ⟨none, rfl, fun name => ⟨nofun, ?_⟩⟩
    rintro ⟨-, n, hhost, hfits⟩
    rw [hhost.length] at hname
    cases hname
    omega
  · refine ⟨_, rfl, fun name => ⟨fun htext => ?_, ?_⟩⟩
    · rw [not_not] at hother
      exact ⟨by omega, nameLen, ⟨by rw [hkind, hother], hname, htext⟩, by omega⟩
    · rintro ⟨-, n, hhost, -⟩
      have hlength := hhost.length
      rw [hname] at hlength
      cases hlength
      exact hhost.text

/-- The loop comes to an end, with the name of the first `server_name` extension. -/
theorem turns_spec (buf : List UInt8) (extEnd fuel i : Nat) (hpos : 0 < fuel) (hfuel : buf.length < i + fuel) :
    ∃ result, turns (extension buf extEnd) fuel i = some result ∧
      ∀ name, result = some name ↔ ∃ k len, FirstServerName buf extEnd i k len ∧ Found buf k len name := by
  induction fuel generalizing i with
  | zero => cases hpos
  | succ fuel ih =>
    rw [turns]
    unfold extension
    by_cases hroom : i + 4 ≤ buf.length ∧ i + 4 ≤ extEnd
    · rw [if_pos hroom]
      obtain ⟨extType, hkind⟩ := u16At_isSome buf i (by omega)
      obtain ⟨extLen, hlen⟩ := u16At_isSome buf (i + 2) (by omega)
      simp only [hkind, hlen, Option.bind_eq_bind, Option.bind_some]
      split_ifs with hlong hname
      · -- the extension leaves the buffer
        refine ⟨none, rfl, fun name => ⟨fun h => (by cases h), ?_⟩⟩
        rintro ⟨k, len, ⟨j, hwalk, rfl, -, -, hlen', hinside⟩, -⟩
        cases hwalk with
        | here =>
          rw [hlen] at hlen'
          cases hlen'
          omega
        | past _ _ _ hlength hinside' =>
          rw [hlen] at hlength
          cases hlength
          omega
      · -- a `server_name` extension
        obtain ⟨result, hresult, hspec⟩ := serverName_spec buf (i + 4) extLen (by omega)
        refine ⟨result, by rw [hresult]; rfl, fun name => (hspec name).trans ⟨fun hfound => ?_, ?_⟩⟩
        · exact ⟨i + 4, extLen, ⟨i, .here i, rfl, hroom.2, by rw [hkind, hname], hlen, by omega⟩, hfound⟩
        · rintro ⟨k, len, ⟨j, hwalk, rfl, -, -, hlen', -⟩, hfound⟩
          cases hwalk with
          | here =>
            rw [hlen] at hlen'
            cases hlen'
            exact hfound
          | past _ hkind' hother =>
            rw [hkind] at hkind'
            cases hkind'
            exact absurd hname hother
      · -- another extension
        obtain ⟨result, hresult, hspec⟩ := ih (i + 4 + extLen) (by omega) (by omega)
        refine ⟨result, hresult, fun name => (hspec name).trans ⟨?_, ?_⟩⟩
        · rintro ⟨k, len, ⟨j, hwalk, hk⟩, hfound⟩
          exact ⟨k, len, ⟨j, .past hroom.2 hkind hname hlen (by omega) hwalk, hk⟩, hfound⟩
        · rintro ⟨k, len, ⟨j, hwalk, rfl, hk, hzero, hrest⟩, hfound⟩
          cases hwalk with
          | here =>
            rw [hkind] at hzero
            exact absurd (Option.some.inj hzero) hname
          | past _ _ _ hlength _ hwalk =>
            rw [hlen] at hlength
            cases hlength
            exact ⟨_, len, ⟨j, hwalk, rfl, hk, hzero, hrest⟩, hfound⟩
    · rw [if_neg hroom]
      refine ⟨none, rfl, fun name => ⟨fun h => (by cases h), ?_⟩⟩
      rintro ⟨k, len, ⟨j, hwalk, rfl, hstop, -, -, hinside⟩, -⟩
      cases hwalk with
      | here => omega
      | past hroom' _ _ _ hinside' => omega

/-- **The parser comes to an end without a read out of bounds**, and its name is the text of the first
`host_name` entry, as long as that fits the buffer. -/
theorem parseTlsSni_spec (buf : List UInt8) :
    ∃ result, parseTlsSni buf = some result ∧
      ∀ name, result = some name ↔ ∃ i len, ServerNameAt buf i len ∧ Found buf i len name := by
  obtain ⟨header, hheader⟩ := Option.isSome_iff_exists.1 (extensionsOf_isSome buf)
  unfold parseTlsSni
  rw [hheader]
  cases header with
  | none =>
    refine ⟨none, rfl, fun name => ⟨nofun, ?_⟩⟩
    rintro ⟨i, len, ⟨start, extEnd, hbuf, -⟩, -⟩
    rw [hheader] at hbuf
    cases hbuf
  | some bounds =>
    obtain ⟨start, extEnd⟩ := bounds
    obtain ⟨result, hresult, hspec⟩ :=
      turns_spec buf extEnd (buf.length + 1) start (by omega) (by omega)
    refine ⟨result, hresult, fun name => (hspec name).trans ⟨?_, ?_⟩⟩
    · rintro ⟨k, len, hfirst, hfound⟩
      exact ⟨k, len, ⟨start, extEnd, hheader, hfirst⟩, hfound⟩
    · rintro ⟨k, len, ⟨start', extEnd', hbuf, hfirst⟩, hfound⟩
      rw [hheader] at hbuf
      cases hbuf
      exact ⟨k, len, hfirst, hfound⟩

end Walk

/-! ### Well-formed records -/

/-- An extension of a ClientHello. -/
structure Extension where
  kind : Nat
  data : List UInt8

/-- The bytes of an extension. -/
def Extension.encode (e : Extension) : List UInt8 :=
  toBytesBE 2 e.kind ++ toBytesBE 2 e.data.length ++ e.data

/-- What a ClientHello with a server name is made of: `others` are the names after the first one,
`before` and `after` the other extensions. -/
structure ClientHello where
  recordVersion : List UInt8
  version : List UInt8
  random : List UInt8
  sessionId : List UInt8
  cipherSuites : List UInt8
  compressionMethods : List UInt8
  before : List Extension
  name : Str
  others : List UInt8
  after : List Extension

namespace ClientHello

variable (h : ClientHello)

/-- The `server_name` extension. -/
def serverName : Extension where
  kind := 0
  data := toBytesBE 2 (3 + (utf8 h.name).length + h.others.length) ++
    0 :: toBytesBE 2 (utf8 h.name).length ++ utf8 h.name ++ h.others

/-- The bytes of the extensions. -/
def extensions : List UInt8 :=
  (h.before ++ h.serverName :: h.after).flatMap Extension.encode

/-- What comes after the random bytes. -/
def lists : List UInt8 :=
  UInt8.ofNat h.sessionId.length :: h.sessionId ++
    (toBytesBE 2 h.cipherSuites.length ++ h.cipherSuites ++
      (UInt8.ofNat h.compressionMethods.length :: h.compressionMethods ++
        (toBytesBE 2 h.extensions.length ++ h.extensions)))

/-- The record header, the handshake header, the version and the random bytes. -/
def head : List UInt8 :=
  0x16 :: h.recordVersion ++ toBytesBE 2 (38 + h.lists.length) ++
    0x01 :: toBytesBE 3 (34 + h.lists.length) ++ h.version ++ h.random

/-- The record. -/
def encode : List UInt8 := h.head ++ h.lists

/-- The parts have their lengths, or lengths that their fields can hold, and no extension before the
`server_name` extension is another one. -/
structure WellFormed : Prop where
  recordVersion : h.recordVersion.length = 2
  version : h.version.length = 2
  random : h.random.length = 32
  sessionId : h.sessionId.length < 2 ^ 8
  cipherSuites : h.cipherSuites.length < 2 ^ 16
  compressionMethods : h.compressionMethods.length < 2 ^ 8
  extensions : h.extensions.length < 2 ^ 16
  before : ∀ e ∈ h.before, 0 < e.kind ∧ e.kind < 2 ^ 16

end ClientHello

section Encode

variable {buf : List UInt8}

/-- The walk goes past encoded extensions of other kinds. -/
theorem walk_encode (es : List Extension) (pre post : List UInt8) {extEnd : Nat}
    (hbuf : buf = pre ++ (es.flatMap Extension.encode ++ post))
    (hend : pre.length + (es.flatMap Extension.encode).length ≤ extEnd)
    (hkinds : ∀ e ∈ es, 0 < e.kind ∧ e.kind < 2 ^ 16 ∧ e.data.length < 2 ^ 16) :
    Walk buf extEnd pre.length (pre.length + (es.flatMap Extension.encode).length) := by
  induction es generalizing pre with
  | nil => exact .here _
  | cons e es ih =>
    obtain ⟨hpos, hkind, hdata⟩ := hkinds e List.mem_cons_self
    have hlength : e.encode.length = 4 + e.data.length := by simp [Extension.encode]; omega
    rw [List.flatMap_cons, List.append_assoc] at hbuf
    rw [List.flatMap_cons, List.length_append, hlength] at hend ⊢
    have hkindAt : u16At buf pre.length = some e.kind := by
      refine u16At_of_eq pre (toBytesBE 2 e.data.length ++ (e.data ++ (es.flatMap Extension.encode ++ post)))
        ?_ rfl hkind
      rw [hbuf, Extension.encode]
      simp only [List.append_assoc]
    have hlenAt : u16At buf (pre.length + 2) = some e.data.length := by
      refine u16At_of_eq (pre ++ toBytesBE 2 e.kind) (e.data ++ (es.flatMap Extension.encode ++ post))
        ?_ (by simp) hdata
      rw [hbuf, Extension.encode]
      simp only [List.append_assoc]
    have hrest := ih (pre ++ e.encode) (by rw [hbuf, List.append_assoc])
      (by rw [List.length_append, hlength]; omega) fun e he => hkinds e (List.mem_cons_of_mem _ he)
    rw [List.length_append, hlength, ← Nat.add_assoc] at hrest
    refine .past (by omega) hkindAt (by omega) hlenAt ?_ ?_
    · have := congrArg List.length hbuf
      simp only [List.length_append, hlength] at this
      omega
    · rwa [← Nat.add_assoc, ← Nat.add_assoc]

end Encode

namespace ClientHello

variable {h : ClientHello}

theorem WellFormed.head_length (hw : h.WellFormed) : h.head.length = 43 := by
  simp [head, hw.recordVersion, hw.version, hw.random]

/-- The bytes before the extensions. -/
def prelude (h : ClientHello) : List UInt8 :=
  h.head ++ (UInt8.ofNat h.sessionId.length :: h.sessionId ++
    (toBytesBE 2 h.cipherSuites.length ++ h.cipherSuites ++
      (UInt8.ofNat h.compressionMethods.length :: h.compressionMethods ++
        toBytesBE 2 h.extensions.length)))

theorem encode_eq (h : ClientHello) : h.encode = h.prelude ++ h.extensions := by
  simp only [encode, prelude, lists, List.append_assoc, List.cons_append]

theorem WellFormed.prelude_length (hw : h.WellFormed) :
    h.prelude.length = 43 + (1 + h.sessionId.length) + (2 + h.cipherSuites.length) +
      (1 + h.compressionMethods.length) + 2 := by
  simp only [prelude, List.length_append, hw.head_length, List.length_cons, toBytesBE_length]
  omega

/-- The extensions start and end where the record has them. -/
theorem WellFormed.extensionsOf (hw : h.WellFormed) (rest : List UInt8) :
    extensionsOf (h.encode ++ rest) =
      some (some (h.prelude.length, h.prelude.length + h.extensions.length)) := by
  have hhead := hw.head_length
  have hprelude := hw.prelude_length
  generalize hbuf : h.encode ++ rest = buf
  have hlist : buf = h.head ++ (h.lists ++ rest) := by
    rw [← hbuf, encode, List.append_assoc]
  have hlength : buf.length = h.prelude.length + h.extensions.length + rest.length := by
    rw [← hbuf, encode_eq, List.length_append, List.length_append]
  have htype : u8At buf 0 = some 0x16 := by
    rw [hlist, head]
    rfl
  have hhandshake : u8At buf 5 = some (0x01 : UInt8).toNat := by
    refine u8At_of_eq (0x16 :: h.recordVersion ++ toBytesBE 2 (38 + h.lists.length))
      (toBytesBE 3 (34 + h.lists.length) ++ (h.version ++ (h.random ++ (h.lists ++ rest)))) ?_
      (by simp [hw.recordVersion])
    rw [hlist, head]
    simp only [List.append_assoc, List.cons_append]
  have hsid : u8At buf 43 = some h.sessionId.length := by
    rw [u8At_of_eq h.head _ hlist hhead.symm, UInt8.toNat_ofNat_of_lt' hw.sessionId]
  have hcs : u16At buf (43 + (1 + h.sessionId.length)) = some h.cipherSuites.length := by
    refine u16At_of_eq (h.head ++ UInt8.ofNat h.sessionId.length :: h.sessionId)
      (h.cipherSuites ++ (UInt8.ofNat h.compressionMethods.length :: h.compressionMethods ++
        (toBytesBE 2 h.extensions.length ++ (h.extensions ++ rest)))) ?_ ?_ hw.cipherSuites
    · rw [hlist, lists]
      simp only [List.append_assoc, List.cons_append]
    · simp only [List.length_append, List.length_cons, hhead]
      omega
  have hcm : u8At buf (43 + (1 + h.sessionId.length) + (2 + h.cipherSuites.length)) =
      some h.compressionMethods.length := by
    rw [u8At_of_eq (h.head ++ UInt8.ofNat h.sessionId.length :: h.sessionId ++
      (toBytesBE 2 h.cipherSuites.length ++ h.cipherSuites))
      (h.compressionMethods ++ (toBytesBE 2 h.extensions.length ++ (h.extensions ++ rest))) ?_ ?_,
      UInt8.toNat_ofNat_of_lt' hw.compressionMethods]
    · rw [hlist, lists]
      simp only [List.append_assoc, List.cons_append]
    · simp only [List.length_append, List.length_cons, hhead, toBytesBE_length]
      omega
  have hext : u16At buf (43 + (1 + h.sessionId.length) + (2 + h.cipherSuites.length) +
      (1 + h.compressionMethods.length)) = some h.extensions.length := by
    refine u16At_of_eq (h.head ++ UInt8.ofNat h.sessionId.length :: h.sessionId ++
      (toBytesBE 2 h.cipherSuites.length ++ h.cipherSuites) ++
      UInt8.ofNat h.compressionMethods.length :: h.compressionMethods) (h.extensions ++ rest) ?_ ?_
      hw.extensions
    · rw [hlist, lists]
      simp only [List.append_assoc, List.cons_append]
    · simp only [List.length_append, List.length_cons, hhead, toBytesBE_length]
      omega
  unfold Route.extensionsOf
  rw [if_neg (by omega), htype, show u8At buf 5 = some 1 from hhandshake]
  simp only [Option.bind_eq_bind, Option.bind_some]
  rw [if_neg (by decide), if_neg (by omega), hsid]
  simp only [Option.bind_some]
  rw [if_neg (by omega), hcs]
  simp only [Option.bind_some]
  rw [if_neg (by omega), hcm]
  simp only [Option.bind_some]
  rw [if_neg (by omega), hext, hprelude]
  rfl

theorem extensions_eq (h : ClientHello) : h.extensions =
    h.before.flatMap Extension.encode ++ (h.serverName.encode ++ h.after.flatMap Extension.encode) := by
  rw [extensions, List.flatMap_append, List.flatMap_cons]

theorem length_le_flatMap (es : List Extension) (e : Extension) (he : e ∈ es) :
    e.data.length ≤ (es.flatMap Extension.encode).length := by
  obtain ⟨l, r, rfl⟩ := List.append_of_mem he
  simp only [List.flatMap_append, List.flatMap_cons, List.length_append, Extension.encode]
  omega

/-- Where the data of the `server_name` extension begins. -/
def place (h : ClientHello) : Nat := h.prelude.length + (h.before.flatMap Extension.encode).length + 4

/-- The bytes before the data of the `server_name` extension. -/
def upTo (h : ClientHello) : List UInt8 :=
  h.prelude ++ h.before.flatMap Extension.encode ++
    (toBytesBE 2 0 ++ toBytesBE 2 h.serverName.data.length)

theorem upTo_length (h : ClientHello) : h.upTo.length = h.place := by
  simp only [upTo, place, List.length_append, toBytesBE_length]

theorem encode_append (h : ClientHello) (rest : List UInt8) :
    h.encode ++ rest = h.upTo ++ (h.serverName.data ++ (h.after.flatMap Extension.encode ++ rest)) := by
  rw [encode_eq, extensions_eq, upTo, Extension.encode]
  simp only [List.append_assoc, serverName]

theorem WellFormed.data_length (hw : h.WellFormed) :
    h.serverName.data.length = 5 + (utf8 h.name).length + h.others.length ∧
      h.serverName.data.length < 2 ^ 16 := by
  have hlength : h.serverName.data.length = 5 + (utf8 h.name).length + h.others.length := by
    simp only [serverName, List.length_append, List.length_cons, toBytesBE_length]
  have hext := hw.extensions
  rw [ClientHello.extensions] at hext
  have := length_le_flatMap (h.before ++ h.serverName :: h.after) h.serverName (by simp)
  exact ⟨hlength, by omega⟩

/-- The data of the `server_name` extension has its place behind the other extensions. -/
theorem WellFormed.serverNameAt (hw : h.WellFormed) (rest : List UInt8) :
    ServerNameAt (h.encode ++ rest) h.place h.serverName.data.length := by
  obtain ⟨-, hdata⟩ := hw.data_length
  have hext := hw.extensions
  have hlength := congrArg List.length h.extensions_eq
  simp only [List.length_append, Extension.encode, toBytesBE_length] at hlength
  have hbuf : h.encode ++ rest = h.prelude ++ (h.before.flatMap Extension.encode ++
      (h.serverName.encode ++ (h.after.flatMap Extension.encode ++ rest))) := by
    rw [encode_eq, extensions_eq]
    simp only [List.append_assoc]
  have hwalk := walk_encode h.before h.prelude _ hbuf
    (show _ ≤ h.prelude.length + h.extensions.length by omega) fun e he => by
      have := length_le_flatMap (h.before ++ h.serverName :: h.after) e
        (List.mem_append_left _ he)
      rw [← ClientHello.extensions] at this
      exact ⟨(hw.before e he).1, (hw.before e he).2, by omega⟩
  refine ⟨_, _, hw.extensionsOf rest, _, hwalk, rfl, by unfold place; omega, ?_, ?_, ?_⟩
  · refine u16At_of_eq (h.prelude ++ h.before.flatMap Extension.encode)
      (toBytesBE 2 h.serverName.data.length ++ (h.serverName.data ++
        (h.after.flatMap Extension.encode ++ rest))) ?_ (by simp) (by decide)
    rw [hbuf, Extension.encode]
    simp only [List.append_assoc]
    rfl
  · refine u16At_of_eq (h.prelude ++ h.before.flatMap Extension.encode ++ toBytesBE 2 0)
      (h.serverName.data ++ (h.after.flatMap Extension.encode ++ rest)) ?_
      (by simp only [List.length_append, toBytesBE_length]) hdata
    rw [hbuf, Extension.encode]
    simp only [List.append_assoc]
    rfl
  · rw [encode_append, List.length_append, List.length_append, upTo_length]
    omega

/-- **The name of a well-formed record is what the parser returns**, whatever comes after the record. -/
theorem WellFormed.parse (hw : h.WellFormed) (rest : List UInt8) :
    parseTlsSni (h.encode ++ rest) = some (some h.name) := by
  obtain ⟨hdata, hlt⟩ := hw.data_length
  have hbuf := h.encode_append rest
  have hupTo := h.upTo_length
  obtain ⟨result, hresult, hspec⟩ := parseTlsSni_spec (h.encode ++ rest)
  rw [hresult]
  refine congrArg some ((hspec h.name).2
    ⟨h.place, _, hw.serverNameAt rest, by omega, (utf8 h.name).length, ⟨?_, ?_, ?_⟩, ?_⟩)
  · show u8At (h.encode ++ rest) (h.place + 2) = some (0 : UInt8).toNat
    refine u8At_of_eq (h.upTo ++ toBytesBE 2 (3 + (utf8 h.name).length + h.others.length))
      (toBytesBE 2 (utf8 h.name).length ++ (utf8 h.name ++ (h.others ++
        (h.after.flatMap Extension.encode ++ rest)))) ?_ (by simp [hupTo])
    rw [hbuf, serverName]
    simp only [List.append_assoc, List.cons_append]
  · refine u16At_of_eq
      (h.upTo ++ (toBytesBE 2 (3 + (utf8 h.name).length + h.others.length) ++ [0]))
      (utf8 h.name ++ (h.others ++ (h.after.flatMap Extension.encode ++ rest))) ?_
      (by simp [hupTo]) (by omega)
    rw [hbuf, serverName]
    simp only [List.append_assoc, List.cons_append, List.nil_append]
  · have hpre : (h.upTo ++ (toBytesBE 2 (3 + (utf8 h.name).length + h.others.length) ++
        0 :: toBytesBE 2 (utf8 h.name).length)).length = h.place + 5 := by
      simp only [List.length_append, List.length_cons, toBytesBE_length, hupTo]
    have hsplit : h.encode ++ rest = (h.upTo ++ (toBytesBE 2 (3 + (utf8 h.name).length + h.others.length) ++
        0 :: toBytesBE 2 (utf8 h.name).length)) ++ (utf8 h.name ++ (h.others ++
          (h.after.flatMap Extension.encode ++ rest))) := by
      rw [hbuf, serverName]
      simp only [List.append_assoc, List.cons_append]
    rw [hsplit, ← hpre, List.drop_left, List.take_left]
    exact Young.fromUtf8_utf8 h.name
  · rw [hbuf, List.length_append, List.length_append, hupTo]
    omega

end ClientHello

/-! ### Inside the extension -/

/-- The name is the text of a `host_name` entry that lies inside the declared length of the first
`server_name` extension. -/
def Inside (buf : List UInt8) (name : Str) : Prop :=
  ∃ i len n, ServerNameAt buf i len ∧ HostName buf i n name ∧ 5 + n ≤ len

/-- In the first `server_name` extension, if the name fits the buffer and is a text, the length of the
name is within the declared length of the extension. -/
def NameFits (buf : List UInt8) : Prop :=
  ∀ i len n name, ServerNameAt buf i len → HostName buf i n name → 5 ≤ len → i + 5 + n ≤ buf.length →
    5 + n ≤ len

theorem HostName.unique {buf : List UInt8} {i n n' : Nat} {name name' : Str}
    (h : HostName buf i n name) (h' : HostName buf i n' name') : n = n' := by
  have hn := h.length
  rw [h'.length] at hn
  exact (Option.some.inj hn).symm

theorem inside_iff (buf : List UInt8) :
    (∀ name, parseTlsSni buf = some (some name) → Inside buf name) ↔ NameFits buf := by
  obtain ⟨result, hresult, hspec⟩ := parseTlsSni_spec buf
  rw [hresult]
  constructor
  · intro hinside i len n name hat hhost hlen hfits
    have hname : result = some name := (hspec name).2 ⟨i, len, hat, hlen, n, hhost, hfits⟩
    obtain ⟨i', len', n', hat', hhost', hle⟩ := hinside name (by rw [hname])
    obtain ⟨rfl, rfl⟩ := hat.unique hat'
    rwa [hhost.unique hhost']
  · intro hfits name hname
    obtain ⟨i, len, hat, hlen, n, hhost, hbuf⟩ := (hspec name).1 (Option.some.inj hname)
    exact ⟨i, len, n, hat, hhost, hfits i len n name hat hhost hlen hbuf⟩

/-- **The server name.**  On every buffer the parser comes to an end and reads in bounds; the names that
it returns lie inside the `server_name` extension exactly if the length of the name fits the extension;
of a well-formed record it returns the name. -/
theorem parseTlsSni_sound (buf : List UInt8) :
    (parseTlsSni buf).isSome = true ∧
      ((∀ name, parseTlsSni buf = some (some name) → Inside buf name) ↔ NameFits buf) ∧
      ∀ (h : ClientHello) (rest : List UInt8), h.WellFormed → buf = h.encode ++ rest →
        parseTlsSni buf = some (some h.name) := by
  refine ⟨?_, inside_iff buf, fun h rest hw hbuf => hbuf ▸ hw.parse rest⟩
  obtain ⟨result, hresult, -⟩ := parseTlsSni_spec buf
  rw [hresult]
  rfl

/-- A ClientHello with one other extension. -/
def sampleHello : ClientHello where
  recordVersion := [3, 1]
  version := [3, 3]
  random := List.replicate 32 7
  sessionId := []
  cipherSuites := [0x13, 0x01]
  compressionMethods := [0]
  before := [⟨0x17, []⟩]
  name := "a.b".toList
  others := []
  after := []

theorem sampleHello_wellFormed : sampleHello.WellFormed := by
  refine ⟨rfl, rfl, rfl, by decide, by decide, by decide, by decide, ?_⟩
  simp [sampleHello]

theorem parseTlsSni_sound_sample : parseTlsSni (sampleHello.encode ++ [9]) = some (some "a.b".toList) :=
  (parseTlsSni_sound _).2.2 sampleHello [9] sampleHello_wellFormed rfl

/-- The record of a ClientHello with a `server_name` extension of five bytes, whose name has three
bytes. -/
def longName : List UInt8 :=
  [0x16, 3, 1, 0, 0, 1, 0, 0, 0, 3, 3] ++ List.replicate 32 7 ++
    [0, 0, 2, 0x13, 1, 1, 0, 0, 9, 0, 0, 0, 5, 0, 6, 0, 0, 3, 97, 98, 99]

/-- The name that is returned does not lie inside the extension. -/
theorem not_inside_longName :
    parseTlsSni longName = some (some "abc".toList) ∧ ¬Inside longName "abc".toList := by
  have hat : ServerNameAt longName 56 5 :=
    ⟨52, 61, by decide, 52, .here 52, rfl, by decide, by decide, by decide, by decide⟩
  refine ⟨by decide +kernel, ?_⟩
  rintro ⟨i, len, n, hat', hhost, hle⟩
  obtain ⟨rfl, rfl⟩ := hat.unique hat'
  have hn : u16At longName 59 = some 3 := by decide
  rw [hhost.length] at hn
  cases hn
  omega

end WutherCore.Route
