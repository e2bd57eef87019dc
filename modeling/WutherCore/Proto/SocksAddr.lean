import WutherCore.Ss2022.Udp
import WutherCore.Young.FlowOpen

/-!
# SOCKS addresses

The encoding of a destination that the SOCKS5, Trojan and Shadowsocks outbounds share (`addr.rs`): a kind,
an address or a domain behind its length, and the port.  `decodeSocksAddr` reads it back.

* `decodeSocksAddr_prefix`: what is decoded from a buffer cannot be decoded from less of it.
* `roundTrips_iff`: the destination is read back exactly if it is an address, or a domain of at most 255
  bytes; a longer domain is cut.
-/

namespace WutherCore.Proto

open WutherCore.Text WutherCore.Data WutherCore.Net
open WutherCore.Ruleset (utf8)
open WutherCore.Ruleset.Srs (fromUtf8)
open WutherCore.Ss2022 (decodeSocksAddr)
open WutherCore.Young (invalidData u16Bytes u16OfBytes fromUtf8_utf8 u16OfBytes_u16Bytes)

/-- `Address`. -/
inductive Address
  | domain (host : Str)
  | ipv4 (ip : BitVec 32)
  | ipv6 (ip : BitVec 128)

namespace Address

/-- `Address::parse`. -/
def parse (host : Str) : Address :=
  match parseIpv4 host with
  | some ip => .ipv4 ip
  | none =>
    match parseIpv6 host with
    | some ip => .ipv6 ip
    | none => .domain host

/-- `Address::encode`. -/
def encode (a : Address) (port : UInt16) : List UInt8 :=
  (match a with
    | .ipv4 ip => 0x01 :: (IpAddr.v4 ip).octets
    | .domain host =>
      let bytes := utf8 host
      let len := min bytes.length 255
      0x03 :: UInt8.ofNat len :: bytes.take len
    | .ipv6 ip => 0x04 :: (IpAddr.v6 ip).octets) ++ u16Bytes port

/-- The host of an address, an IP address in its canonical form. -/
def host : Address → Str
  | .domain host => host
  | .ipv4 ip => displayIpv4 ip
  | .ipv6 ip => displayIpv6 ip

end Address

/-- `encode_socks_addr`. -/
def encodeSocksAddr (host : Str) (port : UInt16) : List UInt8 := (Address.parse host).encode port

/-- A destination is read back, whatever follows it, with the length of its encoding; and from less than
its encoding nothing is read. -/
def RoundTrips (host : Str) (port : UInt16) : Prop :=
  (∀ rest, decodeSocksAddr (encodeSocksAddr host port ++ rest) =
      .ok ((Address.parse host).host, port, (encodeSocksAddr host port).length)) ∧
    ∀ p, p <+: encodeSocksAddr host port → p ≠ encodeSocksAddr host port → ∃ e, decodeSocksAddr p = .error e

/-! ### What is decoded -/

theorem decodeSocksAddr_eq_ok {buf : List UInt8} {host : Str} {port : UInt16} {n : Nat}
    (h : decodeSocksAddr buf = .ok (host, port, n)) :
    n ≤ buf.length ∧ 2 ≤ n ∧ (byteAt buf 0 = 0x01 ∧ n = 7 ∨
      byteAt buf 0 = 0x03 ∧ n = 2 + (byteAt buf 1).toNat + 2 ∧
        fromUtf8 (slice buf 2 (2 + (byteAt buf 1).toNat)) = some host ∨
      byteAt buf 0 = 0x04 ∧ n = 19) := by
  unfold decodeSocksAddr at h
  split at h
  · cases h
  · split_ifs at h with hlen
    cases h
    exact ⟨by omega, by omega, .inl ⟨rfl, rfl⟩⟩
  · split_ifs at h with hlen
    dsimp only at h
    split_ifs at h with hbody
    split at h
    · cases h
    rename_i found hhost
    cases h
    exact ⟨by omega, by omega, .inr (.inl ⟨rfl, rfl, hhost⟩)⟩
  · split_ifs at h with hlen
    cases h
    exact ⟨by omega, by omega, .inr (.inr ⟨rfl, rfl⟩)⟩
  · cases h

theorem decodeSocksAddr_prefix {buf p : List UInt8} {host : Str} {port : UInt16} {n : Nat}
    (h : decodeSocksAddr buf = .ok (host, port, n)) (hp : p <+: buf) (hlen : p.length < n) :
    ∃ e, decodeSocksAddr p = .error e := by
  obtain ⟨rest, rfl⟩ := hp
  cases hresult : decodeSocksAddr p with
  | error e => exact ⟨e, rfl⟩
  | ok found =>
    -- The first two bytes are the same, and so is the length that they ask for.
    obtain ⟨host', port', n'⟩ := found
    obtain ⟨hn', htwo, hkind'⟩ := decodeSocksAddr_eq_ok hresult
    obtain ⟨hn, -, hkind⟩ := decodeSocksAddr_eq_ok h
    rw [byteAt_append_left (by omega), byteAt_append_left (by omega)] at hkind
    have hsame : n' = n := by
      rcases hkind with ⟨h0, rfl⟩ | ⟨h0, rfl, -⟩ | ⟨h0, rfl⟩ <;>
        rcases hkind' with ⟨h0', rfl⟩ | ⟨h0', rfl, -⟩ | ⟨h0', rfl⟩ <;>
        first | rfl | (rw [h0] at h0'; exact absurd h0' (by decide))
    omega

/-- The length that an address has by its first two bytes. -/
def addressSize (buf : List UInt8) : Nat :=
  if byteAt buf 0 = 0x01 then 1 + 4 + 2
  else if byteAt buf 0 = 0x03 then 2 + (byteAt buf 1).toNat + 2
  else if byteAt buf 0 = 0x04 then 1 + 16 + 2
  else 1

theorem addressSize_of_decode {buf : List UInt8} {host : Str} {port : UInt16} {n : Nat}
    (h : decodeSocksAddr buf = .ok (host, port, n)) : n = addressSize buf := by
  obtain ⟨-, -, ⟨hkind, rfl⟩ | ⟨hkind, rfl, -⟩ | ⟨hkind, rfl⟩⟩ := decodeSocksAddr_eq_ok h <;>
    simp [addressSize, hkind]

/-! The kinds of an address. -/

theorem decodeSocksAddr_ipv4 (tl : List UInt8) : decodeSocksAddr (0x01 :: tl) =
    if (0x01 :: tl).length < 1 + 4 + 2 then .error (invalidData "truncated ipv4 socks address")
    else .ok (displayIpv4 (BitVec.ofNat 32 (beAt 4 (0x01 :: tl) 1)),
      u16OfBytes (slice (0x01 :: tl) 5 7), 7) := rfl

theorem decodeSocksAddr_ipv6 (tl : List UInt8) : decodeSocksAddr (0x04 :: tl) =
    if (0x04 :: tl).length < 1 + 16 + 2 then .error (invalidData "truncated ipv6 socks address")
    else .ok (displayIpv6 (BitVec.ofNat 128 (beAt 16 (0x04 :: tl) 1)),
      u16OfBytes (slice (0x04 :: tl) 17 19), 19) := rfl

theorem decodeSocksAddr_domain (tl : List UInt8) : decodeSocksAddr (0x03 :: tl) =
    if (0x03 :: tl).length < 2 then .error (invalidData "truncated domain socks address")
    else if (0x03 :: tl).length < 2 + (byteAt (0x03 :: tl) 1).toNat + 2 then
      .error (invalidData "truncated domain socks address body")
    else
      match fromUtf8 (slice (0x03 :: tl) 2 (2 + (byteAt (0x03 :: tl) 1).toNat)) with
      | none => .error (invalidData "invalid domain socks address")
      | some host =>
        .ok (host, u16OfBytes (slice (0x03 :: tl) (2 + (byteAt (0x03 :: tl) 1).toNat)
          (4 + (byteAt (0x03 :: tl) 1).toNat)), 2 + (byteAt (0x03 :: tl) 1).toNat + 2) := rfl

theorem decodeSocksAddr_other {kind : UInt8} (hv4 : kind ≠ 0x01) (hdomain : kind ≠ 0x03) (hv6 : kind ≠ 0x04)
    (tl : List UInt8) :
    decodeSocksAddr (kind :: tl) = .error (invalidData "unsupported socks address type") := by
  unfold decodeSocksAddr
  split <;> simp_all

theorem decodeSocksAddr_append {buf : List UInt8} (rest : List UInt8) (h : addressSize buf ≤ buf.length) :
    decodeSocksAddr (buf ++ rest) = decodeSocksAddr buf := by
  cases buf with
  | nil => simp [addressSize, byteAt] at h
  | cons kind tl =>
    have hlen : ((kind :: tl) ++ rest).length = (kind :: tl).length + rest.length := List.length_append
    by_cases hv4 : kind = 0x01
    · subst hv4
      have hsize : 1 + 4 + 2 ≤ (0x01 :: tl).length := h
      rw [List.cons_append, decodeSocksAddr_ipv4, decodeSocksAddr_ipv4, ← List.cons_append,
        if_neg (by omega), if_neg (by omega), beAt_append_left (by omega), slice_append_left (by omega)]
    by_cases hv6 : kind = 0x04
    · subst hv6
      have hsize : 1 + 16 + 2 ≤ (0x04 :: tl).length := h
      rw [List.cons_append, decodeSocksAddr_ipv6, decodeSocksAddr_ipv6, ← List.cons_append,
        if_neg (by omega), if_neg (by omega), beAt_append_left (by omega), slice_append_left (by omega)]
    by_cases hdomain : kind = 0x03
    · subst hdomain
      have hsize : 2 + (byteAt (0x03 :: tl) 1).toNat + 2 ≤ (0x03 :: tl).length := h
      have hbyte : byteAt ((0x03 :: tl) ++ rest) 1 = byteAt (0x03 :: tl) 1 := byteAt_append_left (by omega)
      rw [List.cons_append, decodeSocksAddr_domain, decodeSocksAddr_domain, ← List.cons_append, hbyte,
        if_neg (by omega), if_neg (by omega), if_neg (by omega), if_neg (by omega),
        slice_append_left (by omega), slice_append_left (by omega)]
    · rw [List.cons_append, decodeSocksAddr_other hv4 hdomain hv6, decodeSocksAddr_other hv4 hdomain hv6]

theorem decodeSocksAddr_append_iff {buf rest : List UInt8} {host : Str} {port : UInt16} {n : Nat}
    (hn : n ≤ buf.length) :
    decodeSocksAddr (buf ++ rest) = .ok (host, port, n) ↔ decodeSocksAddr buf = .ok (host, port, n) := by
  constructor
  · intro h
    obtain ⟨-, htwo, -⟩ := decodeSocksAddr_eq_ok h
    -- The first two bytes are in the buffer, and say where the address ends.
    have hsize : addressSize (buf ++ rest) = addressSize buf := by
      unfold addressSize
      rw [byteAt_append_left (by omega), byteAt_append_left (by omega)]
    rw [decodeSocksAddr_append rest (by rw [← hsize, ← addressSize_of_decode h]; exact hn)] at h
    exact h
  · intro h
    rw [decodeSocksAddr_append rest (by rw [← addressSize_of_decode h]; exact hn)]
    exact h

/-! ### What is read back -/

theorem parse_host_of_parseIpAddr {host : Str} (h : parseIpAddr host = none) :
    Address.parse host = .domain host := by
  unfold parseIpAddr at h
  unfold Address.parse
  cases h4 : parseIpv4 host with
  | some ip => simp [h4] at h
  | none =>
    rw [h4] at h
    cases h6 : parseIpv6 host with
    | some ip => simp [h6] at h
    | none => rfl

theorem parse_eq_domain {host d : Str} (h : Address.parse host = .domain d) :
    d = host ∧ parseIpAddr host = none := by
  unfold Address.parse at h
  cases h4 : parseIpv4 host with
  | some ip => simp [h4] at h
  | none =>
    rw [h4] at h
    cases h6 : parseIpv6 host with
    | some ip => simp [h6] at h
    | none =>
      rw [h6] at h
      cases h
      exact ⟨rfl, by simp [parseIpAddr, h4, h6]⟩

theorem bitVec_octets {n w : Nat} (hw : 2 ^ w = 256 ^ n) (ip : BitVec w) (rest : List UInt8) (b : UInt8) :
    BitVec.ofNat w (beAt n (b :: (toBytesBE n ip.toNat ++ rest)) 1) = ip := by
  have hslice : slice (b :: (toBytesBE n ip.toNat ++ rest)) 1 (1 + n) = toBytesBE n ip.toNat :=
    slice_middle (a := [b]) rfl (by simp)
  apply BitVec.eq_of_toNat_eq
  rw [beAt, hslice, ofBytesBE_toBytesBE (hw ▸ ip.isLt), BitVec.toNat_ofNat, Nat.mod_eq_of_lt ip.isLt]

/-- An address is decoded from its encoding if the domain, where it is one, fits its length byte. -/
theorem decodeSocksAddr_encode {a : Address} (ha : ∀ d, a = .domain d → (utf8 d).length ≤ 255)
    (port : UInt16) (rest : List UInt8) :
    decodeSocksAddr (a.encode port ++ rest) = .ok (a.host, port, (a.encode port).length) := by
  have hport : (u16Bytes port).length = 2 := by simp [u16Bytes]
  cases a with
  | ipv4 ip =>
    simp only [Address.encode, IpAddr.octets, List.cons_append, List.append_assoc, decodeSocksAddr]
    rw [if_neg (by simp [hport]; omega), bitVec_octets (by decide)]
    have hslice : slice (0x01 :: (toBytesBE 4 ip.toNat ++ (u16Bytes port ++ rest))) 5 7 = u16Bytes port :=
      slice_middle (a := 0x01 :: toBytesBE 4 ip.toNat) (by simp) (by simp [hport])
    rw [hslice, u16OfBytes_u16Bytes]
    simp [Address.host, hport]
  | ipv6 ip =>
    simp only [Address.encode, IpAddr.octets, List.cons_append, List.append_assoc, decodeSocksAddr]
    rw [if_neg (by simp [hport]; omega), bitVec_octets (by decide)]
    have hslice : slice (0x04 :: (toBytesBE 16 ip.toNat ++ (u16Bytes port ++ rest))) 17 19 =
        u16Bytes port :=
      slice_middle (a := 0x04 :: toBytesBE 16 ip.toNat) (by simp) (by simp [hport])
    rw [hslice, u16OfBytes_u16Bytes]
    simp [Address.host, hport]
  | domain d =>
    have hd := ha d rfl
    have hmin : min (utf8 d).length 255 = (utf8 d).length := Nat.min_eq_left hd
    have hbyte : (UInt8.ofNat (utf8 d).length).toNat = (utf8 d).length := by
      simp
      omega
    simp only [Address.encode, hmin, List.take_length, List.cons_append, List.append_assoc,
      decodeSocksAddr]
    have hlen : byteAt (0x03 :: UInt8.ofNat (utf8 d).length :: (utf8 d ++ (u16Bytes port ++ rest))) 1 =
        UInt8.ofNat (utf8 d).length := rfl
    rw [if_neg (by simp), hlen, hbyte, if_neg (by simp [hport]; omega)]
    have hbody : slice (0x03 :: UInt8.ofNat (utf8 d).length :: (utf8 d ++ (u16Bytes port ++ rest))) 2
        (2 + (utf8 d).length) = utf8 d :=
      slice_middle (a := [0x03, UInt8.ofNat (utf8 d).length]) rfl rfl
    have hslice : slice (0x03 :: UInt8.ofNat (utf8 d).length :: (utf8 d ++ (u16Bytes port ++ rest)))
        (2 + (utf8 d).length) (4 + (utf8 d).length) = u16Bytes port :=
      slice_middle (a := 0x03 :: UInt8.ofNat (utf8 d).length :: utf8 d) (by simp; omega)
        (by rw [hport]; omega)
    rw [hbody, fromUtf8_utf8, hslice, u16OfBytes_u16Bytes]
    simp [Address.host, hport]
    omega

theorem utf8_of_fromUtf8 {bytes : List UInt8} {s : Str} (h : fromUtf8 bytes = some s) : utf8 s = bytes := by
  unfold fromUtf8 String.fromUTF8? at h
  split_ifs at h with hvalid
  · simp only [Option.map_some, Option.some.injEq] at h
    have hencode : s.utf8Encode = ⟨bytes.toArray⟩ := by
      rw [← h, ← String.toByteArray_ofList, String.ofList_toList]
      rfl
    have hdata := congrArg (fun b : ByteArray => b.data.toList) hencode
    simpa [utf8, List.utf8Encode] using hdata
  · simp at h

theorem not_roundTrips_of_long {host : Str} (hip : parseIpAddr host = none)
    (hlong : 255 < (utf8 host).length) (port : UInt16) : ¬ RoundTrips host port := by
  rintro ⟨hback, -⟩
  have hdecode := hback []
  rw [List.append_nil, encodeSocksAddr, parse_host_of_parseIpAddr hip] at hdecode
  obtain ⟨-, -, ⟨h0, -⟩ | ⟨-, hn, hhost⟩ | ⟨h0, -⟩⟩ := decodeSocksAddr_eq_ok hdecode
  · cases h0
  · -- What was read has as many bytes as a length byte can say.
    have hbytes := utf8_of_fromUtf8 hhost
    have hlen := congrArg List.length hbytes
    have hbyte := (byteAt ((Address.domain host).encode port) 1).toNat_lt
    have hshort : (slice ((Address.domain host).encode port) 2
        (2 + (byteAt ((Address.domain host).encode port) 1).toNat)).length ≤ 255 := by
      rw [slice, List.length_take]
      omega
    have hhostLen : (utf8 (Address.domain host).host).length = (utf8 host).length := rfl
    omega
  · cases h0

/-- **A destination is read back from its encoding exactly if it is an IP address or a domain of at most
255 bytes.** -/
theorem roundTrips_iff (host : Str) (port : UInt16) :
    RoundTrips host port ↔ parseIpAddr host ≠ none ∨ (utf8 host).length ≤ 255 := by
  constructor
  · intro h
    by_contra hnot
    rw [not_or, not_not, Nat.not_le] at hnot
    exact not_roundTrips_of_long hnot.1 hnot.2 port h
  · intro h
    have hfits : ∀ d, Address.parse host = .domain d → (utf8 d).length ≤ 255 := by
      intro d hd
      obtain ⟨rfl, hip⟩ := parse_eq_domain hd
      exact h.resolve_left (not_not.2 hip)
    have hback := decodeSocksAddr_encode hfits port
    refine ⟨hback, fun p hp hne => ?_⟩
    have hwhole := hback []
    rw [List.append_nil] at hwhole
    refine decodeSocksAddr_prefix hwhole hp ?_
    exact lt_of_le_of_ne hp.length_le fun hlen => hne (hp.eq_of_length hlen)

/-- A domain of 256 bytes. -/
theorem roundTrips_fails : ¬ RoundTrips (List.replicate 256 'x') 443 :=
  not_roundTrips_of_long (by decide +kernel) (by decide +kernel) 443

end WutherCore.Proto
