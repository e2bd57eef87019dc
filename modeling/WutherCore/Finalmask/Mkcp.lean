import WutherCore.Data.Buffer
import WutherCore.Data.Except
import WutherCore.Young.Wire

/-!
# Finalmask: the mKCP mask

`mkcp.rs`, the mode without a key: a payload goes behind its hash and its length, and every byte is
masked with the byte four places before it.  The two loops change a buffer in place, one turn for each
index; every turn undoes itself, so the loop that takes the indices backwards undoes the other.

* `foldl_reverse_foldl`: a run of turns and the run back.
* `xorBackwardPadded_forward`, `xorForwardPadded_backward`: the padding makes no difference.
* `decodeOriginal_eq_ok_iff`: what is decoded is what was encoded.
-/

namespace WutherCore.Finalmask

open WutherCore.Data
open WutherCore.Text (toBytesBE_ofBytesBE ofBytesBE_lt toBytesBE_length)
open WutherCore.Young (IoError invalidData u16Bytes u16OfBytes u32Bytes u32OfBytes u16TryFrom
  u16TryFrom_eq_ok toNat_ofNat16)

/-- `bytes[index] ^= bytes[index - 4]`. -/
def xorTurn (bytes : List UInt8) (index : Nat) : List UInt8 :=
  bytes.set index (byteAt bytes index ^^^ byteAt bytes (index - 4))

/-- The zeros that make the length a multiple of four. -/
def padding (original : Nat) : Nat := (4 - original % 4) % 4

/-- `xor_forward_padded`. -/
def xorForwardPadded (bytes : List UInt8) : List UInt8 :=
  let original := bytes.length
  let padded := bytes ++ List.replicate (padding original) 0
  ((List.range' 4 (padded.length - 4)).foldl xorTurn padded).take original

/-- `xor_backward_padded`. -/
def xorBackwardPadded (bytes : List UInt8) : List UInt8 :=
  let original := bytes.length
  let padded := bytes ++ List.replicate (padding original) 0
  ((List.range' 4 (padded.length - 4)).reverse.foldl xorTurn padded).take original

/-- `fnv1a32`. -/
def fnv1a32 (bytes : List UInt8) : UInt32 :=
  bytes.foldl (fun hash byte => (hash ^^^ byte.toUInt32) * 0x01000193) 0x811c9dc5

/-- `encode_original`. -/
def encodeOriginal (payload : List UInt8) : Except IoError (List UInt8) := do
  let length ← u16TryFrom payload.length (invalidData "mkcp-legacy original payload exceeds 65535 bytes")
  let output := List.replicate 4 0 ++ (u16Bytes length ++ payload)
  let hash := u32Bytes (fnv1a32 (output.drop 4))
  return xorForwardPadded (writeAt output 0 hash)

/-- `decode_original`. -/
def decodeOriginal (packet : List UInt8) : Except IoError (List UInt8) :=
  if packet.length < 6 then .error (invalidData "mkcp-legacy original packet is truncated")
  else
    let decoded := xorBackwardPadded packet
    let expected := u32OfBytes (decoded.take 4)
    if fnv1a32 (decoded.drop 4) ≠ expected then
      .error (invalidData "mkcp-legacy original authentication failed")
    else
      let length := (u16OfBytes (slice decoded 4 6)).toNat
      if decoded.length - 6 ≠ length then .error (invalidData "mkcp-legacy original length mismatch")
      else .ok (decoded.drop 6)

/-! ### Runs of turns -/

theorem foldl_reverse_foldl {σ ι : Type} {turn : σ → ι → σ} {l : List ι}
    (h : ∀ i ∈ l, ∀ s, turn (turn s i) i = s) (s : σ) : l.reverse.foldl turn (l.foldl turn s) = s := by
  induction l generalizing s with
  | nil => rfl
  | cons i l ih =>
    have hl : ∀ j ∈ l, ∀ s, turn (turn s j) j = s := fun j hj => h j (List.mem_cons_of_mem _ hj)
    rw [List.foldl_cons, List.reverse_cons, List.foldl_append, ih hl, List.foldl_cons, List.foldl_nil,
      h i List.mem_cons_self]

theorem foldl_foldl_reverse {σ ι : Type} {turn : σ → ι → σ} {l : List ι}
    (h : ∀ i ∈ l, ∀ s, turn (turn s i) i = s) (s : σ) : l.foldl turn (l.reverse.foldl turn s) = s := by
  have hback := foldl_reverse_foldl (l := l.reverse) (fun i hi => h i (List.mem_reverse.mp hi)) s
  rwa [List.reverse_reverse] at hback

/-! ### The mask -/

@[simp] theorem length_xorTurn (bytes : List UInt8) (index : Nat) :
    (xorTurn bytes index).length = bytes.length := List.length_set

@[simp] theorem length_foldl_xorTurn (l : List Nat) (bytes : List UInt8) :
    (l.foldl xorTurn bytes).length = bytes.length := by
  induction l generalizing bytes with
  | nil => rfl
  | cons i l ih => rw [List.foldl_cons, ih, length_xorTurn]

theorem byteAt_set_of_ne {bytes : List UInt8} {b : UInt8} {i j : Nat} (h : i ≠ j) :
    byteAt (bytes.set i b) j = byteAt bytes j := by
  unfold byteAt
  rw [List.getD_eq_getElem?_getD, List.getD_eq_getElem?_getD, List.getElem?_set_ne h]

theorem xorTurn_xorTurn {index : Nat} (h : 4 ≤ index) (bytes : List UInt8) :
    xorTurn (xorTurn bytes index) index = bytes := by
  rcases Nat.lt_or_ge index bytes.length with hlt | hge
  · have hread : byteAt (bytes.set index (byteAt bytes index ^^^ byteAt bytes (index - 4))) index =
        byteAt bytes index ^^^ byteAt bytes (index - 4) := by
      unfold byteAt
      rw [List.getD_eq_getElem?_getD, List.getElem?_set_self hlt, Option.getD_some]
    have hgot : bytes[index]? = some (byteAt bytes index) := byteAt_eq_getElem? hlt
    unfold xorTurn
    rw [hread, byteAt_set_of_ne (by omega), UInt8.xor_assoc, UInt8.xor_self, UInt8.xor_zero, List.set_set]
    apply List.ext_getElem?
    intro k
    rw [List.getElem?_set]
    split
    · next hk => rw [← hk, hgot]
    · rfl
  · unfold xorTurn
    rw [List.set_eq_of_length_le hge, List.set_eq_of_length_le hge]

theorem take_xorTurn (bytes : List UInt8) (index n : Nat) :
    (xorTurn bytes index).take n = if index < n then xorTurn (bytes.take n) index else bytes.take n := by
  have hread {k : Nat} (hk : k < n) : byteAt (bytes.take n) k = byteAt bytes k := by
    unfold byteAt
    rw [List.getD_eq_getElem?_getD, List.getD_eq_getElem?_getD, List.getElem?_take_of_lt hk]
  split
  · next h =>
    unfold xorTurn
    rw [List.take_set, hread h, hread (by omega)]
  · next h =>
    unfold xorTurn
    rw [List.take_set, List.set_eq_of_length_le (by rw [List.length_take]; omega)]

theorem take_foldl_xorTurn (l : List Nat) (bytes : List UInt8) (n : Nat) :
    (l.foldl xorTurn bytes).take n = (l.filter (· < n)).foldl xorTurn (bytes.take n) := by
  induction l generalizing bytes with
  | nil => rfl
  | cons i l ih =>
    rw [List.foldl_cons, ih, take_xorTurn]
    by_cases h : i < n
    · rw [if_pos h, List.filter_cons_of_pos (by simpa using h), List.foldl_cons]
    · rw [if_neg h, List.filter_cons_of_neg (by simpa using h)]

/-- The places of a buffer that are masked. -/
def maskedPlaces (n : Nat) : List Nat := (List.range' 4 (n + padding n - 4)).filter (· < n)

theorem four_le_of_maskedPlaces {n i : Nat} (h : i ∈ maskedPlaces n) : 4 ≤ i :=
  (List.mem_range'_1.mp (List.mem_filter.mp h).1).1

theorem xorForwardPadded_eq (bytes : List UInt8) :
    xorForwardPadded bytes = (maskedPlaces bytes.length).foldl xorTurn bytes := by
  unfold xorForwardPadded maskedPlaces
  dsimp only
  rw [take_foldl_xorTurn, List.take_left, List.length_append, List.length_replicate]

theorem xorBackwardPadded_eq (bytes : List UInt8) :
    xorBackwardPadded bytes = (maskedPlaces bytes.length).reverse.foldl xorTurn bytes := by
  unfold xorBackwardPadded maskedPlaces
  dsimp only
  rw [take_foldl_xorTurn, List.take_left, List.length_append, List.length_replicate, List.filter_reverse]

@[simp] theorem length_xorForwardPadded (bytes : List UInt8) :
    (xorForwardPadded bytes).length = bytes.length := by
  rw [xorForwardPadded_eq, length_foldl_xorTurn]

@[simp] theorem length_xorBackwardPadded (bytes : List UInt8) :
    (xorBackwardPadded bytes).length = bytes.length := by
  rw [xorBackwardPadded_eq, length_foldl_xorTurn]

@[simp] theorem xorBackwardPadded_forward (bytes : List UInt8) :
    xorBackwardPadded (xorForwardPadded bytes) = bytes := by
  rw [xorBackwardPadded_eq, length_xorForwardPadded, xorForwardPadded_eq]
  exact foldl_reverse_foldl (fun i hi s => xorTurn_xorTurn (four_le_of_maskedPlaces hi) s) bytes

@[simp] theorem xorForwardPadded_backward (bytes : List UInt8) :
    xorForwardPadded (xorBackwardPadded bytes) = bytes := by
  rw [xorForwardPadded_eq, length_xorBackwardPadded, xorBackwardPadded_eq]
  exact foldl_foldl_reverse (fun i hi s => xorTurn_xorTurn (four_le_of_maskedPlaces hi) s) bytes

/-! ### Packets -/

/-- The packet of a payload, before it is masked. -/
def openPacket (payload : List UInt8) : List UInt8 :=
  let body := u16Bytes (UInt16.ofNat payload.length) ++ payload
  u32Bytes (fnv1a32 body) ++ body

theorem encodeOriginal_eq {payload : List UInt8} (h : payload.length < 2 ^ 16) :
    encodeOriginal payload = .ok (xorForwardPadded (openPacket payload)) := by
  unfold encodeOriginal
  rw [u16TryFrom_eq_ok h]
  rfl

theorem encodeOriginal_error {payload : List UInt8} (h : ¬payload.length < 2 ^ 16) :
    encodeOriginal payload = .error (invalidData "mkcp-legacy original payload exceeds 65535 bytes") := by
  unfold encodeOriginal u16TryFrom
  rw [if_neg h]
  rfl

/-- A buffer whose hash and length are right is the packet of what follows them. -/
theorem eq_openPacket {decoded : List UInt8} (hlen : 6 ≤ decoded.length)
    (hhash : fnv1a32 (decoded.drop 4) = u32OfBytes (decoded.take 4))
    (hlength : decoded.length - 6 = (u16OfBytes (slice decoded 4 6)).toNat) :
    decoded = openPacket (decoded.drop 6) ∧ (decoded.drop 6).length < 2 ^ 16 := by
  have hfour : (decoded.take 4).length = 4 := by
    rw [List.length_take]
    omega
  have htwo : (slice decoded 4 6).length = 2 := slice_length hlen
  have hbody : decoded.drop 4 = slice decoded 4 6 ++ decoded.drop 6 := by
    rw [slice, ← List.drop_drop (i := 2) (j := 4)]
    exact (List.take_append_drop 2 _).symm
  have hsize : (decoded.drop 6).length = (u16OfBytes (slice decoded 4 6)).toNat := by
    rw [List.length_drop, hlength]
  have hlengthBytes : u16Bytes (UInt16.ofNat (decoded.drop 6).length) = slice decoded 4 6 := by
    have hback := toBytesBE_ofBytesBE (slice decoded 4 6)
    have hlt := ofBytesBE_lt (slice decoded 4 6)
    rw [htwo] at hback hlt
    rw [hsize, UInt16.ofNat_toNat, u16Bytes, u16OfBytes, toNat_ofNat16 hlt, hback]
  have hhashBytes : u32Bytes (fnv1a32 (decoded.drop 4)) = decoded.take 4 := by
    have hback := toBytesBE_ofBytesBE (decoded.take 4)
    have hlt := ofBytesBE_lt (decoded.take 4)
    rw [hfour] at hback hlt
    rw [hhash, u32Bytes, u32OfBytes, UInt32.toNat_ofNat_of_lt' hlt, hback]
  constructor
  · unfold openPacket
    dsimp only
    rw [hlengthBytes, ← hbody, hhashBytes, List.take_append_drop]
  · rw [hsize]
    exact UInt16.toNat_lt _

@[simp] theorem length_openPacket (payload : List UInt8) :
    (openPacket payload).length = payload.length + 6 := by
  simp only [openPacket, u32Bytes, u16Bytes, List.length_append, toBytesBE_length]
  omega

theorem openPacket_fields {payload : List UInt8} (h : payload.length < 2 ^ 16) :
    fnv1a32 ((openPacket payload).drop 4) = u32OfBytes ((openPacket payload).take 4) ∧
      (u16OfBytes (slice (openPacket payload) 4 6)).toNat = payload.length ∧
      (openPacket payload).drop 6 = payload := by
  let lengthBytes := u16Bytes (UInt16.ofNat payload.length)
  have hfour : (u32Bytes (fnv1a32 (lengthBytes ++ payload))).length = 4 := toBytesBE_length _ _
  have hsix : (u32Bytes (fnv1a32 (lengthBytes ++ payload)) ++ lengthBytes).length = 6 := by
    rw [List.length_append, hfour]
    exact congrArg (4 + ·) (toBytesBE_length _ _)
  have hopen : openPacket payload = u32Bytes (fnv1a32 (lengthBytes ++ payload)) ++ (lengthBytes ++ payload) := rfl
  refine ⟨?_, ?_, ?_⟩
  · rw [hopen, List.drop_left' hfour, List.take_left' hfour, Young.u32OfBytes_u32Bytes]
  · have htwo : 4 + lengthBytes.length = 6 := congrArg (4 + ·) (toBytesBE_length _ _)
    rw [hopen, slice_middle hfour htwo, Young.u16OfBytes_u16Bytes, toNat_ofNat16 h]
  · rw [hopen, ← List.append_assoc, List.drop_left' hsix]

/-- What is decoded is what was encoded. -/
theorem decodeOriginal_eq_ok_iff {packet payload : List UInt8} :
    decodeOriginal packet = .ok payload ↔ encodeOriginal payload = .ok packet := by
  constructor
  · intro h
    unfold decodeOriginal at h
    split at h
    · cases h
    next hlen =>
    dsimp only at h
    split at h
    · cases h
    next hhash =>
    split at h
    · cases h
    next hlength =>
    cases h
    obtain ⟨heq, hlt⟩ := eq_openPacket (by rw [length_xorBackwardPadded]; omega) (not_not.mp hhash)
      (not_not.mp hlength)
    rw [encodeOriginal_eq hlt, ← heq, xorForwardPadded_backward]
  · intro h
    by_cases hlt : payload.length < 2 ^ 16
    · rw [encodeOriginal_eq hlt] at h
      cases h
      obtain ⟨hhash, hlength, hrest⟩ := openPacket_fields hlt
      unfold decodeOriginal
      rw [if_neg (by rw [length_xorForwardPadded, length_openPacket]; omega)]
      dsimp only
      rw [xorBackwardPadded_forward, if_neg (not_not.mpr hhash), length_openPacket, hlength,
        if_neg (by omega), hrest]
    · rw [encodeOriginal_error hlt] at h
      cases h

/-- The mask is a bijection between the payloads of at most 65535 bytes and the packets that are
accepted, so two packets never stand for one payload. -/
theorem mkcp_original_bijection :
    (∀ payload : List UInt8, payload.length ≤ 65535 →
      ∃ packet, encodeOriginal payload = .ok packet ∧ decodeOriginal packet = .ok payload) ∧
    (∀ packet payload : List UInt8, decodeOriginal packet = .ok payload →
      encodeOriginal payload = .ok packet) ∧
    ∀ packet changed payload : List UInt8, decodeOriginal packet = .ok payload → changed ≠ packet →
      decodeOriginal changed ≠ .ok payload := by
  refine ⟨fun payload h => ?_, fun packet payload h => decodeOriginal_eq_ok_iff.mp h, ?_⟩
  · have hencoded := encodeOriginal_eq (show payload.length < 2 ^ 16 by omega)
    exact ⟨_, hencoded, decodeOriginal_eq_ok_iff.mpr hencoded⟩
  · intro packet changed payload h hne hchanged
    have hsame := (decodeOriginal_eq_ok_iff.mp hchanged).symm.trans (decodeOriginal_eq_ok_iff.mp h)
    exact hne (Except.ok.inj hsame)

theorem mkcp_original_bijection_five : ∃ packet,
    encodeOriginal [104, 101, 108, 108, 111] = .ok packet ∧
      decodeOriginal packet = .ok [104, 101, 108, 108, 111] ∧
      decodeOriginal (packet.set 5 0) ≠ .ok [104, 101, 108, 108, 111] := by
  obtain ⟨hround, hback, hchanged⟩ := mkcp_original_bijection
  obtain ⟨packet, hencoded, hdecoded⟩ := hround [104, 101, 108, 108, 111] (by decide)
  refine ⟨packet, hencoded, hdecoded, hchanged packet _ _ hdecoded ?_⟩
  have hpacket : encodeOriginal [104, 101, 108, 108, 111] = .ok packet := hencoded
  rw [encodeOriginal_eq (by decide)] at hpacket
  cases hpacket
  decide +kernel

end WutherCore.Finalmask
