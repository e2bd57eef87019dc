import WutherCore.Data.Except
import WutherCore.Sudoku.CustomBits
import WutherCore.Young.Wire

/-!
# Byte layouts of the sudoku mask

A layout writes a six-bit group as a byte and tells these bytes, the hints, from padding.  There are three
kinds: printable characters, bytes of high entropy, and the custom patterns of `CustomBits`.

`Layout.Sound` is what the encodings rest on: a written group is a hint and is read back, padding is no
hint, and the marker that ends a partial group is a padding byte beside which there are others.  Every
layout that can be built is sound (`Built.sound`).
-/

namespace WutherCore.Finalmask

open WutherCore.Text WutherCore.Data WutherCore.Sudoku WutherCore.Young

/-- `LayoutKind`. -/
inductive LayoutKind
  | ascii
  | entropy
  | custom (bits : CustomBits)

/-- `Layout`. -/
structure Layout where
  hintMask : UInt8
  hintValue : UInt8
  padMarker : UInt8
  paddingPool : List UInt8
  kind : LayoutKind

namespace Layout

/-- `Layout::is_hint`. -/
def isHint (layout : Layout) (byte : UInt8) : Bool :=
  byte &&& layout.hintMask == layout.hintValue ||
    match layout.kind with
    | .ascii => byte == 0x0a
    | _ => false

/-- `Layout::encode_group`. -/
def encodeGroup (layout : Layout) (group : UInt8) : UInt8 :=
  match layout.kind with
  | .ascii =>
    let byte := 0x40 ||| (group &&& 0x3f)
    if byte = 0x7f then 0x0a else byte
  | .entropy =>
    let value := group &&& 0x3f
    ((value &&& 0x30) <<< 1) ||| (value &&& 0x0f)
  | .custom bits => bits.encodeBits (group >>> 4 &&& 3) (group &&& 15) none

/-- `Layout::decode_group`. -/
def decodeGroup (layout : Layout) (byte : UInt8) : Option UInt8 :=
  match layout.kind with
  | .ascii =>
    if byte = 0x0a then some 0x3f
    else if byte &&& 0x40 ≠ 0 then some (byte &&& 0x3f)
    else none
  | .entropy =>
    if byte &&& 0x90 = 0 then some ((byte >>> 1 &&& 0x30) ||| (byte &&& 0x0f)) else none
  | .custom bits =>
    if byte &&& bits.xMask ≠ bits.xMask then none else some (bits.decodeBits byte)

end Layout

/-- `ascii_layout`. -/
def asciiLayout : Layout where
  hintMask := 0x40
  hintValue := 0x40
  padMarker := 0x3f
  paddingPool := (List.range 0x20).map fun i => UInt8.ofNat (0x20 + i)
  kind := .ascii

/-- `entropy_layout`. -/
def entropyLayout : Layout where
  hintMask := 0x90
  hintValue := 0
  padMarker := 0x80
  paddingPool := (List.range 8).flatMap fun i => [UInt8.ofNat (0x80 + i), UInt8.ofNat (0x10 + i)]
  kind := .entropy

/-- `str::len`. -/
def byteLen (s : Str) : Nat := (s.map Char.utf8Size).sum

/-- `normalize_custom_table`. -/
def normalizeCustomTable (pattern : Str) : Except IoError Str :=
  let pattern := (toAsciiLowercase (trim pattern)).filter (· ≠ ' ')
  if byteLen pattern ≠ 8 ∨ pattern.count 'x' ≠ 2 ∨ pattern.count 'p' ≠ 2 ∨ pattern.count 'v' ≠ 4 ∨
      pattern.any (fun c => !(c == 'x' || c == 'p' || c == 'v')) then
    .error (invalidInput "customTable must contain exactly 2 x, 2 p and 4 v")
  else
    .ok pattern

/-- The end of `custom_layout`, once the places of the letters are known. -/
def layoutOfBits (bits : CustomBits) : Except IoError Layout :=
  match bits.paddingPool with
  | [] => .error (invalidInput "customTable produced empty padding pool")
  | padMarker :: rest => .ok {
      hintMask := bits.xMask
      hintValue := bits.xMask
      padMarker
      paddingPool := padMarker :: rest
      kind := .custom bits }

/-- `custom_layout`.  A normalised pattern has two `x`, two `p` and four `v`, so the arrays of their places
are filled and the last two branches are not reached (`exists_customLayout`). -/
def customLayout (pattern : Str) : Except IoError Layout := do
  let pattern ← normalizeCustomTable pattern
  if hlen : pattern.length = 8 then
    match CustomBits.ofPattern pattern hlen with
    | some bits => layoutOfBits bits
    | none => .error (invalidInput "customTable must contain exactly 2 x, 2 p and 4 v")
  else
    .error (invalidInput "customTable must contain exactly 2 x, 2 p and 4 v")

/-- The layouts that can be built. -/
inductive Built : Layout → Prop
  | ascii : Built asciiLayout
  | entropy : Built entropyLayout
  | custom {pattern : Str} {layout : Layout} : customLayout pattern = .ok layout → Built layout

/-! ### What a layout is good for -/

/-- What the encodings need of a layout. -/
structure Layout.Sound (layout : Layout) : Prop where
  isHint_encode : ∀ group, layout.isHint (layout.encodeGroup group) = true
  decode_encode : ∀ group, layout.decodeGroup (layout.encodeGroup group) = some (group &&& 0x3f)
  pool_not_hint : ∀ byte ∈ layout.paddingPool, layout.isHint byte = false
  marker_mem : layout.padMarker ∈ layout.paddingPool
  pool_other : ∃ byte ∈ layout.paddingPool, byte ≠ layout.padMarker

theorem asciiLayout_sound : asciiLayout.Sound where
  isHint_encode := by decide +kernel
  decode_encode := by decide +kernel
  pool_not_hint := by decide +kernel
  marker_mem := by decide +kernel
  pool_other := ⟨0x20, by decide +kernel, by decide⟩

theorem entropyLayout_sound : entropyLayout.Sound where
  isHint_encode := by decide +kernel
  decode_encode := by decide +kernel
  pool_not_hint := by decide +kernel
  marker_mem := by decide +kernel
  pool_other := ⟨0x10, by decide +kernel, by decide⟩

theorem group_bits (group : UInt8) :
    (group >>> 4 &&& 3 &&& 3) <<< 4 ||| (group &&& 15 &&& 15) = group &&& 0x3f := by
  revert group
  decide +kernel

theorem layoutOfBits_sound {bits : CustomBits} {layout : Layout} (h : layoutOfBits bits = .ok layout) :
    layout.Sound := by
  unfold layoutOfBits at h
  split at h
  · cases h
  · rename_i padMarker rest hpool
    cases h
    refine ⟨fun group => ?_, fun group => ?_, fun byte hbyte => ?_, List.mem_cons_self, ?_⟩
    · simp only [Layout.isHint, Layout.encodeGroup, bits.encodeBits_hint, beq_self_eq_true, Bool.true_or]
    · simp only [Layout.decodeGroup, Layout.encodeGroup, bits.encodeBits_hint, ne_eq, not_true, if_false,
        bits.decodeBits_encodeBits, group_bits]
    · have hne := bits.padding_not_hint (hpool ▸ hbyte)
      simp only [Layout.isHint, Bool.or_false]
      exact beq_eq_false_iff_ne.2 hne
    · obtain ⟨other, hother, hne⟩ := bits.exists_mem_paddingPool_ne padMarker
      exact ⟨other, hpool ▸ hother, hne⟩

theorem Built.sound {layout : Layout} (h : Built layout) : layout.Sound := by
  cases h with
  | ascii => exact asciiLayout_sound
  | entropy => exact entropyLayout_sound
  | custom h =>
    unfold customLayout at h
    obtain ⟨pattern, -, h⟩ := bind_eq_ok.1 h
    split at h
    · split at h
      · exact layoutOfBits_sound h
      · cases h
    · cases h

end WutherCore.Finalmask
