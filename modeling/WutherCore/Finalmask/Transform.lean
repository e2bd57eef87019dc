import WutherCore.Data.AssocMap
import WutherCore.Data.Buffer
import WutherCore.Data.Except
import WutherCore.Ruleset.DomainSet
import WutherCore.Young.Wire

/-!
# Finalmask: expressions of custom headers

`header_custom.rs`: an expression is an operation over arguments, which are bytes, numbers, captured
variables, metadata of the connection or expressions again.  `evaluate` gives its value, `measure` the
length of that value before there is one.

The sizes that `measure` uses have to be written as numbers.  `sized` says so of the parts that it
looks at, and `CustomTransform.measure_of_evaluate` that this is the only difference of the two.

What the crates `serde_json`, `hex` and `base64` read in a JSON value is a parameter, `Codecs`.
-/

namespace WutherCore.Finalmask

open WutherCore.Data
open WutherCore.Text
open WutherCore.Ruleset (utf8)
open WutherCore.Young (IoError invalidInput)

/-- What is read in a JSON value. -/
structure Codecs (J : Type) where
  /-- `serde_json::from_value::<Vec<u8>>`. -/
  array : J → Except String (List UInt8)
  /-- `Value::as_str`. -/
  asStr : J → Option Str
  /-- `hex::decode`. -/
  hex : Str → Except String (List UInt8)
  /-- `STANDARD.decode`. -/
  base64 : Str → Except String (List UInt8)

/-- `EvalValue`. -/
inductive EvalValue
  | bytes (value : List UInt8)
  | u64 (value : UInt64)
  deriving DecidableEq

/-- `EvalContext`. -/
structure EvalContext where
  vars : AssocMap Str (List UInt8)
  metadata : AssocMap Str EvalValue

mutual

/-- `CustomTransform`. -/
inductive CustomTransform (J : Type) where
  | mk (op : Str) (args : List (CustomTransformArg J))

/-- `CustomTransformArg`. -/
inductive CustomTransformArg (J : Type) where
  | mk (bytesType : Str) (bytes : Option J) (u64 : Option UInt64) (reuse metadata : Str)
      (transform : Option (CustomTransform J))

end

/-- The operations that the source names. -/
inductive TransformOp
  | concat | slice | xor16 | xor32 | be16 | be32 | le16 | le32 | le64 | pad | truncate
  | add | sub | and | or | shl | shr | unsupported
  deriving DecidableEq

/-- `op.as_str()`, in the arms of the two matches. -/
def transformOp (op : Str) : TransformOp :=
  if op = ("concat" : Str) then .concat
  else if op = ("slice" : Str) then .slice
  else if op = ("xor16" : Str) then .xor16
  else if op = ("xor32" : Str) then .xor32
  else if op = ("be16" : Str) then .be16
  else if op = ("be32" : Str) then .be32
  else if op = ("le16" : Str) then .le16
  else if op = ("le32" : Str) then .le32
  else if op = ("le64" : Str) then .le64
  else if op = ("pad" : Str) then .pad
  else if op = ("truncate" : Str) then .truncate
  else if op = ("add" : Str) then .add
  else if op = ("sub" : Str) then .sub
  else if op = ("and" : Str) then .and
  else if op = ("or" : Str) then .or
  else if op = ("shl" : Str) then .shl
  else if op = ("shr" : Str) then .shr
  else .unsupported

/-- An error that quotes a name. -/
def invalidNamed (before name after : Str) : IoError := invalidInput (String.ofList (before ++ name ++ after))

/-- `as_bytes`. -/
def asBytes : EvalValue → Except IoError (List UInt8)
  | .bytes value => .ok value
  | .u64 _ => .error (invalidInput "expr value is not bytes")

/-- `as_u64`. -/
def asU64 : EvalValue → Except IoError UInt64
  | .u64 value => .ok value
  | .bytes _ => .error (invalidInput "expr value is not u64")

/-- The error of `expect_args`. -/
def expectedArgs (count : Nat) (name : Str) : IoError :=
  invalidNamed name (" expects " : Str) (decimal count ++ (" args" : Str))

/-- The error for a name that is not among the variables. -/
def unknownVariable (name : Str) : IoError := invalidNamed ("unknown variable `" : Str) name ("`" : Str)

/-- The error of `literal_u64`. -/
def sizeNotLiteral : IoError := invalidInput "expression size requires a literal u64"

/-- The error of `measure_arg` for an argument without bytes. -/
def noByteWidth : IoError := invalidInput "u64/metadata arg has no byte width"

/-- `literal_u64`. -/
def CustomTransformArg.literalU64 {J : Type} : CustomTransformArg J → Except IoError UInt64
  | .mk _ _ (some value) _ _ _ => .ok value
  | .mk _ _ none _ _ _ => .error sizeNotLiteral

/-! ### Operations on values -/

/-- The slice of `"slice"`. -/
def sliceValue (source : List UInt8) (offset length : UInt64) : Except IoError EvalValue :=
  if offset.toNat + length.toNat < 2 ^ 64 then
    match checkedSlice source offset.toNat (offset.toNat + length.toNat) with
    | some bytes => .ok (.bytes bytes)
    | none => .error (invalidInput "slice out of bounds")
  else .error (invalidInput "slice overflow")

/-- The loop of `"pad"`. -/
def padLoop (target : Nat) (fill : List UInt8) : Nat → List UInt8 → List UInt8
  | 0, source => source
  | fuel + 1, source =>
      if source.length < target then
        padLoop target fill fuel (source ++ fill.take (min (target - source.length) fill.length))
      else source

/-- The bytes of `"pad"`. -/
def padValue (source : List UInt8) (target : UInt64) (fill : List UInt8) : Except IoError EvalValue :=
  if fill = [] ∨ target.toNat < source.length then
    .error (invalidInput "pad fill must be non-empty and target >= source")
  else .ok (.bytes (padLoop target.toNat fill (target.toNat - source.length) source))

/-- The bytes of `"truncate"`. -/
def truncateValue (source : List UInt8) (length : UInt64) : Except IoError EvalValue :=
  match checkedSlice source 0 length.toNat with
  | some bytes => .ok (.bytes bytes)
  | none => .error (invalidInput "truncate out of bounds")

/-- `evaluate_xor`, of the values of its arguments. -/
def xorValue (mask : UInt64) (name : Str) (values : UInt64 × UInt64) : Except IoError EvalValue :=
  if mask < values.1 ∨ mask < values.2 then .error (invalidNamed [] name (" overflow" : Str))
  else .ok (.u64 ((values.1 ^^^ values.2) &&& mask))

/-- `pack`, of the value of its argument. -/
def packValue (width : Nat) (bigEndian : Bool) (name : Str) (value : UInt64) : Except IoError EvalValue :=
  if width < 8 ∧ 2 ^ (width * 8) ≤ value.toNat then .error (invalidNamed [] name (" overflow" : Str))
  else if bigEndian then .ok (.bytes ((toBytesBE 8 value.toNat).drop (8 - width)))
  else .ok (.bytes ((toBytesLE 8 value.toNat).take width))

/-- `binary_u64`, of the values of its arguments. -/
def binaryValue (name : Str) (op : UInt64 → UInt64 → Option UInt64) (values : UInt64 × UInt64) :
    Except IoError EvalValue :=
  match op values.1 values.2 with
  | some value => .ok (.u64 value)
  | none => .error (invalidNamed [] name (" overflow/underflow" : Str))

/-- `u64::checked_add`. -/
def checkedAdd (a b : UInt64) : Option UInt64 := if a.toNat + b.toNat < 2 ^ 64 then some (a + b) else none

/-- `u64::checked_sub`. -/
def checkedSub (a b : UInt64) : Option UInt64 := if b ≤ a then some (a - b) else none

/-- `shift`, of the values of its arguments. -/
def shiftValue (left : Bool) (values : UInt64 × UInt64) : Except IoError EvalValue :=
  if 64 ≤ values.2 then .error (invalidInput "shift out of range")
  else if left then
    if (values.1 <<< values.2) >>> values.2 = values.1 then .ok (.u64 (values.1 <<< values.2))
    else .error (invalidInput "shl overflow")
  else .ok (.u64 (values.1 >>> values.2))

section Codecs

variable {J : Type} (codecs : Codecs J)

/-- `packet_bytes`. -/
def packetBytes (value : Option J) (kind : Str) : Except IoError (List UInt8) :=
  match value with
  | none => .ok []
  | some value =>
    let kind := toAsciiLowercase kind
    if kind = [] ∨ kind = ("array" : Str) then (codecs.array value).mapError invalidInput
    else if kind = ("str" : Str) then
      match codecs.asStr value with
      | some text => .ok (utf8 text)
      | none => .error (invalidInput "header-custom str bytes must be a JSON string")
    else if kind = ("hex" : Str) then
      match codecs.asStr value with
      | some text => (codecs.hex text).mapError invalidInput
      | none => .error (invalidInput "header-custom hex bytes must be a JSON string")
    else if kind = ("base64" : Str) then
      match codecs.asStr value with
      | some text => (codecs.base64 text).mapError invalidInput
      | none => .error (invalidInput "header-custom base64 bytes must be a JSON string")
    else .error (invalidNamed ("unknown header-custom byte type `" : Str) kind ("`" : Str))

/-! ### Validation -/

/-- `VARIABLE_NAME`. -/
def isVariableName : Str → Bool
  | [] => false
  | c :: rest => (c.isAlpha || c == '_') && rest.all fun c => c.isAlphanum || c == '_'

/-- `validate_name`. -/
def validateName (name : Str) : Except IoError Unit :=
  if name ≠ [] ∧ isVariableName name = false then
    .error (invalidNamed ("invalid header-custom variable name `" : Str) name ("`" : Str))
  else .ok ()

mutual

/-- `validate_transform`. -/
def CustomTransform.validate : CustomTransform J → Except IoError Unit
  | .mk op args =>
    if op = [] ∨ args = [] then .error (invalidInput "header-custom transform requires op and args")
    else CustomTransformArg.validateAll args

/-- The loop of `validate_transform`. -/
def CustomTransformArg.validateAll : List (CustomTransformArg J) → Except IoError Unit
  | [] => .ok ()
  | arg :: args => do
    arg.validate
    CustomTransformArg.validateAll args

/-- The body of the loop of `validate_transform`. -/
def CustomTransformArg.validate : CustomTransformArg J → Except IoError Unit
  | .mk bytesType bytes u64 reuse metadata transform =>
    let kinds := bytes.isSome.toNat + u64.isSome.toNat + (reuse ≠ [] : Bool).toNat +
      (metadata ≠ [] : Bool).toNat + transform.isSome.toNat
    if kinds ≠ 1 then .error (invalidInput "header-custom transform arg must set exactly one value")
    else do
      validateName reuse
      match transform with
      | some nested => nested.validate
      | none => .ok ()
      let _ ← packetBytes codecs bytes bytesType
      return ()

end

/-! ### Evaluation -/

mutual

/-- `evaluate_transform`. -/
def CustomTransform.evaluate (context : EvalContext) : CustomTransform J → Except IoError EvalValue
  | .mk op args =>
    match transformOp op with
    | .concat => do
      let output ← CustomTransformArg.evaluateAll context [] args
      return .bytes output
    | .slice =>
      match args with
      | [source, offset, length] => do
        let source ← asBytes (← source.evaluate context)
        let offset ← asU64 (← offset.evaluate context)
        let length ← asU64 (← length.evaluate context)
        sliceValue source offset length
      | _ => .error (expectedArgs 3 ("slice" : Str))
    | .xor16 => do xorValue 0xffff ("xor16" : Str) (← CustomTransformArg.two context ("xor16" : Str) args)
    | .xor32 => do xorValue 0xffffffff ("xor32" : Str) (← CustomTransformArg.two context ("xor32" : Str) args)
    | .be16 => do packValue 2 true ("be16" : Str) (← CustomTransformArg.one context ("be16" : Str) args)
    | .be32 => do packValue 4 true ("be32" : Str) (← CustomTransformArg.one context ("be32" : Str) args)
    | .le16 => do packValue 2 false ("le16" : Str) (← CustomTransformArg.one context ("le16" : Str) args)
    | .le32 => do packValue 4 false ("le32" : Str) (← CustomTransformArg.one context ("le32" : Str) args)
    | .le64 => do packValue 8 false ("le64" : Str) (← CustomTransformArg.one context ("le64" : Str) args)
    | .pad =>
      match args with
      | [source, target, fill] => do
        let source ← asBytes (← source.evaluate context)
        let target ← asU64 (← target.evaluate context)
        let fill ← asBytes (← fill.evaluate context)
        padValue source target fill
      | _ => .error (expectedArgs 3 ("pad" : Str))
    | .truncate =>
      match args with
      | [source, length] => do
        let source ← asBytes (← source.evaluate context)
        let length ← asU64 (← length.evaluate context)
        truncateValue source length
      | _ => .error (expectedArgs 2 ("truncate" : Str))
    | .add => do binaryValue ("add" : Str) checkedAdd (← CustomTransformArg.two context ("add" : Str) args)
    | .sub => do binaryValue ("sub" : Str) checkedSub (← CustomTransformArg.two context ("sub" : Str) args)
    | .and => do
      binaryValue ("and" : Str) (fun a b => some (a &&& b)) (← CustomTransformArg.two context ("and" : Str) args)
    | .or => do
      binaryValue ("or" : Str) (fun a b => some (a ||| b)) (← CustomTransformArg.two context ("or" : Str) args)
    | .shl => do shiftValue true (← CustomTransformArg.two context ("shl" : Str) args)
    | .shr => do shiftValue false (← CustomTransformArg.two context ("shr" : Str) args)
    | .unsupported => .error (invalidNamed ("unsupported expr op `" : Str) op ("`" : Str))

/-- `evaluate_arg`. -/
def CustomTransformArg.evaluate (context : EvalContext) : CustomTransformArg J → Except IoError EvalValue
  | .mk bytesType bytes u64 reuse metadata transform =>
    if bytes.isSome then (packetBytes codecs bytes bytesType).map .bytes
    else
      match u64 with
      | some value => .ok (.u64 value)
      | none =>
        if reuse ≠ [] then
          match context.vars.get? reuse with
          | some value => .ok (.bytes value)
          | none => .error (unknownVariable reuse)
        else if metadata ≠ [] then
          match context.metadata.get? metadata with
          | some value => .ok value
          | none => .error (invalidNamed ("unknown metadata `" : Str) metadata ("`" : Str))
        else
          match transform with
          | some nested => nested.evaluate context
          | none => .error (invalidInput "empty transform arg")

/-- The loop of `"concat"`. -/
def CustomTransformArg.evaluateAll (context : EvalContext) (output : List UInt8) :
    List (CustomTransformArg J) → Except IoError (List UInt8)
  | [] => .ok output
  | arg :: args => do
    let part ← asBytes (← arg.evaluate context)
    CustomTransformArg.evaluateAll context (output ++ part) args

/-- The number of the only argument. -/
def CustomTransformArg.one (context : EvalContext) (name : Str) :
    List (CustomTransformArg J) → Except IoError UInt64
  | [value] => do asU64 (← value.evaluate context)
  | _ => .error (expectedArgs 1 name)

/-- The numbers of the two arguments. -/
def CustomTransformArg.two (context : EvalContext) (name : Str) :
    List (CustomTransformArg J) → Except IoError (UInt64 × UInt64)
  | [left, right] => do
    let left ← asU64 (← left.evaluate context)
    let right ← asU64 (← right.evaluate context)
    return (left, right)
  | _ => .error (expectedArgs 2 name)

end

/-! ### Measurement -/

mutual

/-- `measure_transform`; the sum is the sum of the naturals. -/
def CustomTransform.measure (vars : AssocMap Str (List UInt8)) : CustomTransform J → Except IoError Nat
  | .mk op args =>
    match transformOp op, args with
    | .concat, args => CustomTransformArg.measureAll vars 0 args
    | .slice, [_, _, length] => length.literalU64.map UInt64.toNat
    | .be16, _ => .ok 2
    | .le16, _ => .ok 2
    | .be32, _ => .ok 4
    | .le32, _ => .ok 4
    | .le64, _ => .ok 8
    | .pad, [_, target, _] => target.literalU64.map UInt64.toNat
    | .truncate, [_, length] => length.literalU64.map UInt64.toNat
    | _, _ => .error (invalidNamed ("expr size is not bytes for op `" : Str) op ("`" : Str))

/-- `measure_arg`. -/
def CustomTransformArg.measure (vars : AssocMap Str (List UInt8)) :
    CustomTransformArg J → Except IoError Nat
  | .mk bytesType bytes _ reuse _ transform =>
    if bytes.isSome then (packetBytes codecs bytes bytesType).map List.length
    else if reuse ≠ [] then
      match vars.get? reuse with
      | some value => .ok value.length
      | none => .error (unknownVariable reuse)
    else
      match transform with
      | some nested => nested.measure vars
      | none => .error noByteWidth

/-- The `try_fold` of `"concat"`. -/
def CustomTransformArg.measureAll (vars : AssocMap Str (List UInt8)) (total : Nat) :
    List (CustomTransformArg J) → Except IoError Nat
  | [] => .ok total
  | arg :: args => do
    let length ← arg.measure vars
    CustomTransformArg.measureAll vars (total + length) args

end

/-! ### The sizes that are measured -/

/-- The argument is written as a number. -/
def CustomTransformArg.isLiteral : CustomTransformArg J → Bool
  | .mk _ _ u64 _ _ _ => u64.isSome

mutual

/-- Wherever `measure_transform` looks for a size, it is written as a number, and it meets no metadata. -/
def CustomTransform.sized : CustomTransform J → Bool
  | .mk op args =>
    match transformOp op, args with
    | .concat, args => CustomTransformArg.allSized args
    | .slice, [_, _, length] => length.isLiteral
    | .pad, [_, target, _] => target.isLiteral
    | .truncate, [_, length] => length.isLiteral
    | _, _ => true

/-- `sized`, of an argument of `"concat"`. -/
def CustomTransformArg.sized : CustomTransformArg J → Bool
  | .mk _ bytes _ reuse _ transform =>
    if bytes.isSome ∨ reuse ≠ [] then true
    else
      match transform with
      | some nested => nested.sized
      | none => false

/-- `sized`, of the arguments of `"concat"`. -/
def CustomTransformArg.allSized : List (CustomTransformArg J) → Bool
  | [] => true
  | arg :: args => arg.sized && CustomTransformArg.allSized args

end

/-- What is measured of a value of `n` bytes. -/
def Measures (sized : Bool) (measured : Except IoError Nat) (n : Nat) : Prop :=
  if sized then measured = .ok n else measured = .error sizeNotLiteral ∨ measured = .error noByteWidth

/-! ### Lengths of values -/

theorem length_of_checkedSlice {source bytes : List UInt8} {i n : Nat}
    (h : checkedSlice source i (i + n) = some bytes) : bytes.length = n := by
  unfold checkedSlice at h
  split at h
  · next hin =>
    cases h
    rw [slice_length hin.2, Nat.add_sub_cancel_left]
  · cases h

theorem length_sliceValue {source bytes : List UInt8} {offset length : UInt64}
    (h : sliceValue source offset length = .ok (.bytes bytes)) : bytes.length = length.toNat := by
  unfold sliceValue at h
  split at h
  · split at h
    · next hslice =>
      cases h
      exact length_of_checkedSlice hslice
    · cases h
  · cases h

theorem length_truncateValue {source bytes : List UInt8} {length : UInt64}
    (h : truncateValue source length = .ok (.bytes bytes)) : bytes.length = length.toNat := by
  unfold truncateValue at h
  split at h
  · next hslice =>
    cases h
    exact length_of_checkedSlice (i := 0) (by rwa [Nat.zero_add])
  · cases h

theorem length_padLoop {target : Nat} {fill : List UInt8} (hfill : fill ≠ []) (fuel : Nat)
    (source : List UInt8) (hle : source.length ≤ target) (hfuel : target - source.length ≤ fuel) :
    (padLoop target fill fuel source).length = target := by
  induction fuel generalizing source with
  | zero =>
    unfold padLoop
    omega
  | succ fuel ih =>
    unfold padLoop
    split
    · have hpos : 0 < fill.length := List.length_pos_iff.mpr hfill
      have hlen : (source ++ fill.take (min (target - source.length) fill.length)).length =
          source.length + min (target - source.length) fill.length := by
        rw [List.length_append, List.length_take, Nat.min_eq_left (Nat.min_le_right _ _)]
      exact ih _ (by omega) (by omega)
    · omega

theorem length_padValue {source fill bytes : List UInt8} {target : UInt64}
    (h : padValue source target fill = .ok (.bytes bytes)) : bytes.length = target.toNat := by
  unfold padValue at h
  split at h
  · cases h
  · next hgood =>
    obtain ⟨hfill, hle⟩ := not_or.mp hgood
    cases h
    exact length_padLoop hfill _ _ (Nat.le_of_not_lt hle) (Nat.le_refl _)

theorem length_packValue {width : Nat} {bigEndian : Bool} {name : Str} {value : UInt64}
    {bytes : List UInt8} (hw : width ≤ 8)
    (h : packValue width bigEndian name value = .ok (.bytes bytes)) : bytes.length = width := by
  unfold packValue at h
  split at h
  · cases h
  · split at h
    · cases h
      rw [List.length_drop, toBytesBE_length]
      omega
    · cases h
      rw [List.length_take, toBytesLE_length]
      omega

theorem xorValue_ne_bytes {mask : UInt64} {name : Str} {values : UInt64 × UInt64} {bytes : List UInt8} :
    xorValue mask name values ≠ .ok (.bytes bytes) := by
  unfold xorValue
  split <;> nofun

theorem binaryValue_ne_bytes {name : Str} {op : UInt64 → UInt64 → Option UInt64}
    {values : UInt64 × UInt64} {bytes : List UInt8} : binaryValue name op values ≠ .ok (.bytes bytes) := by
  unfold binaryValue
  split <;> nofun

theorem shiftValue_ne_bytes {left : Bool} {values : UInt64 × UInt64} {bytes : List UInt8} :
    shiftValue left values ≠ .ok (.bytes bytes) := by
  unfold shiftValue
  split
  · nofun
  · split
    · split <;> nofun
    · nofun

theorem asU64_of_literal {context : EvalContext} {bytesType reuse metadata : Str} {bytes : Option J}
    {v : UInt64} {transform : Option (CustomTransform J)} {value : EvalValue} {w : UInt64}
    (h : (CustomTransformArg.mk bytesType bytes (some v) reuse metadata transform).evaluate codecs context =
      .ok value) (hw : asU64 value = .ok w) : w = v := by
  unfold CustomTransformArg.evaluate at h
  split at h
  · obtain ⟨packet, -, rfl⟩ := map_eq_ok.mp h
    cases hw
  · cases h
    cases hw
    rfl

theorem measures_literal {context : EvalContext} {arg : CustomTransformArg J} {value : EvalValue}
    {w : UInt64} {n : Nat} (h : arg.evaluate codecs context = .ok value) (hw : asU64 value = .ok w)
    (hn : n = w.toNat) :
    Measures arg.isLiteral (arg.literalU64.map UInt64.toNat) n := by
  obtain ⟨bytesType, bytes, u64, reuse, metadata, transform⟩ := arg
  cases u64 with
  | some v =>
    have hwv := asU64_of_literal codecs h hw
    rw [hn, hwv]
    rfl
  | none => exact .inl rfl

/-! ### The agreement -/

mutual

/-- Of an expression that has a value of bytes, `measure_transform` gives the length or refuses. -/
theorem CustomTransform.measure_of_evaluate (context : EvalContext) : (t : CustomTransform J) →
    t.validate codecs = .ok () → ∀ bytes, t.evaluate codecs context = .ok (.bytes bytes) →
      Measures t.sized (t.measure codecs context.vars) bytes.length
  | .mk op args, hv, bytes, h => by
    unfold CustomTransform.validate at hv
    split at hv
    · cases hv
    unfold CustomTransform.evaluate at h
    unfold CustomTransform.measure CustomTransform.sized
    cases hop : transformOp op <;> simp only [hop] at h ⊢
    case concat =>
      obtain ⟨output, hall, hb⟩ := bind_eq_ok.mp h
      cases hb
      obtain ⟨n, hlen, hn⟩ := CustomTransformArg.measureAll_of_evaluateAll context args hv hall 0
      rw [hlen, List.length_nil]
      exact hn
    case slice =>
      split at h
      · obtain ⟨_, _, h⟩ := bind_eq_ok.mp h
        obtain ⟨_, _, h⟩ := bind_eq_ok.mp h
        obtain ⟨_, _, h⟩ := bind_eq_ok.mp h
        obtain ⟨_, _, h⟩ := bind_eq_ok.mp h
        obtain ⟨value, hvalue, h⟩ := bind_eq_ok.mp h
        obtain ⟨w, hw, h⟩ := bind_eq_ok.mp h
        exact measures_literal codecs hvalue hw (length_sliceValue h)
      · cases h
    case pad =>
      split at h
      · obtain ⟨_, _, h⟩ := bind_eq_ok.mp h
        obtain ⟨_, _, h⟩ := bind_eq_ok.mp h
        obtain ⟨value, hvalue, h⟩ := bind_eq_ok.mp h
        obtain ⟨w, hw, h⟩ := bind_eq_ok.mp h
        obtain ⟨_, _, h⟩ := bind_eq_ok.mp h
        obtain ⟨_, _, h⟩ := bind_eq_ok.mp h
        exact measures_literal codecs hvalue hw (length_padValue h)
      · cases h
    case truncate =>
      split at h
      · obtain ⟨_, _, h⟩ := bind_eq_ok.mp h
        obtain ⟨_, _, h⟩ := bind_eq_ok.mp h
        obtain ⟨value, hvalue, h⟩ := bind_eq_ok.mp h
        obtain ⟨w, hw, h⟩ := bind_eq_ok.mp h
        exact measures_literal codecs hvalue hw (length_truncateValue h)
      · cases h
    case be16 | be32 | le16 | le32 | le64 =>
      obtain ⟨value, -, h⟩ := bind_eq_ok.mp h
      rw [length_packValue (by decide) h]
      rfl
    case xor16 | xor32 =>
      obtain ⟨values, -, h⟩ := bind_eq_ok.mp h
      exact absurd h xorValue_ne_bytes
    case add | sub | and | or =>
      obtain ⟨values, -, h⟩ := bind_eq_ok.mp h
      exact absurd h binaryValue_ne_bytes
    case shl | shr =>
      obtain ⟨values, -, h⟩ := bind_eq_ok.mp h
      exact absurd h shiftValue_ne_bytes
    case unsupported => cases h

/-- The same of an argument: with the one value that it has. -/
theorem CustomTransformArg.measure_of_evaluate (context : EvalContext) : (arg : CustomTransformArg J) →
    arg.validate codecs = .ok () → ∀ bytes, arg.evaluate codecs context = .ok (.bytes bytes) →
      Measures arg.sized (arg.measure codecs context.vars) bytes.length
  | .mk bytesType packet u64 reuse metadata transform, hv, bytes, h => by
    unfold CustomTransformArg.evaluate at h
    unfold CustomTransformArg.measure CustomTransformArg.sized
    by_cases hpacket : packet.isSome = true
    · rw [if_pos hpacket] at h
      obtain ⟨value, hvalue, hb⟩ := map_eq_ok.mp h
      cases hb
      rw [if_pos hpacket, if_pos (.inl hpacket), hvalue]
      rfl
    rw [if_neg hpacket] at h
    cases u64 with
    | some value => cases h
    | none =>
      dsimp only at h
      by_cases hreuse : reuse ≠ []
      · rw [if_pos hreuse] at h
        rw [if_neg hpacket, if_pos hreuse, if_pos (.inr hreuse)]
        cases hvalue : context.vars.get? reuse with
        | some value =>
          rw [hvalue] at h
          cases h
          rfl
        | none =>
          rw [hvalue] at h
          cases h
      · rw [if_neg hreuse] at h
        rw [if_neg hpacket, if_neg hreuse, if_neg (by simp [hpacket, hreuse])]
        by_cases hmetadata : metadata ≠ []
        · -- the argument has one value only, so there is no expression besides the metadata
          have hnone : transform = none := by
            cases transform with
            | none => rfl
            | some nested =>
              unfold CustomTransformArg.validate at hv
              simp [hmetadata] at hv
          rw [hnone]
          exact .inr rfl
        · rw [if_neg hmetadata] at h
          cases transform with
          | none => cases h
          | some nested =>
            have hnested : nested.validate codecs = .ok () := by
              unfold CustomTransformArg.validate at hv
              dsimp only at hv
              split at hv
              · cases hv
              · obtain ⟨_, -, hv⟩ := bind_eq_ok.mp hv
                obtain ⟨_, hnested, -⟩ := bind_eq_ok.mp hv
                exact hnested
            exact CustomTransform.measure_of_evaluate context nested hnested bytes h

/-- The same of the arguments of `"concat"`, behind what is already there. -/
theorem CustomTransformArg.measureAll_of_evaluateAll (context : EvalContext) :
    (args : List (CustomTransformArg J)) → CustomTransformArg.validateAll codecs args = .ok () →
    ∀ {output result}, CustomTransformArg.evaluateAll codecs context output args = .ok result → ∀ total,
      ∃ n, result.length = output.length + n ∧
        Measures (CustomTransformArg.allSized args)
          (CustomTransformArg.measureAll codecs context.vars total args) (total + n)
  | [], _, output, result, h, total => by
    cases h
    exact ⟨0, rfl, rfl⟩
  | arg :: args, hv, output, result, h, total => by
    unfold CustomTransformArg.validateAll at hv
    obtain ⟨_, harg, hargs⟩ := bind_eq_ok.mp hv
    unfold CustomTransformArg.evaluateAll at h
    obtain ⟨value, hvalue, h⟩ := bind_eq_ok.mp h
    obtain ⟨part, hpart, h⟩ := bind_eq_ok.mp h
    obtain ⟨bytes, rfl⟩ : ∃ bytes, value = .bytes bytes := by
      cases value with
      | bytes bytes => exact ⟨bytes, rfl⟩
      | u64 n => cases hpart
    cases hpart
    have hfirst := CustomTransformArg.measure_of_evaluate context arg harg part hvalue
    obtain ⟨n, hlen, hrest⟩ :=
      CustomTransformArg.measureAll_of_evaluateAll context args hargs h (total + part.length)
    refine ⟨part.length + n, by rw [hlen, List.length_append, Nat.add_assoc], ?_⟩
    unfold CustomTransformArg.measureAll CustomTransformArg.allSized
    unfold Measures at hfirst
    cases hsized : arg.sized with
    | true =>
      rw [if_pos hsized] at hfirst
      rw [hfirst, Bool.true_and, ← Nat.add_assoc]
      exact hrest
    | false =>
      rw [if_neg (by rw [hsized]; decide)] at hfirst
      rw [Bool.false_and]
      rcases hfirst with h' | h' <;> rw [h']
      · exact .inl rfl
      · exact .inr rfl

end

/-! ### The claims of size -/

/-- What is measured of a valid expression whose value is bytes is their length, if its sizes are written
as numbers; if they are not, `measure_transform` refuses. -/
theorem evaluated_measured (t : CustomTransform J) (context : EvalContext) (bytes : List UInt8)
    (hv : t.validate codecs = .ok ()) (h : t.evaluate codecs context = .ok (.bytes bytes)) :
    (t.sized = true → t.measure codecs context.vars = .ok bytes.length) ∧
      (t.sized = false → t.measure codecs context.vars = .error sizeNotLiteral ∨
        t.measure codecs context.vars = .error noByteWidth) := by
  have hm := CustomTransform.measure_of_evaluate codecs context t hv bytes h
  unfold Measures at hm
  constructor
  · intro hsized
    rwa [if_pos hsized] at hm
  · intro hsized
    rwa [if_neg (by rw [hsized]; decide)] at hm

end Codecs

/-- JSON values that are arrays of bytes, which is all that the instances below need. -/
def arrayCodecs : Codecs (List UInt8) where
  array bytes := .ok bytes
  asStr _ := none
  hex _ := .error "hex"
  base64 _ := .error "base64"

/-- An argument that is an array of bytes. -/
def arrayArg (bytes : List UInt8) : CustomTransformArg (List UInt8) := .mk [] (some bytes) none [] [] none

/-- An argument that is a number. -/
def numberArg (value : UInt64) : CustomTransformArg (List UInt8) := .mk [] none (some value) [] [] none

/-- A context without variables and metadata. -/
def noContext : EvalContext := ⟨.empty, .empty⟩

/-- The first two of four bytes, by a number that is written and by a sum. -/
def truncateTo (length : CustomTransformArg (List UInt8)) : CustomTransform (List UInt8) :=
  .mk ("truncate" : Str) [arrayArg [1, 2, 3, 4], length]

/-- One and one. -/
def onePlusOne : CustomTransformArg (List UInt8) :=
  .mk [] none none [] [] (some (.mk ("add" : Str) [numberArg 1, numberArg 1]))

theorem evaluated_measured_truncate :
    (truncateTo (numberArg 2)).measure arrayCodecs noContext.vars = .ok 2 :=
  (evaluated_measured arrayCodecs (truncateTo (numberArg 2)) noContext [1, 2] (by decide +kernel)
    (by decide +kernel)).1 (by decide +kernel)

/-- A size that is computed is not measured. -/
theorem computed_size_not_measured :
    ¬∀ (t : CustomTransform (List UInt8)) (context : EvalContext) (bytes : List UInt8),
      t.validate arrayCodecs = .ok () → t.evaluate arrayCodecs context = .ok (.bytes bytes) →
        t.measure arrayCodecs context.vars = .ok bytes.length := by
  intro h
  have hmeasured := h (truncateTo onePlusOne) noContext [1, 2] (by decide +kernel) (by decide +kernel)
  revert hmeasured
  decide +kernel

end WutherCore.Finalmask
