import WutherCore.Data.Buffer
import WutherCore.Data.Carrier
import WutherCore.Data.Moves
import WutherCore.Data.Rand
import WutherCore.Finalmask.Salamander

/-!
# Finalmask: fragments of a stream

`fragment.rs`: a write is cut into pieces that are written one after the other, with pauses between them.
With `tlshello` only a first write that begins with a whole handshake record is cut, and every piece of
its payload becomes a record of its own.

* `always_splitPayload`: the pieces make the payload, whatever lengths are drawn.
* `always_makePending_none_iff`: the cutting fails on a record without payload, and on nothing else.
* `pollPending_spec`: what is on the wire and what is pending do not change together.
* `fragmentStream_faithful`: what is on the wire, in every session without such a record.
-/

namespace WutherCore.Finalmask

open WutherCore.Data Draw
open WutherCore.Text
open WutherCore.Young (u16Bytes)

/-- `I32Range`, as its constructors make it. -/
abbrev OrderedRange := {range : I32Range // range.from' ≤ range.to'}

/-- `I32Range::fixed`. -/
def OrderedRange.fixed (value : Int) : OrderedRange := ⟨⟨value, value⟩, le_refl _⟩

/-- `FragmentMaskConfig`. -/
structure FragmentMaskConfig where
  packets : Str
  length : OrderedRange := .fixed 0
  delay : OrderedRange := .fixed 0
  lengths : List OrderedRange := []
  delays : List OrderedRange := []
  maxSplit : OrderedRange := .fixed 0

/-- `Piece`, with its pause in milliseconds. -/
structure Piece where
  bytes : List UInt8
  written : Nat := 0
  delayAfter : Nat := 0
  deriving DecidableEq

/-- `PendingWrite`. -/
structure PendingWrite where
  originalLen : Nat
  pieces : List Piece
  current : Nat := 0
  sleep : Option Nat := none
  deriving DecidableEq

/-- `random_between`. -/
def randomBetween (range : OrderedRange) : Draw Int :=
  if range.1.from' = range.1.to' then pure range.1.from'
  else do
    let i ← below (range.1.to' - range.1.from').toNat
    return range.1.from' + i

/-- `str::parse::<i64>`. -/
def parseI64 : Str → Option Int
  | '-' :: s => (parseDigits (2 ^ 63 + 1) s).map fun n => -(n : Int)
  | '+' :: s => (parseDigits (2 ^ 63) s).map fun n => (n : Int)
  | s => (parseDigits (2 ^ 63) s).map fun n => (n : Int)

/-- `parse_packet_range`. -/
def parsePacketRange (value : Str) : Option (Int × Int) :=
  match parseI64 value with
  | some single => some (single, single)
  | none => do
    let (left, right) ← splitOnce '-' value
    let left ← parseI64 (trim left)
    let right ← parseI64 (trim right)
    return (min left right, max left right)

namespace FragmentMaskConfig

variable (config : FragmentMaskConfig)

/-- `packets.eq_ignore_ascii_case("tlshello")`. -/
def tlsHello : Bool := eqIgnoreAsciiCase config.packets ("tlshello" : Str)

/-- `lengths()`. -/
def lengthRanges : List OrderedRange := if config.lengths = [] then [config.length] else config.lengths

/-- `delays()`. -/
def delayRanges : List OrderedRange := if config.delays = [] then [config.delay] else config.delays

/-- `should_fragment_write`, at the write of this number. -/
def shouldFragmentWrite (writes : Nat) : Bool :=
  if config.tlsHello then false
  else
    let packets := trim config.packets
    if packets = [] then true
    else
      match parsePacketRange packets with
      | none => false
      | some (first, last) => first ≤ writes && (writes : Int) ≤ last

end FragmentMaskConfig

/-- The length of the record at the front: `5 + u16::from_be_bytes([input[3], input[4]])`. -/
def recordLen (input : List UInt8) : Nat := 5 + beAt 2 input 3

/-- A record of a handshake: `[22, 3, 0]`, the length, and the payload. -/
def helloRecord (payload : List UInt8) : List UInt8 :=
  [22, 3, 0] ++ (u16Bytes (UInt16.ofNat payload.length) ++ payload)

/-- `fragment.bytes[..3].copy_from_slice(&input[..3])`, which panics if there are no three bytes. -/
def Piece.copyHead (input : List UInt8) (piece : Piece) : Option Piece :=
  if 3 ≤ piece.bytes.length then some { piece with bytes := input.take 3 ++ piece.bytes.drop 3 } else none

namespace FragmentMaskConfig

variable (config : FragmentMaskConfig)

/-- `is_tls_hello_write`, at the write of this number. -/
def isTlsHelloWrite (writes : Nat) (input : List UInt8) : Bool :=
  config.tlsHello && writes == 1 && decide (5 < input.length) && byteAt input 0 == 22 &&
    decide (recordLen input ≤ input.length)

/-- The loop of `split_payload`, at an offset.  There is no result if the turns run out. -/
def splitLoop (tlsRecords : Bool) (input : List UInt8) (maxSplit : Nat) :
    Nat → Nat → Nat → Draw (Option (List Piece))
  | 0, _, _ => pure none
  | turns + 1, offset, index =>
    if input.length ≤ offset then pure (some [])
    else do
      let lengths := config.lengthRanges
      let delays := config.delayRanges
      let requested ← randomBetween (lengths.getD (min index (lengths.length - 1)) (.fixed 0))
      let stop := min (offset + requested.toNat) input.length
      let stop := if 0 < maxSplit ∧ maxSplit ≤ index + 1 then input.length else stop
      let stop := if stop = offset ∧ lengths.length - 1 ≤ index then input.length else stop
      let delay ← randomBetween (delays.getD (min index (delays.length - 1)) (.fixed 0))
      let part := slice input offset stop
      let bytes := if tlsRecords then helloRecord part else part
      let rest ← splitLoop tlsRecords input maxSplit turns stop (index + 1)
      return rest.map fun pieces => { bytes, delayAfter := delay.toNat : Piece } :: pieces

/-- `split_payload`. -/
def splitPayload (input : List UInt8) (tlsRecords : Bool) : Draw (Option (List Piece)) :=
  if input = [] then pure (some [{ bytes := [] }])
  else do
    let maxSplit ← randomBetween config.maxSplit
    config.splitLoop tlsRecords input maxSplit.toNat (config.lengthRanges.length + input.length + 1) 0 0

/-- `split_plain`. -/
def splitPlain (input : List UInt8) : Draw (Option (List Piece)) := config.splitPayload input false

/-- `split_tls_hello`. -/
def splitTlsHello (input : List UInt8) : Draw (Option (List Piece)) := do
  let payload := slice input 5 (recordLen input)
  let merge := config.delayRanges.length == 1 && (config.delayRanges.getD 0 (.fixed 0)).1.to' == 0
  let fragments ← config.splitPayload payload true
  return (fragments.bind fun pieces => pieces.mapM (Piece.copyHead input)).map fun fragments =>
    (if merge then [{ bytes := fragments.flatMap Piece.bytes : Piece }] else fragments) ++
      if recordLen input < input.length then [{ bytes := input.drop (recordLen input) }] else []

/-- `make_pending`, at the write of this number: no result if it panics. -/
def makePending (writes : Nat) (input : List UInt8) : Draw (Option PendingWrite) := do
  let pieces ← (if config.isTlsHelloWrite writes input then config.splitTlsHello input
    else if config.shouldFragmentWrite writes then config.splitPlain input
    else pure (some [{ bytes := input }]))
  return pieces.map fun pieces => { originalLen := input.length, pieces }

end FragmentMaskConfig

/-! ### The stream -/

/-- `FragmentStream`, with what its inner stream has been given. -/
structure FragmentStream where
  config : FragmentMaskConfig
  writes : Nat := 0
  pending : Option PendingWrite := none
  wire : List UInt8 := []

/-- The pause is over. -/
def PendingWrite.wake (pending : PendingWrite) : PendingWrite := { pending with sleep := none }

/-- `piece.written += written`. -/
def PendingWrite.wrote (pending : PendingWrite) (piece : Piece) (written : Nat) : PendingWrite :=
  { pending with
    pieces := pending.pieces.set pending.current { piece with written := piece.written + written } }

/-- `pending.current += 1`, with the pause behind the piece. -/
def PendingWrite.advance (pending : PendingWrite) (piece : Piece) : PendingWrite :=
  { pending with
    current := pending.current + 1
    sleep := if piece.delayAfter = 0 then none else some piece.delayAfter }

/-- What comes of a poll: its result, what is pending, and what is on the wire. -/
abbrev PolledWrite := Poll Nat × Option PendingWrite × List UInt8

/-- The loop of `poll_pending` for so many turns, along the answers of the timers and of the inner
stream.  A pause that is over is a turn of its own.  There is no result if the loop has not come to an
end, or if the answers are too few. -/
def pollPending : Nat → PendingWrite → List UInt8 → List Bool → List Reply → Option PolledWrite
  | 0, _, _, _, _ => none
  | turns + 1, pending, wire, timers, replies =>
    match pending.sleep with
    | some _ =>
      match timers with
      | [] => none
      | false :: _ => some (.pending, some pending, wire)
      | true :: timers => pollPending turns pending.wake wire timers replies
    | none =>
      match pending.pieces[pending.current]? with
      | none => some (.ready pending.originalLen, none, wire)
      | some piece =>
        if piece.written < piece.bytes.length then
          match replies with
          | [] => none
          | reply :: replies =>
            match carry (piece.bytes.drop piece.written) wire reply with
            | none => none
            | some (.pending, wire) => some (.pending, some pending, wire)
            | some (.failed, wire) => some (.failed, some pending, wire)
            | some (.ready written, wire) =>
              if written = 0 then some (.failed, some pending, wire)
              else pollPending turns (pending.wrote piece written) wire timers replies
        else pollPending turns (pending.advance piece) wire timers replies

/-! ### Cutting -/

/-- The pieces of a payload: parts that make it, each as a record of its own if `tlsRecords`. -/
def Cuts (tlsRecords : Bool) (payload : List UInt8) (pieces : List Piece) : Prop :=
  ∃ parts : List (List UInt8), parts.flatten = payload ∧
    pieces.map Piece.bytes = parts.map (fun part => if tlsRecords then helloRecord part else part) ∧
    ∀ piece ∈ pieces, piece.written = 0

theorem always_trivial {α : Type} (x : Draw α) : Always (fun _ => True) x := fun _ => trivial

section Cutting

variable (config : FragmentMaskConfig)

/-- Every turn takes a step to the last range or to the end of the payload, so there are enough. -/
theorem always_splitLoop (tlsRecords : Bool) (input : List UInt8) (maxSplit turns offset index : Nat)
    (hoffset : offset ≤ input.length)
    (hturns : (config.lengthRanges.length - 1 - index) + (input.length - offset) < turns) :
    Always (fun r => ∃ pieces, r = some pieces ∧ Cuts tlsRecords (input.drop offset) pieces)
      (config.splitLoop tlsRecords input maxSplit turns offset index) := by
  induction turns generalizing offset index with
  | zero => omega
  | succ turns ih =>
    unfold FragmentMaskConfig.splitLoop
    split
    · next hdone =>
      apply always_pure
      exact ⟨[], rfl, [], (List.drop_eq_nil_of_le hdone).symm, rfl, by simp⟩
    · next hmore =>
      refine (always_trivial _).bind fun requested _ => ?_
      dsimp only
      generalize hstop : (if (if 0 < maxSplit ∧ maxSplit ≤ index + 1 then input.length
          else min (offset + requested.toNat) input.length) = offset ∧
            config.lengthRanges.length - 1 ≤ index then input.length
        else if 0 < maxSplit ∧ maxSplit ≤ index + 1 then input.length
          else min (offset + requested.toNat) input.length) = stop
      have hbounds : offset ≤ stop ∧ stop ≤ input.length ∧
          (config.lengthRanges.length - 1 ≤ index → offset < stop) := by
        rw [← hstop]
        split_ifs <;> omega
      obtain ⟨hle, hlen, hprogress⟩ := hbounds
      refine (always_trivial _).bind fun delay _ => ?_
      refine (ih stop (index + 1) hlen (by omega)).bind fun rest hrest => ?_
      obtain ⟨pieces, rfl, parts, hflat, hbytes, hwritten⟩ := hrest
      apply always_pure
      refine ⟨_, rfl, slice input offset stop :: parts, ?_, ?_, ?_⟩
      · rw [List.flatten_cons, hflat, slice]
        have hdrop : input.drop stop = (input.drop offset).drop (stop - offset) := by
          rw [List.drop_drop, Nat.add_sub_cancel' hle]
        rw [hdrop, List.take_append_drop]
      · rw [List.map_cons, List.map_cons, hbytes]
      · intro piece hpiece
        rcases List.mem_cons.mp hpiece with rfl | hpiece
        · rfl
        · exact hwritten piece hpiece

theorem always_splitPayload {input : List UInt8} (hne : input ≠ []) (tlsRecords : Bool) :
    Always (fun r => ∃ pieces, r = some pieces ∧ Cuts tlsRecords input pieces)
      (config.splitPayload input tlsRecords) := by
  unfold FragmentMaskConfig.splitPayload
  rw [if_neg hne]
  refine (always_trivial _).bind fun maxSplit _ => ?_
  exact always_splitLoop config tlsRecords input maxSplit.toNat _ 0 0 (Nat.zero_le _) (by omega)

/-- A record with the type and the version of another one. -/
def recordLike (input part : List UInt8) : List UInt8 :=
  input.take 3 ++ (u16Bytes (UInt16.ofNat part.length) ++ part)

/-- The record at the front is replaced by records of its type and version, whose payloads make its
payload; the rest is left as it is. -/
def Rewritten (input out : List UInt8) : Prop :=
  ∃ parts : List (List UInt8), parts.flatten = slice input 5 (recordLen input) ∧
    (∀ part ∈ parts, part.length < 2 ^ 16) ∧
    out = parts.flatMap (recordLike input) ++ input.drop (recordLen input)

/-- A record at the front of a first write that has no payload. -/
def EmptyHello (writes : Nat) (input : List UInt8) : Prop :=
  config.isTlsHelloWrite writes input = true ∧ beAt 2 input 3 = 0

/-- What a write is on the wire. -/
def Renders (writes : Nat) (input out : List UInt8) : Prop :=
  if config.isTlsHelloWrite writes input = true then Rewritten input out else out = input

/-- What of a write is not on the wire yet. -/
def PendingWrite.rest (pending : PendingWrite) : List UInt8 :=
  (pending.pieces.drop pending.current).flatMap fun piece => piece.bytes.drop piece.written

theorem flatMap_rest {pieces : List Piece} (h : ∀ piece ∈ pieces, piece.written = 0) :
    pieces.flatMap (fun piece => piece.bytes.drop piece.written) = pieces.flatMap Piece.bytes := by
  apply List.flatMap_congr
  intro piece hpiece
  rw [h piece hpiece, List.drop_zero]

theorem copyHead_helloRecord {input part : List UInt8} {piece : Piece} (h : piece.bytes = helloRecord part) :
    piece.copyHead input = some { piece with bytes := recordLike input part } := by
  unfold Piece.copyHead
  rw [h, if_pos (by simp [helloRecord])]
  rfl

theorem mapM_copyHead (input : List UInt8) {parts : List (List UInt8)} {pieces : List Piece}
    (hbytes : pieces.map Piece.bytes = parts.map helloRecord) (hwritten : ∀ piece ∈ pieces, piece.written = 0) :
    ∃ copied, pieces.mapM (Piece.copyHead input) = some copied ∧
      copied.map Piece.bytes = parts.map (recordLike input) ∧ ∀ piece ∈ copied, piece.written = 0 := by
  induction pieces generalizing parts with
  | nil =>
    have hnil : parts = [] := List.map_eq_nil_iff.mp hbytes.symm
    exact ⟨[], rfl, by rw [hnil]; rfl, by simp⟩
  | cons piece pieces ih =>
    cases parts with
    | nil => cases hbytes
    | cons part parts =>
      rw [List.map_cons, List.map_cons, List.cons.injEq] at hbytes
      rw [List.forall_mem_cons] at hwritten
      obtain ⟨copied, hcopied, hmap, hzero⟩ := ih hbytes.2 hwritten.2
      refine ⟨{ piece with bytes := recordLike input part } :: copied, ?_, ?_, ?_⟩
      · rw [List.mapM_cons, copyHead_helloRecord hbytes.1, hcopied]
        rfl
      · rw [List.map_cons, List.map_cons, hmap]
      · rw [List.forall_mem_cons]
        exact ⟨hwritten.1, hzero⟩

theorem recordLen_lt (input : List UInt8) (h : 5 < input.length) : recordLen input < 5 + 2 ^ 16 := by
  have hlt : beAt 2 input 3 < 256 ^ 2 := beAt_lt (by omega)
  unfold recordLen
  omega

/-- The rewriting of a record: it fails without payload, and only then. -/
theorem always_splitTlsHello {input : List UInt8} (hlong : 5 < input.length)
    (hwhole : recordLen input ≤ input.length) :
    Always (fun r => (beAt 2 input 3 = 0 → r = none) ∧ (beAt 2 input 3 ≠ 0 →
        ∃ pieces, r = some pieces ∧ Rewritten input (pieces.flatMap Piece.bytes) ∧
          ∀ piece ∈ pieces, piece.written = 0))
      (config.splitTlsHello input) := by
  have hpayload : (slice input 5 (recordLen input)).length = beAt 2 input 3 := by
    rw [slice_length hwhole, recordLen, Nat.add_sub_cancel_left]
  unfold FragmentMaskConfig.splitTlsHello
  dsimp only
  by_cases hzero : beAt 2 input 3 = 0
  · have hnil : slice input 5 (recordLen input) = [] := List.length_eq_zero_iff.mp (hpayload.trans hzero)
    rw [hnil]
    have hsplit : Always (· = some [({ bytes := [] } : Piece)]) (config.splitPayload [] true) :=
      always_pure rfl
    refine hsplit.bind fun fragments hfragments => ?_
    rw [hfragments]
    exact always_pure ⟨fun _ => rfl, fun hne => absurd hzero hne⟩
  · have hne : slice input 5 (recordLen input) ≠ [] := by
      intro hnil
      rw [hnil] at hpayload
      exact hzero hpayload.symm
    refine (always_splitPayload config hne true).bind fun fragments hfragments => ?_
    obtain ⟨fragments, rfl, parts, hflat, hbytes, hwritten⟩ := hfragments
    obtain ⟨copied, hcopied, hmap, hcopiedZero⟩ := mapM_copyHead input hbytes hwritten
    apply always_pure
    refine ⟨fun h => absurd h hzero, fun _ => ?_⟩
    rw [Option.bind_some, hcopied, Option.map_some]
    refine ⟨_, rfl, ⟨parts, hflat, ?_, ?_⟩, ?_⟩
    · intro part hpart
      have hle : part.length ≤ parts.flatten.length := List.Sublist.length_le (List.sublist_flatten_of_mem hpart)
      rw [hflat, slice_length hwhole] at hle
      have hlt := recordLen_lt input hlong
      omega
    · have hall : copied.flatMap Piece.bytes = parts.flatMap (recordLike input) := by
        rw [List.flatMap_def, hmap, ← List.flatMap_def]
      have htail : (if recordLen input < input.length then [{ bytes := input.drop (recordLen input) : Piece }]
          else []).flatMap Piece.bytes = input.drop (recordLen input) := by
        split
        · simp
        · rw [List.drop_eq_nil_of_le (by omega)]
          rfl
      rw [List.flatMap_append, htail]
      split
      · rw [← hall]
        simp
      · rw [hall]
    · intro piece hpiece
      rcases List.mem_append.mp hpiece with hpiece | hpiece
      · split at hpiece
        · rw [List.mem_singleton.mp hpiece]
        · exact hcopiedZero piece hpiece
      · split at hpiece
        · rw [List.mem_singleton.mp hpiece]
        · cases hpiece

/-- A write that has just been cut. -/
structure Fresh (writes : Nat) (input : List UInt8) (pending : PendingWrite) : Prop where
  renders : Renders config writes input pending.rest
  originalLen : pending.originalLen = input.length

theorem fresh_of_pieces {writes : Nat} {input : List UInt8} {pieces : List Piece}
    (hwritten : ∀ piece ∈ pieces, piece.written = 0)
    (h : Renders config writes input (pieces.flatMap Piece.bytes)) :
    Fresh config writes input { originalLen := input.length, pieces } where
  renders := by
    rw [PendingWrite.rest, List.drop_zero, flatMap_rest hwritten]
    exact h
  originalLen := rfl

theorem always_makePending (writes : Nat) {input : List UInt8} (hne : input ≠ []) :
    Always (fun r => (EmptyHello config writes input → r = none) ∧ (¬EmptyHello config writes input →
        ∃ pending, r = some pending ∧ Fresh config writes input pending))
      (config.makePending writes input) := by
  unfold FragmentMaskConfig.makePending EmptyHello
  by_cases hhello : config.isTlsHelloWrite writes input = true
  · rw [if_pos hhello]
    have hparts := hhello
    simp only [FragmentMaskConfig.isTlsHelloWrite, Bool.and_eq_true, decide_eq_true_eq] at hparts
    refine (always_splitTlsHello config hparts.1.1.2 hparts.2).bind fun pieces hpieces => always_pure ⟨?_, ?_⟩
    · intro hempty
      rw [hpieces.1 hempty.2]
      rfl
    · intro hnot
      obtain ⟨pieces, rfl, hrewritten, hwritten⟩ := hpieces.2 fun hzero => hnot ⟨hhello, hzero⟩
      refine ⟨_, rfl, fresh_of_pieces config hwritten ?_⟩
      rw [Renders, if_pos hhello]
      exact hrewritten
  · rw [if_neg hhello]
    have hplain : ∀ {r : Option (List Piece)}, (∃ pieces, r = some pieces ∧ Cuts false input pieces) →
        ∃ pending, r.map (fun pieces => ({ originalLen := input.length, pieces } : PendingWrite)) =
          some pending ∧ Fresh config writes input pending := by
      rintro r ⟨pieces, rfl, parts, hflat, hbytes, hwritten⟩
      refine ⟨_, rfl, fresh_of_pieces config hwritten ?_⟩
      rw [Renders, if_neg hhello, List.flatMap_def, hbytes]
      simpa using hflat
    split
    · refine (always_splitPayload config hne false).bind fun pieces hpieces => always_pure ⟨?_, ?_⟩
      · exact fun hempty => absurd hempty.1 hhello
      · exact fun _ => hplain hpieces
    · have hone : Always (· = some [({ bytes := input } : Piece)])
          (pure (some [{ bytes := input }]) : Draw (Option (List Piece))) := always_pure rfl
      refine hone.bind fun pieces hpieces => ?_
      rw [hpieces]
      refine always_pure ⟨fun hempty => absurd hempty.1 hhello, fun _ => hplain ⟨_, rfl, [input], ?_, rfl, ?_⟩⟩
      · simp
      · intro piece hpiece
        rw [List.mem_singleton.mp hpiece]

end Cutting

/-! ### Polls -/

theorem rest_of_getElem? {pending : PendingWrite} {piece : Piece}
    (h : pending.pieces[pending.current]? = some piece) :
    pending.rest = piece.bytes.drop piece.written ++
      (pending.pieces.drop (pending.current + 1)).flatMap fun piece => piece.bytes.drop piece.written := by
  obtain ⟨hlt, hget⟩ := List.getElem?_eq_some_iff.mp h
  rw [PendingWrite.rest, List.drop_eq_getElem_cons hlt, hget, List.flatMap_cons]

theorem rest_of_none {pending : PendingWrite} (h : pending.pieces[pending.current]? = none) :
    pending.rest = [] := by
  rw [PendingWrite.rest, List.drop_eq_nil_of_le (List.getElem?_eq_none_iff.mp h)]
  rfl

/-- What was pending is on the wire, or is pending still; the write is reported when nothing is. -/
theorem pollPending_spec {turns : Nat} {pending : PendingWrite} {wire wire' : List UInt8}
    {timers : List Bool} {replies : List Reply} {result : Poll Nat} {pending' : Option PendingWrite}
    (h : pollPending turns pending wire timers replies = some (result, pending', wire')) :
    (result = .ready pending.originalLen ∧ pending' = none ∧ wire' = wire ++ pending.rest) ∨
      ((∀ n, result ≠ .ready n) ∧ ∃ left more, pending' = some left ∧
        left.originalLen = pending.originalLen ∧ wire' = wire ++ more ∧ more ++ left.rest = pending.rest) := by
  induction turns generalizing pending wire timers replies with
  | zero => cases h
  | succ turns ih =>
    unfold pollPending at h
    split at h
    · -- the pause between two pieces
      split at h
      · cases h
      · cases h
        exact .inr ⟨nofun, _, [], rfl, rfl, (List.append_nil _).symm, rfl⟩
      · exact @ih pending.wake _ _ _ h
    · split at h
      · next hnone =>
        cases h
        rw [rest_of_none hnone]
        exact .inl ⟨rfl, rfl, (List.append_nil _).symm⟩
      · next piece hpiece =>
        have hrest := rest_of_getElem? hpiece
        split at h
        · split at h
          · cases h
          · next reply replies =>
            split at h
            · cases h
            · next hcarry =>
              cases h
              rcases carry_cases hcarry with ⟨-, rfl⟩ | ⟨hno, -⟩ | ⟨n, -, hno, -⟩
              · exact .inr ⟨nofun, _, [], rfl, rfl, (List.append_nil _).symm, rfl⟩
              · cases hno
              · cases hno
            · next hcarry =>
              cases h
              rcases carry_cases hcarry with ⟨hno, -⟩ | ⟨-, rfl⟩ | ⟨n, -, hno, -⟩
              · cases hno
              · exact .inr ⟨nofun, _, [], rfl, rfl, (List.append_nil _).symm, rfl⟩
              · cases hno
            · next written wire'' hcarry =>
              rcases carry_cases hcarry with ⟨hno, -⟩ | ⟨hno, -⟩ | ⟨n, hle, hn, rfl⟩
              · cases hno
              · cases hno
              cases hn
              split at h
              · next hzero =>
                cases h
                refine .inr ⟨nofun, _, [], rfl, rfl, ?_, rfl⟩
                rw [hzero, List.take_zero]
              · -- a part of the piece has been written
                have hset : (pending.wrote piece written).rest = piece.bytes.drop (piece.written + written) ++
                    (pending.pieces.drop (pending.current + 1)).flatMap fun piece =>
                      piece.bytes.drop piece.written := by
                  have hlt := (List.getElem?_eq_some_iff.mp hpiece).1
                  unfold PendingWrite.wrote
                  rw [rest_of_getElem? (List.getElem?_set_self hlt)]
                  dsimp only
                  rw [List.drop_set_of_lt (Nat.lt_succ_self _)]
                have hparts : (piece.bytes.drop piece.written).take written ++
                    piece.bytes.drop (piece.written + written) = piece.bytes.drop piece.written := by
                  rw [← List.drop_drop, List.take_append_drop]
                rcases ih h with ⟨hready, hnone, hwire⟩ | ⟨hnot, left, more, hleft, hlen, hwire, hmore⟩
                · refine .inl ⟨hready, hnone, ?_⟩
                  rw [hwire, hset, hrest, List.append_assoc, ← List.append_assoc _ _ (List.flatMap _ _), hparts]
                · refine .inr ⟨hnot, left, (piece.bytes.drop piece.written).take written ++ more, hleft, hlen,
                    ?_, ?_⟩
                  · rw [hwire, List.append_assoc]
                  · rw [List.append_assoc, hmore, hset, hrest, ← List.append_assoc, hparts]
        · next hfull =>
          -- the piece has been written; its pause begins
          have hnext : (pending.advance piece).rest = pending.rest := by
            rw [hrest, List.drop_eq_nil_of_le (Nat.le_of_not_lt hfull), List.nil_append]
            rfl
          rw [← hnext]
          exact ih h

/-! ### Sessions -/

/-- The calls of a stream, with the numbers that are drawn, how many turns the loop takes, and what the
timers and the inner stream answer.  A read does not touch what is written. -/
inductive FragmentCall
  | write (data : List UInt8) (draws : Draws) (turns : Nat) (timers : List Bool) (replies : List Reply)
  | flush (turns : Nat) (timers : List Bool) (replies : List Reply)
  | shutdown (turns : Nat) (timers : List Bool) (replies : List Reply)

/-- A stream, the writes that were reported, the write that was not ready yet, and whether a call has
failed or panicked. -/
structure FragmentSession where
  stream : FragmentStream
  reported : List (List UInt8) := []
  unfinished : Option (List UInt8) := none
  failed : Bool := false
  panicked : Bool := false

namespace FragmentSession

/-- `FragmentStream::wrap`. -/
def start (config : FragmentMaskConfig) : FragmentSession := { stream := { config } }

/-- The session after the loop of a write. -/
def afterWrite (session : FragmentSession) (data : List UInt8) : PolledWrite → FragmentSession
  | (.ready _, pending, wire) =>
    { session with
      stream := { session.stream with pending, wire }
      reported := session.reported ++ [data]
      unfinished := none }
  | (.pending, pending, wire) =>
    { session with stream := { session.stream with pending, wire }, unfinished := some data }
  | (.failed, pending, wire) =>
    { session with stream := { session.stream with pending, wire }, unfinished := some data, failed := true }

/-- The session after the loop of a flush or of a shutdown, which reports no write. -/
def afterFlush (session : FragmentSession) : PolledWrite → FragmentSession
  | (result, pending, wire) =>
    { session with stream := { session.stream with pending, wire }, failed := result == .failed }

/-- `poll_flush` and `poll_shutdown`, without what the inner stream does then. -/
def finish (session : FragmentSession) (turns : Nat) (timers : List Bool) (replies : List Reply) :
    Option FragmentSession :=
  match session.stream.pending with
  | none => some session
  | some pending =>
    (pollPending turns pending session.stream.wire timers replies).map session.afterFlush

/-- A call.  A stream that has failed or panicked is not called again. -/
def step (session : FragmentSession) : FragmentCall → Option FragmentSession
  | .write data draws turns timers replies =>
    if session.failed ∨ session.panicked then none
    else if data = [] then some session
    else
      match session.stream.pending with
      | some pending =>
        (pollPending turns pending session.stream.wire timers replies).map (session.afterWrite data)
      | none =>
        let session :=
          { session with stream := { session.stream with writes := session.stream.writes + 1 } }
        match ((session.stream.config.makePending session.stream.writes data).run draws).1 with
        | none => some { session with panicked := true }
        | some pending =>
          (pollPending turns pending session.stream.wire timers replies).map (session.afterWrite data)
  | .flush turns timers replies =>
    if session.failed ∨ session.panicked then none else session.finish turns timers replies
  | .shutdown turns timers replies =>
    if session.failed ∨ session.panicked then none else session.finish turns timers replies

/-- A write that was not ready is polled again before anything else is written or flushed, and no first
write begins with a record without payload. -/
def Safe (session : FragmentSession) : FragmentCall → Prop
  | .write data _ _ _ _ =>
    (∀ last, session.unfinished = some last → data = last) ∧
      ¬EmptyHello session.stream.config (session.stream.writes + 1) data
  | .flush _ _ _ => session.unfinished = none
  | .shutdown _ _ _ => session.unfinished = none

/-- What the writes of a session are on the wire: of a first one what it renders, and the others. -/
def RendersAll (config : FragmentMaskConfig) : List (List UInt8) → List UInt8 → Prop
  | [], out => out = []
  | first :: others, out => ∃ front, Renders config 1 first front ∧ out = front ++ others.flatten

theorem rendersAll_snoc {config : FragmentMaskConfig} {writes : List (List UInt8)} {out data next : List UInt8}
    (h : RendersAll config writes out) (hnext : Renders config (writes.length + 1) data next) :
    RendersAll config (writes ++ [data]) (out ++ next) := by
  cases writes with
  | nil =>
    obtain rfl : out = [] := h
    exact ⟨next, hnext, by simp⟩
  | cons first others =>
    obtain ⟨front, hfront, rfl⟩ := h
    -- only the first write is ever cut into records
    have hplain : config.isTlsHelloWrite ((first :: others).length + 1) data = false := by
      simp [FragmentMaskConfig.isTlsHelloWrite]
    rw [Renders, hplain, if_neg (by decide)] at hnext
    exact ⟨front, hfront, by simp [hnext]⟩

/-- What was reported is on the wire, and of the write that is not ready what is not pending. -/
structure Inv (config : FragmentMaskConfig) (s : FragmentSession) : Prop where
  same : s.stream.config = config
  panicked : s.panicked = false
  onWire : ∃ before sent, RendersAll config s.reported before ∧ s.stream.wire = before ++ sent ∧
    match s.unfinished with
    | none => sent = [] ∧ s.stream.pending = none ∧ s.stream.writes = s.reported.length
    | some data => ∃ pending, s.stream.pending = some pending ∧ s.stream.writes = s.reported.length + 1 ∧
        Renders config s.stream.writes data (sent ++ pending.rest)

theorem inv_start (config : FragmentMaskConfig) : Inv config (start config) where
  same := rfl
  panicked := rfl
  onWire := ⟨[], [], rfl, rfl, rfl, rfl, rfl⟩

theorem Inv.afterWrite {config : FragmentMaskConfig} {s : FragmentSession} {data before sent : List UInt8}
    {pending : PendingWrite} {turns : Nat} {timers : List Bool} {replies : List Reply} {polled : PolledWrite}
    (hconfig : s.stream.config = config) (hpanicked : s.panicked = false)
    (hbefore : RendersAll config s.reported before) (hwire : s.stream.wire = before ++ sent)
    (hwrites : s.stream.writes = s.reported.length + 1)
    (hrenders : Renders config s.stream.writes data (sent ++ pending.rest))
    (h : pollPending turns pending s.stream.wire timers replies = some polled) :
    (s.afterWrite data polled).Inv config := by
  obtain ⟨result, pending', wire'⟩ := polled
  rcases pollPending_spec h with ⟨rfl, rfl, rfl⟩ | ⟨hnot, left, more, rfl, -, rfl, hmore⟩
  · rw [hwrites] at hrenders
    refine ⟨hconfig, hpanicked, _, [], rendersAll_snoc hbefore hrenders, ?_, rfl, rfl, ?_⟩
    · rw [List.append_nil]
      change s.stream.wire ++ pending.rest = _
      rw [hwire, List.append_assoc]
    · change s.stream.writes = (s.reported ++ [data]).length
      rw [hwrites, List.length_append]
      rfl
  · have hsent : s.stream.wire ++ more = before ++ (sent ++ more) := by rw [hwire, List.append_assoc]
    have hleft : Renders config s.stream.writes data (sent ++ more ++ left.rest) := by
      rwa [List.append_assoc, hmore]
    cases result with
    | ready n => exact absurd rfl (hnot n)
    | pending => exact ⟨hconfig, hpanicked, before, sent ++ more, hbefore, hsent, left, rfl, hwrites, hleft⟩
    | failed => exact ⟨hconfig, hpanicked, before, sent ++ more, hbefore, hsent, left, rfl, hwrites, hleft⟩

theorem Inv.finish {config : FragmentMaskConfig} {s s' : FragmentSession} (hs : s.Inv config)
    (hsafe : s.unfinished = none) {turns : Nat} {timers : List Bool} {replies : List Reply}
    (h : s.finish turns timers replies = some s') : s'.Inv config := by
  obtain ⟨before, sent, -, -, hcase⟩ := hs.onWire
  rw [hsafe] at hcase
  unfold FragmentSession.finish at h
  rw [hcase.2.1] at h
  cases h
  exact hs

theorem Inv.step {config : FragmentMaskConfig} {s s' : FragmentSession} {call : FragmentCall}
    (hs : s.Inv config) (hsafe : s.Safe call) (h : s.step call = some s') : s'.Inv config := by
  cases call with
  | flush turns timers replies | shutdown turns timers replies =>
    by_cases hlive : s.failed ∨ s.panicked
    · simp [FragmentSession.step, hlive] at h
    · simp only [FragmentSession.step, if_neg hlive] at h
      exact hs.finish hsafe h
  | write data draws turns timers replies =>
    obtain ⟨hsame, hhello⟩ := hsafe
    obtain ⟨before, sent, hbefore, hwire, hcase⟩ := hs.onWire
    by_cases hlive : s.failed ∨ s.panicked
    · simp [FragmentSession.step, hlive] at h
    by_cases hne : data = []
    · simp only [FragmentSession.step, if_neg hlive, if_pos hne] at h
      cases h
      exact hs
    simp only [FragmentSession.step, if_neg hlive, if_neg hne] at h
    cases hunfinished : s.unfinished with
    | some last =>
      rw [hunfinished] at hcase
      obtain ⟨pending, hpending, hwrites, hrenders⟩ := hcase
      rw [hpending] at h
      obtain ⟨polled, hpolled, rfl⟩ := Option.map_eq_some_iff.mp h
      rw [← hsame last hunfinished] at hrenders
      exact Inv.afterWrite hs.same hs.panicked hbefore hwire hwrites hrenders hpolled
    | none =>
      rw [hunfinished] at hcase
      obtain ⟨rfl, hpending, hwrites⟩ := hcase
      rw [hpending] at h
      dsimp only at h
      have hfresh := (always_makePending s.stream.config (s.stream.writes + 1) hne draws).2 hhello
      obtain ⟨pending, hmade, hfresh⟩ := hfresh
      rw [hmade] at h
      obtain ⟨polled, hpolled, rfl⟩ := Option.map_eq_some_iff.mp h
      have hrenders := hfresh.renders
      rw [hs.same] at hrenders
      exact Inv.afterWrite (s := { s with stream := { s.stream with writes := s.stream.writes + 1 } })
        hs.same hs.panicked hbefore hwire (congrArg (· + 1) hwrites) hrenders hpolled

end FragmentSession

/-- **The stream is kept.**  Cutting panics on a first record without payload and on nothing else; and in
every session without such a record, in which a write is polled until it is ready, the wire has what the
reported writes render and a part of what the unfinished one does. -/
theorem fragmentStream_faithful (config : FragmentMaskConfig) :
    (∀ writes input draws, input ≠ [] →
      (((config.makePending writes input).run draws).1 = none ↔ EmptyHello config writes input)) ∧
    ∀ s, Reach FragmentSession.step FragmentSession.Safe (FragmentSession.start config) s →
      s.panicked = false ∧ ∃ before sent, FragmentSession.RendersAll config s.reported before ∧
        s.stream.wire = before ++ sent ∧ (s.unfinished = none → sent = []) ∧
        ∀ data, s.unfinished = some data →
          ∃ rest, Renders config (s.reported.length + 1) data (sent ++ rest) := by
  constructor
  · intro writes input draws hne
    obtain ⟨hempty, hfresh⟩ := always_makePending config writes hne draws
    constructor
    · intro hnone
      by_contra hnot
      obtain ⟨pending, hsome, -⟩ := hfresh hnot
      rw [hsome] at hnone
      cases hnone
    · exact hempty
  · intro s h
    have hs : s.Inv config := h.inv (fun _ _ _ hs hsafe hm => hs.step hsafe hm) (FragmentSession.inv_start config)
    obtain ⟨before, sent, hbefore, hwire, hcase⟩ := hs.onWire
    refine ⟨hs.panicked, before, sent, hbefore, hwire, ?_, ?_⟩
    · intro hnone
      rw [hnone] at hcase
      exact hcase.1
    · intro data hdata
      rw [hdata] at hcase
      obtain ⟨pending, -, hwrites, hrenders⟩ := hcase
      rw [hwrites] at hrenders
      exact ⟨pending.rest, hrenders⟩

/-- Records of two bytes. -/
def helloConfig : FragmentMaskConfig where
  packets := ("tlshello" : Str)
  length := .fixed 2

/-- A record of three bytes and a byte behind it, taken in two parts: two records, and the byte. -/
theorem fragmentStream_faithful_hello :
    ∃ s, Reach FragmentSession.step FragmentSession.Safe (FragmentSession.start helloConfig) s ∧
      s.panicked = false ∧ s.reported = [[22, 3, 3, 0, 3, 1, 2, 3, 99]] ∧
      s.stream.wire = [22, 3, 3, 0, 2, 1, 2, 22, 3, 3, 0, 1, 3, 99] := by
  have hsafe : (FragmentSession.start helloConfig).Safe
      (.write [22, 3, 3, 0, 3, 1, 2, 3, 99] (fun _ => 0) 8 [] [.took 9, .took 4, .took 1]) :=
    ⟨nofun, fun hempty => absurd hempty.2 (by decide)⟩
  have hstep : FragmentSession.step (FragmentSession.start helloConfig)
      (.write [22, 3, 3, 0, 3, 1, 2, 3, 99] (fun _ => 0) 8 [] [.took 9, .took 4, .took 1]) =
    some
      { stream :=
          { config := helloConfig
            writes := 1
            wire := [22, 3, 3, 0, 2, 1, 2, 22, 3, 3, 0, 1, 3, 99] }
        reported := [[22, 3, 3, 0, 3, 1, 2, 3, 99]] } := rfl
  have hreach := Reach.refl.tail hsafe hstep
  exact ⟨_, hreach, ((fragmentStream_faithful helloConfig).2 _ hreach).1, rfl, rfl⟩

/-- A first write with a record without payload panics; and a write that is flushed before it is polled
again is on the wire twice. -/
theorem fragmentStream_unfaithful :
    (∃ s, Reach FragmentSession.step anyMove (FragmentSession.start helloConfig) s ∧ s.panicked = true) ∧
    ∃ s, Reach FragmentSession.step anyMove (FragmentSession.start helloConfig) s ∧
      s.reported = [[1, 2]] ∧ s.stream.wire = [1, 2, 1, 2] := by
  constructor
  · have hstep : FragmentSession.step (FragmentSession.start helloConfig)
        (.write [22, 3, 3, 0, 0, 20] (fun _ => 0) 1 [] []) =
      some { stream := { config := helloConfig, writes := 1 }, panicked := true } := rfl
    exact ⟨_, Reach.refl.tail trivial hstep, rfl⟩
  · have hmoves : runMoves FragmentSession.step (FragmentSession.start helloConfig)
        [.write [1, 2] (fun _ => 0) 2 [] [.took 1, .pending], .flush 3 [] [.took 1],
          .write [1, 2] (fun _ => 0) 3 [] [.took 2]] =
      some
        { stream := { config := helloConfig, writes := 2, wire := [1, 2, 1, 2] }, reported := [[1, 2]] } := rfl
    exact ⟨_, reach_of_runMoves hmoves, rfl, rfl⟩

end WutherCore.Finalmask
