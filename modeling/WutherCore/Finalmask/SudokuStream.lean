import WutherCore.Finalmask.SudokuTable

/-!
# Streams of the sudoku mask

A client writes each byte as four hints (`Encoder`), which the server reads with `HintDecoder`; the server
writes groups of six bits (`PackedEncoder`), which the client reads with `PackedDecoder`.  Writer and reader
go through the tables of the configuration in turn, a table for each byte or each group, and the writer puts
in padding at random.

The packed form carries the bits that do not fill a group over to the next byte.  At the end of a write the
last group is filled up, and the marker of the next layout tells the reader to drop what it has too much.
`Aligned` relates the bits that writer and reader hold within a write.
-/

namespace WutherCore.Finalmask

open WutherCore.Data WutherCore.Sudoku WutherCore.Young Draw Transducer

/-- The tables of a configuration, at least one. -/
structure Tables where
  list : List Table
  nonempty : list ≠ []

/-- `tables[index % tables.len()]`. -/
def Tables.table (tables : Tables) (index : Nat) : Table :=
  tables.list.get ⟨index % tables.list.length, Nat.mod_lt _ (List.length_pos_iff.2 tables.nonempty)⟩

/-- All tables are sound. -/
def Tables.Sound (tables : Tables) : Prop := ∀ table ∈ tables.list, table.Sound

theorem Tables.Sound.table {tables : Tables} (h : tables.Sound) (index : Nat) :
    (tables.table index).Sound := h _ (List.get_mem _ _)

/-- `should_pad`. -/
def shouldPad (chance : Nat) : Draw Bool :=
  if 100 ≤ chance then pure true
  else if 0 < chance then do
    let drawn ← below 100
    pure (decide (drawn < chance))
  else pure false

/-- Perhaps a byte of the pool. -/
def pad (chance : Nat) (pool : List UInt8) : Draw (List UInt8) := do
  if ← shouldPad chance then
    let byte ← choose pool
    pure [byte]
  else
    pure []

theorem always_pad {P : UInt8 → Prop} (chance : Nat) {pool : List UInt8} (hne : pool ≠ [])
    (hpool : ∀ byte ∈ pool, P byte) : Always (∀ byte ∈ ·, P byte) (pad chance pool) := by
  have hany : Always (fun _ => True) (shouldPad chance) := fun _ => trivial
  refine hany.bind fun b _ => ?_
  cases b with
  | true =>
    refine (always_choose hne).bind fun byte hbyte => always_pure ?_
    exact fun x hx => List.mem_singleton.1 hx ▸ hpool byte hbyte
  | false => exact always_pure fun x hx => absurd hx List.not_mem_nil

/-! ### Hints -/

/-- The body of the loop of `Encoder::encode`: a byte in four hints. -/
def encodeByte (table : Table) (chance : Nat) (byte : UInt8) : Draw (Except IoError (List UInt8)) := do
  let before ← pad chance table.layout.paddingPool
  let candidates := table.encode.getD byte.toNat []
  let i ← below candidates.length
  match candidates[i]? with
  | none => pure (.error (invalidInput "sudoku encode table is empty"))
  | some hints => do
    let permutation ← choose perm4
    let rest ← interleave (pad chance table.layout.paddingPool) (permutation.map fun i => hints.getD i 0)
    pure (.ok (before ++ rest))

/-- `Encoder::encode`, from a table index to the next. -/
def encode (tables : Tables) (chance : Nat) :
    Nat → List UInt8 → Draw (Except IoError (List UInt8 × Nat))
  | index, [] => do
    let after ← pad chance (tables.table index).layout.paddingPool
    pure (.ok (after, index))
  | index, byte :: input => do
    match ← encodeByte (tables.table index) chance byte with
    | .error e => pure (.error e)
    | .ok out =>
      match ← encode tables chance (index + 1) input with
      | .error e => pure (.error e)
      | .ok (rest, index) => pure (.ok (out ++ rest, index))

/-- Successive calls of `Encoder::encode`: the outputs one after the other. -/
def encodeAll (tables : Tables) (chance : Nat) :
    Nat → List (List UInt8) → Draw (Except IoError (List UInt8))
  | _, [] => pure (.ok [])
  | index, chunk :: chunks => do
    match ← encode tables chance index chunk with
    | .error e => pure (.error e)
    | .ok (out, index) =>
      match ← encodeAll tables chance index chunks with
      | .error e => pure (.error e)
      | .ok rest => pure (.ok (out ++ rest))

/-- The body of the loop of `HintDecoder::decode`. -/
def hintStep (tables : Tables) : HintState → UInt8 → Except IoError (HintState × List UInt8) :=
  readHint (fun index byte => (tables.table index).layout.isHint byte)
    (fun index hints => (tables.table index).lookup hints) (invalidInput "invalid sudoku hint tuple")

/-- `HintDecoder::decode`. -/
def hintDecode (tables : Tables) (decoder : HintState) (input : List UInt8) :
    Except IoError (HintState × List UInt8) := run (hintStep tables) decoder input

section Hints

variable {tables : Tables} {chance : Nat}

theorem always_encodeByte (hsound : tables.Sound) (index : Nat) (byte : UInt8) :
    Always (fun r => ∃ out, r = .ok out ∧
      Reads (hintStep tables) ⟨index, []⟩ out ⟨index + 1, []⟩ [byte])
      (encodeByte (tables.table index) chance byte) := by
  have htable := hsound.table index
  have hpool : (tables.table index).layout.paddingPool ≠ [] := List.ne_nil_of_mem htable.layout.marker_mem
  have hpad : Always (∀ x ∈ ·, (tables.table index).layout.isHint x = false)
      (pad chance (tables.table index).layout.paddingPool) :=
    always_pad chance hpool htable.layout.pool_not_hint
  unfold encodeByte
  refine hpad.bind fun before hbefore => ?_
  refine (always_below (List.length_pos_iff.2 (htable.nonempty byte))).bind fun i hi => ?_
  rw [List.getElem?_eq_getElem hi]
  have hhints := List.getElem_mem hi
  generalize ((tables.table index).encode.getD byte.toNat [])[i] = hints at hhints
  refine (always_choose (List.cons_ne_nil _ _)).bind fun permutation hpermutation => ?_
  have hlen := htable.length byte hints hhints
  have hperm := map_perm4 hpermutation hlen
  have hsent : (permutation.map fun i => hints.getD i 0).length = 4 := hperm.length_eq.trans hlen
  have hread : Always (fun out => Reads (hintStep tables) ⟨index, []⟩ out ⟨index + 1, []⟩ [byte]) _ :=
    always_reads hpad (List.ne_nil_of_length_pos (by omega)) (by rw [hsent, List.length_nil])
      (fun h hh => htable.hint byte hints hhints h (hperm.subset hh))
      (htable.lookup_eq byte hints hhints _ hperm)
  refine hread.bind fun rest hrest => always_pure ⟨_, rfl, ?_⟩
  have hskip : Reads (hintStep tables) ⟨index, []⟩ before ⟨index, []⟩ [] := reads_noise hbefore
  exact hskip.append hrest

theorem always_encode (hsound : tables.Sound) (input : List UInt8) (index : Nat) :
    Always (fun r => ∃ out index', r = .ok (out, index') ∧
      Reads (hintStep tables) ⟨index, []⟩ out ⟨index', []⟩ input) (encode tables chance index input) := by
  induction input generalizing index with
  | nil =>
    have htable := hsound.table index
    have hpad := always_pad chance (List.ne_nil_of_mem htable.layout.marker_mem)
      htable.layout.pool_not_hint
    unfold encode
    refine hpad.bind fun after hafter => always_pure ⟨after, index, rfl, reads_noise hafter⟩
  | cons byte input ih =>
    unfold encode
    refine (always_encodeByte hsound index byte).bind ?_
    rintro r ⟨out, rfl, hout⟩
    refine (ih (index + 1)).bind ?_
    rintro r ⟨rest, index', rfl, hrest⟩
    exact always_pure ⟨_, index', rfl, hout.append hrest⟩

theorem always_encodeAll (chance : Nat) (hsound : tables.Sound) (chunks : List (List UInt8)) (index : Nat) :
    Always (fun r => ∃ out index', r = .ok out ∧
      Reads (hintStep tables) ⟨index, []⟩ out ⟨index', []⟩ chunks.flatten)
      (encodeAll tables chance index chunks) := by
  induction chunks generalizing index with
  | nil => exact always_pure ⟨[], index, rfl, Reads.nil⟩
  | cons chunk chunks ih =>
    unfold encodeAll
    refine (always_encode hsound chunk index).bind ?_
    rintro r ⟨out, index', rfl, hout⟩
    refine (ih index').bind ?_
    rintro r ⟨rest, index'', rfl, hrest⟩
    exact always_pure ⟨_, index'', rfl, hout.append hrest⟩

end Hints

/-! ### Packed groups -/

/-- The bits held by a packed writer or reader, and the number of the group it is at. -/
structure BitState where
  index : Nat
  buffer : Nat
  count : Nat
  deriving DecidableEq

/-- `PackedEncoder::maybe_pad`.  The source draws until the byte is not the marker; what it draws in the
end is one of the others, of which there always is one (`Layout.Sound.pool_other`). -/
def maybePad (chance : Nat) (layout : Layout) : Draw (List UInt8) :=
  pad chance (layout.paddingPool.filter (· ≠ layout.padMarker))

/-- A group, after some padding. -/
def writeGroup (tables : Tables) (chance index : Nat) (group : UInt8) : Draw (List UInt8) := do
  let layout := (tables.table index).layout
  let noise ← maybePad chance layout
  pure (noise ++ [layout.encodeGroup group])

/-- The bits that stay in a buffer of which the upper ones have been taken. -/
def keepBits (buffer count : Nat) : Nat := if count = 0 then 0 else buffer &&& (1 <<< count - 1)

/-- The inner loop of `PackedEncoder::encode`: groups as long as there are six bits.  Each turn takes six
bits away, so as many turns as there are bits are enough. -/
def writeGroups (tables : Tables) (chance : Nat) : Nat → BitState → Draw (List UInt8 × BitState)
  | 0, s => pure ([], s)
  | n + 1, s =>
    if s.count < 6 then
      pure ([], s)
    else do
      let count := s.count - 6
      let group := UInt8.ofNat (s.buffer >>> count) &&& 0x3f
      let out ← writeGroup tables chance s.index group
      let (rest, s) ← writeGroups tables chance n ⟨s.index + 1, keepBits s.buffer count, count⟩
      pure (out ++ rest, s)

/-- The outer loop of `PackedEncoder::encode`. -/
def writeBytes (tables : Tables) (chance : Nat) : BitState → List UInt8 → Draw (List UInt8 × BitState)
  | s, [] => pure ([], s)
  | s, byte :: input => do
    let (out, s) ← writeGroups tables chance (s.count + 8)
      ⟨s.index, s.buffer <<< 8 ||| byte.toNat, s.count + 8⟩
    let (rest, s) ← writeBytes tables chance s input
    pure (out ++ rest, s)

/-- The end of `PackedEncoder::encode`: the rest of the bits in a group of their own, with the marker of the
next layout behind it. -/
def writeEnd (tables : Tables) (chance : Nat) (s : BitState) : Draw (List UInt8 × Nat) :=
  if 0 < s.count then do
    let group := UInt8.ofNat (s.buffer <<< (6 - s.count)) &&& 0x3f
    let out ← writeGroup tables chance s.index group
    let next := (tables.table (s.index + 1)).layout
    let noise ← maybePad chance next
    pure (out ++ next.padMarker :: noise, s.index + 1)
  else do
    let noise ← maybePad chance (tables.table s.index).layout
    pure (noise, s.index)

/-- `PackedEncoder::encode`, from a group index to the next. -/
def packedEncode (tables : Tables) (chance index : Nat) (input : List UInt8) :
    Draw (List UInt8 × Nat) := do
  let (out, s) ← writeBytes tables chance ⟨index, 0, 0⟩ input
  let (rest, index) ← writeEnd tables chance s
  pure (out ++ rest, index)

/-- Successive calls of `PackedEncoder::encode`: the outputs one after the other. -/
def packedEncodeAll (tables : Tables) (chance : Nat) : Nat → List (List UInt8) → Draw (List UInt8)
  | _, [] => pure []
  | index, chunk :: chunks => do
    let (out, index) ← packedEncode tables chance index chunk
    let rest ← packedEncodeAll tables chance index chunks
    pure (out ++ rest)

/-- The inner loop of `PackedDecoder::decode`: bytes as long as there are eight bits. -/
def readBytes : Nat → BitState → List UInt8 × BitState
  | 0, s => ([], s)
  | n + 1, s =>
    if s.count < 8 then
      ([], s)
    else
      let count := s.count - 8
      let (rest, t) := readBytes n ⟨s.index, keepBits s.buffer count, count⟩
      (UInt8.ofNat (s.buffer >>> count) :: rest, t)

/-- The body of the loop of `PackedDecoder::decode`. -/
def packedStep (tables : Tables) (s : BitState) (byte : UInt8) : Except IoError (BitState × List UInt8) :=
  let layout := (tables.table s.index).layout
  if !layout.isHint byte then
    if byte = layout.padMarker then .ok (⟨s.index, 0, 0⟩, []) else .ok (s, [])
  else
    match layout.decodeGroup byte with
    | none => .error (invalidInput "invalid packed sudoku byte")
    | some group =>
      let (out, s) := readBytes (s.count + 6) ⟨s.index + 1, s.buffer <<< 6 ||| group.toNat, s.count + 6⟩
      .ok (s, out)

/-- `PackedDecoder::decode`. -/
def packedDecode (tables : Tables) (decoder : BitState) (input : List UInt8) :
    Except IoError (BitState × List UInt8) := run (packedStep tables) decoder input

section Packed

variable {tables : Tables} {chance : Nat}

theorem keepBits_eq (buffer count : Nat) : keepBits buffer count = buffer % 2 ^ count := by
  unfold keepBits
  split_ifs with h
  · rw [h, Nat.pow_zero, Nat.mod_one]
  · rw [Nat.one_shiftLeft, Nat.and_two_pow_sub_one_eq_mod]

theorem shiftLeft_or {a b i : Nat} (h : b < 2 ^ i) : a <<< i ||| b = a * 2 ^ i + b := by
  rw [← Nat.shiftLeft_add_eq_or_of_lt h, Nat.shiftLeft_eq]

/-- What a reader with fewer than eight bits makes of a group. -/
def received (s : BitState) (group : Nat) : BitState × List UInt8 :=
  if s.count < 2 then
    (⟨s.index + 1, s.buffer * 64 + group, s.count + 6⟩, [])
  else
    (⟨s.index + 1, (s.buffer * 64 + group) % 2 ^ (s.count - 2), s.count - 2⟩,
      [UInt8.ofNat ((s.buffer * 64 + group) / 2 ^ (s.count - 2))])

theorem readBytes_received {s : BitState} (hcount : s.count < 8) {group : Nat} (hgroup : group < 64) :
    readBytes (s.count + 6) ⟨s.index + 1, s.buffer <<< 6 ||| group, s.count + 6⟩ =
      ((received s group).2, (received s group).1) := by
  have hshift : s.buffer <<< 6 ||| group = s.buffer * 64 + group := shiftLeft_or (i := 6) hgroup
  rw [hshift, received]
  by_cases h : s.count < 2
  · rw [if_pos h, readBytes, if_pos (by dsimp only; omega)]
  · have hstop : readBytes (s.count + 5)
        ⟨s.index + 1, keepBits (s.buffer * 64 + group) (s.count - 2), s.count - 2⟩ =
          ([], ⟨s.index + 1, (s.buffer * 64 + group) % 2 ^ (s.count - 2), s.count - 2⟩) := by
      rw [readBytes, if_pos (by dsimp only; omega), keepBits_eq]
    rw [if_neg h, readBytes, if_neg (by dsimp only; omega)]
    dsimp only
    rw [show s.count + 6 - 8 = s.count - 2 by omega, hstop, Nat.shiftRight_eq_div_pow]

theorem packedStep_group (hsound : tables.Sound) {s : BitState} (hcount : s.count < 8) {group : UInt8}
    (hgroup : group.toNat < 64) :
    packedStep tables s ((tables.table s.index).layout.encodeGroup group) =
      .ok (received s group.toNat) := by
  have hlayout := (hsound.table s.index).layout
  rw [packedStep]
  dsimp only
  rw [hlayout.isHint_encode, hlayout.decode_encode, and_3f_of_lt group hgroup]
  dsimp only
  rw [Bool.not_true, if_neg Bool.false_ne_true, readBytes_received hcount hgroup]

theorem packedStep_noise {s : BitState} {byte : UInt8}
    (hbyte : (tables.table s.index).layout.isHint byte = false)
    (hne : byte ≠ (tables.table s.index).layout.padMarker) : packedStep tables s byte = .ok (s, []) := by
  rw [packedStep]
  dsimp only
  rw [hbyte, Bool.not_false, if_pos rfl, if_neg hne]

theorem packedStep_marker (hsound : tables.Sound) (s : BitState) :
    packedStep tables s (tables.table s.index).layout.padMarker = .ok (⟨s.index, 0, 0⟩, []) := by
  have hlayout := (hsound.table s.index).layout
  rw [packedStep]
  dsimp only
  rw [hlayout.pool_not_hint _ hlayout.marker_mem, Bool.not_false, if_pos rfl, if_pos rfl]

theorem always_maybePad (hsound : tables.Sound) (s : BitState) :
    Always (fun noise => Reads (packedStep tables) s noise s [])
      (maybePad chance (tables.table s.index).layout) := by
  have hlayout := (hsound.table s.index).layout
  have hne : (tables.table s.index).layout.paddingPool.filter
      (· ≠ (tables.table s.index).layout.padMarker) ≠ [] := by
    obtain ⟨byte, hbyte, hother⟩ := hlayout.pool_other
    exact List.ne_nil_of_mem (List.mem_filter.2 ⟨hbyte, decide_eq_true hother⟩)
  have hpad := @always_pad (fun byte => packedStep tables s byte = .ok (s, [])) chance _ hne (by
      intro byte hbyte
      rw [List.mem_filter, decide_eq_true_iff] at hbyte
      exact packedStep_noise (hlayout.pool_not_hint byte hbyte.1) hbyte.2)
  refine hpad.mono fun noise hnoise => ?_
  clear hpad
  induction noise with
  | nil => exact Reads.nil
  | cons byte noise ih =>
    rw [List.forall_mem_cons] at hnoise
    exact (ih hnoise.2).cons hnoise.1

theorem always_writeGroup (chance : Nat) (hsound : tables.Sound) {s : BitState} (hcount : s.count < 8) {group : UInt8}
    (hgroup : group.toNat < 64) :
    Always (fun out => Reads (packedStep tables) s out (received s group.toNat).1
      (received s group.toNat).2) (writeGroup tables chance s.index group) := by
  unfold writeGroup
  refine (always_maybePad hsound s).bind fun noise hnoise => always_pure ?_
  exact hnoise.append (Reads.single (packedStep_group hsound hcount hgroup))

theorem toNat_group_bits (x : Nat) : (UInt8.ofNat x &&& 0x3f).toNat = x % 64 := by
  have hand : x % 256 &&& 63 = x % 256 % 64 := Nat.and_two_pow_sub_one_eq_mod _ 6
  rw [UInt8.toNat_and, UInt8.toNat_ofNat']
  change x % 256 &&& 63 = x % 64
  rw [hand]
  omega

theorem always_writeGroups_succ (hsound : tables.Sound) {r r' : BitState} {o : List UInt8}
    {buffer keep kept group n : Nat} {P : List UInt8 × BitState → Prop} (hr : r.count < 8)
    (hgroup : buffer / 2 ^ keep % 64 = group) (hkept : buffer % 2 ^ keep = kept)
    (hreceived : received r group = (r', o))
    (h : ∀ out, Reads (packedStep tables) r out r' o →
      Always (fun p => P (out ++ p.1, p.2)) (writeGroups tables chance n ⟨r.index + 1, kept, keep⟩)) :
    Always P (writeGroups tables chance (n + 1) ⟨r.index, buffer, keep + 6⟩) := by
  have hnat : (UInt8.ofNat (buffer >>> keep) &&& 0x3f).toNat = group := by
    rw [toNat_group_bits, Nat.shiftRight_eq_div_pow, hgroup]
  have hlt : (UInt8.ofNat (buffer >>> keep) &&& 0x3f).toNat < 64 := by
    rw [toNat_group_bits]
    omega
  have hout := always_writeGroup chance hsound hr hlt
  rw [hnat, hreceived] at hout
  rw [writeGroups, if_neg (by dsimp only; omega)]
  dsimp only
  rw [Nat.add_sub_cancel, keepBits_eq, hkept]
  exact hout.bind fun out hread => (h out hread).bind fun p hp => always_pure hp

theorem always_writeGroups_stop {w : BitState} {n : Nat} {P : List UInt8 × BitState → Prop}
    (hw : w.count < 6) (h : P ([], w)) : Always P (writeGroups tables chance n w) := by
  cases n with
  | zero => exact always_pure h
  | succ n =>
    rw [writeGroups, if_pos hw]
    exact always_pure h

/-- What writer and reader hold within a write: nothing, or together the byte written last, of which the
reader has the upper bits. -/
inductive Aligned : BitState → BitState → List UInt8 → Prop
  | none (index : Nat) : Aligned ⟨index, 0, 0⟩ ⟨index, 0, 0⟩ []
  | two (index : Nat) {high low : Nat} : high < 64 → low < 4 →
    Aligned ⟨index, low, 2⟩ ⟨index, high, 6⟩ [UInt8.ofNat (high * 4 + low)]
  | four (index : Nat) {high low : Nat} : high < 16 → low < 16 →
    Aligned ⟨index, low, 4⟩ ⟨index, high, 4⟩ [UInt8.ofNat (high * 16 + low)]

/-- The next byte: the reader gets the byte before, and the new one is held. -/
theorem Aligned.always_byte (hsound : tables.Sound) {w r : BitState} {pending : List UInt8}
    (h : Aligned w r pending) (byte : UInt8) :
    Always (fun p => ∃ r' out pending', Reads (packedStep tables) r p.1 r' out ∧
      Aligned p.2 r' pending' ∧ out ++ pending' = pending ++ [byte])
      (writeGroups tables chance (w.count + 8)
        ⟨w.index, w.buffer <<< 8 ||| byte.toNat, w.count + 8⟩) := by
  have hb : byte.toNat < 256 := byte.toNat_lt
  have hshift : w.buffer <<< 8 ||| byte.toNat = w.buffer * 256 + byte.toNat := shiftLeft_or (i := 8) hb
  rw [hshift]
  generalize hB : byte.toNat = B at hb
  have hbyte : UInt8.ofNat B = byte := by rw [← hB, UInt8.ofNat_toNat]
  cases h with
  | none index =>
    change Always _ (writeGroups tables chance 8 ⟨index, 0 * 256 + B, 2 + 6⟩)
    have hreceived : received ⟨index, 0, 0⟩ (B / 4) = (⟨index + 1, B / 4, 6⟩, []) := by simp [received]
    refine always_writeGroups_succ (r := ⟨index, 0, 0⟩) hsound (by simp) (by omega) rfl hreceived
      fun out hread => always_writeGroups_stop (by simp) ?_
    rw [Nat.zero_mul, Nat.zero_add]
    refine ⟨_, _, _, (List.append_nil out).symm ▸ hread,
      Aligned.two (index + 1) (by omega) (by omega), ?_⟩
    have hwhole : B / 4 * 4 + B % 2 ^ 2 = B := by omega
    rw [hwhole, hbyte]
  | @two index high low hhigh hlow =>
    change Always _ (writeGroups tables chance 10 ⟨index, low * 256 + B, 4 + 6⟩)
    have hrest : (high * 64 + (low * 16 + B / 16)) % 16 = B / 16 := by omega
    have hout : (high * 64 + (low * 16 + B / 16)) / 16 = high * 4 + low := by omega
    have hreceived : received ⟨index, high, 6⟩ (low * 16 + B / 16) =
        (⟨index + 1, B / 16, 4⟩, [UInt8.ofNat (high * 4 + low)]) := by
      simp [received, hrest, hout]
    refine always_writeGroups_succ (r := ⟨index, high, 6⟩) hsound (by simp) (by omega)
      (show (low * 256 + B) % 2 ^ 4 = B % 16 by omega) hreceived fun out hread => always_writeGroups_stop (by simp) ?_
    refine ⟨_, _, _, (List.append_nil out).symm ▸ hread,
      Aligned.four (index + 1) (by omega) (by omega), ?_⟩
    have hwhole : B / 16 * 16 + B % 16 = B := by omega
    rw [hwhole, hbyte]
  | @four index high low hhigh hlow =>
    change Always _ (writeGroups tables chance 12 ⟨index, low * 256 + B, 6 + 6⟩)
    have hrest : (high * 64 + (low * 4 + B / 64)) % 4 = B / 64 := by omega
    have hout : (high * 64 + (low * 4 + B / 64)) / 4 = high * 16 + low := by omega
    have hfirst : received ⟨index, high, 4⟩ (low * 4 + B / 64) =
        (⟨index + 1, B / 64, 2⟩, [UInt8.ofNat (high * 16 + low)]) := by
      simp [received, hrest, hout]
    have hwhole : B / 64 * 64 + B % 64 = B := by omega
    have hsecond : received ⟨index + 1, B / 64, 2⟩ (B % 64) = (⟨index + 1 + 1, 0, 0⟩, [byte]) := by
      simp [received, hwhole, hbyte, Nat.mod_one]
    -- the byte fills the second group, and the reader gets it whole
    refine always_writeGroups_succ (r := ⟨index, high, 4⟩) hsound (by simp) (by omega)
      (show (low * 256 + B) % 2 ^ 6 = B % 64 by omega) hfirst fun out hread => ?_
    refine always_writeGroups_succ (r := ⟨index + 1, B / 64, 2⟩) hsound (by simp) (by omega)
      (Nat.mod_one _) hsecond fun out' hread' => always_writeGroups_stop (by simp) ?_
    refine ⟨_, _, _, ?_, Aligned.none (index + 1 + 1), List.append_nil _⟩
    rw [List.append_nil]
    exact hread.append hread'

theorem Aligned.always_bytes (hsound : tables.Sound) (input : List UInt8) {w r : BitState}
    {pending : List UInt8} (h : Aligned w r pending) :
    Always (fun p => ∃ r' out pending', Reads (packedStep tables) r p.1 r' out ∧
      Aligned p.2 r' pending' ∧ out ++ pending' = pending ++ input)
      (writeBytes tables chance w input) := by
  induction input generalizing w r pending with
  | nil =>
    exact always_pure ⟨r, [], pending, Reads.nil, h, by rw [List.nil_append, List.append_nil]⟩
  | cons byte input ih =>
    unfold writeBytes
    refine (h.always_byte hsound byte).bind ?_
    rintro ⟨out, w'⟩ ⟨r', o, pending', hread, haligned, hout⟩
    refine (ih haligned).bind ?_
    rintro ⟨rest, w''⟩ ⟨r'', o', pending'', hread', haligned', hout'⟩
    refine always_pure ⟨r'', o ++ o', pending'', hread.append hread', haligned', ?_⟩
    rw [List.append_assoc, hout', ← List.append_assoc, hout, List.append_assoc, List.singleton_append]

/-- **The end of a write brings the reader the byte that was held and leaves nothing behind.** -/
theorem Aligned.always_end (hsound : tables.Sound) {w r : BitState} {pending : List UInt8}
    (h : Aligned w r pending) :
    Always (fun p => Reads (packedStep tables) r p.1 ⟨p.2, 0, 0⟩ pending) (writeEnd tables chance w) := by
  unfold writeEnd
  -- the rest in a group of its own, the marker, and padding of the next layout
  have hrest : ∀ (kept : Nat) {index high count : Nat} {group : UInt8} {o : List UInt8}, count < 8 →
      group.toNat < 64 → received ⟨index, high, count⟩ group.toNat = (⟨index + 1, 0, kept⟩, o) →
      Always (fun p => Reads (packedStep tables) ⟨index, high, count⟩ p.1 ⟨p.2, 0, 0⟩ o) (do
        let out ← writeGroup tables chance index group
        let next := (tables.table (index + 1)).layout
        let noise ← maybePad chance next
        pure (out ++ next.padMarker :: noise, index + 1)) := by
    intro kept index high count group o hcount hgroup hreceived
    have hout := always_writeGroup (s := ⟨index, high, count⟩) chance hsound hcount hgroup
    rw [hreceived] at hout
    refine hout.bind fun out hread => ?_
    refine (always_maybePad hsound ⟨index + 1, 0, 0⟩).bind fun noise hnoise => always_pure ?_
    have htail := hnoise.cons (packedStep_marker hsound ⟨index + 1, 0, kept⟩)
    have hall := hread.append htail
    rwa [List.append_nil, List.append_nil] at hall
  cases h with
  | none index =>
    rw [if_neg (by simp)]
    refine (always_maybePad hsound ⟨index, 0, 0⟩).bind fun noise hnoise => always_pure hnoise
  | @two index high low hhigh hlow =>
    rw [if_pos (by simp)]
    have hgroup : (UInt8.ofNat (low <<< (6 - 2)) &&& 0x3f).toNat = low * 16 := by
      rw [toNat_group_bits, Nat.shiftLeft_eq]
      omega
    refine hrest 4 (by decide) (by dsimp only; rw [hgroup]; omega) ?_
    dsimp only
    have hzero : (high * 64 + low * 16) % 16 = 0 := by omega
    have hout : (high * 64 + low * 16) / 16 = high * 4 + low := by omega
    rw [hgroup]
    simp [received, hzero, hout]
  | @four index high low hhigh hlow =>
    rw [if_pos (by simp)]
    have hgroup : (UInt8.ofNat (low <<< (6 - 4)) &&& 0x3f).toNat = low * 4 := by
      rw [toNat_group_bits, Nat.shiftLeft_eq]
      omega
    refine hrest 2 (by decide) (by dsimp only; rw [hgroup]; omega) ?_
    dsimp only
    have hzero : (high * 64 + low * 4) % 4 = 0 := by omega
    have hout : (high * 64 + low * 4) / 4 = high * 16 + low := by omega
    rw [hgroup]
    simp [received, hzero, hout]

theorem always_packedEncode (hsound : tables.Sound) (input : List UInt8) (index : Nat) :
    Always (fun p => Reads (packedStep tables) ⟨index, 0, 0⟩ p.1 ⟨p.2, 0, 0⟩ input)
      (packedEncode tables chance index input) := by
  unfold packedEncode
  refine ((Aligned.none index).always_bytes hsound input).bind ?_
  rintro ⟨out, w⟩ ⟨r, o, pending, hread, haligned, hout⟩
  refine (haligned.always_end hsound).bind ?_
  rintro ⟨rest, index'⟩ hrest
  rw [List.nil_append] at hout
  exact always_pure (hout ▸ hread.append hrest)

theorem always_packedEncodeAll (chance : Nat) (hsound : tables.Sound) (chunks : List (List UInt8)) (index : Nat) :
    Always (fun out => ∃ index', Reads (packedStep tables) ⟨index, 0, 0⟩ out ⟨index', 0, 0⟩ chunks.flatten)
      (packedEncodeAll tables chance index chunks) := by
  induction chunks generalizing index with
  | nil => exact always_pure ⟨index, Reads.nil⟩
  | cons chunk chunks ih =>
    unfold packedEncodeAll
    refine (always_packedEncode hsound chunk index).bind ?_
    rintro ⟨out, index'⟩ hread
    refine (ih index').bind ?_
    rintro rest ⟨index'', hrest⟩
    exact always_pure ⟨index'', hread.append hrest⟩

/-- A printable table: three bytes in four groups, and one byte in two with the marker behind them. -/
example : (packedDecode ⟨[⟨[], AssocMap.empty, asciiLayout⟩], List.cons_ne_nil _ _⟩ ⟨0, 0, 0⟩
    (ascii "RFg\njp?")).map Prod.snd = .ok [0x48, 0x69, 0xff, 0xab] := by
  decide +kernel

end Packed

/-! ### Both directions -/

/-- The tables that `build_table` returns for a layout that can be built. -/
def Returned (table : Table) : Prop :=
  ∃ values layout, Built layout ∧ buildTable values layout = .ok table

theorem Returned.sound {table : Table} (h : Returned table) : table.Sound := by
  obtain ⟨values, layout, hbuilt, htable⟩ := h
  exact buildTable_sound hbuilt.sound htable

/-- **The streams of the sudoku mask round trip in both directions.**  For tables returned by `build_table`
for any layouts, any writes, any chance of padding and any draws, the outputs of successive calls of either
encoder, in whatever pieces they arrive, are decoded to the bytes written. -/
theorem streams_round_trip (tables : Tables) (htables : ∀ table ∈ tables.list, Returned table)
    (chance : Nat) (chunks : List (List UInt8)) (draws : Draws) :
    (∃ out, ((encodeAll tables chance 0 chunks).run draws).1 = .ok out ∧
      ∀ pieces : List (List UInt8), pieces.flatten = out →
        ∃ decoder, runAll (hintStep tables) ⟨0, []⟩ pieces = .ok (decoder, chunks.flatten)) ∧
    ∀ pieces : List (List UInt8),
      pieces.flatten = ((packedEncodeAll tables chance 0 chunks).run draws).1 →
        ∃ decoder, runAll (packedStep tables) ⟨0, 0, 0⟩ pieces = .ok (decoder, chunks.flatten) := by
  have hsound : tables.Sound := fun table htable => (htables table htable).sound
  constructor
  · obtain ⟨out, index, hout, hread⟩ := always_encodeAll chance hsound chunks 0 draws
    refine ⟨out, hout, fun pieces hpieces => ⟨⟨index, []⟩, runAll_eq ?_⟩⟩
    rwa [hpieces]
  · intro pieces hpieces
    obtain ⟨index, hread⟩ := always_packedEncodeAll chance hsound chunks 0 draws
    refine ⟨⟨index, 0, 0⟩, runAll_eq ?_⟩
    rwa [hpieces]

/-- Two writes over the table of a printable layout, read byte by byte from the packed form. -/
theorem streams_round_trip_ascii :
    ∃ tables : Tables, (∀ table ∈ tables.list, Returned table) ∧
      ∃ decoder, runAll (packedStep tables) ⟨0, 0, 0⟩
        (((packedEncodeAll tables 50 0 [[0xab], [0x48, 0x69]]).run fun i => 7 * i).1.map fun b => [b]) =
          .ok (decoder, [0xab, 0x48, 0x69]) := by
  obtain ⟨table, htable⟩ := exists_buildTable asciiLayout_sound fun _ => 0
  have hreturned : ∀ t ∈ [table], Returned t := by
    intro t ht
    rw [List.mem_singleton.1 ht]
    exact ⟨_, _, .ascii, htable⟩
  refine ⟨⟨[table], List.cons_ne_nil _ _⟩, hreturned, ?_⟩
  apply (streams_round_trip ⟨[table], List.cons_ne_nil _ _⟩ hreturned 50 [[0xab], [0x48, 0x69]]
    fun i => 7 * i).2
  rw [← List.flatMap_def, List.flatMap_singleton']

end WutherCore.Finalmask
