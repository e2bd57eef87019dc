import WutherCore.Data.Except
import WutherCore.Data.Search
import WutherCore.Ruleset.Context

/-!
# MRS address sets

The `ipcidr` payload of a mihomo MRS file: closed address intervals, read by `MrsIpCidrSet.read`
and searched by `containsRange`.

The reader accepts only intervals in ascending order with a gap between neighbours
(`MrsIpCidrSet.read_ordered`); on such a list the binary search answers membership
(`containsRange_iff`).
-/

namespace WutherCore.Ruleset

open WutherCore.Text WutherCore.Net WutherCore.Data

/-- Closed intervals of addresses. -/
abbrev Ranges (w : Nat) := List (BitVec w × BitVec w)

/-- `MrsIpCidrSet`. -/
structure MrsIpCidrSet where
  v4Ranges : Ranges 32
  v6Ranges : Ranges 128

/-! ### Search -/

/-- Where an interval stands relative to an address. -/
def rangeCmp {w : Nat} (ip : BitVec w) (range : BitVec w × BitVec w) : Ordering :=
  if ip < range.1 then .gt else if ip > range.2 then .lt else .eq

/-- `contains_range`. -/
def containsRange {w : Nat} (ranges : Ranges w) (ip : BitVec w) : Bool :=
  binarySearchBy (rangeCmp ip) ranges

/-- The intervals are non-empty, ascending and apart from each other. -/
structure RangesOrdered {w : Nat} (ranges : Ranges w) : Prop where
  start_le : ∀ range ∈ ranges, range.1 ≤ range.2
  apart : ranges.Pairwise fun a b => a.2.toNat + 1 < b.1.toNat

theorem rangeCmp_eq_gt {w : Nat} {ip : BitVec w} {range : BitVec w × BitVec w} :
    rangeCmp ip range = .gt ↔ ip.toNat < range.1.toNat := by
  rw [rangeCmp, ← BitVec.lt_def]
  split_ifs <;> simp_all

theorem rangeCmp_eq_lt {w : Nat} {ip : BitVec w} {range : BitVec w × BitVec w}
    (h : range.1 ≤ range.2) : rangeCmp ip range = .lt ↔ range.2.toNat < ip.toNat := by
  rw [BitVec.le_def] at h
  simp only [rangeCmp, BitVec.lt_def, gt_iff_lt]
  split_ifs <;> simp <;> omega

theorem rangeCmp_eq_eq {w : Nat} {ip : BitVec w} {range : BitVec w × BitVec w} :
    rangeCmp ip range = .eq ↔ range.1 ≤ ip ∧ ip ≤ range.2 := by
  simp only [rangeCmp, BitVec.lt_def, gt_iff_lt, BitVec.le_def]
  split_ifs <;> simp <;> omega

theorem RangesOrdered.ordered {w : Nat} {ranges : Ranges w} (h : RangesOrdered ranges)
    (ip : BitVec w) : Ordered (rangeCmp ip) ranges := by
  intro i j hij
  rcases Nat.eq_or_lt_of_le hij with rfl | hlt
  · simp
  cases hj : ranges[j]? with
  | none => simp [cmpAt, hj]
  | some b =>
    obtain ⟨hjl, rfl⟩ := List.getElem?_eq_some_iff.1 hj
    have hil : i < ranges.length := by omega
    have hapart := List.pairwise_iff_getElem.1 h.apart i j hil hjl hlt
    have hi_le := h.start_le _ (List.getElem_mem hil)
    have hj_le := h.start_le _ (List.getElem_mem hjl)
    simp only [cmpAt, List.getElem?_eq_getElem hil, List.getElem?_eq_getElem hjl, Option.map_some,
      Option.getD_some, ne_eq, rangeCmp_eq_gt, rangeCmp_eq_lt hi_le, rangeCmp_eq_lt hj_le]
    rw [BitVec.le_def] at hi_le hj_le
    omega

/-- **On ordered intervals the search answers membership.** -/
theorem containsRange_iff {w : Nat} {ranges : Ranges w} (h : RangesOrdered ranges)
    (ip : BitVec w) :
    containsRange ranges ip = true ↔ ∃ range ∈ ranges, range.1 ≤ ip ∧ ip ≤ range.2 := by
  rw [containsRange, binarySearchBy_iff (h.ordered ip)]
  simp only [rangeCmp_eq_eq]

/-! ### The reader -/

/-- `mrs_error`. -/
def mrsError (message : String) : ParseError := .other s!"MRS: {message}"

/-- `read_full`. -/
def readFull (n : Nat) (r : List UInt8) : Except ParseError (List UInt8 × List UInt8) :=
  if n ≤ r.length then .ok (r.take n, r.drop n)
  else .error (.other s!"MRS read_exact failed ({n} bytes): failed to fill whole buffer")

/-- `read_bounded_count`: a big-endian `i64` from 1 to the limit. -/
def readBoundedCount (r : List UInt8) : Except ParseError (Nat × List UInt8) := do
  let (buf, r) ← readFull 8 r
  let raw := ofBytesBE buf
  if raw = 0 ∨ 2 ^ 63 ≤ raw then .error (mrsError "range_count must be positive")
  else if raw > 1024 * 1024 then
    .error (mrsError s!"range_count {raw} exceeds limit {1024 * 1024}")
  else .ok (raw, r)

/-- `unmap`: an address of 16 bytes, IPv4 when it is IPv4-mapped. -/
def unmap (b : List UInt8) : IpAddr :=
  let v6 := BitVec.ofNat 128 (ofBytesBE b)
  match toIpv4Mapped v6 with
  | some v4 => .v4 v4
  | none => .v6 v6

/-- `validate_range`. -/
def validateRange {w : Nat} (start stop : BitVec w) (previousEnd : Option (BitVec w))
    (family : String) : Except ParseError Unit :=
  if start > stop then .error (mrsError s!"{family} range start is after its end")
  else
    match previousEnd with
    | none => .ok ()
    | some previous =>
        if start ≤ previous ∨ (previous.toNat + 1 < 2 ^ 128 ∧ start.toNat = previous.toNat + 1) then
          .error (mrsError s!"{family} ranges are unordered, overlapping, or contiguous")
        else .ok ()

/-- The ranges read so far, and whether an IPv6 range was among them. -/
structure RangeState where
  v4 : Ranges 32 := []
  v6 : Ranges 128 := []
  seenV6 : Bool := false

/-- One round of the loop of `read`: a pair of addresses. -/
def readRange (state : RangeState) (r : List UInt8) : Except ParseError (RangeState × List UInt8) := do
  let (buf, r) ← readFull 16 r
  let start := unmap buf
  let (buf, r) ← readFull 16 r
  let stop := unmap buf
  match start, stop with
  | .v4 a, .v4 b =>
      if state.seenV6 then .error (mrsError "IPv4 range appears after an IPv6 range")
      else
        validateRange a b (state.v4.getLast?.map (·.2)) "IPv4"
        return ({ state with v4 := state.v4 ++ [(a, b)] }, r)
  | .v6 a, .v6 b =>
      validateRange a b (state.v6.getLast?.map (·.2)) "IPv6"
      return ({ state with v6 := state.v6 ++ [(a, b)], seenV6 := true }, r)
  | _, _ => .error (mrsError "range endpoints use different address families")

/-- The loop of `read`. -/
def readRanges : Nat → RangeState → List UInt8 → Except ParseError (RangeState × List UInt8)
  | 0, state, r => .ok (state, r)
  | count + 1, state, r => do
      let (state, r) ← readRange state r
      readRanges count state r

/-- `MrsIpCidrSet::read`. -/
def MrsIpCidrSet.read (r : List UInt8) : Except ParseError (MrsIpCidrSet × List UInt8) := do
  let (version, r) ← readFull 1 r
  if version ≠ [1] then
    .error (.unsupportedBinary "MRS ipcidr_set version != 1（不兼容的 mihomo MRS 版本）")
  else
    let (count, r) ← readBoundedCount r
    let (state, r) ← readRanges count {} r
    return (⟨state.v4, state.v6⟩, r)

/-! ### What the reader accepts -/

theorem validateRange_ok {w : Nat} (hw : w ≤ 128) {start stop : BitVec w}
    {previousEnd : Option (BitVec w)} {family : String}
    (h : validateRange start stop previousEnd family = .ok ()) :
    start ≤ stop ∧ ∀ previous ∈ previousEnd, previous.toNat + 1 < start.toNat := by
  unfold validateRange at h
  split_ifs at h with hlt
  refine ⟨by simpa using hlt, ?_⟩
  rintro previous rfl
  simp only at h
  split_ifs at h with hbad
  have hstart : start.toNat < 2 ^ 128 := start.isLt.trans_le (Nat.pow_le_pow_right (by decide) hw)
  rw [BitVec.le_def] at hbad
  omega

theorem RangesOrdered.append {w : Nat} (hw : w ≤ 128) {ranges : Ranges w}
    (h : RangesOrdered ranges) {start stop : BitVec w} {family : String}
    (hok : validateRange start stop (ranges.getLast?.map (·.2)) family = .ok ()) :
    RangesOrdered (ranges ++ [(start, stop)]) := by
  obtain ⟨hle, hprev⟩ := validateRange_ok hw hok
  refine ⟨?_, ?_⟩
  · intro range hr
    rcases List.mem_append.1 hr with hr | hr
    · exact h.start_le range hr
    · rw [List.mem_singleton.1 hr]
      exact hle
  · rw [List.pairwise_append]
    refine ⟨h.apart, by simp, ?_⟩
    intro a ha b hb
    rw [List.mem_singleton.1 hb]
    -- the last range before the new one is at or after `a`
    obtain ⟨init, last, rfl⟩ : ∃ init last, ranges = init ++ [last] :=
      ⟨_, _, (List.dropLast_append_getLast (List.ne_nil_of_mem ha)).symm⟩
    have hlast := hprev last.2 (by simp)
    rcases List.mem_append.1 ha with ha' | ha'
    · have := (List.pairwise_append.1 h.apart).2.2 a ha' last (by simp)
      have hll := h.start_le last (by simp)
      rw [BitVec.le_def] at hll
      exact (by omega : a.2.toNat + 1 < start.toNat)
    · rw [List.mem_singleton.1 ha']
      exact hlast

theorem readRange_ordered {state state' : RangeState} {r r' : List UInt8}
    (h4 : RangesOrdered state.v4) (h6 : RangesOrdered state.v6)
    (h : readRange state r = .ok (state', r')) :
    RangesOrdered state'.v4 ∧ RangesOrdered state'.v6 := by
  unfold readRange at h
  obtain ⟨⟨buf, r1⟩, -, h⟩ := bind_eq_ok.1 h
  obtain ⟨⟨buf2, r2⟩, -, h⟩ := bind_eq_ok.1 h
  simp only at h
  split at h
  · split_ifs at h with hseen
    obtain ⟨_, hok, h⟩ := bind_eq_ok.1 h
    cases h
    exact ⟨h4.append (by decide) hok, h6⟩
  · obtain ⟨_, hok, h⟩ := bind_eq_ok.1 h
    cases h
    exact ⟨h4, h6.append (by decide) hok⟩
  · cases h

theorem readRanges_ordered (count : Nat) {state state' : RangeState} {r r' : List UInt8}
    (h4 : RangesOrdered state.v4) (h6 : RangesOrdered state.v6)
    (h : readRanges count state r = .ok (state', r')) :
    RangesOrdered state'.v4 ∧ RangesOrdered state'.v6 := by
  induction count generalizing state r with
  | zero =>
    cases h
    exact ⟨h4, h6⟩
  | succ count ih =>
    obtain ⟨⟨state1, r1⟩, h1, h⟩ := bind_eq_ok.1 h
    obtain ⟨h4', h6'⟩ := readRange_ordered h4 h6 h1
    exact ih h4' h6' h

/-- **The reader accepts only ordered intervals.** -/
theorem MrsIpCidrSet.read_ordered {r r' : List UInt8} {set : MrsIpCidrSet}
    (h : MrsIpCidrSet.read r = .ok (set, r')) :
    RangesOrdered set.v4Ranges ∧ RangesOrdered set.v6Ranges := by
  obtain ⟨⟨version, r1⟩, -, h⟩ := bind_eq_ok.1 h
  simp only at h
  split_ifs at h
  obtain ⟨⟨count, r2⟩, -, h⟩ := bind_eq_ok.1 h
  obtain ⟨⟨state, r3⟩, hstate, h⟩ := bind_eq_ok.1 h
  cases h
  exact readRanges_ordered count ⟨by simp, by simp⟩ ⟨by simp, by simp⟩ hstate

/-! ### Lookup -/

/-- `MrsIpCidrSet::contains`. -/
def MrsIpCidrSet.contains (set : MrsIpCidrSet) : IpAddr → Bool
  | .v4 ip => containsRange set.v4Ranges ip
  | .v6 ip => containsRange set.v6Ranges ip

/-- The stored ranges in the order of the file: those of IPv4 come first. -/
def MrsIpCidrSet.ranges (set : MrsIpCidrSet) : List (IpAddr × IpAddr) :=
  set.v4Ranges.map (fun range => (.v4 range.1, .v4 range.2)) ++
    set.v6Ranges.map fun range => (.v6 range.1, .v6 range.2)

/-- The address is of the family of the range, and lies in it. -/
def inRange : IpAddr → IpAddr × IpAddr → Bool
  | .v4 ip, (.v4 start, .v4 stop) => start ≤ ip && ip ≤ stop
  | .v6 ip, (.v6 start, .v6 stop) => start ≤ ip && ip ≤ stop
  | _, _ => false

/-- The linear scan over the stored ranges. -/
def MrsIpCidrSet.scan (set : MrsIpCidrSet) (ip : IpAddr) : Bool := set.ranges.any (inRange ip)

theorem any_map_range {w : Nat} (ranges : Ranges w) (ip : BitVec w)
    {f : BitVec w × BitVec w → IpAddr × IpAddr} {address : IpAddr}
    (hf : ∀ range, inRange address (f range) = (range.1 ≤ ip && ip ≤ range.2)) :
    (ranges.map f).any (inRange address) = true ↔ ∃ range ∈ ranges, range.1 ≤ ip ∧ ip ≤ range.2 := by
  simp [hf]

theorem any_map_other {w : Nat} (ranges : Ranges w) (f : BitVec w × BitVec w → IpAddr × IpAddr)
    (address : IpAddr) (hf : ∀ range, inRange address (f range) = false) :
    (ranges.map f).any (inRange address) = false := by
  simp [hf]

/-- **The ranges that are read are in order and apart from each other in each family, and the lookup
finds an address exactly if the linear scan does.** -/
theorem MrsIpCidrSet.read_contains {r r' : List UInt8} {set : MrsIpCidrSet}
    (h : MrsIpCidrSet.read r = .ok (set, r')) :
    RangesOrdered set.v4Ranges ∧ RangesOrdered set.v6Ranges ∧
      ∀ ip, set.contains ip = set.scan ip := by
  obtain ⟨h4, h6⟩ := MrsIpCidrSet.read_ordered h
  refine ⟨h4, h6, fun ip => ?_⟩
  rw [Bool.eq_iff_iff]
  cases ip with
  | v4 ip =>
    have hother := any_map_other set.v6Ranges (fun range => (.v6 range.1, .v6 range.2)) (.v4 ip)
      fun _ => rfl
    rw [contains, containsRange_iff h4, scan, ranges, List.any_append, hother, Bool.or_false]
    exact (any_map_range set.v4Ranges ip fun _ => rfl).symm
  | v6 ip =>
    have hother := any_map_other set.v4Ranges (fun range => (.v4 range.1, .v4 range.2)) (.v6 ip)
      fun _ => rfl
    rw [contains, containsRange_iff h6, scan, ranges, List.any_append, hother, Bool.false_or]
    exact (any_map_range set.v6Ranges ip fun _ => rfl).symm

/-- A file with the IPv4 range from 10.0.0.0 to 10.0.0.255 and the IPv6 range of the loopback
address. -/
def sampleIpCidrFile : List UInt8 :=
  let mapped := List.replicate 10 0 ++ [255, 255, 10, 0, 0]
  let loopback := List.replicate 15 0 ++ [1]
  [1, 0, 0, 0, 0, 0, 0, 0, 2] ++ mapped ++ [0] ++ mapped ++ [255] ++ loopback ++ loopback

theorem MrsIpCidrSet.read_contains_sample :
    ∃ set rest, MrsIpCidrSet.read sampleIpCidrFile = .ok (set, rest) ∧
      (set.contains (.v4 0x0A000007) = true ∧ set.contains (.v4 0x0A000107) = false ∧
        set.contains (.v6 1) = true) ∧
      RangesOrdered set.v4Ranges ∧ RangesOrdered set.v6Ranges ∧
        ∀ ip, set.contains ip = set.scan ip := by
  have hrun : (MrsIpCidrSet.read sampleIpCidrFile).toOption.any (fun result =>
      result.1.contains (.v4 0x0A000007) == true && result.1.contains (.v4 0x0A000107) == false &&
        result.1.contains (.v6 1) == true) = true := by
    decide +kernel
  obtain ⟨⟨set, rest⟩, hread, hfound⟩ := (Option.any_eq_true _ _).1 hrun
  have hok : MrsIpCidrSet.read sampleIpCidrFile = .ok (set, rest) := by
    cases h : MrsIpCidrSet.read sampleIpCidrFile with
    | error => rw [h] at hread; cases hread
    | ok result => rw [h] at hread; cases hread; rfl
  simp only [Bool.and_eq_true, beq_iff_eq] at hfound
  exact ⟨set, rest, hok, ⟨hfound.1.1, hfound.1.2, hfound.2⟩, read_contains hok⟩

end WutherCore.Ruleset
