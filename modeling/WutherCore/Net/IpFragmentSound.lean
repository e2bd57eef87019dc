import Mathlib.Data.FinEnum
import Mathlib.Tactic.IntervalCases
import WutherCore.Net.IpFragment

/-!
# The fragments of a packet, put together

* `fragmentIpPacket_terminates`: the loops end.
* `fragmentLoop_cut`: the fragments of a loop are the pieces of a cut of the payload.
* `Ipv4Made`, `Ipv6Made`: what a receiver finds in a fragment.
* `fragmentIpPacket_reversible_iff`: the fragments of a packet give back the packet, unless it is a bare
  IPv4 header that is larger than the MTU, for which there are none, or an IPv4 packet that fits and has a
  wrong checksum.
-/

namespace WutherCore.Net

open WutherCore.Text WutherCore.Data
open WutherCore.Young (IoError invalidData u16Bytes u16OfBytes u32Bytes)

/-! ### The loops end -/

theorem copiedOptionsLoop_isSome {rounds : Nat} {rest : List UInt8} (copied : List UInt8)
    (h : rest.length < rounds) :
    ∃ r, copiedOptionsLoop rounds rest copied = some r := by
  induction rounds generalizing rest copied with
  | zero => omega
  | succ rounds ih =>
    cases rest with
    | nil => exact ⟨_, rfl⟩
    | cons kind tail =>
      rw [List.length_cons] at h
      rw [copiedOptionsLoop]
      by_cases hend : kind = 0
      · rw [if_pos hend]
        exact ⟨_, rfl⟩
      by_cases hnop : kind = 1
      · rw [if_neg hend, if_pos hnop]
        exact ih copied (by omega)
      rw [if_neg hend, if_neg hnop]
      cases tail.head? with
      | none => exact ⟨_, rfl⟩
      | some len =>
        dsimp only
        by_cases hlen : len.toNat < 2 ∨ (kind :: tail).length < len.toNat
        · rw [if_pos hlen]
          exact ⟨_, rfl⟩
        · rw [if_neg hlen]
          apply ih
          rw [List.length_drop, List.length_cons]
          omega

theorem extensionsLoop_isSome {packet : List UInt8} {rounds : Nat} (kind : UInt8) {cursor : Nat}
    (h : packet.length < cursor + rounds) (hpos : 0 < rounds) :
    ∃ r, extensionsLoop packet rounds kind cursor = some r := by
  induction rounds generalizing kind cursor with
  | zero => omega
  | succ rounds ih =>
    rw [extensionsLoop]
    split_ifs with hkind htruncated hlen
    · exact ⟨_, rfl⟩
    · exact ⟨_, rfl⟩
    · have hmin : 8 ≤ extensionLen packet cursor := by
        unfold extensionLen
        omega
      obtain ⟨r, hr⟩ : ∃ r, extensionsLoop packet rounds (byteAt packet cursor)
          (cursor + extensionLen packet cursor) = some r := ih _ (by omega) (by omega)
      exact ⟨_, by dsimp only; rw [hr]; rfl⟩
    · exact ⟨_, rfl⟩

/-- What the fragments of a loop need: every one takes some of the data, all but the last one a multiple
of eight bytes. -/
def Takes (total : Nat) (part : Nat → Except IoError (List UInt8 × Nat)) : Prop :=
  ∀ offset f take, offset < total → part offset = .ok (f, take) →
    0 < take ∧ offset + take ≤ total ∧ (offset + take < total → 8 ∣ take)

section Loop

variable {total : Nat} {part : Nat → Except IoError (List UInt8 × Nat)} {fragments : List (List UInt8)}
  {f : List UInt8}

theorem fragmentLoop_isSome (hpart : Takes total part) {rounds offset : Nat}
    (h : total < offset + rounds) (hle : offset ≤ total) :
    ∃ r, fragmentLoop total part rounds offset = some r := by
  induction rounds generalizing offset with
  | zero => omega
  | succ rounds ih =>
    rw [fragmentLoop]
    split_ifs with hoffset
    · cases hp : part offset with
      | error e => exact ⟨_, rfl⟩
      | ok res =>
        obtain ⟨f, take⟩ := res
        obtain ⟨htake, hsum, -⟩ := hpart offset f take hoffset hp
        obtain ⟨r, hr⟩ : ∃ r, fragmentLoop total part rounds (offset + take) = some r :=
          ih (by omega) hsum
        exact ⟨r.map (f :: ·), by simp only [hr, Option.map_some]⟩
    · exact ⟨_, rfl⟩

theorem fragmentLoop_succ_eq_ok {rounds offset : Nat} (hoffset : offset < total)
    (h : fragmentLoop total part (rounds + 1) offset = some (.ok fragments)) :
    ∃ f take rest, part offset = .ok (f, take) ∧ fragments = f :: rest ∧
      fragmentLoop total part rounds (offset + take) = some (.ok rest) := by
  rw [fragmentLoop, if_pos hoffset] at h
  cases hp : part offset with
  | error e => simp [hp] at h
  | ok res =>
    obtain ⟨f, take⟩ := res
    simp only [hp, Option.map_eq_some_iff] at h
    obtain ⟨result, hresult, heq⟩ := h
    cases result with
    | error e => cases heq
    | ok rest =>
      cases heq
      exact ⟨f, take, rest, rfl, rfl, hresult⟩

/-- Every fragment is that of an offset that is a multiple of eight; the ones after the first are not
those of the offset at which the loop has started. -/
theorem fragmentLoop_mem (hpart : Takes total part) {rounds offset : Nat} (halign : 8 ∣ offset)
    (h : fragmentLoop total part rounds offset = some (.ok fragments)) :
    (∀ f ∈ fragments, ∃ o take, offset ≤ o ∧ o < total ∧ 8 ∣ o ∧ part o = .ok (f, take)) ∧
      ∀ f ∈ fragments.tail, ∃ o take, offset < o ∧ o < total ∧ 8 ∣ o ∧ part o = .ok (f, take) := by
  induction rounds generalizing offset fragments with
  | zero => cases h
  | succ rounds ih =>
    by_cases hoffset : offset < total
    · obtain ⟨f, take, rest, hp, rfl, hrest⟩ := fragmentLoop_succ_eq_ok hoffset h
      obtain ⟨htake, hsum, hmult⟩ := hpart offset f take hoffset hp
      have hlater : ∀ g ∈ rest, ∃ o take, offset < o ∧ o < total ∧ 8 ∣ o ∧ part o = .ok (g, take) := by
        intro g hg
        by_cases hend : offset + take < total
        · obtain ⟨o, take', hle, ho, hdvd, hpo⟩ :=
            (ih (Nat.dvd_add halign (hmult hend)) hrest).1 g hg
          exact ⟨o, take', by omega, ho, hdvd, hpo⟩
        · -- nothing is left
          cases rounds with
          | zero => cases hrest
          | succ rounds =>
            rw [fragmentLoop, if_neg hend] at hrest
            cases hrest
            cases hg
      refine ⟨?_, hlater⟩
      intro g hg
      rcases List.mem_cons.1 hg with rfl | hg
      · exact ⟨offset, take, le_refl _, hoffset, halign, hp⟩
      · obtain ⟨o, take', hlt, ho, hdvd, hpo⟩ := hlater g hg
        exact ⟨o, take', hlt.le, ho, hdvd, hpo⟩
    · rw [fragmentLoop, if_neg hoffset] at h
      cases h
      exact ⟨by simp, by simp⟩

/-- **The fragments of a loop are the pieces of a cut of the data.** -/
theorem fragmentLoop_cut {κ : Type*} {data : List UInt8} {piece : List UInt8 → Piece κ UInt8} {key : κ}
    (head : Nat → List UInt8) (hpart : Takes data.length part)
    (hpiece : ∀ offset f take, offset < data.length → 8 ∣ offset → part offset = .ok (f, take) →
      piece f = ⟨key, head offset, offset, decide (offset + take < data.length),
        slice data offset (offset + take)⟩)
    {rounds offset : Nat} (halign : offset < data.length → 8 ∣ offset)
    (h : fragmentLoop data.length part rounds offset = some (.ok fragments)) :
    ∃ parts, fragments.map piece = Piece.cut key head false offset parts ∧
      parts.flatten = data.drop offset ∧ (parts = [] ↔ data.length ≤ offset) := by
  induction rounds generalizing offset fragments with
  | zero => cases h
  | succ rounds ih =>
    by_cases hoffset : offset < data.length
    · obtain ⟨f, take, rest, hp, rfl, hrest⟩ := fragmentLoop_succ_eq_ok hoffset h
      obtain ⟨htake, hsum, hmult⟩ := hpart offset f take hoffset hp
      obtain ⟨parts, hcut, hflat, hnil⟩ :=
        ih (fun hend => Nat.dvd_add (halign hoffset) (hmult hend)) hrest
      have hlen : (slice data offset (offset + take)).length = take := by
        rw [slice_length hsum]
        omega
      have hmore : (!parts.isEmpty || false) = decide (offset + take < data.length) := by
        rw [Bool.or_false, Bool.eq_iff_iff, Bool.not_eq_true', decide_eq_true_eq, ← Nat.not_le, ← hnil,
          ← Bool.not_eq_true, List.isEmpty_iff]
      refine ⟨slice data offset (offset + take) :: parts, ?_, ?_, by simp; omega⟩
      · rw [List.map_cons, Piece.cut, hlen, hmore, hcut, hpiece offset f take hoffset (halign hoffset) hp]
      · rw [List.flatten_cons, hflat, slice, ← List.drop_drop, Nat.add_sub_cancel_left,
          List.take_append_drop]
    · rw [fragmentLoop, if_neg hoffset] at h
      cases h
      exact ⟨[], rfl, by simp; omega, by simp; omega⟩

end Loop

/-! ### Checksums -/

/-- The sum of the words of a header. -/
def wordSum : List UInt8 → Nat
  | [] => 0
  | [a] => a.toNat * 256
  | a :: b :: rest => a.toNat * 256 + b.toNat + wordSum rest

theorem checksumLoop_spec (sum : Nat) (header : List UInt8) (h : sum ≤ 0xffff) :
    checksumLoop sum header ≤ 0xffff ∧
      checksumLoop sum header % 0xffff = (sum + wordSum header) % 0xffff ∧
      (0 < sum + wordSum header → 0 < checksumLoop sum header) := by
  induction sum, header using checksumLoop.induct with
  | case1 sum => simp [checksumLoop, wordSum, h]
  | case2 sum a =>
    have ha := a.toNat_lt
    simp only [checksumLoop, wordSum, carry]
    split_ifs <;> omega
  | case3 sum a b rest ih =>
    have ha := a.toNat_lt
    have hb := b.toNat_lt
    have hcarry : carry (sum + (a.toNat * 256 + b.toNat)) ≤ 0xffff ∧
        carry (sum + (a.toNat * 256 + b.toNat)) % 0xffff =
          (sum + (a.toNat * 256 + b.toNat)) % 0xffff ∧
        (0 < sum + (a.toNat * 256 + b.toNat) → 0 < carry (sum + (a.toNat * 256 + b.toNat))) := by
      unfold carry
      split_ifs <;> omega
    obtain ⟨hle, hmod, hpos⟩ := ih hcarry.1
    rw [checksumLoop, wordSum]
    refine ⟨hle, ?_, ?_⟩ <;> omega

theorem ipv4Checksum_eq_zero {header : List UInt8} (hpos : 0 < wordSum header)
    (h : wordSum header % 0xffff = 0) : ipv4Checksum header = 0 := by
  obtain ⟨hle, hmod, hnz⟩ := checksumLoop_spec 0 header (by omega)
  unfold ipv4Checksum
  omega

theorem ipv4Checksum_mod {header : List UInt8} (hpos : 0 < wordSum header) :
    ipv4Checksum header < 0xffff ∧ (wordSum header + ipv4Checksum header) % 0xffff = 0 := by
  obtain ⟨hle, hmod, hnz⟩ := checksumLoop_spec 0 header (by omega)
  unfold ipv4Checksum
  omega

/-! ### IPv4 fragments -/

theorem exists_ten {l : List UInt8} (h : 10 ≤ l.length) :
    ∃ b0 b1 b2 b3 b4 b5 b6 b7 b8 b9 rest,
      l = b0 :: b1 :: b2 :: b3 :: b4 :: b5 :: b6 :: b7 :: b8 :: b9 :: rest := by
  match l, h with
  | b0 :: b1 :: b2 :: b3 :: b4 :: b5 :: b6 :: b7 :: b8 :: b9 :: rest, _ =>
    exact ⟨b0, b1, b2, b3, b4, b5, b6, b7, b8, b9, rest, rfl⟩

/-- What a receiver finds in a fragment of an IPv4 packet. -/
structure Ipv4Made (packet options data : List UInt8) (flags : UInt16) (fragment : List UInt8) : Prop where
  length : fragment.length = 20 + options.length + data.length
  version : ipVersion fragment = 4
  headerLen : ipv4HeaderLen fragment = 20 + options.length
  flags_eq : beAt 2 fragment 6 = flags.toNat
  options_eq : ipv4Options fragment = options
  data_eq : fragment.drop (20 + options.length) = data
  key : (ipv4Piece fragment).key = (ipv4Piece packet).key
  base : beAt 2 fragment 6 / 2 ^ 14 = beAt 2 packet 6 / 2 ^ 14 → ipVersion packet = 4 →
    ipv4Base fragment = ipv4Base packet
  checksum : Ipv4ChecksumValid fragment

theorem ipv4HeaderLen_byte {k : Nat} (h : k ≤ 15) :
    ((0x40 ||| UInt8.ofNat k) &&& 0x0f).toNat = k ∧ (0x40 ||| UInt8.ofNat k).toNat / 16 = 4 ∧
      (0x40 ||| UInt8.ofNat k) &&& 0xf0 = 0x40 := by
  interval_cases k <;> decide

theorem versionByte_four {b : UInt8} (h : b.toNat / 16 = 4) : b &&& 0xf0 = 0x40 := by
  revert h b
  decide +kernel

theorem ipv4Made_build {packet options : List UInt8} (data : List UInt8) (flags : UInt16)
    (hpacket : 20 ≤ packet.length) (hmult : options.length % 4 = 0) (hoptions : options.length ≤ 40) :
    Ipv4Made packet options data flags (buildIpv4Fragment packet options data flags) := by
  obtain ⟨b0, b1, b2, b3, b4, b5, b6, b7, b8, b9, rest, rfl⟩ := exists_ten (l := packet) (by omega)
  obtain ⟨b10, b11, b12, b13, b14, b15, b16, b17, b18, b19, rest, rfl⟩ :=
    exists_ten (l := rest) (by simp only [List.length_cons] at hpacket; omega)
  -- the header with a checksum
  set k := (20 + options.length) / 4 with hk
  set total := 20 + options.length + data.length with htot
  set header := fun c : List UInt8 =>
    (0x40 ||| UInt8.ofNat k) :: b1 :: (toBytesBE 2 total ++ (b4 :: b5 :: (u16Bytes flags ++ (b8 :: b9 ::
      (c ++ (b12 :: b13 :: b14 :: b15 :: b16 :: b17 :: b18 :: b19 :: options)))))) with hheader
  have hlen : ∀ c : List UInt8, c.length = 2 → (header c).length = 20 + options.length := by
    intro c hc
    simp only [hheader, List.length_cons, List.length_append, toBytesBE_length, Young.u16Bytes_length, hc]
    omega
  set sum := ipv4Checksum (header [0, 0]) with hsum
  have hbuild : buildIpv4Fragment (b0 :: b1 :: b2 :: b3 :: b4 :: b5 :: b6 :: b7 :: b8 :: b9 :: b10 :: b11 ::
      b12 :: b13 :: b14 :: b15 :: b16 :: b17 :: b18 :: b19 :: rest) options data flags =
      header (toBytesBE 2 sum) ++ data := by
    have hfirst : buildIpv4Fragment (b0 :: b1 :: b2 :: b3 :: b4 :: b5 :: b6 :: b7 :: b8 :: b9 :: b10 ::
        b11 :: b12 :: b13 :: b14 :: b15 :: b16 :: b17 :: b18 :: b19 :: rest) options data flags =
        putBE 2 (header [0, 0] ++ data) 10
          (ipv4Checksum ((header [0, 0] ++ data).take (20 + options.length))) := rfl
    rw [hfirst, List.take_left' (hlen [0, 0] rfl)]
    rfl
  have hkle : k ≤ 15 := by omega
  have hk4 : k * 4 = 20 + options.length := by omega
  obtain ⟨hnibble, hversion, hmask⟩ := ipv4HeaderLen_byte hkle
  rw [hbuild]
  have hhlen : ipv4HeaderLen (header (toBytesBE 2 sum) ++ data) = 20 + options.length := by
    rw [← hk4, ← hnibble]
    rfl
  refine ⟨?_, hversion, hhlen, ?_, ?_, ?_, rfl, ?_, ?_⟩
  · rw [List.length_append, hlen _ (toBytesBE_length ..)]
  · show ofBytesBE (u16Bytes flags) = flags.toNat
    exact ofBytesBE_toBytesBE flags.toNat_lt
  · have hsplit : header (toBytesBE 2 sum) ++ data = (header (toBytesBE 2 sum)).take 20 ++
        (options ++ data) := rfl
    rw [ipv4Options, hhlen, hsplit]
    exact slice_middle rfl rfl
  · rw [List.drop_left' (hlen _ (toBytesBE_length ..))]
  · intro hflags hv
    have hbyte : (0x40 ||| UInt8.ofNat k) &&& 0xf0 = b0 &&& 0xf0 := by
      rw [hmask]
      exact (versionByte_four hv).symm
    unfold ipv4Base
    rw [hflags]
    exact congrArg (· :: _) hbyte
  · rw [Ipv4ChecksumValid, hhlen, List.take_left' (hlen _ (toBytesBE_length ..))]
    have hpos : 0 < wordSum (header [0, 0]) := by
      have hnonzero : 0 < (0x40 ||| UInt8.ofNat k).toNat := by omega
      simp only [hheader, wordSum]
      omega
    obtain ⟨hlt, hmod⟩ := ipv4Checksum_mod hpos
    rw [← hsum] at hlt hmod
    have hwords : wordSum (header (toBytesBE 2 sum)) = wordSum (header [0, 0]) + sum := by
      simp only [hheader, toBytesBE_two, u16Bytes, List.cons_append, List.nil_append, wordSum,
        UInt8.toNat_ofNat', UInt8.toNat_zero]
      omega
    exact ipv4Checksum_eq_zero (by omega) (by rw [hwords, hmod])

/-- The options that are copied are those with the copy bit, and are no longer than all of them. -/
theorem copiedOptionsLoop_eq_ok {rounds : Nat} {rest copied out : List UInt8}
    (h : copiedOptionsLoop rounds rest copied = some (.ok out)) :
    ∃ all, splitOptions rounds rest = some all ∧
      out = copied ++ (all.filter fun o => byteAt o 0 &&& 0x80 ≠ 0).flatten ∧
      out.length ≤ copied.length + rest.length := by
  induction rounds generalizing rest copied with
  | zero => cases h
  | succ rounds ih =>
    cases rest with
    | nil =>
      cases h
      exact ⟨[], rfl, by simp, by simp⟩
    | cons kind tail =>
      rw [copiedOptionsLoop] at h
      rw [splitOptions]
      by_cases hend : kind = 0
      · rw [if_pos hend] at h ⊢
        cases h
        exact ⟨[], rfl, by simp, by simp⟩
      by_cases hnop : kind = 1
      · rw [if_neg hend, if_pos hnop] at h ⊢
        obtain ⟨all, hall, hout, hlen⟩ := ih h
        refine ⟨[kind] :: all, by rw [hall]; rfl, ?_, by simp; omega⟩
        have hcopy : ¬byteAt [kind] 0 &&& 0x80 ≠ 0 := by
          rw [hnop]
          decide
        rw [List.filter_cons_of_neg (by simpa using hcopy), hout]
      rw [if_neg hend, if_neg hnop] at h ⊢
      cases hhead : tail.head? with
      | none => simp [hhead] at h
      | some len =>
        simp only [hhead] at h ⊢
        by_cases hbad : len.toNat < 2 ∨ (kind :: tail).length < len.toNat
        · rw [if_pos hbad] at h
          cases h
        · rw [if_neg hbad] at h ⊢
          obtain ⟨all, hall, hout, hlen⟩ := ih h
          have hfirst : byteAt ((kind :: tail).take len.toNat) 0 = kind := by
            obtain ⟨n, hn⟩ : ∃ n, len.toNat = n + 1 := ⟨len.toNat - 1, by omega⟩
            rw [hn]
            rfl
          refine ⟨(kind :: tail).take len.toNat :: all, by rw [hall]; rfl, ?_, ?_⟩
          · by_cases hcopy : kind &&& 0x80 ≠ 0
            · rw [List.filter_cons_of_pos (by simpa [hfirst] using hcopy), hout, if_pos hcopy]
              simp
            · rw [List.filter_cons_of_neg (by simpa [hfirst] using hcopy), hout, if_neg hcopy]
          · rw [List.length_drop] at hlen
            split_ifs at hlen
            · rw [List.length_append, List.length_take] at hlen
              omega
            · omega

theorem copiedIpv4Options_eq_ok {options copied : List UInt8}
    (h : copiedIpv4Options options = some (.ok copied)) (hmult : options.length % 4 = 0) :
    copiedOnly options = some copied ∧ copied.length % 4 = 0 ∧ copied.length ≤ options.length := by
  obtain ⟨result, hresult, heq⟩ := Option.map_eq_some_iff.1 h
  cases result with
  | error e => cases heq
  | ok out =>
    cases heq
    obtain ⟨all, hall, hout, hlen⟩ := copiedOptionsLoop_eq_ok hresult
    rw [List.nil_append] at hout
    refine ⟨?_, ?_, ?_⟩
    · rw [copiedOnly, hall, hout]
      rfl
    · simp only [padOptions, List.length_append, List.length_replicate]
      omega
    · simp only [padOptions, List.length_append, List.length_replicate, List.length_nil] at hlen ⊢
      omega

theorem takes_of_capacity {capacity remaining take : Nat} (hremaining : 0 < remaining)
    (h : take = if capacity < remaining then capacity / 8 * 8 else remaining) (hpos : take ≠ 0) :
    0 < take ∧ take ≤ remaining ∧ take ≤ capacity ∧ (take < remaining → 8 ∣ take) := by
  split_ifs at h with hcut
  · refine ⟨by omega, by omega, by omega, fun _ => ⟨capacity / 8, by omega⟩⟩
  · refine ⟨by omega, by omega, by omega, fun hlt => absurd hlt (by omega)⟩

theorem flagsOffset_cases {flags : UInt16} (h : flags &&& 0x3fff = 0) (h' : flags &&& 0x4000 = 0) :
    flags = 0 ∨ flags = 0x8000 := by
  have hlow : flags.toNat % 2 ^ 14 = 0 := by
    rw [← Nat.and_two_pow_sub_one_eq_mod]
    exact congrArg UInt16.toNat h
  have hdf : flags.toNat &&& 2 ^ 14 = 0 := congrArg UInt16.toNat h'
  have hlt := flags.toNat_lt
  have heven : ¬flags.toNat / 2 ^ 14 % 2 = 1 := by
    have hbit : (flags.toNat &&& 2 ^ 14).testBit 14 = false := by
      rw [hdf]
      rfl
    rwa [Nat.testBit_and, Nat.testBit_two_pow_self, Bool.and_true, Nat.testBit_eq_decide_div_mod_eq,
      decide_eq_false_iff_not] at hbit
  have hvalue : flags.toNat = 0 ∨ flags.toNat = 0x8000 := by omega
  rcases hvalue with hvalue | hvalue
  · exact .inl (UInt16.toNat_inj.1 hvalue)
  · exact .inr (UInt16.toNat_inj.1 hvalue)

theorem fragmentFlags_toNat {flags : UInt16} (hflags : flags = 0 ∨ flags = 0x8000) {o : Nat} (ho : o < 2 ^ 13)
    (more : Bool) :
    ((flags &&& 0x8000) ||| (if more then 0x2000 else 0) ||| UInt16.ofNat o).toNat =
      flags.toNat + (if more then 2 ^ 13 else 0) + o := by
  have hone : ∀ a, a < 8 → (2 ^ 13 * a ||| o) = 2 ^ 13 * a + o :=
    fun a _ => (Nat.two_pow_add_eq_or_of_lt ho a).symm
  have ho16 : (UInt16.ofNat o).toNat = o := UInt16.toNat_ofNat_of_lt' (by unfold UInt16.size; omega)
  rw [UInt16.toNat_or, ho16]
  rcases hflags with rfl | rfl <;> cases more
  · exact hone 0 (by omega)
  · exact hone 1 (by omega)
  · exact hone 4 (by omega)
  · exact hone 5 (by omega)

/-- The fragment of an offset, and what it takes. -/
theorem fragmentIpv4At_eq_ok {packet options payload f : List UInt8} {mtu offset take : Nat} {flags : UInt16}
    (hoffset : offset < payload.length)
    (h : fragmentIpv4At packet options payload mtu flags offset = .ok (f, take)) :
    0 < take ∧ offset + take ≤ payload.length ∧ (offset + take < payload.length → 8 ∣ take) ∧
      20 + options.length + take ≤ mtu ∧
      f = buildIpv4Fragment packet options (slice payload offset (offset + take))
        ((flags &&& 0x8000) ||| (if offset + take < payload.length then 0x2000 else 0) |||
          UInt16.ofNat (offset / 8)) := by
  unfold fragmentIpv4At ipv4MinHeader at h
  dsimp only at h
  by_cases hmtu : mtu < 20 + options.length
  · rw [if_pos hmtu] at h
    cases h
  rw [if_neg hmtu] at h
  set size := if mtu - (20 + options.length) < payload.length - offset then
    (mtu - (20 + options.length)) / 8 * 8 else payload.length - offset with hsize
  by_cases hzero : size = 0
  · rw [if_pos hzero] at h
    cases h
  rw [if_neg hzero] at h
  obtain ⟨hpos, hle, hcap, hmult⟩ := takes_of_capacity (by omega) hsize hzero
  by_cases hlong : 2 ^ 8 ≤ (20 + options.length) / 4
  · rw [if_pos hlong] at h
    cases h
  by_cases htotal : 2 ^ 16 ≤ 20 + options.length + size
  · rw [if_neg hlong, if_pos htotal] at h
    cases h
  by_cases hfar : 2 ^ 16 ≤ offset / 8
  · rw [if_neg hlong, if_neg htotal, if_pos hfar] at h
    cases h
  rw [if_neg hlong, if_neg htotal, if_neg hfar, Except.ok.injEq, Prod.mk.injEq] at h
  obtain ⟨hf, htake⟩ := h
  subst htake
  exact ⟨hpos, by omega, fun hlt => hmult (by omega), by omega, hf.symm⟩

/-- What `fragment_ipv4` has checked when it returns fragments. -/
theorem fragmentIpv4_eq_ok {packet : List UInt8} {mtu : Nat} {fragments : List (List UInt8)}
    (h : fragmentIpv4 packet mtu = some (.ok fragments)) :
    20 ≤ packet.length ∧ 20 ≤ ipv4HeaderLen packet ∧ ipv4HeaderLen packet ≤ packet.length ∧
      beAt 2 packet 2 = packet.length ∧
      (u16OfBytes (slice packet 6 8) = 0 ∨ u16OfBytes (slice packet 6 8) = 0x8000) ∧
      ∃ copied, copiedIpv4Options (ipv4Options packet) = some (.ok copied) ∧
        fragmentLoop (packet.drop (ipv4HeaderLen packet)).length
          (fun offset => fragmentIpv4At packet (if offset = 0 then ipv4Options packet else copied)
            (packet.drop (ipv4HeaderLen packet)) mtu (u16OfBytes (slice packet 6 8)) offset)
          ((packet.drop (ipv4HeaderLen packet)).length + 1) 0 = some (.ok fragments) := by
  unfold fragmentIpv4 ipv4MinHeader at h
  dsimp only at h
  by_cases hshort : packet.length < 20
  · rw [if_pos hshort] at h
    cases h
  by_cases hbad : ipv4HeaderLen packet < 20 ∨ packet.length < ipv4HeaderLen packet ∨
      beAt 2 packet 2 ≠ packet.length
  · rw [if_neg hshort, if_pos hbad] at h
    cases h
  by_cases hfragment : u16OfBytes (slice packet 6 8) &&& 0x3fff ≠ 0
  · rw [if_neg hshort, if_neg hbad, if_pos hfragment] at h
    cases h
  by_cases hdf : u16OfBytes (slice packet 6 8) &&& 0x4000 ≠ 0
  · rw [if_neg hshort, if_neg hbad, if_neg hfragment, if_pos hdf] at h
    cases h
  rw [if_neg hshort, if_neg hbad, if_neg hfragment, if_neg hdf] at h
  refine ⟨by omega, by omega, by omega, by omega,
    flagsOffset_cases (not_not.1 hfragment) (not_not.1 hdf), ?_⟩
  cases hcopied : copiedIpv4Options (slice packet 20 (ipv4HeaderLen packet)) with
  | none => simp [hcopied] at h
  | some result =>
    cases result with
    | error e => simp [hcopied] at h
    | ok copied =>
      rw [hcopied] at h
      exact ⟨copied, hcopied, h⟩

/-- **The fragments of an IPv4 packet give back the packet**, if it has a payload. -/
theorem fragmentIpv4_reversible {packet : List UInt8} {mtu : Nat} {fragments : List (List UInt8)}
    (hversion : ipVersion packet = 4) (h : fragmentIpv4 packet mtu = some (.ok fragments))
    (hpayload : ipv4HeaderLen packet ≠ packet.length) : Reversible packet mtu fragments := by
  obtain ⟨hlong, hmin, hmax, htotal, hflags, copied, hcopied, hloop⟩ := fragmentIpv4_eq_ok h
  set options := ipv4Options packet with hoptions
  set payload := packet.drop (ipv4HeaderLen packet) with hpay
  set flags := u16OfBytes (slice packet 6 8) with hflagsEq
  have hsixteen : packet.length < 2 ^ 16 := by
    rw [← htotal]
    exact beAt_lt (by omega)
  have hnibble : ipv4HeaderLen packet % 4 = 0 ∧ ipv4HeaderLen packet ≤ 60 := by
    have hand : (byteAt packet 0 &&& 0x0f).toNat ≤ 15 := by
      rw [UInt8.toNat_and]
      exact Nat.and_le_right
    unfold ipv4HeaderLen
    omega
  have holen : options.length = ipv4HeaderLen packet - 20 := slice_length hmax
  obtain ⟨honly, hcmult, hcle⟩ := copiedIpv4Options_eq_ok hcopied (by omega)
  have hplen : payload.length = packet.length - ipv4HeaderLen packet := List.length_drop
  have hpacketFlags : beAt 2 packet 6 = flags.toNat := by
    have hlt : beAt 2 packet 6 < 2 ^ 16 := beAt_lt (by omega)
    exact (UInt16.toNat_ofNat_of_lt' hlt).symm
  set opts := fun offset : Nat => if offset = 0 then options else copied with hopts
  have hoptsLen : ∀ offset, (opts offset).length % 4 = 0 ∧ (opts offset).length ≤ 40 := by
    intro offset
    simp only [hopts]
    split_ifs <;> omega
  set part := fun offset => fragmentIpv4At packet (opts offset) payload mtu flags offset with hpart
  have htakes : Takes payload.length part := by
    intro offset f take hoffset hp
    obtain ⟨hpos, hle, hmult, -⟩ := fragmentIpv4At_eq_ok hoffset hp
    exact ⟨hpos, hle, hmult⟩
  -- what a receiver finds in each fragment
  have hmade : ∀ offset f take, offset < payload.length → part offset = .ok (f, take) →
      ∃ fl : UInt16, fl.toNat = flags.toNat + (if offset + take < payload.length then 2 ^ 13 else 0) +
        offset / 8 ∧
      Ipv4Made packet (opts offset) (slice payload offset (offset + take)) fl f := by
    intro offset f take hoffset hp
    obtain ⟨-, -, -, -, rfl⟩ := fragmentIpv4At_eq_ok hoffset hp
    have hfl := fragmentFlags_toNat hflags (o := offset / 8) (by omega)
      (decide (offset + take < payload.length))
    simp only [decide_eq_true_eq] at hfl
    exact ⟨_, hfl, ipv4Made_build _ _ hlong (hoptsLen offset).1 (hoptsLen offset).2⟩
  have hpiece : ∀ offset f take, offset < payload.length → 8 ∣ offset → part offset = .ok (f, take) →
      ipPiece f = ⟨(ipv4Piece packet).key, ipv4Base packet ++ opts offset, offset,
        decide (offset + take < payload.length), slice payload offset (offset + take)⟩ := by
    intro offset f take hoffset hdvd hp
    obtain ⟨fl, hfl, hm⟩ := hmade offset f take hoffset hp
    have hfields : fl.toNat % 2 ^ 13 * 8 = offset ∧
        (fl.toNat / 2 ^ 13 % 2 = 1 ↔ offset + take < payload.length) ∧
        fl.toNat / 2 ^ 14 = flags.toNat / 2 ^ 14 := by
      have hcases : flags.toNat = 0 ∨ flags.toNat = 0x8000 := by
        rcases hflags with hz | hz
        · exact .inl (by rw [hz]; rfl)
        · exact .inr (by rw [hz]; rfl)
      rw [hfl]
      split_ifs <;> omega
    have hbase := hm.base (by rw [hm.flags_eq, hpacketFlags, hfields.2.2]) hversion
    have hdata := hm.data_eq
    rw [← hm.headerLen] at hdata
    rw [ipPiece, if_pos hm.version]
    unfold ipv4Piece at *
    simp only [Piece.mk.injEq]
    refine ⟨hm.key, ?_, ?_, ?_, hdata⟩
    · rw [hbase, hm.options_eq]
    · rw [hm.flags_eq, hfields.1]
    · rw [hm.flags_eq]
      simp only [hfields.2.1]
  obtain ⟨parts, hcut, hflat, hnil⟩ := fragmentLoop_cut _ htakes hpiece (fun _ => Nat.dvd_zero 8) hloop
  have hne : parts ≠ [] := fun hn => by
    have hle := hnil.1 hn
    omega
  obtain ⟨hmem, htail⟩ := fragmentLoop_mem htakes (Nat.dvd_zero 8) hloop
  refine ⟨?_, ?_, ?_, ?_, ?_⟩
  · rintro rfl
    cases parts with
    | nil => exact hne rfl
    | cons _ _ => cases hcut
  · intro f hf
    obtain ⟨o, take, -, ho, -, hp⟩ := hmem f hf
    obtain ⟨-, hle, -, hmtu, -⟩ := fragmentIpv4At_eq_ok ho hp
    obtain ⟨fl, -, hm⟩ := hmade o f take ho hp
    rw [hm.length, slice_length hle]
    omega
  · intro _ f hf
    obtain ⟨o, take, -, ho, -, hp⟩ := hmem f hf
    obtain ⟨fl, -, hm⟩ := hmade o f take ho hp
    exact hm.checksum
  · rw [reassemble, hcut, Piece.join_cut _ _ _ _ hne, hflat, reassemble]
    have hzero : flags.toNat % 2 ^ 13 * 8 = 0 ∧ ¬flags.toNat / 2 ^ 13 % 2 = 1 := by
      rcases hflags with hz | hz <;> rw [hz] <;> decide
    have hself : ipPiece packet =
        ⟨(ipv4Piece packet).key, ipv4Base packet ++ options, 0, false, payload⟩ := by
      rw [ipPiece, if_pos hversion]
      unfold ipv4Piece
      simp only [Piece.mk.injEq, true_and, hpacketFlags]
      exact ⟨rfl, hzero.1, by simpa using hzero.2, rfl⟩
    rw [List.map_singleton, hself, Piece.join_singleton]
    simp [hopts]
  · intro _ f hf
    obtain ⟨o, take, hpos, ho, -, hp⟩ := htail f hf
    obtain ⟨fl, -, hm⟩ := hmade o f take ho hp
    rw [hm.options_eq, honly]
    simp only [hopts]
    rw [if_neg (by omega)]

/-! ### The headers of an IPv6 packet -/

/-- The extension headers from a cursor on: `kind` is the kind of the first, `last` the kind of what
follows them, at `stop`. -/
def Chain (packet : List UInt8) : UInt8 → Nat → List Extension → UInt8 → Nat → Prop
  | kind, cursor, [], last, stop => last = kind ∧ stop = cursor
  | kind, cursor, e :: es, last, stop =>
    isExtension kind ∧
      e = ⟨kind, cursor, cursor + extensionLen packet cursor, byteAt packet cursor⟩ ∧
      cursor + extensionLen packet cursor ≤ packet.length ∧
      Chain packet (byteAt packet cursor) (cursor + extensionLen packet cursor) es last stop

/-- The place of the last next-header field of a chain. -/
def lastField (field : Nat) : List Extension → Nat
  | [] => field
  | e :: es => lastField e.start es

section Chain

variable {packet g : List UInt8} {kind last : UInt8} {cursor stop field : Nat} {es : List Extension}

theorem extensionLen_ge (packet : List UInt8) (cursor : Nat) : 8 ≤ extensionLen packet cursor := by
  unfold extensionLen
  omega

theorem chain_of_extensionsLoop {rounds : Nat}
    (h : extensionsLoop packet rounds kind cursor = some (.ok (es, last))) :
    isExtension last = false ∧ ∃ stop, Chain packet kind cursor es last stop := by
  induction rounds generalizing kind cursor es with
  | zero => cases h
  | succ rounds ih =>
    rw [extensionsLoop] at h
    by_cases hkind : isExtension kind
    · rw [if_pos hkind] at h
      by_cases htruncated : packet.length < cursor + 2
      · rw [if_pos htruncated] at h
        cases h
      by_cases hlong : packet.length < cursor + extensionLen packet cursor
      · rw [if_neg htruncated, if_pos hlong] at h
        cases h
      rw [if_neg htruncated, if_neg hlong] at h
      obtain ⟨result, hresult, heq⟩ := Option.map_eq_some_iff.1 h
      cases result with
      | error e => cases heq
      | ok res =>
        obtain ⟨rest, last'⟩ := res
        cases heq
        obtain ⟨hlast, stop, hchain⟩ := ih hresult
        exact ⟨hlast, stop, hkind, rfl, by omega, hchain⟩
    · rw [if_neg hkind] at h
      cases h
      exact ⟨by simpa using hkind, cursor, rfl, rfl⟩

theorem Chain.bounds (h : Chain packet kind cursor es last stop) :
    cursor + es.length * 8 ≤ stop ∧ (cursor ≤ packet.length → stop ≤ packet.length) := by
  induction es generalizing kind cursor with
  | nil =>
    obtain ⟨-, rfl⟩ := h
    simp
  | cons e es ih =>
    obtain ⟨-, -, hle, hrest⟩ := h
    have hmin := extensionLen_ge packet cursor
    obtain ⟨hstop, hlen⟩ := ih hrest
    rw [List.length_cons]
    exact ⟨by omega, fun _ => hlen hle⟩

theorem Chain.lastField_bounds (field : Nat) (h : Chain packet kind cursor es last stop) :
    (es = [] ∧ lastField field es = field) ∨
      (es ≠ [] ∧ cursor ≤ lastField field es ∧ lastField field es + 8 ≤ stop) := by
  induction es generalizing kind cursor field with
  | nil => exact .inl ⟨rfl, rfl⟩
  | cons e es ih =>
    obtain ⟨-, rfl, -, hrest⟩ := h
    have hmin := extensionLen_ge packet cursor
    refine .inr ⟨List.cons_ne_nil _ _, ?_⟩
    show cursor ≤ lastField cursor es ∧ lastField cursor es + 8 ≤ stop
    rcases ih cursor hrest with ⟨rfl, hfield⟩ | ⟨-, hle, hge⟩
    · obtain ⟨-, rfl⟩ := hrest
      rw [hfield]
      omega
    · omega

theorem Chain.byteAt_lastField (h : Chain packet kind cursor es last stop)
    (hfield : byteAt packet field = kind) : byteAt packet (lastField field es) = last := by
  induction es generalizing kind cursor field with
  | nil =>
    obtain ⟨rfl, -⟩ := h
    exact hfield
  | cons e es ih =>
    obtain ⟨-, rfl, -, hrest⟩ := h
    exact ih hrest rfl

theorem exists_chain_insertion (field : Nat) (h : Chain packet kind cursor es last stop) :
    ∃ pre stop' last', insertionLoop (cursor, field, kind) es = (stop', lastField field pre, last') ∧
      Chain packet kind cursor pre last' stop' := by
  induction es generalizing kind cursor field with
  | nil => exact ⟨[], cursor, kind, rfl, rfl, rfl⟩
  | cons e es ih =>
    obtain ⟨hkind, rfl, hle, hrest⟩ := h
    rw [insertionLoop]
    split_ifs
    · obtain ⟨pre, stop', last', hloop, hchain⟩ := ih cursor hrest
      exact ⟨⟨kind, cursor, cursor + extensionLen packet cursor, byteAt packet cursor⟩ :: pre, stop', last',
        hloop, hkind, rfl, hle, hchain⟩
    · exact ⟨[], cursor, kind, rfl, rfl, rfl⟩

theorem Chain.findFragmentHeader_eq_none (h : Chain packet kind cursor es last stop)
    (hlast : isExtension last = false) (hfragment : last ≠ ipv6Fragment) (rounds : Nat) :
    findFragmentHeader packet rounds kind field cursor = none := by
  induction rounds generalizing kind cursor field es with
  | zero => rfl
  | succ rounds ih =>
    rw [findFragmentHeader]
    cases es with
    | nil =>
      obtain ⟨rfl, rfl⟩ := h
      rw [if_neg hfragment, if_neg (by simp [hlast])]
    | cons e es =>
      obtain ⟨hkind, -, hle, hrest⟩ := h
      have hne : kind ≠ ipv6Fragment := by
        rintro rfl
        simp [isExtension, ipv6Fragment, ipv6HopByHop, ipv6Routing, ipv6DestinationOptions] at hkind
      rw [if_neg hne, if_pos ⟨hkind, hle⟩]
      exact ih hrest

/-- **The fragment header is found behind the chain**, where the last next-header field names it. -/
theorem Chain.findFragmentHeader_eq_some (h : Chain packet kind cursor es last stop)
    (hbytes : ∀ i, cursor ≤ i → i < stop →
      byteAt g i = if i = lastField field es then ipv6Fragment else byteAt packet i)
    (hlen : stop + ipv6FragmentHeader ≤ g.length) (hfield : field < cursor) {rounds : Nat}
    (hrounds : es.length < rounds) :
    findFragmentHeader g rounds (if es = [] then ipv6Fragment else kind) field cursor =
      some (lastField field es, stop) := by
  induction es generalizing kind cursor field rounds with
  | nil =>
    obtain ⟨-, rfl⟩ := h
    obtain ⟨n, rfl⟩ : ∃ n, rounds = n + 1 := ⟨rounds - 1, by simp at hrounds; omega⟩
    rw [if_pos rfl, findFragmentHeader, if_pos rfl, if_pos hlen]
    rfl
  | cons e es ih =>
    obtain ⟨n, rfl⟩ : ∃ n, rounds = n + 1 := ⟨rounds - 1, by omega⟩
    obtain ⟨hkind, rfl, hle, hrest⟩ := h
    have hmin := extensionLen_ge packet cursor
    have hstop := hrest.bounds.1
    have hne : kind ≠ ipv6Fragment := by
      rintro rfl
      simp [isExtension, ipv6Fragment, ipv6HopByHop, ipv6Routing, ipv6DestinationOptions] at hkind
    have hbytes' : ∀ i, cursor ≤ i → i < stop →
        byteAt g i = if i = lastField cursor es then ipv6Fragment else byteAt packet i := hbytes
    have hplace := hrest.lastField_bounds cursor
    have hext : extensionLen g cursor = extensionLen packet cursor := by
      rw [extensionLen, hbytes' (cursor + 1) (by omega) (by omega), if_neg (by omega), extensionLen]
    have hnext : byteAt g cursor = if es = [] then ipv6Fragment else byteAt packet cursor := by
      rw [hbytes' cursor (le_refl _) (by omega)]
      rcases hplace with ⟨rfl, hlast⟩ | ⟨hnil, hge, -⟩
      · rw [if_pos hlast.symm, if_pos rfl]
      · rw [if_neg (by omega), if_neg hnil]
    rw [if_neg (List.cons_ne_nil _ _), findFragmentHeader, if_neg hne, hext,
      if_pos ⟨hkind, by omega⟩, hnext]
    exact ih hrest (fun i hi hlt => hbytes' i (by omega) hlt) (by omega)
      (by rw [List.length_cons] at hrounds; omega)

end Chain

/-! ### IPv6 fragments -/

theorem writeAt_length_congr {a b : List UInt8} {n : Nat} (ha : a.length = n) (hb : b.length = n) (hn : 6 ≤ n)
    (h : ∀ i, i < n → i ≠ 4 → i ≠ 5 → byteAt a i = byteAt b i) :
    writeAt a 4 [0, 0] = writeAt b 4 [0, 0] := by
  have hfront : slice a 0 4 = slice b 0 4 :=
    slice_congr (by omega) (by omega) fun i _ hi => h i (by omega) (by omega) (by omega)
  have hback : slice a 6 n = slice b 6 n :=
    slice_congr (by omega) (by omega) fun i hi hlt => h i hlt (by omega) (by omega)
  have hdrop : ∀ l : List UInt8, l.length = n → slice l 6 n = l.drop 6 := by
    intro l hl
    rw [slice, List.take_of_length_le (by simp [hl])]
  rw [hdrop a ha, hdrop b hb] at hback
  unfold writeAt
  exact congrArg₂ (fun x y => x ++ ([0, 0] ++ y)) hfront hback

/-- What a receiver finds in a fragment of an IPv6 packet. -/
theorem ipv6Piece_build {packet : List UInt8} {es : List Extension} {next : UInt8} {stop : Nat}
    (hpacket : 40 ≤ packet.length) (hchain : Chain packet (byteAt packet 6) 40 es next stop)
    (flags : UInt16) (identification : UInt32) (data : List UInt8) :
    let g := buildIpv6Fragment packet stop (lastField 6 es) next flags identification data
    g.length = stop + 8 + data.length ∧ ipVersion g = ipVersion packet ∧
      ipv6Piece g = ⟨slice packet 8 40 ++ u32Bytes identification, writeAt (packet.take stop) 4 [0, 0],
        flags.toNat / 8 * 8, decide (flags.toNat % 2 = 1), data⟩ := by
  intro g
  obtain ⟨hstart, hend⟩ := hchain.bounds
  have hstop := hend hpacket
  have hfield := hchain.lastField_bounds 6
  set field := lastField 6 es with hfieldEq
  have hfieldLt : field < stop ∧ (field = 6 ∨ 40 ≤ field) := by omega
  have htake : (packet.take stop).length = stop := by
    rw [List.length_take]
    omega
  set unfragmentable := writeAt (packet.take stop) field [ipv6Fragment] with hunf
  have hunfLen : unfragmentable.length = stop := by
    rw [hunf, length_writeAt (by simp; omega), htake]
  set tail := [next, 0] ++ (u16Bytes flags ++ (u32Bytes identification ++ data)) with htail
  set len := (unfragmentable ++ tail).length - ipv6Header with hlen
  have hg : g = putBE 2 unfragmentable 4 len ++ tail := by
    show putBE 2 (unfragmentable ++ tail) 4 len = _
    rw [putBE, writeAt_append_left (by simp; omega), putBE]
  set front := putBE 2 unfragmentable 4 len with hfront
  have hfrontLen : front.length = stop := by
    rw [hfront, length_putBE (by omega), hunfLen]
  have htailLen : tail.length = 8 + data.length := by
    simp [htail]
    omega
  -- the bytes of the headers
  have hbytes : ∀ i, i < stop → i ≠ 4 → i ≠ 5 →
      byteAt g i = if i = field then ipv6Fragment else byteAt packet i := by
    intro i hi h4 h5
    rw [hg, byteAt_append_left (by omega), hfront, byteAt_putBE_of_outside (by omega) (by omega), hunf]
    by_cases hif : i = field
    · rw [if_pos hif, hif, byteAt_writeAt_one (by omega)]
    · rw [if_neg hif, byteAt_writeAt_of_outside (by simp; omega) (by simp; omega)]
      conv_rhs => rw [← List.take_append_drop stop packet]
      rw [byteAt_append_left (by omega)]
  have hkind : byteAt g 6 = if es = [] then ipv6Fragment else byteAt packet 6 := by
    rw [hbytes 6 (by omega) (by omega) (by omega)]
    rcases hfield with ⟨hnil, h6⟩ | ⟨hne, hge, -⟩
    · rw [if_pos h6.symm, if_pos hnil]
    · rw [if_neg (by omega), if_neg hne]
  have hglen : g.length = stop + 8 + data.length := by
    rw [hg, List.length_append, hfrontLen, htailLen]
    omega
  have hfind : findFragmentHeader g (g.length + 1) (byteAt g 6) 6 ipv6Header = some (field, stop) := by
    rw [hkind]
    refine hchain.findFragmentHeader_eq_some (fun i hi hlt => hbytes i hlt (by omega) (by omega))
      (by unfold ipv6FragmentHeader; omega) (by omega) (by omega)
  have hgtake : g.take stop = front := by
    rw [hg, List.take_left' hfrontLen]
  have hgdrop : g.drop stop = tail := by
    rw [hg, List.drop_left' hfrontLen]
  have hnext : byteAt g stop = next := by
    rw [hg, byteAt, List.getD_eq_getElem?_getD, List.getElem?_append_right (by omega), hfrontLen,
      Nat.sub_self]
    rfl
  refine ⟨hglen, ?_, ?_⟩
  · rw [ipVersion, hbytes 0 (by omega) (by omega) (by omega), if_neg (by omega), ipVersion]
  · have hslice : ∀ i j, slice g (stop + i) (stop + j) = slice tail i j := by
      intro i j
      rw [hg, slice_append_right (by omega), hfrontLen, Nat.add_sub_cancel_left, Nat.add_sub_cancel_left]
    have hflags : beAt 2 g (stop + 2) = flags.toNat := by
      rw [beAt, Nat.add_assoc, hslice]
      show ofBytesBE (u16Bytes flags) = flags.toNat
      exact ofBytesBE_toBytesBE flags.toNat_lt
    have hid : slice g (stop + 4) (stop + 8) = u32Bytes identification := by
      rw [hslice]
      rfl
    have haddrs : slice g 8 40 = slice packet 8 40 := by
      refine slice_congr (by omega) hpacket fun i hi hlt => ?_
      rw [hbytes i (by omega) (by omega) (by omega), if_neg (by omega)]
    have hhead : writeAt (writeAt (g.take stop) field [byteAt g stop]) 4 [0, 0] =
        writeAt (packet.take stop) 4 [0, 0] := by
      rw [hgtake, hnext]
      refine writeAt_length_congr (n := stop) ?_ htake (by omega) fun i hi h4 h5 => ?_
      · rw [length_writeAt (by simp; omega), hfrontLen]
      · have hpi : byteAt (packet.take stop) i = byteAt packet i := by
          conv_rhs => rw [← List.take_append_drop stop packet]
          rw [byteAt_append_left (by omega)]
        have hgi : byteAt front i = byteAt g i := by rw [hg, byteAt_append_left (by omega)]
        rw [hpi]
        by_cases hif : i = field
        · rw [hif, byteAt_writeAt_one (by omega)]
          exact (hchain.byteAt_lastField rfl).symm
        · rw [byteAt_writeAt_of_outside (by simp; omega) (by simp; omega), hgi, hbytes i hi h4 h5,
            if_neg hif]
    have hdata : g.drop (stop + ipv6FragmentHeader) = data := by
      rw [← List.drop_drop, hgdrop]
      rfl
    unfold ipv6Piece
    rw [hfind]
    simp only [Piece.mk.injEq]
    exact ⟨by rw [haddrs, hid], hhead, by rw [hflags], by rw [hflags], hdata⟩

theorem offsetFlags_toNat {offset : Nat} (halign : 8 ∣ offset) (h : offset < 2 ^ 16) (more : Prop)
    [Decidable more] :
    (if more then UInt16.ofNat offset &&& 0xfff8 ||| 1 else UInt16.ofNat offset &&& 0xfff8).toNat =
      offset + if more then 1 else 0 := by
  have haligned : (UInt16.ofNat offset &&& 0xfff8).toNat = offset := by
    obtain ⟨q, rfl⟩ := halign
    have hq : q &&& (2 ^ 13 - 1) = q := Nat.and_two_pow_sub_one_of_lt_two_pow (by omega)
    have hofNat : (UInt16.ofNat (8 * q)).toNat = 8 * q := UInt16.toNat_ofNat_of_lt' h
    have hshift : ∀ n, 8 * n = n <<< 3 := fun n => by rw [Nat.shiftLeft_eq, Nat.mul_comm]
    calc (UInt16.ofNat (8 * q) &&& 0xfff8).toNat
        = 8 * q &&& 8 * (2 ^ 13 - 1) := by
          rw [UInt16.toNat_and, hofNat]
          rfl
      _ = (q &&& (2 ^ 13 - 1)) <<< 3 := by rw [hshift q, hshift (2 ^ 13 - 1), Nat.shiftLeft_and_distrib]
      _ = 8 * q := by rw [hq, hshift]
  split_ifs
  · obtain ⟨q, hq⟩ : ∃ q, offset = 2 ^ 1 * q := by
      obtain ⟨q, rfl⟩ := halign
      exact ⟨4 * q, by omega⟩
    rw [UInt16.toNat_or, haligned, hq]
    exact (Nat.two_pow_add_eq_or_of_lt (by decide) q).symm
  · rw [haligned, Nat.add_zero]

/-- The fragment of an offset, and what it takes. -/
theorem fragmentIpv6At_eq_ok {packet f : List UInt8} {mtu stop field offset take : Nat} {next : UInt8}
    {identification : UInt32} (hmtu : stop + 8 ≤ mtu) (hcapacity : (mtu - (stop + 8)) / 8 * 8 ≠ 0)
    (hoffset : offset < (packet.drop stop).length)
    (h : fragmentIpv6At packet mtu identification stop field next offset = .ok (f, take)) :
    0 < take ∧ offset + take ≤ (packet.drop stop).length ∧
      (offset + take < (packet.drop stop).length → 8 ∣ take) ∧ stop + 8 + take ≤ mtu ∧ offset < 2 ^ 16 ∧
      f = buildIpv6Fragment packet stop field next
        (if offset + take < (packet.drop stop).length then UInt16.ofNat offset &&& 0xfff8 ||| 1
          else UInt16.ofNat offset &&& 0xfff8)
        identification (slice (packet.drop stop) offset (offset + take)) := by
  unfold fragmentIpv6At ipv6FragmentHeader at h
  dsimp only at h
  set size := if mtu - (stop + 8) < (packet.drop stop).length - offset then
    (mtu - (stop + 8)) / 8 * 8 else (packet.drop stop).length - offset with hsize
  have hzero : size ≠ 0 := by
    rw [hsize]
    split_ifs <;> omega
  obtain ⟨hpos, hle, hcap, hmult⟩ := takes_of_capacity (by omega) hsize hzero
  by_cases hfar : 2 ^ 16 ≤ offset
  · rw [if_pos hfar] at h
    cases h
  by_cases htotal : 2 ^ 16 ≤ stop + 8 + size - ipv6Header
  · rw [if_neg hfar, if_pos htotal] at h
    cases h
  rw [if_neg hfar, if_neg htotal, Except.ok.injEq, Prod.mk.injEq] at h
  obtain ⟨hf, htake⟩ := h
  subst htake
  exact ⟨hpos, by omega, fun hlt => hmult (by omega), by omega, by omega, hf.symm⟩

/-- What `fragment_ipv6` has checked when it returns fragments. -/
theorem fragmentIpv6_eq_ok {packet : List UInt8} {mtu : Nat} {identification : UInt32}
    {fragments : List (List UInt8)} (h : fragmentIpv6 identification packet mtu = some (.ok fragments)) :
    40 ≤ packet.length ∧ ∃ es all last end_ stop next,
      Chain packet (byteAt packet 6) 40 all last end_ ∧ isExtension last = false ∧ last ≠ ipv6Fragment ∧
      Chain packet (byteAt packet 6) 40 es next stop ∧ stop + 8 ≤ mtu ∧
      (mtu - (stop + 8)) / 8 * 8 ≠ 0 ∧
      fragmentLoop (packet.length - stop)
        (fragmentIpv6At packet mtu identification stop (lastField 6 es) next)
        (packet.length - stop + 1) 0 = some (.ok fragments) := by
  unfold fragmentIpv6 at h
  dsimp only at h
  by_cases hshort : packet.length < ipv6Header
  · rw [if_pos hshort] at h
    cases h
  by_cases hbad : beAt 2 packet 4 = 0 ∨ beAt 2 packet 4 + ipv6Header ≠ packet.length
  · rw [if_neg hshort, if_pos hbad] at h
    cases h
  rw [if_neg hshort, if_neg hbad, ipv6FragmentInsertionPoint] at h
  cases hext : extensionsLoop packet (packet.length + 1) (byteAt packet 6) ipv6Header with
  | none => simp [hext] at h
  | some result =>
    cases result with
    | error e => simp [hext] at h
    | ok res =>
      obtain ⟨all, last⟩ := res
      rw [hext] at h
      dsimp only at h
      by_cases hfragment : last = ipv6Fragment
      · simp [hfragment] at h
      obtain ⟨hlast, end_, hall⟩ := chain_of_extensionsLoop hext
      obtain ⟨es, stop, next, hpoint, hchain⟩ := exists_chain_insertion 6 hall
      rw [if_neg hfragment, hpoint] at h
      dsimp only at h
      by_cases hmtu : mtu < stop + ipv6FragmentHeader
      · rw [if_pos hmtu] at h
        cases h
      by_cases hcapacity : (mtu - (stop + ipv6FragmentHeader)) / 8 * 8 = 0
      · rw [if_neg hmtu, if_pos hcapacity] at h
        cases h
      rw [if_neg hmtu, if_neg hcapacity] at h
      unfold ipv6Header at hshort
      unfold ipv6FragmentHeader at hmtu hcapacity
      exact ⟨by omega, es, all, last, end_, stop, next, hall, hlast, hfragment, hchain, by omega,
        hcapacity, h⟩

/-- **The fragments of an IPv6 packet give back the packet.** -/
theorem fragmentIpv6_reversible {packet : List UInt8} {mtu : Nat} {identification : UInt32}
    {fragments : List (List UInt8)} (hversion : ipVersion packet ≠ 4) (hmtu : mtu < packet.length)
    (h : fragmentIpv6 identification packet mtu = some (.ok fragments)) :
    Reversible packet mtu fragments := by
  obtain ⟨hlong, es, all, last, end_, stop, next, hall, hlast, hfragment, hchain, hfits, hcapacity, hloop⟩ :=
    fragmentIpv6_eq_ok h
  obtain ⟨hstart, -⟩ := hchain.bounds
  set data := packet.drop stop with hdata
  have hdlen : data.length = packet.length - stop := List.length_drop
  rw [← hdlen] at hloop
  set part := fragmentIpv6At packet mtu identification stop (lastField 6 es) next with hpart
  have hok : ∀ offset f take, offset < data.length → part offset = .ok (f, take) → _ :=
    fun offset f take hoffset hp => fragmentIpv6At_eq_ok hfits hcapacity hoffset hp
  have htakes : Takes data.length part := by
    intro offset f take hoffset hp
    obtain ⟨hpos, hle, hmult, -⟩ := hok offset f take hoffset hp
    exact ⟨hpos, hle, hmult⟩
  set key := slice packet 8 40 ++ u32Bytes identification with hkey
  set head := writeAt (packet.take stop) 4 [0, 0] with hhead
  have hpiece : ∀ offset f take, offset < data.length → 8 ∣ offset → part offset = .ok (f, take) →
      ipPiece f = ⟨key, head, offset, decide (offset + take < data.length),
        slice data offset (offset + take)⟩ := by
    intro offset f take hoffset hdvd hp
    obtain ⟨-, -, -, -, hsmall, rfl⟩ := hok offset f take hoffset hp
    have hfl := offsetFlags_toNat hdvd hsmall (offset + take < data.length)
    set flags := if offset + take < data.length then UInt16.ofNat offset &&& 0xfff8 ||| 1
      else UInt16.ofNat offset &&& 0xfff8 with hflags
    have hoff : flags.toNat / 8 * 8 = offset ∧ (flags.toNat % 2 = 1 ↔ offset + take < data.length) := by
      rw [hfl]
      split_ifs <;> omega
    obtain ⟨-, hv, hpc⟩ := ipv6Piece_build hlong hchain flags identification
      (slice data offset (offset + take))
    rw [ipPiece, if_neg (by rw [hv]; exact hversion), hpc, hoff.1]
    simp only [hoff.2, hkey, hhead]
  obtain ⟨parts, hcut, hflat, hnil⟩ :=
    fragmentLoop_cut (fun _ => head) htakes hpiece (fun _ => Nat.dvd_zero 8) hloop
  have hne : parts ≠ [] := fun hn => by
    have hle := hnil.1 hn
    omega
  obtain ⟨hmem, -⟩ := fragmentLoop_mem htakes (Nat.dvd_zero 8) hloop
  refine ⟨?_, ?_, fun hv => absurd hv hversion, ?_, fun hv => absurd hv hversion⟩
  · rintro rfl
    cases parts with
    | nil => exact hne rfl
    | cons _ _ => cases hcut
  · intro f hf
    obtain ⟨o, take, -, ho, -, hp⟩ := hmem f hf
    obtain ⟨-, hle, -, hroom, -, rfl⟩ := hok o f take ho hp
    rw [(ipv6Piece_build hlong hchain _ identification _).1, slice_length hle]
    omega
  · have hself : ipPiece packet =
        ⟨slice packet 8 40, writeAt (packet.take 40) 4 [0, 0], 0, false, packet.drop 40⟩ := by
      rw [ipPiece, if_neg hversion]
      unfold ipv6Piece
      rw [show ipv6Header = 40 from rfl, hall.findFragmentHeader_eq_none hlast hfragment]
    have hwhole : ∀ n, 6 ≤ n → n ≤ packet.length →
        writeAt (packet.take n) 4 [0, 0] ++ packet.drop n = writeAt packet 4 [0, 0] := by
      intro n hn hle
      rw [← writeAt_append_left (by simp; omega), List.take_append_drop]
    rw [reassemble, hcut, Piece.join_cut _ _ _ _ hne, hflat, reassemble, List.map_singleton, hself,
      Piece.join_singleton, List.drop_zero]
    simp only [Option.map_some, Option.some.injEq, Prod.mk.injEq, and_true]
    rw [hhead, hdata, hwhole stop (by omega) (by omega), hwhole 40 (by omega) hlong]

/-! ### All packets -/

/-- **The loops end**, for every packet and MTU. -/
theorem fragmentIpPacket_terminates (identification : UInt32) (packet : List UInt8) (mtu : Nat) :
    ∃ r, fragmentIpPacket identification packet mtu = some r := by
  unfold fragmentIpPacket
  split_ifs
  · exact ⟨_, rfl⟩
  · unfold fragmentIpv4
    dsimp only
    split_ifs
    · exact ⟨_, rfl⟩
    · exact ⟨_, rfl⟩
    · exact ⟨_, rfl⟩
    · exact ⟨_, rfl⟩
    · obtain ⟨r, hr⟩ := copiedOptionsLoop_isSome []
        (Nat.lt_add_one (slice packet ipv4MinHeader (ipv4HeaderLen packet)).length)
      rw [copiedIpv4Options, hr]
      cases r with
      | error e => exact ⟨_, rfl⟩
      | ok copied =>
        refine fragmentLoop_isSome ?_ (by omega) (Nat.zero_le _)
        intro offset f take hoffset hp
        obtain ⟨hpos, hle, hmult, -⟩ := fragmentIpv4At_eq_ok hoffset hp
        exact ⟨hpos, hle, hmult⟩
  · unfold fragmentIpv6 ipv6FragmentInsertionPoint
    dsimp only
    split_ifs
    · exact ⟨_, rfl⟩
    · exact ⟨_, rfl⟩
    · obtain ⟨r, hr⟩ := extensionsLoop_isSome (byteAt packet 6)
        (show packet.length < ipv6Header + (packet.length + 1) by omega) (Nat.succ_pos _)
      rw [hr]
      cases r with
      | error e => exact ⟨_, rfl⟩
      | ok res =>
        dsimp only
        split_ifs
        · exact ⟨_, rfl⟩
        · obtain ⟨stop, field, next⟩ := insertionLoop (ipv6Header, 6, byteAt packet 6) res.1
          dsimp only
          split_ifs with hmtu hcapacity
          · exact ⟨_, rfl⟩
          · exact ⟨_, rfl⟩
          · rw [← List.length_drop]
            refine fragmentLoop_isSome ?_ (by omega) (Nat.zero_le _)
            intro offset f take hoffset hp
            unfold ipv6FragmentHeader at hmtu hcapacity
            obtain ⟨hpos, hle, hmult, -⟩ := fragmentIpv6At_eq_ok (by omega) hcapacity hoffset hp
            exact ⟨hpos, hle, hmult⟩
  · exact ⟨_, rfl⟩

/-- The packets whose fragments are as expected: one that fits has a right checksum, if it is an IPv4
packet, and one that does not fit is more than an IPv4 header. -/
def FragmentsWell (packet : List UInt8) (mtu : Nat) : Prop :=
  ipVersion packet = 4 →
    if packet.length ≤ mtu then Ipv4ChecksumValid packet else ipv4HeaderLen packet ≠ packet.length

theorem reversible_singleton_iff {packet : List UInt8} {mtu : Nat} (h : packet.length ≤ mtu) :
    Reversible packet mtu [packet] ↔ (ipVersion packet = 4 → Ipv4ChecksumValid packet) := by
  constructor
  · intro hr hv
    exact hr.checksums hv packet (List.mem_singleton_self _)
  · intro hc
    refine ⟨List.cons_ne_nil _ _, ?_, ?_, rfl, fun _ f hf => absurd hf (by simp)⟩
    · intro f hf
      rwa [List.mem_singleton.1 hf]
    · intro hv f hf
      rw [List.mem_singleton.1 hf]
      exact hc hv

/-- **Fragmentation ends, and can be undone** exactly for the packets of `FragmentsWell`. -/
theorem fragmentIpPacket_reversible_iff (identification : UInt32) (packet : List UInt8) (mtu : Nat) :
    (∃ r, fragmentIpPacket identification packet mtu = some r) ∧
      ∀ fragments, fragmentIpPacket identification packet mtu = some (.ok fragments) →
        (Reversible packet mtu fragments ↔ FragmentsWell packet mtu) := by
  refine ⟨fragmentIpPacket_terminates identification packet mtu, fun fragments h => ?_⟩
  unfold fragmentIpPacket at h
  unfold FragmentsWell
  by_cases hfits : packet.length ≤ mtu
  · rw [if_pos hfits] at h
    cases h
    rw [if_pos hfits]
    exact reversible_singleton_iff hfits
  rw [if_neg hfits] at h ⊢
  by_cases hv4 : ipVersion packet = 4
  · rw [if_pos hv4] at h
    refine ⟨fun hr _ hbare => ?_, fun hp => fragmentIpv4_reversible hv4 h (hp hv4)⟩
    -- a bare header has no fragments
    obtain ⟨-, -, -, -, -, copied, -, hloop⟩ := fragmentIpv4_eq_ok h
    rw [hbare, List.drop_length] at hloop
    cases hloop
    exact hr.nonempty rfl
  · rw [if_neg hv4] at h
    by_cases hv6 : ipVersion packet = 6
    · rw [if_pos hv6] at h
      exact ⟨fun _ hv => absurd hv hv4, fun _ => fragmentIpv6_reversible hv4 (by omega) h⟩
    · rw [if_neg hv6] at h
      cases h

/-- An IPv4 header of 20 bytes, with a total length and a checksum, and a payload. -/
def samplePacket (totalLen : UInt8) (checksum : List UInt8) (payload : List UInt8) : List UInt8 :=
  [0x45, 0, 0, totalLen, 0, 7, 0, 0, 64, 17] ++ (checksum ++ ([10, 0, 0, 1, 10, 0, 0, 2] ++ payload))

/-- A packet with 12 bytes of payload for an MTU of 28 bytes. -/
theorem fragmentIpPacket_reversible_sample :
    ∃ fragments, fragmentIpPacket 1 (samplePacket 32 [0, 0] (List.replicate 12 5)) 28 =
        some (.ok fragments) ∧ fragments.length = 2 ∧
      Reversible (samplePacket 32 [0, 0] (List.replicate 12 5)) 28 fragments := by
  have hok : ∃ fragments, fragmentIpPacket 1 (samplePacket 32 [0, 0] (List.replicate 12 5)) 28 =
      some (.ok fragments) ∧ fragments.length = 2 := ⟨_, rfl, rfl⟩
  obtain ⟨fragments, hf, hlen⟩ := hok
  exact ⟨fragments, hf, hlen,
    ((fragmentIpPacket_reversible_iff 1 _ 28).2 fragments hf).2 fun _ => by rw [if_neg] <;> decide⟩

/-- A bare header, larger than the MTU, has no fragments. -/
theorem bare_header_vanishes :
    fragmentIpPacket 1 (samplePacket 20 [0x66, 0xd0] []) 16 = some (.ok []) ∧
      Ipv4ChecksumValid (samplePacket 20 [0x66, 0xd0] []) ∧
      ¬Reversible (samplePacket 20 [0x66, 0xd0] []) 16 [] :=
  ⟨rfl, rfl, fun h => h.nonempty rfl⟩

end WutherCore.Net
