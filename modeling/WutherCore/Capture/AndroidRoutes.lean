import WutherCore.Data.Except
import WutherCore.Data.Intervals
import WutherCore.Ruleset.RangeLoops
import Mathlib.Data.Prod.Lex

/-!
# The routes of the Android VPN service

`subtract_routes` in `android_vpn_config.rs`: each network to include becomes an interval of integers, the
networks to exclude are cut out of it, and what is left becomes networks again.  Both families share one
128-bit arithmetic, in which an overflow has no value here.

* `subtractOne_spec`: what becomes of one network to include.
* `subtractRoutes_exact_iff`: the routes are exact where the interval of every network is the one of its
  addresses; a network with host bits, or one of IPv6 that ends at the last address, breaks this.
-/

namespace WutherCore.Capture.Android

open WutherCore.Net WutherCore.Data Subnet Checked
open WutherCore.Ruleset (newNet maxU128 newNet_blockAt raise_eq)

/-! ### Networks and intervals -/

/-- `NetRange`. -/
structure NetRange where
  start : Nat
  stop : Nat
  bits : Nat
  deriving DecidableEq, Repr

/-- `NetRange::from_net`. -/
def NetRange.fromNet : IpNet → Option NetRange
  | .v4 n => do
      let start := n.addr.toNat
      let hostBits ← sub 32 n.len
      let size ← (if hostBits = 32 then shl 128 1 32 else shl 128 1 hostBits)
      return ⟨start, ← sub (← add 128 start size) 1, 32⟩
  | .v6 n => do
      let start := n.addr.toNat
      let hostBits ← sub 128 n.len
      let stop ← (if hostBits = 128 then some maxU128 else do sub (← add 128 start (← shl 128 1 hostBits)) 1)
      return ⟨start, stop, 128⟩

/-- `aligned_prefix`. -/
def alignedPrefix (value bits : Nat) : Option Nat :=
  if value = 0 then some 0 else sub bits (min (trailingZeros 128 value) bits)

/-- `block_end`. -/
def blockEnd (start len bits : Nat) : Option Nat := do
  let hostBits ← sub bits len
  if hostBits = 128 then return maxU128
  else
    let span ← sub (← shl 128 1 hostBits) 1
    return saturatingAdd 128 start span

/-- The inner loop of `range_to_cidrs`: the length grows until the block ends in the interval. -/
def raiseLen (start stop bits len : Nat) : Option Nat :=
  if len ≤ bits then do
    let last ← blockEnd start len bits
    if last > stop then raiseLen start stop bits (len + 1) else return len
  else none
termination_by bits + 1 - len

/-- `net_from_parts`. -/
def netFromParts (start len bits : Nat) : Option IpNet :=
  if bits = 32 then (newNet 32 start len).map .v4 else (newNet 128 start len).map .v6

/-- One turn of the loop in `range_to_cidrs`: the network, and the last address of its block. -/
def cidrTurn (stop bits cur : Nat) : Option (IpNet × Nat) := do
  let len ← raiseLen cur stop bits (← alignedPrefix cur bits)
  let net ← netFromParts cur len bits
  return (net, ← blockEnd cur len bits)

theorem le_blockEnd {start len bits last : Nat} (h : blockEnd start len bits = some last)
    (hlast : last ≠ maxU128) : start ≤ last := by
  obtain ⟨hostBits, -, h⟩ := Option.bind_eq_some_iff.1 h
  split_ifs at h with hfull
  · cases h
    exact absurd rfl hlast
  · obtain ⟨size, -, h⟩ := Option.bind_eq_some_iff.1 h
    obtain ⟨span, -, h⟩ := Option.bind_eq_some_iff.1 h
    cases h
    rw [saturatingAdd, maxU128] at hlast
    rw [saturatingAdd]
    omega

theorem le_cidrTurn {stop bits cur last : Nat} {net : IpNet} (h : cidrTurn stop bits cur = some (net, last))
    (hlast : last ≠ maxU128) : cur ≤ last := by
  obtain ⟨first, -, h⟩ := Option.bind_eq_some_iff.1 h
  obtain ⟨len, -, h⟩ := Option.bind_eq_some_iff.1 h
  obtain ⟨net', -, h⟩ := Option.bind_eq_some_iff.1 h
  obtain ⟨last', hend, h⟩ := Option.bind_eq_some_iff.1 h
  cases h
  exact le_blockEnd hend hlast

/-- The loop in `range_to_cidrs`, from the address `cur` on. -/
def cidrsFrom (stop bits cur : Nat) : Option (List IpNet) :=
  match h : cidrTurn stop bits cur with
  | none => none
  | some (net, last) =>
    if hend : last = maxU128 ∨ last ≥ stop then some [net]
    else (cidrsFrom stop bits (last + 1)).map (net :: ·)
termination_by stop - cur
decreasing_by
  rw [not_or] at hend
  have := le_cidrTurn h hend.1
  omega

/-- `range_to_cidrs`. -/
def rangeToCidrs (start stop bits : Nat) : Option (List IpNet) :=
  if start > stop then some [] else cidrsFrom stop bits start

/-! ### Subtraction -/

/-- What an exclusion leaves of a range. -/
def cutRange (exclude : NetRange) (range : Nat × Nat) : Option (List (Nat × Nat)) :=
  if exclude.stop < range.1 ∨ exclude.start > range.2 then some [range]
  else do
    let before ←
      (if exclude.start > range.1 then (sub exclude.start 1).map fun last => [(range.1, last)] else some [])
    let after ←
      (if exclude.stop < range.2 then (add 128 exclude.stop 1).map fun next => [(next, range.2)] else some [])
    return before ++ after

/-- The loop over the exclusions, which ends early when nothing is left. -/
def cutAll (bits : Nat) : List IpNet → List (Nat × Nat) → Option (List (Nat × Nat))
  | [], ranges => some ranges
  | net :: excludes, ranges => do
      let exclude ← NetRange.fromNet net
      if bits ≠ exclude.bits then cutAll bits excludes ranges
      else
        let next ← ranges.mapM (cutRange exclude)
        if next.flatten.isEmpty then return [] else cutAll bits excludes next.flatten

/-- The networks for one network to include. -/
def subtractOne (excludes : List IpNet) (net : IpNet) : Option (List IpNet) := do
  let included ← NetRange.fromNet net
  let ranges ← cutAll included.bits excludes [(included.start, included.stop)]
  let nets ← ranges.mapM fun range => rangeToCidrs range.1 range.2 included.bits
  return nets.flatten

/-- `net_sort_key`. -/
def netSortKey : IpNet → Nat ×ₗ Nat ×ₗ Nat
  | .v4 n => toLex (4, toLex (n.addr.toNat, n.len))
  | .v6 n => toLex (6, toLex (n.addr.toNat, n.len))

/-- `subtract_routes`. -/
def subtractRoutes (includes excludes : List IpNet) : Option (List IpNet) := do
  let out ← includes.mapM (subtractOne excludes)
  return out.flatten.insertionSort fun m n => netSortKey m ≤ netSortKey n

/-! ### The networks of an interval -/

theorem trailingZeros_min {w v n : Nat} (hw : w ≤ v) : min (trailingZeros v n) w = trailingZeros w n := by
  induction w generalizing v n with
  | zero => simp [trailingZeros]
  | succ w ih =>
    obtain ⟨v, rfl⟩ := Nat.exists_eq_succ_of_ne_zero (by omega : v ≠ 0)
    rw [trailingZeros, trailingZeros]
    split_ifs with hodd
    · rfl
    · rw [← ih (by omega : w ≤ v), Nat.add_min_add_right]

theorem alignedPrefix_eq {w : Nat} (hw : w ≤ 128) (value : Nat) :
    alignedPrefix value w = some (w - trailingZeros w value) := by
  unfold alignedPrefix
  split_ifs with hzero
  · rw [hzero, trailingZeros_zero, Nat.sub_self]
  · rw [trailingZeros_min hw, sub_of_le (trailingZeros_le _ _)]

theorem blockEnd_eq {w start bits : Nat} (hw : w ≤ 128) (hstart : start < 2 ^ w)
    (hbits : bits ≤ trailingZeros w start) :
    blockEnd start (w - bits) w = some (start + 2 ^ bits - 1) := by
  have hle : bits ≤ w := hbits.trans (trailingZeros_le _ _)
  have hpos := Nat.two_pow_pos bits
  have hdvd : 2 ^ bits ∣ start := (Nat.pow_dvd_pow 2 hbits).trans (pow_trailingZeros_dvd w start)
  -- An aligned block does not cross the end of the address space.
  have hfits : start + 2 ^ bits ≤ 2 ^ w := by
    have hrest := Nat.le_of_dvd (by omega) (Nat.dvd_sub (Nat.pow_dvd_pow 2 hle) hdvd)
    omega
  have htop : (2 : Nat) ^ w ≤ 2 ^ 128 := Nat.pow_le_pow_right (by decide) hw
  rw [blockEnd, sub_of_le (Nat.sub_le _ _), Option.bind_eq_bind, Option.bind_some, Nat.sub_sub_self hle]
  split_ifs with hfull
  · subst hfull
    have hzero : start = 0 := by
      have hw : w = 128 := Nat.le_antisymm hw hle
      subst hw
      omega
    rw [hzero, maxU128, Nat.zero_add]
    rfl
  · rw [shl_one (by omega), Option.bind_some, sub_of_le hpos, Option.bind_some,
      saturatingAdd_of_lt (by omega)]
    rw [Nat.add_sub_assoc hpos]
    rfl

theorem raiseLen_eq {w start stop : Nat} (hw : w ≤ 128) (h : start ≤ stop) (hstop : stop < 2 ^ w) :
    raiseLen start stop w (w - trailingZeros w start) = some (w - hostBits w start stop) := by
  rw [hostBits_eq]
  refine raise_eq h (trailingZeros_le _ _) fun b hb => ?_
  have hpos := Nat.two_pow_pos b
  have hle : b ≤ w := hb.trans (trailingZeros_le _ _)
  rw [raiseLen, if_pos (Nat.sub_le _ _), blockEnd_eq hw (by omega) hb, Option.bind_eq_bind, Option.bind_some]
  by_cases hfit : start + 2 ^ b ≤ stop + 1
  · rw [if_neg (by omega), if_pos hfit]
    rfl
  · have hb0 : b ≠ 0 := by
      rintro rfl
      omega
    rw [if_pos (by omega), if_neg hfit, if_neg (by omega)]

theorem cidrTurn_eq {w start stop : Nat} (hw : w ≤ 128) (h : start ≤ stop) (hstop : stop < 2 ^ w)
    {emit : Subnet w → IpNet}
    (hemit : ∀ bits, netFromParts start (w - bits) w = some (emit (blockAt w start bits))) :
    cidrTurn stop w start =
      some (emit (blockAt w start (hostBits w start stop)), start + 2 ^ hostBits w start stop - 1) := by
  have hend : blockEnd start (w - hostBits w start stop) w = some (start + 2 ^ hostBits w start stop - 1) :=
    blockEnd_eq hw (by omega) (Nat.min_le_left _ _)
  simp only [cidrTurn, alignedPrefix_eq hw, raiseLen_eq hw h hstop, hemit, hend, Option.bind_eq_bind,
    Option.bind_some]
  rfl

theorem cidrsFrom_of_turn {stop bits cur last : Nat} {net : IpNet}
    (h : cidrTurn stop bits cur = some (net, last)) :
    cidrsFrom stop bits cur =
      if last = maxU128 ∨ last ≥ stop then some [net]
      else (cidrsFrom stop bits (last + 1)).map (net :: ·) := by
  rw [cidrsFrom]
  split
  · rename_i hnone
    rw [hnone] at h
    cases h
  · rename_i net' last' hsome
    rw [hsome] at h
    cases h
    split_ifs <;> rfl

/-- **The loop returns the networks of the interval.** -/
theorem cidrsFrom_eq {w start stop : Nat} (hw : w ≤ 128) (h : start ≤ stop) (hstop : stop < 2 ^ w)
    (emit : Subnet w → IpNet)
    (hemit : ∀ start bits, netFromParts start (w - bits) w = some (emit (blockAt w start bits))) :
    cidrsFrom stop w start = some ((rangeNetworks w start stop).map emit) := by
  have htop : (2 : Nat) ^ w ≤ 2 ^ 128 := Nat.pow_le_pow_right (by decide) hw
  induction start using rangeNetworks.induct w stop with
  | case1 start hnext ih =>
    have hpos := Nat.two_pow_pos (hostBits w start stop)
    rw [cidrsFrom_of_turn (cidrTurn_eq hw h hstop (hemit start)), rangeNetworks, if_pos hnext,
      if_neg (by rw [maxU128]; omega), Nat.sub_add_cancel (by omega), ih hnext]
    rfl
  | case2 start hlast =>
    have hend := pow_hostBits_le (w := w) h
    rw [cidrsFrom_of_turn (cidrTurn_eq hw h hstop (hemit start)), rangeNetworks, if_neg hlast,
      if_pos (.inr (by omega))]
    rfl

/-! ### Addresses as numbers -/

/-- The width of an address. -/
def width : IpAddr → Nat
  | .v4 _ => 32
  | .v6 _ => 128

/-- An address as a number. -/
def number : IpAddr → Nat
  | .v4 a => a.toNat
  | .v6 a => a.toNat

/-- Some network of the list contains the address. -/
def Routed (nets : List IpNet) (ip : IpAddr) : Prop := ∃ n ∈ nets, n.contains ip = true

/-- No address is in two networks of the list. -/
def Disjoint (nets : List IpNet) : Prop :=
  nets.Pairwise fun m n => ∀ ip, ¬(m.contains ip = true ∧ n.contains ip = true)

/-- The networks for a range have its addresses, each of them once. -/
theorem rangeToCidrs_spec {start stop bits : Nat} (hbits : bits = 32 ∨ bits = 128) (h : start ≤ stop)
    (hstop : stop < 2 ^ bits) :
    ∃ nets, rangeToCidrs start stop bits = some nets ∧ Disjoint nets ∧
      ∀ ip, Routed nets ip ↔ width ip = bits ∧ start ≤ number ip ∧ number ip ≤ stop := by
  rw [rangeToCidrs, if_neg (Nat.not_lt.2 h)]
  rcases hbits with rfl | rfl
  · have hcuts := rangeNetworks_cuts h hstop
    refine ⟨_, cidrsFrom_eq (by decide) h hstop .v4 fun start bits => ?_, ?_, fun ip => ?_⟩
    · rw [netFromParts, if_pos rfl, newNet_blockAt]
      rfl
    · rw [Disjoint, List.pairwise_map]
      refine hcuts.disjoint.imp fun {m n} hmn ip => ?_
      cases ip with
      | v4 a => exact hmn a
      | v6 a => exact fun hboth => absurd hboth.1 (by simp [IpNet.contains])
    · cases ip with
      | v4 a => simpa [Routed, IpNet.contains, width, number, Covers] using hcuts.covers a
      | v6 a => simp [Routed, IpNet.contains, width]
  · have hcuts := rangeNetworks_cuts h hstop
    refine ⟨_, cidrsFrom_eq (by decide) h hstop .v6 fun start bits => ?_, ?_, fun ip => ?_⟩
    · rw [netFromParts, if_neg (by decide), newNet_blockAt]
      rfl
    · rw [Disjoint, List.pairwise_map]
      refine hcuts.disjoint.imp fun {m n} hmn ip => ?_
      cases ip with
      | v4 a => exact fun hboth => absurd hboth.1 (by simp [IpNet.contains])
      | v6 a => exact hmn a
    · cases ip with
      | v4 a => simp [Routed, IpNet.contains, width]
      | v6 a => simpa [Routed, IpNet.contains, width, number, Covers] using hcuts.covers a

/-! ### Cutting -/

theorem mapM_eq_some {α β : Type} {f : α → Option β} {g : α → β} {l : List α}
    (h : ∀ x ∈ l, f x = some (g x)) : l.mapM f = some (l.map g) := by
  induction l with
  | nil => rfl
  | cons x l ih =>
    rw [List.forall_mem_cons] at h
    rw [List.mapM_cons, h.1, ih h.2]
    rfl

theorem cutRange_eq {exclude : NetRange} {range : Nat × Nat} (hbound : range.2 < 2 ^ 128) :
    cutRange exclude range = some (without exclude.start exclude.stop range) := by
  unfold cutRange without
  split_ifs with hout hleft hright hright
  · rfl
  · rw [sub_of_le (by omega), add_of_lt (by omega)]
    rfl
  · rw [sub_of_le (by omega)]
    rfl
  · rw [add_of_lt (by omega)]
    rfl
  · rfl

/-- Every exclusion has a range, and none is empty. -/
def Ranged (nets : List IpNet) : Prop := ∀ n ∈ nets, ∃ r, NetRange.fromNet n = some r ∧ r.start ≤ r.stop

/-- The number is in the range of a network of the family. -/
def Excluded (bits : Nat) (nets : List IpNet) (x : Nat) : Prop :=
  ∃ n ∈ nets, ∃ r, NetRange.fromNet n = some r ∧ r.bits = bits ∧ r.start ≤ x ∧ x ≤ r.stop

theorem excluded_cons {bits : Nat} {net : IpNet} {nets : List IpNet} {r : NetRange} {x : Nat}
    (h : NetRange.fromNet net = some r) :
    Excluded bits (net :: nets) x ↔ (r.bits = bits ∧ r.start ≤ x ∧ x ≤ r.stop) ∨ Excluded bits nets x := by
  simp [Excluded, h]

/-- What is left of the ranges is what no exclusion of the family has. -/
theorem cutAll_spec (bits : Nat) {excludes : List IpNet} {ranges : List (Nat × Nat)} (hex : Ranged excludes)
    (hapart : Apart ranges) (hbound : ∀ r ∈ ranges, r.2 < 2 ^ 128) :
    ∃ left, cutAll bits excludes ranges = some left ∧ Apart left ∧
      ∀ x, InSome left x ↔ InSome ranges x ∧ ¬Excluded bits excludes x := by
  induction excludes generalizing ranges with
  | nil => exact ⟨ranges, rfl, hapart, fun x => by simp [Excluded]⟩
  | cons net excludes ih =>
    rw [Ranged, List.forall_mem_cons] at hex
    obtain ⟨⟨exclude, hnet, hle⟩, hex⟩ := hex
    rw [cutAll, hnet, Option.bind_eq_bind, Option.bind_some]
    split_ifs with hbits
    · -- A network of the other family is passed over.
      obtain ⟨left, hleft, hleftApart, hmem⟩ := ih hex hapart hbound
      refine ⟨left, hleft, hleftApart, fun x => ?_⟩
      rw [hmem, excluded_cons hnet]
      have : exclude.bits ≠ bits := fun h => hbits h.symm
      tauto
    · rw [not_not] at hbits
      rw [mapM_eq_some fun r hr => cutRange_eq (hbound r hr), Option.bind_eq_bind, Option.bind_some,
        ← List.flatMap_def]
      have hcut : ∀ x, InSome (ranges.flatMap (without exclude.start exclude.stop)) x ↔
          InSome ranges x ∧ ¬(exclude.start ≤ x ∧ x ≤ exclude.stop) := fun x => inSome_flatMap_without hle
      split_ifs with hempty
      · -- Nothing is left, and the other exclusions are not looked at.
        rw [List.isEmpty_iff] at hempty
        refine ⟨[], rfl, ⟨by simp, .nil⟩, fun x => ?_⟩
        have hnone := hcut x
        rw [hempty] at hnone
        rw [excluded_cons hnet]
        constructor
        · rintro ⟨r, hr, -⟩
          cases hr
        · rintro ⟨hx, hnot⟩
          exact hnone.2 ⟨hx, fun h => hnot (.inl ⟨hbits.symm, h⟩)⟩
      · have hnextBound : ∀ r ∈ ranges.flatMap (without exclude.start exclude.stop), r.2 < 2 ^ 128 := by
          intro s hs
          obtain ⟨r, hr, hsr⟩ := List.mem_flatMap.1 hs
          have := (bounds_of_mem_without (hapart.nonempty r hr) hsr).2.2
          exact this.trans_lt (hbound r hr)
        obtain ⟨left, hleft, hleftApart, hmem⟩ := ih hex (hapart.flatMap_without hle) hnextBound
        refine ⟨left, hleft, hleftApart, fun x => ?_⟩
        rw [hmem, hcut, excluded_cons hnet]
        have := hbits.symm
        tauto

/-- **What becomes of a network to include**: networks that share no address, for the addresses in its range
that are in no range to exclude. -/
theorem subtractOne_spec {net : IpNet} {excludes : List IpNet} {range : NetRange}
    (hnet : NetRange.fromNet net = some range) (hbits : range.bits = 32 ∨ range.bits = 128)
    (hle : range.start ≤ range.stop) (hstop : range.stop < 2 ^ range.bits) (hex : Ranged excludes) :
    ∃ nets, subtractOne excludes net = some nets ∧ Disjoint nets ∧
      ∀ ip, Routed nets ip ↔ width ip = range.bits ∧ (range.start ≤ number ip ∧ number ip ≤ range.stop) ∧
        ¬Excluded range.bits excludes (number ip) := by
  have htop : (2 : Nat) ^ range.bits ≤ 2 ^ 128 := Nat.pow_le_pow_right (by decide) (by omega)
  obtain ⟨left, hleft, hapart, hmem⟩ := cutAll_spec range.bits hex (Apart.singleton hle)
    (by simpa using hstop.trans_le htop)
  -- What is left lies within the range of the network.
  have hwithin : ∀ r ∈ left, r.1 ≤ r.2 ∧ r.2 ≤ range.stop := by
    intro r hr
    have hr' := hapart.nonempty r hr
    obtain ⟨⟨s, hs, -, hx⟩, -⟩ := (hmem r.2).1 ⟨r, hr, hr', Nat.le_refl _⟩
    rw [List.mem_singleton.1 hs] at hx
    exact ⟨hr', hx⟩
  have hspec : ∀ r ∈ left, ∃ nets, rangeToCidrs r.1 r.2 range.bits = some nets ∧ Disjoint nets ∧
      ∀ ip, Routed nets ip ↔ width ip = range.bits ∧ r.1 ≤ number ip ∧ number ip ≤ r.2 := fun r hr =>
    rangeToCidrs_spec hbits (hwithin r hr).1 ((hwithin r hr).2.trans_lt hstop)
  choose! nets hnets using hspec
  refine ⟨(left.map nets).flatten, ?_, ?_, fun ip => ?_⟩
  · simp only [subtractOne, hnet, hleft, mapM_eq_some fun r hr => (hnets r hr).1, Option.bind_eq_bind,
      Option.bind_some]
    rfl
  · rw [Disjoint, List.pairwise_flatten]
    refine ⟨?_, ?_⟩
    · intro part hpart
      obtain ⟨r, hr, rfl⟩ := List.mem_map.1 hpart
      exact (hnets r hr).2.1
    · rw [List.pairwise_map]
      refine hapart.apart.imp_of_mem fun {r s} hr hs hlt m hm n hn ip hboth => ?_
      have hrip := ((hnets r hr).2.2 ip).1 ⟨m, hm, hboth.1⟩
      have hsip := ((hnets s hs).2.2 ip).1 ⟨n, hn, hboth.2⟩
      omega
  · have hall : Routed (left.map nets).flatten ip ↔ width ip = range.bits ∧ InSome left (number ip) := by
      constructor
      · rintro ⟨n, hn, hip⟩
        obtain ⟨part, hpart, hmemPart⟩ := List.mem_flatten.1 hn
        obtain ⟨r, hr, rfl⟩ := List.mem_map.1 hpart
        obtain ⟨hwidth, hx⟩ := ((hnets r hr).2.2 ip).1 ⟨n, hmemPart, hip⟩
        exact ⟨hwidth, r, hr, hx⟩
      · rintro ⟨hwidth, r, hr, hx⟩
        obtain ⟨n, hn, hip⟩ := ((hnets r hr).2.2 ip).2 ⟨hwidth, hx⟩
        exact ⟨n, List.mem_flatten.2 ⟨_, List.mem_map_of_mem hr, hn⟩, hip⟩
    rw [hall, hmem]
    simp [InSome]

/-! ### The range of a network -/

/-- A network of IPv6, not the whole address space, that ends at the last address. -/
def EndsAtTop : IpNet → Prop
  | .v4 _ => False
  | .v6 n => 0 < n.len ∧ n.broadcast = BitVec.allOnes 128

/-- The interval of a network is the one of its addresses, and is computed without overflow. -/
def Sound (n : IpNet) : Prop := n.hasHostBits = false ∧ ¬EndsAtTop n

/-- The range of a network of its own addresses. -/
def ownRange : IpNet → NetRange
  | .v4 n => ⟨n.network.toNat, n.broadcast.toNat, 32⟩
  | .v6 n => ⟨n.network.toNat, n.broadcast.toNat, 128⟩

theorem toNat_broadcast_eq {w : Nat} (n : Subnet w) : n.broadcast.toNat = n.network.toNat + n.size - 1 := by
  rw [toNat_broadcast, toNat_network]
  have := n.size_pos
  omega

theorem contains_iff_ownRange (n : IpNet) (ip : IpAddr) :
    n.contains ip = true ↔
      width ip = (ownRange n).bits ∧ (ownRange n).start ≤ number ip ∧ number ip ≤ (ownRange n).stop := by
  cases n with
  | v4 n =>
    cases ip with
    | v4 a => simp [IpNet.contains, Subnet.contains, width, number, ownRange, BitVec.le_def]
    | v6 a => simp [IpNet.contains, width, ownRange]
  | v6 n =>
    cases ip with
    | v4 a => simp [IpNet.contains, width, ownRange]
    | v6 a => simp [IpNet.contains, Subnet.contains, width, number, ownRange, BitVec.le_def]

theorem fromNet_v4 (n : Subnet 32) :
    NetRange.fromNet (.v4 n) = some ⟨n.addr.toNat, n.addr.toNat + n.size - 1, 32⟩ := by
  have hlt := n.addr.isLt
  have hpos := n.size_pos
  have hsize : n.size ≤ 2 ^ 32 := Nat.pow_le_pow_right (by decide) (Nat.sub_le _ _)
  have hsmall : (2 : Nat) ^ 32 + 2 ^ 32 < 2 ^ 128 := by decide
  have hshl : (if 32 - n.len = 32 then shl 128 1 32 else shl 128 1 (32 - n.len)) = some n.size := by
    split_ifs with hfull
    · rw [shl_one (by decide), size, hfull]
    · rw [shl_one (by omega), size]
  rw [NetRange.fromNet, sub_of_le n.len_le, Option.bind_eq_bind, Option.bind_some, hshl, Option.bind_some,
    add_of_lt (by omega), Option.bind_some, sub_of_le (by omega)]
  rfl

theorem fromNet_v6 (n : Subnet 128) :
    NetRange.fromNet (.v6 n) =
      if n.len = 0 then some ⟨n.addr.toNat, maxU128, 128⟩
      else if n.addr.toNat + n.size < 2 ^ 128 then some ⟨n.addr.toNat, n.addr.toNat + n.size - 1, 128⟩
      else none := by
  have hpos := n.size_pos
  have hlen := n.len_le
  rw [NetRange.fromNet, sub_of_le n.len_le, Option.bind_eq_bind, Option.bind_some]
  by_cases hzero : n.len = 0
  · rw [if_pos hzero, if_pos (by omega)]
    rfl
  · rw [if_neg hzero, if_neg (by omega), shl_one (by omega), Option.bind_eq_bind, Option.bind_some, ← size]
    split_ifs with hfits
    · rw [add_of_lt hfits, Option.bind_some, sub_of_le (by omega)]
      rfl
    · rw [add_of_le (by omega)]
      rfl

theorem fromNet_of_sound {n : IpNet} (h : Sound n) : NetRange.fromNet n = some (ownRange n) := by
  obtain ⟨hhost, htop⟩ := h
  cases n with
  | v4 n =>
    have haddr : n.network = n.addr := by simpa [IpNet.hasHostBits, Subnet.hasHostBits] using hhost
    rw [fromNet_v4, ownRange, toNat_broadcast_eq, haddr]
  | v6 n =>
    have haddr : n.network = n.addr := by simpa [IpNet.hasHostBits, Subnet.hasHostBits] using hhost
    have hlast := toNat_broadcast_eq n
    have hlt := n.broadcast.isLt
    have hpos := n.size_pos
    rw [fromNet_v6, ownRange, ← haddr]
    split_ifs with hzero hfits
    · have hsize : n.size = 2 ^ 128 := by rw [size, hzero]
      rw [hlast, maxU128, hsize]
      congr 2
      omega
    · rw [hlast]
    · -- The last address would be the last of all.
      refine absurd ⟨Nat.pos_of_ne_zero hzero, BitVec.eq_of_toNat_eq ?_⟩ htop
      rw [BitVec.toNat_allOnes]
      omega

theorem ownRange_bounds (n : IpNet) :
    ((ownRange n).bits = 32 ∨ (ownRange n).bits = 128) ∧ (ownRange n).start ≤ (ownRange n).stop ∧
      (ownRange n).stop < 2 ^ (ownRange n).bits := by
  cases n with
  | v4 n =>
    have := n.size_pos
    exact ⟨.inl rfl, by simp only [ownRange, toNat_broadcast_eq]; omega, n.broadcast.isLt⟩
  | v6 n =>
    have := n.size_pos
    exact ⟨.inr rfl, by simp only [ownRange, toNat_broadcast_eq]; omega, n.broadcast.isLt⟩

/-! ### The routes -/

/-- The routes are those of the networks to include without those to exclude; the networks for each of them
share no address. -/
def Exact (includes excludes : List IpNet) : Prop :=
  ∃ out parts, subtractRoutes includes excludes = some out ∧
    (∀ ip, Routed out ip ↔ Routed includes ip ∧ ¬Routed excludes ip) ∧ out.Perm parts.flatten ∧
    List.Forall₂ (fun net part => subtractOne excludes net = some part ∧ Disjoint part) includes parts

theorem excluded_iff_of_sound {excludes : List IpNet} (h : ∀ n ∈ excludes, Sound n) (ip : IpAddr) :
    Excluded (width ip) excludes (number ip) ↔ Routed excludes ip := by
  constructor
  · rintro ⟨n, hn, r, hr, hbits, hx⟩
    rw [fromNet_of_sound (h n hn)] at hr
    cases hr
    exact ⟨n, hn, (contains_iff_ownRange n ip).2 ⟨hbits.symm, hx⟩⟩
  · rintro ⟨n, hn, hip⟩
    obtain ⟨hbits, hx⟩ := (contains_iff_ownRange n ip).1 hip
    exact ⟨n, hn, _, fromNet_of_sound (h n hn), hbits.symm, hx⟩

theorem subtractRoutes_eq_some {includes excludes : List IpNet} {parts : List (List IpNet)}
    (h : includes.mapM (subtractOne excludes) = some parts) :
    ∃ out, subtractRoutes includes excludes = some out ∧ out.Perm parts.flatten := by
  refine ⟨parts.flatten.insertionSort fun m n => netSortKey m ≤ netSortKey n, ?_, List.perm_insertionSort _ _⟩
  rw [subtractRoutes, h]
  rfl

theorem exact_of_sound {includes excludes : List IpNet} (hin : ∀ n ∈ includes, Sound n)
    (hex : ∀ n ∈ excludes, Sound n) : Exact includes excludes := by
  have hranged : Ranged excludes := fun n hn =>
    ⟨_, fromNet_of_sound (hex n hn), (ownRange_bounds n).2.1⟩
  have hone : ∀ n ∈ includes, ∃ part, subtractOne excludes n = some part ∧ Disjoint part ∧
      ∀ ip, Routed part ip ↔ n.contains ip = true ∧ ¬Routed excludes ip := by
    intro n hn
    obtain ⟨hbits, hle, hstop⟩ := ownRange_bounds n
    obtain ⟨part, hpart, hdisjoint, hspec⟩ :=
      subtractOne_spec (fromNet_of_sound (hin n hn)) hbits hle hstop hranged
    refine ⟨part, hpart, hdisjoint, fun ip => ?_⟩
    rw [hspec, contains_iff_ownRange]
    constructor
    · rintro ⟨hwidth, hx, hnot⟩
      rw [← hwidth, excluded_iff_of_sound hex] at hnot
      exact ⟨⟨hwidth, hx⟩, hnot⟩
    · rintro ⟨⟨hwidth, hx⟩, hnot⟩
      rw [← excluded_iff_of_sound hex, hwidth] at hnot
      exact ⟨hwidth, hx, hnot⟩
  choose! part hpart using hone
  obtain ⟨out, hout, hperm⟩ := subtractRoutes_eq_some (mapM_eq_some fun n hn => (hpart n hn).1)
  refine ⟨out, includes.map part, hout, fun ip => ?_, hperm, ?_⟩
  · constructor
    · rintro ⟨m, hm, hip⟩
      obtain ⟨nets, hnets, hmem⟩ := List.mem_flatten.1 (hperm.mem_iff.1 hm)
      obtain ⟨n, hn, rfl⟩ := List.mem_map.1 hnets
      obtain ⟨hcontains, hnot⟩ := ((hpart n hn).2.2 ip).1 ⟨m, hmem, hip⟩
      exact ⟨⟨n, hn, hcontains⟩, hnot⟩
    · rintro ⟨⟨n, hn, hcontains⟩, hnot⟩
      obtain ⟨m, hm, hip⟩ := ((hpart n hn).2.2 ip).2 ⟨hcontains, hnot⟩
      exact ⟨m, hperm.mem_iff.2 (List.mem_flatten.2 ⟨_, List.mem_map_of_mem hn, hm⟩), hip⟩
  · rw [List.forall₂_map_right_iff, List.forall₂_same]
    exact fun n hn => ⟨(hpart n hn).1, (hpart n hn).2.1⟩

/-! ### Where the routes are not exact -/

theorem trunc_network {w : Nat} (n : Subnet w) : n.trunc.network = n.network := by
  apply BitVec.eq_of_toNat_eq
  rw [toNat_network, toNat_network, trunc_block, trunc_size]

theorem trunc_broadcast {w : Nat} (n : Subnet w) : n.trunc.broadcast = n.broadcast := by
  apply BitVec.eq_of_toNat_eq
  rw [toNat_broadcast_eq, toNat_broadcast_eq, trunc_network, trunc_size]

theorem ownRange_trunc (n : IpNet) : ownRange n.trunc = ownRange n := by
  cases n <;> simp only [IpNet.trunc, ownRange, trunc_network, trunc_broadcast]

theorem sound_trunc {n : IpNet} (h : ¬EndsAtTop n) : Sound n.trunc := by
  cases n with
  | v4 n =>
    refine ⟨?_, h⟩
    rw [IpNet.trunc, IpNet.hasHostBits, Subnet.hasHostBits, trunc_network]
    exact bne_self_eq_false _
  | v6 n =>
    refine ⟨?_, fun htop => ?_⟩
    · rw [IpNet.trunc, IpNet.hasHostBits, Subnet.hasHostBits, trunc_network]
      exact bne_self_eq_false _
    obtain ⟨hlen, hlast⟩ := htop
    exact h ⟨hlen, (trunc_broadcast n).symm.trans hlast⟩

theorem network_le_addr {w : Nat} (n : Subnet w) :
    n.network.toNat ≤ n.addr.toNat ∧ n.addr.toNat ≤ n.broadcast.toNat := by
  have hself := (contains_iff n n.addr).2 rfl
  simpa [Subnet.contains, BitVec.le_def] using hself

theorem network_lt_addr {w : Nat} {n : Subnet w} (h : n.hasHostBits = true) :
    n.network.toNat < n.addr.toNat := by
  refine lt_of_le_of_ne (network_le_addr n).1 fun heq => ?_
  have haddr : n.network = n.addr := BitVec.eq_of_toNat_eq heq
  simp [Subnet.hasHostBits, haddr] at h

theorem fromNet_of_endsAtTop {n : IpNet} (h : EndsAtTop n) : NetRange.fromNet n.trunc = none := by
  cases n with
  | v4 n => exact h.elim
  | v6 n =>
    obtain ⟨hlen, htop⟩ := h
    have hlast := toNat_broadcast_eq n
    have hpos := n.size_pos
    rw [htop, BitVec.toNat_allOnes] at hlast
    have haddr : n.trunc.addr.toNat = n.network.toNat := rfl
    rw [IpNet.trunc, fromNet_v6, if_neg (show ¬n.trunc.len = 0 from Nat.ne_of_gt hlen), haddr, trunc_size,
      if_neg (by omega)]

/-- The interval of a network with host bits starts late, and ends no earlier than the network. -/
theorem fromNet_of_hasHostBits {n : IpNet} (hhost : n.hasHostBits = true) (htop : ¬EndsAtTop n) :
    ∃ r, NetRange.fromNet n = some r ∧ r.bits = (ownRange n).bits ∧ (ownRange n).start < r.start ∧
      r.start ≤ r.stop := by
  cases n with
  | v4 n =>
    have hlt := network_lt_addr hhost
    have hpos := n.size_pos
    exact ⟨_, fromNet_v4 n, rfl, hlt, by dsimp only; omega⟩
  | v6 n =>
    have hlt := network_lt_addr hhost
    have hpos := n.size_pos
    rw [fromNet_v6]
    split_ifs with hzero hfits
    · refine ⟨_, rfl, rfl, hlt, ?_⟩
      have := n.addr.isLt
      dsimp only
      rw [maxU128]
      omega
    · exact ⟨_, rfl, rfl, hlt, by dsimp only; omega⟩
    · -- The network would be the last of its size.
      refine absurd ⟨Nat.pos_of_ne_zero hzero, BitVec.eq_of_toNat_eq ?_⟩ htop
      have hlast := (network_le_addr n).2
      have hblock : n.block + 1 = 2 ^ n.len := by
        refine Nat.le_antisymm n.block_lt ?_
        by_contra hmore
        have hroom : (n.block + 2) * n.size ≤ 2 ^ n.len * n.size := Nat.mul_le_mul_right _ (by omega)
        rw [Nat.mul_comm (2 ^ n.len), n.size_mul, Nat.add_mul, ← toNat_network] at hroom
        rw [toNat_broadcast_eq] at hlast
        omega
      have hend : (n.block + 1) * n.size = 2 ^ 128 := by rw [hblock, Nat.mul_comm, n.size_mul]
      rw [toNat_broadcast, BitVec.toNat_allOnes, ← hend, Nat.add_mul, Nat.one_mul, Nat.add_sub_assoc hpos]

/-- The first address of a network. -/
def firstAddr : IpNet → IpAddr
  | .v4 n => .v4 n.network
  | .v6 n => .v6 n.network

theorem firstAddr_spec (n : IpNet) :
    width (firstAddr n) = (ownRange n).bits ∧ number (firstAddr n) = (ownRange n).start := by
  cases n <;> exact ⟨rfl, rfl⟩

theorem not_exact_of_not_sound {n : IpNet} (h : ¬Sound n) : ¬Exact [n.trunc] [n] := by
  rintro ⟨out, parts, hout, hunion, -, -⟩
  by_cases htop : EndsAtTop n
  · -- The sum overflows before anything is cut.
    simp [subtractRoutes, subtractOne, fromNet_of_endsAtTop htop] at hout
  · have hhost : n.hasHostBits = true := by
      by_contra hno
      exact h ⟨Bool.eq_false_iff.2 hno, htop⟩
    obtain ⟨r, hr, hbits, hlate, hle⟩ := fromNet_of_hasHostBits hhost htop
    obtain ⟨hown, hownLe, hownLt⟩ := ownRange_bounds n.trunc
    have hranged : Ranged [n] := by simpa [Ranged] using ⟨r, hr, hle⟩
    obtain ⟨part, hpart, -, hspec⟩ :=
      subtractOne_spec (fromNet_of_sound (sound_trunc htop)) hown hownLe hownLt hranged
    have hparts : [n.trunc].mapM (subtractOne [n]) = some [part] := by simp [hpart]
    obtain ⟨out', hout', hperm⟩ := subtractRoutes_eq_some hparts
    rw [hout'] at hout
    cases hout
    -- The first address of the network is left, although it is excluded.
    obtain ⟨hwidth, hnumber⟩ := firstAddr_spec n
    rw [ownRange_trunc] at hspec hownLe
    have hleft : Routed part (firstAddr n) := by
      rw [hspec, hnumber]
      refine ⟨hwidth, ⟨Nat.le_refl _, hownLe⟩, ?_⟩
      rintro ⟨m, hm, r', hr', -, hx⟩
      rw [List.mem_singleton.1 hm, hr] at hr'
      cases hr'
      omega
    have hroute : Routed out (firstAddr n) := by
      obtain ⟨m, hm, hip⟩ := hleft
      exact ⟨m, hperm.mem_iff.2 (by simpa using hm), hip⟩
    refine ((hunion _).1 hroute).2 ⟨n, List.mem_singleton_self _, ?_⟩
    rw [contains_iff_ownRange, hnumber]
    exact ⟨hwidth, Nat.le_refl _, hownLe⟩

end WutherCore.Capture.Android
