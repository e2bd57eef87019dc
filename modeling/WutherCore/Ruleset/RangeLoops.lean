import WutherCore.Data.Loop
import WutherCore.Net.Range
import WutherCore.Ruleset.Prefixes

/-!
# The loops that cut an interval

An interval of addresses becomes prefixes in three places: the published prefixes of an MRS set
(`append_ipv4_range`, `append_ipv6_range`), a compiled SRS set (`ipv4_range_to_networks`,
`ipv6_range_to_networks`), and the entries of an MRS set (`v4_range_to_cidrs`,
`v6_range_to_cidrs`).  Each loop has its own arithmetic on machine integers, and a subtraction,
addition or shift out of their bounds is a panic.

Five of the loops return `rangeNetworks` for every interval.  The sixth, `v6_range_to_cidrs`,
takes `u128::MAX` for the size of the whole address space and saturates at its end: it does not
come to an end for an interval up to the last address, and takes the interval up to the address
before for the whole space.
-/

namespace WutherCore.Ruleset

open WutherCore.Net WutherCore.Data Subnet Checked

/-- `Ipv4Net::new` and `Ipv6Net::new`, where the code expects a valid length. -/
def newNet (w start len : Nat) : Option (Subnet w) :=
  if h : len ≤ w then some ⟨BitVec.ofNat w start, len, h⟩ else none

/-- The `range_bits` of `append_ipv4_range` and of `append_ipv6_range`. -/
def appendRangeBits (w difference : Nat) : Option Nat :=
  if difference = 2 ^ w - 1 then some w
  else do sub (← sub w (leadingZeros w (← add w difference 1))) 1

/-- One turn of `append_ipv4_range` and of `append_ipv6_range`. -/
def appendTurn (w stop : Nat) : Nat × List (Subnet w) × Nat →
    Option (Turn (Nat × List (Subnet w) × Nat)
      (Except RulesetPrefixError (List (Subnet w) × Nat)))
  | (start, output) => do
      let alignmentBits := trailingZeros w start
      let difference ← sub stop start
      let rangeBits ← appendRangeBits w difference
      let hostBits := min alignmentBits rangeBits
      let prefixLen ← sub w hostBits
      let net ← newNet w start prefixLen
      match reservePush output net with
      | .error e => return .stop (.error e)
      | .ok output =>
          if hostBits = w then return .stop (.ok output)
          else
            let blockSize ← shl w 1 hostBits
            match add w start blockSize with
            | none => return .stop (.ok output)
            | some next =>
                if next > stop then return .stop (.ok output)
                else return .again (next, output)

/-- `append_ipv4_range` and `append_ipv6_range`: the interval is checked, then the loop runs. -/
def AppendsRange (w : Nat) (family : String) (start stop : BitVec w)
    (state : List (Subnet w) × Nat) (result : Except RulesetPrefixError (List (Subnet w) × Nat)) :
    Prop :=
  if start > stop then result = .error (.invalidRange family)
  else Returns (appendTurn w stop.toNat) (start.toNat, state) result

/-- One turn of `ipv4_range_to_networks`, in 64-bit integers. -/
def ipv4RangeTurn (stop : Nat) :
    Nat × List IpNet → Option (Turn (Nat × List IpNet) (List IpNet))
  | (start, output) => do
      let alignedBits := trailingZeros 32 start
      let remaining ← add 64 (← sub stop start) 1
      let rangeBits ← sub 63 (leadingZeros 64 remaining)
      let blockBits := min alignedBits rangeBits
      let len ← sub 32 blockBits
      let net ← newNet 32 start len
      let next ← add 64 start (← shl 64 1 blockBits)
      if next > stop then return .stop (output ++ [.v4 net])
      else return .again (next % 2 ^ 32, output ++ [.v4 net])

/-- `u128::MAX`. -/
def maxU128 : Nat := 2 ^ 128 - 1

/-- The `range_bits` of `ipv6_range_to_networks`. -/
def ipv6RangeBits (start stop : Nat) : Option Nat :=
  if start = 0 ∧ stop = maxU128 then some 128
  else do sub 127 (leadingZeros 128 (← add 128 (← sub stop start) 1))

/-- One turn of `ipv6_range_to_networks`. -/
def ipv6RangeTurn (stop : Nat) :
    Nat × List IpNet → Option (Turn (Nat × List IpNet) (List IpNet))
  | (start, output) => do
      let alignedBits := trailingZeros 128 start
      let rangeBits ← ipv6RangeBits start stop
      let blockBits := min alignedBits rangeBits
      let len ← sub 128 blockBits
      let net ← newNet 128 start len
      if blockBits = 128 then return .stop (output ++ [.v6 net])
      else
        match add 128 start (← shl 128 1 blockBits) with
        | none => return .stop (output ++ [.v6 net])
        | some next =>
            if next > stop then return .stop (output ++ [.v6 net])
            else return .again (next, output ++ [.v6 net])

/-- The inner loop of `v4_range_to_cidrs`: the length grows until the block ends in the interval. -/
def raiseV4 (start stop len : Nat) : Option Nat := do
  let blockSize ← shl 64 1 (← sub 32 len)
  let last ← sub (← add 64 start blockSize) 1
  if last ≤ stop then return len
  else if len + 1 > 32 then return len + 1
  else raiseV4 start stop (len + 1)
termination_by 33 - len

/-- One turn of `v4_range_to_cidrs`. -/
def v4CidrsTurn (stop : Nat) :
    Nat × List (Subnet 32) → Option (Turn (Nat × List (Subnet 32)) (List (Subnet 32)))
  | (start, output) =>
      if start > stop then some (.stop output)
      else do
        let maxSize := if start = 0 then 32 else min (trailingZeros 32 start) 32
        let len ← raiseV4 start stop (← sub 32 maxSize)
        if len > 32 then return .stop output
        else
          let net ← newNet 32 start len
          let next ← add 64 start (← shl 64 1 (← sub 32 len))
          if next > 2 ^ 32 - 1 then return .stop (output ++ [net])
          else if next % 2 ^ 32 = 0 then return .stop (output ++ [net])
          else return .again (next % 2 ^ 32, output ++ [net])

/-- The size of a block in `v6_range_to_cidrs`. -/
def blockV6 (len : Nat) : Option Nat := do
  let bits ← sub 128 len
  if bits ≥ 128 then return maxU128 else shl 128 1 bits

/-- The inner loop of `v6_range_to_cidrs`. -/
def raiseV6 (start stop len : Nat) : Option Nat := do
  let block ← blockV6 len
  if saturatingAdd 128 start (block - 1) ≤ stop then return len
  else if len + 1 > 128 then return len + 1
  else raiseV6 start stop (len + 1)
termination_by 129 - len

/-- One turn of `v6_range_to_cidrs`. -/
def v6CidrsTurn (stop : Nat) :
    Nat × List (Subnet 128) → Option (Turn (Nat × List (Subnet 128)) (List (Subnet 128)))
  | (start, output) =>
      if start > stop then some (.stop output)
      else do
        let maxSize := if start = 0 then 128 else min (trailingZeros 128 start) 128
        let len ← raiseV6 start stop (← sub 128 maxSize)
        if len > 128 then return .stop output
        else
          let net ← newNet 128 start len
          let next := saturatingAdd 128 start (← blockV6 len)
          if next > stop then return .stop (output ++ [net])
          else if next = 0 then return .stop (output ++ [net])
          else return .again (next, output ++ [net])

/-! ### The turns on the largest block -/

theorem newNet_blockAt (w start bits : Nat) :
    newNet w start (w - bits) = some (blockAt w start bits) := dif_pos (Nat.sub_le _ _)

theorem sub_leadingZeros {w n : Nat} (hn : 0 < n) (h : n < 2 ^ w) :
    sub (w - 1) (leadingZeros w n) = some n.log2 := by
  have := log2_eq_leadingZeros hn h
  rw [sub_of_le (by omega)]
  congr 1
  omega

theorem appendRangeBits_eq {w start stop : Nat} (hstop : stop < 2 ^ w) :
    appendRangeBits w (stop - start) = some (Nat.log2 (stop - start + 1)) := by
  unfold appendRangeBits
  split_ifs with hmax
  · rw [hmax, Nat.sub_add_cancel (Nat.two_pow_pos w), Nat.log2_two_pow]
  · have hlt : stop - start + 1 < 2 ^ w := by omega
    have hlog := log2_eq_leadingZeros (by omega) hlt
    rw [add_of_lt hlt, Option.bind_eq_bind, Option.bind_some, sub_of_le (by omega),
      Option.bind_some, sub_of_le (by omega)]
    congr 1
    omega

theorem ipv6RangeBits_eq {start stop : Nat} (h : start ≤ stop) (hstop : stop < 2 ^ 128) :
    ipv6RangeBits start stop = some (Nat.log2 (stop - start + 1)) := by
  unfold ipv6RangeBits
  split_ifs with hmax
  · rw [hmax.1, hmax.2, maxU128, Nat.sub_zero, Nat.sub_add_cancel (Nat.two_pow_pos 128),
      Nat.log2_two_pow]
  · have hlt : stop - start + 1 < 2 ^ 128 := by
      rw [maxU128] at hmax
      omega
    rw [sub_of_le h, Option.bind_eq_bind, Option.bind_some, add_of_lt hlt, Option.bind_some]
    exact sub_leadingZeros (by omega) hlt

theorem appendTurn_eq {w start stop : Nat} (h : start ≤ stop) (hstop : stop < 2 ^ w)
    (output : List (Subnet w) × Nat) :
    appendTurn w stop (start, output) =
      some (match reservePush output (blockAt w start (hostBits w start stop)) with
        | .error e => .stop (.error e)
        | .ok output =>
            if start + 2 ^ hostBits w start stop ≤ stop then
              .again (start + 2 ^ hostBits w start stop, output)
            else .stop (.ok output)) := by
  have hle := hostBits_le w start stop
  simp only [appendTurn, sub_of_le h, appendRangeBits_eq hstop, ← hostBits_eq, sub_of_le hle, newNet_blockAt,
    Option.bind_eq_bind, Option.bind_some]
  cases reservePush output (blockAt w start (hostBits w start stop)) with
  | error e => rfl
  | ok output =>
    simp only
    by_cases hfull : hostBits w start stop = w
    · rw [if_pos hfull, if_neg]
      · rfl
      · rw [hfull]
        omega
    · rw [if_neg hfull, shl_one (by omega), Option.bind_some]
      rcases Nat.lt_or_ge (start + 2 ^ hostBits w start stop) (2 ^ w) with hlt | hge
      · rw [add_of_lt hlt]
        simp only
        split_ifs <;> first | rfl | omega
      · rw [add_of_le hge, if_neg (by omega)]
        rfl

theorem ipv4RangeTurn_eq {start stop : Nat} (h : start ≤ stop) (hstop : stop < 2 ^ 32)
    (output : List IpNet) :
    ipv4RangeTurn stop (start, output) =
      some (if start + 2 ^ hostBits 32 start stop ≤ stop then
          .again (start + 2 ^ hostBits 32 start stop,
            output ++ [.v4 (blockAt 32 start (hostBits 32 start stop))])
        else .stop (output ++ [.v4 (blockAt 32 start (hostBits 32 start stop))])) := by
  have hle := hostBits_le 32 start stop
  have hend := pow_hostBits_le (w := 32) h
  have hsmall : (2 : Nat) ^ 32 < 2 ^ 64 := by decide
  simp only [ipv4RangeTurn, sub_of_le h, add_of_lt (show stop - start + 1 < 2 ^ 64 by omega),
    sub_leadingZeros (w := 64) (n := stop - start + 1) (by omega) (by omega), ← hostBits_eq,
    sub_of_le hle, newNet_blockAt, shl_one (show hostBits 32 start stop < 64 by omega),
    add_of_lt (show start + 2 ^ hostBits 32 start stop < 2 ^ 64 by omega), Option.bind_eq_bind,
    Option.bind_some]
  split_ifs with hgt hge
  · omega
  · rfl
  · rw [Nat.mod_eq_of_lt (by omega)]
    rfl
  · omega

theorem ipv6RangeTurn_eq {start stop : Nat} (h : start ≤ stop) (hstop : stop < 2 ^ 128)
    (output : List IpNet) :
    ipv6RangeTurn stop (start, output) =
      some (if start + 2 ^ hostBits 128 start stop ≤ stop then
          .again (start + 2 ^ hostBits 128 start stop,
            output ++ [.v6 (blockAt 128 start (hostBits 128 start stop))])
        else .stop (output ++ [.v6 (blockAt 128 start (hostBits 128 start stop))])) := by
  have hle := hostBits_le 128 start stop
  simp only [ipv6RangeTurn, ipv6RangeBits_eq h hstop, ← hostBits_eq, sub_of_le hle, newNet_blockAt,
    Option.bind_eq_bind, Option.bind_some]
  by_cases hfull : hostBits 128 start stop = 128
  · rw [if_pos hfull, if_neg]
    · rfl
    · rw [hfull]
      omega
  · rw [if_neg hfull, shl_one (by omega), Option.bind_some]
    rcases Nat.lt_or_ge (start + 2 ^ hostBits 128 start stop) (2 ^ 128) with hlt | hge
    · rw [add_of_lt hlt]
      simp only
      split_ifs <;> first | rfl | omega
    · rw [add_of_le hge, if_neg (by omega)]
      rfl

/-! ### The inner loops -/

theorem block_fits_iff {start stop bits : Nat} (h : start ≤ stop) :
    start + 2 ^ bits ≤ stop + 1 ↔ bits ≤ Nat.log2 (stop - start + 1) := by
  rw [Nat.le_log2 (by omega)]
  omega

/-- A loop that raises the length by one while the block does not fit ends at the largest block
that does. -/
theorem raise_eq {w start stop bits : Nat} {raise : Nat → Option Nat} (h : start ≤ stop)
    (hbits : bits ≤ w) (hstep : ∀ b ≤ bits, raise (w - b) =
      if start + 2 ^ b ≤ stop + 1 then some (w - b)
      else if w - b + 1 > w then some (w - b + 1) else raise (w - b + 1)) :
    raise (w - bits) = some (w - min bits (Nat.log2 (stop - start + 1))) := by
  induction bits with
  | zero =>
    rw [hstep 0 (Nat.le_refl _), if_pos (by omega), Nat.zero_min]
  | succ bits ih =>
    have hfits : start + 2 ^ (bits + 1) ≤ stop + 1 ↔ bits + 1 ≤ (stop - start + 1).log2 := block_fits_iff h
    rw [hstep _ (Nat.le_refl _)]
    split_ifs with hfit hlen
    · rw [Nat.min_eq_left (hfits.1 hfit)]
    · omega
    · rw [show w - (bits + 1) + 1 = w - bits by omega,
        ih (by omega) fun b hb => hstep b (hb.trans (Nat.le_succ _))]
      congr 2
      omega

theorem raiseV4_eq {start stop bits : Nat} (h : start ≤ stop) (hstop : stop < 2 ^ 32)
    (hbits : bits ≤ 32) :
    raiseV4 start stop (32 - bits) = some (32 - min bits (Nat.log2 (stop - start + 1))) := by
  refine raise_eq h hbits fun b hb => ?_
  replace hb := hb.trans hbits
  have hsmall : (2 : Nat) ^ 32 + 2 ^ 32 < 2 ^ 64 := by decide
  have hpow : (2 : Nat) ^ b ≤ 2 ^ 32 := Nat.pow_le_pow_right (by decide) hb
  have hpos := Nat.two_pow_pos b
  rw [raiseV4, sub_of_le (Nat.sub_le _ _), Option.bind_eq_bind, Option.bind_some,
    Nat.sub_sub_self hb, shl_one (by omega), Option.bind_some, add_of_lt (by omega),
    Option.bind_some, sub_of_le (by omega), Option.bind_some]
  by_cases hfit : start + 2 ^ b ≤ stop + 1
  · rw [if_pos hfit, if_pos (by omega)]
    rfl
  · rw [if_neg hfit, if_neg (by omega)]
    rfl

/-- The interval is one on which `v6_range_to_cidrs` is right. -/
def CidrsFit (start stop : Nat) : Prop := stop ≠ maxU128 ∧ ¬(start = 0 ∧ stop = maxU128 - 1)

instance (start stop : Nat) : Decidable (CidrsFit start stop) :=
  inferInstanceAs (Decidable (_ ∧ _))

theorem blockV6_eq {bits : Nat} (hbits : bits ≤ 128) :
    blockV6 (128 - bits) = some (if bits = 128 then maxU128 else 2 ^ bits) := by
  rw [blockV6, sub_of_le (Nat.sub_le _ _), Option.bind_eq_bind, Option.bind_some,
    Nat.sub_sub_self hbits]
  split_ifs
  · rfl
  · omega
  · omega
  · rw [shl_one (by omega)]

theorem raiseV6_step {start stop bits : Nat} (hbits : bits ≤ 128) :
    raiseV6 start stop (128 - bits) =
      if saturatingAdd 128 start ((if bits = 128 then maxU128 else 2 ^ bits) - 1) ≤ stop then
        some (128 - bits)
      else if 128 - bits + 1 > 128 then some (128 - bits + 1)
      else raiseV6 start stop (128 - bits + 1) := by
  rw [raiseV6, blockV6_eq hbits, Option.bind_eq_bind, Option.bind_some]
  rfl

theorem last_le_iff {start stop bits : Nat} (hstop : stop < 2 ^ 128) (hfit : CidrsFit start stop) :
    saturatingAdd 128 start ((if bits = 128 then maxU128 else 2 ^ bits) - 1) ≤ stop ↔
      start + 2 ^ bits ≤ stop + 1 := by
  obtain ⟨hmax, hall⟩ := hfit
  have hpos := Nat.two_pow_pos bits
  rw [maxU128] at hmax hall
  rw [saturatingAdd_le (by omega)]
  split_ifs with hfull
  · rw [hfull, maxU128]
    omega
  · omega

theorem raiseV6_eq {start stop bits : Nat} (h : start ≤ stop) (hstop : stop < 2 ^ 128)
    (hfit : CidrsFit start stop) (hbits : bits ≤ 128) :
    raiseV6 start stop (128 - bits) = some (128 - min bits (Nat.log2 (stop - start + 1))) := by
  refine raise_eq h hbits fun b hb => ?_
  rw [raiseV6_step (hb.trans hbits)]
  simp only [last_le_iff hstop hfit]

theorem raiseV6_le {start stop bits : Nat} (h : start ≤ stop) (hbits : bits ≤ 128) :
    ∃ len ≤ 128, raiseV6 start stop (128 - bits) = some len := by
  induction bits with
  | zero =>
    refine ⟨128, Nat.le_refl _, ?_⟩
    rw [raiseV6_step hbits, if_pos]
    rw [if_neg (by decide), Nat.pow_zero, Nat.sub_self, saturatingAdd]
    omega
  | succ bits ih =>
    rw [raiseV6_step hbits]
    generalize (if bits + 1 = 128 then maxU128 else 2 ^ (bits + 1)) = block
    split_ifs with hlast hlen
    · exact ⟨_, Nat.sub_le _ _, rfl⟩
    · omega
    · rw [show 128 - (bits + 1) + 1 = 128 - bits by omega]
      exact ih (by omega)

/-! ### The turns of the two outer loops -/

theorem maxSize_eq (w start : Nat) :
    (if start = 0 then w else min (trailingZeros w start) w) = trailingZeros w start := by
  split_ifs with hzero
  · rw [hzero, trailingZeros_zero]
  · exact Nat.min_eq_left (trailingZeros_le w start)

theorem v4CidrsTurn_eq {start stop : Nat} (h : start ≤ stop) (hstop : stop < 2 ^ 32)
    (output : List (Subnet 32)) :
    v4CidrsTurn stop (start, output) =
      some (if start + 2 ^ hostBits 32 start stop < 2 ^ 32 then
          .again (start + 2 ^ hostBits 32 start stop,
            output ++ [blockAt 32 start (hostBits 32 start stop)])
        else .stop (output ++ [blockAt 32 start (hostBits 32 start stop)])) := by
  have hle := hostBits_le 32 start stop
  have hend := pow_hostBits_le (w := 32) h
  have hpos := Nat.two_pow_pos (hostBits 32 start stop)
  have hsmall : (2 : Nat) ^ 32 < 2 ^ 64 := by decide
  rw [v4CidrsTurn, if_neg (show ¬start > stop by omega)]
  simp only [maxSize_eq, sub_of_le (trailingZeros_le 32 start), Option.bind_eq_bind,
    Option.bind_some, raiseV4_eq h hstop (trailingZeros_le 32 start), ← hostBits_eq]
  rw [if_neg (show ¬32 - hostBits 32 start stop > 32 by omega)]
  simp only [newNet_blockAt, sub_of_le (Nat.sub_le 32 (hostBits 32 start stop)),
    Nat.sub_sub_self hle, shl_one (show hostBits 32 start stop < 64 by omega),
    add_of_lt (show start + 2 ^ hostBits 32 start stop < 2 ^ 64 by omega), Option.bind_some]
  by_cases hlt : start + 2 ^ hostBits 32 start stop < 2 ^ 32
  · rw [if_neg (by omega), Nat.mod_eq_of_lt hlt, if_neg (by omega), if_pos hlt]
    rfl
  · rw [if_pos (by omega), if_neg hlt]
    rfl

theorem v6CidrsTurn_of_raise {start stop len : Nat} (h : start ≤ stop) (hlen : len ≤ 128)
    (hraise : raiseV6 start stop (128 - trailingZeros 128 start) = some len)
    (output : List (Subnet 128)) :
    v6CidrsTurn stop (start, output) =
      some (if saturatingAdd 128 start (if 128 - len = 128 then maxU128 else 2 ^ (128 - len)) > stop
        then .stop (output ++ [blockAt 128 start (128 - len)])
        else .again (saturatingAdd 128 start (if 128 - len = 128 then maxU128 else 2 ^ (128 - len)),
          output ++ [blockAt 128 start (128 - len)])) := by
  have hsub : 128 - (128 - len) = len := Nat.sub_sub_self hlen
  have hblock := blockV6_eq (Nat.sub_le 128 len)
  have hnet := newNet_blockAt 128 start (128 - len)
  rw [hsub] at hblock hnet
  rw [v6CidrsTurn, if_neg (show ¬start > stop by omega)]
  simp only [maxSize_eq, sub_of_le (trailingZeros_le 128 start), hraise, Option.bind_eq_bind,
    Option.bind_some]
  rw [if_neg (show ¬len > 128 by omega), hnet, hblock, Option.bind_some, Option.bind_some]
  have hpos : 0 < (if 128 - len = 128 then maxU128 else 2 ^ (128 - len)) := by
    split_ifs
    · decide
    · exact Nat.two_pow_pos _
  generalize (if 128 - len = 128 then maxU128 else 2 ^ (128 - len)) = block at hpos ⊢
  split_ifs with hgt hzero
  · rfl
  · rw [saturatingAdd] at hzero
    have : 0 < 2 ^ 128 - 1 := by decide
    omega
  · rfl

theorem v6CidrsTurn_eq {start stop : Nat} (h : start ≤ stop) (hstop : stop < 2 ^ 128)
    (hfit : CidrsFit start stop) (output : List (Subnet 128)) :
    v6CidrsTurn stop (start, output) =
      some (if start + 2 ^ hostBits 128 start stop ≤ stop then
          .again (start + 2 ^ hostBits 128 start stop,
            output ++ [blockAt 128 start (hostBits 128 start stop)])
        else .stop (output ++ [blockAt 128 start (hostBits 128 start stop)])) := by
  have hle := hostBits_le 128 start stop
  have hend := pow_hostBits_le (w := 128) h
  have hmax := hfit.1
  rw [maxU128] at hmax
  have hbits : hostBits 128 start stop < 128 := by
    apply (Nat.pow_lt_pow_iff_right (a := 2) (by decide)).1
    omega
  have hraise := raiseV6_eq h hstop hfit (trailingZeros_le 128 start)
  rw [← hostBits_eq] at hraise
  rw [v6CidrsTurn_of_raise h (Nat.sub_le _ _) hraise, Nat.sub_sub_self hle,
    if_neg (show ¬hostBits 128 start stop = 128 by omega), saturatingAdd_of_lt (by omega)]
  split_ifs <;> first | rfl | omega

/-! ### Whole runs -/

/-- **A loop that emits the largest block in each turn returns the networks of the interval.** -/
theorem returns_rangeNetworks {w start stop : Nat} {α : Type} {emit : Subnet w → α}
    {body : Nat × List α → Option (Turn (Nat × List α) (List α))} (h : start ≤ stop)
    (hnext : ∀ s output, start ≤ s → s + 2 ^ hostBits w s stop ≤ stop →
      body (s, output) = some (.again (s + 2 ^ hostBits w s stop,
        output ++ [emit (blockAt w s (hostBits w s stop))])))
    (hlast : ∀ s output, start ≤ s → s ≤ stop → stop < s + 2 ^ hostBits w s stop →
      Returns body (s, output) (output ++ [emit (blockAt w s (hostBits w s stop))]))
    (output : List α) :
    Returns body (start, output) (output ++ (rangeNetworks w start stop).map emit) := by
  induction start using rangeNetworks.induct w stop generalizing output with
  | case1 start hle ih =>
    have hlater (s : Nat) (hs : start + 2 ^ hostBits w start stop ≤ s) : start ≤ s :=
      (Nat.le_add_right _ _).trans hs
    rw [rangeNetworks, if_pos hle, List.map_cons, List.append_cons,
      returns_of_again (hnext start output (Nat.le_refl _) hle)]
    exact ih hle (fun s output hs => hnext s output (hlater s hs))
      (fun s output hs => hlast s output (hlater s hs)) _
  | case2 start hlt =>
    rw [rangeNetworks, if_neg hlt]
    exact hlast start output (Nat.le_refl _) h (by omega)

/-- The append loop appends the networks one by one, up to the limit. -/
theorem appendTurn_returns {w start stop : Nat} (h : start ≤ stop) (hstop : stop < 2 ^ w)
    (output : List (Subnet w) × Nat) :
    Returns (appendTurn w stop) (start, output)
      ((rangeNetworks w start stop).foldlM reservePush output) := by
  induction start using rangeNetworks.induct w stop generalizing output with
  | case1 start hle ih =>
    have hturn := appendTurn_eq h hstop output
    rw [rangeNetworks, if_pos hle, List.foldlM_cons]
    cases hpush : reservePush output (blockAt w start (hostBits w start stop)) with
    | error e =>
      rw [hpush] at hturn
      exact (returns_of_stop hturn).2 rfl
    | ok output' =>
      rw [hpush] at hturn
      simp only [if_pos hle] at hturn
      exact (returns_of_again hturn).2 (ih hle output')
  | case2 start hlt =>
    have hturn := appendTurn_eq h hstop output
    rw [rangeNetworks, if_neg hlt, List.foldlM_cons]
    cases hpush : reservePush output (blockAt w start (hostBits w start stop)) with
    | error e =>
      rw [hpush] at hturn
      exact (returns_of_stop hturn).2 rfl
    | ok output' =>
      rw [hpush] at hturn
      simp only [if_neg hlt] at hturn
      exact (returns_of_stop hturn).2 rfl

theorem appendsRange_iff {w : Nat} {family : String} {start stop : BitVec w}
    {state : List (Subnet w) × Nat} {result : Except RulesetPrefixError (List (Subnet w) × Nat)} :
    AppendsRange w family start stop state result ↔
      result = appendRange w family (start, stop) state := by
  rw [AppendsRange, appendRange]
  split_ifs with hgt
  · rfl
  · have hle : start.toNat ≤ stop.toNat := by
      rw [← BitVec.le_def]
      simpa using hgt
    have hreturns := appendTurn_returns hle stop.isLt state
    exact ⟨fun h => h.unique hreturns, fun h => h ▸ hreturns⟩

theorem ipv4RangeTurn_returns {start stop : Nat} (h : start ≤ stop) (hstop : stop < 2 ^ 32)
    (output : List IpNet) :
    Returns (ipv4RangeTurn stop) (start, output)
      (output ++ (rangeNetworks 32 start stop).map .v4) := by
  apply returns_rangeNetworks h
  · intro s output _ hle
    rw [ipv4RangeTurn_eq ((Nat.le_add_right _ _).trans hle) hstop, if_pos hle]
  · intro s output _ hs hlt
    have hturn := ipv4RangeTurn_eq hs hstop output
    rw [if_neg (by omega)] at hturn
    exact (returns_of_stop hturn).2 rfl

theorem ipv6RangeTurn_returns {start stop : Nat} (h : start ≤ stop) (hstop : stop < 2 ^ 128)
    (output : List IpNet) :
    Returns (ipv6RangeTurn stop) (start, output)
      (output ++ (rangeNetworks 128 start stop).map .v6) := by
  apply returns_rangeNetworks h
  · intro s output _ hle
    rw [ipv6RangeTurn_eq ((Nat.le_add_right _ _).trans hle) hstop, if_pos hle]
  · intro s output _ hs hlt
    have hturn := ipv6RangeTurn_eq hs hstop output
    rw [if_neg (by omega)] at hturn
    exact (returns_of_stop hturn).2 rfl

theorem v4CidrsTurn_returns {start stop : Nat} (h : start ≤ stop) (hstop : stop < 2 ^ 32)
    (output : List (Subnet 32)) :
    Returns (v4CidrsTurn stop) (start, output) (output ++ rangeNetworks 32 start stop) := by
  rw [← List.map_id (rangeNetworks 32 start stop)]
  apply returns_rangeNetworks h
  · intro s output _ hle
    rw [v4CidrsTurn_eq ((Nat.le_add_right _ _).trans hle) hstop, if_pos (by omega)]
    rfl
  · intro s output _ hs hlt
    have hturn := v4CidrsTurn_eq hs hstop output
    split_ifs at hturn with hwrap
    · -- the next turn sees a start behind the interval
      refine (returns_of_again hturn).2 ((returns_of_stop ?_).2 rfl)
      rw [v4CidrsTurn, if_pos hlt]
      rfl
    · exact (returns_of_stop hturn).2 rfl

theorem v6CidrsTurn_returns {start stop : Nat} (h : start ≤ stop) (hstop : stop < 2 ^ 128)
    (hfit : CidrsFit start stop) (output : List (Subnet 128)) :
    Returns (v6CidrsTurn stop) (start, output) (output ++ rangeNetworks 128 start stop) := by
  have hlater (s : Nat) (hs : start ≤ s) : CidrsFit s stop :=
    ⟨hfit.1, fun hall => hfit.2 ⟨by omega, hall.2⟩⟩
  rw [← List.map_id (rangeNetworks 128 start stop)]
  apply returns_rangeNetworks h
  · intro s output hs hle
    rw [v6CidrsTurn_eq ((Nat.le_add_right _ _).trans hle) hstop (hlater s hs), if_pos hle]
    rfl
  · intro s output hs hle hlt
    have hturn := v6CidrsTurn_eq hle hstop (hlater s hs) output
    rw [if_neg (by omega)] at hturn
    exact (returns_of_stop hturn).2 rfl

theorem v6CidrsTurn_diverges {start : Nat} (h : start ≤ maxU128) (output : List (Subnet 128))
    (nets : List (Subnet 128)) : ¬Returns (v6CidrsTurn maxU128) (start, output) nets := by
  apply not_returns fun state => state.1 ≤ maxU128
  · rintro ⟨s, output⟩ (hs : s ≤ maxU128)
    obtain ⟨len, hlen, hraise⟩ := raiseV6_le hs (trailingZeros_le 128 s)
    have hturn := v6CidrsTurn_of_raise hs hlen hraise output
    generalize (if 128 - len = 128 then maxU128 else 2 ^ (128 - len)) = block at hturn
    have hnext : saturatingAdd 128 s block ≤ maxU128 := by
      rw [saturatingAdd, maxU128]
      exact Nat.min_le_right _ _
    rw [if_neg (by omega)] at hturn
    exact ⟨_, hturn, hnext⟩
  · exact h

theorem v6CidrsTurn_overcovers :
    Returns (v6CidrsTurn (maxU128 - 1)) (0, []) [blockAt 128 0 128] := by
  have hraise : raiseV6 0 (maxU128 - 1) (128 - trailingZeros 128 0) = some 0 := by
    rw [trailingZeros_zero, raiseV6_step (Nat.le_refl _), if_pos (by decide)]
  have hturn := v6CidrsTurn_of_raise (Nat.zero_le _) (Nat.zero_le _) hraise []
  rw [if_pos (by decide)] at hturn
  exact (returns_of_stop hturn).2 rfl

/-! ### The six functions -/

/-- `append_ipv4_range`. -/
def AppendIpv4Range := AppendsRange 32 "IPv4"

/-- `append_ipv6_range`. -/
def AppendIpv6Range := AppendsRange 128 "IPv6"

/-- `ipv4_range_to_networks`. -/
def Ipv4RangeToNetworks (start stop : BitVec 32) (nets : List IpNet) : Prop :=
  Returns (ipv4RangeTurn stop.toNat) (start.toNat, []) nets

/-- `ipv6_range_to_networks`. -/
def Ipv6RangeToNetworks (start stop : BitVec 128) (nets : List IpNet) : Prop :=
  Returns (ipv6RangeTurn stop.toNat) (start.toNat, []) nets

/-- `v4_range_to_cidrs`. -/
def V4RangeToCidrs (start stop : BitVec 32) (nets : List (Subnet 32)) : Prop :=
  Returns (v4CidrsTurn stop.toNat) (start.toNat, []) nets

/-- `v6_range_to_cidrs`. -/
def V6RangeToCidrs (start stop : BitVec 128) (nets : List (Subnet 128)) : Prop :=
  Returns (v6CidrsTurn stop.toNat) (start.toNat, []) nets

/-- Three functions of an interval come to an end with the same networks, and these cut the
interval.  The first appends to what is there, within the limit on all prefixes; the networks of
one interval are far below it. -/
structure Agree {w : Nat} (wrap : Subnet w → IpNet)
    (append : BitVec w → BitVec w → List (Subnet w) × Nat →
      Except RulesetPrefixError (List (Subnet w) × Nat) → Prop)
    (networks : BitVec w → BitVec w → List IpNet → Prop)
    (cidrs : BitVec w → BitVec w → List (Subnet w) → Prop) (start stop : BitVec w)
    (nets : List (Subnet w)) : Prop where
  appended : ∀ output total, total + nets.length ≤ maxIpPrefixSnapshotItems →
    append start stop (output, total) (.ok (output ++ nets, total + nets.length))
  length_le : nets.length ≤ 2 * w + 2
  networks_eq : networks start stop (nets.map wrap)
  cidrs_eq : cidrs start stop nets
  cuts : Cuts start.toNat stop.toNat nets

/-- The three functions of an IPv4 interval agree. -/
def Ipv4Agree := Agree .v4 AppendIpv4Range Ipv4RangeToNetworks V4RangeToCidrs

/-- The three functions of an IPv6 interval agree. -/
def Ipv6Agree := Agree .v6 AppendIpv6Range Ipv6RangeToNetworks V6RangeToCidrs

theorem foldlM_reservePush_ok {w : Nat} (nets output : List (Subnet w)) {total : Nat}
    (h : total + nets.length ≤ maxIpPrefixSnapshotItems) :
    nets.foldlM reservePush (output, total) = .ok (output ++ nets, total + nets.length) := by
  induction nets generalizing output total with
  | nil => simp [pure, Except.pure]
  | cons n nets ih =>
    rw [List.length_cons] at h
    rw [List.foldlM_cons, reservePush, if_neg (by simp only; omega)]
    have hrest : total + 1 + nets.length ≤ maxIpPrefixSnapshotItems := by omega
    refine (ih (output ++ [n]) hrest).trans ?_
    rw [List.append_assoc, List.length_cons, Nat.add_right_comm, Nat.add_assoc total]
    rfl

theorem appendsRange_rangeNetworks {w : Nat} {family : String} {start stop : BitVec w}
    (h : start ≤ stop) (output : List (Subnet w)) {total : Nat}
    (hlimit : total + (rangeNetworks w start.toNat stop.toNat).length ≤ maxIpPrefixSnapshotItems) :
    AppendsRange w family start stop (output, total)
      (.ok (output ++ rangeNetworks w start.toNat stop.toNat,
        total + (rangeNetworks w start.toNat stop.toNat).length)) := by
  rw [appendsRange_iff, appendRange, if_neg (by simpa using h), foldlM_reservePush_ok _ _ hlimit]

theorem ipv4Agree_rangeNetworks {start stop : BitVec 32} (h : start ≤ stop) :
    Ipv4Agree start stop (rangeNetworks 32 start.toNat stop.toNat) where
  appended output _ hlimit := appendsRange_rangeNetworks h output hlimit
  length_le := length_rangeNetworks_le h stop.isLt
  networks_eq := ipv4RangeTurn_returns h stop.isLt []
  cidrs_eq := v4CidrsTurn_returns h stop.isLt []
  cuts := rangeNetworks_cuts h stop.isLt

theorem ipv6Agree_rangeNetworks {start stop : BitVec 128} (h : start ≤ stop)
    (hfit : CidrsFit start.toNat stop.toNat) :
    Ipv6Agree start stop (rangeNetworks 128 start.toNat stop.toNat) where
  appended output _ hlimit := appendsRange_rangeNetworks h output hlimit
  length_le := length_rangeNetworks_le h stop.isLt
  networks_eq := ipv6RangeTurn_returns h stop.isLt []
  cidrs_eq := v6CidrsTurn_returns h stop.isLt hfit []
  cuts := rangeNetworks_cuts h stop.isLt

theorem cidrsFit_of_cuts {start stop : BitVec 128} {nets : List (Subnet 128)}
    (hcidrs : V6RangeToCidrs start stop nets) (hcuts : Cuts start.toNat stop.toNat nets) :
    CidrsFit start.toNat stop.toNat := by
  have hstart := start.isLt
  rw [V6RangeToCidrs] at hcidrs
  refine ⟨fun hmax => ?_, fun hall => ?_⟩
  · rw [hmax] at hcidrs
    refine v6CidrsTurn_diverges ?_ _ _ hcidrs
    rw [maxU128]
    omega
  · rw [hall.1, hall.2] at hcidrs
    cases hcidrs.unique v6CidrsTurn_overcovers
    -- the last address is covered and lies behind the interval
    have hlast := (hcuts.covers (BitVec.allOnes 128)).1
      ⟨_, List.mem_singleton_self _, (forall_contains_iff _).2 rfl _⟩
    rw [hall.2, BitVec.toNat_allOnes, maxU128] at hlast
    omega

/-- **The loops agree and are exact**: for IPv4 on every interval, for IPv6 exactly on those that
end before the last address and are not the whole space but that address. -/
theorem range_loops_agree (start4 stop4 : BitVec 32) (start6 stop6 : BitVec 128) :
    (start4 ≤ stop4 → ∃ nets, Ipv4Agree start4 stop4 nets) ∧
      (start6 ≤ stop6 →
        ((∃ nets, Ipv6Agree start6 stop6 nets) ↔
          stop6.toNat ≠ maxU128 ∧ ¬(start6.toNat = 0 ∧ stop6.toNat = maxU128 - 1))) := by
  refine ⟨fun h => ⟨_, ipv4Agree_rangeNetworks h⟩, fun h => ⟨?_, ?_⟩⟩
  · rintro ⟨nets, hnets⟩
    exact cidrsFit_of_cuts hnets.cidrs_eq hnets.cuts
  · exact fun hfit => ⟨_, ipv6Agree_rangeNetworks h hfit⟩

/-- The interval of the last address alone: `v6_range_to_cidrs` never returns. -/
theorem v6RangeToCidrs_last_address :
    ¬∃ nets, V6RangeToCidrs (BitVec.allOnes 128) (BitVec.allOnes 128) nets := by
  rintro ⟨nets, hnets⟩
  have hmax : (BitVec.allOnes 128).toNat = maxU128 := BitVec.toNat_allOnes
  rw [V6RangeToCidrs, hmax] at hnets
  exact v6CidrsTurn_diverges (Nat.le_refl _) _ _ hnets

end WutherCore.Ruleset
