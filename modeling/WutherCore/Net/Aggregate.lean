import Mathlib.Data.List.Sort
import Mathlib.Data.Nat.Log
import WutherCore.Net.Prefix

/-!
# Lists of networks as sets of addresses

A list of networks stands for the addresses in any of them (`Covers`).  Two algorithms that keep
this set are given here, for addresses of any width:

* `aggregate` merges a list of networks: sort, then push each network on a stack where it is
  absorbed, absorbs what it covers, or joins its sibling;
* `rangeNetworks` cuts a closed interval of addresses into networks, the largest aligned block
  first.

`aggregate_covers` and `rangeNetworks_covers` say what the results cover.
-/

namespace WutherCore.Net

namespace Subnet

variable {w : Nat}

/-- Some network of the list contains the address. -/
def Covers (ns : List (Subnet w)) (x : BitVec w) : Prop := ∃ n ∈ ns, n.contains x = true

@[simp] theorem covers_nil (x : BitVec w) : ¬Covers [] x := by simp [Covers]

@[simp] theorem covers_cons (n : Subnet w) (ns : List (Subnet w)) (x : BitVec w) :
    Covers (n :: ns) x ↔ n.contains x = true ∨ Covers ns x := by simp [Covers]

theorem covers_append (ms ns : List (Subnet w)) (x : BitVec w) :
    Covers (ms ++ ns) x ↔ Covers ms x ∨ Covers ns x := by
  simp only [Covers, List.mem_append, or_and_right, exists_or]

theorem covers_perm {ms ns : List (Subnet w)} (h : ms.Perm ns) (x : BitVec w) :
    Covers ms x ↔ Covers ns x := by
  simp only [Covers, h.mem_iff]

theorem covers_map_trunc (ns : List (Subnet w)) (x : BitVec w) :
    Covers (ns.map trunc) x ↔ Covers ns x := by
  simp only [Covers, List.mem_map, exists_exists_and_eq_and, trunc_contains]

/-! ### Aggregation -/

/-- The order of aggregation: by first address, then by length. -/
def aggLe (m n : Subnet w) : Prop :=
  m.network < n.network ∨ m.network = n.network ∧ m.len ≤ n.len

instance : DecidableRel (aggLe (w := w)) := fun m n =>
  inferInstanceAs (Decidable (m.network < n.network ∨ m.network = n.network ∧ m.len ≤ n.len))

/-- The inner loop of aggregation: a candidate meets the stack of the networks kept so far, the
last one on top. -/
def pushNet : List (Subnet w) → Subnet w → List (Subnet w)
  | [], candidate => [candidate]
  | previous :: stack, candidate =>
      if previous.containsNet candidate then previous :: stack
      else if candidate.containsNet previous then pushNet stack candidate
      else
        match previous.supernet with
        | none => candidate :: previous :: stack
        | some parent =>
            if previous.len = candidate.len ∧ parent.containsNet candidate = true then
              pushNet stack parent
            else candidate :: previous :: stack

/-- Sort the networks, then push them one by one. -/
def aggregate (ns : List (Subnet w)) : List (Subnet w) :=
  ((ns.insertionSort aggLe).foldl pushNet []).reverse

theorem pushNet_covers (stack : List (Subnet w)) (c : Subnet w) (x : BitVec w) :
    Covers (pushNet stack c) x ↔ c.contains x = true ∨ Covers stack x := by
  induction stack generalizing c with
  | nil => simp [pushNet]
  | cons p stack ih =>
    rw [pushNet]
    split_ifs with hpc hcp
    · have himp : c.contains x = true → p.contains x = true := contains_of_containsNet hpc
      simp only [covers_cons]
      tauto
    · have himp : p.contains x = true → c.contains x = true := contains_of_containsNet hcp
      rw [ih, covers_cons]
      tauto
    · cases hsup : p.supernet with
      | none => simp
      | some parent =>
        simp only
        split_ifs with hsib
        · -- the two siblings are replaced by their parent
          rw [ih, covers_cons,
            supernet_contains_iff hsup hsib.1 hsib.2 (Bool.eq_false_iff.2 hpc) x]
          tauto
        · simp

theorem foldl_pushNet_covers (ns stack : List (Subnet w)) (x : BitVec w) :
    Covers (ns.foldl pushNet stack) x ↔ Covers ns x ∨ Covers stack x := by
  induction ns generalizing stack with
  | nil => simp
  | cons n ns ih =>
    rw [List.foldl_cons, ih, pushNet_covers, covers_cons]
    tauto

/-- **Aggregation keeps the set of addresses.** -/
theorem aggregate_covers (ns : List (Subnet w)) (x : BitVec w) :
    Covers (aggregate ns) x ↔ Covers ns x := by
  rw [aggregate, covers_perm (List.reverse_perm _), foldl_pushNet_covers,
    covers_perm (List.perm_insertionSort aggLe ns)]
  simp

/-! ### Ranges -/

/-- `trailing_zeros` of a `w`-bit integer. -/
def trailingZeros : (w n : Nat) → Nat
  | 0, _ => 0
  | w + 1, n => if n % 2 = 1 then 0 else trailingZeros w (n / 2) + 1

theorem trailingZeros_le (w n : Nat) : trailingZeros w n ≤ w := by
  induction w generalizing n with
  | zero => simp [trailingZeros]
  | succ w ih =>
    have := ih (n / 2)
    rw [trailingZeros]
    split_ifs <;> omega

theorem pow_trailingZeros_dvd (w n : Nat) : 2 ^ trailingZeros w n ∣ n := by
  induction w generalizing n with
  | zero => simp [trailingZeros]
  | succ w ih =>
    rw [trailingZeros]
    split_ifs with hodd
    · simp
    · obtain ⟨k, hk⟩ := ih (n / 2)
      refine ⟨k, ?_⟩
      rw [Nat.pow_succ, Nat.mul_right_comm, ← hk]
      omega

/-- The size, in bits, of the largest aligned block at the start of an interval. -/
def hostBits (w start stop : Nat) : Nat :=
  let difference := stop - start
  let rangeBits := if difference = 2 ^ w - 1 then w else Nat.log2 (difference + 1)
  min (trailingZeros w start) rangeBits

/-- The network of `2 ^ bits` addresses from `start` on. -/
def blockAt (w start bits : Nat) : Subnet w := ⟨BitVec.ofNat w start, w - bits, Nat.sub_le _ _⟩

/-- The networks of the closed interval from `start` to `stop`, in order. -/
def rangeNetworks (w start stop : Nat) : List (Subnet w) :=
  if start + 2 ^ hostBits w start stop ≤ stop then
    blockAt w start (hostBits w start stop) ::
      rangeNetworks w (start + 2 ^ hostBits w start stop) stop
  else [blockAt w start (hostBits w start stop)]
termination_by stop - start
decreasing_by
  have := Nat.two_pow_pos (hostBits w start stop)
  omega

theorem hostBits_le (w start stop : Nat) : hostBits w start stop ≤ w :=
  (Nat.min_le_left _ _).trans (trailingZeros_le w start)

theorem pow_hostBits_dvd (w start stop : Nat) : 2 ^ hostBits w start stop ∣ start :=
  (Nat.pow_dvd_pow 2 (Nat.min_le_left _ _)).trans (pow_trailingZeros_dvd w start)

theorem pow_hostBits_le {w start stop : Nat} (h : start ≤ stop) :
    start + 2 ^ hostBits w start stop ≤ stop + 1 := by
  have hrange : 2 ^ (if stop - start = 2 ^ w - 1 then w else Nat.log2 (stop - start + 1)) ≤
      stop - start + 1 := by
    split_ifs with hmax
    · have := Nat.two_pow_pos w
      omega
    · exact Nat.log2_self_le (by omega)
  have hle : 2 ^ hostBits w start stop ≤ stop - start + 1 :=
    (Nat.pow_le_pow_right (by decide) (Nat.min_le_right _ _)).trans hrange
  omega

theorem blockAt_contains {w start bits : Nat} (hbits : bits ≤ w) (hdvd : 2 ^ bits ∣ start)
    (hlt : start < 2 ^ w) (x : BitVec w) :
    (blockAt w start bits).contains x = true ↔ start ≤ x.toNat ∧ x.toNat < start + 2 ^ bits := by
  have hsize : (blockAt w start bits).size = 2 ^ bits := by
    rw [size, show (blockAt w start bits).len = w - bits from rfl, Nat.sub_sub_self hbits]
  obtain ⟨k, rfl⟩ := hdvd
  have hblock : (blockAt w (2 ^ bits * k) bits).block = k := by
    rw [block, hsize, show (blockAt w (2 ^ bits * k) bits).addr = BitVec.ofNat w (2 ^ bits * k)
      from rfl, BitVec.toNat_ofNat, Nat.mod_eq_of_lt hlt,
      Nat.mul_div_cancel_left _ (Nat.two_pow_pos bits)]
  rw [contains_iff, hsize, hblock, Nat.div_eq_iff (Nat.two_pow_pos bits)]
  have hpos := Nat.two_pow_pos bits
  rw [Nat.mul_comm k]
  omega

/-- **The networks of an interval cover it exactly.** -/
theorem rangeNetworks_covers {w start stop : Nat} (h : start ≤ stop) (hstop : stop < 2 ^ w)
    (x : BitVec w) : Covers (rangeNetworks w start stop) x ↔ start ≤ x.toNat ∧ x.toNat ≤ stop := by
  induction start using rangeNetworks.induct w stop with
  | case1 start hnext ih =>
    have hblock := blockAt_contains (hostBits_le w start stop) (pow_hostBits_dvd w start stop)
      (by omega : start < 2 ^ w) x
    rw [rangeNetworks, if_pos hnext, covers_cons, ih hnext, hblock]
    have := Nat.two_pow_pos (hostBits w start stop)
    omega
  | case2 start hnext =>
    have hblock := blockAt_contains (hostBits_le w start stop) (pow_hostBits_dvd w start stop)
      (by omega : start < 2 ^ w) x
    have hle : start + 2 ^ hostBits w start stop ≤ stop + 1 := pow_hostBits_le h
    rw [rangeNetworks, if_neg hnext, covers_cons, hblock]
    simp only [covers_nil, or_false]
    omega

end Subnet

end WutherCore.Net
