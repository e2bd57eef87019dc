import Mathlib.Data.List.Sort
import WutherCore.Net.Addr

/-!
# Network blocks

A network of `w`-bit addresses is an address with a length (`Subnet w`); the address may carry host
bits.  `Subnet 32` and `Subnet 128` are the IPv4 and IPv6 networks of the `ipnet` crate, `IpNet` their
sum, and the operations keep the crate's names: `network`, `broadcast`, `trunc`, `contains`,
`supernet`.

Containment is an equality of block numbers (`Subnet.contains_iff`), which gives the two facts that
aggregation rests on: a network inside another adds no address (`Subnet.contains_of_containsNet`),
and two sibling blocks make up their parent (`Subnet.supernet_contains_iff`).
-/

namespace WutherCore.Net

open WutherCore.Text

/-- A network of `w`-bit addresses: an address, possibly with host bits, and a length. -/
structure Subnet (w : Nat) where
  addr : BitVec w
  len : Nat
  len_le : len ≤ w
  deriving DecidableEq, Repr

theorem eight_le_32 : 8 ≤ 32 := by decide

theorem thirty_le_32 : 30 ≤ 32 := by decide

theorem sixteen_le_32 : 16 ≤ 32 := by decide

theorem all_le_32 : 32 ≤ 32 := by decide

theorem half_le_128 : 64 ≤ 128 := by decide

theorem all_le_128 : 128 ≤ 128 := by decide

namespace Subnet

variable {w : Nat}

/-- The number of addresses of the network. -/
def size (n : Subnet w) : Nat := 2 ^ (w - n.len)

/-- The number of the block of this size that holds the address. -/
def block (n : Subnet w) : Nat := n.addr.toNat / n.size

/-- The first address of the network. -/
def network (n : Subnet w) : BitVec w := BitVec.ofNat w (n.block * n.size)

/-- The last address of the network. -/
def broadcast (n : Subnet w) : BitVec w := BitVec.ofNat w (n.block * n.size + (n.size - 1))

/-- The network with its host bits cleared. -/
def trunc (n : Subnet w) : Subnet w := ⟨n.network, n.len, n.len_le⟩

/-- Whether an address lies in the network. -/
def contains (n : Subnet w) (x : BitVec w) : Bool := n.network ≤ x && x ≤ n.broadcast

/-- Whether another network lies in the network. -/
def containsNet (n m : Subnet w) : Bool := n.network ≤ m.network && m.broadcast ≤ n.broadcast

/-- The same address with a length of one bit less. -/
def widen (n : Subnet w) : Subnet w := ⟨n.addr, n.len - 1, (Nat.sub_le _ _).trans n.len_le⟩

/-- The network of one bit less, none above the whole address space. -/
def supernet (n : Subnet w) : Option (Subnet w) := if 0 < n.len then some n.widen.trunc else none

/-- Whether the address of the network has host bits. -/
def hasHostBits (n : Subnet w) : Bool := n.network != n.addr

theorem size_pos (n : Subnet w) : 0 < n.size := Nat.two_pow_pos _

theorem size_mul (n : Subnet w) : n.size * 2 ^ n.len = 2 ^ w := by
  rw [size, ← Nat.pow_add, Nat.sub_add_cancel n.len_le]

theorem block_lt (n : Subnet w) : n.block < 2 ^ n.len := by
  rw [block, Nat.div_lt_iff_lt_mul n.size_pos, Nat.mul_comm, n.size_mul]
  exact n.addr.isLt

theorem block_end_le (n : Subnet w) : n.block * n.size + n.size ≤ 2 ^ w := by
  have h : (n.block + 1) * n.size ≤ 2 ^ n.len * n.size := Nat.mul_le_mul_right _ n.block_lt
  rwa [Nat.add_mul, Nat.one_mul, Nat.mul_comm (2 ^ n.len), n.size_mul] at h

theorem toNat_network (n : Subnet w) : n.network.toNat = n.block * n.size := by
  have h := n.block_end_le
  have hp := n.size_pos
  rw [network, BitVec.toNat_ofNat, Nat.mod_eq_of_lt (by omega)]

theorem toNat_broadcast (n : Subnet w) : n.broadcast.toNat = n.block * n.size + (n.size - 1) := by
  have h := n.block_end_le
  have hp := n.size_pos
  rw [broadcast, BitVec.toNat_ofNat, Nat.mod_eq_of_lt (by omega)]

theorem contains_iff (n : Subnet w) (x : BitVec w) :
    n.contains x = true ↔ x.toNat / n.size = n.block := by
  have hp := n.size_pos
  rw [contains, Bool.and_eq_true, decide_eq_true_iff, decide_eq_true_iff, BitVec.le_def,
    BitVec.le_def, toNat_network, toNat_broadcast, Nat.div_eq_iff hp]
  omega

theorem trunc_size (n : Subnet w) : n.trunc.size = n.size := rfl

theorem trunc_block (n : Subnet w) : n.trunc.block = n.block := by
  rw [block, trunc_size, show n.trunc.addr = n.network from rfl, toNat_network,
    Nat.mul_div_cancel _ n.size_pos]

theorem trunc_contains (n : Subnet w) (x : BitVec w) : n.trunc.contains x = n.contains x := by
  rw [Bool.eq_iff_iff, contains_iff, contains_iff, trunc_block, trunc_size]

theorem hasHostBits_eq_false {n : Subnet w} (h : n.hasHostBits = false) : n.trunc = n := by
  have ha : n.network = n.addr := by simpa [hasHostBits] using h
  cases n
  simp only [trunc] at ha ⊢
  rw [ha]

theorem contains_of_containsNet {n m : Subnet w} (h : n.containsNet m = true) {x : BitVec w}
    (hx : m.contains x = true) : n.contains x = true := by
  simp only [containsNet, contains, Bool.and_eq_true, decide_eq_true_iff, BitVec.le_def] at h hx ⊢
  omega

theorem block_of_containsNet {n m : Subnet w} (h : n.containsNet m = true) :
    m.addr.toNat / n.size = n.block := by
  have hself : m.contains m.addr = true := (contains_iff m m.addr).2 rfl
  exact (contains_iff n m.addr).1 (contains_of_containsNet h hself)

theorem containsNet_of_block {n m : Subnet w} (hlen : n.len = m.len) (hb : n.block = m.block) :
    n.containsNet m = true := by
  have hs : n.size = m.size := by rw [size, size, hlen]
  simp [containsNet, network, broadcast, hb, hs]

theorem widen_size {n : Subnet w} (h : 0 < n.len) : n.widen.size = n.size * 2 := by
  rw [size, size, ← Nat.pow_succ, show n.widen.len = n.len - 1 from rfl]
  congr 1
  have := n.len_le
  omega

theorem widen_block {n : Subnet w} (h : 0 < n.len) : n.widen.block = n.block / 2 := by
  rw [block, widen_size h, ← Nat.div_div_eq_div_mul]
  rfl

theorem contains_network (n : Subnet w) : n.contains n.network = true := by
  rw [contains_iff, toNat_network, Nat.mul_div_cancel _ n.size_pos]

theorem contains_network_of_shared {n m : Subnet w} (hlen : m.len ≤ n.len) {x : BitVec w}
    (hn : n.contains x = true) (hm : m.contains x = true) : m.contains n.network = true := by
  rw [contains_iff] at hn hm ⊢
  have hsize : m.size = n.size * 2 ^ (n.len - m.len) := by
    rw [size, size, ← Nat.pow_add]
    congr 1
    have := n.len_le
    omega
  calc n.network.toNat / m.size
      = n.block * n.size / n.size / 2 ^ (n.len - m.len) := by
        rw [toNat_network, hsize, Nat.div_div_eq_div_mul]
    _ = x.toNat / n.size / 2 ^ (n.len - m.len) := by rw [Nat.mul_div_cancel _ n.size_pos, hn]
    _ = m.block := by rw [Nat.div_div_eq_div_mul, ← hsize, hm]

theorem contains_network_or_iff (n m : Subnet w) :
    n.contains m.network = true ∨ m.contains n.network = true ↔
      ∃ x, n.contains x = true ∧ m.contains x = true := by
  constructor
  · rintro (h | h)
    · exact ⟨m.network, h, m.contains_network⟩
    · exact ⟨n.network, n.contains_network, h⟩
  · rintro ⟨x, hn, hm⟩
    rcases Nat.le_total m.len n.len with hlen | hlen
    · exact .inr (contains_network_of_shared hlen hn hm)
    · exact .inl (contains_network_of_shared hlen hm hn)

theorem forall_contains_iff (n : Subnet w) : (∀ x, n.contains x = true) ↔ n.len = 0 := by
  constructor
  · intro h
    by_contra hlen
    -- the block before or after the network's own is not in it
    have hw : 0 < w := by
      have := n.len_le
      omega
    have hfirst := (contains_iff n 0).1 (h 0)
    have hlast := (contains_iff n (BitVec.allOnes w)).1 (h _)
    have hsize : n.size ≤ 2 ^ (w - 1) := Nat.pow_le_pow_right (by decide) (by omega)
    have htwo : 2 ^ w = 2 ^ (w - 1) * 2 := by
      rw [← Nat.pow_succ]
      congr 1
      omega
    have hp := n.size_pos
    simp only [BitVec.ofNat_eq_ofNat, BitVec.toNat_ofNat, Nat.zero_mod, Nat.zero_div,
      BitVec.toNat_allOnes] at hfirst hlast
    rw [← hfirst, Nat.div_eq_zero_iff] at hlast
    omega
  · intro hlen x
    have hsize : n.size = 2 ^ w := by rw [size, hlen, Nat.sub_zero]
    rw [contains_iff, block, hsize, Nat.div_eq_of_lt x.isLt, Nat.div_eq_of_lt n.addr.isLt]

/-- **Two different blocks of one size under one parent make up the parent.** -/
theorem supernet_contains_iff {p c parent : Subnet w} (hp : p.supernet = some parent)
    (hlen : p.len = c.len) (hc : parent.containsNet c = true) (hpc : p.containsNet c = false)
    (x : BitVec w) : parent.contains x = true ↔ p.contains x = true ∨ c.contains x = true := by
  unfold supernet at hp
  split_ifs at hp with hpos
  cases hp
  have hsize : c.size = p.size := by rw [size, size, hlen]
  -- both blocks halve to the parent's block, and they differ
  have hhalf : c.block / 2 = p.block / 2 := by
    have h := block_of_containsNet hc
    rw [trunc_block, trunc_size, widen_size hpos, widen_block hpos, ← hsize,
      ← Nat.div_div_eq_div_mul] at h
    exact h
  have hne : p.block ≠ c.block := fun h => by simp [containsNet_of_block hlen h] at hpc
  rw [trunc_contains, contains_iff, contains_iff, contains_iff, hsize, widen_size hpos,
    widen_block hpos, ← Nat.div_div_eq_div_mul]
  omega

end Subnet

/-! ### Networks of either family -/

/-- `ipnet::IpNet`. -/
inductive IpNet
  | v4 (n : Subnet 32)
  | v6 (n : Subnet 128)
  deriving DecidableEq, Repr

namespace IpNet

/-- Whether an address of the same family lies in the network. -/
def contains : IpNet → IpAddr → Bool
  | .v4 n, .v4 a => n.contains a
  | .v6 n, .v6 a => n.contains a
  | _, _ => false

/-- The address of the network. -/
def addr : IpNet → IpAddr
  | .v4 n => .v4 n.addr
  | .v6 n => .v6 n.addr

/-- The length of the network. -/
def len : IpNet → Nat
  | .v4 n => n.len
  | .v6 n => n.len

/-- The network with its host bits cleared. -/
def trunc : IpNet → IpNet
  | .v4 n => .v4 n.trunc
  | .v6 n => .v6 n.trunc

/-- Whether the address of the network has host bits. -/
def hasHostBits : IpNet → Bool
  | .v4 n => n.hasHostBits
  | .v6 n => n.hasHostBits

/-- `Display` of `IpNet`: the address, a slash and the length. -/
def display (n : IpNet) : Str := n.addr.display ++ '/' :: decimal n.len

end IpNet

end WutherCore.Net
