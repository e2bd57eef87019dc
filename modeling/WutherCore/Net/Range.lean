import WutherCore.Net.Aggregate

/-!
# The networks of an interval

`rangeNetworks` cuts an interval of addresses into the largest aligned blocks.  The blocks have no
host bits and share no address (`rangeNetworks_cuts`), and there are at most two for each bit of
an address (`length_rangeNetworks_le`): while the blocks grow they are bounded by the alignment
of the start, then they shrink with what is left.
-/

namespace WutherCore.Net

namespace Subnet

variable {w : Nat}

theorem trailingZeros_zero (w : Nat) : trailingZeros w 0 = w := by
  induction w with
  | zero => rfl
  | succ w ih => simpa [trailingZeros] using ih

theorem odd_div_pow_trailingZeros {w n : Nat} (h : trailingZeros w n < w) :
    n / 2 ^ trailingZeros w n % 2 = 1 := by
  induction w generalizing n with
  | zero => simp at h
  | succ w ih =>
    rw [trailingZeros] at h ⊢
    split_ifs at h ⊢ with hodd
    · simpa using hodd
    · rw [Nat.pow_succ', ← Nat.div_div_eq_div_mul]
      exact ih (by omega)

theorem le_trailingZeros {w n k : Nat} (hk : k ≤ w) (h : 2 ^ k ∣ n) : k ≤ trailingZeros w n := by
  induction w generalizing n k with
  | zero => exact hk
  | succ w ih =>
    cases k with
    | zero => exact Nat.zero_le _
    | succ k =>
      obtain ⟨m, rfl⟩ := h
      rw [Nat.pow_succ', Nat.mul_assoc, trailingZeros, if_neg (by omega),
        Nat.mul_div_cancel_left _ (by decide)]
      exact Nat.succ_le_succ (ih (Nat.le_of_succ_le_succ hk) (Nat.dvd_mul_right _ _))

theorem hostBits_eq (w start stop : Nat) :
    hostBits w start stop = min (trailingZeros w start) (Nat.log2 (stop - start + 1)) := by
  rw [hostBits]
  split_ifs with hmax
  · rw [hmax, Nat.sub_add_cancel (Nat.two_pow_pos w), Nat.log2_two_pow]
  · rfl

/-- The networks of a list cut the interval: they have no host bits, share no address and cover
it. -/
structure Cuts (start stop : Nat) (ns : List (Subnet w)) : Prop where
  aligned : ∀ n ∈ ns, n.hasHostBits = false
  disjoint : ns.Pairwise fun m n => ∀ x, ¬(m.contains x = true ∧ n.contains x = true)
  covers : ∀ x, Covers ns x ↔ start ≤ x.toNat ∧ x.toNat ≤ stop

theorem blockAt_hasHostBits {start bits : Nat} (hbits : bits ≤ w) (hdvd : 2 ^ bits ∣ start)
    (hlt : start < 2 ^ w) : (blockAt w start bits).hasHostBits = false := by
  have hsize : (blockAt w start bits).size = 2 ^ bits := by
    rw [size, show (blockAt w start bits).len = w - bits from rfl, Nat.sub_sub_self hbits]
  have haddr : (blockAt w start bits).addr.toNat = start := by
    rw [blockAt, BitVec.toNat_ofNat, Nat.mod_eq_of_lt hlt]
  have hnetwork : (blockAt w start bits).network = (blockAt w start bits).addr := by
    rw [← BitVec.toNat_inj, toNat_network, block, hsize, haddr, Nat.div_mul_cancel hdvd]
  rw [hasHostBits, hnetwork]
  exact bne_self_eq_false _

/-- **The networks of an interval cut it.** -/
theorem rangeNetworks_cuts {start stop : Nat} (h : start ≤ stop) (hstop : stop < 2 ^ w) :
    Cuts start stop (rangeNetworks w start stop) := by
  refine ⟨?_, ?_, rangeNetworks_covers h hstop⟩
  · induction start using rangeNetworks.induct w stop with
    | case1 start hnext ih =>
      rw [rangeNetworks, if_pos hnext, List.forall_mem_cons]
      exact ⟨blockAt_hasHostBits (hostBits_le w start stop) (pow_hostBits_dvd w start stop)
        (by omega), ih hnext⟩
    | case2 start hnext =>
      rw [rangeNetworks, if_neg hnext, List.forall_mem_singleton]
      exact blockAt_hasHostBits (hostBits_le w start stop) (pow_hostBits_dvd w start stop)
        (by omega)
  · induction start using rangeNetworks.induct w stop with
    | case1 start hnext ih =>
      rw [rangeNetworks, if_pos hnext, List.pairwise_cons]
      refine ⟨fun n hn x hx => ?_, ih hnext⟩
      -- the other networks cover what comes behind the first
      have hblock := (blockAt_contains (hostBits_le w start stop) (pow_hostBits_dvd w start stop)
        (by omega) x).1 hx.1
      have hrest := (rangeNetworks_covers hnext hstop x).1 ⟨n, hn, hx.2⟩
      omega
    | case2 start hnext =>
      rw [rangeNetworks, if_neg hnext]
      exact List.pairwise_singleton _ _

/-! ### The number of networks -/

theorem stop_sub_next_lt {start stop : Nat} (hnext : start + 2 ^ hostBits w start stop ≤ stop)
    (hbits : hostBits w start stop = Nat.log2 (stop - start + 1)) :
    stop - (start + 2 ^ hostBits w start stop) < 2 ^ hostBits w start stop := by
  have hlt : stop - start + 1 < 2 ^ (hostBits w start stop + 1) := by
    rw [hbits]
    exact Nat.lt_log2_self
  rw [Nat.pow_succ] at hlt
  omega

theorem dvd_next (w start stop : Nat) :
    2 ^ hostBits w start stop ∣ start + 2 ^ hostBits w start stop :=
  Nat.dvd_add (pow_hostBits_dvd w start stop) (Nat.dvd_refl _)

theorem length_rangeNetworks_of_dvd {start stop k : Nat} (hk : k ≤ w) (hdvd : 2 ^ k ∣ start)
    (hle : stop - start < 2 ^ k) : (rangeNetworks w start stop).length ≤ k + 1 := by
  induction start using rangeNetworks.induct w stop generalizing k with
  | case1 start hnext ih =>
    have halign := le_trailingZeros hk hdvd
    have hlog : 2 ^ Nat.log2 (stop - start + 1) ≤ 2 ^ k :=
      (Nat.log2_self_le (Nat.succ_ne_zero _)).trans hle
    have hlogk : Nat.log2 (stop - start + 1) ≤ k := (Nat.pow_le_pow_iff_right (by decide)).1 hlog
    have hbits : hostBits w start stop = Nat.log2 (stop - start + 1) := by
      rw [hostBits_eq]
      omega
    have hlt : hostBits w start stop < k := by
      apply (Nat.pow_lt_pow_iff_right (a := 2) (by decide)).1
      omega
    have := ih (by omega) (dvd_next w start stop) (stop_sub_next_lt hnext hbits)
    rw [rangeNetworks, if_pos hnext, List.length_cons]
    omega
  | case2 start hnext =>
    rw [rangeNetworks, if_neg hnext]
    simp

theorem length_rangeNetworks_of_aligned {start stop k : Nat} (hk : k ≤ w) (hdvd : 2 ^ k ∣ start)
    (h : start ≤ stop) (hstop : stop < 2 ^ w) :
    (rangeNetworks w start stop).length ≤ w - k + (w + 2) := by
  induction start using rangeNetworks.induct w stop generalizing k with
  | case1 start hnext ih =>
    have halign := le_trailingZeros hk hdvd
    rw [rangeNetworks, if_pos hnext, List.length_cons]
    have hbits := hostBits_eq w start stop
    rcases Nat.lt_or_ge (trailingZeros w start) (Nat.log2 (stop - start + 1)) with hlt | hge
    · -- the block fills the alignment of the start, and the next start has a better one
      rw [Nat.min_eq_left (by omega)] at hbits
      have hw : trailingZeros w start < w := by
        apply (Nat.pow_lt_pow_iff_right (a := 2) (by decide)).1
        rw [hbits] at hnext
        omega
      have hodd := odd_div_pow_trailingZeros hw
      have hnextdvd : 2 ^ (trailingZeros w start + 1) ∣ start + 2 ^ hostBits w start stop := by
        obtain ⟨m, hm⟩ := pow_trailingZeros_dvd w start
        rw [hbits]
        generalize trailingZeros w start = t at hm hodd ⊢
        rw [hm, Nat.mul_div_cancel_left _ (Nat.two_pow_pos t)] at hodd
        rw [hm, ← Nat.mul_succ, Nat.pow_succ]
        exact Nat.mul_dvd_mul_left _ (by omega)
      have := ih hw hnextdvd hnext
      omega
    · -- the block is limited by what is left
      rw [Nat.min_eq_right hge] at hbits
      have htail := length_rangeNetworks_of_dvd (hostBits_le w start stop) (dvd_next w start stop)
        (stop_sub_next_lt hnext hbits)
      have := hostBits_le w start stop
      omega
  | case2 start hnext =>
    rw [rangeNetworks, if_neg hnext, List.length_singleton]
    omega

theorem length_rangeNetworks_le {start stop : Nat} (h : start ≤ stop) (hstop : stop < 2 ^ w) :
    (rangeNetworks w start stop).length ≤ 2 * w + 2 := by
  have := length_rangeNetworks_of_aligned (Nat.zero_le w) (Nat.one_dvd start) h hstop
  omega

end Subnet

end WutherCore.Net
