import WutherCore.Net.Aggregate

/-!
# The canonical form of a list of networks

Aggregation runs in the array it is given: the networks kept so far are a stack at the front, and
the read position goes over the sorted rest.  `compactInPlace` is this loop, and
`compactInPlace_eq` says that it computes the stack of `pushNet`.

Its result is the canonical form of the addresses it covers.  `Canonical` lists are in order, with
no address in two networks and no two halves of one network; a block that such a list covers lies
in one of its networks (`Canonical.block_inside`), so two canonical lists of the same addresses
have the same networks up to host bits (`Canonical.unique`).
-/

namespace WutherCore.Net

namespace Subnet

variable {w : Nat}

/-! ### Aggregation in place -/

/-- An assignment `prefixes[i] = n`. -/
def assign (prefixes : List (Subnet w)) (i : Nat) (n : Subnet w) : Option (List (Subnet w)) :=
  if i < prefixes.length then some (prefixes.set i n) else none

/-- The inner loop of the aggregation: the candidate meets the networks before the write
position. -/
def settle (prefixes : List (Subnet w)) : Nat → Subnet w → Option (List (Subnet w) × Nat)
  | 0, candidate => (assign prefixes 0 candidate).map (·, 1)
  | write + 1, candidate =>
      prefixes[write]?.bind fun previous =>
        if previous.containsNet candidate then some (prefixes, write + 1)
        else if candidate.containsNet previous then settle prefixes write candidate
        else
          match previous.supernet with
          | none => (assign prefixes (write + 1) candidate).map (·, write + 2)
          | some parent =>
              if previous.len = candidate.len ∧ parent.containsNet candidate = true then
                settle prefixes write parent
              else (assign prefixes (write + 1) candidate).map (·, write + 2)

/-- One round of the outer loop, at the read position. -/
def settleAt (state : List (Subnet w) × Nat) (read : Nat) : Option (List (Subnet w) × Nat) :=
  state.1[read]?.bind (settle state.1 state.2)

/-- The two loops and the final `truncate`, on the sorted array. -/
def compactInPlace (sorted : List (Subnet w)) : Option (List (Subnet w)) :=
  ((List.range sorted.length).foldlM settleAt (sorted, 0)).map fun state =>
    state.1.take state.2

/-- `sort_unstable_by_key` on the first address and the length, then the loops: which of two
networks with equal keys comes first is left open. -/
def AggregatesInPlace (w : Nat) (prefixes result : List (Subnet w)) : Prop :=
  ∃ sorted : List (Subnet w), sorted.Perm prefixes ∧ sorted.Pairwise aggLe ∧
    compactInPlace sorted = some result

/-- The stack of a state, top first. -/
def stackOf (state : List (Subnet w) × Nat) : List (Subnet w) := (state.1.take state.2).reverse

/-- What a round leaves of the array: a stack one longer at most, and the rest untouched. -/
structure Settled (prefixes : List (Subnet w)) (write : Nat) (stack : List (Subnet w))
    (state : List (Subnet w) × Nat) : Prop where
  stack_eq : stackOf state = stack
  write_le : state.2 ≤ write + 1
  length_eq : state.1.length = prefixes.length
  drop_eq : state.1.drop (write + 1) = prefixes.drop (write + 1)

theorem Settled.mono {prefixes stack : List (Subnet w)} {write : Nat}
    {state : List (Subnet w) × Nat} (h : Settled prefixes write stack state) :
    Settled prefixes (write + 1) stack state where
  stack_eq := h.stack_eq
  write_le := h.write_le.trans (Nat.le_succ _)
  length_eq := h.length_eq
  drop_eq := by
    have hdrop (l : List (Subnet w)) : l.drop (write + 1 + 1) = (l.drop (write + 1)).drop 1 :=
      List.drop_drop.symm
    rw [hdrop, hdrop, h.drop_eq]

theorem assign_settled {prefixes : List (Subnet w)} {write : Nat} (hwrite : write < prefixes.length)
    (candidate : Subnet w) :
    ∃ state, (assign prefixes write candidate).map (·, write + 1) = some state ∧
      Settled prefixes write (candidate :: stackOf (prefixes, write)) state := by
  refine ⟨(prefixes.set write candidate, write + 1), by simp [assign, hwrite], ?_, Nat.le_refl _,
    List.length_set, ?_⟩
  · rw [stackOf, List.take_add_one, List.take_set_of_le (Nat.le_refl _)]
    simp [stackOf, hwrite]
  · rw [List.drop_set_of_lt (Nat.lt_succ_self _)]

/-- **The inner loop is a push on the stack.** -/
theorem settle_eq (prefixes : List (Subnet w)) (write : Nat) (hwrite : write < prefixes.length)
    (candidate : Subnet w) :
    ∃ state, settle prefixes write candidate = some state ∧
      Settled prefixes write (pushNet (stackOf (prefixes, write)) candidate) state := by
  induction write generalizing candidate with
  | zero => simpa [settle, pushNet, stackOf] using assign_settled hwrite candidate
  | succ write ih =>
    have hlt : write < prefixes.length := by omega
    have hstack : stackOf (prefixes, write + 1) = prefixes[write] :: stackOf (prefixes, write) := by
      rw [stackOf, List.take_succ_eq_append_getElem hlt, List.reverse_append]
      rfl
    have hpush := assign_settled hwrite candidate
    rw [hstack] at hpush ⊢
    rw [settle, List.getElem?_eq_getElem hlt, Option.bind_some, pushNet]
    split_ifs with hprevious hcandidate
    · exact ⟨_, rfl, hstack, by simp, rfl, rfl⟩
    · obtain ⟨state, hstate, h⟩ := ih hlt candidate
      exact ⟨state, hstate, h.mono⟩
    · cases hsup : prefixes[write].supernet with
      | none => exact hpush
      | some parent =>
        simp only
        split_ifs with hsibling
        · obtain ⟨state, hstate, h⟩ := ih hlt parent
          exact ⟨state, hstate, h.mono⟩
        · exact hpush

/-- The array after the first rounds: the stack of the networks read, and the others in place. -/
structure AfterRounds (sorted : List (Subnet w)) (read : Nat) (state : List (Subnet w) × Nat) :
    Prop where
  stack_eq : stackOf state = (sorted.take read).foldl pushNet []
  write_le : state.2 ≤ read
  length_eq : state.1.length = sorted.length
  drop_eq : state.1.drop read = sorted.drop read

theorem AfterRounds.step {sorted : List (Subnet w)} {read : Nat} {state : List (Subnet w) × Nat}
    (h : AfterRounds sorted read state) (hread : read < sorted.length) :
    ∃ state', settleAt state read = some state' ∧ AfterRounds sorted (read + 1) state' := by
  have hcandidate : state.1[read]? = some sorted[read] := by
    rw [← List.getElem?_eq_getElem hread, ← Nat.add_zero read, ← List.getElem?_drop,
      ← List.getElem?_drop, h.drop_eq]
  have hle := h.write_le
  obtain ⟨state', hstate, hs⟩ := settle_eq state.1 state.2
    (by rw [h.length_eq]; omega) sorted[read]
  refine ⟨state', by rw [settleAt, hcandidate]; exact hstate, ?_, ?_, ?_, ?_⟩
  · rw [hs.stack_eq, show (state.1, state.2) = state from rfl, h.stack_eq,
      List.take_succ_eq_append_getElem hread, List.foldl_append]
    rfl
  · exact hs.write_le.trans (by omega)
  · rw [hs.length_eq, h.length_eq]
  · -- the write position is not past the read position
    have hsplit : read + 1 = state.2 + 1 + (read - state.2) := by omega
    calc state'.1.drop (read + 1)
        = (state'.1.drop (state.2 + 1)).drop (read - state.2) := by rw [List.drop_drop, hsplit]
      _ = (state.1.drop read).drop 1 := by
        rw [hs.drop_eq, List.drop_drop, List.drop_drop, ← hsplit]
      _ = sorted.drop (read + 1) := by rw [h.drop_eq, List.drop_drop]

theorem afterRounds (sorted : List (Subnet w)) {read : Nat} (hread : read ≤ sorted.length) :
    ∃ state, (List.range read).foldlM settleAt (sorted, 0) = some state ∧
      AfterRounds sorted read state := by
  induction read with
  | zero => exact ⟨_, rfl, by simp [stackOf], Nat.le_refl _, rfl, rfl⟩
  | succ read ih =>
    obtain ⟨state, hstate, h⟩ := ih (by omega)
    obtain ⟨state', hstate', h'⟩ := h.step hread
    refine ⟨state', ?_, h'⟩
    rw [List.range_succ, List.foldlM_append, hstate]
    simpa using hstate'

/-- **The loops in place compute the stack of `pushNet`.** -/
theorem compactInPlace_eq (sorted : List (Subnet w)) :
    compactInPlace sorted = some (sorted.foldl pushNet []).reverse := by
  obtain ⟨state, hstate, h⟩ := afterRounds sorted (Nat.le_refl _)
  have hstack := h.stack_eq
  rw [List.take_length] at hstack
  rw [compactInPlace, hstate, ← hstack, stackOf, List.reverse_reverse]
  rfl

/-! ### Blocks inside blocks -/

theorem size_eq_mul {m n : Subnet w} (hlen : m.len ≤ n.len) :
    m.size = n.size * 2 ^ (n.len - m.len) := by
  have := n.len_le
  rw [size, size, ← Nat.pow_add]
  congr 1
  omega

theorem contains_div {m n : Subnet w} (hlen : m.len ≤ n.len) {x : BitVec w}
    (hx : n.contains x = true) : x.toNat / m.size = n.block / 2 ^ (n.len - m.len) := by
  rw [size_eq_mul hlen, ← Nat.div_div_eq_div_mul, (contains_iff n x).1 hx]

theorem contains_broadcast (n : Subnet w) : n.contains n.broadcast = true := by
  have hpos := n.size_pos
  rw [contains_iff, toNat_broadcast, Nat.div_eq_iff hpos]
  omega

theorem containsNet_iff_forall (m n : Subnet w) :
    m.containsNet n = true ↔ ∀ x, n.contains x = true → m.contains x = true := by
  refine ⟨fun h x => contains_of_containsNet h, fun h => ?_⟩
  have hfirst := h _ n.contains_network
  have hlast := h _ n.contains_broadcast
  simp only [contains, Bool.and_eq_true] at hfirst hlast
  rw [containsNet, Bool.and_eq_true]
  exact ⟨hfirst.1, hlast.2⟩

theorem containsNet_of_shared {m n : Subnet w} (hlen : m.len ≤ n.len) {x : BitVec w}
    (hm : m.contains x = true) (hn : n.contains x = true) : m.containsNet n = true := by
  rw [containsNet_iff_forall]
  intro y hy
  rw [contains_iff, contains_div hlen hy, ← contains_div hlen hn]
  exact (contains_iff m x).1 hm

theorem not_shared {m n : Subnet w} (hmn : m.containsNet n = false) (hnm : n.containsNet m = false)
    {x : BitVec w} (hm : m.contains x = true) : n.contains x = false := by
  rw [Bool.eq_false_iff]
  intro hn
  rcases Nat.le_total m.len n.len with hlen | hlen
  · rw [containsNet_of_shared hlen hm hn] at hmn
    cases hmn
  · rw [containsNet_of_shared hlen hn hm] at hnm
    cases hnm

theorem network_le_broadcast (n : Subnet w) : n.network ≤ n.broadcast := by
  rw [BitVec.le_def, toNat_network, toNat_broadcast]
  exact Nat.le_add_right _ _

/-- Of two networks without a common address, the one with the smaller first address ends before
the other. -/
theorem broadcast_lt_network {m n : Subnet w} (hmn : m.containsNet n = false)
    (hnm : n.containsNet m = false) (hle : m.network ≤ n.network) : m.broadcast < n.network := by
  have h : m.contains n.network = false := by
    rw [Bool.eq_false_iff]
    intro hm
    have hn := not_shared hmn hnm hm
    rw [n.contains_network] at hn
    cases hn
  rw [contains, decide_eq_true hle, Bool.true_and, decide_eq_false_iff_not] at h
  rw [BitVec.le_def] at h
  rw [BitVec.lt_def]
  omega

/-! ### Canonical lists -/

/-- Two different networks of one length under one supernet: its two halves. -/
def Siblings (m n : Subnet w) : Prop :=
  m.len = n.len ∧ m.network ≠ n.network ∧ m.supernet = n.supernet

theorem Siblings.symm {m n : Subnet w} (h : Siblings m n) : Siblings n m :=
  ⟨h.1.symm, h.2.1.symm, h.2.2.symm⟩

theorem network_eq_iff {m n : Subnet w} (hlen : m.len = n.len) :
    m.network = n.network ↔ m.block = n.block := by
  have hsize : m.size = n.size := by rw [size, size, hlen]
  rw [← BitVec.toNat_inj, toNat_network, toNat_network, hsize,
    Nat.mul_left_inj n.size_pos.ne']

theorem trunc_inj_iff {m n : Subnet w} : m.trunc = n.trunc ↔ m.len = n.len ∧ m.block = n.block := by
  constructor
  · intro h
    have hlen : m.trunc.len = n.trunc.len := by rw [h]
    have haddr : m.trunc.addr = n.trunc.addr := by rw [h]
    exact ⟨hlen, (network_eq_iff (m := m) (n := n) hlen).1 haddr⟩
  · rintro ⟨hlen, hblock⟩
    have hnetwork := (network_eq_iff hlen).2 hblock
    rcases m with ⟨a, l, hl⟩
    rcases n with ⟨b, k, hk⟩
    cases hlen
    simp only [trunc, hnetwork]

theorem siblings_iff {m n : Subnet w} (hlen : m.len = n.len) :
    Siblings m n ↔ m.block ≠ n.block ∧ m.block / 2 = n.block / 2 := by
  rw [Siblings, Ne, network_eq_iff hlen]
  have hm := m.block_lt
  have hn := n.block_lt
  by_cases hpos : 0 < m.len
  · have hpos' : 0 < n.len := by omega
    rw [supernet, if_pos hpos, supernet, if_pos hpos', Option.some_inj, trunc_inj_iff,
      widen_block hpos, widen_block hpos']
    simp only [widen, hlen, true_and]
  · -- the whole address space has no sibling
    have hzero : m.len = 0 := by omega
    rw [← hlen, hzero] at hn
    rw [hzero] at hm
    omega

/-- The networks are in order, no two share an address, and no two are siblings. -/
structure Canonical (ns : List (Subnet w)) : Prop where
  ordered : ns.Pairwise fun m n => m.broadcast < n.network
  apart : ∀ m ∈ ns, ∀ n ∈ ns, ¬Siblings m n

/-- **A block covered by a canonical list lies in one of its networks**, by halving: if its halves
lay in two networks, these would be siblings. -/
theorem Canonical.block_inside {ns : List (Subnet w)} (h : Canonical ns) (bits i : Nat)
    (hbits : bits ≤ w) (hi : i < 2 ^ (w - bits))
    (hcover : ∀ x : BitVec w, x.toNat / 2 ^ bits = i → Covers ns x) :
    ∃ n ∈ ns, n.len ≤ w - bits ∧ i / 2 ^ (w - bits - n.len) = n.block := by
  induction bits generalizing i with
  | zero =>
    rw [Nat.sub_zero] at hi
    obtain ⟨n, hn, hx⟩ := hcover (BitVec.ofNat w i) (by simp [Nat.mod_eq_of_lt hi])
    rw [contains_iff, BitVec.toNat_ofNat, Nat.mod_eq_of_lt hi] at hx
    exact ⟨n, hn, n.len_le, hx⟩
  | succ bits ih =>
    have hw : w - bits = w - (bits + 1) + 1 := by omega
    have hhalf (j : Nat) (hj : j / 2 = i) :
        ∃ n ∈ ns, n.len ≤ w - bits ∧ j / 2 ^ (w - bits - n.len) = n.block := by
      apply ih j (by omega)
      · rw [hw, Nat.pow_succ]
        omega
      · intro x hx
        apply hcover
        rw [Nat.pow_succ, ← Nat.div_div_eq_div_mul, hx, hj]
    -- a network that is no smaller than the block holds all of it
    have hlarge {j : Nat} (hj : j / 2 = i) {n : Subnet w} (hlen : n.len ≤ w - (bits + 1))
        (hn : j / 2 ^ (w - bits - n.len) = n.block) :
        i / 2 ^ (w - (bits + 1) - n.len) = n.block := by
      rw [← hn, show w - bits - n.len = w - (bits + 1) - n.len + 1 by omega, Nat.pow_succ',
        ← Nat.div_div_eq_div_mul, hj]
    obtain ⟨m, hm, hmlen, hmblock⟩ := hhalf (2 * i) (by omega)
    obtain ⟨n, hn, hnlen, hnblock⟩ := hhalf (2 * i + 1) (by omega)
    by_cases hml : m.len ≤ w - (bits + 1)
    · exact ⟨m, hm, hml, hlarge (by omega) hml hmblock⟩
    by_cases hnl : n.len ≤ w - (bits + 1)
    · exact ⟨n, hn, hnl, hlarge (by omega) hnl hnblock⟩
    · -- both halves are networks of the list
      have hm0 : w - bits - m.len = 0 := by omega
      have hn0 : w - bits - n.len = 0 := by omega
      rw [hm0, Nat.pow_zero, Nat.div_one] at hmblock
      rw [hn0, Nat.pow_zero, Nat.div_one] at hnblock
      refine absurd ((siblings_iff (by omega)).2 ?_) (h.apart m hm n hn)
      omega

theorem Canonical.inside {ns : List (Subnet w)} (h : Canonical ns) {m : Subnet w}
    (hcover : ∀ x, m.contains x = true → Covers ns x) : ∃ n ∈ ns, n.containsNet m = true := by
  have hlen := m.len_le
  have hsub : w - (w - m.len) = m.len := Nat.sub_sub_self hlen
  obtain ⟨n, hn, hnlen, hblock⟩ := h.block_inside (w - m.len) m.block
    (Nat.sub_le _ _) (by rw [hsub]; exact m.block_lt)
    (fun x hx => hcover x ((contains_iff m x).2 hx))
  rw [hsub] at hnlen hblock
  refine ⟨n, hn, containsNet_of_shared hnlen ?_ m.contains_network⟩
  rw [contains_iff, contains_div hnlen m.contains_network, hblock]

theorem Canonical.eq_of_shared {ns : List (Subnet w)} (h : Canonical ns) {m n : Subnet w}
    (hm : m ∈ ns) (hn : n ∈ ns) {x : BitVec w} (hmx : m.contains x = true)
    (hnx : n.contains x = true) : m = n := by
  obtain ⟨i, hi, rfl⟩ := List.getElem_of_mem hm
  obtain ⟨j, hj, rfl⟩ := List.getElem_of_mem hn
  have hordered := List.pairwise_iff_getElem.1 h.ordered
  simp only [contains, Bool.and_eq_true, decide_eq_true_iff, BitVec.le_def] at hmx hnx
  rcases Nat.lt_trichotomy i j with hlt | rfl | hlt
  · have := hordered i j hi hj hlt
    rw [BitVec.lt_def] at this
    omega
  · rfl
  · have := hordered j i hj hi hlt
    rw [BitVec.lt_def] at this
    omega

theorem trunc_eq_of_containsNet {m n : Subnet w} (hmn : m.containsNet n = true)
    (hnm : n.containsNet m = true) : m.trunc = n.trunc := by
  simp only [containsNet, Bool.and_eq_true, decide_eq_true_iff, BitVec.le_def, toNat_network,
    toNat_broadcast] at hmn hnm
  have hm := m.size_pos
  have hn := n.size_pos
  have hsize : m.size = n.size := by omega
  have hpow : w - m.len = w - n.len := Nat.pow_right_injective (Nat.le_refl 2) hsize
  have hml := m.len_le
  have hnl := n.len_le
  refine trunc_inj_iff.2 ⟨by omega, ?_⟩
  apply Nat.eq_of_mul_eq_mul_right hm
  rw [hsize] at hmn hnm ⊢
  omega

theorem Canonical.trunc_mem {ms ns : List (Subnet w)} (hms : Canonical ms) (hns : Canonical ns)
    (hcover : ∀ x, Covers ms x ↔ Covers ns x) {t : Subnet w} (ht : t ∈ ms.map trunc) :
    t ∈ ns.map trunc := by
  obtain ⟨m, hm, rfl⟩ := List.mem_map.1 ht
  obtain ⟨n, hn, hnm⟩ := hns.inside fun x hx => (hcover x).1 ⟨m, hm, hx⟩
  obtain ⟨m', hm', hmn⟩ := hms.inside fun x hx => (hcover x).2 ⟨n, hn, hx⟩
  -- the network around the covering network is the first one again
  have hshared : m'.contains m.network = true :=
    contains_of_containsNet hmn (contains_of_containsNet hnm m.contains_network)
  cases hms.eq_of_shared hm' hm hshared m.contains_network
  exact List.mem_map.2 ⟨n, hn, (trunc_eq_of_containsNet hmn hnm).symm⟩

theorem Canonical.pairwise_map_trunc {ns : List (Subnet w)} (h : Canonical ns) :
    (ns.map trunc).Pairwise fun m n => m.addr < n.addr := by
  rw [List.pairwise_map]
  refine h.ordered.imp ?_
  intro m n hlt
  have := m.network_le_broadcast
  simp only [trunc]
  bv_omega

/-- **Two canonical lists of the same addresses are the same**, up to host bits. -/
theorem Canonical.unique {ms ns : List (Subnet w)} (hms : Canonical ms) (hns : Canonical ns)
    (hcover : ∀ x, Covers ms x ↔ Covers ns x) : ms.map trunc = ns.map trunc := by
  have : Std.Irrefl fun m n : Subnet w => m.addr < n.addr := ⟨fun m => BitVec.lt_irrefl m.addr⟩
  have : Std.Antisymm fun m n : Subnet w => m.addr < n.addr :=
    ⟨fun m n hmn hnm => absurd hmn (BitVec.lt_asymm hnm)⟩
  apply hms.pairwise_map_trunc.eq_of_mem_iff hns.pairwise_map_trunc
  exact fun t => ⟨hms.trunc_mem hns hcover, hns.trunc_mem hms fun x => (hcover x).symm⟩

/-! ### The stack is canonical -/

/-- A canonical stack, top first, whose networks start at an address at most. -/
structure Stacked (stack : List (Subnet w)) (bound : BitVec w) : Prop where
  ordered : stack.Pairwise fun n m => m.broadcast < n.network
  apart : ∀ m ∈ stack, ∀ n ∈ stack, ¬Siblings m n
  le_bound : ∀ n ∈ stack, n.network ≤ bound

theorem Stacked.mono {stack : List (Subnet w)} {x y : BitVec w} (h : Stacked stack x)
    (hxy : x ≤ y) : Stacked stack y :=
  ⟨h.ordered, h.apart, fun n hn => BitVec.le_trans (h.le_bound n hn) hxy⟩

theorem Stacked.tail {stack : List (Subnet w)} {p : Subnet w} {x y : BitVec w}
    (h : Stacked (p :: stack) x) (hpy : p.network ≤ y) : Stacked stack y where
  ordered := h.ordered.of_cons
  apart m hm n hn := h.apart m (List.mem_cons_of_mem p hm) n (List.mem_cons_of_mem p hn)
  le_bound n hn := by
    have hbelow := (List.pairwise_cons.1 h.ordered).1 n hn
    have := n.network_le_broadcast
    bv_omega

theorem not_siblings_self (n : Subnet w) : ¬Siblings n n := fun h => h.2.1 rfl

theorem Siblings.adjacent {m n : Subnet w} (h : Siblings m n) (hlt : m.broadcast < n.network) :
    n.network.toNat = m.broadcast.toNat + 1 := by
  have hsize : m.size = n.size := by rw [size, size, h.1]
  obtain ⟨hne, hhalf⟩ := (siblings_iff h.1).1 h
  have hpos := m.size_pos
  rw [BitVec.lt_def, toNat_broadcast, toNat_network, ← hsize] at hlt
  rw [toNat_network, toNat_broadcast, ← hsize]
  rcases Nat.lt_or_ge m.block n.block with hblock | hblock
  · have hsucc : n.block = m.block + 1 := by omega
    rw [hsucc, Nat.add_mul, Nat.one_mul]
    omega
  · have := Nat.mul_le_mul_right m.size hblock
    omega

/-- The case in which the candidate is written: it lies behind the top and is no sibling of it. -/
theorem Stacked.push {stack : List (Subnet w)} {p c : Subnet w}
    (h : Stacked (p :: stack) c.network) (hpc : p.broadcast < c.network) (hsib : ¬Siblings p c) :
    Stacked (c :: p :: stack) c.network := by
  have hbelow := (List.pairwise_cons.1 h.ordered).1
  have hapart (n : Subnet w) (hn : n ∈ p :: stack) : ¬Siblings n c := by
    rcases List.mem_cons.1 hn with rfl | hn
    · exact hsib
    · -- the top lies between the two
      intro hnc
      have hnp := hbelow n hn
      have hpp := p.network_le_broadcast
      have := hnc.adjacent (by bv_omega)
      bv_omega
  refine ⟨List.pairwise_cons.2 ⟨fun n hn => ?_, h.ordered⟩, ?_, ?_⟩
  · rcases List.mem_cons.1 hn with rfl | hn
    · exact hpc
    · have hnp := hbelow n hn
      have hpp := p.network_le_broadcast
      bv_omega
  · intro m hm n hn
    rcases List.mem_cons.1 hm with hmc | hm <;> rcases List.mem_cons.1 hn with hnc | hn
    · rw [hmc, hnc]
      exact not_siblings_self c
    · rw [hmc]
      exact fun hcn => hapart n hn hcn.symm
    · rw [hnc]
      exact hapart m hm
    · exact h.apart m hm n hn
  · intro n hn
    rcases List.mem_cons.1 hn with rfl | hn
    · exact BitVec.le_refl _
    · exact h.le_bound n hn

theorem not_siblings_of_none {m n : Subnet w} (h : m.supernet = none) : ¬Siblings m n := by
  intro hsib
  unfold supernet at h
  split_ifs at h with hpos
  have hlen : m.len = 0 := by omega
  have hm := m.block_lt
  have hn := n.block_lt
  rw [← hsib.1, hlen] at hn
  rw [hlen] at hm
  have := (siblings_iff hsib.1).1 hsib
  omega

theorem containsNet_of_supernet {n parent : Subnet w} (h : n.supernet = some parent) :
    parent.containsNet n = true := by
  unfold supernet at h
  split_ifs at h with hpos
  cases h
  refine containsNet_of_shared (Nat.sub_le _ _) ?_ n.contains_network
  rw [trunc_contains, contains_iff, widen_size hpos, widen_block hpos, ← Nat.div_div_eq_div_mul,
    (contains_iff n _).1 n.contains_network]

theorem supernet_network {p c parent : Subnet w} (hp : p.supernet = some parent)
    (hlen : p.len = c.len) (hc : parent.containsNet c = true) (hpc : p.containsNet c = false)
    (hle : p.network ≤ c.network) : parent.network = p.network := by
  have hparent := (supernet_contains_iff hp hlen hc hpc _).1 parent.contains_network
  have hwhole := containsNet_of_supernet hp
  simp only [contains, containsNet, Bool.and_eq_true, decide_eq_true_iff] at hparent hwhole
  bv_omega

/-- **A push keeps the stack canonical.** -/
theorem pushNet_stacked {stack : List (Subnet w)} {c : Subnet w} (h : Stacked stack c.network) :
    Stacked (pushNet stack c) c.network := by
  induction stack generalizing c with
  | nil =>
    refine ⟨List.pairwise_singleton _ _, ?_, ?_⟩
    · intro m hm n hn
      rw [List.mem_singleton.1 hm, List.mem_singleton.1 hn]
      exact not_siblings_self c
    · intro n hn
      rw [List.mem_singleton.1 hn]
      exact BitVec.le_refl _
  | cons p stack ih =>
    have hle : p.network ≤ c.network := h.le_bound p List.mem_cons_self
    rw [pushNet]
    split_ifs with hpc hcp
    · exact h
    · exact ih (h.tail hle)
    · rw [Bool.not_eq_true] at hpc hcp
      have hlt : p.broadcast < c.network := broadcast_lt_network hpc hcp hle
      cases hsup : p.supernet with
      | none =>
        exact h.push hlt (not_siblings_of_none hsup)
      | some parent =>
        simp only
        split_ifs with hsibling
        · have hnetwork := supernet_network hsup hsibling.1 hsibling.2 hpc hle
          refine (ih ?_).mono (hnetwork ▸ hle)
          rw [hnetwork]
          exact h.tail (BitVec.le_refl _)
        · refine h.push hlt fun hsib => hsibling ⟨hsib.1, ?_⟩
          exact containsNet_of_supernet (hsib.2.2 ▸ hsup)

theorem foldl_pushNet_stacked {ns stack : List (Subnet w)} {x : BitVec w} (hs : Stacked stack x)
    (hns : ns.Pairwise aggLe) (hx : ∀ n ∈ ns, x ≤ n.network) :
    ∃ y, Stacked (ns.foldl pushNet stack) y := by
  induction ns generalizing stack x with
  | nil => exact ⟨x, hs⟩
  | cons n ns ih =>
    obtain ⟨hn, hns⟩ := List.pairwise_cons.1 hns
    refine ih (pushNet_stacked (hs.mono (hx n List.mem_cons_self))) hns fun m hm => ?_
    rcases hn m hm with hlt | ⟨heq, -⟩
    · bv_omega
    · rw [heq]
      exact BitVec.le_refl _

theorem Stacked.canonical {stack : List (Subnet w)} {x : BitVec w} (h : Stacked stack x) :
    Canonical stack.reverse where
  ordered := List.pairwise_reverse.2 h.ordered
  apart m hm n hn := h.apart m (List.mem_reverse.1 hm) n (List.mem_reverse.1 hn)

theorem canonical_foldl_pushNet {ns : List (Subnet w)} (hns : ns.Pairwise aggLe) :
    Canonical (ns.foldl pushNet []).reverse := by
  have hnil : Stacked ([] : List (Subnet w)) 0 :=
    ⟨List.Pairwise.nil, fun m hm => absurd hm List.not_mem_nil,
      fun n hn => absurd hn List.not_mem_nil⟩
  obtain ⟨x, hx⟩ := foldl_pushNet_stacked hnil hns fun n _ => by simp [BitVec.le_def]
  exact hx.canonical

/-! ### Host bits -/

theorem supernet_hasHostBits {n parent : Subnet w} (h : n.supernet = some parent) :
    parent.trunc = parent := by
  unfold supernet at h
  split_ifs at h
  cases h
  exact trunc_inj_iff.2 ⟨rfl, trunc_block _⟩

theorem pushNet_trunc {stack : List (Subnet w)} {c : Subnet w} (hs : ∀ n ∈ stack, n.trunc = n)
    (hc : c.trunc = c) : ∀ n ∈ pushNet stack c, n.trunc = n := by
  induction stack generalizing c with
  | nil => simpa [pushNet] using hc
  | cons p stack ih =>
    have hstack : ∀ n ∈ stack, n.trunc = n := fun n hn => hs n (List.mem_cons_of_mem p hn)
    have hpush : ∀ n ∈ c :: p :: stack, n.trunc = n := List.forall_mem_cons.2 ⟨hc, hs⟩
    rw [pushNet]
    split_ifs with hpc hcp
    · exact hs
    · exact ih hstack hc
    · cases hsup : p.supernet with
      | none => exact hpush
      | some parent =>
        simp only
        split_ifs
        · exact ih hstack (supernet_hasHostBits hsup)
        · exact hpush

theorem foldl_pushNet_trunc {ns stack : List (Subnet w)} (hs : ∀ n ∈ stack, n.trunc = n)
    (hns : ∀ n ∈ ns, n.trunc = n) : ∀ n ∈ ns.foldl pushNet stack, n.trunc = n := by
  induction ns generalizing stack with
  | nil => exact hs
  | cons n ns ih =>
    rw [List.forall_mem_cons] at hns
    exact ih (pushNet_trunc hs hns.1) hns.2

/-! ### What aggregation in place computes -/

/-- A relation between lists of networks that takes every list to the canonical form of its
addresses. -/
structure Canonicalizes (aggregates : List (Subnet w) → List (Subnet w) → Prop) : Prop where
  returns : ∀ prefixes, ∃ result, aggregates prefixes result
  sorted : ∀ {prefixes result}, aggregates prefixes result → result.Pairwise aggLe
  disjoint : ∀ {prefixes result}, aggregates prefixes result →
    result.Pairwise fun m n => ∀ x, ¬(m.contains x = true ∧ n.contains x = true)
  covers : ∀ {prefixes result}, aggregates prefixes result →
    ∀ x, Covers result x ↔ Covers prefixes x
  unmergeable : ∀ {prefixes result}, aggregates prefixes result →
    ∀ m ∈ result, ∀ n ∈ result, ¬Siblings m n
  determined : ∀ {prefixes others result result'}, aggregates prefixes result →
    aggregates others result' → (∀ x, Covers prefixes x ↔ Covers others x) →
      result.map trunc = result'.map trunc
  determined_trunc : ∀ {prefixes others result result'}, aggregates prefixes result →
    aggregates others result' → (∀ x, Covers prefixes x ↔ Covers others x) →
      (∀ n ∈ prefixes ++ others, n.hasHostBits = false) → result = result'

theorem AggregatesInPlace.exists_sorted {prefixes result : List (Subnet w)}
    (h : AggregatesInPlace w prefixes result) :
    ∃ sorted : List (Subnet w), sorted.Perm prefixes ∧ sorted.Pairwise aggLe ∧
      result = (sorted.foldl pushNet []).reverse := by
  obtain ⟨sorted, hperm, hpairwise, hresult⟩ := h
  rw [compactInPlace_eq, Option.some_inj] at hresult
  exact ⟨sorted, hperm, hpairwise, hresult.symm⟩

theorem AggregatesInPlace.canonical {prefixes result : List (Subnet w)}
    (h : AggregatesInPlace w prefixes result) : Canonical result := by
  obtain ⟨sorted, -, hpairwise, rfl⟩ := h.exists_sorted
  exact canonical_foldl_pushNet hpairwise

theorem AggregatesInPlace.covers {prefixes result : List (Subnet w)}
    (h : AggregatesInPlace w prefixes result) (x : BitVec w) :
    Covers result x ↔ Covers prefixes x := by
  obtain ⟨sorted, hperm, -, rfl⟩ := h.exists_sorted
  rw [covers_perm (List.reverse_perm _), foldl_pushNet_covers, covers_perm hperm]
  simp

theorem AggregatesInPlace.map_trunc {prefixes result : List (Subnet w)}
    (h : AggregatesInPlace w prefixes result) (hbits : ∀ n ∈ prefixes, n.hasHostBits = false) :
    result.map trunc = result := by
  obtain ⟨sorted, hperm, -, rfl⟩ := h.exists_sorted
  have hsorted : ∀ n ∈ sorted, n.trunc = n := fun n hn =>
    hasHostBits_eq_false (hbits n (hperm.mem_iff.1 hn))
  have hstack := foldl_pushNet_trunc (List.forall_mem_nil _) hsorted
  exact (List.map_congr_left fun n hn => hstack n (List.mem_reverse.1 hn)).trans (List.map_id' _)

theorem aggLe_trans : ∀ a b c : Subnet w, aggLe a b → aggLe b c → aggLe a c := by
  intro a b c hab hbc
  unfold aggLe at *
  bv_omega

theorem aggLe_total (m n : Subnet w) : aggLe m n ∨ aggLe n m := by
  unfold aggLe
  bv_omega

theorem aggregatesInPlace_aggregate (prefixes : List (Subnet w)) :
    AggregatesInPlace w prefixes (aggregate prefixes) := by
  have : Std.Total (aggLe (w := w)) := ⟨aggLe_total⟩
  have : IsTrans (Subnet w) aggLe := ⟨aggLe_trans⟩
  exact ⟨prefixes.insertionSort aggLe, List.perm_insertionSort aggLe prefixes,
    List.pairwise_insertionSort aggLe prefixes, compactInPlace_eq _⟩

/-- **Aggregation in place computes the canonical form.** -/
theorem aggregatesInPlace_canonicalizes : Canonicalizes (AggregatesInPlace w) where
  returns prefixes := ⟨_, aggregatesInPlace_aggregate prefixes⟩
  sorted h := by
    refine h.canonical.ordered.imp ?_
    intro m n hlt
    have := m.network_le_broadcast
    exact .inl (by bv_omega)
  disjoint h := by
    refine h.canonical.ordered.imp ?_
    intro m n hlt x hx
    simp only [contains, Bool.and_eq_true, decide_eq_true_iff] at hx
    bv_omega
  covers h := h.covers
  unmergeable h := h.canonical.apart
  determined h h' hcover :=
    h.canonical.unique h'.canonical fun x => by rw [h.covers, h'.covers, hcover]
  determined_trunc h h' hcover hbits := by
    have hunique := h.canonical.unique h'.canonical fun x => by rw [h.covers, h'.covers, hcover]
    rwa [h.map_trunc fun n hn => hbits n (List.mem_append_left _ hn),
      h'.map_trunc fun n hn => hbits n (List.mem_append_right _ hn)] at hunique

end Subnet

end WutherCore.Net
