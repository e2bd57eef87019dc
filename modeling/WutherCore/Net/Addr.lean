import WutherCore.Text.Radix

/-!
# IP addresses and their text

`std::net::IpAddr` with the addresses as bit vectors, and the text codec of the standard library:

* `displayIpv4`, `displayIpv6`, `IpAddr.display`: dotted decimal; colon-separated hexadecimal with
  the first longest run of two or more zero segments written `::`, and the `::ffff:a.b.c.d` form
  of an IPv4-mapped address;
* `parseIpv4`, `parseIpv6`, `parseIpAddr`: the readers, one function per method of the standard
  library's parser.

`parseIpAddr_display` says that every address is read back from its text.
-/

namespace WutherCore.Net

open WutherCore.Text

/-- `std::net::IpAddr`, each address as its big-endian integer. -/
inductive IpAddr
  | v4 (a : BitVec 32)
  | v6 (a : BitVec 128)
  deriving DecidableEq, Repr

/-- `std::net::SocketAddr`. -/
inductive SocketAddr
  | v4 (ip : BitVec 32) (port : UInt16)
  | v6 (ip : BitVec 128) (port : UInt16) (flowinfo scopeId : UInt32)
  deriving DecidableEq, Repr

/-- `IpAddr::is_ipv4`. -/
def IpAddr.isIpv4 : IpAddr → Bool
  | .v4 _ => true
  | .v6 _ => false

/-- `IpAddr::is_unspecified`. -/
def IpAddr.isUnspecified : IpAddr → Bool
  | .v4 a => a == 0
  | .v6 a => a == 0

/-- `SocketAddr::port`. -/
def SocketAddr.port : SocketAddr → UInt16
  | .v4 _ port => port
  | .v6 _ port _ _ => port

/-- `SocketAddr::ip`. -/
def SocketAddr.ip : SocketAddr → IpAddr
  | .v4 ip _ => .v4 ip
  | .v6 ip _ _ _ => .v6 ip

/-- `octets()`, most significant first. -/
def IpAddr.octets : IpAddr → List UInt8
  | .v4 a => toBytesBE 4 a.toNat
  | .v6 a => toBytesBE 16 a.toNat

/-- `Ipv6Addr::to_ipv4_mapped`: the address behind `::ffff:0:0/96`. -/
def toIpv4Mapped (a : BitVec 128) : Option (BitVec 32) :=
  if a.toNat / 2 ^ 32 = 0xffff then some (BitVec.ofNat 32 a.toNat) else none

/-! ### Display -/

/-- `Display` of `Ipv4Addr`. -/
def displayIpv4 (a : BitVec 32) : Str :=
  join "." ((digitsBE 256 4 a.toNat).map decimal)

/-- A run of zero segments. -/
structure Span where
  start : Nat
  len : Nat

/-- The current run with the zero segment at index `i` added. -/
def Span.extend (i : Nat) (current : Span) : Span :=
  ⟨if current.len = 0 then i else current.start, current.len + 1⟩

/-- The loop of `Display` of `Ipv6Addr` over the segments from index `i`: the first longest run of
zeros, from the longest run and the current run seen before. -/
def longestZeros : List Nat → Nat → Span → Span → Span
  | [], _, longest, _ => longest
  | g :: gs, i, longest, current =>
      if g = 0 then
        longestZeros gs (i + 1)
          (if (current.extend i).len > longest.len then current.extend i else longest)
          (current.extend i)
      else longestZeros gs (i + 1) longest ⟨0, 0⟩

/-- Segments in hexadecimal, separated by colons. -/
def displaySegments (gs : List Nat) : Str := join ":" (gs.map hex)

/-- `Display` of `Ipv6Addr`. -/
def displayIpv6 (a : BitVec 128) : Str :=
  match toIpv4Mapped a with
  | some v4 => "::ffff:" ++ displayIpv4 v4
  | none =>
      let segments := digitsBE 65536 8 a.toNat
      let zeroes := longestZeros segments 0 ⟨0, 0⟩ ⟨0, 0⟩
      if zeroes.len > 1 then
        displaySegments (segments.take zeroes.start) ++ "::" ++
          displaySegments (segments.drop (zeroes.start + zeroes.len))
      else displaySegments segments

/-- `Display` of `IpAddr`. -/
def IpAddr.display : IpAddr → Str
  | .v4 a => displayIpv4 a
  | .v6 a => displayIpv6 a

/-! ### The parser -/

/-- `Parser::read_number`: at most `maxDigits` digits with a value below `bound`. -/
def readNumber (radix maxDigits : Nat) (allowZeroPrefix : Bool) (bound : Nat) (s : Str) :
    Option (Nat × Str) :=
  let digits := s.takeWhile (isDigitOf radix)
  if digits = [] then none
  else if digits.length > maxDigits then none
  else if allowZeroPrefix = false ∧ digits.head? = some '0' ∧ digits.length > 1 then none
  else if valueOf radix digits < bound then
    some (valueOf radix digits, s.dropWhile (isDigitOf radix))
  else none

/-- `Parser::read_separator`: the separator is read before every item but the first. -/
def readSeparator {α : Type} (sep : Char) (first : Bool) (inner : Str → Option (α × Str)) :
    Str → Option (α × Str)
  | s => if first then inner s else
      match s with
      | c :: s => if c = sep then inner s else none
      | [] => none

/-- The loop of `Parser::read_ipv4_addr` for the remaining `n` octets. -/
def readOctets : Nat → Bool → Str → Option (List Nat × Str)
  | 0, _, s => some ([], s)
  | n + 1, first, s => do
      let (octet, s) ← readSeparator '.' first (readNumber 10 3 false 256) s
      let (octets, s) ← readOctets n false s
      return (octet :: octets, s)

/-- `Parser::read_ipv4_addr`. -/
def readIpv4Addr (s : Str) : Option (List Nat × Str) := readOctets 4 true s

/-- `read_groups` of `Parser::read_ipv6_addr` for the remaining `n` groups: the groups, whether the
last two came from an embedded IPv4 address, and the rest of the text. -/
def readGroups : Nat → Bool → Str → List Nat × Bool × Str
  | 0, _, s => ([], false, s)
  | n + 1, first, s =>
      -- an embedded IPv4 address takes two groups
      match (if 0 < n then readSeparator ':' first readIpv4Addr s else none) with
      | some ([one, two, three, four], rest) =>
          ([one * 256 + two, three * 256 + four], true, rest)
      | _ =>
          match readSeparator ':' first (readNumber 16 4 true 65536) s with
          | some (group, rest) =>
              let (groups, ipv4, rest) := readGroups n false rest
              (group :: groups, ipv4, rest)
          | none => ([], false, s)

/-- `Parser::read_ipv6_addr`, up to the conversion of the segments. -/
def readIpv6Addr (s : Str) : Option (List Nat × Str) :=
  match readGroups 8 true s with
  | (head, headIpv4, rest) =>
      if head.length = 8 then some (head, rest)
      else if headIpv4 then none
      else
        match rest with
        | ':' :: ':' :: rest =>
            match readGroups (8 - (head.length + 1)) true rest with
            | (tail, _, rest) =>
                some (head ++ List.replicate (8 - head.length - tail.length) 0 ++ tail, rest)
        | _ => none

/-- `FromStr` of `Ipv4Addr`. -/
def parseIpv4 (s : Str) : Option (BitVec 32) :=
  match readIpv4Addr s with
  | some (octets, []) => some (BitVec.ofNat 32 (ofDigitsBE 256 octets))
  | _ => none

/-- `FromStr` of `Ipv6Addr`. -/
def parseIpv6 (s : Str) : Option (BitVec 128) :=
  match readIpv6Addr s with
  | some (segments, []) => some (BitVec.ofNat 128 (ofDigitsBE 65536 segments))
  | _ => none

/-- `FromStr` of `IpAddr`: IPv4 first, then IPv6. -/
def parseIpAddr (s : Str) : Option IpAddr :=
  match parseIpv4 s with
  | some a => some (.v4 a)
  | none => (parseIpv6 s).map .v6

/-! ### Reading back a number -/

theorem readNumber_append {radix maxDigits : Nat} (zero : Bool) (bound : Nat) {ds rest : Str}
    (hne : ds ≠ []) (hds : ∀ c ∈ ds, isDigitOf radix c = true)
    (hrest : ∀ c, rest.head? = some c → isDigitOf radix c = false) (hlen : ds.length ≤ maxDigits)
    (hzero : zero = true ∨ ds.head? ≠ some '0' ∨ ds.length = 1) (hb : valueOf radix ds < bound) :
    readNumber radix maxDigits zero bound (ds ++ rest) = some (valueOf radix ds, rest) := by
  have htw : rest.takeWhile (isDigitOf radix) = [] := by
    cases rest with
    | nil => rfl
    | cons c rest => simp [hrest c rfl]
  have hdw : rest.dropWhile (isDigitOf radix) = rest := by
    cases rest with
    | nil => rfl
    | cons c rest => simp [hrest c rfl]
  have ht : (ds ++ rest).takeWhile (isDigitOf radix) = ds := by
    rw [List.takeWhile_append_of_pos hds, htw, List.append_nil]
  have hd : (ds ++ rest).dropWhile (isDigitOf radix) = rest := by
    rw [List.dropWhile_append_of_pos hds, hdw]
  have hz : ¬(zero = false ∧ ds.head? = some '0' ∧ ds.length > 1) := by
    rintro ⟨h1, h2, h3⟩
    rcases hzero with h | h | h
    · simp [h] at h1
    · exact h h2
    · omega
  simp only [readNumber, ht, hd]
  rw [if_neg hne, if_neg (by omega), if_neg hz, if_pos hb]

/-- Parts separated by `sep`, with a separator in front unless `first`. -/
def sepText (sep : Char) : Bool → List Str → Str
  | _, [] => []
  | first, p :: ps => (if first then p else sep :: p) ++ sepText sep false ps

theorem sepText_false_cons (sep : Char) (p : Str) (ps : List Str) :
    sepText sep false (p :: ps) = sep :: (p ++ sepText sep false ps) := rfl

theorem join_eq_sepText (sep : Char) (parts : List Str) : join [sep] parts = sepText sep true parts := by
  cases parts with
  | nil => rfl
  | cons p ps =>
    induction ps generalizing p with
    | nil => simp [join, sepText, List.intercalate]
    | cons q qs ih =>
      have h := ih q
      simp only [join, sepText, List.intercalate, List.intersperse, List.flatten_cons] at h ⊢
      simp [h]

theorem octet_text : ∀ n < 256, (decimal n).length ≤ 3 ∧
    ((decimal n).head? ≠ some '0' ∨ (decimal n).length = 1) := by
  decide +kernel

theorem readOctet {n : Nat} (hn : n < 256) {rest : Str}
    (hrest : ∀ c, rest.head? = some c → isDigitOf 10 c = false) :
    readNumber 10 3 false 256 (decimal n ++ rest) = some (n, rest) := by
  obtain ⟨hv, hc⟩ := toDigits_spec 10 (by decide) (by decide) n
  have h := readNumber_append false 256 (decimal_ne_nil n) hc hrest
    (octet_text n hn).1 (Or.inr (octet_text n hn).2) (by rw [decimal, hv]; exact hn)
  rwa [decimal, hv] at h

theorem readOctets_text (os : List Nat) (hos : ∀ o ∈ os, o < 256) (first : Bool) {rest : Str}
    (hrest : ∀ c, rest.head? = some c → isDigitOf 10 c = false) :
    readOctets os.length first (sepText '.' first (os.map decimal) ++ rest) = some (os, rest) := by
  induction os generalizing first with
  | nil => rfl
  | cons o os ih =>
    have ho : o < 256 := hos o List.mem_cons_self
    have ih' := ih (fun x hx => hos x (List.mem_cons_of_mem _ hx)) false
    have hnext : ∀ c, (sepText '.' false (os.map decimal) ++ rest).head? = some c →
        isDigitOf 10 c = false := by
      cases os with
      | nil => exact hrest
      | cons o' os =>
        intro c hc
        simp only [List.map_cons, sepText_false_cons, List.cons_append, List.head?_cons,
          Option.some.injEq] at hc
        subst hc
        decide
    cases first <;>
      simp [sepText, readOctets, readSeparator, readOctet ho hnext, ih', List.append_assoc]

theorem readIpv4Addr_display (a : BitVec 32) (rest : Str)
    (hrest : ∀ c, rest.head? = some c → isDigitOf 10 c = false) :
    readIpv4Addr (displayIpv4 a ++ rest) = some (digitsBE 256 4 a.toNat, rest) := by
  have h := readOctets_text (digitsBE 256 4 a.toNat)
    (fun o ho => digitsBE_lt (by decide) ho) true hrest
  rw [digitsBE_length] at h
  rw [readIpv4Addr, displayIpv4, show ((("." : String) : Str)) = ['.'] from rfl, join_eq_sepText]
  exact h

theorem parseIpv4_display (a : BitVec 32) : parseIpv4 (displayIpv4 a) = some a := by
  have h := readIpv4Addr_display a [] (by simp)
  rw [List.append_nil] at h
  have hlt : a.toNat < 256 ^ 4 := a.isLt
  simp [parseIpv4, h, ofDigitsBE_digitsBE hlt]

/-! ### Reading back the segments of an IPv6 address -/

theorem readIpv4Addr_eq_none {s : Str} (h : '.' ∉ s) : readIpv4Addr s = none := by
  have hsep : ∀ t : Str, '.' ∉ t → ∀ n, readOctets (n + 1) false t = none := by
    intro t ht n
    cases t with
    | nil => rfl
    | cons c t =>
      have hc : c ≠ '.' := fun hc => ht (by rw [hc]; exact List.mem_cons_self)
      simp [readOctets, readSeparator, hc]
  unfold readIpv4Addr readOctets
  simp only [readSeparator, ↓reduceIte, bind, Option.bind]
  cases hn : readNumber 10 3 false 256 s with
  | none => rfl
  | some p =>
    obtain ⟨o, t⟩ := p
    have ht : '.' ∉ t := by
      simp only [readNumber] at hn
      split_ifs at hn
      cases hn
      exact fun hm => h ((List.dropWhile_sublist _).mem hm)
    simp [hsep t ht]

theorem hex_spec (g : Nat) :
    valueOf 16 (hex g) = g ∧ ∀ c ∈ hex g, isDigitOf 16 c = true :=
  toDigits_spec 16 (by decide) (by decide) g

theorem readGroup {g : Nat} (hg : g < 65536) {rest : Str}
    (hrest : ∀ c, rest.head? = some c → isDigitOf 16 c = false) :
    readNumber 16 4 true 65536 (hex g ++ rest) = some (g, rest) := by
  obtain ⟨hv, hc⟩ := hex_spec g
  have hlen : (hex g).length ≤ 4 :=
    (Nat.length_toDigits_le_iff (by decide) (by decide)).2 (by omega)
  have hne : hex g ≠ [] := Nat.toDigits_ne_nil
  have h := readNumber_append true 65536 hne hc hrest hlen
    (Or.inl rfl) (by rw [hv]; exact hg)
  rwa [hv] at h

theorem hex_no_dot (g : Nat) : '.' ∉ hex g := by
  intro h
  exact absurd ((hex_spec g).2 _ h) (by decide)

theorem segments_no_dot (first : Bool) (gs : List Nat) : '.' ∉ sepText ':' first (gs.map hex) := by
  induction gs generalizing first with
  | nil => simp [sepText]
  | cons g gs ih => cases first <;> simp [sepText, hex_no_dot, ih]

/-- A rest of the text at which `read_groups` stops: the end, or `::`. -/
def GroupsEnd (rest : Str) : Prop := rest = [] ∨ ∃ t, rest = ':' :: ':' :: t

theorem readGroups_end {rest : Str} (h : GroupsEnd rest) (hdot : '.' ∉ rest) (n : Nat)
    (first : Bool) : readGroups n first rest = ([], false, rest) := by
  cases n with
  | zero => rfl
  | succ n =>
    have hv4 : (if 0 < n then readSeparator ':' first readIpv4Addr rest else none) = none := by
      split_ifs
      · rcases h with rfl | ⟨t, rfl⟩
        · cases first <;> rfl
        · have ht : '.' ∉ ':' :: t := fun hm => hdot (List.mem_cons_of_mem _ hm)
          cases first
          · simp [readSeparator, readIpv4Addr_eq_none ht]
          · simp [readSeparator, readIpv4Addr_eq_none hdot]
      · rfl
    have hnum : readSeparator ':' first (readNumber 16 4 true 65536) rest = none := by
      rcases h with rfl | ⟨t, rfl⟩ <;> cases first <;>
        simp [readSeparator, readNumber, isDigitOf, digitValue]
    rw [readGroups, hv4, hnum]

theorem readGroups_text (gs : List Nat) (hgs : ∀ g ∈ gs, g < 65536) (n : Nat)
    (hn : gs.length ≤ n) (first : Bool) (rest : Str) (hrest : GroupsEnd rest) (hdot : '.' ∉ rest) :
    readGroups n first (sepText ':' first (gs.map hex) ++ rest) = (gs, false, rest) := by
  induction gs generalizing n first with
  | nil => exact readGroups_end hrest hdot n first
  | cons g gs ih =>
    obtain ⟨n, rfl⟩ : ∃ m, n = m + 1 := ⟨n - 1, by simp only [List.length_cons] at hn; omega⟩
    have hg : g < 65536 := hgs g List.mem_cons_self
    have ih' := ih (fun x hx => hgs x (List.mem_cons_of_mem _ hx)) n
      (by simp only [List.length_cons] at hn; omega) false
    have hnext : ∀ c, (sepText ':' false (gs.map hex) ++ rest).head? = some c →
        isDigitOf 16 c = false := by
      intro c hc
      have hcolon : c = ':' := by
        cases gs with
        | nil =>
          rcases hrest with rfl | ⟨t, rfl⟩
          · cases hc
          · simpa [sepText] using hc.symm
        | cons g' gs => simpa [sepText_false_cons] using hc.symm
      subst hcolon
      decide
    have hnodot : '.' ∉ hex g ++ (sepText ':' false (gs.map hex) ++ rest) := by
      simp [hex_no_dot, segments_no_dot, hdot]
    have hv4 : (if 0 < n then readSeparator ':' first readIpv4Addr
        (sepText ':' first ((g :: gs).map hex) ++ rest) else none) = none := by
      split_ifs
      · cases first <;>
          simp [sepText, readSeparator, List.append_assoc, readIpv4Addr_eq_none hnodot]
      · rfl
    have hnum : readSeparator ':' first (readNumber 16 4 true 65536)
        (sepText ':' first ((g :: gs).map hex) ++ rest) =
          some (g, sepText ':' false (gs.map hex) ++ rest) := by
      cases first <;> simp [sepText, readSeparator, List.append_assoc, readGroup hg hnext]
    rw [readGroups, hv4, hnum]
    simp [ih']

/-! ### The run of zeros -/

/-- A span of zero entries of `full`. -/
def Span.Zero (full : List Nat) (sp : Span) : Prop :=
  sp.start + sp.len ≤ full.length ∧
    ∀ j, sp.start ≤ j → j < sp.start + sp.len → full[j]? = some 0

/-- The loop keeps both spans zero, and the current one ends at the loop index. -/
theorem longestZeros_zero (pre gs : List Nat) (longest current : Span)
    (hl : longest.Zero (pre ++ gs)) (hc : current.Zero (pre ++ gs))
    (hend : current.len = 0 ∨ current.start + current.len = pre.length) :
    (longestZeros gs pre.length longest current).Zero (pre ++ gs) := by
  induction gs generalizing pre longest current with
  | nil => simpa [longestZeros] using hl
  | cons g gs ih =>
    have hassoc : pre ++ g :: gs = (pre ++ [g]) ++ gs := by simp
    have hlen : (pre ++ [g]).length = pre.length + 1 := by simp
    have hzero : Span.Zero (pre ++ g :: gs) ⟨0, 0⟩ := ⟨by simp, fun j _ h => by simp at h⟩
    rw [longestZeros]
    by_cases hg : g = 0
    · subst hg
      rw [if_pos rfl]
      have hstart : (current.extend pre.length).start + (current.extend pre.length).len =
          pre.length + 1 := by
        unfold Span.extend
        split_ifs <;> simp only <;> omega
      have hz : (current.extend pre.length).Zero (pre ++ 0 :: gs) := by
        refine ⟨by rw [hstart]; simp, fun j hj1 hj2 => ?_⟩
        rcases Nat.lt_or_ge j pre.length with hj | hj
        · have h0 : current.len ≠ 0 := fun h0 => by simp [Span.extend, h0] at hj1; omega
          simp only [Span.extend, h0, if_false] at hj1
          exact hc.2 j hj1 (by omega)
        · obtain rfl : j = pre.length := by omega
          rw [List.getElem?_append_right le_rfl, Nat.sub_self, List.getElem?_cons_zero]
      have hbest : (if (current.extend pre.length).len > longest.len then
          current.extend pre.length else longest).Zero (pre ++ 0 :: gs) := by
        split_ifs
        · exact hz
        · exact hl
      rw [hassoc] at hbest hz ⊢
      have h := ih (pre ++ [0]) _ _ hbest hz (Or.inr (by rw [hstart, hlen]))
      rwa [hlen] at h
    · rw [if_neg hg]
      rw [hassoc] at hl hzero ⊢
      have h := ih (pre ++ [g]) longest ⟨0, 0⟩ hl hzero (Or.inl rfl)
      rwa [hlen] at h

theorem take_replicate_drop {full : List Nat} {sp : Span} (h : sp.Zero full) :
    full.take sp.start ++ List.replicate sp.len 0 ++ full.drop (sp.start + sp.len) = full := by
  have hmid : (full.drop sp.start).take sp.len = List.replicate sp.len 0 := by
    refine List.eq_replicate_iff.2 ⟨by simp; have := h.1; omega, fun b hb => ?_⟩
    obtain ⟨i, hi⟩ := List.mem_iff_getElem?.1 hb
    rw [List.getElem?_take] at hi
    split_ifs at hi with hlt
    rw [List.getElem?_drop, h.2 _ (by omega) (by omega)] at hi
    exact (Option.some.inj hi).symm
  rw [← hmid, ← List.drop_drop, List.append_assoc, List.take_append_drop, List.take_append_drop]

/-! ### The round trip -/

theorem readIpv6Addr_segments (gs : List Nat) (hgs : ∀ g ∈ gs, g < 65536) (hlen : gs.length = 8) :
    readIpv6Addr (displaySegments gs) = some (gs, []) := by
  have h := readGroups_text gs hgs 8 (by omega) true [] (Or.inl rfl) (by simp)
  rw [List.append_nil] at h
  rw [readIpv6Addr, displaySegments, show (((":" : String) : Str)) = [':'] from rfl, join_eq_sepText,
    h]
  simp [hlen]

theorem readIpv6Addr_compressed (pre post : List Nat) (hpre : ∀ g ∈ pre, g < 65536)
    (hpost : ∀ g ∈ post, g < 65536) (hlen : pre.length + post.length ≤ 7) :
    readIpv6Addr (displaySegments pre ++ "::" ++ displaySegments post) =
      some (pre ++ List.replicate (8 - pre.length - post.length) 0 ++ post, []) := by
  have hcolons : ((("::" : String) : Str)) = [':', ':'] := rfl
  have hcolon : (((":" : String) : Str)) = [':'] := rfl
  have hdot : '.' ∉ ':' :: ':' :: sepText ':' true (post.map hex) := by
    simp [segments_no_dot]
  have h1 := readGroups_text pre hpre 8 (by omega) true
    (':' :: ':' :: sepText ':' true (post.map hex)) (Or.inr ⟨_, rfl⟩) hdot
  have h2 := readGroups_text post hpost (8 - (pre.length + 1)) (by omega) true []
    (Or.inl rfl) (by simp)
  rw [List.append_nil] at h2
  rw [readIpv6Addr, displaySegments, displaySegments, hcolons, hcolon, join_eq_sepText,
    join_eq_sepText, List.append_assoc, List.cons_append, List.cons_append, List.nil_append, h1]
  simp only
  rw [if_neg (by omega), if_neg (by simp), h2]

theorem toIpv4Mapped_eq_some {a : BitVec 128} {v4 : BitVec 32} (h : toIpv4Mapped a = some v4) :
    a.toNat = 0xffff * 2 ^ 32 + v4.toNat := by
  unfold toIpv4Mapped at h
  split_ifs at h with hhi
  cases h
  rw [BitVec.toNat_ofNat]
  omega

theorem readIpv6Addr_mapped (v4 : BitVec 32) :
    readIpv6Addr ("::ffff:" ++ displayIpv4 v4) =
      some ([0, 0, 0, 0, 0, 0xffff, v4.toNat / 65536, v4.toNat % 65536], []) := by
  have hv4 := readIpv4Addr_display v4 [] (by simp)
  rw [List.append_nil] at hv4
  have hlt : v4.toNat < 2 ^ 32 := v4.isLt
  have hffff : ((("::ffff:" : String) : Str)) = [':', ':', 'f', 'f', 'f', 'f', ':'] := rfl
  have hhead : readGroups 8 true (':' :: ':' :: 'f' :: 'f' :: 'f' :: 'f' :: ':' :: displayIpv4 v4) =
      ([], false, ':' :: ':' :: 'f' :: 'f' :: 'f' :: 'f' :: ':' :: displayIpv4 v4) := by
    simp [readGroups, readSeparator, readIpv4Addr, readOctets, readNumber, isDigitOf, digitValue]
  have hgroup : readNumber 16 4 true 65536 ('f' :: 'f' :: 'f' :: 'f' :: ':' :: displayIpv4 v4) =
      some (0xffff, ':' :: displayIpv4 v4) := by
    simp [readNumber, isDigitOf, digitValue, valueOf]
  have htail : readGroups 7 true ('f' :: 'f' :: 'f' :: 'f' :: ':' :: displayIpv4 v4) =
      ([0xffff, v4.toNat / 65536, v4.toNat % 65536], true, []) := by
    rw [readGroups, if_pos (by decide)]
    have hno : readSeparator ':' true readIpv4Addr
        ('f' :: 'f' :: 'f' :: 'f' :: ':' :: displayIpv4 v4) = none := by
      simp [readSeparator, readIpv4Addr, readOctets, readNumber, isDigitOf, digitValue]
    rw [hno, readSeparator, if_pos rfl, hgroup]
    simp only
    rw [readGroups, if_pos (by decide)]
    simp only [readSeparator, Bool.false_eq_true, ↓reduceIte, hv4, digitsBE]
    simp only [Prod.mk.injEq, List.cons.injEq, and_true, true_and]
    omega
  rw [hffff, readIpv6Addr]
  simp only [List.cons_append, List.nil_append]
  rw [hhead]
  simp only [List.length_nil]
  rw [if_neg (by decide), if_neg (by decide), htail]
  rfl

/-- An IPv6 address is read back from its text. -/
theorem parseIpv6_display (a : BitVec 128) : parseIpv6 (displayIpv6 a) = some a := by
  have hlt : a.toNat < 65536 ^ 8 := a.isLt
  have hgs : ∀ g ∈ digitsBE 65536 8 a.toNat, g < 65536 := fun g hg => digitsBE_lt (by decide) hg
  have hval := ofDigitsBE_digitsBE hlt
  unfold displayIpv6
  split
  · rename_i v4 hv4
    have ha := toIpv4Mapped_eq_some hv4
    have hv4lt : v4.toNat < 2 ^ 32 := v4.isLt
    rw [parseIpv6, readIpv6Addr_mapped]
    simp only [Option.some.injEq]
    apply BitVec.eq_of_toNat_eq
    rw [BitVec.toNat_ofNat, ha]
    simp only [ofDigitsBE, List.foldl_cons, List.foldl_nil]
    omega
  · have hz := longestZeros_zero [] (digitsBE 65536 8 a.toNat) ⟨0, 0⟩ ⟨0, 0⟩
      ⟨by simp, fun j _ h => by simp at h⟩ ⟨by simp, fun j _ h => by simp at h⟩ (Or.inl rfl)
    simp only [List.nil_append, List.length_nil] at hz
    have hread : readIpv6Addr
        (let segments := digitsBE 65536 8 a.toNat
          let zeroes := longestZeros segments 0 ⟨0, 0⟩ ⟨0, 0⟩
          if zeroes.len > 1 then
            displaySegments (segments.take zeroes.start) ++ "::" ++
              displaySegments (segments.drop (zeroes.start + zeroes.len))
          else displaySegments segments) = some (digitsBE 65536 8 a.toNat, []) := by
      simp only
      split_ifs with hrun
      · have hbound := hz.1
        rw [digitsBE_length] at hbound
        rw [readIpv6Addr_compressed _ _ (fun g hg => hgs g (List.mem_of_mem_take hg))
          (fun g hg => hgs g (List.mem_of_mem_drop hg)) (by simp; omega)]
        have hsplit := take_replicate_drop hz
        have hpad : 8 - (List.take (longestZeros (digitsBE 65536 8 a.toNat) 0 ⟨0, 0⟩ ⟨0, 0⟩).start
              (digitsBE 65536 8 a.toNat)).length -
            (List.drop ((longestZeros (digitsBE 65536 8 a.toNat) 0 ⟨0, 0⟩ ⟨0, 0⟩).start +
              (longestZeros (digitsBE 65536 8 a.toNat) 0 ⟨0, 0⟩ ⟨0, 0⟩).len)
              (digitsBE 65536 8 a.toNat)).length =
            (longestZeros (digitsBE 65536 8 a.toNat) 0 ⟨0, 0⟩ ⟨0, 0⟩).len := by
          simp only [List.length_take, List.length_drop, digitsBE_length]
          omega
        rw [hpad, hsplit]
      · exact readIpv6Addr_segments _ hgs (digitsBE_length _ _ _)
    rw [parseIpv6, hread]
    simp [hval]

theorem parseIpv4_displayIpv6 (a : BitVec 128) : parseIpv4 (displayIpv6 a) = none := by
  have hnone : readIpv4Addr (displayIpv6 a) = none := by
    unfold displayIpv6
    split
    · simp [readIpv4Addr, readOctets, readSeparator, readNumber, isDigitOf, digitValue]
    · have hseg : ∀ gs, '.' ∉ displaySegments gs := fun gs => by
        rw [displaySegments, show (((":" : String) : Str)) = [':'] from rfl, join_eq_sepText]
        exact segments_no_dot true gs
      refine readIpv4Addr_eq_none ?_
      simp only
      split_ifs <;> simp [hseg]
  simp [parseIpv4, hnone]

/-- **Every address is read back from its text.** -/
theorem parseIpAddr_display (ip : IpAddr) : parseIpAddr ip.display = some ip := by
  cases ip with
  | v4 a => simp [parseIpAddr, IpAddr.display, parseIpv4_display]
  | v6 a => simp [parseIpAddr, IpAddr.display, parseIpv4_displayIpv6, parseIpv6_display]

/-! ### The alphabet of address texts -/

/-- The characters of address texts: hexadecimal digits, dots and colons. -/
def isAddrChar (c : Char) : Bool := isDigitOf 16 c || c == '.' || c == ':'

theorem sepText_isAddrChar {sep : Char} (hsep : isAddrChar sep = true) (first : Bool)
    (parts : List Str) (hparts : ∀ p ∈ parts, ∀ c ∈ p, isAddrChar c = true) :
    ∀ c ∈ sepText sep first parts, isAddrChar c = true := by
  induction parts generalizing first with
  | nil => simp [sepText]
  | cons p ps ih =>
    have hp := hparts p List.mem_cons_self
    have ih' := ih false (fun q hq => hparts q (List.mem_cons_of_mem _ hq))
    intro c hc
    rcases List.mem_append.1 hc with h | h
    · cases first
      · rcases List.mem_cons.1 h with rfl | h
        · exact hsep
        · exact hp c h
      · exact hp c h
    · exact ih' c h

theorem displayIpv4_isAddrChar (a : BitVec 32) : ∀ c ∈ displayIpv4 a, isAddrChar c = true := by
  rw [displayIpv4, show ((("." : String) : Str)) = ['.'] from rfl, join_eq_sepText]
  refine sepText_isAddrChar (by decide) true _ fun p hp c hc => ?_
  obtain ⟨n, -, rfl⟩ := List.mem_map.1 hp
  have h10 : isDigitOf 10 c = true :=
    (toDigits_spec 10 (by decide) (by decide) n).2 c hc
  have h16 : isDigitOf 16 c = true := by
    simp only [isDigitOf, decide_eq_true_eq] at h10 ⊢
    omega
  simp [isAddrChar, h16]

theorem displaySegments_isAddrChar (gs : List Nat) :
    ∀ c ∈ displaySegments gs, isAddrChar c = true := by
  rw [displaySegments, show (((":" : String) : Str)) = [':'] from rfl, join_eq_sepText]
  refine sepText_isAddrChar (by decide) true _ fun p hp c hc => ?_
  obtain ⟨n, -, rfl⟩ := List.mem_map.1 hp
  simp [isAddrChar, (hex_spec n).2 c hc]

theorem IpAddr.display_isAddrChar (ip : IpAddr) : ∀ c ∈ ip.display, isAddrChar c = true := by
  cases ip with
  | v4 a => exact displayIpv4_isAddrChar a
  | v6 a =>
    intro c hc
    simp only [IpAddr.display, displayIpv6] at hc
    split at hc
    · rcases List.mem_append.1 hc with h | h
      · have hall : ((("::ffff:" : String) : Str)).all isAddrChar = true := by decide
        exact List.all_eq_true.1 hall c h
      · exact displayIpv4_isAddrChar _ c h
    · split_ifs at hc
      · rcases List.mem_append.1 hc with h | h
        · rcases List.mem_append.1 h with h | h
          · exact displaySegments_isAddrChar _ c h
          · have hall : ((("::" : String) : Str)).all isAddrChar = true := by decide
            exact List.all_eq_true.1 hall c h
        · exact displaySegments_isAddrChar _ c h
      · exact displaySegments_isAddrChar _ c hc

/-! ### The length of address texts -/

theorem sepText_length_le {sep : Char} {n : Nat} (first : Bool) (parts : List Str)
    (h : ∀ p ∈ parts, p.length ≤ n) :
    (sepText sep first parts).length ≤ parts.length * (n + 1) := by
  induction parts generalizing first with
  | nil => simp [sepText]
  | cons p ps ih =>
    rw [List.forall_mem_cons] at h
    have hrest := ih false h.2
    cases first <;> simp only [sepText, Bool.false_eq_true, if_false, if_true, List.length_append,
      List.length_cons, Nat.succ_mul] <;> omega

theorem displayIpv4_length_le (a : BitVec 32) : (displayIpv4 a).length ≤ 16 := by
  rw [displayIpv4, show ((("." : String) : Str)) = ['.'] from rfl, join_eq_sepText]
  have h : (sepText '.' true ((digitsBE 256 4 a.toNat).map decimal)).length ≤
      ((digitsBE 256 4 a.toNat).map decimal).length * (3 + 1) := by
    refine sepText_length_le true _ fun p hp => ?_
    obtain ⟨n, hn, rfl⟩ := List.mem_map.1 hp
    exact (octet_text n (digitsBE_lt (by decide) hn)).1
  simpa using h

theorem displaySegments_length_le (gs : List Nat) (h : ∀ g ∈ gs, g < 65536) :
    (displaySegments gs).length ≤ gs.length * 5 := by
  rw [displaySegments, show (((":" : String) : Str)) = [':'] from rfl, join_eq_sepText]
  have hlen : (sepText ':' true (gs.map hex)).length ≤ (gs.map hex).length * (4 + 1) := by
    refine sepText_length_le true _ fun p hp => ?_
    obtain ⟨g, hg, rfl⟩ := List.mem_map.1 hp
    have hlt := h g hg
    exact (Nat.length_toDigits_le_iff (by decide) (by decide)).2 (by omega)
  simpa using hlen

/-- The text of an address has at most 42 characters. -/
theorem IpAddr.display_length_le (ip : IpAddr) : ip.display.length ≤ 42 := by
  cases ip with
  | v4 a => exact (displayIpv4_length_le a).trans (by decide)
  | v6 a =>
    have hseg : ∀ g ∈ digitsBE 65536 8 a.toNat, g < 65536 := fun g hg => digitsBE_lt (by decide) hg
    have hlen := digitsBE_length 65536 8 a.toNat
    simp only [IpAddr.display, displayIpv6]
    split
    · rename_i v4 _
      have h4 := displayIpv4_length_le v4
      simp only [List.length_append]
      simp
      omega
    · split_ifs
      · have htake := displaySegments_length_le
          ((digitsBE 65536 8 a.toNat).take (longestZeros (digitsBE 65536 8 a.toNat) 0 ⟨0, 0⟩ ⟨0, 0⟩).start)
          fun g hg => hseg g (List.mem_of_mem_take hg)
        have hdrop := displaySegments_length_le
          ((digitsBE 65536 8 a.toNat).drop
            ((longestZeros (digitsBE 65536 8 a.toNat) 0 ⟨0, 0⟩ ⟨0, 0⟩).start +
              (longestZeros (digitsBE 65536 8 a.toNat) 0 ⟨0, 0⟩ ⟨0, 0⟩).len))
          fun g hg => hseg g (List.mem_of_mem_drop hg)
        simp only [List.length_take, List.length_drop, hlen] at htake hdrop
        simp only [List.length_append]
        simp
        omega
      · have h := displaySegments_length_le _ hseg
        rw [hlen] at h
        omega

theorem IpAddr.display_ne_nil (ip : IpAddr) : ip.display ≠ [] := by
  intro h
  have hnone : parseIpAddr [] = none := by decide
  have hparse := parseIpAddr_display ip
  rw [h, hnone] at hparse
  cases hparse

end WutherCore.Net
