import Mathlib.Tactic.Ring
import WutherCore.Text.Str

/-!
# Fixed-width numerals

Big-endian digit strings of a fixed width in an arbitrary base (`digitsBE`, `ofDigitsBE`), their
byte forms (`toBytesBE`, `toBytesLE` and the readers), and the numerals of `char::to_digit`
(`digitValue`, `valueOf`), with the round trips between a number and each of its forms.
-/

namespace WutherCore.Text

/-! ### Digit strings of a fixed width -/

/-- The `n` base-`b` digits of `v`, most significant first. -/
def digitsBE (b : Nat) : Nat → Nat → List Nat
  | 0, _ => []
  | n + 1, v => v / b ^ n % b :: digitsBE b n v

/-- The value of a base-`b` digit string. -/
def ofDigitsBE (b : Nat) (l : List Nat) : Nat := l.foldl (fun acc d => acc * b + d) 0

@[simp] theorem digitsBE_length (b n v : Nat) : (digitsBE b n v).length = n := by
  induction n with
  | zero => rfl
  | succ n ih => simp [digitsBE, ih]

theorem digitsBE_lt {b n v d : Nat} (hb : 0 < b) (h : d ∈ digitsBE b n v) : d < b := by
  induction n with
  | zero => cases h
  | succ n ih =>
    rcases List.mem_cons.1 h with rfl | h
    · exact Nat.mod_lt _ hb
    · exact ih h

theorem foldl_digitsBE (b n v acc : Nat) :
    (digitsBE b n v).foldl (fun acc d => acc * b + d) acc = acc * b ^ n + v % b ^ n := by
  induction n generalizing acc with
  | zero => simp [digitsBE, Nat.mod_one]
  | succ n ih =>
    rw [digitsBE, List.foldl_cons, ih, Nat.pow_succ, Nat.mod_mul]
    ring

theorem ofDigitsBE_digitsBE {b n v : Nat} (h : v < b ^ n) : ofDigitsBE b (digitsBE b n v) = v := by
  rw [ofDigitsBE, foldl_digitsBE, Nat.zero_mul, Nat.zero_add, Nat.mod_eq_of_lt h]

theorem foldl_lt {b : Nat} (l : List Nat) (hl : ∀ d ∈ l, d < b) (acc : Nat) :
    l.foldl (fun acc d => acc * b + d) acc < (acc + 1) * b ^ l.length := by
  induction l generalizing acc with
  | nil => simp
  | cons d l ih =>
    have hd : d < b := hl d List.mem_cons_self
    calc (d :: l).foldl (fun acc d => acc * b + d) acc
        < (acc * b + d + 1) * b ^ l.length := ih (fun x hx => hl x (List.mem_cons_of_mem _ hx)) _
      _ ≤ ((acc + 1) * b) * b ^ l.length := Nat.mul_le_mul_right _ (by rw [Nat.add_mul]; omega)
      _ = (acc + 1) * b ^ (d :: l).length := by rw [List.length_cons, Nat.pow_succ]; ring

theorem ofDigitsBE_lt {b : Nat} {l : List Nat} (hl : ∀ d ∈ l, d < b) :
    ofDigitsBE b l < b ^ l.length := by
  have h := foldl_lt l hl 0
  simpa [ofDigitsBE] using h

theorem le_foldl (b : Nat) (l : List Nat) (acc : Nat) :
    acc * b ^ l.length ≤ l.foldl (fun acc d => acc * b + d) acc := by
  induction l generalizing acc with
  | nil => simp
  | cons d l ih =>
    calc acc * b ^ (d :: l).length = acc * b * b ^ l.length := by
          rw [List.length_cons, Nat.pow_succ]
          ring
      _ ≤ (acc * b + d) * b ^ l.length := Nat.mul_le_mul_right _ (Nat.le_add_right _ _)
      _ ≤ (d :: l).foldl (fun acc d => acc * b + d) acc := ih _

theorem digitsBE_foldl {b : Nat} (l : List Nat) (hl : ∀ d ∈ l, d < b) (acc : Nat) :
    digitsBE b l.length (l.foldl (fun acc d => acc * b + d) acc) = l := by
  induction l generalizing acc with
  | nil => rfl
  | cons d l ih =>
    have hd : d < b := hl d List.mem_cons_self
    have hl' : ∀ x ∈ l, x < b := fun x hx => hl x (List.mem_cons_of_mem _ hx)
    have hdiv : l.foldl (fun acc d => acc * b + d) (acc * b + d) / b ^ l.length = acc * b + d :=
      Nat.div_eq_of_lt_le (le_foldl b l _) (foldl_lt l hl' _)
    rw [List.length_cons, digitsBE, List.foldl_cons, hdiv, ih hl', Nat.mul_comm, Nat.mul_add_mod,
      Nat.mod_eq_of_lt hd]

/-! ### Bytes -/

/-- `to_be_bytes` of an integer of `n` bytes. -/
def toBytesBE (n v : Nat) : List UInt8 := (digitsBE 256 n v).map UInt8.ofNat

/-- `from_be_bytes`. -/
def ofBytesBE (bytes : List UInt8) : Nat := ofDigitsBE 256 (bytes.map UInt8.toNat)

/-- `to_le_bytes` of an integer of `n` bytes. -/
def toBytesLE (n v : Nat) : List UInt8 := (toBytesBE n v).reverse

/-- `from_le_bytes`. -/
def ofBytesLE (bytes : List UInt8) : Nat := ofBytesBE bytes.reverse

@[simp] theorem toBytesBE_length (n v : Nat) : (toBytesBE n v).length = n := by simp [toBytesBE]

@[simp] theorem toBytesLE_length (n v : Nat) : (toBytesLE n v).length = n := by simp [toBytesLE]

theorem ofBytesBE_toBytesBE {n v : Nat} (h : v < 256 ^ n) : ofBytesBE (toBytesBE n v) = v := by
  have hmap : (toBytesBE n v).map UInt8.toNat = digitsBE 256 n v := by
    rw [toBytesBE, List.map_map]
    refine (List.map_congr_left fun d hd => ?_).trans (List.map_id _)
    have hd' : d < 256 := digitsBE_lt (by decide) hd
    simp [Nat.mod_eq_of_lt hd']
  rw [ofBytesBE, hmap, ofDigitsBE_digitsBE h]

theorem toBytesBE_ofBytesBE (bytes : List UInt8) : toBytesBE bytes.length (ofBytesBE bytes) = bytes := by
  have hlt : ∀ d ∈ bytes.map UInt8.toNat, d < 256 := by
    intro d hd
    obtain ⟨x, -, rfl⟩ := List.mem_map.1 hd
    exact x.toNat_lt
  have hdigits := digitsBE_foldl (bytes.map UInt8.toNat) hlt 0
  rw [List.length_map] at hdigits
  rw [toBytesBE, ofBytesBE, ofDigitsBE, hdigits, List.map_map]
  exact (List.map_congr_left fun x _ => UInt8.ofNat_toNat).trans (List.map_id _)

theorem ofBytesLE_toBytesLE {n v : Nat} (h : v < 256 ^ n) : ofBytesLE (toBytesLE n v) = v := by
  rw [ofBytesLE, toBytesLE, List.reverse_reverse, ofBytesBE_toBytesBE h]

theorem ofBytesBE_lt (bytes : List UInt8) : ofBytesBE bytes < 256 ^ bytes.length := by
  have h := ofDigitsBE_lt (b := 256) (l := bytes.map UInt8.toNat) (by
    intro d hd
    obtain ⟨x, -, rfl⟩ := List.mem_map.1 hd
    exact x.toNat_lt)
  simpa [ofBytesBE] using h

/-! ### Numerals -/

/-- The value of a digit character, as `char::to_digit` reads it for a radix up to 16;
`16` for every other character. -/
def digitValue (c : Char) : Nat :=
  if '0' ≤ c ∧ c ≤ '9' then c.toNat - 48
  else if 'a' ≤ c ∧ c ≤ 'f' then c.toNat - 87
  else if 'A' ≤ c ∧ c ≤ 'F' then c.toNat - 55
  else 16

/-- `char::to_digit(radix).is_some()`. -/
def isDigitOf (radix : Nat) (c : Char) : Bool := digitValue c < radix

/-- The value of a digit string. -/
def valueOf (radix : Nat) (s : Str) : Nat := s.foldl (fun acc c => acc * radix + digitValue c) 0

theorem digitValue_digitChar {d : Nat} (h : d < 16) : digitValue (Nat.digitChar d) = d := by
  have : ∀ d < 16, digitValue (Nat.digitChar d) = d := by decide
  exact this d h

theorem toDigits_spec (radix : Nat) (h1 : 1 < radix) (h16 : radix ≤ 16) (n : Nat) :
    valueOf radix (Nat.toDigits radix n) = n ∧
      ∀ c ∈ Nat.toDigits radix n, isDigitOf radix c = true := by
  induction n using Nat.strong_induction_on with
  | _ n ih =>
    rcases Nat.lt_or_ge n radix with hn | hn
    · rw [Nat.toDigits_of_lt_base hn]
      have hd : digitValue (Nat.digitChar n) = n := digitValue_digitChar (by omega)
      simp [valueOf, isDigitOf, hd, hn]
    · obtain ⟨hv, hc⟩ := ih (n / radix) (Nat.div_lt_self (by omega) h1)
      have hlt : n % radix < radix := Nat.mod_lt _ (by omega)
      have hd : digitValue (Nat.digitChar (n % radix)) = n % radix :=
        digitValue_digitChar (by omega)
      rw [Nat.toDigits_of_base_le h1 hn]
      refine ⟨?_, fun c hmem => ?_⟩
      · rw [valueOf, List.foldl_append, ← valueOf, hv]
        simp only [List.foldl_cons, List.foldl_nil, hd]
        exact Nat.div_add_mod' n radix
      · rcases List.mem_append.1 hmem with h | h
        · exact hc c h
        · obtain rfl := List.mem_singleton.1 h
          simp [isDigitOf, hd, hlt]

/-- The lower-case hexadecimal form `{:x}` of a number. -/
def hex (n : Nat) : Str := Nat.toDigits 16 n

end WutherCore.Text
