import Mathlib.Data.List.DropRight
import Mathlib.Data.List.Infix

/-!
# Text as lists of scalar values

A Rust `str` is modelled by the list of its scalar values.  This file gives the operations of the
standard library that the development uses, under their Rust names: trimming, splitting, ASCII
case mapping, substring search, and decimal numerals.

* `trim`, `trimStartMatches`, `trimEndMatches`, `trimMatches`;
* `splitOnce`, and `List.splitOn` for `str::split` with a `char` pattern;
* `toAsciiLowercase`, `toAsciiUppercase`, `eqIgnoreAsciiCase`;
* `contains`, `endsWith`, `lines`;
* `decimal`, the `Display` form of an unsigned integer, and `parseUnsigned`, its `FromStr`.

`str::to_lowercase` and `char::is_alphanumeric` need the Unicode tables and are not defined here.
-/

namespace WutherCore.Text

/-- A text: the list of its Unicode scalar values. -/
abbrev Str := List Char

instance instLawfulBEqStr : LawfulBEq Str := inferInstance

instance : Coe String Str := ⟨String.toList⟩

/-- `char::is_whitespace`: the `White_Space` property. -/
def isWhitespace (c : Char) : Bool :=
  let n := c.toNat
  (9 ≤ n && n ≤ 13) || n == 0x20 || n == 0x85 || n == 0xA0 || n == 0x1680 ||
    (0x2000 ≤ n && n ≤ 0x200A) || n == 0x2028 || n == 0x2029 || n == 0x202F || n == 0x205F ||
    n == 0x3000

/-- `str::trim`. -/
def trim (s : Str) : Str := (s.dropWhile isWhitespace).rdropWhile isWhitespace

/-- `str::trim_start_matches` with a `char` pattern. -/
def trimStartMatches (c : Char) (s : Str) : Str := s.dropWhile (· == c)

/-- `str::trim_end_matches` with a `char` pattern. -/
def trimEndMatches (c : Char) (s : Str) : Str := s.rdropWhile (· == c)

/-- `str::trim_matches` with a `char` pattern. -/
def trimMatches (c : Char) (s : Str) : Str := trimEndMatches c (trimStartMatches c s)

/-- `str::split_once` with a `char` pattern. -/
def splitOnce (c : Char) : Str → Option (Str × Str)
  | [] => none
  | a :: s => if a == c then some ([], s) else (splitOnce c s).map fun p => (a :: p.1, p.2)

/-- `str::to_ascii_lowercase`. -/
def toAsciiLowercase (s : Str) : Str := s.map Char.toLower

/-- `str::to_ascii_uppercase`. -/
def toAsciiUppercase (s : Str) : Str := s.map Char.toUpper

/-- `str::eq_ignore_ascii_case`. -/
def eqIgnoreAsciiCase (s t : Str) : Bool := toAsciiLowercase s == toAsciiLowercase t

/-- `str::contains` with a `str` pattern. -/
def contains (s pat : Str) : Bool := s.tails.any pat.isPrefixOf

/-- `str::ends_with` with a `str` pattern. -/
def endsWith (s suffix : Str) : Bool := suffix.isSuffixOf s

/-- `str::strip_prefix`. -/
def stripPrefix (p s : Str) : Option Str := if p.isPrefixOf s then some (s.drop p.length) else none

/-- `str::strip_suffix`. -/
def stripSuffix (p s : Str) : Option Str :=
  if p.isSuffixOf s then some (s.take (s.length - p.length)) else none

/-- `[str]::join`. -/
def join (sep : Str) (parts : List Str) : Str := List.intercalate sep parts

/-- The `Display` form of an unsigned integer. -/
def decimal (n : Nat) : Str := Nat.toDigits 10 n

/-- The value of a non-empty string of decimal digits, when it is below `bound`. -/
def parseDigits (bound : Nat) (s : Str) : Option Nat :=
  if s ≠ [] ∧ s.all Char.isDigit ∧ Nat.ofDigitChars 10 s 0 < bound then
    some (Nat.ofDigitChars 10 s 0)
  else none

/-- `FromStr` of an unsigned integer type with the values below `bound`: an optional `+` and at
least one decimal digit. -/
def parseUnsigned (bound : Nat) : Str → Option Nat
  | '+' :: s => parseDigits bound s
  | s => parseDigits bound s

/-- `str::parse::<u8>`. -/
def parseU8 (s : Str) : Option UInt8 := (parseUnsigned UInt8.size s).map UInt8.ofNat

/-- `str::parse::<u16>`. -/
def parseU16 (s : Str) : Option UInt16 := (parseUnsigned UInt16.size s).map UInt16.ofNat

/-- `str::parse::<u32>`. -/
def parseU32 (s : Str) : Option UInt32 := (parseUnsigned UInt32.size s).map UInt32.ofNat

/-- `str::lines`: the pieces between line feeds, each without one trailing carriage return; an
empty last piece is no line. -/
def lines (s : Str) : List Str :=
  let pieces := s.splitOn '\n'
  let pieces := if pieces.getLast? = some [] then pieces.dropLast else pieces
  pieces.map fun l => if l.getLast? = some '\r' then l.dropLast else l

/-! ### Decimal numerals -/

theorem decimal_isDigit {n : Nat} {c : Char} (h : c ∈ decimal n) : c.isDigit := by
  exact Nat.isDigit_of_mem_toDigits (by decide) (by decide) h

theorem decimal_ne_nil (n : Nat) : decimal n ≠ [] := Nat.toDigits_ne_nil

theorem parseDigits_decimal {bound n : Nat} (h : n < bound) :
    parseDigits bound (decimal n) = some n := by
  have hv : Nat.ofDigitChars 10 (decimal n) 0 = n := Nat.ofDigitChars_ten_toDigits
  have hd : (decimal n).all Char.isDigit = true :=
    List.all_eq_true.2 fun c hc => decimal_isDigit hc
  simp [parseDigits, decimal_ne_nil, hv, hd, h]

theorem parseUnsigned_decimal {bound n : Nat} (h : n < bound) :
    parseUnsigned bound (decimal n) = some n := by
  unfold parseUnsigned
  split
  · rename_i s hs
    have hc : '+' ∈ decimal n := by rw [hs]; exact List.mem_cons_self
    exact absurd (decimal_isDigit hc) (by decide)
  · exact parseDigits_decimal h

/-! ### ASCII case -/

/-! ### Pieces -/

end WutherCore.Text
