import WutherCore.Net.Prefix

/-!
# What the rule sets take from elsewhere

`Crates` is the record of the functions that come from other crates, from the Unicode tables of the
standard library and from the build configuration; the rest of the development is parametric in it.
The `..Laws` structures state the documented behaviour that proofs rely on.

`Crates.ascii` is an instance for plain ASCII input: case mapping and host names are ASCII, and a
pattern is read as a literal.  It satisfies the laws.
-/

namespace WutherCore.Ruleset

open WutherCore.Text WutherCore.Net

/-- The functions taken from other crates, from the Unicode tables of the standard library and from
the build configuration. A compiled pattern set is its `is_match`. -/
structure Crates where
  /-- `str::to_lowercase`. -/
  toLowercase : Str → Str
  /-- `char::is_alphanumeric`. -/
  isAlphanumeric : Char → Bool
  /-- `idna::domain_to_ascii`. -/
  domainToAscii : Str → Except String Str
  /-- `FromStr` of `ipnet::IpNet`. -/
  parseIpNet : Str → Option IpNet
  /-- `FromStr` of `ip_network::IpNetwork`. -/
  parseIpNetwork : Str → Option IpNet
  /-- `IpNetworkTable::longest_match(..).is_some()`, on the networks inserted so far. -/
  longestMatch : List IpNet → IpAddr → Bool
  /-- `regex::Regex::new`. -/
  regexNew : Str → Except String (Str → Bool)
  /-- `regex::RegexBuilder` with `case_insensitive(true)`. -/
  regexNoCase : Str → Except String (Str → Bool)
  /-- `regex::escape`. -/
  regexEscape : Str → Str
  /-- `regex::RegexSet::new`. -/
  regexSet : List Str → Except String (Str → Bool)
  /-- `regex::RegexSetBuilder` with `case_insensitive(true)`. -/
  regexSetNoCase : List Str → Option (Str → Bool)
  /-- `fancy_regex::RegexBuilder` with `case_insensitive(true)` and `oniguruma_mode(true)`; its
  `is_match` fails when the backtracking budget is used up. -/
  fancyRegex : Str → Except String (Str → Option Bool)
  /-- `globset::GlobBuilder` with `case_insensitive(true)`, `literal_separator(false)` and
  `backslash_escape(true)`: whether it builds. -/
  globBuild : Str → Except String Unit
  /-- `globset::GlobSetBuilder` over globs that build. -/
  globSet : List Str → Option (Str → Bool)
  /-- `globset::GlobMatcher` of a glob that builds. -/
  globMatcher : Str → Str → Bool
  /-- `aho_corasick::AhoCorasickBuilder` with `ascii_case_insensitive(true)`. -/
  ahoCorasick : List Str → Option (Str → Bool)
  /-- The same builder with `find_overlapping_iter`: the patterns found, by their position. -/
  ahoCorasickFind : List Str → Option (Str → List Nat)
  /-- `cfg!(target_os = "android")`. -/
  isAndroid : Bool

/-- What the matchers rely on in the `ip_network` crates: the text of a network is read unless host
bits are set, and a table answers whether an inserted network contains the address. -/
structure Crates.IpNetworkLaws (cr : Crates) : Prop where
  parseIpNetwork_display : ∀ n : IpNet,
    cr.parseIpNetwork n.display = if n.hasHostBits then none else some n
  longestMatch_eq : ∀ ns ip, cr.longestMatch ns ip = ns.any (·.contains ip)

/-! ### The ASCII instance -/

/-- An address, a slash and a length in range. -/
def parseNet (s : Str) : Option IpNet := do
  let (address, len) ← splitOnce '/' s
  let address ← parseIpAddr address
  let len ← parseUnsigned 256 len
  match address with
  | .v4 a => if h : len ≤ 32 then some (.v4 ⟨a, len, h⟩) else none
  | .v6 a => if h : len ≤ 128 then some (.v6 ⟨a, len, h⟩) else none

/-- A pattern of letters and digits is a literal. -/
def literalPattern (pattern : Str) : Except String Str :=
  if pattern.all Char.isAlphanum then .ok pattern else .error "not a literal pattern"

/-- Whether every backslash of a pattern has a character to escape. -/
def escapesClosed (escaped : Bool) : Str → Bool
  | [] => !escaped
  | c :: s => escapesClosed (!escaped && c == '\\') s

/-- The characters of glob classes and alternatives. -/
def isBracket (c : Char) : Bool := c == '[' || c == ']' || c == '\x7b' || c == '\x7d'

/-- Substring search that ignores ASCII case. -/
def containsNoCase (s pattern : Str) : Bool :=
  Text.contains (toAsciiLowercase s) (toAsciiLowercase pattern)

/-- The instance for plain ASCII input. -/
def Crates.ascii : Crates where
  toLowercase := toAsciiLowercase
  isAlphanumeric := Char.isAlphanum
  domainToAscii s := .ok (toAsciiLowercase s)
  parseIpNet := parseNet
  parseIpNetwork s := (parseNet s).filter (!·.hasHostBits)
  longestMatch ns ip := ns.any (·.contains ip)
  regexNew p := (literalPattern p).map fun p s => Text.contains s p
  regexNoCase p := (literalPattern p).map fun p s => containsNoCase s p
  regexEscape p := p.flatMap fun c => if c.isAlphanum then [c] else ['\\', c]
  regexSet ps :=
    if ps.all (·.all Char.isAlphanum) then .ok fun s => ps.any (Text.contains s)
    else .error "not a literal pattern"
  regexSetNoCase ps :=
    if ps.all (·.all Char.isAlphanum) then some fun s => ps.any (containsNoCase s) else none
  fancyRegex p := (literalPattern p).map fun p s => some (containsNoCase s p)
  globBuild p :=
    if p.any isBracket || !escapesClosed false p then .error "unsupported glob" else .ok ()
  globSet ps := some fun s => ps.any (eqIgnoreAsciiCase s)
  globMatcher p s := eqIgnoreAsciiCase s p
  ahoCorasick ps := some fun s => ps.any (containsNoCase s)
  ahoCorasickFind ps := some fun s => ps.findIdxs (containsNoCase s)
  isAndroid := false

theorem splitOnce_append {c : Char} {a : Str} (h : c ∉ a) (b : Str) :
    splitOnce c (a ++ c :: b) = some (a, b) := by
  induction a with
  | nil => simp [splitOnce]
  | cons x a ih =>
    rw [List.mem_cons, not_or] at h
    simp [splitOnce, ih h.2, Ne.symm h.1]

theorem parseNet_display (n : IpNet) : parseNet n.display = some n := by
  have hslash : '/' ∉ n.addr.display := fun h => absurd (n.addr.display_isAddrChar _ h) (by decide)
  rw [parseNet, IpNet.display, splitOnce_append hslash]
  cases n with
  | v4 n =>
    have hlen : n.len < 256 := n.len_le.trans_lt (by decide)
    simp [parseIpAddr_display, IpNet.len, IpNet.addr, parseUnsigned_decimal hlen, n.len_le]
  | v6 n =>
    have hlen : n.len < 256 := n.len_le.trans_lt (by decide)
    simp [parseIpAddr_display, IpNet.len, IpNet.addr, parseUnsigned_decimal hlen, n.len_le]

theorem Crates.ascii_ipNetworkLaws : Crates.ascii.IpNetworkLaws where
  parseIpNetwork_display n := by
    cases h : n.hasHostBits <;> simp [Crates.ascii, parseNet_display, Option.filter, h]
  longestMatch_eq _ _ := rfl

end WutherCore.Ruleset
