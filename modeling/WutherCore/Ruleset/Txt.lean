import WutherCore.Ruleset.Context

/-!
# The text parser

The classical rules `KIND,VALUE[,option]` of the text providers, `parser/txt.rs`, with nested logical payloads.
Errors keep the texts of the source.

A logical payload holds lines again, in parentheses.  A nested line is shorter than the line it is
part of, so the recursion runs on a bound for the length (`parseLineFuel`).
-/

namespace WutherCore.Ruleset

open WutherCore.Text WutherCore.Net

/-- The text as a string, for messages. -/
def text (s : Str) : String := String.ofList s

/-! ### Entries -/

/-- The kind of a classical rule. -/
inductive ClassicalKind
  | domain | domainSuffix | domainKeyword | domainRegex | domainWildcard | geoSite | geoIp
  | srcGeoIp | ipCidr | srcIpCidr | ipSuffix | srcIpSuffix | ipAsn | srcIpAsn | dstPort | srcPort
  | inPort | inType | inUser | inName | dscp | uid | processName | processPath | processNameRegex
  | processPathRegex | processNameWildcard | processPathWildcard | rematchName | network | and | or
  | not | match
  deriving DecidableEq, Repr

namespace ClassicalKind

/-- The keywords of the rule kinds. -/
def keywords : List (String × ClassicalKind) :=
  [("DOMAIN", domain), ("DOMAIN-SUFFIX", domainSuffix), ("DOMAIN-KEYWORD", domainKeyword),
    ("DOMAIN-REGEX", domainRegex), ("DOMAIN-WILDCARD", domainWildcard), ("GEOSITE", geoSite),
    ("GEOIP", geoIp), ("SRC-GEOIP", srcGeoIp), ("IP-CIDR", ipCidr), ("IP-CIDR6", ipCidr),
    ("SRC-IP-CIDR", srcIpCidr), ("IP-SUFFIX", ipSuffix), ("SRC-IP-SUFFIX", srcIpSuffix),
    ("IP-ASN", ipAsn), ("SRC-IP-ASN", srcIpAsn), ("DST-PORT", dstPort), ("SRC-PORT", srcPort),
    ("IN-PORT", inPort), ("IN-TYPE", inType), ("IN-USER", inUser), ("IN-NAME", inName),
    ("DSCP", dscp), ("UID", uid), ("PROCESS-NAME", processName), ("PROCESS-PATH", processPath),
    ("PROCESS-NAME-REGEX", processNameRegex), ("PROCESS-PATH-REGEX", processPathRegex),
    ("PROCESS-NAME-WILDCARD", processNameWildcard), ("PROCESS-PATH-WILDCARD", processPathWildcard),
    ("REMATCH-NAME", rematchName), ("NETWORK", network), ("AND", and), ("OR", or), ("NOT", not),
    ("MATCH", .match)]

/-- `ClassicalKind::parse`. -/
def parse (s : Str) : Option ClassicalKind :=
  (keywords.find? fun k => k.1.toList == toAsciiUppercase s).map (·.2)

/-- The `Debug` form of the logical kinds. -/
def debug : ClassicalKind → String
  | and => "And"
  | or => "Or"
  | _ => "Not"

/-- The kinds that may carry the options `no-resolve` and `src`. -/
def takesOptions : ClassicalKind → Bool
  | ipCidr | ipSuffix | geoIp | ipAsn => true
  | _ => false

/-- The kind on the source side, for the option `src`. -/
def toSource : ClassicalKind → ClassicalKind
  | ipCidr => srcIpCidr
  | ipSuffix => srcIpSuffix
  | geoIp => srcGeoIp
  | ipAsn => srcIpAsn
  | kind => kind

/-- The kinds whose value is a logical payload. -/
def isLogical : ClassicalKind → Bool
  | and | or | not => true
  | _ => false

end ClassicalKind

/-- A parsed classical rule. -/
structure ClassicalEntry where
  kind : ClassicalKind
  value : Str
  policy : Option Str := none
  deriving DecidableEq, Repr

/-! ### Splitting -/

/-- The fields between the commas outside parentheses, not yet trimmed. -/
def splitTop (depth : Nat) : Str → List Str
  | [] => [[]]
  | c :: s =>
      if c == ',' && depth == 0 then [] :: splitTop depth s
      else
        let depth := if c == '(' then depth + 1 else if c == ')' then depth - 1 else depth
        (splitTop depth s).modifyHead (c :: ·)

/-- `split_top_level_commas`. -/
def splitTopLevelCommas (value : Str) : List Str := (splitTop 0 value).map trim

/-- The nesting depth at the end; none when the outermost pair closes before the end. -/
def scanParentheses (depth : Nat) : Str → Option Nat
  | [] => some depth
  | c :: s =>
      if c == '(' then scanParentheses (depth + 1) s
      else if c == ')' then
        if depth == 0 then none
        else if depth - 1 == 0 && !s.isEmpty then none
        else scanParentheses (depth - 1) s
      else scanParentheses depth s

/-- `strip_parentheses`. -/
def stripParentheses (value : Str) : Option Str :=
  let value := trim value
  if value.head? != some '(' || value.getLast? != some ')' then none
  else if scanParentheses 0 value == some 0 then some (value.drop 1).dropLast
  else none

/-! ### Values -/

section Values

variable (cr : Crates)

/-- `validate_literal_label`. -/
def validateLiteralLabel (label : Str) : Except String Unit :=
  if label.isEmpty then .error "domain contains an empty label"
  else if !label.all fun c => cr.isAlphanumeric c || c == '-' || c == '_' then
    .error s!"domain label `{text label}` contains unsupported characters"
  else .ok ()

/-- `validate_literal_domain`. -/
def validateLiteralDomain (value : Str) : Except String Unit :=
  let value := trimEndMatches '.' value
  if value.isEmpty then .error "domain is empty"
  else (value.splitOn '.').forM (validateLiteralLabel cr)

/-- `normalize_literal_domain`. -/
def normalizeLiteralDomain (value : Str) : Except String Str := do
  let ascii ← (cr.domainToAscii (trimEndMatches '.' value)).mapError fun error =>
    s!"invalid internationalized domain `{text value}`: {error}"
  let normalized := cr.toLowercase ascii
  validateLiteralDomain cr normalized
  return normalized

/-- `normalize_literal_label`. -/
def normalizeLiteralLabel (label : Str) : Except String Str := do
  let ascii ← (cr.domainToAscii label).mapError fun error =>
    s!"invalid internationalized domain label `{text label}`: {error}"
  let normalized := cr.toLowercase ascii
  validateLiteralLabel cr normalized
  return normalized

/-- `validate_mihomo_wildcard`. -/
def validateMihomoWildcard (pattern : Str) : Except String Unit :=
  if pattern.isEmpty then .error "DOMAIN-WILDCARD value cannot be empty"
  else if pattern.any isBracket then
    .error "DOMAIN-WILDCARD only supports `*` and `?` wildcards"
  else (cr.globBuild pattern).mapError fun error => s!"invalid DOMAIN-WILDCARD: {error}"

/-- `normalize_wildcard_domain`. -/
def normalizeWildcardDomain (pattern : Str) : Except String Str := do
  let labels ← (pattern.splitOn '.').mapM fun label =>
    if label.contains '*' || label.contains '?' then .ok (cr.toLowercase label)
    else normalizeLiteralLabel cr label
  return join "." labels

/-- The network of one address. -/
def hostPrefix : IpAddr → Str
  | .v4 a => displayIpv4 a ++ "/32"
  | .v6 a => displayIpv6 a ++ "/128"

/-- `normalize_ip_or_cidr`. -/
def normalizeIpOrCidr (value : Str) : Except String Str :=
  match cr.parseIpNet value with
  | some net => .ok net.display
  | none =>
      match parseIpAddr value with
      | some address => .ok (hostPrefix address)
      | none => .error s!"`{text value}` is not a valid IP address or CIDR prefix"

/-- `normalize_ip_suffix`. -/
def normalizeIpSuffix (value : Str) : Except String Str :=
  match splitOnce '/' value with
  | none => .error s!"IP-SUFFIX `{text value}` is missing its bit count"
  | some (address, bits) =>
      match parseIpAddr address with
      | none => .error s!"invalid IP-SUFFIX address `{text address}`"
      | some addr =>
          match parseU8 bits with
          | none => .error s!"invalid IP-SUFFIX bit count `{text bits}`"
          | some count =>
              let maximum := if addr.isIpv4 then 32 else 128
              let width := if addr.isIpv4 then 4 else 6
              if count > maximum then
                .error s!"IP-SUFFIX bit count {count} exceeds IPv{width} width"
              else .ok (addr.display ++ '/' :: decimal count.toNat)

/-- The digits of an AS number. -/
def asnDigits (value : Str) : Str :=
  (trim value).dropWhile fun c => c == 'A' || c == 'a' || c == 'S' || c == 's'

/-- `parse_asn`. -/
def parseAsnText (value : Str) : Except String UInt32 :=
  match parseU32 (asnDigits value) with
  | some asn => .ok asn
  | none => .error s!"invalid ASN `{text value}`"

/-- A port, or the error of `validate_port_range`. -/
def parsePort (s : Str) : Except String UInt16 :=
  match parseU16 s with
  | some port => .ok port
  | none => .error s!"invalid port `{text s}`"

/-- `validate_port_range`. -/
def validatePortRange (value : Str) : Except String Unit := do
  let (start, stop) ← match splitOnce '-' value with
    | some (start, stop) => do
        if stop.contains '-' then .error s!"invalid port range `{text value}`"
        let start ← parsePort start
        let stop ← parsePort stop
        pure (start, stop)
    | none => do
        let port ← parsePort value
        pure (port, port)
  if start > stop then .error s!"port range start exceeds end in `{text value}`" else .ok ()

/-! ### Classical lines -/

/-- `option.eq_ignore_ascii_case("no-resolve")`. -/
def isNoResolve (option : Str) : Bool := eqIgnoreAsciiCase option "no-resolve"

/-- `option.eq_ignore_ascii_case("src")`. -/
def isSrc (option : Str) : Bool := eqIgnoreAsciiCase option "src"

/-- The options found at the end of a line, and the fields before them, last one first. -/
structure LineOptions where
  fields : List Str
  source : Bool
  noResolve : Bool

/-- The loop over the trailing options of a line. -/
def takeOptions (kind : ClassicalKind) (kindName : Str) (source noResolve : Bool) :
    List Str → Except String LineOptions
  | [] => .ok ⟨[], source, noResolve⟩
  | option :: fields =>
      if isNoResolve option then
        if !kind.takesOptions then .error s!"`no-resolve` is not valid for `{text kindName}`"
        else if noResolve then .error "classical rule contains duplicate `no-resolve` options"
        else takeOptions kind kindName source true fields
      else if isSrc option then
        if !kind.takesOptions then .error s!"`src` is not valid for `{text kindName}`"
        else if source then .error "classical rule contains duplicate `src` options"
        else takeOptions kind kindName true noResolve fields
      else .ok ⟨option :: fields, source, noResolve⟩

/-- The value of a rule as the entry keeps it. -/
def normalizeValue (payload : ClassicalKind → Str → Except String (List ClassicalEntry))
    (kind : ClassicalKind) (kindName raw : Str) : Except String Str :=
  match kind with
  | .domain => normalizeLiteralDomain cr raw
  | .domainSuffix => normalizeLiteralDomain cr (trimMatches '.' raw)
  | .domainKeyword =>
      if raw.isEmpty then .error "DOMAIN-KEYWORD value cannot be empty"
      else .ok (toAsciiLowercase raw)
  | .domainRegex => do
      let _ ← (cr.fancyRegex raw).mapError fun error => s!"invalid DOMAIN-REGEX: {error}"
      return raw
  | .domainWildcard => do
      validateMihomoWildcard cr raw
      normalizeWildcardDomain cr raw
  | .geoSite | .geoIp | .srcGeoIp | .inType | .inUser | .inName | .rematchName =>
      if raw.isEmpty then .error s!"{text kindName} value cannot be empty"
      else .ok (toAsciiLowercase raw)
  | .ipCidr | .srcIpCidr => normalizeIpOrCidr cr raw
  | .ipSuffix | .srcIpSuffix => normalizeIpSuffix raw
  | .ipAsn | .srcIpAsn => do return decimal (← parseAsnText raw).toNat
  | .dstPort | .srcPort | .inPort => do
      validatePortRange raw
      return raw
  | .processName | .processPath => .ok raw
  | .processNameRegex | .processPathRegex => do
      let _ ← (cr.regexNew raw).mapError fun error => s!"invalid {text kindName}: {error}"
      return raw
  | .processNameWildcard | .processPathWildcard => do
      validateMihomoWildcard cr raw
      return raw
  | .network =>
      let lower := toAsciiLowercase raw
      if lower == "tcp".toList || lower == "udp".toList then .ok lower
      else .error s!"NETWORK must be tcp or udp, got `{text raw}`"
  | .dscp =>
      match parseU8 raw with
      | some n => .ok (decimal n.toNat)
      | none => .error s!"invalid DSCP `{text raw}`"
  | .uid =>
      match parseU32 raw with
      | some n => .ok (decimal n.toNat)
      | none => .error s!"invalid UID `{text raw}`"
  | .and | .or | .not => do
      let _ ← payload kind raw
      return raw
  | .match => .error ""

/-- The parts of a line: its kind and how the line writes it, the value, and the options. -/
structure LineParts where
  kind : ClassicalKind
  kindName : Str
  raw : Str
  source : Bool
  noResolve : Bool

/-- The first half of `parse_classical_line_strict`: the parts of a line, none for `MATCH`. -/
def lineParts (value : Str) : Except String (Option LineParts) :=
  match splitTopLevelCommas value with
  | [] => .error "classical rule is missing its kind"
  | kindName :: fields =>
      if kindName.isEmpty then .error "classical rule is missing its kind"
      else
        match ClassicalKind.parse kindName with
        | none => .error s!"unsupported classical rule kind `{text kindName}`"
        | some .match =>
            if fields.isEmpty then .ok none else .error "MATCH does not accept a payload"
        | some kind =>
            match fields with
            | [] => .error "classical rule is missing its value"
            | first :: rest => do
                let options ← takeOptions kind kindName false false rest.reverse
                let raw := trim (join "," (first :: options.fields.reverse))
                if raw.isEmpty then .error "classical rule is missing its value"
                else .ok (some ⟨kind, kindName, raw, options.source, options.noResolve⟩)

/-- The entry of a line with the given value. -/
def LineParts.entry (parts : LineParts) (value : Str) : ClassicalEntry where
  kind := if parts.source then parts.kind.toSource else parts.kind
  value := value
  policy := if parts.noResolve then some "no-resolve" else none

/-- `parse_classical_line_strict`, given the reader of logical payloads. -/
def parseLineWith (payload : ClassicalKind → Str → Except String (List ClassicalEntry))
    (value : Str) : Except String ClassicalEntry := do
  match ← lineParts value with
  | none => return { kind := .match, value := [] }
  | some parts => do
      let value ← normalizeValue cr payload parts.kind parts.kindName parts.raw
      return parts.entry value

/-- One child of a logical payload. -/
def parseChildWith (line : Str → Except String ClassicalEntry) (child : Str) :
    Except String ClassicalEntry :=
  match stripParentheses child with
  | some child => line child
  | none => .error s!"logical child `{text child}` requires parentheses"

/-- `parse_logical_payload`, given the reader of lines. -/
def parsePayloadWith (line : Str → Except String ClassicalEntry) (kind : ClassicalKind)
    (payload : Str) : Except String (List ClassicalEntry) := do
  let inner ← match stripParentheses payload with
    | some inner => .ok inner
    | none => .error s!"{kind.debug} payload requires outer parentheses"
  let children ← (splitTopLevelCommas inner).mapM (parseChildWith line)
  match kind with
  | .and | .or =>
      if 2 ≤ children.length then .ok children
      else .error "AND/OR require at least two children"
  | .not =>
      if children.length = 1 then .ok children else .error "NOT requires exactly one child"
  | _ => .error "not a logical rule"

/-- `parse_classical_line_strict` on lines shorter than the bound. -/
def parseLineFuel : Nat → Str → Except String ClassicalEntry
  | 0, _ => .error ""
  | fuel + 1, value => parseLineWith cr (parsePayloadWith (parseLineFuel fuel)) value

/-- `parse_classical_line_strict`. -/
def parseClassicalLineStrict (value : Str) : Except String ClassicalEntry :=
  parseLineFuel cr (value.length + 1) value

/-- `parse_logical_payload`. -/
def parseLogicalPayload (kind : ClassicalKind) (payload : Str) :
    Except String (List ClassicalEntry) :=
  parsePayloadWith (parseClassicalLineStrict cr) kind payload

end Values

end WutherCore.Ruleset
