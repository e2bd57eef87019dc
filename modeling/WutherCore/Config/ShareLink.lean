import Mathlib
import WutherCore.Data.AssocMap
import WutherCore.Ruleset.Crates
import WutherCore.Text.Trim
import WutherCore.Young.FlowOpen

/-!
# Share links of Shadowsocks and VMess

`parse_uri` reads the links `ss://` in three spellings, which it tells apart by the characters `@`, `?`, `#` and `:`
and by trying to decode base64, and the links `vmess://` from JSON.

* `SsLink`, `Spelling`: what a link says, and how it is written.
* `share_links_faithful_iff`: when `parse_uri` reads what is written.
-/

namespace WutherCore.Config

open WutherCore.Data WutherCore.Text
open WutherCore.Ruleset (utf8 splitOnce_append)
open WutherCore.Ruleset.Srs (fromUtf8)
open WutherCore.Young (fromUtf8_utf8)

/-- `NodeProtocol`. -/
inductive NodeProtocol
  | direct | block | http | socks5 | shadowsocks | shadowsocksR | vmess | vless | trojan | naive | hysteria
  | hysteria2 | tuic | wireguard | ssh | snell | anyTls | mieru | sudoku | trustTunnel | young | dns
  | other (scheme : Str)
  deriving DecidableEq

/-- The schemes that `NodeProtocol::from_scheme` knows. -/
def schemes : List (String × NodeProtocol) := [
  ("direct", .direct), ("block", .block), ("reject", .block), ("http", .http), ("https", .http),
  ("socks5", .socks5), ("socks", .socks5), ("ss", .shadowsocks), ("ssr", .shadowsocksR), ("vmess", .vmess),
  ("vless", .vless), ("trojan", .trojan), ("naive", .naive), ("naive+https", .naive), ("naive+quic", .naive),
  ("hysteria", .hysteria), ("hysteria2", .hysteria2), ("hy2", .hysteria2), ("tuic", .tuic),
  ("wireguard", .wireguard), ("wg", .wireguard), ("ssh", .ssh), ("snell", .snell), ("anytls", .anyTls),
  ("mieru", .mieru), ("sudoku", .sudoku), ("trusttunnel", .trustTunnel), ("young", .young), ("dns", .dns)]

/-- `NodeProtocol::from_scheme`. -/
def NodeProtocol.fromScheme (scheme : Str) : NodeProtocol :=
  let scheme := toAsciiLowercase scheme
  ((schemes.find? fun e => e.1.toList = scheme).map Prod.snd).getD (.other scheme)

/-- `ParsedNode`, of the fields that these links set. -/
structure ParsedNode where
  name : Str
  protocol : NodeProtocol
  host : Str
  port : UInt16
  password : Option Str := none
  uuid : Option Str := none
  method : Option Str := none
  tls : Bool := false
  transport : Str := "tcp".toList
  raw : Str := []
  params : AssocMap Str Str := .empty

/-- `serde_json::Value`.  A number has its value as a `u64`, if it is one, and its text. -/
inductive Json
  | null
  | bool (b : Bool)
  | number (asU64 : Option UInt64) (text : Str)
  | string (s : Str)
  | array (items : List Json)
  | object (fields : List (Str × Json))

/-- `as_str`. -/
def Json.asStr : Json → Option Str
  | .string s => some s
  | _ => none

/-- `as_u64`. -/
def Json.asU64 : Json → Option Nat
  | .number n _ => n.map UInt64.toNat
  | _ => none

/-- `as_object`. -/
def Json.asObject : Json → Option (List (Str × Json))
  | .object fields => some fields
  | _ => none

/-- `get`. -/
def Json.get (v : Json) (key : String) : Option Json :=
  v.asObject.bind fun fields => (fields.find? fun e => e.1 = key.toList).map Prod.snd

/-- The functions of other crates: percent decoding, the two alphabets of base64, and JSON.  A colon is in neither
alphabet. -/
structure Codec where
  pctDecode : Str → Str
  urlSafeNoPad : Str → Option (List UInt8)
  standard : Str → Option (List UInt8)
  parseJson : Str → Except Str Json
  display : Json → Str
  urlSafeNoPad_colon : ∀ s, ':' ∈ s → urlSafeNoPad s = none
  standard_colon : ∀ s, ':' ∈ s → standard s = none

section

variable (codec : Codec)

/-- The bytes that `decode_base64_loose` decodes. -/
def Codec.decodeLoose (s : Str) : Option (List UInt8) :=
  (codec.urlSafeNoPad (trimEndMatches '=' s)).or (codec.standard s)

/-- `decode_base64_loose`. -/
def decodeBase64Loose (s : Str) : Option Str := (codec.decodeLoose s).bind fromUtf8

/-- `rfind` of a character, with the text before it and the text after it. -/
def splitLast (c : Char) (s : Str) : Option (Str × Str) :=
  (splitOnce c s.reverse).map fun p => (p.2.reverse, p.1.reverse)

/-- `find` of a text. -/
def findStr (p : Str) : Str → Option Nat
  | [] => if p.isEmpty then some 0 else none
  | c :: s => if p.isPrefixOf (c :: s) then some 0 else (findStr p s).map (· + 1)

/-- `trim_start_matches` with a text that is not empty. -/
def trimStartText (c : Char) (p : Str) (s : Str) : Str :=
  if (c :: p).isPrefixOf s then trimStartText c p (s.drop (p.length + 1)) else s
termination_by s.length
decreasing_by
  have hlength := (List.isPrefixOf_iff_prefix.1 ‹_›).length_le
  rw [List.length_cons] at hlength
  rw [List.length_drop]
  omega

/-- `ok_or_else`. -/
def orBadNode {α : Type} (value : Option α) (reason : Str) : Except Str α :=
  match value with
  | some value => .ok value
  | none => .error reason

/-- `trim_matches` with the brackets. -/
def trimBrackets (s : Str) : Str :=
  (s.dropWhile fun c => c == '[' || c == ']').rdropWhile fun c => c == '[' || c == ']'

/-- `split_host_port`. -/
def splitHostPort (s : Str) : Except Str (Str × UInt16) :=
  match splitLast ':' s with
  | some (host, port) =>
      match parseU16 port with
      | some port => .ok (trimBrackets host, port)
      | none => .error ("端口非法: ".toList ++ s)
  | none => .error ("缺少端口: ".toList ++ s)

/-- The text before the first of a character, and the text after it, if there is one. -/
def cutAt (c : Char) (s : Str) : Str × Option Str :=
  match splitOnce c s with
  | some (front, back) => (front, some back)
  | none => (s, none)

/-- The name of a node, from the fragment. -/
def ssName (fragment : Option Str) (host : Str) : Str :=
  ((fragment.map codec.pctDecode).filter (· ≠ [])).getD ("ss-".toList ++ host)

/-- The parameters of a query. -/
def ssParams (query : Str) : AssocMap Str Str :=
  ((query.splitOn '&').filterMap (splitOnce '=')).foldl (fun m kv => m.insert kv.1 (codec.pctDecode kv.2)) .empty

/-- `parse_ss`. -/
def parseSs (uri : Str) : Except Str ParsedNode :=
  let (body, fragment) := cutAt '#' uri
  let body := trimStartText 's' "s://".toList body
  match splitLast '@' body with
  | some (userinfo, hostpart) => do
      let userinfo := (decodeBase64Loose codec userinfo).getD userinfo
      let (method, password) ← orBadNode (splitOnce ':' userinfo)
        ("ss userinfo 缺少 method:password: ".toList ++ uri)
      let (hostPort, query) := cutAt '?' hostpart
      let (host, port) ← splitHostPort (trimStartMatches '/' hostPort)
      return { name := ssName codec fragment host, protocol := .shadowsocks, host, port,
               method := some method, password := some password, raw := uri,
               params := (query.map (ssParams codec)).getD .empty }
  | none => do
      let decoded ← orBadNode (decodeBase64Loose codec body) ("ss URI base64 解码失败: ".toList ++ uri)
      let (userinfo, hostpart) ← orBadNode (splitLast '@' decoded) ("ss URI 缺少 @: ".toList ++ uri)
      let (method, password) ← orBadNode (splitOnce ':' userinfo)
        ("ss userinfo 缺少 method:password: ".toList ++ uri)
      let (host, port) ← splitHostPort hostpart
      return { name := ssName codec fragment host, protocol := .shadowsocks, host, port,
               method := some method, password := some password, raw := uri }

/-- The port of a VMess link. -/
def portOf (v : Json) : Option Nat :=
  (v.get "port").bind fun x => x.asU64.or (x.asStr.bind (parseUnsigned UInt64.size))

/-- The JSON of a VMess link. -/
def vmessJson (uri : Str) : Except Str Json := do
  let decoded ← orBadNode (decodeBase64Loose codec (trimStartText 'v' "mess://".toList uri))
    ("vmess base64 解码失败: ".toList ++ uri)
  (codec.parseJson decoded).mapError ("vmess JSON 解析失败: ".toList ++ ·)

/-- `parse_vmess`. -/
def parseVmess (uri : Str) : Except Str ParsedNode := do
  let v ← vmessJson codec uri
  let host ← orBadNode ((v.get "add").bind Json.asStr) ("vmess 缺少 add: ".toList ++ uri)
  let port ← orBadNode (portOf v) ("vmess 缺少 port: ".toList ++ uri)
  return {
    name := ((v.get "ps").bind Json.asStr).getD ("vmess-".toList ++ host)
    protocol := .vmess, host, port := UInt16.ofNat port
    uuid := (v.get "id").bind Json.asStr
    tls := (((v.get "tls").bind Json.asStr).map fun s => decide (s = "tls".toList)).getD false
    transport := ((v.get "net").bind Json.asStr).getD "tcp".toList
    raw := uri
    params := (v.asObject.getD []).foldl (fun m kv => m.insert kv.1 (kv.2.asStr.getD (codec.display kv.2))) .empty }

-- The functions for the links of the other protocols.
variable (others : NodeProtocol → Str → Except Str ParsedNode)

/-- `parse_uri`. -/
def parseUri (uri : Str) : Except Str ParsedNode :=
  let uri := trim uri
  if uri = [] then .error "空 URI".toList
  else match findStr "://".toList uri with
    | none => .error ("URI 缺少 scheme://: ".toList ++ uri)
    | some schemeEnd =>
        match NodeProtocol.fromScheme (toAsciiLowercase (uri.take schemeEnd)) with
        | .shadowsocks => parseSs codec uri
        | .vmess => parseVmess codec uri
        | proto => others proto uri

/-! ### Links that are written -/

/-- The characters that separate the parts of a link. -/
def separators : Str := ['/', '?', '#', '[', ']', '@', ':', '&', '=']

/-- A text with its percent encoding. -/
structure PctText where
  text : Str
  encoded : Str
  decodes : codec.pctDecode encoded = text
  safe : ∀ c ∈ encoded, c ∉ separators ∧ isWhitespace c = false
  longer : text.length ≤ encoded.length

/-- A text with its base64: of the URL alphabet, padded or not, or of the standard one with its padding. -/
structure Base64Text (text : Str) where
  encoded : Str
  decodes : codec.decodeLoose encoded = some (utf8 text)
  safe : ∀ c ∈ encoded, c.isAlphanum = true ∨ c ∈ ['-', '_', '+', '/', '=']
  longer : text.length ≤ encoded.length

/-- A host: a name, an IPv4 address, or an IPv6 address in brackets. -/
structure HostText where
  text : Str
  bracketed : Bool
  safe : ∀ c ∈ text, c ∉ ['/', '?', '#', '[', ']', '@'] ∧ (bracketed = false → c ≠ ':')

/-- A host in a link. -/
def HostText.written (h : HostText) : Str := if h.bracketed then '[' :: (h.text ++ [']']) else h.text

/-- What a link of Shadowsocks says. -/
structure SsLink where
  method : PctText codec
  password : PctText codec
  host : HostText
  port : UInt16
  plugin : Option (PctText codec)
  name : Option (PctText codec)
  noColon : ':' ∉ method.text

namespace SsLink

variable {codec} (link : SsLink codec)

/-- `method:password`. -/
def credentials : Str := link.method.text ++ ':' :: link.password.text

/-- `host:port`. -/
def hostPort : Str := link.host.written ++ ':' :: decimal link.port.toNat

/-- How a link is written: as in SIP002 with base64 or with percent encoding, with a slash before the query or without
one, or as base64 altogether. -/
inductive Spelling
  | base64 (userinfo : Base64Text codec link.credentials) (slash : Bool)
  | plain (slash : Bool)
  | legacy (body : Base64Text codec (link.credentials ++ '@' :: link.hostPort))

/-- The query. -/
def query : Str := (link.plugin.map fun t => "?plugin=".toList ++ t.encoded).getD []

/-- The fragment. -/
def fragment : Str := (link.name.map fun t => '#' :: t.encoded).getD []

/-- A slash, or nothing. -/
def slashText (slash : Bool) : Str := if slash then ['/'] else []

/-- The user information of a plain link. -/
def userinfo : Str := link.method.encoded ++ ':' :: link.password.encoded

/-- What follows the user information. -/
def tail (slash : Bool) : Str := link.hostPort ++ slashText slash ++ link.query

/-- The text of a link after `://`, but for the fragment. -/
def body : link.Spelling → Str
  | .base64 userinfo slash => userinfo.encoded ++ '@' :: link.tail slash
  | .plain slash => link.userinfo ++ '@' :: link.tail slash
  | .legacy body => body.encoded

/-- The text of a link. -/
def write (scheme : Str) (spelling : link.Spelling) : Str :=
  scheme ++ "://".toList ++ link.body spelling ++ link.fragment

/-- The name that a link gives: an empty one gives none. -/
def nodeName : Str := ((link.name.map PctText.text).filter (· ≠ [])).getD ("ss-".toList ++ link.host.text)

/-- The parameters that a link gives: a link that is base64 altogether has no plugin. -/
def params : link.Spelling → List (Str × Str)
  | .legacy _ => []
  | _ => (link.plugin.map fun t => ("plugin".toList, t.text)).toList

/-- The link is read, with what it says. -/
def Faithful (scheme : Str) (spelling : link.Spelling) : Prop :=
  ∃ node, parseUri codec others (link.write scheme spelling) = .ok node ∧ node.protocol = .shadowsocks ∧
    node.name = link.nodeName ∧ node.host = link.host.text ∧ node.port = link.port ∧
    node.method = some link.method.text ∧ node.password = some link.password.text ∧
    node.params.entries = link.params spelling

/-- The spellings that are read: of the plain ones, those that need no percent encoding. -/
def Readable : link.Spelling → Prop
  | .base64 _ slash => slash = false
  | .plain slash => slash = false ∧ link.method.encoded = link.method.text ∧
      link.password.encoded = link.password.text
  | .legacy _ => True

end SsLink

/-! ### Texts that are cut -/

theorem splitOnce_of_not_mem {c : Char} : ∀ {s : Str}, c ∉ s → splitOnce c s = none
  | [], _ => rfl
  | a :: s, h => by
    rw [List.mem_cons, not_or] at h
    have hne : (a == c) = false := beq_eq_false_iff_ne.2 (Ne.symm h.1)
    rw [splitOnce, hne, if_neg Bool.false_ne_true, splitOnce_of_not_mem h.2]
    rfl

theorem splitLast_append {c : Char} {back : Str} (h : c ∉ back) (front : Str) :
    splitLast c (front ++ c :: back) = some (front, back) := by
  rw [splitLast, List.reverse_append, List.reverse_cons, List.append_assoc, List.singleton_append,
    splitOnce_append (by rwa [List.mem_reverse]), Option.map_some, List.reverse_reverse, List.reverse_reverse]

theorem splitLast_of_not_mem {c : Char} {s : Str} (h : c ∉ s) : splitLast c s = none := by
  rw [splitLast, splitOnce_of_not_mem (by rwa [List.mem_reverse])]
  rfl

theorem cutAt_append {c : Char} {front : Str} (h : c ∉ front) (back : Option Str) :
    cutAt c (front ++ (back.map (c :: ·)).getD []) = (front, back) := by
  cases back with
  | none => rw [cutAt, Option.map_none, Option.getD_none, List.append_nil, splitOnce_of_not_mem h]
  | some back => rw [cutAt, Option.map_some, Option.getD_some, splitOnce_append h]

theorem not_isPrefixOf {p front back : Str} {c d : Char} (hd : d ∈ p) (hfront : d ∉ front) (hc : c ∉ p) :
    p.isPrefixOf (front ++ c :: back) = false := by
  rw [← Bool.not_eq_true, List.isPrefixOf_iff_prefix]
  rintro ⟨rest, hrest⟩
  rcases List.append_eq_append_iff.1 hrest with ⟨a, rfl, -⟩ | ⟨a, rfl, ha⟩
  · exact hfront (List.mem_append_left a hd)
  · cases a with
    | nil => exact hfront (by rwa [List.append_nil] at hd)
    | cons x a =>
      obtain ⟨rfl, -⟩ := List.cons.inj ha
      exact hc (List.mem_append_right _ List.mem_cons_self)

theorem trimStartText_of_not {c : Char} {p s : Str} (h : (c :: p).isPrefixOf s = false) :
    trimStartText c p s = s := by
  rw [trimStartText, h, if_neg Bool.false_ne_true]

theorem trimStartText_append {c : Char} {p s : Str} (h : (c :: p).isPrefixOf s = false) :
    trimStartText c p (c :: p ++ s) = s := by
  have hprefix : (c :: p).isPrefixOf (c :: p ++ s) = true := List.isPrefixOf_iff_prefix.2 ⟨s, rfl⟩
  have hdrop : (c :: p ++ s).drop (p.length + 1) = s := List.drop_left' rfl
  rw [trimStartText, hprefix, if_pos rfl, hdrop, trimStartText_of_not h]

theorem trim_append {front back : Str} (hfront : ∀ c ∈ front.head?, isWhitespace c = false) (hne : front ≠ [])
    (hback : ∀ c ∈ back, isWhitespace c = false) (hlast : back ≠ []) : trim (front ++ back) = front ++ back := by
  apply Trimmed.trim_eq
  constructor
  · rwa [List.head?_append_of_ne_nil _ hne]
  · intro c hc
    rw [List.getLast?_append_of_ne_nil _ hlast] at hc
    exact hback c (List.mem_of_getLast? hc)

theorem mem_trimEndMatches {c d : Char} {s : Str} (hc : c ∈ s) (hne : c ≠ d) : c ∈ trimEndMatches d s := by
  have hsplit : trimEndMatches d s ++ s.rtakeWhile (· == d) = s := by
    rw [trimEndMatches, List.rdropWhile, List.rtakeWhile, ← List.reverse_append, List.takeWhile_append_dropWhile,
      List.reverse_reverse]
  rw [← hsplit] at hc
  refine (List.mem_append.1 hc).resolve_right fun h => hne ?_
  exact beq_iff_eq.1 (List.mem_rtakeWhile_imp (p := fun x => x == d) h)

theorem decodeBase64Loose_colon {s : Str} (h : ':' ∈ s) : decodeBase64Loose codec s = none := by
  rw [decodeBase64Loose, Codec.decodeLoose, codec.urlSafeNoPad_colon _ (mem_trimEndMatches h (by decide)),
    codec.standard_colon _ h]
  rfl

theorem decodeBase64Loose_encoded {text : Str} (t : Base64Text codec text) :
    decodeBase64Loose codec t.encoded = some text := by
  rw [decodeBase64Loose, t.decodes, Option.bind_some, fromUtf8_utf8]

theorem parseU16_decimal (n : UInt16) : parseU16 (decimal n.toNat) = some n := by
  rw [parseU16, parseUnsigned_decimal n.toNat_lt, Option.map_some, UInt16.ofNat_toNat]

theorem parseU16_of_slash {s : Str} (h : '/' ∈ s) : parseU16 s = none := by
  have hdigits : ∀ {t : Str}, '/' ∈ t → parseDigits UInt16.size t = none := fun {t} ht => by
    rw [parseDigits, if_neg]
    rintro ⟨-, hall, -⟩
    exact absurd (List.all_eq_true.1 hall _ ht) (by decide)
  rw [parseU16, parseUnsigned.eq_def]
  split
  · rw [hdigits ((List.mem_cons.1 h).resolve_left (by decide))]
    rfl
  · rw [hdigits h]
    rfl

/-! ### The parts of a link -/

theorem isWhitespace_of_isAlphanum {c : Char} (h : c.isAlphanum = true) : isWhitespace c = false := by
  have hbounds : 48 ≤ c.toNat ∧ c.toNat ≤ 122 := by
    simp only [Char.isAlphanum, Char.isAlpha, Char.isUpper, Char.isLower, Char.isDigit, Bool.or_eq_true,
      Bool.and_eq_true, decide_eq_true_eq, ge_iff_le, UInt32.le_iff_toNat_le] at h
    change (_ ≤ c.toNat ∧ c.toNat ≤ _ ∨ _ ≤ c.toNat ∧ c.toNat ≤ _) ∨ _ ≤ c.toNat ∧ c.toNat ≤ _ at h
    simp at h
    omega
  have hlow {n : Nat} (hn : n < 48) : (c.toNat == n) = false := beq_eq_false_iff_ne.2 (by omega)
  have hhigh {n : Nat} (hn : 122 < n) : (c.toNat == n) = false := beq_eq_false_iff_ne.2 (by omega)
  simp [isWhitespace, hlow, hhigh]
  omega

theorem isAlphanum_of_mem_decimal {c : Char} {n : Nat} (h : c ∈ decimal n) : c.isAlphanum = true := by
  rw [Char.isAlphanum, decimal_isDigit h, Bool.or_true]

theorem not_mem_separators {c : Char} (h : c.isAlphanum = true) : c ∉ separators := by
  intro hc
  have hall : separators.all (fun c => !c.isAlphanum) = true := by decide
  have hnot := List.all_eq_true.1 hall c hc
  rw [h] at hnot
  exact absurd hnot (by decide)

theorem HostText.mem_written (h : HostText) {c : Char} (hc : c ∈ h.written) : c ∉ ['/', '?', '#', '@'] := by
  have htext : c ∈ h.text → c ∉ ['/', '?', '#', '@'] := fun hmem hnot =>
    (h.safe c hmem).1 (by simp only [List.mem_cons] at hnot ⊢; tauto)
  unfold written at hc
  split_ifs at hc
  · rcases List.mem_cons.1 hc with rfl | hc
    · decide
    · rcases List.mem_append.1 hc with hc | hc
      · exact htext hc
      · rw [List.mem_singleton.1 hc]
        decide
  · exact htext hc

theorem HostText.trimBrackets_written (h : HostText) : trimBrackets h.written = h.text := by
  have hnot : ∀ c ∈ h.text, (c == '[' || c == ']') = false := fun c hc => by
    have hsafe := (h.safe c hc).1
    simp only [List.mem_cons] at hsafe
    rw [Bool.or_eq_false_iff, beq_eq_false_iff_ne, beq_eq_false_iff_ne]
    tauto
  have hback : h.text.rdropWhile (fun c => c == '[' || c == ']') = h.text := by
    rw [List.rdropWhile_eq_self_iff]
    intro hne
    rw [hnot _ (List.getLast_mem hne)]
    exact Bool.false_ne_true
  unfold trimBrackets written
  split_ifs
  · rw [List.dropWhile_cons_of_pos (by rfl)]
    cases htext : h.text with
    | nil => rfl
    | cons c text =>
      rw [htext] at hnot hback
      rw [List.cons_append, List.dropWhile_cons_of_neg (by rw [hnot c List.mem_cons_self]; decide),
        ← List.cons_append, List.rdropWhile_concat_pos _ _ _ (by rfl), hback]
  · cases htext : h.text with
    | nil => rfl
    | cons c text =>
      rw [htext] at hnot hback
      rw [List.dropWhile_cons_of_neg (by rw [hnot c List.mem_cons_self]; decide), hback]

namespace SsLink

variable {codec} (link : SsLink codec)

theorem mem_hostPort {c : Char} (hc : c ∈ link.hostPort) : c ∉ ['/', '?', '#', '@'] := by
  rcases List.mem_append.1 hc with hc | hc
  · exact link.host.mem_written hc
  · rcases List.mem_cons.1 hc with rfl | hc
    · decide
    · have hsafe := not_mem_separators (isAlphanum_of_mem_decimal hc)
      simp only [separators, List.mem_cons] at hsafe ⊢
      tauto

theorem colon_notMem_decimal (n : Nat) : ':' ∉ decimal n := fun h =>
  absurd (isAlphanum_of_mem_decimal h) (by decide)

theorem splitHostPort_hostPort : splitHostPort link.hostPort = .ok (link.host.text, link.port) := by
  rw [splitHostPort, hostPort, splitLast_append (colon_notMem_decimal _)]
  simp only [parseU16_decimal, link.host.trimBrackets_written]

theorem splitHostPort_slash : ∃ e, splitHostPort (link.hostPort ++ ['/']) = .error e := by
  have hnot : ':' ∉ decimal link.port.toNat ++ ['/'] := by
    rw [List.mem_append, not_or]
    exact ⟨colon_notMem_decimal _, by decide⟩
  rw [splitHostPort, hostPort, List.append_assoc, List.cons_append, splitLast_append hnot]
  simp only [parseU16_of_slash (List.mem_append_right (decimal link.port.toNat) List.mem_cons_self)]
  exact ⟨_, rfl⟩

theorem mem_query {c : Char} (hc : c ∈ link.query) : c ≠ '#' ∧ c ≠ '@' ∧ isWhitespace c = false := by
  rw [query] at hc
  cases hplugin : link.plugin with
  | none => simp [hplugin] at hc
  | some t =>
    rw [hplugin, Option.map_some, Option.getD_some, List.mem_append] at hc
    rcases hc with hc | hc
    · have hall : "?plugin=".toList.all
          (fun c => decide (c ≠ '#' ∧ c ≠ '@' ∧ isWhitespace c = false)) = true := by decide
      exact of_decide_eq_true (List.all_eq_true.1 hall c hc)
    · have hsafe := t.safe c hc
      simp only [separators, List.mem_cons] at hsafe
      tauto

theorem mem_fragment {c : Char} (hc : c ∈ link.fragment) : isWhitespace c = false := by
  rw [fragment] at hc
  cases hname : link.name with
  | none => simp [hname] at hc
  | some t =>
    rw [hname, Option.map_some, Option.getD_some] at hc
    rcases List.mem_cons.1 hc with rfl | hc
    · decide
    · exact (t.safe c hc).2

theorem mem_tail {slash : Bool} {c : Char} (hc : c ∈ link.tail slash) : c ≠ '#' ∧ c ≠ '@' := by
  rcases List.mem_append.1 hc with hc | hc
  · rcases List.mem_append.1 hc with hc | hc
    · have hnot := link.mem_hostPort hc
      simp only [List.mem_cons] at hnot
      tauto
    · cases slash with
      | false => exact absurd hc List.not_mem_nil
      | true =>
        rw [List.mem_singleton.1 hc]
        decide
  · exact ⟨(link.mem_query hc).1, (link.mem_query hc).2.1⟩

theorem mem_base64 {text : Str} (t : Base64Text codec text) {c : Char} (hc : c ∈ t.encoded) :
    c ≠ '#' ∧ c ≠ '@' ∧ c ≠ ':' ∧ isWhitespace c = false := by
  rcases t.safe c hc with halpha | hmem
  · have hnot := not_mem_separators halpha
    simp only [separators, List.mem_cons] at hnot
    have hspace := isWhitespace_of_isAlphanum halpha
    tauto
  · have hall : ['-', '_', '+', '/', '='].all
        (fun c => decide (c ≠ '#' ∧ c ≠ '@' ∧ c ≠ ':' ∧ isWhitespace c = false)) = true := by decide
    exact of_decide_eq_true (List.all_eq_true.1 hall c hmem)

theorem mem_userinfo {c : Char} (hc : c ∈ link.userinfo) : c ≠ '#' ∧ c ≠ '/' := by
  have hsafe : ∀ t : PctText codec, c ∈ t.encoded → c ≠ '#' ∧ c ≠ '/' := fun t ht => by
    have hnot := (t.safe c ht).1
    simp only [separators, List.mem_cons] at hnot
    tauto
  rcases List.mem_append.1 hc with hc | hc
  · exact hsafe _ hc
  · rcases List.mem_cons.1 hc with rfl | hc
    · decide
    · exact hsafe _ hc

theorem hash_notMem_body (spelling : link.Spelling) : '#' ∉ link.body spelling := by
  intro h
  cases spelling with
  | base64 u slash =>
    rcases List.mem_append.1 h with h | h
    · exact (mem_base64 u h).1 rfl
    · exact (link.mem_tail ((List.mem_cons.1 h).resolve_left (by decide))).1 rfl
  | plain slash =>
    rcases List.mem_append.1 h with h | h
    · exact (link.mem_userinfo h).1 rfl
    · exact (link.mem_tail ((List.mem_cons.1 h).resolve_left (by decide))).1 rfl
  | legacy b => exact (mem_base64 b h).1 rfl

theorem body_eq (spelling : link.Spelling) :
    ∃ front back, link.body spelling = front ++ back ∧ back ≠ [] ∧ ∀ c ∈ back, isWhitespace c = false := by
  have htail (u : Str) (slash : Bool) : ∃ front back, u ++ '@' :: link.tail slash = front ++ back ∧ back ≠ [] ∧
      ∀ c ∈ back, isWhitespace c = false := by
    refine ⟨u ++ '@' :: (link.host.written ++ [':']), decimal link.port.toNat ++ slashText slash ++ link.query,
      ?_, ?_, ?_⟩
    · simp [tail, hostPort]
    · simp [decimal_ne_nil]
    · intro c hc
      rcases List.mem_append.1 hc with hc | hc
      · rcases List.mem_append.1 hc with hc | hc
        · exact isWhitespace_of_isAlphanum (isAlphanum_of_mem_decimal hc)
        · cases slash with
          | false => exact absurd hc List.not_mem_nil
          | true =>
            rw [List.mem_singleton.1 hc]
            decide
      · exact (link.mem_query hc).2.2
  cases spelling with
  | base64 u slash => exact htail u.encoded slash
  | plain slash => exact htail link.userinfo slash
  | legacy b =>
    refine ⟨[], b.encoded, rfl, fun hnil => ?_, fun c hc => (mem_base64 b hc).2.2.2⟩
    have hlonger := b.longer
    rw [hnil, List.length_append, List.length_cons, List.length_nil] at hlonger
    omega

theorem scheme_eq {scheme : Str} (hscheme : toAsciiLowercase scheme = "ss".toList) :
    ∃ a b, scheme = [a, b] ∧ (a = 's' ∨ a = 'S') ∧ (b = 's' ∨ b = 'S') := by
  have hlower {c : Char} (h : c.toLower = 's') : c = 's' ∨ c = 'S' := by
    unfold Char.toLower at h
    split_ifs at h with hupper
    · refine .inr (Char.ext (UInt32.toNat_inj.1 ?_))
      have hval := congrArg (fun c : Char => c.val.toNat) h
      have hle := UInt32.le_iff_toNat_le.1 hupper.2
      simp only [UInt32.toNat_add] at hval
      change (c.val.toNat + 32) % 2 ^ 32 = 115 at hval
      change c.val.toNat ≤ 90 at hle
      change c.val.toNat = 83
      omega
    · exact .inl h
  have hlength : scheme.length = 2 := by simpa [toAsciiLowercase] using congrArg List.length hscheme
  obtain ⟨a, b, rfl⟩ := List.length_eq_two.1 hlength
  obtain ⟨ha, hb⟩ := List.cons.inj hscheme
  exact ⟨a, b, rfl, hlower ha, hlower (List.cons.inj hb).1⟩

theorem parseUri_write {scheme : Str} (hscheme : toAsciiLowercase scheme = "ss".toList) (spelling : link.Spelling) :
    parseUri codec others (link.write scheme spelling) = parseSs codec (link.write scheme spelling) := by
  obtain ⟨a, b, rfl, ha, hb⟩ := scheme_eq hscheme
  obtain ⟨front, back, hbody, hback, hspace⟩ := link.body_eq spelling
  have hwrite : link.write [a, b] spelling = (a :: b :: "://".toList ++ front) ++ (back ++ link.fragment) := by
    simp [write, hbody]
  have htrim : trim (link.write [a, b] spelling) = link.write [a, b] spelling := by
    rw [hwrite]
    refine trim_append ?_ (List.cons_ne_nil _ _) ?_ (by simp [hback])
    · rintro c ⟨⟩
      rcases ha with rfl | rfl <;> decide
    · intro c hc
      rcases List.mem_append.1 hc with hc | hc
      · exact hspace c hc
      · exact link.mem_fragment hc
  have hshape : link.write [a, b] spelling = a :: b :: ':' :: '/' :: '/' :: (link.body spelling ++ link.fragment) := by
    simp [write]
  have hfind : findStr "://".toList (link.write [a, b] spelling) = some 2 := by
    rw [hshape]
    rcases ha with rfl | rfl <;> rcases hb with rfl | rfl <;> rfl
  have hproto : NodeProtocol.fromScheme (toAsciiLowercase ((link.write [a, b] spelling).take 2)) = .shadowsocks := by
    have htake : (link.write [a, b] spelling).take 2 = [a, b] := by rw [hshape]; rfl
    rw [htake, hscheme]
    decide
  have hne : link.write [a, b] spelling ≠ [] := by
    rw [hwrite]
    exact List.cons_ne_nil _ _
  simp only [parseUri, htrim, if_neg hne, hfind, hproto]

theorem cutAt_write {scheme : Str} (hscheme : toAsciiLowercase scheme = "ss".toList) (spelling : link.Spelling) :
    cutAt '#' (link.write scheme spelling) =
      (scheme ++ "://".toList ++ link.body spelling, link.name.map PctText.encoded) := by
  have hnot : '#' ∉ scheme ++ "://".toList ++ link.body spelling := by
    obtain ⟨a, b, rfl, ha, hb⟩ := scheme_eq hscheme
    have hbody := link.hash_notMem_body spelling
    rcases ha with rfl | rfl <;> rcases hb with rfl | rfl <;> simpa using hbody
  have hfragment : link.fragment = ((link.name.map PctText.encoded).map ('#' :: ·)).getD [] := by
    rw [fragment, Option.map_map]
    rfl
  rw [write, hfragment, cutAt_append hnot]

theorem cutAt_tail (slash : Bool) :
    cutAt '?' (link.tail slash) =
      (link.hostPort ++ slashText slash, link.plugin.map fun t => "plugin=".toList ++ t.encoded) := by
  have hnot : '?' ∉ link.hostPort ++ slashText slash := by
    rw [List.mem_append, not_or]
    refine ⟨fun h => absurd (link.mem_hostPort h) (by decide), ?_⟩
    cases slash <;> decide
  have hquery : link.query = ((link.plugin.map fun t => "plugin=".toList ++ t.encoded).map ('?' :: ·)).getD [] := by
    rw [query, Option.map_map]
    rfl
  rw [tail, hquery, cutAt_append hnot]

theorem trimStartMatches_hostPort (s : Str) : trimStartMatches '/' (link.hostPort ++ s) = link.hostPort ++ s := by
  obtain ⟨c, rest, hcons⟩ := List.exists_cons_of_ne_nil (show link.hostPort ≠ [] by simp [hostPort])
  have hc : c ∈ link.hostPort := hcons ▸ List.mem_cons_self
  have hne : ¬(c == '/') = true := fun h => link.mem_hostPort hc (by rw [beq_iff_eq.1 h]; decide)
  rw [hcons, List.cons_append, trimStartMatches, List.dropWhile_cons_of_neg (p := (· == '/')) hne]

theorem ssName_eq : ssName codec (link.name.map PctText.encoded) link.host.text = link.nodeName := by
  rw [ssName, nodeName, Option.map_map]
  congr 3
  funext t
  exact t.decodes

theorem ssParams_eq :
    ((link.plugin.map fun t => "plugin=".toList ++ t.encoded).map (ssParams codec)).getD .empty =
      ((link.plugin.map fun t => AssocMap.empty.insert "plugin".toList t.text).getD .empty : AssocMap Str Str) := by
  cases link.plugin with
  | none => rfl
  | some t =>
    have hnot : '&' ∉ "plugin=".toList ++ t.encoded := by
      rw [List.mem_append, not_or]
      exact ⟨by decide, fun h => (t.safe _ h).1 (by decide)⟩
    have hsplit : splitOnce '=' ("plugin=".toList ++ t.encoded) = some ("plugin".toList, t.encoded) :=
      splitOnce_append (show '=' ∉ "plugin".toList by decide) t.encoded
    rw [Option.map_some, Option.map_some, Option.getD_some, ssParams, List.splitOn_eq_singleton hnot,
      List.filterMap_cons_some hsplit, List.filterMap_nil, List.foldl_cons, List.foldl_nil, t.decodes]
    rfl

/-- A link in the spelling of SIP002, once its user information is split in two. -/
theorem faithful_iff_of_sip {scheme u method password : Str} {slash : Bool} (spelling : link.Spelling)
    (hscheme : toAsciiLowercase scheme = "ss".toList)
    (hparams : link.params spelling = (link.plugin.map fun t => ("plugin".toList, t.text)).toList)
    (hbody : trimStartText 's' "s://".toList (scheme ++ "://".toList ++ link.body spelling) =
      u ++ '@' :: link.tail slash)
    (hsplit : splitOnce ':' ((decodeBase64Loose codec u).getD u) = some (method, password)) :
    link.Faithful others scheme spelling ↔
      slash = false ∧ method = link.method.text ∧ password = link.password.text := by
  have hat : '@' ∉ link.tail slash := fun h => (link.mem_tail h).2 rfl
  have hparse : parseSs codec (link.write scheme spelling) =
      (splitHostPort (link.hostPort ++ slashText slash)).bind fun hp => .ok
        { name := ssName codec (link.name.map PctText.encoded) hp.1, protocol := .shadowsocks, host := hp.1,
          port := hp.2, method := some method, password := some password, raw := link.write scheme spelling
          params := ((link.plugin.map fun t => "plugin=".toList ++ t.encoded).map (ssParams codec)).getD .empty } := by
    simp only [parseSs, link.cutAt_write hscheme, hbody, splitLast_append hat, hsplit, orBadNode, link.cutAt_tail,
      link.trimStartMatches_hostPort]
    rfl
  rw [Faithful, link.parseUri_write others hscheme, hparse]
  cases slash with
  | true =>
    obtain ⟨e, he⟩ := link.splitHostPort_slash
    have hslash : slashText true = ['/'] := rfl
    rw [hslash, he]
    refine iff_of_false ?_ (fun h => absurd h.1 (by decide))
    rintro ⟨node, hnode, -⟩
    cases hnode
  | false =>
    have hslash : slashText false = [] := rfl
    rw [hslash, List.append_nil, link.splitHostPort_hostPort, link.ssParams_eq, hparams]
    have hentries : (((link.plugin.map fun t => AssocMap.empty.insert "plugin".toList t.text).getD .empty :
        AssocMap Str Str)).entries = (link.plugin.map fun t => ("plugin".toList, t.text)).toList := by
      cases link.plugin <;> rfl
    constructor
    · rintro ⟨node, hnode, -, -, -, -, hmethod, hpassword, -⟩
      obtain rfl := Except.ok.inj hnode
      exact ⟨rfl, Option.some.inj hmethod, Option.some.inj hpassword⟩
    · rintro ⟨-, rfl, rfl⟩
      exact ⟨_, rfl, rfl, link.ssName_eq, rfl, rfl, rfl, rfl, hentries⟩

theorem faithful_of_legacy (b : Base64Text codec (link.credentials ++ '@' :: link.hostPort)) :
    link.Faithful others "ss".toList (.legacy b) := by
  have hscheme : toAsciiLowercase "ss".toList = "ss".toList := by decide
  have hat : '@' ∉ b.encoded := fun h => (mem_base64 b h).2.1 rfl
  have hatPort : '@' ∉ link.hostPort := fun h => absurd (link.mem_hostPort h) (by decide)
  have hbody : trimStartText 's' "s://".toList ("ss".toList ++ "://".toList ++ b.encoded) = b.encoded := by
    refine trimStartText_append (Bool.eq_false_iff.2 fun h => ?_)
    have hcolon : ':' ∈ b.encoded := (List.isPrefixOf_iff_prefix.1 h).subset (by decide)
    exact (mem_base64 b hcolon).2.2.1 rfl
  have hparse : parseSs codec (link.write "ss".toList (.legacy b)) = .ok
      { name := ssName codec (link.name.map PctText.encoded) link.host.text, protocol := .shadowsocks
        host := link.host.text, port := link.port, method := some link.method.text
        password := some link.password.text, raw := link.write "ss".toList (.legacy b) } := by
    have hlast := splitLast_append hatPort link.credentials
    have hcredentials : splitOnce ':' link.credentials = some (link.method.text, link.password.text) :=
      splitOnce_append link.noColon _
    simp only [parseSs, link.cutAt_write hscheme, body, hbody, splitLast_of_not_mem hat, decodeBase64Loose_encoded,
      orBadNode, bind, Except.bind, hlast, hcredentials, link.splitHostPort_hostPort]
    rfl
  rw [Faithful, link.parseUri_write others hscheme, hparse]
  exact ⟨_, rfl, rfl, link.ssName_eq, rfl, rfl, rfl, rfl, rfl⟩

theorem trimStartText_scheme {scheme front : Str} {d : Char} (back : Str)
    (hscheme : toAsciiLowercase scheme = "ss".toList) (hd : d ∈ "ss://".toList) (hfront : d ∉ front) :
    trimStartText 's' "s://".toList (scheme ++ "://".toList ++ (front ++ '@' :: back)) =
      (if scheme = "ss".toList then front else scheme ++ "://".toList ++ front) ++ '@' :: back := by
  have hnot : "ss://".toList.isPrefixOf (front ++ '@' :: back) = false := not_isPrefixOf hd hfront (by decide)
  obtain ⟨a, b, rfl, ha, hb⟩ := scheme_eq hscheme
  rcases ha with rfl | rfl <;> rcases hb with rfl | rfl
  · rw [if_pos (by decide)]
    exact trimStartText_append hnot
  all_goals
    rw [if_neg (by decide), List.append_assoc _ front]
    exact trimStartText_of_not rfl

theorem splitOnce_scheme {scheme : Str} (hscheme : toAsciiLowercase scheme = "ss".toList) (front : Str) :
    splitOnce ':' ((decodeBase64Loose codec (scheme ++ "://".toList ++ front)).getD
      (scheme ++ "://".toList ++ front)) = some (scheme, "//".toList ++ front) := by
  obtain ⟨a, b, rfl, ha, hb⟩ := scheme_eq hscheme
  have hcolon : ':' ∈ [a, b] ++ "://".toList ++ front := List.mem_append_left _ (List.mem_append_right _ (by decide))
  rw [decodeBase64Loose_colon codec hcolon, Option.getD_none, List.append_assoc]
  refine splitOnce_append ?_ _
  rcases ha with rfl | rfl <;> rcases hb with rfl | rfl <;> decide

/-- When a link of Shadowsocks is read as it says. -/
theorem faithful_iff {scheme : Str} (hscheme : toAsciiLowercase scheme = "ss".toList) (spelling : link.Spelling) :
    link.Faithful others scheme spelling ↔ scheme = "ss".toList ∧ link.Readable spelling := by
  cases spelling with
  | base64 u slash =>
    have hbody := trimStartText_scheme (link.tail slash) hscheme (d := ':') (by decide)
      (fun h => (mem_base64 u h).2.2.1 rfl)
    by_cases hss : scheme = "ss".toList
    · rw [if_pos hss] at hbody
      have hsplit : splitOnce ':' ((decodeBase64Loose codec u.encoded).getD u.encoded) =
          some (link.method.text, link.password.text) := by
        rw [decodeBase64Loose_encoded, Option.getD_some]
        exact splitOnce_append link.noColon _
      rw [link.faithful_iff_of_sip others (.base64 u slash) hscheme rfl hbody hsplit]
      simp [hss, Readable]
    · rw [if_neg hss] at hbody
      rw [link.faithful_iff_of_sip others (.base64 u slash) hscheme rfl hbody (splitOnce_scheme hscheme u.encoded)]
      refine iff_of_false ?_ (fun h => hss h.1)
      rintro ⟨-, -, hpassword⟩
      have hlonger := u.longer
      have hlength : link.credentials.length = link.method.text.length + (link.password.text.length + 1) := by
        simp [credentials]
      rw [hlength, ← hpassword, List.length_append] at hlonger
      omega
  | plain slash =>
    have hbody := trimStartText_scheme (link.tail slash) hscheme (d := '/') (by decide)
      (fun h => (link.mem_userinfo h).2 rfl)
    by_cases hss : scheme = "ss".toList
    · rw [if_pos hss] at hbody
      have hcolon : ':' ∈ link.userinfo := List.mem_append_right _ List.mem_cons_self
      have hnot : ':' ∉ link.method.encoded := fun h => (link.method.safe _ h).1 (by decide)
      have hsplit : splitOnce ':' ((decodeBase64Loose codec link.userinfo).getD link.userinfo) =
          some (link.method.encoded, link.password.encoded) := by
        rw [decodeBase64Loose_colon codec hcolon, Option.getD_none, userinfo, splitOnce_append hnot]
      rw [link.faithful_iff_of_sip others (.plain slash) hscheme rfl hbody hsplit]
      simp [hss, Readable]
    · rw [if_neg hss] at hbody
      rw [link.faithful_iff_of_sip others (.plain slash) hscheme rfl hbody (splitOnce_scheme hscheme link.userinfo)]
      refine iff_of_false ?_ (fun h => hss h.1)
      rintro ⟨-, -, hpassword⟩
      have hlonger := link.password.longer
      rw [← hpassword, userinfo, List.length_append, List.length_append, List.length_cons] at hlonger
      omega
  | legacy b =>
    by_cases hss : scheme = "ss".toList
    · subst hss
      exact iff_of_true (link.faithful_of_legacy others b) ⟨rfl, trivial⟩
    · refine iff_of_false ?_ (fun h => hss h.1)
      rintro ⟨node, hnode, -⟩
      have hbody : trimStartText 's' "s://".toList (scheme ++ "://".toList ++ b.encoded) =
          scheme ++ "://".toList ++ b.encoded := by
        obtain ⟨x, y, rfl, hx, hy⟩ := scheme_eq hscheme
        apply trimStartText_of_not
        rcases hx with rfl | rfl <;> rcases hy with rfl | rfl
        · exact absurd rfl hss
        all_goals rfl
      have hat : '@' ∉ scheme ++ "://".toList ++ b.encoded := by
        obtain ⟨x, y, rfl, hx, hy⟩ := scheme_eq hscheme
        rw [List.mem_append, not_or]
        refine ⟨?_, fun h => (mem_base64 b h).2.1 rfl⟩
        rcases hx with rfl | rfl <;> rcases hy with rfl | rfl <;> decide
      have hcolon : ':' ∈ scheme ++ "://".toList ++ b.encoded :=
        List.mem_append_left _ (List.mem_append_right _ (by decide))
      rw [link.parseUri_write others hscheme] at hnode
      simp only [parseSs, link.cutAt_write hscheme, body, hbody, splitLast_of_not_mem hat,
        decodeBase64Loose_colon codec hcolon, orBadNode] at hnode
      cases hnode

end SsLink

/-! ### The port of a VMess link -/

/-- The port that a link of VMess writes is the port of the node, if the link is read. -/
def VmessExact (uri : Str) : Prop :=
  ∀ node v written, parseUri codec others uri = .ok node → vmessJson codec (trim uri) = .ok v →
    portOf v = some written → node.port.toNat = written

/-- The scheme of a link. -/
def schemeOf (uri : Str) : Option Str := (findStr "://".toList uri).map fun n => toAsciiLowercase (uri.take n)

theorem parseVmess_port {uri : Str} {v : Json} {written : Nat} (hv : vmessJson codec uri = .ok v)
    (hport : portOf v = some written) :
    (∀ node, parseVmess codec uri = .ok node → ∃ host, (v.get "add").bind Json.asStr = some host) ∧
      ∀ host, (v.get "add").bind Json.asStr = some host →
        ∃ node, parseVmess codec uri = .ok node ∧ node.port = UInt16.ofNat written := by
  cases hhost : (v.get "add").bind Json.asStr with
  | none =>
    refine ⟨fun node h => ?_, fun host h => nomatch h⟩
    simp only [parseVmess, bind, Except.bind, hv, hhost, orBadNode] at h
    cases h
  | some host =>
    refine ⟨fun node _ => ⟨host, rfl⟩, fun _ _ => ?_⟩
    simp only [parseVmess, bind, Except.bind, hv, hhost, hport, orBadNode]
    exact ⟨_, rfl, rfl⟩

theorem vmessExact_iff {uri : Str} (hscheme : schemeOf (trim uri) = some "vmess".toList) :
    VmessExact codec others uri ↔
      ∀ v host written, vmessJson codec (trim uri) = .ok v → (v.get "add").bind Json.asStr = some host →
        portOf v = some written → written < 2 ^ 16 := by
  obtain ⟨n, hfind, hlower⟩ := Option.map_eq_some_iff.1 hscheme
  have hne : trim uri ≠ [] := by
    rintro hnil
    rw [hnil] at hfind
    cases hfind
  have hproto : NodeProtocol.fromScheme "vmess".toList = .vmess := by decide
  have hparse : parseUri codec others uri = parseVmess codec (trim uri) := by
    simp only [parseUri, if_neg hne, hfind, hlower, hproto]
  unfold VmessExact
  rw [hparse]
  constructor
  · intro h v host written hv hhost hport
    obtain ⟨node, hnode, hnarrow⟩ := (parseVmess_port codec hv hport).2 host hhost
    rw [← h node v written hnode hv hport]
    exact UInt16.toNat_lt _
  · intro h node v written hnode hv hport
    obtain ⟨hread, hall⟩ := parseVmess_port codec hv hport
    obtain ⟨host, hhost⟩ := hread node hnode
    obtain ⟨node', hnode', hnarrow⟩ := hall host hhost
    rw [hnode] at hnode'
    obtain rfl := Except.ok.inj hnode'
    rw [hnarrow]
    exact UInt16.toNat_ofNat_of_lt' (h v host written hv hhost hport)

end

/-! ### Links that are not read as they are written -/

/-- A codec that knows a password, the base64 of its user information, and a link of VMess. -/
def exampleCodec : Codec where
  pctDecode s := if s = "p%40ss".toList then "p@ss".toList else s
  urlSafeNoPad s :=
    if s = "YWVzLTI1Ni1nY206cEBzcw".toList then some (utf8 "aes-256-gcm:p@ss".toList)
    else if s = "eyJhZGQiOiJhIiwicG9ydCI6NjU1Mzd9".toList then some (utf8 "\x7b\"add\":\"a\",\"port\":65537\x7d".toList)
    else none
  standard _ := none
  parseJson _ :=
    .ok (.object [("add".toList, .string "a".toList), ("port".toList, .number (some 65537) "65537".toList)])
  display _ := []
  urlSafeNoPad_colon s h := by
    rw [if_neg (fun heq => ?_), if_neg (fun heq => ?_)]
    · rw [heq] at h
      exact absurd h (by decide)
    · rw [heq] at h
      exact absurd h (by decide)
  standard_colon _ _ := rfl

/-- A text with an encoding whose characters are safe. -/
def PctText.ofSafe {codec : Codec} (text encoded : Str) (decodes : codec.pctDecode encoded = text)
    (hsafe : encoded.all (fun c => decide (c ∉ separators ∧ isWhitespace c = false)) = true)
    (longer : text.length ≤ encoded.length) : PctText codec where
  text := text
  encoded := encoded
  decodes := decodes
  safe c hc := of_decide_eq_true (List.all_eq_true.1 hsafe c hc)
  longer := longer

/-- `aes-256-gcm`, with the password `p@ss`. -/
def exampleLink : SsLink exampleCodec where
  method := .ofSafe "aes-256-gcm".toList "aes-256-gcm".toList (by decide) (by decide) (by decide)
  password := .ofSafe "p@ss".toList "p%40ss".toList (by decide) (by decide) (by decide)
  host := { text := "a".toList, bracketed := false, safe := fun c hc => by rw [List.mem_singleton.1 hc]; decide }
  port := 8388
  plugin := none
  name := none
  noColon := by decide

/-- Its user information. -/
def exampleUserinfo : Base64Text exampleCodec exampleLink.credentials where
  encoded := "YWVzLTI1Ni1nY206cEBzcw==".toList
  decodes := by decide
  safe c hc := by
    have hall : "YWVzLTI1Ni1nY206cEBzcw==".toList.all
        (fun c => decide (c.isAlphanum = true ∨ c ∈ ['-', '_', '+', '/', '='])) = true := by decide
    exact of_decide_eq_true (List.all_eq_true.1 hall c hc)
  longer := by decide

end WutherCore.Config
