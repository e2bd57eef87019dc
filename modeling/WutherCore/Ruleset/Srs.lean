import WutherCore.Net.Aggregate
import WutherCore.Ruleset.Ir
import WutherCore.Ruleset.SrsDomain

/-!
# The SRS reader

`parseBody` reads the decompressed body of a sing-box SRS file.  The reader is a `Run`: it ends in
a value, in an error or in a panic, and its trace holds the bitmap of each compact domain set that it
scans.  Each place where the source indexes a list or unwraps a value is an `orCrash`.

`usize` has 64 bits, and allocations succeed.
-/

namespace WutherCore.Ruleset.Srs

open WutherCore.Text WutherCore.Net WutherCore.Data WutherCore.Data.Run

/-! ### The state of the reader -/

/-- The unread bytes and the position, and the totals of `DecodeState`. -/
structure State where
  bytes : List UInt8
  position : Nat := 0
  version : UInt8
  totalRuleNodes : Nat := 0
  totalListItems : Nat := 0
  totalStringBytes : Nat := 0
  totalRegexBytes : Nat := 0
  totalSemanticItems : Nat := 0

/-- A part of the reader. Its events are the bitmaps it scans. -/
abbrev Decode (α : Type) := Run State (List Bool) ParseError α

/-- `add_context`. -/
def addContext (context : String) : ParseError → ParseError
  | .unsupportedField field => .unsupportedField field
  | .unsupportedVersion version => .unsupportedVersion version
  | other => .other s!"SRS {context}: {other.display}"

/-- `usize::saturating_add`. -/
def saturatingAdd (a b : Nat) : Nat := min (a + b) (2 ^ 64 - 1)

/-- Raises a total and checks its limit. -/
def bump (update : State → State) (total : State → Nat) (maximum : Nat) (message : String) :
    Decode Unit := do
  modify update
  let total ← gets total
  rejectIf (total > maximum) (binaryError message)

/-- `MAX_LOGICAL_DEPTH`. -/
def maxLogicalDepth : Nat := 64

/-- `add_rule`. -/
def addRule (depth : Nat) : Decode Unit := do
  rejectIf (depth > maxLogicalDepth) (binaryError s!"logical 递归深度超过上限 {maxLogicalDepth}")
  bump (fun s => { s with totalRuleNodes := saturatingAdd s.totalRuleNodes 1 }) (·.totalRuleNodes)
    524288 s!"规则总节点数超过上限 {524288}"

/-- `add_list_items`. -/
def addListItems (count : Nat) (field : String) : Decode Unit :=
  bump (fun s => { s with totalListItems := saturatingAdd s.totalListItems count })
    (·.totalListItems) 2097152 s!"{field} 使列表元素总数超过上限 {2097152}"

/-- `add_string_bytes`. -/
def addStringBytes (count : Nat) (field : String) : Decode Unit :=
  bump (fun s => { s with totalStringBytes := saturatingAdd s.totalStringBytes count })
    (·.totalStringBytes) 67108864 s!"{field} 使字符串总长度超过上限 {67108864}"

/-- `add_regex_bytes`. -/
def addRegexBytes (count : Nat) (field : String) : Decode Unit :=
  bump (fun s => { s with totalRegexBytes := saturatingAdd s.totalRegexBytes count })
    (·.totalRegexBytes) 8388608 s!"{field} 使 regex 总长度超过上限 {8388608}"

/-- `add_semantic_items`. -/
def addSemanticItems (count : Nat) (field : String) : Decode Unit :=
  bump (fun s => { s with totalSemanticItems := saturatingAdd s.totalSemanticItems count })
    (·.totalSemanticItems) 2097152 s!"{field} 使语义条目总数超过上限 {2097152}"

/-! ### Bytes and numbers -/

/-- `Reader::take`. -/
def take (length : Nat) (field : String) : Decode (List UInt8) := do
  let position ← gets (·.position)
  rejectIf (position + length ≥ 2 ^ 64) (binaryError s!"{field} 长度溢出")
  let bytes ← gets (·.bytes)
  let remaining := bytes.length
  rejectIf (remaining < length) (binaryError
    s!"{field} 在 offset {position} 处 EOF（需要 {length} bytes，仅余 {remaining}）")
  modify fun s => { s with bytes := s.bytes.drop length, position := s.position + length }
  return bytes.take length

/-- `try_into().expect("length checked")`: a list as an array of `n` bytes. -/
def asArray (n : Nat) (bytes : List UInt8) : Decode (List UInt8) :=
  orCrash (if bytes.length = n then some bytes else none)

/-- `read_u8`. -/
def readU8 (field : String) : Decode UInt8 := do
  let bytes ← take 1 field
  orCrash bytes[0]?

/-- `read_bool`. -/
def readBool (field : String) : Decode Bool := do
  let value ← readU8 field
  rejectIf (value > 1) (binaryError s!"{field} bool 编码 {value} 非法")
  return value == 1

/-- `read_u16_be`. -/
def readU16BE (field : String) : Decode UInt16 := do
  let bytes ← asArray 2 (← take 2 field)
  return UInt16.ofNat (ofBytesBE bytes)

/-- `read_u64_be`. -/
def readU64BE (field : String) : Decode UInt64 := do
  let bytes ← asArray 8 (← take 8 field)
  return UInt64.ofNat (ofBytesBE bytes)

/-- The number of bytes of the shortest encoding of a value. -/
def encodedLength (value : Nat) : Nat := if value = 0 then 1 else (Nat.log2 value + 1 + 6) / 7

/-- The loop of `read_uvarint`: the rounds left, the current round and the value so far. -/
def readUvarintFrom (field : String) : (rounds index value : Nat) → Decode Nat
  | 0, _, _ => fail (binaryError s!"{field} uvarint 溢出")
  | rounds + 1, index, value => do
      let byte ← readU8 field
      rejectIf (index = 9 ∧ byte > 1) (binaryError s!"{field} uvarint 溢出")
      let value := value ||| (byte &&& 0x7f).toNat <<< (index * 7)
      if byte &&& 0x80 = 0 then do
        rejectIf (encodedLength value ≠ index + 1) (binaryError s!"{field} 使用非规范 uvarint 编码")
        return value
      else readUvarintFrom field rounds (index + 1) value

/-- `read_uvarint`. -/
def readUvarint (field : String) : Decode Nat := readUvarintFrom field 10 0 0

/-- `read_len`. -/
def readLen (field : String) (maximum : Nat) : Decode Nat := do
  let value ← readUvarint field
  rejectIf (value > maximum) (binaryError s!"{field} {value} 超过上限 {maximum}")
  return value

/-! ### Lists -/

/-- `MAX_LIST_ITEMS`. -/
def maxListItems : Nat := 1048576

/-- `MAX_STRING_BYTES`. -/
def maxStringBytes : Nat := 1048576

/-- `str::from_utf8`. -/
def fromUtf8 (bytes : List UInt8) : Option Str :=
  (String.fromUTF8? ⟨bytes.toArray⟩).map String.toList

/-- One string of `read_string_list`. -/
def readString (field : String) (maximumStringBytes index : Nat) : Decode Str := do
  let length ← readLen "string length" maximumStringBytes
  addStringBytes length field
  let bytes ← take length field
  match fromUtf8 bytes with
  | some value => return value
  | none => fail (binaryError s!"{field}[{index}] 不是合法 UTF-8")

/-- `read_string_list`. -/
def readStringList (field : String) (maximumItems maximumStringBytes : Nat) : Decode (List Str) := do
  let count ← readLen field maximumItems
  addListItems count field
  forIndex (readString field maximumStringBytes) 0 count

/-- `check_regex_limits`. -/
def checkRegexLimits (patterns : List Str) (field : String) : Decode Unit :=
  addRegexBytes (patterns.map fun pattern => (utf8 pattern).length).sum field

/-- A list of strings that counts as semantic items. -/
def readStrings (field : String) : Decode (List Str) := do
  let values ← readStringList field maxListItems maxStringBytes
  addSemanticItems values.length field
  return values

/-- A list of patterns, with the limits of patterns. -/
def readPatterns (field : String) : Decode (List Str) := do
  let values ← readStringList field 65536 65536
  checkRegexLimits values field
  addSemanticItems values.length field
  return values

/-- The count of a list of semantic items. -/
def readCount (field : String) : Decode Nat := do
  let count ← readLen field maxListItems
  addListItems count field
  addSemanticItems count field
  return count

/-- `read_u16_list`. -/
def readU16List (field : String) : Decode (List UInt16) := do
  let count ← readCount field
  forIndex (fun _ => readU16BE field) 0 count

/-- `read_u8_list`. -/
def readU8List (field : String) : Decode (List UInt8) := do
  let count ← readCount field
  take count field

/-- `read_port_list`. -/
def readPortList (field : String) : Decode (List PortRange) := do
  let count ← readCount field
  forIndex (fun _ => do
    let port ← readU16BE field
    orCrash (PortRange.new port port)) 0 count

/-- One end of a port range; `default` stands for an empty text. -/
def parsePortEnd (default : UInt16) (value : Str) (message : String) : Except ParseError UInt16 :=
  if value.isEmpty then .ok default
  else
    match parseU16 value with
    | some port => .ok port
    | none => .error (.invalidRule message)

/-- `parse_port_range`. A reversed range is kept. -/
def parsePortRange (field : String) (value : Str) : Except ParseError PortRange := do
  let shown := String.ofList value
  match splitOnce ':' value with
  | none => .error (.invalidRule s!"SRS {field}_range `{shown}` 非法；应为 start:end")
  | some (start, stop) => do
      let start ← parsePortEnd 0 start s!"SRS {field}_range 起始端口非法: `{shown}`"
      let stop ← parsePortEnd 65535 stop s!"SRS {field}_range 结束端口非法: `{shown}`"
      return ⟨start, stop⟩

/-- `read_port_range_list`. -/
def readPortRangeList (field : String) : Decode (List PortRange) := do
  let values ← readStrings field
  ofExcept (values.mapM (parsePortRange field))

/-! ### Networks -/

/-- The network of an address of 4 or 16 bytes and a length. -/
def networkOf (field : String) (address : List UInt8) (bits : UInt8) : Except ParseError IpNet :=
  let length := address.length
  if length = 4 then
    if h : bits.toNat ≤ 32 then .ok (.v4 ⟨BitVec.ofNat 32 (ofBytesBE address), bits.toNat, h⟩)
    else .error (binaryError s!"{field} IPv4 prefix bits {bits} 超过 32")
  else if length = 16 then
    if h : bits.toNat ≤ 128 then .ok (.v6 ⟨BitVec.ofNat 128 (ofBytesBE address), bits.toNat, h⟩)
    else .error (binaryError s!"{field} IPv6 prefix bits {bits} 超过 128")
  else .error (binaryError s!"{field} prefix address 长度 {length} 非法；仅允许 4/16")

/-- `read_prefix`. -/
def readPrefix (field : String) : Decode IpNet := do
  let length ← readLen "prefix address length" 16
  let address ← take length "prefix address"
  let bits ← readU8 "prefix bits"
  ofExcept (networkOf field address bits)

/-- `read_prefix_list`. -/
def readPrefixList (field : String) : Decode (List IpNet) := do
  let count ← readCount field
  forIndex (fun index => (readPrefix field).mapError (addContext s!"{field}[{index}]")) 0 count

/-- The loop of `read_network_interface_addresses`. -/
def readInterfaceEntries : (count index : Nat) → (seen : List UInt8) → Decode (List (UInt8 × List IpNet))
  | 0, _, _ => return []
  | count + 1, index, seen => do
      let interfaceType ← readU8 "network interface type"
      rejectIf (interfaceType ∈ seen) (binaryError
        s!"network_interface_address interface type {interfaceType} 重复")
      let prefixes ← (readPrefixList "network_interface_address").mapError
        (addContext s!"map[{index}]")
      rejectIf (prefixes.isEmpty = true) (.invalidRule
        s!"network_interface_address type {interfaceType} 的 prefix 列表为空")
      let entries ← readInterfaceEntries count (index + 1) (interfaceType :: seen)
      return (interfaceType, prefixes) :: entries

/-- `read_network_interface_addresses`. -/
def readNetworkInterfaceAddresses : Decode (List (UInt8 × List IpNet)) := do
  let count ← readLen "network_interface_address map" 256
  addListItems count "network_interface_address map"
  readInterfaceEntries count 0 []

/-- `read_ip_addr`. -/
def readIpAddr (field : String) : Decode IpAddr := do
  let length ← readLen field 16
  let bytes ← take length field
  if bytes.length = 4 then return .v4 (BitVec.ofNat 32 (ofBytesBE bytes))
  else if bytes.length = 16 then do
    let octets ← asArray 16 bytes
    return .v6 (BitVec.ofNat 128 (ofBytesBE octets))
  else fail (binaryError s!"{field} 长度 {length} 非法；仅允许 4/16")

/-- `ip_value`. -/
def ipValue : IpAddr → Nat
  | .v4 a => a.toNat
  | .v6 a => a.toNat

/-- Whether a range may follow the one that ends in `previous`. -/
def rangeFollows : (previous start : IpAddr) → Bool
  | .v4 previous, .v4 start => start > previous
  | .v6 previous, .v6 start => start > previous
  | .v4 _, .v6 _ => true
  | .v6 _, .v4 _ => false

/-- `ip_range_to_networks`, with `ipv4_range_to_networks` and `ipv6_range_to_networks`. -/
def ipRangeToNetworks : (start stop : IpAddr) → Except ParseError (List IpNet)
  | .v4 start, .v4 stop => .ok ((Subnet.rangeNetworks 32 start.toNat stop.toNat).map .v4)
  | .v6 start, .v6 stop => .ok ((Subnet.rangeNetworks 128 start.toNat stop.toNat).map .v6)
  | _, _ => .error (binaryError "IP range 地址族不一致")

/-- The loop of `read_ip_set`, with the end of the range before. -/
def readIpRanges (field : String) : (count index : Nat) → (previous : Option IpAddr) →
    Decode (List IpNet)
  | 0, _, _ => return []
  | count + 1, index, previous => do
      let start ← readIpAddr "IP range from"
      let stop ← readIpAddr "IP range to"
      rejectIf (start.isIpv4 ≠ stop.isIpv4) (binaryError s!"{field} range[{index}] 地址族不一致")
      rejectIf (ipValue start > ipValue stop) (binaryError s!"{field} range[{index}] from 大于 to")
      rejectIf (previous.any fun previous => !rangeFollows previous start) (binaryError
        s!"{field} range[{index}] 未严格递增或发生重叠")
      let networks ← ofExcept (ipRangeToNetworks start stop)
      addSemanticItems networks.length field
      let rest ← readIpRanges field count (index + 1) (some stop)
      return networks ++ rest

/-- `read_ip_set`. -/
def readIpSet (field : String) : Decode (List IpNet) := do
  let setVersion ← readU8 "IP set version"
  rejectIf (setVersion ≠ 1) (binaryError s!"不支持的 IP set version {setVersion}")
  let rangeCount := (← readU64BE "IP range count").toNat
  rejectIf (rangeCount > 1048576) (binaryError
    s!"IP range count {rangeCount} 超过上限 {1048576}")
  addListItems rangeCount field
  readIpRanges field rangeCount 0 none

/-! ### Compact domain sets -/

/-- `MAX_DOMAIN_NODES`. -/
def maxDomainNodes : Nat := 8388608

/-- `MAX_DOMAIN_BITMAP_WORDS`. -/
def maxDomainBitmapWords : Nat := (2 * maxDomainNodes - 1 + 63) / 64

/-- `bitmap_bit`. -/
def bitmapBit (bitmap : List UInt64) (index : Nat) : Bool :=
  bitmap[index / 64]?.any fun word => word &&& 1 <<< UInt64.ofNat (index % 64) != 0

/-- `u64::count_ones`. -/
def countOnes (word : UInt64) : Nat := (List.range 64).countP word.toNat.testBit

/-- Whether a word has a bit outside the first `used % 64`. -/
def hasPadding (used : Nat) (word : UInt64) : Bool :=
  word &&& ~~~(1 <<< UInt64.ofNat (used % 64) - 1) != 0

/-- `read_u64_slice`. -/
def readU64Slice (field : String) (maximum : Nat) : Decode (List UInt64) := do
  let count ← readLen field maximum
  forIndex (fun _ => readU64BE field) 0 count

/-- The checks of the lengths and the padding of the two bitmaps. -/
def checkBitmaps (leaves labelBitmap : List UInt64) (nodeCount effectiveBits : Nat) :
    Decode Unit := do
  let expectedWords := (effectiveBits + 63) / 64
  let actualWords := labelBitmap.length
  rejectIf (actualWords ≠ expectedWords) (binaryError
    s!"compact domain label bitmap word 数应为 {expectedWords}，实际为 {actualWords}")
  rejectIf (effectiveBits % 64 ≠ 0 ∧ hasPadding effectiveBits (labelBitmap.getLast?.getD 0) = true)
    (binaryError "compact domain label bitmap padding 非零")
  let allowedLeafWords := (nodeCount + 63) / 64
  rejectIf (leaves.length > allowedLeafWords) (binaryError "compact domain leaves 超过节点范围")
  rejectIf (leaves.getLast? = some 0) (binaryError "compact domain leaves 含多余零 word")
  rejectIf (leaves ≠ [] ∧ nodeCount % 64 ≠ 0 ∧ leaves.length = allowedLeafWords ∧
      hasPadding nodeCount (leaves.getLast?.getD 0) = true)
    (binaryError "compact domain leaves 指向不存在节点")

/-- The loops over the bitmap; the bitmap is recorded. -/
def scanLabels (labelsLength : Nat) (bits : List Bool) : Decode (List UInt32) := do
  emit bits
  ofEnding (scanBitmap labelsLength bits)

/-- `read_compact_domain_set`. -/
def readCompactDomainSet (field : String) : Decode CompactDomainSet := do
  let setVersion ← readU8 "compact domain matcher version"
  rejectIf (setVersion ≠ 0) (binaryError
    s!"不支持的 compact domain matcher version {setVersion}")
  let leaves ← readU64Slice "compact domain leaves" maxDomainBitmapWords
  let labelBitmap ← readU64Slice "compact domain label bitmap" maxDomainBitmapWords
  let labelsLength ← readLen "compact domain labels length" (maxDomainNodes - 1)
  addStringBytes labelsLength field
  let labels ← take labelsLength "compact domain labels"
  let nodeCount := labelsLength + 1
  let effectiveBits := nodeCount * 2 - 1
  checkBitmaps leaves labelBitmap nodeCount effectiveBits
  let childOffsets ← scanLabels labelsLength
    ((List.range effectiveBits).map (bitmapBit labelBitmap))
  let terminalCount := (leaves.map countOnes).sum
  rejectIf (terminalCount = 0) (.invalidRule "SRS compact domain matcher 为空")
  addSemanticItems terminalCount field
  return ⟨leaves, childOffsets, labels, terminalCount⟩

/-! ### Rules -/

/-- The types of rule items, in the order of their numbers from 0 to 23. -/
inductive RuleItem
  | queryType
  | network
  | domain
  | domainKeyword
  | domainRegex
  | sourceIpCidr
  | ipCidr
  | sourcePort
  | sourcePortRange
  | port
  | portRange
  | processName
  | processPath
  | packageName
  | wifiSsid
  | wifiBssid
  | adguardDomain
  | processPathRegex
  | networkType
  | networkIsExpensive
  | networkIsConstrained
  | networkInterfaceAddress
  | defaultInterfaceAddress
  | packageNameRegex
  deriving DecidableEq

/-- The items in the order of their numbers. -/
def ruleItems : List RuleItem :=
  [.queryType, .network, .domain, .domainKeyword, .domainRegex, .sourceIpCidr, .ipCidr, .sourcePort,
    .sourcePortRange, .port, .portRange, .processName, .processPath, .packageName, .wifiSsid,
    .wifiBssid, .adguardDomain, .processPathRegex, .networkType, .networkIsExpensive,
    .networkIsConstrained, .networkInterfaceAddress, .defaultInterfaceAddress, .packageNameRegex]

/-- The first version of the format that has an item. -/
def RuleItem.minimumVersion : RuleItem → UInt8
  | adguardDomain => 2
  | networkType | networkIsExpensive | networkIsConstrained => 3
  | networkInterfaceAddress | defaultInterfaceAddress => 4
  | packageNameRegex => 5
  | _ => 1

/-- `DefaultRule`. -/
structure DefaultRule where
  queryTypes : List UInt16 := []
  domainMatcher : Option CompactDomainSet := none
  adguardDomainMatcher : Option CompactDomainSet := none
  domainKeywords : List Str := []
  domainRegexes : List Str := []
  sourceIpCidrs : List IpNet := []
  ipCidrs : List IpNet := []
  sourcePorts : List PortRange := []
  ports : List PortRange := []
  processNames : List Str := []
  processPaths : List Str := []
  processPathRegexes : List Str := []
  packageNames : List Str := []
  packageNameRegexes : List Str := []
  networks : List Str := []
  wifiSsids : List Str := []
  wifiBssids : List Str := []
  networkTypes : List UInt8 := []
  networkIsExpensive : Bool := false
  networkIsConstrained : Bool := false
  networkInterfaceAddresses : List (UInt8 × List IpNet) := []
  defaultInterfaceAddresses : List IpNet := []

/-- The body of one item. -/
def readItem (rule : DefaultRule) : RuleItem → Decode DefaultRule
  | .queryType => return { rule with queryTypes := ← readU16List "query_type" }
  | .network => return { rule with networks := ← readStrings "network" }
  | .domain => return { rule with domainMatcher := some (← readCompactDomainSet "domain") }
  | .domainKeyword => return { rule with domainKeywords := ← readStrings "domain_keyword" }
  | .domainRegex => return { rule with domainRegexes := ← readPatterns "domain_regex" }
  | .sourceIpCidr => return { rule with sourceIpCidrs := ← readIpSet "source_ip_cidr" }
  | .ipCidr => return { rule with ipCidrs := ← readIpSet "ip_cidr" }
  | .sourcePort =>
      return { rule with sourcePorts := rule.sourcePorts ++ (← readPortList "source_port") }
  | .sourcePortRange =>
      return { rule with sourcePorts := rule.sourcePorts ++ (← readPortRangeList "source_port") }
  | .port => return { rule with ports := rule.ports ++ (← readPortList "port") }
  | .portRange => return { rule with ports := rule.ports ++ (← readPortRangeList "port") }
  | .processName => return { rule with processNames := ← readStrings "process_name" }
  | .processPath => return { rule with processPaths := ← readStrings "process_path" }
  | .packageName => return { rule with packageNames := ← readStrings "package_name" }
  | .wifiSsid => return { rule with wifiSsids := ← readStrings "wifi_ssid" }
  | .wifiBssid =>
      return { rule with wifiBssids := (← readStrings "wifi_bssid").map normalizeWifiBssid }
  | .adguardDomain =>
      return { rule with adguardDomainMatcher := some (← readCompactDomainSet "adguard_domain") }
  | .processPathRegex =>
      return { rule with processPathRegexes := ← readPatterns "process_path_regex" }
  | .networkType => return { rule with networkTypes := ← readU8List "network_type" }
  | .networkIsExpensive => return { rule with networkIsExpensive := true }
  | .networkIsConstrained => return { rule with networkIsConstrained := true }
  | .networkInterfaceAddress =>
      return { rule with networkInterfaceAddresses := ← readNetworkInterfaceAddresses }
  | .defaultInterfaceAddress =>
      return { rule with
        defaultInterfaceAddresses := ← readPrefixList "default_interface_address" }
  | .packageNameRegex =>
      return { rule with packageNameRegexes := ← readPatterns "package_name_regex" }

/-- The loop of `read_default_rule` over the items; the rule and its inversion. The items seen so far
are different, so that the loop ends within `room` rounds. -/
def readItems : (room : Nat) → (seen : List RuleItem) → DefaultRule → Decode (DefaultRule × Bool)
  | 0, _, _ => crash
  | room + 1, seen, rule => do
      let itemType ← readU8 "rule item type"
      if itemType = 0xff then
        return (rule, ← readBool "default invert")
      else
        match ruleItems[itemType.toNat]? with
        | none => fail (binaryError s!"未知 rule item type {itemType}")
        | some item => do
            let version ← gets (·.version)
            let minimum := item.minimumVersion
            rejectIf (version < minimum) (binaryError
              s!"rule item type {itemType} 至少需要 SRS v{minimum}，文件声明为 v{version}")
            rejectIf (item ∈ seen) (binaryError s!"rule item type {itemType} 重复")
            let rule ← readItem rule item
            readItems room (item :: seen) rule

/-- A predicate over the values of an item, if there are any. -/
def listGroup {α : Type} (values : List α) (predicate : List α → RulesetPredicate) :
    List RulesetExpr :=
  if values.isEmpty then [] else [.predicate (predicate values)]

/-- A predicate over the patterns of an item, if there are any. -/
def regexGroup (cr : Crates) (field : String) (patterns : List Str)
    (predicate : (Str → Bool) → RulesetPredicate) : Except ParseError (List RulesetExpr) :=
  if patterns.isEmpty then .ok []
  else
    match cr.regexSet patterns with
    | .ok regex => .ok [.predicate (predicate regex)]
    | .error error => .error (.invalidRule s!"SRS {field} 编译失败: {error}")

/-- A predicate over a domain set, if there is one. -/
def matcherGroup (matcher : Option CompactDomainSet)
    (predicate : CompactDomainSet → RulesetPredicate) : List RulesetExpr :=
  matcher.toList.map fun matcher => .predicate (predicate matcher)

/-- A predicate of a flag, if it is set. -/
def flagGroup (flag : Bool) (predicate : RulesetPredicate) : List RulesetExpr :=
  if flag then [.predicate predicate] else []

/-- The alternatives of a group, if there are any. -/
def anyGroup (alternatives : List RulesetExpr) : List RulesetExpr :=
  if alternatives.isEmpty then [] else [.any alternatives]

/-- `apply_invert`. -/
def applyInvert (expression : RulesetExpr) (invert : Bool) : RulesetExpr :=
  if invert then .not expression else expression

/-- `compile_default_rule`. -/
def compileDefaultRule (cr : Crates) (rule : DefaultRule) (invert : Bool) :
    Except ParseError RulesetExpr := do
  let domainRegex ← regexGroup cr "domain_regex" rule.domainRegexes .singboxDomainRegex
  let destination :=
    matcherGroup rule.domainMatcher .singboxDomainMatcher ++
    listGroup rule.domainKeywords .singboxDomainKeyword ++ domainRegex ++
    matcherGroup rule.adguardDomainMatcher .adGuardDomainMatcher ++
    listGroup rule.ipCidrs .dstIpCidr
  let processPathRegex ←
    regexGroup cr "process_path_regex" rule.processPathRegexes .processPathRegex
  let packageNameRegex ←
    regexGroup cr "package_name_regex" rule.packageNameRegexes .packageNameRegex
  let groups :=
    anyGroup destination ++ listGroup rule.sourceIpCidrs .srcIpCidr ++
    listGroup rule.ports .dstPort ++ listGroup rule.sourcePorts .srcPort ++
    listGroup rule.processNames .processName ++ listGroup rule.queryTypes .queryType ++
    listGroup rule.processPaths .processPath ++ processPathRegex ++
    listGroup rule.packageNames .packageName ++ packageNameRegex ++
    listGroup rule.networks .singboxNetwork ++ listGroup rule.wifiSsids .wifiSsid ++
    listGroup rule.wifiBssids .wifiBssid ++ listGroup rule.networkTypes .networkType ++
    flagGroup rule.networkIsExpensive .networkIsExpensive ++
    flagGroup rule.networkIsConstrained .networkIsConstrained ++
    listGroup rule.networkInterfaceAddresses .networkInterfaceAddress ++
    listGroup rule.defaultInterfaceAddresses .defaultInterfaceAddress
  if groups.isEmpty then
    .error (.invalidRule "SRS default rule 至少需要一个可求值 predicate")
  else return applyInvert (.all groups) invert

/-- `read_default_rule`. -/
def readDefaultRule (cr : Crates) : Decode RulesetExpr := do
  let (rule, invert) ← readItems 25 [] {}
  ofExcept (compileDefaultRule cr rule invert)

/-- `MAX_RULES_PER_LIST`. -/
def maxRulesPerList : Nat := 262144

/-- `read_logical_rule`, with the reader for the rules inside. -/
def readLogicalRule (readChild : Decode RulesetExpr) : Decode RulesetExpr := do
  let mode ← readU8 "logical mode"
  rejectIf (mode > 1) (binaryError s!"未知 logical mode {mode}")
  let length ← readLen "logical rule count" maxRulesPerList
  rejectIf (length = 0) (.invalidRule "SRS logical rule 的 rules 不能为空")
  addListItems length "logical rules"
  let children ← forIndex
    (fun index => readChild.mapError (addContext s!"logical rule[{index}]")) 0 length
  let invert ← readBool "logical invert"
  return applyInvert (if mode = 0 then .all children else .any children) invert

/-- `read_rule`. The depth is limited, so that `room` does not run out. -/
def readRule (cr : Crates) : (room depth : Nat) → Decode RulesetExpr
  | 0, _ => crash
  | room + 1, depth => do
      addRule depth
      let ruleType ← readU8 "rule type"
      if ruleType = 0 then readDefaultRule cr
      else if ruleType = 1 then readLogicalRule (readRule cr room (depth + 1))
      else fail (binaryError s!"未知 rule type {ruleType}")

/-- `parse`, from the decompressed body on. -/
def parseBody (cr : Crates) (version : UInt8) : Decode RulesetProgram := do
  let ruleCount ← readLen "顶层 rule count" maxRulesPerList
  addListItems ruleCount "顶层 rules"
  let rules ← forIndex
    (fun index => (readRule cr 65 1).mapError (addContext s!"rule[{index}]")) 0 ruleCount
  let remaining ← gets (·.bytes.length)
  rejectIf (remaining ≠ 0) (binaryError s!"解压数据含 {remaining} bytes 尾随内容")
  return ⟨version, ruleCount, .any rules⟩

end WutherCore.Ruleset.Srs
