import Mathlib
import WutherCore.Data.Bit
import WutherCore.Data.Except
import WutherCore.Net.Addr
import WutherCore.Ruleset.Srs
import WutherCore.Young.Wire

/-!
# The FlowOpen message

`encode_flow_open` writes the request for a flow to a target, `decode_flow_open` and
`decode_flow_open_padded` read it from the start of a stream.

* `encodeTarget`, `decodeTarget`: an address in four or sixteen bytes, or a domain with its length.
* `Target.Decodable`: the targets that `Target::new` allows, or would allow in canonical form.
* `flowOpen_readsBack_iff`: a message is read back whole, and never in part, exactly if its target is
  decodable.
-/

namespace WutherCore.Young

open WutherCore.Text WutherCore.Data WutherCore.Net
open WutherCore.Ruleset (utf8)
open WutherCore.Ruleset.Srs (fromUtf8)

/-! ### Targets -/

/-- `Target`. The fields of the source are public. -/
structure Target where
  host : Str
  port : UInt16
  deriving DecidableEq, Repr

/-- `Target::new`. -/
def Target.new (host : Str) (port : UInt16) : Except IoError Target :=
  if port = 0 then .error (invalidInput "Young 目标端口不能为 0")
  else if (utf8 host).isEmpty ∨ 253 < (utf8 host).length ∨ 0 ∈ utf8 host then
    .error (invalidInput "Young 目标主机长度必须为 1..=253 字节")
  else .ok ⟨host, port⟩

/-- `encode_target`: the bytes that it appends. -/
def encodeTarget (target : Target) : Except IoError (List UInt8) :=
  match parseIpv4 target.host with
  | some ip => .ok (u16Bytes target.port ++ ([1] ++ (IpAddr.v4 ip).octets))
  | none =>
    match parseIpv6 target.host with
    | some ip => .ok (u16Bytes target.port ++ ([3] ++ (IpAddr.v6 ip).octets))
    | none =>
      let host := utf8 target.host
      if host.length < 2 ^ 8 then
        .ok (u16Bytes target.port ++ ([2, UInt8.ofNat host.length] ++ host))
      else .error (invalidInput "Young 目标域名超过 255 字节")

/-- `decode_target`. -/
def decodeTarget (input : List UInt8) : Except IoError (Option (Target × Nat)) :=
  if input.length < 3 then .ok none
  else
    let port := u16OfBytes (slice input 0 2)
    let kind := input.getD 2 0
    if kind = 1 then
      if input.length < 7 then .ok none
      else do
        let target ← Target.new (IpAddr.v4 (.ofNat 32 (ofBytesBE (slice input 3 7)))).display port
        return some (target, 7)
    else if kind = 2 then
      if input.length < 4 then .ok none
      else
        let length := (input.getD 3 0).toNat
        if length = 0 then .error (invalidData "Young 目标域名为空")
        else if input.length < 4 + length then .ok none
        else
          match fromUtf8 (slice input 4 (4 + length)) with
          | none => .error (invalidData "Young 目标域名不是 UTF-8")
          | some host => do
            let target ← Target.new host port
            return some (target, 4 + length)
    else if kind = 3 then
      if input.length < 19 then .ok none
      else do
        let target ← Target.new (IpAddr.v6 (.ofNat 128 (ofBytesBE (slice input 3 19)))).display port
        return some (target, 19)
    else .error (invalidData s!"未知 Young 地址类型：{kind}")

/-- The target with an address in its canonical text. -/
def Target.canonical (target : Target) : Target :=
  match parseIpAddr target.host with
  | some ip => ⟨ip.display, target.port⟩
  | none => target

/-- A target with a port whose host is an address, or a name that `Target::new` allows. -/
def Target.Decodable (target : Target) : Prop :=
  target.port ≠ 0 ∧ (parseIpAddr target.host ≠ none ∨
    (target.host ≠ [] ∧ (utf8 target.host).length ≤ 253 ∧ 0 ∉ utf8 target.host))

/-! ### Texts and their bytes -/

theorem fromUtf8_utf8 (s : Str) : fromUtf8 (utf8 s) = some s := by
  have hbytes : (⟨(utf8 s).toArray⟩ : ByteArray) = s.utf8Encode := by
    apply ByteArray.ext
    simp [utf8, List.utf8Encode]
  have hstring : String.fromUTF8 s.utf8Encode ByteArray.isValidUTF8_utf8Encode = String.ofList s := by
    apply String.toByteArray_inj.1
    rw [String.toByteArray_ofList]
    rfl
  rw [fromUtf8, hbytes, String.fromUTF8?, dif_pos ByteArray.isValidUTF8_utf8Encode, hstring,
    Option.map_some, String.toList_ofList]

theorem utf8_eq_nil_iff {s : Str} : utf8 s = [] ↔ s = [] := by
  cases s with
  | nil => simp [utf8]
  | cons c s => simp [utf8, String.utf8EncodeChar_ne_nil]

theorem isAddrChar_bounds {c : Char} (h : isAddrChar c = true) : 0 < c.toNat ∧ c.toNat < 128 := by
  simp only [isAddrChar, isDigitOf, digitValue, Bool.or_eq_true, beq_iff_eq] at h
  rcases h with (h | rfl) | rfl
  · split_ifs at h with h₁ h₂ h₃
    all_goals simp only [Char.le_def, UInt32.le_iff_toNat_le] at *
    all_goals simp only [Char.toNat] at *
    all_goals simp at *
    all_goals omega
  · decide
  · decide

theorem utf8_addrText (s : Str) (hchar : ∀ c ∈ s, isAddrChar c = true) :
    (utf8 s).length = s.length ∧ 0 ∉ utf8 s := by
  induction s with
  | nil => simp [utf8]
  | cons c s ih =>
    rw [List.forall_mem_cons] at hchar
    obtain ⟨hlen, hzero⟩ := ih hchar.2
    obtain ⟨hpos, hlt⟩ := isAddrChar_bounds hchar.1
    have hone : String.utf8EncodeChar c = [c.val.toUInt8] :=
      String.utf8EncodeChar_eq_singleton (Char.utf8Size_eq_one_iff.2 (by
        rw [UInt32.le_iff_toNat_le]
        exact Nat.le_of_lt_succ hlt))
    have hbyte : (0 : UInt8) ≠ c.val.toUInt8 := by
      intro h
      have hnat := congrArg UInt8.toNat h
      rw [UInt32.toNat_toUInt8] at hnat
      simp at hnat
      omega
    have hcons : utf8 (c :: s) = c.val.toUInt8 :: utf8 s := by simp [utf8, hone]
    rw [hcons, List.mem_cons, not_or]
    exact ⟨by simp [hlen], hbyte, hzero⟩

theorem Target.new_eq_ok_iff {host : Str} {port : UInt16} {target : Target} :
    Target.new host port = .ok target ↔ port ≠ 0 ∧ host ≠ [] ∧ (utf8 host).length ≤ 253 ∧
      0 ∉ utf8 host ∧ target = ⟨host, port⟩ := by
  unfold Target.new
  split_ifs with hport hhost
  · simp [hport]
  · constructor
    · intro h
      cases h
    · rintro ⟨-, hne, hlen, hzero, -⟩
      rcases hhost with hempty | hlong | hnul
      · exact absurd (utf8_eq_nil_iff.1 (List.isEmpty_iff.1 hempty)) hne
      · omega
      · exact absurd hnul hzero
  · rw [not_or, not_or, List.isEmpty_iff, utf8_eq_nil_iff, not_lt] at hhost
    constructor
    · intro h
      cases h
      exact ⟨hport, hhost.1, hhost.2.1, hhost.2.2, rfl⟩
    · rintro ⟨-, -, -, -, rfl⟩
      rfl

theorem Target.new_canonical_iff (target : Target) :
    Target.new target.canonical.host target.port = .ok target.canonical ↔ target.Decodable := by
  rw [Target.new_eq_ok_iff, Target.canonical, Target.Decodable]
  cases hip : parseIpAddr target.host with
  | none => simp
  | some ip =>
    have hlen := ip.display_length_le
    obtain ⟨hbytes, hzero⟩ := utf8_addrText ip.display ip.display_isAddrChar
    simp [hzero, ip.display_ne_nil]
    omega

/-! ### Targets on the wire -/

section TargetCodec

variable {target : Target} {bytes : List UInt8}

theorem encodeTarget_cases (h : encodeTarget target = .ok bytes) :
    (∃ ip, parseIpAddr target.host = some (.v4 ip) ∧
      bytes = u16Bytes target.port ++ ([1] ++ (IpAddr.v4 ip).octets)) ∨
    (∃ ip, parseIpAddr target.host = some (.v6 ip) ∧
      bytes = u16Bytes target.port ++ ([3] ++ (IpAddr.v6 ip).octets)) ∨
    (parseIpAddr target.host = none ∧ (utf8 target.host).length < 2 ^ 8 ∧
      bytes = u16Bytes target.port ++
        ([2, UInt8.ofNat (utf8 target.host).length] ++ utf8 target.host)) := by
  unfold encodeTarget at h
  cases h4 : parseIpv4 target.host with
  | some ip =>
    rw [h4] at h
    cases h
    exact .inl ⟨ip, by simp [parseIpAddr, h4], rfl⟩
  | none =>
    cases h6 : parseIpv6 target.host with
    | some ip =>
      simp only [h4, h6] at h
      cases h
      exact .inr (.inl ⟨ip, by simp [parseIpAddr, h4, h6], rfl⟩)
    | none =>
      simp only [h4, h6] at h
      split_ifs at h with hlt
      cases h
      exact .inr (.inr ⟨by simp [parseIpAddr, h4, h6], hlt, rfl⟩)

theorem target_start (port : UInt16) (kind : UInt8) (body : List UInt8) :
    slice (u16Bytes port ++ ([kind] ++ body)) 0 2 = u16Bytes port ∧
      (u16Bytes port ++ ([kind] ++ body)).getD 2 0 = kind ∧
      (u16Bytes port ++ ([kind] ++ body)).length = 3 + body.length ∧
      ∀ i j, slice (u16Bytes port ++ ([kind] ++ body)) (3 + i) (3 + j) = slice body i j := by
  refine ⟨?_, ?_, by simp; omega, fun i j => ?_⟩
  · rw [slice_append_left (by simp)]
    exact slice_zero_length (by simp)
  · simp [List.getD_eq_getElem?_getD]
  · rw [← List.append_assoc, slice_append_right (by simp)]
    simp

theorem decodeTarget_ipv4 (port : UInt16) (body : List UInt8) :
    decodeTarget (u16Bytes port ++ ([1] ++ body)) =
      if body.length < 4 then .ok none
      else (Target.new (IpAddr.v4 (.ofNat 32 (ofBytesBE (slice body 0 4)))).display port).map
        fun t => some (t, 7) := by
  obtain ⟨hport, hkind, hlen, hslice⟩ := target_start port 1 body
  have hshort : 3 + body.length < 7 ↔ body.length < 4 := by omega
  rw [decodeTarget, hport, hkind, hlen, if_neg (by omega), u16OfBytes_u16Bytes, if_pos rfl,
    hslice 0 4]
  simp only [hshort]
  rfl

theorem decodeTarget_ipv6 (port : UInt16) (body : List UInt8) :
    decodeTarget (u16Bytes port ++ ([3] ++ body)) =
      if body.length < 16 then .ok none
      else (Target.new (IpAddr.v6 (.ofNat 128 (ofBytesBE (slice body 0 16)))).display port).map
        fun t => some (t, 19) := by
  obtain ⟨hport, hkind, hlen, hslice⟩ := target_start port 3 body
  have hshort : 3 + body.length < 19 ↔ body.length < 16 := by omega
  rw [decodeTarget, hport, hkind, hlen, if_neg (by omega), u16OfBytes_u16Bytes, if_neg (by decide),
    if_neg (by decide), if_pos rfl, hslice 0 16]
  simp only [hshort]
  rfl

theorem decodeTarget_domain (port : UInt16) (length : UInt8) (body : List UInt8) :
    decodeTarget (u16Bytes port ++ ([2, length] ++ body)) =
      if length.toNat = 0 then .error (invalidData "Young 目标域名为空")
      else if body.length < length.toNat then .ok none
      else match fromUtf8 (slice body 0 length.toNat) with
        | none => .error (invalidData "Young 目标域名不是 UTF-8")
        | some host => (Target.new host port).map fun t => some (t, 4 + length.toNat) := by
  obtain ⟨hport, hkind, hlen, hslice⟩ := target_start port 2 (length :: body)
  have hassoc : u16Bytes port ++ ([2, length] ++ body) = u16Bytes port ++ ([2] ++ length :: body) := rfl
  have hbyte : (u16Bytes port ++ ([2] ++ length :: body)).getD 3 0 = length := by
    simp [List.getD_eq_getElem?_getD, List.getElem?_append]
  have hhost : slice (u16Bytes port ++ ([2] ++ length :: body)) 4 (4 + length.toNat) =
      slice body 0 length.toNat := by
    rw [show 4 + length.toNat = 3 + (1 + length.toNat) by omega, hslice 1 (1 + length.toNat)]
    simp [slice]
  have hshort : 3 + (length :: body).length < 4 + length.toNat ↔ body.length < length.toNat := by
    rw [List.length_cons]
    omega
  rw [hassoc, decodeTarget, hport, hkind, hlen, if_neg (by omega), u16OfBytes_u16Bytes,
    if_neg (by decide), if_pos rfl, if_neg (by simp; omega), hbyte]
  simp only [hshort, hhost]
  rfl

/-- An encoded target is read back in canonical form, if `Target::new` allows that. -/
theorem decodeTarget_encodeTarget (h : encodeTarget target = .ok bytes) (rest : List UInt8) :
    decodeTarget (bytes ++ rest) =
      if parseIpAddr target.host = none ∧ target.host = [] then
        .error (invalidData "Young 目标域名为空")
      else (Target.new target.canonical.host target.port).map fun t => some (t, bytes.length) := by
  rcases encodeTarget_cases h with ⟨ip, hip, rfl⟩ | ⟨ip, hip, rfl⟩ | ⟨hip, hlt, rfl⟩
  · have hbytes : BitVec.ofNat 32 (ofBytesBE (toBytesBE 4 ip.toNat)) = ip := by
      rw [ofBytesBE_toBytesBE ip.isLt]
      simp
    rw [List.append_assoc, List.append_assoc, decodeTarget_ipv4, if_neg (by simp [IpAddr.octets]),
      if_neg (by simp [hip]), slice_append_left (by simp [IpAddr.octets]),
      slice_zero_length (by simp [IpAddr.octets])]
    simp [Target.canonical, hip, IpAddr.octets, hbytes]
  · have hbytes : BitVec.ofNat 128 (ofBytesBE (toBytesBE 16 ip.toNat)) = ip := by
      rw [ofBytesBE_toBytesBE ip.isLt]
      simp
    rw [List.append_assoc, List.append_assoc, decodeTarget_ipv6, if_neg (by simp [IpAddr.octets]),
      if_neg (by simp [hip]), slice_append_left (by simp [IpAddr.octets]),
      slice_zero_length (by simp [IpAddr.octets])]
    simp [Target.canonical, hip, IpAddr.octets, hbytes]
  · have hlen : (UInt8.ofNat (utf8 target.host).length).toNat = (utf8 target.host).length :=
      UInt8.toNat_ofNat_of_lt' hlt
    have hempty : (utf8 target.host).length = 0 ↔ target.host = [] := by
      rw [List.length_eq_zero_iff, utf8_eq_nil_iff]
    rw [List.append_assoc, List.append_assoc, decodeTarget_domain, hlen]
    by_cases hhost : target.host = []
    · rw [if_pos (hempty.2 hhost), if_pos ⟨hip, hhost⟩]
    · rw [if_neg (mt hempty.1 hhost), if_neg (by simp), if_neg (by simp [hhost]),
        slice_append_left le_rfl, slice_zero_length rfl, fromUtf8_utf8]
      have hbytes : (u16Bytes target.port ++ ([2, UInt8.ofNat (utf8 target.host).length] ++
          utf8 target.host)).length = 4 + (utf8 target.host).length := by
        simp
        omega
      rw [hbytes]
      simp [Target.canonical, hip]

theorem decodeTarget_of_decodable (h : encodeTarget target = .ok bytes) (hd : target.Decodable)
    (rest : List UInt8) :
    decodeTarget (bytes ++ rest) = .ok (some (target.canonical, bytes.length)) := by
  have hhost : ¬(parseIpAddr target.host = none ∧ target.host = []) := by
    rintro ⟨hip, hnil⟩
    rcases hd.2 with hc | hc
    · exact hc hip
    · exact hc.1 hnil
  rw [decodeTarget_encodeTarget h, if_neg hhost, (Target.new_canonical_iff target).2 hd]
  rfl

theorem decodeTarget_of_not_decodable (h : encodeTarget target = .ok bytes) (hd : ¬target.Decodable)
    (rest : List UInt8) : ∃ e, decodeTarget (bytes ++ rest) = .error e := by
  rw [decodeTarget_encodeTarget h]
  split_ifs
  · exact ⟨_, rfl⟩
  · cases hnew : Target.new target.canonical.host target.port with
    | error e => exact ⟨e, rfl⟩
    | ok t =>
      have ht := (Target.new_eq_ok_iff.1 hnew).2.2.2.2
      have hport : target.canonical.port = target.port := by
        unfold Target.canonical
        split <;> rfl
      rw [ht, ← hport] at hnew
      exact absurd ((Target.new_canonical_iff target).1 (hport ▸ hnew)) hd

theorem target_cut {port : UInt16} {kind : UInt8} {body q : List UInt8}
    (hq : q <+: u16Bytes port ++ ([kind] ++ body)) (hne : q ≠ u16Bytes port ++ ([kind] ++ body))
    (hlong : 3 ≤ q.length) :
    ∃ c, q = u16Bytes port ++ ([kind] ++ c) ∧ c <+: body ∧ c.length < body.length := by
  rw [← List.append_assoc] at hq hne
  rcases prefix_append_cases hq with ⟨hpre, hne'⟩ | ⟨c, rfl, hc⟩
  · exact absurd (hpre.eq_of_length_le (by simpa using hlong)) hne'
  · refine ⟨c, by simp, hc, lt_of_le_of_ne hc.length_le fun hlen => hne ?_⟩
    rw [hc.eq_of_length hlen]

theorem decodeTarget_cut (h : encodeTarget target = .ok bytes) {q : List UInt8} (hq : q <+: bytes)
    (hne : q ≠ bytes) : decodeTarget q = .ok none := by
  rcases Nat.lt_or_ge q.length 3 with hshort | hlong
  · rw [decodeTarget, if_pos hshort]
  rcases encodeTarget_cases h with ⟨ip, -, rfl⟩ | ⟨ip, -, rfl⟩ | ⟨-, hlt, rfl⟩
  · obtain ⟨c, rfl, -, hlen⟩ := target_cut hq hne hlong
    rw [decodeTarget_ipv4, if_pos (by simpa [IpAddr.octets] using hlen)]
  · obtain ⟨c, rfl, -, hlen⟩ := target_cut hq hne hlong
    rw [decodeTarget_ipv6, if_pos (by simpa [IpAddr.octets] using hlen)]
  · obtain ⟨c, rfl, hpre, hlen⟩ := @target_cut _ 2
      (UInt8.ofNat (utf8 target.host).length :: utf8 target.host) _ hq hne hlong
    cases c with
    | nil =>
      obtain ⟨-, hkind, hlen', -⟩ := target_start target.port 2 []
      rw [decodeTarget, hkind, hlen', if_neg (by simp), if_neg (by decide), if_pos rfl,
        if_pos (by simp)]
    | cons length c =>
      obtain ⟨rfl, hpre⟩ := List.cons_prefix_cons.1 hpre
      have hnat : (UInt8.ofNat (utf8 target.host).length).toNat = (utf8 target.host).length :=
        UInt8.toNat_ofNat_of_lt' hlt
      have hshort : c.length < (utf8 target.host).length := by simpa using hlen
      exact (decodeTarget_domain _ _ c).trans (by rw [hnat, if_neg (by omega), if_pos hshort])

end TargetCodec

/-! ### The message -/

/-- `FlowKind`. -/
inductive FlowKind
  | tcp
  | udp
  deriving DecidableEq, Repr

/-- The number of a kind. -/
def FlowKind.toByte : FlowKind → UInt8
  | tcp => 1
  | udp => 2

/-- `FlowKind::try_from`. -/
def FlowKind.tryFrom (value : UInt8) : Except IoError FlowKind :=
  if value = 1 then .ok .tcp
  else if value = 2 then .ok .udp
  else .error (unsupported s!"不支持的 Young flow kind：{value}")

@[simp] theorem FlowKind.tryFrom_toByte (kind : FlowKind) : FlowKind.tryFrom kind.toByte = .ok kind := by
  cases kind <;> rfl

/-- `FlowOpen`. -/
structure FlowOpen where
  kind : FlowKind
  flowId : UInt64
  target : Target
  deriving DecidableEq, Repr

variable (p : Primitives) (sessionKey : SessionKey)

/-- The fixed part of the message. -/
def flowHeader (kind : FlowKind) (flowId : UInt64) : List UInt8 :=
  ascii "YF" ++ ([version, kind.toByte] ++ u64Bytes flowId)

/-- The padding of a message. -/
def flowPadding (flowId : UInt64) (paddingLen : Nat) : List UInt8 :=
  deterministicPadding p sessionKey (ascii "young/flow-padding/v1") [u64Bytes flowId] paddingLen

/-- The tag of a message. -/
def flowTag (frame : List UInt8) : List UInt8 :=
  shortTag p sessionKey.bytes.1 [ascii "young/flow-open/v1", frame]

/-- `encode_flow_open`. -/
def encodeFlowOpen (request : FlowOpen) (paddingLen : Nat) : Except IoError (List UInt8) :=
  if maxPaddingBytes < paddingLen then .error (invalidInput "Young flow padding 超过上限")
  else do
    let target ← encodeTarget request.target
    let paddingBytes ← u16TryFrom paddingLen (invalidInput "Young flow padding 过大")
    let frame := flowHeader request.kind request.flowId ++ (target ++ (u16Bytes paddingBytes ++
      flowPadding p sessionKey request.flowId paddingLen))
    return frame ++ flowTag p sessionKey frame

/-- `decode_flow_open_inner` behind the target, which ends at `paddingOffset`. -/
def decodeFlowRest (scheme : Option PaddingScheme) (kind : FlowKind) (flowId : UInt64)
    (target : Target) (paddingOffset : Nat) (input : List UInt8) :
    Except IoError (Option (FlowOpen × Nat)) :=
  if input.length < paddingOffset + 2 then .ok none
  else
    let paddingLen := (u16OfBytes (slice input paddingOffset (paddingOffset + 2))).toNat
    if maxPaddingBytes < paddingLen then .error (invalidData "Young flow padding 超过上限")
    else
      let authenticatedLen := paddingOffset + 2 + paddingLen
      let total := authenticatedLen + flowTagBytes
      if input.length < total then .ok none
      else do
        verifyHmacTruncated p sessionKey.bytes.1
          [ascii "young/flow-open/v1", slice input 0 authenticatedLen]
          (slice input authenticatedLen total)
        match scheme with
        | none => return some (⟨kind, flowId, target⟩, total)
        | some scheme =>
          if paddingLen ≠ (scheme.paddingFor .clientToServer flowId).toNat then
            .error (invalidData "Young FlowOpen padding 与协商 scheme 不一致")
          else do
            verifyDeterministicPadding p sessionKey (ascii "young/flow-padding/v1")
              [u64Bytes flowId] (slice input (paddingOffset + 2) authenticatedLen)
            return some (⟨kind, flowId, target⟩, total)

/-- `decode_flow_open_inner`. -/
def decodeFlowOpenInner (scheme : Option PaddingScheme) (input : List UInt8) :
    Except IoError (Option (FlowOpen × Nat)) :=
  if input.length < 12 then .ok none
  else if slice input 0 2 ≠ ascii "YF" ∨ input[2]? ≠ some version then
    .error (invalidData "Young flow open magic/version 无效")
  else do
    let kind ← FlowKind.tryFrom (input.getD 3 0)
    let flowId := u64OfBytes (slice input 4 12)
    match ← decodeTarget (input.drop 12) with
    | none => return none
    | some (target, targetBytes) =>
      decodeFlowRest p sessionKey scheme kind flowId target (12 + targetBytes) input

/-- `decode_flow_open`. -/
def decodeFlowOpen (input : List UInt8) : Except IoError (Option (FlowOpen × Nat)) :=
  decodeFlowOpenInner p sessionKey none input

/-- `decode_flow_open_padded`. -/
def decodeFlowOpenPadded (scheme : PaddingScheme) (input : List UInt8) :
    Except IoError (Option (FlowOpen × Nat)) :=
  decodeFlowOpenInner p sessionKey (some scheme) input

/-! ### Reading the message -/

theorem flowHeader_length (kind : FlowKind) (flowId : UInt64) : (flowHeader kind flowId).length = 12 := by
  simp [flowHeader, ascii]

theorem decodeFlowOpenInner_header (scheme : Option PaddingScheme) (kind : FlowKind) (flowId : UInt64)
    (body : List UInt8) :
    decodeFlowOpenInner p sessionKey scheme (flowHeader kind flowId ++ body) =
      (decodeTarget body).bind fun result =>
        match result with
        | none => .ok none
        | some (target, n) => decodeFlowRest p sessionKey scheme kind flowId target (12 + n)
            (flowHeader kind flowId ++ body) := by
  have hlen := flowHeader_length kind flowId
  have hmagic : slice (flowHeader kind flowId ++ body) 0 2 = ascii "YF" := by
    rw [flowHeader, List.append_assoc, slice_append_left (by simp [ascii])]
    exact slice_zero_length (by simp [ascii])
  have hversion : (flowHeader kind flowId ++ body)[2]? = some version := by simp [flowHeader, ascii]
  have hkind : (flowHeader kind flowId ++ body).getD 3 0 = kind.toByte := by
    simp [flowHeader, ascii, List.getD_eq_getElem?_getD]
  have hflow : slice (flowHeader kind flowId ++ body) 4 12 = u64Bytes flowId := by
    rw [flowHeader, ← List.append_assoc, List.append_assoc]
    exact slice_middle (by simp [ascii]) (by simp)
  have hdrop : (flowHeader kind flowId ++ body).drop 12 = body := by
    rw [← hlen, List.drop_left]
  rw [decodeFlowOpenInner, if_neg (by simp [hlen]), if_neg (by simp [hmagic, hversion]), hkind, hflow,
    hdrop, FlowKind.tryFrom_toByte, u64OfBytes_u64Bytes]
  rfl

section Rest

variable (scheme : Option PaddingScheme) (kind : FlowKind) (flowId : UInt64) (target : Target)
  (front : List UInt8) {n : UInt16}

theorem decodeFlowRest_cut (hn : n.toNat ≤ maxPaddingBytes) {tail c : List UInt8}
    (htail : tail.length = n.toNat + 16) (hc : c <+: u16Bytes n ++ tail)
    (hne : c ≠ u16Bytes n ++ tail) :
    decodeFlowRest p sessionKey scheme kind flowId target front.length (front ++ c) = .ok none := by
  rcases prefix_append_cases hc with ⟨hpre, hne'⟩ | ⟨e, rfl, he⟩
  · have hlt : c.length < 2 := by
      refine lt_of_le_of_ne (by simpa using hpre.length_le) fun hlen => hne' ?_
      exact hpre.eq_of_length (by simpa using hlen)
    rw [decodeFlowRest, if_pos (by simpa using hlt)]
  · have hlt : e.length < n.toNat + 16 := by
      refine htail ▸ lt_of_le_of_ne he.length_le fun hlen => hne ?_
      rw [he.eq_of_length hlen]
    have hslice : slice (front ++ (u16Bytes n ++ e)) front.length (front.length + 2) = u16Bytes n :=
      slice_middle rfl (by simp)
    have hlong : ¬(front ++ (u16Bytes n ++ e)).length < front.length + 2 := by
      simp only [List.length_append, u16Bytes_length]
      omega
    rw [decodeFlowRest, if_neg hlong, hslice, u16OfBytes_u16Bytes]
    simp only [not_lt.2 hn, if_false]
    rw [if_pos]
    simp only [List.length_append, u16Bytes_length, flowTagBytes]
    omega

/-- A complete message is read. -/
theorem decodeFlowRest_whole (hn : n.toNat ≤ maxPaddingBytes)
    (hscheme : ∀ s ∈ scheme, n.toNat = (s.paddingFor .clientToServer flowId).toNat)
    (rest : List UInt8) :
    decodeFlowRest p sessionKey scheme kind flowId target front.length
        (front ++ (u16Bytes n ++ flowPadding p sessionKey flowId n.toNat) ++
          flowTag p sessionKey (front ++ (u16Bytes n ++ flowPadding p sessionKey flowId n.toNat)) ++
          rest) =
      .ok (some (⟨kind, flowId, target⟩, front.length + 2 + n.toNat + 16)) := by
  set padding := flowPadding p sessionKey flowId n.toNat with hpadding
  set frame := front ++ (u16Bytes n ++ padding) with hframe
  set tag := flowTag p sessionKey frame with htag
  have hplen : padding.length = n.toNat := deterministicPadding_length ..
  have htlen : tag.length = 16 := shortTag_length ..
  have hflen : frame.length = front.length + 2 + n.toNat := by
    simp [hframe, hplen]
    omega
  have hlen : (frame ++ tag ++ rest).length = front.length + 2 + n.toNat + 16 + rest.length := by
    simp only [List.length_append, hflen, htlen]
  have hslice : slice (frame ++ tag ++ rest) front.length (front.length + 2) = u16Bytes n := by
    rw [hframe, List.append_assoc, List.append_assoc, List.append_assoc]
    exact slice_middle rfl (by simp)
  have hauth : slice (frame ++ tag ++ rest) 0 (front.length + 2 + n.toNat) = frame := by
    rw [List.append_assoc, slice_append_left (by omega)]
    exact slice_zero_length hflen
  have htags : slice (frame ++ tag ++ rest) (front.length + 2 + n.toNat)
      (front.length + 2 + n.toNat + 16) = tag := by
    rw [List.append_assoc]
    exact slice_middle hflen (by rw [htlen])
  have hpads : slice (frame ++ tag ++ rest) (front.length + 2) (front.length + 2 + n.toNat) =
      padding := by
    rw [hframe, ← List.append_assoc front, List.append_assoc, List.append_assoc]
    exact slice_middle (by simp) (by rw [hplen])
  have hverify : verifyHmacTruncated p sessionKey.bytes.1 [ascii "young/flow-open/v1", frame] tag =
      .ok () := verifyHmacTruncated_shortTag ..
  have hpad : verifyDeterministicPadding p sessionKey (ascii "young/flow-padding/v1")
      [u64Bytes flowId] padding = .ok () := verifyDeterministicPadding_padding ..
  rw [decodeFlowRest, if_neg (by omega), hslice, u16OfBytes_u16Bytes]
  simp only [not_lt.2 hn, if_false, flowTagBytes, hauth, htags, hpads, hverify]
  rw [if_neg (by omega)]
  cases scheme with
  | none => rfl
  | some s =>
    have hs : ¬n.toNat ≠ (s.paddingFor .clientToServer flowId).toNat := not_not.2 (hscheme s rfl)
    simp only [bind, Except.bind, if_neg hs, hpad]
    rfl

end Rest

/-! ### The message as a whole -/

/-- The message with its target in canonical form. -/
def FlowOpen.canonical (request : FlowOpen) : FlowOpen :=
  { request with target := request.target.canonical }

/-- A frame is read as the given message, whatever follows it, and found incomplete where it is cut
short. -/
structure ReadsBack (scheme : Option PaddingScheme) (request : FlowOpen) (frame : List UInt8) : Prop
    where
  whole : ∀ rest, decodeFlowOpenInner p sessionKey scheme (frame ++ rest) =
    .ok (some (request.canonical, frame.length))
  cut : ∀ q, q <+: frame → q ≠ frame → decodeFlowOpenInner p sessionKey scheme q = .ok none

theorem encodeFlowOpen_eq_ok {request : FlowOpen} {paddingLen : Nat} {frame : List UInt8}
    (h : encodeFlowOpen p sessionKey request paddingLen = .ok frame) :
    ∃ target n, encodeTarget request.target = .ok target ∧ n.toNat = paddingLen ∧
      n.toNat ≤ maxPaddingBytes ∧
      frame = flowHeader request.kind request.flowId ++ (target ++ (u16Bytes n ++
        flowPadding p sessionKey request.flowId n.toNat)) ++
        flowTag p sessionKey (flowHeader request.kind request.flowId ++ (target ++ (u16Bytes n ++
          flowPadding p sessionKey request.flowId n.toNat))) := by
  unfold encodeFlowOpen at h
  split_ifs at h with hmax
  obtain ⟨target, htarget, h⟩ := bind_eq_ok.1 h
  have hlt : paddingLen < 2 ^ 16 := lt_of_le_of_lt (not_lt.1 hmax) (by decide)
  have hnat : (UInt16.ofNat paddingLen).toNat = paddingLen := toNat_ofNat16 hlt
  rw [u16TryFrom_eq_ok hlt] at h
  refine ⟨target, UInt16.ofNat paddingLen, htarget, hnat, by omega, ?_⟩
  rw [hnat]
  exact (Except.ok.inj h).symm

/-- **The codec of FlowOpen.** A message that the encoder accepts is read back, whole and never in part,
exactly if its target has a port and its host is an address or a name of 1 to 253 bytes without a zero
byte. -/
theorem flowOpen_readsBack_iff {scheme : Option PaddingScheme} {request : FlowOpen} {paddingLen : Nat}
    {frame : List UInt8} (h : encodeFlowOpen p sessionKey request paddingLen = .ok frame)
    (hscheme : ∀ s ∈ scheme, paddingLen = (s.paddingFor .clientToServer request.flowId).toNat) :
    ReadsBack p sessionKey scheme request frame ↔ request.target.Decodable := by
  obtain ⟨target, n, htarget, rfl, hn, rfl⟩ := encodeFlowOpen_eq_ok p sessionKey h
  set header := flowHeader request.kind request.flowId with hheader
  set padding := flowPadding p sessionKey request.flowId n.toNat with hpadding
  set tag := flowTag p sessionKey (header ++ (target ++ (u16Bytes n ++ padding))) with htag
  have hhlen : header.length = 12 := flowHeader_length ..
  have hplen : padding.length = n.toNat := deterministicPadding_length ..
  have htlen : tag.length = 16 := shortTag_length ..
  have hassoc : ∀ rest, header ++ (target ++ (u16Bytes n ++ padding)) ++ tag ++ rest =
      header ++ (target ++ (u16Bytes n ++ (padding ++ (tag ++ rest)))) := by simp
  constructor
  · rintro ⟨hwhole, -⟩
    by_contra hd
    obtain ⟨e, he⟩ := decodeTarget_of_not_decodable htarget hd
      (u16Bytes n ++ (padding ++ (tag ++ [])))
    have hread := hwhole []
    rw [hassoc, hheader, decodeFlowOpenInner_header, he] at hread
    cases hread
  · intro hd
    refine ⟨fun rest => ?_, fun q hq hne => ?_⟩
    · rw [hassoc, hheader, decodeFlowOpenInner_header, decodeTarget_of_decodable htarget hd]
      have hfront : 12 + target.length = (header ++ target).length := by
        rw [List.length_append, hhlen]
      have hrest := decodeFlowRest_whole p sessionKey scheme request.kind request.flowId
        request.target.canonical (header ++ target) hn hscheme rest
      simp only [Except.bind, ← hheader, hfront]
      refine (congrArg _ ?_).trans (hrest.trans ?_)
      · simp [← hpadding, htag]
      · simp only [FlowOpen.canonical, List.length_append, hhlen, hplen, htlen, u16Bytes_length,
          Except.ok.injEq, Option.some.injEq, Prod.mk.injEq, true_and]
        omega
    · rcases Nat.lt_or_ge q.length 12 with hshort | hlong
      · rw [decodeFlowOpenInner, if_pos hshort]
      -- the cut is behind the fixed part: within the target, or behind it
      have hassoc' := hassoc []
      rw [List.append_nil] at hassoc'
      rw [hassoc'] at hq hne
      rcases prefix_append_cases hq with ⟨hpre, hne'⟩ | ⟨b, rfl, hb⟩
      · exact absurd (hpre.eq_of_length_le (by omega)) hne'
      rw [hheader, decodeFlowOpenInner_header]
      rcases prefix_append_cases hb with ⟨hpre, hne'⟩ | ⟨c, rfl, hc⟩
      · rw [decodeTarget_cut htarget hpre hne']
        rfl
      · rw [decodeTarget_of_decodable htarget hd]
        have hfront : 12 + target.length = (header ++ target).length := by
          rw [List.length_append, hhlen]
        have hcut := decodeFlowRest_cut p sessionKey scheme request.kind request.flowId
          request.target.canonical (header ++ target) hn
          (show (padding ++ (tag ++ [])).length = _ by simp [hplen, htlen]) hc
          fun heq => hne (by rw [heq])
        simp only [Except.bind, ← hheader, hfront, ← List.append_assoc header target c]
        exact hcut

/-- HMAC-SHA256 as it is on the two messages below, under the key of 32 sevens; the first one is for the
port 80, the byte of `P`. -/
def flowPrimitives : Primitives where
  hmacSha256 := fun _ message =>
    if 80 ∈ message then
      ⟨
        [0x94, 0xa2, 0xf7, 0xdb, 0x51, 0x69, 0x6b, 0xf4, 0xac, 0x81, 0x15, 0xfc, 0xf7, 0xc4, 0x0d,
         0x45, 0x90, 0x0f, 0x41, 0x54, 0x4a, 0x21, 0x17, 0x7b, 0xae, 0x24, 0x17, 0x65, 0xd8, 0xaf,
         0xd0, 0xc3], rfl⟩
    else
      ⟨
        [0xf6, 0xd5, 0xa6, 0x89, 0x54, 0x92, 0x77, 0x55, 0x3e, 0x1e, 0x4f, 0xd1, 0x31, 0x3d, 6,
         0x44, 0xaf, 0xc1, 0x2f, 0x5f, 0x21, 0x10, 0x50, 0x8b, 0x2e, 0xce, 9, 0x53, 0x10, 0xd0,
         0xf2, 0x48], rfl⟩
  blake3Xof := fun _ _ _ => 0

/-- A flow to the host `a`. -/
def flowToA (port : UInt16) : FlowOpen := ⟨.tcp, 0, ⟨['a'], port⟩⟩

/-- A flow to `a:80` is read back. -/
theorem flowOpen_readsBack_port :
    ReadsBack flowPrimitives ⟨List.replicate 32 7, rfl⟩ none (flowToA 80)
      [0x59, 0x46, 1, 1, 0, 0, 0, 0, 0, 0, 0, 0, 0, 0x50, 2, 1, 0x61, 0, 0, 0x94, 0xa2, 0xf7, 0xdb,
       0x51, 0x69, 0x6b, 0xf4, 0xac, 0x81, 0x15, 0xfc, 0xf7, 0xc4, 0x0d, 0x45] :=
  (@flowOpen_readsBack_iff flowPrimitives ⟨List.replicate 32 7, rfl⟩ _ _ 0 _
    (by decide +kernel) (by simp)).2 (by
      refine ⟨by decide, .inr ⟨by decide, by decide +kernel, by decide +kernel⟩⟩)

/-- **A flow to port 0 is encoded, and refused by the decoder.** -/
theorem flowOpen_port_zero :
    ∃ frame, encodeFlowOpen flowPrimitives ⟨List.replicate 32 7, rfl⟩ (flowToA 0) 0 = .ok frame ∧
      decodeFlowOpen flowPrimitives ⟨List.replicate 32 7, rfl⟩ frame =
        .error (invalidInput "Young 目标端口不能为 0") :=
  ⟨
    [0x59, 0x46, 1, 1, 0, 0, 0, 0, 0, 0, 0, 0, 0, 0, 2, 1, 0x61, 0, 0, 0xf6, 0xd5, 0xa6, 0x89,
     0x54, 0x92, 0x77, 0x55, 0x3e, 0x1e, 0x4f, 0xd1, 0x31, 0x3d, 6, 0x44],
    by decide +kernel, by decide +kernel⟩

end WutherCore.Young
