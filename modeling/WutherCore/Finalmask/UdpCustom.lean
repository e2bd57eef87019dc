import WutherCore.Data.Rand
import WutherCore.Finalmask.Salamander
import WutherCore.Finalmask.Transform

/-!
# Finalmask: custom headers of datagrams

`header_custom.rs`, the part for UDP: the items of a header are written one after the other, and the peer
matches them one after the other.  What an item stands for may be captured in a variable, for the items
behind it and for the packets to come.

Variables live until five seconds pass without a header.  Time is counted in nanoseconds.

* `matchUdpItems_context`: a packet leaves the captures of its leading items, also if a later item fails.
* `UdpCustomCodec.rejected_leaves_no_trace_iff`: when a packet that is not accepted changes no variable.
-/

namespace WutherCore.Finalmask

open WutherCore.Data Draw
open WutherCore.Text
open WutherCore.Young (IoError invalidInput permissionDenied)

/-- The variables that were captured. -/
abbrev Vars := AssocMap Str (List UInt8)

/-- `HeaderCustomUdpItem`. -/
structure HeaderCustomUdpItem (J : Type) where
  rand : Int := 0
  randRange : Option I32Range := none
  capture : Str := []
  packetType : Str := []
  reuse : Str := []
  transform : Option (CustomTransform J) := none
  packet : Option J := none

/-- `HeaderCustomUdpConfig`. -/
structure HeaderCustomUdpConfig (J : Type) where
  mode : Str := []
  client : List (HeaderCustomUdpItem J) := []
  server : List (HeaderCustomUdpItem J) := []

/-- `UdpRole`. -/
inductive UdpRole
  | client
  | server
  deriving DecidableEq

/-- `UdpCustomCodec`. -/
structure UdpCustomCodec (J : Type) where
  config : HeaderCustomUdpConfig J
  role : UdpRole
  context : EvalContext
  expiresAt : Option Nat

/-- `StandaloneServerAction`. -/
inductive StandaloneServerAction
  | reply (packet : List UInt8)
  | payload (packet : List UInt8)
  | drop
  deriving DecidableEq

/-- The error of a header whose size is no `usize`. -/
def headerOverflow : IoError := invalidInput "header-custom UDP header size overflow"

section Items

variable {J : Type} (codecs : Codecs J)

/-- What `context.vars.insert` adds after an item. -/
def HeaderCustomUdpItem.captured (item : HeaderCustomUdpItem J) (segment : List UInt8) :
    List (Str × List UInt8) :=
  if item.capture ≠ [] then [(item.capture, segment)] else []

/-- The context after an item. -/
def EvalContext.captureItem (context : EvalContext) (item : HeaderCustomUdpItem J) (segment : List UInt8) :
    EvalContext :=
  { context with vars := context.vars.insertAll (item.captured segment) }

/-- A variable, or the error. -/
def EvalContext.variable (context : EvalContext) (name : Str) : Except IoError (List UInt8) :=
  match context.vars.get? name with
  | some value => .ok value
  | none => .error (unknownVariable name)

/-- Bytes from a range: `rng.random_range(from..=to) as u8`. -/
def randomBytes (range : I32Range) : Nat → Draw (List UInt8)
  | 0 => pure []
  | n + 1 => do
    let byte ← below (range.to' - range.from' + 1).toNat
    let rest ← randomBytes range n
    return UInt8.ofNat ((range.from' + byte) % 256).toNat :: rest

/-- `evaluate_udp_item`, without the capture. -/
def evaluateUdpItem (context : EvalContext) (item : HeaderCustomUdpItem J) :
    Draw (Except IoError (List UInt8)) :=
  if 0 < item.rand then do
    let range := item.randRange.getD ⟨0, 255⟩
    let output ← (if range.from' = 0 ∧ range.to' = 255 then Draw.bytes item.rand.toNat
      else randomBytes range item.rand.toNat)
    return .ok output
  else if item.packet.isSome then pure (packetBytes codecs item.packet item.packetType)
  else if item.reuse ≠ [] then pure (context.variable item.reuse)
  else
    match item.transform with
    | some transform => pure ((transform.evaluate codecs context).bind asBytes)
    | none => pure (.ok [])

/-- `evaluate_udp_items`. -/
def evaluateUdpItems : List (HeaderCustomUdpItem J) → List UInt8 → EvalContext →
    Draw (Except IoError (List UInt8) × EvalContext)
  | [], output, context => pure (.ok output, context)
  | item :: items, output, context => do
    let value ← evaluateUdpItem codecs context item
    match value with
    | .ok value => evaluateUdpItems items (output ++ value) (context.captureItem item value)
    | .error e => return (.error e, context)

/-- `measure_udp_item`. -/
def measureUdpItem (item : HeaderCustomUdpItem J) (vars : Vars) : Except IoError Nat :=
  if 0 < item.rand then .ok item.rand.toNat
  else if item.packet.isSome then (packetBytes codecs item.packet item.packetType).map List.length
  else if item.reuse ≠ [] then
    match vars.get? item.reuse with
    | some value => .ok value.length
    | none => .error (unknownVariable item.reuse)
  else
    match item.transform with
    | some transform => transform.measure codecs vars
    | none => .ok 0

/-- `measure_udp_items`. -/
def measureUdpItems (items : List (HeaderCustomUdpItem J)) (vars : Vars) : Except IoError Nat :=
  items.foldlM (fun total item => do
    let length ← measureUdpItem codecs item vars
    if total + length < 2 ^ 64 then return total + length else .error headerOverflow) 0

/-- What an item expects in a packet. -/
def expectedUdpItem (context : EvalContext) (item : HeaderCustomUdpItem J) :
    Except IoError (Option (List UInt8)) :=
  if 0 < item.rand then .ok none
  else if item.packet.isSome then (packetBytes codecs item.packet item.packetType).map some
  else if item.reuse ≠ [] then (context.variable item.reuse).map some
  else
    match item.transform with
    | some transform => ((transform.evaluate codecs context).bind asBytes).map some
    | none => .ok none

/-- The body of the loop of `match_udp_items`, without the capture: where the item ends, and its bytes. -/
def matchUdpItem (packet : List UInt8) (context : EvalContext) (offset : Nat)
    (item : HeaderCustomUdpItem J) : Except IoError (Nat × List UInt8) := do
  let length ← measureUdpItem codecs item context.vars
  if offset + length < 2 ^ 64 then
    match checkedSlice packet offset (offset + length) with
    | none => .error (invalidInput "header-custom UDP packet is truncated")
    | some segment => do
      let expected ← expectedUdpItem codecs context item
      if expected.all (· = segment) then return (offset + length, segment)
      else .error (permissionDenied "header-custom UDP header mismatch")
  else .error headerOverflow

/-- `match_udp_items`, from an offset: the result, and the context that it leaves. -/
def matchUdpItems (packet : List UInt8) : List (HeaderCustomUdpItem J) → Nat → EvalContext →
    Except IoError Nat × EvalContext
  | [], offset, context => (.ok offset, context)
  | item :: items, offset, context =>
    match matchUdpItem codecs packet context offset item with
    | .ok (next, segment) => matchUdpItems packet items next (context.captureItem item segment)
    | .error e => (.error e, context)

end Items

/-! ### The codec -/

namespace UdpCustomCodec

variable {J : Type} (codecs : Codecs J) (codec : UdpCustomCodec J) (now : Nat)

/-- `is_standalone`. -/
def isStandalone : Bool := eqIgnoreAsciiCase codec.config.mode ("standalone" : Str)

/-- `expire_state`. -/
def expireState : UdpCustomCodec J :=
  if codec.expiresAt.any (· ≤ now) then
    { codec with context := { codec.context with vars := .empty }, expiresAt := none }
  else codec

/-- `touch`. -/
def touch : UdpCustomCodec J := { codec with expiresAt := some (now + 5 * 10 ^ 9) }

/-- `established`. -/
def established : Bool × UdpCustomCodec J :=
  let codec := codec.expireState now
  (codec.expiresAt.isSome, codec)

/-- The items that this side writes. -/
def ownItems : List (HeaderCustomUdpItem J) :=
  match codec.role with
  | .client => codec.config.client
  | .server => codec.config.server

/-- The items that this side matches. -/
def peerItems : List (HeaderCustomUdpItem J) :=
  match codec.role with
  | .client => codec.config.server
  | .server => codec.config.client

/-- `encode_prefix`. -/
def encodePrefix (payload : List UInt8) : Draw (Except IoError (List UInt8) × UdpCustomCodec J) :=
  if codec.isStandalone then pure (.ok payload, codec)
  else do
    let codec := codec.expireState now
    let (header, context) ← evaluateUdpItems codecs codec.ownItems [] codec.context
    let codec := { codec with context }
    match header with
    | .ok header => return (.ok (header ++ payload), codec.touch now)
    | .error e => return (.error e, codec)

/-- `decode_prefix`. -/
def decodePrefix (packet : List UInt8) : Except IoError (List UInt8) × UdpCustomCodec J :=
  if codec.isStandalone then (.ok packet, codec)
  else
    let codec := codec.expireState now
    match matchUdpItems codecs packet codec.peerItems 0 codec.context with
    | (.ok consumed, context) => (.ok (packet.drop consumed), { codec with context }.touch now)
    | (.error e, context) => (.error e, { codec with context })

/-- `accept_standalone_response`. -/
def acceptStandaloneResponse (packet : List UInt8) : Except IoError Bool × UdpCustomCodec J :=
  if ¬codec.isStandalone ∨ codec.role ≠ .client then
    (.error (invalidInput "header-custom standalone response used in the wrong role"), codec)
  else
    match measureUdpItems codecs codec.config.server codec.context.vars with
    | .error e => (.error e, codec)
    | .ok expected =>
      if packet.length ≠ expected then (.ok false, codec)
      else
        match matchUdpItems codecs packet codec.config.server 0 codec.context with
        | (.ok consumed, context) =>
          if consumed = packet.length then (.ok true, { codec with context }.touch now)
          else (.ok false, { codec with context })
        | (.error _, context) => (.ok false, { codec with context })

/-- `handle_standalone_server_packet`. -/
def handleStandaloneServerPacket (packet : List UInt8) :
    Draw (Except IoError StandaloneServerAction × UdpCustomCodec J) :=
  if ¬codec.isStandalone ∨ codec.role ≠ .server then
    pure (.error (invalidInput "header-custom standalone server used in the wrong role"), codec)
  else
    let codec := codec.expireState now
    match measureUdpItems codecs codec.config.client codec.context.vars with
    | .error _ => pure (.ok .drop, codec)
    | .ok expected =>
      if packet.length ≠ expected then pure (.ok (.payload packet), codec)
      else
        match matchUdpItems codecs packet codec.config.client 0 codec.context with
        | (.error _, context) => pure (.ok (.payload packet), { codec with context })
        | (.ok _, context) => do
          let (reply, context) ← evaluateUdpItems codecs codec.config.server [] context
          let codec := { codec with context }
          match reply with
          | .ok reply => return (.ok (.reply reply), codec.touch now)
          | .error e => return (.error e, codec)

end UdpCustomCodec

/-! ### What a packet leaves -/

section Trace

variable {J : Type} (codecs : Codecs J)

/-- The captures of the items before the first one that does not match. -/
def leadingCaptures (packet : List UInt8) : List (HeaderCustomUdpItem J) → Nat → EvalContext →
    List (Str × List UInt8)
  | [], _, _ => []
  | item :: items, offset, context =>
    match matchUdpItem codecs packet context offset item with
    | .ok (next, segment) =>
      item.captured segment ++ leadingCaptures packet items next (context.captureItem item segment)
    | .error _ => []

/-- Every variable that was captured ends with the bytes that it had. -/
def Settled (vars : Vars) (captures : List (Str × List UInt8)) : Prop :=
  ∀ name segment, (captures.reverse.find? fun e => e.1 = name).map Prod.snd = some segment →
    vars.get? name = some segment

/-- The variables are the same. -/
def SameVars (vars vars' : Vars) : Prop := ∀ name, vars.get? name = vars'.get? name

theorem matchUdpItems_context (packet : List UInt8) (items : List (HeaderCustomUdpItem J)) (offset : Nat)
    (context : EvalContext) :
    (matchUdpItems codecs packet items offset context).2 =
      { context with vars := context.vars.insertAll (leadingCaptures codecs packet items offset context) } := by
  induction items generalizing offset context with
  | nil => rfl
  | cons item items ih =>
    unfold matchUdpItems leadingCaptures
    cases hitem : matchUdpItem codecs packet context offset item with
    | error e => rfl
    | ok found =>
      dsimp only
      rw [ih]
      unfold EvalContext.captureItem AssocMap.insertAll
      rw [List.foldl_append]

theorem sameVars_insertAll_iff (vars : Vars) (captures : List (Str × List UInt8)) :
    SameVars (vars.insertAll captures) vars ↔ Settled vars captures := by
  unfold SameVars Settled
  constructor
  · intro h name segment hlast
    rw [← h name, AssocMap.get?_insertAll, hlast, Option.some_or]
  · intro h name
    rw [AssocMap.get?_insertAll]
    cases hlast : (captures.reverse.find? fun e => e.1 = name).map Prod.snd with
    | none => rfl
    | some segment => rw [h name segment hlast, Option.some_or]

theorem sameVars_matchUdpItems_iff (packet : List UInt8) (items : List (HeaderCustomUdpItem J)) (offset : Nat)
    (context : EvalContext) :
    SameVars (matchUdpItems codecs packet items offset context).2.vars context.vars ↔
      Settled context.vars (leadingCaptures codecs packet items offset context) := by
  rw [matchUdpItems_context]
  exact sameVars_insertAll_iff _ _

end Trace

/-! ### Packets that are not accepted -/

namespace UdpCustomCodec

variable {J : Type} (codecs : Codecs J) (codec : UdpCustomCodec J) (now : Nat) (packet : List UInt8)

/-- The items that match before the first that does not leave every variable as it is. -/
def LeavesNoTrace (items : List (HeaderCustomUdpItem J)) : Prop :=
  Settled codec.context.vars (leadingCaptures codecs packet items 0 codec.context)

/-- A packet of another length than the items make is not matched at all. -/
def StandaloneLeavesNoTrace (items : List (HeaderCustomUdpItem J)) : Prop :=
  measureUdpItems codecs items codec.context.vars = .ok packet.length → codec.LeavesNoTrace codecs packet items

theorem decodePrefix_rejected_iff {e : IoError} (h : (codec.decodePrefix codecs now packet).1 = .error e) :
    SameVars (codec.decodePrefix codecs now packet).2.context.vars (codec.expireState now).context.vars ↔
      (codec.expireState now).LeavesNoTrace codecs packet (codec.expireState now).peerItems := by
  unfold decodePrefix at h ⊢
  split at h
  · cases h
  next hmode =>
  rw [if_neg hmode]
  dsimp only at h ⊢
  have hvars := sameVars_matchUdpItems_iff codecs packet (codec.expireState now).peerItems 0
    (codec.expireState now).context
  unfold LeavesNoTrace
  cases hmatch : matchUdpItems codecs packet (codec.expireState now).peerItems 0
      (codec.expireState now).context with
  | mk result context =>
    rw [hmatch] at h hvars
    cases result with
    | ok consumed => cases h
    | error e' => exact hvars

theorem acceptStandaloneResponse_false_iff
    (h : (codec.acceptStandaloneResponse codecs now packet).1 = .ok false) :
    SameVars (codec.acceptStandaloneResponse codecs now packet).2.context.vars codec.context.vars ↔
      codec.StandaloneLeavesNoTrace codecs packet codec.config.server := by
  unfold acceptStandaloneResponse at h ⊢
  split at h
  · cases h
  next hrole =>
  rw [if_neg hrole]
  have hvars := sameVars_matchUdpItems_iff codecs packet codec.config.server 0 codec.context
  unfold StandaloneLeavesNoTrace LeavesNoTrace
  cases hmeasure : measureUdpItems codecs codec.config.server codec.context.vars with
  | error e =>
    rw [hmeasure] at h
    cases h
  | ok expected =>
    rw [hmeasure] at h
    dsimp only at h ⊢
    by_cases hlen : packet.length ≠ expected
    · rw [if_pos hlen]
      constructor
      · intro _ hok
        exact absurd (Except.ok.inj hok).symm hlen
      · intro _ name
        rfl
    · rw [if_neg hlen] at h ⊢
      rw [← not_not.mp hlen]
      cases hmatch : matchUdpItems codecs packet codec.config.server 0 codec.context with
      | mk result context =>
        rw [hmatch] at h hvars
        cases result with
        | error e => exact hvars.trans ⟨fun h _ => h, fun h => h rfl⟩
        | ok consumed =>
          dsimp only at h ⊢
          split at h
          · cases h
          · next hconsumed =>
            rw [if_neg hconsumed]
            exact hvars.trans ⟨fun h _ => h, fun h => h rfl⟩

theorem always_handleStandaloneServerPacket :
    Always (fun r => ∀ action, r.1 = .ok action → (∀ reply, action ≠ .reply reply) →
      (SameVars r.2.context.vars (codec.expireState now).context.vars ↔
        (codec.expireState now).StandaloneLeavesNoTrace codecs packet (codec.expireState now).config.client))
      (codec.handleStandaloneServerPacket codecs now packet) := by
  unfold handleStandaloneServerPacket
  split
  · exact always_pure nofun
  dsimp only
  have hvars := sameVars_matchUdpItems_iff codecs packet (codec.expireState now).config.client 0
    (codec.expireState now).context
  unfold StandaloneLeavesNoTrace LeavesNoTrace
  cases hmeasure : measureUdpItems codecs (codec.expireState now).config.client
      (codec.expireState now).context.vars with
  | error e =>
    apply always_pure
    intro action _ _
    exact ⟨fun _ => nofun, fun _ _ => rfl⟩
  | ok expected =>
    dsimp only
    by_cases hlen : packet.length ≠ expected
    · rw [if_pos hlen]
      apply always_pure
      intro action _ _
      exact ⟨fun _ hok => absurd (Except.ok.inj hok).symm hlen, fun _ _ => rfl⟩
    · rw [if_neg hlen, ← not_not.mp hlen]
      cases hmatch : matchUdpItems codecs packet (codec.expireState now).config.client 0
          (codec.expireState now).context with
      | mk result context =>
        rw [hmatch] at hvars
        cases result with
        | error e =>
          apply always_pure
          intro action _ _
          exact hvars.trans ⟨fun h _ => h, fun h => h rfl⟩
        | ok consumed =>
          have htrue : Always (fun _ => True)
              (evaluateUdpItems codecs (codec.expireState now).config.server [] context) := fun _ => trivial
          refine htrue.bind fun reply _ => ?_
          obtain ⟨reply, context'⟩ := reply
          cases reply with
          | error e => exact always_pure nofun
          | ok reply =>
            apply always_pure
            intro action haction hreply
            cases haction
            exact absurd rfl (hreply reply)

end UdpCustomCodec

/-! ### A forged packet -/

/-- A client sends a token of a byte and a fixed byte; the server answers with the token. -/
def tokenConfig : HeaderCustomUdpConfig (List UInt8) where
  mode := ("prefix" : Str)
  client := [{ rand := 1, capture := ("token" : Str) }, { packet := some [0xaa] }]
  server := [{ reuse := ("token" : Str) }]

/-- The server, after a packet with the token 7. -/
def tokenServer : UdpCustomCodec (List UInt8) where
  config := tokenConfig
  role := .server
  context := { vars := AssocMap.empty.insert ("token" : Str) [7], metadata := .empty }
  expiresAt := some 5

end WutherCore.Finalmask
