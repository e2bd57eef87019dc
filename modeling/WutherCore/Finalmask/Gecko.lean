import WutherCore.Finalmask.Salamander

/-!
# Finalmask: what comes out of Gecko

The packets of some payloads arrive in any order, several times or not at all.

* `Encoded`: the payloads and what was sent of them.
* `Receiving`: every entry holds fragments of one message, of which a fragment arrived within the
  lifetime; `Receiving.step`.
* `gecko_delivered`: as long as the packets that arrive within the lifetime of each other are of messages
  whose numbers differ by less than 256, only payloads come out, and a payload comes out if all of its
  packets arrive in time and its entry is not evicted.
* `gecko_mixed`: the number of a message is used again for the message 256 later, and then parts of both
  come out together.
-/

namespace WutherCore.Finalmask

open WutherCore.Data Draw
open WutherCore.Young (IoError invalidData Bytes)

/-- A packet that arrives: which it is, when, and the order in which the entries are iterated then. -/
structure Delivery where
  now : Nat
  order : Iteration UInt8 ReassemblyEntry
  message : Nat
  index : Nat

/-- The number of a message: how many payloads up to this one were sent in fragments. -/
def messageNumber (payloads : List (List UInt8)) (m : Nat) : Nat := (payloads.take (m + 1)).countP flagged

/-- The number as it is sent. -/
def messageId (payloads : List (List UInt8)) (m : Nat) : UInt8 := UInt8.ofNat (messageNumber payloads m)

section Model

variable (blake2b : List UInt8 → Bytes 32)

/-- The payloads are encoded one after another. -/
def SalamanderCodec.encodeAll (codec : SalamanderCodec) :
    List (List UInt8) → Draw (List (List (List UInt8)))
  | [] => pure []
  | payload :: payloads => do
    let (packets, codec) ← codec.encode blake2b payload
    let sent ← codec.encodeAll payloads
    pure (packets :: sent)

variable (sent : List (List (List UInt8)))

/-- The packet that arrives. -/
def Delivery.packet (d : Delivery) : List UInt8 := (sent.getD d.message []).getD d.index []

/-- The packet was sent. -/
def Delivery.Known (d : Delivery) : Prop :=
  d.message < sent.length ∧ d.index < (sent.getD d.message []).length

/-- A packet is decoded. -/
def SalamanderCodec.receive (codec : SalamanderCodec) (d : Delivery) :
    Except IoError (Option (List UInt8)) × SalamanderCodec :=
  codec.decode blake2b d.now d.order (d.packet sent)

/-- The codec after some packets. -/
def SalamanderCodec.after (codec : SalamanderCodec) (ds : List Delivery) : SalamanderCodec :=
  ds.foldl (fun codec d => (codec.receive blake2b sent d).2) codec

/-- The messages of which fragments are held at a time. -/
def SalamanderCodec.incomplete (codec : SalamanderCodec) (now : Nat) : AssocMap UInt8 ReassemblyEntry :=
  (codec.gecko.map (·.live now)).getD .empty

/-! ### What is required of the arrivals -/

variable (payloads : List (List UInt8))

/-- Packets that arrive within the lifetime of an entry are of messages with numbers that differ by less
than 256. -/
def Near (ds : List Delivery) : Prop :=
  ∀ d ∈ ds, ∀ d' ∈ ds, flagged (payloads.getD d.message []) = true →
    flagged (payloads.getD d'.message []) = true → d.now ≤ d'.now → d'.now < d.now + geckoReassemblyTtl →
    messageNumber payloads d.message < messageNumber payloads d'.message + 256 ∧
      messageNumber payloads d'.message < messageNumber payloads d.message + 256

/-- The packets of a message arrive within the lifetime of its entry. -/
def InTime (ds : List Delivery) (m : Nat) : Prop :=
  ∀ d ∈ ds, ∀ d' ∈ ds, d.message = m → d'.message = m → d'.now < d.now + geckoReassemblyTtl

/-- All packets of a message arrive. -/
def Complete (ds : List Delivery) (m : Nat) : Prop :=
  ∀ index < (sent.getD m []).length, ∃ d ∈ ds, d.message = m ∧ d.index = index

instance (ds : List Delivery) (m : Nat) : Decidable (InTime ds m) := by
  unfold InTime
  infer_instance

instance (ds : List Delivery) (m : Nat) : Decidable (Complete sent ds m) := by
  unfold Complete
  infer_instance

instance (d : Delivery) : Decidable (d.Known sent) := inferInstanceAs (Decidable (_ ∧ _))

/-- While a message is incomplete, no packet finds as many others incomplete as there is room for, and
begins one more. -/
def Roomy (codec : SalamanderCodec) (ds : List Delivery) (m : Nat) : Prop :=
  ∀ before d rest, ds = before ++ d :: rest → (∃ x ∈ before, x.message = m) → ¬Complete sent before m →
    flagged (payloads.getD d.message []) = true →
    ((codec.after blake2b sent before).incomplete d.now).contains (messageId payloads d.message) = true ∨
      ((codec.after blake2b sent before).incomplete d.now).size < geckoMaxReassembly

/-! ### The numbers of messages -/

variable {blake2b sent payloads}

theorem messageNumber_lt {m m' : Nat} (hlt : m < m') (h : flagged (payloads.getD m' []) = true) :
    messageNumber payloads m < messageNumber payloads m' := by
  have hm' : m' < payloads.length := by
    by_contra hge
    rw [List.getD_eq_default _ _ (by omega)] at h
    cases h
  have hsub : (payloads.take (m + 1)).Sublist (payloads.take m') :=
    (List.take_prefix_take_left (by omega)).sublist
  have hle := hsub.countP_le (p := flagged)
  rw [List.getD_eq_getElem _ _ hm'] at h
  rw [messageNumber, messageNumber, List.take_succ_eq_append_getElem hm', List.countP_append,
    List.countP_singleton, if_pos h]
  omega

theorem eq_of_messageNumber {m m' : Nat} (h : flagged (payloads.getD m []) = true)
    (h' : flagged (payloads.getD m' []) = true)
    (heq : messageNumber payloads m = messageNumber payloads m') : m = m' := by
  rcases Nat.lt_trichotomy m m' with hlt | hm | hlt
  · have hnum := messageNumber_lt hlt h'
    omega
  · exact hm
  · have hnum := messageNumber_lt hlt h
    omega

theorem Near.eq {ds : List Delivery} (hnear : Near payloads ds) {d d' : Delivery} (hd : d ∈ ds)
    (hd' : d' ∈ ds) (h : flagged (payloads.getD d.message []) = true)
    (h' : flagged (payloads.getD d'.message []) = true) (hle : d.now ≤ d'.now)
    (hlt : d'.now < d.now + geckoReassemblyTtl)
    (hid : messageId payloads d.message = messageId payloads d'.message) : d.message = d'.message := by
  obtain ⟨hnum, hnum'⟩ := hnear d hd d' hd' h h' hle hlt
  apply eq_of_messageNumber h h'
  have hmod := congrArg UInt8.toNat hid
  rw [messageId, messageId, UInt8.toNat_ofNat', UInt8.toNat_ofNat'] at hmod
  omega

/-! ### What was sent -/

/-- The payloads and what was sent of them: the parts of each are `parts`. -/
structure Encoded (blake2b : List UInt8 → Bytes 32) (password : List UInt8)
    (payloads : List (List UInt8)) (sent : List (List (List UInt8))) (parts : Nat → List (List UInt8)) :
    Prop where
  length_eq : sent.length = payloads.length
  sent : ∀ m payload packets, payloads[m]? = some payload → sent[m]? = some packets →
    Sent blake2b password (messageId payloads m) (parts m) payload packets

theorem Encoded.arrives {password : List UInt8} {parts : Nat → List (List UInt8)}
    (h : Encoded blake2b password payloads sent parts) {d : Delivery} (hknown : d.Known sent) :
    (sent.getD d.message [])[d.index]? = some (d.packet sent) ∧
      payloads[d.message]? = some (payloads.getD d.message []) ∧
      Sent blake2b password (messageId payloads d.message) (parts d.message)
        (payloads.getD d.message []) (sent.getD d.message []) := by
  obtain ⟨hmessage, hindex⟩ := hknown
  have hpayload : d.message < payloads.length := h.length_eq ▸ hmessage
  refine ⟨?_, ?_, ?_⟩
  · rw [Delivery.packet, List.getD_eq_getElem _ _ hindex, List.getElem?_eq_getElem hindex]
  · rw [List.getD_eq_getElem _ _ hpayload, List.getElem?_eq_getElem hpayload]
  · rw [List.getD_eq_getElem _ _ hpayload, List.getD_eq_getElem _ _ hmessage]
    exact h.sent _ _ _ (List.getElem?_eq_getElem hpayload) (List.getElem?_eq_getElem hmessage)

theorem Sent.of_not_flagged {password : List UInt8} {id id' : UInt8} {parts packets : List (List UInt8)}
    {payload : List UInt8} (h : Sent blake2b password id parts payload packets)
    (hflagged : flagged payload = false) : Sent blake2b password id' parts payload packets := by
  cases h with
  | empty => exact .empty
  | whole hne _ hpacket => exact .whole hne hflagged hpacket
  | cut htrue _ => simp [htrue] at hflagged

theorem always_encodeAll_from {codec : SalamanderCodec} {gecko : GeckoState}
    (hgecko : codec.gecko = some gecko) (payloads : List (List UInt8)) :
    Always (fun sent => sent.length = payloads.length ∧ ∀ m payload packets, payloads[m]? = some payload →
        sent[m]? = some packets → ∃ parts, Sent blake2b codec.password
          (gecko.nextMessageId + messageId payloads m) parts payload packets)
      (codec.encodeAll blake2b payloads) := by
  induction payloads generalizing codec gecko with
  | nil => exact always_pure ⟨rfl, fun m payload packets h => by simp at h⟩
  | cons first payloads ih =>
    unfold SalamanderCodec.encodeAll
    refine (SalamanderCodec.always_encode hgecko first).bind ?_
    rintro ⟨packets, codec'⟩ ⟨⟨parts, hsent⟩, hcodec⟩
    dsimp only at hsent hcodec ⊢
    have hnext : ∃ gecko', codec'.gecko = some gecko' ∧ codec'.password = codec.password ∧
        gecko'.nextMessageId = gecko.nextMessageId + (if flagged first then 1 else 0) := by
      rw [hcodec]
      split_ifs
      · exact ⟨_, rfl, rfl, rfl⟩
      · exact ⟨gecko, hgecko, rfl, by simp⟩
    obtain ⟨gecko', hgecko', hpassword, hid⟩ := hnext
    refine (ih hgecko').bind ?_
    rintro rest ⟨hlen, hrest⟩
    refine always_pure ⟨by rw [List.length_cons, List.length_cons, hlen], ?_⟩
    intro m payload packets' hpayload hpackets
    cases m with
    | zero =>
      cases hpayload
      cases hpackets
      refine ⟨parts, ?_⟩
      by_cases hflagged : flagged first = true
      · have hnumber : messageId (first :: payloads) 0 = 1 := by
          simp [messageId, messageNumber, hflagged]
        rwa [hnumber]
      · exact hsent.of_not_flagged (by simpa using hflagged)
    | succ m =>
      have hnumber : messageId (first :: payloads) (m + 1) =
          (if flagged first then 1 else 0) + messageId payloads m := by
        rw [messageId, messageNumber, List.take_succ_cons, List.countP_cons, UInt8.ofNat_add]
        split_ifs <;> exact UInt8.add_comm _ _
      rw [hnumber, ← UInt8.add_assoc, ← hid, ← hpassword]
      exact hrest m payload packets' hpayload hpackets

/-- **What was sent**, by a codec that has not sent anything in fragments before. -/
theorem exists_encoded {codec : SalamanderCodec} {gecko : GeckoState} (hgecko : codec.gecko = some gecko)
    (hzero : gecko.nextMessageId = 0) (payloads : List (List UInt8)) (draws : Draws) :
    ∃ parts, Encoded blake2b codec.password payloads
      ((codec.encodeAll blake2b payloads).run draws).1 parts := by
  obtain ⟨hlen, hsent⟩ := always_encodeAll_from hgecko payloads draws
  rw [hzero] at hsent
  simp only [UInt8.zero_add] at hsent
  have hparts : ∀ m, ∃ parts, ∀ payload packets, payloads[m]? = some payload →
      ((codec.encodeAll blake2b payloads).run draws).1[m]? = some packets →
      Sent blake2b codec.password (messageId payloads m) parts payload packets := by
    intro m
    cases hpayload : payloads[m]? with
    | none => exact ⟨[], fun payload packets h => by cases h⟩
    | some payload =>
      cases hpackets : ((codec.encodeAll blake2b payloads).run draws).1[m]? with
      | none => exact ⟨[], fun payload packets _ h => by cases h⟩
      | some packets =>
        obtain ⟨parts, h⟩ := hsent m payload packets hpayload hpackets
        exact ⟨parts, fun _ _ h₁ h₂ => by cases h₁; cases h₂; exact h⟩
  choose parts hparts using hparts
  exact ⟨parts, hlen, hparts⟩

/-! ### What the peer does with a packet -/

section Decode

variable {codec : SalamanderCodec} {gecko : GeckoState} {now : Nat}
  {order : Iteration UInt8 ReassemblyEntry} {id : UInt8} {payload : List UInt8}
  {parts packets : List (List UInt8)} {packet part : List UInt8} {i : Nat}

theorem Fragments.decode (h : Fragments blake2b codec.password id payload parts packets)
    (hgecko : codec.gecko = some gecko) (hpacket : packets[i]? = some packet)
    (hpart : parts[i]? = some part) :
    let r := gecko.reassemble now order ⟨id, UInt8.ofNat i, UInt8.ofNat parts.length⟩ part
    codec.decode blake2b now order packet = (r.1, { codec with gecko := some r.2 }) := by
  obtain ⟨frame, hopened, hflagged, hframe⟩ := h.frame i packet part hpacket hpart
  have hne : frame ≠ [] := by
    rintro rfl
    cases hflagged
  unfold SalamanderCodec.decode
  rw [hopened, hgecko]
  dsimp only
  rw [if_neg hne, if_pos hflagged, hframe]

theorem decode_whole (hne : payload ≠ []) (hflagged : flagged payload = false)
    (hpacket : deobfuscate blake2b codec.password packet = .ok payload) :
    codec.decode blake2b now order packet = (.ok (some payload), codec) := by
  unfold SalamanderCodec.decode
  rw [hpacket]
  cases codec.gecko with
  | none => rfl
  | some gecko =>
    dsimp only
    rw [if_neg hne, if_neg (by simp [hflagged])]

theorem makeRoom_eq_self {entries : AssocMap UInt8 ReassemblyEntry}
    (h : entries.contains id = true ∨ entries.size < geckoMaxReassembly) :
    makeRoom entries order id = entries := by
  unfold makeRoom
  rw [if_neg]
  rintro ⟨hnot, hle⟩
  rcases h with h | h
  · exact hnot h
  · omega

theorem get?_of_makeRoom {entries : AssocMap UInt8 ReassemblyEntry} {id' : UInt8} {entry : ReassemblyEntry}
    (h : (makeRoom entries order id).get? id' = some entry) : entries.get? id' = some entry := by
  unfold makeRoom at h
  split_ifs at h
  · cases hmin : entries.minBy order fun e => e.2.deadline with
    | none => rwa [hmin] at h
    | some oldest =>
      rw [hmin] at h
      exact (AssocMap.get?_erase_eq_some.1 h).1
  · exact h

theorem get?_live {entry : ReassemblyEntry} :
    (gecko.live now).get? id = some entry ↔ gecko.entries.get? id = some entry ∧ now < entry.deadline := by
  rw [GeckoState.live, AssocMap.get?_retain_eq_some, decide_eq_true_iff]

end Decode

/-! ### The entries -/

variable {password : List UInt8} {parts : Nat → List (List UInt8)}

/-- The peer after the packets `past`: each of its entries holds fragments of one message, and was made
when one of its packets arrived. -/
structure Receiving (password : List UInt8) (payloads : List (List UInt8))
    (parts : Nat → List (List UInt8)) (past : List Delivery) (codec : SalamanderCodec)
    (gecko : GeckoState) : Prop where
  password_eq : codec.password = password
  gecko_eq : codec.gecko = some gecko
  entry : ∀ id entry, gecko.entries.get? id = some entry → ∃ d ∈ past,
    flagged (payloads.getD d.message []) = true ∧ messageId payloads d.message = id ∧
      Holds (parts d.message) entry ∧ entry.deadline = d.now + geckoReassemblyTtl

section Run

variable {codec : SalamanderCodec} {gecko : GeckoState} {ds past : List Delivery} {d : Delivery}

theorem Receiving.holds (h : Receiving password payloads parts past codec gecko)
    (hnear : Near payloads ds) (hpast : past ⊆ ds) (hd : d ∈ ds) (hclock : ∀ x ∈ past, x.now ≤ d.now)
    (hflagged : flagged (payloads.getD d.message []) = true) {entry : ReassemblyEntry}
    (hentry : (gecko.live d.now).get? (messageId payloads d.message) = some entry) :
    Holds (parts d.message) entry := by
  obtain ⟨hget, hdeadline⟩ := get?_live.1 hentry
  obtain ⟨x, hx, hxflagged, hxid, hholds, hxdeadline⟩ := h.entry _ _ hget
  have hsame : x.message = d.message :=
    hnear.eq (hpast hx) hd hxflagged hflagged (hclock x hx) (by omega) hxid
  rwa [← hsame]

/-- **What the peer does with a packet**: a payload in one packet comes out; a fragment is kept in the
entry of its message, or completes it. -/
theorem Receiving.receive_cases (henc : Encoded blake2b password payloads sent parts)
    (h : Receiving password payloads parts past codec gecko) (hnear : Near payloads ds)
    (hpast : past ⊆ ds) (hd : d ∈ ds) (hknown : d.Known sent) (hclock : ∀ x ∈ past, x.now ≤ d.now) :
    let payload := payloads.getD d.message []
    let id := messageId payloads d.message
    let entries := makeRoom (gecko.live d.now) d.order id
    let entry := (entries.get? id).getD (.fresh (UInt8.ofNat (parts d.message).length) d.now)
    let r := codec.receive blake2b sent d
    payloads[d.message]? = some payload ∧
      (flagged payload = false ∧ r = (.ok (some payload), codec) ∨
      flagged payload = true ∧ (parts d.message).length = (sent.getD d.message []).length ∧
        ((∃ entry', r = (.ok none,
            { codec with gecko := some { gecko with entries := entries.insert id entry' } }) ∧
          Holds (parts d.message) entry' ∧ entry'.deadline = entry.deadline ∧
          ∀ j, entry'.Filled j ↔ entry.Filled j ∨ j = d.index) ∨
        r = (if 65535 < payload.length then
            .error (invalidData "gecko reassembled datagram exceeds 65535 bytes")
          else .ok (some payload),
          { codec with gecko := some { gecko with entries := entries.erase id } }))) := by
  intro payload id entries entry r
  obtain ⟨hpacket, hpayload, hsent⟩ := henc.arrives hknown
  refine ⟨hpayload, ?_⟩
  change Sent blake2b password id (parts d.message) payload _ at hsent
  generalize hp : payload = p at hsent
  generalize sent.getD d.message [] = packets at hsent hpacket
  cases hsent with
  | empty => simp at hpacket
  | @whole _ packet hne hflagged hopened =>
    left
    refine ⟨hflagged, ?_⟩
    have hsame : packet = d.packet sent := by
      rw [List.getElem?_singleton] at hpacket
      split_ifs at hpacket
      exact Option.some.inj hpacket
    rw [hsame, ← h.password_eq] at hopened
    exact decode_whole hne hflagged hopened
  | cut hflagged hfragments =>
    right
    subst hp
    refine ⟨hflagged, hfragments.length_eq.symm, ?_⟩
    have hindex : d.index < (parts d.message).length := by
      rw [← hfragments.length_eq]
      exact (List.getElem?_eq_some_iff.1 hpacket).1
    have hpart := List.getElem?_eq_getElem hindex
    have hr : r = _ := Fragments.decode (h.password_eq ▸ hfragments) h.gecko_eq hpacket hpart
    have hholds : ∀ entry, entries.get? id = some entry → Holds (parts d.message) entry :=
      fun entry hentry => h.holds hnear hpast hd hclock hflagged (get?_of_makeRoom hentry)
    rcases reassemble_cases hfragments.le_eight hpart hholds with ⟨entry', hkept, hrest⟩ | ⟨-, hdone⟩
    · left
      refine ⟨entry', ?_, hrest⟩
      rw [hr, hkept]
    · right
      rw [hr, hdone, hfragments.flatten_parts]

theorem Receiving.append (h : Receiving password payloads parts past codec gecko) (d : Delivery) :
    Receiving password payloads parts (past ++ [d]) codec gecko where
  password_eq := h.password_eq
  gecko_eq := h.gecko_eq
  entry := fun id entry hentry => by
    obtain ⟨x, hx, hrest⟩ := h.entry id entry hentry
    exact ⟨x, List.mem_append_left _ hx, hrest⟩

/-- **One packet**: what comes out is its payload, and the entries stay those of messages. -/
theorem Receiving.step (henc : Encoded blake2b password payloads sent parts)
    (h : Receiving password payloads parts past codec gecko) (hnear : Near payloads ds)
    (hpast : past ⊆ ds) (hd : d ∈ ds) (hknown : d.Known sent) (hclock : ∀ x ∈ past, x.now ≤ d.now) :
    (∃ gecko', Receiving password payloads parts (past ++ [d]) (codec.receive blake2b sent d).2 gecko') ∧
      ∀ out, (codec.receive blake2b sent d).1 = .ok (some out) → payloads[d.message]? = some out := by
  set id := messageId payloads d.message with hid
  -- what is left of the old entries
  have hold : ∀ id' entry, (makeRoom (gecko.live d.now) d.order id).get? id' = some entry →
      ∃ x ∈ past ++ [d], flagged (payloads.getD x.message []) = true ∧ messageId payloads x.message = id' ∧
        Holds (parts x.message) entry ∧ entry.deadline = x.now + geckoReassemblyTtl := by
    intro id' entry hentry
    exact (h.append d).entry id' entry (get?_live.1 (get?_of_makeRoom hentry)).1
  obtain ⟨hpayload, hwhole | ⟨hflagged, -, hcases⟩⟩ := h.receive_cases henc hnear hpast hd hknown hclock
  · rw [hwhole.2]
    refine ⟨⟨gecko, h.append d⟩, fun out hout => ?_⟩
    cases hout
    exact hpayload
  · rcases hcases with ⟨entry', hr, hholds, hdeadline, -⟩ | hr
    · rw [hr]
      refine ⟨⟨_, h.password_eq, rfl, fun id' entry hentry => ?_⟩, fun out hout => by cases hout⟩
      by_cases hsame : id' = id
      · subst hsame
        rw [AssocMap.get?_insert_self] at hentry
        obtain rfl := Option.some.inj hentry
        cases hfound : (makeRoom (gecko.live d.now) d.order id).get? id with
        | none =>
          rw [← hid, hfound] at hdeadline
          exact ⟨d, by simp, hflagged, rfl, hholds, hdeadline⟩
        | some found =>
          rw [← hid, hfound, Option.getD_some] at hdeadline
          obtain ⟨hget, hlive⟩ := get?_live.1 (get?_of_makeRoom hfound)
          obtain ⟨x, hx, hxflagged, hxid, -, hxdeadline⟩ := h.entry id found hget
          have hmessage : x.message = d.message :=
            hnear.eq (hpast hx) hd hxflagged hflagged (hclock x hx) (by omega) hxid
          refine ⟨x, List.mem_append_left _ hx, hxflagged, hxid, ?_, hdeadline.trans hxdeadline⟩
          rwa [hmessage]
      · rw [AssocMap.get?_insert_of_ne _ _ hsame] at hentry
        exact hold id' entry hentry
    · rw [hr]
      refine ⟨⟨_, h.password_eq, rfl, fun id' entry hentry => ?_⟩, fun out hout => ?_⟩
      · exact hold id' entry (AssocMap.get?_erase_eq_some.1 hentry).1
      · split_ifs at hout with hbig
        cases hout
        exact hpayload

/-! ### A run -/

theorem after_append (codec : SalamanderCodec) (before : List Delivery) (d : Delivery) :
    codec.after blake2b sent (before ++ [d]) =
      ((codec.after blake2b sent before).receive blake2b sent d).2 := by
  rw [SalamanderCodec.after, List.foldl_append]
  rfl

/-- The arrivals are those of packets that were sent, in the order of time, and the messages that arrive
together have numbers of their own. -/
structure Arrivals (payloads : List (List UInt8)) (sent : List (List (List UInt8))) (ds : List Delivery) :
    Prop where
  clock : (ds.map Delivery.now).Pairwise (· ≤ ·)
  known : ∀ d ∈ ds, d.Known sent
  near : Near payloads ds

theorem Arrivals.clock_le (h : Arrivals payloads sent ds) {before rest : List Delivery}
    (hds : ds = before ++ d :: rest) : ∀ x ∈ before, x.now ≤ d.now := by
  intro x hx
  have hclock := h.clock
  rw [hds, List.map_append, List.map_cons] at hclock
  exact (List.pairwise_append.1 hclock).2.2 _ (List.mem_map_of_mem hx) _ List.mem_cons_self

theorem Arrivals.le_clock (h : Arrivals payloads sent ds) {before rest : List Delivery}
    (hds : ds = before ++ d :: rest) : ∀ x ∈ d :: rest, d.now ≤ x.now := by
  intro x hx
  have hclock := h.clock
  rw [hds, List.map_append, List.map_cons] at hclock
  rcases List.mem_cons.1 hx with rfl | hx
  · exact Nat.le_refl _
  · exact (List.pairwise_cons.1 (List.pairwise_append.1 hclock).2.1).1 _ (List.mem_map_of_mem hx)

/-- **Every run keeps the entries of messages apart.** -/
theorem Receiving.run (henc : Encoded blake2b password payloads sent parts)
    (harr : Arrivals payloads sent ds) (hstart : Receiving password payloads parts [] codec gecko)
    {before rest : List Delivery} (hds : ds = before ++ rest) :
    ∃ gecko', Receiving password payloads parts before (codec.after blake2b sent before) gecko' := by
  induction before using List.reverseRecOn generalizing rest with
  | nil => exact ⟨gecko, hstart⟩
  | append_singleton before d ih =>
    rw [List.append_assoc, List.singleton_append] at hds
    obtain ⟨gecko', h⟩ := ih hds
    have hd : d ∈ ds := by simp [hds]
    have hpast : before ⊆ ds := by simp [hds]
    rw [after_append]
    exact (h.step henc harr.near hpast hd (harr.known d hd) (harr.clock_le hds)).1

/-- The fragments of a message that have arrived are held in its entry. -/
def Held (payloads : List (List UInt8)) (parts : Nat → List (List UInt8)) (m : Nat) (past : List Delivery)
    (gecko : GeckoState) : Prop :=
  ∃ first ∈ past, first.message = m ∧ ∃ entry, gecko.entries.get? (messageId payloads m) = some entry ∧
    Holds (parts m) entry ∧ entry.deadline = first.now + geckoReassemblyTtl ∧
    ∀ j, entry.Filled j ↔ ∃ x ∈ past, x.message = m ∧ x.index = j

/-- A packet of another message leaves the entry alone, as long as there is room. -/
theorem Held.other {m : Nat} (henc : Encoded blake2b password payloads sent parts)
    (h : Receiving password payloads parts past codec gecko) (hheld : Held payloads parts m past gecko)
    (hflagged : flagged (payloads.getD m []) = true) (hnear : Near payloads ds) (hpast : past ⊆ ds)
    (hd : d ∈ ds) (hknown : d.Known sent) (hclock : ∀ x ∈ past, x.now ≤ d.now) (hne : d.message ≠ m)
    (htime : ∀ x ∈ past, x.message = m → d.now < x.now + geckoReassemblyTtl)
    (hroom : flagged (payloads.getD d.message []) = true →
      (gecko.live d.now).contains (messageId payloads d.message) = true ∨
        (gecko.live d.now).size < geckoMaxReassembly) :
    ∃ gecko', (codec.receive blake2b sent d).2.gecko = some gecko' ∧
      Held payloads parts m (past ++ [d]) gecko' := by
  obtain ⟨first, hfirst, hmessage, entry, hentry, hholds, hdeadline, hfilled⟩ := hheld
  have hfilled' : ∀ j, entry.Filled j ↔ ∃ x ∈ past ++ [d], x.message = m ∧ x.index = j := by
    intro j
    rw [hfilled j]
    simp [or_and_right, exists_or, hne]
  obtain ⟨-, hwhole | ⟨hdflagged, -, hcases⟩⟩ := h.receive_cases henc hnear hpast hd hknown hclock
  · rw [hwhole.2]
    exact ⟨gecko, h.gecko_eq, first, List.mem_append_left _ hfirst, hmessage, entry, hentry, hholds,
      hdeadline, hfilled'⟩
  · -- the other message has another number
    have hlive := htime first hfirst hmessage
    have hid : messageId payloads m ≠ messageId payloads d.message := by
      intro hid
      subst hmessage
      exact hne (hnear.eq (hpast hfirst) hd hflagged hdflagged (hclock first hfirst) hlive hid).symm
    have hkept : (makeRoom (gecko.live d.now) d.order (messageId payloads d.message)).get?
        (messageId payloads m) = some entry := by
      rw [makeRoom_eq_self (hroom hdflagged)]
      exact get?_live.2 ⟨hentry, by omega⟩
    rcases hcases with ⟨entry', hr, -⟩ | hr
    · rw [hr]
      refine ⟨_, rfl, first, List.mem_append_left _ hfirst, hmessage, entry, ?_, hholds, hdeadline, hfilled'⟩
      dsimp only
      rw [AssocMap.get?_insert_of_ne _ _ hid, hkept]
    · rw [hr]
      refine ⟨_, rfl, first, List.mem_append_left _ hfirst, hmessage, entry, ?_, hholds, hdeadline, hfilled'⟩
      dsimp only
      rw [AssocMap.get?_erase_of_ne _ hid, hkept]

/-- A packet of the message is put into its entry, a new one if it is the first, or completes it. -/
theorem Held.own (henc : Encoded blake2b password payloads sent parts)
    (h : Receiving password payloads parts past codec gecko)
    (hheld : (∀ x ∈ past, x.message ≠ d.message) ∨ Held payloads parts d.message past gecko)
    (hflagged : flagged (payloads.getD d.message []) = true) (hnear : Near payloads ds) (hpast : past ⊆ ds)
    (hd : d ∈ ds) (hknown : d.Known sent) (hclock : ∀ x ∈ past, x.now ≤ d.now)
    (htime : ∀ x ∈ past, x.message = d.message → d.now < x.now + geckoReassemblyTtl)
    (hsmall : (payloads.getD d.message []).length ≤ 65535) :
    (codec.receive blake2b sent d).1 = .ok (some (payloads.getD d.message [])) ∨
      ∃ gecko', (codec.receive blake2b sent d).2.gecko = some gecko' ∧
        Held payloads parts d.message (past ++ [d]) gecko' := by
  obtain ⟨-, hwhole | ⟨-, -, hcases⟩⟩ := h.receive_cases henc hnear hpast hd hknown hclock
  · rw [hflagged] at hwhole
    cases hwhole.1
  rcases hcases with ⟨entry', hr, hholds, hdeadline, hfilled⟩ | hr
  · right
    rw [hr]
    have hboth : ∀ j, (∃ x ∈ past ++ [d], x.message = d.message ∧ x.index = j) ↔
        (∃ x ∈ past, x.message = d.message ∧ x.index = j) ∨ j = d.index := by
      intro j
      simp [or_and_right, exists_or, eq_comm]
    rcases hheld with hnew | ⟨first, hfirst, hmessage, entry, hentry, -, hfirstDeadline, hfirstFilled⟩
    · -- there is no entry of this number, since it would be one of the message
      have hnone : (makeRoom (gecko.live d.now) d.order (messageId payloads d.message)).get?
          (messageId payloads d.message) = none := by
        rw [Option.eq_none_iff_forall_ne_some]
        intro found hfound
        obtain ⟨hget, hlive⟩ := get?_live.1 (get?_of_makeRoom hfound)
        obtain ⟨x, hx, hxflagged, hxid, -, hxdeadline⟩ := h.entry _ found hget
        exact hnew x hx (hnear.eq (hpast hx) hd hxflagged hflagged (hclock x hx) (by omega) hxid)
      rw [hnone, Option.getD_none] at hdeadline hfilled
      refine ⟨_, rfl, d, by simp, rfl, entry', AssocMap.get?_insert_self _ _ _, hholds, hdeadline, ?_⟩
      intro j
      rw [hfilled j, hboth j]
      have hnot : ¬∃ x ∈ past, x.message = d.message ∧ x.index = j := by
        rintro ⟨x, hx, hxm, -⟩
        exact hnew x hx hxm
      simp [not_filled_fresh, hnot]
    · have hlive := htime first hfirst hmessage
      have hget : (gecko.live d.now).get? (messageId payloads d.message) = some entry :=
        get?_live.2 ⟨hentry, by omega⟩
      have hsome : (makeRoom (gecko.live d.now) d.order (messageId payloads d.message)).get?
          (messageId payloads d.message) = some entry := by
        rw [makeRoom_eq_self (.inl (by rw [AssocMap.contains, hget, Option.isSome_some])), hget]
      rw [hsome, Option.getD_some] at hdeadline hfilled
      refine ⟨_, rfl, first, List.mem_append_left _ hfirst, hmessage, entry',
        AssocMap.get?_insert_self _ _ _, hholds, hdeadline.trans hfirstDeadline, ?_⟩
      intro j
      rw [hfilled j, hboth j, hfirstFilled j]
  · left
    rw [hr]
    dsimp only
    rw [if_neg (by omega)]

/-- A message that is cut comes out, if all of its packets arrive in time and its entry stays. -/
theorem exists_output_of_flagged {m : Nat} (henc : Encoded blake2b password payloads sent parts)
    (harr : Arrivals payloads sent ds) (hstart : Receiving password payloads parts [] codec gecko)
    (hflagged : flagged (payloads.getD m []) = true) (hsmall : (payloads.getD m []).length ≤ 65535)
    (hparts : (parts m).length = (sent.getD m []).length) (hpos : 0 < (parts m).length)
    (hcomplete : Complete sent ds m) (htime : InTime ds m)
    (hroom : Roomy blake2b sent payloads codec ds m) (rest : List Delivery) :
    ∀ before, ds = before ++ rest →
      ((∀ x ∈ before, x.message ≠ m) ∨ ∃ gecko', (codec.after blake2b sent before).gecko = some gecko' ∧
        Held payloads parts m before gecko') →
      ∃ before' d rest', ds = before' ++ d :: rest' ∧ d.message = m ∧
        ((codec.after blake2b sent before').receive blake2b sent d).1 =
          .ok (some (payloads.getD m [])) := by
  -- a fragment that is missing arrives later
  have hlater : ∀ before rest, ds = before ++ rest →
      ((∀ x ∈ before, x.message ≠ m) ∨ ∃ gecko', (codec.after blake2b sent before).gecko = some gecko' ∧
        Held payloads parts m before gecko') →
      ∃ j < (sent.getD m []).length, (∀ x ∈ before, x.message = m → x.index ≠ j) ∧
        ∃ x ∈ rest, x.message = m := by
    intro before rest hds hstate
    have hmissing : ∃ j < (sent.getD m []).length, ∀ x ∈ before, x.message = m → x.index ≠ j := by
      rcases hstate with hnew | ⟨gecko', -, first, -, -, entry, -, hholds, -, hfilled⟩
      · exact ⟨0, by omega, fun x hx hxm => absurd hxm (hnew x hx)⟩
      · obtain ⟨j, hj, hnot⟩ := hholds.missing
        refine ⟨j, by omega, fun x hx hxm hxj => hnot ((hfilled j).2 ⟨x, hx, hxm, hxj⟩)⟩
    obtain ⟨j, hj, hnot⟩ := hmissing
    obtain ⟨x, hx, hxm, hxj⟩ := hcomplete j hj
    rw [hds, List.mem_append] at hx
    rcases hx with hx | hx
    · exact absurd hxj (hnot x hx hxm)
    · exact ⟨j, hj, hnot, x, hx, hxm⟩
  induction rest with
  | nil =>
    intro before hds hstate
    obtain ⟨-, -, -, x, hx, -⟩ := hlater before [] hds hstate
    exact absurd hx List.not_mem_nil
  | cons d rest ih =>
    intro before hds hstate
    have hd : d ∈ ds := by simp [hds]
    have hpast : before ⊆ ds := by simp [hds]
    have hclock := harr.clock_le hds
    obtain ⟨gecko', hreceiving⟩ := Receiving.run henc harr hstart hds
    obtain ⟨j, hj, hnot, later, hmem, hlast⟩ := hlater before (d :: rest) hds hstate
    have hsoon : ∀ x ∈ before, x.message = m → d.now < x.now + geckoReassemblyTtl := by
      intro x hx hxm
      have hle := harr.le_clock hds later hmem
      have hlt := htime x (hpast hx) later (by rw [hds]; exact List.mem_append_right _ hmem) hxm hlast
      omega
    have hnext : ds = (before ++ [d]) ++ rest := by rw [hds, List.append_assoc, List.singleton_append]
    by_cases hm : d.message = m
    · subst hm
      have hheld : (∀ x ∈ before, x.message ≠ d.message) ∨
          Held payloads parts d.message before gecko' := by
        rcases hstate with hnew | ⟨gecko'', hgecko, hheld⟩
        · exact .inl hnew
        · rw [hreceiving.gecko_eq] at hgecko
          exact .inr (Option.some.inj hgecko ▸ hheld)
      rcases Held.own henc hreceiving hheld hflagged harr.near hpast hd (harr.known d hd) hclock hsoon hsmall
        with hout | hheld'
      · exact ⟨before, d, rest, hds, rfl, hout⟩
      · refine ih (before ++ [d]) hnext (.inr ?_)
        rw [after_append]
        exact hheld'
    · refine ih (before ++ [d]) hnext ?_
      rcases hstate with hnew | ⟨gecko'', hgecko, hheld⟩
      · left
        intro x hx
        rcases List.mem_append.1 hx with hx | hx
        · exact hnew x hx
        · rw [List.mem_singleton.1 hx]
          exact hm
      · right
        rw [after_append]
        rw [hreceiving.gecko_eq] at hgecko
        obtain rfl := Option.some.inj hgecko
        obtain ⟨first, hfirst, hmessage, hrest⟩ := hheld
        refine Held.other henc hreceiving ⟨first, hfirst, hmessage, hrest⟩ hflagged harr.near hpast hd
          (harr.known d hd) hclock hm hsoon ?_
        intro hdflagged
        have hincomplete : ¬Complete sent before m := by
          intro hall
          obtain ⟨x, hx, hxm, hxj⟩ := hall j hj
          exact hnot x hx hxm hxj
        have hspace := hroom before d rest hds ⟨first, hfirst, hmessage⟩ hincomplete hdflagged
        simpa [SalamanderCodec.incomplete, hreceiving.gecko_eq] using hspace

end Run

end Model

/-- **What comes out of Gecko.**  The peers have one configuration.  Packets of some payloads arrive, in
any order, several times or not at all; those that arrive within the lifetime of an entry of each other
are of messages whose numbers differ by less than 256.  Then what comes out when a packet arrives is its
payload.  And a payload that is not empty and not longer than 65535 bytes comes out if all of its packets
arrive within the lifetime of its entry and, until they have arrived, no packet begins a ninth message
while eight are incomplete. -/
theorem gecko_delivered (blake2b : List UInt8 → Bytes 32) (config : SalamanderMaskConfig)
    (codec : SalamanderCodec) (hnew : SalamanderCodec.new config = .ok codec)
    (hgecko : codec.gecko.isSome = true) (payloads : List (List UInt8)) (draws : Draws)
    (sent : List (List (List UInt8))) (hsent : ((codec.encodeAll blake2b payloads).run draws).1 = sent)
    (ds : List Delivery) (harr : Arrivals payloads sent ds) :
    (∀ before d rest, ds = before ++ d :: rest → ∀ out,
      ((codec.after blake2b sent before).receive blake2b sent d).1 = .ok (some out) →
        payloads[d.message]? = some out) ∧
    ∀ m payload, payloads[m]? = some payload → payload ≠ [] → payload.length ≤ 65535 →
      Complete sent ds m → InTime ds m → Roomy blake2b sent payloads codec ds m →
      ∃ before d rest, ds = before ++ d :: rest ∧ d.message = m ∧
        ((codec.after blake2b sent before).receive blake2b sent d).1 = .ok (some payload) := by
  obtain ⟨gecko, hsome⟩ := Option.isSome_iff_exists.1 hgecko
  obtain ⟨hzero, hempty⟩ := (SalamanderCodec.new_eq_ok hnew).2 gecko hsome
  obtain ⟨parts, henc⟩ := exists_encoded hsome hzero payloads draws
  rw [hsent] at henc
  have hstart : Receiving codec.password payloads parts [] codec gecko :=
    ⟨rfl, hsome, fun id entry hentry => by rw [hempty] at hentry; cases hentry⟩
  constructor
  · intro before d rest hds
    obtain ⟨gecko', hreceiving⟩ := Receiving.run henc harr hstart hds
    have hd : d ∈ ds := by simp [hds]
    exact (hreceiving.step henc harr.near (by simp [hds]) hd (harr.known d hd) (harr.clock_le hds)).2
  · intro m payload hpayload hne hsmall hcomplete htime hroom
    have hget : payloads.getD m [] = payload := by rw [List.getD_eq_getElem?_getD, hpayload, Option.getD_some]
    have hm : m < sent.length := by
      rw [henc.length_eq]
      exact (List.getElem?_eq_some_iff.1 hpayload).1
    have hsentm := henc.sent m payload _ hpayload (List.getElem?_eq_getElem hm)
    have hgetSent : sent.getD m [] = sent[m] := List.getD_eq_getElem _ _ hm
    generalize sent[m] = packets at hsentm hgetSent
    cases hsentm with
    | empty => exact absurd rfl hne
    | whole _ hflagged hopened =>
      -- the one packet of the payload arrives
      obtain ⟨d, hd, rfl, -⟩ := hcomplete 0 (by rw [hgetSent]; simp)
      obtain ⟨before, rest, hds⟩ := List.append_of_mem hd
      obtain ⟨gecko', hreceiving⟩ := Receiving.run henc harr hstart hds
      refine ⟨before, d, rest, hds, rfl, ?_⟩
      obtain ⟨-, hwhole | ⟨hcut, -⟩⟩ := hreceiving.receive_cases henc harr.near (by simp [hds]) hd
        (harr.known d hd) (harr.clock_le hds)
      · rw [hwhole.2, hget]
      · rw [hget, hflagged] at hcut
        cases hcut
    | cut hflagged hfragments =>
      have htwo := hfragments.two_le
      unfold geckoMinFragmentChunks at htwo
      have hout := exists_output_of_flagged henc harr hstart (m := m) (by rw [hget]; exact hflagged)
        (by rw [hget]; exact hsmall) (by rw [hgetSent]; exact hfragments.length_eq.symm) (by omega)
        hcomplete htime hroom ds [] rfl (.inl fun x hx => absurd hx List.not_mem_nil)
      rwa [hget] at hout

/-! ### Numbers that are used again -/

/-- A hash. -/
def zeroHash (_ : List UInt8) : Bytes 32 := ⟨List.replicate 32 0, by simp⟩

/-- A configuration that adds no padding. -/
def geckoConfig : SalamanderMaskConfig := ⟨[1, 2, 3, 4], ⟨1, 1⟩⟩

/-- The codec of the configuration, with the number of the last message. -/
def geckoCodec (nextMessageId : UInt8) : SalamanderCodec :=
  ⟨[1, 2, 3, 4], some { minPacket := 1, maxPacket := 1, nextMessageId, maxPacket_le := by decide }⟩

theorem new_geckoConfig : SalamanderCodec.new geckoConfig = .ok (geckoCodec 0) := rfl

/-- A generator that draws the least number each time. -/
def zeroDraws : Draws := fun _ => 0

theorem encode_filler (messageId : UInt8) :
    (((geckoCodec messageId).encode zeroHash [0x80, 0]).run zeroDraws).1.2 = geckoCodec (messageId + 1) ∧
      (((geckoCodec messageId).encode zeroHash [0x80, 0]).run zeroDraws).2 = zeroDraws := ⟨rfl, rfl⟩

theorem encodeAll_cons (blake2b : List UInt8 → Bytes 32) (codec : SalamanderCodec) (payload : List UInt8)
    (payloads : List (List UInt8)) (draws : Draws) :
    ((codec.encodeAll blake2b (payload :: payloads)).run draws).1 =
      ((codec.encode blake2b payload).run draws).1.1 ::
        ((((codec.encode blake2b payload).run draws).1.2.encodeAll blake2b payloads).run
          ((codec.encode blake2b payload).run draws).2).1 := rfl

theorem encodeAll_fillers (messageId : UInt8) (n : Nat) (payloads : List (List UInt8)) :
    ∃ fillers, fillers.length = n ∧
      (((geckoCodec messageId).encodeAll zeroHash (List.replicate n [0x80, 0] ++ payloads)).run zeroDraws).1 =
        fillers ++ (((geckoCodec (messageId + UInt8.ofNat n)).encodeAll zeroHash payloads).run
          zeroDraws).1 := by
  induction n generalizing messageId with
  | zero =>
    refine ⟨[], rfl, ?_⟩
    rw [List.replicate_zero, List.nil_append, List.nil_append]
    simp
  | succ n ih =>
    obtain ⟨fillers, hlen, hrest⟩ := ih (messageId + 1)
    obtain ⟨hcodec, hdraws⟩ := encode_filler messageId
    refine ⟨(((geckoCodec messageId).encode zeroHash [0x80, 0]).run zeroDraws).1.1 :: fillers,
      by rw [List.length_cons, hlen], ?_⟩
    rw [List.replicate_succ, List.cons_append, encodeAll_cons, hcodec, hdraws, hrest, UInt8.add_assoc,
      UInt8.add_comm 1, ← UInt8.ofNat_one, ← UInt8.ofNat_add, List.cons_append]

/-- A payload that is cut, 255 others, and one more. -/
def manyPayloads : List (List UInt8) :=
  [0x81, 1] :: (List.replicate 255 [0x80, 0] ++ [[0x80, 2]])

/-- What is sent of them. -/
def manySent : List (List (List UInt8)) :=
  (((geckoCodec 0).encodeAll zeroHash manyPayloads).run zeroDraws).1

/-- The first fragment of the first payload, and the second one of the last. -/
def firstFragment : Delivery := ⟨0, .listed, 0, 0⟩

def lastFragment : Delivery := ⟨0, .listed, 256, 1⟩

/-- The messages 1 and 257 have one number, and parts of both come out together. -/
theorem gecko_mixed : SalamanderCodec.new geckoConfig = .ok (geckoCodec 0) ∧
    firstFragment.Known manySent ∧ lastFragment.Known manySent ∧
    (((geckoCodec 0).after zeroHash manySent [firstFragment]).receive zeroHash manySent lastFragment).1 =
      .ok (some [0x81, 2]) ∧
    [0x81, 2] ∉ manyPayloads := by
  obtain ⟨fillers, hlen, hfillers⟩ := encodeAll_fillers 1 255 [[0x80, 2]]
  have hsent : manySent = [List.replicate 8 0 ++ [0x80, 1, 2, 0, 0, 0x81],
      List.replicate 8 0 ++ [0x80, 1, 18, 0, 0, 1]] :: (fillers ++
        [[List.replicate 8 0 ++ [0x80, 1, 2, 0, 0, 0x80], List.replicate 8 0 ++ [0x80, 1, 18, 0, 0, 2]]]) := by
    have hhead : ((geckoCodec 0).encode zeroHash [0x81, 1]).run zeroDraws =
        (([List.replicate 8 0 ++ [0x80, 1, 2, 0, 0, 0x81], List.replicate 8 0 ++ [0x80, 1, 18, 0, 0, 1]],
          geckoCodec 1), zeroDraws) := rfl
    have hend : (((geckoCodec (1 + UInt8.ofNat 255)).encodeAll zeroHash [[0x80, 2]]).run zeroDraws).1 =
        [[List.replicate 8 0 ++ [0x80, 1, 2, 0, 0, 0x80], List.replicate 8 0 ++ [0x80, 1, 18, 0, 0, 2]]] :=
      rfl
    rw [manySent, manyPayloads, encodeAll_cons, hhead, hfillers, hend]
  have hfirst : firstFragment.packet manySent = List.replicate 8 0 ++ [0x80, 1, 2, 0, 0, 0x81] := by
    rw [hsent]
    simp only [Delivery.packet, firstFragment, List.getD_cons_zero]
  have hget : manySent.getD 256 [] =
      [List.replicate 8 0 ++ [0x80, 1, 2, 0, 0, 0x80], List.replicate 8 0 ++ [0x80, 1, 18, 0, 0, 2]] := by
    rw [hsent, List.getD_cons_succ, List.getD_append_right _ _ _ _ (by omega), hlen, Nat.sub_self,
      List.getD_cons_zero]
  have hlast : lastFragment.packet manySent = List.replicate 8 0 ++ [0x80, 1, 18, 0, 0, 2] := by
    rw [Delivery.packet, lastFragment]
    dsimp only
    rw [hget, List.getD_cons_succ, List.getD_cons_zero]
  refine ⟨new_geckoConfig, ?_, ?_, ?_, ?_⟩
  · rw [hsent]
    exact ⟨by simp [firstFragment], by simp [firstFragment]⟩
  · refine ⟨?_, ?_⟩
    · rw [hsent]
      simp [lastFragment, hlen]
    · unfold lastFragment
      rw [hget]
      simp
  · unfold SalamanderCodec.after
    rw [List.foldl_cons, List.foldl_nil, SalamanderCodec.receive, hlast, SalamanderCodec.receive, hfirst]
    decide +kernel
  · rw [manyPayloads, List.mem_cons, List.mem_append, List.mem_replicate, List.mem_singleton]
    rintro (h | ⟨-, h⟩ | h)
    · exact absurd h (by decide)
    · exact absurd h (by decide)
    · exact absurd h (by decide)

/-! ### Fragments in the other order -/

/-- Two payloads, of which the first is cut. -/
def twoPayloads : List (List UInt8) := [[0x80, 7], [5]]

/-- What is sent of them. -/
def twoSent : List (List (List UInt8)) := (((geckoCodec 0).encodeAll zeroHash twoPayloads).run zeroDraws).1

/-- The fragments arrive last first, one of them twice. -/
def twoDeliveries : List Delivery :=
  [⟨0, .listed, 0, 1⟩, ⟨1, .listed, 0, 1⟩, ⟨2, .listed, 1, 0⟩, ⟨3, .listed, 0, 0⟩]

theorem gecko_delivered_two : Arrivals twoPayloads twoSent twoDeliveries ∧
    ∃ before d rest, twoDeliveries = before ++ d :: rest ∧ d.message = 0 ∧
      (((geckoCodec 0).after zeroHash twoSent before).receive zeroHash twoSent d).1 =
        .ok (some [0x80, 7]) := by
  have harr : Arrivals twoPayloads twoSent twoDeliveries := by
    refine ⟨by decide, by decide, fun d hd d' hd' h h' _ _ => ?_⟩
    -- only one of the payloads is cut
    have hsame : ∀ d ∈ twoDeliveries, flagged (twoPayloads.getD d.message []) = true → d.message = 0 := by
      decide
    rw [hsame d hd h, hsame d' hd' h']
    decide
  refine ⟨harr, ?_⟩
  refine (gecko_delivered zeroHash geckoConfig (geckoCodec 0) new_geckoConfig rfl twoPayloads zeroDraws
    twoSent rfl twoDeliveries harr).2 0 [0x80, 7] rfl (by decide) (by decide) ?_ ?_ ?_
  · decide
  · decide
  · -- every packet that arrives while fragments are held finds their entry
    intro before d rest hds hbegun hincomplete hflagged
    left
    match before with
    | [] => simp at hbegun
    | [x] =>
      cases hds
      decide
    | [x, y] =>
      cases hds
      cases hflagged
    | [x, y, z] =>
      cases hds
      decide
    | x :: y :: z :: w :: before =>
      have hlen := congrArg List.length hds
      simp only [twoDeliveries, List.length_append, List.length_cons, List.length_nil] at hlen
      omega

end WutherCore.Finalmask
