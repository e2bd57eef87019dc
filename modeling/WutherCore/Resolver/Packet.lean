import WutherCore.Data.Buffer
import WutherCore.Data.Loop
import WutherCore.Net.Addr
import WutherCore.Ruleset.Srs

/-!
# DNS answers made from the request

`parseFirstQuestion` reads the question of a request, and `buildIpResponse` answers it: the bytes up to
the end of the question, with another header, and a record for each address.  A read outside the packet
would panic; here it has no value.

The name of the question may go on, behind a compression pointer, anywhere in the packet.  `nameReads`
lists the indices that its reader looks at.
-/

namespace WutherCore.Resolver

open WutherCore.Data WutherCore.Text WutherCore.Net
open WutherCore.Ruleset.Srs (fromUtf8)

/-! ### The question -/

/-- The variables of the loop of `read_name`. -/
structure NameReader where
  labels : List Str
  i : Nat
  endAfterPointer : Option Nat

/-- `&pkt[first..last]`. -/
def subslice (pkt : List UInt8) (first last : Nat) : Option (List UInt8) :=
  if first ≤ last ∧ last ≤ pkt.length then some (slice pkt first last) else none

/-- A round of the loop of `read_name`. -/
def nameRound (pkt : List UInt8) (r : NameReader) : Option (Turn NameReader (Option (Str × Nat))) :=
  match pkt[r.i]? with
  | none => some (.stop none)
  | some len =>
    if len &&& 0xc0 = 0xc0 then
      match pkt[r.i + 1]? with
      | none => some (.stop none)
      | some b2 =>
        let ptr := ((len &&& 0x3f).toNat <<< 8) ||| b2.toNat
        if ptr ≥ pkt.length then some (.stop none)
        else some (.again { r with i := ptr, endAfterPointer := r.endAfterPointer.or (some (r.i + 2)) })
    else if len &&& 0xc0 ≠ 0 then some (.stop none)
    else if len = 0 then
      some (.stop (some (join ".".toList r.labels, r.endAfterPointer.getD (r.i + 1))))
    else
      let next := r.i + 1 + len.toNat
      if next > pkt.length then some (.stop none)
      else
        (subslice pkt (r.i + 1) next).bind fun bytes =>
          match fromUtf8 bytes with
          | none => some (.stop none)
          | some label =>
            some (.again { r with labels := r.labels ++ [toAsciiLowercase label], i := next })

/-- So many rounds of the loop, and none of them the last one. -/
def readNameFrom (pkt : List UInt8) : Nat → NameReader → Option (Option (Str × Nat))
  | 0, _ => some none
  | rounds + 1, r =>
      (nameRound pkt r).bind fun
        | .again r => readNameFrom pkt rounds r
        | .stop result => some result

/-- Before the first round. -/
def NameReader.init (start : Nat) : NameReader := { labels := [], i := start, endAfterPointer := none }

/-- `read_name`. -/
def readName (pkt : List UInt8) (start : Nat) : Option (Option (Str × Nat)) :=
  readNameFrom pkt 128 (.init start)

structure DnsQuestion where
  name : Str
  qtype : Nat
  qclass : Nat
  questionEnd : Nat
  deriving DecidableEq

/-- `parse_first_question`. -/
def parseFirstQuestion (pkt : List UInt8) : Option (Option DnsQuestion) :=
  if pkt.length < 12 then some none
  else do
    let qdcount ← u16At pkt 4
    if qdcount = 0 then some none
    else
      (readName pkt 12).bind fun
        | none => some none
        | some (name, nameEnd) =>
          if nameEnd + 4 > pkt.length then some none
          else do
            let qtype ← u16At pkt nameEnd
            let qclass ← u16At pkt (nameEnd + 2)
            return some { name, qtype, qclass, questionEnd := nameEnd + 4 }

/-! ### The answers -/

def typeA : Nat := 1
def typeAaaa : Nat := 28
def classIn : Nat := 1

/-- `ip_matches_qtype`. -/
def ipMatchesQtype : IpAddr → Nat → Bool
  | .v4 _, qtype => qtype == typeA
  | .v6 _, qtype => qtype == typeAaaa

/-- `set_response_header`: QR and RA are set, and RD is kept. -/
def setResponseHeader (resp : List UInt8) (questionCount answerCount : Nat) : List UInt8 :=
  if resp.length < 12 then resp
  else
    let resp := writeAt resp 2 [0x80 ||| (byteAt resp 2 &&& 0x01)]
    let resp := writeAt resp 3 [0x80]
    let resp := putBE 2 resp 4 questionCount
    let resp := putBE 2 resp 6 answerCount
    let resp := putBE 2 resp 8 0
    putBE 2 resp 10 0

/-- `build_empty_response` with a question. -/
def buildEmptyResponse (req : List UInt8) (question : DnsQuestion) : List UInt8 :=
  if req.length < 12 then []
  else setResponseHeader (req.take (min question.questionEnd req.length)) 1 0

/-- The answer record of an address. -/
def record (ttlSecs : UInt32) : IpAddr → List UInt8
  | .v4 v4 => [0xc0, 0x0c] ++ toBytesBE 2 typeA ++ toBytesBE 2 classIn ++ toBytesBE 4 ttlSecs.toNat ++
      toBytesBE 2 4 ++ (IpAddr.v4 v4).octets
  | .v6 v6 => [0xc0, 0x0c] ++ toBytesBE 2 typeAaaa ++ toBytesBE 2 classIn ++ toBytesBE 4 ttlSecs.toNat ++
      toBytesBE 2 16 ++ (IpAddr.v6 v6).octets

/-- The addresses that answer the question. -/
def answers (question : DnsQuestion) (ips : List IpAddr) : List IpAddr :=
  ips.filter fun ip => ipMatchesQtype ip question.qtype

/-- `build_ip_response`. -/
def buildIpResponse (req : List UInt8) (question : DnsQuestion) (ips : List IpAddr) (ttlSecs : UInt32) :
    List UInt8 :=
  if req.length < 12 then []
  else if (answers question ips).isEmpty then buildEmptyResponse req question
  else
    -- `answers.len() as u16`
    let resp := setResponseHeader (req.take (min question.questionEnd req.length)) 1
      ((answers question ips).length % 2 ^ 16)
    resp ++ (answers question ips).flatMap (record ttlSecs)

/-! ### The name reader comes to an end -/

section Name

variable {pkt : List UInt8} {r r' : NameReader} {result : Str × Nat} {rounds : Nat}

theorem nameRound_isSome (pkt : List UInt8) (r : NameReader) : (nameRound pkt r).isSome = true := by
  unfold nameRound
  cases hlen : pkt[r.i]? with
  | none => rfl
  | some len =>
    dsimp only
    split_ifs with hptr hmixed hzero hnext
    · cases pkt[r.i + 1]? with
      | none => rfl
      | some b2 =>
        dsimp only
        split_ifs <;> rfl
    · rfl
    · rfl
    · rfl
    · rw [subslice, if_pos ⟨by omega, by omega⟩, Option.bind_some]
      cases fromUtf8 (slice pkt (r.i + 1) (r.i + 1 + len.toNat)) <;> rfl

theorem readNameFrom_isSome (pkt : List UInt8) (rounds : Nat) (r : NameReader) :
    (readNameFrom pkt rounds r).isSome = true := by
  induction rounds generalizing r with
  | zero => rfl
  | succ rounds ih =>
    obtain ⟨turn, hturn⟩ := Option.isSome_iff_exists.1 (nameRound_isSome pkt r)
    rw [readNameFrom, hturn]
    cases turn with
    | again r' => exact ih r'
    | stop result => rfl

theorem readName_isSome (pkt : List UInt8) (start : Nat) : (readName pkt start).isSome = true :=
  readNameFrom_isSome pkt 128 _

/-- What a round does that does not fail. -/
theorem nameRound_cases {turn : Turn NameReader (Option (Str × Nat))} (h : nameRound pkt r = some turn) :
    turn = .stop none ∨ ∃ len, pkt[r.i]? = some len ∧
      ((∃ b2, len &&& 0xc0 = 0xc0 ∧ pkt[r.i + 1]? = some b2 ∧
          ((len &&& 0x3f).toNat <<< 8) ||| b2.toNat < pkt.length ∧
          turn = .again { r with
            i := ((len &&& 0x3f).toNat <<< 8) ||| b2.toNat
            endAfterPointer := r.endAfterPointer.or (some (r.i + 2)) }) ∨
        (len = 0 ∧ turn = .stop (some (join ".".toList r.labels, r.endAfterPointer.getD (r.i + 1)))) ∨
        (∃ label, len &&& 0xc0 = 0 ∧ len ≠ 0 ∧ r.i + 1 + len.toNat ≤ pkt.length ∧
          fromUtf8 (slice pkt (r.i + 1) (r.i + 1 + len.toNat)) = some label ∧
          turn = .again { r with
            labels := r.labels ++ [toAsciiLowercase label], i := r.i + 1 + len.toNat })) := by
  unfold nameRound at h
  cases hlen : pkt[r.i]? with
  | none =>
    rw [hlen] at h
    cases h
    exact .inl rfl
  | some len =>
    rw [hlen] at h
    dsimp only at h
    split_ifs at h with hptr hmixed hzero hnext
    · cases hb2 : pkt[r.i + 1]? with
      | none =>
        rw [hb2] at h
        cases h
        exact .inl rfl
      | some b2 =>
        rw [hb2] at h
        dsimp only at h
        split_ifs at h with hin
        · cases h
          exact .inl rfl
        · cases h
          exact .inr ⟨len, rfl, .inl ⟨b2, hptr, rfl, by omega, rfl⟩⟩
    · cases h
      exact .inl rfl
    · cases h
      exact .inr ⟨len, rfl, .inr (.inl ⟨hzero, rfl⟩)⟩
    · cases h
      exact .inl rfl
    · rw [subslice, if_pos ⟨by omega, by omega⟩, Option.bind_some] at h
      cases hlabel : fromUtf8 (slice pkt (r.i + 1) (r.i + 1 + len.toNat)) with
      | none =>
        rw [hlabel] at h
        cases h
        exact .inl rfl
      | some label =>
        rw [hlabel] at h
        cases h
        refine .inr ⟨len, rfl, .inr (.inr ⟨label, by simpa using hmixed, hzero, by omega, hlabel, rfl⟩)⟩

/-! ### What the name reader looks at -/

/-- The indices of the bytes that a round reads. -/
def roundReads (pkt : List UInt8) (i : Nat) : List Nat :=
  match pkt[i]? with
  | none => []
  | some len => if len &&& 0xc0 = 0xc0 then [i, i + 1] else i :: List.range' (i + 1) len.toNat

/-- The indices of the bytes that the rounds read. -/
def nameReads (pkt : List UInt8) : Nat → NameReader → List Nat
  | 0, _ => []
  | rounds + 1, r =>
      roundReads pkt r.i ++
        match nameRound pkt r with
        | some (.again r) => nameReads pkt rounds r
        | _ => []

theorem mem_nameReads (h : readNameFrom pkt rounds r = some (some result)) :
    r.i ∈ nameReads pkt rounds r ∧ r.i < pkt.length := by
  cases rounds with
  | zero => cases h
  | succ rounds =>
    cases hturn : nameRound pkt r with
    | none =>
      rw [readNameFrom, hturn] at h
      cases h
    | some turn =>
      rcases nameRound_cases hturn with rfl | ⟨len, hlen, _⟩
      · rw [readNameFrom, hturn] at h
        cases h
      · refine ⟨List.mem_append_left _ ?_, (List.getElem?_eq_some_iff.1 hlen).1⟩
        rw [roundReads, hlen]
        dsimp only
        split_ifs <;> exact List.mem_cons_self

variable {pkt' : List UInt8}

/-- A round that does not fail does the same in a packet with the same bytes where it reads, unless it
gets outside. -/
theorem nameRound_congr {turn : Turn NameReader (Option (Str × Nat))} (h : nameRound pkt r = some turn)
    (hok : turn ≠ .stop none) (hreads : ∀ k ∈ roundReads pkt r.i, pkt'[k]? = pkt[k]?) :
    nameRound pkt' r = some turn ∨
      nameRound pkt' r = some (.stop none) ∧ ∃ r', turn = .again r' ∧ pkt'.length ≤ r'.i := by
  rcases nameRound_cases h with rfl | ⟨len, hlen, hcases⟩
  · exact absurd rfl hok
  unfold roundReads at hreads
  rw [hlen] at hreads
  dsimp only at hreads
  rcases hcases with ⟨b2, hptr, hb2, hlt, rfl⟩ | ⟨rfl, rfl⟩ | ⟨label, hplain, hzero, hnext, hlabel, rfl⟩
  · rw [if_pos hptr] at hreads
    have hlen' := (hreads r.i List.mem_cons_self).trans hlen
    have hb2' := (hreads (r.i + 1) (List.mem_cons_of_mem _ List.mem_cons_self)).trans hb2
    unfold nameRound
    rw [hlen']
    dsimp only
    rw [if_pos hptr, hb2']
    dsimp only
    split_ifs with hin
    · exact .inr ⟨rfl, _, rfl, hin⟩
    · exact .inl rfl
  · have hlen' := (hreads r.i List.mem_cons_self).trans hlen
    left
    unfold nameRound
    rw [hlen']
    rfl
  · have hne : len &&& 0xc0 ≠ 0xc0 := by
      rw [hplain]
      decide
    have hpos : 0 < len.toNat := Nat.pos_of_ne_zero fun h0 => hzero (UInt8.toNat_inj.1 h0)
    rw [if_neg hne] at hreads
    have hlen' := (hreads r.i List.mem_cons_self).trans hlen
    have hbytes : ∀ k, r.i + 1 ≤ k → k < r.i + 1 + len.toNat → pkt'[k]? = pkt[k]? := fun k hk hk' =>
      hreads k (List.mem_cons_of_mem _ (List.mem_range'_1.2 ⟨hk, hk'⟩))
    have hinside : r.i + len.toNat < pkt'.length := by
      have hlast := hbytes (r.i + len.toNat) (by omega) (by omega)
      rw [List.getElem?_eq_getElem (by omega : r.i + len.toNat < pkt.length)] at hlast
      exact (List.getElem?_eq_some_iff.1 hlast).1
    have hslice : slice pkt' (r.i + 1) (r.i + 1 + len.toNat) =
        slice pkt (r.i + 1) (r.i + 1 + len.toNat) := by
      apply List.ext_getElem?
      intro k
      rw [getElem?_slice, getElem?_slice]
      split_ifs with hk
      · exact hbytes _ (by omega) (by omega)
      · rfl
    left
    unfold nameRound
    rw [hlen']
    dsimp only
    rw [if_neg hne, if_neg (not_not.2 hplain), if_neg hzero, if_neg (by omega), subslice,
      if_pos ⟨by omega, by omega⟩, Option.bind_some, hslice, hlabel]

/-- A name is the same in a packet with the same bytes where its reader looks. -/
theorem readNameFrom_congr (h : readNameFrom pkt rounds r = some (some result))
    (hreads : ∀ k ∈ nameReads pkt rounds r, pkt'[k]? = pkt[k]?) :
    readNameFrom pkt' rounds r = some (some result) := by
  induction rounds generalizing r with
  | zero => cases h
  | succ rounds ih =>
    cases hturn : nameRound pkt r with
    | none =>
      rw [readNameFrom, hturn] at h
      cases h
    | some turn =>
      rw [nameReads, hturn] at hreads
      rw [readNameFrom, hturn, Option.bind_some] at h
      have hround : ∀ k ∈ roundReads pkt r.i, pkt'[k]? = pkt[k]? := fun k hk =>
        hreads k (List.mem_append_left _ hk)
      cases turn with
      | again r' =>
        have hrest : ∀ k ∈ nameReads pkt rounds r', pkt'[k]? = pkt[k]? := fun k hk =>
          hreads k (List.mem_append_right _ hk)
        obtain ⟨hmem, hlt⟩ := mem_nameReads h
        have hinside : r'.i < pkt'.length := by
          have hsame := hrest r'.i hmem
          rw [List.getElem?_eq_getElem hlt] at hsame
          exact (List.getElem?_eq_some_iff.1 hsame).1
        rcases nameRound_congr hturn (by simp) hround with hturn' | ⟨_, _, ⟨⟩, hout⟩
        · rw [readNameFrom, hturn', Option.bind_some]
          exact ih h hrest
        · omega
      | stop found =>
        cases h
        rcases nameRound_congr hturn (by simp) hround with hturn' | ⟨_, _, hagain, _⟩
        · rw [readNameFrom, hturn', Option.bind_some]
        · cases hagain

/-- A round that reads past the end of a packet with the same bytes before that end fails. -/
theorem nameRound_cut
    (hreads : ∀ k ∈ roundReads pkt r.i, k < pkt'.length → pkt'[k]? = pkt[k]?)
    (hpast : ∃ k ∈ roundReads pkt r.i, pkt'.length ≤ k) : nameRound pkt' r = some (.stop none) := by
  obtain ⟨k, hk, hpast⟩ := hpast
  unfold nameRound
  by_cases hi : pkt'.length ≤ r.i
  · rw [List.getElem?_eq_none hi]
  cases hlen : pkt[r.i]? with
  | none =>
    rw [roundReads, hlen] at hk
    cases hk
  | some len =>
    rw [roundReads, hlen] at hk hreads
    dsimp only at hk hreads
    split_ifs at hk hreads with hptr
    · have hlen' := (hreads r.i List.mem_cons_self (by omega)).trans hlen
      have hb2 : pkt'.length ≤ r.i + 1 := by
        simp only [List.mem_cons, List.not_mem_nil, or_false] at hk
        omega
      rw [hlen']
      dsimp only
      rw [if_pos hptr, List.getElem?_eq_none hb2]
    · have hlen' := (hreads r.i List.mem_cons_self (by omega)).trans hlen
      have hnext : r.i + 1 + len.toNat > pkt'.length := by
        rw [List.mem_cons, List.mem_range'_1] at hk
        omega
      rw [hlen']
      dsimp only
      rw [if_neg hptr]
      split_ifs with hmixed hzero
      · rfl
      · subst hzero
        have hin := hnext
        simp only [UInt8.toNat_zero] at hin
        omega
      · rfl

/-- A name whose reader looks past the end of a packet is not read there. -/
theorem readNameFrom_cut (h : readNameFrom pkt rounds r = some (some result))
    (hreads : ∀ k ∈ nameReads pkt rounds r, k < pkt'.length → pkt'[k]? = pkt[k]?)
    (hpast : ∃ k ∈ nameReads pkt rounds r, pkt'.length ≤ k) :
    readNameFrom pkt' rounds r = some none := by
  induction rounds generalizing r with
  | zero => cases h
  | succ rounds ih =>
    cases hturn : nameRound pkt r with
    | none =>
      rw [readNameFrom, hturn] at h
      cases h
    | some turn =>
      rw [nameReads, hturn] at hreads hpast
      rw [readNameFrom, hturn, Option.bind_some] at h
      have hround : ∀ k ∈ roundReads pkt r.i, k < pkt'.length → pkt'[k]? = pkt[k]? := fun k hk =>
        hreads k (List.mem_append_left _ hk)
      by_cases hcut : ∃ k ∈ roundReads pkt r.i, pkt'.length ≤ k
      · rw [readNameFrom, nameRound_cut hround hcut, Option.bind_some]
      have hkept : ∀ k ∈ roundReads pkt r.i, pkt'[k]? = pkt[k]? := fun k hk =>
        hround k hk (by by_contra hk'; exact hcut ⟨k, hk, by omega⟩)
      cases turn with
      | stop found =>
        obtain ⟨k, hk, hlt⟩ := hpast
        rw [List.append_nil] at hk
        exact absurd ⟨k, hk, hlt⟩ hcut
      | again r' =>
        have hrest : ∀ k ∈ nameReads pkt rounds r', k < pkt'.length → pkt'[k]? = pkt[k]? := fun k hk =>
          hreads k (List.mem_append_right _ hk)
        have hpast' : ∃ k ∈ nameReads pkt rounds r', pkt'.length ≤ k := by
          obtain ⟨k, hk, hlt⟩ := hpast
          rcases List.mem_append.1 hk with hk | hk
          · exact absurd ⟨k, hk, hlt⟩ hcut
          · exact ⟨k, hk, hlt⟩
        rw [readNameFrom]
        rcases nameRound_congr hturn (by simp) hkept with hturn' | ⟨hturn', _⟩
        · rw [hturn', Option.bind_some]
          exact ih h hrest hpast'
        · rw [hturn', Option.bind_some]

/-- A name ends behind where it starts. -/
theorem lt_nameEnd {name : Str} {nameEnd start : Nat}
    (h : readNameFrom pkt rounds r = some (some (name, nameEnd)))
    (hr : match r.endAfterPointer with | none => start ≤ r.i | some e => start < e) : start < nameEnd := by
  induction rounds generalizing r with
  | zero => cases h
  | succ rounds ih =>
    cases hturn : nameRound pkt r with
    | none =>
      rw [readNameFrom, hturn] at h
      cases h
    | some turn =>
      rw [readNameFrom, hturn, Option.bind_some] at h
      rcases nameRound_cases hturn with rfl | ⟨len, hlen, hcases⟩
      · cases h
      rcases hcases with ⟨b2, _, _, _, rfl⟩ | ⟨_, rfl⟩ | ⟨label, _, _, _, _, rfl⟩
      · apply ih h
        cases hend : r.endAfterPointer with
        | none =>
          rw [hend] at hr
          dsimp only [Option.none_or] at hr ⊢
          omega
        | some e =>
          rw [hend] at hr
          exact hr
      · cases hend : r.endAfterPointer with
        | none =>
          rw [hend] at hr h
          cases h
          rw [Option.getD_none]
          dsimp only at hr
          omega
        | some e =>
          rw [hend] at hr h
          cases h
          exact hr
      · apply ih h
        dsimp only
        cases hend : r.endAfterPointer with
        | none =>
          rw [hend] at hr
          dsimp only at hr ⊢
          omega
        | some e =>
          rw [hend] at hr
          exact hr

end Name

/-! ### The header of the answer -/

section Header

variable {resp rest : List UInt8} {questionCount answerCount : Nat}

/-- The bytes of the header between the id and the question. -/
def headerBytes (flags : UInt8) (questionCount answerCount : Nat) : List UInt8 :=
  [0x80 ||| (flags &&& 0x01), 0x80] ++ toBytesBE 2 questionCount ++ toBytesBE 2 answerCount ++
    toBytesBE 2 0 ++ toBytesBE 2 0

theorem length_headerBytes (flags : UInt8) : (headerBytes flags questionCount answerCount).length = 10 := by
  simp [headerBytes]

theorem setResponseHeader_eq (h : 12 ≤ resp.length) :
    setResponseHeader resp questionCount answerCount =
      writeAt resp 2 (headerBytes (byteAt resp 2) questionCount answerCount) := by
  have hmore (bytes more : List UInt8) (i : Nat) (hi : i = 2 + bytes.length)
      (hroom : bytes.length + more.length ≤ 10) :
      writeAt (writeAt resp 2 bytes) i more = writeAt resp 2 (bytes ++ more) :=
    writeAt_writeAt (by omega) hi
  unfold setResponseHeader
  rw [if_neg (by omega)]
  dsimp only [putBE]
  rw [hmore, hmore, hmore, hmore, hmore]
  · rfl
  all_goals simp

theorem getElem?_setResponseHeader (h : 12 ≤ resp.length) {k : Nat} (hk : k < 2 ∨ 12 ≤ k) :
    (setResponseHeader resp questionCount answerCount)[k]? = resp[k]? := by
  rw [setResponseHeader_eq h]
  apply getElem?_writeAt_of_outside <;> rw [length_headerBytes] <;> omega

theorem setResponseHeader_append (h : 12 ≤ resp.length) :
    setResponseHeader (resp ++ rest) questionCount answerCount =
      setResponseHeader resp questionCount answerCount ++ rest := by
  rw [setResponseHeader_eq h, setResponseHeader_eq (by rw [List.length_append]; omega),
    byteAt_append_left (by omega), writeAt_append_left (by rw [length_headerBytes]; omega)]

theorem length_setResponseHeader (h : 12 ≤ resp.length) :
    (setResponseHeader resp questionCount answerCount).length = resp.length := by
  rw [setResponseHeader_eq h, length_writeAt (by rw [length_headerBytes]; omega)]

theorem u16At_setResponseHeader (h : 12 ≤ resp.length) (hq : questionCount < 2 ^ 16)
    (ha : answerCount < 2 ^ 16) :
    u16At (setResponseHeader resp questionCount answerCount ++ rest) 4 = some questionCount ∧
      u16At (setResponseHeader resp questionCount answerCount ++ rest) 6 = some answerCount := by
  have htake : (resp.take 2).length = 2 := by
    rw [List.length_take]
    omega
  rw [setResponseHeader_eq h, writeAt, length_headerBytes, headerBytes]
  constructor
  · apply u16At_of_eq (resp.take 2 ++ [0x80 ||| (byteAt resp 2 &&& 0x01), 0x80])
      (toBytesBE 2 answerCount ++ (toBytesBE 2 0 ++ (toBytesBE 2 0 ++ (resp.drop 12 ++ rest))))
    · simp only [List.append_assoc]
    · rw [List.length_append, htake]
      rfl
    · exact hq
  · apply u16At_of_eq (resp.take 2 ++ [0x80 ||| (byteAt resp 2 &&& 0x01), 0x80] ++ toBytesBE 2 questionCount)
      (toBytesBE 2 0 ++ (toBytesBE 2 0 ++ (resp.drop 12 ++ rest)))
    · simp only [List.append_assoc]
    · rw [List.length_append, List.length_append, htake, toBytesBE_length]
      rfl
    · exact ha

end Header

/-! ### The question of the answer -/

section Answer

variable {req resp : List UInt8} {question : DnsQuestion} {ips : List IpAddr} {ttlSecs : UInt32}

/-- What a packet has that is accepted. -/
theorem parseFirstQuestion_eq_some :
    parseFirstQuestion req = some (some question) ↔
      12 ≤ req.length ∧ (∃ qdcount, u16At req 4 = some qdcount ∧ qdcount ≠ 0) ∧
        ∃ nameEnd, readName req 12 = some (some (question.name, nameEnd)) ∧
          nameEnd + 4 ≤ req.length ∧ question.questionEnd = nameEnd + 4 ∧
          u16At req nameEnd = some question.qtype ∧ u16At req (nameEnd + 2) = some question.qclass := by
  unfold parseFirstQuestion
  constructor
  · intro h
    split_ifs at h with hlen
    · cases h
    obtain ⟨qdcount, hqd⟩ := u16At_isSome req 4 (by omega)
    rw [hqd] at h
    dsimp only [Option.bind_eq_bind, Option.bind_some] at h
    split_ifs at h with hzero
    · cases h
    obtain ⟨found, hfound⟩ := Option.isSome_iff_exists.1 (readName_isSome req 12)
    rw [hfound, Option.bind_some] at h
    cases found with
    | none => cases h
    | some found =>
      obtain ⟨name, nameEnd⟩ := found
      dsimp only at h
      split_ifs at h with hend
      · cases h
      obtain ⟨qtype, hqtype⟩ := u16At_isSome req nameEnd (by omega)
      obtain ⟨qclass, hqclass⟩ := u16At_isSome req (nameEnd + 2) (by omega)
      rw [hqtype, hqclass] at h
      cases h
      exact ⟨by omega, ⟨qdcount, hqd, hzero⟩, nameEnd, hfound, by omega, rfl, hqtype, hqclass⟩
  · rintro ⟨hlen, ⟨qdcount, hqd, hzero⟩, nameEnd, hname, hend, hquestion, hqtype, hqclass⟩
    rw [if_neg (by omega), hqd]
    dsimp only [Option.bind_eq_bind, Option.bind_some]
    rw [if_neg hzero, hname, Option.bind_some]
    dsimp only
    rw [if_neg (by omega), hqtype, hqclass]
    dsimp only [Option.bind_some]
    rw [← hquestion]
    rfl

theorem buildIpResponse_eq (hlen : 12 ≤ req.length) (hend : question.questionEnd ≤ req.length) :
    buildIpResponse req question ips ttlSecs =
      setResponseHeader (req.take question.questionEnd) 1 ((answers question ips).length % 2 ^ 16) ++
        (answers question ips).flatMap (record ttlSecs) := by
  unfold buildIpResponse
  rw [if_neg (by omega)]
  split_ifs with hempty
  · rw [List.isEmpty_iff.1 hempty, buildEmptyResponse, if_neg (by omega), Nat.min_eq_left hend]
    simp
  · rw [Nat.min_eq_left hend]

/-- The name reader looks at no byte of the header to which the answer gives another value. -/
def HeaderKept (req : List UInt8) (question : DnsQuestion) (ips : List IpAddr) : Prop :=
  ∀ k ∈ nameReads req 128 (.init 12),
    (setResponseHeader req 1 ((answers question ips).length % 2 ^ 16))[k]? = req[k]?

/-- The name reader looks only at what the answer has of the request. -/
structure SelfContained (req : List UInt8) (question : DnsQuestion) (ips : List IpAddr) : Prop where
  header : HeaderKept req question ips
  inside : ∀ k ∈ nameReads req 128 (.init 12), k < question.questionEnd

/-- An answer as it should be. -/
structure WellFormed (req : List UInt8) (question : DnsQuestion) (ips : List IpAddr) (ttlSecs : UInt32)
    (resp : List UInt8) : Prop where
  asked : ∃ q, parseFirstQuestion resp = some (some q) ∧ q.name = question.name ∧
    q.qtype = question.qtype ∧ q.qclass = question.qclass
  appended : resp.drop question.questionEnd = (answers question ips).flatMap (record ttlSecs)
  count : u16At resp 6 = some (answers question ips).length
  id : resp.take 2 = req.take 2

theorem getElem?_buildIpResponse (hlen : 12 ≤ req.length) (hend : question.questionEnd ≤ req.length)
    (hquestion : 12 ≤ question.questionEnd) {k : Nat} (hk : k < question.questionEnd) :
    (buildIpResponse req question ips ttlSecs)[k]? =
      (setResponseHeader req 1 ((answers question ips).length % 2 ^ 16))[k]? := by
  have htake : 12 ≤ (req.take question.questionEnd).length := by
    rw [List.length_take]
    omega
  have hk' : k < (setResponseHeader (req.take question.questionEnd) 1
      ((answers question ips).length % 2 ^ 16)).length := by
    rw [length_setResponseHeader htake, List.length_take]
    omega
  have hsplit : setResponseHeader req 1 ((answers question ips).length % 2 ^ 16) =
      setResponseHeader (req.take question.questionEnd) 1 ((answers question ips).length % 2 ^ 16) ++
        req.drop question.questionEnd := by
    rw [← setResponseHeader_append htake, List.take_append_drop]
  rw [buildIpResponse_eq hlen hend, hsplit, List.getElem?_append_left hk', List.getElem?_append_left hk']

theorem SelfContained.parse (hself : SelfContained req question ips)
    (h : parseFirstQuestion req = some (some question)) :
    parseFirstQuestion (buildIpResponse req question ips ttlSecs) = some (some question) := by
  obtain ⟨hlen, _, nameEnd, hname, hend, hquestion, hqtype, hqclass⟩ := parseFirstQuestion_eq_some.1 h
  have hstart : 12 < nameEnd := lt_nameEnd hname (le_refl 12)
  have htake : (req.take question.questionEnd).length = question.questionEnd := by
    rw [List.length_take]
    omega
  have hbyte : ∀ k < question.questionEnd, (buildIpResponse req question ips ttlSecs)[k]? =
      (setResponseHeader req 1 ((answers question ips).length % 2 ^ 16))[k]? := fun k hk =>
    getElem?_buildIpResponse hlen (by omega) (by omega) hk
  have hkept : ∀ k < question.questionEnd, 12 ≤ k →
      (buildIpResponse req question ips ttlSecs)[k]? = req[k]? := fun k hk hk' => by
    rw [hbyte k hk, getElem?_setResponseHeader hlen (.inr hk')]
  have hlen' : question.questionEnd ≤ (buildIpResponse req question ips ttlSecs).length := by
    rw [buildIpResponse_eq hlen (by omega), List.length_append, length_setResponseHeader (by omega), htake]
    omega
  apply parseFirstQuestion_eq_some.2
  refine ⟨by omega, ⟨1, ?_, by decide⟩, nameEnd, ?_, by omega, hquestion, ?_, ?_⟩
  · rw [buildIpResponse_eq hlen (by omega)]
    exact (u16At_setResponseHeader (by omega) (by decide) (Nat.mod_lt _ (by decide))).1
  · apply readNameFrom_congr hname
    intro k hk
    rw [hbyte k (hself.inside k hk), hself.header k hk]
  · rw [u16At_congr (hkept nameEnd (by omega) (by omega)) (hkept (nameEnd + 1) (by omega) (by omega)), hqtype]
  · rw [u16At_congr (hkept (nameEnd + 2) (by omega) (by omega))
      (hkept (nameEnd + 2 + 1) (by omega) (by omega)), hqclass]

theorem buildIpResponse_always (ips : List IpAddr) (ttlSecs : UInt32) (h : parseFirstQuestion req = some (some question)) :
    (buildIpResponse req question ips ttlSecs).drop question.questionEnd =
        (answers question ips).flatMap (record ttlSecs) ∧
      (buildIpResponse req question ips ttlSecs).take 2 = req.take 2 ∧
      u16At (buildIpResponse req question ips ttlSecs) 6 = some ((answers question ips).length % 2 ^ 16) := by
  obtain ⟨hlen, _, nameEnd, hname, hend, hquestion, _, _⟩ := parseFirstQuestion_eq_some.1 h
  have hstart : 12 < nameEnd := lt_nameEnd hname (le_refl 12)
  have htake : (req.take question.questionEnd).length = question.questionEnd := by
    rw [List.length_take]
    omega
  refine ⟨?_, ?_, ?_⟩
  · rw [buildIpResponse_eq hlen (by omega)]
    apply List.drop_left'
    rw [length_setResponseHeader (by omega), htake]
  · apply List.ext_getElem?
    intro k
    rw [List.getElem?_take, List.getElem?_take]
    split_ifs with hk
    · rw [getElem?_buildIpResponse hlen (by omega) (by omega) (by omega),
        getElem?_setResponseHeader hlen (.inl hk)]
    · rfl
  · rw [buildIpResponse_eq hlen (by omega)]
    exact (u16At_setResponseHeader (by omega) (by decide) (Nat.mod_lt _ (by decide))).2

theorem parse_cut (h : parseFirstQuestion req = some (some question)) (hheader : HeaderKept req question ips)
    (hnone : answers question ips = []) {k : Nat} (hk : k ∈ nameReads req 128 (.init 12))
    (hpast : question.questionEnd ≤ k) (q : DnsQuestion) :
    parseFirstQuestion (buildIpResponse req question ips ttlSecs) ≠ some (some q) := by
  intro hq
  obtain ⟨hlen, _, nameEnd, hname, hend, hquestion, _, _⟩ := parseFirstQuestion_eq_some.1 h
  obtain ⟨_, _, _, hname', _⟩ := parseFirstQuestion_eq_some.1 hq
  have hstart : 12 < nameEnd := lt_nameEnd hname (le_refl 12)
  have hresp : (buildIpResponse req question ips ttlSecs).length = question.questionEnd := by
    rw [buildIpResponse_eq hlen (by omega), hnone, List.flatMap_nil, List.append_nil,
      length_setResponseHeader (by rw [List.length_take]; omega), List.length_take]
    omega
  have hnone' : readName (buildIpResponse req question ips ttlSecs) 12 = some none := by
    apply readNameFrom_cut hname
    · intro j hj hlt
      rw [getElem?_buildIpResponse hlen (by omega) (by omega) (by omega), hheader j hj]
    · exact ⟨k, hk, by omega⟩
  rw [hnone'] at hname'
  cases hname'

end Answer

/-- Every name reader comes to an end.  An answer is as it should be if its records are counted in 16 bits
and the question does not need what the answer leaves out or changes; it is not if they are too many, or if
it has none and the question goes on behind its end. -/
theorem buildIpResponse_wellFormed (req : List UInt8) (question : DnsQuestion) (ips : List IpAddr)
    (ttlSecs : UInt32) (h : parseFirstQuestion req = some (some question)) :
    (∀ pkt start, (readName pkt start).isSome = true) ∧
      (WellFormed req question ips ttlSecs (buildIpResponse req question ips ttlSecs) →
        (answers question ips).length < 2 ^ 16) ∧
      (SelfContained req question ips → (answers question ips).length < 2 ^ 16 →
        WellFormed req question ips ttlSecs (buildIpResponse req question ips ttlSecs)) ∧
      (HeaderKept req question ips → answers question ips = [] →
        WellFormed req question ips ttlSecs (buildIpResponse req question ips ttlSecs) →
          SelfContained req question ips) := by
  obtain ⟨happended, hid, hcount⟩ := buildIpResponse_always ips ttlSecs h
  refine ⟨readName_isSome, ?_, ?_, ?_⟩
  · intro hwell
    have hsame := hcount.symm.trans hwell.count
    have hlt := Nat.mod_lt (answers question ips).length (by decide : 0 < 2 ^ 16)
    rw [Option.some.inj hsame] at hlt
    exact hlt
  · intro hself hlt
    refine ⟨⟨question, hself.parse h, rfl, rfl, rfl⟩, happended, ?_, hid⟩
    rw [hcount, Nat.mod_eq_of_lt hlt]
  · intro hheader hnone hwell
    refine ⟨hheader, fun k hk => ?_⟩
    obtain ⟨q, hq, _⟩ := hwell.asked
    by_contra hpast
    exact parse_cut h hheader hnone hk (by omega) q hq

/-- A query for the address of `a`. -/
def query : List UInt8 :=
  [0x12, 0x34, 0x01, 0x00, 0x00, 0x01, 0, 0, 0, 0, 0, 0] ++ [1, 0x61, 0, 0, 1, 0, 1]

/-- The name of the question lies behind it. -/
def behind : List UInt8 :=
  [0x12, 0x34, 0x01, 0x00, 0x00, 0x01, 0, 0, 0, 0, 0, 0] ++ [0xc0, 18, 0, 1, 0, 1] ++ [1, 0x61, 0]

theorem buildIpResponse_wellFormed_query :
    WellFormed query ⟨"a".toList, 1, 1, 19⟩ [.v4 0x01020304#32] 60
      (buildIpResponse query ⟨"a".toList, 1, 1, 19⟩ [.v4 0x01020304#32] 60) := by
  have hself : SelfContained query ⟨"a".toList, 1, 1, 19⟩ [.v4 0x01020304#32] := by
    constructor
    · unfold HeaderKept
      decide +kernel
    · decide +kernel
  exact (buildIpResponse_wellFormed query ⟨"a".toList, 1, 1, 19⟩ [.v4 0x01020304#32] 60
    (by decide +kernel)).2.2.1 hself (by decide)

/-- Not every answer is as it should be: a question that lies behind itself is cut off. -/
theorem not_wellFormed_behind :
    parseFirstQuestion behind = some (some ⟨"a".toList, 1, 1, 18⟩) ∧
      ¬WellFormed behind ⟨"a".toList, 1, 1, 18⟩ [] 60 (buildIpResponse behind ⟨"a".toList, 1, 1, 18⟩ [] 60) := by
  constructor
  · decide +kernel
  · intro hwell
    obtain ⟨q, hq, _⟩ := hwell.asked
    have hnone : parseFirstQuestion (buildIpResponse behind ⟨"a".toList, 1, 1, 18⟩ [] 60) = some none := by
      decide +kernel
    rw [hnone] at hq
    cases hq

end WutherCore.Resolver
