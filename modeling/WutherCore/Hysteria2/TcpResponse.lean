import WutherCore.Data.Incremental
import WutherCore.Hysteria2.Message

/-!
# Hysteria 2: the response to a TCP request

The first bytes that a server sends on a stream (`parse_tcp_response` in `hysteria2.rs`): a status, a
message and a padding, each of the last two behind its length.  The client gathers them in a buffer and
parses that buffer from the start each time more has arrived.

* `incremental_parseTcpResponse`: what has been settled about a response stays settled.
* `parseTcpResponse_prefix_stable`: a response is complete with the bytes it uses and no fewer, whatever
  follows them; a varint is read back from what is written.
* `establish_ready`: the pieces in which a response arrives do not matter.
-/

namespace WutherCore.Hysteria2

open WutherCore.Text WutherCore.Data
open WutherCore.Ruleset (utf8)
open WutherCore.Ruleset.Srs (fromUtf8)

/-- `MAX_MESSAGE_LENGTH`. -/
def maxMessageLength : Nat := 2048

/-- `MAX_PADDING_LENGTH`. -/
def maxPaddingLength : Nat := 4096

/-! ### Varints in a buffer that grows -/

theorem getVarint_bounds {p : List UInt8} {value : UInt64} {n : Nat} (h : getVarint p = some (value, n)) :
    n ≤ p.length := by
  cases p with
  | nil => simp [getVarint] at h
  | cons first rest =>
    simp only [getVarint] at h
    split_ifs at h with hlen
    simp only [Option.some.injEq, Prod.mk.injEq] at h
    omega

theorem getVarint_congr {p q : List UInt8} {value : UInt64} {n : Nat} (h : getVarint p = some (value, n))
    (hq : n ≤ q.length) (hsame : p.take n = q.take n) : getVarint q = some (value, n) := by
  cases p with
  | nil => simp [getVarint] at h
  | cons first rest =>
    simp only [getVarint] at h
    split_ifs at h with hlen
    simp only [Option.some.injEq, Prod.mk.injEq] at h
    obtain ⟨hvalue, hn⟩ := h
    have hpos : 0 < n := by
      rw [← hn, Nat.one_shiftLeft]
      exact Nat.two_pow_pos _
    cases q with
    | nil => simp at hq; omega
    | cons first' rest' =>
      obtain ⟨m, rfl⟩ := Nat.exists_eq_succ_of_ne_zero (by omega : n ≠ 0)
      simp only [List.take_succ_cons, List.cons.injEq] at hsame
      obtain ⟨rfl, hrest⟩ := hsame
      simp only [getVarint, hn]
      rw [if_neg (by omega), ← hvalue, hn]
      simp only [slice, List.drop_succ_cons, List.drop_zero, Nat.succ_sub_one, hrest]

/-! ### Parsing -/

section Usize

-- The largest `usize`.
variable (usizeMax : Nat)

/-- `TcpResponseParse`.  A complete response says whether the request was granted, and has a message. -/
abbrev TcpResponseParse : Type := Parsed String (Bool × Str)

/-- One of the two fields of a response, behind its length: where its bytes start and where they end.  The
message and the padding are read alike, each with its own limit. -/
def readField (what : String) (limit offset : Nat) (input : List UInt8) : Parsed String Nat :=
  match getVarint (input.drop offset) with
  | none => .needMore
  | some (length, varint) =>
    if usizeMax < length.toNat then .invalid (what ++ " length overflow")
    else if limit < length.toNat then .invalid (what ++ " exceeds protocol limit")
    else if usizeMax < offset + varint + length.toNat then .invalid (what ++ " length overflow")
    else if input.length < offset + varint + length.toNat then .needMore
    else .done (offset + varint) (offset + varint + length.toNat)

/-- The status byte. -/
def readStatus (input : List UInt8) : Parsed String UInt8 :=
  match input with
  | [] => .needMore
  | status :: _ => .done status 1

/-- What a response with its two fields says. -/
def readMessage (status : UInt8) (messageStart messageEnd consumed : Nat) (input : List UInt8) :
    TcpResponseParse :=
  match fromUtf8 (slice input messageStart messageEnd) with
  | none => .invalid "message is not UTF-8"
  | some message => .done (status == 0, message) consumed

/-- `parse_tcp_response`. -/
def parseTcpResponse (input : List UInt8) : TcpResponseParse :=
  (readStatus input).bind fun status statusEnd =>
    (readField usizeMax "message" maxMessageLength statusEnd input).bind fun messageStart messageEnd =>
      (readField usizeMax "padding" maxPaddingLength messageEnd input).bind fun _ consumed =>
        readMessage status messageStart messageEnd consumed input

/-- What `poll_establish` comes to on the pieces of the stream that have arrived. -/
inductive Established
  | pending
  | malformed (reason : String)
  | refused (message : Str)
  | ready (leftover : List UInt8)
  deriving DecidableEq

/-- `poll_establish`: what it comes to, and the pieces that it has not read. -/
def establish (pieces : List (List UInt8)) : Established × List (List UInt8) :=
  match gather (parseTcpResponse usizeMax) [] pieces with
  | (scratch, .done (ok, message) consumed, rest) =>
    (if ok then .ready (scratch.drop consumed) else .refused message, rest)
  | (_, .invalid reason, rest) => (.malformed reason, rest)
  | (_, .needMore, rest) => (.pending, rest)

variable {usizeMax}

/-! ### Responses in a buffer that grows -/

theorem incremental_readStatus : Incremental 0 readStatus where
  settled := by
    intro p q _ hpq hne
    cases p with
    | nil => exact absurd rfl hne
    | cons status rest =>
      obtain ⟨more, rfl⟩ := hpq
      rfl
  bounds := by
    intro p status n _ hdone
    cases p with
    | nil => cases hdone
    | cons status rest => cases hdone; simp
  used := by
    intro p status n _ hdone
    cases p with
    | nil => cases hdone
    | cons status rest => cases hdone; rfl

theorem readField_eq_done {what : String} {limit offset s e : Nat} {input : List UInt8}
    (h : readField usizeMax what limit offset input = .done s e) :
    ∃ length n, getVarint (input.drop offset) = some (length, n) ∧ length.toNat ≤ limit ∧
      s = offset + n ∧ e = offset + n + length.toNat ∧ e ≤ input.length ∧ e ≤ usizeMax := by
  unfold readField at h
  cases hvarint : getVarint (input.drop offset) with
  | none => simp [hvarint] at h
  | some found =>
    obtain ⟨length, n⟩ := found
    simp only [hvarint] at h
    split_ifs at h
    cases h
    exact ⟨length, n, rfl, by omega, rfl, rfl, by omega, by omega⟩

theorem incremental_readField (what : String) (limit offset : Nat) :
    Incremental offset (readField usizeMax what limit offset) where
  settled := by
    intro p q hp hpq hne
    obtain ⟨more, rfl⟩ := hpq
    cases hvarint : getVarint (p.drop offset) with
    | none => simp [readField, hvarint] at hne
    | some found =>
      obtain ⟨length, n⟩ := found
      have hn := getVarint_bounds hvarint
      have hsame : getVarint ((p ++ more).drop offset) = some (length, n) := by
        refine getVarint_congr hvarint (by simp at hn ⊢; omega) ?_
        rw [List.drop_append_of_le_length hp, List.take_append_of_le_length hn]
      simp only [readField, hvarint, hsame] at hne ⊢
      split_ifs at hne ⊢ with h1 h2 h3 h4 h5 <;>
        first | rfl | exact absurd rfl hne | (simp at h4; omega)
  bounds := by
    intro p s e _ hdone
    obtain ⟨length, n, -, -, -, he, hlen, -⟩ := readField_eq_done hdone
    omega
  used := by
    intro p s e hp hdone
    obtain ⟨length, n, hvarint, hlimit, hs, he, hlen, hmax⟩ := readField_eq_done hdone
    have hn := getVarint_bounds hvarint
    have hsame : getVarint ((p.take e).drop offset) = some (length, n) := by
      refine getVarint_congr hvarint (by simp; omega) ?_
      rw [List.drop_take, List.take_take, Nat.min_eq_left (by omega)]
    simp only [readField, hsame]
    rw [if_neg (by omega), if_neg (by omega), if_neg (by omega), if_neg (by simp; omega), ← he, ← hs]

theorem incremental_readMessage (status : UInt8) {messageStart messageEnd consumed : Nat}
    (h : messageEnd ≤ consumed) :
    Incremental consumed (readMessage status messageStart messageEnd consumed) where
  settled := by
    intro p q hp hpq _
    obtain ⟨more, rfl⟩ := hpq
    rw [readMessage, slice_append_left (by omega)]
    rfl
  bounds := by
    intro p b n hp hdone
    unfold readMessage at hdone
    split at hdone <;> cases hdone
    omega
  used := by
    intro p b n hp hdone
    have hn : n = consumed := by
      unfold readMessage at hdone
      split at hdone <;> cases hdone
      rfl
    subst hn
    have hslice : slice (p.take n) messageStart messageEnd = slice p messageStart messageEnd := by
      conv_rhs => rw [← List.take_append_drop n p]
      rw [slice_append_left (by simp; omega)]
    rw [← hdone, readMessage, hslice]
    rfl

theorem incremental_parseTcpResponse : Incremental 0 (parseTcpResponse usizeMax) := by
  refine incremental_readStatus.bind fun {_ status statusEnd} _ _ => ?_
  refine (incremental_readField "message" maxMessageLength statusEnd).bind
    fun {_ messageStart messageEnd} _ _ => ?_
  refine (incremental_readField "padding" maxPaddingLength messageEnd).bind
    fun {p _ consumed} hp hdone => ?_
  exact incremental_readMessage status ((incremental_readField _ _ _).bounds hp hdone).1

/-- **However the response is cut into pieces, the client comes to what the whole says, and what follows
the response is left for the reader.** -/
theorem establish_ready {pieces : List (List UInt8)} {ok : Bool} {message : Str} {consumed : Nat}
    (h : parseTcpResponse usizeMax pieces.flatten = .done (ok, message) consumed) :
    if ok then
      ∃ leftover rest, establish usizeMax pieces = (.ready leftover, rest) ∧
        leftover ++ rest.flatten = pieces.flatten.drop consumed
    else (establish usizeMax pieces).1 = .refused message := by
  obtain ⟨scratch, rest, hgather, hrest⟩ := incremental_parseTcpResponse.gather_eq_done h
  cases ok with
  | true => exact ⟨scratch.drop consumed, rest, by rw [establish, hgather]; rfl, hrest⟩
  | false => rw [if_neg nofun, establish, hgather]; rfl

/-! ### The response and its varints -/

theorem varintLen_isOk_iff (value : UInt64) : (∃ n, varintLen value = .ok n) ↔ value.toNat < 2 ^ 62 := by
  unfold varintLen
  split_ifs <;> simp <;> omega

/-- **A response is complete with the bytes it uses and no fewer, whatever follows them; and every varint
that can be written is read back, with its length.** -/
theorem parseTcpResponse_prefix_stable (usizeMax : Nat) :
    (∀ input ok message consumed, parseTcpResponse usizeMax input = .done (ok, message) consumed →
      consumed ≤ input.length ∧
        (∀ p, p <+: input.take consumed → p.length < consumed → parseTcpResponse usizeMax p = .needMore) ∧
        ∀ rest, parseTcpResponse usizeMax (input.take consumed ++ rest) = .done (ok, message) consumed) ∧
      (∀ value : UInt64, (∃ n, varintLen value = .ok n) ↔ value.toNat < 2 ^ 62) ∧
      ∀ (value : UInt64) (n : Nat), varintLen value = .ok n →
        ∃ bytes, putVarint value = .ok bytes ∧ getVarint bytes = some (value, n) := by
  refine ⟨?_, varintLen_isOk_iff, ?_⟩
  · intro input ok message consumed h
    have hincremental : Incremental 0 (parseTcpResponse usizeMax) := incremental_parseTcpResponse
    refine ⟨(hincremental.bounds (Nat.zero_le _) h).2, ?_, hincremental.done_append h⟩
    intro p hp hlen
    exact hincremental.needMore_of_isPrefix h (hp.trans (List.take_prefix _ _)) hlen
  · intro value n hn
    refine ⟨varintBytes value n, by rw [putVarint, hn]; rfl, ?_⟩
    obtain ⟨t, k, rfl, hk, hvalue, hbytes⟩ := varintLen_cases hn
    rw [hbytes, ← List.append_nil (_ :: _), getVarint_tagByte hk hvalue]

/-- The response of a server that grants a request, with a greeting and a padding of five bytes: it is not
complete without its last byte. -/
theorem parseTcpResponse_prefix_stable_hello :
    parseTcpResponse (2 ^ 64 - 1) (0x00 :: 0x0b :: (utf8 "hello world".toList ++ [0x05, 0x78, 0x78, 0x78,
      0x78])) = .needMore := by
  have hdone : parseTcpResponse (2 ^ 64 - 1) (0x00 :: 0x0b :: (utf8 "hello world".toList ++
      [0x05, 0x78, 0x78, 0x78, 0x78, 0x78])) = .done (true, "hello world".toList) 19 := by
    decide
  exact ((parseTcpResponse_prefix_stable _).1 _ _ _ _ hdone).2.1 _ (by decide) (by decide)

end Usize

end WutherCore.Hysteria2
