import WutherCore.Data.Loop
import WutherCore.Data.Run
import WutherCore.Health.UrlTest
import WutherCore.Young.FlowOpen

/-!
# The reply to a URL test

`send_head_recv_status` sends a `HEAD` request and reads the head of the reply: a line with the status, then lines
up to the first empty one.  The texts of its errors quote the first line, cut after 40 bytes.

* `sendHeadRecvStatus_exact_iff`: it does not panic, and reads the head and nothing after it, exactly if the cut is
  at the end of a character wherever an error quotes the line.
-/

namespace WutherCore.Health

open WutherCore.Data WutherCore.Text
open WutherCore.Ruleset (utf8)
open WutherCore.Ruleset.Srs (fromUtf8)
open WutherCore.Young (fromUtf8_utf8)

/-- `Range` of `int_ranges.rs`. -/
structure IntRange where
  start : UInt16
  stop : UInt16

/-- `IntRanges`. -/
structure IntRanges where
  parts : List IntRange := []

/-- `IntRanges::check`. -/
def IntRanges.check (expected : IntRanges) (status : UInt16) : Bool :=
  expected.parts.isEmpty || expected.parts.any fun r => decide (r.start ≤ status) && decide (status ≤ r.stop)

/-- `ProbeResponse`. -/
structure ProbeResponse where
  reusable : Bool
  deriving DecidableEq

/-- The connection: what the node still sends, the error that ends it, if one does, and what comes of writing to it
and of a flush. -/
structure BufStream where
  reply : List UInt8
  readError : Option Str := none
  writeAll : List UInt8 → Except Str Unit := fun _ => .ok ()
  flush : Except Str Unit := .ok ()

/-- The bytes up to the first newline, and those after it. -/
def splitLine : List UInt8 → List UInt8 × List UInt8
  | [] => ([], [])
  | b :: bs => if b = 10 then ([b], bs) else (b :: (splitLine bs).1, (splitLine bs).2)

/-- `read_until(b'\n', ..)`. -/
def BufStream.readUntil (stream : BufStream) : Except Str (List UInt8 × BufStream) :=
  let (line, rest) := splitLine stream.reply
  match stream.readError with
  | some error => if line.getLast? = some 10 then .ok (line, { stream with reply := rest }) else .error error
  | none => .ok (line, { stream with reply := rest })

/-- `&s[..n]`: no value if `n` is not the end of a character. -/
def sliceTo : (s : Str) → (n : Nat) → Option Str
  | _, 0 => some []
  | [], _ + 1 => none
  | c :: s, n + 1 => if c.utf8Size ≤ n + 1 then (sliceTo s (n + 1 - c.utf8Size)).map (c :: ·) else none

/-- `split_whitespace`. -/
def splitWhitespace (s : Str) : List Str := (s.splitOnP isWhitespace).filter (· ≠ [])

/-- `MAX_HEADER_BYTES`. -/
def maxHeaderBytes : Nat := 32 * 1024

/-- The request. -/
def headRequest (path hostHeader : Str) : Str :=
  "HEAD ".toList ++ path ++ " HTTP/1.1\r\nHost: ".toList ++ hostHeader ++
    "\r\nUser-Agent: wuthercore-urltest/1.0\r\nConnection: keep-alive\r\nAccept: */*\r\n\r\n".toList

/-- The start of a line that the function takes for HTTP. -/
def isHttpLine (line : Str) : Bool := "HTTP/1.0".toList.isPrefixOf line || "HTTP/1.1".toList.isPrefixOf line

/-- The status of the first line. -/
def statusCode (line : Str) : Option UInt16 := (splitWhitespace line)[1]?.bind parseU16

/-- `Connection: close`. -/
def closesConnection (header : List UInt8) : Bool :=
  match fromUtf8 header with
  | none => false
  | some header =>
    match splitOnce ':' header with
    | none => false
    | some (name, value) => eqIgnoreAsciiCase (trim name) "connection".toList &&
        (value.splitOn ',').any fun token => eqIgnoreAsciiCase (trim token) "close".toList

/-- An empty line. -/
def IsBlank (line : List UInt8) : Prop := line = [13, 10] ∨ line = [10]

instance (line : List UInt8) : Decidable (IsBlank line) := inferInstanceAs (Decidable (_ ∨ _))

theorem splitLine_append : ∀ bytes : List UInt8, (splitLine bytes).1 ++ (splitLine bytes).2 = bytes
  | [] => rfl
  | b :: bs => by
    rw [splitLine]
    split_ifs with h
    · rfl
    · exact congrArg (b :: ·) (splitLine_append bs)

theorem readUntil_append {stream next : BufStream} {line : List UInt8} (h : stream.readUntil = .ok (line, next)) :
    stream.reply = line ++ next.reply := by
  have happend := splitLine_append stream.reply
  unfold BufStream.readUntil at h
  cases herror : stream.readError with
  | none =>
    simp only [herror, Except.ok.injEq, Prod.mk.injEq] at h
    rw [← h.1, ← h.2, happend]
  | some error =>
    simp only [herror] at h
    split_ifs at h
    simp only [Except.ok.injEq, Prod.mk.injEq] at h
    rw [← h.1, ← h.2, happend]

/-- The loop over the lines after the first. -/
def readHeaders (stream : BufStream) (total : Nat) (reusable : Bool) :
    Except DelayError (ProbeResponse × BufStream) :=
  match _hread : stream.readUntil with
  | .error error => .error (.http error)
  | .ok (header, next) =>
      if _hempty : header = [] then .error .closed
      else
        let total := Checked.saturatingAdd 64 total header.length
        if maxHeaderBytes < total then .error (.http "response headers exceed 32 KiB".toList)
        else if IsBlank header then .ok (⟨reusable⟩, next)
        else readHeaders next total (reusable && !closesConnection header)
termination_by stream.reply.length
decreasing_by
  have hlength := congrArg List.length (readUntil_append _hread)
  have hpos := List.length_pos_iff.2 _hempty
  rw [List.length_append] at hlength
  omega

section

-- `{:?}` of a string.
variable (debug : Str → Str)

/-- An error that quotes the first line. -/
def quoting (text : String) (line : Str) : Ending DelayError (ProbeResponse × BufStream) :=
  match sliceTo line (min (utf8 line).length 40) with
  | none => .panic
  | some cut => .error (.http (text.toList ++ debug cut))

/-- The end of the function, from the first line on. -/
def afterStatusLine (expected : IntRanges) (statusLine : List UInt8) (stream : BufStream) :
    Ending DelayError (ProbeResponse × BufStream) :=
  let line := (fromUtf8 statusLine).getD []
  if isHttpLine line = false then quoting debug "non-HTTP reply: " line
  else match statusCode line with
    | none => quoting debug "bad status line: " line
    | some code =>
        if expected.check code = false then .error (.statusMismatch code)
        else match readHeaders stream statusLine.length ("HTTP/1.1".toList.isPrefixOf line) with
          | .error error => .error error
          | .ok response => .ok response

/-- `send_head_recv_status`. -/
def sendHeadRecvStatus (stream : BufStream) (hostHeader path : Str) (expected : IntRanges) :
    Ending DelayError (ProbeResponse × BufStream) :=
  match stream.writeAll (utf8 (headRequest path hostHeader)) with
  | .error error => .error (.http error)
  | .ok () =>
    match stream.flush with
    | .error error => .error (.http error)
    | .ok () =>
      match stream.readUntil with
      | .error error => .error (.http error)
      | .ok (statusLine, next) =>
          if statusLine = [] then .error .closed else afterStatusLine debug expected statusLine next

/-! ### What is read -/

/-- A line with its newline. -/
def IsLine (line : List UInt8) : Prop := ∃ text, line = text ++ [10] ∧ 10 ∉ text

/-- Lines up to the first empty one. -/
def IsHead (head : List UInt8) : Prop :=
  ∃ (lines : List (List UInt8)) (last : List UInt8),
    head = lines.flatten ++ last ∧ (∀ line ∈ lines, IsLine line ∧ ¬IsBlank line) ∧ IsBlank last

theorem IsHead.append {line head : List UInt8} (hline : IsLine line) (hblank : ¬IsBlank line) (h : IsHead head) :
    IsHead (line ++ head) := by
  obtain ⟨lines, last, rfl, hlines, hlast⟩ := h
  refine ⟨line :: lines, last, ?_, ?_, hlast⟩
  · rw [List.flatten_cons, List.append_assoc]
  · rw [List.forall_mem_cons]
    exact ⟨⟨hline, hblank⟩, hlines⟩

theorem IsHead.ne_nil {head : List UInt8} (h : IsHead head) : head ≠ [] := by
  obtain ⟨lines, last, rfl, -, rfl | rfl⟩ := h <;> simp

theorem splitLine_line : ∀ bytes : List UInt8, IsLine (splitLine bytes).1 ∨ (splitLine bytes).2 = []
  | [] => .inr rfl
  | b :: bs => by
    rw [splitLine]
    split_ifs with h
    · exact .inl ⟨[], by rw [h]; rfl, List.not_mem_nil⟩
    · rcases splitLine_line bs with ⟨text, htext, hnot⟩ | hrest
      · refine .inl ⟨b :: text, congrArg (b :: ·) htext, ?_⟩
        rw [List.mem_cons, not_or]
        exact ⟨Ne.symm h, hnot⟩
      · exact .inr hrest

theorem readUntil_line {stream next : BufStream} {line : List UInt8} (h : stream.readUntil = .ok (line, next)) :
    IsLine line ∨ next.reply = [] := by
  have hline := splitLine_line stream.reply
  unfold BufStream.readUntil at h
  cases herror : stream.readError with
  | none =>
    simp only [herror, Except.ok.injEq, Prod.mk.injEq] at h
    rwa [← h.1, ← h.2]
  | some error =>
    simp only [herror] at h
    split_ifs at h
    simp only [Except.ok.injEq, Prod.mk.injEq] at h
    rwa [← h.1, ← h.2]

/-- The loop reads the lines up to the first empty one. -/
theorem readHeaders_ok {stream next : BufStream} {total : Nat} {reusable : Bool} {probe : ProbeResponse}
    (h : readHeaders stream total reusable = .ok (probe, next)) :
    ∃ head, stream.reply = head ++ next.reply ∧ IsHead head ∧ total + head.length ≤ maxHeaderBytes := by
  induction hsize : stream.reply.length using Nat.strong_induction_on generalizing stream total reusable with
  | h size ih =>
    rw [readHeaders] at h
    split at h
    · exact absurd h (by simp)
    · next header rest hread =>
      have happend := readUntil_append hread
      dsimp only at h
      split_ifs at h with hempty htotal hblank
      · -- The first empty line.
        obtain ⟨-, rfl⟩ := Prod.mk.inj (Except.ok.inj h)
        refine ⟨header, happend, ⟨[], header, rfl, by simp, hblank⟩, ?_⟩
        rwa [not_lt, Checked.saturatingAdd_le (by decide)] at htotal
      · have hless : rest.reply.length < size := by
          have hlength := congrArg List.length happend
          have hpos := List.length_pos_iff.2 hempty
          rw [List.length_append] at hlength
          omega
        obtain ⟨head, hhead, hlines, hmax⟩ := ih _ hless h rfl
        rcases readUntil_line hread with hline | hend
        · refine ⟨header ++ head, ?_, hlines.append hline hblank, ?_⟩
          · rw [happend, hhead, List.append_assoc]
          · rw [not_lt, Checked.saturatingAdd_le (by decide)] at htotal
            have hlimit : maxHeaderBytes = 32768 := rfl
            rw [Checked.saturatingAdd] at hmax
            rw [List.length_append]
            omega
        · -- Nothing is left, so there is no empty line.
          rw [hend] at hhead
          exact absurd (List.append_eq_nil_iff.1 hhead.symm).1 hlines.ne_nil

/-! ### The cut of the first line -/

/-- The end of a character. -/
def CharBoundary (s : Str) (n : Nat) : Prop := ∃ front back, s = front ++ back ∧ (utf8 front).length = n

theorem length_utf8_cons (c : Char) (s : Str) : (utf8 (c :: s)).length = c.utf8Size + (utf8 s).length := by
  rw [utf8, List.flatMap_cons, List.length_append, String.length_utf8EncodeChar]
  rfl

theorem charBoundary_length (s : Str) : CharBoundary s (utf8 s).length := ⟨s, [], (List.append_nil s).symm, rfl⟩

theorem sliceTo_isSome_iff (s : Str) (n : Nat) : (sliceTo s n).isSome = true ↔ CharBoundary s n := by
  induction s generalizing n with
  | nil =>
    cases n with
    | zero => exact iff_of_true rfl (charBoundary_length [])
    | succ n =>
      refine iff_of_false Bool.false_ne_true ?_
      rintro ⟨front, back, hs, hn⟩
      obtain ⟨rfl, -⟩ := List.append_eq_nil_iff.1 hs.symm
      exact absurd hn (Nat.succ_ne_zero n).symm
  | cons c s ih =>
    have hpos := c.utf8Size_pos
    cases n with
    | zero => exact iff_of_true rfl ⟨[], c :: s, rfl, rfl⟩
    | succ n =>
      rw [sliceTo]
      split_ifs with hsize
      · rw [Option.isSome_map, ih]
        constructor
        · rintro ⟨front, back, rfl, hn⟩
          exact ⟨c :: front, back, rfl, by rw [length_utf8_cons]; omega⟩
        · rintro ⟨front, back, hs, hn⟩
          cases front with
          | nil => exact absurd hn (Nat.succ_ne_zero n).symm
          | cons d front =>
            obtain ⟨rfl, rfl⟩ := List.cons.inj hs
            rw [length_utf8_cons] at hn
            exact ⟨front, back, rfl, by omega⟩
      · refine iff_of_false Bool.false_ne_true ?_
        rintro ⟨front, back, hs, hn⟩
        cases front with
        | nil => exact absurd hn (Nat.succ_ne_zero n).symm
        | cons d front =>
          obtain ⟨rfl, rfl⟩ := List.cons.inj hs
          rw [length_utf8_cons] at hn
          omega

/-- The cut of a line after 40 bytes is inside a character. -/
def CutsCharacter (line : Str) : Prop := 40 < (utf8 line).length ∧ ¬CharBoundary line 40

theorem not_cutsCharacter_nil : ¬CutsCharacter [] := fun h => absurd h.1 (by decide)

theorem quoting_eq_panic_iff (text : String) (line : Str) :
    quoting debug text line = .panic ↔ CutsCharacter line := by
  have hcut := sliceTo_isSome_iff line (min (utf8 line).length 40)
  have hmin : CharBoundary line (min (utf8 line).length 40) ↔ ¬CutsCharacter line := by
    rw [CutsCharacter, not_and, not_not]
    rcases Nat.lt_or_ge 40 (utf8 line).length with hlong | hshort
    · rw [Nat.min_eq_right hlong.le]
      exact ⟨fun h _ => h, fun h => h hlong⟩
    · rw [Nat.min_eq_left hshort]
      exact iff_of_true (charBoundary_length line) fun h => absurd h (by omega)
  rw [hmin] at hcut
  rw [quoting]
  cases hslice : sliceTo line (min (utf8 line).length 40) with
  | none =>
    rw [hslice] at hcut
    exact iff_of_true rfl (not_not.1 fun h => Bool.false_ne_true (hcut.2 h))
  | some cut =>
    rw [hslice] at hcut
    exact iff_of_false (fun h => by cases h) (hcut.1 rfl)

theorem quoting_ne_ok (text : String) (line : Str) (response : ProbeResponse × BufStream) :
    quoting debug text line ≠ .ok response := by
  rw [quoting]
  cases sliceTo line (min (utf8 line).length 40) <;> exact fun h => by cases h

/-! ### Exact exactly if no character is cut -/

/-- It does not panic, and what it reads is the head of the reply. -/
def Exact (stream : BufStream) (result : Ending DelayError (ProbeResponse × BufStream)) : Prop :=
  result ≠ .panic ∧ ∀ probe next, result = .ok (probe, next) →
    ∃ head, stream.reply = head ++ next.reply ∧ IsHead head ∧ head.length ≤ maxHeaderBytes

/-- An error quotes the first line of the reply, and cuts a character of it. -/
def QuotesCutLine (stream : BufStream) (hostHeader path : Str) : Prop :=
  stream.writeAll (utf8 (headRequest path hostHeader)) = .ok () ∧ stream.flush = .ok () ∧
    ∃ statusLine next line, stream.readUntil = .ok (statusLine, next) ∧ fromUtf8 statusLine = some line ∧
      (isHttpLine line = false ∨ statusCode line = none) ∧ CutsCharacter line

theorem afterStatusLine_eq_panic_iff (expected : IntRanges) (statusLine : List UInt8) (stream : BufStream) :
    afterStatusLine debug expected statusLine stream = .panic ↔
      ∃ line, fromUtf8 statusLine = some line ∧ (isHttpLine line = false ∨ statusCode line = none) ∧
        CutsCharacter line := by
  cases hline : fromUtf8 statusLine with
  | none =>
    -- The line is empty for the function.
    have hempty := not_cutsCharacter_nil
    have hhttp : isHttpLine [] = false := by decide
    simp [afterStatusLine, hline, hhttp, quoting_eq_panic_iff, hempty]
  | some line =>
    simp only [afterStatusLine, hline, Option.getD_some, Option.some.injEq, exists_eq_left']
    split_ifs with hhttp
    · rw [quoting_eq_panic_iff]
      simp [hhttp]
    · cases hcode : statusCode line with
      | none => simp [quoting_eq_panic_iff]
      | some code =>
        dsimp only
        split_ifs
        · simp [hhttp]
        · cases readHeaders stream statusLine.length ("HTTP/1.1".toList.isPrefixOf line) <;> simp [hhttp]

theorem afterStatusLine_ok {expected : IntRanges} {statusLine : List UInt8} {stream next : BufStream}
    {probe : ProbeResponse} (h : afterStatusLine debug expected statusLine stream = .ok (probe, next)) :
    isHttpLine ((fromUtf8 statusLine).getD []) = true ∧
      ∃ head, stream.reply = head ++ next.reply ∧ IsHead head ∧
      statusLine.length + head.length ≤ maxHeaderBytes := by
  rw [afterStatusLine] at h
  split_ifs at h with hhttp
  · exact absurd h (quoting_ne_ok debug _ _ _)
  · refine ⟨by simpa using hhttp, ?_⟩
    cases hcode : statusCode ((fromUtf8 statusLine).getD []) with
    | none =>
      simp only [hcode] at h
      exact absurd h (quoting_ne_ok debug _ _ _)
    | some code =>
      simp only [hcode] at h
      split_ifs at h
      split at h
      · cases h
      · next response hread =>
        obtain rfl := Ending.ok.inj h
        exact readHeaders_ok hread

theorem not_isBlank_of_isHttpLine {statusLine : List UInt8}
    (h : isHttpLine ((fromUtf8 statusLine).getD []) = true) : ¬IsBlank statusLine := by
  rintro (rfl | rfl)
  · rw [show ([13, 10] : List UInt8) = utf8 ['\r', '\n'] from rfl, fromUtf8_utf8] at h
    exact absurd h (by decide)
  · rw [show ([10] : List UInt8) = utf8 ['\n'] from rfl, fromUtf8_utf8] at h
    exact absurd h (by decide)

theorem sendHeadRecvStatus_eq_panic_iff (stream : BufStream) (hostHeader path : Str) (expected : IntRanges) :
    sendHeadRecvStatus debug stream hostHeader path expected = .panic ↔ QuotesCutLine stream hostHeader path := by
  rw [sendHeadRecvStatus, QuotesCutLine]
  cases hwrite : stream.writeAll (utf8 (headRequest path hostHeader)) with
  | error e => simp
  | ok u =>
    cases hflush : stream.flush with
    | error e => simp
    | ok u =>
      cases hread : stream.readUntil with
      | error e => simp
      | ok read =>
        obtain ⟨statusLine, rest⟩ := read
        dsimp only
        split_ifs with hempty
        · have hnil : fromUtf8 statusLine = some [] := hempty ▸ fromUtf8_utf8 []
          simp [hnil, not_cutsCharacter_nil]
        · rw [afterStatusLine_eq_panic_iff]
          simp

theorem sendHeadRecvStatus_ok {stream next : BufStream} {hostHeader path : Str} {expected : IntRanges}
    {probe : ProbeResponse} (h : sendHeadRecvStatus debug stream hostHeader path expected = .ok (probe, next)) :
    ∃ head, stream.reply = head ++ next.reply ∧ IsHead head ∧ head.length ≤ maxHeaderBytes := by
  rw [sendHeadRecvStatus] at h
  split at h
  · cases h
  split at h
  · cases h
  split at h
  · cases h
  next statusLine rest hread =>
    split_ifs at h with hempty
    obtain ⟨hhttp, head, hhead, hlines, hmax⟩ := afterStatusLine_ok debug h
    have hblank := not_isBlank_of_isHttpLine hhttp
    rcases readUntil_line hread with hline | hend
    · refine ⟨statusLine ++ head, ?_, hlines.append hline hblank, ?_⟩
      · rw [readUntil_append hread, hhead, List.append_assoc]
      · rwa [List.length_append]
    · rw [hend] at hhead
      exact absurd (List.append_eq_nil_iff.1 hhead.symm).1 hlines.ne_nil

/-- It does not panic, and reads the head of the reply and nothing more, exactly if no error cuts a character. -/
theorem sendHeadRecvStatus_exact_iff (stream : BufStream) (hostHeader path : Str) (expected : IntRanges) :
    Exact stream (sendHeadRecvStatus debug stream hostHeader path expected) ↔
      ¬QuotesCutLine stream hostHeader path := by
  rw [Exact, ne_eq, sendHeadRecvStatus_eq_panic_iff]
  exact and_iff_left fun probe next => sendHeadRecvStatus_ok debug

/-- A line of another protocol whose 40th byte is in the middle of a character. -/
def greeting : Str := List.replicate 39 'a' ++ ['é', '\n']

/-- The function panics on it. -/
theorem sendHeadRecvStatus_greeting :
    sendHeadRecvStatus id { reply := utf8 greeting } "example.com".toList "/".toList {} = .panic ∧
      ¬Exact { reply := utf8 greeting }
        (sendHeadRecvStatus id { reply := utf8 greeting } "example.com".toList "/".toList {}) := by
  have hread : BufStream.readUntil { reply := utf8 greeting } = .ok (utf8 greeting, { reply := [] }) := rfl
  have hcut : CutsCharacter greeting := by
    refine ⟨by decide, ?_⟩
    rw [← sliceTo_isSome_iff]
    decide
  have hpanic := (sendHeadRecvStatus_eq_panic_iff id { reply := utf8 greeting } "example.com".toList "/".toList {}).2
    ⟨rfl, rfl, utf8 greeting, _, greeting, hread, fromUtf8_utf8 greeting, .inl (by decide), hcut⟩
  exact ⟨hpanic, fun hexact => hexact.1 hpanic⟩

end

end WutherCore.Health
