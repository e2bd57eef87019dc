import WutherCore.Data.Carrier
import WutherCore.Data.Moves

/-!
# Trojan: the request header

`trojan.rs`: the header of a request is kept back until the first bytes are written, so that both leave in
one write.  A read, a flush or a shutdown before that sends the header alone.

* `pollPrefix_spec`, `pollWrite_spec`: what a call sends, and what it keeps.
* `Session.Inv`: the header that was sent and the one that is kept make the header, with the bytes that
  were accepted behind it.
-/

namespace WutherCore.Proto.Trojan

open WutherCore.Data

/-- `PrefixedWriteStream`, with what its inner stream has been given. -/
structure PrefixedWriteStream where
  prefix' : Option (List UInt8)
  wire : List UInt8 := []
  deriving DecidableEq

/-- What comes of a call: its result, the stream, and the answers that were not needed. -/
abbrev Polled (α : Type) := Poll α × PrefixedWriteStream × List Reply

/-- `poll_prefix`, along the answers of the inner stream.  There is no result if they are too few. -/
def pollPrefix : List Reply → PrefixedWriteStream → Option (Polled Unit)
  | replies, ⟨none, wire⟩ => some (.ready (), ⟨none, wire⟩, replies)
  | replies, ⟨some [], wire⟩ => some (.ready (), ⟨none, wire⟩, replies)
  | [], ⟨some (_ :: _), _⟩ => none
  | reply :: replies, ⟨some (b :: bs), wire⟩ =>
    match carry (b :: bs) wire reply with
    | none => none
    | some (.pending, wire) => some (.pending, ⟨some (b :: bs), wire⟩, replies)
    | some (.failed, wire) => some (.failed, ⟨none, wire⟩, replies)
    | some (.ready written, wire) =>
      if written = 0 then some (.failed, ⟨none, wire⟩, replies)
      else
        pollPrefix replies ⟨if written < (b :: bs).length then some ((b :: bs).drop written) else none, wire⟩

/-- The loop of `poll_write`, when `written` bytes of the header and the data have been written. -/
def writeLoop (header data : List UInt8) : List Reply → Nat → List UInt8 → Option (Polled Nat)
  | [], _, _ => none
  | reply :: replies, written, wire =>
    match carry ((header ++ data).drop written) wire reply with
    | none => none
    | some (.pending, wire) =>
      some (.pending, ⟨if written < header.length then some (header.drop written) else none, wire⟩, replies)
    | some (.failed, wire) => some (.failed, ⟨none, wire⟩, replies)
    | some (.ready count, wire) =>
      if count = 0 then some (.failed, ⟨none, wire⟩, replies)
      else if header.length < written + count then
        some (.ready (min (written + count - header.length) data.length), ⟨none, wire⟩, replies)
      else writeLoop header data replies (written + count) wire

/-- `poll_write`. -/
def pollWrite (data : List UInt8) (replies : List Reply) (stream : PrefixedWriteStream) :
    Option (Polled Nat) :=
  match stream.prefix' with
  | none =>
    match replies with
    | [] => none
    | reply :: replies =>
      (carry data stream.wire reply).map fun (result, wire) => (result, ⟨none, wire⟩, replies)
  | some header =>
    if data = [] then
      (pollPrefix replies stream).map fun
        | (.ready (), stream, replies) => (.ready 0, stream, replies)
        | (.failed, stream, replies) => (.failed, stream, replies)
        | (.pending, stream, replies) => (.pending, stream, replies)
    else writeLoop header data replies 0 stream.wire

/-- `poll_read`, `poll_flush` and `poll_shutdown`: the header first, then the call of the inner stream,
which comes to `inner`. -/
def pollThrough (inner : Poll Unit) (replies : List Reply) (stream : PrefixedWriteStream) :
    Option (Polled Unit) :=
  (pollPrefix replies stream).map fun
    | (.ready (), stream, replies) => (inner, stream, replies)
    | (.failed, stream, replies) => (.failed, stream, replies)
    | (.pending, stream, replies) => (.pending, stream, replies)

/-! ### What a call sends -/

/-- The header that has not been sent. -/
def PrefixedWriteStream.kept (stream : PrefixedWriteStream) : List UInt8 := stream.prefix'.getD []

/-- What a call does to the header: `rest` of it is kept, or lost with the stream. -/
theorem pollPrefix_spec {replies replies' : List Reply} {s s' : PrefixedWriteStream} {result : Poll Unit}
    (h : pollPrefix replies s = some (result, s', replies')) :
    ∃ rest, s.wire ++ s.kept = s'.wire ++ rest ∧ rest <:+ s.kept ∧
      (result = .ready () → rest = [] ∧ s'.kept = []) ∧ (result = .pending → s'.kept = rest) := by
  induction replies, s using pollPrefix.induct with
  | case1 replies wire =>
    rw [pollPrefix] at h
    cases h
    exact ⟨[], rfl, List.suffix_refl _, fun _ => ⟨rfl, rfl⟩, nofun⟩
  | case2 replies wire =>
    rw [pollPrefix] at h
    cases h
    exact ⟨[], rfl, List.suffix_refl _, fun _ => ⟨rfl, rfl⟩, nofun⟩
  | case3 => cases h
  | case4 reply replies b bs wire hnone =>
    rw [pollPrefix, hnone] at h
    cases h
  | case5 reply replies b bs wire wire' hpending =>
    rw [pollPrefix, hpending] at h
    cases h
    rcases carry_cases hpending with ⟨-, rfl⟩ | ⟨hno, -⟩ | ⟨n, -, hno, -⟩
    · exact ⟨b :: bs, rfl, List.suffix_refl _, nofun, fun _ => rfl⟩
    · cases hno
    · cases hno
  | case6 reply replies b bs wire wire' hfailed =>
    rw [pollPrefix, hfailed] at h
    cases h
    rcases carry_cases hfailed with ⟨hno, -⟩ | ⟨-, rfl⟩ | ⟨n, -, hno, -⟩
    · cases hno
    · exact ⟨b :: bs, rfl, List.suffix_refl _, nofun, nofun⟩
    · cases hno
  | case7 reply replies b bs wire wire' hzero =>
    rw [pollPrefix, hzero] at h
    cases h
    rcases carry_cases hzero with ⟨hno, -⟩ | ⟨hno, -⟩ | ⟨n, -, hn, rfl⟩
    · cases hno
    · cases hno
    · cases hn
      exact ⟨b :: bs, by simp [PrefixedWriteStream.kept], List.suffix_refl _, nofun, nofun⟩
  | case8 reply replies b bs wire written wire' hready hne ih =>
    rw [pollPrefix, hready] at h
    dsimp only at h
    rw [if_neg hne] at h
    rcases carry_cases hready with ⟨hno, -⟩ | ⟨hno, -⟩ | ⟨n, hle, hn, rfl⟩
    · cases hno
    · cases hno
    cases hn
    have hkept : PrefixedWriteStream.kept
        ⟨if written < (b :: bs).length then some ((b :: bs).drop written) else none,
          wire ++ (b :: bs).take written⟩ = (b :: bs).drop written := by
      unfold PrefixedWriteStream.kept
      split
      · rfl
      · rw [List.drop_eq_nil_of_le (by omega)]
        rfl
    obtain ⟨rest, heq, hsuffix, hdone, hwait⟩ := ih h
    rw [hkept] at heq hsuffix
    refine ⟨rest, ?_, hsuffix.trans (List.drop_suffix _ _), hdone, hwait⟩
    rw [← heq, List.append_assoc, List.take_append_drop]
    rfl

/-- The loop of `poll_write` sends the header, then data. -/
theorem writeLoop_spec {header data : List UInt8} {replies replies' : List Reply} {written : Nat}
    {wire : List UInt8} {s' : PrefixedWriteStream} {result : Poll Nat} (hw : written ≤ header.length)
    (h : writeLoop header data replies written wire = some (result, s', replies')) :
    ∃ rest, rest <:+ header.drop written ∧
      (∀ n, result = .ready n → s'.wire = wire ++ header.drop written ++ data.take n ∧ s'.kept = []) ∧
      ((∀ n, result ≠ .ready n) → wire ++ header.drop written = s'.wire ++ rest) ∧
      (result = .pending → s'.kept = rest) := by
  induction replies generalizing written wire with
  | nil => cases h
  | cons reply replies ih =>
    unfold writeLoop at h
    cases hcarry : carry ((header ++ data).drop written) wire reply with
    | none =>
      rw [hcarry] at h
      cases h
    | some answer =>
      obtain ⟨answer, wire'⟩ := answer
      rw [hcarry] at h
      rcases carry_cases hcarry with ⟨rfl, rfl⟩ | ⟨rfl, rfl⟩ | ⟨count, hcount, rfl, rfl⟩
      · cases h
        refine ⟨header.drop written, List.suffix_refl _, nofun, fun _ => rfl, fun _ => ?_⟩
        unfold PrefixedWriteStream.kept
        split
        · rfl
        · rw [List.drop_eq_nil_of_le (by omega)]
          rfl
      · cases h
        exact ⟨header.drop written, List.suffix_refl _, nofun, fun _ => rfl, nofun⟩
      · dsimp only at h
        rw [List.drop_append_of_le_length hw] at h hcount
        split at h
        · next hzero =>
          cases h
          refine ⟨header.drop written, List.suffix_refl _, nofun, fun _ => ?_, nofun⟩
          rw [hzero, List.take_zero, List.append_nil]
        · split at h
          · next hmore =>
            cases h
            refine ⟨[], List.nil_suffix, fun n hn => ⟨?_, rfl⟩, fun hno => absurd rfl (hno _), nofun⟩
            cases hn
            have hlen : (header.drop written).length = header.length - written := List.length_drop
            rw [List.length_append] at hcount
            rw [List.take_append, List.take_of_length_le (by omega), hlen, List.append_assoc,
              Nat.min_eq_left (by omega), show count - (header.length - written) =
                written + count - header.length by omega]
          · next hmore =>
            have hle : count ≤ (header.drop written).length := by
              rw [List.length_drop]
              omega
            rw [List.take_append_of_le_length hle] at h
            obtain ⟨rest, hsuffix, hready, hother, hpending⟩ := ih (by omega) h
            have hsplit : (header.drop written).take count ++ header.drop (written + count) =
                header.drop written := by
              rw [← List.drop_drop, List.take_append_drop]
            have hback : wire ++ (header.drop written).take count ++ header.drop (written + count) =
                wire ++ header.drop written := by
              rw [List.append_assoc, hsplit]
            rw [hback] at hready hother
            refine ⟨rest, hsuffix.trans ?_, hready, hother, hpending⟩
            rw [← List.drop_drop]
            exact List.drop_suffix _ _

theorem pollWrite_spec {data : List UInt8} {replies replies' : List Reply} {s s' : PrefixedWriteStream}
    {result : Poll Nat} (h : pollWrite data replies s = some (result, s', replies')) :
    ∃ rest, rest <:+ s.kept ∧
      (∀ n, result = .ready n → s'.wire = s.wire ++ s.kept ++ data.take n ∧ s'.kept = []) ∧
      ((∀ n, result ≠ .ready n) → s.wire ++ s.kept = s'.wire ++ rest) ∧
      (result = .pending → s'.kept = rest) := by
  obtain ⟨header, wire⟩ := s
  unfold pollWrite at h
  cases header with
  | none =>
    cases replies with
    | nil => cases h
    | cons reply replies =>
      obtain ⟨⟨answer, wire'⟩, hcarry, heq⟩ := Option.map_eq_some_iff.mp h
      cases heq
      have hkept : PrefixedWriteStream.kept ⟨none, wire⟩ = [] := rfl
      refine ⟨[], List.nil_suffix, ?_, ?_, fun _ => rfl⟩
      · intro n hn
        rcases carry_cases hcarry with ⟨rfl, -⟩ | ⟨rfl, -⟩ | ⟨m, -, rfl, rfl⟩
        · cases hn
        · cases hn
        · cases hn
          exact ⟨by rw [hkept, List.append_nil], rfl⟩
      · intro hno
        rcases carry_cases hcarry with ⟨-, rfl⟩ | ⟨-, rfl⟩ | ⟨m, -, rfl, -⟩
        · rfl
        · rfl
        · exact absurd rfl (hno m)
  | some header =>
    dsimp only at h
    split at h
    · next hempty =>
      obtain ⟨⟨answer, s'', replies''⟩, hprefix, heq⟩ := Option.map_eq_some_iff.mp h
      obtain ⟨rest, hsent, hsuffix, hdone, hwait⟩ := pollPrefix_spec hprefix
      refine ⟨rest, hsuffix, ?_, ?_, ?_⟩
      · intro n hn
        cases answer with
        | ready u =>
          cases heq
          obtain ⟨rfl, hkept⟩ := hdone rfl
          refine ⟨?_, hkept⟩
          rw [hsent, hempty, List.take_nil, List.append_nil, List.append_nil]
        | pending =>
          cases heq
          cases hn
        | failed =>
          cases heq
          cases hn
      · intro _
        cases answer <;> cases heq <;> exact hsent
      · intro hpending
        cases answer with
        | ready u =>
          cases heq
          cases hpending
        | pending =>
          cases heq
          exact hwait rfl
        | failed =>
          cases heq
          cases hpending
    · exact writeLoop_spec (Nat.zero_le _) h

theorem pollThrough_spec {inner result : Poll Unit} {replies replies' : List Reply}
    {s s' : PrefixedWriteStream} (h : pollThrough inner replies s = some (result, s', replies')) :
    ∃ rest, s.wire ++ s.kept = s'.wire ++ rest ∧ rest <:+ s.kept ∧
      (result = .ready () → rest = []) ∧ (result ≠ .failed → s'.kept = rest) := by
  obtain ⟨⟨answer, s'', replies''⟩, hprefix, heq⟩ := Option.map_eq_some_iff.mp h
  obtain ⟨rest, hsent, hsuffix, hdone, hwait⟩ := pollPrefix_spec hprefix
  cases answer with
  | ready u =>
    cases heq
    obtain ⟨rfl, hkept⟩ := hdone rfl
    exact ⟨[], hsent, List.nil_suffix, fun _ => rfl, fun _ => hkept⟩
  | pending =>
    cases heq
    exact ⟨rest, hsent, hsuffix, nofun, fun _ => hwait rfl⟩
  | failed =>
    cases heq
    exact ⟨rest, hsent, hsuffix, nofun, fun hno => absurd rfl hno⟩

/-! ### Sessions -/

/-- The calls of a stream, with what the inner stream answers. -/
inductive Call
  | read (replies : List Reply) (inner : Poll Unit)
  | write (data : List UInt8) (replies : List Reply)
  | flush (replies : List Reply) (inner : Poll Unit)
  | shutdown (replies : List Reply) (inner : Poll Unit)

/-- A stream, the bytes that its writes reported as accepted, whether the last call was a flush or a
shutdown that succeeded, and whether a call has failed. -/
structure Session where
  stream : PrefixedWriteStream
  accepted : List UInt8 := []
  flushed : Bool := false
  failed : Bool := false
  deriving DecidableEq

/-- The stream before the first call: `PrefixedWriteStream::new`. -/
def Session.start (header : List UInt8) : Session := { stream := ⟨some header, []⟩ }

/-- The session after a call that is no write. -/
def Session.afterThrough (session : Session) (flushes : Bool) : Polled Unit → Session
  | (result, stream, _) =>
    { session with stream, flushed := flushes && result == .ready (), failed := result == .failed }

/-- The session after a write. -/
def Session.afterWrite (session : Session) (data : List UInt8) : Polled Nat → Session
  | (.ready n, stream, _) => { session with stream, accepted := session.accepted ++ data.take n, flushed := false }
  | (.pending, stream, _) => { session with stream, flushed := false }
  | (.failed, stream, _) => { session with stream, flushed := false, failed := true }

/-- A call.  A stream that has failed is not called again. -/
def Session.step (session : Session) (call : Call) : Option Session :=
  if session.failed then none
  else
    match call with
    | .read replies inner => (pollThrough inner replies session.stream).map (session.afterThrough false)
    | .write data replies => (pollWrite data replies session.stream).map (session.afterWrite data)
    | .flush replies inner => (pollThrough inner replies session.stream).map (session.afterThrough true)
    | .shutdown replies inner => (pollThrough inner replies session.stream).map (session.afterThrough true)

/-- What has been sent is the first part of the header and the bytes that were accepted; while no call
has failed, what is kept of the header is the other part. -/
structure Session.Inv (header : List UInt8) (s : Session) : Prop where
  sent : s.stream.wire <+: header ++ s.accepted
  live : s.failed = false → s.stream.wire ++ s.stream.kept = header ++ s.accepted
  order : s.failed = false → s.stream.kept ≠ [] → s.accepted = []
  flushed : s.flushed = true → s.stream.wire = header ++ s.accepted

theorem Session.inv_start (header : List UInt8) : Inv header (start header) where
  sent := List.nil_prefix
  live _ := by simp [start, PrefixedWriteStream.kept]
  order _ _ := rfl
  flushed := nofun

theorem ne_nil_of_suffix {l m : List UInt8} (h : l <:+ m) (hl : l ≠ []) : m ≠ [] := by
  rintro rfl
  exact hl (List.suffix_nil.mp h)

theorem Session.Inv.through {header : List UInt8} {s : Session} (hs : s.Inv header) (hlive : s.failed = false)
    {flushes : Bool} {inner : Poll Unit} {replies : List Reply} {polled : Polled Unit}
    (h : pollThrough inner replies s.stream = some polled) : (s.afterThrough flushes polled).Inv header := by
  obtain ⟨result, stream, replies'⟩ := polled
  obtain ⟨rest, hsent, hsuffix, hdone, hkept⟩ := pollThrough_spec h
  have hparts : stream.wire ++ rest = header ++ s.accepted := hsent.symm.trans (hs.live hlive)
  have hkept' : (s.afterThrough flushes (result, stream, replies')).failed = false → stream.kept = rest :=
    fun hno => hkept (by simpa [afterThrough] using hno)
  constructor
  · exact ⟨rest, hparts⟩
  · intro hno
    exact (hkept' hno).symm ▸ hparts
  · intro hno hne
    rw [show (s.afterThrough flushes (result, stream, replies')).stream.kept = stream.kept from rfl,
      hkept' hno] at hne
    exact hs.order hlive (ne_nil_of_suffix hsuffix hne)
  · intro hflushed
    have hready : result = .ready () := by
      simp only [afterThrough, Bool.and_eq_true, beq_iff_eq] at hflushed
      exact hflushed.2
    have hnil := hdone hready
    rw [hnil, List.append_nil] at hparts
    exact hparts

theorem Session.Inv.write {header data : List UInt8} {s : Session} (hs : s.Inv header)
    (hlive : s.failed = false) {replies : List Reply} {polled : Polled Nat}
    (h : pollWrite data replies s.stream = some polled) : (s.afterWrite data polled).Inv header := by
  obtain ⟨result, stream, replies'⟩ := polled
  obtain ⟨rest, hsuffix, hready, hother, hkept⟩ := pollWrite_spec h
  cases result with
  | ready n =>
    obtain ⟨hwire, hnil⟩ := hready n rfl
    have hparts : stream.wire = header ++ (s.accepted ++ data.take n) := by
      rw [hwire, hs.live hlive, List.append_assoc]
    constructor
    · exact ⟨[], by rw [List.append_nil]; exact hparts⟩
    · intro _
      rw [show (s.afterWrite data (.ready n, stream, replies')).stream.kept = stream.kept from rfl, hnil,
        List.append_nil]
      exact hparts
    · intro _ hne
      exact absurd hnil hne
    · nofun
  | pending =>
    have hparts : stream.wire ++ rest = header ++ s.accepted := (hother nofun).symm.trans (hs.live hlive)
    constructor
    · exact ⟨rest, hparts⟩
    · intro _
      exact (hkept rfl).symm ▸ hparts
    · intro _ hne
      rw [show (s.afterWrite data (.pending, stream, replies')).stream.kept = stream.kept from rfl,
        hkept rfl] at hne
      exact hs.order hlive (ne_nil_of_suffix hsuffix hne)
    · nofun
  | failed =>
    have hparts : stream.wire ++ rest = header ++ s.accepted := (hother nofun).symm.trans (hs.live hlive)
    exact ⟨⟨rest, hparts⟩, nofun, nofun, nofun⟩

theorem Session.Inv.step {header : List UInt8} {s s' : Session} {call : Call} (hs : s.Inv header)
    (h : s.step call = some s') : s'.Inv header := by
  unfold Session.step at h
  split at h
  · cases h
  next hlive =>
  have hlive : s.failed = false := Bool.eq_false_iff.mpr hlive
  cases call with
  | write data replies =>
    obtain ⟨polled, hpolled, rfl⟩ := Option.map_eq_some_iff.mp h
    exact hs.write hlive hpolled
  | read replies inner | flush replies inner | shutdown replies inner =>
    obtain ⟨polled, hpolled, rfl⟩ := Option.map_eq_some_iff.mp h
    exact hs.through hlive hpolled

/-- **The header is sent once and first.**  Whatever calls are made and whatever the inner stream answers,
what it has been given is a prefix of the header and the bytes that were accepted, of which a write that
is not ready has sent nothing; after a flush or a shutdown it is all of them. -/
theorem header_sent_once_first (header : List UInt8) (s : Session)
    (h : Reach Session.step anyMove (Session.start header) s) :
    s.stream.wire <+: header ++ s.accepted ∧ (s.flushed = true → s.stream.wire = header ++ s.accepted) := by
  have hs : s.Inv header := h.inv (fun _ _ _ hs _ hm => hs.step hm) (Session.inv_start header)
  exact ⟨hs.sent, hs.flushed⟩

/-- A write that is sent in two parts, with a flush between its two polls. -/
theorem header_sent_once_first_parts : ∃ s, Reach Session.step anyMove (Session.start [1, 2, 3]) s ∧
    s.stream.wire = [1, 2, 3, 7, 8] ∧ s.accepted = [7, 8] := by
  have hmoves : runMoves Session.step (Session.start [1, 2, 3])
      [.write [7, 8] [.took 2, .pending], .flush [.took 1] (.ready ()), .write [7, 8] [.took 2],
        .flush [] (.ready ())] =
      some { stream := ⟨none, [1, 2, 3, 7, 8]⟩, accepted := [7, 8], flushed := true } := by decide +kernel
  have hreach := reach_of_runMoves hmoves
  exact ⟨_, hreach, (header_sent_once_first _ _ hreach).2 rfl, rfl⟩

end WutherCore.Proto.Trojan
