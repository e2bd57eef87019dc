import Mathlib
import WutherCore.Data.AssocMap
import WutherCore.Data.Bit
import WutherCore.Data.Except
import WutherCore.Young.Wire

/-!
# Session authorization and the replay cache

`verify_authorization` accepts a token that is fresh, signed with a known key and not yet in the replay
cache.  The cache drops records by age, and the oldest one when it is full.

* `authorize`: the checks that do not touch the cache; `ReplayCache.checkAndInsert`;
  `verifyAuthorization`.
* `Covered`: a call drops only records of tokens that no call of the run accepts any more.
* `acceptedTokens_nodup`: when all calls are such, no token is accepted twice.

The lock of the cache is not poisoned here.
-/

namespace WutherCore.Young

open WutherCore.Text WutherCore.Data

/-- `AUTH_TOKEN_BYTES`. -/
def authTokenBytes : Nat := 1 + 8 + 8 + 16 + 4 + 32

/-- `YoungKey`. -/
structure YoungKey where
  bytes : Bytes 32
  deriving DecidableEq

/-- The primitives of authorization: SHA-256 from the crate `sha2`, and `URL_SAFE_NO_PAD.decode` of the
crate `base64`. -/
structure AuthPrimitives extends Primitives where
  sha256 : List UInt8 → Bytes 32
  base64Decode : Str → Option (List UInt8)

variable (p : AuthPrimitives)

/-- `YoungKey::id`. -/
def YoungKey.id (key : YoungKey) : Bytes 8 :=
  ⟨(p.sha256 key.bytes.1).1.take 8, by simp [(p.sha256 key.bytes.1).2]⟩

/-- `KeyRing`, with what `KeyRing::new` checks. -/
structure KeyRing where
  keys : List YoungKey
  nonempty : keys ≠ []
  nodup : (keys.map (YoungKey.id p)).Nodup

/-- `KeyRing::find`. -/
def KeyRing.find (keys : KeyRing p) (id : Bytes 8) : Option YoungKey :=
  keys.keys.find? fun key => key.id p = id

/-! ### The token -/

/-- The fields of a token that was found in order. -/
structure Authorization where
  key : YoungKey
  keyId : Bytes 8
  nonce : Bytes 16
  timestamp : UInt64
  capabilities : UInt32

/-- The arguments of a call of `verify_authorization`, without the cache; `authority` and `path` as
their bytes. -/
structure AuthCall where
  encoded : Str
  authority : List UInt8
  path : List UInt8
  keys : KeyRing p
  now : UInt64
  clockSkewSecs : UInt64

/-- `u64::abs_diff`. -/
def absDiff (a b : Nat) : Nat := max a b - min a b

variable {p}

theorem token_length {token : List UInt8}
    (h : ¬(token.length ≠ authTokenBytes ∨ token.head? ≠ some version)) : token.length = 69 := by
  rw [not_or, not_not] at h
  exact h.1

theorem keyId_length {token : List UInt8} (h : token.length = 69) : (slice token 1 9).length = 8 :=
  slice_length (by omega)

theorem nonce_length {token : List UInt8} (h : token.length = 69) : (slice token 17 33).length = 16 :=
  slice_length (by omega)

/-- `verify_authorization` up to the replay cache. -/
def authorize (call : AuthCall p) : Except IoError Authorization :=
  match p.base64Decode call.encoded with
  | none => .error (permissionDenied "Young authorization 编码无效")
  | some token =>
    if h : token.length ≠ authTokenBytes ∨ token.head? ≠ some version then
      .error (permissionDenied "Young authorization 版本或长度无效")
    else
      have hlen := token_length h
      let keyId : Bytes 8 := ⟨slice token 1 9, keyId_length hlen⟩
      let timestamp := u64OfBytes (slice token 9 17)
      let nonce : Bytes 16 := ⟨slice token 17 33, nonce_length hlen⟩
      let capabilities := u32OfBytes (slice token 33 37)
      if call.clockSkewSecs.toNat < absDiff call.now.toNat timestamp.toNat then
        .error (permissionDenied "Young authorization 超出允许时间窗")
      else
        match call.keys.find p keyId with
        | none => .error (permissionDenied "Young key id 未授权")
        | some key => do
          verifyHmac p.toPrimitives key.bytes.1
            [ascii "young/session/v1", call.authority, call.path, slice token 0 37]
            (slice token 37 token.length)
          return ⟨key, keyId, nonce, timestamp, capabilities⟩

theorem authorize_window {call : AuthCall p} {a : Authorization} (h : authorize call = .ok a) :
    absDiff call.now.toNat a.timestamp.toNat ≤ call.clockSkewSecs.toNat := by
  unfold authorize at h
  cases htoken : p.base64Decode call.encoded with
  | none => simp [htoken] at h
  | some token =>
    simp only [htoken] at h
    split_ifs at h with hlen hwindow
    split at h
    · cases h
    · obtain ⟨_, -, h⟩ := bind_eq_ok.1 h
      cases h
      exact not_lt.1 hwindow

theorem authorize_keyId {call : AuthCall p} {a : Authorization} (h : authorize call = .ok a) :
    a.keyId = a.key.id p := by
  unfold authorize at h
  cases htoken : p.base64Decode call.encoded with
  | none => simp [htoken] at h
  | some token =>
    simp only [htoken] at h
    split_ifs at h with hlen hwindow
    split at h
    · cases h
    · rename_i key hkey
      obtain ⟨_, -, h⟩ := bind_eq_ok.1 h
      cases h
      have hfound := List.find?_some hkey
      exact (of_decide_eq_true hfound).symm

/-! ### The cache -/

/-- The record of a token: the identifier of its key and its nonce. -/
def replayKey (keyId : Bytes 8) (nonce : Bytes 16) : List UInt8 := keyId.1 ++ nonce.1

/-- `ReplayCache`: the timestamps of the tokens that were accepted. -/
structure ReplayCache where
  entries : AssocMap (List UInt8) UInt64 := .empty
  maxEntries : Nat := 65536

namespace ReplayCache

/-- `ReplayCache::with_capacity`. -/
def withCapacity (maxEntries : Nat) : ReplayCache := { maxEntries := max maxEntries 1 }

/-- The records that are old enough to be dropped at a call are dropped. -/
def prune (cache : ReplayCache) (now windowSecs : UInt64) : AssocMap (List UInt8) UInt64 :=
  let cutoff := now.toNat - min (windowSecs.toNat * 2) (2 ^ 64 - 1)
  cache.entries.retain fun _ seenAt => cutoff ≤ seenAt.toNat

/-- A cache that is full gives up its oldest record. -/
def makeRoom (cache : ReplayCache) (it : Iteration (List UInt8) UInt64)
    (entries : AssocMap (List UInt8) UInt64) : AssocMap (List UInt8) UInt64 :=
  if cache.maxEntries ≤ entries.size then
    match entries.minBy it fun e => e.2.toNat with
    | some oldest => entries.erase oldest.1
    | none => entries
  else entries

/-- `ReplayCache::check_and_insert`, for the order in which the table is iterated. -/
def checkAndInsert (cache : ReplayCache) (it : Iteration (List UInt8) UInt64) (keyId : Bytes 8)
    (nonce : Bytes 16) (timestamp now windowSecs : UInt64) : Except IoError Unit × ReplayCache :=
  let entries := cache.prune now windowSecs
  if entries.contains (replayKey keyId nonce) then
    (.error (permissionDenied "Young 会话认证重放被拒绝"), { cache with entries := entries })
  else
    let entries := cache.makeRoom it entries
    (.ok (), { cache with entries := entries.insert (replayKey keyId nonce) timestamp })

theorem makeRoom_get? {cache : ReplayCache} {it : Iteration (List UInt8) UInt64}
    {entries : AssocMap (List UInt8) UInt64} {k : List UInt8} {seenAt : UInt64}
    (h : entries.get? k = some seenAt) :
    (cache.makeRoom it entries).get? k = some seenAt ∨
      (cache.maxEntries ≤ entries.size ∧
        ∀ k' seenAt', entries.get? k' = some seenAt' → seenAt.toNat ≤ seenAt'.toNat) := by
  unfold makeRoom
  split_ifs with hfull
  · cases hmin : entries.minBy it fun e => e.2.toNat with
    | none => exact .inl h
    | some oldest =>
      by_cases hk : k = oldest.1
      · obtain ⟨hget, hle⟩ := AssocMap.minBy_mem hmin
        obtain rfl : seenAt = oldest.2 := by
          rw [hk, hget] at h
          exact (Option.some.inj h).symm
        exact .inr ⟨hfull, hle⟩
      · exact .inl ((AssocMap.get?_erase_of_ne entries hk).trans h)
  · exact .inl h

end ReplayCache

/-- `verify_authorization`. -/
def verifyAuthorization (cache : ReplayCache) (it : Iteration (List UInt8) UInt64)
    (call : AuthCall p) : Except IoError (YoungKey × Bytes 16 × UInt32) × ReplayCache :=
  match authorize call with
  | .error e => (.error e, cache)
  | .ok a =>
    match cache.checkAndInsert it a.keyId a.nonce a.timestamp call.now call.clockSkewSecs with
    | (.error e, cache') => (.error e, cache')
    | (.ok (), cache') => (.ok (a.key, a.nonce, a.capabilities), cache')

/-! ### Runs -/

/-- What makes a token: key, nonce and timestamp. -/
abbrev Token := YoungKey × Bytes 16 × UInt64

/-- The token of an authorization. -/
def Authorization.token (a : Authorization) : Token := (a.key, a.nonce, a.timestamp)

/-- The record of a token in the cache. -/
def recordOf (p : AuthPrimitives) (t : Token) : List UInt8 := replayKey (t.1.id p) t.2.1

/-- A call, and the order in which the cache is iterated then. -/
structure AuthStep (p : AuthPrimitives) where
  call : AuthCall p
  iteration : Iteration (List UInt8) UInt64

/-- The token that a step accepts. -/
def acceptedToken (cache : ReplayCache) (step : AuthStep p) : Option Token :=
  match authorize step.call, (verifyAuthorization cache step.iteration step.call).1 with
  | .ok a, .ok _ => some a.token
  | _, _ => none

/-- The tokens that a run accepts, in order. -/
def acceptedTokens (cache : ReplayCache) : List (AuthStep p) → List Token
  | [] => []
  | step :: steps => (acceptedToken cache step).toList ++
      acceptedTokens (verifyAuthorization cache step.iteration step.call).2 steps

/-- A call whose window is at most `window` and at least half of it, and which, if it inserts a token
into a cache that is full, finds the oldest record there older than `window`. -/
structure Covered (window : Nat) (cache : ReplayCache) (call : AuthCall p) : Prop where
  skew_le : call.clockSkewSecs.toNat ≤ window
  le_skew : window ≤ call.clockSkewSecs.toNat * 2
  oldest : ∀ a, authorize call = .ok a →
    (cache.prune call.now call.clockSkewSecs).contains (replayKey a.keyId a.nonce) = false →
    cache.maxEntries ≤ (cache.prune call.now call.clockSkewSecs).size →
    ∀ k seenAt, (cache.prune call.now call.clockSkewSecs).get? k = some seenAt →
      (∀ k' seenAt', (cache.prune call.now call.clockSkewSecs).get? k' = some seenAt' →
        seenAt.toNat ≤ seenAt'.toNat) →
      seenAt.toNat + window < call.now.toNat

/-- All calls of a run are covered, each in the cache that it finds. -/
def CoveredRun (window : Nat) : ReplayCache → List (AuthStep p) → Prop
  | _, [] => True
  | cache, step :: steps => Covered window cache step.call ∧
      CoveredRun window (verifyAuthorization cache step.iteration step.call).2 steps

/-- Every accepted token is on record, or too old to be accepted again from `now` on. -/
def OnRecord (p : AuthPrimitives) (window : Nat) (tokens : List Token) (cache : ReplayCache)
    (now : Nat) : Prop :=
  ∀ t ∈ tokens, cache.entries.get? (recordOf p t) = some t.2.2 ∨ t.2.2.toNat + window < now

variable {window : Nat} {cache : ReplayCache} {step : AuthStep p} {tokens : List Token}

theorem OnRecord.prune {now : Nat} (h : OnRecord p window tokens cache now)
    (hnow : now ≤ step.call.now.toNat) (hc : Covered window cache step.call) :
    ∀ t ∈ tokens, (cache.prune step.call.now step.call.clockSkewSecs).get? (recordOf p t) =
      some t.2.2 ∨ t.2.2.toNat + window < step.call.now.toNat := by
  intro t ht
  rcases h t ht with hrecord | hold
  · by_cases hkeep : step.call.now.toNat - min (step.call.clockSkewSecs.toNat * 2) (2 ^ 64 - 1) ≤
        t.2.2.toNat
    · exact .inl (AssocMap.get?_retain_eq_some.2 ⟨hrecord, decide_eq_true hkeep⟩)
    · have hle := hc.le_skew
      have hbound := step.call.now.toNat_lt
      exact .inr (by omega)
  · exact .inr (by omega)

/-- What a call does: it is refused and at most prunes, or it accepts a token whose record was not
there, and inserts it where there is room. -/
theorem verifyAuthorization_cases (cache : ReplayCache) (step : AuthStep p) :
    (acceptedToken cache step = none ∧
      ((verifyAuthorization cache step.iteration step.call).2 = cache ∨
        (verifyAuthorization cache step.iteration step.call).2 =
          { cache with entries := cache.prune step.call.now step.call.clockSkewSecs })) ∨
    ∃ a, authorize step.call = .ok a ∧ acceptedToken cache step = some a.token ∧
      (cache.prune step.call.now step.call.clockSkewSecs).contains (replayKey a.keyId a.nonce) =
        false ∧
      (verifyAuthorization cache step.iteration step.call).2 =
        { cache with
          entries := (cache.makeRoom step.iteration
            (cache.prune step.call.now step.call.clockSkewSecs)).insert
            (replayKey a.keyId a.nonce) a.timestamp } := by
  cases hauth : authorize step.call with
  | error e => exact .inl ⟨by simp [acceptedToken, hauth], .inl (by simp [verifyAuthorization, hauth])⟩
  | ok a =>
    by_cases hcontains : (cache.prune step.call.now step.call.clockSkewSecs).contains
        (replayKey a.keyId a.nonce) = true
    · have hcall := show cache.checkAndInsert step.iteration a.keyId a.nonce a.timestamp step.call.now
        step.call.clockSkewSecs = _ from if_pos hcontains
      exact .inl ⟨by simp [acceptedToken, verifyAuthorization, hauth, hcall],
        .inr (by simp [verifyAuthorization, hauth, hcall])⟩
    · have hcall := show cache.checkAndInsert step.iteration a.keyId a.nonce a.timestamp step.call.now
        step.call.clockSkewSecs = _ from if_neg hcontains
      exact .inr ⟨a, rfl, by simp [acceptedToken, verifyAuthorization, hauth, hcall],
        by simpa using hcontains, by simp [verifyAuthorization, hauth, hcall]⟩

/-- A covered call keeps every accepted token on record, and accepts none of them again. -/
theorem onRecord_step {now : Nat} (h : OnRecord p window tokens cache now)
    (hnow : now ≤ step.call.now.toNat) (hc : Covered window cache step.call) :
    (∀ t ∈ acceptedToken cache step, t ∉ tokens) ∧
      OnRecord p window (tokens ++ (acceptedToken cache step).toList)
        (verifyAuthorization cache step.iteration step.call).2 step.call.now.toNat := by
  have hprune := h.prune hnow hc
  rcases verifyAuthorization_cases cache step with
    ⟨hnone, hcache | hcache⟩ | ⟨a, hauth, hsome, hcontains, hcache⟩
  · rw [hnone, hcache]
    refine ⟨by simp, fun t ht => ?_⟩
    rcases h t (by simpa using ht) with hrecord | hold
    · exact .inl hrecord
    · exact .inr (by omega)
  · rw [hnone, hcache]
    exact ⟨by simp, fun t ht => hprune t (by simpa using ht)⟩
  · rw [hsome, hcache]
    have hrecord : recordOf p a.token = replayKey a.keyId a.nonce := by
      rw [authorize_keyId hauth]
      rfl
    have habsent : (cache.prune step.call.now step.call.clockSkewSecs).get?
        (replayKey a.keyId a.nonce) = none := by simpa [AssocMap.contains] using hcontains
    refine ⟨?_, fun t ht => ?_⟩
    · -- a token that was accepted before is not on record, so it is too old for the window
      rintro t ⟨⟩ ht
      rcases hprune _ ht with hget | hold
      · rw [hrecord, habsent] at hget
        cases hget
      · have hwindow := authorize_window hauth
        have hle := hc.skew_le
        have hts : a.token.2.2 = a.timestamp := rfl
        rw [hts] at hold
        unfold absDiff at hwindow
        omega
    · rcases List.mem_append.1 ht with ht | ht
      · rcases hprune t ht with hget | hold
        · have hne : recordOf p t ≠ replayKey a.keyId a.nonce := by
            intro heq
            rw [heq, habsent] at hget
            cases hget
          rcases @ReplayCache.makeRoom_get? cache step.iteration _ _ _ hget with
            hkeep | ⟨hfull, hleast⟩
          · exact .inl ((AssocMap.get?_insert_of_ne _ _ hne).trans hkeep)
          · exact .inr (hc.oldest a hauth hcontains hfull _ _ hget hleast)
        · exact .inr hold
      · obtain rfl : t = a.token := by simpa using ht
        left
        rw [hrecord]
        exact AssocMap.get?_insert_self _ _ _

theorem acceptedTokens_nodup_of_onRecord (steps : List (AuthStep p)) {now : Nat}
    (h : OnRecord p window tokens cache now) (hnow : ∀ s ∈ steps, now ≤ s.call.now.toNat)
    (hclock : steps.Pairwise fun s s' => s.call.now.toNat ≤ s'.call.now.toNat)
    (hc : CoveredRun window cache steps) (hnodup : tokens.Nodup) :
    (tokens ++ acceptedTokens cache steps).Nodup := by
  induction steps generalizing cache tokens now with
  | nil => simpa [acceptedTokens] using hnodup
  | cons step steps ih =>
    obtain ⟨hlater, hclock⟩ := List.pairwise_cons.1 hclock
    obtain ⟨hnew, hrecord⟩ := onRecord_step h (hnow step List.mem_cons_self) hc.1
    have hstep : (tokens ++ (acceptedToken cache step).toList).Nodup := by
      cases htoken : acceptedToken cache step with
      | none => simpa using hnodup
      | some t =>
        have ht : t ∉ tokens := hnew t htoken
        refine List.nodup_append.2 ⟨hnodup, by simp, ?_⟩
        rintro x hx _ hy rfl
        obtain rfl : x = t := by simpa using hy
        exact ht hx
    have hrun := ih hrecord hlater hclock hc.2 hstep
    rwa [List.append_assoc] at hrun

/-- **No token is accepted twice**, in a run with a nondecreasing clock, windows that differ by a factor
of two at most, and a cache that only gives up records that are older than the largest window. -/
theorem acceptedTokens_nodup (capacity window : Nat) (steps : List (AuthStep p))
    (hclock : steps.Pairwise fun s s' => s.call.now.toNat ≤ s'.call.now.toNat)
    (hc : CoveredRun window (.withCapacity capacity) steps) :
    (acceptedTokens (.withCapacity capacity) steps).Nodup := by
  have hstart : OnRecord p window [] (.withCapacity capacity) 0 := by simp [OnRecord]
  exact acceptedTokens_nodup_of_onRecord steps hstart (fun _ _ => Nat.zero_le _) hclock hc .nil

theorem size_makeRoom_le (cache : ReplayCache) (it : Iteration (List UInt8) UInt64)
    (entries : AssocMap (List UInt8) UInt64) : (cache.makeRoom it entries).size ≤ entries.size := by
  unfold ReplayCache.makeRoom
  split_ifs
  · cases entries.minBy it fun e => e.2.toNat with
    | none => exact le_refl _
    | some oldest => exact AssocMap.size_erase_le _ _
  · exact le_refl _

/-- A call adds one record at most. -/
theorem size_verifyAuthorization_le (cache : ReplayCache) (step : AuthStep p) :
    (verifyAuthorization cache step.iteration step.call).2.entries.size ≤ cache.entries.size + 1 ∧
      (verifyAuthorization cache step.iteration step.call).2.maxEntries = cache.maxEntries := by
  have hprune : (cache.prune step.call.now step.call.clockSkewSecs).size ≤ cache.entries.size :=
    AssocMap.size_retain_le _ _
  rcases verifyAuthorization_cases cache step with ⟨-, h | h⟩ | ⟨a, -, -, -, h⟩ <;> rw [h]
  · exact ⟨Nat.le_succ _, rfl⟩
  · exact ⟨hprune.trans (Nat.le_succ _), rfl⟩
  · refine ⟨?_, rfl⟩
    rw [AssocMap.size_insert]
    exact Nat.succ_le_succ ((AssocMap.size_erase_le _ _).trans ((size_makeRoom_le _ _ _).trans hprune))

/-- A run that the cache has room for is covered. -/
theorem coveredRun_of_room {steps : List (AuthStep p)}
    (hw : ∀ s ∈ steps, s.call.clockSkewSecs.toNat = window)
    (h : cache.entries.size + steps.length ≤ cache.maxEntries) : CoveredRun window cache steps := by
  induction steps generalizing cache with
  | nil => trivial
  | cons step steps ih =>
    rw [List.forall_mem_cons] at hw
    rw [List.length_cons] at h
    have hprune : (cache.prune step.call.now step.call.clockSkewSecs).size ≤ cache.entries.size :=
      AssocMap.size_retain_le _ _
    obtain ⟨hsize, hmax⟩ := size_verifyAuthorization_le cache step
    exact ⟨⟨hw.1.le, by omega, fun _ _ _ hfull => by omega⟩, ih hw.2 (by omega)⟩

/-- A token of the key of 32 sevens, with the nonce of 16 ones and the timestamp 1000. -/
def onesToken : List UInt8 :=
    [0x01, 0x4b, 0xb0, 0x6f, 0x8e, 0x4e, 0x3a, 0x77, 0x15, 0x00, 0x00, 0x00, 0x00, 0x00, 0x00,
     0x03, 0xe8, 0x01, 0x01, 0x01, 0x01, 0x01, 0x01, 0x01, 0x01, 0x01, 0x01, 0x01, 0x01, 0x01,
     0x01, 0x01, 0x01, 0x00, 0x00, 0x00, 0x03, 0x82, 0xf3, 0x14, 0xb6, 0x64, 0x63, 0x08, 0x39,
     0xaf, 0x2a, 0xef, 0x41, 0x57, 0x5e, 0x3f, 0x00, 0xd3, 0x16, 0x92, 0x70, 0x48, 0x99, 0xdf,
     0x4a, 0xa6, 0x20, 0x89, 0x65, 0xc2, 0xde, 0xf1, 0x9e]

/-- The text of `onesToken`. -/
def onesText : Str := "AUuwb45OOncVAAAAAAAAA-gBAQEBAQEBAQEBAQEBAQEBAAAAA4LzFLZkYwg5ryrvQVdePwDTFpJwSJnfSqYgiWXC3vGe".toList

/-- The token with the nonce of 16 twos. -/
def twosToken : List UInt8 :=
    [0x01, 0x4b, 0xb0, 0x6f, 0x8e, 0x4e, 0x3a, 0x77, 0x15, 0x00, 0x00, 0x00, 0x00, 0x00, 0x00,
     0x03, 0xe8, 0x02, 0x02, 0x02, 0x02, 0x02, 0x02, 0x02, 0x02, 0x02, 0x02, 0x02, 0x02, 0x02,
     0x02, 0x02, 0x02, 0x00, 0x00, 0x00, 0x03, 0x5b, 0x42, 0x94, 0x01, 0x11, 0xed, 0xf3, 0x5c,
     0x54, 0x05, 0x56, 0xb6, 0xae, 0x08, 0xd3, 0x14, 0x8b, 0x99, 0x3c, 0x40, 0x1a, 0xab, 0x99,
     0x82, 0xd8, 0xd7, 0x75, 0xdc, 0xf8, 0x7b, 0xfa, 0x12]

/-- The text of `twosToken`. -/
def twosText : Str := "AUuwb45OOncVAAAAAAAAA-gCAgICAgICAgICAgICAgICAAAAA1tClAER7fNcVAVWtq4I0xSLmTxAGquZgtjXddz4e_oS".toList

/-- SHA-256, HMAC-SHA256 and base64 as they are on the two tokens. -/
def sessionPrimitives : AuthPrimitives where
  hmacSha256 := fun _ message =>
    if 2 ∈ message then ⟨twosToken.drop 37, rfl⟩ else ⟨onesToken.drop 37, rfl⟩
  blake3Xof := fun _ _ _ => 0
  sha256 := fun _ => ⟨
    [0x4b, 0xb0, 0x6f, 0x8e, 0x4e, 0x3a, 0x77, 0x15, 0xd2, 0x01, 0xd5, 0x73, 0xd0, 0xaa, 0x42,
     0x37, 0x62, 0xe5, 0x5d, 0xab, 0xd6, 0x1a, 0x2c, 0x02, 0x27, 0x8f, 0xa5, 0x6c, 0xc6, 0xd2,
     0x94, 0xe0], rfl⟩
  base64Decode := fun text =>
    if text = onesText then some onesToken else if text = twosText then some twosToken else none

/-- A call at 1000 s with a skew of 120 s, for `example.com` and the path `/a`. -/
def sessionStep (text : Str) : AuthStep sessionPrimitives where
  call := {
    encoded := text
    authority := ascii "example.com"
    path := ascii "/a"
    keys := ⟨[⟨List.replicate 32 7, rfl⟩], by simp, by simp⟩
    now := 1000
    clockSkewSecs := 120 }
  iteration := ⟨fun l => l, fun _ => .refl _⟩

/-- What a token of the session says. -/
def authorizationOf (token : List UInt8) (h : token.length = 69) : Authorization where
  key := ⟨List.replicate 32 7, rfl⟩
  keyId := ⟨slice token 1 9, slice_length (by omega)⟩
  timestamp := u64OfBytes (slice token 9 17)
  nonce := ⟨slice token 17 33, slice_length (by omega)⟩
  capabilities := u32OfBytes (slice token 33 37)

section Session

variable {text text' : Str} {token : List UInt8}

/-- A token is accepted if it names the key and has its tag. -/
theorem authorize_session (hdecode : sessionPrimitives.base64Decode text = some token)
    (hlen : token.length = 69) (hhead : token.head? = some version)
    (hkey : slice token 1 9 = slice onesToken 1 9) (htime : slice token 9 17 = slice onesToken 9 17)
    (htag : slice token 37 69 = (sessionPrimitives.hmacSha256 (List.replicate 32 7)
      [ascii "young/session/v1", ascii "example.com", ascii "/a", slice token 0 37].flatten).1) :
    authorize (sessionStep text).call = .ok (authorizationOf token hlen) := by
  have hcall : sessionPrimitives.base64Decode (sessionStep text).call.encoded = some token := hdecode
  have hnow : u64OfBytes (slice onesToken 9 17) = 1000 := by decide +kernel
  have hfind : (sessionStep text).call.keys.find sessionPrimitives ⟨slice onesToken 1 9, rfl⟩ =
      some ⟨List.replicate 32 7, rfl⟩ := by
    dsimp only [sessionStep]
    decide +kernel
  simp only [authorize, hcall]
  rw [dif_neg (by simp [hlen, hhead, authTokenBytes]), htime, hnow, if_neg (by dsimp only [sessionStep]; decide)]
  simp only [hkey, hfind, verifyHmac, hmacTag, hlen]
  rw [if_pos (by exact htag)]
  simp only [authorizationOf, hkey, htime, hnow]
  rfl

theorem authorize_ones (h : sessionPrimitives.base64Decode text = some onesToken) :
    authorize (sessionStep text).call = .ok (authorizationOf onesToken rfl) :=
  authorize_session h rfl rfl rfl rfl (by decide +kernel)

theorem authorize_twos (h : sessionPrimitives.base64Decode text = some twosToken) :
    authorize (sessionStep text).call = .ok (authorizationOf twosToken rfl) :=
  authorize_session h rfl rfl rfl rfl (by decide +kernel)

/-- In a cache for one record the second token pushes out the first. -/
theorem acceptedTokens_evicted_of_decode (h : sessionPrimitives.base64Decode text = some onesToken)
    (h' : sessionPrimitives.base64Decode text' = some twosToken) :
    ¬(acceptedTokens (.withCapacity 1) [sessionStep text, sessionStep text', sessionStep text]).Nodup := by
  simp only [acceptedTokens, acceptedToken, verifyAuthorization, authorize_ones h, authorize_twos h']
  dsimp only [sessionStep]
  decide +kernel
end Session

theorem base64Decode_ones : sessionPrimitives.base64Decode onesText = some onesToken := by
  dsimp only [sessionPrimitives]
  rw [if_pos rfl]

theorem base64Decode_twos : sessionPrimitives.base64Decode twosText = some twosToken := by
  have hne : twosText ≠ onesText := fun h => absurd (String.toList_injective h) (by decide +kernel)
  dsimp only [sessionPrimitives]
  rw [if_neg hne, if_pos rfl]

/-- In a cache with room for three, both tokens are accepted, and the first one is refused then. -/
theorem acceptedTokens_nodup_twoTokens :
    (acceptedTokens (.withCapacity 3) [sessionStep onesText, sessionStep twosText,
      sessionStep onesText]).Nodup :=
  acceptedTokens_nodup 3 120 _ (by simp [sessionStep])
    (coveredRun_of_room (by simp [sessionStep]) (by decide))

/-- **A token is accepted twice**: in a cache for one record, another token pushes it out, while it is
still in the window. -/
theorem acceptedTokens_evicted :
    ([sessionStep onesText, sessionStep twosText, sessionStep onesText].Pairwise
      fun s s' => s.call.now.toNat ≤ s'.call.now.toNat) ∧
    ¬(acceptedTokens (.withCapacity 1) [sessionStep onesText, sessionStep twosText,
      sessionStep onesText]).Nodup := by
  constructor
  · simp [sessionStep]
  · exact acceptedTokens_evicted_of_decode base64Decode_ones base64Decode_twos

end WutherCore.Young
