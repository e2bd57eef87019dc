import WutherCore.Text.Str

/-!
# Group selectors

The part of a policy group that a user moves by hand: the pin, the pick that was made last, and the
generation number of the last pin.

* `GroupSelector.setPin`, `restorePin`, `clearPin`, `restorePinAfterFailedCommit`, `setManual`;
* `beginManualProbe` and `completeManualProbe`: a manual probe takes a token when it starts and hands
  it in when it ends, and the token names the generation of the pin that it may release.

Generations are 64-bit counters that wrap around.
-/

namespace WutherCore.Engine

open WutherCore.Text

/-- Who set a pin. -/
inductive PinSource
  | clashApi
  | nativeApi
  | restored
  deriving DecidableEq

/-- `PinSource::as_str`. -/
def PinSource.asStr : PinSource → Str
  | .clashApi => "clash_api".toList
  | .nativeApi => "native_api".toList
  | .restored => "restored".toList

/-- `PinSource::parse`. -/
def PinSource.parse (value : Str) : PinSource :=
  if value = "native_api".toList then .nativeApi
  else if value = "restored".toList then .restored
  else .clashApi

/-- A pin in memory. -/
structure GroupPin where
  node : Str
  generation : UInt64
  createdAtMs : UInt64
  source : PinSource
  deriving DecidableEq

/-- The token of a manual probe. -/
structure ManualProbeToken where
  generation : Option UInt64
  releaseAfterSuccess : Bool
  deriving DecidableEq

/-- The strategies of a group. -/
inductive ChooseStrategy
  | manual
  | smart
  | fast
  | stable
  | spread
  | random
  | weighted
  | chain
  deriving DecidableEq

/-- `group_strategy_name`. -/
def groupStrategyName : ChooseStrategy → Str
  | .manual => "manual".toList
  | .smart => "smart".toList
  | .fast => "fast".toList
  | .stable => "stable".toList
  | .spread => "spread".toList
  | .random => "random".toList
  | .weighted => "weighted".toList
  | .chain => "chain".toList

/-- A group of the configuration. -/
structure GroupPlan where
  choose : ChooseStrategy
  members : List Str
  deriving DecidableEq

/-- A group at run time. -/
structure GroupSelector where
  plan : GroupPlan
  pin : Option GroupPin
  pinGeneration : UInt64
  lastPick : Option Str
  deriving DecidableEq

theorem max_generation (a b : UInt64) : max a b = if a ≤ b then b else a := rfl

theorem max_zero_generation (a : UInt64) : max 0 a = a := by
  have hzero : (0 : UInt64) ≤ a := UInt64.le_iff_toNat_le.2 (Nat.zero_le _)
  rw [max_generation, if_pos hzero]

namespace GroupSelector

variable (s : GroupSelector)

/-- `GroupSelector::new`. -/
def new (plan : GroupPlan) : GroupSelector where
  plan := plan
  pin := none
  pinGeneration := 0
  lastPick := none

/-- `members`. -/
def members : List Str := s.plan.members

/-- `current_pin`. -/
def currentPin : Option GroupPin := s.pin

/-- `set_pin`: the new pin takes the next generation. -/
def setPin (node : Str) (source : PinSource) (nowMs : UInt64) : GroupPin × GroupSelector :=
  let generation := s.pinGeneration + 1
  let pin : GroupPin := { node, generation, createdAtMs := nowMs, source }
  (pin, { s with pin := some pin, pinGeneration := generation, lastPick := some node })

/-- `restore_pin`: the counter catches up with the generation of the pin. -/
def restorePin (pin : GroupPin) : GroupSelector :=
  { s with
    pin := some { pin with source := .restored }
    pinGeneration := max s.pinGeneration pin.generation
    lastPick := some pin.node }

/-- `clear_pin`: the last pick stays. -/
def clearPin : Option GroupPin × GroupSelector := (s.pin, { s with pin := none })

/-- `restore_pin_after_failed_commit`: the counter stays. -/
def restorePinAfterFailedCommit (pin : Option GroupPin) (lastPick : Option Str) : GroupSelector :=
  { s with pin, lastPick }

/-- `set_manual`. -/
def setManual (node : Str) (nowMs : UInt64) : GroupSelector := (s.setPin node .restored nowMs).2

/-- `begin_manual_probe`. -/
def beginManualProbe : ManualProbeToken where
  generation := s.pin.map GroupPin.generation
  releaseAfterSuccess := s.plan.choose ≠ .manual

/-- `complete_manual_probe`. -/
def completeManualProbe (token : ManualProbeToken) (anySuccess : Bool) : Bool × GroupSelector :=
  if !anySuccess || !token.releaseAfterSuccess then (false, s)
  else match token.generation with
    | none => (false, s)
    | some generation =>
      if s.pin.map GroupPin.generation ≠ some generation then (false, s)
      else (true, { s with pin := none })

/-! ### Probes -/

variable {s}

theorem completeManualProbe_cases (s : GroupSelector) (token : ManualProbeToken)
    (anySuccess : Bool) :
    s.completeManualProbe token anySuccess = (false, s) ∨
      s.completeManualProbe token anySuccess = (true, { s with pin := none }) ∧
        token.releaseAfterSuccess = true ∧
        ∃ pin, s.pin = some pin ∧ token.generation = some pin.generation := by
  unfold completeManualProbe
  by_cases hflags : (!anySuccess || !token.releaseAfterSuccess) = true
  · rw [if_pos hflags]
    exact .inl rfl
  · rw [if_neg hflags]
    have hrelease : token.releaseAfterSuccess = true := by
      cases h : token.releaseAfterSuccess with
      | true => rfl
      | false => simp [h] at hflags
    cases hgen : token.generation with
    | none => exact .inl rfl
    | some generation =>
      by_cases hpin : s.pin.map GroupPin.generation = some generation
      · obtain ⟨pin, hs, rfl⟩ := Option.map_eq_some_iff.1 hpin
        exact .inr ⟨if_neg (not_not.2 hpin), hrelease, pin, hs, rfl⟩
      · exact .inl (if_pos hpin)

end GroupSelector

end WutherCore.Engine
