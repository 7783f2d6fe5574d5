import Individuality.Score.Payouts
import Individuality.Support.Runs
import Mathlib.Data.Nat.Digits.Lemmas

/-! The score pallet's calls.

Participants cash out, redeem their credit and register as people; the manager sets
the schedules; anyone may move the rounds on; and the pallets that hold sessions
onboard participants, set their attendance and offboard them. What happens on the
rest of the chain, and to what the pot can spend, is one call with any result. -/
namespace Individuality.Score
open Support

/-! ### Schedules -/

def maxPersonhoodThresholdTiers : Nat := 16

/-- Tiers are sorted, their thresholds positive, bounded and not decreasing; also the population
covered by the last. -/
def checkPersonhoodThresholdTiers : Nat → Nat → List PersonhoodThresholdTier → Except CallError Nat
  | prevPop, _, [] => .ok prevPop
  | prevPop, prevScore, tier :: rest => do
    ensure (0 < tier.scoreThreshold) .personhoodScoreThresholdZero
    ensure (tier.scoreThreshold ≤ maxPersonhoodThreshold) .personhoodScoreThresholdTooLarge
    ensure (prevPop ≤ tier.populationSizeThreshold) .personhoodScheduleNotSorted
    ensure (prevScore ≤ tier.scoreThreshold) .personhoodScheduleNotMonotonic
    checkPersonhoodThresholdTiers tier.populationSizeThreshold tier.scoreThreshold rest

def validatePersonhoodThresholdTiers (tiers : List PersonhoodThresholdTier) : Except CallError Unit := do
  ensure (tiers ≠ []) .personhoodScheduleEmpty
  let prevPop ← checkPersonhoodThresholdTiers 0 0 tiers
  ensure (prevPop = U32.max) .personhoodScheduleNotTotal

def checkAbsenceGraceTiers : Nat → List AbsenceGraceTier → Except CallError Unit
  | _, [] => .ok ()
  | prevThreshold, tier :: rest => do
    ensure (tier.window ≤ 8) .windowTooLarge
    -- A window of zero is no grace: any absence suspends.
    ensure (tier.allowedMisses < tier.window ∨ tier.window = 0 ∧ tier.allowedMisses = 0)
      .allowedMissesTooLarge
    ensure (prevThreshold ≤ tier.populationSizeThreshold) .absenceScheduleNotSorted
    checkAbsenceGraceTiers tier.populationSizeThreshold rest

def validateAbsenceGraceTiers (tiers : List AbsenceGraceTier) : Except CallError Unit :=
  checkAbsenceGraceTiers 0 tiers

/-- A streak that was one of attendance starts anew. -/
def Streak.resetAttendance : Streak → Streak
  | attended _ => attended 0
  | absent count => absent count

/-! ### The calls -/

inductive Call (T : Config)
  | schedulePayoutRounds (amount count duration : Nat)
  | removePayoutSchedule (index : Nat)
  | transitionRound (roundIndex : RoundIndex)
  | operatePayoutRound (roundIndex : RoundIndex) (limit : Nat)
  | cashOut (who : T.AccountId)
  | redeemCredit (who : T.Who) (destination : T.AccountId)
  | register (who : T.AccountId) (key : Option (T.Member × T.Signature))
  | setAbsenceGraceSchedule (schedule : BoundedVec AbsenceGraceTier 8)
  | setPersonhoodThresholdSchedule
      (schedule : BoundedVec PersonhoodThresholdTier maxPersonhoodThresholdTiers)
  | onboardForRecognition (who : T.AccountId)
  | onboardExternallyRecognized (who : Alias)
  | offboard (who : T.Who)
  | startAttendanceReportSession
  | endAttendanceReportSession
  | setAttendance (who : T.Who) (attended : Bool) (gameIndex : Nat)
  /-- The rest of the chain, and a transfer to the pot or from it. -/
  | elsewhere (world : T.World) (pot : Pot)

namespace State
variable {T : Config} (s : State T)

/-- Trade half the score, rounded up, for points of the current round. -/
def cashOut (who : T.AccountId) : Except CallError (State T) := do
  let participant ← okOr (s.store.participants.get (.account who)) .noScore
  ensure (participant.hasEverReachedPersonhood = false) .hasReachedPersonhood
  ensure (participant.cashedOut = false) .cashOutCooldown
  let reduction := U32.saturatingAdd participant.score 1 / 2
  .ok ((s.awardParticipantPayoutPoints (.account who) reduction).putParticipant (.account who)
    { participant with
      score := participant.score - reduction
      streak := participant.streak.resetAttendance
      cashedOut := true })

/-- The personal id to register with; a suspended person keeps the id it has. -/
def recognizeParticipant (who : T.AccountId) (recognition : Recognition)
    (key : Option (T.Member × T.Signature)) : Except CallError (T.World × Nat) :=
  match recognition, key with
  | .suspended _, some _ => .error .keyMustNotBeProvided
  | .suspended id, none => do
    let world ← okOr (T.recognizePersonhood s.world id none) .people
    .ok (world, id)
  | .notRecognized, none => .error .keyMustBeProvided
  | .notRecognized, some (memberKey, proofOfOwnership) => do
    ensure (T.verifySignature proofOfOwnership who memberKey = true) .invalidProofOfOwnership
    let (id, world) := T.reserveNewId s.world
    let world ← okOr (T.recognizePersonhood world id (some memberKey)) .people
    .ok (world, id)
  | .externallyRecognized, _ | .recognized _, _ => .error .recognized

/-- Register as a person, or resume personhood after a suspension. -/
def register (who : T.AccountId) (key : Option (T.Member × T.Signature)) : Except CallError (State T) := do
  let participant ← okOr (s.store.participants.get (.account who)) .noScore
  ensure (participant.reachedPersonhood = true ∨ s.store.personhoodThreshold ≤ participant.score)
    .hasNotReachedPersonhood
  let (world, id) ← s.recognizeParticipant who participant.recognition key
  .ok ({ s with world := world }.putParticipant (.account who)
    { participant with
      recognition := .recognized id
      reachedPersonhood := true
      hasEverReachedPersonhood := true })

def setAbsenceGraceSchedule (schedule : BoundedVec AbsenceGraceTier 8) :
    Except CallError (State T) := do
  validateAbsenceGraceTiers schedule.toList
  .ok { s with store := { s.store with absenceGraceSchedule := schedule.toList } }

def setPersonhoodThresholdSchedule
    (schedule : BoundedVec PersonhoodThresholdTier maxPersonhoodThresholdTiers) :
    Except CallError (State T) := do
  validatePersonhoodThresholdTiers schedule.toList
  .ok { s with store := { s.store with personhoodThresholdSchedule := schedule.toList } }

/-! ### What other pallets ask for -/

def onboardForRecognition (who : T.AccountId) : Except CallError (State T) :=
  match s.store.onboardForRecognition T.services s.world who with
  | .ok (store, world) => .ok { s with store := store, world := world }
  | .error e => .error (.participants e)

def onboardExternallyRecognized (who : Alias) : Except CallError (State T) :=
  match s.store.onboardExternallyRecognized who with
  | .ok store => .ok { s with store := store }
  | .error e => .error (.participants e)

def offboard (who : T.Who) : State T :=
  let (store, world) := s.store.offboard T.services s.world who
  { s with store := store, world := world }

/-- The thresholds are kept also where the session does not start. -/
def startAttendanceReportSession : State T :=
  let (store, world) := s.store.startAttendanceReportSession T.services s.world
  { s with store := store, world := world.getD s.world }

def endAttendanceReportSession : State T :=
  { s with world := (T.services.endPeopleSetMutationSession s.world).getD s.world }

def setAttendance (who : T.Who) (attended : Bool) (gameIndex : Nat) : Except CallError (State T) :=
  match s.store.setAttendance T.services s.world who attended gameIndex with
  | .ok (store, world, _) => .ok { s with store := store, world := world }
  | .error e => .error (.participants e)

/-- What the pot has on hold is moved by this pallet only. -/
def elsewhere (world : T.World) (pot : Pot) : Except CallError (State T) := do
  ensure (pot.payout = s.pot.payout ∧ pot.credit = s.pot.credit) .currency
  .ok { s with world := world, pot := pot }

/-! ### All calls -/

def exec (block : Nat) : Call T → Except CallError (State T)
  | .schedulePayoutRounds amount count duration => s.schedulePayoutRounds amount count duration
  | .removePayoutSchedule index => s.removePayoutSchedule index
  | .transitionRound roundIndex => s.transitionRound block roundIndex
  | .operatePayoutRound roundIndex limit => s.operatePayoutRound roundIndex limit
  | .cashOut who => s.cashOut who
  | .redeemCredit who destination => s.redeemCredit who destination
  | .register who key => s.register who key
  | .setAbsenceGraceSchedule schedule => s.setAbsenceGraceSchedule schedule
  | .setPersonhoodThresholdSchedule schedule => s.setPersonhoodThresholdSchedule schedule
  | .onboardForRecognition who => s.onboardForRecognition who
  | .onboardExternallyRecognized who => s.onboardExternallyRecognized who
  | .offboard who => .ok (s.offboard who)
  | .startAttendanceReportSession => .ok s.startAttendanceReportSession
  | .endAttendanceReportSession => .ok s.endAttendanceReportSession
  | .setAttendance who attended gameIndex => s.setAttendance who attended gameIndex
  | .elsewhere world pot => s.elsewhere world pot

/-- A call in its block. -/
abbrev Action (T : Config) : Type := Nat × Call T

def execAction (s : State T) (a : Action T) : Except CallError (State T) := s.exec a.1 a.2

end State

/-! ### A small chain -/

/-- Services that always succeed and keep nothing; many people are active. -/
def sampleServices : Services Nat Unit where
  incSufficients w _ := w
  decSufficients w _ := w
  canStartPeopleSetMutationSession _ := true
  startPeopleSetMutationSession w := some w
  endPeopleSetMutationSession w := some w
  suspendPersonhood w _ := w
  activeCount _ := 30000

/-- A currency that refuses nothing the balances allow. -/
def sampleConfig : Config where
  AccountId := Nat
  World := Unit
  Member := Unit
  Signature := Unit
  accountDecEq := inferInstance
  services := sampleServices
  reserveNewId w := (0, w)
  recognizePersonhood w _ _ := some w
  verifySignature _ _ _ := true
  currency := ⟨0, fun _ _ _ _ => true, fun _ _ _ _ => true, fun w _ _ _ => some w⟩
  maxPayoutRoundSchedules := 2
  participantKey
    | .account account => account + 1
    | .person _ => 0

/-- A transfer to the pot. -/
theorem sampleFunds_le : 100 + 0 + 0 ≤ U128.max := by decide

def sampleFunds : Call sampleConfig := .elsewhere () ⟨100, 0, 0, sampleFunds_le⟩

def sampleAccount (account : Nat) : sampleConfig.AccountId := account

def sampleWho (account : Nat) : sampleConfig.Who := .account account

end Individuality.Score
