import Individuality.Score.Participants
import Individuality.Support.Iteration
import Individuality.Support.Pot
import Mathlib.Logic.Function.Basic

/-! The score pallet: rounds of payouts.

Points are collected in a current round; once it is over they are paid out, as
credit that a participant redeems later. All of it comes from one account, the
pot, which keeps on hold what is scheduled, planned or being paid out, and what
participants are owed. `Config` is what the pallet is generic over: what it asks
of other pallets and of the currency, and the order in which storage walks a
round's points. -/
namespace Individuality.Score
open Support

abbrev RoundIndex := Nat

/-! ### Rounds -/

/-- The parameters of the payout rounds of a schedule. -/
structure PayoutSchedule where
  remaining : Nat
  amountPerRound : Nat
  duration : Nat
  deriving DecidableEq, Repr

/-- The planning of a round; points are accumulated elsewhere. -/
structure RoundInfo where
  finishAt : Nat
  credit : Nat
  deriving DecidableEq, Repr

/-- A round that is distributing its credit according to points. -/
structure RoundPayout where
  remainingBalance : Nat
  pointPrice : Nat
  remainder : Nat
  totalPoints : Nat
  deriving DecidableEq, Repr

namespace RoundPayout

/-- The payout of a round over `credit`, once its points are counted. -/
def ofRound (credit points : Nat) : RoundPayout :=
  let pointPrice := credit / points
  ⟨credit, pointPrice, credit - U128.saturatingMul pointPrice points, points⟩

/-- What some of a round's points are worth: the remainder of the division by the total is shared
out in proportion. -/
def reward (round : RoundPayout) (points : Nat) : Nat :=
  U128.saturatingAdd (U128.saturatingMul round.pointPrice points)
    (U128.saturatingMul round.remainder points / round.totalPoints)

end RoundPayout

/-! ### The state -/

/-- What the pallet is configured with. -/
structure Config where
  AccountId : Type
  World : Type
  Member : Type
  Signature : Type
  accountDecEq : DecidableEq AccountId
  services : Services AccountId World
  reserveNewId : World → Nat × World
  recognizePersonhood : World → Nat → Option Member → Option World
  /-- Whether a signature over an account's registration message was made with a key. -/
  verifySignature : Signature → AccountId → Member → Bool
  currency : Currency AccountId World
  maxPayoutRoundSchedules : Nat
  /-- Where storage keeps what it stores under a participant. -/
  participantKey : AccountOrPerson AccountId → Nat

namespace Config
variable (T : Config)

instance : DecidableEq T.AccountId := T.accountDecEq

abbrev Who : Type := AccountOrPerson T.AccountId

end Config

structure State (T : Config) where
  store : Store T.AccountId
  currentRoundPoints : Nat
  currentRoundIndex : RoundIndex
  roundsPointsForParticipant : RoundIndex → StorageMap T.Who Nat
  roundPayouts : StorageMap RoundIndex RoundPayout
  roundPlanning : Option RoundInfo
  roundSchedules : BoundedVec PayoutSchedule T.maxPayoutRoundSchedules
  pot : Pot
  world : T.World

/-- Why a call of the pallet fails. -/
inductive CallError
  | hasNotReachedPersonhood
  | noReward
  | noScore
  | noSchedule
  | tooManySchedules
  | recognized
  | cashOutCooldown
  | roundOnGoingOrNoSchedule
  | noRound
  | keyMustBeProvided
  | keyMustNotBeProvided
  | hasReachedPersonhood
  | invalidProofOfOwnership
  | windowTooLarge
  | allowedMissesTooLarge
  | absenceScheduleNotSorted
  | personhoodScheduleEmpty
  | personhoodScoreThresholdZero
  | personhoodScoreThresholdTooLarge
  | personhoodScheduleNotSorted
  | personhoodScheduleNotMonotonic
  | personhoodScheduleNotTotal
  /-- An error of onboarding, of the people pallet or of the currency. -/
  | participants (error : Error)
  | people
  | currency
  deriving DecidableEq, Repr

namespace State
variable {T : Config}

/-- The state before the first call. -/
def genesis (T : Config) (world : T.World) : State T where
  store := .genesis T.AccountId
  currentRoundPoints := 0
  currentRoundIndex := 0
  roundsPointsForParticipant := fun _ => ∅
  roundPayouts := ∅
  roundPlanning := none
  roundSchedules := default
  pot := .empty
  world := world

variable (s : State T)

def putParticipant (who : T.Who) (participant : Participant) : State T :=
  { s with store := { s.store with participants := s.store.participants.insert who participant } }

def putPoints (roundIndex : RoundIndex) (points : StorageMap T.Who Nat) : State T :=
  { s with
    roundsPointsForParticipant := Function.update s.roundsPointsForParticipant roundIndex points }

/-! ### Holds -/

def hold (reason : HoldReason) (amount : Nat) : Option (State T) :=
  (T.currency.hold s.world s.pot reason amount).map fun pot => { s with pot := pot }

def release (reason : HoldReason) (amount : Nat) (precision : Precision) : Option (State T × Nat) :=
  (T.currency.release s.world s.pot reason amount precision).map fun (pot, released) =>
    ({ s with pot := pot }, released)

def payFromPot (destination : T.AccountId) (amount : Nat) : Option (State T) :=
  (T.currency.pay s.world s.pot destination amount).map fun (world, pot) =>
    { s with world := world, pot := pot }

variable {s} {s' : State T} {reason : HoldReason} {amount released : Nat} {precision : Precision}

theorem hold_eq_some (h : s.hold reason amount = some s') :
    ∃ pot, s.pot.hold reason amount = some pot ∧ s' = { s with pot := pot } := by
  obtain ⟨pot, hpot, heq⟩ := Option.map_eq_some_iff.mp h
  exact ⟨pot, Currency.hold_of_eq_some hpot, heq.symm⟩

theorem release_eq_some (h : s.release reason amount precision = some (s', released)) :
    ∃ pot, s.pot.release reason amount precision = some (pot, released) ∧
      s' = { s with pot := pot } := by
  obtain ⟨⟨pot, m⟩, hpot, heq⟩ := Option.map_eq_some_iff.mp h
  cases heq
  exact ⟨pot, Currency.release_of_eq_some hpot, rfl⟩

theorem payFromPot_eq_some {destination : T.AccountId} (h : s.payFromPot destination amount = some s') :
    ∃ pot world, (∀ reason, pot.onHold reason = s.pot.onHold reason) ∧
      s' = { s with pot := pot, world := world } := by
  obtain ⟨⟨world, pot⟩, hpot, heq⟩ := Option.map_eq_some_iff.mp h
  exact ⟨pot, world, Currency.onHold_pay hpot, heq.symm⟩

variable (s)

/-! ### Scheduling rounds -/

def schedulePayoutRounds (amount count duration : Nat) : Except CallError (State T) := do
  let s ← okOr (s.hold .payout (U128.saturatingMul amount count)) .currency
  let roundSchedules ← okOr (s.roundSchedules.tryPush ⟨count, amount, duration⟩) .tooManySchedules
  .ok { s with roundSchedules := roundSchedules }

def removePayoutSchedule (index : Nat) : Except CallError (State T) := do
  let schedule ← okOr s.roundSchedules.toList[index]? .noSchedule
  let (s, _) ← okOr (s.release .payout
    (U128.saturatingMul schedule.amountPerRound schedule.remaining) .bestEffort) .currency
  .ok { s with roundSchedules := s.roundSchedules.remove index }

/-! ### From one round to the next -/

def validateTransitionRound (block : Nat) (roundIndex : RoundIndex) : Bool :=
  decide (roundIndex = s.currentRoundIndex) &&
    match s.roundPlanning with
    | some round => decide (round.finishAt ≤ block)
    | none => s.roundSchedules.toList.head?.any fun schedule => decide (0 < schedule.remaining)

/-- The round after, where the indices start again from the first after the last. -/
def nextRoundIndex : RoundIndex := (s.currentRoundIndex + 1) % (U32.max + 1)

/-- Move the current round to payout, if it was planned. -/
def finishRound : State T :=
  match s.roundPlanning with
  | none => s
  | some round =>
    { s with
      roundPlanning := none
      currentRoundPoints := 0
      roundPayouts := s.roundPayouts.insert s.currentRoundIndex (.ofRound round.credit s.currentRoundPoints)
      currentRoundIndex := s.nextRoundIndex }

/-- Plan the current round by the first schedule, if there is one. -/
def planRound (block : Nat) : State T :=
  match s.roundSchedules.toList.head? with
  | none => s
  | some first =>
    let remaining := first.remaining - 1
    { s with
      roundPlanning := some ⟨U32.saturatingAdd block first.duration, first.amountPerRound⟩
      roundSchedules :=
        if remaining = 0 then s.roundSchedules.remove 0
        else s.roundSchedules.set 0 { first with remaining := remaining } }

def transitionRound (block : Nat) (roundIndex : RoundIndex) : Except CallError (State T) := do
  ensure (s.validateTransitionRound block roundIndex = true) .roundOnGoingOrNoSchedule
  .ok (s.finishRound.planRound block)

/-! ### Paying a round out -/

/-- Drain the points of a participant, who is credited for them unless it has left; also what was
credited so far. -/
def drainPoints (roundIndex : RoundIndex) (round : RoundPayout) : State T × Nat → T.Who → State T × Nat
  | (s, credited), who =>
    let points := ((s.roundsPointsForParticipant roundIndex).get who).getD 0
    let s := s.putPoints roundIndex ((s.roundsPointsForParticipant roundIndex).remove who)
    match s.store.participants.get who with
    | none => (s, credited)
    | some participant =>
      let reward := round.reward points
      (s.putParticipant who { participant with credit := U128.saturatingAdd participant.credit reward },
        U128.saturatingAdd credited reward)

/-- The participants drained by a call, in the order of storage. -/
def drained (roundIndex : RoundIndex) (limit : Nat) : List T.Who :=
  ((s.roundsPointsForParticipant roundIndex).keysInOrder T.participantKey).take limit

/-- Whether a call finds no more points than it may drain. -/
def noMorePoints (roundIndex : RoundIndex) (limit : Nat) : Bool :=
  decide ((s.roundsPointsForParticipant roundIndex).keys.length < limit)

/-- Credit participants for their points, move the funds from one hold to the other, and recycle
what is left once there are no more points. -/
def payRound (roundIndex : RoundIndex) (round : RoundPayout) (limit : Nat) : Option (State T) := do
  let (s', credited) := (s.drained roundIndex limit).foldl (drainPoints roundIndex round) (s, 0)
  let (s', released) ← s'.release .payout credited .exact
  let s' ← s'.hold .credit released
  let round := { round with remainingBalance := round.remainingBalance - credited }
  if s.noMorePoints roundIndex limit then
    let (s', _) ← s'.release .payout round.remainingBalance .exact
    some { s' with roundPayouts := s'.roundPayouts.remove roundIndex }
  else some { s' with roundPayouts := s'.roundPayouts.insert roundIndex round }

/-- A round whose payout fails is given up. -/
def operatePayoutRound (roundIndex : RoundIndex) (limit : Nat) : Except CallError (State T) := do
  let round ← okOr (s.roundPayouts.get roundIndex) .noRound
  .ok ((s.payRound roundIndex round limit).getD
    { s with roundPayouts := s.roundPayouts.remove roundIndex })

/-! ### Points and credit -/

/-- Add points to a participant for the current round; points that would overflow the round's total
are lost. -/
def awardParticipantPayoutPoints (who : T.Who) (points : Nat) : State T :=
  if points = 0 then s
  else if s.currentRoundPoints + points ≤ U32.max then
    let roundPoints := s.roundsPointsForParticipant s.currentRoundIndex
    { s.putPoints s.currentRoundIndex
        (roundPoints.insert who (U32.saturatingAdd ((roundPoints.get who).getD 0) points)) with
      currentRoundPoints := s.currentRoundPoints + points }
  else s

def redeemCredit (who : T.Who) (destination : T.AccountId) : Except CallError (State T) := do
  let participant ← okOr (s.store.participants.get who) .noScore
  ensure (participant.credit ≠ 0) .noReward
  let (s, released) ← okOr (s.release .credit participant.credit .exact) .currency
  let s ← okOr (s.payFromPot destination released) .currency
  .ok (s.putParticipant who { participant with credit := 0 })

end State
end Individuality.Score
