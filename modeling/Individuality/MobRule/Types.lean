import Individuality.Support.Metering
import Individuality.Support.Pot
import Individuality.Support.StorageMap

/-! The mob-rule pallet: its types and its configuration.

People judge statements: they vote on open cases, a case is ripe once its votes
decide it or it has been open for long enough, and a ripe case is closed by running
the callback that came with the statement. A correct vote is worth a point, and
points are worth credit in the next payout round. `Config` is what the pallet is
generic over; the fractions that third parties compute for it are parameters, of
which it relies on one fact: a fraction in parts per billion is rounded down. -/
namespace Individuality.MobRule
open Support

abbrev Alias := Vector UInt8 32
abbrev CaseIndex := Nat
abbrev RoundIndex := Nat
abbrev SecsSinceGenesis := Nat
abbrev JudgementContext := BoundedVec UInt8 64

inductive Truth
  | true
  | false
  deriving DecidableEq, Repr

inductive Judgement
  | truth (truth : Truth)
  | contempt
  deriving DecidableEq, Repr

namespace Judgement

def matchesIntent : Judgement → Judgement → Bool
  | truth .true, truth .true | truth .false, truth .false | contempt, contempt => Bool.true
  | _, _ => Bool.false

/-- Whether a vote agrees with the verdict; a rejection also agrees with contempt. -/
def isCorrect (verdict vote : Judgement) : Bool :=
  verdict.matchesIntent vote || (verdict == contempt && vote == truth .false)

end Judgement

/-! ### Tallies -/

structure VoteTally where
  aye : Nat
  nay : Nat
  contempt : Nat
  deriving DecidableEq, Repr

structure VoteCountResult where
  /-- The verdict that the tally would yield, and whether the voters left cannot change it. -/
  verdict : Judgement
  ayeWeight : Nat
  nayWeight : Nat
  /-- In percent. -/
  turnout : Nat
  voterCount : Nat
  definitive : Bool

namespace VoteCountResult

def empty : VoteCountResult := ⟨.truth .false, 0, 0, 0, 0, false⟩

/-- Whether the vote is passing: the approval it takes falls with time, from all votes to half. -/
def isPassing (r : VoteCountResult) (maxDuration elapsed : Nat) : Bool :=
  let remaining := maxDuration - elapsed
  let totalVoteWeight := U32.saturatingAdd r.ayeWeight r.nayWeight
  decide (U64.saturatingMul (U64.saturatingAdd maxDuration remaining) totalVoteWeight <
    U64.saturatingMul (U64.saturatingMul maxDuration r.ayeWeight) 2)

end VoteCountResult

namespace VoteTally

def zero : VoteTally := ⟨0, 0, 0⟩

def count (t : VoteTally) : Judgement → VoteTally
  | .truth .true => { t with aye := U32.saturatingInc t.aye }
  | .truth .false => { t with nay := U32.saturatingInc t.nay }
  | .contempt => { t with contempt := U32.saturatingInc t.contempt }

def discount (t : VoteTally) : Judgement → VoteTally
  | .truth .true => { t with aye := t.aye - 1 }
  | .truth .false => { t with nay := t.nay - 1 }
  | .contempt => { t with contempt := t.contempt - 1 }

/-- The votes of one opinion. -/
def votes (t : VoteTally) : Judgement → Nat
  | .truth .true => t.aye
  | .truth .false => t.nay
  | .contempt => t.contempt

/-- What the tally yields, `percent` being how fractions are put in percent. -/
def collapsed (percent : Nat → Nat → Nat) (t : VoteTally) (activeVoters : Nat) : VoteCountResult :=
  let voteCount := U32.saturatingAdd (U32.saturatingAdd t.aye t.nay) t.contempt
  if voteCount = 0 then .empty
  else
    -- Contempt weighs as much as a rejection.
    let nayWeight := U32.saturatingAdd t.nay t.contempt
    let remainingVoters := activeVoters - voteCount
    let (verdict, margin) :=
      if nayWeight < t.aye then (Judgement.truth .true, t.aye - nayWeight)
      else (if t.nay ≤ t.contempt then .contempt else .truth .false, nayWeight - t.aye)
    ⟨verdict, t.aye, nayWeight, percent voteCount activeVoters, voteCount,
      remainingVoters == 0 || decide (remainingVoters < margin)⟩

end VoteTally

/-! ### Cases -/

/-- A call of another pallet that takes a case, its context and a judgement. -/
structure Callback where
  palletIndex : UInt8
  callIndex : UInt8
  deriving DecidableEq

structure CaseDetails (S : Type) where
  statement : S
  context : JudgementContext
  callback : Callback

structure OpenCase (S : Type) where
  since : SecsSinceGenesis
  details : CaseDetails S
  tally : VoteTally

structure RipeCase (S : Type) where
  details : CaseDetails S
  verdict : Judgement

structure DoneCase where
  since : SecsSinceGenesis
  verdict : Judgement
  deriving DecidableEq, Repr

/-! ### Rewards -/

structure MobCredit where
  /-- How many votes were cast, and cleaned afterwards, and correct. -/
  voted : Nat
  cleaned : Nat
  correct : Nat
  credit : Nat
  deriving DecidableEq, Repr

instance : Inhabited MobCredit := ⟨⟨0, 0, 0, 0⟩⟩

structure CreditDistribution where
  round : RoundIndex
  initialBalance : Nat
  remainingBalance : Nat
  totalPoints : Nat
  start : Nat
  deriving DecidableEq, Repr

structure PayoutSchedule where
  remaining : Nat
  amountPerRound : Nat
  period : Nat
  deriving DecidableEq, Repr

/-! ### Configuration -/

structure WeightInfo where
  onPollBase : Weight
  setActiveSince : Weight
  killActiveSince : Weight

/-- What the pallet is configured with. -/
structure Config where
  AccountId : Type
  World : Type
  Statement : Type
  RuntimeCall : Type
  accountDecEq : DecidableEq AccountId
  weights : WeightInfo
  currency : Currency AccountId World
  activeCount : World → Nat
  /-- The call that a callback stands for with its arguments, and what it does as the root. -/
  curry : Callback → CaseIndex × JudgementContext × Judgement → Option RuntimeCall
  dispatch : World → RuntimeCall → World
  percentFromRational : Nat → Nat → Nat
  perbillFromRational : Nat → Nat → Nat
  perbillFromRational_le : ∀ p q, perbillFromRational p q * q ≤ p * 1000000000
  maxVoteClaimDuration : Nat
  minCaseDuration : Nat
  maxVotingDuration : Nat
  minTurnoutNominal : Nat
  minTurnoutPercentage : Nat
  maxPayoutRoundSchedules : Nat
  votingPenaltyDuration : Nat
  maxVotesClaimable : Nat
  votesOpenForClaimsDuration : Nat
  minimumVoterThreshold : Nat
  -- The integrity test.
  votesOpenForClaims_le : votesOpenForClaimsDuration ≤ maxVoteClaimDuration

namespace Config
variable (T : Config)

instance : DecidableEq T.AccountId := T.accountDecEq

/-- The share of a balance that some of all points are worth. -/
def share (points totalPoints balance : Nat) : Nat :=
  balance * T.perbillFromRational points totalPoints / 1000000000

end Config

inductive Error
  | noSuchVote
  | notOpen
  | notRipe
  | notDone
  | recent
  | noCredit
  | noReward
  | noPoints
  | tooManyClaims
  | noPayout
  | arithmeticOverflow
  | tooManySchedules
  | noSchedule
  | noPenalty
  | early
  | underPenalty
  | caseExpirationDisabled
  /-- An error of the currency. -/
  | currency
  deriving DecidableEq, Repr

end Individuality.MobRule
