import Individuality.MobRule.Types
import Individuality.Support.Outcome
import Individuality.Support.Runs
import Mathlib.Logic.Function.Basic

/-! The mob-rule pallet's calls.

The state keeps, beside the pallet's storage and the rest of the chain, the list of
the callbacks that were run (`callbacks`), which no call reads. -/
namespace Individuality.MobRule
open Support

structure State (T : Config) where
  credits : StorageMap Alias MobCredit
  votingPenalties : StorageMap Alias Nat
  votingPoints : RoundIndex → StorageMap Alias Nat
  votes : StorageMap (CaseIndex × Alias) Judgement
  caseCount : CaseIndex
  openCases : StorageMap CaseIndex (OpenCase T.Statement)
  ripeCases : StorageMap CaseIndex (RipeCase T.Statement)
  doneCases : StorageMap CaseIndex DoneCase
  accumulatedPoints : Nat
  payoutDistribution : Option CreditDistribution
  roundSchedules : BoundedVec PayoutSchedule T.maxPayoutRoundSchedules
  activeSince : Option SecsSinceGenesis
  pot : Pot
  world : T.World
  /-- The callbacks that were dispatched, with the verdicts they were given. -/
  callbacks : List (CaseIndex × Judgement)

/-- What a call reads of its block. -/
structure Env where
  secs : SecsSinceGenesis
  blockNumber : Nat

namespace State
variable {T : Config}

/-- The state before the first call. -/
def genesis (T : Config) (world : T.World) : State T where
  credits := ∅
  votingPenalties := ∅
  votingPoints := fun _ => ∅
  votes := ∅
  caseCount := 0
  openCases := ∅
  ripeCases := ∅
  doneCases := ∅
  accumulatedPoints := 0
  payoutDistribution := none
  roundSchedules := default
  activeSince := none
  pot := .empty
  world := world
  callbacks := []

variable (env : Env) (s : State T)

def creditOf (voter : Alias) : MobCredit := (s.credits.get voter).getD default

def pointsOf (round : RoundIndex) (voter : Alias) : Nat := ((s.votingPoints round).get voter).getD 0

def putCredit (voter : Alias) (credit : MobCredit) : State T :=
  { s with credits := s.credits.insert voter credit }

def putPoints (round : RoundIndex) (points : StorageMap Alias Nat) : State T :=
  { s with votingPoints := Function.update s.votingPoints round points }

/-! ### Cases -/

/-- Open a case for a statement. -/
def judgeStatement (statement : T.Statement) (context : JudgementContext) (callback : Callback) : State T :=
  { s with
    caseCount := U32.saturatingInc s.caseCount
    openCases := s.openCases.insert s.caseCount ⟨env.secs, ⟨statement, context, callback⟩, .zero⟩ }

def collapsed (tally : VoteTally) : VoteCountResult :=
  tally.collapsed T.percentFromRational (T.activeCount s.world)

/-- Whether the votes decide a case already. -/
def isDecided (case : OpenCase T.Statement) : Bool :=
  let secs := env.secs - case.since
  let result := s.collapsed case.tally
  let minimumTurnoutReached :=
    decide (T.minTurnoutPercentage ≤ result.turnout) && decide (T.minTurnoutNominal ≤ result.voterCount)
  let minimumDurationElapsed := decide (T.minCaseDuration < secs)
  minimumTurnoutReached && minimumDurationElapsed &&
    (result.definitive || result.isPassing T.maxVotingDuration secs)

/-- Take a case from the open ones to the ripe ones. -/
def ripen (caseIndex : CaseIndex) (case : OpenCase T.Statement) : State T :=
  { s with
    openCases := s.openCases.remove caseIndex
    ripeCases := s.ripeCases.insert caseIndex ⟨case.details, (s.collapsed case.tally).verdict⟩ }

/-- Ripen a case if its votes decide it; otherwise it stays open. -/
def settle (caseIndex : CaseIndex) (case : OpenCase T.Statement) : State T :=
  if s.isDecided env case then s.ripen caseIndex case
  else { s with openCases := s.openCases.insert caseIndex case }

def vote (voter : Alias) (caseIndex : CaseIndex) (opinion : Judgement) : Except Error (State T) := do
  ensure (opinion ≠ .contempt ∨ s.votingPenalties.contains voter = false) .underPenalty
  let case ← okOr (s.openCases.get caseIndex) .notOpen
  let credit := s.creditOf voter
  let (tally, credit) :=
    match s.votes.get (caseIndex, voter) with
    | some oldOpinion => (case.tally.discount oldOpinion, credit)
    | none => (case.tally, { credit with voted := U32.saturatingInc credit.voted })
  let case := { case with tally := tally.count opinion }
  let s := { s with votes := s.votes.insert (caseIndex, voter) opinion }
  .ok ((s.settle env caseIndex case).putCredit voter credit)

def touchCase (caseIndex : CaseIndex) : Except Error (State T) := do
  let case ← okOr (s.openCases.get caseIndex) .notOpen
  .ok (s.settle env caseIndex case)

/-- Ripen a case that was open for too long; cases do not expire while too few could vote. -/
def forceRipenCase (caseIndex : CaseIndex) : Except Error (State T) := do
  let case ← okOr (s.openCases.get caseIndex) .notOpen
  let activeSince ← okOr s.activeSince .caseExpirationDisabled
  ensure (T.maxVotingDuration ≤ env.secs - max case.since activeSince) .recent
  .ok (s.ripen caseIndex case)

/-- Run the callback of a case with the verdict. -/
def runCallback (caseIndex : CaseIndex) (details : CaseDetails T.Statement) (verdict : Judgement) : State T :=
  match T.curry details.callback (caseIndex, details.context, verdict) with
  | none => s
  | some call => { s with
      world := T.dispatch s.world call
      callbacks := s.callbacks ++ [(caseIndex, verdict)] }

/-- A case is done. -/
def finish (caseIndex : CaseIndex) (verdict : Judgement) : State T :=
  { s with doneCases := s.doneCases.insert caseIndex ⟨env.secs, verdict⟩ }

def closeCase (caseIndex : CaseIndex) : Except Error (State T) := do
  let case ← okOr (s.ripeCases.get caseIndex) .notRipe
  let s := { s with ripeCases := s.ripeCases.remove caseIndex }
  .ok ((s.runCallback caseIndex case.details case.verdict).finish env caseIndex case.verdict)

/-- Force a verdict on an open case. -/
def intervene (caseIndex : CaseIndex) (verdict : Judgement) : Except Error (State T) := do
  let case ← okOr (s.openCases.get caseIndex) .notOpen
  let s := { s with openCases := s.openCases.remove caseIndex }
  .ok ((s.runCallback caseIndex case.details verdict).finish env caseIndex verdict)

def reapCase (caseIndex : CaseIndex) : Except Error (State T) := do
  let case ← okOr (s.doneCases.get caseIndex) .notDone
  ensure (U64.saturatingAdd case.since T.maxVoteClaimDuration < env.secs) .recent
  .ok { s with doneCases := s.doneCases.remove caseIndex }

/-! ### Votes on cases that are done -/

def penalize (voter : Alias) : State T :=
  { s with votingPenalties := s.votingPenalties.insert voter env.blockNumber }

def validateCleanVote (caseIndex : CaseIndex) (voter : Alias) : Except Error Judgement := do
  ensure (s.openCases.contains caseIndex = false ∧ s.ripeCases.contains caseIndex = false) .notDone
  ensure ((s.doneCases.get caseIndex).all (fun case =>
    decide (U64.saturatingAdd T.votesOpenForClaimsDuration case.since < env.secs)) = true) .recent
  okOr (s.votes.get (caseIndex, voter)) .noSuchVote

/-- Remove a vote on a case that is done or gone; it earns no point. -/
def cleanVote (caseIndex : CaseIndex) (voter : Alias) : Except Error (State T) := do
  let vote ← s.validateCleanVote env caseIndex voter
  let s := { s with votes := s.votes.remove (caseIndex, voter) }
  let credit := s.creditOf voter
  let credit := { credit with cleaned := U32.saturatingInc credit.cleaned }
  match (s.doneCases.get caseIndex).map DoneCase.verdict with
  | some verdict =>
    if verdict.isCorrect vote then
      .ok (s.putCredit voter { credit with correct := U32.saturatingInc credit.correct })
    else if vote = .contempt then .ok ((s.penalize env voter).putCredit voter credit)
    else .ok (s.putCredit voter credit)
  | none => .ok (s.putCredit voter credit)

/-- Take one vote to be claimed; also how many of the votes so far were correct. -/
def takeVote (voter : Alias) : State T × Nat → CaseIndex → Except Error (State T × Nat)
  | (s, correctVotes), caseIndex => do
    let vote ← okOr (s.votes.get (caseIndex, voter)) .noSuchVote
    let case ← okOr (s.doneCases.get caseIndex) .notDone
    let s := { s with votes := s.votes.remove (caseIndex, voter) }
    if case.verdict.isCorrect vote then .ok (s, U32.saturatingInc correctVotes)
    else if vote = .contempt then .ok (s.penalize env voter, correctVotes)
    else .ok (s, correctVotes)

/-- The round in which points that are earned now can be redeemed. -/
def nextRound : RoundIndex :=
  (s.payoutDistribution.map fun d => U32.saturatingAdd d.round 1).getD 0

def claimVotes (voter : Alias) (caseIndices : List CaseIndex) : Except Error (State T) := do
  ensure (caseIndices.length ≤ T.maxVotesClaimable) .tooManyClaims
  let credit := s.creditOf voter
  let round := s.nextRound
  let (s, correctVotes) ← caseIndices.foldlM (takeVote env voter) (s, 0)
  let s := s.putPoints round
    ((s.votingPoints round).insert voter (U32.saturatingAdd (s.pointsOf round voter) correctVotes))
  .ok ({ s with accumulatedPoints := U64.saturatingAdd s.accumulatedPoints correctVotes }.putCredit voter
    { credit with
      cleaned := U32.saturatingAdd credit.cleaned caseIndices.length
      correct := U32.saturatingAdd credit.correct correctVotes })

def clearVotingPenalty (voter : Alias) : Except Error (State T) := do
  let start ← okOr (s.votingPenalties.get voter) .noPenalty
  ensure (U32.saturatingAdd start T.votingPenaltyDuration ≤ env.blockNumber) .early
  .ok { s with votingPenalties := s.votingPenalties.remove voter }

/-! ### Payout rounds -/

def hold (reason : HoldReason) (amount : Nat) : Option (State T) :=
  (T.currency.hold s.world s.pot reason amount).map fun pot => { s with pot := pot }

def release (reason : HoldReason) (amount : Nat) (precision : Precision) : Option (State T × Nat) :=
  (T.currency.release s.world s.pot reason amount precision).map fun (pot, released) =>
    ({ s with pot := pot }, released)

def payFromPot (destination : T.AccountId) (amount : Nat) : Option (State T) :=
  (T.currency.pay s.world s.pot destination amount).map fun (world, pot) =>
    { s with world := world, pot := pot }

def schedulePayoutRounds (amount count period : Nat) : Except Error (State T) := do
  let s ← okOr (s.hold .payout (U128.saturatingMul amount count)) .currency
  let roundSchedules ← okOr (s.roundSchedules.tryPush ⟨count, amount, period⟩) .tooManySchedules
  .ok { s with roundSchedules := roundSchedules }

def removePayoutSchedule (index : Nat) : Except Error (State T) := do
  let schedule ← okOr s.roundSchedules.toList[index]? .noSchedule
  let (s, _) ← okOr (s.release .payout
    (U128.saturatingMul schedule.amountPerRound schedule.remaining) .bestEffort) .currency
  .ok { s with roundSchedules := s.roundSchedules.remove index }

/-- Recycle what is left of the last round. -/
def recycle : Except Error (State T) :=
  match s.payoutDistribution with
  | none => .ok s
  | some d => do
    let (s, _) ← okOr (s.release .payout d.remainingBalance .bestEffort) .currency
    .ok s

/-- Start the next round, by the first schedule, for the points accumulated. -/
def startPayoutRound : Except Error (State T) := do
  let points := s.accumulatedPoints
  ensure (0 < points) .noPoints
  let schedule ← okOr s.roundSchedules.toList.head? .noSchedule
  ensure (s.payoutDistribution.all (fun d =>
    decide (U32.saturatingAdd d.start schedule.period ≤ env.blockNumber)) = true) .recent
  let remaining := schedule.remaining - 1
  let round := s.nextRound
  let s ← s.recycle
  .ok { s with
    payoutDistribution :=
      some ⟨round, schedule.amountPerRound, schedule.amountPerRound, points, env.blockNumber⟩
    accumulatedPoints := 0
    roundSchedules :=
      if remaining = 0 then s.roundSchedules.remove 0
      else s.roundSchedules.set 0 { schedule with remaining := remaining } }

/-- Turn the points of the running round into credit. -/
def claimCredit (voter : Alias) : Except Error (State T) := do
  let d ← okOr s.payoutDistribution .noReward
  let credit := s.creditOf voter
  let points := s.pointsOf d.round voter
  let s := s.putPoints d.round ((s.votingPoints d.round).remove voter)
  ensure (0 < points) .noPoints
  let (s, released) ← okOr (s.release .payout (T.share points d.totalPoints d.initialBalance) .bestEffort)
    .currency
  let s ← okOr (s.hold .credit released) .currency
  ensure (credit.credit + released ≤ U128.max) .arithmeticOverflow
  .ok { s.putCredit voter { credit with credit := credit.credit + released } with
    payoutDistribution := some { d with remainingBalance := d.remainingBalance - released } }

def payoutRewards (voter : Alias) (destination : T.AccountId) : Except Error (State T) := do
  let credit := s.creditOf voter
  ensure (credit.credit ≠ 0) .noCredit
  let (s, released) ← okOr (s.release .credit credit.credit .exact) .currency
  let s ← okOr (s.payFromPot destination released) .currency
  .ok (s.putCredit voter { credit with credit := 0 })

/-- Remove points of a round that is over. -/
def cleanPoints (round : RoundIndex) (voter : Alias) : Except Error (State T) := do
  let d ← okOr s.payoutDistribution .noPayout
  ensure (round < d.round) .noPayout
  ensure ((s.votingPoints round).contains voter = true) .noPoints
  .ok (s.putPoints round ((s.votingPoints round).remove voter))

/-! ### Hooks -/

/-- Note when enough people can vote, or that they no longer can. -/
def onPoll (remaining : Weight) : State T :=
  match remaining.half.tryConsume T.weights.onPollBase with
  | none => s
  | some limit =>
    let enough := decide (T.minimumVoterThreshold ≤ T.activeCount s.world)
    match s.activeSince, enough with
    | none, true =>
      if (limit.tryConsume T.weights.setActiveSince).isSome then { s with activeSince := some env.secs }
      else s
    | some _, false =>
      if (limit.tryConsume T.weights.killActiveSince).isSome then { s with activeSince := none } else s
    | _, _ => s

/-- What the pot has on hold is moved by this pallet only. -/
def elsewhere (world : T.World) (pot : Pot) : Except Error (State T) := do
  ensure (pot.payout = s.pot.payout ∧ pot.credit = s.pot.credit) .currency
  .ok { s with world := world, pot := pot }

end State

/-! ### All calls -/

inductive Call (T : Config)
  | judgeStatement (statement : T.Statement) (context : JudgementContext) (callback : Callback)
  | vote (voter : Alias) (caseIndex : CaseIndex) (opinion : Judgement)
  | touchCase (caseIndex : CaseIndex)
  | forceRipenCase (caseIndex : CaseIndex)
  | closeCase (caseIndex : CaseIndex)
  | intervene (caseIndex : CaseIndex) (verdict : Judgement)
  | reapCase (caseIndex : CaseIndex)
  | cleanVote (caseIndex : CaseIndex) (voter : Alias)
  | claimVotes (voter : Alias) (caseIndices : List CaseIndex)
  | clearVotingPenalty (voter : Alias)
  | schedulePayoutRounds (amount count period : Nat)
  | removePayoutSchedule (index : Nat)
  | startPayoutRound
  | claimCredit (voter : Alias)
  | payoutRewards (voter : Alias) (destination : T.AccountId)
  | cleanPoints (round : RoundIndex) (voter : Alias)
  | onPoll (remaining : Weight)
  /-- The rest of the chain, and a transfer to the pot or from it. -/
  | elsewhere (world : T.World) (pot : Pot)

/-- The claim of a single vote. -/
def Call.claimVote {T : Config} (voter : Alias) (caseIndex : CaseIndex) : Call T :=
  .claimVotes voter [caseIndex]

namespace State
variable {T : Config}

def exec (env : Env) (s : State T) : Call T → Except Error (State T)
  | .judgeStatement statement context callback => .ok (s.judgeStatement env statement context callback)
  | .vote voter caseIndex opinion => s.vote env voter caseIndex opinion
  | .touchCase caseIndex => s.touchCase env caseIndex
  | .forceRipenCase caseIndex => s.forceRipenCase env caseIndex
  | .closeCase caseIndex => s.closeCase env caseIndex
  | .intervene caseIndex verdict => s.intervene env caseIndex verdict
  | .reapCase caseIndex => s.reapCase env caseIndex
  | .cleanVote caseIndex voter => s.cleanVote env caseIndex voter
  | .claimVotes voter caseIndices => s.claimVotes env voter caseIndices
  | .clearVotingPenalty voter => s.clearVotingPenalty env voter
  | .schedulePayoutRounds amount count period => s.schedulePayoutRounds amount count period
  | .removePayoutSchedule index => s.removePayoutSchedule index
  | .startPayoutRound => s.startPayoutRound env
  | .claimCredit voter => s.claimCredit voter
  | .payoutRewards voter destination => s.payoutRewards voter destination
  | .cleanPoints round voter => s.cleanPoints round voter
  | .onPoll remaining => .ok (s.onPoll env remaining)
  | .elsewhere world pot => s.elsewhere world pot

/-- A call in its block. -/
abbrev Action (T : Config) : Type := Env × Call T

def execAction (s : State T) (a : Action T) : Except Error (State T) := s.exec a.1 a.2

end State
/-! ### A configuration to run -/

def sampleConfig : Config where
  AccountId := Nat
  World := Unit
  Statement := Unit
  RuntimeCall := CaseIndex
  accountDecEq := inferInstance
  weights := ⟨⟨1, 1⟩, ⟨1, 1⟩, ⟨1, 1⟩⟩
  currency := ⟨0, fun _ _ _ _ => true, fun _ _ _ _ => true, fun w _ _ _ => some w⟩
  activeCount _ := 10
  curry _ args := some args.1
  dispatch w _ := w
  percentFromRational p q := p * 100 / q
  perbillFromRational p q := p * 1000000000 / q
  perbillFromRational_le p q := Nat.div_mul_le_self (p * 1000000000) q
  maxVoteClaimDuration := 100
  minCaseDuration := 10
  maxVotingDuration := 50
  minTurnoutNominal := 1
  minTurnoutPercentage := 10
  maxPayoutRoundSchedules := 2
  votingPenaltyDuration := 5
  maxVotesClaimable := 5
  votesOpenForClaimsDuration := 100
  minimumVoterThreshold := 1
  votesOpenForClaims_le := Nat.le_refl _

def sampleAlias (k : Nat) : Alias := Vector.ofFn fun i => UInt8.ofNat (k / 256 ^ i.val)

/-- A transfer to the pot. -/
def sampleFunds : Call sampleConfig := .elsewhere () ⟨100, 0, 0, by decide⟩

end Individuality.MobRule
