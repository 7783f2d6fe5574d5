import Individuality.Score.Participants
import Individuality.Support.Iteration
import Individuality.Support.Metering

/-! The game pallet: its types and its configuration.

Players register for a game, are shuffled into groups for each round, report on
the others of their groups, and attend if enough weight vouches for them. Times
are in seconds since the epoch where a game keeps them, and a `Duration` is in
nanoseconds. `Config` is what the pallet is generic over: the services of other
pallets, the hash functions, the order in which the chain's storage walks its
keys, and the constants with the facts the pallet's integrity test asserts. -/
namespace Individuality.Game
open Support
open Score (Alias AccountOrPerson)

/-- The index of a player in a round in a game. -/
abbrev PlayerIndex := Nat
/-- The index of a round in a game. -/
abbrev RoundIndex := Nat
abbrev Nft := Nat
/-- In nanoseconds. -/
abbrev Duration := Nat

namespace Duration

def fromSecs (secs : Nat) : Duration := secs * 1000000000

def asSecs (d : Duration) : Nat := d / 1000000000

end Duration

/-- The report made by one player about another player. -/
inductive Report
  | person
  | notPerson
  deriving DecidableEq, Repr

/-! ### Players -/

/-- What to do with the player record once the player-process phase runs. -/
inductive PlayerDisposition
  | keep
  | archiveKickable
  | archiveUnkickable
  deriving DecidableEq, Repr

/-- The cached outcome of an early attendance. -/
structure EarlyAttendanceEnactment where
  attendance : Bool
  disposition : PlayerDisposition
  deriving DecidableEq, Repr

/-- The outcome of the attendance check for a player. -/
inductive AttendanceStatus
  | attended
  | notAttended
  | pending
  deriving DecidableEq, Repr

/-- The credibility, the reason the player can play. -/
inductive PlayerCredibility (D : Type)
  | invited
  | recognized
  | deposit (ticket : D)
  deriving DecidableEq, Repr

structure Player (D : Type) where
  firstGame : Nat
  registered : Bool
  sentReport : Bool
  earlyAttendanceEnactment : Option EarlyAttendanceEnactment
  yesPerson : Nat
  noNotPerson : Nat
  expectedMaxVoteWeight : Nat
  voteWeight : Nat
  credibility : PlayerCredibility D
  deriving DecidableEq, Repr

/-- A player between games, or one that has just registered. -/
def Player.fresh {D : Type} (registered : Bool) (firstGame : Nat)
    (credibility : PlayerCredibility D) : Player D :=
  ⟨firstGame, registered, false, none, 0, 0, 0, 0, credibility⟩

/-- The player's record, reset for the next game. -/
def Player.reset {D : Type} (player : Player D) : Player D :=
  .fresh false player.firstGame player.credibility

inductive ArchivedPlayer
  | kickable (firstGame : Nat) (archivedSince : Nat)
  | unkickable (firstGame : Nat)
  deriving DecidableEq, Repr

def ArchivedPlayer.firstGame : ArchivedPlayer → Nat
  | kickable firstGame _ | unkickable firstGame => firstGame

/-! ### Games -/

/-- The steps for the shuffle phase. -/
inductive ShuffleStep (P : Type)
  | insert (lastIteration : Option P)
  | retrieve (nextPlayerIndex : Nat) (recognizedFinished : Bool)
  | computeWeights (lastIteration : Option P) (playerCount : Nat)
  | awaitSession (playerCount : Nat)
  deriving DecidableEq, Repr

/-- The steps for the player-process phase. -/
inductive PlayerProcessStep (P : Type)
  | processPlayers (lastIteration : Option P) (playerCount : Nat)
  | clearIndices
  deriving DecidableEq, Repr

inductive GameState (P : Type)
  | registration (nextPlayerIndex : Nat)
  | shuffle (step : ShuffleStep P)
  | reporting (playerCount : Nat)
  | playerProcess (step : PlayerProcessStep P)
  | cancelling (lastIteration : Option P)
  deriving DecidableEq, Repr

namespace GameState
variable {P : Type}

def isRegistration : GameState P → Bool
  | registration _ => true
  | _ => false

/-- Whether the game is past the shuffle, so that a report session was started. -/
def hasSession : GameState P → Bool
  | reporting _ | playerProcess _ => true
  | _ => false

end GameState

structure GameInfo (P : Type) where
  index : Nat
  registrationEnds : Nat
  shuffleDeadline : Nat
  gameDate : Nat
  reportEnds : Nat
  state : GameState P
  maxGroupSize : Nat
  rounds : Nat
  pendingAttendance : Nat
  airdropScheduled : Bool
  deriving DecidableEq, Repr

structure PhaseDurationValues where
  registration : Nat
  shuffle : Nat
  postShuffleMargin : Nat
  reporting : Nat
  playerProcess : Nat
  airdropClaimWindow : Nat
  deriving DecidableEq, Repr

/-- The schedule of a game; `Z` is the type of airdrop prizes. -/
structure GameSchedule (Z : Type) where
  gamePlayTime : Nat
  rounds : Nat
  maxGroupSize : Nat
  airdropPrize : Option Z
  deriving DecidableEq, Repr

/-- When the phases of a game start and end, given when it is played. -/
structure GameTimes where
  registrationStart : Nat
  registrationEnd : Nat
  shuffleDeadline : Nat
  gamePlayTime : Nat
  reportingEnd : Nat
  playerProcessEnd : Nat
  deriving DecidableEq, Repr

def PhaseDurationValues.times (phases : PhaseDurationValues) (gamePlayTime : Nat) : GameTimes where
  registrationStart := gamePlayTime - phases.shuffle - phases.postShuffleMargin - phases.registration
  registrationEnd := gamePlayTime - phases.shuffle - phases.postShuffleMargin
  shuffleDeadline := gamePlayTime - phases.postShuffleMargin
  gamePlayTime := gamePlayTime
  reportingEnd := U32.saturatingAdd gamePlayTime phases.reporting
  playerProcessEnd :=
    U32.saturatingAdd (U32.saturatingAdd gamePlayTime phases.reporting) phases.playerProcess

/-! ### Groups -/

/-- A setting for a distribution of players in groups. -/
structure GroupsSetting where
  maxPerGroup : Nat
  playerCount : Nat

namespace GroupsSetting
variable (g : GroupsSetting)

def acceptablePlayerCount (testnet : Bool) : Bool :=
  match g.maxPerGroup with
  | 0 | 1 => true
  | 2 => decide (1 ≤ g.playerCount)
  | maxPerGroup =>
    if testnet then decide (1 ≤ g.playerCount)
    -- Special condition for one group.
    else if g.playerCount = maxPerGroup ∨ g.playerCount + 1 = maxPerGroup then true
    else decide (U32.saturatingMul (maxPerGroup - 1) (maxPerGroup - 2) ≤ g.playerCount)

/-- The minimum number of groups that can contain all the players. -/
def numberOfGroup : Nat :=
  let div := if g.maxPerGroup = 0 then g.playerCount else g.playerCount / g.maxPerGroup
  let remainder := if g.maxPerGroup = 0 then 0 else g.playerCount % g.maxPerGroup
  if 0 < remainder then U32.saturatingAdd div 1 else div

/-- The group of a player, given its position. -/
def groupIndexFromPlayerIndex (shuffledPosition : PlayerIndex) : Nat :=
  if g.numberOfGroup = 0 then 0 else shuffledPosition % g.numberOfGroup

/-- The members of a group, given its index. -/
def groupMembers (groupIndex : Nat) : List PlayerIndex :=
  ((List.range g.maxPerGroup).map fun i =>
    U32.saturatingAdd groupIndex (U32.saturatingMul i g.numberOfGroup)).filter fun x =>
      x < g.playerCount

/-- The others of a player's group, in order. -/
def otherMembers (index : PlayerIndex) : List PlayerIndex :=
  (g.groupMembers (g.groupIndexFromPlayerIndex index)).filter fun i => i ≠ index

end GroupsSetting

/-! ### Configuration -/

/-- A player's entry to an airdrop. -/
inductive AirdropVrf (V F : Type)
  | account (signature : V)
  | alias (proof : F) (ringIndex revision : Nat)

/-- What the pallet asks of the rest of the chain, over a type `W` of its states. -/
structure Services (A W : Type) extends Score.Services A W where
  AccountSignature : Type
  PlayDeposit : Type
  VrfSignature : Type
  Proof : Type
  Prize : Type
  verify : AccountSignature → Alias → A → Bool
  newDeposit : W → A → Nat → Option (PlayDeposit × W)
  dropDeposit : W → A → PlayDeposit → Option W
  burnDeposit : W → A → PlayDeposit → W
  increaseAllowance : W → A → W
  decreaseAllowance : W → A → W
  /-- The event's game and prize, and when registration starts, the draw happens and it ends. -/
  scheduleAirdrop : W → Nat → Prize → Nat → Nat → Nat → Option W
  cancelAirdrop : W → Nat → W
  participateWithAccount : W → Nat → A → VrfSignature → Option W
  participateWithAlias : W → Nat → AccountOrPerson A → Proof → Nat → Nat → Option W

structure WeightInfo where
  getGame : Weight
  getGameSchedules : Nat → Weight
  newGame : Weight
  putGameSchedules : Weight
  putGame : Weight
  unixTime : Weight
  onGameCancelled : Weight
  shufflesBase : Weight
  shuffleStepInsert : Nat → Weight
  shuffleStepRetrieve : Nat → Weight
  shuffleStepComputeWeights : Nat → Nat → Weight
  shuffleStepStartSession : Weight
  processReporting : Weight
  playerProcessStep1 : Weight
  playerProcessStep1AttendedPlayer : Weight
  playerProcessStep1NotAttendedPlayer : Weight
  playerProcessStep2 : Weight
  playerProcessStep2InnerLoop : Weight
  processCancelling : Weight
  processCancellingStep : Nat → Weight

/-- What the pallet is configured with. -/
structure Config where
  AccountId : Type
  World : Type
  Hash : Type
  accountDecEq : DecidableEq AccountId
  services : Services AccountId World
  weights : WeightInfo
  maxRounds : Nat
  maxGroupSize : Nat
  minGroupSize : Nat
  nonPlayingKickoutTime : Nat
  defaultPlayDeposit : Nat
  defaultPhaseDurations : PhaseDurationValues
  maxGameSchedules : Nat
  maxAttendanceHistoryDepth : Nat
  peopleVoteWeight : Nat
  candidateVoteWeight : Nat
  testnet : Bool
  /-- Where storage keeps what it stores under a player, and under an index of a round. -/
  playerKey : AccountOrPerson AccountId → Nat
  indexKey : RoundIndex × PlayerIndex → Nat
  playerKey_injective : Function.Injective playerKey
  indexKey_injective : Function.Injective indexKey
  /-- The hashes of a parent hash, a player and a round, and of a game, a round and two players. -/
  shuffleHash : Hash → AccountOrPerson AccountId → RoundIndex → Nat
  nftHash : Nat → RoundIndex → AccountOrPerson AccountId → AccountOrPerson AccountId → Nft
  maxGroupSize_le : maxGroupSize ≤ U32.max
  -- The integrity test.
  maxVotes_le : maxGroupSize * maxRounds ≤ U32.max
  maxVotes_pos : 1 ≤ maxGroupSize * maxRounds
  peopleVotes_le : (maxGroupSize * maxRounds - 1) * peopleVoteWeight ≤ U8.max
  candidateVotes_le : (maxGroupSize * maxRounds - 1) * candidateVoteWeight ≤ U8.max

namespace Config
variable (T : Config)

instance : DecidableEq T.AccountId := T.accountDecEq

abbrev PlayerId : Type := AccountOrPerson T.AccountId
abbrev PlayDeposit : Type := T.services.PlayDeposit

/-- The weight of a vote. -/
def voteWeight (recognized : Bool) : Nat :=
  if recognized then T.peopleVoteWeight else T.candidateVoteWeight

end Config

inductive Error
  | gameOngoing
  | noRegistration
  | outdatedGameSetup
  | invalidGameSetup
  | invalidReport
  | noGame
  | noReporting
  | notRegistered
  | alreadyRegistered
  | reportAlreadySent
  | early
  | notKickablePlayer
  | noArchivedPlayer
  | useInviteButAlreadyPlaying
  | tooManyGameSchedules
  | noSuchGameScheduled
  | invalidStatementAccountSignature
  | statementAccountAlreadyInUse
  | internalErrorInvalidState
  | invalidGameState
  | noPlayer
  | cannotOffboardWhileRegisteredForGame
  | invalidState
  | invalidPlayDeposit
  | invalidAirdropVrfVariantForAccount
  | invalidAirdropVrfVariantForRecognition
  /-- An error of the score pallet, of the deposit or of the airdrop. -/
  | score (error : Score.Error)
  | deposit
  | airdrop
  deriving DecidableEq, Repr

end Individuality.Game
