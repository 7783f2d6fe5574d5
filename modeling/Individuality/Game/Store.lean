import Individuality.Game.Types

/-! The game pallet: its storage, and what an attendance does to it.

The four maps of the shuffle hold one game's players: `shuffleRecognized` and
`shuffleNotRecognized` are filled under hashes and drained in their order, and
`indexToPlayer` and `playerToIndex` keep the order drained. The stores of the score
pallet and of the rest of the chain are part of the state, as calls move them. -/
namespace Individuality.Game
open Support
open Score (Alias AccountOrPerson)

/-- What a run leaves to read: when a game started, when its reporting opened, on what, and what
came of it. -/
inductive Event (T : Config)
  | gameStarted (gameIndex : Nat)
  | reportingOpened (game : GameInfo T.PlayerId) (playerCount : Nat)
      (players : StorageMap T.PlayerId (Player T.PlayDeposit))
      (indexToPlayer : StorageMap (RoundIndex × PlayerIndex) T.PlayerId)
  | reported (gameIndex : Nat) (round : RoundIndex) (reporter playerId : T.PlayerId) (report : Report)
  | attendanceSet (playerId : T.PlayerId) (attendance : Bool) (gameIndex : Nat)
  | attendanceNoted (playerId : T.PlayerId) (gameIndex : Nat)

structure Store (T : Config) where
  players : StorageMap T.PlayerId (Player T.PlayDeposit)
  archivedPlayers : StorageMap T.PlayerId ArchivedPlayer
  gameIndex : Nat
  game : Option (GameInfo T.PlayerId)
  gameHistory : StorageMap Nat Nat
  gameSchedules : BoundedVec (GameSchedule T.services.Prize) T.maxGameSchedules
  storedPhaseDurations : Option PhaseDurationValues
  playDepositAmount : Nat
  playerAttendanceHistory : StorageMap T.PlayerId (BoundedVec Nat T.maxAttendanceHistoryDepth)
  gameParticipantCount : StorageMap Nat Nat
  indexToPlayer : StorageMap (RoundIndex × PlayerIndex) T.PlayerId
  playerToIndex : StorageMap T.PlayerId (BoundedVec PlayerIndex T.maxRounds)
  shuffleRecognized : StorageMap (RoundIndex × Nat) T.PlayerId
  shuffleNotRecognized : StorageMap (RoundIndex × Nat) T.PlayerId
  nfts : StorageMap (T.PlayerId × Nft) Nat
  nftCandidates : StorageMap (T.PlayerId × Nft) Unit
  aliasToStmtAccount : StorageMap Alias T.AccountId
  stmtAccountToAlias : StorageMap T.AccountId Alias
  score : Score.Store T.AccountId
  world : T.World
  /-- The events so far, the newest first. No call reads them. -/
  log : List (Event T)

/-- What a call reads of its block. -/
structure Env (T : Config) where
  now : Duration
  blockNumber : Nat
  parentHash : T.Hash

variable {T : Config}

namespace Store

/-- The store before the first call. -/
def genesis (T : Config) (world : T.World) : Store T where
  players := ∅
  archivedPlayers := ∅
  gameIndex := 0
  game := none
  gameHistory := ∅
  gameSchedules := default
  storedPhaseDurations := none
  playDepositAmount := T.defaultPlayDeposit
  playerAttendanceHistory := ∅
  gameParticipantCount := ∅
  indexToPlayer := ∅
  playerToIndex := ∅
  shuffleRecognized := ∅
  shuffleNotRecognized := ∅
  nfts := ∅
  nftCandidates := ∅
  aliasToStmtAccount := ∅
  stmtAccountToAlias := ∅
  score := .genesis T.AccountId
  world := world
  log := []

variable (s : Store T)

def logged (event : Event T) : Store T := { s with log := event :: s.log }

def putGame (game : GameInfo T.PlayerId) : Store T := { s with game := some game }

def putPlayer (playerId : T.PlayerId) (player : Player T.PlayDeposit) : Store T :=
  { s with players := s.players.insert playerId player }

/-- Change a player's record, where there is one. -/
def mutatePlayer (playerId : T.PlayerId) (f : Player T.PlayDeposit → Player T.PlayDeposit) : Store T :=
  match s.players.get playerId with
  | some player => s.putPlayer playerId (f player)
  | none => s

/-- The times of the phases of a game played at `gamePlayTime`. -/
def gameTimes (gamePlayTime : Nat) : GameTimes :=
  (s.storedPhaseDurations.getD T.defaultPhaseDurations).times gamePlayTime

/-! ### Tokens -/

def mintNft (owner : T.PlayerId) (nft : Nft) (mintTime : Nat) : Store T :=
  { s with nfts := s.nfts.insert (owner, nft) mintTime }

def stageNft (owner : T.PlayerId) (nft : Nft) : Store T :=
  { s with nftCandidates := s.nftCandidates.insert (owner, nft) () }

/-- Mint a token for each other member of the attendee's groups. -/
def mintAttendanceNfts (gameIndex rounds maxGroupSize playerCount : Nat) (attendee : T.PlayerId)
    (mintTime : Nat) : Store T :=
  match s.playerToIndex.get attendee with
  | none => s
  | some indices =>
    (List.range rounds).foldl (fun s round =>
      match indices.toList[round]? with
      | none => s
      | some index =>
        (GroupsSetting.otherMembers ⟨maxGroupSize, playerCount⟩ index).foldl (fun s i =>
          match s.indexToPlayer.get (round, i) with
          | none => s
          | some coMember => s.mintNft attendee (T.nftHash gameIndex round coMember attendee) mintTime) s) s

/-- The tokens held back for a player. -/
def candidatesOf (attendee : T.PlayerId) : List (T.PlayerId × Nft) :=
  s.nftCandidates.keys.filter fun key => key.1 = attendee

def discardNftCandidates (attendee : T.PlayerId) : Store T :=
  { s with nftCandidates := s.nftCandidates.removeAll (s.candidatesOf attendee) }

def promoteNftCandidates (attendee : T.PlayerId) (mintTime : Nat) : Store T :=
  (s.candidatesOf attendee).foldl (fun s key => s.mintNft key.1 key.2 mintTime)
    (s.discardNftCandidates attendee)

def applyAttendanceToNfts (gameIndex rounds maxGroupSize playerCount : Nat) (attendee : T.PlayerId)
    (attendance : Bool) (mintTime : Nat) : Store T :=
  if attendance then
    (s.mintAttendanceNfts gameIndex rounds maxGroupSize playerCount attendee mintTime).promoteNftCandidates
      attendee mintTime
  else s.discardNftCandidates attendee

/-! ### Attendance -/

/-- Record a game in a player's history, the oldest making room. -/
def noteAttendance (gameIndex : Nat) (playerId : T.PlayerId) : Store T :=
  let attended := (s.playerAttendanceHistory.get playerId).getD default
  let attended := (attended.tryPush gameIndex).getD
    (((attended.remove 0).tryPush gameIndex).getD (attended.remove 0))
  { s.logged (.attendanceNoted playerId gameIndex) with
    playerAttendanceHistory := s.playerAttendanceHistory.insert playerId attended
    gameParticipantCount := s.gameParticipantCount.insert gameIndex
      (U32.saturatingAdd ((s.gameParticipantCount.get gameIndex).getD 0) 1) }

/-- Tell the score pallet, where the player is registered. -/
def setAttendance (playerId : T.PlayerId) (attendance : Bool) (gameIndex : Nat) :
    Store T × Option Score.Participant :=
  let s := s.logged (.attendanceSet playerId attendance gameIndex)
  match s.score.setAttendance T.services.toServices s.world playerId attendance gameIndex with
  | .ok (score, world, participant) => ({ s with score := score, world := world }, some participant)
  | .error _ => (s, none)

/-- What becomes of a player once attendance is applied. Externally recognized players cannot be
kicked, as their personhood was established elsewhere. -/
def disposition (attendance : Bool) (participant : Option Score.Participant) : PlayerDisposition :=
  let externallyRecognized := participant.any fun p => p.recognition.isExternallyRecognized
  let zeroScore := participant.any fun p => p.score == 0
  if externallyRecognized && (zeroScore || !attendance) then .archiveUnkickable
  else if zeroScore then .archiveKickable
  else .keep

/-- Apply a player's attendance; also what is left of the game's pending attendance. -/
def applyAttendance (playerId : T.PlayerId) (attendance registered : Bool)
    (gameIndex pendingAttendance : Nat) : Store T × Nat × EarlyAttendanceEnactment :=
  let (s, participant) := s.setAttendance playerId attendance gameIndex
  let s := if attendance then s.noteAttendance gameIndex playerId else s
  (s, if registered then pendingAttendance - 1 else pendingAttendance,
    ⟨attendance, disposition attendance participant⟩)

end Store

/-- The attendance of a player given a partial vote. -/
def determineAttendance {D : Type} (player : Player D) : AttendanceStatus :=
  if player.registered = false then .notAttended
  else
    let yes := player.yesPerson
    let no := player.noNotPerson
    let remaining := player.expectedMaxVoteWeight - (yes + no)
    -- All remaining votes are for the player.
    if yes + remaining - 1 < no then .notAttended
    -- All remaining votes are against the player.
    else if player.sentReport ∧ no + remaining ≤ yes - 1 then .attended
    else .pending

/-- The attendance of a player once all votes are in. -/
def finalAttendance {D : Type} (player : Player D) : Bool :=
  player.registered && player.sentReport && decide (player.noNotPerson ≤ player.yesPerson - 1)

namespace Store
variable (env : Env T) (s : Store T)

/-- Apply the attendance of a player while the reporting goes on, and cache the result. -/
def enactEarly (game : GameInfo T.PlayerId) (playerId : T.PlayerId) (player : Player T.PlayDeposit)
    (attendance : Bool) : Store T :=
  match game.state with
  | .reporting playerCount =>
    let (s, pendingAttendance, result) :=
      s.applyAttendance playerId attendance player.registered game.index game.pendingAttendance
    let s := s.applyAttendanceToNfts game.index game.rounds game.maxGroupSize playerCount playerId
      attendance env.now.asSecs
    let s := s.putGame { game with pendingAttendance := pendingAttendance }
    s.mutatePlayer playerId fun player => { player with earlyAttendanceEnactment := some result }
  | _ => s

/-- Apply the attendance of a player if it can be determined already. -/
def tryEarlyAttendanceEnactment (playerId : T.PlayerId) : Store T :=
  match s.players.get playerId, s.game with
  | some player, some game =>
    if player.earlyAttendanceEnactment.isSome then s
    else
      match determineAttendance player with
      | .attended => s.enactEarly env game playerId player true
      | .notAttended => s.enactEarly env game playerId player false
      | .pending => s
  | _, _ => s

end Store
end Individuality.Game
