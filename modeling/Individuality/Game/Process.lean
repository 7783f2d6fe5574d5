import Individuality.Game.Shuffle

/-! The hooks: a game moves on between blocks.

A game that finished is processed player by player, then its indices are cleared;
a cancelled one is cleaned player by player. Each of these stops where the weight
ends and goes on from there in another block. -/
namespace Individuality.Game
open Support
open Score (AccountOrPerson)
variable {T : Config}

def playerProcessStep2Chunk : Nat := 100

def gameProcessSkippedBlock : Nat := 8

namespace Store
variable (env : Env T) (s : Store T)

/-! ### Reporting -/

/-- End the reporting when its time is over or nothing is pending. -/
def processReporting (meter : Weight) : Store T :=
  match meter.tryConsume T.weights.processReporting, s.game with
  | some _, some game =>
    match game.state with
    | .reporting playerCount =>
      if env.now < Duration.fromSecs game.reportEnds ∧ game.pendingAttendance ≠ 0 then s
      else s.putGame { game with state := .playerProcess (.processPlayers none playerCount) }
    | _ => s
  | _, _ => s

/-! ### Processing players -/

/-- Release the statement account of a player that leaves the game. -/
def releaseStmtAccount (playerId : T.PlayerId) : Store T :=
  match playerId with
  | .account account => { s with world := T.services.decreaseAllowance s.world account }
  | .person id =>
    match s.aliasToStmtAccount.get id with
    | none => s
    | some account =>
      { s with
        aliasToStmtAccount := s.aliasToStmtAccount.remove id
        stmtAccountToAlias := s.stmtAccountToAlias.remove account
        world := T.services.decreaseAllowance s.world account }

def archive (playerId : T.PlayerId) (player : Player T.PlayDeposit) (archived : ArchivedPlayer) :
    Store T :=
  let s :=
    match player.credibility, playerId with
    | .deposit ticket, .account account =>
      { s with world := T.services.burnDeposit s.world account ticket }
    | _, _ => s
  let s := s.releaseStmtAccount playerId
  { s with
    players := s.players.remove playerId
    archivedPlayers := s.archivedPlayers.insert playerId archived }

/-- Reset a player that stays; one that reached personhood has its deposit back. -/
def keep (playerId : T.PlayerId) (player : Player T.PlayDeposit) : Store T :=
  match player.credibility with
  | .deposit ticket =>
    if s.score.reachedPersonhood playerId then
      let world :=
        match playerId with
        | .account account => (T.services.dropDeposit s.world account ticket).getD s.world
        | .person _ => s.world
      ({ s with world := world }).putPlayer playerId (.fresh false player.firstGame .recognized)
    else s.putPlayer playerId player.reset
  | _ => s.putPlayer playerId player.reset

/-- The attendance of a player: the one enacted early, or else the outcome of the votes. -/
def enactAttendance (game : GameInfo T.PlayerId) (playerCount : Nat) (playerId : T.PlayerId)
    (player : Player T.PlayDeposit) : Store T × Nat × EarlyAttendanceEnactment :=
  match player.earlyAttendanceEnactment with
  | some cached => (s, game.pendingAttendance, cached)
  | none =>
    let (s, pendingAttendance, enactment) := s.applyAttendance playerId (finalAttendance player)
      player.registered game.index game.pendingAttendance
    (s.applyAttendanceToNfts game.index game.rounds game.maxGroupSize playerCount playerId
      (finalAttendance player) env.now.asSecs, pendingAttendance, enactment)

/-- Settle one player's attendance; the game's pending attendance after it. -/
def processPlayerAttendanceOutcome (game : GameInfo T.PlayerId) (playerCount : Nat)
    (playerId : T.PlayerId) (player : Player T.PlayDeposit) : Store T × Nat :=
  let (s, pendingAttendance, enactment) := s.enactAttendance env game playerCount playerId player
  (match enactment.disposition with
    | .archiveKickable => s.archive playerId player (.kickable player.firstGame env.blockNumber)
    | .archiveUnkickable => s.archive playerId player (.unkickable player.firstGame)
    | .keep => s.keep playerId player, pendingAttendance)

/-- Pay for the next player and settle it; whether there was one. -/
def playerProcessTurn (playerCount : Nat) :
    Store T × GameInfo T.PlayerId × Option T.PlayerId × Weight →
      (Store T × GameInfo T.PlayerId × Option T.PlayerId × Weight) × Bool
  | (s, game, lastIteration, meter) =>
    match s.players.nextEntry T.playerKey lastIteration with
    | none => ((s, game, lastIteration, meter), false)
    | some (playerId, player) =>
      match meter.tryConsume (T.weights.playerProcessStep1AttendedPlayer.max
        T.weights.playerProcessStep1NotAttendedPlayer) with
      | none => ((s, game, lastIteration, meter), false)
      | some meter =>
        let (s, pendingAttendance) := s.processPlayerAttendanceOutcome env game playerCount playerId player
        ((s, { game with pendingAttendance := pendingAttendance }, some playerId, meter), true)

def endSession : Store T :=
  { s with world := (T.services.endPeopleSetMutationSession s.world).getD s.world }

def playerProcessStep1 (meter : Weight) (game : GameInfo T.PlayerId) (lastIteration : Option T.PlayerId)
    (playerCount : Nat) : Store T :=
  match meter.tryConsume T.weights.playerProcessStep1 with
  | none => s
  | some meter =>
    let (s, game, lastIteration, _) :=
      repeatUpTo (playerProcessTurn env playerCount) opUpperBound (s, game, lastIteration, meter)
    match s.players.nextEntry T.playerKey lastIteration with
    | none => s.endSession.putGame { game with state := .playerProcess .clearIndices }
    | some _ =>
      s.putGame { game with state := .playerProcess (.processPlayers lastIteration playerCount) }

/-! ### Clearing the indices -/

/-- How far the two maps of indices are cleared: a cursor for each, and whether it is done. -/
structure Clearing (T : Config) where
  cursor1 : Option (RoundIndex × PlayerIndex)
  cursor2 : Option T.PlayerId
  done1 : Bool
  done2 : Bool

def clearIndexToPlayer (c : Clearing T) : Store T × Clearing T :=
  if c.done1 then (s, c)
  else
    let (indexToPlayer, cursor) := s.indexToPlayer.clearFrom T.indexKey playerProcessStep2Chunk c.cursor1
    ({ s with indexToPlayer := indexToPlayer }, { c with cursor1 := cursor, done1 := cursor.isNone })

def clearPlayerToIndex (c : Clearing T) : Store T × Clearing T :=
  if c.done2 then (s, c)
  else
    let (playerToIndex, cursor) :=
      s.playerToIndex.clearFrom T.playerKey playerProcessStep2Chunk c.cursor2
    ({ s with playerToIndex := playerToIndex }, { c with cursor2 := cursor, done2 := cursor.isNone })

/-- Clear a chunk of each map. -/
def playerProcessStep2InnerLoop (c : Clearing T) : Store T × Clearing T :=
  let (s, c) := s.clearIndexToPlayer c
  s.clearPlayerToIndex c

def clearTurn : Store T × Clearing T × Weight → (Store T × Clearing T × Weight) × Bool
  | (s, c, meter) =>
    match meter.tryConsume T.weights.playerProcessStep2InnerLoop with
    | none => ((s, c, meter), false)
    | some meter =>
      let (s, c) := s.playerProcessStep2InnerLoop c
      ((s, c, meter), !(c.done1 && c.done2))

/-- Clear the indices; the game ends once both maps are clear. -/
def playerProcessStep2 (meter : Weight) : Store T :=
  match meter.tryConsume T.weights.playerProcessStep2 with
  | none => s
  | some meter =>
    let (s, c, _) := repeatUpTo clearTurn opUpperBound (s, ⟨none, none, false, false⟩, meter)
    if c.done1 && c.done2 then { s with game := none } else s

/-! ### Cancelling -/

/-- Remove a player's indices and what the indices stand for. -/
def takeIndices (playerId : T.PlayerId) (rounds : Nat) : Store T :=
  match s.playerToIndex.get playerId with
  | none => s
  | some indices =>
    { s with
      playerToIndex := s.playerToIndex.remove playerId
      indexToPlayer := (List.range rounds).foldl (fun m round =>
        match indices.toList[round]? with
        | some index => m.remove (round, index)
        | none => m) s.indexToPlayer }

/-- Reset the next player and remove its indices. -/
def processCancellingStep (lastIteration : Option T.PlayerId) (rounds : Nat) :
    Option (Store T × T.PlayerId) :=
  (s.players.nextEntry T.playerKey lastIteration).map fun (playerId, player) =>
    ((s.putPlayer playerId player.reset).takeIndices playerId rounds, playerId)

/-- Pay for a step and make it; the last component says whether no player was left. -/
def cancellingTurn (rounds : Nat) : Store T × Option T.PlayerId × Weight × Bool →
    (Store T × Option T.PlayerId × Weight × Bool) × Bool
  | (s, lastIteration, meter, finished) =>
    match meter.tryConsume (T.weights.processCancellingStep rounds) with
    | none => ((s, lastIteration, meter, finished), false)
    | some meter =>
      match s.processCancellingStep lastIteration rounds with
      | some (s, playerId) => ((s, some playerId, meter, false), true)
      | none => ((s, lastIteration, meter, true), false)

def processCancelling (meter : Weight) (game : GameInfo T.PlayerId) (lastIteration : Option T.PlayerId) :
    Store T :=
  match meter.tryConsume T.weights.processCancelling with
  | none => s
  | some meter =>
    let (s, lastIteration, _, finished) :=
      repeatUpTo (cancellingTurn game.rounds) opUpperBound (s, lastIteration, meter, false)
    if finished then { s with game := none, gameHistory := s.gameHistory.remove game.index }
    else s.putGame { game with state := .cancelling lastIteration }

/-! ### A game's next move -/

/-- End the registration once its time is over: the game is shuffled, or cancelled where its
players do not make groups. -/
def endRegistration (meter : Weight) (game : GameInfo T.PlayerId) (playerCount : Nat) : Store T :=
  match meter.tryConsume T.weights.unixTime with
  | none => s
  | some meter =>
    if env.now < Duration.fromSecs game.registrationEnds then s
    else
      match meter.tryConsume (T.weights.putGame + T.weights.onGameCancelled) with
      | none => s
      | some _ =>
        if GroupsSetting.acceptablePlayerCount ⟨game.maxGroupSize, playerCount⟩ T.testnet then
          s.putGame { game with state := .shuffle (.insert none) }
        else (s.onGameCancelled game).putGame { game with state := .cancelling none }

def processGame (meter : Weight) (game : GameInfo T.PlayerId) : Store T :=
  -- Some blocks are skipped, so that a wrong weight cannot stop the chain.
  if env.blockNumber % gameProcessSkippedBlock = 0 then s
  else
    match game.state with
    | .registration nextPlayerIndex => s.endRegistration env meter game nextPlayerIndex
    | .shuffle _ => s.shuffles env meter game
    | .reporting _ => s.processReporting env meter
    | .playerProcess (.processPlayers lastIteration playerCount) =>
      s.playerProcessStep1 env meter game lastIteration playerCount
    | .playerProcess .clearIndices => s.playerProcessStep2 meter
    | .cancelling lastIteration => s.processCancelling meter game lastIteration

/-! ### Starting games -/

/-- Schedule the airdrop of a game, if there is a prize; whether it was. -/
def tryScheduleAirdrop (gameIndex registrationStarts gamePlayTime airdropEndTime : Nat)
    (schedule : GameSchedule T.services.Prize) : Store T × Bool :=
  match schedule.airdropPrize with
  | none => (s, false)
  | some prize =>
    match T.services.scheduleAirdrop s.world gameIndex prize registrationStarts gamePlayTime
      airdropEndTime with
    | some world => ({ s with world := world }, true)
    | none => (s, false)

def newGame (schedule : GameSchedule T.services.Prize) : Except Error (Store T) := do
  ensure (s.game = none) .gameOngoing
  let times := s.gameTimes schedule.gamePlayTime
  ensure (env.now < Duration.fromSecs times.registrationStart) .outdatedGameSetup
  ensure (times.registrationEnd < times.gamePlayTime) .invalidGameSetup
  ensure (times.gamePlayTime < times.reportingEnd) .invalidGameSetup
  ensure (0 < schedule.rounds) .invalidGameSetup
  ensure (schedule.rounds ≤ T.maxRounds) .invalidGameSetup
  ensure (T.minGroupSize ≤ schedule.maxGroupSize) .invalidGameSetup
  ensure (schedule.maxGroupSize ≤ T.maxGroupSize) .invalidGameSetup
  let index := U32.saturatingAdd s.gameIndex 1
  let phases := s.storedPhaseDurations.getD T.defaultPhaseDurations
  let airdropEndTime := U64.saturatingAdd (U64.saturatingAdd times.gamePlayTime phases.reporting)
    phases.airdropClaimWindow
  let (s, airdropScheduled) := s.tryScheduleAirdrop index env.now.asSecs times.gamePlayTime
    airdropEndTime schedule
  .ok { s.logged (.gameStarted index) with
    gameIndex := index
    game := some {
      index := index
      registrationEnds := times.registrationEnd
      gameDate := times.gamePlayTime
      shuffleDeadline := times.shuffleDeadline
      reportEnds := times.reportingEnd
      state := .registration 0
      maxGroupSize := schedule.maxGroupSize
      rounds := schedule.rounds
      pendingAttendance := 0
      airdropScheduled := airdropScheduled }
    gameHistory := s.gameHistory.insert index times.gamePlayTime }

/-- Start the first scheduled game; it leaves the schedules whether it can be started or not. -/
def startScheduledGame (meter : Weight) : Store T :=
  match meter.tryConsume (T.weights.getGameSchedules T.maxGameSchedules) with
  | none => s
  | some meter =>
    match s.gameSchedules.toList with
    | [] => s
    | schedule :: _ =>
      match meter.tryConsume (T.weights.newGame + T.weights.putGameSchedules) with
      | none => s
      | some _ =>
        let started := (s.newGame env schedule).toOption.getD s
        { started with gameSchedules := s.gameSchedules.remove 0 }

/-- The hook of a block; it uses at most half of what is left of the block's weight. -/
def onPoll (remaining : Weight) : Store T :=
  match remaining.half.tryConsume T.weights.getGame with
  | none => s
  | some meter =>
    match s.game with
    | none => s.startScheduledGame env meter
    | some game => s.processGame env meter game

def onIdle (remaining : Weight) : Store T :=
  match remaining.half.tryConsume T.weights.getGame with
  | none => s
  | some meter =>
    match s.game with
    | none => s
    | some game => s.processGame env meter game

end Store
end Individuality.Game
