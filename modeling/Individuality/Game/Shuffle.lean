import Individuality.Game.Store

/-! The shuffle: four steps, each resumable at any point.

Registered players are staged under hashes, once for each round; drained in the
order of the hashes, recognized ones first, which gives each player an index in
each round; then each player's largest possible vote is computed from its groups;
then the shuffle waits for a report session. A turn makes one move of the current
step, and `shuffles` makes turns while the weight lasts. -/
namespace Individuality.Game
open Support
variable {T : Config}

def opUpperBound : Nat := 100000

namespace Store
variable (env : Env T) (s : Store T)

/-- Stage a player for a round. -/
def stagePlayer (recognized : Bool) (playerId : T.PlayerId) (round : RoundIndex) : Store T :=
  let key := (round, T.shuffleHash env.parentHash playerId round)
  if recognized then { s with shuffleRecognized := s.shuffleRecognized.insert key playerId }
  else { s with shuffleNotRecognized := s.shuffleNotRecognized.insert key playerId }

/-- Stage the next player, if it is registered. -/
def shuffleStepInsert (lastIteration : Option T.PlayerId) (game : GameInfo T.PlayerId) :
    Option (Store T × T.PlayerId × GameInfo T.PlayerId) :=
  (s.players.nextEntry T.playerKey lastIteration).map fun (playerId, player) =>
    if player.registered then
      let recognized := s.score.reachedPersonhood playerId
      let staged := (s.mutatePlayer playerId fun player =>
        { player with voteWeight := T.voteWeight recognized })
      ((List.range game.rounds).foldl (fun s round => s.stagePlayer env recognized playerId round) staged,
        playerId,
        { game with pendingAttendance := U32.saturatingAdd game.pendingAttendance 1 })
    else (s, playerId, game)

/-! ### Retrieving -/

/-- The first entry staged for a round, in the order of the hashes. -/
def firstStaged (m : StorageMap (RoundIndex × Nat) T.PlayerId) (round : RoundIndex) :
    Option ((RoundIndex × Nat) × T.PlayerId) :=
  ((m.keysInOrder Prod.snd).find? fun key => key.1 = round).bind fun key =>
    (m.get key).map fun playerId => (key, playerId)

/-- The next player staged for a round, taken out. -/
def drainStaged (recognizedFinished : Bool) (round : RoundIndex) : Option (Store T × T.PlayerId) :=
  if recognizedFinished then
    (firstStaged s.shuffleNotRecognized round).map fun (key, playerId) =>
      ({ s with shuffleNotRecognized := s.shuffleNotRecognized.remove key }, playerId)
  else
    (firstStaged s.shuffleRecognized round).map fun (key, playerId) =>
      ({ s with shuffleRecognized := s.shuffleRecognized.remove key }, playerId)

/-- A player's indices, one for each round from the first one on. -/
def indicesOf (rounds : Nat) (playerId : T.PlayerId) : BoundedVec PlayerIndex T.maxRounds :=
  (s.playerToIndex.get playerId).getD
    ((BoundedVec.tryFrom (List.replicate rounds 0)).getD default)

def setIndex (indices : BoundedVec PlayerIndex T.maxRounds) (round : RoundIndex) (index : PlayerIndex) :
    BoundedVec PlayerIndex T.maxRounds :=
  ⟨indices.toList.set round index, by rw [List.length_set]; exact indices.length_le⟩

/-- Give a player its index in a round. -/
def assignIndex (rounds : Nat) (round : RoundIndex) (index : PlayerIndex) (playerId : T.PlayerId) :
    Store T :=
  { s with
    playerToIndex := s.playerToIndex.insert playerId
      (setIndex (s.indicesOf rounds playerId) round index)
    indexToPlayer := s.indexToPlayer.insert (round, index) playerId }

/-- Retrieve a player in each round, as far as there are any; whether there were in all. -/
def retrieveRounds (recognizedFinished : Bool) (rounds index : Nat) :
    Store T → List RoundIndex → Store T × Bool
  | s, [] => (s, true)
  | s, round :: rest =>
    match s.drainStaged recognizedFinished round with
    | none => (s, false)
    | some (s, playerId) =>
      retrieveRounds recognizedFinished rounds index (s.assignIndex rounds round index playerId) rest

/-- Where the retrieval goes on, or nothing once it is through. -/
def shuffleStepRetrieve (nextPlayerIndex : Nat) (recognizedFinished : Bool) (rounds : Nat) :
    Store T × Option (Nat × Bool) :=
  match retrieveRounds recognizedFinished rounds nextPlayerIndex s (List.range rounds) with
  | (s, true) => (s, some (U32.saturatingAdd nextPlayerIndex 1, recognizedFinished))
  | (s, false) => (s, if recognizedFinished then none else some (nextPlayerIndex, true))

/-! ### Weights -/

/-- The weight of the vote of the player at an index. -/
def weightAt (round : RoundIndex) (index : PlayerIndex) : Nat :=
  match (s.indexToPlayer.get (round, index)).bind s.players.get with
  | some member => member.voteWeight
  | none => 0

/-- The weight that all other members of a player's groups can give it. -/
def totalWeight (groups : GroupsSetting) (rounds : Nat) (indices : List PlayerIndex) : Nat :=
  (List.range rounds).foldl (fun total round =>
    match indices[round]? with
    | none => total
    | some index =>
      (groups.otherMembers index).foldl (fun total i => U32.saturatingAdd total (s.weightAt round i))
        total) 0

/-- Compute the weight of the next player. -/
def shuffleStepComputeWeights (lastIteration : Option T.PlayerId)
    (rounds playerCount maxPerGroup : Nat) : Option (Store T × T.PlayerId) :=
  (s.playerToIndex.nextEntry T.playerKey lastIteration).map fun (playerId, indices) =>
    (s.mutatePlayer playerId fun player =>
      { player with expectedMaxVoteWeight :=
          U16.saturatedFrom (s.totalWeight ⟨maxPerGroup, playerCount⟩ rounds indices.toList) },
      playerId)

/-! ### The shuffle -/

/-- The weight a turn of a step costs. -/
def shuffleStepWeight (game : GameInfo T.PlayerId) : ShuffleStep T.PlayerId → Weight
  | .insert _ => T.weights.shuffleStepInsert game.rounds
  | .retrieve _ _ => T.weights.shuffleStepRetrieve game.rounds
  | .computeWeights _ _ => T.weights.shuffleStepComputeWeights game.maxGroupSize game.rounds
  | .awaitSession _ => T.weights.shuffleStepStartSession

/-- Start the report session, if that is possible. -/
def startSession (game : GameInfo T.PlayerId) (playerCount : Nat) : Store T × GameInfo T.PlayerId :=
  if T.services.canStartPeopleSetMutationSession s.world then
    match s.score.startAttendanceReportSession T.services.toServices s.world with
    | (score, some world) =>
      ({ s.logged (.reportingOpened game playerCount s.players s.indexToPlayer) with
        score := score, world := world }, { game with state := .reporting playerCount })
    | (score, none) => ({ s with score := score }, game)
  else (s, game)

/-- One move of the current step; whether the shuffle goes on after it. -/
def shuffleMove (game : GameInfo T.PlayerId) (step : ShuffleStep T.PlayerId) :
    Store T × GameInfo T.PlayerId × Bool :=
  match step with
  | .insert lastIteration =>
    match s.shuffleStepInsert env lastIteration game with
    | some (s, playerId, game) => (s, { game with state := .shuffle (.insert (some playerId)) }, true)
    | none => (s, { game with state := .shuffle (.retrieve 0 false) }, true)
  | .retrieve nextPlayerIndex recognizedFinished =>
    match s.shuffleStepRetrieve nextPlayerIndex recognizedFinished game.rounds with
    | (s, some (next, finished)) => (s, { game with state := .shuffle (.retrieve next finished) }, true)
    | (s, none) => (s, { game with state := .shuffle (.computeWeights none nextPlayerIndex) }, true)
  | .computeWeights lastIteration playerCount =>
    match s.shuffleStepComputeWeights lastIteration game.rounds playerCount game.maxGroupSize with
    | some (s, playerId) =>
      (s, { game with state := .shuffle (.computeWeights (some playerId) playerCount) }, true)
    | none => (s, { game with state := .shuffle (.awaitSession playerCount) }, true)
  | .awaitSession playerCount =>
    let (s, game) := s.startSession game playerCount
    (s, game, false)

/-- Pay for a move and make it; whether the shuffle goes on after it. -/
def shuffleTurn : Store T × GameInfo T.PlayerId × Weight → (Store T × GameInfo T.PlayerId × Weight) × Bool
  | (s, game, meter) =>
    match game.state with
    | .shuffle step =>
      match meter.tryConsume (shuffleStepWeight game step) with
      | none => ((s, game, meter), false)
      | some meter =>
        let (s, game, go) := s.shuffleMove env game step
        ((s, game, meter), go)
    | _ => ((s, game, meter), false)

/-- Cancel the game's airdrop, if one was scheduled. -/
def onGameCancelled (game : GameInfo T.PlayerId) : Store T :=
  if game.airdropScheduled then { s with world := T.services.cancelAirdrop s.world game.index } else s

/-- Shuffle the players while the weight lasts; past the deadline, the game is cancelled. -/
def shuffles (meter : Weight) (game : GameInfo T.PlayerId) : Store T :=
  match meter.tryConsume (T.weights.shufflesBase + T.weights.onGameCancelled) with
  | none => s
  | some meter =>
    if Duration.fromSecs game.shuffleDeadline < env.now then
      (s.onGameCancelled game).putGame { game with state := .cancelling none }
    else
      let (s, game, _) := repeatUpTo (shuffleTurn env) opUpperBound (s, game, meter)
      s.putGame game

end Store
end Individuality.Game
