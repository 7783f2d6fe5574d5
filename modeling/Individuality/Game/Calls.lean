import Individuality.Game.Process
import Individuality.Support.Runs
import Mathlib.Data.Nat.Digits.Lemmas
import Mathlib.Data.Nat.Pairing

/-! The game pallet's calls.

Players sign up, report and leave; the manager schedules games, changes the phases
and may kill a game; the hooks move a game on. What other calls do to the score
pallet and to the rest of the chain is one action each, with any result. -/
namespace Individuality.Game
open Support
open Score (Alias AccountOrPerson)
variable {T : Config}

abbrev Airdrop (T : Config) : Type := AirdropVrf T.services.VrfSignature T.services.Proof

/-- The sign-up variants. -/
inductive SignUpArgs (T : Config)
  | alias (who : Alias) (statementAccount : T.AccountId)
      (statementAccountSignature : T.services.AccountSignature) (airdrop : Option (Airdrop T))
  | account (who : T.AccountId) (newInvited : Bool) (airdrop : Option (Airdrop T))

inductive Call (T : Config)
  | signUp (args : SignUpArgs T)
  | report (who : T.PlayerId) (fullReport : List (List Report))
  | offboard (who : T.PlayerId)
  | kickout (player : T.AccountId)
  | scheduleGames (schedules : List (GameSchedule T.services.Prize))
  | removeScheduledGame (gamePlayTime : Nat)
  | setGamePhases (phases : PhaseDurationValues)
  | setPlayDeposit (amount : Nat)
  | killCurrentGame
  | testnetForceStartShuffle
  | testnetForceEndReporting
  | onPoll (remaining : Weight)
  | onIdle (remaining : Weight)
  /-- Calls of the score pallet, and of the rest of the chain. -/
  | score (score : Score.Store T.AccountId)
  | elsewhere (world : T.World)

namespace Store
variable (env : Env T) (s : Store T)

/-! ### Signing up -/

/-- Bind the statement account of an alias, releasing the one bound before. -/
def bindStmtAccount (who : Alias) (statementAccount : T.AccountId) : Except Error (Store T) :=
  if s.aliasToStmtAccount.get who = some statementAccount then .ok s
  else do
    let s :=
      match s.aliasToStmtAccount.get who with
      | none => s
      | some previous =>
        { s with
          stmtAccountToAlias := s.stmtAccountToAlias.remove previous
          world := T.services.decreaseAllowance s.world previous }
    ensure (s.stmtAccountToAlias.contains statementAccount = false ∧
      s.players.contains (.account statementAccount) = false ∧
      s.archivedPlayers.contains (.account statementAccount) = false) .statementAccountAlreadyInUse
    .ok { s with
      stmtAccountToAlias := s.stmtAccountToAlias.insert statementAccount who
      aliasToStmtAccount := s.aliasToStmtAccount.insert who statementAccount
      world := T.services.increaseAllowance s.world statementAccount }

/-- Who signs up, whether invited, and the entry to the airdrop, once accounts are bound. -/
def resolveSignUp : SignUpArgs T → Except Error (Store T × T.PlayerId × Bool × Option (Airdrop T))
  | .alias who statementAccount statementAccountSignature airdrop => do
    ensure (T.services.verify statementAccountSignature who statementAccount = true)
      .invalidStatementAccountSignature
    let s ← s.bindStmtAccount who statementAccount
    .ok (s, .person who, false, airdrop)
  | .account who newInvited airdrop => do
    ensure (s.stmtAccountToAlias.contains who = false) .statementAccountAlreadyInUse
    .ok (s, .account who, newInvited, airdrop)

def onboard (who : T.PlayerId) : Except Error (Store T) :=
  match who with
  | .account account =>
    match s.score.onboardForRecognition T.services.toServices s.world account with
    | .ok (score, world) => .ok { s with score := score, world := world }
    | .error e => .error (.score e)
  | .person id =>
    match s.score.onboardExternallyRecognized id with
    | .ok score => .ok { s with score := score }
    | .error e => .error (.score e)

/-- A player that the score pallet knows already is not onboarded again. -/
def onboardIfNew (who : T.PlayerId) (isNew : Bool) : Except Error (Store T) :=
  if isNew then s.onboard who else .ok s

/-- The first game and the credibility of a player that signs up; a deposit is taken where
nothing else makes it credible. -/
def takeCredibility (who : T.PlayerId) (player : Option (Player T.PlayDeposit))
    (archived : Option ArchivedPlayer) (newInvited : Bool) (gameIndex : Nat) :
    Except Error (Store T × Nat × PlayerCredibility T.PlayDeposit) :=
  match player with
  | some player => .ok (s, player.firstGame, player.credibility)
  | none =>
    if newInvited then .ok (s, gameIndex, .invited)
    else
      let firstGame := (archived.map ArchivedPlayer.firstGame).getD gameIndex
      match who with
      | .account account =>
        match T.services.newDeposit s.world account s.playDepositAmount with
        | some (ticket, world) => .ok ({ s with world := world }, firstGame, .deposit ticket)
        | none => .error .deposit
      | .person _ => .ok (s, firstGame, .recognized)

def registerForAirdrop (airdrop : Option (Airdrop T)) (who : T.PlayerId) (airdropScheduled : Bool)
    (gameIndex : Nat) : Except Error (Store T) :=
  match airdropScheduled, airdrop with
  | true, some vrf => do
    let recognized := (s.score.participants.get who).any fun p => p.recognition.isRecognized
    match vrf, who with
    | .alias proof ringIndex revision, who =>
      ensure (recognized = true) .invalidAirdropVrfVariantForRecognition
      let world ← okOr (T.services.participateWithAlias s.world gameIndex who proof ringIndex revision)
        .airdrop
      .ok { s with world := world }
    | .account signature, .account account =>
      ensure (recognized = false) .invalidAirdropVrfVariantForRecognition
      let world ← okOr (T.services.participateWithAccount s.world gameIndex account signature) .airdrop
      .ok { s with world := world }
    | .account _, .person _ =>
      ensure (recognized = false) .invalidAirdropVrfVariantForRecognition
      .error .invalidAirdropVrfVariantForAccount
  | _, _ => .ok s

/-- An account that starts to play may store statements. -/
def allowStatements (who : T.PlayerId) (isPlaying : Bool) : Store T :=
  match isPlaying, who with
  | false, .account account => { s with world := T.services.increaseAllowance s.world account }
  | _, _ => s

def signUp (args : SignUpArgs T) : Except Error (Store T) := do
  let game ← okOr s.game .noGame
  ensure (env.now < Duration.fromSecs game.registrationEnds) .noRegistration
  match game.state with
  | .registration nextPlayerIndex => do
    let (s, who, newInvited, airdrop) ← s.resolveSignUp args
    let player := s.players.get who
    ensure (newInvited = false ∨ player.isNone = true) .useInviteButAlreadyPlaying
    ensure (player.all (fun player => !player.registered) = true) .alreadyRegistered
    let archived := s.archivedPlayers.get who
    let s := { s with archivedPlayers := s.archivedPlayers.remove who }
    let s ← s.onboardIfNew who (archived.isNone && player.isNone)
    let (s, firstGame, credibility) ← s.takeCredibility who player archived newInvited game.index
    let s := s.putPlayer who (.fresh true firstGame credibility)
    let s ← s.registerForAirdrop airdrop who game.airdropScheduled game.index
    let s := s.allowStatements who player.isSome
    .ok (s.putGame { game with state := .registration (U32.saturatingInc nextPlayerIndex) })
  | _ => .error .noRegistration

/-! ### Reporting -/

/-- A player's record with one report about it counted. -/
def countReport (player : Player T.PlayDeposit) (report : Report) (weight : Nat) :
    Player T.PlayDeposit :=
  match report with
  | .person => { player with yesPerson := U8.saturatingAdd player.yesPerson weight }
  | .notPerson => { player with noNotPerson := U8.saturatingAdd player.noNotPerson weight }

/-- Count one report about a player; also the attendance enacted for the player already. -/
def countVote (playerId : T.PlayerId) (report : Report) (weight : Nat) :
    Except Error (Store T × Option EarlyAttendanceEnactment) :=
  match s.players.get playerId with
  | none => .error .internalErrorInvalidState
  | some player =>
    .ok (s.putPlayer playerId (countReport player report weight), player.earlyAttendanceEnactment)

/-- Mint the token of a report, hold it back until the attendance is known, or drop it. -/
def placeNft (playerId : T.PlayerId) (report : Report) (early : Option EarlyAttendanceEnactment)
    (nft : Nft) (mintTime : Nat) : Store T :=
  match report, early with
  | .person, _ => s.mintNft playerId nft mintTime
  | .notPerson, some ⟨true, _⟩ => s.mintNft playerId nft mintTime
  | .notPerson, some ⟨false, _⟩ => s
  | .notPerson, none => s.stageNft playerId nft

/-- The reports of a round, one for each other member of the reporter's group; also the players
reported so far. -/
def reportGroup (gameIndex : Nat) (who : T.PlayerId) (weight mintTime : Nat) (round : RoundIndex) :
    Store T → List T.PlayerId → List PlayerIndex → List Report →
      Except Error (Store T × List T.PlayerId)
  | s, reported, [], [] => .ok (s, reported)
  | _, _, [], _ :: _ => .error .invalidReport
  | _, _, _ :: _, [] => .error .invalidReport
  | s, reported, index :: others, report :: reports => do
    let playerId ← okOr (s.indexToPlayer.get (round, index)) .internalErrorInvalidState
    let (s, early) ← s.countVote playerId report weight
    let s := s.placeNft playerId report early (T.nftHash gameIndex round who playerId) mintTime
    let s := s.logged (.reported gameIndex round who playerId report)
    let reported := if playerId ∈ reported then reported else reported ++ [playerId]
    reportGroup gameIndex who weight mintTime round s reported others reports

/-- The reports of the rounds, in order. -/
def reportRounds (game : GameInfo T.PlayerId) (playerCount : Nat) (who : T.PlayerId)
    (weight mintTime : Nat) (indices : List PlayerIndex) (fullReport : List (List Report)) :
    Store T → List T.PlayerId → List RoundIndex → Except Error (Store T × List T.PlayerId)
  | s, reported, [] => .ok (s, reported)
  | s, reported, round :: rounds => do
    let reports ← okOr fullReport[round]? .invalidReport
    let index ← okOr indices[round]? .internalErrorInvalidState
    let (s, reported) ← reportGroup game.index who weight mintTime round s reported
      (GroupsSetting.otherMembers ⟨game.maxGroupSize, playerCount⟩ index) reports
    reportRounds game playerCount who weight mintTime indices fullReport s reported rounds

/-- Mark the reporter, whose vote weighs what the shuffle found. -/
def markReporter (who : T.PlayerId) : Except Error (Store T × Nat) := do
  let player ← okOr (s.players.get who) .notRegistered
  ensure (player.sentReport = false) .reportAlreadySent
  .ok (s.putPlayer who { player with sentReport := true }, player.voteWeight)

def report (who : T.PlayerId) (fullReport : List (List Report)) : Except Error (Store T) := do
  let game ← okOr s.game .noGame
  ensure (env.now < Duration.fromSecs game.reportEnds) .noReporting
  match game.state with
  | .reporting playerCount => do
    let (s, weight) ← s.markReporter who
    ensure (fullReport.length = game.rounds) .invalidReport
    let indices ← okOr (s.playerToIndex.get who) .notRegistered
    let (s, reported) ← reportRounds game playerCount who weight env.now.asSecs indices.toList
      fullReport s [] (List.range game.rounds)
    .ok ((reported.foldl (fun s playerId => s.tryEarlyAttendanceEnactment env playerId) s)
      |>.tryEarlyAttendanceEnactment env who)
  | _ => .error .noReporting

/-! ### Leaving -/

/-- Give a player its deposit back, where it has one. -/
def returnDeposit (who : T.PlayerId) (player : Option (Player T.PlayDeposit)) : Except Error T.World :=
  match player.map Player.credibility, who with
  | some (.deposit ticket), .account account =>
    okOr (T.services.dropDeposit s.world account ticket) .deposit
  | _, _ => .ok s.world

/-- Take a player out, with its deposit back and its statement account released. -/
def offboard (who : T.PlayerId) : Except Error (Store T) := do
  let archived := s.archivedPlayers.get who
  let player := s.players.get who
  ensure (s.game.all (fun game => game.state.isRegistration) = true) .invalidGameState
  ensure (player.all (fun player => !player.registered) = true) .cannotOffboardWhileRegisteredForGame
  ensure (archived.isSome = true ∨ player.isSome = true) .noPlayer
  let world ← s.returnDeposit who player
  let s := { s with
    archivedPlayers := s.archivedPlayers.remove who
    players := s.players.remove who
    world := world }
  -- The allowance of an archived player was taken back when it was archived.
  let released := s.releaseStmtAccount who
  let s := if player.isSome then released else { released with world := s.world }
  let (score, world) := s.score.offboard T.services.toServices s.world who
  .ok { s with score := score, world := world }

def kickout (player : T.AccountId) : Except Error (Store T) := do
  let archived ← okOr (s.archivedPlayers.get (.account player)) .noArchivedPlayer
  match archived with
  | .unkickable _ => .error .notKickablePlayer
  | .kickable _ archivedSince => do
    ensure (archivedSince + T.nonPlayingKickoutTime < env.blockNumber) .early
    let (score, world) := s.score.offboard T.services.toServices s.world (.account player)
    .ok { s with
      archivedPlayers := s.archivedPlayers.remove (.account player)
      score := score
      world := world }

/-! ### The manager's calls -/

/-- Check schedules one after the other, each to start once the one before has ended. -/
def checkSchedules : Duration → List (GameSchedule T.services.Prize) → Except Error Unit
  | _, [] => .ok ()
  | lastGameEndTime, schedule :: rest => do
    let times := s.gameTimes schedule.gamePlayTime
    ensure (lastGameEndTime ≤ Duration.fromSecs times.registrationStart) .invalidGameSetup
    ensure (0 < schedule.rounds) .invalidGameSetup
    ensure (schedule.rounds ≤ T.maxRounds) .invalidGameSetup
    ensure (T.minGroupSize < schedule.maxGroupSize) .invalidGameSetup
    ensure (schedule.maxGroupSize ≤ T.maxGroupSize) .invalidGameSetup
    checkSchedules (Duration.fromSecs times.playerProcessEnd) rest

def scheduleGames (schedules : List (GameSchedule T.services.Prize)) : Except Error (Store T) := do
  ensure (s.gameSchedules.length + schedules.length ≤ T.maxGameSchedules) .tooManyGameSchedules
  let lastGameEndTime :=
    match s.gameSchedules.toList.getLast?, s.game with
    | some schedule, _ => Duration.fromSecs (s.gameTimes schedule.gamePlayTime).playerProcessEnd
    | none, some game => Duration.fromSecs (s.gameTimes game.gameDate).playerProcessEnd
    | none, none => env.now
  s.checkSchedules lastGameEndTime schedules
  let gameSchedules ← okOr (BoundedVec.tryFrom (s.gameSchedules.toList ++ schedules)) .tooManyGameSchedules
  .ok { s with gameSchedules := gameSchedules }

/-- The schedules are in the order of their times. -/
def removeScheduledGame (gamePlayTime : Nat) : Except Error (Store T) :=
  match binarySearch (s.gameSchedules.toList.map GameSchedule.gamePlayTime) gamePlayTime with
  | .inl index => .ok { s with gameSchedules := s.gameSchedules.remove index }
  | .inr _ => .error .noSuchGameScheduled

def setGamePhases (phases : PhaseDurationValues) : Except Error (Store T) := do
  ensure (s.game.all (fun game => game.state.isRegistration) = true) .invalidGameState
  .ok { s with storedPhaseDurations := some phases }

def setPlayDeposit (amount : Nat) : Except Error (Store T) := do
  ensure (amount ≠ 0) .invalidPlayDeposit
  .ok { s with playDepositAmount := amount }

/-- Every player's record, reset. -/
def resetPlayers : Store T :=
  s.players.keys.foldl (fun s playerId => s.mutatePlayer playerId Player.reset) s

def killCurrentGame : Store T :=
  let s' :=
    match s.game with
    | none => s
    | some game => (if game.state.hasSession then s.endSession else s).onGameCancelled game
  { s'.resetPlayers with
    gameHistory := s.gameHistory.remove s.gameIndex
    indexToPlayer := ∅
    playerToIndex := ∅
    shuffleRecognized := ∅
    shuffleNotRecognized := ∅
    game := none }

def testnetForceStartShuffle : Except Error (Store T) := do
  ensure (T.testnet = true) .invalidState
  let game ← okOr s.game .noGame
  ensure (game.state.isRegistration = true) .noRegistration
  .ok (s.putGame { game with
    registrationEnds := U32.saturatedFrom env.now.asSecs
    state := .shuffle (.insert none) })

def testnetForceEndReporting : Except Error (Store T) := do
  ensure (T.testnet = true) .invalidState
  let game ← okOr s.game .noGame
  match game.state with
  | .reporting playerCount =>
    let reportEnds := U32.saturatedFrom env.now.asSecs
    .ok (s.putGame { game with
      reportEnds := reportEnds
      shuffleDeadline := min game.shuffleDeadline reportEnds
      gameDate := min game.gameDate reportEnds
      state := .playerProcess (.processPlayers none playerCount) })
  | _ => .error .noReporting

/-! ### All calls -/

def exec : Call T → Except Error (Store T)
  | .signUp args => s.signUp env args
  | .report who fullReport => s.report env who fullReport
  | .offboard who => s.offboard who
  | .kickout player => s.kickout env player
  | .scheduleGames schedules => s.scheduleGames env schedules
  | .removeScheduledGame gamePlayTime => s.removeScheduledGame gamePlayTime
  | .setGamePhases phases => s.setGamePhases phases
  | .setPlayDeposit amount => s.setPlayDeposit amount
  | .killCurrentGame => .ok s.killCurrentGame
  | .testnetForceStartShuffle => s.testnetForceStartShuffle env
  | .testnetForceEndReporting => s.testnetForceEndReporting env
  | .onPoll remaining => .ok (s.onPoll env remaining)
  | .onIdle remaining => .ok (s.onIdle env remaining)
  | .score score => .ok { s with score := score }
  | .elsewhere world => .ok { s with world := world }

/-- A call in its block. -/
abbrev Action (T : Config) : Type := Env T × Call T

def execAction (s : Store T) (a : Action T) : Except Error (Store T) := s.exec a.1 a.2

end Store

/-! ### A small game -/

/-- Accounts stand at the even numbers, persons at the odd ones. -/
def sampleKey : AccountOrPerson Nat → Nat
  | .account account => 2 * account
  | .person id => 2 * Nat.ofDigits 256 (id.toList.map UInt8.toNat) + 1

theorem sampleKey_injective : Function.Injective sampleKey := by
  rintro (a | id) (b | id') h
  · have h : 2 * a = 2 * b := h
    rw [show a = b by omega]
  · have h : 2 * a = 2 * Nat.ofDigits 256 (id'.toList.map UInt8.toNat) + 1 := h
    omega
  · have h : 2 * Nat.ofDigits 256 (id.toList.map UInt8.toNat) + 1 = 2 * b := h
    omega
  · have h : 2 * Nat.ofDigits 256 (id.toList.map UInt8.toNat) + 1 =
        2 * Nat.ofDigits 256 (id'.toList.map UInt8.toNat) + 1 := h
    have hlt : ∀ v : Alias, ∀ d ∈ v.toList.map UInt8.toNat, d < 256 := by
      intro v d hd
      obtain ⟨byte, -, rfl⟩ := List.mem_map.mp hd
      exact byte.toNat_lt
    have hbytes := Nat.ofDigits_inj_of_len_eq (b := 256) (by decide) (by simp) (hlt id) (hlt id')
      (by omega)
    have hid := List.map_injective_iff.mpr (fun _ _ => UInt8.toNat_inj.mp) hbytes
    rw [Vector.toList_inj.mp hid]

/-- Services that always succeed and keep nothing. -/
def sampleServices : Services Nat Unit where
  incSufficients w _ := w
  decSufficients w _ := w
  canStartPeopleSetMutationSession _ := true
  startPeopleSetMutationSession w := some w
  endPeopleSetMutationSession w := some w
  suspendPersonhood w _ := w
  activeCount _ := 0
  AccountSignature := Unit
  PlayDeposit := Unit
  VrfSignature := Unit
  Proof := Unit
  Prize := Unit
  verify _ _ _ := true
  newDeposit w _ _ := some ((), w)
  dropDeposit w _ _ := some w
  burnDeposit w _ _ := w
  increaseAllowance w _ := w
  decreaseAllowance w _ := w
  scheduleAirdrop w _ _ _ _ _ := some w
  cancelAirdrop w _ := w
  participateWithAccount w _ _ _ := some w
  participateWithAlias w _ _ _ _ _ := some w

/-- Each operation of a hook weighs one. -/
def sampleWeights : WeightInfo where
  getGame := ⟨1, 0⟩
  getGameSchedules _ := ⟨1, 0⟩
  newGame := ⟨1, 0⟩
  putGameSchedules := ⟨1, 0⟩
  putGame := ⟨1, 0⟩
  unixTime := ⟨1, 0⟩
  onGameCancelled := ⟨1, 0⟩
  shufflesBase := ⟨1, 0⟩
  shuffleStepInsert _ := ⟨1, 0⟩
  shuffleStepRetrieve _ := ⟨1, 0⟩
  shuffleStepComputeWeights _ _ := ⟨1, 0⟩
  shuffleStepStartSession := ⟨1, 0⟩
  processReporting := ⟨1, 0⟩
  playerProcessStep1 := ⟨1, 0⟩
  playerProcessStep1AttendedPlayer := ⟨1, 0⟩
  playerProcessStep1NotAttendedPlayer := ⟨1, 0⟩
  playerProcessStep2 := ⟨1, 0⟩
  playerProcessStep2InnerLoop := ⟨1, 0⟩
  processCancelling := ⟨1, 0⟩
  processCancellingStep _ := ⟨1, 0⟩

/-- One round in groups of two. -/
theorem two_le_max : 2 ≤ U32.max := by decide

theorem votes_le_max : 2 * 1 ≤ U32.max := by decide

theorem votes_pos : 1 ≤ 2 * 1 := by decide

theorem weighed_le_max : (2 * 1 - 1) * 1 ≤ U8.max := by decide

def sampleConfig : Config where
  AccountId := Nat
  World := Unit
  Hash := Nat
  accountDecEq := inferInstance
  services := sampleServices
  weights := sampleWeights
  maxRounds := 1
  maxGroupSize := 2
  minGroupSize := 1
  nonPlayingKickoutTime := 10
  defaultPlayDeposit := 1
  defaultPhaseDurations := ⟨10, 10, 1, 10, 10, 0⟩
  maxGameSchedules := 2
  maxAttendanceHistoryDepth := 2
  peopleVoteWeight := 1
  candidateVoteWeight := 1
  testnet := false
  playerKey := sampleKey
  indexKey := fun k => Nat.pair k.1 k.2
  playerKey_injective := sampleKey_injective
  indexKey_injective := fun k k' h => Prod.ext_iff.mpr (Nat.pair_eq_pair.mp h)
  shuffleHash hash playerId _ := Nat.pair hash (sampleKey playerId)
  nftHash gameIndex round reporter playerId :=
    Nat.pair (Nat.pair gameIndex round) (Nat.pair (sampleKey reporter) (sampleKey playerId))
  maxGroupSize_le := two_le_max
  maxVotes_le := votes_le_max
  maxVotes_pos := votes_pos
  peopleVotes_le := weighed_le_max
  candidateVotes_le := weighed_le_max

/-- A block at `secs`. -/
def sampleEnv (secs parentHash : Nat) : Env sampleConfig := ⟨Duration.fromSecs secs, 1, parentHash⟩

/-- A game to be played at `secs`. -/
def sampleSchedule (secs : Nat) : GameSchedule sampleConfig.services.Prize := ⟨secs, 1, 2, none⟩

def samplePlayer (account : Nat) : sampleConfig.PlayerId := .account account

/-- The sign-up of an account. -/
def sampleSignUp (account : Nat) : SignUpArgs sampleConfig := .account account false none

end Individuality.Game
