import Individuality.Game.Reports

/-! What an accepted call does.

`Step` says it once for each kind of event, with the loops as they ran. A run is
confined to `Orderly` calls: a sign-up finds the counter of players below its top,
and a shuffle that misses its deadline has nobody staged. -/
namespace Individuality.Game
open Support
variable {T : Config}

namespace Store

/-- Whether a hook finds a shuffle past its deadline, and the weight to cancel the game. -/
def missesDeadline (s : Store T) (env : Env T) (remaining : Weight) : Bool :=
  match s.game with
  | none => false
  | some game =>
    match game.state with
    | .shuffle _ =>
      decide (env.blockNumber % gameProcessSkippedBlock ≠ 0) &&
      decide (Duration.fromSecs game.shuffleDeadline < env.now) &&
      ((remaining.half.tryConsume T.weights.getGame).bind fun meter =>
        meter.tryConsume (T.weights.shufflesBase + T.weights.onGameCancelled)).isSome
    | _ => false

/-- Whether nobody is staged for a shuffle. -/
def nobodyStaged (s : Store T) : Bool := s.shuffleRecognized.isEmpty && s.shuffleNotRecognized.isEmpty

/-- Whether the game counts as many players as it can. -/
def isFull (s : Store T) : Bool :=
  match s.game with
  | none => false
  | some game =>
    match game.state with
    | .registration nextPlayerIndex => nextPlayerIndex == U32.max
    | _ => false

/-- A sign-up has an index left to take, and a game that misses its deadline has nobody staged. -/
def Orderly (s : Store T) : Action T → Prop
  | (_, .signUp _) => s.isFull = false
  | (env, .onPoll remaining) | (env, .onIdle remaining) =>
    s.missesDeadline env remaining = true → s.nobodyStaged = true
  | _ => True

instance (s : Store T) (a : Action T) : Decidable (s.Orderly a) := by
  obtain ⟨env, call⟩ := a
  cases call <;> unfold Orderly <;> infer_instance

theorem nobodyStaged_iff {s : Store T} :
    s.nobodyStaged = true ↔ ∀ b k, (s.core.staged b).get k = none := by
  rw [nobodyStaged, Bool.and_eq_true, StorageMap.isEmpty_iff, StorageMap.isEmpty_iff]
  constructor
  · rintro ⟨hrecognized, hnot⟩ b k
    cases b
    · exact hnot k
    · exact hrecognized k
  · intro h
    exact ⟨h true, h false⟩

/-! ### Events -/

inductive Step (env : Env T) (s s' : Store T) : Prop
  | quiet (hcore : s'.core = s.core)
  | signedUp (game : GameInfo T.PlayerId) (next : Nat) (who : T.PlayerId) (firstGame : Nat)
      (credibility : PlayerCredibility T.PlayDeposit) (hgame : s.game = some game)
      (hstate : game.state = .registration next) (hroom : next ≠ U32.max)
      (hnew : s.core.isRegistered who = false)
      (hcore : s'.core = (s.core.putPlayer who (.fresh true firstGame credibility)).putGame
        { game with state := .registration (U32.saturatingInc next) })
  | offboarded (who : T.PlayerId)
      (hgame : ∀ game, s.game = some game → game.state.isRegistration = true)
      (hnot : s.core.isRegistered who = false)
      (hcore : s'.core = { s.core with players := s.players.remove who })
  | reported (who : T.PlayerId) (game : GameInfo T.PlayerId) (playerCount : Nat)
      (player : Player T.PlayDeposit) (indices : BoundedVec PlayerIndex T.maxRounds)
      (players : StorageMap T.PlayerId (Player T.PlayDeposit))
      (hreported : Reported s s' who game playerCount player indices players)
  | killed (hclear : s'.core.Clear) (hgame : s'.game = none)
      (hplayers : ∀ playerId, s'.players.get playerId = (s.players.get playerId).map Player.reset)
  | started (game : GameInfo T.PlayerId) (hnone : s.game = none) (hstate : game.state = .registration 0)
      (hrounds : 0 < game.rounds) (hmax : game.rounds ≤ T.maxRounds)
      (hgroup : game.maxGroupSize ≤ T.maxGroupSize) (hcore : s'.core = s.core.putGame game)
  | shuffleStarted (game : GameInfo T.PlayerId) (next registrationEnds : Nat) (hgame : s.game = some game)
      (hstate : game.state = .registration next)
      (hcore : s'.core = s.core.putGame { game with
        registrationEnds := registrationEnds
        state := .shuffle (.insert none) })
  -- For lack of players, or at the deadline of the shuffle with nobody staged.
  | cancelled (game : GameInfo T.PlayerId) (hgame : s.game = some game)
      (hstate : game.state.isRegistration = true ∨
        (∃ step, game.state = .shuffle step) ∧ ∀ b k, (s.core.staged b).get k = none)
      (hcore : s'.core = s.core.putGame { game with state := .cancelling none })
  | shuffled (game : GameInfo T.PlayerId) (step : ShuffleStep T.PlayerId) (meter : Weight)
      (out : Store T × GameInfo T.PlayerId × Weight) (hgame : s.game = some game)
      (hstate : game.state = .shuffle step)
      (hloop : repeatUpTo (shuffleTurn env) opUpperBound (s, game, meter) = out)
      (hcore : s'.core = out.1.core.putGame out.2.1)
  | reportingEnded (game : GameInfo T.PlayerId) (playerCount reportEnds shuffleDeadline gameDate : Nat)
      (hgame : s.game = some game) (hstate : game.state = .reporting playerCount)
      (hcore : s'.core = s.core.putGame { game with
        reportEnds := reportEnds
        shuffleDeadline := shuffleDeadline
        gameDate := gameDate
        state := .playerProcess (.processPlayers none playerCount) })
  | processed (game : GameInfo T.PlayerId) (lastIteration : Option T.PlayerId) (playerCount : Nat)
      (meter : Weight) (out : Store T × GameInfo T.PlayerId × Option T.PlayerId × Weight)
      (hgame : s.game = some game)
      (hstate : game.state = .playerProcess (.processPlayers lastIteration playerCount))
      (hloop : repeatUpTo (playerProcessTurn env playerCount) opUpperBound
        (s, game, lastIteration, meter) = out)
      (hcore : out.1.players.nextEntry T.playerKey out.2.2.1 = none ∧
          s'.core = out.1.core.putGame { out.2.1 with state := .playerProcess .clearIndices } ∨
        s'.core = out.1.core.putGame { out.2.1 with
          state := .playerProcess (.processPlayers out.2.2.1 playerCount) })
  | cleared (game : GameInfo T.PlayerId) (hgame : s.game = some game)
      (hstate : game.state = .playerProcess .clearIndices)
      (indexToPlayer : StorageMap (RoundIndex × PlayerIndex) T.PlayerId)
      (playerToIndex : StorageMap T.PlayerId (BoundedVec PlayerIndex T.maxRounds))
      (hcore : s'.core = { s.core with indexToPlayer := indexToPlayer, playerToIndex := playerToIndex } ∨
        (∀ k, indexToPlayer.get k = none) ∧ (∀ playerId, playerToIndex.get playerId = none) ∧
        s'.core = { s.core with
          game := none, indexToPlayer := indexToPlayer, playerToIndex := playerToIndex })
  | cancelling (game : GameInfo T.PlayerId) (lastIteration : Option T.PlayerId) (meter : Weight)
      (out : Store T × Option T.PlayerId × Weight × Bool) (hgame : s.game = some game)
      (hstate : game.state = .cancelling lastIteration)
      (hloop : repeatUpTo (cancellingTurn game.rounds) opUpperBound
        (s, lastIteration, meter, false) = out)
      (hcore : out.2.2.2 = true ∧ s'.core = { out.1.core with game := none } ∨
        s'.core = out.1.core.putGame { game with state := .cancelling out.2.1 })

variable {env : Env T} {s s' : Store T}

/-! ### Clearing -/

/-- How far a clearing is: nothing is left before its cursors, nor where it is done. -/
structure Clearing.Reached (c : Clearing T) (s : Store T) : Prop where
  indexToPlayer : ∀ k, (s.indexToPlayer.get k).isSome = true →
    c.done1 = false ∧ ∀ k' ∈ c.cursor1, T.indexKey k' ≤ T.indexKey k
  playerToIndex : ∀ playerId, (s.playerToIndex.get playerId).isSome = true →
    c.done2 = false ∧ ∀ p ∈ c.cursor2, T.playerKey p ≤ T.playerKey playerId

/-- The core of a store being cleared, but for the two maps. -/
def SameButIndices (s s' : Store T) : Prop :=
  s'.core = { s.core with indexToPlayer := s'.indexToPlayer, playerToIndex := s'.playerToIndex }

theorem clearIndexToPlayer_spec {c : Clearing T} (h : c.Reached s) :
    (s.clearIndexToPlayer c).2.Reached (s.clearIndexToPlayer c).1 ∧
      SameButIndices s (s.clearIndexToPlayer c).1 := by
  unfold clearIndexToPlayer
  split
  · exact ⟨h, rfl⟩
  · have hspec := StorageMap.clearFrom_spec playerProcessStep2Chunk
      fun k hk => (h.indexToPlayer k hk).2
    refine ⟨⟨fun k hk => ?_, h.playerToIndex⟩, rfl⟩
    obtain ⟨-, cursor, hcursor, hle⟩ := hspec k hk
    simp only [hcursor]
    exact ⟨rfl, fun k' hk' => Option.some.inj hk' ▸ hle⟩

theorem clearPlayerToIndex_spec {c : Clearing T} (h : c.Reached s) :
    (s.clearPlayerToIndex c).2.Reached (s.clearPlayerToIndex c).1 ∧
      SameButIndices s (s.clearPlayerToIndex c).1 := by
  unfold clearPlayerToIndex
  split
  · exact ⟨h, rfl⟩
  · have hspec := StorageMap.clearFrom_spec playerProcessStep2Chunk
      fun playerId hp => (h.playerToIndex playerId hp).2
    refine ⟨⟨h.indexToPlayer, fun playerId hp => ?_⟩, rfl⟩
    obtain ⟨-, cursor, hcursor, hle⟩ := hspec playerId hp
    simp only [hcursor]
    exact ⟨rfl, fun p hp' => Option.some.inj hp' ▸ hle⟩

theorem SameButIndices.trans {s'' : Store T} (h : SameButIndices s s') (h' : SameButIndices s' s'') :
    SameButIndices s s'' := by
  unfold SameButIndices at h h' ⊢
  rw [h', h]

theorem clearTurn_spec {c : Clearing T} (meter : Weight) (h : c.Reached s) :
    (clearTurn (s, c, meter)).1.2.1.Reached (clearTurn (s, c, meter)).1.1 ∧
      SameButIndices s (clearTurn (s, c, meter)).1.1 := by
  unfold clearTurn
  simp only
  split
  · exact ⟨h, rfl⟩
  · obtain ⟨h₁, hsame₁⟩ := clearIndexToPlayer_spec h
    obtain ⟨h₂, hsame₂⟩ := clearPlayerToIndex_spec h₁
    exact ⟨h₂, hsame₁.trans hsame₂⟩

/-- The indices are cleared, wholly where the game ends. -/
theorem playerProcessStep2_spec (s : Store T) (meter : Weight) : ∃ indexToPlayer playerToIndex,
    (s.playerProcessStep2 meter).core =
        { s.core with indexToPlayer := indexToPlayer, playerToIndex := playerToIndex } ∨
      (∀ k, indexToPlayer.get k = none) ∧ (∀ playerId, playerToIndex.get playerId = none) ∧
      (s.playerProcessStep2 meter).core = { s.core with
        game := none, indexToPlayer := indexToPlayer, playerToIndex := playerToIndex } := by
  unfold playerProcessStep2
  split
  · exact ⟨s.indexToPlayer, s.playerToIndex, .inl rfl⟩
  · rename_i meter _
    have hloop := repeatUpTo_induction
      (P := fun out : Store T × Clearing T × Weight => out.2.1.Reached out.1 ∧ SameButIndices s out.1)
      (s := (s, ⟨none, none, false, false⟩, meter))
      ⟨⟨fun _ _ => ⟨rfl, fun _ h => by cases h⟩, fun _ _ => ⟨rfl, fun _ h => by cases h⟩⟩, rfl⟩
      (fun out hout => by
        obtain ⟨hreached, hsame⟩ := hout
        obtain ⟨h, hsame'⟩ := clearTurn_spec out.2.2 hreached
        exact ⟨h, hsame.trans hsame'⟩) opUpperBound
    generalize repeatUpTo clearTurn opUpperBound (s, ⟨none, none, false, false⟩, meter) = out at hloop
    obtain ⟨t, c, rest⟩ := out
    obtain ⟨hreached, hsame⟩ := hloop
    refine ⟨t.indexToPlayer, t.playerToIndex, ?_⟩
    simp only
    split
    · rename_i hdone
      obtain ⟨hdone₁, hdone₂⟩ := Bool.and_eq_true_iff.mp hdone
      refine .inr ⟨fun k => ?_, fun playerId => ?_, ?_⟩
      · cases hk : t.indexToPlayer.get k with
        | none => rfl
        | some p =>
          have hnot : c.done1 = false := (hreached.indexToPlayer k (by rw [hk]; rfl)).1
          rw [hdone₁] at hnot
          cases hnot
      · cases hk : t.playerToIndex.get playerId with
        | none => rfl
        | some p =>
          have hnot : c.done2 = false := (hreached.playerToIndex playerId (by rw [hk]; rfl)).1
          rw [hdone₂] at hnot
          cases hnot
      · exact congrArg (fun c : Core T => { c with game := none }) hsame
    · exact .inl hsame

/-! ### The hooks -/

theorem processGame_step {game : GameInfo T.PlayerId} (hgame : s.game = some game)
    {remaining meter : Weight} (hmeter : remaining.half.tryConsume T.weights.getGame = some meter)
    (hG : s.missesDeadline env remaining = true → s.nobodyStaged = true) :
    Step env s (s.processGame env meter game) := by
  unfold processGame
  split
  · exact .quiet rfl
  · rename_i hblock
    split
    · rename_i next hstate
      unfold endRegistration
      split
      · exact .quiet rfl
      · split
        · exact .quiet rfl
        · split
          · exact .quiet rfl
          · split
            · exact .shuffleStarted game next game.registrationEnds hgame hstate rfl
            · exact .cancelled game hgame (.inl (by rw [hstate]; rfl))
                (by rw [core_putGame, core_onGameCancelled])
    · rename_i step hstate
      unfold shuffles
      split
      · exact .quiet rfl
      · rename_i meter' hbase
        split
        · rename_i hdeadline
          refine .cancelled game hgame (.inr ⟨⟨step, hstate⟩, ?_⟩)
            (by rw [core_putGame, core_onGameCancelled])
          refine nobodyStaged_iff.mp (hG ?_)
          simp only [missesDeadline, hgame, hstate, hmeter, Option.bind_some, hbase, Option.isSome_some,
            Bool.and_true, Bool.and_eq_true, decide_eq_true_eq]
          exact ⟨hblock, hdeadline⟩
        · exact .shuffled game step meter' _ hgame hstate rfl rfl
    · rename_i playerCount hstate
      unfold processReporting
      split
      · rename_i game' _ hgame'
        cases hgame.symm.trans hgame'
        rw [hstate]
        simp only
        split
        · exact .quiet rfl
        · exact .reportingEnded game playerCount game.reportEnds game.shuffleDeadline game.gameDate
            hgame hstate rfl
      · exact .quiet rfl
    · rename_i lastIteration playerCount hstate
      unfold playerProcessStep1
      split
      · exact .quiet rfl
      · rename_i meter' _
        refine .processed game lastIteration playerCount meter' _ hgame hstate rfl ?_
        simp only
        split
        · rename_i hnext
          exact .inl ⟨hnext, rfl⟩
        · exact .inr rfl
    · rename_i hstate
      obtain ⟨indexToPlayer, playerToIndex, h⟩ := playerProcessStep2_spec s meter
      exact .cleared game hgame hstate indexToPlayer playerToIndex h
    · rename_i lastIteration hstate
      unfold processCancelling
      split
      · exact .quiet rfl
      · rename_i meter' _
        refine .cancelling game lastIteration meter' _ hgame hstate rfl ?_
        simp only
        split
        · rename_i hfinished
          exact .inl ⟨hfinished, rfl⟩
        · exact .inr rfl

theorem onIdle_step {remaining : Weight}
    (hG : s.missesDeadline env remaining = true → s.nobodyStaged = true) :
    Step env s (s.onIdle env remaining) := by
  unfold onIdle
  split
  · exact .quiet rfl
  · rename_i meter hmeter
    split
    · exact .quiet rfl
    · rename_i game hgame
      exact processGame_step hgame hmeter hG

theorem onPoll_step {remaining : Weight}
    (hG : s.missesDeadline env remaining = true → s.nobodyStaged = true) :
    Step env s (s.onPoll env remaining) := by
  unfold onPoll
  split
  · exact .quiet rfl
  · rename_i meter hmeter
    split
    · rename_i hnone
      rcases startScheduledGame_spec env (s := s) meter with hcore | ⟨game, hstate, hrounds, hmax, hgroup, hcore⟩
      · exact .quiet hcore
      · exact .started game hnone hstate hrounds hmax hgroup hcore
    · rename_i game hgame
      exact processGame_step hgame hmeter hG

/-! ### Calls -/

theorem exec_step {call : Call T} (hG : s.Orderly (env, call)) (h : s.exec env call = .ok s') :
    Step env s s' := by
  cases call with
  | signUp args =>
    obtain ⟨game, next, who, firstGame, credibility, hgame, hstate, hnew, hcore⟩ := signUp_spec env h
    refine .signedUp game next who firstGame credibility hgame hstate ?_ hnew hcore
    rintro rfl
    simp only [Orderly, isFull, hgame, hstate, beq_self_eq_true, Bool.true_eq_false] at hG
  | report who fullReport =>
    obtain ⟨game, playerCount, player, indices, players, hreported⟩ := report_spec env h
    exact .reported who game playerCount player indices players hreported
  | offboard who =>
    obtain ⟨hgame, hnot, hcore⟩ := offboard_spec h
    exact .offboarded who hgame hnot hcore
  | kickout player => exact .quiet (kickout_core env h)
  | scheduleGames schedules =>
    simp only [exec, scheduleGames, bind_eq_ok, Except.ok.injEq] at h
    obtain ⟨-, -, -, -, schedules', -, rfl⟩ := h
    exact .quiet rfl
  | removeScheduledGame gamePlayTime =>
    simp only [exec, removeScheduledGame] at h
    split at h
    · cases h
      exact .quiet rfl
    · cases h
  | setGamePhases phases =>
    simp only [exec, setGamePhases, bind_eq_ok, Except.ok.injEq] at h
    obtain ⟨-, -, rfl⟩ := h
    exact .quiet rfl
  | setPlayDeposit amount =>
    simp only [exec, setPlayDeposit, bind_eq_ok, Except.ok.injEq] at h
    obtain ⟨-, -, rfl⟩ := h
    exact .quiet rfl
  | killCurrentGame =>
    cases h
    obtain ⟨hclear, hgame, hplayers⟩ := killCurrentGame_spec s
    exact .killed hclear hgame hplayers
  | testnetForceStartShuffle =>
    simp only [exec, testnetForceStartShuffle, bind_eq_ok, okOr_eq_ok, ensure_eq_ok, Except.ok.injEq] at h
    obtain ⟨-, -, game, hgame, -, hstate, rfl⟩ := h
    cases hs : game.state with
    | registration next => exact .shuffleStarted game next _ hgame hs rfl
    | _ =>
      rw [hs] at hstate
      cases hstate
  | testnetForceEndReporting =>
    simp only [exec, testnetForceEndReporting, bind_eq_ok, okOr_eq_ok] at h
    obtain ⟨-, -, game, hgame, h⟩ := h
    split at h
    · rename_i playerCount hstate
      cases h
      exact .reportingEnded game playerCount _ _ _ hgame hstate rfl
    · cases h
  | onPoll remaining =>
    cases h
    exact onPoll_step hG
  | onIdle remaining =>
    cases h
    exact onIdle_step hG
  | score score =>
    cases h
    exact .quiet rfl
  | elsewhere world =>
    cases h
    exact .quiet rfl

end Store
end Individuality.Game
