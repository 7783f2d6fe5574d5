import Individuality.Game.Moves
import Individuality.Game.Steps

/-! A game, one turn at a time.

A call may make many turns, and its loops hold the game beside the store until they
are done. `Turn` lists the turns that there are, each on a store with its game put
back, with what the turn had found; every accepted call is a sequence of turns
(`exec_turns`), so what is true of a store over a run is proved by cases on one turn
(`Reaches.turned`). A call that is one turn of its own also carries what a run is
confined to. -/
namespace Individuality.Game
open Support
open Score (Alias AccountOrPerson)
variable {T : Config}

namespace Store

/-- A turn that the call of `a` makes. -/
inductive Turn (G : Store T → Action T → Prop) (a : Action T) : Store T → Store T → Prop
  | settings (s : Store T) (schedules : BoundedVec (GameSchedule T.services.Prize) T.maxGameSchedules)
      (phases : Option PhaseDurationValues) (deposit : Nat) :
      Turn G a s { s with
        gameSchedules := schedules
        storedPhaseDurations := phases
        playDepositAmount := deposit }
  | scored (s : Store T) (score : Score.Store T.AccountId) (ha : a.2 = .score score) (hG : G s a) :
      Turn G a s { s with score := score }
  | elsewhere (s : Store T) (world : T.World) (ha : a.2 = .elsewhere world) (hG : G s a) :
      Turn G a s { s with world := world }
  | signedUp (s s' : Store T) (args : SignUpArgs T) (ha : a.2 = .signUp args) (hG : G s a)
      (h : s.signUp a.1 args = .ok s') : Turn G a s s'
  | offboarded (s s' : Store T) (who : T.PlayerId) (ha : a.2 = .offboard who) (hG : G s a)
      (h : s.offboard who = .ok s') : Turn G a s s'
  | kickedOut (s s' : Store T) (player : T.AccountId) (ha : a.2 = .kickout player) (hG : G s a)
      (h : s.kickout a.1 player = .ok s') : Turn G a s s'
  | killed (s : Store T) (ha : a.2 = .killCurrentGame) (hG : G s a) : Turn G a s s.killCurrentGame
  | started (s s' : Store T) (schedule : GameSchedule T.services.Prize)
      (h : s.newGame a.1 schedule = .ok s') : Turn G a s s'
  | shuffleStarted (s : Store T) (game : GameInfo T.PlayerId) (next registrationEnds : Nat)
      (hgame : s.game = some game) (hstate : game.state = .registration next) :
      Turn G a s (s.putGame { game with
        registrationEnds := registrationEnds
        state := .shuffle (.insert none) })
  | cancelled (s : Store T) (game : GameInfo T.PlayerId) (hG : G s a) (hgame : s.game = some game)
      (hwhy : game.state.isRegistration = true ∨ (∃ step, game.state = .shuffle step) ∧
        ∃ remaining, (a.2 = .onPoll remaining ∨ a.2 = .onIdle remaining) ∧
          (remaining.half.tryConsume T.weights.getGame).any (fun meter =>
            (meter.tryConsume (T.weights.shufflesBase + T.weights.onGameCancelled)).isSome) = true ∧
          a.1.blockNumber % gameProcessSkippedBlock ≠ 0 ∧
          Duration.fromSecs game.shuffleDeadline < a.1.now) :
      Turn G a s ((s.onGameCancelled game).putGame { game with state := .cancelling none })
  | shuffled (s : Store T) (game : GameInfo T.PlayerId) (step : ShuffleStep T.PlayerId)
      (hstate : game.state = .shuffle step) :
      Turn G a (s.putGame game) ((s.shuffleMove a.1 game step).1.putGame (s.shuffleMove a.1 game step).2.1)
  | marked (s : Store T) (game : GameInfo T.PlayerId) (playerCount : Nat) (who : T.PlayerId)
      (player : Player T.PlayDeposit) (hgame : s.game = some game)
      (hstate : game.state = .reporting playerCount) (hplayer : s.players.get who = some player)
      (hsent : player.sentReport = false) :
      Turn G a s (s.putPlayer who { player with sentReport := true })
  | voted (s : Store T) (game : GameInfo T.PlayerId) (playerCount : Nat) (who : T.PlayerId)
      (indices : BoundedVec PlayerIndex T.maxRounds) (round : RoundIndex) (index other : PlayerIndex)
      (playerId : T.PlayerId) (player : Player T.PlayDeposit) (report : Report) (weight : Nat)
      (hgame : s.game = some game) (hstate : game.state = .reporting playerCount)
      (hindices : s.playerToIndex.get who = some indices) (hround : round < game.rounds)
      (hindex : indices.toList[round]? = some index)
      (hother : other ∈ GroupsSetting.otherMembers ⟨game.maxGroupSize, playerCount⟩ index)
      (hplayerId : s.indexToPlayer.get (round, other) = some playerId)
      (hplayer : s.players.get playerId = some player) :
      Turn G a s (((s.putPlayer playerId (countReport player report weight)).placeNft playerId report
        player.earlyAttendanceEnactment (T.nftHash game.index round who playerId)
        a.1.now.asSecs).logged (.reported game.index round who playerId report))
  | enacted (s : Store T) (game : GameInfo T.PlayerId) (playerCount : Nat) (who : T.PlayerId)
      (hgame : s.game = some game) (hstate : game.state = .reporting playerCount) :
      Turn G a s (s.tryEarlyAttendanceEnactment a.1 who)
  | reportingEnded (s : Store T) (game : GameInfo T.PlayerId)
      (playerCount reportEnds shuffleDeadline gameDate : Nat) (hgame : s.game = some game)
      (hstate : game.state = .reporting playerCount)
      (hwhy : Duration.fromSecs game.reportEnds ≤ a.1.now ∨ game.pendingAttendance = 0 ∨
        a.2 = .testnetForceEndReporting) :
      Turn G a s (s.putGame { game with
        reportEnds := reportEnds
        shuffleDeadline := shuffleDeadline
        gameDate := gameDate
        state := .playerProcess (.processPlayers none playerCount) })
  | processed (s : Store T) (game : GameInfo T.PlayerId) (last : Option T.PlayerId) (playerCount : Nat)
      (who : T.PlayerId) (player : Player T.PlayDeposit)
      (hnext : s.players.nextKey T.playerKey last = some who)
      (hplayer : s.players.get who = some player) :
      Turn G a (s.putGame { game with state := .playerProcess (.processPlayers last playerCount) })
        ((s.processPlayerAttendanceOutcome a.1 game playerCount who player).1.putGame { game with
          pendingAttendance := (s.processPlayerAttendanceOutcome a.1 game playerCount who player).2
          state := .playerProcess (.processPlayers (some who) playerCount) })
  | sessionEnded (s : Store T) (game : GameInfo T.PlayerId) (last : Option T.PlayerId)
      (playerCount : Nat) (hnone : s.players.nextKey T.playerKey last = none) :
      Turn G a (s.putGame { game with state := .playerProcess (.processPlayers last playerCount) })
        (s.endSession.putGame { game with state := .playerProcess .clearIndices })
  | cleared (s : Store T) (game : GameInfo T.PlayerId)
      (indexToPlayer : StorageMap (RoundIndex × PlayerIndex) T.PlayerId)
      (playerToIndex : StorageMap T.PlayerId (BoundedVec PlayerIndex T.maxRounds))
      (hgame : s.game = some game) (hstate : game.state = .playerProcess .clearIndices) :
      Turn G a s { s with indexToPlayer := indexToPlayer, playerToIndex := playerToIndex }
  | ended (s : Store T) (game : GameInfo T.PlayerId) (hgame : s.game = some game)
      (hstate : game.state = .playerProcess .clearIndices)
      (hindexToPlayer : ∀ k, s.indexToPlayer.get k = none)
      (hplayerToIndex : ∀ playerId, s.playerToIndex.get playerId = none) :
      Turn G a s { s with game := none }
  | cancelling (s : Store T) (game : GameInfo T.PlayerId) (last : Option T.PlayerId) (who : T.PlayerId)
      (player : Player T.PlayDeposit) (hnext : s.players.nextKey T.playerKey last = some who)
      (hplayer : s.players.get who = some player) :
      Turn G a (s.putGame { game with state := .cancelling last })
        (((s.putPlayer who player.reset).takeIndices who game.rounds).putGame
          { game with state := .cancelling (some who) })
  | cancelEnded (s : Store T) (game : GameInfo T.PlayerId) (last : Option T.PlayerId)
      (hnone : s.players.nextKey T.playerKey last = none) :
      Turn G a (s.putGame { game with state := .cancelling last })
        { s with game := none, gameHistory := s.gameHistory.remove game.index }

/-- The turns of a call. -/
abbrev Turns (G : Store T → Action T → Prop) (a : Action T) : Store T → Store T → Prop :=
  Relation.ReflTransGen (Turn G a)

variable {G : Store T → Action T → Prop} {env : Env T} {call : Call T} {s s' : Store T}
  {game : GameInfo T.PlayerId}

theorem putGame_of_game (h : s.game = some game) : s.putGame game = s := by
  cases s
  cases h
  rfl

@[simp] theorem putGame_putGame (s : Store T) (game game' : GameInfo T.PlayerId) :
    (s.putGame game).putGame game' = s.putGame game' := rfl

/-! ### Hooks -/

theorem shuffleTurn_turns (w : Store T × GameInfo T.PlayerId × Weight) :
    Turns G (env, call) (w.1.putGame w.2.1)
      ((shuffleTurn env w).1.1.putGame (shuffleTurn env w).1.2.1) := by
  obtain ⟨t, g, meter⟩ := w
  unfold shuffleTurn
  dsimp only
  split
  · rename_i step hstate
    split
    · exact .refl
    · exact .single (.shuffled t g step hstate)
  · exact .refl

theorem playerProcessTurn_turns (n : Nat) (w : Store T × GameInfo T.PlayerId × Option T.PlayerId × Weight) :
    Turns G (env, call)
      (w.1.putGame { w.2.1 with state := .playerProcess (.processPlayers w.2.2.1 n) })
      ((playerProcessTurn env n w).1.1.putGame { (playerProcessTurn env n w).1.2.1 with
        state := .playerProcess (.processPlayers (playerProcessTurn env n w).1.2.2.1 n) }) := by
  obtain ⟨t, g, last, meter⟩ := w
  unfold playerProcessTurn
  dsimp only
  split
  · exact .refl
  · rename_i who player hentry
    obtain ⟨hnext, hplayer⟩ := StorageMap.nextEntry_eq_some.mp hentry
    split
    · exact .refl
    · exact .single (.processed t g last n who player hnext hplayer)

theorem cancellingTurn_turns (game : GameInfo T.PlayerId)
    (w : Store T × Option T.PlayerId × Weight × Bool) :
    Turns G (env, call) (w.1.putGame { game with state := .cancelling w.2.1 })
      ((cancellingTurn game.rounds w).1.1.putGame { game with
        state := .cancelling (cancellingTurn game.rounds w).1.2.1 }) := by
  obtain ⟨t, last, meter, finished⟩ := w
  rcases cancellingTurn_spec t game.rounds last meter finished with
    heq | ⟨who, player, meter', hnext, hplayer, heq⟩ | ⟨hnone, meter', heq⟩
  · rw [heq]
  · rw [heq]
    exact .single (.cancelling t game last who player hnext hplayer)
  · rw [heq]

/-- A cancelling that finishes has passed everyone. -/
theorem nextKey_of_finished {rounds : Nat} {w : Store T × Option T.PlayerId × Weight × Bool}
    (h : w.2.2.2 = true → w.1.players.nextKey T.playerKey w.2.1 = none)
    (hdone : (cancellingTurn rounds w).1.2.2.2 = true) :
    (cancellingTurn rounds w).1.1.players.nextKey T.playerKey (cancellingTurn rounds w).1.2.1 = none := by
  obtain ⟨t, last, meter, finished⟩ := w
  rcases cancellingTurn_spec t rounds last meter finished with
    heq | ⟨who, player, meter', hnext, hplayer, heq⟩ | ⟨hnone, meter', heq⟩
  · rw [heq] at hdone ⊢
    exact h hdone
  · rw [heq] at hdone
    cases hdone
  · rw [heq]
    exact hnone

theorem shuffles_turns (meter : Weight) (hgame : s.game = some game)
    (hdue : Duration.fromSecs game.shuffleDeadline < env.now →
      (meter.tryConsume (T.weights.shufflesBase + T.weights.onGameCancelled)).isSome = true →
      Turn G (env, call) s ((s.onGameCancelled game).putGame { game with state := .cancelling none })) :
    Turns G (env, call) s (s.shuffles env meter game) := by
  unfold shuffles
  split
  · exact .refl
  · rename_i meter' hmeter
    split
    · rename_i hdeadline
      exact .single (hdue hdeadline (by rw [hmeter]; rfl))
    · have h := repeatUpTo_induction
        (P := fun w : Store T × GameInfo T.PlayerId × Weight =>
          Turns G (env, call) (s.putGame game) (w.1.putGame w.2.1))
        (s := (s, game, meter')) .refl (fun w h => h.trans (shuffleTurn_turns w)) opUpperBound
      rw [putGame_of_game hgame] at h
      exact h

theorem processReporting_turns (meter : Weight) {n : Nat} (hgame : s.game = some game)
    (hstate : game.state = .reporting n) : Turns G (env, call) s (s.processReporting env meter) := by
  unfold processReporting
  split
  · rename_i game' _ hgame'
    cases hgame.symm.trans hgame'
    rw [hstate]
    dsimp only
    split
    · exact .refl
    · rename_i hdone
      have hwhy : Duration.fromSecs game.reportEnds ≤ env.now ∨ game.pendingAttendance = 0 := by
        by_cases hpending : game.pendingAttendance = 0
        · exact .inr hpending
        · exact .inl (Nat.le_of_not_lt fun hlt => hdone ⟨hlt, hpending⟩)
      exact .single (.reportingEnded s game n game.reportEnds game.shuffleDeadline game.gameDate hgame
        hstate (hwhy.imp id .inl))
  · exact .refl

theorem playerProcessStep1_turns (meter : Weight) {last : Option T.PlayerId} {n : Nat}
    (hgame : s.game = some game) (hstate : game.state = .playerProcess (.processPlayers last n)) :
    Turns G (env, call) s (s.playerProcessStep1 env meter game last n) := by
  unfold playerProcessStep1
  split
  · exact .refl
  · rename_i meter' _
    have h := repeatUpTo_induction
      (P := fun w : Store T × GameInfo T.PlayerId × Option T.PlayerId × Weight =>
        Turns G (env, call) (s.putGame { game with state := .playerProcess (.processPlayers last n) })
          (w.1.putGame { w.2.1 with state := .playerProcess (.processPlayers w.2.2.1 n) }))
      (s := (s, game, last, meter')) .refl (fun w h => h.trans (playerProcessTurn_turns n w))
      opUpperBound
    have hsame : ({ game with state := .playerProcess (.processPlayers last n) } : GameInfo T.PlayerId) =
        game := by
      rw [← hstate]
    rw [hsame, putGame_of_game hgame] at h
    generalize repeatUpTo (playerProcessTurn env n) opUpperBound (s, game, last, meter') = out at h
    obtain ⟨t, game', last', rest⟩ := out
    dsimp only at h ⊢
    split
    · rename_i hnone
      exact h.tail (.sessionEnded t game' last' n (StorageMap.nextEntry_eq_none.mp hnone))
    · exact h

theorem clearTurn_eq (w : Store T × Clearing T × Weight) : (clearTurn w).1.1 = { w.1 with
    indexToPlayer := (clearTurn w).1.1.indexToPlayer
    playerToIndex := (clearTurn w).1.1.playerToIndex } := by
  obtain ⟨t, c, meter⟩ := w
  have h₁ : ∀ (t : Store T) (c : Clearing T), (t.clearIndexToPlayer c).1 = { t with
      indexToPlayer := (t.clearIndexToPlayer c).1.indexToPlayer } := by
    intro t c
    unfold clearIndexToPlayer
    split <;> rfl
  have h₂ : ∀ (t : Store T) (c : Clearing T), (t.clearPlayerToIndex c).1 = { t with
      playerToIndex := (t.clearPlayerToIndex c).1.playerToIndex } := by
    intro t c
    unfold clearPlayerToIndex
    split <;> rfl
  unfold clearTurn
  dsimp only
  split
  · rfl
  · unfold playerProcessStep2InnerLoop
    dsimp only
    rw [h₂, h₁]

/-- The indices are cleared, wholly where the game ends. -/
theorem playerProcessStep2_turns (meter : Weight) (hgame : s.game = some game)
    (hstate : game.state = .playerProcess .clearIndices) :
    Turns G (env, call) s (s.playerProcessStep2 meter) := by
  unfold playerProcessStep2
  split
  · exact .refl
  · rename_i meter' _
    have h := repeatUpTo_induction
      (P := fun w : Store T × Clearing T × Weight => w.2.1.Reached w.1 ∧ w.1 = { s with
        indexToPlayer := w.1.indexToPlayer
        playerToIndex := w.1.playerToIndex })
      (s := (s, ⟨none, none, false, false⟩, meter'))
      ⟨⟨fun _ _ => ⟨rfl, fun _ h => by cases h⟩, fun _ _ => ⟨rfl, fun _ h => by cases h⟩⟩, rfl⟩
      (fun w ⟨hreached, hsame⟩ => by
        refine ⟨(clearTurn_spec w.2.2 hreached).1, ?_⟩
        rw [clearTurn_eq w]
        exact congrArg (fun t : Store T => { t with
          indexToPlayer := (clearTurn w).1.1.indexToPlayer
          playerToIndex := (clearTurn w).1.1.playerToIndex }) hsame) opUpperBound
    generalize repeatUpTo clearTurn opUpperBound (s, ⟨none, none, false, false⟩, meter') = out at h
    obtain ⟨t, c, rest⟩ := out
    obtain ⟨hreached, hsame⟩ := h
    have hcleared : Turns G (env, call) s t := by
      rw [show t = _ from hsame]
      exact .single (.cleared s game t.indexToPlayer t.playerToIndex hgame hstate)
    dsimp only
    split
    · rename_i hdone
      obtain ⟨hdone₁, hdone₂⟩ := Bool.and_eq_true_iff.mp hdone
      have hgame' : t.game = some game := (congrArg Store.game hsame).trans hgame
      refine hcleared.tail (.ended t game hgame' hstate (fun k => ?_) fun playerId => ?_)
      · cases hk : t.indexToPlayer.get k with
        | none => rfl
        | some p =>
          have hnot : c.done1 = false := (hreached.indexToPlayer k (by rw [hk]; rfl)).1
          rw [hdone₁] at hnot
          cases hnot
      · cases hk : t.playerToIndex.get playerId with
        | none => rfl
        | some p =>
          have hnot : c.done2 = false := (hreached.playerToIndex playerId (by rw [hk]; rfl)).1
          rw [hdone₂] at hnot
          cases hnot
    · exact hcleared

theorem processCancelling_turns (meter : Weight) {last : Option T.PlayerId}
    (hgame : s.game = some game) (hstate : game.state = .cancelling last) :
    Turns G (env, call) s (s.processCancelling meter game last) := by
  unfold processCancelling
  split
  · exact .refl
  · rename_i meter' _
    have h := repeatUpTo_induction
      (P := fun w : Store T × Option T.PlayerId × Weight × Bool =>
        Turns G (env, call) (s.putGame { game with state := .cancelling last })
          (w.1.putGame { game with state := .cancelling w.2.1 }) ∧
        (w.2.2.2 = true → w.1.players.nextKey T.playerKey w.2.1 = none))
      (s := (s, last, meter', false)) ⟨.refl, nofun⟩
      (fun w h => ⟨h.1.trans (cancellingTurn_turns game w), nextKey_of_finished h.2⟩) opUpperBound
    have hsame : ({ game with state := .cancelling last } : GameInfo T.PlayerId) = game := by
      rw [← hstate]
    rw [hsame, putGame_of_game hgame] at h
    generalize repeatUpTo (cancellingTurn game.rounds) opUpperBound (s, last, meter', false) = out at h
    obtain ⟨t, last', rest, finished⟩ := out
    obtain ⟨h, hfinished⟩ := h
    dsimp only at h hfinished ⊢
    split
    · rename_i hdone
      exact h.tail (.cancelEnded t game last' (hfinished hdone))
    · exact h

theorem processGame_turns {meter remaining : Weight} (hG : G s (env, call)) (hgame : s.game = some game)
    (hcall : call = .onPoll remaining ∨ call = .onIdle remaining)
    (hmeter : remaining.half.tryConsume T.weights.getGame = some meter) :
    Turns G (env, call) s (s.processGame env meter game) := by
  unfold processGame
  split
  · exact .refl
  · rename_i hblock
    split
    · rename_i next hstate
      unfold endRegistration
      split
      · exact .refl
      · split
        · exact .refl
        · split
          · exact .refl
          · split
            · exact .single (.shuffleStarted s game next game.registrationEnds hgame hstate)
            · exact .single (.cancelled s game hG hgame (.inl (by rw [hstate]; rfl)))
    · rename_i step hstate
      refine shuffles_turns meter hgame fun hdue hpaid => ?_
      refine .cancelled s game hG hgame (.inr ⟨⟨step, hstate⟩, remaining, hcall, ?_, hblock, hdue⟩)
      rw [hmeter, Option.any_some]
      exact hpaid
    · rename_i n hstate
      exact processReporting_turns meter hgame hstate
    · rename_i last n hstate
      exact playerProcessStep1_turns meter hgame hstate
    · rename_i hstate
      exact playerProcessStep2_turns meter hgame hstate
    · rename_i last hstate
      exact processCancelling_turns meter hgame hstate

theorem startScheduledGame_turns (meter : Weight) :
    Turns G (env, call) s (s.startScheduledGame env meter) := by
  have hleaves : ∀ t : Store T, Turn G (env, call) t { t with gameSchedules := s.gameSchedules.remove 0 } :=
    fun t => .settings t _ t.storedPhaseDurations t.playDepositAmount
  unfold startScheduledGame
  split
  · exact .refl
  · split
    · exact .refl
    · rename_i schedule rest _
      split
      · exact .refl
      · cases hnew : s.newGame env schedule with
        | error e => exact .single (hleaves s)
        | ok t => exact (Relation.ReflTransGen.single (.started s t schedule hnew)).tail (hleaves t)

theorem onPoll_turns {remaining : Weight} (hG : G s (env, .onPoll remaining)) :
    Turns G (env, .onPoll remaining) s (s.onPoll env remaining) := by
  unfold onPoll
  split
  · exact .refl
  · rename_i meter hmeter
    split
    · exact startScheduledGame_turns meter
    · rename_i game hgame
      exact processGame_turns hG hgame (.inl rfl) hmeter

theorem onIdle_turns {remaining : Weight} (hG : G s (env, .onIdle remaining)) :
    Turns G (env, .onIdle remaining) s (s.onIdle env remaining) := by
  unfold onIdle
  split
  · exact .refl
  · rename_i meter hmeter
    split
    · exact .refl
    · rename_i game hgame
      exact processGame_turns hG hgame (.inr rfl) hmeter

/-! ### Reports -/

/-- What a report leaves alone while it counts its votes. -/
structure Voting (s t : Store T) : Prop where
  game : t.game = s.game
  indexToPlayer : t.indexToPlayer = s.indexToPlayer
  playerToIndex : t.playerToIndex = s.playerToIndex

theorem voting_of_core {t : Store T} {players : StorageMap T.PlayerId (Player T.PlayDeposit)}
    (h : t.core = { s.core with players := players }) : Voting s t :=
  ⟨congrArg Core.game h, congrArg Core.indexToPlayer h, congrArg Core.playerToIndex h⟩

variable {n : Nat} {who : T.PlayerId} {indices : BoundedVec PlayerIndex T.maxRounds}

theorem reportGroup_turns {weight : Nat} {round : RoundIndex} {index : PlayerIndex}
    {others : List PlayerIndex} {reports : List Report} {reported reported' : List T.PlayerId}
    (hgame : s.game = some game) (hstate : game.state = .reporting n)
    (hindices : s.playerToIndex.get who = some indices) (hround : round < game.rounds)
    (hindex : indices.toList[round]? = some index)
    (hothers : ∀ other ∈ others, other ∈ GroupsSetting.otherMembers ⟨game.maxGroupSize, n⟩ index)
    (h : reportGroup game.index who weight env.now.asSecs round s reported others reports =
      .ok (s', reported')) : Turns G (env, call) s s' ∧ Voting s s' := by
  induction others generalizing s reported reports with
  | nil =>
    cases reports with
    | nil =>
      cases h
      exact ⟨.refl, rfl, rfl, rfl⟩
    | cons report reports => cases h
  | cons other others ih =>
    cases reports with
    | nil => cases h
    | cons report reports =>
      simp only [reportGroup, bind_eq_ok, okOr_eq_ok] at h
      obtain ⟨playerId, hplayerId, ⟨t, early⟩, hvote, h⟩ := h
      unfold countVote at hvote
      split at hvote
      · cases hvote
      · rename_i player hplayer
        cases hvote
        have hvoting : Voting s (((s.putPlayer playerId (countReport player report weight)).placeNft playerId
            report player.earlyAttendanceEnactment (T.nftHash game.index round who playerId)
            env.now.asSecs).logged (.reported game.index round who playerId report)) := by
          have hcore := core_placeNft (s := s.putPlayer playerId (countReport player report weight)) playerId
            report player.earlyAttendanceEnactment (T.nftHash game.index round who playerId) env.now.asSecs
          exact voting_of_core hcore
        obtain ⟨hturns, hvoting'⟩ := ih (hvoting.game.trans hgame) (hvoting.playerToIndex ▸ hindices)
          (fun other hmem => hothers other (List.mem_cons_of_mem _ hmem)) h
        exact ⟨.head (.voted s game n who indices round index other playerId player report weight hgame
          hstate hindices hround hindex (hothers other List.mem_cons_self) hplayerId hplayer) hturns,
          hvoting'.game.trans hvoting.game, hvoting'.indexToPlayer.trans hvoting.indexToPlayer,
          hvoting'.playerToIndex.trans hvoting.playerToIndex⟩

theorem reportRounds_turns {weight : Nat} {fullReport : List (List Report)}
    {reported reported' : List T.PlayerId} {rounds : List RoundIndex}
    (hgame : s.game = some game) (hstate : game.state = .reporting n)
    (hindices : s.playerToIndex.get who = some indices) (hrounds : ∀ round ∈ rounds, round < game.rounds)
    (h : reportRounds game n who weight env.now.asSecs indices.toList fullReport s reported rounds =
      .ok (s', reported')) : Turns G (env, call) s s' ∧ Voting s s' := by
  induction rounds generalizing s reported with
  | nil =>
    cases h
    exact ⟨.refl, rfl, rfl, rfl⟩
  | cons round rounds ih =>
    simp only [reportRounds, bind_eq_ok, okOr_eq_ok] at h
    obtain ⟨reports, -, index, hindex, ⟨t, reported₁⟩, hgroup, h⟩ := h
    have hgrouped : Turns G (env, call) s t ∧ Voting s t := reportGroup_turns hgame hstate hindices
      (hrounds round List.mem_cons_self) hindex (fun _ => id) hgroup
    obtain ⟨hturns, hvoting⟩ := hgrouped
    obtain ⟨hturns', hvoting'⟩ := ih (hvoting.game.trans hgame) (hvoting.playerToIndex ▸ hindices)
      (fun r hr => hrounds r (List.mem_cons_of_mem _ hr)) h
    exact ⟨hturns.trans hturns', hvoting'.game.trans hvoting.game,
      hvoting'.indexToPlayer.trans hvoting.indexToPlayer,
      hvoting'.playerToIndex.trans hvoting.playerToIndex⟩

/-- An early enactment leaves the game in its reporting. -/
theorem exists_reporting_tryEarly (env : Env T) (hgame : s.game = some game)
    (hstate : game.state = .reporting n) (playerId : T.PlayerId) :
    ∃ game', (s.tryEarlyAttendanceEnactment env playerId).game = some game' ∧
      game'.state = .reporting n := by
  have henacted := (tryEarlyAttendanceEnactment_spec env s playerId).game
  rw [core_game, core_game, hgame] at henacted
  obtain ⟨game', hgame', hsetting⟩ := Option.map_eq_some_iff.mp henacted
  exact ⟨game', hgame', (GameInfo.eq_of_setting_eq hsetting).1.trans hstate⟩

theorem enactments_turns (hgame : s.game = some game) (hstate : game.state = .reporting n)
    (reported : List T.PlayerId) : Turns G (env, call) s
      (reported.foldl (fun s playerId => s.tryEarlyAttendanceEnactment env playerId) s) := by
  induction reported generalizing s game with
  | nil => exact .refl
  | cons playerId reported ih =>
    obtain ⟨game', hgame', hstate'⟩ := exists_reporting_tryEarly env hgame hstate playerId
    exact .head (.enacted s game n playerId hgame hstate) (ih hgame' hstate')

theorem report_turns {fullReport : List (List Report)} (h : s.report env who fullReport = .ok s') :
    Turns G (env, call) s s' := by
  unfold report at h
  simp only [bind_eq_ok, okOr_eq_ok, ensure_eq_ok] at h
  obtain ⟨game, hgame, -, -, h⟩ := h
  split at h
  · rename_i n hstate
    simp only [bind_eq_ok, okOr_eq_ok, ensure_eq_ok, Except.ok.injEq] at h
    obtain ⟨⟨t, weight⟩, hmark, -, -, indices, hindices, ⟨u, reported⟩, hrounds, rfl⟩ := h
    simp only [markReporter, bind_eq_ok, okOr_eq_ok, ensure_eq_ok, Except.ok.injEq] at hmark
    obtain ⟨player, hplayer, -, hsent, heq⟩ := hmark
    cases heq
    have hcounted : Turns G (env, call) (s.putPlayer who { player with sentReport := true }) u ∧
        Voting (s.putPlayer who { player with sentReport := true }) u :=
      reportRounds_turns hgame hstate hindices (fun round hr => List.mem_range.mp hr) hrounds
    obtain ⟨hturns, hvoting⟩ := hcounted
    have henacted : Turns G (env, call) u
        ((reported ++ [who]).foldl (fun s playerId => s.tryEarlyAttendanceEnactment env playerId) u) :=
      enactments_turns (hvoting.game.trans hgame) hstate (reported ++ [who])
    rw [List.foldl_append] at henacted
    exact .head (.marked s game n who player hgame hstate hplayer hsent) (hturns.trans henacted)
  · cases h

/-! ### Calls -/

/-- Every accepted call is a sequence of turns. -/
theorem exec_turns {a : Action T} (hG : G s a) (h : s.execAction a = .ok s') : Turns G a s s' := by
  obtain ⟨env, call⟩ := a
  cases call with
  | signUp args => exact .single (.signedUp s s' args rfl hG h)
  | report who fullReport => exact report_turns h
  | offboard who => exact .single (.offboarded s s' who rfl hG h)
  | kickout player => exact .single (.kickedOut s s' player rfl hG h)
  | scheduleGames schedules =>
    simp only [execAction, exec, scheduleGames, bind_eq_ok, Except.ok.injEq] at h
    obtain ⟨-, -, -, -, schedules', -, rfl⟩ := h
    exact .single (.settings s schedules' s.storedPhaseDurations s.playDepositAmount)
  | removeScheduledGame gamePlayTime =>
    simp only [execAction, exec, removeScheduledGame] at h
    split at h
    · cases h
      exact .single (.settings s _ s.storedPhaseDurations s.playDepositAmount)
    · cases h
  | setGamePhases phases =>
    simp only [execAction, exec, setGamePhases, bind_eq_ok, Except.ok.injEq] at h
    obtain ⟨-, -, rfl⟩ := h
    exact .single (.settings s s.gameSchedules (some phases) s.playDepositAmount)
  | setPlayDeposit amount =>
    simp only [execAction, exec, setPlayDeposit, bind_eq_ok, Except.ok.injEq] at h
    obtain ⟨-, -, rfl⟩ := h
    exact .single (.settings s s.gameSchedules s.storedPhaseDurations amount)
  | killCurrentGame =>
    cases h
    exact .single (.killed s rfl hG)
  | testnetForceStartShuffle =>
    simp only [execAction, exec, testnetForceStartShuffle, bind_eq_ok, okOr_eq_ok, ensure_eq_ok,
      Except.ok.injEq] at h
    obtain ⟨-, -, game, hgame, -, hstate, rfl⟩ := h
    cases hs : game.state with
    | registration next => exact .single (.shuffleStarted s game next _ hgame hs)
    | _ =>
      rw [hs] at hstate
      cases hstate
  | testnetForceEndReporting =>
    simp only [execAction, exec, testnetForceEndReporting, bind_eq_ok, okOr_eq_ok] at h
    obtain ⟨-, -, game, hgame, h⟩ := h
    split at h
    · rename_i n hstate
      cases h
      exact .single (.reportingEnded s game n _ _ _ hgame hstate (.inr (.inr rfl)))
    · cases h
  | onPoll remaining =>
    cases h
    exact onPoll_turns hG
  | onIdle remaining =>
    cases h
    exact onIdle_turns hG
  | score score =>
    cases h
    exact .single (.scored s score rfl hG)
  | elsewhere world =>
    cases h
    exact .single (.elsewhere s world rfl hG)

/-- What holds at the start and is carried by every turn holds after an accepted call. -/
theorem exec_turned {a : Action T} {I : Store T → Prop} (hG : G s a) (h : s.execAction a = .ok s')
    (h₀ : I s) (step : ∀ t t', I t → Turn G a t t' → I t') : I s' := by
  have hturns := exec_turns hG h
  clear h
  induction hturns with
  | refl => exact h₀
  | tail _ hturn ih => exact step _ _ ih hturn

/-- What holds at the start and is carried by every turn holds in every state of a run. -/
theorem run_turned {I : Store T → Prop} (h : Reaches execAction G s s') (h₀ : I s)
    (step : ∀ a t t', I t → Turn G a t t' → I t') : I s' :=
  h.invariant h₀ fun _ a _ ht hG hexec => exec_turned hG hexec ht (step a)

end Store
end Individuality.Game
