import Individuality.Game.Frames
import Individuality.Game.Resuming

/-! The shuffle, split over blocks.

Each move of the shuffle depends on the parent hash, and on no game that is stored. Hooks that
keep to the deadline and find the same parent hash therefore make the moves that one pass makes,
in as many blocks as they take; past the deadline a hook cancels the game instead. -/
namespace Individuality.Game
open Support
variable {T : Config}

def GameState.isShuffle {P : Type} : GameState P → Bool
  | shuffle _ => true
  | _ => false

theorem GameState.exists_of_isShuffle {P : Type} {state : GameState P} (h : state.isShuffle = true) :
    ∃ step, state = .shuffle step := by
  cases state with
  | shuffle step => exact ⟨step, rfl⟩
  | _ => cases h

namespace Store
variable (env : Env T) (s : Store T)

/-! ### Without the game -/

def ungamed : Store T := { s with game := none }

theorem ungamed_mutatePlayer (playerId : T.PlayerId) (f : Player T.PlayDeposit → Player T.PlayDeposit) :
    (s.mutatePlayer playerId f).ungamed = s.ungamed.mutatePlayer playerId f := by
  have hplayers : s.ungamed.players = s.players := rfl
  unfold mutatePlayer
  rw [hplayers]
  split <;> rfl

theorem ungamed_stagePlayer (recognized : Bool) (playerId : T.PlayerId) (round : RoundIndex) :
    (s.stagePlayer env recognized playerId round).ungamed = s.ungamed.stagePlayer env recognized playerId round := by
  unfold stagePlayer
  dsimp only
  split <;> rfl

theorem ungamed_stageRounds (recognized : Bool) (playerId : T.PlayerId) (rounds : List RoundIndex) :
    (rounds.foldl (fun s round => s.stagePlayer env recognized playerId round) s).ungamed =
      rounds.foldl (fun s round => s.stagePlayer env recognized playerId round) s.ungamed :=
  (List.foldl_hom ungamed fun s round => (s.ungamed_stagePlayer env recognized playerId round).symm).symm

theorem ungamed_shuffleStepInsert (last : Option T.PlayerId) (game : GameInfo T.PlayerId) :
    s.ungamed.shuffleStepInsert env last game =
      (s.shuffleStepInsert env last game).map fun r => (r.1.ungamed, r.2) := by
  have hplayers : s.ungamed.players = s.players := rfl
  unfold shuffleStepInsert
  rw [hplayers, Option.map_map]
  refine congrArg (fun f => Option.map f _) (funext fun ⟨playerId, player⟩ => ?_)
  dsimp only [Function.comp_apply]
  split
  · refine Prod.ext ?_ rfl
    dsimp only
    rw [ungamed_stageRounds, ungamed_mutatePlayer]
    rfl
  · rfl

theorem ungamed_drainStaged (recognizedFinished : Bool) (round : RoundIndex) :
    s.ungamed.drainStaged recognizedFinished round =
      (s.drainStaged recognizedFinished round).map fun r => (r.1.ungamed, r.2) := by
  unfold drainStaged
  split <;> (rw [Option.map_map]; rfl)

theorem ungamed_retrieveRounds (recognizedFinished : Bool) (rounds index : Nat) (left : List RoundIndex) :
    retrieveRounds recognizedFinished rounds index s.ungamed left =
      ((retrieveRounds recognizedFinished rounds index s left).1.ungamed,
        (retrieveRounds recognizedFinished rounds index s left).2) := by
  induction left generalizing s with
  | nil => rfl
  | cons round left ih =>
    unfold retrieveRounds
    rw [ungamed_drainStaged]
    cases s.drainStaged recognizedFinished round with
    | none => rfl
    | some r => exact ih (r.1.assignIndex rounds round index r.2)

theorem ungamed_shuffleStepRetrieve (nextPlayerIndex : Nat) (recognizedFinished : Bool) (rounds : Nat) :
    s.ungamed.shuffleStepRetrieve nextPlayerIndex recognizedFinished rounds =
      ((s.shuffleStepRetrieve nextPlayerIndex recognizedFinished rounds).1.ungamed,
        (s.shuffleStepRetrieve nextPlayerIndex recognizedFinished rounds).2) := by
  unfold shuffleStepRetrieve
  rw [ungamed_retrieveRounds]
  generalize retrieveRounds recognizedFinished rounds nextPlayerIndex s (List.range rounds) = r
  obtain ⟨t, done⟩ := r
  cases done <;> rfl

theorem ungamed_shuffleStepComputeWeights (last : Option T.PlayerId) (rounds playerCount maxPerGroup : Nat) :
    s.ungamed.shuffleStepComputeWeights last rounds playerCount maxPerGroup =
      (s.shuffleStepComputeWeights last rounds playerCount maxPerGroup).map fun r => (r.1.ungamed, r.2) := by
  have hindices : s.ungamed.playerToIndex = s.playerToIndex := rfl
  unfold shuffleStepComputeWeights
  rw [hindices, Option.map_map]
  refine congrArg (fun f => Option.map f _) (funext fun ⟨playerId, indices⟩ => ?_)
  exact Prod.ext (s.ungamed_mutatePlayer playerId _).symm rfl

theorem ungamed_startSession (game : GameInfo T.PlayerId) (playerCount : Nat) :
    s.ungamed.startSession game playerCount =
      ((s.startSession game playerCount).1.ungamed, (s.startSession game playerCount).2) := by
  have hworld : s.ungamed.world = s.world := rfl
  have hscore : s.ungamed.score = s.score := rfl
  unfold startSession
  rw [hworld, hscore]
  split
  · split <;> rfl
  · rfl

theorem ungamed_shuffleMove (game : GameInfo T.PlayerId) (step : ShuffleStep T.PlayerId) :
    s.ungamed.shuffleMove env game step =
      ((s.shuffleMove env game step).1.ungamed, (s.shuffleMove env game step).2) := by
  cases step with
  | insert last =>
    unfold shuffleMove
    dsimp only
    rw [ungamed_shuffleStepInsert]
    cases s.shuffleStepInsert env last game <;> rfl
  | retrieve next finished =>
    unfold shuffleMove
    dsimp only
    rw [ungamed_shuffleStepRetrieve]
    generalize s.shuffleStepRetrieve next finished game.rounds = r
    obtain ⟨t, goesOn⟩ := r
    cases goesOn <;> rfl
  | computeWeights last playerCount =>
    unfold shuffleMove
    dsimp only
    rw [ungamed_shuffleStepComputeWeights]
    cases s.shuffleStepComputeWeights last game.rounds playerCount game.maxGroupSize <;> rfl
  | awaitSession playerCount =>
    unfold shuffleMove
    dsimp only
    rw [ungamed_startSession]

/-! ### Move after move -/

/-- Make the next move of a shuffle. -/
def shuffleNext (w : Store T × GameInfo T.PlayerId) : Store T × GameInfo T.PlayerId :=
  match w.2.state with
  | .shuffle step => ((w.1.shuffleMove env w.2 step).1, (w.1.shuffleMove env w.2 step).2.1)
  | _ => w

/-- What `moves` moves of a shuffle come to, without a limit. -/
def shufflePass (moves : Nat) (game : GameInfo T.PlayerId) : Store T :=
  ((shuffleNext env)^[moves] (s, game)).1.putGame ((shuffleNext env)^[moves] (s, game)).2

/-- Apart from the game that is stored. -/
def apart (w : Store T × GameInfo T.PlayerId) : Store T × GameInfo T.PlayerId := (w.1.ungamed, w.2)

theorem semiconj_shuffleNext : Function.Semiconj apart (shuffleNext env) (shuffleNext env) := by
  rintro ⟨s, game⟩
  unfold shuffleNext apart
  dsimp only
  split
  · rw [ungamed_shuffleMove]
  · rfl

theorem apart_iterate (n : Nat) (w : Store T × GameInfo T.PlayerId) :
    apart ((shuffleNext env)^[n] w) = (shuffleNext env)^[n] (apart w) :=
  (semiconj_shuffleNext env).iterate_right n w

variable {env s} {env' : Env T} {game : GameInfo T.PlayerId} {w : Store T × GameInfo T.PlayerId}

/-- A shuffle sees of its environment the parent hash only. -/
theorem shuffleNext_congr (h : env.parentHash = env'.parentHash) : shuffleNext env = shuffleNext env' := by
  have hstage : ∀ s : Store T, s.stagePlayer env = s.stagePlayer env' := fun s => by
    unfold stagePlayer
    rw [h]
  have hinsert : ∀ s : Store T, s.shuffleStepInsert env = s.shuffleStepInsert env' := fun s => by
    unfold shuffleStepInsert
    simp only [hstage]
  funext w
  unfold shuffleNext
  split
  · rename_i step _
    have hmove : w.1.shuffleMove env w.2 step = w.1.shuffleMove env' w.2 step := by
      unfold shuffleMove
      rw [hinsert]
    rw [hmove]
  · rfl

variable (env) in
theorem shuffleNext_of_not (h : w.2.state.isShuffle = false) : shuffleNext env w = w := by
  unfold shuffleNext
  split
  · rename_i hstate
    rw [hstate] at h
    cases h
  · rfl

/-- A move changes the state of the game, and how many attendances are pending. -/
theorem shuffleNext_game (w : Store T × GameInfo T.PlayerId) : (shuffleNext env w).2 = { w.2 with
    state := (shuffleNext env w).2.state
    pendingAttendance := (shuffleNext env w).2.pendingAttendance } := by
  obtain ⟨s, game⟩ := w
  cases hstate : game.state with
  | shuffle step =>
    have hmove : Move env s game (s.shuffleMove env game step).1 (s.shuffleMove env game step).2.1 :=
      shuffleMove_move hstate
    have hnext : shuffleNext env (s, game) = ((s.shuffleMove env game step).1, (s.shuffleMove env game step).2.1) := by
      unfold shuffleNext
      dsimp only
      rw [hstate]
    rw [hnext]
    generalize (s.shuffleMove env game step).1 = t, (s.shuffleMove env game step).2.1 = game' at hmove ⊢
    cases hmove <;> rfl
  | _ => rw [shuffleNext_of_not env (by rw [hstate]; rfl)]

/-! ### Hooks -/

/-- A shuffle in the loop. -/
def inLoop (x : Store T × GameInfo T.PlayerId × Weight) : Store T × GameInfo T.PlayerId := apart (x.1, x.2.1)

variable (env) in
/-- A turn makes the next move, or else it changes nothing and the loop stops. -/
theorem inLoop_turn (x : Store T × GameInfo T.PlayerId × Weight) :
    inLoop (shuffleTurn env x).1 = shuffleNext env (inLoop x) ∨
      inLoop (shuffleTurn env x).1 = inLoop x ∧ (shuffleTurn env x).2 = false := by
  obtain ⟨s, game, meter⟩ := x
  unfold shuffleTurn
  dsimp only
  split
  · rename_i step hstate
    split
    · exact .inr ⟨rfl, rfl⟩
    · refine .inl ?_
      refine Eq.trans ?_ (semiconj_shuffleNext env (s, game))
      unfold shuffleNext
      dsimp only [inLoop]
      rw [hstate]
  · exact .inr ⟨rfl, rfl⟩

/-- Whether the shuffle has the weight for a move, whichever is the next one. -/
def affordsMove (game : GameInfo T.PlayerId) (meter : Weight) : Bool :=
  (meter.tryConsume (T.weights.shufflesBase + T.weights.onGameCancelled)).any fun meter =>
    (meter.tryConsume (T.weights.shuffleStepInsert game.rounds)).isSome &&
    (meter.tryConsume (T.weights.shuffleStepRetrieve game.rounds)).isSome &&
    (meter.tryConsume (T.weights.shuffleStepComputeWeights game.maxGroupSize game.rounds)).isSome &&
    (meter.tryConsume T.weights.shuffleStepStartSession).isSome

theorem inLoop_turn_of_weight {meter : Weight} {step : ShuffleStep T.PlayerId}
    (hstate : game.state = .shuffle step) (hweight : (meter.tryConsume (shuffleStepWeight game step)).isSome = true) :
    inLoop (shuffleTurn env (s, game, meter)).1 = shuffleNext env (inLoop (s, game, meter)) := by
  obtain ⟨meter', hmeter⟩ := Option.isSome_iff_exists.mp hweight
  refine Eq.trans ?_ (semiconj_shuffleNext env (s, game))
  unfold shuffleTurn shuffleNext
  dsimp only [inLoop]
  rw [hstate]
  dsimp only
  rw [hmeter]

/-- By the deadline, a call of `shuffles` makes some moves. -/
theorem shuffles_spec (meter : Weight) {step : ShuffleStep T.PlayerId} (hgame : s.game = some game)
    (hstate : game.state = .shuffle step) (hdeadline : env.now ≤ Duration.fromSecs game.shuffleDeadline) :
    ∃ n game', (s.shuffles env meter game).game = some game' ∧
      apart (s.shuffles env meter game, game') = (shuffleNext env)^[n] (apart (s, game)) ∧
      (affordsMove game meter = true → 0 < n) := by
  unfold shuffles affordsMove
  cases hbase : meter.tryConsume (T.weights.shufflesBase + T.weights.onGameCancelled) with
  | none => exact ⟨0, game, hgame, rfl, nofun⟩
  | some meter =>
    dsimp only
    rw [if_neg (Nat.not_lt.mpr hdeadline)]
    obtain ⟨n, -, hview, hfirst⟩ := repeatUpTo_steps inLoop (inLoop_turn env) opUpperBound (s, game, meter)
    generalize repeatUpTo (shuffleTurn env) opUpperBound (s, game, meter) = out at hview ⊢
    obtain ⟨t, game', rest⟩ := out
    refine ⟨n, game', rfl, hview, fun hweight => hfirst (by decide) (inLoop_turn_of_weight hstate ?_)⟩
    simp only [Option.any_some, Bool.and_eq_true] at hweight
    cases step <;> simp only [shuffleStepWeight, hweight]

end Store

/-- Whether a call has the weight for a move of a game's shuffle. -/
def HookCall.affordsMove (game : GameInfo T.PlayerId) (c : HookCall T) : Bool :=
  c.meter.any (Store.affordsMove game)

namespace Store
variable {env : Env T} {s : Store T} {game : GameInfo T.PlayerId}

theorem hook_shuffle (c : HookCall T) {step : ShuffleStep T.PlayerId} (hgame : s.game = some game)
    (hstate : game.state = .shuffle step) (hdeadline : c.env.now ≤ Duration.fromSecs game.shuffleDeadline) :
    ∃ n game', (s.hook c).game = some game' ∧
      apart (s.hook c, game') = (shuffleNext c.env)^[n] (apart (s, game)) ∧
      (c.affordsMove game = true → 0 < n) := by
  rcases hook_of_game hgame c with ⟨hmeter, hsame⟩ | ⟨meter, hmeter, hblock, hprocess⟩
  · refine ⟨0, game, by rw [hsame, hgame], by rw [hsame]; rfl, fun haffords => ?_⟩
    rw [HookCall.affordsMove, hmeter] at haffords
    cases haffords
  · rw [processGame, if_neg hblock, hstate] at hprocess
    rw [hprocess, HookCall.affordsMove, hmeter]
    exact shuffles_spec meter hgame hstate hdeadline

/-- What a shuffle keeps of its game. -/
def SameShape (game game' : GameInfo T.PlayerId) : Prop :=
  game' = { game with state := game'.state, pendingAttendance := game'.pendingAttendance }

theorem SameShape.trans {game game' game'' : GameInfo T.PlayerId} (h : SameShape game game')
    (h' : SameShape game' game'') : SameShape game game'' := by
  unfold SameShape at h h'
  rw [h] at h'
  exact h'

variable (env) in
theorem sameShape_iterate (n : Nat) (w : Store T × GameInfo T.PlayerId) :
    SameShape w.2 ((shuffleNext env)^[n] w).2 := by
  induction n with
  | zero => rfl
  | succ n ih =>
    rw [Function.iterate_succ_apply']
    exact ih.trans (shuffleNext_game _)

theorem SameShape.affordsMove {game' : GameInfo T.PlayerId} (h : SameShape game game') :
    HookCall.affordsMove game' = HookCall.affordsMove game := by
  unfold SameShape at h
  rw [h]
  rfl

/-- By the deadline and with one parent hash, calls of the hooks make moves of one shuffle; those that can
pay for a move make one. -/
theorem hooksWhile_shuffle (calls : List (HookCall T)) (hgame : s.game = some game)
    (h : ∀ c ∈ calls, c.env.parentHash = env.parentHash ∧ c.env.now ≤ Duration.fromSecs game.shuffleDeadline) :
    ∃ n game', (s.hooksWhile GameState.isShuffle calls).game = some game' ∧
      apart (s.hooksWhile GameState.isShuffle calls, game') = (shuffleNext env)^[n] (apart (s, game)) ∧
      calls.countP (HookCall.affordsMove game) ≤ n := by
  induction calls generalizing s game with
  | nil => exact ⟨0, game, hgame, rfl, Nat.le_refl 0⟩
  | cons c calls ih =>
    rw [hooksWhile, hgame, Option.any_some]
    cases hphase : game.state.isShuffle with
    | true =>
      obtain ⟨step, hstate⟩ := GameState.exists_of_isShuffle hphase
      rw [if_pos rfl]
      obtain ⟨hhash, hdeadline⟩ := h c List.mem_cons_self
      obtain ⟨n, game', hgame', hmoves, haffords⟩ := hook_shuffle c hgame hstate hdeadline
      rw [shuffleNext_congr hhash] at hmoves
      have hshape : SameShape game game' := by
        have := sameShape_iterate env n (apart (s, game))
        rwa [← hmoves] at this
      have hdeadline' : game'.shuffleDeadline = game.shuffleDeadline :=
        (congrArg GameInfo.shuffleDeadline hshape).trans rfl
      obtain ⟨m, game'', hgame'', hmoves', hcount⟩ := ih hgame' fun c hc => by
        rw [hdeadline']
        exact h c (List.mem_cons_of_mem _ hc)
      refine ⟨m + n, game'', hgame'', by rw [hmoves', hmoves, Function.iterate_add_apply], ?_⟩
      rw [hshape.affordsMove] at hcount
      rw [List.countP_cons]
      split
      · rename_i hpays
        have := haffords hpays
        omega
      · omega
    | false =>
      rw [if_neg Bool.false_ne_true]
      exact ⟨_, game, hgame, (Function.iterate_fixed (shuffleNext_of_not _ hphase) _).symm, Nat.le_refl _⟩

theorem eq_putGame {t u : Store T} {game' : GameInfo T.PlayerId} (hgame : t.game = some game')
    (h : t.ungamed = u.ungamed) : t = u.putGame game' := by
  cases t
  cases u
  simp only [ungamed, mk.injEq] at h hgame
  simp only [putGame, h, hgame]

/-! ### Each player once -/

/-- Stage a player, as long as it is there. -/
def insertNext (env : Env T) (w : Store T × GameInfo T.PlayerId) (playerId : T.PlayerId) :
    Store T × GameInfo T.PlayerId :=
  match w.1.players.get playerId with
  | none => w
  | some player =>
    if player.registered then
      let recognized := w.1.score.reachedPersonhood playerId
      ((List.range w.2.rounds).foldl (fun s round => s.stagePlayer env recognized playerId round)
          (w.1.mutatePlayer playerId fun player => { player with voteWeight := T.voteWeight recognized }),
        { w.2 with pendingAttendance := U32.saturatingAdd w.2.pendingAttendance 1 })
    else w

theorem isSome_mutatePlayer (s : Store T) (playerId other : T.PlayerId)
    (f : Player T.PlayDeposit → Player T.PlayDeposit) :
    ((s.mutatePlayer playerId f).players.get other).isSome = (s.players.get other).isSome := by
  unfold mutatePlayer
  split
  · rename_i player hplayer
    exact StorageMap.contains_insert_of_get hplayer other _
  · rfl

theorem isSome_insertNext (w : Store T × GameInfo T.PlayerId) (playerId other : T.PlayerId) :
    ((insertNext env w playerId).1.players.get other).isSome = (w.1.players.get other).isSome := by
  unfold insertNext
  split
  · rfl
  · split
    · dsimp only
      rw [(foldl_stagePlayer_frame env _ _ playerId _).players]
      exact w.1.isSome_mutatePlayer playerId other _
    · rfl

/-- The first step of a shuffle stages the players that are left, each of them once and in their order. -/
theorem insert_pass {last : Option T.PlayerId} (hstate : game.state = .shuffle (.insert last)) :
    (shuffleNext env)^[(s.players.keysAfter T.playerKey last).length + 1] (s, game) =
      (((s.players.keysAfter T.playerKey last).foldl (insertNext env) (s, game)).1,
        { ((s.players.keysAfter T.playerKey last).foldl (insertNext env) (s, game)).2 with
          state := .shuffle (.retrieve 0 false) }) := by
  have hstep : ∀ (w : Store T × GameInfo T.PlayerId) last k, w.1.players.nextKey T.playerKey last = some k →
      shuffleNext env (w.1, { w.2 with state := .shuffle (.insert last) }) =
        ((insertNext env w k).1, { (insertNext env w k).2 with state := .shuffle (.insert (some k)) }) := by
    intro w last k hnext
    obtain ⟨player, hplayer⟩ := Option.isSome_iff_exists.mp (StorageMap.nextKey_mem hnext).1
    have hentry := StorageMap.nextEntry_eq_some.mpr ⟨hnext, hplayer⟩
    simp only [shuffleNext, shuffleMove, shuffleStepInsert, hentry, Option.map_some, insertNext, hplayer]
    split <;> rfl
  have hdone : ∀ (w : Store T × GameInfo T.PlayerId) last, w.1.players.nextKey T.playerKey last = none →
      shuffleNext env (w.1, { w.2 with state := .shuffle (.insert last) }) =
        (w.1, { w.2 with state := .shuffle (.retrieve 0 false) }) := by
    intro w last hnext
    have hentry := StorageMap.nextEntry_eq_none.mpr hnext
    simp only [shuffleNext, shuffleMove, shuffleStepInsert, hentry, Option.map_none]
  have hwalk := StorageMap.iterate_walk T.playerKey_injective
    (fun w : Store T × GameInfo T.PlayerId => w.1.players) hstep hdone isSome_insertNext (s, game) last
  have hstart : ({ game with state := .shuffle (.insert last) } : GameInfo T.PlayerId) = game := by
    rw [← hstate]
  dsimp only at hwalk
  rwa [hstart] at hwalk

/-- The weight of a player's votes, as long as it has indices. -/
def weighNext (playerCount : Nat) (w : Store T × GameInfo T.PlayerId) (playerId : T.PlayerId) :
    Store T × GameInfo T.PlayerId :=
  match w.1.playerToIndex.get playerId with
  | none => w
  | some indices =>
    (w.1.mutatePlayer playerId fun player =>
      { player with expectedMaxVoteWeight :=
          U16.saturatedFrom (w.1.totalWeight ⟨w.2.maxGroupSize, playerCount⟩ w.2.rounds indices.toList) }, w.2)

theorem playerToIndex_mutatePlayer (s : Store T) (playerId : T.PlayerId)
    (f : Player T.PlayDeposit → Player T.PlayDeposit) :
    (s.mutatePlayer playerId f).playerToIndex = s.playerToIndex := by
  unfold mutatePlayer
  split <;> rfl

/-- The third step of a shuffle weighs the players that are left, each of them once and in their order. -/
theorem weigh_pass {last : Option T.PlayerId} {playerCount : Nat}
    (hstate : game.state = .shuffle (.computeWeights last playerCount)) :
    (shuffleNext env)^[(s.playerToIndex.keysAfter T.playerKey last).length + 1] (s, game) =
      (((s.playerToIndex.keysAfter T.playerKey last).foldl (weighNext playerCount) (s, game)).1,
        { ((s.playerToIndex.keysAfter T.playerKey last).foldl (weighNext playerCount) (s, game)).2 with
          state := .shuffle (.awaitSession playerCount) }) := by
  have hstep : ∀ (w : Store T × GameInfo T.PlayerId) last k,
      w.1.playerToIndex.nextKey T.playerKey last = some k →
      shuffleNext env (w.1, { w.2 with state := .shuffle (.computeWeights last playerCount) }) =
        ((weighNext playerCount w k).1,
          { (weighNext playerCount w k).2 with state := .shuffle (.computeWeights (some k) playerCount) }) := by
    intro w last k hnext
    obtain ⟨indices, hindices⟩ := Option.isSome_iff_exists.mp (StorageMap.nextKey_mem hnext).1
    have hentry := StorageMap.nextEntry_eq_some.mpr ⟨hnext, hindices⟩
    simp only [shuffleNext, shuffleMove, shuffleStepComputeWeights, hentry, Option.map_some, weighNext, hindices]
  have hdone : ∀ (w : Store T × GameInfo T.PlayerId) last, w.1.playerToIndex.nextKey T.playerKey last = none →
      shuffleNext env (w.1, { w.2 with state := .shuffle (.computeWeights last playerCount) }) =
        (w.1, { w.2 with state := .shuffle (.awaitSession playerCount) }) := by
    intro w last hnext
    have hentry := StorageMap.nextEntry_eq_none.mpr hnext
    simp only [shuffleNext, shuffleMove, shuffleStepComputeWeights, hentry, Option.map_none]
  have hkeys : ∀ (w : Store T × GameInfo T.PlayerId) k k',
      ((weighNext playerCount w k).1.playerToIndex.get k').isSome = (w.1.playerToIndex.get k').isSome := by
    intro w k k'
    unfold weighNext
    split
    · rfl
    · rw [playerToIndex_mutatePlayer]
  have hwalk := StorageMap.iterate_walk T.playerKey_injective
    (fun w : Store T × GameInfo T.PlayerId => w.1.playerToIndex) hstep hdone hkeys (s, game) last
  have hstart : ({ game with state := .shuffle (.computeWeights last playerCount) } : GameInfo T.PlayerId) = game := by
    rw [← hstate]
  dsimp only at hwalk
  rwa [hstart] at hwalk

/-! ### The end of a shuffle -/

/-- How many players are staged, counted once for each round. -/
def stagedSize (s : Store T) : Nat := s.shuffleRecognized.size + s.shuffleNotRecognized.size

theorem size_of_firstStaged {m : StorageMap (RoundIndex × Nat) T.PlayerId} {round : RoundIndex}
    {r : (RoundIndex × Nat) × T.PlayerId} (h : firstStaged m round = some r) :
    (m.remove r.1).size + 1 = m.size := by
  obtain ⟨key, -, hget⟩ := Option.bind_eq_some_iff.mp h
  obtain ⟨playerId, hplayer, rfl⟩ := Option.map_eq_some_iff.mp hget
  have hremove := m.countOf_remove (fun _ _ => true) key
  rw [StorageMap.countAt, hplayer, Option.any_some, if_pos rfl] at hremove
  exact hremove

/-- Draining a player takes it out. -/
theorem stagedSize_drainStaged {finished : Bool} {round : RoundIndex} {r : Store T × T.PlayerId}
    (h : s.drainStaged finished round = some r) : r.1.stagedSize + 1 = s.stagedSize := by
  unfold drainStaged at h
  unfold stagedSize
  split at h
  · obtain ⟨x, hx, rfl⟩ := Option.map_eq_some_iff.mp h
    have := size_of_firstStaged hx
    dsimp only
    omega
  · obtain ⟨x, hx, rfl⟩ := Option.map_eq_some_iff.mp h
    have := size_of_firstStaged hx
    dsimp only
    omega

theorem stagedSize_retrieveRounds (finished : Bool) (rounds index : Nat) (left : List RoundIndex) (s : Store T) :
    (retrieveRounds finished rounds index s left).1.stagedSize ≤ s.stagedSize ∧
      (left ≠ [] → (retrieveRounds finished rounds index s left).2 = true →
        (retrieveRounds finished rounds index s left).1.stagedSize < s.stagedSize) := by
  induction left generalizing s with
  | nil => exact ⟨Nat.le_refl _, fun h => absurd rfl h⟩
  | cons round left ih =>
    unfold retrieveRounds
    cases hdrain : s.drainStaged finished round with
    | none => exact ⟨Nat.le_refl _, fun _ hfalse => by cases hfalse⟩
    | some r =>
      have hsize := stagedSize_drainStaged hdrain
      have hassign : (r.1.assignIndex rounds round index r.2).stagedSize = r.1.stagedSize := rfl
      obtain ⟨hle, -⟩ := ih (r.1.assignIndex rounds round index r.2)
      dsimp only
      exact ⟨by omega, fun _ _ => by omega⟩

/-- What is left of the retrieval: the players staged, and the change from recognized ones to others. -/
def toRetrieve (s : Store T) (finished : Bool) : Nat := 2 * s.stagedSize + if finished then 0 else 1

/-- A retrieval that goes on has less left. -/
theorem toRetrieve_lt {next next' rounds : Nat} {finished finished' : Bool} {t : Store T} (hrounds : 0 < rounds)
    (h : s.shuffleStepRetrieve next finished rounds = (t, some (next', finished'))) :
    t.toRetrieve finished' < s.toRetrieve finished := by
  obtain ⟨hle, hlt⟩ := stagedSize_retrieveRounds finished rounds next (List.range rounds) s
  have hsome : List.range rounds ≠ [] := by
    rw [ne_eq, List.range_eq_nil]
    omega
  unfold shuffleStepRetrieve at h
  unfold toRetrieve
  split at h
  · rename_i t' heq
    rw [heq] at hle hlt
    cases h
    have := hlt hsome rfl
    dsimp only at this
    omega
  · rename_i t' heq
    rw [heq] at hle
    cases finished with
    | true => cases h
    | false =>
      cases h
      dsimp only at hle
      simp only [if_true, Bool.false_eq_true, if_false]
      omega

/-- A shuffle comes to a rest. -/
def Rests (env : Env T) (w : Store T × GameInfo T.PlayerId) : Prop :=
  ∃ n, shuffleNext env ((shuffleNext env)^[n] w) = (shuffleNext env)^[n] w

theorem Rests.of_iterate {w : Store T × GameInfo T.PlayerId} {n : Nat} (h : Rests env ((shuffleNext env)^[n] w)) :
    Rests env w := by
  obtain ⟨m, hm⟩ := h
  rw [← Function.iterate_add_apply] at hm
  exact ⟨m + n, hm⟩

/-- A shuffle that waits for a session gets it, or waits on. -/
theorem rests_awaitSession (s : Store T) {playerCount : Nat}
    (hstate : game.state = .shuffle (.awaitSession playerCount)) : Rests env (s, game) := by
  have hnext : ∀ s : Store T, shuffleNext env (s, game) = s.startSession game playerCount := fun s => by
    simp only [shuffleNext, hstate, shuffleMove]
  refine ⟨1, ?_⟩
  rw [Function.iterate_one, hnext]
  cases hcan : T.services.canStartPeopleSetMutationSession s.world with
  | false =>
    have hwait : s.startSession game playerCount = (s, game) := by
      unfold startSession
      rw [hcan, if_neg Bool.false_ne_true]
    rw [hwait, hnext, hwait]
  | true =>
    cases hstart : T.services.startPeopleSetMutationSession s.world with
    | some world =>
      refine shuffleNext_of_not _ ?_
      unfold startSession
      rw [hcan, if_pos rfl]
      simp only [Score.Store.startAttendanceReportSession, hstart]
      rfl
    | none =>
      have hwait : ∀ score, { s with score := score }.startSession game playerCount =
          ({ s with score := score.updateThresholds T.services.toServices s.world }, game) := fun score => by
        unfold startSession
        dsimp only
        rw [hcan, if_pos rfl]
        simp only [Score.Store.startAttendanceReportSession, hstart]
      rw [hwait s.score, hnext, hwait]
      rfl

theorem rests_computeWeights (s : Store T) {last : Option T.PlayerId} {playerCount : Nat}
    (hstate : game.state = .shuffle (.computeWeights last playerCount)) : Rests env (s, game) := by
  refine Rests.of_iterate (n := (s.playerToIndex.keysAfter T.playerKey last).length + 1) ?_
  rw [weigh_pass hstate]
  exact rests_awaitSession _ rfl

theorem rests_retrieve (s : Store T) {next : Nat} {finished : Bool} (hrounds : 0 < game.rounds)
    (hstate : game.state = .shuffle (.retrieve next finished)) : Rests env (s, game) := by
  generalize hleft : s.toRetrieve finished = left
  induction left using Nat.strong_induction_on generalizing s game next finished with
  | _ left ih =>
    refine Rests.of_iterate (n := 1) ?_
    have hnext : shuffleNext env (s, game) =
        ((s.shuffleMove env game (.retrieve next finished)).1, (s.shuffleMove env game (.retrieve next finished)).2.1) := by
      simp only [shuffleNext, hstate]
    rw [Function.iterate_one, hnext]
    unfold shuffleMove
    dsimp only
    split
    · rename_i t next' finished' hout
      exact ih _ (hleft ▸ toRetrieve_lt hrounds hout) t hrounds rfl rfl
    · exact rests_computeWeights _ rfl

/-- The one pass of a shuffle comes to an end. -/
theorem rests (s : Store T) (hrounds : 0 < game.rounds) : Rests env (s, game) := by
  cases hstate : game.state with
  | shuffle step =>
    cases step with
    | insert last =>
      refine Rests.of_iterate (n := (s.players.keysAfter T.playerKey last).length + 1) ?_
      have hshape := sameShape_iterate env ((s.players.keysAfter T.playerKey last).length + 1) (s, game)
      rw [insert_pass hstate] at hshape ⊢
      have hsame := (congrArg GameInfo.rounds hshape).trans rfl
      exact rests_retrieve _ (hsame ▸ hrounds) rfl
    | retrieve next finished => exact rests_retrieve s hrounds hstate
    | computeWeights last playerCount => exact rests_computeWeights s hstate
    | awaitSession playerCount => exact rests_awaitSession s hstate
  | _ => exact ⟨0, shuffleNext_of_not _ (by dsimp only [Function.iterate_zero, id_eq]; rw [hstate]; rfl)⟩

/-! ### One pass -/

/-- The pass is over after `n` moves. -/
def AtRest (env : Env T) (n : Nat) (s : Store T) (game : GameInfo T.PlayerId) : Prop :=
  shuffleNext env ((shuffleNext env)^[n] (s, game)) = (shuffleNext env)^[n] (s, game)

/-- After a rest nothing moves. -/
theorem iterate_of_rest {w : Store T × GameInfo T.PlayerId} {n m : Nat}
    (h : shuffleNext env ((shuffleNext env)^[n] w) = (shuffleNext env)^[n] w) (hle : n ≤ m) :
    (shuffleNext env)^[m] w = (shuffleNext env)^[n] w := by
  obtain ⟨k, rfl⟩ := Nat.exists_eq_add_of_le hle
  rw [Nat.add_comm, Function.iterate_add_apply]
  exact Function.iterate_fixed h k

/-- Calls that find one parent hash and keep to the deadline of a game. -/
def Punctual (env : Env T) (game : GameInfo T.PlayerId) (calls : List (HookCall T)) : Prop :=
  ∀ c ∈ calls, c.env.parentHash = env.parentHash ∧ c.env.now ≤ Duration.fromSecs game.shuffleDeadline

/-- What calls of the hooks make of a shuffle, compared with one pass: its first step stages every player once,
its third one weighs everyone with indices once, and it comes to an end. Punctual calls come to some of
the moves of the pass; once they have ended the shuffle, or had the weight for all its moves, to the
whole pass. -/
structure SplitShuffle (env : Env T) (s : Store T) (game : GameInfo T.PlayerId) (calls : List (HookCall T)) :
    Prop where
  stages : ∀ last, game.state = .shuffle (.insert last) →
    (shuffleNext env)^[(s.players.keysAfter T.playerKey last).length + 1] (s, game) =
      (((s.players.keysAfter T.playerKey last).foldl (insertNext env) (s, game)).1,
        { ((s.players.keysAfter T.playerKey last).foldl (insertNext env) (s, game)).2 with
          state := .shuffle (.retrieve 0 false) })
  weighs : ∀ last playerCount, game.state = .shuffle (.computeWeights last playerCount) →
    (shuffleNext env)^[(s.playerToIndex.keysAfter T.playerKey last).length + 1] (s, game) =
      (((s.playerToIndex.keysAfter T.playerKey last).foldl (weighNext playerCount) (s, game)).1,
        { ((s.playerToIndex.keysAfter T.playerKey last).foldl (weighNext playerCount) (s, game)).2 with
          state := .shuffle (.awaitSession playerCount) })
  ends : 0 < game.rounds → ∃ n, AtRest env n s game
  part : Punctual env game calls → ∃ n, s.hooksWhile GameState.isShuffle calls = s.shufflePass env n game
  whole : Punctual env game calls → ∀ n, AtRest env n s game →
    (s.hooksWhile GameState.isShuffle calls).game.any (fun game => game.state.isShuffle) = false ∨
      n ≤ calls.countP (HookCall.affordsMove game) →
    s.hooksWhile GameState.isShuffle calls = s.shufflePass env n game

theorem splitShuffle (env : Env T) (hgame : s.game = some game) (calls : List (HookCall T)) :
    SplitShuffle env s game calls := by
  have hmoved : Punctual env game calls → ∃ m, calls.countP (HookCall.affordsMove game) ≤ m ∧
      (s.hooksWhile GameState.isShuffle calls).game = some ((shuffleNext env)^[m] (s, game)).2 ∧
      s.hooksWhile GameState.isShuffle calls = s.shufflePass env m game := by
    intro hpunctual
    obtain ⟨m, game', hgame', hmoves, hcount⟩ := hooksWhile_shuffle calls hgame hpunctual
    rw [← apart_iterate] at hmoves
    have heq : game' = ((shuffleNext env)^[m] (s, game)).2 := congrArg Prod.snd hmoves
    refine ⟨m, hcount, heq ▸ hgame', ?_⟩
    rw [eq_putGame hgame' (congrArg Prod.fst hmoves), heq]
    rfl
  refine ⟨fun _ => insert_pass, fun _ _ => weigh_pass, rests s, fun hpunctual => ?_, fun hpunctual n hrest hdone => ?_⟩
  · obtain ⟨m, -, -, hpass⟩ := hmoved hpunctual
    exact ⟨m, hpass⟩
  · obtain ⟨m, hcount, hgame', hpass⟩ := hmoved hpunctual
    have hsame : (shuffleNext env)^[m] (s, game) = (shuffleNext env)^[n] (s, game) := by
      rcases hdone with hended | hweight
      · rw [hgame', Option.any_some] at hended
        have hfixed := shuffleNext_of_not env hended
        rcases Nat.le_total m n with hle | hle
        · exact (iterate_of_rest hfixed hle).symm
        · exact iterate_of_rest hrest hle
      · exact iterate_of_rest hrest (hweight.trans hcount)
    rw [hpass, shufflePass, shufflePass, hsame]

/-- Work that is split over calls of the hooks comes to what one pass comes to, as long as no other call
comes in between and no shuffle runs past its deadline. -/
theorem split_eq_one_pass (env : Env T) (calls : List (HookCall T)) (hgame : s.game = some game) :
    (∀ last playerCount, game.state = .playerProcess (.processPlayers last playerCount) →
      SplitProcessing env s game last playerCount calls) ∧
    (∀ step, game.state = .shuffle step → SplitShuffle env s game calls) :=
  ⟨fun _ _ hstate => splitProcessing env hgame hstate calls, fun _ _ => splitShuffle env hgame calls⟩

/-- Two players settled in two blocks, an hour apart, against both settled at another time. -/
theorem split_eq_one_pass_sample : ∃ s game, Reaches execAction (fun _ _ => True) (genesis sampleConfig ()) s ∧
    s.game = some game ∧ SameButTimes
      (s.hooksWhile GameState.isProcessing [⟨sampleEnv 100 1, false, ⟨6, 0⟩⟩, ⟨sampleEnv 3700 2, true, ⟨6, 0⟩⟩])
      (s.onePass (sampleEnv 500 3) 2 game none) := by
  obtain ⟨s, hs, hstate, hlength⟩ := exists_reaches execAction (fun _ _ => True) (genesis sampleConfig ())
    [(sampleEnv 0 1, .scheduleGames [sampleSchedule 100]), (sampleEnv 50 1, .onPoll ⟨100, 0⟩),
      (sampleEnv 50 1, .signUp (sampleSignUp 0)), (sampleEnv 50 1, .signUp (sampleSignUp 1)),
      (sampleEnv 90 1, .onPoll ⟨100, 0⟩), (sampleEnv 90 1, .onPoll ⟨100, 0⟩),
      (sampleEnv 100 1, .report (samplePlayer 0) [[.person]]),
      (sampleEnv 200 1, .onPoll ⟨4, 0⟩)]
    (fun s => s.game.map GameInfo.state = some (.playerProcess (.processPlayers none 2)) ∧
      (s.players.keysAfter sampleConfig.playerKey none).length = 2) (by decide +kernel)
  obtain ⟨game, hgame, hprocessing⟩ := Option.map_eq_some_iff.mp hstate
  have hsplit := (split_eq_one_pass (sampleEnv 500 3)
    [⟨sampleEnv 100 1, false, ⟨6, 0⟩⟩, ⟨sampleEnv 3700 2, true, ⟨6, 0⟩⟩] hgame).1 none 2 hprocessing
  exact ⟨s, game, hs, hgame, hsplit.whole (by rw [hlength]; decide)⟩

/-- The first call stages a player, the second one comes past the deadline and cancels the game, which one
pass would have brought to the reporting. -/
theorem split_eq_one_pass_fails : ∃ s game, Reaches execAction (fun _ _ => True) (genesis sampleConfig ()) s ∧
    s.game = some game ∧ AtRest (sampleEnv 90 1) 20 s game ∧
    (s.shufflePass (sampleEnv 90 1) 20 game).game.map GameInfo.state = some (.reporting 2) ∧
    (s.hooksWhile GameState.isShuffle [⟨sampleEnv 90 1, false, ⟨8, 0⟩⟩, ⟨sampleEnv 130 1, false, ⟨100, 0⟩⟩]).game.map
      GameInfo.state = some (.cancelling none) := by
  obtain ⟨s, hs, hany⟩ := exists_reaches execAction (fun _ _ => True) (genesis sampleConfig ())
    [(sampleEnv 0 1, .scheduleGames [sampleSchedule 100]), (sampleEnv 50 1, .onPoll ⟨100, 0⟩),
      (sampleEnv 50 1, .signUp (sampleSignUp 0)), (sampleEnv 50 1, .signUp (sampleSignUp 1)),
      (sampleEnv 90 1, .onPoll ⟨8, 0⟩)]
    (fun s => (s.game.any fun game =>
      decide (((shuffleNext (sampleEnv 90 1))^[20] (s, game)).2.state = .reporting 2) &&
      decide ((s.hooksWhile GameState.isShuffle
        [⟨sampleEnv 90 1, false, ⟨8, 0⟩⟩, ⟨sampleEnv 130 1, false, ⟨100, 0⟩⟩]).game.map GameInfo.state =
          some (.cancelling none))) = true)
    (by decide +kernel)
  obtain ⟨game, hgame, hboth⟩ := (Option.any_eq_true _ _).mp hany
  obtain ⟨hpass, hcancelled⟩ := (Bool.and_eq_true _ _).mp hboth
  have hreporting := of_decide_eq_true hpass
  exact ⟨s, game, hs, hgame, shuffleNext_of_not _ (by rw [hreporting]; rfl), congrArg some hreporting,
    of_decide_eq_true hcancelled⟩

end Store
end Individuality.Game
