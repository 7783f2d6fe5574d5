import Individuality.Game.Retrieving

/-! What one turn of a loop does.

A hook makes many turns of the shuffle, of the processing of players or of a
cancelling in one block. `Move` says what a turn of the shuffle does, one
constructor for each outcome of its four steps; a turn of the two others settles one
player. -/
namespace Individuality.Game
open Support
variable {T : Config}

namespace Store

inductive Move (env : Env T) (s : Store T) (game : GameInfo T.PlayerId) :
    Store T → GameInfo T.PlayerId → Prop
  | skipped (last : Option T.PlayerId) (who : T.PlayerId) (hstate : game.state = .shuffle (.insert last))
      (hnext : s.players.nextKey T.playerKey last = some who) (hnot : s.core.isRegistered who = false) :
      Move env s game s { game with state := .shuffle (.insert (some who)) }
  | staged (last : Option T.PlayerId) (who : T.PlayerId) (player : Player T.PlayDeposit) (t : Store T)
      (pendingAttendance : Nat) (hstate : game.state = .shuffle (.insert last))
      (hnext : s.players.nextKey T.playerKey last = some who)
      (hplayer : s.players.get who = some player) (hreg : player.registered = true)
      (hcore : t.core = { s.core.putPlayer who
        { player with voteWeight := T.voteWeight (s.score.reachedPersonhood who) } with
        staged := t.core.staged })
      (hadded : Staging.Added s.core t.core who (s.score.reachedPersonhood who)
        (T.shuffleHash env.parentHash who) game.rounds)
      (hscore : t.score = s.score) :
      Move env s game t { game with
        pendingAttendance := pendingAttendance
        state := .shuffle (.insert (some who)) }
  | allStaged (last : Option T.PlayerId) (hstate : game.state = .shuffle (.insert last))
      (hnone : s.players.nextKey T.playerKey last = none) :
      Move env s game s { game with state := .shuffle (.retrieve 0 false) }
  | retrieved (next next' : Nat) (finished finished' : Bool) (t : Store T)
      (hstate : game.state = .shuffle (.retrieve next finished))
      (hout : s.shuffleStepRetrieve next finished game.rounds = (t, some (next', finished'))) :
      Move env s game t { game with state := .shuffle (.retrieve next' finished') }
  | allRetrieved (next : Nat) (finished : Bool) (t : Store T)
      (hstate : game.state = .shuffle (.retrieve next finished))
      (hout : s.shuffleStepRetrieve next finished game.rounds = (t, none)) :
      Move env s game t { game with state := .shuffle (.computeWeights none next) }
  | weighed (last : Option T.PlayerId) (n : Nat) (who : T.PlayerId)
      (indices : BoundedVec PlayerIndex T.maxRounds)
      (hstate : game.state = .shuffle (.computeWeights last n))
      (hnext : s.playerToIndex.nextKey T.playerKey last = some who)
      (hindices : s.playerToIndex.get who = some indices) :
      Move env s game
        (s.mutatePlayer who fun player =>
          { player with expectedMaxVoteWeight :=
            U16.saturatedFrom (s.totalWeight ⟨game.maxGroupSize, n⟩ game.rounds indices.toList) })
        { game with state := .shuffle (.computeWeights (some who) n) }
  | allWeighed (last : Option T.PlayerId) (n : Nat) (hstate : game.state = .shuffle (.computeWeights last n))
      (hnone : s.playerToIndex.nextKey T.playerKey last = none) :
      Move env s game s { game with state := .shuffle (.awaitSession n) }
  | awaited (n : Nat) (t : Store T) (hstate : game.state = .shuffle (.awaitSession n))
      (hcore : t.core = s.core) : Move env s game t game
  | opened (n : Nat) (t : Store T) (hstate : game.state = .shuffle (.awaitSession n))
      (hcore : t.core = s.core) : Move env s game t { game with state := .reporting n }

variable {env : Env T} {s : Store T} {game : GameInfo T.PlayerId}

theorem shuffleStepInsert_move {last : Option T.PlayerId} {t : Store T} {who : T.PlayerId}
    {game' : GameInfo T.PlayerId} (hstate : game.state = .shuffle (.insert last))
    (h : s.shuffleStepInsert env last game = some (t, who, game')) :
    Move env s game t { game' with state := .shuffle (.insert (some who)) } := by
  obtain ⟨⟨playerId, player⟩, hentry, heq⟩ := Option.map_eq_some_iff.mp h
  obtain ⟨hnext, hplayer⟩ := StorageMap.nextEntry_eq_some.mp hentry
  simp only at heq
  split at heq
  · rename_i hreg
    have hput := core_mutatePlayer s hplayer fun player =>
      { player with voteWeight := T.voteWeight (s.score.reachedPersonhood playerId) }
    have hscore : (s.mutatePlayer playerId fun player =>
        { player with voteWeight := T.voteWeight (s.score.reachedPersonhood playerId) }).score =
        s.score := by
      unfold mutatePlayer
      rw [hplayer]
      rfl
    obtain ⟨hadded, hcore, hsame⟩ := foldl_stagePlayer_spec env
      (s.mutatePlayer playerId fun player =>
        { player with voteWeight := T.voteWeight (s.score.reachedPersonhood playerId) })
      (s.score.reachedPersonhood playerId) playerId game.rounds
    cases heq
    refine .staged last who player _ _ hstate hnext hplayer hreg ?_ ?_ (hsame.trans hscore)
    · rw [hput] at hcore
      exact hcore
    · rw [hput] at hadded
      exact ⟨hadded.other, hadded.get, hadded.count⟩
  · rename_i hreg
    cases heq
    refine .skipped last who hstate hnext ?_
    show (s.players.get who).any (fun player => player.registered) = false
    rw [hplayer]
    exact Bool.not_eq_true _ ▸ hreg

theorem startSession_move {n : Nat} (hstate : game.state = .shuffle (.awaitSession n)) :
    Move env s game (s.startSession game n).1 (s.startSession game n).2 := by
  have hcore := core_startSession s game n
  unfold startSession at hcore ⊢
  split
  · split
    · exact .opened n _ hstate rfl
    · exact .awaited n _ hstate rfl
  · exact .awaited n _ hstate rfl

theorem shuffleMove_move {step : ShuffleStep T.PlayerId} (hstate : game.state = .shuffle step) :
    Move env s game (s.shuffleMove env game step).1 (s.shuffleMove env game step).2.1 := by
  cases step with
  | insert last =>
    unfold shuffleMove
    simp only
    split
    · rename_i t who game' hinsert
      exact shuffleStepInsert_move hstate hinsert
    · rename_i hinsert
      exact .allStaged last hstate
        (StorageMap.nextEntry_eq_none.mp (Option.map_eq_none_iff.mp hinsert))
  | retrieve next finished =>
    unfold shuffleMove
    simp only
    split
    · rename_i t next' finished' hout
      exact .retrieved next next' finished finished' t hstate hout
    · rename_i t hout
      exact .allRetrieved next finished t hstate hout
  | computeWeights last n =>
    unfold shuffleMove
    simp only
    split
    · rename_i t who hweigh
      obtain ⟨⟨playerId, indices⟩, hentry, heq⟩ := Option.map_eq_some_iff.mp hweigh
      obtain ⟨hnext, hindices⟩ := StorageMap.nextEntry_eq_some.mp hentry
      cases heq
      exact .weighed last n who indices hstate hnext hindices
    · rename_i hweigh
      exact .allWeighed last n hstate
        (StorageMap.nextEntry_eq_none.mp (Option.map_eq_none_iff.mp hweigh))
  | awaitSession n => exact startSession_move hstate

/-- A turn of the shuffle makes a move, or none. -/
theorem shuffleTurn_move (env : Env T) (s : Store T) (game : GameInfo T.PlayerId) (meter : Weight) :
    ((shuffleTurn env (s, game, meter)).1.1 = s ∧ (shuffleTurn env (s, game, meter)).1.2.1 = game) ∨
      Move env s game (shuffleTurn env (s, game, meter)).1.1 (shuffleTurn env (s, game, meter)).1.2.1 := by
  unfold shuffleTurn
  simp only
  split
  · rename_i step hstate
    split
    · exact .inl ⟨rfl, rfl⟩
    · exact .inr (shuffleMove_move hstate)
  · exact .inl ⟨rfl, rfl⟩

/-- What moves carry from a state of the shuffle holds wherever it stops. -/
theorem shuffles_induction (env : Env T) {P : Store T → GameInfo T.PlayerId → Prop} (meter : Weight)
    (h₀ : P s game)
    (step : ∀ t g t' g', P t g → Move env t g t' g' → P t' g') (bound : Nat) :
    P (repeatUpTo (shuffleTurn env) bound (s, game, meter)).1
      (repeatUpTo (shuffleTurn env) bound (s, game, meter)).2.1 := by
  refine repeatUpTo_induction (P := fun out : Store T × GameInfo T.PlayerId × Weight => P out.1 out.2.1)
    h₀ (fun out h => ?_) bound
  obtain ⟨t, g, meter⟩ := out
  rcases shuffleTurn_move env t g meter with ⟨ht, hg⟩ | hmove
  · rw [ht, hg]
    exact h
  · exact step t g _ _ h hmove

/-! ### Settling players -/

/-- One player was removed or its record reset, and nothing else happened. -/
structure Settled (c c' : Core T) (who : T.PlayerId) : Prop where
  rest : c' = { c with players := c'.players }
  other : ∀ p, p ≠ who → c'.players.get p = c.players.get p
  settled : c'.isRegistered who = false

theorem settled_remove (c : Core T) (who : T.PlayerId) :
    Settled c { c with players := c.players.remove who } who where
  rest := rfl
  other p hne := (StorageMap.get_remove c.players who p).trans (if_neg hne)
  settled := by
    unfold Core.isRegistered
    rw [StorageMap.get_remove, if_pos rfl]
    rfl

theorem settled_putPlayer (c : Core T) (who : T.PlayerId) (player : Player T.PlayDeposit)
    (h : player.registered = false) : Settled c (c.putPlayer who player) who where
  rest := rfl
  other p hne := (StorageMap.get_insert c.players who p player).trans (if_neg hne)
  settled := by rw [Core.isRegistered_putPlayer, if_pos rfl, h]

theorem archive_settled {t : Store T} (h : t.core = s.core) (who : T.PlayerId)
    (player : Player T.PlayDeposit) (archived : ArchivedPlayer) :
    Settled s.core (t.archive who player archived).core who := by
  have hcore : ∀ u : Store T, u.core = t.core → ({ u.releaseStmtAccount who with
      players := (u.releaseStmtAccount who).players.remove who
      archivedPlayers := (u.releaseStmtAccount who).archivedPlayers.insert who archived } :
      Store T).core = { s.core with players := s.players.remove who } := by
    intro u hu
    have hrelease := (core_releaseStmtAccount (s := u) who).trans (hu.trans h)
    exact congrArg (fun c : Core T => { c with players := c.players.remove who }) hrelease
  unfold archive
  rw [hcore _ (by split <;> rfl)]
  exact settled_remove s.core who

theorem keep_settled {t : Store T} (h : t.core = s.core) (who : T.PlayerId)
    (player : Player T.PlayDeposit) : Settled s.core (t.keep who player).core who := by
  have hput : ∀ u : Store T, u.core = t.core → ∀ kept : Player T.PlayDeposit, kept.registered = false →
      Settled s.core (u.putPlayer who kept).core who := by
    intro u hu kept hkept
    rw [core_putPlayer, hu, h]
    exact settled_putPlayer s.core who kept hkept
  unfold keep
  split
  · split
    · exact hput { t with world := _ } rfl _ rfl
    · exact hput t rfl _ rfl
  · exact hput t rfl _ rfl

/-- Once its attendance is processed, a player is settled. -/
theorem processPlayerAttendanceOutcome_settled (env : Env T) (s : Store T) (game : GameInfo T.PlayerId)
    (n : Nat) (who : T.PlayerId) (player : Player T.PlayDeposit) :
    Settled s.core (s.processPlayerAttendanceOutcome env game n who player).1.core who := by
  have henact : (s.enactAttendance env game n who player).1.core = s.core := by
    unfold enactAttendance
    split
    · rfl
    · rw [core_applyAttendanceToNfts, core_applyAttendance]
  unfold processPlayerAttendanceOutcome
  simp only
  split
  · exact archive_settled henact who player _
  · exact archive_settled henact who player _
  · exact keep_settled henact who player

/-- A turn of the processing settles the next player, or does nothing. -/
theorem playerProcessTurn_spec (env : Env T) (s : Store T) (game : GameInfo T.PlayerId) (n : Nat)
    (last : Option T.PlayerId) (meter : Weight) :
    (playerProcessTurn env n (s, game, last, meter)).1 = (s, game, last, meter) ∨
      ∃ who t pendingAttendance meter', s.players.nextKey T.playerKey last = some who ∧
        Settled s.core t.core who ∧
        (playerProcessTurn env n (s, game, last, meter)).1 =
          (t, { game with pendingAttendance := pendingAttendance }, some who, meter') := by
  unfold playerProcessTurn
  simp only
  split
  · exact .inl rfl
  · rename_i who player hentry
    split
    · exact .inl rfl
    · rename_i meter' _
      exact .inr ⟨who, _, _, meter', (StorageMap.nextEntry_eq_some.mp hentry).1,
        s.processPlayerAttendanceOutcome_settled env game n who player, rfl⟩

/-! ### Cancelling -/

/-- What an index stood for in each round is gone. -/
theorem get_foldl_remove (m : StorageMap (RoundIndex × PlayerIndex) T.PlayerId) (indices : List PlayerIndex)
    (n : Nat) (r : RoundIndex) (i : PlayerIndex) :
    ((List.range n).foldl (fun m round =>
      match indices[round]? with
      | some index => m.remove (round, index)
      | none => m) m).get (r, i) = if r < n ∧ indices[r]? = some i then none else m.get (r, i) := by
  induction n with
  | zero => rw [if_neg fun h => Nat.not_lt_zero r h.1]; rfl
  | succ n ih =>
    rw [List.range_succ, List.foldl_append, List.foldl_cons, List.foldl_nil]
    split
    · rename_i index hindex
      rw [StorageMap.get_remove, ih]
      grind
    · rename_i hindex
      rw [ih]
      grind

/-- Taking a player's indices removes them, and what they stand for. -/
theorem takeIndices_spec (s : Store T) (who : T.PlayerId) (rounds : Nat) :
    (s.takeIndices who rounds).core = { s.core with
        indexToPlayer := (s.takeIndices who rounds).indexToPlayer
        playerToIndex := s.playerToIndex.remove who } ∧
      ∀ r i, (s.takeIndices who rounds).indexToPlayer.get (r, i) =
        if r < rounds ∧ ∃ indices, s.playerToIndex.get who = some indices ∧ indices.toList[r]? = some i
        then none else s.indexToPlayer.get (r, i) := by
  unfold takeIndices
  cases hget : s.playerToIndex.get who with
  | none =>
    refine ⟨Core.ext rfl rfl rfl ?_ rfl, fun r i => ?_⟩
    · exact (StorageMap.remove_of_get_none hget).symm
    · rw [if_neg]
      rintro ⟨-, indices, hindices, -⟩
      cases hindices
  | some indices =>
    refine ⟨rfl, fun r i => ?_⟩
    refine (get_foldl_remove s.indexToPlayer indices.toList rounds r i).trans (if_congr (and_congr_right fun _ => ?_) rfl rfl)
    constructor
    · intro h
      exact ⟨indices, rfl, h⟩
    · rintro ⟨v, hv, h⟩
      cases hv
      exact h

/-- A turn of the cancelling resets the next player and takes its indices; it finishes once there
is none. -/
theorem cancellingTurn_spec (s : Store T) (rounds : Nat) (last : Option T.PlayerId) (meter : Weight)
    (finished : Bool) :
    (cancellingTurn rounds (s, last, meter, finished)).1 = (s, last, meter, finished) ∨
      (∃ who player meter', s.players.nextKey T.playerKey last = some who ∧
        s.players.get who = some player ∧
        (cancellingTurn rounds (s, last, meter, finished)).1 =
          ((s.putPlayer who player.reset).takeIndices who rounds, some who, meter', false)) ∨
      s.players.nextKey T.playerKey last = none ∧ ∃ meter',
        (cancellingTurn rounds (s, last, meter, finished)).1 = (s, last, meter', true) := by
  unfold cancellingTurn
  simp only
  split
  · exact .inl rfl
  · rename_i meter' _
    split
    · rename_i t who hstep
      obtain ⟨⟨playerId, player⟩, hentry, heq⟩ := Option.map_eq_some_iff.mp hstep
      obtain ⟨hnext, hplayer⟩ := StorageMap.nextEntry_eq_some.mp hentry
      cases heq
      exact .inr (.inl ⟨who, player, meter', hnext, hplayer, rfl⟩)
    · rename_i hstep
      exact .inr (.inr ⟨StorageMap.nextEntry_eq_none.mp (Option.map_eq_none_iff.mp hstep), meter', rfl⟩)

end Store
end Individuality.Game
