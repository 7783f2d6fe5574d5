import Individuality.Game.Calls
import Individuality.Game.Groups

/-! What a game runs on, and what each operation does to it.

Of the whole storage, a game's flow uses the game, the players and the four maps
of the shuffle: the `Core`. The tokens, the histories, the score pallet and the rest
of the chain follow the flow and do not steer it, so each operation on them keeps the
core (the simp lemmas here), and what the others do to it is said once, by one spec
for each operation. -/
namespace Individuality.Game
open Support
open Score (Alias AccountOrPerson)
variable {T : Config}

/-- The part of the storage that steers a game. -/
@[ext] structure Core (T : Config) where
  game : Option (GameInfo T.PlayerId)
  players : StorageMap T.PlayerId (Player T.PlayDeposit)
  indexToPlayer : StorageMap (RoundIndex × PlayerIndex) T.PlayerId
  playerToIndex : StorageMap T.PlayerId (BoundedVec PlayerIndex T.maxRounds)
  /-- What is staged of the recognized players, and of the others. -/
  staged : Bool → StorageMap (RoundIndex × Nat) T.PlayerId

def Store.core (s : Store T) : Core T :=
  ⟨s.game, s.players, s.indexToPlayer, s.playerToIndex,
    fun recognized => if recognized then s.shuffleRecognized else s.shuffleNotRecognized⟩

namespace Core
variable (c : Core T)

def putGame (game : GameInfo T.PlayerId) : Core T := { c with game := some game }

def putPlayer (playerId : T.PlayerId) (player : Player T.PlayDeposit) : Core T :=
  { c with players := c.players.insert playerId player }

def isRegistered (playerId : T.PlayerId) : Bool :=
  (c.players.get playerId).any fun player => player.registered

/-- The number of registered players. -/
def registeredCount : Nat := c.players.countOf fun _ player => player.registered

theorem isRegistered_iff {playerId : T.PlayerId} : c.isRegistered playerId = true ↔
    ∃ player, c.players.get playerId = some player ∧ player.registered = true := by
  unfold isRegistered
  cases c.players.get playerId <;> simp

/-- Nothing is left of any shuffle. -/
structure Clear (c : Core T) : Prop where
  indexToPlayer : ∀ k, c.indexToPlayer.get k = none
  playerToIndex : ∀ playerId, c.playerToIndex.get playerId = none
  staged : ∀ b k, (c.staged b).get k = none

end Core

namespace Store
variable (env : Env T) (s : Store T)

@[simp] theorem core_game : s.core.game = s.game := rfl
@[simp] theorem core_players : s.core.players = s.players := rfl
@[simp] theorem core_indexToPlayer : s.core.indexToPlayer = s.indexToPlayer := rfl
@[simp] theorem core_playerToIndex : s.core.playerToIndex = s.playerToIndex := rfl
@[simp] theorem core_staged_true : s.core.staged true = s.shuffleRecognized := rfl
@[simp] theorem core_staged_false : s.core.staged false = s.shuffleNotRecognized := rfl

@[simp] theorem core_putGame (game : GameInfo T.PlayerId) :
    (s.putGame game).core = s.core.putGame game := rfl
@[simp] theorem core_putPlayer (playerId : T.PlayerId) (player : Player T.PlayDeposit) :
    (s.putPlayer playerId player).core = s.core.putPlayer playerId player := rfl

theorem core_mutatePlayer {playerId : T.PlayerId} {player : Player T.PlayDeposit}
    (h : s.players.get playerId = some player) (f : Player T.PlayDeposit → Player T.PlayDeposit) :
    (s.mutatePlayer playerId f).core = s.core.putPlayer playerId (f player) := by
  unfold mutatePlayer
  rw [h]
  rfl

/-! ### What keeps the core -/

/-- A loop whose turns keep the core keeps it. -/
theorem core_foldl {β : Type} (f : Store T → β → Store T) (h : ∀ s b, (f s b).core = s.core)
    (l : List β) : (l.foldl f s).core = s.core := by
  induction l generalizing s with
  | nil => rfl
  | cons b l ih =>
    rw [List.foldl_cons, ih, h]

@[simp] theorem core_logged (event : Event T) : (s.logged event).core = s.core := rfl

@[simp] theorem core_mintNft (owner : T.PlayerId) (nft : Nft) (mintTime : Nat) :
    (s.mintNft owner nft mintTime).core = s.core := rfl

@[simp] theorem core_mintAttendanceNfts (gameIndex rounds maxGroupSize playerCount : Nat)
    (attendee : T.PlayerId) (mintTime : Nat) :
    (s.mintAttendanceNfts gameIndex rounds maxGroupSize playerCount attendee mintTime).core = s.core := by
  unfold mintAttendanceNfts
  split
  · rfl
  · refine core_foldl s _ (fun s round => ?_) _
    split
    · rfl
    · refine core_foldl s _ (fun s i => ?_) _
      split <;> rfl

@[simp] theorem core_promoteNftCandidates (attendee : T.PlayerId) (mintTime : Nat) :
    (s.promoteNftCandidates attendee mintTime).core = s.core := by
  exact core_foldl (s.discardNftCandidates attendee) (fun s key => s.mintNft key.1 key.2 mintTime)
    (fun _ _ => rfl) (s.candidatesOf attendee)

@[simp] theorem core_applyAttendanceToNfts (gameIndex rounds maxGroupSize playerCount : Nat)
    (attendee : T.PlayerId) (attendance : Bool) (mintTime : Nat) :
    (s.applyAttendanceToNfts gameIndex rounds maxGroupSize playerCount attendee attendance
      mintTime).core = s.core := by
  unfold applyAttendanceToNfts
  split
  · rw [core_promoteNftCandidates, core_mintAttendanceNfts]
  · rfl

theorem core_setAttendance (playerId : T.PlayerId) (attendance : Bool) (gameIndex : Nat) :
    (s.setAttendance playerId attendance gameIndex).1.core = s.core := by
  unfold setAttendance
  dsimp only
  split <;> rfl

@[simp] theorem core_applyAttendance (playerId : T.PlayerId) (attendance registered : Bool)
    (gameIndex pendingAttendance : Nat) :
    (s.applyAttendance playerId attendance registered gameIndex pendingAttendance).1.core = s.core := by
  have h := core_setAttendance s playerId attendance gameIndex
  cases attendance <;> exact h

@[simp] theorem core_placeNft (playerId : T.PlayerId) (report : Report)
    (early : Option EarlyAttendanceEnactment) (nft : Nft) (mintTime : Nat) :
    (s.placeNft playerId report early nft mintTime).core = s.core := by
  unfold placeNft
  split <;> rfl

@[simp] theorem core_onGameCancelled (game : GameInfo T.PlayerId) :
    (s.onGameCancelled game).core = s.core := by
  unfold onGameCancelled
  split <;> rfl

@[simp] theorem core_endSession : s.endSession.core = s.core := rfl

theorem core_releaseStmtAccount (playerId : T.PlayerId) : (s.releaseStmtAccount playerId).core = s.core := by
  unfold releaseStmtAccount
  split
  · rfl
  · split <;> rfl

theorem core_allowStatements (who : T.PlayerId) (isPlaying : Bool) :
    (s.allowStatements who isPlaying).core = s.core := by
  unfold allowStatements
  split <;> rfl

theorem core_startSession (game : GameInfo T.PlayerId) (playerCount : Nat) :
    (s.startSession game playerCount).1.core = s.core := by
  unfold startSession
  split
  · split <;> rfl
  · rfl

/-! ### Signing up -/

variable {s} {s' : Store T}

theorem bindStmtAccount_core {who : Alias} {statementAccount : T.AccountId}
    (h : s.bindStmtAccount who statementAccount = .ok s') : s'.core = s.core := by
  unfold bindStmtAccount at h
  split at h
  · cases h
    rfl
  · simp only [bind_eq_ok, ensure_eq_ok, Except.ok.injEq] at h
    obtain ⟨-, -, rfl⟩ := h
    cases s.aliasToStmtAccount.get who <;> rfl

theorem resolveSignUp_core {args : SignUpArgs T} {r : T.PlayerId × Bool × Option (Airdrop T)}
    (h : s.resolveSignUp args = .ok (s', r)) : s'.core = s.core := by
  rcases args with ⟨who, statementAccount, signature, airdrop⟩ | ⟨who, newInvited, airdrop⟩
  · simp only [resolveSignUp, bind_eq_ok, Except.ok.injEq, Prod.mk.injEq] at h
    obtain ⟨-, -, t, ht, rfl, -⟩ := h
    exact bindStmtAccount_core ht
  · simp only [resolveSignUp, bind_eq_ok, Except.ok.injEq, Prod.mk.injEq] at h
    obtain ⟨-, -, rfl, -⟩ := h
    rfl

theorem onboard_core {who : T.PlayerId} (h : s.onboard who = .ok s') : s'.core = s.core := by
  unfold onboard at h
  split at h <;> split at h <;> cases h <;> rfl

theorem onboardIfNew_core {who : T.PlayerId} {isNew : Bool} (h : s.onboardIfNew who isNew = .ok s') :
    s'.core = s.core := by
  unfold onboardIfNew at h
  split at h
  · exact onboard_core h
  · cases h
    rfl

theorem takeCredibility_core {who : T.PlayerId} {player : Option (Player T.PlayDeposit)}
    {archived : Option ArchivedPlayer} {newInvited : Bool} {gameIndex : Nat}
    {r : Nat × PlayerCredibility T.PlayDeposit}
    (h : s.takeCredibility who player archived newInvited gameIndex = .ok (s', r)) :
    s'.core = s.core := by
  unfold takeCredibility at h
  split at h
  · cases h
    rfl
  · split at h
    · cases h
      rfl
    · simp only at h
      split at h
      · split at h <;> cases h
        rfl
      · cases h
        rfl

theorem registerForAirdrop_core {airdrop : Option (Airdrop T)} {who : T.PlayerId}
    {airdropScheduled : Bool} {gameIndex : Nat}
    (h : s.registerForAirdrop airdrop who airdropScheduled gameIndex = .ok s') : s'.core = s.core := by
  unfold registerForAirdrop at h
  split at h
  · simp only at h
    split at h <;> simp only [bind_eq_ok, ensure_eq_ok, okOr_eq_ok, Except.ok.injEq, reduceCtorEq,
      and_false, exists_const] at h
    · obtain ⟨-, -, -, -, rfl⟩ := h
      rfl
    · obtain ⟨-, -, -, -, rfl⟩ := h
      rfl
  · cases h
    rfl

/-- The steps of an accepted sign-up: accounts are bound in `bound`, a new player is onboarded in
`onboarded`, a deposit is taken in `credible`, and the player is in the airdrop in `entered`. -/
structure SignUp (env : Env T) (s : Store T) (args : SignUpArgs T) (s' : Store T) where
  game : GameInfo T.PlayerId
  next : Nat
  who : T.PlayerId
  newInvited : Bool
  airdrop : Option (Airdrop T)
  firstGame : Nat
  credibility : PlayerCredibility T.PlayDeposit
  (bound onboarded credible entered : Store T)
  game_eq : s.game = some game
  inTime : env.now < Duration.fromSecs game.registrationEnds
  state_eq : game.state = .registration next
  bound_eq : s.resolveSignUp args = .ok (bound, who, newInvited, airdrop)
  not_playing : newInvited = false ∨ (bound.players.get who).isNone = true
  not_registered : (bound.players.get who).all (fun player => !player.registered) = true
  onboarded_eq : { bound with archivedPlayers := bound.archivedPlayers.remove who }.onboardIfNew who
    ((bound.archivedPlayers.get who).isNone && (bound.players.get who).isNone) = .ok onboarded
  credible_eq : onboarded.takeCredibility who (bound.players.get who) (bound.archivedPlayers.get who)
    newInvited game.index = .ok (credible, firstGame, credibility)
  entered_eq : (credible.putPlayer who (.fresh true firstGame credibility)).registerForAirdrop airdrop who
    game.airdropScheduled game.index = .ok entered
  eq : s' = (entered.allowStatements who (bound.players.get who).isSome).putGame
    { game with state := .registration (U32.saturatingInc next) }

theorem signUp_eq_ok {args : SignUpArgs T} (h : s.signUp env args = .ok s') :
    Nonempty (SignUp env s args s') := by
  unfold signUp at h
  simp only [bind_eq_ok, okOr_eq_ok, ensure_eq_ok] at h
  obtain ⟨game, hgame, -, htime, h⟩ := h
  split at h
  · rename_i next hstate
    simp only [bind_eq_ok, ensure_eq_ok, Except.ok.injEq] at h
    obtain ⟨⟨t, who, newInvited, airdrop⟩, ht, -, hplaying, -, hnew, u, hu, ⟨v, firstGame, credibility⟩,
      hv, w, hw, rfl⟩ := h
    exact ⟨⟨game, next, who, newInvited, airdrop, firstGame, credibility, t, u, v, w, hgame, htime, hstate,
      ht, hplaying, hnew, hu, hv, hw, rfl⟩⟩
  · cases h

/-- A sign-up registers one player that was not, afresh. -/
theorem signUp_spec {args : SignUpArgs T} (h : s.signUp env args = .ok s') :
    ∃ game next who firstGame credibility,
      s.game = some game ∧ game.state = .registration next ∧ s.core.isRegistered who = false ∧
      s'.core = (s.core.putPlayer who (.fresh true firstGame credibility)).putGame
        { game with state := .registration (U32.saturatingInc next) } := by
  obtain ⟨d⟩ := signUp_eq_ok env h
  have hbound := resolveSignUp_core d.bound_eq
  have honboarded : d.onboarded.core = s.core := (onboardIfNew_core d.onboarded_eq).trans hbound
  refine ⟨d.game, d.next, d.who, d.firstGame, d.credibility, d.game_eq, d.state_eq, ?_, ?_⟩
  · have hplayers : d.bound.players = s.players := congrArg Core.players hbound
    have hnew := d.not_registered
    show (s.players.get d.who).any (fun player => player.registered) = false
    rw [hplayers] at hnew
    cases hp : s.players.get d.who with
    | none => rfl
    | some player =>
      rw [hp] at hnew
      simpa using hnew
  · refine (congrArg Store.core d.eq).trans ?_
    rw [core_putGame, core_allowStatements, registerForAirdrop_core d.entered_eq, core_putPlayer,
      takeCredibility_core d.credible_eq, honboarded]

/-! ### Leaving -/

theorem core_setScore (s : Store T) (score : Score.Store T.AccountId) (world : T.World) :
    ({ s with score := score, world := world } : Store T).core = s.core := rfl

/-- A player may leave before a game's shuffle, unless it is registered. -/
theorem offboard_spec {who : T.PlayerId} (h : s.offboard who = .ok s') :
    (∀ game, s.game = some game → game.state.isRegistration = true) ∧
    s.core.isRegistered who = false ∧
    s'.core = { s.core with players := s.players.remove who } := by
  simp only [offboard, bind_eq_ok, ensure_eq_ok, Except.ok.injEq] at h
  obtain ⟨-, hgame, -, hplayer, -, -, world, -, rfl⟩ := h
  refine ⟨fun game hg => ?_, ?_, ?_⟩
  · rw [hg] at hgame
    exact hgame
  · show (s.players.get who).any (fun player => player.registered) = false
    cases hp : s.players.get who with
    | none => rfl
    | some player =>
      rw [hp] at hplayer
      simpa using hplayer
  · rw [core_setScore]
    split
    · rw [core_releaseStmtAccount]
      rfl
    · exact core_releaseStmtAccount (s := { s with
        archivedPlayers := s.archivedPlayers.remove who
        players := s.players.remove who
        world := world }) who

theorem kickout_core {player : T.AccountId} (h : s.kickout env player = .ok s') : s'.core = s.core := by
  simp only [kickout, bind_eq_ok, okOr_eq_ok] at h
  obtain ⟨archived, -, h⟩ := h
  cases archived with
  | kickable firstGame since =>
    simp only [bind_eq_ok, Except.ok.injEq] at h
    obtain ⟨-, -, rfl⟩ := h
    rfl
  | unkickable firstGame => cases h

/-! ### Games -/

theorem tryScheduleAirdrop_core (gameIndex registrationStarts gamePlayTime airdropEndTime : Nat)
    (schedule : GameSchedule T.services.Prize) :
    (s.tryScheduleAirdrop gameIndex registrationStarts gamePlayTime airdropEndTime schedule).1.core =
      s.core := by
  unfold tryScheduleAirdrop
  split
  · rfl
  · split <;> rfl

/-- A game starts in its registration, with rounds and groups that the configuration allows. -/
theorem newGame_spec {schedule : GameSchedule T.services.Prize} (h : s.newGame env schedule = .ok s') :
    s.game = none ∧ ∃ game : GameInfo T.PlayerId, game.state = .registration 0 ∧ 0 < game.rounds ∧
      game.rounds ≤ T.maxRounds ∧ game.maxGroupSize ≤ T.maxGroupSize ∧
      s'.core = s.core.putGame game := by
  simp only [newGame, bind_eq_ok, ensure_eq_ok, Except.ok.injEq] at h
  obtain ⟨-, hnone, -, -, -, -, -, -, -, hrounds, -, hmax, -, -, -, hgroup, rfl⟩ := h
  have hcore := tryScheduleAirdrop_core (s := s) (U32.saturatingAdd s.gameIndex 1) env.now.asSecs
    (s.gameTimes schedule.gamePlayTime).gamePlayTime
    (U64.saturatingAdd (U64.saturatingAdd (s.gameTimes schedule.gamePlayTime).gamePlayTime
      (s.storedPhaseDurations.getD T.defaultPhaseDurations).reporting)
      (s.storedPhaseDurations.getD T.defaultPhaseDurations).airdropClaimWindow) schedule
  exact ⟨hnone, _, rfl, hrounds, hmax, hgroup, congrArg (fun c : Core T => c.putGame _) hcore⟩

/-- Either a scheduled game starts, or the core stays as it is. -/
theorem startScheduledGame_spec (meter : Weight) :
    (s.startScheduledGame env meter).core = s.core ∨
    ∃ game : GameInfo T.PlayerId, game.state = .registration 0 ∧ 0 < game.rounds ∧
      game.rounds ≤ T.maxRounds ∧ game.maxGroupSize ≤ T.maxGroupSize ∧
      (s.startScheduledGame env meter).core = s.core.putGame game := by
  unfold startScheduledGame
  split
  · exact .inl rfl
  · split
    · exact .inl rfl
    · rename_i schedule rest hschedules
      split
      · exact .inl rfl
      · cases hnew : s.newGame env schedule with
        | error e => exact .inl rfl
        | ok t => exact .inr (newGame_spec env hnew).2

/-- The players' records, reset. -/
theorem get_resetPlayers (playerId : T.PlayerId) :
    s.resetPlayers.players.get playerId = (s.players.get playerId).map Player.reset := by
  have general : ∀ (l : List T.PlayerId) (t : Store T), l.Nodup →
      (l.foldl (fun t id => t.mutatePlayer id Player.reset) t).players.get playerId =
        if playerId ∈ l then (t.players.get playerId).map Player.reset else t.players.get playerId := by
    intro l
    induction l with
    | nil =>
      intro t _
      rw [List.foldl_nil, if_neg List.not_mem_nil]
    | cons id l ih =>
      intro t hnodup
      obtain ⟨hnot, hrest⟩ := List.nodup_cons.mp hnodup
      have hget : (t.mutatePlayer id Player.reset).players.get playerId =
          if playerId = id then (t.players.get playerId).map Player.reset else t.players.get playerId := by
        unfold mutatePlayer
        cases hp : t.players.get id with
        | none =>
          by_cases heq : playerId = id
          · rw [if_pos heq, heq, hp]
            rfl
          · rw [if_neg heq]
        | some player =>
          show (t.players.insert id player.reset).get playerId = _
          rw [StorageMap.get_insert]
          by_cases heq : playerId = id
          · rw [if_pos heq, if_pos heq, heq, hp]
            rfl
          · rw [if_neg heq, if_neg heq]
      rw [List.foldl_cons, ih _ hrest, hget]
      by_cases heq : playerId = id
      · rw [if_pos heq, if_neg (heq ▸ hnot), if_pos (heq ▸ List.mem_cons_self)]
      · rw [if_neg heq]
        simp only [List.mem_cons, heq, false_or]
  refine (general s.players.keys s (AList.keys_nodup s.players)).trans ?_
  split
  · rfl
  · rename_i hnot
    rw [StorageMap.mem_keys, Bool.not_eq_true, Option.isSome_eq_false_iff, Option.isNone_iff_eq_none]
      at hnot
    rw [hnot]
    rfl

theorem killCurrentGame_spec (s : Store T) :
    s.killCurrentGame.core.Clear ∧ s.killCurrentGame.game = none ∧
    ∀ playerId, s.killCurrentGame.players.get playerId = (s.players.get playerId).map Player.reset := by
  refine ⟨⟨fun _ => rfl, fun _ => rfl, fun b _ => by cases b <;> rfl⟩, rfl, fun playerId => ?_⟩
  have hplayers : ∀ t : Store T, t.players = s.players →
      t.resetPlayers.players.get playerId = (s.players.get playerId).map Player.reset := by
    intro t ht
    rw [get_resetPlayers, ht]
  refine hplayers _ ?_
  cases hg : s.game with
  | none => rfl
  | some game =>
    have hcancelled := core_onGameCancelled (if game.state.hasSession then s.endSession else s) game
    refine (congrArg Core.players hcancelled).trans ?_
    split <;> rfl

end Store
end Individuality.Game
