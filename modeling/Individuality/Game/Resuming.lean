import Individuality.Game.Moves

/-! Processing that is split over blocks.

The players of a game are settled, and shuffled, by hooks that stop where the weight ends. A hook
that goes on later finds a store in which the record of the last player was written over or
removed, the game was put back, and the time is another one. None of this matters: what is done
with the next player depends on no time and on no game that is stored, up to the times that are
noted with tokens and with archived players. -/
namespace Individuality.Game
open Support
open Score (Alias AccountOrPerson)
variable {T : Config}

/-! ### Without the times -/

def ArchivedPlayer.timeless : ArchivedPlayer → ArchivedPlayer
  | kickable firstGame _ => kickable firstGame 0
  | unkickable firstGame => unkickable firstGame

/-- An environment of no time. -/
def Env.timeless (parentHash : T.Hash) : Env T := ⟨0, 0, parentHash⟩

theorem Env.asSecs_timeless (parentHash : T.Hash) : (Env.timeless parentHash).now.asSecs = 0 := Nat.zero_div _

namespace Store
variable (env : Env T) (parentHash : T.Hash) (s : Store T)

/-- The store without the times of tokens and of archived players, and without the game. -/
def erase : Store T :=
  { s with
    nfts := s.nfts.mapValues fun _ => 0
    archivedPlayers := s.archivedPlayers.mapValues ArchivedPlayer.timeless
    game := none }

theorem erase_mintNft (owner : T.PlayerId) (nft : Nft) (mintTime : Nat) :
    (s.mintNft owner nft mintTime).erase = s.erase.mintNft owner nft 0 := by
  simp only [erase, mintNft, StorageMap.mapValues_insert]

theorem erase_mintAttendanceNfts (gameIndex rounds maxGroupSize playerCount : Nat) (attendee : T.PlayerId)
    (mintTime : Nat) :
    (s.mintAttendanceNfts gameIndex rounds maxGroupSize playerCount attendee mintTime).erase =
      s.erase.mintAttendanceNfts gameIndex rounds maxGroupSize playerCount attendee 0 := by
  have hindices : s.erase.playerToIndex = s.playerToIndex := rfl
  unfold mintAttendanceNfts
  rw [hindices]
  split
  · rfl
  · refine (List.foldl_hom erase fun s round => ?_).symm
    split
    · rfl
    · refine List.foldl_hom erase fun s i => ?_
      have hindex : s.erase.indexToPlayer = s.indexToPlayer := rfl
      rw [hindex]
      split
      · rfl
      · exact (s.erase_mintNft _ _ _).symm

theorem erase_promoteNftCandidates (attendee : T.PlayerId) (mintTime : Nat) :
    (s.promoteNftCandidates attendee mintTime).erase = s.erase.promoteNftCandidates attendee 0 :=
  (List.foldl_hom erase fun s _ => (s.erase_mintNft _ _ _).symm).symm

theorem erase_applyAttendanceToNfts (gameIndex rounds maxGroupSize playerCount : Nat)
    (attendee : T.PlayerId) (attendance : Bool) (mintTime : Nat) :
    (s.applyAttendanceToNfts gameIndex rounds maxGroupSize playerCount attendee attendance mintTime).erase =
      s.erase.applyAttendanceToNfts gameIndex rounds maxGroupSize playerCount attendee attendance 0 := by
  unfold applyAttendanceToNfts
  split
  · rw [erase_promoteNftCandidates, erase_mintAttendanceNfts]
  · rfl

theorem erase_setAttendance (playerId : T.PlayerId) (attendance : Bool) (gameIndex : Nat) :
    s.erase.setAttendance playerId attendance gameIndex =
      ((s.setAttendance playerId attendance gameIndex).1.erase, (s.setAttendance playerId attendance gameIndex).2) := by
  unfold setAttendance
  dsimp only [erase, logged]
  split <;> rfl

theorem erase_applyAttendance (playerId : T.PlayerId) (attendance registered : Bool)
    (gameIndex pendingAttendance : Nat) :
    s.erase.applyAttendance playerId attendance registered gameIndex pendingAttendance =
      ((s.applyAttendance playerId attendance registered gameIndex pendingAttendance).1.erase,
        (s.applyAttendance playerId attendance registered gameIndex pendingAttendance).2) := by
  unfold applyAttendance
  rw [erase_setAttendance]
  dsimp only
  split <;> rfl

theorem erase_releaseStmtAccount (playerId : T.PlayerId) :
    (s.releaseStmtAccount playerId).erase = s.erase.releaseStmtAccount playerId := by
  cases playerId with
  | account account => rfl
  | person id =>
    have halias : s.erase.aliasToStmtAccount = s.aliasToStmtAccount := rfl
    unfold releaseStmtAccount
    dsimp only
    rw [halias]
    split <;> rfl

theorem erase_archive (playerId : T.PlayerId) (player : Player T.PlayDeposit) (archived : ArchivedPlayer) :
    (s.archive playerId player archived).erase = s.erase.archive playerId player archived.timeless := by
  have hleave : ∀ t : Store T, ({ t.releaseStmtAccount playerId with
      players := (t.releaseStmtAccount playerId).players.remove playerId
      archivedPlayers := (t.releaseStmtAccount playerId).archivedPlayers.insert playerId archived } :
        Store T).erase = { t.erase.releaseStmtAccount playerId with
      players := (t.erase.releaseStmtAccount playerId).players.remove playerId
      archivedPlayers := (t.erase.releaseStmtAccount playerId).archivedPlayers.insert playerId
        archived.timeless } := by
    intro t
    rw [← erase_releaseStmtAccount]
    simp only [erase, StorageMap.mapValues_insert]
  unfold archive
  split
  · exact hleave { s with world := _ }
  · exact hleave s

theorem erase_keep (playerId : T.PlayerId) (player : Player T.PlayDeposit) :
    (s.keep playerId player).erase = s.erase.keep playerId player := by
  unfold keep
  split
  · have hscore : s.erase.score = s.score := rfl
    rw [hscore]
    split <;> rfl
  · rfl

theorem erase_enactAttendance (game : GameInfo T.PlayerId) (playerCount : Nat) (playerId : T.PlayerId)
    (player : Player T.PlayDeposit) :
    s.erase.enactAttendance (.timeless parentHash) game playerCount playerId player =
      ((s.enactAttendance env game playerCount playerId player).1.erase,
        (s.enactAttendance env game playerCount playerId player).2) := by
  unfold enactAttendance
  split
  · rfl
  · rw [erase_applyAttendance]
    dsimp only
    rw [erase_applyAttendanceToNfts, Env.asSecs_timeless]

theorem erase_processPlayerAttendanceOutcome (game : GameInfo T.PlayerId) (playerCount : Nat)
    (playerId : T.PlayerId) (player : Player T.PlayDeposit) :
    s.erase.processPlayerAttendanceOutcome (.timeless parentHash) game playerCount playerId player =
      ((s.processPlayerAttendanceOutcome env game playerCount playerId player).1.erase,
        (s.processPlayerAttendanceOutcome env game playerCount playerId player).2) := by
  unfold processPlayerAttendanceOutcome
  rw [erase_enactAttendance]
  dsimp only
  refine Prod.ext ?_ rfl
  dsimp only
  split
  · rw [erase_archive]
    rfl
  · rw [erase_archive]
    rfl
  · rw [erase_keep]

/-! ### Settling one player after the other -/

/-- Settle a player, as long as it is there. -/
def settleNext (playerCount : Nat) (w : Store T × GameInfo T.PlayerId) (playerId : T.PlayerId) :
    Store T × GameInfo T.PlayerId :=
  match w.1.players.get playerId with
  | none => w
  | some player =>
    let (s, pendingAttendance) := w.1.processPlayerAttendanceOutcome env w.2 playerCount playerId player
    (s, { w.2 with pendingAttendance := pendingAttendance })

/-- All players that are left, settled in one go. -/
def settleAll (playerCount : Nat) (game : GameInfo T.PlayerId) (playerIds : List T.PlayerId) :
    Store T × GameInfo T.PlayerId :=
  playerIds.foldl (settleNext env playerCount) (s, game)

/-- What the processing of players comes to without a limit. -/
def onePass (playerCount : Nat) (game : GameInfo T.PlayerId) (last : Option T.PlayerId) : Store T :=
  let (s, game) := s.settleAll env playerCount game (s.players.keysAfter T.playerKey last)
  s.endSession.putGame { game with state := .playerProcess .clearIndices }

/-- A store and its game without the times, and without what the game's state is. -/
def bare (w : Store T × GameInfo T.PlayerId) : Store T × GameInfo T.PlayerId :=
  (w.1.erase, { w.2 with state := .playerProcess .clearIndices })

/-- Settling a player comes to the same at any time, and in any state of the game. -/
theorem bare_settleNext (playerCount : Nat) (w : Store T × GameInfo T.PlayerId) (playerId : T.PlayerId) :
    settleNext (.timeless parentHash) playerCount (bare w) playerId =
      bare (settleNext env playerCount w playerId) := by
  have hplayers : (bare w).1.players = w.1.players := rfl
  unfold settleNext
  rw [hplayers]
  split
  · rfl
  · rename_i player _
    have h := w.1.erase_processPlayerAttendanceOutcome env parentHash w.2 playerCount playerId player
    have hstate : (bare w).1.processPlayerAttendanceOutcome (.timeless parentHash) (bare w).2 playerCount playerId
        player = w.1.erase.processPlayerAttendanceOutcome (.timeless parentHash) w.2 playerCount playerId player := rfl
    rw [hstate, h]
    rfl

theorem bare_settleAll (playerCount : Nat) (game : GameInfo T.PlayerId) (playerIds : List T.PlayerId) :
    playerIds.foldl (settleNext (.timeless parentHash) playerCount) (bare (s, game)) =
      bare (s.settleAll env playerCount game playerIds) :=
  List.foldl_hom bare fun w playerId => bare_settleNext env parentHash playerCount w playerId

end Store

/-- Where the processing of players stands: the store and the game, and the last player processed. -/
abbrev Walk (T : Config) : Type := (Store T × GameInfo T.PlayerId) × Option T.PlayerId

namespace Walk
variable (env : Env T) (parentHash : T.Hash) (playerCount : Nat)

/-- The players that are left. -/
def left (w : Walk T) : List T.PlayerId := w.1.1.players.keysAfter T.playerKey w.2

/-- Process the next player. -/
def next (w : Walk T) : Walk T :=
  match w.1.1.players.nextEntry T.playerKey w.2 with
  | none => w
  | some (playerId, _) => (Store.settleNext env playerCount w.1 playerId, some playerId)

/-- `w'` is `w` with the first `n` of the players that were left settled, each of them once. -/
structure Resumed (w w' : Walk T) (n : Nat) : Prop where
  left : w'.left = w.left.drop n
  bare : Store.bare w'.1 = (w.left.take n).foldl (Store.settleNext (.timeless parentHash) playerCount) (Store.bare w.1)

variable {env parentHash playerCount} {w w' w'' : Walk T} {m n : Nat}

namespace Resumed

theorem refl (w : Walk T) : Resumed parentHash playerCount w w 0 := ⟨rfl, rfl⟩

theorem trans (h : Resumed parentHash playerCount w w' m) (h' : Resumed parentHash playerCount w' w'' n) :
    Resumed parentHash playerCount w w'' (m + n) where
  left := by rw [h'.left, h.left, List.drop_drop]
  bare := by rw [h'.bare, h.bare, h.left, List.take_add, List.foldl_append]

end Resumed

/-- Settling a player leaves the other ones where they are. -/
theorem isSome_settleNext (x : Store T × GameInfo T.PlayerId) (playerId : T.PlayerId) {other : T.PlayerId}
    (hother : other ≠ playerId) : ((Store.settleNext env playerCount x playerId).1.players.get other).isSome =
      (x.1.players.get other).isSome := by
  unfold Store.settleNext
  split
  · rfl
  · exact congrArg Option.isSome
      ((x.1.processPlayerAttendanceOutcome_settled env x.2 playerCount playerId _).other other hother)

theorem nextEntry_eq_none_iff : w.1.1.players.nextEntry T.playerKey w.2 = none ↔ w.left = [] := by
  rw [StorageMap.nextEntry_eq_none, StorageMap.nextKey_eq_head, List.head?_eq_none_iff]
  rfl

theorem next_resumed (w : Walk T) : Resumed parentHash playerCount w (w.next env playerCount) 1 := by
  cases hentry : w.1.1.players.nextEntry T.playerKey w.2 with
  | none =>
    have hleft := nextEntry_eq_none_iff.mp hentry
    have hnext : w.next env playerCount = w := by
      rw [next, hentry]
    refine ⟨?_, ?_⟩
    · rw [hnext, hleft]
      rfl
    · rw [hnext, hleft]
      rfl
  | some entry =>
    obtain ⟨playerId, player⟩ := entry
    obtain ⟨hkey, -⟩ := StorageMap.nextEntry_eq_some.mp hentry
    have hnext : w.next env playerCount = (Store.settleNext env playerCount w.1 playerId, some playerId) := by
      rw [next, hentry]
    have hleft : w.left = playerId :: (w.next env playerCount).left := by
      rw [hnext]
      exact StorageMap.keysAfter_of_next T.playerKey_injective hkey fun other hother =>
        isSome_settleNext w.1 playerId hother
    refine ⟨?_, ?_⟩
    · rw [hleft]
      rfl
    · rw [hleft, hnext]
      exact (Store.bare_settleNext env parentHash playerCount w.1 playerId).symm

variable (env) in
theorem iterate_resumed (w : Walk T) (n : Nat) :
    Resumed parentHash playerCount w ((next env playerCount)^[n] w) n := by
  induction n with
  | zero => exact .refl w
  | succ n ih =>
    rw [Function.iterate_succ_apply']
    exact ih.trans (next_resumed _)

/-- What a walk is stored as. -/
def parked (playerCount : Nat) (w : Walk T) : Store T :=
  w.1.1.putGame { w.1.2 with state := .playerProcess (.processPlayers w.2 playerCount) }

/-- What a walk ends as. -/
def finished (w : Walk T) : Store T :=
  w.1.1.endSession.putGame { w.1.2 with state := .playerProcess .clearIndices }

end Walk

/-- A call of one of the two hooks, with the weight that is left in its block. -/
structure HookCall (T : Config) where
  env : Env T
  idle : Bool
  remaining : Weight

/-- The weight that a call has for a game, in a block that is not skipped. -/
def HookCall.meter (c : HookCall T) : Option Weight :=
  if c.env.blockNumber % gameProcessSkippedBlock = 0 then none
  else c.remaining.half.tryConsume T.weights.getGame

namespace Store
variable {s : Store T} {game : GameInfo T.PlayerId} {last : Option T.PlayerId} {playerCount : Nat}

def hook (s : Store T) (c : HookCall T) : Store T :=
  if c.idle then s.onIdle c.env c.remaining else s.onPoll c.env c.remaining

/-- Calls of the hooks one after the other, as long as the game is in a phase. -/
def hooksWhile (phase : GameState T.PlayerId → Bool) : Store T → List (HookCall T) → Store T
  | s, [] => s
  | s, c :: calls => if s.game.any (fun game => phase game.state) then hooksWhile phase (s.hook c) calls else s

theorem hooksWhile_of_not {phase : GameState T.PlayerId → Bool} {s : Store T}
    (h : s.game.any (fun game => phase game.state) = false) (calls : List (HookCall T)) :
    s.hooksWhile phase calls = s := by
  cases calls with
  | nil => rfl
  | cons c calls => rw [hooksWhile, h, if_neg Bool.false_ne_true]

theorem hook_eq (hgame : s.game = some game) (c : HookCall T) :
    s.hook c = match c.remaining.half.tryConsume T.weights.getGame with
      | none => s
      | some meter => s.processGame c.env meter game := by
  unfold hook onIdle onPoll
  rw [hgame]
  split <;> rfl

/-- Both hooks process a game that there is, with the weight that a call has for it. -/
theorem hook_of_game (hgame : s.game = some game) (c : HookCall T) : c.meter = none ∧ s.hook c = s ∨
    ∃ meter, c.meter = some meter ∧ c.env.blockNumber % gameProcessSkippedBlock ≠ 0 ∧
      s.hook c = s.processGame c.env meter game := by
  have hhook := hook_eq hgame c
  by_cases hskipped : c.env.blockNumber % gameProcessSkippedBlock = 0
  · refine .inl ⟨if_pos hskipped, hhook.trans ?_⟩
    split
    · rfl
    · rw [processGame, if_pos hskipped]
  · have hmeter : c.meter = c.remaining.half.tryConsume T.weights.getGame := if_neg hskipped
    rw [hmeter, hhook]
    cases c.remaining.half.tryConsume T.weights.getGame with
    | none => exact .inl ⟨rfl, rfl⟩
    | some meter => exact .inr ⟨meter, rfl, hskipped, rfl⟩

end Store

namespace Walk
variable {env : Env T} {playerCount : Nat}

/-- A walk in the loop over the players. -/
def view (x : Store T × GameInfo T.PlayerId × Option T.PlayerId × Weight) : Walk T := ((x.1, x.2.1), x.2.2.1)

variable (env playerCount) in
/-- A turn settles the next player, or else it changes nothing and the loop stops. -/
theorem view_turn (x : Store T × GameInfo T.PlayerId × Option T.PlayerId × Weight) :
    view (Store.playerProcessTurn env playerCount x).1 = (view x).next env playerCount ∨
      view (Store.playerProcessTurn env playerCount x).1 = view x ∧
        (Store.playerProcessTurn env playerCount x).2 = false := by
  obtain ⟨s, game, last, meter⟩ := x
  unfold Store.playerProcessTurn
  dsimp only
  split
  · exact .inr ⟨rfl, rfl⟩
  · rename_i playerId player hentry
    split
    · exact .inr ⟨rfl, rfl⟩
    · refine .inl ?_
      obtain ⟨-, hplayer⟩ := StorageMap.nextEntry_eq_some.mp hentry
      simp only [view, next, hentry, Store.settleNext, hplayer]

/-- Where a player is left and the weight is there for it, it is settled. -/
theorem view_turn_of_weight {x : Store T × GameInfo T.PlayerId × Option T.PlayerId × Weight}
    (hweight : (x.2.2.2.tryConsume (T.weights.playerProcessStep1AttendedPlayer.max
      T.weights.playerProcessStep1NotAttendedPlayer)).isSome = true) :
    view (Store.playerProcessTurn env playerCount x).1 = (view x).next env playerCount := by
  obtain ⟨s, game, last, meter⟩ := x
  obtain ⟨meter', hmeter⟩ := Option.isSome_iff_exists.mp hweight
  unfold Store.playerProcessTurn
  dsimp only at hmeter ⊢
  split
  · rename_i hnone
    simp only [view, next, hnone]
  · rename_i playerId player hentry
    obtain ⟨-, hplayer⟩ := StorageMap.nextEntry_eq_some.mp hentry
    rw [hmeter]
    simp only [view, next, hentry, Store.settleNext, hplayer]

end Walk

namespace Store
variable {s : Store T} {game : GameInfo T.PlayerId} {last : Option T.PlayerId} {playerCount : Nat}

theorem parked_of_game (hgame : s.game = some game)
    (hstate : game.state = .playerProcess (.processPlayers last playerCount)) :
    Walk.parked playerCount ((s, game), last) = s := by
  have hsame : ({ game with state := .playerProcess (.processPlayers last playerCount) } :
      GameInfo T.PlayerId) = game := by
    rw [← hstate]
  simp only [Walk.parked, hsame]
  cases s
  cases hgame
  rfl

/-- Whether the processing has the weight for a player. -/
def affordsPlayer (T : Config) (meter : Weight) : Bool :=
  ((meter.tryConsume T.weights.playerProcessStep1).bind fun meter =>
    meter.tryConsume (T.weights.playerProcessStep1AttendedPlayer.max
      T.weights.playerProcessStep1NotAttendedPlayer)).isSome

/-- A call of `playerProcessStep1` makes some turns, and ends the processing if nobody is left then. -/
theorem playerProcessStep1_spec (env : Env T) (meter : Weight) (hgame : s.game = some game)
    (hstate : game.state = .playerProcess (.processPlayers last playerCount)) :
    ∃ k w, (Walk.next env playerCount)^[k] ((s, game), last) = w ∧
      ((s.playerProcessStep1 env meter game last playerCount = w.parked playerCount ∧
          (0 < k → w.left ≠ []) ∧ (affordsPlayer T meter = true → 0 < k)) ∨
        (s.playerProcessStep1 env meter game last playerCount = w.finished ∧ w.left = [])) := by
  unfold playerProcessStep1 affordsPlayer
  cases hbase : meter.tryConsume T.weights.playerProcessStep1 with
  | none =>
    exact ⟨0, _, rfl, .inl ⟨(parked_of_game hgame hstate).symm, fun h => absurd h (Nat.lt_irrefl 0), nofun⟩⟩
  | some meter =>
    obtain ⟨k, -, hview, hfirst⟩ := repeatUpTo_steps Walk.view
      (Walk.view_turn env playerCount) opUpperBound (s, game, last, meter)
    dsimp only
    generalize repeatUpTo (playerProcessTurn env playerCount) opUpperBound (s, game, last, meter) = out at hview ⊢
    obtain ⟨t, game', last', rest⟩ := out
    refine ⟨k, ((t, game'), last'), hview.symm, ?_⟩
    dsimp only
    cases hentry : t.players.nextEntry T.playerKey last' with
    | none => exact .inr ⟨rfl, Walk.nextEntry_eq_none_iff.mp hentry⟩
    | some entry =>
      refine .inl ⟨rfl, fun _ hleft => ?_, fun hweight => ?_⟩
      · rw [Walk.nextEntry_eq_none_iff.mpr hleft] at hentry
        cases hentry
      · exact hfirst (by decide) (Walk.view_turn_of_weight hweight)

end Store

def GameState.isProcessing {P : Type} : GameState P → Bool
  | playerProcess (.processPlayers ..) => true
  | _ => false

/-- Whether a call has the weight for a player. -/
def HookCall.affordsPlayer (c : HookCall T) : Bool := c.meter.any (Store.affordsPlayer T)

namespace Store
variable {s : Store T} {game : GameInfo T.PlayerId} {last : Option T.PlayerId} {playerCount : Nat}

/-- What a call of a hook does in the phase. -/
theorem hook_processing (c : HookCall T) (hgame : s.game = some game)
    (hstate : game.state = .playerProcess (.processPlayers last playerCount)) :
    ∃ k w, (Walk.next c.env playerCount)^[k] ((s, game), last) = w ∧
      ((s.hook c = w.parked playerCount ∧ (0 < k → w.left ≠ []) ∧ (c.affordsPlayer = true → 0 < k)) ∨
        (s.hook c = w.finished ∧ w.left = [])) := by
  rcases hook_of_game hgame c with ⟨hmeter, hsame⟩ | ⟨meter, hmeter, hblock, hprocess⟩
  · refine ⟨0, _, rfl, .inl ⟨hsame.trans (parked_of_game hgame hstate).symm, fun h => absurd h (Nat.lt_irrefl 0),
      fun haffords => ?_⟩⟩
    rw [HookCall.affordsPlayer, hmeter] at haffords
    cases haffords
  · rw [processGame, if_neg hblock, hstate] at hprocess
    rw [hprocess, HookCall.affordsPlayer, hmeter]
    exact playerProcessStep1_spec c.env meter hgame hstate

end Store

namespace Walk.Resumed
variable {parentHash : T.Hash} {playerCount n : Nat} {w₀ w : Walk T}

/-- A walk goes on from where it is stored. -/
theorem parked (h : Resumed parentHash playerCount w₀ w n) : Resumed parentHash playerCount w₀
    ((w.parked playerCount, { w.1.2 with state := .playerProcess (.processPlayers w.2 playerCount) }), w.2) n :=
  ⟨h.left, h.bare⟩

end Walk.Resumed

namespace Store
variable {parentHash : T.Hash} {playerCount : Nat} {w₀ : Walk T}

variable (parentHash) in
/-- Calls of the hooks settle the players that are left, each of them once; those that can pay for a
player settle one, as long as there are any. -/
theorem hooksWhile_processing (calls : List (HookCall T)) {s : Store T} {game : GameInfo T.PlayerId}
    {last : Option T.PlayerId} {k : Nat} (hgame : s.game = some game)
    (hstate : game.state = .playerProcess (.processPlayers last playerCount))
    (h : Walk.Resumed parentHash playerCount w₀ ((s, game), last) k) :
    ∃ n w, Walk.Resumed parentHash playerCount w₀ w n ∧
      ((s.hooksWhile GameState.isProcessing calls = w.parked playerCount ∧ (k < n → w.left ≠ []) ∧
          k + calls.countP HookCall.affordsPlayer ≤ n) ∨
        (s.hooksWhile GameState.isProcessing calls = w.finished ∧ w.left = [])) := by
  induction calls generalizing s game last k with
  | nil =>
    exact ⟨k, _, h, .inl ⟨(parked_of_game hgame hstate).symm, fun h => absurd h (Nat.lt_irrefl k), Nat.le_refl k⟩⟩
  | cons c calls ih =>
    have hphase : s.game.any (fun game => game.state.isProcessing) = true := by
      rw [hgame, Option.any_some, hstate]
      rfl
    rw [hooksWhile, if_pos hphase]
    obtain ⟨j, w, hw, hhook⟩ := hook_processing c hgame hstate
    have hresumed := h.trans (Walk.iterate_resumed c.env ((s, game), last) j)
    rw [hw] at hresumed
    rcases hhook with ⟨hparked, hleft, haffords⟩ | ⟨hfinished, hleft⟩
    · rw [hparked]
      obtain ⟨n, w', hw', hend⟩ := ih rfl rfl hresumed.parked
      refine ⟨n, w', hw', hend.imp (fun ⟨heq, hmore, hcount⟩ => ⟨heq, fun hn => ?_, ?_⟩) id⟩
      · rcases Nat.lt_or_ge (k + j) n with hlt | hge
        · exact hmore hlt
        · have hn' : n = k + j := by omega
          rw [hw'.left, hn', ← hresumed.left]
          exact hleft (by omega)
      · rw [List.countP_cons]
        split
        · rename_i hpays
          have := haffords hpays
          omega
        · omega
    · rw [hfinished, hooksWhile_of_not rfl]
      exact ⟨k + j, w, hresumed, .inr ⟨rfl, hleft⟩⟩

/-- Two stores are the same, but for when tokens were minted and players archived. -/
structure SameButTimes (s t : Store T) : Prop where
  rest : t = { s with nfts := t.nfts, archivedPlayers := t.archivedPlayers }
  nfts : t.nfts.keys = s.nfts.keys
  archivedPlayers : ∀ playerId, (t.archivedPlayers.get playerId).map ArchivedPlayer.timeless =
    (s.archivedPlayers.get playerId).map ArchivedPlayer.timeless

theorem sameButTimes_of_erase {s t : Store T} (h : s.erase = t.erase) (hgame : s.game = t.game) :
    SameButTimes s t := by
  have hnfts := congrArg (fun u : Store T => u.nfts.keys) h
  have harchived := congrArg Store.archivedPlayers h
  refine ⟨?_, ?_, fun playerId => ?_⟩
  · cases s
    cases t
    simp only [erase, mk.injEq] at h hgame ⊢
    simp only [h, hgame, and_self]
  · simpa only [erase, StorageMap.keys_mapValues] using hnfts.symm
  · have hget := congrArg (fun m => m.get playerId) harchived
    simpa only [erase, StorageMap.get_mapValues] using hget.symm

/-- What is equal without the times is the same but for the times, in every state of the game. -/
theorem sameButTimes_of_bare {w w' : Store T × GameInfo T.PlayerId} (h : bare w = bare w')
    (state : GameState T.PlayerId) :
    SameButTimes (w.1.putGame { w.2 with state := state }) (w'.1.putGame { w'.2 with state := state }) := by
  have hgame := congrArg (fun x => some { x.2 with state := state }) h
  exact sameButTimes_of_erase (congrArg Prod.fst h) hgame

theorem sameButTimes_endSession {s t : Store T} (h : SameButTimes s t) :
    SameButTimes s.endSession t.endSession := by
  have hend : t.endSession = { s.endSession with nfts := t.nfts, archivedPlayers := t.archivedPlayers } :=
    (congrArg endSession h.rest).trans rfl
  exact ⟨hend, h.nfts, h.archivedPlayers⟩

variable {s : Store T} {game : GameInfo T.PlayerId} {last : Option T.PlayerId}

/-- What calls of the hooks make of the processing of players, compared with one pass over the players that
are left: each of these is settled once and in its turn, as far as the calls get, and after the last one
it is as if there had been one pass. With the weight for as many players as are left, they get to the end. -/
structure SplitProcessing (env : Env T) (s : Store T) (game : GameInfo T.PlayerId) (last : Option T.PlayerId)
    (playerCount : Nat) (calls : List (HookCall T)) : Prop where
  distinct : (s.players.keysAfter T.playerKey last).Nodup
  everyone : ∀ playerId, playerId ∈ s.players.keysAfter T.playerKey none ↔ (s.players.get playerId).isSome = true
  part_or_whole : (∃ n last', (s.hooksWhile GameState.isProcessing calls).players.keysAfter T.playerKey last' =
        (s.players.keysAfter T.playerKey last).drop n ∧
      SameButTimes (s.hooksWhile GameState.isProcessing calls)
        ((s.settleAll env playerCount game ((s.players.keysAfter T.playerKey last).take n)).1.putGame
          { (s.settleAll env playerCount game ((s.players.keysAfter T.playerKey last).take n)).2 with
            state := .playerProcess (.processPlayers last' playerCount) })) ∨
    SameButTimes (s.hooksWhile GameState.isProcessing calls) (s.onePass env playerCount game last)
  whole : max 1 (s.players.keysAfter T.playerKey last).length ≤ calls.countP HookCall.affordsPlayer →
    SameButTimes (s.hooksWhile GameState.isProcessing calls) (s.onePass env playerCount game last)

theorem splitProcessing (env : Env T) (hgame : s.game = some game)
    (hstate : game.state = .playerProcess (.processPlayers last playerCount)) (calls : List (HookCall T)) :
    SplitProcessing env s game last playerCount calls := by
  obtain ⟨n, w, hw, hend⟩ := hooksWhile_processing env.parentHash calls hgame hstate (.refl _)
  have hbare : bare w.1 = bare (s.settleAll env playerCount game ((s.players.keysAfter T.playerKey last).take n)) := by
    rw [hw.bare, ← bare_settleAll env env.parentHash]
    rfl
  have heveryone : ∀ playerId,
      playerId ∈ s.players.keysAfter T.playerKey none ↔ (s.players.get playerId).isSome = true := fun playerId => by
    rw [StorageMap.mem_keysAfter, and_iff_left (StorageMap.passed_none playerId)]
  have hdistinct := s.players.nodup_keysAfter T.playerKey last
  rcases hend with ⟨hparked, hleft, hcount⟩ | ⟨hfinished, hleft⟩
  · refine ⟨hdistinct, heveryone, .inl ⟨n, w.2, ?_, ?_⟩, fun hall => ?_⟩
    · rw [hparked]
      exact hw.left
    · rw [hparked]
      exact sameButTimes_of_bare hbare _
    · have hsome := hleft (by omega)
      rw [hw.left, ne_eq, List.drop_eq_nil_iff] at hsome
      have hlength : (Walk.left ((s, game), last)).length = (s.players.keysAfter T.playerKey last).length := rfl
      omega
  · have hsame : SameButTimes (s.hooksWhile GameState.isProcessing calls) (s.onePass env playerCount game last) := by
      rw [hw.left, List.drop_eq_nil_iff] at hleft
      have htake : (s.players.keysAfter T.playerKey last).take n = s.players.keysAfter T.playerKey last :=
        List.take_of_length_le hleft
      rw [htake] at hbare
      rw [hfinished]
      exact sameButTimes_endSession (sameButTimes_of_bare hbare _)
    exact ⟨hdistinct, heveryone, .inr hsame, fun _ => hsame⟩

end Store
end Individuality.Game
