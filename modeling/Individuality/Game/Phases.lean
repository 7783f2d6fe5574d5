import Individuality.Game.Moves

/-! The rosters of a game, phase by phase.

`Phase` is what holds of the players and of the four maps of the shuffle in each
state of a game, so that what one phase leaves is what the next one needs: the maps
are empty while players register, filled by the shuffle, and empty again when the
game is over, whichever way it ended. A core that meets it in the state it is in is
`Rostered`, and each step keeps that. -/
namespace Individuality.Game
open Support
variable {T : Config}

/-- Whether the shuffle of a game has come by a player. -/
def GameState.hasSeen (state : GameState T.PlayerId) (playerId : T.PlayerId) : Bool :=
  match state with
  | .registration _ => false
  | .shuffle (.insert last) => passed T.playerKey last playerId
  | _ => true

/-- A game as the configuration allows it. -/
structure GameInfo.Sized (game : GameInfo T.PlayerId) : Prop where
  rounds_pos : 0 < game.rounds
  rounds_le : game.rounds ≤ T.maxRounds
  maxGroupSize_le : game.maxGroupSize ≤ T.maxGroupSize

namespace Core

def NobodyStaged (c : Core T) : Prop := ∀ b k, (c.staged b).get k = none

def NobodyRegistered (c : Core T) : Prop := ∀ p, c.isRegistered p = false

/-- Those that a cancelling is through with are not registered and have no indices; no index
stands for anyone that has none. -/
structure Cancelling (c : Core T) (pass : T.PlayerId → Bool) (rounds : Nat) : Prop where
  passed : ∀ p, pass p = true → c.isRegistered p = false ∧ c.playerToIndex.get p = none
  exists_player : ∀ p, (c.playerToIndex.get p).isSome = true → (c.players.get p).isSome = true
  indexed : ∀ r i p, c.indexToPlayer.get (r, i) = some p →
    r < rounds ∧ ∃ indices, c.playerToIndex.get p = some indices ∧ indices.toList[r]? = some i

/-- What holds in each state of a game. -/
def Phase (c : Core T) (note : T.PlayerId → Bool) (game : GameInfo T.PlayerId) : Prop :=
  match game.state with
  | .registration next => c.Clear ∧ next = c.registeredCount ∧ next ≤ U32.max
  | .shuffle (.insert last) =>
    (∀ k, c.indexToPlayer.get k = none) ∧ (∀ p, c.playerToIndex.get p = none) ∧
      c.registeredCount ≤ U32.max ∧ Staging c (passed T.playerKey last) note game.rounds
  | .shuffle (.retrieve next finished) =>
    c.registeredCount ≤ U32.max ∧ Retrieving c note game.rounds (fun _ => next) finished
  | .shuffle (.computeWeights _ n) | .shuffle (.awaitSession n) | .reporting n =>
    Shuffled c note game.rounds n ∧ c.NobodyStaged
  | .playerProcess (.processPlayers last _) =>
    c.NobodyStaged ∧ ∀ p, passed T.playerKey last p = true → c.isRegistered p = false
  | .playerProcess .clearIndices => c.NobodyStaged ∧ c.NobodyRegistered
  | .cancelling last => c.NobodyStaged ∧ c.Cancelling (passed T.playerKey last) game.rounds

/-- The game, if there is one, is in the phase that its state tells. -/
def Rostered (c : Core T) (note : T.PlayerId → Bool) : Prop :=
  match c.game with
  | none => c.Clear ∧ c.NobodyRegistered
  | some game => game.Sized ∧ c.Phase note game

/-- Two cores with the same indices and the same players, registered alike. -/
structure Alike (c c' : Core T) : Prop where
  staged : c'.staged = c.staged
  indexToPlayer : c'.indexToPlayer = c.indexToPlayer
  playerToIndex : c'.playerToIndex = c.playerToIndex
  registered : ∀ p, c'.isRegistered p = c.isRegistered p
  exists_player : ∀ p, (c'.players.get p).isSome = (c.players.get p).isSome

namespace Alike
variable {c c' : Core T} {note note' : T.PlayerId → Bool} {game game' : GameInfo T.PlayerId} {n : Nat}

theorem putGame (c : Core T) (game : GameInfo T.PlayerId) : Alike c (c.putGame game) :=
  ⟨rfl, rfl, rfl, fun _ => rfl, fun _ => rfl⟩

/-- Writing the record of a player that is there, registered as before. -/
theorem putPlayer {who : T.PlayerId} {player player' : Player T.PlayDeposit}
    (hplayer : c.players.get who = some player) (hreg : player'.registered = player.registered) :
    Alike c (c.putPlayer who player') where
  staged := rfl
  indexToPlayer := rfl
  playerToIndex := rfl
  registered p := by
    refine isRegistered_putPlayer_same ?_ p
    unfold isRegistered
    rw [hplayer, hreg]
    rfl
  exists_player p := by
    show ((c.players.insert who player').get p).isSome = _
    rw [StorageMap.get_insert]
    split
    · rename_i heq
      rw [heq, hplayer]
      rfl
    · rfl

theorem clear (h : Alike c c') (hc : c.Clear) : c'.Clear where
  indexToPlayer k := by rw [h.indexToPlayer, hc.indexToPlayer]
  playerToIndex p := by rw [h.playerToIndex, hc.playerToIndex]
  staged b k := by rw [h.staged, hc.staged]

theorem nobodyStaged (h : Alike c c') (hc : c.NobodyStaged) : c'.NobodyStaged := by
  unfold NobodyStaged
  rw [h.staged]
  exact hc

theorem cancelling (h : Alike c c') {pass : T.PlayerId → Bool} {rounds : Nat}
    (hc : c.Cancelling pass rounds) : c'.Cancelling pass rounds where
  passed p hp := by
    rw [h.registered, h.playerToIndex]
    exact hc.passed p hp
  exists_player p hp := by
    rw [h.playerToIndex] at hp
    rw [h.exists_player, hc.exists_player p hp]
  indexed r i p hi := by
    rw [h.indexToPlayer] at hi
    rw [h.playerToIndex]
    exact hc.indexed r i p hi

theorem shuffled (h : Alike c c') {rounds : Nat} (hc : Shuffled c note rounds n) :
    Shuffled c' note rounds n where
  index_isSome := by rw [h.indexToPlayer]; exact hc.index_isSome
  inverse := by rw [h.indexToPlayer, h.playerToIndex]; exact hc.inverse
  registered p := by
    rw [h.registered, h.playerToIndex]
    exact hc.registered p
  indices p := by
    rw [h.registered, h.playerToIndex]
    exact hc.indices p
  count := hc.count.trans (registeredCount_congr h.registered).symm
  first := by rw [h.indexToPlayer]; exact hc.first

/-- What a phase says depends on what two such cores share, and on the notes of the players that
the shuffle has come by. -/
theorem phase (h : Alike c c') (hc : c.Phase note game) (hstate : game'.state = game.state)
    (hrounds : game'.rounds = game.rounds)
    (hnote : ∀ p, game.state.hasSeen p = true → note' p = note p) : c'.Phase note' game' := by
  unfold Phase at hc ⊢
  rw [hstate, hrounds]
  have hcount : c'.registeredCount = c.registeredCount := registeredCount_congr h.registered
  cases hs : game.state with
  | registration next =>
    rw [hs] at hc
    exact ⟨h.clear hc.1, hc.2.1.trans hcount.symm, hc.2.2⟩
  | reporting n =>
    rw [hs] at hc hnote
    cases funext fun p => hnote p rfl
    exact ⟨h.shuffled hc.1, h.nobodyStaged hc.2⟩
  | cancelling last =>
    rw [hs] at hc
    exact ⟨h.nobodyStaged hc.1, h.cancelling hc.2⟩
  | playerProcess step =>
    cases step with
    | processPlayers last n =>
      rw [hs] at hc
      exact ⟨h.nobodyStaged hc.1, fun p hp => (h.registered p).trans (hc.2 p hp)⟩
    | clearIndices =>
      rw [hs] at hc
      exact ⟨h.nobodyStaged hc.1, fun p => (h.registered p).trans (hc.2 p)⟩
  | shuffle step =>
    cases step with
    | insert last =>
      rw [hs] at hc hnote
      simp only
      rw [h.indexToPlayer, h.playerToIndex, hcount]
      exact ⟨hc.1, hc.2.1, hc.2.2.1,
        hc.2.2.2.congr h.staged h.registered (fun _ _ => rfl) fun p _ hp => hnote p hp⟩
    | retrieve next finished =>
      rw [hs] at hc hnote
      simp only
      rw [hcount]
      exact ⟨hc.1, hc.2.congr h.staged h.indexToPlayer h.playerToIndex h.registered
        (fun p => hnote p rfl) fun _ _ => rfl⟩
    | computeWeights last n =>
      rw [hs] at hc hnote
      cases funext fun p => hnote p rfl
      exact ⟨h.shuffled hc.1, h.nobodyStaged hc.2⟩
    | awaitSession n =>
      rw [hs] at hc hnote
      cases funext fun p => hnote p rfl
      exact ⟨h.shuffled hc.1, h.nobodyStaged hc.2⟩

end Alike
end Core
end Individuality.Game
