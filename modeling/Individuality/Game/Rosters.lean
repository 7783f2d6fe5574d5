import Individuality.Game.Phases
import Mathlib.Data.Set.Function

/-! The shuffle is a bijection in every game of a run.

Each step keeps a core rostered, with the recognition that the shuffle found noted
beside it (`noteRecognition`). A run is confined to orderly calls: a shuffle that
misses its deadline while players are staged would leave them staged for the next
game, as the cancelling does not look at what is staged. -/
namespace Individuality.Game
open Support
variable {T : Config}

namespace Store

/-- Whether the shuffle of the current game has come by a player. -/
def hasSeen (s : Store T) (playerId : T.PlayerId) : Bool :=
  s.game.any fun game => game.state.hasSeen playerId

/-- The note of who was recognized when the shuffle came by. -/
def noteRecognition (s : Store T) (_ : Action T) (s' : Store T) (note : T.PlayerId → Bool)
    (playerId : T.PlayerId) : Bool :=
  if s'.hasSeen playerId && !s.hasSeen playerId then s.score.reachedPersonhood playerId
  else note playerId

variable {env : Env T} {s t : Store T} {game game' : GameInfo T.PlayerId} {note : T.PlayerId → Bool}

open Core (Phase Alike)

/-! ### A move of the shuffle -/

theorem mutatePlayer_alike (s : Store T) (who : T.PlayerId)
    {f : Player T.PlayDeposit → Player T.PlayDeposit}
    (hf : ∀ player, (f player).registered = player.registered) :
    Alike s.core (s.mutatePlayer who f).core := by
  cases hp : s.players.get who with
  | none =>
    unfold mutatePlayer
    rw [hp]
    exact ⟨rfl, rfl, rfl, fun _ => rfl, fun _ => rfl⟩
  | some player =>
    rw [core_mutatePlayer s hp]
    exact Alike.putPlayer hp (hf player)

/-- The walk that stages players is through with one more. -/
theorem passed_next {last : Option T.PlayerId} {who : T.PlayerId}
    (hnext : s.players.nextKey T.playerKey last = some who) {p : T.PlayerId}
    (hreg : s.core.isRegistered p = true) :
    passed T.playerKey (some who) p = (passed T.playerKey last p || p == who) := by
  obtain ⟨player, hplayer, -⟩ := s.core.isRegistered_iff.mp hreg
  have hsome : (s.players.get p).isSome = true := by rw [← core_players, hplayer]; rfl
  rw [Bool.eq_iff_iff, StorageMap.passed_of_next T.playerKey_injective hnext hsome, Bool.or_eq_true,
    beq_iff_eq]

/-- Those not come by yet are noted as they will be found. -/
def NotedAhead (s : Store T) (game : GameInfo T.PlayerId) (note : T.PlayerId → Bool) : Prop :=
  ∀ p, game.state.hasSeen p = false → note p = s.score.reachedPersonhood p

theorem notedAhead_of_seen (h : ∀ p, game.state.hasSeen p = true) : NotedAhead s game note := by
  intro p hp
  rw [h p] at hp
  cases hp

/-- A note with those to come by in it already. -/
def aheadNote (s : Store T) (game : GameInfo T.PlayerId) (note : T.PlayerId → Bool)
    (playerId : T.PlayerId) : Bool :=
  if game.state.hasSeen playerId then note playerId else s.score.reachedPersonhood playerId

theorem aheadNote_of_seen {p : T.PlayerId} (h : game.state.hasSeen p = true) :
    s.aheadNote game note p = note p := if_pos h

theorem notedAhead_aheadNote (s : Store T) (game : GameInfo T.PlayerId) (note : T.PlayerId → Bool) :
    NotedAhead s game (s.aheadNote game note) := by
  intro p hp
  exact if_neg (by rw [hp]; exact Bool.false_ne_true)

theorem phase_aheadNote (h : Phase s.core note game) : Phase s.core (s.aheadNote game note) game := by
  have halike : Alike s.core s.core := ⟨rfl, rfl, rfl, fun _ => rfl, fun _ => rfl⟩
  exact halike.phase h rfl rfl fun p hp => aheadNote_of_seen hp

/-- A walk that has come further has fewer to come by. -/
theorem NotedAhead.next {last : Option T.PlayerId} {who : T.PlayerId} (h : NotedAhead s game note)
    (hstate : game.state = .shuffle (.insert last))
    (hnext : s.players.nextKey T.playerKey last = some who) (hscore : t.score = s.score)
    (hstate' : game'.state = .shuffle (.insert (some who))) : NotedAhead t game' note := by
  intro p hp
  rw [hscore]
  refine h p ?_
  rw [hstate'] at hp
  rw [hstate]
  cases hseen : GameState.hasSeen (.shuffle (.insert last)) p with
  | false => rfl
  | true =>
    have hlater : GameState.hasSeen (.shuffle (.insert (some who))) p = true :=
      StorageMap.passed_mono hnext hseen
    rw [hlater] at hp
    cases hp

theorem Move.phase (hfree : T.CollisionFree) (hsized : game.Sized) (h : Phase s.core note game)
    (hnote : NotedAhead s game note) (hmove : Move env s game t game') :
    Phase t.core note game' ∧ game'.Sized ∧ NotedAhead t game' note := by
  unfold Phase at h
  cases hmove with
  | skipped last who hstate hnext hnot =>
    rw [hstate] at h
    obtain ⟨hitop, hptoi, hcount, hstaging⟩ := h
    refine ⟨⟨hitop, hptoi, hcount, ?_⟩, ⟨hsized.1, hsized.2, hsized.3⟩,
      hnote.next hstate hnext rfl rfl⟩
    refine hstaging.congr rfl (fun _ => rfl) (fun p hreg => ?_) fun _ _ _ => rfl
    rw [passed_next hnext hreg]
    cases hp : p == who with
    | false => exact Bool.or_false _
    | true =>
      rw [eq_of_beq hp, hnot] at hreg
      cases hreg
  | staged last who player t pendingAttendance hstate hnext hplayer hreg hcore hadded hscore =>
    rw [hstate] at h
    obtain ⟨hitop, hptoi, hcount, hstaging⟩ := h
    have hnot := (StorageMap.nextKey_mem hnext).2
    have hfound : note who = s.score.reachedPersonhood who := by
      refine hnote who ?_
      rw [hstate]
      exact hnot
    have hwho : s.core.isRegistered who = true := s.core.isRegistered_iff.mpr ⟨player, hplayer, hreg⟩
    have hplayers : ∀ p, t.core.isRegistered p = s.core.isRegistered p := by
      intro p
      have hsame : ({ player with voteWeight := T.voteWeight (s.score.reachedPersonhood who) } :
          Player T.PlayDeposit).registered = s.core.isRegistered who := hreg.trans hwho.symm
      rw [hcore]
      exact Core.isRegistered_putPlayer_same hsame p
    have hitop' : t.core.indexToPlayer = s.core.indexToPlayer := by rw [hcore]; rfl
    have hptoi' : t.core.playerToIndex = s.core.playerToIndex := by rw [hcore]; rfl
    rw [← hfound] at hadded
    have hstaged := hstaging.stage hfree hplayers hwho hnot hadded
    refine ⟨?_, ⟨hsized.1, hsized.2, hsized.3⟩, hnote.next hstate hnext hscore rfl⟩
    unfold Phase
    simp only
    rw [hitop', hptoi', Core.registeredCount_congr hplayers]
    refine ⟨hitop, hptoi, hcount, ?_⟩
    refine hstaged.congr rfl (fun _ => rfl) (fun p hp => ?_) fun _ _ _ => rfl
    rw [hplayers] at hp
    exact passed_next hnext hp
  | allStaged last hstate hnone =>
    rw [hstate] at h
    obtain ⟨hitop, hptoi, hcount, hstaging⟩ := h
    refine ⟨⟨hcount, Retrieving.start hstaging (fun p hp => ?_) hitop hptoi⟩,
      ⟨hsized.1, hsized.2, hsized.3⟩, notedAhead_of_seen fun _ => rfl⟩
    obtain ⟨player, hplayer, -⟩ := s.core.isRegistered_iff.mp hp
    exact StorageMap.nextKey_eq_none.mp hnone p (by rw [← core_players, hplayer]; rfl)
  | retrieved next next' finished finished' t hstate hout =>
    rw [hstate] at h
    obtain ⟨hplayers, -, hsome, -⟩ :=
      shuffleStepRetrieve_spec hsized.rounds_le hsized.rounds_pos h.1 h.2 hout
    have hcount : t.core.registeredCount = s.core.registeredCount := by
      unfold Core.registeredCount
      rw [core_players, core_players, hplayers]
    exact ⟨⟨hcount.le.trans h.1, hsome next' finished' rfl⟩, ⟨hsized.1, hsized.2, hsized.3⟩,
      notedAhead_of_seen fun _ => rfl⟩
  | allRetrieved next finished t hstate hout =>
    rw [hstate] at h
    obtain ⟨-, -, -, hnone⟩ := shuffleStepRetrieve_spec hsized.rounds_le hsized.rounds_pos h.1 h.2 hout
    exact ⟨hnone rfl, ⟨hsized.1, hsized.2, hsized.3⟩, notedAhead_of_seen fun _ => rfl⟩
  | weighed last n who indices hstate hnext hindices =>
    rw [hstate] at h
    have halike : Alike s.core (s.mutatePlayer who fun player =>
        { player with
          expectedMaxVoteWeight :=
            U16.saturatedFrom (s.totalWeight ⟨game.maxGroupSize, n⟩ game.rounds indices.toList) }).core :=
      mutatePlayer_alike s who fun _ => rfl
    exact ⟨⟨halike.shuffled h.1, halike.nobodyStaged h.2⟩, ⟨hsized.1, hsized.2, hsized.3⟩,
      notedAhead_of_seen fun _ => rfl⟩
  | allWeighed last n hstate hnone =>
    rw [hstate] at h
    exact ⟨h, ⟨hsized.1, hsized.2, hsized.3⟩, notedAhead_of_seen fun _ => rfl⟩
  | awaited n t hstate hcore =>
    rw [hcore]
    refine ⟨?_, hsized, notedAhead_of_seen fun p => by rw [hstate]; rfl⟩
    unfold Phase
    exact h
  | opened n t hstate hcore =>
    rw [hstate] at h
    rw [hcore]
    exact ⟨h, ⟨hsized.1, hsized.2, hsized.3⟩, notedAhead_of_seen fun _ => rfl⟩

/-! ### The other loops -/

/-- Settling the next player: those that the walk is through with are not registered. -/
theorem Settled.passed {c : Core T} {who : T.PlayerId} {last : Option T.PlayerId}
    (hset : Settled s.core c who) (hnext : s.players.nextKey T.playerKey last = some who)
    (h : ∀ p, Support.passed T.playerKey last p = true → s.core.isRegistered p = false) (p : T.PlayerId)
    (hp : Support.passed T.playerKey (some who) p = true) : c.isRegistered p = false := by
  by_cases heq : p = who
  · rw [heq, hset.settled]
  · have hsame : c.isRegistered p = s.core.isRegistered p := by
      unfold Core.isRegistered
      rw [hset.other p heq]
    rw [hsame]
    cases hreg : s.core.isRegistered p with
    | false => rfl
    | true =>
      rw [passed_next hnext hreg, beq_eq_false_iff_ne.mpr heq, Bool.or_false] at hp
      rw [h p hp] at hreg
      cases hreg

/-- What the processing of players keeps: the shuffle's maps, and who is settled. -/
structure Processing (s : Store T) (game : GameInfo T.PlayerId) (t : Store T)
    (game' : GameInfo T.PlayerId) (last : Option T.PlayerId) : Prop where
  staged : t.core.staged = s.core.staged
  state : game'.state = game.state
  sized : game'.Sized
  settled : ∀ p, passed T.playerKey last p = true → t.core.isRegistered p = false

theorem playerProcess_spec (env : Env T) {last : Option T.PlayerId} (n : Nat) (meter : Weight) (bound : Nat)
    (hsized : game.Sized) (h : ∀ p, passed T.playerKey last p = true → s.core.isRegistered p = false) :
    Processing s game (repeatUpTo (playerProcessTurn env n) bound (s, game, last, meter)).1
      (repeatUpTo (playerProcessTurn env n) bound (s, game, last, meter)).2.1
      (repeatUpTo (playerProcessTurn env n) bound (s, game, last, meter)).2.2.1 := by
  refine repeatUpTo_induction
    (P := fun out : Store T × GameInfo T.PlayerId × Option T.PlayerId × Weight =>
      Processing s game out.1 out.2.1 out.2.2.1) ⟨rfl, rfl, hsized, h⟩ (fun out hout => ?_) bound
  obtain ⟨t, game', last', meter'⟩ := out
  rcases playerProcessTurn_spec env t game' n last' meter' with
    heq | ⟨who, u, pendingAttendance, meter'', hnext, hset, heq⟩
  · rw [heq]
    exact hout
  · rw [heq]
    have hstaged : u.core.staged = t.core.staged := by rw [hset.rest]
    exact ⟨hstaged.trans hout.staged, hout.state,
      ⟨hout.sized.1, hout.sized.2, hout.sized.3⟩, hset.passed hnext hout.settled⟩

/-- Cancelling the next player takes its registration and its indices. -/
theorem takeIndices_cancelling {last : Option T.PlayerId} {who : T.PlayerId}
    {player : Player T.PlayDeposit} {rounds : Nat}
    (hnext : s.players.nextKey T.playerKey last = some who) (hplayer : s.players.get who = some player)
    (h : s.core.Cancelling (passed T.playerKey last) rounds) :
    ((s.putPlayer who player.reset).takeIndices who rounds).core.Cancelling
      (passed T.playerKey (some who)) rounds := by
  obtain ⟨hcore, hitop⟩ := takeIndices_spec (s.putPlayer who player.reset) who rounds
  have hset := settled_putPlayer s.core who player.reset rfl
  have hptoi : ∀ p, ((s.putPlayer who player.reset).takeIndices who rounds).core.playerToIndex.get p =
      if p = who then none else s.playerToIndex.get p := by
    intro p
    rw [hcore]
    exact StorageMap.get_remove s.playerToIndex who p
  have hreg : ∀ p, ((s.putPlayer who player.reset).takeIndices who rounds).core.isRegistered p =
      (s.core.putPlayer who player.reset).isRegistered p := by
    intro p
    rw [hcore]
    rfl
  refine ⟨fun p hp => ⟨?_, ?_⟩, fun p hp => ?_, fun r i p hi => ?_⟩
  · rw [hreg]
    exact hset.passed hnext (fun p hp => (h.passed p hp).1) p hp
  · rw [hptoi]
    by_cases heq : p = who
    · rw [if_pos heq]
    · rw [if_neg heq]
      cases hget : s.playerToIndex.get p with
      | none => rfl
      | some indices =>
        have hsome : (s.players.get p).isSome = true :=
          h.exists_player p (by rw [core_playerToIndex, hget]; rfl)
        rcases (StorageMap.passed_of_next T.playerKey_injective hnext hsome).mp hp with hlast | hwho
        · rw [← hget]
          exact (h.passed p hlast).2
        · exact absurd hwho heq
  · rw [hptoi] at hp
    rw [hcore]
    show ((s.players.insert who player.reset).get p).isSome = true
    rw [StorageMap.get_insert]
    by_cases heq : p = who
    · rw [if_pos heq]
      rfl
    · rw [if_neg heq] at hp ⊢
      exact h.exists_player p hp
  · rw [core_indexToPlayer, hitop] at hi
    split at hi
    · cases hi
    · rename_i hkeep
      obtain ⟨hr, indices, hindices, hget⟩ := h.indexed r i p hi
      refine ⟨hr, indices, ?_, hget⟩
      rw [hptoi, if_neg]
      · exact hindices
      · rintro rfl
        exact hkeep ⟨hr, indices, hindices, hget⟩

/-- A cancelling goes on; where it finishes, nothing is left and nobody is registered. -/
theorem cancelling_spec {last : Option T.PlayerId} {rounds : Nat} (meter : Weight) (bound : Nat)
    (hnobody : s.core.NobodyStaged) (h : s.core.Cancelling (passed T.playerKey last) rounds)
    {out : Store T × Option T.PlayerId × Weight × Bool}
    (hout : repeatUpTo (cancellingTurn rounds) bound (s, last, meter, false) = out) :
    out.1.core.NobodyStaged ∧ out.1.core.Cancelling (passed T.playerKey out.2.1) rounds ∧
      (out.2.2.2 = true → ∀ p, (out.1.players.get p).isSome = true →
        passed T.playerKey out.2.1 p = true) := by
  rw [← hout]
  refine repeatUpTo_induction (P := fun out : Store T × Option T.PlayerId × Weight × Bool =>
    out.1.core.NobodyStaged ∧ out.1.core.Cancelling (passed T.playerKey out.2.1) rounds ∧
      (out.2.2.2 = true → ∀ p, (out.1.players.get p).isSome = true →
        passed T.playerKey out.2.1 p = true)) ⟨hnobody, h, fun hnot => Bool.noConfusion hnot⟩ (fun out hturn => ?_) bound
  obtain ⟨t, last', meter', finished⟩ := out
  obtain ⟨hstaged, hcancelling, hfinished⟩ := hturn
  rcases cancellingTurn_spec t rounds last' meter' finished with
    heq | ⟨who, player, meter'', hnext, hplayer, heq⟩ | ⟨hnone, meter'', heq⟩
  · rw [heq]
    exact ⟨hstaged, hcancelling, hfinished⟩
  · rw [heq]
    refine ⟨?_, takeIndices_cancelling hnext hplayer hcancelling, fun hnot => Bool.noConfusion hnot⟩
    have hcore := (takeIndices_spec (t.putPlayer who player.reset) who rounds).1
    unfold Core.NobodyStaged
    rw [hcore]
    exact hstaged
  · rw [heq]
    exact ⟨hstaged, hcancelling, fun _ p hp => StorageMap.nextKey_eq_none.mp hnone p hp⟩

/-- Once everyone is cancelled, nothing is left. -/
theorem clear_of_cancelled {c : Core T} {pass : T.PlayerId → Bool} {rounds : Nat}
    (hnobody : c.NobodyStaged) (h : c.Cancelling pass rounds)
    (hall : ∀ p, (c.players.get p).isSome = true → pass p = true) :
    c.Clear ∧ c.NobodyRegistered := by
  have hptoi : ∀ p, c.playerToIndex.get p = none := by
    intro p
    cases hp : c.playerToIndex.get p with
    | none => rfl
    | some indices =>
      rw [← hp]
      exact (h.passed p (hall p (h.exists_player p (by rw [hp]; rfl)))).2
  refine ⟨⟨fun k => ?_, hptoi, hnobody⟩, fun p => ?_⟩
  · cases hk : c.indexToPlayer.get k with
    | none => rfl
    | some p =>
      obtain ⟨-, indices, hindices, -⟩ := h.indexed k.1 k.2 p hk
      rw [hptoi] at hindices
      cases hindices
  · cases hreg : c.isRegistered p with
    | false => rfl
    | true =>
      obtain ⟨player, hplayer, -⟩ := c.isRegistered_iff.mp hreg
      rw [(h.passed p (hall p (by rw [hplayer]; rfl))).1] at hreg
      cases hreg

/-! ### Reports -/

section Reported
variable {s' : Store T} {who : T.PlayerId} {n : Nat} {player : Player T.PlayDeposit}
  {indices : BoundedVec PlayerIndex T.maxRounds}
  {players : StorageMap T.PlayerId (Player T.PlayDeposit)}

/-- Votes and early enactments change no registration. -/
theorem Reported.alike (h : Reported s s' who game n player indices players) :
    Alike s.core s'.core where
  staged := h.enacted.staged
  indexToPlayer := h.enacted.indexToPlayer
  playerToIndex := h.enacted.playerToIndex
  registered p := by
    unfold Core.isRegistered
    rw [core_players, core_players]
    cases hp : s.players.get p with
    | none => rw [h.get_none hp]
    | some other =>
      obtain ⟨other', yes, no, hother', hballot, -⟩ := h.get_some hp
      have hreg : other'.ballot.registered = other.registered := by rw [hballot]; rfl
      rw [hother']
      exact hreg
  exists_player p := by
    rw [core_players, core_players]
    cases hp : s.players.get p with
    | none => rw [h.get_none hp]
    | some other =>
      obtain ⟨other', yes, no, hother', -⟩ := h.get_some hp
      rw [hother']
      rfl

theorem Reported.exists_game (h : Reported s s' who game n player indices players) :
    ∃ game', s'.game = some game' ∧ game'.setting = game.setting := by
  have hgame := h.enacted.game
  rw [core_game, show Option.map GameInfo.setting s.core.game = some game.setting by
    rw [core_game, h.game_eq]; rfl] at hgame
  exact Option.map_eq_some_iff.mp hgame

end Reported

/-! ### Runs -/

theorem noteRecognition_of_seen {a : Action T} {s' : Store T} {p : T.PlayerId}
    (h : s.hasSeen p = true) : noteRecognition s a s' note p = note p := by
  unfold noteRecognition
  rw [h, Bool.not_true, Bool.and_false, if_neg Bool.false_ne_true]

/-- Everything that a step of the shuffle makes a player be noted by was found before it. -/
theorem shuffled_rostered {a : Action T} {meter : Weight}
    {out : Store T × GameInfo T.PlayerId × Weight} {s' : Store T} (hfree : T.CollisionFree)
    (hgame : s.game = some game) (hsized : game.Sized) (h : Phase s.core note game)
    (hloop : repeatUpTo (shuffleTurn env) opUpperBound (s, game, meter) = out)
    (hcore : s'.core = out.1.core.putGame out.2.1) :
    s'.core.Rostered (noteRecognition s a s' note) := by
  have hout := shuffles_induction env meter
    (P := fun t g => Phase t.core (s.aheadNote game note) g ∧ g.Sized ∧
      NotedAhead t g (s.aheadNote game note))
    ⟨phase_aheadNote h, hsized, notedAhead_aheadNote s game note⟩
    (fun t g t' g' ⟨hphase, hs, hn⟩ hmove => hmove.phase hfree hs hphase hn) opUpperBound
  rw [hloop] at hout
  obtain ⟨hphase, hs, -⟩ := hout
  have hgame' : s'.game = some out.2.1 := congrArg Core.game hcore
  unfold Core.Rostered
  rw [hcore]
  refine ⟨hs, (Alike.putGame out.1.core out.2.1).phase hphase rfl rfl fun p hp => ?_⟩
  unfold noteRecognition hasSeen
  rw [hgame', hgame, Option.any_some, Option.any_some, hp, Bool.true_and]
  cases hseen : game.state.hasSeen p with
  | true =>
    rw [Bool.not_true, if_neg Bool.false_ne_true]
    exact (if_pos hseen).symm
  | false =>
    rw [Bool.not_false, if_pos rfl]
    exact (if_neg (by rw [hseen]; exact Bool.false_ne_true)).symm

/-- A game may be cancelled while nobody is staged, as all that is indexed then belongs to players. -/
theorem cancelled_phase (h : Phase s.core note game)
    (hstate : game.state.isRegistration = true ∨
      (∃ step, game.state = .shuffle step) ∧ ∀ b k, (s.core.staged b).get k = none)
    {note' : T.PlayerId → Bool} :
    Phase (s.core.putGame { game with state := .cancelling none }) note'
      { game with state := .cancelling none } := by
  have hempty : s.core.NobodyStaged → (∀ k, s.core.indexToPlayer.get k = none) →
      (∀ p, s.core.playerToIndex.get p = none) →
      Phase (s.core.putGame { game with state := .cancelling none }) note'
        { game with state := .cancelling none } := by
    intro hnobody hitop hptoi
    refine ⟨hnobody, ⟨fun p hp => (by cases hp), fun p hp => ?_, fun r i p hi => ?_⟩⟩
    · rw [show (s.core.putGame _).playerToIndex.get p = _ from hptoi p] at hp
      cases hp
    · rw [show (s.core.putGame _).indexToPlayer.get (r, i) = _ from hitop (r, i)] at hi
      cases hi
  have hshuffled : ∀ n, s.core.NobodyStaged → Shuffled s.core note game.rounds n →
      Phase (s.core.putGame { game with state := .cancelling none }) note'
        { game with state := .cancelling none } := by
    intro n hnobody hc
    refine ⟨hnobody, ⟨fun p hp => (by cases hp), fun p hp => ?_, fun r i p hi => ?_⟩⟩
    · have hreg : s.core.isRegistered p = true := by
        cases hreg : s.core.isRegistered p with
        | true => rfl
        | false =>
          rw [show (s.core.putGame _).playerToIndex.get p = _ from hc.indices p hreg] at hp
          cases hp
      obtain ⟨player, hplayer, -⟩ := s.core.isRegistered_iff.mp hreg
      show (s.core.players.get p).isSome = true
      rw [hplayer]
      rfl
    · exact ⟨((hc.index_isSome r i).mp (by rw [show s.core.indexToPlayer.get (r, i) = _ from hi]; rfl)).1,
        (hc.inverse r i p).mp hi⟩
  unfold Phase at h
  rcases hstate with hstate | ⟨⟨step, hstate⟩, hnobody⟩
  · cases hs : game.state with
    | registration next =>
      rw [hs] at h
      exact hempty h.1.staged h.1.indexToPlayer h.1.playerToIndex
    | _ =>
      rw [hs] at hstate
      cases hstate
  · rw [hstate] at h
    cases step with
    | insert last => exact hempty hnobody h.1 h.2.1
    | retrieve next finished =>
      refine ⟨hnobody, ⟨fun p hp => (by cases hp), fun p hp => ?_, fun r i p hi => ?_⟩⟩
      · obtain ⟨indices, hindices⟩ := Option.isSome_iff_exists.mp hp
        obtain ⟨player, hplayer, -⟩ := s.core.isRegistered_iff.mp (h.2.indices p indices hindices).1
        show (s.core.players.get p).isSome = true
        rw [hplayer]
        rfl
      · obtain ⟨hr, -, hindices⟩ := h.2.indexed r i p hi
        exact ⟨hr, hindices⟩
    | computeWeights last n => exact hshuffled n hnobody h.1
    | awaitSession n => exact hshuffled n hnobody h.1

/-- A step keeps a core rostered. -/
theorem Step.rostered {a : Action T} {s' : Store T} (hfree : T.CollisionFree)
    (h : s.core.Rostered note) (hstep : Step env s s') :
    s'.core.Rostered (noteRecognition s a s' note) := by
  unfold Core.Rostered at h ⊢
  cases hstep with
  | quiet hcore =>
    have hgame : s'.game = s.game := congrArg Core.game hcore
    rw [hcore]
    cases hg : s.core.game with
    | none =>
      rw [hg] at h
      exact h
    | some game =>
      rw [hg] at h
      have halike : Alike s.core s.core := ⟨rfl, rfl, rfl, fun _ => rfl, fun _ => rfl⟩
      refine ⟨h.1, halike.phase h.2 rfl rfl fun p hp => noteRecognition_of_seen ?_⟩
      unfold hasSeen
      rw [← core_game, hg]
      exact hp
  | signedUp game next who firstGame credibility hgame hstate hroom hnew hcore =>
    rw [core_game, hgame] at h
    obtain ⟨hsized, hphase⟩ := h
    unfold Phase at hphase
    rw [hstate] at hphase
    obtain ⟨hclear, hcount, hle⟩ := hphase
    have hlt : next + 1 ≤ U32.max := by omega
    rw [hcore]
    refine ⟨⟨hsized.1, hsized.2, hsized.3⟩, ⟨⟨hclear.1, hclear.2, hclear.3⟩, ?_, ?_⟩⟩
    · rw [U32.saturatingInc_eq hlt, hcount]
      have hinsert := s.players.countOf_insert (fun _ player => player.registered) who
        (.fresh true firstGame credibility)
      have hnot : s.players.countAt (fun _ player => player.registered) who = 0 := by
        unfold Core.isRegistered at hnew
        rw [core_players] at hnew
        unfold StorageMap.countAt
        cases hp : s.players.get who with
        | none => rfl
        | some player =>
          rw [hp] at hnew
          exact if_neg (by rw [hnew]; exact Bool.false_ne_true)
      rw [hnot] at hinsert
      exact hinsert.symm
    · rw [U32.saturatingInc_eq hlt]
      exact hlt
  | offboarded who hgame hnot hcore =>
    have hreg : ∀ p, s'.core.isRegistered p = s.core.isRegistered p := by
      intro p
      rw [hcore]
      by_cases heq : p = who
      · rw [heq, hnot]
        unfold Core.isRegistered
        rw [StorageMap.get_remove, if_pos rfl]
        rfl
      · unfold Core.isRegistered
        rw [StorageMap.get_remove, if_neg heq]
        rfl
    have hcount := Core.registeredCount_congr hreg
    rw [hcore] at hreg hcount ⊢
    cases hg : s.core.game with
    | none =>
      rw [hg] at h
      exact ⟨⟨h.1.1, h.1.2, h.1.3⟩, fun p => (hreg p).trans (h.2 p)⟩
    | some game =>
      rw [hg] at h
      have hregistration := hgame game hg
      cases hs : game.state with
      | registration next =>
        obtain ⟨hsized, hphase⟩ := h
        unfold Phase at hphase
        rw [hs] at hphase
        refine ⟨hsized, ?_⟩
        unfold Phase
        rw [hs]
        exact ⟨⟨hphase.1.1, hphase.1.2, hphase.1.3⟩, hphase.2.1.trans hcount.symm, hphase.2.2⟩
      | _ =>
        rw [hs] at hregistration
        cases hregistration
  | reported who game n player indices players hreported =>
    rw [core_game, hreported.game_eq] at h
    obtain ⟨hsized, hphase⟩ := h
    have halike : Alike s.core s'.core := hreported.alike
    obtain ⟨game', hgame', hsetting⟩ := hreported.exists_game
    rw [core_game, hgame']
    obtain ⟨hstate, hrounds, hgroup⟩ := GameInfo.eq_of_setting_eq hsetting
    refine ⟨⟨hrounds ▸ hsized.1, hrounds ▸ hsized.2, hgroup ▸ hsized.3⟩,
      halike.phase hphase hstate hrounds fun p _ => noteRecognition_of_seen ?_⟩
    unfold hasSeen
    rw [hreported.game_eq, Option.any_some, hreported.state_eq]
    rfl
  | killed hclear hgame hplayers =>
    rw [core_game, hgame]
    refine ⟨hclear, fun p => ?_⟩
    unfold Core.isRegistered
    rw [core_players, hplayers]
    cases s.players.get p <;> rfl
  | started game hnone hstate hrounds hmax hgroup hcore =>
    rw [core_game, hnone] at h
    obtain ⟨hclear, hnobody⟩ := h
    rw [hcore]
    refine ⟨⟨hrounds, hmax, hgroup⟩, ?_⟩
    unfold Phase
    rw [hstate]
    refine ⟨⟨hclear.1, hclear.2, hclear.3⟩, ?_, Nat.zero_le _⟩
    have hcount : s.core.registeredCount = 0 := by
      rw [← s.core.countWhere_false, Core.countWhere_eq_registeredCount fun p hp => ?_]
      rw [hnobody p] at hp
      cases hp
    exact hcount.symm
  | shuffleStarted game next registrationEnds hgame hstate hcore =>
    rw [core_game, hgame] at h
    obtain ⟨hsized, hphase⟩ := h
    unfold Phase at hphase
    rw [hstate] at hphase
    obtain ⟨hclear, hcount, hle⟩ := hphase
    rw [hcore]
    refine ⟨⟨hsized.1, hsized.2, hsized.3⟩, hclear.1, hclear.2, ?_, ?_⟩
    · show s.core.registeredCount ≤ U32.max
      exact hcount ▸ hle
    · exact Staging.start (c := s.core.putGame _) ⟨hclear.1, hclear.2, hclear.3⟩ _ _
  | cancelled game hgame hstate hcore =>
    rw [core_game, hgame] at h
    obtain ⟨hsized, hphase⟩ := h
    rw [hcore]
    refine ⟨⟨hsized.1, hsized.2, hsized.3⟩, ?_⟩
    exact cancelled_phase hphase hstate
  | shuffled game step meter out hgame hstate hloop hcore =>
    rw [core_game, hgame] at h
    exact shuffled_rostered hfree hgame h.1 h.2 hloop hcore
  | reportingEnded game n reportEnds shuffleDeadline gameDate hgame hstate hcore =>
    rw [core_game, hgame] at h
    obtain ⟨hsized, hphase⟩ := h
    unfold Phase at hphase
    rw [hstate] at hphase
    rw [hcore]
    refine ⟨⟨hsized.1, hsized.2, hsized.3⟩, hphase.2, fun p hp => ?_⟩
    cases hp
  | processed game last n meter out hgame hstate hloop hcore =>
    rw [core_game, hgame] at h
    obtain ⟨hsized, hphase⟩ := h
    unfold Phase at hphase
    rw [hstate] at hphase
    have hout := playerProcess_spec env n meter opUpperBound hsized hphase.2
    rw [hloop] at hout
    have hnobody : out.1.core.NobodyStaged := by
      unfold Core.NobodyStaged
      rw [hout.staged]
      exact hphase.1
    rcases hcore with ⟨hnone, hcore⟩ | hcore
    · rw [hcore]
      refine ⟨⟨hout.sized.1, hout.sized.2, hout.sized.3⟩, hnobody, fun p => ?_⟩
      cases hreg : out.1.core.isRegistered p with
      | false => exact hreg
      | true =>
        obtain ⟨player, hplayer, -⟩ := out.1.core.isRegistered_iff.mp hreg
        have hpassed := StorageMap.nextKey_eq_none.mp (StorageMap.nextEntry_eq_none.mp hnone) p
          (by rw [← core_players, hplayer]; rfl)
        rw [hout.settled p hpassed] at hreg
        cases hreg
    · rw [hcore]
      exact ⟨⟨hout.sized.1, hout.sized.2, hout.sized.3⟩, hnobody, hout.settled⟩
  | cleared game hgame hstate indexToPlayer playerToIndex hcore =>
    rw [core_game, hgame] at h
    obtain ⟨hsized, hphase⟩ := h
    unfold Phase at hphase
    rw [hstate] at hphase
    rcases hcore with hcore | ⟨hitop, hptoi, hcore⟩
    · have hkept : s'.core.game = some game := (congrArg Core.game hcore).trans hgame
      rw [hkept, hcore]
      refine ⟨hsized, ?_⟩
      unfold Phase
      rw [hstate]
      exact hphase
    · rw [hcore]
      exact ⟨⟨hitop, hptoi, hphase.1⟩, hphase.2⟩
  | cancelling game last meter out hgame hstate hloop hcore =>
    rw [core_game, hgame] at h
    obtain ⟨hsized, hphase⟩ := h
    unfold Phase at hphase
    rw [hstate] at hphase
    obtain ⟨hnobody, hcancelling, hfinished⟩ := cancelling_spec meter opUpperBound hphase.1 hphase.2 hloop
    rcases hcore with ⟨hdone, hcore⟩ | hcore
    · rw [hcore]
      obtain ⟨hclear, hreg⟩ := clear_of_cancelled hnobody hcancelling (hfinished hdone)
      exact ⟨⟨hclear.1, hclear.2, hclear.3⟩, hreg⟩
    · rw [hcore]
      exact ⟨⟨hsized.1, hsized.2, hsized.3⟩, hnobody,
        (Alike.putGame out.1.core _).cancelling hcancelling⟩

/-- A run of orderly calls keeps the core rostered. -/
theorem run_rostered (hfree : T.CollisionFree) (world : T.World) {w : Store T × (T.PlayerId → Bool)}
    (h : Reaches (noting execAction noteRecognition) (fun w a => w.1.Orderly a)
      (genesis T world, fun _ => false) w) : w.1.core.Rostered w.2 := by
  refine h.noted (I := fun s note => s.core.Rostered note) ?_ ?_
  · refine ⟨⟨fun _ => rfl, fun _ => rfl, fun b _ => ?_⟩, fun _ => rfl⟩
    cases b <;> rfl
  · intro s note a s' hs hG hexec
    exact (exec_step hG hexec).rostered hfree hs

end Store

namespace Shuffled
variable {c : Core T} {note : T.PlayerId → Bool} {rounds n : Nat}

/-- In each round, the indices below `n` stand one to one for the registered players. -/
theorem bijOn (h : Shuffled c note rounds n) {r : RoundIndex} (hr : r < rounds) :
    Set.BijOn (fun i => c.indexToPlayer.get (r, i)) (Set.Iio n)
      (some '' {p | c.isRegistered p = true}) := by
  refine ⟨fun i hi => ?_, fun i hi j hj heq => ?_, ?_⟩
  · obtain ⟨p, hp⟩ := Option.isSome_iff_exists.mp ((h.index_isSome r i).mpr ⟨hr, hi⟩)
    refine ⟨p, ?_, hp.symm⟩
    obtain ⟨indices, hindices, -⟩ := (h.inverse r i p).mp hp
    cases hreg : c.isRegistered p with
    | true => exact hreg
    | false =>
      rw [h.indices p hreg] at hindices
      cases hindices
  · obtain ⟨p, hp⟩ := Option.isSome_iff_exists.mp ((h.index_isSome r i).mpr ⟨hr, hi⟩)
    obtain ⟨indices, hindices, hget⟩ := (h.inverse r i p).mp hp
    obtain ⟨indices', hindices', hget'⟩ := (h.inverse r j p).mp (heq.symm.trans hp)
    cases hindices.symm.trans hindices'
    exact Option.some.inj (hget.symm.trans hget')
  · rintro _ ⟨p, hreg, rfl⟩
    obtain ⟨indices, hindices, hlength⟩ := (h.registered p).mp hreg
    have hlt : r < indices.toList.length := lt_of_lt_of_eq hr (Eq.symm hlength)
    obtain ⟨i, hi⟩ : ∃ i, indices.toList[r]? = some i := ⟨_, List.getElem?_eq_getElem hlt⟩
    have hp := (h.inverse r i p).mpr ⟨indices, hindices, hi⟩
    exact ⟨i, ((h.index_isSome r i).mp (by rw [hp]; rfl)).2, hp⟩

end Shuffled

/-- Whenever a game is in its reporting, with `n` players by its state, the indices of each round
are a bijection onto the registered players, of which there are `n`. -/
theorem shuffle_bijection (hfree : T.CollisionFree) (world : T.World)
    {w : Store T × (T.PlayerId → Bool)}
    (h : Reaches (noting Store.execAction Store.noteRecognition) (fun w a => w.1.Orderly a)
      (Store.genesis T world, fun _ => false) w) {game : GameInfo T.PlayerId} {n : Nat}
    (hgame : w.1.game = some game) (hstate : game.state = .reporting n) :
    Shuffled w.1.core w.2 game.rounds n ∧
      ∀ r, r < game.rounds → Set.BijOn (fun i => w.1.indexToPlayer.get (r, i)) (Set.Iio n)
        (some '' {p | w.1.core.isRegistered p = true}) := by
  have hrostered := Store.run_rostered hfree world h
  unfold Core.Rostered at hrostered
  rw [Store.core_game, hgame] at hrostered
  obtain ⟨-, hphase⟩ := hrostered
  unfold Core.Phase at hphase
  rw [hstate] at hphase
  exact ⟨hphase.1, fun r hr => hphase.1.bijOn hr⟩

theorem sample_collisionFree : sampleConfig.CollisionFree := by
  intro round hash hash' p p' h
  exact sampleKey_injective (Nat.pair_eq_pair.mp h).2

/-- One account plays a game alone. -/
theorem shuffle_bijection_sample : ∃ w : Store sampleConfig × (sampleConfig.PlayerId → Bool),
    w.1.game.map GameInfo.state = some (.reporting 1) ∧
      ∀ r, r < 1 → Set.BijOn (fun i => w.1.indexToPlayer.get (r, i)) (Set.Iio 1)
        (some '' {p | w.1.core.isRegistered p = true}) := by
  obtain ⟨w, hw, hstate, hrounds⟩ := exists_reaches (noting Store.execAction Store.noteRecognition)
    (fun w a => w.1.Orderly a) (Store.genesis sampleConfig (), fun _ => false)
    [(sampleEnv 0 1, .scheduleGames [sampleSchedule 100]), (sampleEnv 50 1, .onPoll ⟨100, 0⟩),
      (sampleEnv 50 1, .signUp (sampleSignUp 0)), (sampleEnv 90 1, .onPoll ⟨100, 0⟩),
      (sampleEnv 90 1, .onPoll ⟨100, 0⟩)]
    (fun w => w.1.game.map GameInfo.state = some (.reporting 1) ∧
      w.1.game.map GameInfo.rounds = some 1) (by decide +kernel)
  obtain ⟨game, hgame, hreporting⟩ := Option.map_eq_some_iff.mp hstate
  rw [hgame, Option.map_some, Option.some.injEq] at hrounds
  have h := (shuffle_bijection sample_collisionFree () hw hgame hreporting).2
  rw [hrounds] at h
  exact ⟨w, hstate, h⟩

/-- A shuffle misses its deadline with one player staged; the next game has that player twice. -/
theorem shuffle_bijection_fails : sampleConfig.CollisionFree ∧ ∃ s : Store sampleConfig,
    Reaches Store.execAction (fun _ _ => True) (Store.genesis sampleConfig ()) s ∧
      s.game.map GameInfo.state = some (.reporting 2) ∧ s.core.registeredCount = 1 ∧
      s.indexToPlayer.get (0, 0) = s.indexToPlayer.get (0, 1) := by
  refine ⟨sample_collisionFree, ?_⟩
  exact exists_reaches Store.execAction (fun _ _ => True) (Store.genesis sampleConfig ())
    [(sampleEnv 0 1, .scheduleGames [sampleSchedule 100, sampleSchedule 200]),
      (sampleEnv 50 1, .onPoll ⟨100, 0⟩), (sampleEnv 50 1, .signUp (sampleSignUp 0)),
      (sampleEnv 90 1, .onPoll ⟨100, 0⟩), (sampleEnv 90 1, .onPoll ⟨8, 0⟩),
      (sampleEnv 100 1, .onPoll ⟨100, 0⟩), (sampleEnv 100 1, .onPoll ⟨100, 0⟩),
      (sampleEnv 150 2, .onPoll ⟨100, 0⟩), (sampleEnv 150 2, .signUp (sampleSignUp 0)),
      (sampleEnv 190 2, .onPoll ⟨100, 0⟩), (sampleEnv 190 2, .onPoll ⟨100, 0⟩)]
    (fun s => s.game.map GameInfo.state = some (.reporting 2) ∧ s.core.registeredCount = 1 ∧
      s.indexToPlayer.get (0, 0) = s.indexToPlayer.get (0, 1)) (by decide +kernel)

end Individuality.Game
