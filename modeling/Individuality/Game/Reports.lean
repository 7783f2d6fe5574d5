import Individuality.Game.Effects

/-! What a report does.

A report counts one vote for each other member of the reporter's groups, each of the
weight that the shuffle found for the reporter (`Voted`), and then may enact some
attendances early, which moves nothing that a vote or a group depends on
(`Enacted`). -/
namespace Individuality.Game
open Support
open Score (AccountOrPerson)
variable {T : Config}

/-- A player's record without what was enacted early. -/
def Player.ballot {D : Type} (player : Player D) : Player D :=
  { player with earlyAttendanceEnactment := none }

/-- A game without the count of pending attendances. -/
def GameInfo.setting {P : Type} (game : GameInfo P) : GameInfo P := { game with pendingAttendance := 0 }

theorem GameInfo.eq_of_setting_eq {P : Type} {game game' : GameInfo P}
    (h : game'.setting = game.setting) :
    game'.state = game.state ∧ game'.rounds = game.rounds ∧ game'.maxGroupSize = game.maxGroupSize := by
  have hstate : game'.setting.state = game.setting.state := by rw [h]
  have hrounds : game'.setting.rounds = game.setting.rounds := by rw [h]
  have hgroup : game'.setting.maxGroupSize = game.setting.maxGroupSize := by rw [h]
  exact ⟨hstate, hrounds, hgroup⟩

/-- Attendances were enacted and nothing else happened. -/
structure Core.Enacted (c c' : Core T) : Prop where
  game : c'.game.map GameInfo.setting = c.game.map GameInfo.setting
  players : ∀ playerId,
    (c'.players.get playerId).map Player.ballot = (c.players.get playerId).map Player.ballot
  indexToPlayer : c'.indexToPlayer = c.indexToPlayer
  playerToIndex : c'.playerToIndex = c.playerToIndex
  staged : c'.staged = c.staged

namespace Core.Enacted
variable {c c' c'' : Core T}

theorem refl (c : Core T) : c.Enacted c := ⟨rfl, fun _ => rfl, rfl, rfl, rfl⟩

theorem trans (h : c.Enacted c') (h' : c'.Enacted c'') : c.Enacted c'' where
  game := h'.game.trans h.game
  players playerId := (h'.players playerId).trans (h.players playerId)
  indexToPlayer := h'.indexToPlayer.trans h.indexToPlayer
  playerToIndex := h'.playerToIndex.trans h.playerToIndex
  staged := h'.staged.trans h.staged

theorem exists_player (h : c.Enacted c') {playerId : T.PlayerId} {player : Player T.PlayDeposit}
    (hp : c.players.get playerId = some player) :
    ∃ player', c'.players.get playerId = some player' ∧ player'.ballot = player.ballot := by
  have := h.players playerId
  rw [hp] at this
  exact Option.map_eq_some_iff.mp this

end Core.Enacted

namespace Store
variable (env : Env T) (s : Store T)

theorem enactEarly_spec {game : GameInfo T.PlayerId} {playerId : T.PlayerId}
    {player : Player T.PlayDeposit} (hgame : s.game = some game)
    (hplayer : s.players.get playerId = some player) (attendance : Bool) :
    s.core.Enacted (s.enactEarly env game playerId player attendance).core := by
  unfold enactEarly
  split
  · have hcore : ∀ t : Store T, t.core = s.core → ∀ (pending : Nat) (result : EarlyAttendanceEnactment),
        s.core.Enacted ((t.putGame { game with pendingAttendance := pending }).mutatePlayer playerId
          fun player => { player with earlyAttendanceEnactment := some result }).core := by
      intro t ht pending result
      have hp : (t.putGame { game with pendingAttendance := pending }).players.get playerId =
          some player :=
        (congrArg (fun c : Core T => c.players.get playerId) ht).trans hplayer
      rw [core_mutatePlayer _ hp, core_putGame, ht]
      refine ⟨?_, fun q => ?_, rfl, rfl, rfl⟩
      · rw [core_game, hgame]
        rfl
      · show ((s.players.insert playerId _).get q).map Player.ballot = _
        rw [StorageMap.get_insert]
        split
        · rename_i heq
          rw [heq, core_players, hplayer]
          rfl
        · rfl
    exact hcore _ ((core_applyAttendanceToNfts _ _ _ _ _ _ _ _).trans
      (core_applyAttendance s playerId attendance player.registered game.index game.pendingAttendance)) _ _
  · exact Core.Enacted.refl s.core

theorem tryEarlyAttendanceEnactment_spec (playerId : T.PlayerId) :
    s.core.Enacted (s.tryEarlyAttendanceEnactment env playerId).core := by
  unfold tryEarlyAttendanceEnactment
  split
  · rename_i player game hplayer hgame
    split
    · exact Core.Enacted.refl s.core
    · split
      · exact s.enactEarly_spec env hgame hplayer true
      · exact s.enactEarly_spec env hgame hplayer false
      · exact Core.Enacted.refl s.core
  · exact Core.Enacted.refl s.core

theorem foldl_tryEarly_spec (l : List T.PlayerId) :
    s.core.Enacted (l.foldl (fun s playerId => s.tryEarlyAttendanceEnactment env playerId) s).core := by
  induction l generalizing s with
  | nil => exact Core.Enacted.refl s.core
  | cons playerId l ih =>
    exact (s.tryEarlyAttendanceEnactment_spec env playerId).trans (ih _)

end Store

/-! ### Votes -/

/-- Votes of weight `weight` were counted, `votes` of them for each player. The tallies are as
wide as the sums they hold, unless a sum outgrows them. -/
structure Voted (weight : Nat) (votes : T.PlayerId → Nat)
    (players players' : StorageMap T.PlayerId (Player T.PlayDeposit)) : Prop where
  none : ∀ playerId, players.get playerId = none → players'.get playerId = none
  some : ∀ playerId player, players.get playerId = some player → ∃ yes no,
    players'.get playerId = some { player with yesPerson := yes, noNotPerson := no } ∧
    (player.yesPerson + player.noNotPerson + weight * votes playerId ≤ U8.max →
      player.yesPerson ≤ yes ∧ player.noNotPerson ≤ no ∧
      yes + no = player.yesPerson + player.noNotPerson + weight * votes playerId)

namespace Voted
variable {weight : Nat} {votes votes' : T.PlayerId → Nat}
  {players players' players'' : StorageMap T.PlayerId (Player T.PlayDeposit)}

theorem refl (weight : Nat) (players : StorageMap T.PlayerId (Player T.PlayDeposit)) :
    Voted weight (fun _ => 0) players players where
  none _ h := h
  some _ player h := ⟨player.yesPerson, player.noNotPerson, h, fun _ => ⟨le_rfl, le_rfl, rfl⟩⟩

theorem trans (h : Voted weight votes players players') (h' : Voted weight votes' players' players'') :
    Voted weight (fun playerId => votes playerId + votes' playerId) players players'' where
  none playerId hp := h'.none playerId (h.none playerId hp)
  some playerId player hp := by
    obtain ⟨yes, no, hp', hsum⟩ := h.some playerId player hp
    obtain ⟨yes', no', hp'', hsum'⟩ := h'.some playerId _ hp'
    refine ⟨yes', no', hp'', fun hmax => ?_⟩
    rw [Nat.mul_add, ← Nat.add_assoc] at hmax ⊢
    obtain ⟨hyes, hno, heq⟩ := hsum ((Nat.le_add_right _ _).trans hmax)
    rw [← heq] at hmax ⊢
    obtain ⟨hyes', hno', heq'⟩ := hsum' hmax
    exact ⟨hyes.trans hyes', hno.trans hno', heq'⟩

theorem congr (h : Voted weight votes players players') (heq : ∀ playerId, votes playerId = votes' playerId) :
    Voted weight votes' players players' := by
  rwa [← funext heq]

end Voted

namespace Store
variable (env : Env T) {s s' : Store T}

/-- Counting a report is one vote for the player it is about. -/
theorem countVote_spec {playerId : T.PlayerId} {report : Report} {weight : Nat}
    {early : Option EarlyAttendanceEnactment} (h : s.countVote playerId report weight = .ok (s', early)) :
    Voted weight (fun q => if q = playerId then 1 else 0) s.players s'.players ∧
      s'.core = { s.core with players := s'.players } := by
  unfold countVote at h
  split at h
  · cases h
  · rename_i player hplayer
    cases h
    refine ⟨⟨fun q hq => ?_, fun q other hq => ?_⟩, rfl⟩
    · show (s.players.insert playerId _).get q = none
      rw [StorageMap.get_insert, if_neg, hq]
      rintro rfl
      rw [hq] at hplayer
      cases hplayer
    · by_cases heq : q = playerId
      · rw [heq, hplayer] at hq
        cases hq
        simp only [if_pos heq, Nat.mul_one]
        cases report with
        | person =>
          refine ⟨U8.saturatingAdd player.yesPerson weight, player.noNotPerson, ?_, fun hmax => ?_⟩
          · show (s.players.insert playerId _).get q = _
            rw [StorageMap.get_insert, if_pos heq]
            rfl
          · rw [U8.saturatingAdd_eq (by omega)]
            omega
        | notPerson =>
          refine ⟨player.yesPerson, U8.saturatingAdd player.noNotPerson weight, ?_, fun hmax => ?_⟩
          · show (s.players.insert playerId _).get q = _
            rw [StorageMap.get_insert, if_pos heq]
            rfl
          · rw [U8.saturatingAdd_eq (by omega)]
            omega
      · refine ⟨other.yesPerson, other.noNotPerson, ?_, fun _ => ?_⟩
        · show (s.players.insert playerId _).get q = _
          rw [StorageMap.get_insert, if_neg heq, hq]
        · rw [if_neg heq, Nat.mul_zero]
          exact ⟨le_rfl, le_rfl, rfl⟩

/-- The votes of a group go to the players at its members' indices. -/
theorem reportGroup_spec {gameIndex : Nat} {who : T.PlayerId} {weight mintTime : Nat}
    {round : RoundIndex} {others : List PlayerIndex} {reports : List Report}
    {reported reported' : List T.PlayerId}
    (h : reportGroup gameIndex who weight mintTime round s reported others reports = .ok (s', reported')) :
    Voted weight (fun q => others.countP fun i => s.indexToPlayer.get (round, i) = some q)
      s.players s'.players ∧ s'.core = { s.core with players := s'.players } := by
  induction others generalizing s reported reports with
  | nil =>
    cases reports with
    | nil =>
      cases h
      exact ⟨.refl weight _, rfl⟩
    | cons report reports => cases h
  | cons index others ih =>
    cases reports with
    | nil => cases h
    | cons report reports =>
      simp only [reportGroup, bind_eq_ok, okOr_eq_ok] at h
      obtain ⟨playerId, hindex, ⟨t, early⟩, hvote, h⟩ := h
      obtain ⟨hvoted, hcore⟩ := countVote_spec hvote
      obtain ⟨hrest, hcore'⟩ := ih h
      rw [core_logged, core_placeNft, hcore] at hcore'
      have hplaced := core_placeNft t playerId report early (T.nftHash gameIndex round who playerId) mintTime
      have hplayers : ((t.placeNft playerId report early (T.nftHash gameIndex round who playerId)
          mintTime).logged (.reported gameIndex round who playerId report)).players = t.players :=
        congrArg Core.players hplaced
      have hindices : ((t.placeNft playerId report early (T.nftHash gameIndex round who playerId)
          mintTime).logged (.reported gameIndex round who playerId report)).indexToPlayer =
            s.indexToPlayer :=
        (congrArg Core.indexToPlayer hplaced).trans (congrArg Core.indexToPlayer hcore)
      rw [hplayers, hindices] at hrest
      refine ⟨(hvoted.trans hrest).congr fun q => ?_, hcore'⟩
      rw [List.countP_cons, Nat.add_comm]
      by_cases heq : q = playerId
      · subst heq
        simp [hindex]
      · simp [hindex, heq, Ne.symm heq]

/-- The indices of the other members of a player's group in a round. -/
def othersIn (game : GameInfo T.PlayerId) (playerCount : Nat) (indices : List PlayerIndex)
    (round : RoundIndex) : List PlayerIndex :=
  match indices[round]? with
  | some index => GroupsSetting.otherMembers ⟨game.maxGroupSize, playerCount⟩ index
  | none => []

/-- How many votes a report of the player with these indices gives to `playerId` in some rounds. -/
def votesIn (c : Core T) (game : GameInfo T.PlayerId) (playerCount : Nat) (indices : List PlayerIndex)
    (rounds : List RoundIndex) (playerId : T.PlayerId) : Nat :=
  (rounds.map fun round => (othersIn game playerCount indices round).countP fun i =>
    c.indexToPlayer.get (round, i) = some playerId).sum

theorem reportRounds_spec {game : GameInfo T.PlayerId} {playerCount : Nat} {who : T.PlayerId}
    {weight mintTime : Nat} {indices : List PlayerIndex} {fullReport : List (List Report)}
    {rounds : List RoundIndex} {reported reported' : List T.PlayerId}
    (h : reportRounds game playerCount who weight mintTime indices fullReport s reported rounds =
      .ok (s', reported')) :
    Voted weight (votesIn s.core game playerCount indices rounds) s.players s'.players ∧
      s'.core = { s.core with players := s'.players } := by
  induction rounds generalizing s reported with
  | nil =>
    cases h
    exact ⟨.refl weight _, rfl⟩
  | cons round rounds ih =>
    simp only [reportRounds, bind_eq_ok, okOr_eq_ok] at h
    obtain ⟨reports, -, index, hindex, ⟨t, reportedThere⟩, hgroup, h⟩ := h
    obtain ⟨hvoted, hcore⟩ := reportGroup_spec hgroup
    obtain ⟨hrest, hcore'⟩ := ih h
    have hindices : t.core.indexToPlayer = s.core.indexToPlayer := by rw [hcore]
    refine ⟨(hvoted.trans hrest).congr fun q => ?_, ?_⟩
    · simp only [votesIn, hindices, List.map_cons, List.sum_cons, othersIn, hindex]
      rfl
    · rw [hcore', hcore]

/-- What an accepted report does: the reporter is marked, its votes are counted, and attendances
may be enacted. -/
structure Reported (s s' : Store T) (who : T.PlayerId) (game : GameInfo T.PlayerId)
    (playerCount : Nat) (player : Player T.PlayDeposit)
    (indices : BoundedVec PlayerIndex T.maxRounds)
    (players : StorageMap T.PlayerId (Player T.PlayDeposit)) : Prop where
  game_eq : s.game = some game
  state_eq : game.state = .reporting playerCount
  player_eq : s.players.get who = some player
  sentReport_eq : player.sentReport = false
  indices_eq : s.playerToIndex.get who = some indices
  voted : Voted player.voteWeight
    (votesIn s.core game playerCount indices.toList (List.range game.rounds))
    (s.players.insert who { player with sentReport := true }) players
  enacted : Core.Enacted { s.core with players := players } s'.core

namespace Reported
variable {who : T.PlayerId} {game : GameInfo T.PlayerId} {playerCount : Nat}
  {player : Player T.PlayDeposit} {indices : BoundedVec PlayerIndex T.maxRounds}
  {players : StorageMap T.PlayerId (Player T.PlayDeposit)}

theorem get_none (h : Reported s s' who game playerCount player indices players) {p : T.PlayerId}
    (hp : s.players.get p = none) : s'.players.get p = none := by
  have hne : p ≠ who := by
    rintro rfl
    rw [h.player_eq] at hp
    cases hp
  have hvoted := h.voted.none p (by rw [StorageMap.get_insert, if_neg hne, hp])
  have henacted := h.enacted.players p
  rw [hvoted] at henacted
  exact Option.map_eq_none_iff.mp henacted

/-- A player's record after a report: the reporter is marked, the votes about the player are
counted, and the rest is as before but for what was enacted. -/
theorem get_some (h : Reported s s' who game playerCount player indices players) {p : T.PlayerId}
    {other : Player T.PlayDeposit} (hp : s.players.get p = some other) :
    ∃ other' yes no, s'.players.get p = some other' ∧
      other'.ballot = { other.ballot with
        sentReport := other.sentReport || p == who
        yesPerson := yes
        noNotPerson := no } ∧
      (other.yesPerson + other.noNotPerson + player.voteWeight *
          votesIn s.core game playerCount indices.toList (List.range game.rounds) p ≤ U8.max →
        other.yesPerson ≤ yes ∧ other.noNotPerson ≤ no ∧
        yes + no = other.yesPerson + other.noNotPerson + player.voteWeight *
          votesIn s.core game playerCount indices.toList (List.range game.rounds) p) := by
  have hmarked : (s.players.insert who { player with sentReport := true }).get p =
      some { other with sentReport := other.sentReport || p == who } := by
    rw [StorageMap.get_insert]
    by_cases heq : p = who
    · rw [heq, h.player_eq] at hp
      cases hp
      rw [if_pos heq, beq_iff_eq.mpr heq, Bool.or_true]
    · rw [if_neg heq, hp, beq_eq_false_iff_ne.mpr heq, Bool.or_false]
  obtain ⟨yes, no, hvoted, hsum⟩ := h.voted.some p _ hmarked
  obtain ⟨other', hother', hballot⟩ := h.enacted.exists_player hvoted
  exact ⟨other', yes, no, hother', hballot, hsum⟩

end Reported

theorem report_spec {who : T.PlayerId} {fullReport : List (List Report)}
    (h : s.report env who fullReport = .ok s') :
    ∃ game playerCount player indices players,
      Reported s s' who game playerCount player indices players := by
  simp only [report, bind_eq_ok, okOr_eq_ok, ensure_eq_ok] at h
  obtain ⟨game, hgame, -, -, h⟩ := h
  split at h
  · rename_i playerCount hstate
    simp only [markReporter, bind_eq_ok, okOr_eq_ok, ensure_eq_ok, Except.ok.injEq] at h
    obtain ⟨⟨t, weight⟩, ⟨player, hplayer, -, hsent, hmark⟩, -, -, indices, hindices, ⟨u, reported⟩,
      hrounds, rfl⟩ := h
    cases hmark
    obtain ⟨hvoted, hcore⟩ := reportRounds_spec hrounds
    refine ⟨game, playerCount, player, indices, u.players, hgame, hstate, hplayer, hsent, hindices,
      hvoted, ?_⟩
    have henacted := (foldl_tryEarly_spec env u reported).trans
      (tryEarlyAttendanceEnactment_spec env _ who)
    rw [hcore] at henacted
    exact henacted
  · cases h

end Store
end Individuality.Game
