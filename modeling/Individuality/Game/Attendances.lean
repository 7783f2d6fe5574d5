import Individuality.Game.Settling

/-! Every attendance of a game.

Each turn keeps `Settling` (`Turn.settling`), so it holds in every state of a run, and
a run's log can be read off it: nobody is settled twice, a game that is through with
its players has settled its roster, and nothing else was settled. -/
namespace Individuality.Game
open Support
variable {T : Config}

namespace Store
variable {G : Store T → Action T → Prop} {a : Action T} {env : Env T} {s s' t : Store T}
  {game game' : GameInfo T.PlayerId} {last : Option T.PlayerId}

/-! ### One turn -/

theorem Settling.of_reporting (h : s.Settling) {n : Nat} (hgame : s.game = some game)
    (hstate : game.state = .reporting n) : s.Settles game none := by
  unfold Settling at h
  rw [hgame] at h
  dsimp only at h
  rw [hstate] at h
  exact h

theorem settling_of_reporting {n : Nat} (hgame : s.game = some game) (hstate : game.state = .reporting n)
    (h : s.Settles game none) : s.Settling := by
  unfold Settling
  rw [hgame]
  dsimp only
  rw [hstate]
  exact h

theorem settling_signUp {args : SignUpArgs T} (h : s.Settling) (hsignUp : s.signUp env args = .ok s') :
    s'.Settling := by
  obtain ⟨game, next, who, firstGame, credibility, hgame, hstate, -, hcore⟩ := signUp_spec env hsignUp
  have hplayers : s'.players = s.players.insert who (.fresh true firstGame credibility) :=
    congrArg Core.players hcore
  have hgame' : s'.game = some { game with state := .registration (U32.saturatingInc next) } :=
    congrArg Core.game hcore
  unfold Settling at h ⊢
  rw [hgame] at h
  rw [hgame']
  dsimp only at h ⊢
  rw [hstate] at h
  refine ⟨h.1.congr (fun p player hp => ?_) (log_signUp env hsignUp), h.2⟩
  rw [hplayers, StorageMap.get_insert] at hp
  split at hp
  · cases hp
    rfl
  · exact h.1.fresh p player hp

theorem settling_offboard {who : T.PlayerId} (h : s.Settling) (hoffboard : s.offboard who = .ok s') :
    s'.Settling := by
  obtain ⟨hwhen, -, hcore⟩ := offboard_spec hoffboard
  have hgame' : s'.game = s.game := congrArg Core.game hcore
  have hplayers : s'.players = s.players.remove who := congrArg Core.players hcore
  have hfresh : s.AllFresh → s'.AllFresh := by
    intro hs p player hp
    rw [hplayers] at hp
    exact hs p player (StorageMap.get_of_get_remove hp)
  unfold Settling at h ⊢
  rw [hgame']
  cases hg : s.game with
  | none =>
    rw [hg] at h
    exact hfresh h
  | some game =>
    rw [hg] at h
    have hreg := hwhen game hg
    dsimp only at h ⊢
    cases hstate : game.state with
    | registration next =>
      rw [hstate] at h
      exact ⟨h.1.congr (hfresh h.1.fresh) (log_offboard hoffboard), h.2⟩
    | _ =>
      rw [hstate] at hreg
      cases hreg

theorem settling_newGame {schedule : GameSchedule T.services.Prize} (h : s.Settling)
    (hnew : s.newGame env schedule = .ok s') : s'.Settling := by
  obtain ⟨hnone, game, hstate, -, -, -, hcore⟩ := newGame_spec env hnew
  have hlog := log_newGame env hnew
  have hplayers : s'.players = s.players := congrArg Core.players hcore
  have hgame' : s'.game = some game := congrArg Core.game hcore
  have hpending : game.pendingAttendance = 0 := by
    simp only [newGame, bind_eq_ok, Except.ok.injEq] at hnew
    obtain ⟨-, -, -, -, -, -, -, -, -, -, -, -, -, -, -, -, rfl⟩ := hnew
    cases hgame'
    rfl
  unfold Settling at h ⊢
  rw [hnone] at h
  rw [hgame']
  dsimp only at h ⊢
  rw [hstate]
  exact ⟨⟨fun p player hp => h p player (hplayers ▸ hp), congrArg settlementsOf hlog,
    congrArg attendeesOf hlog⟩, hpending⟩

/-- Processing the next player leaves a walk that is through with it. -/
theorem settles_process (env : Env T) (n : Nat) {who : T.PlayerId} {player : Player T.PlayDeposit}
    (h : s.Settles game last) (hnext : s.players.nextKey T.playerKey last = some who)
    (hplayer : s.players.get who = some player) (hindex : game'.index = game.index)
    (hpending : game'.pendingAttendance = (s.processPlayerAttendanceOutcome env game n who player).2) :
    (s.processPlayerAttendanceOutcome env game n who player).1.Settles game' (some who) := by
  obtain ⟨hwho, houtcome⟩ := s.processPlayerAttendanceOutcome_eq env game n who player
  have hothers := (s.processPlayerAttendanceOutcome_settled env game n who player).other
  rcases houtcome with ⟨hearly, hlog, hsame⟩ | ⟨hnone, attendance, hlog, hcounted⟩
  · exact h.pass hnext (fun _ => id) hplayer hearly hlog hothers hwho hindex (hpending.trans hsame)
  · -- Between its enactment and its removal or reset, the player is settled as by an early enactment.
    have hahead := (StorageMap.nextKey_mem hnext).2
    let enacted : Player T.PlayDeposit := { player with
      earlyAttendanceEnactment := some ⟨attendance, .keep⟩ }
    have hget : ∀ p, (s.players.insert who enacted).get p =
        if p = who then some enacted else s.players.get p := fun p => StorageMap.get_insert s.players who p enacted
    have henacted : ({ s with
        players := s.players.insert who enacted
        log := attendanceEvents who attendance game.index ++ s.log } : Store T).Settles game' last :=
      h.enact hplayer hahead hnone (rfl : _ = attendanceEvents who attendance game.index ++ s.log) hget
        hindex (hpending.trans hcounted)
    refine henacted.pass (m := s.players) hnext (fun p hp => ?_) ((hget who).trans (if_pos rfl)) rfl hlog
      (fun p hne => ?_) hwho rfl rfl
    · have hp' : ((s.players.insert who enacted).get p).isSome = true := hp
      rw [hget] at hp'
      split at hp'
      · rename_i heq
        rw [heq, hplayer]
        rfl
      · exact hp'
    · exact (hothers p hne).trans ((hget p).trans (if_neg hne)).symm

/-- Every turn keeps what settles. -/
theorem Turn.settling (h : s.Settling) (hturn : Turn G a s s') : s'.Settling := by
  cases hturn with
  | settings _ schedules phases deposit => exact h.congr rfl rfl rfl
  | scored _ score ha hG => exact h.congr rfl rfl rfl
  | elsewhere _ world ha hG => exact h.congr rfl rfl rfl
  | signedUp _ _ args ha hG hsignUp => exact settling_signUp h hsignUp
  | offboarded _ _ who ha hG hoffboard => exact settling_offboard h hoffboard
  | kickedOut _ _ player ha hG hkickout =>
    have hcore := kickout_core a.1 hkickout
    exact h.congr (congrArg Core.game hcore) (congrArg Core.players hcore) (log_kickout a.1 hkickout)
  | killed _ ha hG =>
    obtain ⟨-, hnone, hplayers⟩ := s.killCurrentGame_spec
    unfold Settling
    rw [hnone]
    intro p player hp
    rw [hplayers] at hp
    obtain ⟨player₀, -, rfl⟩ := Option.map_eq_some_iff.mp hp
    rfl
  | started _ _ schedule hnew => exact settling_newGame h hnew
  | shuffleStarted _ game next registrationEnds hgame hstate =>
    unfold Settling at h
    rw [hgame] at h
    dsimp only at h
    rw [hstate] at h
    have hzero : s.core.countWhere (passed T.playerKey none) = 0 := s.core.countWhere_false
    refine ⟨h.1, h.2.trans ?_⟩
    show 0 = min (s.core.countWhere (passed T.playerKey none)) U32.max
    rw [hzero, Nat.zero_min]
  | cancelled _ game hG hgame hwhy =>
    intro p player _ hp
    cases hp
  | shuffled _ game step hstate => exact shuffleMove_settling a.1 hstate h
  | marked _ game n who player hgame hstate hplayer hsent =>
    have hsettles := h.of_reporting hgame hstate
    refine settling_of_reporting (s := s.putPlayer who { player with sentReport := true }) hgame hstate ?_
    exact hsettles.revise hplayer rfl rfl rfl rfl rfl rfl
  | voted _ game n who indices round index other playerId player report weight hgame hstate hindices hround
      hindex hother hplayerId hplayer =>
    have hsettles := h.of_reporting hgame hstate
    have hcore := core_placeNft (s := s.putPlayer playerId (countReport player report weight)) playerId report
      player.earlyAttendanceEnactment (T.nftHash game.index round who playerId) a.1.now.asSecs
    have hlog := (s.putPlayer playerId (countReport player report weight)).log_placeNft playerId report
      player.earlyAttendanceEnactment (T.nftHash game.index round who playerId) a.1.now.asSecs
    generalize (s.putPlayer playerId (countReport player report weight)).placeNft playerId report
      player.earlyAttendanceEnactment (T.nftHash game.index round who playerId) a.1.now.asSecs = placed
      at hcore hlog ⊢
    have hplayers : placed.players = s.players.insert playerId (countReport player report weight) :=
      congrArg Core.players hcore
    have hlog' : placed.log = s.log := hlog
    refine settling_of_reporting ((congrArg Core.game hcore).trans hgame) hstate ?_
    refine hsettles.revise (t := placed.logged _) hplayer hplayers ?_ ?_ ?_ ?_ ?_
    · cases report <;> rfl
    · cases report <;> rfl
    · show settlementsOf placed.log = settlementsOf s.log
      rw [hlog']
    · show attendeesOf placed.log = attendeesOf s.log
      rw [hlog']
    · show rosterOf placed.log = rosterOf s.log
      rw [hlog']
  | enacted _ game n who hgame hstate =>
    rcases tryEarly_eq a.1 s who with hsame | ⟨game₀, n₀, player, attendance, result, hgame₀, hstate₀,
      hplayer, hnone, hgame', hplayers, hlog⟩
    · rw [hsame]
      exact h
    · refine settling_of_reporting hgame' hstate₀ ?_
      have hget : ∀ p, (s.tryEarlyAttendanceEnactment a.1 who).players.get p = if p = who then
          some { player with earlyAttendanceEnactment := some result } else s.players.get p := by
        intro p
        rw [hplayers, StorageMap.get_insert]
      exact (h.of_reporting hgame₀ hstate₀).enact hplayer rfl hnone hlog hget rfl rfl
  | reportingEnded _ game n reportEnds shuffleDeadline gameDate hgame hstate hwhy =>
    exact (h.of_reporting hgame hstate).same rfl rfl rfl rfl
  | processed t game last n who player hnext hplayer =>
    have hsettles : t.Settles game last := Settles.same (s := t.putGame _) h rfl rfl rfl rfl
    have hprocessed : (t.processPlayerAttendanceOutcome a.1 game n who player).1.Settles { game with
        pendingAttendance := (t.processPlayerAttendanceOutcome a.1 game n who player).2
        state := .playerProcess (.processPlayers (some who) n) } (some who) :=
      settles_process a.1 n hsettles hnext hplayer rfl rfl
    exact hprocessed.same rfl rfl rfl rfl
  | sessionEnded t game last n hnone =>
    have hsettles : t.Settles game last := Settles.same (s := t.putGame _) h rfl rfl rfl rfl
    have hpassed := StorageMap.nextKey_eq_none.mp hnone
    have hfresh : t.AllFresh := fun p player hp =>
      (hsettles.behind p player hp (hpassed p (by rw [hp]; rfl))).2.1
    refine ⟨hfresh, hsettles.logged.congr rfl rfl rfl, fun p hp => ?_⟩
    cases hlast : passed T.playerKey last p with
    | true => exact hsettles.settled_behind p hp hlast
    | false =>
      rw [hpassed p (hsettles.exists_ahead p hp hlast)] at hlast
      cases hlast
  | cleared _ game indexToPlayer playerToIndex hgame hstate => exact h.congr rfl rfl rfl
  | ended _ game hgame hstate hindexToPlayer hplayerToIndex =>
    unfold Settling at h
    rw [hgame] at h
    dsimp only at h
    rw [hstate] at h
    exact h.1
  | cancelling t game last who player hnext hplayer =>
    have hreset : ∀ p player, t.players.get p = some player → passed T.playerKey last p = true →
        player.earlyAttendanceEnactment = none := h
    have htake := (takeIndices_spec (t.putPlayer who player.reset) who game.rounds).1
    intro p q hq hp
    have hq' : (t.players.insert who player.reset).get p = some q :=
      (congrArg (fun c : Core T => c.players.get p) htake).symm.trans hq
    rw [StorageMap.get_insert] at hq'
    split at hq'
    · cases hq'
      rfl
    · rename_i hne
      refine hreset p q hq' (((StorageMap.passed_of_next T.playerKey_injective hnext ?_).mp hp).resolve_right hne)
      rw [hq']
      rfl
  | cancelEnded t game last hnone =>
    have hreset : ∀ p player, t.players.get p = some player → passed T.playerKey last p = true →
        player.earlyAttendanceEnactment = none := h
    exact fun p player hp =>
      hreset p player hp (StorageMap.nextKey_eq_none.mp hnone p (by rw [hp]; rfl))

theorem settling_genesis (world : T.World) : (genesis T world).Settling := by
  intro p player hp
  cases hp

/-! ### One call -/

/-- Past the registration, the game is moved by reports, by hooks and by the calls that end a phase. -/
theorem exec_game (hgame : s.game = some game) (hpast : game.state.isRegistration = false)
    (h : s.execAction a = .ok s') :
    s'.game = s.game ∨ (∃ who fullReport, a.2 = .report who fullReport) ∨ a.2 = .killCurrentGame ∨
      a.2 = .testnetForceEndReporting ∨ ∃ meter, s' = s.processGame a.1 meter game := by
  obtain ⟨env, call⟩ := a
  have hcore : s'.core = s.core → s'.game = s.game := congrArg Core.game
  cases call with
  | signUp args =>
    obtain ⟨game', next, -, -, -, hgame', hstate, -⟩ := signUp_spec env h
    cases hgame.symm.trans hgame'
    rw [hstate] at hpast
    cases hpast
  | report who fullReport => exact .inr (.inl ⟨who, fullReport, rfl⟩)
  | offboard who => exact .inl (congrArg Core.game (offboard_spec h).2.2)
  | kickout player => exact .inl (congrArg Core.game (kickout_core env h))
  | scheduleGames schedules =>
    simp only [execAction, exec, scheduleGames, bind_eq_ok, Except.ok.injEq] at h
    obtain ⟨-, -, -, -, schedules', -, rfl⟩ := h
    exact .inl rfl
  | removeScheduledGame gamePlayTime =>
    simp only [execAction, exec, removeScheduledGame] at h
    split at h
    · cases h
      exact .inl rfl
    · cases h
  | setGamePhases phases =>
    simp only [execAction, exec, setGamePhases, bind_eq_ok, Except.ok.injEq] at h
    obtain ⟨-, -, rfl⟩ := h
    exact .inl rfl
  | setPlayDeposit amount =>
    simp only [execAction, exec, setPlayDeposit, bind_eq_ok, Except.ok.injEq] at h
    obtain ⟨-, -, rfl⟩ := h
    exact .inl rfl
  | killCurrentGame => exact .inr (.inr (.inl rfl))
  | testnetForceStartShuffle =>
    simp only [execAction, exec, testnetForceStartShuffle, bind_eq_ok, okOr_eq_ok, ensure_eq_ok] at h
    obtain ⟨-, -, game', hgame', -, hstate, -⟩ := h
    cases hgame.symm.trans hgame'
    rw [hstate] at hpast
    cases hpast
  | testnetForceEndReporting => exact .inr (.inr (.inr (.inl rfl)))
  | onPoll remaining =>
    cases h
    unfold onPoll
    split
    · exact .inl rfl
    · rename_i meter _
      rw [hgame]
      exact .inr (.inr (.inr (.inr ⟨meter, rfl⟩)))
  | onIdle remaining =>
    cases h
    unfold onIdle
    split
    · exact .inl rfl
    · rename_i meter _
      rw [hgame]
      exact .inr (.inr (.inr (.inr ⟨meter, rfl⟩)))
  | score score =>
    cases h
    exact .inl rfl
  | elsewhere world =>
    cases h
    exact .inl rfl

/-- A game leaves its reporting for the processing when its time is over, when nothing is pending, or
when it is forced to. -/
theorem exec_reporting {n : Nat} (hgame : s.game = some game) (hstate : game.state = .reporting n)
    (h : s.execAction a = .ok s') (hleft : s'.isReporting = false) (hgoes : s'.game.isSome = true) :
    (s'.players = s.players ∧ s'.log = s.log) ∧
      (Duration.fromSecs game.reportEnds ≤ a.1.now ∨ game.pendingAttendance = 0 ∨
        a.2 = .testnetForceEndReporting) := by
  have hhere : s.isReporting = true := isReporting_iff.mpr ⟨game, n, hgame, hstate⟩
  obtain ⟨env, call⟩ := a
  rcases exec_game hgame (by rw [hstate]; rfl) h with
    hsame | ⟨who, fullReport, ha⟩ | ha | ha | ⟨meter, hprocessed⟩
  · rw [isReporting, hsame] at hleft
    rw [isReporting, hleft] at hhere
    cases hhere
  · cases ha
    obtain ⟨game₀, n₀, player, indices, players, hreported⟩ := report_spec env h
    obtain ⟨game₁, hgame₁, hsetting⟩ := hreported.exists_game
    rw [isReporting_iff.mpr ⟨game₁, n₀, hgame₁, (GameInfo.eq_of_setting_eq hsetting).1.trans
      hreported.state_eq⟩] at hleft
    cases hleft
  · cases ha
    cases h
    cases hgoes
  · cases ha
    simp only [execAction, exec, testnetForceEndReporting, bind_eq_ok, okOr_eq_ok] at h
    obtain ⟨-, -, game', hgame', h⟩ := h
    split at h
    · cases h
      exact ⟨⟨rfl, rfl⟩, .inr (.inr rfl)⟩
    · cases h
  · have hdone : s' = s ∨ (s'.players = s.players ∧ s'.log = s.log) ∧
        (Duration.fromSecs game.reportEnds ≤ env.now ∨ game.pendingAttendance = 0) := by
      rw [hprocessed]
      unfold processGame processReporting
      rw [hstate, hgame]
      dsimp only
      split
      · exact .inl rfl
      · split
        · rename_i heq
          cases heq
          rw [hstate]
          dsimp only
          split
          · exact .inl rfl
          · rename_i hdue
            refine .inr ⟨⟨rfl, rfl⟩, ?_⟩
            by_cases hpending : game.pendingAttendance = 0
            · exact .inr hpending
            · exact .inl (Nat.le_of_not_lt fun hlt => hdue ⟨hlt, hpending⟩)
        · exact .inl rfl
    rcases hdone with rfl | ⟨hsame, hwhy⟩
    · rw [hleft] at hhere
      cases hhere
    · exact ⟨hsame, hwhy.imp id .inl⟩

theorem log_playerProcessStep2 (meter : Weight) : (s.playerProcessStep2 meter).log = s.log := by
  unfold playerProcessStep2
  split
  · rfl
  · rename_i meter' _
    have h := repeatUpTo_induction (P := fun w : Store T × Clearing T × Weight => w.1.log = s.log)
      (s := (s, ⟨none, none, false, false⟩, meter')) rfl
      (fun w h => ((congrArg Store.log (clearTurn_eq w)).trans rfl).trans h) opUpperBound
    generalize repeatUpTo clearTurn opUpperBound (s, ⟨none, none, false, false⟩, meter') = out at h
    obtain ⟨t, c, rest⟩ := out
    dsimp only
    split
    · exact h
    · exact h

/-- The processing of players does not end the game. -/
theorem isSome_playerProcessStep1 (env : Env T) (meter : Weight) (n : Nat) (hgame : s.game = some game) :
    (s.playerProcessStep1 env meter game last n).game.isSome = true := by
  unfold playerProcessStep1
  split
  · rw [hgame]
    rfl
  · rename_i meter' _
    generalize repeatUpTo (playerProcessTurn env n) opUpperBound (s, game, last, meter') = out
    obtain ⟨t, game', last', rest⟩ := out
    dsimp only
    split <;> rfl

/-- A game that is through with its players ends once its indices are cleared, unless it is killed. -/
theorem exec_ended {step : PlayerProcessStep T.PlayerId} (hgame : s.game = some game)
    (hstate : game.state = .playerProcess step) (h : s.execAction a = .ok s')
    (hnot : a.2 ≠ .killCurrentGame) (hended : s'.game = none) :
    game.state = .playerProcess .clearIndices ∧ s'.log = s.log := by
  obtain ⟨env, call⟩ := a
  rcases exec_game hgame (by rw [hstate]; rfl) h with
    hsame | ⟨who, fullReport, ha⟩ | ha | ha | ⟨meter, hprocessed⟩
  · rw [hsame, hgame] at hended
    cases hended
  · cases ha
    obtain ⟨game₀, n₀, player, indices, players, hreported⟩ := report_spec env h
    cases hgame.symm.trans hreported.game_eq
    rw [hreported.state_eq] at hstate
    cases hstate
  · exact absurd ha hnot
  · cases ha
    simp only [execAction, exec, testnetForceEndReporting, bind_eq_ok, okOr_eq_ok] at h
    obtain ⟨-, -, game', hgame', h⟩ := h
    cases hgame.symm.trans hgame'
    rw [hstate] at h
    cases h
  · unfold processGame at hprocessed
    rw [hstate] at hprocessed
    split at hprocessed
    · rw [hprocessed, hgame] at hended
      cases hended
    · cases step with
      | processPlayers last n =>
        have hsome : (s.playerProcessStep1 env meter game last n).game.isSome = true :=
          isSome_playerProcessStep1 env meter n hgame
        rw [show s' = _ from hprocessed] at hended
        rw [hended] at hsome
        cases hsome
      | clearIndices =>
        rw [show s' = s.playerProcessStep2 meter from hprocessed]
        exact ⟨hstate, log_playerProcessStep2 meter⟩

theorem run_settling {world : T.World} (h : Reaches execAction G (genesis T world) s) : s.Settling :=
  run_turned h (settling_genesis world) fun _ _ _ ht hturn => hturn.settling ht

end Store

/-- Over every run: while players report and are processed, what is pending is the number of
registered players not settled, if the registered players can be counted; so a game goes from its
reporting to the processing before its time only if every registered player is settled, or if a test
network forces it; and a game that is not killed ends with everyone settled once that was a player
when its reporting opened, and nobody else, and with the attendance noted of those that attended. -/
theorem settled_once (world : T.World) {s : Store T}
    (h : Reaches Store.execAction (fun _ _ => True) (Store.genesis T world) s)
    {game : GameInfo T.PlayerId} (hgame : s.game = some game) :
    (∀ n, game.state = .reporting n →
      ∀ p, (s.players.get p).isSome = true ↔ (s.roster.get p).isSome = true) ∧
    (s.rosterCount ≤ U32.max →
      ((∃ n, game.state = .reporting n) ∨ ∃ last n, game.state = .playerProcess (.processPlayers last n)) →
      game.pendingAttendance =
        s.players.countOf fun p player => player.registered && !decide (p ∈ s.settled)) ∧
    ∀ (a : Store.Action T) (s' : Store T), s.execAction a = .ok s' →
      ((∃ n, game.state = .reporting n) → s'.isReporting = false → s'.game.isSome = true →
        a.1.now < Duration.fromSecs game.reportEnds → a.2 ≠ .testnetForceEndReporting →
        s.rosterCount ≤ U32.max →
        ∀ p player, s'.players.get p = some player → player.registered = true → p ∈ s'.settled) ∧
      ((∃ step, game.state = .playerProcess step) → s'.game = none → a.2 ≠ .killCurrentGame →
        s'.settled.Nodup ∧ (∀ p, p ∈ s'.settled ↔ (s'.roster.get p).isSome = true) ∧
        (∀ e ∈ s'.settlements, e.2.2 = game.index) ∧
        s'.attendees = (s'.settlements.filter fun e => e.2.1).map fun e => (e.1, e.2.2)) := by
  have hsettling := Store.run_settling h
  have hpending : s.rosterCount ≤ U32.max →
      ((∃ n, game.state = .reporting n) ∨ ∃ last n, game.state = .playerProcess (.processPlayers last n)) →
      game.pendingAttendance =
        s.players.countOf fun p player => player.registered && !decide (p ∈ s.settled) := by
    rintro hfits (⟨n, hstate⟩ | ⟨last, n, hstate⟩)
    · exact (hsettling.of_reporting hgame hstate).pending_eq hfits
    · unfold Store.Settling at hsettling
      rw [hgame] at hsettling
      dsimp only at hsettling
      rw [hstate] at hsettling
      exact hsettling.pending_eq hfits
  refine ⟨fun n hstate p => ?_, hpending, fun a s' hexec => ⟨?_, ?_⟩⟩
  · have hsettles := hsettling.of_reporting hgame hstate
    constructor
    · intro hp
      obtain ⟨player, hplayer⟩ := Option.isSome_iff_exists.mp hp
      obtain ⟨player₀, hplayer₀, -⟩ := hsettles.ahead p player hplayer rfl
      exact Option.isSome_iff_exists.mpr ⟨player₀, hplayer₀⟩
    · exact fun hp => hsettles.exists_ahead p hp rfl
  · rintro ⟨n, hstate⟩ hleft hgoes hearly hfree hfits p player hp hreg
    obtain ⟨⟨hplayers, hlog⟩, hwhy⟩ := Store.exec_reporting hgame hstate hexec hleft hgoes
    have hzero : game.pendingAttendance = 0 := by
      rcases hwhy with hlate | hzero | hforced
      · exact absurd hearly (Nat.not_lt_of_le hlate)
      · exact hzero
      · exact absurd hforced hfree
    have hnone := (hpending hfits (.inl ⟨n, hstate⟩)).symm.trans hzero
    rw [hplayers] at hp
    have hp' := StorageMap.countOf_eq_zero_iff.mp hnone p player hp
    rw [hreg, Bool.true_and, Bool.not_eq_false', decide_eq_true_eq] at hp'
    rw [Store.settled, Store.settlements, hlog]
    exact hp'
  · rintro ⟨step, hstate⟩ hended hnot
    obtain ⟨hclear, hlog⟩ := Store.exec_ended hgame hstate hexec hnot hended
    unfold Store.Settling at hsettling
    rw [hgame] at hsettling
    dsimp only at hsettling
    rw [hclear] at hsettling
    obtain ⟨-, hlogged, hall⟩ := hsettling
    have hroster : s'.roster = s.roster := congrArg rosterOf hlog
    have hsettled : s'.settled = s.settled := congrArg (fun log => (settlementsOf log).map Prod.fst) hlog
    have hlogged' : s'.Logged game.index :=
      hlogged.congr (congrArg settlementsOf hlog) (congrArg attendeesOf hlog) hroster
    refine ⟨hlogged'.once, fun p => ⟨hlogged'.inRoster p, fun hp => ?_⟩, hlogged'.index, hlogged'.noted⟩
    rw [hsettled]
    exact hall p (hroster ▸ hp)

/-- Two accounts vouch for each other, and the game ends with both settled. -/
theorem settled_once_sample : ∃ s s' : Store sampleConfig, s.game.isSome = true ∧ s'.game = none ∧
    s'.settled.Nodup ∧ (samplePlayer 0 ∈ s'.settled ↔ (s'.roster.get (samplePlayer 0)).isSome = true) := by
  obtain ⟨s, hs, hstate, hnext⟩ := exists_reaches Store.execAction (fun _ _ => True)
    (Store.genesis sampleConfig ())
    [(sampleEnv 0 1, .scheduleGames [sampleSchedule 100]), (sampleEnv 50 1, .onPoll ⟨100, 0⟩),
      (sampleEnv 50 1, .signUp (sampleSignUp 0)), (sampleEnv 50 1, .signUp (sampleSignUp 1)),
      (sampleEnv 90 1, .onPoll ⟨100, 0⟩), (sampleEnv 90 1, .onPoll ⟨100, 0⟩),
      (sampleEnv 100 1, .report (samplePlayer 0) [[.person]]),
      (sampleEnv 100 1, .report (samplePlayer 1) [[.person]]), (sampleEnv 100 1, .onPoll ⟨100, 0⟩),
      (sampleEnv 100 1, .onPoll ⟨100, 0⟩)]
    (fun s => s.game.map GameInfo.state = some (.playerProcess .clearIndices) ∧
      ((s.execAction (sampleEnv 100 1, .onPoll ⟨100, 0⟩)).toOption.any fun s' => s'.game.isNone) = true)
    (by decide +kernel)
  obtain ⟨game, hgame, hclear⟩ := Option.map_eq_some_iff.mp hstate
  cases hexec : s.execAction (sampleEnv 100 1, .onPoll ⟨100, 0⟩) with
  | error e =>
    rw [hexec] at hnext
    cases hnext
  | ok s' =>
    rw [hexec] at hnext
    have hnone : s'.game = none := Option.isNone_iff_eq_none.mp hnext
    obtain ⟨-, -, hcalls⟩ := settled_once () hs hgame
    obtain ⟨honce, hmem, -⟩ := (hcalls _ s' hexec).2 ⟨_, hclear⟩ hnone nofun
    exact ⟨s, s', by rw [hgame]; rfl, hnone, honce, hmem _⟩

/-- The configuration of a test network. -/
def sampleTestnet : Config := { sampleConfig with testnet := true }

def sampleTestnetEnv (secs : Nat) : Env sampleTestnet := ⟨Duration.fromSecs secs, 1, (1 : Nat)⟩

/-- On a test network, a game is forced out of its reporting before its time while a registered
player is not settled. -/
theorem settled_once_fails : ∃ (s s' : Store sampleTestnet) (a : Store.Action sampleTestnet)
    (game : GameInfo sampleTestnet.PlayerId),
    Reaches Store.execAction (fun _ _ => True) (Store.genesis sampleTestnet ()) s ∧
    s.execAction a = .ok s' ∧ s.game = some game ∧ game.state = .reporting 2 ∧
    a.1.now < Duration.fromSecs game.reportEnds ∧
    s'.game.map GameInfo.state = some (.playerProcess (.processPlayers none 2)) ∧
    ∃ player, s'.players.get (.account (0 : Nat)) = some player ∧ player.registered = true ∧
      .account (0 : Nat) ∉ s'.settled := by
  obtain ⟨s, hs, hgame, hnext⟩ := exists_reaches Store.execAction (fun _ _ => True)
    (Store.genesis sampleTestnet ())
    [(sampleTestnetEnv 0, .scheduleGames [sampleSchedule 100]), (sampleTestnetEnv 50, .onPoll ⟨100, 0⟩),
      (sampleTestnetEnv 50, .signUp (.account (0 : Nat) false none)),
      (sampleTestnetEnv 50, .signUp (.account (1 : Nat) false none)),
      (sampleTestnetEnv 90, .onPoll ⟨100, 0⟩), (sampleTestnetEnv 90, .onPoll ⟨100, 0⟩)]
    (fun s => (s.game.any fun game => decide (game.state = .reporting 2 ∧
        (sampleTestnetEnv 100).now < Duration.fromSecs game.reportEnds)) = true ∧
      ((s.execAction (sampleTestnetEnv 100, .testnetForceEndReporting)).toOption.any fun s' =>
        decide (s'.game.map GameInfo.state = some (.playerProcess (.processPlayers none 2))) &&
        decide (.account (0 : Nat) ∉ s'.settled) &&
        (s'.players.get (.account (0 : Nat))).any fun player => player.registered) = true)
    (by decide +kernel)
  obtain ⟨game, hsome, hreporting⟩ := (Option.any_eq_true _ _).mp hgame
  obtain ⟨hstate, hearly⟩ := of_decide_eq_true hreporting
  cases hexec : s.execAction (sampleTestnetEnv 100, .testnetForceEndReporting) with
  | error e =>
    rw [hexec] at hnext
    cases hnext
  | ok s' =>
    rw [hexec] at hnext
    obtain ⟨hafter, hplayer⟩ := Bool.and_eq_true_iff.mp hnext
    obtain ⟨hstate', hnot⟩ := Bool.and_eq_true_iff.mp hafter
    obtain ⟨player, hp, hreg⟩ := (Option.any_eq_true _ _).mp hplayer
    exact ⟨s, s', _, game, hs, hexec, hsome, hstate, hearly, of_decide_eq_true hstate', player, hp, hreg,
      of_decide_eq_true hnot⟩

end Individuality.Game
