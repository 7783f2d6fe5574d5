import Individuality.Game.Effects
import Mathlib.Logic.Relation

/-! What a game does outside of its own storage.

A game asks the rest of the chain for services (`Serves`) and the score pallet to
onboard, to set an attendance and to update its thresholds (`Scoring`); only leaving
removes a participant. What every accepted call does to the score pallet and to the
rest of the chain is a sequence of these (`exec_scored`), whatever the game is at. -/
namespace Individuality.Game
open Support
open Score (Alias AccountOrPerson)

/-- A service of the rest of the chain, as the game pallet asks for it. -/
inductive Serves (T : Config) (w : T.World) : T.World → Prop
  | incSufficients (who : T.AccountId) : Serves T w (T.services.incSufficients w who)
  | decSufficients (who : T.AccountId) : Serves T w (T.services.decSufficients w who)
  | sessionStarted (w' : T.World) (h : T.services.startPeopleSetMutationSession w = some w') : Serves T w w'
  | sessionEnded (w' : T.World) (h : T.services.endPeopleSetMutationSession w = some w') : Serves T w w'
  | depositTaken (who : T.AccountId) (amount : Nat) (ticket : T.PlayDeposit) (w' : T.World)
      (h : T.services.newDeposit w who amount = some (ticket, w')) : Serves T w w'
  | depositDropped (who : T.AccountId) (ticket : T.PlayDeposit) (w' : T.World)
      (h : T.services.dropDeposit w who ticket = some w') : Serves T w w'
  | depositBurned (who : T.AccountId) (ticket : T.PlayDeposit) :
      Serves T w (T.services.burnDeposit w who ticket)
  | allowanceIncreased (who : T.AccountId) : Serves T w (T.services.increaseAllowance w who)
  | allowanceDecreased (who : T.AccountId) : Serves T w (T.services.decreaseAllowance w who)
  | airdropScheduled (gameIndex : Nat) (prize : T.services.Prize) (starts draw ends : Nat) (w' : T.World)
      (h : T.services.scheduleAirdrop w gameIndex prize starts draw ends = some w') : Serves T w w'
  | airdropCancelled (gameIndex : Nat) : Serves T w (T.services.cancelAirdrop w gameIndex)
  | participatedWithAccount (gameIndex : Nat) (who : T.AccountId) (signature : T.services.VrfSignature)
      (w' : T.World) (h : T.services.participateWithAccount w gameIndex who signature = some w') :
      Serves T w w'
  | participatedWithAlias (gameIndex : Nat) (who : T.PlayerId) (proof : T.services.Proof)
      (ringIndex revision : Nat) (w' : T.World)
      (h : T.services.participateWithAlias w gameIndex who proof ringIndex revision = some w') :
      Serves T w w'

/-- The score pallet and the rest of the chain. -/
abbrev Outside (T : Config) : Type := Score.Store T.AccountId × T.World

/-- What the game pallet asks for, other than to offboard. -/
inductive Scoring (T : Config) : Outside T → Outside T → Prop
  | served {score : Score.Store T.AccountId} {w w' : T.World} (h : Serves T w w') :
      Scoring T (score, w) (score, w')
  | onboarded {score : Score.Store T.AccountId} {w : T.World} {o : Outside T} (who : T.AccountId)
      (h : score.onboardForRecognition T.services.toServices w who = .ok o) : Scoring T (score, w) o
  | onboardedExternally {score score' : Score.Store T.AccountId} {w : T.World} (who : Alias)
      (h : score.onboardExternallyRecognized who = .ok score') : Scoring T (score, w) (score', w)
  | attended {score score' : Score.Store T.AccountId} {w w' : T.World} (who : T.PlayerId)
      (attended : Bool) (gameIndex : Nat) (participant : Score.Participant)
      (h : score.setAttendance T.services.toServices w who attended gameIndex =
        .ok (score', w', participant)) : Scoring T (score, w) (score', w')
  | thresholds {score : Score.Store T.AccountId} {w : T.World} :
      Scoring T (score, w) (score.updateThresholds T.services.toServices w, w)

variable {T : Config}

/-- What the game pallet asks for in a call. -/
abbrev Scored (T : Config) : Outside T → Outside T → Prop := Relation.ReflTransGen (Scoring T)

namespace Store
variable (env : Env T) (s : Store T)

def outside : Outside T := (s.score, s.world)

/-! ### What stays inside -/

/-- A loop whose turns stay inside stays inside. -/
theorem outside_foldl {β : Type} (f : Store T → β → Store T) (h : ∀ s b, (f s b).outside = s.outside)
    (l : List β) : (l.foldl f s).outside = s.outside := by
  induction l generalizing s with
  | nil => rfl
  | cons b l ih =>
    rw [List.foldl_cons, ih, h]

@[simp] theorem outside_putGame (game : GameInfo T.PlayerId) : (s.putGame game).outside = s.outside := rfl

@[simp] theorem outside_putPlayer (playerId : T.PlayerId) (player : Player T.PlayDeposit) :
    (s.putPlayer playerId player).outside = s.outside := rfl

@[simp] theorem outside_mutatePlayer (playerId : T.PlayerId)
    (f : Player T.PlayDeposit → Player T.PlayDeposit) : (s.mutatePlayer playerId f).outside = s.outside := by
  unfold mutatePlayer
  split <;> rfl

@[simp] theorem outside_mintAttendanceNfts (gameIndex rounds maxGroupSize playerCount : Nat)
    (attendee : T.PlayerId) (mintTime : Nat) :
    (s.mintAttendanceNfts gameIndex rounds maxGroupSize playerCount attendee mintTime).outside =
      s.outside := by
  unfold mintAttendanceNfts
  split
  · rfl
  · refine outside_foldl s _ (fun s round => ?_) _
    split
    · rfl
    · refine outside_foldl s _ (fun s i => ?_) _
      split <;> rfl

@[simp] theorem outside_applyAttendanceToNfts (gameIndex rounds maxGroupSize playerCount : Nat)
    (attendee : T.PlayerId) (attendance : Bool) (mintTime : Nat) :
    (s.applyAttendanceToNfts gameIndex rounds maxGroupSize playerCount attendee attendance
      mintTime).outside = s.outside := by
  unfold applyAttendanceToNfts
  split
  · have hpromote : ∀ t : Store T, (t.promoteNftCandidates attendee mintTime).outside = t.outside :=
      fun t => outside_foldl (t.discardNftCandidates attendee)
        (fun (s : Store T) (key : T.PlayerId × Nft) => s.mintNft key.1 key.2 mintTime) (fun _ _ => rfl)
        (t.candidatesOf attendee)
    rw [hpromote, outside_mintAttendanceNfts]
  · rfl

@[simp] theorem outside_placeNft (playerId : T.PlayerId) (report : Report)
    (early : Option EarlyAttendanceEnactment) (nft : Nft) (mintTime : Nat) :
    (s.placeNft playerId report early nft mintTime).outside = s.outside := by
  unfold placeNft
  split <;> rfl

@[simp] theorem outside_resetPlayers : s.resetPlayers.outside = s.outside :=
  outside_foldl s _ (fun _ _ => outside_mutatePlayer ..) _

theorem outside_shuffleStepInsert {s s' : Store T} {lastIteration : Option T.PlayerId}
    {game game' : GameInfo T.PlayerId} {playerId : T.PlayerId}
    (h : s.shuffleStepInsert env lastIteration game = some (s', playerId, game')) :
    s'.outside = s.outside := by
  obtain ⟨⟨id, player⟩, -, heq⟩ := Option.map_eq_some_iff.mp h
  dsimp only at heq
  split at heq
  · cases heq
    refine (outside_foldl _ _ (fun s round => ?_) _).trans (outside_mutatePlayer ..)
    unfold stagePlayer
    dsimp only
    split <;> rfl
  · cases heq
    rfl

theorem outside_drainStaged {s s' : Store T} {recognizedFinished : Bool} {round : RoundIndex}
    {playerId : T.PlayerId} (h : s.drainStaged recognizedFinished round = some (s', playerId)) :
    s'.outside = s.outside := by
  unfold drainStaged at h
  split at h
  all_goals
    obtain ⟨⟨key, id⟩, -, heq⟩ := Option.map_eq_some_iff.mp h
    cases heq
    rfl

theorem outside_retrieveRounds (recognizedFinished : Bool) (rounds index : Nat) (left : List RoundIndex) :
    (retrieveRounds recognizedFinished rounds index s left).1.outside = s.outside := by
  induction left generalizing s with
  | nil => rfl
  | cons round rest ih =>
    unfold retrieveRounds
    split
    · rfl
    · rename_i t playerId hdrain
      have hdrained : t.outside = s.outside := outside_drainStaged hdrain
      exact (ih (t.assignIndex rounds round index playerId)).trans hdrained

theorem outside_shuffleStepRetrieve (nextPlayerIndex : Nat) (recognizedFinished : Bool) (rounds : Nat) :
    (s.shuffleStepRetrieve nextPlayerIndex recognizedFinished rounds).1.outside = s.outside := by
  have h := s.outside_retrieveRounds recognizedFinished rounds nextPlayerIndex (List.range rounds)
  unfold shuffleStepRetrieve
  split
  all_goals
    rename_i t heq
    rw [heq] at h
    exact h

theorem outside_shuffleStepComputeWeights {s s' : Store T} {lastIteration : Option T.PlayerId}
    {rounds playerCount maxPerGroup : Nat} {playerId : T.PlayerId}
    (h : s.shuffleStepComputeWeights lastIteration rounds playerCount maxPerGroup = some (s', playerId)) :
    s'.outside = s.outside := by
  obtain ⟨⟨id, indices⟩, -, heq⟩ := Option.map_eq_some_iff.mp h
  cases heq
  exact outside_mutatePlayer ..

theorem outside_takeIndices (playerId : T.PlayerId) (rounds : Nat) :
    (s.takeIndices playerId rounds).outside = s.outside := by
  unfold takeIndices
  split <;> rfl

theorem outside_cancellingTurn (rounds : Nat) (w : Store T × Option T.PlayerId × Weight × Bool) :
    (cancellingTurn rounds w).1.1.outside = w.1.outside := by
  obtain ⟨t, lastIteration, meter, finished⟩ := w
  unfold cancellingTurn
  dsimp only
  split
  · rfl
  · split
    · rename_i u playerId hstep
      obtain ⟨⟨id, player⟩, -, heq⟩ := Option.map_eq_some_iff.mp hstep
      cases heq
      exact outside_takeIndices ..
    · rfl

theorem outside_clearTurn (w : Store T × Clearing T × Weight) : (clearTurn w).1.1.outside = w.1.outside := by
  obtain ⟨t, c, meter⟩ := w
  have h₁ : ∀ (t : Store T) (c : Clearing T), (t.clearIndexToPlayer c).1.outside = t.outside := by
    intro t c
    unfold clearIndexToPlayer
    split <;> rfl
  have h₂ : ∀ (t : Store T) (c : Clearing T), (t.clearPlayerToIndex c).1.outside = t.outside := by
    intro t c
    unfold clearPlayerToIndex
    split <;> rfl
  unfold clearTurn
  dsimp only
  split
  · rfl
  · exact (h₂ _ _).trans (h₁ _ _)

/-! ### Services -/

theorem scored_onGameCancelled (game : GameInfo T.PlayerId) :
    Scored T s.outside (s.onGameCancelled game).outside := by
  unfold onGameCancelled
  split
  · exact .single (.served (.airdropCancelled game.index))
  · exact .refl

theorem scored_endSession : Scored T s.outside s.endSession.outside := by
  unfold endSession
  cases h : T.services.endPeopleSetMutationSession s.world with
  | none => exact .refl
  | some w => exact .single (.served (.sessionEnded w h))

theorem scored_startSession (game : GameInfo T.PlayerId) (playerCount : Nat) :
    Scored T s.outside (s.startSession game playerCount).1.outside := by
  unfold startSession
  split
  · simp only [Score.Store.startAttendanceReportSession]
    split
    · rename_i score world heq
      obtain ⟨rfl, hstart⟩ := Prod.mk.inj heq
      exact (Relation.ReflTransGen.single .thresholds).tail (.served (.sessionStarted world hstart))
    · rename_i score heq
      obtain ⟨rfl, -⟩ := Prod.mk.inj heq
      exact .single .thresholds
  · exact .refl

theorem scored_releaseStmtAccount (playerId : T.PlayerId) :
    Scored T s.outside (s.releaseStmtAccount playerId).outside := by
  unfold releaseStmtAccount
  split
  · exact .single (.served (.allowanceDecreased _))
  · split
    · exact .refl
    · exact .single (.served (.allowanceDecreased _))

theorem scored_archive (playerId : T.PlayerId) (player : Player T.PlayDeposit) (archived : ArchivedPlayer) :
    Scored T s.outside (s.archive playerId player archived).outside := by
  unfold archive
  split
  · rename_i ticket account _
    exact .trans (.single (.served (.depositBurned account ticket)))
      (scored_releaseStmtAccount { s with world := T.services.burnDeposit s.world account ticket }
        (.account account))
  · exact s.scored_releaseStmtAccount _

theorem scored_keep (playerId : T.PlayerId) (player : Player T.PlayDeposit) :
    Scored T s.outside (s.keep playerId player).outside := by
  unfold keep
  split
  · rename_i ticket hticket
    split
    · cases playerId with
      | account account =>
        show Scored T s.outside (s.score, (T.services.dropDeposit s.world account ticket).getD s.world)
        cases h : T.services.dropDeposit s.world account ticket with
        | none => exact .refl
        | some w => exact .single (.served (.depositDropped account ticket w h))
      | person id => exact .refl
    · exact .refl
  · exact .refl

/-! ### Attendance -/

theorem scored_applyAttendance (playerId : T.PlayerId) (attendance registered : Bool)
    (gameIndex pendingAttendance : Nat) :
    Scored T s.outside
      (s.applyAttendance playerId attendance registered gameIndex pendingAttendance).1.outside := by
  have h : Scored T s.outside (s.setAttendance playerId attendance gameIndex).1.outside := by
    unfold setAttendance
    dsimp only
    split
    · rename_i score world participant hset
      exact .single (.attended playerId attendance gameIndex participant hset)
    · exact .refl
  cases attendance <;> exact h

theorem scored_enactEarly (game : GameInfo T.PlayerId) (playerId : T.PlayerId)
    (player : Player T.PlayDeposit) (attendance : Bool) :
    Scored T s.outside (s.enactEarly env game playerId player attendance).outside := by
  unfold enactEarly
  split
  · have h := s.scored_applyAttendance playerId attendance player.registered game.index
      game.pendingAttendance
    generalize s.applyAttendance playerId attendance player.registered game.index
      game.pendingAttendance = r at h
    obtain ⟨t, pendingAttendance, result⟩ := r
    simpa using h
  · exact .refl

theorem scored_tryEarlyAttendanceEnactment (playerId : T.PlayerId) :
    Scored T s.outside (s.tryEarlyAttendanceEnactment env playerId).outside := by
  unfold tryEarlyAttendanceEnactment
  split
  · split
    · exact .refl
    · split
      · exact s.scored_enactEarly env _ playerId _ true
      · exact s.scored_enactEarly env _ playerId _ false
      · exact .refl
  · exact .refl

theorem scored_processPlayerAttendanceOutcome (game : GameInfo T.PlayerId) (playerCount : Nat)
    (playerId : T.PlayerId) (player : Player T.PlayDeposit) :
    Scored T s.outside (s.processPlayerAttendanceOutcome env game playerCount playerId player).1.outside := by
  have h : Scored T s.outside (s.enactAttendance env game playerCount playerId player).1.outside := by
    unfold enactAttendance
    split
    · exact .refl
    · have h := s.scored_applyAttendance playerId (finalAttendance player) player.registered game.index
        game.pendingAttendance
      generalize s.applyAttendance playerId (finalAttendance player) player.registered game.index
        game.pendingAttendance = r at h
      obtain ⟨t, pendingAttendance, result⟩ := r
      simpa using h
  unfold processPlayerAttendanceOutcome
  generalize s.enactAttendance env game playerCount playerId player = r at h
  obtain ⟨t, pendingAttendance, enactment⟩ := r
  refine h.trans ?_
  dsimp only
  split
  · exact t.scored_archive playerId player _
  · exact t.scored_archive playerId player _
  · exact t.scored_keep playerId player

theorem scored_playerProcessTurn (playerCount : Nat)
    (w : Store T × GameInfo T.PlayerId × Option T.PlayerId × Weight) :
    Scored T w.1.outside (playerProcessTurn env playerCount w).1.1.outside := by
  obtain ⟨t, game, lastIteration, meter⟩ := w
  unfold playerProcessTurn
  dsimp only
  split
  · exact .refl
  · split
    · exact .refl
    · exact t.scored_processPlayerAttendanceOutcome env game playerCount _ _

theorem scored_shuffleTurn (w : Store T × GameInfo T.PlayerId × Weight) :
    Scored T w.1.outside (shuffleTurn env w).1.1.outside := by
  obtain ⟨t, game, meter⟩ := w
  have hmove : ∀ step, Scored T t.outside (t.shuffleMove env game step).1.outside := by
    intro step
    unfold shuffleMove
    split
    · split
      · rename_i hinsert
        rw [outside_shuffleStepInsert env hinsert]
      · exact .refl
    · have h := t.outside_shuffleStepRetrieve
      split
      all_goals
        rename_i heq
        have h' := congrArg (fun r => (Prod.fst r).outside) heq
        rw [h] at h'
        rw [show Store.outside _ = t.outside from h'.symm]
    · split
      · rename_i hcompute
        rw [outside_shuffleStepComputeWeights hcompute]
      · exact .refl
    · exact t.scored_startSession game _
  unfold shuffleTurn
  dsimp only
  split
  · split
    · exact .refl
    · exact hmove _
  · exact .refl

/-! ### The hooks -/

theorem scored_shuffles (meter : Weight) (game : GameInfo T.PlayerId) :
    Scored T s.outside (s.shuffles env meter game).outside := by
  unfold shuffles
  split
  · exact .refl
  · rename_i meter' _
    split
    · exact s.scored_onGameCancelled game
    · exact repeatUpTo_induction
        (P := fun w : Store T × GameInfo T.PlayerId × Weight => Scored T s.outside w.1.outside)
        (s := (s, game, meter')) .refl (fun w h => h.trans (scored_shuffleTurn env w)) opUpperBound

theorem scored_playerProcessStep1 (meter : Weight) (game : GameInfo T.PlayerId)
    (lastIteration : Option T.PlayerId) (playerCount : Nat) :
    Scored T s.outside (s.playerProcessStep1 env meter game lastIteration playerCount).outside := by
  unfold playerProcessStep1
  split
  · exact .refl
  · rename_i meter' _
    have h := repeatUpTo_induction
      (P := fun w : Store T × GameInfo T.PlayerId × Option T.PlayerId × Weight =>
        Scored T s.outside w.1.outside)
      (s := (s, game, lastIteration, meter')) .refl
      (fun w h => h.trans (scored_playerProcessTurn env playerCount w)) opUpperBound
    generalize repeatUpTo (playerProcessTurn env playerCount) opUpperBound
      (s, game, lastIteration, meter') = out at h
    obtain ⟨t, game', lastIteration', rest⟩ := out
    dsimp only
    split
    · exact h.trans t.scored_endSession
    · exact h

theorem outside_playerProcessStep2 (meter : Weight) : (s.playerProcessStep2 meter).outside = s.outside := by
  unfold playerProcessStep2
  split
  · rfl
  · rename_i meter' _
    have h := repeatUpTo_induction
      (P := fun w : Store T × Clearing T × Weight => w.1.outside = s.outside)
      (s := (s, ⟨none, none, false, false⟩, meter')) rfl
      (fun w h => (outside_clearTurn w).trans h) opUpperBound
    generalize repeatUpTo clearTurn opUpperBound (s, ⟨none, none, false, false⟩, meter') = out at h
    obtain ⟨t, c, rest⟩ := out
    dsimp only
    split <;> exact h

theorem outside_processCancelling (meter : Weight) (game : GameInfo T.PlayerId)
    (lastIteration : Option T.PlayerId) :
    (s.processCancelling meter game lastIteration).outside = s.outside := by
  unfold processCancelling
  split
  · rfl
  · rename_i meter' _
    have h := repeatUpTo_induction
      (P := fun w : Store T × Option T.PlayerId × Weight × Bool => w.1.outside = s.outside)
      (s := (s, lastIteration, meter', false)) rfl
      (fun w h => (outside_cancellingTurn game.rounds w).trans h) opUpperBound
    generalize repeatUpTo (cancellingTurn game.rounds) opUpperBound
      (s, lastIteration, meter', false) = out at h
    obtain ⟨t, lastIteration', rest, finished⟩ := out
    dsimp only
    split <;> exact h

theorem scored_processGame (meter : Weight) (game : GameInfo T.PlayerId) :
    Scored T s.outside (s.processGame env meter game).outside := by
  unfold processGame
  split
  · exact .refl
  · split
    · unfold endRegistration
      split
      · exact .refl
      · split
        · exact .refl
        · split
          · exact .refl
          · split
            · exact .refl
            · exact s.scored_onGameCancelled game
    · exact s.scored_shuffles env meter game
    · have h : (s.processReporting env meter).outside = s.outside := by
        unfold processReporting
        split
        · split
          · split <;> rfl
          · rfl
        · rfl
      rw [h]
    · exact s.scored_playerProcessStep1 env meter game _ _
    · rw [outside_playerProcessStep2]
    · rw [outside_processCancelling]

theorem scored_startScheduledGame (meter : Weight) :
    Scored T s.outside (s.startScheduledGame env meter).outside := by
  have htry : ∀ starts draw ends schedule,
      Scored T s.outside (s.tryScheduleAirdrop (U32.saturatingAdd s.gameIndex 1) starts draw ends
        schedule).1.outside := by
    intro starts draw ends schedule
    unfold tryScheduleAirdrop
    split
    · exact .refl
    · split
      · rename_i prize _ _ w hairdrop
        exact .single (.served (.airdropScheduled _ prize _ _ _ w hairdrop))
      · exact .refl
  have hnew : ∀ schedule t, s.newGame env schedule = .ok t → Scored T s.outside t.outside := by
    intro schedule t h
    simp only [newGame, bind_eq_ok, Except.ok.injEq] at h
    obtain ⟨-, -, -, -, -, -, -, -, -, -, -, -, -, -, -, -, rfl⟩ := h
    exact htry _ _ _ schedule
  unfold startScheduledGame
  split
  · exact .refl
  · split
    · exact .refl
    · rename_i schedule _ _
      split
      · exact .refl
      · cases h : s.newGame env schedule with
        | error e => exact .refl
        | ok t => exact hnew schedule t h

theorem scored_onPoll (remaining : Weight) : Scored T s.outside (s.onPoll env remaining).outside := by
  unfold onPoll
  split
  · exact .refl
  · split
    · exact s.scored_startScheduledGame env _
    · exact s.scored_processGame env _ _

theorem scored_onIdle (remaining : Weight) : Scored T s.outside (s.onIdle env remaining).outside := by
  unfold onIdle
  split
  · exact .refl
  · split
    · exact .refl
    · exact s.scored_processGame env _ _

/-! ### Signing up -/

section SignUp
variable {s} {s' : Store T}

theorem scored_bindStmtAccount {who : Alias} {statementAccount : T.AccountId}
    (h : s.bindStmtAccount who statementAccount = .ok s') : Scored T s.outside s'.outside := by
  unfold bindStmtAccount at h
  split at h
  · cases h
    exact .refl
  · simp only [bind_eq_ok, ensure_eq_ok, Except.ok.injEq] at h
    obtain ⟨-, -, rfl⟩ := h
    cases s.aliasToStmtAccount.get who with
    | none => exact .single (.served (.allowanceIncreased statementAccount))
    | some previous =>
      exact (Relation.ReflTransGen.single (.served (.allowanceDecreased previous))).tail
        (.served (.allowanceIncreased statementAccount))

theorem scored_resolveSignUp {args : SignUpArgs T} {r : T.PlayerId × Bool × Option (Airdrop T)}
    (h : s.resolveSignUp args = .ok (s', r)) : Scored T s.outside s'.outside := by
  rcases args with ⟨who, statementAccount, signature, airdrop⟩ | ⟨who, newInvited, airdrop⟩
  · simp only [resolveSignUp, bind_eq_ok, Except.ok.injEq, Prod.mk.injEq] at h
    obtain ⟨-, -, t, ht, rfl, -⟩ := h
    exact scored_bindStmtAccount ht
  · simp only [resolveSignUp, bind_eq_ok, Except.ok.injEq, Prod.mk.injEq] at h
    obtain ⟨-, -, rfl, -⟩ := h
    exact .refl

theorem scored_onboardIfNew {who : T.PlayerId} {isNew : Bool} (h : s.onboardIfNew who isNew = .ok s') :
    Scored T s.outside s'.outside := by
  unfold onboardIfNew at h
  split at h
  · unfold onboard at h
    split at h
    · split at h
      · rename_i hon
        cases h
        exact .single (.onboarded _ hon)
      · cases h
    · split at h
      · rename_i hon
        cases h
        exact .single (.onboardedExternally _ hon)
      · cases h
  · cases h
    exact .refl

theorem scored_takeCredibility {who : T.PlayerId} {player : Option (Player T.PlayDeposit)}
    {archived : Option ArchivedPlayer} {newInvited : Bool} {gameIndex : Nat}
    {r : Nat × PlayerCredibility T.PlayDeposit}
    (h : s.takeCredibility who player archived newInvited gameIndex = .ok (s', r)) :
    Scored T s.outside s'.outside := by
  unfold takeCredibility at h
  split at h
  · cases h
    exact .refl
  · split at h
    · cases h
      exact .refl
    · dsimp only at h
      split at h
      · split at h
        · rename_i ticket world hdeposit
          cases h
          exact .single (.served (.depositTaken _ _ ticket world hdeposit))
        · cases h
      · cases h
        exact .refl

theorem scored_registerForAirdrop {airdrop : Option (Airdrop T)} {who : T.PlayerId}
    {airdropScheduled : Bool} {gameIndex : Nat}
    (h : s.registerForAirdrop airdrop who airdropScheduled gameIndex = .ok s') :
    Scored T s.outside s'.outside := by
  unfold registerForAirdrop at h
  split at h
  · dsimp only at h
    split at h <;> simp only [bind_eq_ok, ensure_eq_ok, okOr_eq_ok, Except.ok.injEq, reduceCtorEq,
      and_false, exists_const] at h
    · obtain ⟨-, world, hpart, rfl⟩ := h
      exact .single (.served (.participatedWithAlias _ _ _ _ _ world hpart))
    · obtain ⟨-, world, hpart, rfl⟩ := h
      exact .single (.served (.participatedWithAccount _ _ _ world hpart))
  · cases h
    exact .refl

theorem scored_allowStatements (s : Store T) (who : T.PlayerId) (isPlaying : Bool) :
    Scored T s.outside (s.allowStatements who isPlaying).outside := by
  unfold allowStatements
  split
  · exact .single (.served (.allowanceIncreased _))
  · exact .refl

theorem scored_signUp {args : SignUpArgs T} (h : s.signUp env args = .ok s') :
    Scored T s.outside s'.outside := by
  obtain ⟨d⟩ := signUp_eq_ok env h
  have hbound : Scored T s.outside d.bound.outside := scored_resolveSignUp d.bound_eq
  have honboarded : Scored T { d.bound with
      archivedPlayers := d.bound.archivedPlayers.remove d.who }.outside d.onboarded.outside :=
    scored_onboardIfNew d.onboarded_eq
  have hcredible : Scored T d.onboarded.outside d.credible.outside := scored_takeCredibility d.credible_eq
  have hentered : Scored T (d.credible.putPlayer d.who
      (.fresh true d.firstGame d.credibility)).outside d.entered.outside :=
    scored_registerForAirdrop d.entered_eq
  have hentered' := ((hbound.trans honboarded).trans hcredible).trans hentered
  exact (congrArg (fun t : Store T => Scored T s.outside t.outside) d.eq).mpr
    (hentered'.trans (scored_allowStatements d.entered d.who _))

end SignUp

/-! ### Reporting -/

section Report
variable {s} {s' : Store T}

theorem outside_reportGroup {gameIndex : Nat} {who : T.PlayerId} {weight mintTime : Nat}
    {round : RoundIndex} {reported reported' : List T.PlayerId} {others : List PlayerIndex}
    {reports : List Report}
    (h : reportGroup gameIndex who weight mintTime round s reported others reports =
      .ok (s', reported')) : s'.outside = s.outside := by
  induction others generalizing s reported reports with
  | nil =>
    cases reports with
    | nil =>
      cases h
      rfl
    | cons report reports => cases h
  | cons index others ih =>
    cases reports with
    | nil => cases h
    | cons report reports =>
      simp only [reportGroup, bind_eq_ok, okOr_eq_ok] at h
      obtain ⟨playerId, -, ⟨t, early⟩, hcount, h⟩ := h
      have ht : t.outside = s.outside := by
        unfold countVote at hcount
        split at hcount
        · cases hcount
        · cases hcount
          rfl
      exact (ih h).trans ((outside_placeNft ..).trans ht)

theorem outside_reportRounds {game : GameInfo T.PlayerId} {playerCount : Nat} {who : T.PlayerId}
    {weight mintTime : Nat} {indices : List PlayerIndex} {fullReport : List (List Report)}
    {reported reported' : List T.PlayerId} {rounds : List RoundIndex}
    (h : reportRounds game playerCount who weight mintTime indices fullReport s reported rounds =
      .ok (s', reported')) : s'.outside = s.outside := by
  induction rounds generalizing s reported with
  | nil =>
    cases h
    rfl
  | cons round rounds ih =>
    simp only [reportRounds, bind_eq_ok, okOr_eq_ok] at h
    obtain ⟨reports, -, index, -, ⟨t, reported₁⟩, hgroup, h⟩ := h
    exact (ih h).trans (outside_reportGroup hgroup)

theorem scored_report {who : T.PlayerId} {fullReport : List (List Report)}
    (h : s.report env who fullReport = .ok s') : Scored T s.outside s'.outside := by
  have hall : ∀ (l : List T.PlayerId) (t : Store T), Scored T t.outside
      (l.foldl (fun s playerId => s.tryEarlyAttendanceEnactment env playerId) t).outside := by
    intro l
    induction l with
    | nil => exact fun t => .refl
    | cons playerId l ih =>
      intro t
      exact (t.scored_tryEarlyAttendanceEnactment env playerId).trans (ih _)
  unfold report at h
  simp only [bind_eq_ok, okOr_eq_ok, ensure_eq_ok] at h
  obtain ⟨game, -, -, -, h⟩ := h
  split at h
  · simp only [bind_eq_ok, okOr_eq_ok, ensure_eq_ok, Except.ok.injEq] at h
    obtain ⟨⟨t, weight⟩, hmark, -, -, indices, -, ⟨u, reported⟩, hrounds, rfl⟩ := h
    have ht : t.outside = s.outside := by
      simp only [markReporter, bind_eq_ok, Except.ok.injEq] at hmark
      obtain ⟨player, -, -, -, heq⟩ := hmark
      cases heq
      rfl
    rw [← ht, ← outside_reportRounds hrounds]
    exact (hall reported u).trans (scored_tryEarlyAttendanceEnactment env _ who)
  · cases h

end Report

/-! ### Calls -/

section Exec
variable {s} {s' : Store T}

/-- A player that leaves has the services a deposit and a statement account ask for, and then the
score pallet removes it. -/
theorem offboard_outside {who : T.PlayerId} (h : s.offboard who = .ok s') :
    ∃ w, Scored T s.outside (s.score, w) ∧ s'.outside = s.score.offboard T.services.toServices w who := by
  simp only [offboard, bind_eq_ok, ensure_eq_ok, Except.ok.injEq] at h
  obtain ⟨-, -, -, -, -, -, world, hdeposit, rfl⟩ := h
  have hworld : Scored T s.outside (s.score, world) := by
    unfold returnDeposit at hdeposit
    split at hdeposit
    · rename_i ticket account _
      exact .single (.served (.depositDropped account ticket world (okOr_eq_ok.mp hdeposit)))
    · cases hdeposit
      exact .refl
  have hreleased := scored_releaseStmtAccount { s with
    archivedPlayers := s.archivedPlayers.remove who
    players := s.players.remove who
    world := world } who
  have hscore : ∀ t : Store T, (t.releaseStmtAccount who).score = t.score := by
    intro t
    unfold releaseStmtAccount
    split
    · rfl
    · split <;> rfl
  specialize hscore { s with
    archivedPlayers := s.archivedPlayers.remove who
    players := s.players.remove who
    world := world }
  generalize Store.releaseStmtAccount _ who = released at hreleased hscore ⊢
  replace hreleased : Scored T s.outside (s.score, released.world) := by
    rw [← show released.score = s.score from hscore]
    exact hworld.trans hreleased
  split
  · exact ⟨released.world, hreleased, by rw [← show released.score = s.score from hscore]; rfl⟩
  · exact ⟨world, hworld, by rw [← show released.score = s.score from hscore]; rfl⟩

theorem kickout_outside {player : T.AccountId} (h : s.kickout env player = .ok s') :
    s'.outside = s.score.offboard T.services.toServices s.world (.account player) := by
  simp only [kickout, bind_eq_ok, okOr_eq_ok] at h
  obtain ⟨archived, -, h⟩ := h
  cases archived with
  | kickable firstGame since =>
    simp only [bind_eq_ok, Except.ok.injEq] at h
    obtain ⟨-, -, rfl⟩ := h
    rfl
  | unkickable firstGame => cases h

/-- What an accepted call does outside, unless a player leaves by it. -/
theorem exec_scored {call : Call T} (h : s.exec env call = .ok s')
    (hoffboard : ∀ who, call ≠ .offboard who) (hkickout : ∀ player, call ≠ .kickout player)
    (hscore : ∀ score, call ≠ .score score) (helsewhere : ∀ world, call ≠ .elsewhere world) :
    Scored T s.outside s'.outside := by
  cases call with
  | signUp args => exact scored_signUp env h
  | report who fullReport => exact scored_report env h
  | offboard who => exact absurd rfl (hoffboard who)
  | kickout player => exact absurd rfl (hkickout player)
  | scheduleGames schedules =>
    simp only [exec, scheduleGames, bind_eq_ok, Except.ok.injEq] at h
    obtain ⟨-, -, -, -, schedules', -, rfl⟩ := h
    exact .refl
  | removeScheduledGame gamePlayTime =>
    simp only [exec, removeScheduledGame] at h
    split at h
    · cases h
      exact .refl
    · cases h
  | setGamePhases phases =>
    simp only [exec, setGamePhases, bind_eq_ok, Except.ok.injEq] at h
    obtain ⟨-, -, rfl⟩ := h
    exact .refl
  | setPlayDeposit amount =>
    simp only [exec, setPlayDeposit, bind_eq_ok, Except.ok.injEq] at h
    obtain ⟨-, -, rfl⟩ := h
    exact .refl
  | killCurrentGame =>
    cases h
    show Scored T s.outside (Store.resetPlayers _).outside
    rw [outside_resetPlayers]
    split
    · exact .refl
    · split
      · exact s.scored_endSession.trans (scored_onGameCancelled _ _)
      · exact s.scored_onGameCancelled _
  | testnetForceStartShuffle =>
    simp only [exec, testnetForceStartShuffle, bind_eq_ok, Except.ok.injEq] at h
    obtain ⟨-, -, game, -, -, -, rfl⟩ := h
    exact .refl
  | testnetForceEndReporting =>
    simp only [exec, testnetForceEndReporting, bind_eq_ok] at h
    obtain ⟨-, -, game, -, h⟩ := h
    split at h
    · cases h
      exact .refl
    · cases h
  | onPoll remaining =>
    cases h
    exact s.scored_onPoll env remaining
  | onIdle remaining =>
    cases h
    exact s.scored_onIdle env remaining
  | score score => exact absurd rfl (hscore score)
  | elsewhere world => exact absurd rfl (helsewhere world)

end Exec
end Store
end Individuality.Game
