import Individuality.Game.Turns
import Individuality.Game.Frames

/-! What a run leaves to read.

The events of a store's log since the last game started tell whose attendance was set
(`settlements`) and noted (`attendees`), and the roster they are about is that of the
players when the reporting opened. Only a game's start, the opening, a vote and an
attendance are logged; every other operation leaves the log as it is. -/
namespace Individuality.Game
open Support
variable {T : Config}

/-- The attendances set since the last game started, each with its game, the newest first. -/
def settlementsOf : List (Event T) → List (T.PlayerId × Bool × Nat)
  | [] | .gameStarted _ :: _ => []
  | .attendanceSet playerId attendance gameIndex :: log =>
    (playerId, attendance, gameIndex) :: settlementsOf log
  | _ :: log => settlementsOf log

/-- The attendances noted since the last game started, each with its game, the newest first. -/
def attendeesOf : List (Event T) → List (T.PlayerId × Nat)
  | [] | .gameStarted _ :: _ => []
  | .attendanceNoted playerId gameIndex :: log => (playerId, gameIndex) :: attendeesOf log
  | _ :: log => attendeesOf log

/-- The players when the reporting of the last game opened. -/
def rosterOf : List (Event T) → StorageMap T.PlayerId (Player T.PlayDeposit)
  | [] | .gameStarted _ :: _ => ∅
  | .reportingOpened _ _ players _ :: _ => players
  | _ :: log => rosterOf log

namespace Store
variable (env : Env T) (s : Store T)

def settlements : List (T.PlayerId × Bool × Nat) := settlementsOf s.log

/-- The players whose attendance was set since the last game started. -/
def settled : List T.PlayerId := s.settlements.map Prod.fst

def attendees : List (T.PlayerId × Nat) := attendeesOf s.log

def roster : StorageMap T.PlayerId (Player T.PlayDeposit) := rosterOf s.log

@[simp] theorem log_putGame (game : GameInfo T.PlayerId) : (s.putGame game).log = s.log := rfl

@[simp] theorem log_putPlayer (playerId : T.PlayerId) (player : Player T.PlayDeposit) :
    (s.putPlayer playerId player).log = s.log := rfl

@[simp] theorem log_mutatePlayer (playerId : T.PlayerId)
    (f : Player T.PlayDeposit → Player T.PlayDeposit) : (s.mutatePlayer playerId f).log = s.log := by
  unfold mutatePlayer
  split <;> rfl

/-- A loop whose turns log nothing logs nothing. -/
theorem log_foldl {β : Type} (f : Store T → β → Store T) (h : ∀ s b, (f s b).log = s.log) (l : List β) :
    (l.foldl f s).log = s.log := by
  induction l generalizing s with
  | nil => rfl
  | cons b l ih =>
    rw [List.foldl_cons, ih, h]

/-! ### Attendance -/

@[simp] theorem log_mintAttendanceNfts (gameIndex rounds maxGroupSize playerCount : Nat)
    (attendee : T.PlayerId) (mintTime : Nat) :
    (s.mintAttendanceNfts gameIndex rounds maxGroupSize playerCount attendee mintTime).log = s.log := by
  unfold mintAttendanceNfts
  split
  · rfl
  · refine log_foldl s _ (fun s round => ?_) _
    split
    · rfl
    · refine log_foldl s _ (fun s i => ?_) _
      split <;> rfl

@[simp] theorem log_applyAttendanceToNfts (gameIndex rounds maxGroupSize playerCount : Nat)
    (attendee : T.PlayerId) (attendance : Bool) (mintTime : Nat) :
    (s.applyAttendanceToNfts gameIndex rounds maxGroupSize playerCount attendee attendance
      mintTime).log = s.log := by
  have hpromote : ∀ t : Store T, (t.promoteNftCandidates attendee mintTime).log = t.log :=
    fun t => log_foldl (t.discardNftCandidates attendee)
      (fun (s : Store T) (key : T.PlayerId × Nft) => s.mintNft key.1 key.2 mintTime) (fun _ _ => rfl)
      (t.candidatesOf attendee)
  unfold applyAttendanceToNfts
  split
  · rw [hpromote, log_mintAttendanceNfts]
  · rfl

@[simp] theorem log_placeNft (playerId : T.PlayerId) (report : Report)
    (early : Option EarlyAttendanceEnactment) (nft : Nft) (mintTime : Nat) :
    (s.placeNft playerId report early nft mintTime).log = s.log := by
  unfold placeNft
  split <;> rfl

/-- What applying an attendance logs. -/
def attendanceEvents (playerId : T.PlayerId) (attendance : Bool) (gameIndex : Nat) : List (Event T) :=
  if attendance then
    [.attendanceNoted playerId gameIndex, .attendanceSet playerId attendance gameIndex]
  else [.attendanceSet playerId attendance gameIndex]

theorem log_setAttendance (playerId : T.PlayerId) (attendance : Bool) (gameIndex : Nat) :
    (s.setAttendance playerId attendance gameIndex).1.log =
      .attendanceSet playerId attendance gameIndex :: s.log := by
  unfold setAttendance
  dsimp only
  split <;> rfl

theorem log_applyAttendance (playerId : T.PlayerId) (attendance registered : Bool)
    (gameIndex pendingAttendance : Nat) :
    (s.applyAttendance playerId attendance registered gameIndex pendingAttendance).1.log =
      attendanceEvents playerId attendance gameIndex ++ s.log := by
  have h := s.log_setAttendance playerId attendance gameIndex
  cases attendance with
  | false => exact h
  | true => exact congrArg (Event.attendanceNoted playerId gameIndex :: ·) h

theorem pending_applyAttendance (playerId : T.PlayerId) (attendance registered : Bool)
    (gameIndex pendingAttendance : Nat) :
    (s.applyAttendance playerId attendance registered gameIndex pendingAttendance).2.1 =
      if registered then pendingAttendance - 1 else pendingAttendance := rfl

variable {s}

theorem settlementsOf_attendanceEvents (playerId : T.PlayerId) (attendance : Bool) (gameIndex : Nat)
    (log : List (Event T)) : settlementsOf (attendanceEvents playerId attendance gameIndex ++ log) =
      (playerId, attendance, gameIndex) :: settlementsOf log := by
  cases attendance <;> rfl

theorem attendeesOf_attendanceEvents (playerId : T.PlayerId) (attendance : Bool) (gameIndex : Nat)
    (log : List (Event T)) : attendeesOf (attendanceEvents playerId attendance gameIndex ++ log) =
      if attendance then (playerId, gameIndex) :: attendeesOf log else attendeesOf log := by
  cases attendance <;> rfl

theorem rosterOf_attendanceEvents (playerId : T.PlayerId) (attendance : Bool) (gameIndex : Nat)
    (log : List (Event T)) :
    rosterOf (attendanceEvents playerId attendance gameIndex ++ log) = rosterOf log := by
  cases attendance <;> rfl

/-! ### The rest logs nothing -/

variable (s)

@[simp] theorem log_endSession : s.endSession.log = s.log := rfl

@[simp] theorem log_releaseStmtAccount (playerId : T.PlayerId) :
    (s.releaseStmtAccount playerId).log = s.log := by
  unfold releaseStmtAccount
  split
  · rfl
  · split <;> rfl

@[simp] theorem log_archive (playerId : T.PlayerId) (player : Player T.PlayDeposit)
    (archived : ArchivedPlayer) : (s.archive playerId player archived).log = s.log := by
  unfold archive
  dsimp only
  rw [log_releaseStmtAccount]
  split <;> rfl

@[simp] theorem log_keep (playerId : T.PlayerId) (player : Player T.PlayDeposit) :
    (s.keep playerId player).log = s.log := by
  unfold keep
  split
  · split <;> rfl
  · rfl

variable {s} {s' : Store T}

theorem log_newGame {schedule : GameSchedule T.services.Prize} (h : s.newGame env schedule = .ok s') :
    s'.log = .gameStarted (U32.saturatingAdd s.gameIndex 1) :: s.log := by
  have htry : ∀ index starts draw ends,
      (s.tryScheduleAirdrop index starts draw ends schedule).1.log = s.log := by
    intro index starts draw ends
    unfold tryScheduleAirdrop
    split
    · rfl
    · split <;> rfl
  simp only [newGame, bind_eq_ok, Except.ok.injEq] at h
  obtain ⟨-, -, -, -, -, -, -, -, -, -, -, -, -, -, -, -, rfl⟩ := h
  exact congrArg (.gameStarted (U32.saturatingAdd s.gameIndex 1) :: ·) (htry _ _ _ _)

theorem log_offboard {who : T.PlayerId} (h : s.offboard who = .ok s') : s'.log = s.log := by
  simp only [offboard, bind_eq_ok, ensure_eq_ok, Except.ok.injEq] at h
  obtain ⟨-, -, -, -, -, -, world, -, rfl⟩ := h
  dsimp only
  split <;> exact log_releaseStmtAccount ..

theorem log_kickout {player : T.AccountId} (h : s.kickout env player = .ok s') : s'.log = s.log := by
  simp only [kickout, bind_eq_ok, okOr_eq_ok] at h
  obtain ⟨archived, -, h⟩ := h
  cases archived with
  | kickable firstGame since =>
    simp only [bind_eq_ok, Except.ok.injEq] at h
    obtain ⟨-, -, rfl⟩ := h
    rfl
  | unkickable firstGame => cases h

theorem log_resolveSignUp {args : SignUpArgs T} {r : T.PlayerId × Bool × Option (Airdrop T)}
    (h : s.resolveSignUp args = .ok (s', r)) : s'.log = s.log := by
  rcases args with ⟨who, statementAccount, signature, airdrop⟩ | ⟨who, newInvited, airdrop⟩
  · simp only [resolveSignUp, bind_eq_ok, Except.ok.injEq, Prod.mk.injEq] at h
    obtain ⟨-, -, t, ht, rfl, -⟩ := h
    unfold bindStmtAccount at ht
    split at ht
    · cases ht
      rfl
    · simp only [bind_eq_ok, ensure_eq_ok, Except.ok.injEq] at ht
      obtain ⟨-, -, rfl⟩ := ht
      cases s.aliasToStmtAccount.get who <;> rfl
  · simp only [resolveSignUp, bind_eq_ok, Except.ok.injEq, Prod.mk.injEq] at h
    obtain ⟨-, -, rfl, -⟩ := h
    rfl

theorem log_onboardIfNew {who : T.PlayerId} {isNew : Bool} (h : s.onboardIfNew who isNew = .ok s') :
    s'.log = s.log := by
  unfold onboardIfNew at h
  split at h
  · unfold onboard at h
    split at h <;> split at h <;> cases h <;> rfl
  · cases h
    rfl

theorem log_takeCredibility {who : T.PlayerId} {player : Option (Player T.PlayDeposit)}
    {archived : Option ArchivedPlayer} {newInvited : Bool} {gameIndex : Nat}
    {r : Nat × PlayerCredibility T.PlayDeposit}
    (h : s.takeCredibility who player archived newInvited gameIndex = .ok (s', r)) : s'.log = s.log := by
  unfold takeCredibility at h
  split at h
  · cases h
    rfl
  · split at h
    · cases h
      rfl
    · dsimp only at h
      split at h
      · split at h <;> cases h
        rfl
      · cases h
        rfl

theorem log_registerForAirdrop {airdrop : Option (Airdrop T)} {who : T.PlayerId}
    {airdropScheduled : Bool} {gameIndex : Nat}
    (h : s.registerForAirdrop airdrop who airdropScheduled gameIndex = .ok s') : s'.log = s.log := by
  unfold registerForAirdrop at h
  split at h
  · dsimp only at h
    split at h <;> simp only [bind_eq_ok, ensure_eq_ok, okOr_eq_ok, Except.ok.injEq, reduceCtorEq,
      and_false, exists_const] at h
    · obtain ⟨-, world, -, rfl⟩ := h
      rfl
    · obtain ⟨-, world, -, rfl⟩ := h
      rfl
  · cases h
    rfl

theorem log_signUp {args : SignUpArgs T} (h : s.signUp env args = .ok s') : s'.log = s.log := by
  obtain ⟨d⟩ := signUp_eq_ok env h
  have hallow : ∀ isPlaying, (d.entered.allowStatements d.who isPlaying).log = d.entered.log := by
    intro isPlaying
    unfold allowStatements
    split <;> rfl
  refine (congrArg Store.log d.eq).trans ?_
  rw [log_putGame, hallow, log_registerForAirdrop d.entered_eq, log_putPlayer,
    log_takeCredibility d.credible_eq, log_onboardIfNew d.onboarded_eq]
  have hbound : d.bound.log = s.log := log_resolveSignUp d.bound_eq
  exact hbound

end Store
end Individuality.Game
