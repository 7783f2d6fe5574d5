import Individuality.Support.BoundedVec
import Individuality.Support.Outcome
import Individuality.Support.StorageMap

/-! The score pallet: participants, their scores and their personhood.

Attendance moves a participant's score and streak, and with them whether the
participant has reached personhood. The thresholds follow the number of active
people when an attendance report session starts. `Services` is what the pallet
asks of the rest of the chain, over a type `W` of that rest's states. -/
namespace Individuality.Score
open Support

abbrev Alias := Vector UInt8 32

/-- An account or a person. -/
inductive AccountOrPerson (A : Type)
  | account (account : A)
  | person (id : Alias)
  deriving DecidableEq

namespace AccountOrPerson
variable {A : Type}

def account? : AccountOrPerson A → Option A
  | account a => some a
  | person _ => none

end AccountOrPerson

/-! ### Attendance -/

/-- The last eight games, the most recent one first; a participant starts with all attended. -/
abbrev AttendanceHistory := BitVec 8

namespace AttendanceHistory

def initial : AttendanceHistory := 0xFF#8

def storeAttendance (history : AttendanceHistory) (attended : Bool) : AttendanceHistory :=
  history <<< 1 ||| BitVec.ofNat 8 attended.toNat

def missesInWindow (history : AttendanceHistory) (window : Nat) : Nat :=
  let window := min window 8
  window - ((List.range window).countP fun i => history.getLsbD i)

end AttendanceHistory

inductive Streak
  | attended (count : Nat)
  | absent (count : Nat)
  deriving DecidableEq, Repr

namespace Streak

def addAttendance (amount : Nat) : Streak → Streak
  | attended count => attended (U32.saturatingAdd count amount)
  | absent _ => attended amount

def addAbsence (amount : Nat) : Streak → Streak
  | absent count => absent (U32.saturatingAdd count amount)
  | attended _ => absent amount

def attendance : Streak → Nat
  | attended count => count
  | absent _ => 0

def absence : Streak → Nat
  | absent count => count
  | attended _ => 0

end Streak

inductive Recognition
  | externallyRecognized
  | notRecognized
  | suspended (id : Nat)
  | recognized (id : Nat)
  deriving DecidableEq, Repr

namespace Recognition

def isRecognized : Recognition → Bool
  | recognized _ | externallyRecognized => true
  | _ => false

def isExternallyRecognized : Recognition → Bool
  | externallyRecognized => true
  | _ => false

end Recognition

structure Participant where
  score : Nat
  credit : Nat
  streak : Streak
  attendanceHistory : AttendanceHistory
  recognition : Recognition
  cashedOut : Bool
  reachedPersonhood : Bool
  hasEverReachedPersonhood : Bool
  lastAttendedGame : Option Nat
  deriving DecidableEq, Repr

/-! ### Thresholds -/

structure PersonhoodThresholdTier where
  populationSizeThreshold : Nat
  scoreThreshold : Nat
  deriving DecidableEq, Repr

structure AbsenceGraceTier where
  populationSizeThreshold : Nat
  window : Nat
  allowedMisses : Nat
  deriving DecidableEq, Repr

def maxPersonhoodThreshold : Nat := 21

def defaultPersonhoodThresholdTiers : List PersonhoodThresholdTier :=
  [⟨5000, 1⟩, ⟨10000, 3⟩, ⟨20000, 6⟩, ⟨35000, 10⟩, ⟨50000, 15⟩, ⟨U32.max, maxPersonhoodThreshold⟩]

def defaultAbsenceGraceTiers : List AbsenceGraceTier :=
  [⟨5000, 6, 5⟩, ⟨10000, 5, 4⟩, ⟨20000, 4, 3⟩, ⟨35000, 3, 2⟩, ⟨50000, 2, 1⟩, ⟨U32.max, 6, 1⟩]

def calculatePersonhoodThreshold (schedule : List PersonhoodThresholdTier) (activeCount : Nat) : Nat :=
  match schedule.find? fun t => activeCount ≤ t.populationSizeThreshold with
  | some tier => tier.scoreThreshold
  | none => maxPersonhoodThreshold

/-- The allowed misses and the window they are counted in. -/
def calculateAbsenceGraceRatio (schedule : List AbsenceGraceTier) (activeCount : Nat) : Nat × Nat :=
  match (schedule.find? fun t => activeCount ≤ t.populationSizeThreshold).or schedule.getLast? with
  | some tier => (tier.allowedMisses, tier.window)
  | none => (0, 0)

/-! ### The store -/

/-- What the pallet asks of the rest of the chain. -/
structure Services (A W : Type) where
  incSufficients : W → A → W
  decSufficients : W → A → W
  canStartPeopleSetMutationSession : W → Bool
  startPeopleSetMutationSession : W → Option W
  endPeopleSetMutationSession : W → Option W
  suspendPersonhood : W → Nat → W
  activeCount : W → Nat

structure Store (A : Type) where
  participants : StorageMap (AccountOrPerson A) Participant
  personhoodThreshold : Nat
  personhoodThresholdSchedule : List PersonhoodThresholdTier
  absenceGraceSchedule : List AbsenceGraceTier
  /-- The allowed misses and the window they are counted in. -/
  absenceGraceRatio : Nat × Nat

inductive Error
  | alreadyParticipating
  | noScore
  | people
  deriving DecidableEq, Repr

namespace Store
variable {A W : Type} [DecidableEq A]

def genesis (A : Type) : Store A where
  participants := ∅
  personhoodThreshold := 0
  personhoodThresholdSchedule := defaultPersonhoodThresholdTiers
  absenceGraceSchedule := defaultAbsenceGraceTiers
  absenceGraceRatio := (0, 0)

variable (services : Services A W) (s : Store A) (w : W)

def onboardForRecognition (who : A) : Except Error (Store A × W) := do
  ensure (s.participants.contains (.account who) = false) .alreadyParticipating
  .ok ({ s with
    participants := s.participants.insert (.account who)
      ⟨0, 0, .attended 0, .initial, .notRecognized, false, false, false, none⟩ },
    services.incSufficients w who)

def onboardExternallyRecognized (who : Alias) : Except Error (Store A) := do
  ensure (s.participants.contains (.person who) = false) .alreadyParticipating
  .ok { s with
    participants := s.participants.insert (.person who)
      ⟨s.personhoodThreshold, 0, .attended 0, .initial, .externallyRecognized, false, true, true, none⟩ }

def offboard (who : AccountOrPerson A) : Store A × W :=
  ({ s with participants := s.participants.remove who },
    match who with
    | .account account => services.decSufficients w account
    | .person _ => w)

def updateThresholds : Store A :=
  let activeCount := services.activeCount w
  { s with
    personhoodThreshold := calculatePersonhoodThreshold s.personhoodThresholdSchedule activeCount
    absenceGraceRatio := calculateAbsenceGraceRatio s.absenceGraceSchedule activeCount }

/-- The thresholds are updated also where the session does not start. -/
def startAttendanceReportSession : Store A × Option W :=
  (s.updateThresholds services w, services.startPeopleSetMutationSession w)

def reachedPersonhood (who : AccountOrPerson A) : Bool :=
  (s.participants.get who).any fun p => p.reachedPersonhood

/-! ### Setting attendance -/

/-- Score, streak and history after a game. -/
def attend (p : Participant) (attended : Bool) (gameIndex : Nat) : Participant :=
  let p := if p.recognition.isExternallyRecognized then { p with score := s.personhoodThreshold } else p
  let p :=
    if attended then
      let streak := p.streak.addAttendance 1
      { p with
        lastAttendedGame := some gameIndex
        streak := streak
        score := min (U32.saturatingAdd p.score streak.attendance) maxPersonhoodThreshold }
    else
      let streak := p.streak.addAbsence 1
      { p with
        streak := streak
        score := if p.recognition.isExternallyRecognized then p.score else p.score - streak.absence }
  { p with attendanceHistory := p.attendanceHistory.storeAttendance attended }

/-- Whether an absence costs a participant, already scored for it, the personhood. -/
def suspends (p : Participant) : Bool :=
  let (allowedMisses, window) := s.absenceGraceRatio
  let misses := p.attendanceHistory.missesInWindow window
  p.reachedPersonhood &&
    match p.recognition with
    | .externallyRecognized | .suspended _ => false
    | .recognized _ => window == 0 || decide (allowedMisses < misses)
    | .notRecognized =>
      window == 0 || decide (allowedMisses < misses) || decide (p.score < s.personhoodThreshold)

def setAttendance (who : AccountOrPerson A) (attended : Bool) (gameIndex : Nat) :
    Except Error (Store A × W × Participant) := do
  let p ← okOr (s.participants.get who) .noScore
  let p := s.attend p attended gameIndex
  let acquirePersonhood := !p.reachedPersonhood && decide (s.personhoodThreshold ≤ p.score)
  let suspendPersonhood := !attended && s.suspends p
  let reached :=
    if acquirePersonhood then true else if suspendPersonhood then false else p.reachedPersonhood
  let p := { p with
    reachedPersonhood := reached
    hasEverReachedPersonhood := p.hasEverReachedPersonhood || reached
    cashedOut := false }
  let (p, w) :=
    match p.recognition, suspendPersonhood with
    | .recognized id, true =>
      ({ p with recognition := .suspended id }, services.suspendPersonhood w id)
    | _, _ => (p, w)
  .ok ({ s with participants := s.participants.insert who p }, w, p)

/-! ### What an attendance makes of a participant -/

/-- Whether an attendance takes a participant's personhood. -/
def losesPersonhood (p : Participant) (attended : Bool) (gameIndex : Nat) : Bool :=
  !attended && s.suspends (s.attend p attended gameIndex)

/-- The participant after an attendance was set. -/
def afterAttendance (p : Participant) (attended : Bool) (gameIndex : Nat) : Participant :=
  let suspendPersonhood := s.losesPersonhood p attended gameIndex
  let p := s.attend p attended gameIndex
  let reached :=
    if !p.reachedPersonhood && decide (s.personhoodThreshold ≤ p.score) then true
    else if suspendPersonhood then false else p.reachedPersonhood
  { p with
    reachedPersonhood := reached
    hasEverReachedPersonhood := p.hasEverReachedPersonhood || reached
    cashedOut := false
    recognition :=
      match p.recognition, suspendPersonhood with
      | .recognized id, true => .suspended id
      | recognition, _ => recognition }

/-- The rest of the chain after an attendance was set. -/
def worldAfterAttendance (p : Participant) (attended : Bool) (gameIndex : Nat) : W :=
  match p.recognition, s.losesPersonhood p attended gameIndex with
  | .recognized id, true => services.suspendPersonhood w id
  | _, _ => w

variable {services s w} {who : AccountOrPerson A} {attended : Bool} {gameIndex : Nat} {p : Participant}

omit [DecidableEq A] in
@[simp] theorem recognition_attend : (s.attend p attended gameIndex).recognition = p.recognition := by
  cases attended <;> cases h : p.recognition.isExternallyRecognized <;> simp [attend, h]

omit [DecidableEq A] in
@[simp] theorem credit_attend : (s.attend p attended gameIndex).credit = p.credit := by
  cases attended <;> cases h : p.recognition.isExternallyRecognized <;> simp [attend, h]

omit [DecidableEq A] in
@[simp] theorem reachedPersonhood_attend :
    (s.attend p attended gameIndex).reachedPersonhood = p.reachedPersonhood := by
  cases attended <;> cases h : p.recognition.isExternallyRecognized <;> simp [attend, h]

omit [DecidableEq A] in
@[simp] theorem credit_afterAttendance :
    (s.afterAttendance p attended gameIndex).credit = p.credit := credit_attend

theorem setAttendance_of_get (h : s.participants.get who = some p) :
    s.setAttendance services w who attended gameIndex =
      .ok ({ s with participants := s.participants.insert who (s.afterAttendance p attended gameIndex) },
        s.worldAfterAttendance services w p attended gameIndex,
        s.afterAttendance p attended gameIndex) := by
  simp only [setAttendance, h, okOr_some, ok_bind, afterAttendance, worldAfterAttendance, losesPersonhood]
  rcases Bool.eq_false_or_eq_true (!attended && s.suspends (s.attend p attended gameIndex)) with hs | hs <;>
    cases hr : p.recognition <;> simp only [hs, hr, recognition_attend]

theorem setAttendance_eq_ok {s' : Store A} {w' : W} {p' : Participant}
    (h : s.setAttendance services w who attended gameIndex = .ok (s', w', p')) :
    ∃ p, s.participants.get who = some p ∧ p' = s.afterAttendance p attended gameIndex ∧
      s' = { s with participants := s.participants.insert who p' } ∧
      w' = s.worldAfterAttendance services w p attended gameIndex := by
  cases hp : s.participants.get who with
  | none => simp [setAttendance, hp, okOr, bind, Except.bind] at h
  | some p =>
    rw [setAttendance_of_get hp] at h
    cases h
    exact ⟨p, rfl, rfl, rfl, rfl⟩

end Store
end Individuality.Score
