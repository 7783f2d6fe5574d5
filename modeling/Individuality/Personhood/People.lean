import Individuality.Game.Calls
import Individuality.Score.Calls

/-! Personhood across the pallets.

The people pallet says of each personal id whether it is recognized or suspended;
the score pallet reserves ids and keeps with each participant the id it registered
with; and the game pallet makes participants join and leave. A `Config` puts the
three on one chain: the game and the score pallet share the score pallet's store and
a world that is the people pallet beside the rest, of which only `People` is spelled
out. -/
namespace Individuality.Personhood
open Support
open Score (AccountOrPerson)

/-! ### The people pallet -/

inductive Status
  | recognized
  | suspended
  deriving DecidableEq, Repr

structure People where
  nextPersonalId : Nat
  people : StorageMap Nat Status

namespace People
variable (p : People)

def reserveNewId : Nat × People :=
  (p.nextPersonalId, { p with nextPersonalId := U64.saturatingAdd p.nextPersonalId 1 })

/-- A key makes a new person of an id; without one, a suspended person is recognized again. -/
def recognizePersonhood (who : Nat) (hasKey : Bool) : Option People :=
  match hasKey, p.people.get who with
  | true, _ | false, some .suspended => some { p with people := p.people.insert who .recognized }
  | false, _ => none

def suspendPersonhood (who : Nat) : People :=
  if p.people.contains who then { p with people := p.people.insert who .suspended } else p

end People

/-! ### The chain -/

/-- What the pallets are configured with; `game` has the rest of the chain as its world. -/
structure Config where
  game : Game.Config
  Member : Type
  Signature : Type
  /-- Whether the members of the people may change as a recognition asks for. -/
  admits : People × game.World → Nat → Option Member → Bool
  verifySignature : Signature → game.AccountId → Member → Bool
  currency : Currency game.AccountId game.World
  maxPayoutRoundSchedules : Nat
  participantKey : AccountOrPerson game.AccountId → Nat

namespace Config
variable (T : Config)

abbrev AccountId : Type := T.game.AccountId
abbrev World : Type := People × T.game.World

/-- The services of the chain: the people pallet suspends, and the rest does what it did. -/
def services : Game.Services T.AccountId T.World where
  incSufficients w who := (w.1, T.game.services.incSufficients w.2 who)
  decSufficients w who := (w.1, T.game.services.decSufficients w.2 who)
  canStartPeopleSetMutationSession w := T.game.services.canStartPeopleSetMutationSession w.2
  startPeopleSetMutationSession w := (T.game.services.startPeopleSetMutationSession w.2).map fun r => (w.1, r)
  endPeopleSetMutationSession w := (T.game.services.endPeopleSetMutationSession w.2).map fun r => (w.1, r)
  suspendPersonhood w id := (w.1.suspendPersonhood id, T.game.services.suspendPersonhood w.2 id)
  activeCount w := T.game.services.activeCount w.2
  AccountSignature := T.game.services.AccountSignature
  PlayDeposit := T.game.services.PlayDeposit
  VrfSignature := T.game.services.VrfSignature
  Proof := T.game.services.Proof
  Prize := T.game.services.Prize
  verify := T.game.services.verify
  newDeposit w who amount := (T.game.services.newDeposit w.2 who amount).map fun (ticket, r) =>
    (ticket, w.1, r)
  dropDeposit w who ticket := (T.game.services.dropDeposit w.2 who ticket).map fun r => (w.1, r)
  burnDeposit w who ticket := (w.1, T.game.services.burnDeposit w.2 who ticket)
  increaseAllowance w who := (w.1, T.game.services.increaseAllowance w.2 who)
  decreaseAllowance w who := (w.1, T.game.services.decreaseAllowance w.2 who)
  scheduleAirdrop w gameIndex prize starts draw ends :=
    (T.game.services.scheduleAirdrop w.2 gameIndex prize starts draw ends).map fun r => (w.1, r)
  cancelAirdrop w gameIndex := (w.1, T.game.services.cancelAirdrop w.2 gameIndex)
  participateWithAccount w gameIndex who signature :=
    (T.game.services.participateWithAccount w.2 gameIndex who signature).map fun r => (w.1, r)
  participateWithAlias w gameIndex who proof ringIndex revision :=
    (T.game.services.participateWithAlias w.2 gameIndex who proof ringIndex revision).map fun r =>
      (w.1, r)

/-- The game pallet on the chain. -/
abbrev gamePallet : Game.Config := { T.game with World := T.World, services := T.services }

/-- The score pallet on the chain. -/
abbrev scorePallet : Score.Config where
  AccountId := T.AccountId
  World := T.World
  Member := T.Member
  Signature := T.Signature
  accountDecEq := T.game.accountDecEq
  services := T.services.toServices
  reserveNewId w := (w.1.reserveNewId.1, w.1.reserveNewId.2, w.2)
  recognizePersonhood w id key :=
    if T.admits w id key then (w.1.recognizePersonhood id key.isSome).map fun p => (p, w.2) else none
  verifySignature := T.verifySignature
  currency := {
    pot := T.currency.pot
    canHold w := T.currency.canHold w.2
    canRelease w := T.currency.canRelease w.2
    transfer w pot who amount := (T.currency.transfer w.2 pot who amount).map fun r => (w.1, r) }
  maxPayoutRoundSchedules := T.maxPayoutRoundSchedules
  participantKey := T.participantKey

end Config

/-- The state of the chain. The game pallet's copies of the score pallet's store and of the world
follow those of `score`. -/
structure State (T : Config) where
  game : Game.Store T.gamePallet
  score : Score.State T.scorePallet
  /-- The ids that the score pallet reserved, and for whom, the newest first. No call reads it. -/
  obtained : List (T.AccountId × Nat)

/-- A call of a pallet in its block, or what the rest of the chain does. -/
inductive Call (T : Config)
  | game (env : Game.Env T.gamePallet) (call : Game.Call T.gamePallet)
  | score (block : Nat) (call : Score.Call T.scorePallet)
  | elsewhere (people : People) (rest : T.game.World) (pot : Pot)

inductive Error
  | game (error : Game.Error)
  | score (error : Score.CallError)
  /-- Not a call of the pallet, or not what the rest of the chain can do. -/
  | notPossible
  deriving DecidableEq, Repr

/-- Whether a call is one of the game pallet. -/
def isGameCall {T : Game.Config} : Game.Call T → Bool
  | .score _ | .elsewhere _ => false
  | _ => true

/-- Whether a call is one of the score pallet; the others are the game pallet's to make. -/
def isScoreCall {T : Score.Config} : Score.Call T → Bool
  | .onboardForRecognition _ | .onboardExternallyRecognized _ | .offboard _
  | .startAttendanceReportSession | .endAttendanceReportSession | .setAttendance _ _ _
  | .elsewhere _ _ => false
  | _ => true

namespace State
variable {T : Config} (s : State T)

/-- Before the first call, with any people and any rest of the chain. -/
def genesis (T : Config) (people : People) (rest : T.game.World) : State T where
  game := .genesis T.gamePallet (people, rest)
  score := .genesis T.scorePallet (people, rest)
  obtained := []

def people : People := s.score.world.1

/-- What the score pallet has of the personhood of a participant. -/
def recognition (who : AccountOrPerson T.AccountId) : Option Score.Recognition :=
  (s.score.store.participants.get who).map Score.Participant.recognition

/-- The id that a registration with a key has reserved, and for whom. -/
def reservedBy (s' : State T) : Score.Call T.scorePallet → List (T.AccountId × Nat)
  | .register who (some _) =>
    match s'.recognition (.account who) with
    | some (.recognized id) => [(who, id)]
    | _ => []
  | _ => []

variable {s} in
theorem reservedBy_register {who : T.AccountId} {id : Nat} (key : T.Member × T.Signature)
    (h : s.recognition (.account who) = some (.recognized id)) :
    s.reservedBy (.register who (some key)) = [(who, id)] := by
  simp only [reservedBy, h]

def execGame (env : Game.Env T.gamePallet) (call : Game.Call T.gamePallet) : Except Error (State T) := do
  ensure (isGameCall call = true) .notPossible
  let game := { s.game with score := s.score.store, world := s.score.world }
  let game ← (game.exec env call).mapError .game
  .ok { s with game := game, score := { s.score with store := game.score, world := game.world } }

def execScore (block : Nat) (call : Score.Call T.scorePallet) : Except Error (State T) := do
  ensure (isScoreCall call = true) .notPossible
  let score ← (s.score.exec block call).mapError .score
  let s' := { s with score := score }
  .ok { s' with obtained := s'.reservedBy call ++ s.obtained }

/-- Other pallets reserve ids of their own and leave those of the score pallet's alone. -/
def elsewhere (people : People) (rest : T.game.World) (pot : Pot) : Except Error (State T) := do
  ensure (s.people.nextPersonalId ≤ people.nextPersonalId ∧
    ∀ x ∈ s.obtained, people.people.get x.2 = s.people.people.get x.2) .notPossible
  let score ← (s.score.elsewhere (people, rest) pot).mapError .score
  .ok { s with score := score }

def exec (s : State T) : Call T → Except Error (State T)
  | .game env call => s.execGame env call
  | .score block call => s.execScore block call
  | .elsewhere people rest pot => s.elsewhere people rest pot

end State
/-! ### A small chain -/

/-- Everything is admitted. -/
def sampleConfig : Config where
  game := Game.sampleConfig
  Member := Unit
  Signature := Unit
  admits _ _ _ := true
  verifySignature _ _ _ := true
  currency := ⟨(0 : Nat), fun _ _ _ _ => true, fun _ _ _ _ => true, fun w _ _ _ => some w⟩
  maxPayoutRoundSchedules := 2
  participantKey := Game.sampleKey

/-- A call of the game pallet at `secs`. -/
def sampleCall (secs : Nat) (call : Game.Call sampleConfig.gamePallet) : Call sampleConfig :=
  .game ⟨Game.Duration.fromSecs secs, 1, (0 : Nat)⟩ call

def sampleAccount (account : Nat) : sampleConfig.AccountId := account

/-- An account signs up for a game to be played at `secs`, and registers as a person. -/
def sampleJoins (secs account : Nat) : List (Call sampleConfig) :=
  [sampleCall 0 (.scheduleGames [⟨secs, 1, 2, none⟩]), sampleCall (secs - 50) (.onPoll ⟨100, 0⟩),
    sampleCall (secs - 50) (.signUp (.account (sampleAccount account) false none)),
    .score 1 (.register (sampleAccount account) (some ((), ())))]

end Individuality.Personhood
