import Individuality.MobRule.Rewards
import Individuality.Score.Backing

/-! The one-time initialization in the on-poll hook.

Once the migration is over, each block takes the initialization one state further, where
it has the weight: create the asset, ask for funds from the other chain and wait for
them, fund the pots, set the attestation allowances, and write a payout schedule into
the mob-rule pallet and one into the score pallet. What fails is tried again in a later
block. A hook is not a transaction, so what a failing block has done stays done.
`Config` is what the pallet is generic over; the ledger of assets and the message
that asks for funds answer as the state of the rest of the chain (`World`) has it. -/
namespace Individuality.StorageInitialization
open Support

inductive OnPollState
  | inactive
  | creatingAsset
  | xcmFundsTransfer
  | verifyingFunds
  | fundingPots
  | settingPeopleLiteAttestationAllowances
  | schedulingMobRulePayouts
  | schedulingScorePayouts
  | done
  deriving DecidableEq, Repr

structure WeightInfo where
  onPollStatusRead : Weight
  onPollCreateAsset : Weight
  onPollXcmTransfer : Weight
  onPollVerifyFunds : Weight
  fundPots : Weight
  onPollSetPeopleLiteAttestationAllowances : Weight
  onPollScheduleMobRulePayouts : Weight
  onPollScheduleScorePayouts : Weight

structure Config where
  AccountId : Type
  World : Type
  mobRule : MobRule.Config
  score : Score.Config
  accountDecEq : DecidableEq AccountId
  weights : WeightInfo
  /-- Create the asset with an owner, whether it is sufficient, and its minimum balance. -/
  create : World → AccountId → Bool → Nat → Option World
  assetExists : World → Bool
  setReserves : World → AccountId → Option World
  balance : World → AccountId → Nat
  transfer : World → AccountId → AccountId → Nat → Option World
  /-- Send the message that asks for an amount to be transferred to an account. -/
  executeXcmTransfer : World → Nat → AccountId → Option World
  assetsDestAccount : AccountId
  assetHubTransferAmount : Nat
  xcmTimeout : Nat
  proofOfInkPot : AccountId
  mobRulePot : AccountId
  scorePot : AccountId
  /-- The account whose identifier is a number. -/
  accountOf : Nat → AccountId
  /-- Whether the root may increase allowances. -/
  rootManagesAllowances : Bool
  -- The pots are of three pallets.
  pots_nodup : [proofOfInkPot, mobRulePot, scorePot].Nodup
  -- The integrity test.
  funding_le : 1000000 + 1000000 + 1000000 ≤ assetHubTransferAmount

namespace Config
variable (T : Config)

instance : DecidableEq T.AccountId := T.accountDecEq

/-- The accounts of the pots, and what each is funded with. -/
def potFundingConfiguration : List (T.AccountId × Nat) :=
  [(T.proofOfInkPot, 1000000), (T.mobRulePot, 1000000), (T.scorePot, 1000000)]

def peopleLiteAttestationAllowances : List (T.AccountId × Nat) :=
  [(T.accountOf 1, 100), (T.accountOf 2, 50), (T.accountOf 3, 25)]

def transferAssetMinBalance : Nat := 10000

/-- A thousand a week for ten weeks. -/
def initialMobRulePayoutRounds : MobRule.PayoutSchedule := ⟨10, 1000, 7 * 24 * 60 * 30⟩

/-- Five hundred every two weeks, five times. -/
def initialScorePayoutRounds : Score.PayoutSchedule := ⟨5, 500, 14 * 24 * 60 * 30⟩

end Config

structure State (T : Config) where
  onPollStatus : OnPollState
  xcmTransferInitiatedAt : Option Nat
  attestationAllowance : StorageMap T.AccountId Nat
  mobRule : MobRule.State T.mobRule
  score : Score.State T.score
  world : T.World

/-! ### Loops -/

section Loops
variable {T : Config}

/-- Fund one pot after the other until a transfer fails; also the transfers made, and whether they
were all of them. -/
def fundPots (world : T.World) : List (T.AccountId × Nat) → T.World × List (T.AccountId × Nat) × Bool
  | [] => (world, [], true)
  | (potAccount, amount) :: rest =>
    match T.transfer world T.assetsDestAccount potAccount amount with
    | none => (world, [], false)
    | some world =>
      let (world, made, all) := fundPots world rest
      (world, (potAccount, amount) :: made, all)

/-- Increase one allowance after the other, but for those that are set already, until one fails;
also whether none did. -/
def setAllowances (allowances : StorageMap T.AccountId Nat) :
    List (T.AccountId × Nat) → StorageMap T.AccountId Nat × Bool
  | [] => (allowances, true)
  | (account, count) :: rest =>
    let available := (allowances.get account).getD 0
    if available ≠ 0 then setAllowances allowances rest
    else if T.rootManagesAllowances then
      setAllowances (allowances.insert account (U32.saturatingAdd available count)) rest
    else (allowances, false)

end Loops

namespace State
variable {T : Config} (s : State T)

/-! ### The states, one by one -/

/-- Reserves are set also where the asset exists from an attempt before. -/
def creatingAsset : State T :=
  let created := T.create s.world T.assetsDestAccount true Config.transferAssetMinBalance
  let world := created.getD s.world
  if created.isNone && !T.assetExists world then s
  else
    match T.setReserves world T.assetsDestAccount with
    | some world => { s with world := world, onPollStatus := .xcmFundsTransfer }
    | none => { s with world := world }

def xcmFundsTransfer (block : Nat) : State T :=
  match T.executeXcmTransfer s.world T.assetHubTransferAmount T.assetsDestAccount with
  | some world =>
    { s with world := world, xcmTransferInitiatedAt := some block, onPollStatus := .verifyingFunds }
  | none => s

/-- Funds that do not arrive in time are asked for again. -/
def verifyingFunds (block : Nat) : State T :=
  if T.assetHubTransferAmount ≤ T.balance s.world T.assetsDestAccount then
    { s with onPollStatus := .fundingPots, xcmTransferInitiatedAt := none }
  else
    match s.xcmTransferInitiatedAt with
    | some initiatedAt =>
      if T.xcmTimeout < block - initiatedAt then
        { s with xcmTransferInitiatedAt := none, onPollStatus := .xcmFundsTransfer }
      else s
    | none => { s with onPollStatus := .xcmFundsTransfer }

/-- A transfer that fails leaves the state as it is, to try again; those before it are not undone. -/
def fundingPots : State T :=
  let (world, _, all) := fundPots s.world T.potFundingConfiguration
  { s with
    world := world
    onPollStatus := if all then .settingPeopleLiteAttestationAllowances else s.onPollStatus }

def settingAllowances : State T :=
  let (allowances, all) := setAllowances s.attestationAllowance T.peopleLiteAttestationAllowances
  { s with
    attestationAllowance := allowances
    onPollStatus := if all then .schedulingMobRulePayouts else s.onPollStatus }

def schedulingMobRulePayouts : State T :=
  match s.mobRule.roundSchedules.tryPush Config.initialMobRulePayoutRounds with
  | some schedules =>
    { s with
      mobRule := { s.mobRule with roundSchedules := schedules }
      onPollStatus := .schedulingScorePayouts }
  | none => s

def schedulingScorePayouts : State T :=
  match s.score.roundSchedules.tryPush Config.initialScorePayoutRounds with
  | some schedules =>
    { s with score := { s.score with roundSchedules := schedules }, onPollStatus := .done }
  | none => s

/-! ### The hook -/

/-- What a state costs. -/
def stepWeight (w : WeightInfo) : OnPollState → Weight
  | .inactive | .done => ⟨0, 0⟩
  | .creatingAsset => w.onPollCreateAsset
  | .xcmFundsTransfer => w.onPollXcmTransfer
  | .verifyingFunds => w.onPollVerifyFunds
  | .fundingPots => w.fundPots
  | .settingPeopleLiteAttestationAllowances => w.onPollSetPeopleLiteAttestationAllowances
  | .schedulingMobRulePayouts => w.onPollScheduleMobRulePayouts
  | .schedulingScorePayouts => w.onPollScheduleScorePayouts

/-- Whether a block has the weight for the state: of what it has left, half may be used. -/
def canStep (weight : Weight) : Bool :=
  match weight.half.tryConsume T.weights.onPollStatusRead with
  | none => false
  | some left => (left.tryConsume (stepWeight T.weights s.onPollStatus)).isSome

def advance (block : Nat) : State T :=
  match s.onPollStatus with
  | .inactive | .done => s
  | .creatingAsset => s.creatingAsset
  | .xcmFundsTransfer => s.xcmFundsTransfer block
  | .verifyingFunds => s.verifyingFunds block
  | .fundingPots => s.fundingPots
  | .settingPeopleLiteAttestationAllowances => s.settingAllowances
  | .schedulingMobRulePayouts => s.schedulingMobRulePayouts
  | .schedulingScorePayouts => s.schedulingScorePayouts

def onPoll (block : Nat) (weight : Weight) : State T :=
  if s.canStep weight then s.advance block else s

end State

/-! ### Runs -/

/-- What happens to a chain that is being initialized. -/
inductive Step (T : Config)
  | onPoll (block : Nat) (weight : Weight)
  /-- A call of the mob-rule pallet, or of the score pallet. -/
  | mobRule (call : MobRule.State.Action T.mobRule)
  | score (call : Score.State.Action T.score)
  /-- The rest of the chain: funds arrive, transfers start to fail or to succeed. -/
  | elsewhere (world : T.World)

def Step.isOnPoll {T : Config} : Step T → Bool
  | .onPoll _ _ => true
  | _ => false

inductive CallError
  | mobRule (error : MobRule.Error)
  | score (error : Score.CallError)

namespace State
variable {T : Config} (s : State T)

def exec : Step T → Except CallError (State T)
  | .onPoll block weight => .ok (s.onPoll block weight)
  | .mobRule call =>
    match s.mobRule.execAction call with
    | .ok mobRule => .ok { s with mobRule := mobRule }
    | .error e => .error (.mobRule e)
  | .score call =>
    match s.score.execAction call with
    | .ok score => .ok { s with score := score }
    | .error e => .error (.score e)
  | .elsewhere world => .ok { s with world := world }

/-- What the migration leaves: the hook is to start with the asset. -/
def genesis (T : Config) (mobRuleWorld : T.mobRule.World) (scoreWorld : T.score.World) (world : T.World) :
    State T where
  onPollStatus := .creatingAsset
  xcmTransferInitiatedAt := none
  attestationAllowance := ∅
  mobRule := .genesis T.mobRule mobRuleWorld
  score := .genesis T.score scoreWorld
  world := world

/-- The transfers to the pots that a step makes. -/
def transfersMade : Step T → List (T.AccountId × Nat)
  | .onPoll _ weight =>
    if s.onPollStatus = .fundingPots ∧ s.canStep weight = true then
      (fundPots s.world T.potFundingConfiguration).2.1
    else []
  | _ => []

end State
end Individuality.StorageInitialization
