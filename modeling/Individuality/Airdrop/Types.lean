import Individuality.Members.Provers
import Individuality.Support.BoundedVec
import Individuality.Support.Prefixes

/-! The airdrop pallet: its types and its configuration.

An event has a prize in an asset and three times, and is in one of seven statuses. Its
registrations stand under the tickets of the participants, in the order of the
tickets; its winners stand under their registration entries. The prizes are held on
the pot of the pallet, in a ledger of assets that is kept outside. -/
namespace Individuality.Airdrop
open Support
open Members (Context MembershipProver)

abbrev EventId := Vector UInt8 32

inductive Precision
  | exact
  | bestEffort
  deriving DecidableEq, Repr

/-- A ledger of assets, with amounts held on accounts under the reason of the pallet. A release also
says how much it has released. -/
structure Fungibles where
  Ledger : Type
  AssetId : Type
  AccountId : Type
  assetDecEq : DecidableEq AssetId
  accountDecEq : DecidableEq AccountId
  minimumBalance : Ledger → AssetId → Nat
  transfer : Ledger → AssetId → (source dest : AccountId) → Nat → Option Ledger
  hold : Ledger → AssetId → (who : AccountId) → Nat → Option Ledger
  release : Ledger → AssetId → (who : AccountId) → Nat → Precision → Option (Nat × Ledger)

attribute [instance] Fungibles.assetDecEq Fungibles.accountDecEq

/-- What the ledger promises of its holds: they change with `hold` and `release` only, by the amount
that is asked for, and a best-effort release takes what there is. -/
structure LawfulFungibles (F : Fungibles) where
  balanceOnHold : F.Ledger → F.AssetId → F.AccountId → Nat
  transferred : ∀ {l l' id source dest amount}, F.transfer l id source dest amount = some l' →
    ∀ id' who, balanceOnHold l' id' who = balanceOnHold l id' who
  held : ∀ {l l' id who amount}, F.hold l id who amount = some l' → ∀ id' who',
    balanceOnHold l' id' who' = balanceOnHold l id' who' + if id' = id ∧ who' = who then amount else 0
  released : ∀ {l l' id who amount released}, F.release l id who amount .exact = some (released, l') →
    released = amount ∧ ∀ id' who',
      balanceOnHold l' id' who' + (if id' = id ∧ who' = who then amount else 0) = balanceOnHold l id' who'
  releasedBestEffort : ∀ l id who amount, ∃ l',
    F.release l id who amount .bestEffort = some (min amount (balanceOnHold l id who), l') ∧ ∀ id' who',
      balanceOnHold l' id' who' = balanceOnHold l id' who' - if id' = id ∧ who' = who then amount else 0

/-- Parts of a million. -/
structure Permill where
  parts : Nat
  parts_le : parts ≤ 1000000
  deriving DecidableEq

def Permill.mulFloor (p : Permill) (n : Nat) : Nat := p.parts * n / 1000000

/-- Who registered. -/
inductive RegistrationEntry (Alias AccountId : Type)
  | ringAlias (ringAlias : Alias)
  | account (accountId : AccountId)
  deriving DecidableEq

/-- What the pallet is generic over. `verifyAndExtractEntropy` checks a VRF signature over the
transcript of an event and gives its output. -/
structure Config where
  memberService : MembershipProver
  fungibles : Fungibles
  Public : Type
  VrfSignature : Type
  accountIdToPublic : fungibles.AccountId → Option Public
  verifyAndExtractEntropy : Public → EventId → VrfSignature → Option Nat
  contextForEvent : EventId → Context
  /-- An alias as a ticket. -/
  slotOf : memberService.Alias → Nat
  encode : RegistrationEntry memberService.Alias fungibles.AccountId → memberService.Message
  /-- Where the winners of an event stand in the storage. -/
  winnerKey : RegistrationEntry memberService.Alias fungibles.AccountId → Nat
  airdropPotId : fungibles.AccountId
  balanceMax : Nat
  clearLimit : Nat
  drawLimit : Nat
  drawLimit_pos : 0 < drawLimit
  clearLimit_pos : 0 < clearLimit

variable (T : Config)

abbrev Entry := RegistrationEntry T.memberService.Alias T.fungibles.AccountId

structure AirdropPrize where
  assetId : T.fungibles.AssetId
  assetAmount : Nat
  maxWinners : Nat
  winnerCap : Permill

structure EventInfo where
  prize : AirdropPrize T
  registrationStarts : Nat
  drawTime : Nat
  endTime : Nat

inductive Status
  | scheduled
  | registering (totalParticipants : Nat)
  | drawWinners (totalParticipants effectiveWinners winnersAdded fromWinnerKey : Nat)
  | claiming (totalParticipants effectiveWinners claimed : Nat)
  | clearingRegistrations (totalParticipants effectiveWinners claimed cleanedRegistrations : Nat)
  | clearingWinners (totalParticipants effectiveWinners claimed cleanedWinners : Nat)
  | finalizing (effectiveWinners claimed : Nat)
  deriving DecidableEq, Repr

structure ActiveEvent where
  id : EventId
  info : EventInfo T
  status : Status

variable {T}

/-- When an event in a status has its next action. -/
def nextActionScheduledAt (info : EventInfo T) : Status → Nat
  | .scheduled => info.registrationStarts
  | .registering _ | .drawWinners .. => info.drawTime
  | .claiming .. | .clearingRegistrations .. | .clearingWinners .. | .finalizing .. => info.endTime

end Individuality.Airdrop
