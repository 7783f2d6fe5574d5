import Individuality.People.Calls
import Individuality.MobRule.Types

/-! Proof of ink: its types and its configuration.

An account applies to be recognized by a tattoo: with a deposit, referred by a person,
or invited. It commits to a design under a personal id that is reserved for it, and
submits evidence, first of a little and then of the full size, which an oracle judges.
Once it has proven itself it registers a key under its id. The people pallet is the one of
`People`; deposits, storage for evidence and rewards are services outside. -/
namespace Individuality.ProofOfInk
open Support
open MobRule (Judgement Truth)

abbrev Entropy : Type := Vector UInt8 32
abbrev ProceduralSeed : Type := Vector UInt8 4

inductive FamilyKind
  | designed (count : Nat)
  | proceduralAccount
  | proceduralPersonal
  | procedural (range : Nat)
  deriving DecidableEq, Repr

structure Family where
  kind : FamilyKind
  id : Vector UInt8 32
  deriving DecidableEq, Repr

inductive DesignStatus
  | reserved
  | committed
  deriving DecidableEq, Repr

inductive InkChoice
  | designedElective (family design : Nat)
  | proceduralAccount (family : Nat)
  | proceduralPersonal (family : Nat)
  | procedural (family variant : Nat)
  | proceduralDerivative (parent : Nat) (secondary : Option Nat)
  deriving DecidableEq, Repr

inductive InkSpec
  | designedElective (family design : Nat)
  | proceduralAccount (family : Nat) (account : Vector UInt8 32)
  | proceduralPersonal (family id : Nat)
  | procedural (family : Nat) (seed : ProceduralSeed)
  deriving DecidableEq, Repr

/-- The family and the index of a design that can be taken once only. -/
def InkSpec.elective : InkSpec → Option (Nat × Nat)
  | .designedElective family design => some (family, design)
  | _ => none

/-- How much storage a selected candidate has for evidence. -/
inductive Allocation
  | initial
  | initDone
  | full
  deriving DecidableEq, Repr

structure ConfigRecord where
  rerollTimeout : Nat := 302400
  fasttrackCount : Nat := 4
  maximum : Nat := 1000
  fullAllocLen : Nat := 67108864
  fullAllocCount : Nat := 32
  initAllocLen : Nat := 2097152
  initAllocCount : Nat := 8
  timeout : Nat := 302400
  maximum_le : maximum ≤ U32.max := by decide
  timeout_le : timeout ≤ U32.max := by decide
  deriving DecidableEq, Repr

theorem maximum_le_max : 1000 ≤ U32.max := by decide

theorem timeout_le_max : 302400 ≤ U32.max := by decide

/-- What the pallet is generic over. Deposits, storage and transfers change a world of their own. -/
structure Config where
  people : People.Config
  World : Type
  Deposit : Type
  Ticket : Type
  TicketSignature : Type
  KeySignature : Type
  EvidenceHash : Type
  ticketDecEq : DecidableEq Ticket
  newDeposit : World → people.AccountId → Option (Deposit × World)
  dropDeposit : World → Deposit → people.AccountId → Option World
  burnDeposit : World → Deposit → people.AccountId → World
  allocateStorage : World → people.AccountId → (len count : Nat) → Option World
  refreshAllocation : World → people.AccountId → Option World
  transfer : World → (source destination : people.AccountId) → Nat → Option World
  /-- Of the bytes of the account, by the ticket. -/
  verifyTicket : TicketSignature → people.AccountId → Ticket → Bool
  /-- Of the prefix and the bytes of the account, by the key. -/
  verifyOwnership : KeySignature → people.AccountId → people.Member → Bool
  /-- The first bytes of the account. -/
  accountBytes : people.AccountId → Vector UInt8 32
  /-- The order in which invitations are removed. -/
  inviteRank : people.AccountId × Ticket → Nat
  proofOfInkPotId : people.AccountId
  maxActiveReferrals : Nat
  maxRetryAttempts : Nat
  maxReimbursementValues : Nat
  maxActiveReferrals_le : maxActiveReferrals ≤ 200

attribute [instance] Config.ticketDecEq

namespace Config
variable (T : Config)

abbrev AccountId : Type := T.people.AccountId
abbrev Member : Type := T.people.Member

end Config

variable (T : Config)

inductive Credibility
  | referred (who : Nat)
  | deposit (ticket : T.Deposit)
  | invited (ticket : T.Ticket)

/-- A candidate who is selected; `judging` is the case that is pending. -/
structure Selection where
  since : Nat
  cred : Credibility T
  reserved : Nat
  entropy : Entropy
  design : InkSpec
  allocation : Allocation
  judging : Option Nat
  failed : Nat

inductive Candidate
  | applied (cred : Credibility T) (entropy : Entropy) (entropySince : Nat)
  | selected (selection : Selection T)
  | proven (design : InkSpec) (reserved : Nat) (wasReferred wasInvited : Bool)

structure Person where
  design : Option InkSpec
  activeReferrals : BoundedVec T.AccountId T.maxActiveReferrals
  allowedReferralTickets : Nat
  badReferrals : Nat
  successfulReferrals : Nat
  referrals : Nat
  derivatives : Nat
  banned : Bool
  pendingReferralRewards : Nat

/-- What the oracle is asked to judge. -/
structure Statement where
  design : InkSpec
  evidence : T.EvidenceHash
  probableAcceptable : Bool

/-- A statement that is being judged, and the account that the judgement is called back with. -/
structure Case where
  statement : Statement T
  context : T.AccountId

/-- What was done with the credibility of a candidate. -/
inductive Settlement
  | depositReturned (ticket : T.Deposit)
  | depositBurned (ticket : T.Deposit)
  | referralOk (referrer : Nat)
  | referralFlaked (referrer : Nat)
  | referralBad (referrer : Nat)
  | referralContemptuous (referrer : Nat)
  | invitationClosed

variable {T}

namespace Credibility

def isReferred : Credibility T → Bool
  | .referred _ => true
  | _ => false

def isInvited : Credibility T → Bool
  | .invited _ => true
  | _ => false

end Credibility

namespace Candidate

def asApplied : Candidate T → Option (Credibility T × Entropy × Nat)
  | .applied cred entropy entropySince => some (cred, entropy, entropySince)
  | _ => none

def asSelected : Candidate T → Option (Selection T)
  | .selected selection => some selection
  | _ => none

def asProven : Candidate T → Option (InkSpec × Nat × Bool × Bool)
  | .proven design reserved wasReferred wasInvited => some (design, reserved, wasReferred, wasInvited)
  | _ => none

def isReferred : Candidate T → Bool
  | .applied cred _ _ => cred.isReferred
  | .selected selection => selection.cred.isReferred
  | .proven _ _ wasReferred _ => wasReferred

def isInvited : Candidate T → Bool
  | .applied cred _ _ => cred.isInvited
  | .selected selection => selection.cred.isInvited
  | .proven _ _ _ wasInvited => wasInvited

@[simp] theorem asApplied_eq_some {status : Candidate T} {cred : Credibility T} {entropy : Entropy} {entropySince : Nat} :
    status.asApplied = some (cred, entropy, entropySince) ↔ status = .applied cred entropy entropySince := by
  cases status <;> simp [asApplied]

@[simp] theorem asSelected_eq_some {status : Candidate T} {selection : Selection T} :
    status.asSelected = some selection ↔ status = .selected selection := by
  cases status <;> simp [asSelected]

@[simp] theorem asProven_eq_some {status : Candidate T} {design : InkSpec} {reserved : Nat} {wasReferred wasInvited : Bool} :
    status.asProven = some (design, reserved, wasReferred, wasInvited) ↔
      status = .proven design reserved wasReferred wasInvited := by
  cases status <;> simp [asProven]

end Candidate

end Individuality.ProofOfInk
