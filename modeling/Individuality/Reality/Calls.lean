import Individuality.DummyDim.Calls
import Individuality.ProofOfInk.Calls

/-! The pallets that reserve personal ids, on one chain.

Proof of ink, the score pallet and the dummy DIM reserve ids in one people pallet, whose
people are the members of a collection of the members pallet. `exec` runs them together:
the score pallet recognizes whom it reserves an id for at once, and everybody may call the
members pallet on the collection (`Members.tends`). The oracle keeps the account of a case
as the context of its judgement, in bytes. -/
namespace Individuality.Reality
open Support
open MobRule (Judgement)

/-- The pallets' configuration, and the services of proof of ink. -/
structure Config extends DummyDim.Config where
  World : Type
  Deposit : Type
  Ticket : Type
  TicketSignature : Type
  KeySignature : Type
  EvidenceHash : Type
  ticketDecEq : DecidableEq Ticket
  newDeposit : World → ring.AccountId → Option (Deposit × World)
  dropDeposit : World → Deposit → ring.AccountId → Option World
  burnDeposit : World → Deposit → ring.AccountId → World
  allocateStorage : World → ring.AccountId → (len count : Nat) → Option World
  refreshAllocation : World → ring.AccountId → Option World
  transfer : World → (source destination : ring.AccountId) → Nat → Option World
  verifyTicket : TicketSignature → ring.AccountId → Ticket → Bool
  verifyOwnership : KeySignature → ring.AccountId → ring.pallet.Member → Bool
  accountBytes : ring.AccountId → Vector UInt8 32
  inviteRank : ring.AccountId × Ticket → Nat
  proofOfInkPotId : ring.AccountId
  maxActiveReferrals : Nat
  maxRetryAttempts : Nat
  maxReimbursementValues : Nat
  maxActiveReferrals_le : maxActiveReferrals ≤ 200
  encodeAccount : ring.AccountId → List UInt8
  /-- Of the first bytes of the input. -/
  decodeAccount : List UInt8 → Option ring.AccountId

namespace Config
variable (T : Config)

abbrev ink : ProofOfInk.Config where
  people := T.ring.people
  World := T.World
  Deposit := T.Deposit
  Ticket := T.Ticket
  TicketSignature := T.TicketSignature
  KeySignature := T.KeySignature
  EvidenceHash := T.EvidenceHash
  ticketDecEq := T.ticketDecEq
  newDeposit := T.newDeposit
  dropDeposit := T.dropDeposit
  burnDeposit := T.burnDeposit
  allocateStorage := T.allocateStorage
  refreshAllocation := T.refreshAllocation
  transfer := T.transfer
  verifyTicket := T.verifyTicket
  verifyOwnership := T.verifyOwnership
  accountBytes := T.accountBytes
  inviteRank := T.inviteRank
  proofOfInkPotId := T.proofOfInkPotId
  maxActiveReferrals := T.maxActiveReferrals
  maxRetryAttempts := T.maxRetryAttempts
  maxReimbursementValues := T.maxReimbursementValues
  maxActiveReferrals_le := T.maxActiveReferrals_le

end Config

variable {T : Config}

/-! ### Judgements -/

def contextSize : Nat := 64

abbrev JudgementContext : Type := BoundedVec UInt8 contextSize

/-- What evidence of the account is submitted with: its bytes, as many as a context takes. -/
def judgementContext (account : T.ring.AccountId) : JudgementContext :=
  ⟨(T.encodeAccount account).take contextSize, List.length_take_le _ _⟩

inductive JudgedOrigin
  | root
  | other
  deriving DecidableEq

/-- The call of the oracle. -/
def judged (s : ProofOfInk.Store T.ink) (origin : JudgedOrigin) (ticket : Nat) (context : JudgementContext)
    (judgement : Judgement) : Except ProofOfInk.Error (ProofOfInk.Store T.ink) := do
  ensure (origin = .root) .badOrigin
  let account ← okOr (T.decodeAccount context.toList) .badContext
  ProofOfInk.judged s ticket account judgement

/-! ### The chain -/

variable (T)

structure Chain where
  ink : ProofOfInk.Chain T.ink
  dummyDim : DummyDim.Store T.toConfig

/-- What the score pallet and the games do with people: register someone new, or someone suspended again,
or suspend people. -/
inductive Registration
  | anew (key : T.ring.pallet.Member)
  | again (id : Nat)
  | suspended (ids : List Nat)

inductive Action
  | proofOfInk (a : ProofOfInk.Action T.ink)
  | dummyDim (origin : DummyDim.Origin) (call : DummyDim.Call T.toConfig)
  | score (registration : Registration T)
  | members (call : Members.Call T.ring.pallet)
  | clock (clock : Members.Env T.ring.pallet)

inductive Refusal
  | proofOfInk (e : ProofOfInk.Refusal)
  | dummyDim (e : DummyDim.Error)
  | people (e : People.Error)
  | members (e : Members.Error)
  | badOrigin

variable {T}

/-- What others ask of the people pallet is an action of theirs. -/
def isOwn : ProofOfInk.Action T.ink → Bool
  | .people action => action.isInternal
  | _ => true

def register (registry : T.Registry) : Registration T → Except People.Error T.Registry
  | .anew key => People.forceRecognize registry key
  | .again id => People.recognizePersonhood registry id none
  | .suspended ids => .ok (People.suspendPersonhood registry ids).1

/-- The chain with the people pallet in another state. -/
def Chain.withRegistry (c : Chain T) (registry : T.Registry) : Chain T :=
  { c with ink := { c.ink with store := { c.ink.store with registry := registry } } }

def exec (c : Chain T) : Action T → Except Refusal (Chain T)
  | .proofOfInk a => do
    ensure (isOwn a = true) .badOrigin
    let ink ← (ProofOfInk.exec c.ink a).mapError .proofOfInk
    return { c with ink := ink }
  | .dummyDim origin call => do
    let (dummyDim, registry) ← (DummyDim.dispatch (c.dummyDim, c.ink.store.registry) origin call).mapError .dummyDim
    return { c.withRegistry registry with dummyDim := dummyDim }
  | .score registration => do
    let registry ← (register c.ink.store.registry registration).mapError .people
    return c.withRegistry registry
  | .members call => do
    ensure (Members.tends call = true) .badOrigin
    let registry := c.ink.store.registry
    let rings ← (registry.rings.exec registry.members.1 call).mapError .members
    return c.withRegistry { registry with members := (registry.members.1, rings) }
  | .clock clock =>
    let registry := c.ink.store.registry
    .ok (c.withRegistry { registry with members := (clock, registry.rings) })

def genesis (clock : Members.Env T.ring.pallet) (world : T.World) (env : ProofOfInk.Env T.ink) : Chain T :=
  ⟨ProofOfInk.genesis (T := T.ink) (clock, Members.Store.empty T.ring.pallet) world env, DummyDim.genesis⟩

end Individuality.Reality
