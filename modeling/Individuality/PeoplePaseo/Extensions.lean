import Individuality.ProofOfInk.Calls
import Individuality.PeopleLite.Calls
import Individuality.Score.Participants
import Individuality.OriginRestriction.Usage

/-! The people runtime: its origins, its restricted entities and its transaction extensions.

Four extensions replace the signed origin of a transaction by one of a pallet
(`validateOrigin`), in the order in which they are called; then the usage of the
restricted entity of the origin is checked. A transaction with such an origin pays no fee.
`exec` runs a chain with the pallets: what a dispatch makes of them, and what the rest of
the chain does to them, is left open. -/
namespace Individuality.PeoplePaseo
open Support
open OriginRestriction (Allowance)
open Resources (Username)
open Score (AccountOrPerson)

structure Config where
  proofOfInk : ProofOfInk.Config
  liteMembers : PeopleLite.MemberService
  LiteSignature : Type
  AttestationSignature : Type
  Registrar : Type
  verifyLiteSignature : LiteSignature → liteMembers.Message → liteMembers.Member → Bool
  verifyAttestation : AttestationSignature → liteMembers.Message → proofOfInk.AccountId → Bool
  registerConsumer : Registrar → proofOfInk.AccountId → Vector UInt8 65 → Username → Option Username → Option Registrar
  litePeopleAuthContext : liteMembers.Context
  attestMessage : proofOfInk.AccountId → liteMembers.Member → liteMembers.Message
  signingPayload : proofOfInk.AccountId → proofOfInk.AccountId → Vector UInt8 65 → List UInt8 → Option Username →
    liteMembers.Message
  reviseLiteMessage : liteMembers.Message → proofOfInk.AccountId → Nat → liteMembers.Message
  Weight : Type
  weightToFee : Weight → Nat
  lengthToFee : Nat → Nat

namespace Config
variable (R : Config)

abbrev people : People.Config := R.proofOfInk.people
abbrev AccountId : Type := R.people.AccountId

abbrev peopleLite : PeopleLite.Config where
  memberService := R.liteMembers
  AccountId := R.AccountId
  accountDecEq := R.people.accountDecEq
  Signature := R.LiteSignature
  AttestationSignature := R.AttestationSignature
  Registrar := R.Registrar
  verifySignature := R.verifyLiteSignature
  verifyAttestation := R.verifyAttestation
  registerConsumer := R.registerConsumer
  litePeopleAuthContext := R.litePeopleAuthContext
  attestMessage := R.attestMessage
  signingPayload := R.signingPayload
  reviseMessage := R.reviseLiteMessage

end Config

/-! ### Origins and calls -/

inductive ScoreCall
  | cashOut
  | redeemCredit
  | register
  | other
  deriving DecidableEq, Repr

inductive GameCall
  | signUpWithAccount
  | report
  | offboard
  | claimAirdrop
  | other
  deriving DecidableEq, Repr

variable (R : Config)

inductive RuntimeCall
  | people (call : People.Call R.people)
  | proofOfInk (call : ProofOfInk.Call R.proofOfInk)
  | peopleLite (call : PeopleLite.Call R.peopleLite)
  | score (call : ScoreCall)
  | game (call : GameCall)
  | other

/-- The origins of the people, proof-of-ink, score and people-lite pallets beside those of the system;
`other` is one of another pallet. -/
inductive OriginCaller
  | none
  | signed (who : R.AccountId)
  | personalIdentity (id : Nat)
  | personalAlias (revCa : R.people.RevCa)
  | authorizedApplyWithSig (who : R.AccountId)
  | referredCandidate (who : R.AccountId)
  | invitedCandidate (who : R.AccountId)
  | accountParticipant (who : R.AccountId)
  | litePerson (who : R.AccountId)
  | liteAlias (revCa : R.peopleLite.RevCa)
  | other
  deriving DecidableEq

/-! ### Restricted entities -/

inductive RestrictedEntity
  | personalAlias (ringAlias : R.people.Alias)
  | personalIdentity (id : Nat)
  | referredCandidate (who : R.AccountId)
  | accountParticipant (who : R.AccountId)
  | invitedCandidate (who : R.AccountId)
  | litePerson (who : R.AccountId)
  deriving DecidableEq

def UNITS : Nat := 10000000000

def CENTS : Nat := UNITS / 100

def MILLICENTS : Nat := CENTS / 1000

variable {R}

namespace RestrictedEntity

def allowance : RestrictedEntity R → Allowance
  | .personalAlias _ | .personalIdentity _ => ⟨UNITS, CENTS⟩
  | .referredCandidate _ => ⟨0, CENTS⟩
  | .invitedCandidate _ => ⟨0, CENTS⟩
  | .accountParticipant _ => ⟨0, CENTS⟩
  | .litePerson _ => ⟨UNITS, MILLICENTS⟩

def restrictedEntity : OriginCaller R → Option (RestrictedEntity R)
  | .personalIdentity id => some (.personalIdentity id)
  | .personalAlias revCa => some (.personalAlias revCa.ca.ringAlias)
  | .referredCandidate who => some (.referredCandidate who)
  | .accountParticipant who => some (.accountParticipant who)
  | .litePerson who => some (.litePerson who)
  | _ => Option.none

end RestrictedEntity

/-- The calls that an entity is allowed in excess of its allowance. -/
def operationAllowedOneTimeExcess : RestrictedEntity R → RuntimeCall R → Bool
  | .referredCandidate _, .proofOfInk (.submitEvidence _) => true
  | .referredCandidate _, .proofOfInk (.commit _ _) => true
  | .referredCandidate _, .proofOfInk .allocateFull => true
  | .referredCandidate _, .proofOfInk .flakeout => true
  | .referredCandidate _, .proofOfInk (.registerReferred _ _ _) => true
  | .invitedCandidate _, .proofOfInk (.submitEvidence _) => true
  | .invitedCandidate _, .proofOfInk (.commit _ _) => true
  | .invitedCandidate _, .proofOfInk .allocateFull => true
  | .invitedCandidate _, .proofOfInk .flakeout => true
  | .invitedCandidate _, .proofOfInk (.registerNonReferred _ _ _) => true
  | .accountParticipant _, .score .cashOut => true
  | .accountParticipant _, .score .redeemCredit => true
  | .accountParticipant _, .score .register => true
  | .accountParticipant _, .game .signUpWithAccount => true
  | .accountParticipant _, .game .report => true
  | .accountParticipant _, .game .offboard => true
  | .accountParticipant _, .game .claimAirdrop => true
  | _, _ => false

abbrev restriction (R : Config) : OriginRestriction.Config where
  Entity := RestrictedEntity R
  entityDecEq := inferInstance
  OriginCaller := OriginCaller R
  RuntimeCall := RuntimeCall R
  Weight := R.Weight
  restrictedEntity := RestrictedEntity.restrictedEntity
  allowance := RestrictedEntity.allowance
  operationAllowedOneTimeExcess := operationAllowedOneTimeExcess
  weightToFee := R.weightToFee
  lengthToFee := R.lengthToFee

/-! ### Transactions -/

variable (R)

/-- The pallets that the extensions read, with what they read of the chain. The nonce of an account is
the one that the people pallet's store keeps. -/
structure Pallets where
  proofOfInk : ProofOfInk.Store R.proofOfInk
  peopleLite : PeopleLite.Store R.peopleLite
  score : Score.Store R.AccountId
  env : ProofOfInk.Env R.proofOfInk

/-- `signer` has signed it, if anyone has, and the options are what the extensions carry, the nonce for that
of the score pallet; `asOther` says that another extension replaces the origin, `restrictOrigin` that
the last one is enabled. `implication` and `liteImplication` are the hash of what it implies. -/
structure Transaction where
  source : People.TransactionSource
  signer : Option R.AccountId
  asPerson : Option (People.AsPersonInfo R.people)
  asProofOfInkParticipant : Option ProofOfInk.AsProofOfInkParticipantInfo
  scoreAsParticipant : Option Nat
  peopleLiteAuth : Option (PeopleLite.PeopleLiteAuthData R.peopleLite)
  asOther : Bool
  restrictOrigin : Bool
  call : RuntimeCall R
  implication : R.people.Message
  liteImplication : R.peopleLite.Message
  weight : R.Weight
  len : Nat

inductive InvalidTransaction
  | call
  | people (e : People.InvalidTransaction)
  | peopleLite (e : PeopleLite.InvalidTransaction)
  | restricted (e : OriginRestriction.Refusal)
  | failed (e : OriginRestriction.Refusal)
  deriving DecidableEq

/-- What the extensions found, for `prepare`. -/
structure Vals where
  people : People.Val R.people
  proofOfInk : Option (R.AccountId × Nat)
  score : Option (R.AccountId × Nat)
  peopleLite : PeopleLite.PeopleLiteAuthVal R.peopleLite

variable {R}

namespace Pallets

abbrev registry (p : Pallets R) : People.Store R.people := p.proofOfInk.registry

/-- Any of the pallets gives the account a reference, or it exists without them. -/
def accountExists (p : Pallets R) (who : R.AccountId) : Bool :=
  p.env.people.accountExists who || decide (0 < p.registry.sufficients who) ||
    decide (0 < p.proofOfInk.sufficients who) || decide (0 < p.peopleLite.sufficients who)

def peopleEnv (p : Pallets R) (now : Nat) : People.Env R.people :=
  { p.env.people with
    now := now
    accountExists := p.accountExists }

def proofOfInkEnv (p : Pallets R) (now : Nat) : ProofOfInk.Env R.proofOfInk :=
  { p.env with people := p.peopleEnv now }

def liteEnv (p : Pallets R) (now : Nat) : PeopleLite.Env R.peopleLite := ⟨now, p.accountExists⟩

def lite (p : Pallets R) : PeopleLite.Store R.peopleLite := { p.peopleLite with nonces := p.registry.nonces }

end Pallets

def RuntimeCall.asPeople : RuntimeCall R → People.Call R.people
  | .people call => call
  | _ => .other

def RuntimeCall.asProofOfInk : RuntimeCall R → ProofOfInk.Call R.proofOfInk
  | .proofOfInk call => call
  | _ => .other

def RuntimeCall.asPeopleLite : RuntimeCall R → PeopleLite.Call R.peopleLite
  | .peopleLite call => call
  | _ => .other

namespace OriginCaller

/-- An origin that is not the system's is no extension's to replace: neither is the manager's. -/
def asPeople : OriginCaller R → People.Signer R.people
  | .none => .none
  | .signed who => .signed who
  | _ => .manager

def asProofOfInk : OriginCaller R → ProofOfInk.Origin R.proofOfInk
  | .none => .none
  | .signed who => .signed who
  | _ => .manager

def asPeopleLite : OriginCaller R → PeopleLite.Signer R.peopleLite
  | .none => .none
  | .signed who => .signed who
  | _ => .manager

def ofPeople : People.Origin R.people → OriginCaller R
  | .none => .none
  | .signed who => .signed who
  | .personalIdentity id => .personalIdentity id
  | .personalAlias revCa => .personalAlias revCa
  | .manager | .authorized => .other

def ofProofOfInk : ProofOfInk.Origin R.proofOfInk → OriginCaller R
  | .none => .none
  | .signed who => .signed who
  | .authorizedApplyWithSig who => .authorizedApplyWithSig who
  | .referredCandidate who => .referredCandidate who
  | .invitedCandidate who => .invitedCandidate who
  | .manager | .invitations | .person _ => .other

def ofPeopleLite : PeopleLite.Origin R.peopleLite → OriginCaller R
  | .none => .none
  | .signed who => .signed who
  | .litePerson who => .litePerson who
  | .liteAlias revCa => .liteAlias revCa
  | .manager => .other

end OriginCaller

/-! ### The extensions -/

section Extensions
variable (now : Nat) (p : Pallets R) (tx : Transaction R)

def asPerson (origin : OriginCaller R) : Except InvalidTransaction (OriginCaller R × People.Val R.people) :=
  match tx.asPerson with
  | none => .ok (origin, .notUsing)
  | some info => do
    let (o, val) ← (People.validate (p.peopleEnv now) p.registry
      ⟨tx.source, origin.asPeople, some info, tx.call.asPeople, tx.implication⟩).mapError .people
    return (.ofPeople o, val)

def asProofOfInkParticipant (origin : OriginCaller R) :
    Except InvalidTransaction (OriginCaller R × Option (R.AccountId × Nat)) :=
  match tx.asProofOfInkParticipant with
  | none => .ok (origin, none)
  | some info => do
    let (o, val) ← (ProofOfInk.validate (p.proofOfInkEnv now) p.proofOfInk
      ⟨origin.asProofOfInk, some info, tx.call.asProofOfInk⟩).mapError .people
    return (.ofProofOfInk o, val)

def scoreAsParticipant (origin : OriginCaller R) :
    Except InvalidTransaction (OriginCaller R × Option (R.AccountId × Nat)) :=
  match tx.scoreAsParticipant with
  | none => .ok (origin, none)
  | some nonce =>
    match origin with
    | .signed who => do
      ensure (p.score.participants.contains (.account who) = true) .call
      (People.validateNonceForAccount (p.peopleEnv now) p.registry who nonce).mapError .people
      return (.accountParticipant who, some (who, nonce))
    | _ => .error .call

def peopleLiteAuth (origin : OriginCaller R) :
    Except InvalidTransaction (OriginCaller R × PeopleLite.PeopleLiteAuthVal R.peopleLite) :=
  match tx.peopleLiteAuth with
  | none => .ok (origin, .none)
  | some data => do
    let (o, val) ← (PeopleLite.PeopleLiteAuth.validate (p.liteEnv now) p.lite
      ⟨origin.asPeopleLite, some data, tx.call.asPeopleLite, tx.liteImplication⟩).mapError .peopleLite
    return (.ofPeopleLite o, val)

/-- The other extensions, which give origins of other pallets. -/
def asOther (origin : OriginCaller R) : Except InvalidTransaction (OriginCaller R) :=
  if tx.asOther then
    match origin with
    | .none | .signed _ => .ok .other
    | _ => .error .call
  else .ok origin

def validateOrigin : Except InvalidTransaction (OriginCaller R × Vals R) := do
  let origin := match tx.signer with
    | some who => OriginCaller.signed who
    | none => OriginCaller.none
  let (origin, people) ← asPerson now p tx origin
  let (origin, proofOfInk) ← asProofOfInkParticipant now p tx origin
  let (origin, score) ← scoreAsParticipant now p tx origin
  let (origin, peopleLite) ← peopleLiteAuth now p tx origin
  let origin ← asOther tx origin
  return (origin, ⟨people, proofOfInk, score, peopleLite⟩)

end Extensions

def prepare (p : Pallets R) (vals : Vals R) : Except InvalidTransaction (Pallets R) := do
  let registry ← (People.prepare p.registry vals.people).mapError .people
  let s ← (ProofOfInk.prepare { p.proofOfInk with registry := registry } vals.proofOfInk).mapError .people
  let s ← (ProofOfInk.prepare s vals.score).mapError .people
  let lite ← (PeopleLite.PeopleLiteAuth.prepare { p.peopleLite with nonces := s.registry.nonces } vals.peopleLite).mapError
    .peopleLite
  return { p with
    peopleLite := lite
    proofOfInk := { s with registry := { s.registry with nonces := lite.nonces } } }

/-- What the last extension sees of a transaction, whose origin is settled by then. -/
def Transaction.restricted (tx : Transaction R) (origin : OriginCaller R) : OriginRestriction.Transaction (restriction R) :=
  ⟨tx.restrictOrigin, origin, tx.call, tx.weight, tx.len⟩

/-! ### A chain with the extensions -/

variable (R)

structure Chain where
  pallets : Pallets R
  usages : OriginRestriction.Store (restriction R)

/-- `dispatched` is what the dispatch of the transaction makes of the pallets, whether it fails or not;
`cleaned` are the calls of `clean_usage` that it makes. -/
inductive Action
  | transaction (tx : Transaction R) (dispatched : Pallets R → Pallets R) (cleaned : List (RestrictedEntity R))
      (info : OriginRestriction.PostDispatchInfo (restriction R))
  | cleanUsage (isNone : Bool) (entity : RestrictedEntity R)
  | advance (blocks : Nat)
  | elsewhere (pallets : Pallets R)

variable {R}

abbrev Chain.now (c : Chain R) : Nat := c.usages.blockNumber

def exec (c : Chain R) : Action R → Except InvalidTransaction (Chain R)
  | .transaction tx dispatched cleaned info => do
    let (origin, vals) ← validateOrigin c.now c.pallets tx
    let usages ← (OriginRestriction.exec c.usages (.transaction (tx.restricted origin) cleaned info)).mapError .restricted
    let pallets ← prepare c.pallets vals
    return ⟨dispatched pallets, usages⟩
  | .cleanUsage isNone entity => do
    let usages ← (OriginRestriction.exec c.usages (.cleanUsage isNone entity)).mapError .failed
    return { c with usages := usages }
  | .advance blocks => .ok { c with usages := { c.usages with blockNumber := c.now + blocks } }
  | .elsewhere pallets => .ok { c with pallets := pallets }

def genesis (pallets : Pallets R) (blockNumber : Nat) : Chain R :=
  ⟨pallets, OriginRestriction.genesis (restriction R) blockNumber⟩

end Individuality.PeoplePaseo
