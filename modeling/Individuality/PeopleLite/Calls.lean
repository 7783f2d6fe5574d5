import Individuality.People.Types
import Individuality.Resources.Types
import Individuality.Support.References
import Individuality.Support.Runs

/-! The people-lite pallet: its storage, its calls and its transaction extension.

A verifier attests a candidate's account and ring-VRF key, out of an allowance, and may
register a consumer with the registrar besides. A member of the lite collection may give
an alias an account of its own (`setAliasAccount`), and a transaction may be dispatched
under a lite person or a lite alias (`PeopleLiteAuth.validate`). `exec` runs a chain with
the pallet: transactions, calls that other pallets dispatch, the creation of the
collection, and what becomes of the members, the registrar and the accounts. -/
namespace Individuality.PeopleLite
open Support
open People (ContextualAlias RevisedContextualAlias)
open Resources (Username)

/-- The members pallet, as far as the lite collection goes: `memberStatus` is whether a key has a
record there. -/
structure MemberService extends People.MemberService where
  memberStatus : World → Member → Bool

structure Config where
  memberService : MemberService
  AccountId : Type
  accountDecEq : DecidableEq AccountId
  Signature : Type
  AttestationSignature : Type
  /-- The consumer registrar, and its state. -/
  Registrar : Type
  verifySignature : Signature → memberService.Message → memberService.Member → Bool
  verifyAttestation : AttestationSignature → memberService.Message → AccountId → Bool
  registerConsumer : Registrar → AccountId → Vector UInt8 65 → Username → Option Username → Option Registrar
  litePeopleAuthContext : memberService.Context
  /-- What a candidate signs: the account, and the ring-VRF key. -/
  attestMessage : AccountId → memberService.Member → memberService.Message
  /-- What a consumer signs: the account, the verifier, the identifier key, the username up to its
  separator, and the reserved username. -/
  signingPayload : AccountId → AccountId → Vector UInt8 65 → List UInt8 → Option Username → memberService.Message
  /-- What is signed to revise the alias of an account: the implication, the account and its nonce. -/
  reviseMessage : memberService.Message → AccountId → Nat → memberService.Message

attribute [instance] Config.accountDecEq

namespace Config
variable (T : Config)

abbrev Member : Type := T.memberService.Member
abbrev Context : Type := T.memberService.Context
abbrev Message : Type := T.memberService.Message
abbrev Ca : Type := ContextualAlias T.Context T.memberService.Alias
abbrev RevCa : Type := RevisedContextualAlias T.Context T.memberService.Alias

end Config

variable (T : Config)

inductive RecognitionMethod
  | uniqueDevice (verifier : T.AccountId)

structure LitePersonInfo where
  ringVrfKey : T.Member
  method : RecognitionMethod T

structure LiteConsumerRegistrationParams where
  signature : T.AttestationSignature
  account : T.AccountId
  identifierKey : Vector UInt8 65
  username : Username
  reservedUsername : Option Username

inductive Error
  | noAttestationAllowance
  | invalidAttestationSignature
  | invalidProofOfOwnership
  | alreadyRegistered
  | keyAlreadyInUse
  | accountInUse
  | aliasAccountAlreadySet
  | aliasAccountNotSet
  | callBlockOutOfRange
  | invalidAliasContext
  | litePeopleCollectionNotCreated
  | badOrigin
  /-- The members pallet failed. -/
  | members
  /-- The consumer registrar failed. -/
  | registrar
  deriving DecidableEq, Repr

inductive CustomError
  | notLitePerson
  | staleAlias
  | invalidProof
  | aliasMismatch
  | noAliasBinding
  deriving DecidableEq, Repr

inductive InvalidTransaction
  | call
  | payment
  | future
  | stale
  | badProof
  | badSigner
  | custom (e : CustomError)
  deriving DecidableEq, Repr

inductive Pays
  | yes
  | no
  deriving DecidableEq, Repr

/-- The storage of the pallet, the state of the services that it uses, and of each account its nonce
and the sufficient references that this pallet has put on it, those that it took off counted against
them. -/
structure Store where
  litePeople : StorageMap T.AccountId (LitePersonInfo T)
  aliasToAccount : StorageMap T.Ca T.AccountId
  accountToAlias : StorageMap T.AccountId T.RevCa
  litePeopleCollectionCreated : Bool
  attestationAllowance : StorageMap T.AccountId Nat
  members : T.memberService.World
  registrar : T.Registrar
  sufficients : T.AccountId → Int
  nonces : T.AccountId → Nat

/-- What the pallet reads of the chain: the block, and whether an account exists without this pallet. -/
structure Env where
  now : Nat
  accountExists : T.AccountId → Bool

inductive Origin
  | none
  | manager
  | signed (who : T.AccountId)
  | litePerson (account : T.AccountId)
  | liteAlias (revCa : T.RevCa)

/-- Who a transaction comes from, ahead of the extension. -/
inductive Signer
  | none
  | manager
  | signed (who : T.AccountId)

/-- `other` is a call of another pallet. -/
inductive Call
  | increaseAttestationAllowance (account : T.AccountId) (count : Nat)
  | clearAttestationAllowance (account : T.AccountId)
  | attest (candidate : T.AccountId) (candidateSignature : T.AttestationSignature) (ringVrfKey : T.Member)
      (proofOfOwnership : T.Signature) (consumerRegistration : Option (LiteConsumerRegistrationParams T))
  | dispatchAsSigner (call : Call)
  | setAliasAccount (account : T.AccountId) (validAtBlock : Nat)
  | unsetAliasAccount
  | other

inductive PeopleLiteAuthData
  | asLitePerson (nonce : Nat)
  | asLiteAliasWithAccount (nonce : Nat)
  | asLiteAliasWithProof (proof : T.memberService.Proof) (ring : Nat) (context : T.Context)
  | asLiteAliasWithAccountRevised (nonce : Nat) (proof : T.memberService.Proof) (ring : Nat) (context : T.Context)

/-- `implication` is the hash of what the transaction implies. -/
structure Transaction where
  signer : Signer T
  peopleLiteAuth : Option (PeopleLiteAuthData T)
  call : Call T
  implication : T.Message

/-- What the extension found, for `prepare`. -/
inductive PeopleLiteAuthVal
  | none
  | usingProof
  | usingAccount (who : T.AccountId) (nonce : Nat)
  | usingAccountRevised (who : T.AccountId) (nonce : Nat) (revCa : T.RevCa)

variable {T}

/-! ### Accounts -/

def incSufficients (s : Store T) (who : T.AccountId) : Store T :=
  { s with sufficients := References.inc s.sufficients who }

def decSufficients (s : Store T) (who : T.AccountId) : Store T :=
  { s with sufficients := References.dec s.sufficients who }

/-- The nonce is not used yet, and the account exists to keep it. -/
def validateNonceForAccount (env : Env T) (s : Store T) (who : T.AccountId) (nonce : Nat) :
    Except InvalidTransaction Unit := do
  ensure (env.accountExists who = true ∨ 0 < s.sufficients who) .payment
  ensure (s.nonces who ≤ nonce) .stale

def prepareNonceForAccount (s : Store T) (who : T.AccountId) (nonce : Nat) :
    Except InvalidTransaction (Store T) := do
  ensure (nonce ≤ s.nonces who) .future
  return { s with nonces := Function.update s.nonces who (s.nonces who + 1) }

/-! ### Attestations -/

def Store.allowance (s : Store T) (verifier : T.AccountId) : Nat := (s.attestationAllowance.get verifier).getD 0

def increaseAttestationAllowance (s : Store T) (account : T.AccountId) (count : Nat) : Store T :=
  { s with attestationAllowance := s.attestationAllowance.insert account (U32.saturatingAdd (s.allowance account) count) }

def clearAttestationAllowance (s : Store T) (account : T.AccountId) : Store T :=
  { s with attestationAllowance := s.attestationAllowance.remove account }

/-- The username up to its separator: the digits behind it are the verifier's choice. -/
def LiteConsumerRegistrationParams.stem (params : LiteConsumerRegistrationParams T) : List UInt8 :=
  params.username.toList.takeWhile fun b => b ≠ 46

def registerLiteConsumer (s : Store T) (params : LiteConsumerRegistrationParams T) (verifier : T.AccountId) :
    Except Error (Store T) := do
  let payload := T.signingPayload params.account verifier params.identifierKey params.stem params.reservedUsername
  ensure (T.verifyAttestation params.signature payload params.account = true) .invalidAttestationSignature
  let registrar ← okOr (T.registerConsumer s.registrar params.account params.identifierKey params.username
    params.reservedUsername) .registrar
  return { s with registrar := registrar }

def attest (s : Store T) (verifier candidate : T.AccountId) (candidateSignature : T.AttestationSignature)
    (ringVrfKey : T.Member) (proofOfOwnership : T.Signature)
    (consumerRegistration : Option (LiteConsumerRegistrationParams T)) : Except Error (Store T) := do
  ensure (s.litePeople.contains candidate = false) .alreadyRegistered
  ensure (T.memberService.memberStatus s.members ringVrfKey = false) .keyAlreadyInUse
  ensure (0 < s.allowance verifier) .noAttestationAllowance
  ensure (s.litePeopleCollectionCreated = true) .litePeopleCollectionNotCreated
  let msg := T.attestMessage candidate ringVrfKey
  ensure (T.verifySignature proofOfOwnership msg ringVrfKey = true) .invalidProofOfOwnership
  ensure (T.verifyAttestation candidateSignature msg candidate = true) .invalidAttestationSignature
  let available := s.allowance verifier - 1
  let members ← okOr (T.memberService.addMembers s.members [ringVrfKey]) .members
  let s := incSufficients { s with
    attestationAllowance :=
      if 0 < available then s.attestationAllowance.insert verifier available
      else s.attestationAllowance.remove verifier
    litePeople := s.litePeople.insert candidate ⟨ringVrfKey, .uniqueDevice verifier⟩
    members := members } candidate
  match consumerRegistration with
  | some params => registerLiteConsumer s params verifier
  | none => return s

/-! ### Accounts of aliases -/

def accountSetupBlockTolerance : Nat := 600

/-- A setup call has begun to be valid, and is still. -/
def validNow (now validAtBlock : Nat) : Prop :=
  validAtBlock ≤ now ∧ now ≤ U32.saturatingAdd validAtBlock accountSetupBlockTolerance

instance (now validAtBlock : Nat) : Decidable (validNow now validAtBlock) := inferInstanceAs (Decidable (_ ∧ _))

/-- Give the alias another account, unless it keeps the one that it has. -/
def moveAliasAccount (s : Store T) (oldAccount : Option T.AccountId) (account : T.AccountId) :
    Except Error (Store T) :=
  match oldAccount with
  | none => do
    ensure (s.accountToAlias.contains account = false) .accountInUse
    return incSufficients s account
  | some old =>
    if old ≠ account then do
      ensure (s.accountToAlias.contains account = false) .accountInUse
      return incSufficients { decSufficients s old with accountToAlias := s.accountToAlias.remove old } account
    else .ok s

def setAliasAccount (env : Env T) (s : Store T) (revCa : T.RevCa) (account : T.AccountId) (validAtBlock : Nat) :
    Except Error (Store T × Pays) := do
  ensure (validNow env.now validAtBlock) .callBlockOutOfRange
  ensure (revCa.ca.context = T.litePeopleAuthContext) .invalidAliasContext
  ensure (s.litePeople.contains account = false) .accountInUse
  let oldAccount := s.aliasToAccount.get revCa.ca
  let oldRevCa := oldAccount.bind s.accountToAlias.get
  let needsRevision := oldRevCa.any fun old => old.revision ≠ revCa.revision ∨ old.ring ≠ revCa.ring
  ensure (oldAccount ≠ some account ∨ needsRevision = true) .aliasAccountAlreadySet
  let s' ← moveAliasAccount s oldAccount account
  let pays := if oldAccount.isNone = true ∨ needsRevision = true then Pays.no else Pays.yes
  return ({ s' with
    accountToAlias := s'.accountToAlias.insert account revCa
    aliasToAccount := s'.aliasToAccount.insert revCa.ca account }, pays)

def unsetAliasAccount (s : Store T) (ca : T.Ca) : Except Error (Store T) := do
  let account ← okOr (s.aliasToAccount.get ca) .aliasAccountNotSet
  return { decSufficients s account with
    aliasToAccount := s.aliasToAccount.remove ca
    accountToAlias := s.accountToAlias.remove account }

/-- The collection is created once. -/
def onPoll (s : Store T) : Store T :=
  if s.litePeopleCollectionCreated = true then s
  else
    match T.memberService.createCollection s.members with
    | some members => { s with members := members, litePeopleCollectionCreated := true }
    | none => s

/-! ### Dispatch -/

/-- A call under its origin. -/
def dispatch (env : Env T) (s : Store T) : Origin T → Call T → Except Error (Store T × Pays)
  | .manager, .increaseAttestationAllowance account count => .ok (increaseAttestationAllowance s account count, .yes)
  | .manager, .clearAttestationAllowance account => .ok (clearAttestationAllowance s account, .yes)
  | .signed verifier, .attest candidate candidateSignature ringVrfKey proofOfOwnership consumerRegistration =>
    (attest s verifier candidate candidateSignature ringVrfKey proofOfOwnership consumerRegistration).map (·, .no)
  | .litePerson who, .dispatchAsSigner call => dispatch env s (.signed who) call
  | .liteAlias revCa, .setAliasAccount account validAtBlock => setAliasAccount env s revCa account validAtBlock
  | .liteAlias revCa, .unsetAliasAccount => (unsetAliasAccount s revCa.ca).map (·, .yes)
  | _, .other => .ok (s, .yes)
  | _, _ => .error .badOrigin

/-! ### The transaction extension -/

namespace PeopleLiteAuth

def ensureSigned (signer : Signer T) : Except InvalidTransaction T.AccountId :=
  match signer with
  | .signed who => .ok who
  | _ => .error .badSigner

def ensureNone (signer : Signer T) : Except InvalidTransaction Unit :=
  match signer with
  | .none => .ok ()
  | _ => .error .badSigner

/-- A setup call has begun to be valid, and is still, ahead of its dispatch. -/
def ensureValidNow (now validAtBlock : Nat) : Except InvalidTransaction Unit := do
  ensure (¬now < validAtBlock) .future
  ensure (¬now > U32.saturatingAdd validAtBlock accountSetupBlockTolerance) .stale

def verifyMembership (s : Store T) (proof : T.memberService.Proof) (ring : Nat) (context : T.Context)
    (message : T.Message) : Option T.RevCa :=
  (T.memberService.verifyMembership s.members proof ring context message).map fun found =>
    ⟨found.1, ring, context, found.2⟩

/-- The origin of a transaction that does not ask for another one. -/
def plainOrigin (signer : Signer T) : Origin T :=
  match signer with
  | .none => .none
  | .manager => .manager
  | .signed who => .signed who

/-- The origin that the extension gives a transaction. -/
def validate (env : Env T) (s : Store T) (tx : Transaction T) :
    Except InvalidTransaction (Origin T × PeopleLiteAuthVal T) :=
  match tx.peopleLiteAuth with
  | none => .ok (plainOrigin tx.signer, .none)
  | some (.asLitePerson nonce) => do
    let who ← ensureSigned tx.signer
    ensure (s.litePeople.contains who = true) (.custom .notLitePerson)
    validateNonceForAccount env s who nonce
    return (.litePerson who, .usingAccount who nonce)
  | some (.asLiteAliasWithAccount nonce) => do
    let who ← ensureSigned tx.signer
    let revCa ← okOr (s.accountToAlias.get who) (.custom .noAliasBinding)
    let ringRevision ← okOr (T.memberService.ringRevision s.members revCa.ring) (.custom .staleAlias)
    ensure (ringRevision = revCa.revision) (.custom .staleAlias)
    validateNonceForAccount env s who nonce
    return (.liteAlias revCa, .usingAccount who nonce)
  | some (.asLiteAliasWithProof proof ring context) => do
    ensureNone tx.signer
    match tx.call with
    | .setAliasAccount account validAtBlock => do
      ensure (context = T.litePeopleAuthContext) .call
      ensureValidNow env.now validAtBlock
      let revCa ← okOr (verifyMembership s proof ring context tx.implication) .badProof
      -- The same pairing again would be a replay.
      ensure (s.accountToAlias.get account ≠ some revCa) .stale
      return (.liteAlias revCa, .usingProof)
    | _ => .error .call
  | some (.asLiteAliasWithAccountRevised nonce proof ring context) => do
    let who ← ensureSigned tx.signer
    let old ← okOr (s.accountToAlias.get who) (.custom .noAliasBinding)
    ensure (context = T.litePeopleAuthContext) .call
    let revCa ← okOr (verifyMembership s proof ring context (T.reviseMessage tx.implication who nonce))
      (.custom .invalidProof)
    ensure (revCa.ca.ringAlias = old.ca.ringAlias ∧ revCa.ca.context = old.ca.context) (.custom .aliasMismatch)
    validateNonceForAccount env s who nonce
    return (.liteAlias revCa, .usingAccountRevised who nonce revCa)

def prepare (s : Store T) : PeopleLiteAuthVal T → Except InvalidTransaction (Store T)
  | .usingAccount who nonce => prepareNonceForAccount s who nonce
  | .usingAccountRevised who nonce revCa =>
    prepareNonceForAccount { s with accountToAlias := s.accountToAlias.insert who revCa } who nonce
  | .none | .usingProof => .ok s

end PeopleLiteAuth

/-- What the extension wrote stays where the call fails. -/
def submit (env : Env T) (s : Store T) (tx : Transaction T) : Except InvalidTransaction (Store T) := do
  let (origin, val) ← PeopleLiteAuth.validate env s tx
  let s ← PeopleLiteAuth.prepare s val
  match dispatch env s origin tx.call with
  | .ok (s, _) => return s
  | .error _ => return s

/-! ### A chain with the pallet -/

variable (T)

structure Chain where
  store : Store T
  env : Env T

/-- `dispatch` is a call that another pallet dispatches under an origin, and `elsewhere` what the rest
of the chain does to the members, to the registrar and to what the pallet reads. -/
inductive Action
  | submit (tx : Transaction T)
  | dispatch (origin : Origin T) (call : Call T)
  | onPoll
  | elsewhere (members : T.memberService.World) (registrar : T.Registrar) (env : Env T)

inductive Refusal
  | invalid (e : InvalidTransaction)
  | failed (e : Error)
  deriving DecidableEq, Repr

variable {T}

/-- What an action makes of the storage. -/
def apply (c : Chain T) : Action T → Except Refusal (Store T)
  | .submit tx => (submit c.env c.store tx).mapError .invalid
  | .dispatch origin call => ((dispatch c.env c.store origin call).map Prod.fst).mapError .failed
  | .onPoll => .ok (onPoll c.store)
  | .elsewhere members registrar _ => .ok { c.store with members := members, registrar := registrar }

def exec (c : Chain T) (a : Action T) : Except Refusal (Chain T) := do
  let s ← apply c a
  match a with
  | .elsewhere _ _ env => return ⟨s, env⟩
  | _ => return { c with store := s }

/-- The chain before any lite person. -/
def genesis (members : T.memberService.World) (registrar : T.Registrar) (env : Env T) : Chain T :=
  ⟨⟨∅, ∅, ∅, false, ∅, members, registrar, fun _ => 0, fun _ => 0⟩, env⟩

end Individuality.PeopleLite
