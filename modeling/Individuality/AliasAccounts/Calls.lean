import Individuality.Members.Types
import Individuality.People.Types
import Individuality.Members.Provers
import Individuality.Support.References
import Individuality.Support.Runs

/-! The alias-accounts pallet: its storage, its calls, and its transaction extension.

An account is bound to an alias of a member of one of two collections, with the ring and
the revision that the alias was proven against, and may then act under the alias
(`AsRingAlias.validate`) as long as that revision is in grace. `exec` runs a chain with
the pallet: signed calls, transactions that ask for the alias of their signer, and the
members pallet, the clock and the asset ledger, which change in any way. -/
namespace Individuality.AliasAccounts
open Support
open Members (Identifier RingExponent peopleIdentifier peopleLiteIdentifier)
open People (ContextualAlias RevisedContextualAlias)

/-! ### Configuration -/

/-- The members pallet, and the clock. -/
structure MemberService where
  World : Type
  Proof : Type
  Message : Type
  Context : Type
  Alias : Type
  contextDecEq : DecidableEq Context
  aliasDecEq : DecidableEq Alias
  /-- The alias of the member in the context. -/
  verifyMembershipAtRev : World → Identifier → Proof → (ring revision : Nat) → Context → Message → Option Alias
  isRevisionValid : World → Identifier → (ring revision : Nat) → Bool
  ringRevision : World → Identifier → (ring : Nat) → Option Nat
  revisionSourceTime : World → Identifier → (ring revision : Nat) → Option Nat
  unixTime : World → Nat

attribute [instance] MemberService.contextDecEq MemberService.aliasDecEq

structure Config where
  memberService : MemberService
  AccountId : Type
  accountDecEq : DecidableEq AccountId
  proofValidityWindow : Nat
  cleanupGracePeriod : Nat
  peopleLiteRingExponent : RingExponent
  peopleRingExponent : RingExponent
  /-- The ledger of the PGAS asset. -/
  Ledger : Type
  burnFrom : Ledger → AccountId → Nat → Option Ledger
  /-- What a proof signs: the account that it is for, and from when on it is valid. -/
  proofMessage : AccountId → Nat → memberService.Message

attribute [instance] Config.accountDecEq

namespace Config
variable (T : Config)

abbrev Proof : Type := T.memberService.Proof
abbrev Context : Type := T.memberService.Context
abbrev Ca : Type := ContextualAlias T.Context T.memberService.Alias
abbrev RevCa : Type := RevisedContextualAlias T.Context T.memberService.Alias

end Config

variable (T : Config)

/-- An alias in a collection, and the ring and the revision of the proof. -/
structure AliasAccountInfo where
  collection : Identifier
  revision : Nat
  ring : Nat
  ca : T.Ca
  deriving DecidableEq

inductive Error
  | invalidCollection
  | accountInUse
  | invalidAccount
  | aliasAccountAlreadySet
  | timeOutOfRange
  | aliasNotStale
  | cleanupTooEarly
  | inconsistentState
  | aliasFeeUnset
  | reproveMismatch
  | staleRevision
  | badProof
  /-- The asset ledger failed. -/
  | assets
  deriving DecidableEq, Repr

inductive InvalidTransaction
  | payment
  | future
  | stale
  | originNotSigned
  | noAliasMapping
  | staleRevision
  deriving DecidableEq, Repr

/-- The storage of the pallet, the state of the services that it uses, and of each account its nonce
and the sufficient references that this pallet has put on it, those that it took off counted against
them. -/
structure Store where
  aliasToAccount : StorageMap (Identifier × T.Ca) T.AccountId
  accountToAlias : StorageMap T.AccountId (AliasAccountInfo T)
  aliasFee : Option Nat
  members : T.memberService.World
  assets : T.Ledger
  sufficients : T.AccountId → Int
  nonces : T.AccountId → Nat

/-- The calls that accounts sign. -/
inductive Call
  | unsetAliasAccount
  | setAliasAccount (proof : T.Proof) (collection : Identifier) (ring revision : Nat) (context : T.Context)
      (proofValidAt : Nat)
  | reproveAliasAccount (proof : T.Proof) (ring revision : Nat) (proofValidAt : Nat)
  | cleanUpStaleAlias (collection : Identifier) (ca : T.Ca)

variable {T}

def AliasAccountInfo.fromValidated (collection : Identifier) (revCa : T.RevCa) : AliasAccountInfo T :=
  ⟨collection, revCa.revision, revCa.ring, revCa.ca⟩

/-! ### Proofs and revisions -/

def ensureValidCollection (T : Config) (collection : Identifier) : Except Error RingExponent :=
  if collection = peopleLiteIdentifier then .ok T.peopleLiteRingExponent
  else if collection = peopleIdentifier then .ok T.peopleRingExponent
  else .error .invalidCollection

/-- The revision is the ring's, or the members pallet retains it and it was replaced no longer ago than
the grace period. -/
def isRevisionInGrace (w : T.memberService.World) (identifier : Identifier) (ring revision : Nat) : Bool :=
  if T.memberService.isRevisionValid w identifier ring revision = false then false
  else if T.memberService.ringRevision w identifier ring = some revision then true
  else
    match T.memberService.revisionSourceTime w identifier ring revision with
    | none => false
    | some sourceTime => T.memberService.unixTime w ≤ U64.saturatingAdd sourceTime T.cleanupGracePeriod

def verifyProof (s : Store T) (proof : T.Proof) (collection : Identifier) (ring revision : Nat)
    (context : T.Context) (message : T.memberService.Message) : Except Error T.RevCa := do
  let _ ← ensureValidCollection T collection
  ensure (isRevisionInGrace s.members collection ring revision = true) .staleRevision
  let found ← okOr (T.memberService.verifyMembershipAtRev s.members collection proof ring revision context message)
    .badProof
  return ⟨revision, ring, context, found⟩

/-- A proof has begun to be valid, and is still. -/
def validNow (T : Config) (now proofValidAt : Nat) : Prop :=
  proofValidAt ≤ now ∧ now ≤ U64.saturatingAdd proofValidAt T.proofValidityWindow

instance (now proofValidAt : Nat) : Decidable (validNow T now proofValidAt) := inferInstanceAs (Decidable (_ ∧ _))

/-! ### Calls -/

def incSufficients (s : Store T) (who : T.AccountId) : Store T :=
  { s with sufficients := References.inc s.sufficients who }

def decSufficients (s : Store T) (who : T.AccountId) : Store T :=
  { s with sufficients := References.dec s.sufficients who }

def unsetAliasAccount (s : Store T) (who : T.AccountId) : Except Error (Store T) := do
  let info ← okOr (s.accountToAlias.get who) .invalidAccount
  return decSufficients { s with
    accountToAlias := s.accountToAlias.remove who
    aliasToAccount := s.aliasToAccount.remove (info.collection, info.ca) } who

/-- The alias passes to a new account: the old one, if there is one, is let go. -/
def takeOver (s : Store T) (oldAccount : Option T.AccountId) (who : T.AccountId) : Store T :=
  let s := match oldAccount with
    | some old => { decSufficients s old with accountToAlias := s.accountToAlias.remove old }
    | none => s
  incSufficients s who

def setAliasAccount (s : Store T) (who : T.AccountId) (proof : T.Proof) (collection : Identifier)
    (ring revision : Nat) (context : T.Context) (proofValidAt : Nat) : Except Error (Store T) := do
  let fee ← okOr s.aliasFee .aliasFeeUnset
  ensure (validNow T (T.memberService.unixTime s.members) proofValidAt) .timeOutOfRange
  let revCa ← verifyProof s proof collection ring revision context (T.proofMessage who proofValidAt)
  let info := AliasAccountInfo.fromValidated collection revCa
  let oldAccount := s.aliasToAccount.get (collection, info.ca)
  let isNewAccount : Bool := oldAccount ≠ some who
  ensure (isNewAccount = true ∨ s.accountToAlias.get who ≠ some info) .aliasAccountAlreadySet
  ensure (isNewAccount = true → s.accountToAlias.contains who = false) .accountInUse
  let assets ← okOr (T.burnFrom s.assets who fee) .assets
  let s := { s with assets := assets }
  let s := if isNewAccount then takeOver s oldAccount who else s
  return { s with
    accountToAlias := s.accountToAlias.insert who info
    aliasToAccount := s.aliasToAccount.insert (collection, info.ca) who }

def reproveAliasAccount (s : Store T) (who : T.AccountId) (proof : T.Proof) (ring revision : Nat)
    (proofValidAt : Nat) : Except Error (Store T) := do
  ensure (validNow T (T.memberService.unixTime s.members) proofValidAt) .timeOutOfRange
  let old ← okOr (s.accountToAlias.get who) .invalidAccount
  let revCa ← verifyProof s proof old.collection ring revision old.ca.context (T.proofMessage who proofValidAt)
  ensure (revCa.ca.ringAlias = old.ca.ringAlias) .reproveMismatch
  -- Forward on the same ring; the revisions of two rings are not comparable.
  ensure (revCa.ring ≠ old.ring ∨ revCa.revision > old.revision) .aliasAccountAlreadySet
  return { s with accountToAlias := s.accountToAlias.insert who ⟨old.collection, revCa.revision, revCa.ring, old.ca⟩ }

/-- The revision is out of grace, and the ring is gone or its latest revision has been there for a
grace period. -/
def ensureAliasIsStale (s : Store T) (info : AliasAccountInfo T) : Except Error Unit := do
  ensure (isRevisionInGrace s.members info.collection info.ring info.revision = false) .aliasNotStale
  match T.memberService.ringRevision s.members info.collection info.ring with
  | none => return ()
  | some latestRevision =>
    let newestSourceTime :=
      (T.memberService.revisionSourceTime s.members info.collection info.ring latestRevision).getD 0
    ensure (U64.saturatingAdd newestSourceTime T.cleanupGracePeriod ≤ T.memberService.unixTime s.members)
      .cleanupTooEarly

def cleanUpStaleAlias (s : Store T) (collection : Identifier) (ca : T.Ca) : Except Error (Store T) := do
  let account ← okOr (s.aliasToAccount.get (collection, ca)) .invalidAccount
  let info ← okOr (s.accountToAlias.get account) .invalidAccount
  ensure (info.collection = collection) .inconsistentState
  ensureAliasIsStale s info
  return decSufficients { s with
    aliasToAccount := s.aliasToAccount.remove (collection, ca)
    accountToAlias := s.accountToAlias.remove account } account

/-- A call that an account has signed. -/
def dispatch (s : Store T) (who : T.AccountId) : Call T → Except Error (Store T)
  | .unsetAliasAccount => unsetAliasAccount s who
  | .setAliasAccount proof collection ring revision context proofValidAt =>
    setAliasAccount s who proof collection ring revision context proofValidAt
  | .reproveAliasAccount proof ring revision proofValidAt => reproveAliasAccount s who proof ring revision proofValidAt
  | .cleanUpStaleAlias collection ca => cleanUpStaleAlias s collection ca

/-! ### What other pallets use -/

/-- The collection and the alias of an account in a context. -/
def personhoodInfo (s : Store T) (account : T.AccountId) (context : T.Context) :
    Option (Identifier × T.memberService.Alias) :=
  match s.accountToAlias.get account with
  | none => none
  | some info =>
    if info.ca.context ≠ context then none
    else if isRevisionInGrace s.members info.collection info.ring info.revision = false then none
    else some (info.collection, info.ca.ringAlias)

/-! ### The transaction extension -/

/-- The nonce is not used yet, and the account exists to keep it. -/
def validateNonceForAccount (s : Store T) (exists_ : T.AccountId → Bool) (who : T.AccountId) (nonce : Nat) :
    Except InvalidTransaction Unit := do
  ensure (exists_ who = true ∨ 0 < s.sufficients who) .payment
  ensure (s.nonces who ≤ nonce) .stale

def prepareNonceForAccount (s : Store T) (who : T.AccountId) (nonce : Nat) :
    Except InvalidTransaction (Store T) := do
  ensure (nonce ≤ s.nonces who) .future
  return { s with nonces := Function.update s.nonces who (s.nonces who + 1) }

/-- The alias that a transaction is given for the nonce of its signer. -/
def AsRingAlias.validate (s : Store T) (exists_ : T.AccountId → Bool) (signer : Option T.AccountId) (nonce : Nat) :
    Except InvalidTransaction (AliasAccountInfo T × T.AccountId) := do
  let who ← okOr signer .originNotSigned
  let info ← okOr (s.accountToAlias.get who) .noAliasMapping
  ensure (isRevisionInGrace s.members info.collection info.ring info.revision = true) .staleRevision
  validateNonceForAccount s exists_ who nonce
  return (info, who)

/-! ### A chain with the pallet -/

variable (T)

/-- `accountExists` is whether an account exists without this pallet. -/
structure Chain where
  store : Store T
  accountExists : T.AccountId → Bool

/-- `asRingAlias` is a transaction that another pallet's call is dispatched by, under the alias of the
signer, and `elsewhere` what the rest of the chain does. -/
inductive Action
  | dispatch (who : T.AccountId) (call : Call T)
  | setAliasFee (fee : Nat)
  | asRingAlias (signer : Option T.AccountId) (nonce : Nat)
  | elsewhere (members : T.memberService.World) (assets : T.Ledger) (accountExists : T.AccountId → Bool)

inductive Refusal
  | invalid (e : InvalidTransaction)
  | failed (e : Error)
  deriving DecidableEq

variable {T}

def exec (c : Chain T) : Action T → Except Refusal (Chain T)
  | .dispatch who call => do
    let s ← (dispatch c.store who call).mapError .failed
    return { c with store := s }
  | .setAliasFee fee => .ok { c with store := { c.store with aliasFee := some fee } }
  | .asRingAlias signer nonce => do
    let (_, who) ← (AsRingAlias.validate c.store c.accountExists signer nonce).mapError .invalid
    let s ← (prepareNonceForAccount c.store who nonce).mapError .invalid
    return { c with store := s }
  | .elsewhere members assets accountExists =>
    .ok ⟨{ c.store with members := members, assets := assets }, accountExists⟩

/-- The chain before any alias has an account. -/
def genesis (members : T.memberService.World) (assets : T.Ledger) (accountExists : T.AccountId → Bool) : Chain T :=
  ⟨⟨∅, ∅, none, members, assets, fun _ => 0, fun _ => 0⟩, accountExists⟩

end Individuality.AliasAccounts
