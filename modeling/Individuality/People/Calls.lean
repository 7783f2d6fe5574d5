import Individuality.People.Types
import Individuality.Support.BoundedVec
import Individuality.Support.Runs

/-! The people pallet: its storage, its calls, its transaction extension, and what it offers to
other pallets.

A transaction may ask to be dispatched under a personal identity or a personal alias
(`validate`), or a call may be dispatched under the alias of its account
(`underAlias`). Suspending people is not undone where it fails half way. `exec` runs a
chain with the pallet: blocks pass, the contexts that may have accounts change, and so
do the members and the accounts. -/
namespace Individuality.People
open Support

inductive Error
  | notPerson
  | noKey
  | invalidContext
  | invalidAccount
  | accountInUse
  | keyAlreadyInUse
  | personalIdNotReserved
  | personalIdReservationCannotRenew
  | personalIdNotReservedOrNotRecognized
  | aliasNotStale
  | timeOutOfRange
  | aliasAccountAlreadySet
  | aliasMismatch
  | noStaleAliases
  | badOrigin
  /-- The members pallet failed. -/
  | members
  deriving DecidableEq, Repr

inductive CustomInvalidity
  | emptyAliases
  | invalidAccount
  | aliasMismatch
  | aliasNotStale
  deriving DecidableEq, Repr

inductive InvalidTransaction
  | call
  | payment
  | future
  | stale
  | badProof
  | badSigner
  | custom (e : CustomInvalidity)
  deriving DecidableEq, Repr

inductive TransactionSource
  | inBlock
  | local
  | external
  deriving DecidableEq, Repr

inductive Pays
  | yes
  | no
  deriving DecidableEq, Repr

variable (T : Config)

/-- The storage of the pallet, the members pallet's state, and of each account its nonce and the
sufficient references that this pallet has put on it, those that it took off counted against them. -/
structure Store where
  keys : StorageMap T.Member Nat
  people : StorageMap Nat (PersonRecord T)
  aliasToAccount : StorageMap T.Ca T.AccountId
  accountToAlias : StorageMap T.AccountId T.RevCa
  accountToPersonalId : StorageMap T.AccountId Nat
  nextPersonalId : Nat
  peopleCollectionCreated : Bool
  reservedPersonalId : StorageMap Nat Unit
  members : T.memberService.World
  sufficients : T.AccountId → Int
  nonces : T.AccountId → Nat

/-- What the pallet reads of the chain: the block, the contexts that may have accounts, and whether an
account exists without this pallet. -/
structure Env where
  now : Nat
  accountContexts : T.Context → Bool
  accountExists : T.AccountId → Bool

inductive Origin
  | none
  | manager
  | authorized
  | signed (who : T.AccountId)
  | personalIdentity (id : Nat)
  | personalAlias (revCa : T.RevCa)

/-- Who a transaction comes from, ahead of the extensions. -/
inductive Signer
  | none
  | manager
  | signed (who : T.AccountId)

/-- `other` is a call of another pallet. -/
inductive Call
  | underAlias (call : Call)
  | setAliasAccount (account : T.AccountId) (callValidAt : Nat)
  | unsetAliasAccount
  | forceRecognizePersonhood (people : List T.Member)
  | setPersonalIdAccount (account : T.AccountId) (callValidAt : Nat)
  | unsetPersonalIdAccount
  | createPeopleCollection
  | cleanUpStaleAliases (aliases : BoundedVec T.Ca maxBulkCleanup)
  | other

inductive AsPersonInfo
  | asPersonalAliasWithAccount (nonce : Nat)
  | asPersonalAliasWithProof (proof : T.memberService.Proof) (ring : Nat) (context : T.Context)
  | asPersonalIdentityWithProof (signature : T.Signature) (id : Nat)
  | asPersonalIdentityWithAccount (nonce : Nat)
  | asPersonalAliasWithAccountRevised (nonce : Nat) (proof : T.memberService.Proof) (ring : Nat)
      (context : T.Context)

/-- `implication` is the hash of what the transaction implies. -/
structure Transaction where
  source : TransactionSource
  signer : Signer T
  asPerson : Option (AsPersonInfo T)
  call : Call T
  implication : T.Message

/-- What the extension found, for `prepare`. -/
inductive Val
  | notUsing
  | usingProof
  | usingAccount (who : T.AccountId) (nonce : Nat)
  | usingAccountWithRevisionUpdate (who : T.AccountId) (nonce : Nat) (revCa : T.RevCa)

variable {T}

/-! ### Accounts -/

def incSufficients (s : Store T) (who : T.AccountId) : Store T :=
  { s with sufficients := Function.update s.sufficients who (s.sufficients who + 1) }

def decSufficients (s : Store T) (who : T.AccountId) : Store T :=
  { s with sufficients := Function.update s.sufficients who (s.sufficients who - 1) }

/-- The nonce is not used yet, and the account exists to keep it. -/
def validateNonceForAccount (env : Env T) (s : Store T) (who : T.AccountId) (nonce : Nat) :
    Except InvalidTransaction Unit := do
  ensure (env.accountExists who = true ∨ 0 < s.sufficients who) .payment
  ensure (s.nonces who ≤ nonce) .stale

def prepareNonceForAccount (s : Store T) (who : T.AccountId) (nonce : Nat) :
    Except InvalidTransaction (Store T) := do
  ensure (nonce ≤ s.nonces who) .future
  return { s with nonces := Function.update s.nonces who (s.nonces who + 1) }

/-! ### Accounts of aliases -/

/-- The alias of an account, if the ring has not changed since. -/
def aliasOfAccount (env : Env T) (s : Store T) (account : T.AccountId) : Except Error T.RevCa := do
  let revCa ← okOr (s.accountToAlias.get account) .invalidAccount
  ensure (env.accountContexts revCa.ca.context = true) .invalidContext
  let ringRevision ← okOr (T.memberService.ringRevision s.members revCa.ring) .invalidAccount
  ensure (revCa.revision = ringRevision) .badOrigin
  return revCa

/-- A setup call has begun to be valid, and is still. -/
def validNow (now callValidAt : Nat) : Prop :=
  callValidAt ≤ now ∧ now ≤ U32.saturatingAdd callValidAt accountSetupTimeTolerance

instance (now callValidAt : Nat) : Decidable (validNow now callValidAt) := inferInstanceAs (Decidable (_ ∧ _))

/-- Take the alias from the account that had it. -/
def dropAliasAccount (s : Store T) (account : T.AccountId) : Store T :=
  { decSufficients s account with accountToAlias := s.accountToAlias.remove account }

/-- Give the alias another account, unless it keeps the one that it has. -/
def moveAliasAccount (s : Store T) (oldAccount : Option T.AccountId) (account : T.AccountId) :
    Except Error (Store T) :=
  if oldAccount = some account then .ok s
  else do
    ensure (s.accountToAlias.contains account = false) .accountInUse
    match oldAccount with
    | some old => return incSufficients (dropAliasAccount s old) account
    | none => return incSufficients s account

def setAliasAccount (env : Env T) (s : Store T) (revCa : T.RevCa) (account : T.AccountId)
    (callValidAt : Nat) : Except Error (Store T × Pays) := do
  ensure (validNow env.now callValidAt) .timeOutOfRange
  ensure (env.accountContexts revCa.ca.context = true) .invalidContext
  ensure (s.accountToPersonalId.contains account = false) .accountInUse
  let oldAccount := s.aliasToAccount.get revCa.ca
  let oldRevCa := oldAccount.bind s.accountToAlias.get
  let needsRevision := oldRevCa.any fun old => old.revision ≠ revCa.revision ∨ old.ring ≠ revCa.ring
  ensure (oldAccount ≠ some account ∨ needsRevision = true) .aliasAccountAlreadySet
  let s' ← moveAliasAccount s oldAccount account
  let pays := if oldAccount.isNone = true ∨ needsRevision = true then Pays.no else Pays.yes
  return ({ s' with
    accountToAlias := s'.accountToAlias.insert account revCa
    aliasToAccount := s'.aliasToAccount.insert revCa.ca account }, pays)

/-- Take the alias and its account apart. -/
def unpair (s : Store T) (ca : T.Ca) (account : T.AccountId) : Store T :=
  { decSufficients s account with
    aliasToAccount := s.aliasToAccount.remove ca
    accountToAlias := s.accountToAlias.remove account }

def unsetAliasAccount (s : Store T) (ca : T.Ca) : Except Error (Store T) := do
  let account ← okOr (s.aliasToAccount.get ca) .invalidAccount
  return unpair s ca account

/-- The context of the alias may not have accounts any more, or its ring is gone. -/
def ensureAliasIsStale (env : Env T) (s : Store T) (revCa : T.RevCa) : Except Error Unit :=
  if env.accountContexts revCa.ca.context = false then .ok ()
  else
    match T.memberService.ringRevision s.members revCa.ring with
    | none => .ok ()
    | some _ => .error .aliasNotStale

/-- One turn of the cleanup; an alias without an account of its own is passed over. -/
def cleanUpStaleAlias (acc : Store T × Nat) (ca : T.Ca) : Store T × Nat :=
  match acc.1.aliasToAccount.get ca with
  | none => acc
  | some account =>
    match acc.1.accountToAlias.get account with
    | none => acc
    | some revCa => if revCa.ca ≠ ca then acc else (unpair acc.1 ca account, acc.2 + 1)

def cleanUpStaleAliases (s : Store T) (aliases : BoundedVec T.Ca maxBulkCleanup) : Except Error (Store T) := do
  let cleaned := aliases.toList.foldl cleanUpStaleAlias (s, 0)
  ensure (cleaned.2 > 0) .noStaleAliases
  return cleaned.1

def cleanUpAlias (s : Store T) (ca : T.Ca) : Except Error (Store T) := do
  let account ← okOr (s.aliasToAccount.get ca) .invalidAccount
  let revCa ← okOr (s.accountToAlias.get account) .invalidAccount
  ensure (revCa.ca = ca) .aliasMismatch
  return unpair s ca account

/-! ### Accounts of people -/

def setPersonalIdAccount (env : Env T) (s : Store T) (id : Nat) (account : T.AccountId)
    (callValidAt : Nat) : Except Error (Store T × Pays) := do
  ensure (validNow env.now callValidAt) .timeOutOfRange
  ensure (s.accountToPersonalId.contains account = false) .accountInUse
  ensure (s.accountToAlias.contains account = false) .accountInUse
  let record ← okOr (s.people.get id) .notPerson
  let (s', pays) := match record.account with
    | some old =>
      ({ decSufficients s old with accountToPersonalId := s.accountToPersonalId.remove old }, Pays.yes)
    | none => (s, Pays.no)
  let s' := incSufficients s' account
  return ({ s' with
    accountToPersonalId := s'.accountToPersonalId.insert account id
    people := s'.people.insert id { record with account := some account } }, pays)

def unsetPersonalIdAccount (s : Store T) (id : Nat) : Except Error (Store T) := do
  let record ← okOr (s.people.get id) .notPerson
  let account ← okOr record.account .invalidAccount
  let _ ← okOr (s.accountToPersonalId.get account) .invalidAccount
  return { decSufficients s account with
    accountToPersonalId := s.accountToPersonalId.remove account
    people := s.people.insert id { record with account := none } }

/-! ### People -/

def reserveNewId (s : Store T) : Nat × Store T :=
  (s.nextPersonalId, { s with
    nextPersonalId := U64.saturatingAdd s.nextPersonalId 1
    reservedPersonalId := s.reservedPersonalId.insert s.nextPersonalId () })

def cancelIdReservation (s : Store T) (id : Nat) : Except Error (Store T) := do
  ensure (s.reservedPersonalId.contains id = true) .personalIdNotReserved
  return { s with reservedPersonalId := s.reservedPersonalId.remove id }

def renewIdReservation (s : Store T) (id : Nat) : Except Error (Store T) := do
  ensure (¬(s.nextPersonalId ≤ id ∨ s.people.contains id = true ∨ s.reservedPersonalId.contains id = true))
    .personalIdReservationCannotRenew
  return { s with reservedPersonalId := s.reservedPersonalId.insert id () }

def recognizePersonhood (s : Store T) (who : Nat) (maybeKey : Option T.Member) :
    Except Error (Store T) :=
  match maybeKey with
  | some key => do
    ensure (s.keys.contains key = false) .keyAlreadyInUse
    ensure (s.reservedPersonalId.contains who = true) .personalIdNotReservedOrNotRecognized
    let members ← okOr (T.memberService.addMembers s.members [key]) .members
    return { s with
      members := members
      reservedPersonalId := s.reservedPersonalId.remove who
      keys := s.keys.insert key who
      people := s.people.insert who ⟨key, none⟩ }
  | none => do
    let record ← okOr (s.people.get who) .notPerson
    ensure (s.keys.get record.key = some who) .noKey
    let members ← okOr (T.memberService.addMembers s.members [record.key]) .members
    return { s with members := members }

def forceRecognize (s : Store T) (key : T.Member) : Except Error (Store T) :=
  let (id, s) := reserveNewId s
  recognizePersonhood s id (some key)

/-- Unbind the account of a person who is suspended. -/
def unbind (s : Store T) (id : Nat) (record : PersonRecord T) : Store T :=
  { s with
    accountToPersonalId := match record.account with
      | some account => s.accountToPersonalId.remove account
      | none => s.accountToPersonalId
    people := s.people.insert id { record with account := none } }

/-- The keys of the people, whose accounts are unbound one by one; it stops at the first id that is
not a person's. -/
def unbindAll (s : Store T) : List Nat → Store T × Except Error (List T.Member)
  | [] => (s, .ok [])
  | id :: rest =>
    match s.people.get id with
    | none => (s, .error .notPerson)
    | some record =>
      let (s', keys) := unbindAll (unbind s id record) rest
      (s', keys.map (record.key :: ·))

/-- What was written ahead of a failure stays. -/
def suspendPersonhood (s : Store T) (suspensions : List Nat) : Store T × Except Error Unit :=
  match unbindAll s suspensions with
  | (s, .error e) => (s, .error e)
  | (s, .ok keys) =>
    let (members, done) := T.memberService.removeMembers s.members keys
    ({ s with members := members }, if done then .ok () else .error .members)

def createPeopleCollection (s : Store T) : Except Error (Store T) := do
  let members ← okOr (T.memberService.createCollection s.members) .members
  return { s with members := members, peopleCollectionCreated := true }

/-! ### Dispatch -/

/-- A call under its origin. -/
def dispatch (env : Env T) (s : Store T) : Origin T → Call T → Except Error (Store T × Pays)
  | .signed account, .underAlias call => do
    let revCa ← aliasOfAccount env s account
    dispatch env s (.personalAlias revCa) call
  | .personalAlias revCa, .setAliasAccount account callValidAt => setAliasAccount env s revCa account callValidAt
  | .personalAlias revCa, .unsetAliasAccount => (unsetAliasAccount s revCa.ca).map (·, .yes)
  | .manager, .forceRecognizePersonhood people => (people.foldlM forceRecognize s).map (·, .yes)
  | .personalIdentity id, .setPersonalIdAccount account callValidAt =>
    setPersonalIdAccount env s id account callValidAt
  | .personalIdentity id, .unsetPersonalIdAccount => (unsetPersonalIdAccount s id).map (·, .yes)
  | .authorized, .createPeopleCollection => (createPeopleCollection s).map (·, .yes)
  | .authorized, .cleanUpStaleAliases aliases => (cleanUpStaleAliases s aliases).map (·, .yes)
  | _, .other => .ok (s, .yes)
  | _, _ => .error .badOrigin

/-- The origins that a call, and the call in it, are dispatched under. -/
def dispatched (env : Env T) (s : Store T) : Origin T → Call T → List (Origin T)
  | .signed account, .underAlias call =>
    match aliasOfAccount env s account with
    | .ok revCa => .signed account :: dispatched env s (.personalAlias revCa) call
    | .error _ => [.signed account]
  | origin, _ => [origin]

/-! ### The transaction extension -/

def authorizeCleanUpStaleAliases (env : Env T) (s : Store T) (source : TransactionSource)
    (aliases : BoundedVec T.Ca maxBulkCleanup) : Except InvalidTransaction Unit := do
  ensure (source = .local ∨ source = .inBlock) .badSigner
  ensure (aliases.toList ≠ []) (.custom .emptyAliases)
  aliases.toList.forM fun ca => do
    let account ← okOr (s.aliasToAccount.get ca) (.custom .invalidAccount)
    let revCa ← okOr (s.accountToAlias.get account) (.custom .invalidAccount)
    ensure (revCa.ca = ca) (.custom .aliasMismatch)
    (ensureAliasIsStale env s revCa).mapError fun _ => .custom .aliasNotStale

def authorizeCreatePeopleCollection (s : Store T) : Except InvalidTransaction Unit :=
  ensure (s.peopleCollectionCreated = false) .call

/-- The origin of a transaction that does not ask for another one. -/
def authorizeCall (env : Env T) (s : Store T) (tx : Transaction T) : Except InvalidTransaction (Origin T) :=
  match tx.signer, tx.call with
  | .none, .createPeopleCollection => (authorizeCreatePeopleCollection s).map fun _ => .authorized
  | .none, .cleanUpStaleAliases aliases =>
    (authorizeCleanUpStaleAliases env s tx.source aliases).map fun _ => .authorized
  | .none, _ => .ok .none
  | .manager, _ => .ok .manager
  | .signed who, _ => .ok (.signed who)

def ensureSigned (signer : Signer T) : Except InvalidTransaction T.AccountId :=
  match signer with
  | .signed who => .ok who
  | _ => .error .badSigner

def ensureNone (signer : Signer T) : Except InvalidTransaction Unit :=
  match signer with
  | .none => .ok ()
  | _ => .error .badSigner

/-- A setup call has begun to be valid, and is still, ahead of its dispatch. -/
def ensureValidNow (now callValidAt : Nat) : Except InvalidTransaction Unit := do
  ensure (¬now < callValidAt) .future
  ensure (¬now > U32.saturatingAdd callValidAt accountSetupTimeTolerance) .stale

def verifyMembership (s : Store T) (proof : T.memberService.Proof) (ring : Nat) (context : T.Context)
    (message : T.Message) : Except InvalidTransaction T.RevCa := do
  let found ← okOr (T.memberService.verifyMembership s.members proof ring context message) .badProof
  return ⟨found.1, ring, context, found.2⟩

/-- The origin that the extension gives a transaction. -/
def validate (env : Env T) (s : Store T) (tx : Transaction T) : Except InvalidTransaction (Origin T × Val T) :=
  match tx.asPerson with
  | none => (authorizeCall env s tx).map (·, .notUsing)
  | some (.asPersonalAliasWithAccount nonce) => do
    let who ← ensureSigned tx.signer
    let revCa ← (aliasOfAccount env s who).mapError fun _ => .badSigner
    validateNonceForAccount env s who nonce
    return (.personalAlias revCa, .usingAccount who nonce)
  | some (.asPersonalAliasWithAccountRevised nonce proof ring context) => do
    let who ← ensureSigned tx.signer
    let old ← okOr (s.accountToAlias.get who) .badSigner
    let revCa ← verifyMembership s proof ring context (T.reviseMessage tx.implication who nonce)
    ensure (revCa.ca.ringAlias = old.ca.ringAlias) .badSigner
    ensure (context = old.ca.context) .badSigner
    ensure (env.accountContexts context = true) .badSigner
    validateNonceForAccount env s who nonce
    return (.personalAlias revCa, .usingAccountWithRevisionUpdate who nonce revCa)
  | some (.asPersonalIdentityWithAccount nonce) => do
    let who ← ensureSigned tx.signer
    let id ← okOr (s.accountToPersonalId.get who) .badSigner
    validateNonceForAccount env s who nonce
    return (.personalIdentity id, .usingAccount who nonce)
  | some (.asPersonalAliasWithProof proof ring context) => do
    ensureNone tx.signer
    match tx.call with
    | .setAliasAccount account callValidAt => do
      ensure (env.accountContexts context = true) .call
      ensureValidNow env.now callValidAt
      let revCa ← verifyMembership s proof ring context tx.implication
      -- The same pairing again would be a replay.
      ensure (s.accountToAlias.get account ≠ some revCa) .stale
      return (.personalAlias revCa, .usingProof)
    | _ => .error .call
  | some (.asPersonalIdentityWithProof signature id) => do
    ensureNone tx.signer
    match tx.call with
    | .setPersonalIdAccount account callValidAt => do
      ensureValidNow env.now callValidAt
      let record ← okOr (s.people.get id) .badSigner
      ensure (T.verifySignature signature tx.implication record.key = true) .badProof
      ensure (record.account ≠ some account) .stale
      return (.personalIdentity id, .usingProof)
    | _ => .error .call

def prepare (s : Store T) : Val T → Except InvalidTransaction (Store T)
  | .usingAccount who nonce => prepareNonceForAccount s who nonce
  | .usingAccountWithRevisionUpdate who nonce revCa =>
    prepareNonceForAccount { s with accountToAlias := s.accountToAlias.insert who revCa } who nonce
  | .notUsing | .usingProof => .ok s

/-- What the extension wrote stays where the call fails. -/
def submit (env : Env T) (s : Store T) (tx : Transaction T) : Except InvalidTransaction (Store T) := do
  let (origin, val) ← validate env s tx
  let s ← prepare s val
  match dispatch env s origin tx.call with
  | .ok (s, _) => return s
  | .error _ => return s

/-- The origins that a transaction is dispatched under. -/
def Transaction.origins (env : Env T) (s : Store T) (tx : Transaction T) : List (Origin T) :=
  match validate env s tx with
  | .error _ => []
  | .ok (origin, val) =>
    match prepare s val with
    | .error _ => []
    | .ok s => dispatched env s origin tx.call

/-! ### A chain with the pallet -/

variable (T)

structure Chain where
  store : Store T
  env : Env T

/-- `dispatch` is a call that another pallet dispatches under an origin, and `elsewhere` what the rest
of the chain does to the members and to what the pallet reads. -/
inductive Action
  | submit (tx : Transaction T)
  | dispatch (origin : Origin T) (call : Call T)
  | reserveNewId
  | cancelIdReservation (id : Nat)
  | renewIdReservation (id : Nat)
  | recognizePersonhood (who : Nat) (maybeKey : Option T.Member)
  | suspendPersonhood (suspensions : List Nat)
  | cleanUpAlias (ca : T.Ca)
  | elsewhere (members : T.memberService.World) (env : Env T)

inductive Refusal
  | invalid (e : InvalidTransaction)
  | failed (e : Error)
  deriving DecidableEq

variable {T}

/-- What an action makes of the storage. -/
def apply (c : Chain T) : Action T → Except Refusal (Store T)
  | .submit tx => (submit c.env c.store tx).mapError .invalid
  | .dispatch origin call => ((dispatch c.env c.store origin call).map Prod.fst).mapError .failed
  | .reserveNewId => .ok (reserveNewId c.store).2
  | .cancelIdReservation id => (cancelIdReservation c.store id).mapError .failed
  | .renewIdReservation id => (renewIdReservation c.store id).mapError .failed
  | .recognizePersonhood who maybeKey => (recognizePersonhood c.store who maybeKey).mapError .failed
  | .suspendPersonhood suspensions => .ok (suspendPersonhood c.store suspensions).1
  | .cleanUpAlias ca => (cleanUpAlias c.store ca).mapError .failed
  | .elsewhere members _ => .ok { c.store with members := members }

def exec (c : Chain T) (a : Action T) : Except Refusal (Chain T) := do
  let s ← apply c a
  match a with
  | .elsewhere _ env => return ⟨s, env⟩
  | _ => return { c with store := s }

/-- The reserved id that an action uses up. -/
def Action.taken : Action T → Option Nat
  | .cancelIdReservation id | .recognizePersonhood id (some _) => some id
  | _ => none

/-- The chain before any person. -/
def genesis (members : T.memberService.World) (env : Env T) : Chain T :=
  ⟨⟨∅, ∅, ∅, ∅, ∅, 0, false, ∅, members, fun _ => 0, fun _ => 0⟩, env⟩

end Individuality.People
