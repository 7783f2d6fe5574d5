import Individuality.Resources.Types
import Individuality.Support.Layers
import Individuality.Support.Prefixes
import Individuality.Support.Runs

/-! The resources pallet: its storage, its calls and its transaction extension.

`granted` is what the pallet has granted of the statement store less what it has taken
back, account by account; the shares themselves are kept outside. The registration of
a person writes before it can fail (`Writing`), and is run in a storage layer; the
other calls check before they write. `exec` runs a chain with the pallet: the clock
moves on, the members pallet changes in any way, other pallets register lite
consumers, and transactions are applied. -/
namespace Individuality.Resources
open Support
open Members (ContextualAlias)

inductive Error
  | invalidUsername
  | usernameTaken
  | alreadyRegistered
  | invalidProofOfOwnership
  | notRegistered
  | notFullPerson
  | touchNotReady
  | noReservation
  | notReservationHolder
  | usernameReservationTaken
  | reservationFresh
  | noLinkedIdentity
  | alreadyLinked
  | personAuthNotExpired
  | alreadyDemoted
  | queueFull
  | notInQueue
  | alreadyHasReservation
  | invalidFriendRequestSequence
  | invalidFriendRequestPeriod
  | friendRequestRegistrationNotExpired
  | friendRequestRegistrationAlreadyExists
  | stmtStoreReplacementTooEarly
  | longTermStorageCleanupLimitExceeded
  | badOrigin
  deriving DecidableEq, Repr

inductive InvalidTransaction
  | badSigner
  | call
  | badProof
  | invalidFriendRequestPeriod
  | invalidFriendRequestSequence
  | invalidExpiredUsernameReservationRemoval
  | invalidPersonDemotion
  | invalidExpiredFriendRequestCleanup
  | friendRequestRegistrationConflict
  | invalidStmtStorePeriod
  | invalidStmtStoreSequence
  | stmtStoreReplacementTooEarly
  | invalidExpiredStmtStoreCleanup
  | invalidLongTermStoragePeriod
  | longTermStorageAliasAlreadySpent
  | invalidLongTermStorageCounter
  | longTermStoragePeriodNotExpired
  | nothingToClearForLongTermStoragePeriod
  deriving DecidableEq, Repr

inductive TransactionSource
  | inBlock
  | local
  | external
  deriving DecidableEq, Repr

variable (T : Config)

structure Store where
  consumers : StorageMap T.AccountId (ConsumerInfo T)
  statementStoreAllowances : StorageMap (Nat × T.memberService.Alias) (StmtStoreAllowanceEntry T)
  stmtStoreAllowanceByAccount : StorageMap (T.AccountId × Nat × Nat × T.memberService.Alias) Unit
  friendRequestRegistrationByAlias : StorageMap T.memberService.Alias (FriendRequestRegistration T)
  friendRequestAliasByAccount : StorageMap T.AccountId T.memberService.Alias
  spentLongTermStorageAliases : StorageMap (Nat × T.memberService.Alias) Unit
  usernameOwnerOf : StorageMap Username T.AccountId
  accountOfAlias : StorageMap T.memberService.Alias T.AccountId
  usernameReservationDuration : Nat
  usernameReservationQueue :
    StorageMap Username (BoundedVec (ReservationQueueEntry T) T.maxReservationQueueLength)
  reservationOf : StorageMap T.AccountId Username
  granted : StorageMap T.AccountId (Int × Int)

instance : Inhabited (Store T) := ⟨⟨∅, ∅, ∅, ∅, ∅, ∅, ∅, ∅, 0, ∅, ∅, ∅⟩⟩

/-- Who a call comes from. The last four are the pallet's own: a checked call that anyone may
submit, and the aliases that the extension has verified. -/
inductive Origin
  | none
  | signed (who : T.AccountId)
  | person (personAlias : T.memberService.Alias)
  | litePerson (account : T.AccountId)
  | manager
  | other
  | authorized
  | friendRequestAlias (requester : T.memberService.Alias)
  | stmtStoreAlias (claimant : T.memberService.Alias)
  | longTermStorageClaim (claimant : T.memberService.Alias) (collection : MembershipCollection)

/-- What other extensions have made of a transaction's origin. -/
inductive Signer
  | none
  | signed (who : T.AccountId)
  | person (personAlias : T.memberService.Alias)
  | litePerson (account : T.AccountId)
  | manager
  | other

inductive Call
  | registerLitePerson (identifierKey : Vector UInt8 65) (username : Username) (reserved : Option Username)
  | registerPerson (linked : T.AccountId) (proof : T.Signature) (choice : PersonalUsernameChoice)
  | touchPersonAuthorization
  | removeExpiredUsernameReservation (username : Username) (account : T.AccountId)
  | updateIdentifierKey (identifierKey : Vector UInt8 65)
  | setUsernameReservationDuration (duration : Nat)
  | demoteAuthExpired (account : T.AccountId)
  | setFriendRequestStatementAccountForSequence (reference : FriendRequestReference) (account : T.AccountId)
  | clearExpiredFriendRequestSequence (account : T.AccountId) (seq : Nat)
  | setStatementStoreAccount (period seq : Nat) (target : T.AccountId)
  | clearExpiredStmtStoreAllowances (period : Nat) (firstEntry : T.memberService.Alias)
  | claimLongTermStorage (period counter : Nat) (account : T.AccountId)
  | clearExpiredLongTermStorageAliases (period limit : Nat)
  | other

/-- A proof for one of the anonymous claims, and what it is to be verified against. -/
inductive AsResourcesInfo
  | registerFriendRequestWithProof (proof : T.memberService.Proof) (ringIndex : Nat)
  | registerFriendRequestForCollection (proof : T.memberService.Proof) (ringIndex : Nat)
      (collection : MembershipCollection)
  | registerStatementStoreAllowance (proof : T.memberService.Proof) (ringIndex : Nat)
      (collection : MembershipCollection)
  | claimLongTermStorage (proof : T.memberService.Proof) (ringIndex revision : Nat)
      (collection : MembershipCollection)

/-- `message` is the hash of what a proof is to cover. -/
structure Transaction where
  source : TransactionSource
  signer : Signer T
  asResources : Option (AsResourcesInfo T)
  call : Call T
  message : T.memberService.Message

variable {T}

/-! ### Shares of the statement store -/

/-- The net share that the pallet has granted to an account. -/
def Store.grantedTo (s : Store T) (who : T.AccountId) : Int × Int := (s.granted.get who).getD 0

def increaseAllowanceBy (s : Store T) (who : T.AccountId) (by_ : StatementAllowance) : Store T :=
  { s with granted := s.granted.insert who (s.grantedTo who + by_.net) }

def decreaseAllowanceBy (s : Store T) (who : T.AccountId) (by_ : StatementAllowance) : Store T :=
  { s with granted := s.granted.insert who (s.grantedTo who - by_.net) }

/-- What a person has more than a lite person. -/
def remainingAllowance (T : Config) : StatementAllowance :=
  T.personStatementLimit.saturatingSub T.litePersonStatementLimit

/-! ### Reservation queues -/

/-- Put an account at the end of the queue for a username. -/
def pushUsernameReservation (now : Nat) (s : Store T) (account : T.AccountId) (username : Username) :
    Except Error (Store T) := do
  let queue := (s.usernameReservationQueue.get username).getD BoundedVec.nil
  let queue ← okOr (queue.tryPush { account := account, joinedAt := now }) .queueFull
  return { s with
    usernameReservationQueue := s.usernameReservationQueue.insert username queue
    reservationOf := s.reservationOf.insert account username }

/-- Take the entry at a place out of the queue for a username, and the queue away with the last. -/
def removeUsernameReservation (s : Store T) (username : Username) (pos : Nat) : Except Error (Store T) := do
  let queue ← okOr (s.usernameReservationQueue.get username) .notInQueue
  let entry ← okOr (queue.toList[pos]?) .notInQueue
  let rest := queue.remove pos
  return { s with
    reservationOf := s.reservationOf.remove entry.account
    usernameReservationQueue :=
      if rest.toList.isEmpty = true then s.usernameReservationQueue.remove username
      else s.usernameReservationQueue.insert username rest }

/-- The place of an account in the queue for a username. -/
def positionOf (queue : BoundedVec (ReservationQueueEntry T) T.maxReservationQueueLength)
    (account : T.AccountId) : Option Nat :=
  queue.toList.findIdx? fun e => e.account = account

/-! ### Consumers -/

def registerLiteConsumerInner (now : Nat) (s : Store T) (account : T.AccountId)
    (identifierKey : Vector UInt8 65) (username : Username) (reserved : Option Username) :
    Except Error (Store T) := do
  ensure (s.consumers.contains account = false) .alreadyRegistered
  ensure (s.usernameOwnerOf.contains username = false) .usernameTaken
  ensure (validateUsername T username false = true) .invalidUsername
  let s ← match reserved with
    | some reservedUsername => do
      ensure (reservedUsername ≠ username) .invalidUsername
      ensure (s.usernameOwnerOf.contains reservedUsername = false) .usernameReservationTaken
      ensure (s.reservationOf.contains account = false) .alreadyHasReservation
      ensure (validateUsername T reservedUsername true = true) .invalidUsername
      pushUsernameReservation now s account reservedUsername
    | none => .ok s
  let s := { s with
    usernameOwnerOf := s.usernameOwnerOf.insert username account
    consumers := s.consumers.insert account
      { identifierKey := identifierKey, fullUsername := none, liteUsername := username, credibility := .lite } }
  return increaseAllowanceBy s account T.litePersonStatementLimit

def registerLitePerson (origin : Origin T) (now : Nat) (s : Store T) (identifierKey : Vector UInt8 65)
    (username : Username) (reserved : Option Username) : Except Error (Store T) :=
  match origin with
  | .litePerson account => registerLiteConsumerInner now s account identifierKey username reserved
  | _ => .error .badOrigin

/-- Upgrade the linked lite consumer to a person. -/
def registerPersonInner (now : Nat) (personAlias : T.memberService.Alias) (linked : T.AccountId)
    (proof : T.Signature) (username : Username) : Writing (Store T) Error Unit := do
  Writing.lift (ensure (T.verify proof personAlias linked = true) .invalidProofOfOwnership)
  let s ← Writing.read
  let info ← Writing.lift (okOr (s.consumers.get linked) .noLinkedIdentity)
  Writing.lift (ensure (info.fullUsername = none) .alreadyLinked)
  Writing.update fun s =>
    increaseAllowanceBy { s with
      usernameOwnerOf := s.usernameOwnerOf.insert username linked
      accountOfAlias := s.accountOfAlias.insert personAlias linked
      consumers := s.consumers.insert linked { info with
        fullUsername := some username, credibility := .person personAlias now false } }
      linked (remainingAllowance T)

/-- Leave the queue that the account is in. -/
def leaveQueue (linked : T.AccountId) : Writing (Store T) Error Unit := do
  let s ← Writing.read
  match s.reservationOf.get linked with
  | some reservation =>
    let queue ← Writing.lift (okOr (s.usernameReservationQueue.get reservation) .notInQueue)
    let pos ← Writing.lift (okOr (positionOf queue linked) .notInQueue)
    let s' ← Writing.lift (removeUsernameReservation s reservation pos)
    Writing.update fun _ => s'
  | none => pure ()

def registerPersonStandalone (origin : Origin T) (now : Nat) (linked : T.AccountId) (proof : T.Signature)
    (username : Username) : Writing (Store T) Error Unit :=
  match origin with
  | .person personAlias => do
    let s ← Writing.read
    Writing.lift (ensure (s.accountOfAlias.contains personAlias = false) .alreadyRegistered)
    Writing.lift (ensure (s.usernameOwnerOf.contains username = false) .usernameTaken)
    Writing.lift (ensure (s.usernameReservationQueue.contains username = false) .usernameTaken)
    leaveQueue linked
    Writing.lift (ensure (validateUsername T username true = true) .invalidUsername)
    registerPersonInner now personAlias linked proof username
  | _ => Writing.lift (.error .badOrigin)

def registerPersonReservation (origin : Origin T) (now : Nat) (linked : T.AccountId) (proof : T.Signature)
    (reservedUsername : Username) : Writing (Store T) Error Unit :=
  match origin with
  | .person personAlias => do
    let s ← Writing.read
    Writing.lift (ensure (s.accountOfAlias.contains personAlias = false) .alreadyRegistered)
    let queue ← Writing.lift (okOr (s.usernameReservationQueue.get reservedUsername) .noReservation)
    let front ← Writing.lift (okOr queue.toList.head? .noReservation)
    Writing.lift (ensure (front.account = linked) .notReservationHolder)
    Writing.update fun s => { s with
      reservationOf := s.reservationOf.removeAll (queue.toList.map ReservationQueueEntry.account)
      usernameReservationQueue := s.usernameReservationQueue.remove reservedUsername }
    registerPersonInner now personAlias linked proof reservedUsername
  | _ => Writing.lift (.error .badOrigin)

def registerPerson (origin : Origin T) (now : Nat) (linked : T.AccountId) (proof : T.Signature) :
    PersonalUsernameChoice → Writing (Store T) Error Unit
  | .standalone username => registerPersonStandalone origin now linked proof username
  | .reservation reservation => registerPersonReservation origin now linked proof reservation

def touchPersonAuthorization (origin : Origin T) (now : Nat) (s : Store T) : Except Error (Store T) :=
  match origin with
  | .person personAlias => do
    let account ← okOr (s.accountOfAlias.get personAlias) .notRegistered
    let info ← okOr (s.consumers.get account) .notRegistered
    match info.credibility with
    | .person _ lastUpdate wasDemoted =>
      ensure (U64.saturatingAdd lastUpdate T.minPersonAuthUpdateInterval < now) .touchNotReady
      let s := { s with
        consumers := s.consumers.insert account { info with credibility := .person personAlias now false } }
      return if wasDemoted = true then increaseAllowanceBy s account (remainingAllowance T) else s
    | .lite => .error .notFullPerson
  | _ => .error .badOrigin

def removeExpiredUsernameReservation (origin : Origin T) (s : Store T) (username : Username)
    (account : T.AccountId) : Except Error (Store T) :=
  match origin with
  | .authorized => do
    let queue ← okOr (s.usernameReservationQueue.get username) .noReservation
    let pos ← okOr (positionOf queue account) .notInQueue
    removeUsernameReservation s username pos
  | _ => .error .badOrigin

def updateIdentifierKey (origin : Origin T) (s : Store T) (identifierKey : Vector UInt8 65) :
    Except Error (Store T) :=
  match origin with
  | .signed who => do
    let info ← okOr (s.consumers.get who) .notRegistered
    return { s with consumers := s.consumers.insert who { info with identifierKey := identifierKey } }
  | _ => .error .badOrigin

def setUsernameReservationDuration (origin : Origin T) (s : Store T) (duration : Nat) :
    Except Error (Store T) :=
  match origin with
  | .manager => .ok { s with usernameReservationDuration := duration }
  | _ => .error .badOrigin

def validateDemotion (now : Nat) (s : Store T) (account : T.AccountId) : Except Error (ConsumerInfo T) := do
  let info ← okOr (s.consumers.get account) .notRegistered
  match info.credibility with
  | .person _ lastUpdate demoted =>
    ensure (U64.saturatingAdd lastUpdate T.personAuthDuration < now) .personAuthNotExpired
    ensure (demoted = false) .alreadyDemoted
    return info
  | .lite => .error .notFullPerson

def demoteAuthExpired (origin : Origin T) (now : Nat) (s : Store T) (account : T.AccountId) :
    Except Error (Store T) :=
  match origin with
  | .authorized => do
    let info ← validateDemotion now s account
    match info.credibility with
    | .person personAlias lastUpdate _ =>
      let s := decreaseAllowanceBy s account (remainingAllowance T)
      return { s with consumers := s.consumers.insert account { info with
        credibility := .person personAlias lastUpdate true } }
    | .lite => return s
  | _ => .error .badOrigin

/-! ### Friend requests -/

def validateFriendRequestSeqWithLimit (seq limit : Nat) : Except Error Unit :=
  ensure (seq ≤ limit) .invalidFriendRequestSequence

def validateFriendRequestSeq (T : Config) (seq : Nat) : Except Error Unit :=
  validateFriendRequestSeqWithLimit seq T.friendRequestSlotsPerPeriod

def validateLiteFriendRequestSeq (T : Config) (seq : Nat) : Except Error Unit :=
  validateFriendRequestSeqWithLimit seq T.liteFriendRequestSlotsPerPeriod

def validateFriendRequestRegistration (s : Store T) (requester : T.memberService.Alias)
    (account : T.AccountId) : Except Error Unit := do
  ensure (s.friendRequestRegistrationByAlias.contains requester = false) .friendRequestRegistrationAlreadyExists
  ensure (s.friendRequestAliasByAccount.contains account = false) .friendRequestRegistrationAlreadyExists

def setFriendRequestStatementAccountForSequence (origin : Origin T) (now : Nat) (s : Store T)
    (reference : FriendRequestReference) (account : T.AccountId) : Except Error (Store T) :=
  match origin with
  | .friendRequestAlias requester => do
    ensure (isAcceptedFriendRequestPeriod T now reference.period = true) .invalidFriendRequestPeriod
    validateFriendRequestSeq T reference.seq
    validateFriendRequestRegistration s requester account
    let s := increaseAllowanceBy s account T.friendRequestAllowance
    return { s with
      friendRequestRegistrationByAlias := s.friendRequestRegistrationByAlias.insert requester
        { accountId := account, reference := reference }
      friendRequestAliasByAccount := s.friendRequestAliasByAccount.insert account requester }
  | _ => .error .badOrigin

def friendRequestAliasForAccount (s : Store T) (account : T.AccountId) :
    Except Error T.memberService.Alias :=
  okOr (s.friendRequestAliasByAccount.get account) .invalidFriendRequestSequence

def clearExpiredFriendRequestSequence (origin : Origin T) (s : Store T) (account : T.AccountId) (_seq : Nat) :
    Except Error (Store T) :=
  match origin with
  | .authorized => do
    let requester ← friendRequestAliasForAccount s account
    let s := { s with
      friendRequestRegistrationByAlias := s.friendRequestRegistrationByAlias.remove requester
      friendRequestAliasByAccount := s.friendRequestAliasByAccount.remove account }
    return decreaseAllowanceBy s account T.friendRequestAllowance
  | _ => .error .badOrigin

def validateClearFriendRequestSequence (now : Nat) (s : Store T) (account : T.AccountId) (seq : Nat) :
    Except Error T.memberService.Alias := do
  let requester ← friendRequestAliasForAccount s account
  let registration ← okOr (s.friendRequestRegistrationByAlias.get requester) .invalidFriendRequestSequence
  ensure (registration.accountId = account) .invalidFriendRequestSequence
  ensure (registration.reference.seq = seq) .invalidFriendRequestSequence
  ensure (friendRequestExpirationTime T registration.reference.period < now) .friendRequestRegistrationNotExpired
  return requester

/-! ### Slots of the statement store -/

/-- Take back what an entry granted, and its reverse entry away. -/
def revokeEntry (s : Store T) (period : Nat) (claimant : T.memberService.Alias)
    (entry : StmtStoreAllowanceEntry T) : Store T :=
  let s := decreaseAllowanceBy s entry.accountId T.accountsApiAllowance
  { s with stmtStoreAllowanceByAccount :=
      s.stmtStoreAllowanceByAccount.remove (entry.accountId, period, entry.seq, claimant) }

def setStatementStoreAccount (origin : Origin T) (now : Nat) (s : Store T) (period seq : Nat)
    (target : T.AccountId) : Except Error (Store T) :=
  match origin with
  | .stmtStoreAlias claimant => do
    let s ← match s.statementStoreAllowances.get (period, claimant) with
      | some existing => do
        ensure (U64.saturatingAdd existing.since T.stmtStoreReplacementCooldown < now)
          .stmtStoreReplacementTooEarly
        pure (revokeEntry s period claimant existing)
      | none => .ok s
    let s := increaseAllowanceBy s target T.accountsApiAllowance
    return { s with
      statementStoreAllowances := s.statementStoreAllowances.insert (period, claimant)
        { accountId := target, seq := seq, since := now }
      stmtStoreAllowanceByAccount := s.stmtStoreAllowanceByAccount.insert (target, period, seq, claimant) () }
  | _ => .error .badOrigin

/-- Drain one entry of a period. -/
def drainEntry (s : Store T) (k : Nat × T.memberService.Alias) : Store T :=
  match s.statementStoreAllowances.get k with
  | some entry =>
    revokeEntry { s with statementStoreAllowances := s.statementStoreAllowances.remove k } k.1 k.2 entry
  | none => s

def clearExpiredStmtStoreAllowances (origin : Origin T) (s : Store T) (period : Nat)
    (_firstEntry : T.memberService.Alias) : Except Error (Store T) :=
  match origin with
  | .authorized =>
    let entries := (s.statementStoreAllowances.prefixKeys T.periodKey period).take T.stmtStoreCleanupLimit
    .ok (entries.foldl drainEntry s)
  | _ => .error .badOrigin

/-! ### Long-term storage -/

/-- The alias is spent, whether or not the storage can be allocated. -/
def claimLongTermStorage (origin : Origin T) (s : Store T) (period _counter : Nat) (_account : T.AccountId) :
    Except Error (Store T) :=
  match origin with
  | .longTermStorageClaim claimant _ =>
    .ok { s with spentLongTermStorageAliases := s.spentLongTermStorageAliases.insert (period, claimant) () }
  | _ => .error .badOrigin

def clearExpiredLongTermStorageAliases (origin : Origin T) (s : Store T) (period limit : Nat) :
    Except Error (Store T) :=
  match origin with
  | .authorized => do
    ensure (limit ≤ T.longTermStorageCleanupLimit) .longTermStorageCleanupLimitExceeded
    let cleared := s.spentLongTermStorageAliases.clearPrefix T.periodKey period limit
    return { s with spentLongTermStorageAliases := cleared.1 }
  | _ => .error .badOrigin

/-! ### Calls that anyone may submit -/

def validateReservationExpiry (now : Nat) (s : Store T) (username : Username) (account : T.AccountId) :
    Except Error Nat := do
  let queue ← okOr (s.usernameReservationQueue.get username) .noReservation
  let pos ← okOr (positionOf queue account) .notInQueue
  let entry ← okOr (queue.toList[pos]?) .notInQueue
  ensure (U64.saturatingAdd entry.joinedAt s.usernameReservationDuration < now) .reservationFresh
  return pos

def ensureLocalSource (source : TransactionSource) : Except InvalidTransaction Unit :=
  ensure (source = .local ∨ source = .inBlock) .badSigner

def authorizeClearExpiredStmtStoreAllowances (now : Nat) (s : Store T) (source : TransactionSource)
    (period : Nat) (firstEntry : T.memberService.Alias) : Except InvalidTransaction Unit := do
  ensureLocalSource source
  ensure (isStmtStorePeriodClearable T now period = true) .invalidExpiredStmtStoreCleanup
  let first ← okOr (s.statementStoreAllowances.keysInOrder T.periodKey).head? .invalidExpiredStmtStoreCleanup
  ensure (first.1 = period) .invalidExpiredStmtStoreCleanup
  ensure (first.2 = firstEntry) .invalidExpiredStmtStoreCleanup

def authorizeClearLongTermStorageAliases (now : Nat) (s : Store T) (period : Nat) :
    Except InvalidTransaction Unit := do
  ensure (isLongTermStoragePeriodClearable T now period = true) .longTermStoragePeriodNotExpired
  ensure ((s.spentLongTermStorageAliases.prefixKeys T.periodKey period).isEmpty = false)
    .nothingToClearForLongTermStoragePeriod

/-- The check of a call that anyone may submit; other calls have none. -/
def authorize (now : Nat) (s : Store T) (source : TransactionSource) :
    Call T → Option (Except InvalidTransaction Unit)
  | .removeExpiredUsernameReservation username account =>
    some ((validateReservationExpiry now s username account).mapError
      (fun _ => .invalidExpiredUsernameReservationRemoval) |>.map fun _ => ())
  | .demoteAuthExpired account =>
    some ((validateDemotion now s account).mapError (fun _ => .invalidPersonDemotion) |>.map fun _ => ())
  | .clearExpiredFriendRequestSequence account seq =>
    some (do
      ensureLocalSource source
      let _ ← (validateClearFriendRequestSequence now s account seq).mapError
        fun _ => .invalidExpiredFriendRequestCleanup)
  | .clearExpiredStmtStoreAllowances period firstEntry =>
    some (authorizeClearExpiredStmtStoreAllowances now s source period firstEntry)
  | .clearExpiredLongTermStorageAliases period _ => some (authorizeClearLongTermStorageAliases now s period)
  | _ => none

/-- The origin of a transaction ahead of the extension. -/
def authorizeCall (now : Nat) (s : Store T) (tx : Transaction T) : Except InvalidTransaction (Origin T) :=
  match tx.signer with
  | .none =>
    match authorize now s tx.source tx.call with
    | some check => check.map fun _ => .authorized
    | none => .ok .none
  | .signed who => .ok (.signed who)
  | .person personAlias => .ok (.person personAlias)
  | .litePerson account => .ok (.litePerson account)
  | .manager => .ok .manager
  | .other => .ok .other

/-! ### The extension -/

def validateFriendRequest (w : T.memberService.World) (now : Nat) (s : Store T) (origin : Origin T)
    (call : Call T) (message : T.memberService.Message) (proof : T.memberService.Proof) (ringIndex : Nat)
    (collection : MembershipCollection) : Except InvalidTransaction (Origin T) :=
  match origin, call with
  | .none, .setFriendRequestStatementAccountForSequence reference account => do
    ensure (isAcceptedFriendRequestPeriod T now reference.period = true) .invalidFriendRequestPeriod
    (match collection with
      | .people => validateFriendRequestSeq T reference.seq
      | .litePeople => validateLiteFriendRequestSeq T reference.seq).mapError fun _ =>
        .invalidFriendRequestSequence
    let found ← okOr (T.memberService.verifyMembership w collection.identifier proof ringIndex
      (friendRequestContext reference) message) .badProof
    (validateFriendRequestRegistration s found.ca.ringAlias account).mapError fun _ =>
      .friendRequestRegistrationConflict
    return .friendRequestAlias found.ca.ringAlias
  | .none, _ => .error .call
  | _, _ => .error .badSigner

def validateStmtStoreSlot (w : T.memberService.World) (now : Nat) (s : Store T) (origin : Origin T)
    (call : Call T) (message : T.memberService.Message) (proof : T.memberService.Proof) (ringIndex : Nat)
    (collection : MembershipCollection) : Except InvalidTransaction (Origin T) :=
  match origin, call with
  | .none, .setStatementStoreAccount period seq _ => do
    ensure (period = stmtStorePeriodFromTimestamp now) .invalidStmtStorePeriod
    ensure (seq < stmtStoreSlots T collection) .invalidStmtStoreSequence
    let found ← okOr (T.memberService.verifyMembership w collection.identifier proof ringIndex
      (stmtStoreSlotContext period seq) message) .badProof
    match s.statementStoreAllowances.get (period, found.ca.ringAlias) with
    | some existing =>
      ensure (U64.saturatingAdd existing.since T.stmtStoreReplacementCooldown < now)
        .stmtStoreReplacementTooEarly
      return .stmtStoreAlias found.ca.ringAlias
    | none => return .stmtStoreAlias found.ca.ringAlias
  | .none, _ => .error .call
  | _, _ => .error .badSigner

def validateLongTermStorageClaim (w : T.memberService.World) (now : Nat) (s : Store T) (origin : Origin T)
    (call : Call T) (message : T.memberService.Message) (proof : T.memberService.Proof)
    (ringIndex revision : Nat) (collection : MembershipCollection) : Except InvalidTransaction (Origin T) :=
  match origin, call with
  | .none, .claimLongTermStorage period counter _ => do
    ensure (isAcceptedLongTermStoragePeriod T now period = true) .invalidLongTermStoragePeriod
    ensure (counter < T.longTermStorageClaimsPerPeriod) .invalidLongTermStorageCounter
    let found ← okOr (T.memberService.verifyMembershipAtRev w collection.identifier proof ringIndex revision
      (longTermStorageContext period counter) message) .badProof
    ensure (s.spentLongTermStorageAliases.contains (period, found.ringAlias) = false)
      .longTermStorageAliasAlreadySpent
    return .longTermStorageClaim found.ringAlias collection
  | .none, _ => .error .call
  | _, _ => .error .badSigner

def validateInfo (w : T.memberService.World) (now : Nat) (s : Store T) (origin : Origin T) (call : Call T)
    (message : T.memberService.Message) : AsResourcesInfo T → Except InvalidTransaction (Origin T)
  | .registerFriendRequestWithProof proof ringIndex =>
    validateFriendRequest w now s origin call message proof ringIndex .people
  | .registerFriendRequestForCollection proof ringIndex collection =>
    validateFriendRequest w now s origin call message proof ringIndex collection
  | .registerStatementStoreAllowance proof ringIndex collection =>
    validateStmtStoreSlot w now s origin call message proof ringIndex collection
  | .claimLongTermStorage proof ringIndex revision collection =>
    validateLongTermStorageClaim w now s origin call message proof ringIndex revision collection

def validate (w : T.memberService.World) (now : Nat) (s : Store T) (tx : Transaction T) :
    Except InvalidTransaction (Origin T) := do
  let origin ← authorizeCall now s tx
  match tx.asResources with
  | some info => validateInfo w now s origin tx.call tx.message info
  | none => return origin

/-! ### A chain with the pallet -/

/-- A call as it is dispatched: in a storage layer of its own. Other calls do not touch the pallet. -/
def dispatch (origin : Origin T) (now : Nat) (s : Store T) : Call T → Except Error Unit × Store T
  | .registerPerson linked proof choice => withStorageLayer (registerPerson origin now linked proof choice) s
  | .registerLitePerson key username reserved => wrap (registerLitePerson origin now s key username reserved)
  | .touchPersonAuthorization => wrap (touchPersonAuthorization origin now s)
  | .removeExpiredUsernameReservation username account =>
    wrap (removeExpiredUsernameReservation origin s username account)
  | .updateIdentifierKey key => wrap (updateIdentifierKey origin s key)
  | .setUsernameReservationDuration duration => wrap (setUsernameReservationDuration origin s duration)
  | .demoteAuthExpired account => wrap (demoteAuthExpired origin now s account)
  | .setFriendRequestStatementAccountForSequence reference account =>
    wrap (setFriendRequestStatementAccountForSequence origin now s reference account)
  | .clearExpiredFriendRequestSequence account seq =>
    wrap (clearExpiredFriendRequestSequence origin s account seq)
  | .setStatementStoreAccount period seq target => wrap (setStatementStoreAccount origin now s period seq target)
  | .clearExpiredStmtStoreAllowances period firstEntry =>
    wrap (clearExpiredStmtStoreAllowances origin s period firstEntry)
  | .claimLongTermStorage period counter account =>
    wrap (claimLongTermStorage origin s period counter account)
  | .clearExpiredLongTermStorageAliases period limit =>
    wrap (clearExpiredLongTermStorageAliases origin s period limit)
  | .other => (.ok (), s)
where
  wrap : Except Error (Store T) → Except Error Unit × Store T
    | .ok s' => (.ok (), s')
    | .error e => (.error e, s)

variable (T)

/-- The pallet's storage, the clock, and the members pallet. -/
structure Chain where
  store : Store T
  now : Nat
  members : T.memberService.World

inductive Action
  | elapse (now : Nat)
  | elsewhere (members : T.memberService.World)
  | registrar (account : T.AccountId) (identifierKey : Vector UInt8 65) (username : Username)
      (reserved : Option Username)
  | submit (tx : Transaction T)

inductive Refusal
  | clock
  | invalid (e : InvalidTransaction)
  | failed (e : Error)
  deriving DecidableEq

variable {T}

def submit (c : Chain T) (tx : Transaction T) : Except Refusal (Store T) := do
  let origin ← (validate c.members c.now c.store tx).mapError .invalid
  match dispatch origin c.now c.store tx.call with
  | (.ok (), s) => .ok s
  | (.error e, _) => .error (.failed e)

/-- The clock counts seconds in 64 bits and does not go back. -/
def exec (c : Chain T) : Action T → Except Refusal (Chain T)
  | .elapse now => do
    ensure (c.now ≤ now ∧ now ≤ U64.max) .clock
    return { c with now := now }
  | .elsewhere members => .ok { c with members := members }
  | .registrar account key username reserved => do
    let s ← (registerLiteConsumerInner c.now c.store account key username reserved).mapError .failed
    return { c with store := s }
  | .submit tx => do
    let s ← submit c tx
    return { c with store := s }

/-- The chain before any registration. -/
def genesis (now : Nat) (members : T.memberService.World) : Chain T := ⟨default, now, members⟩

/-! ### A sample configuration -/

/-- A signature names the account that it links. -/
theorem one_le_one : 1 ≤ 1 := by decide

theorem one_le_two : 1 ≤ 2 := by decide

theorem five_pos : 0 < 5 := by decide

theorem ten_pos : 0 < 10 := by decide

theorem hundred_pos : 0 < 100 := by decide

theorem fifty_lt_hundred : 50 < 100 := by decide

theorem two_le_max : 2 ≤ U32.max := by decide

theorem ten_le_day : 10 ≤ secondsPerDay := by decide

def sampleConfig : Config where
  memberService := Members.sampleProver
  AccountId := Nat
  Signature := Nat
  accountDecEq := inferInstance
  verify signature _ account := signature = account
  minUsernameLength := 1
  personAuthDuration := 1000
  minPersonAuthUpdateInterval := 10
  maxReservationQueueLength := 4
  accountsApiAllowance := ⟨2, 20⟩
  stmtStoreSlotsPerPeriod := 2
  liteStmtStoreSlotsPerPeriod := 1
  stmtStoreCleanupLimit := 5
  stmtStoreReplacementCooldown := 10
  stmtStoreGraceWindow := 5
  friendRequestAllowance := ⟨1, 10⟩
  friendRequestSlotsPerPeriod := 1
  liteFriendRequestSlotsPerPeriod := 1
  friendRequestPeriodDuration := 100
  friendRequestGraceWindow := 50
  friendRequestRetentionDuration := 0
  litePersonStatementLimit := ⟨3, 30⟩
  personStatementLimit := ⟨7, 70⟩
  longTermStoragePeriodDuration := 100
  longTermStorageClaimsPerPeriod := 2
  longTermStorageGraceWindow := 50
  longTermStorageCleanupLimit := 5
  periodKey k := k.1
  friendRequestSlotsPerPeriod_pos := Nat.one_pos
  liteFriendRequestSlotsPerPeriod_pos := Nat.one_pos
  liteFriendRequestSlotsPerPeriod_le := one_le_one
  friendRequestPeriodDuration_pos := hundred_pos
  friendRequestGraceWindow_lt := fifty_lt_hundred
  stmtStoreSlotsPerPeriod_pos := Nat.two_pos
  stmtStoreSlotsPerPeriod_le := two_le_max
  liteStmtStoreSlotsPerPeriod_pos := Nat.one_pos
  liteStmtStoreSlotsPerPeriod_le := one_le_two
  stmtStoreCleanupLimit_pos := five_pos
  stmtStoreReplacementCooldown_pos := ten_pos
  stmtStoreReplacementCooldown_le := ten_le_day
  stmtStoreGraceWindow_pos := five_pos
  longTermStoragePeriodDuration_pos := hundred_pos
  longTermStorageGraceWindow_lt := fifty_lt_hundred
  longTermStorageClaimsPerPeriod_pos := Nat.two_pos
  longTermStorageCleanupLimit_pos := five_pos

/-- A transaction with nothing ahead of the pallet's extension. -/
def sampleTransaction (info : Option (AsResourcesInfo sampleConfig)) (call : Call sampleConfig) :
    Transaction sampleConfig := ⟨.local, .none, info, call, (0 : Nat)⟩

/-- Two members, each in both collections. -/
def sampleGenesis : Chain sampleConfig := genesis 0 fun _ => [1, 2]

end Individuality.Resources
