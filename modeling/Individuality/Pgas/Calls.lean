import Individuality.Members.Provers
import Individuality.Support.BoundedVec
import Individuality.Support.Outcome
import Individuality.Support.Prefixes
import Individuality.Support.Runs

/-! The PGAS pallet: claims and the cleaning of their records.

A member of one of two collections claims gas for a day with a proof in a context of
that day and a slot, which the `AsPgas` extension checks; the claim leaves a record of
the day and the alias. Anyone may have the records of a past day removed, a bounded
number at a time. `exec` runs a chain with the pallet, where the clock moves on and
the members pallet and the asset ledger change in any way. -/
namespace Individuality.Pgas
open Support
open Members (Context Identifier MembershipProver IdealProver peopleIdentifier peopleLiteIdentifier)

/-! ### Configuration -/

/-- A ledger of assets. -/
structure Fungibles where
  Ledger : Type
  AssetId : Type
  AccountId : Type
  assetExists : Ledger → AssetId → Bool
  create : Ledger → AssetId → (admin : AccountId) → (isSufficient : Bool) → (minBalance : Nat) → Option Ledger
  mintInto : Ledger → AssetId → AccountId → Nat → Option Ledger

/-- What the ledger promises of an amount that it mints. -/
structure LawfulFungibles (F : Fungibles) where
  balance : F.Ledger → F.AssetId → F.AccountId → Nat
  totalIssuance : F.Ledger → F.AssetId → Nat
  minted : ∀ {l l' id who amount}, F.mintInto l id who amount = some l' →
    balance l' id who = balance l id who + amount ∧ totalIssuance l' id = totalIssuance l id + amount ∧
      ∀ other, other ≠ who → balance l' id other = balance l id other

structure Config where
  membershipProver : MembershipProver
  fungibles : Fungibles
  pgasAssetId : fungibles.AssetId
  pgasAdmin : fungibles.AccountId
  pgasClaimAmount : Nat
  pgasMinBalance : Nat
  maxClaimsPerPeriodPerPerson : Nat
  maxClaimsPerPeriodPerLitePerson : Nat
  maxPgasClaimRecordCleanupPerCall : Nat
  /-- Where a record stands in the storage. -/
  recordKey : Nat × membershipProver.Alias → Nat
  pgasMinBalance_le : pgasMinBalance ≤ pgasClaimAmount
  maxClaims_le : max maxClaimsPerPeriodPerPerson maxClaimsPerPeriodPerLitePerson ≤ U32.max

/-- The collections whose members may claim. -/
inductive PgasCollection
  | people
  | litePeople
  deriving DecidableEq, Repr

def PgasCollection.identifier : PgasCollection → Identifier
  | people => peopleIdentifier
  | litePeople => peopleLiteIdentifier

def pgasContextPrefix : List UInt8 := ascii "pop:gas:"
def pgasDayGraceWindow : Nat := 3600
def secsPerDay : Nat := 86400

/-- The prefix, the day, the slot, and sixteen zero bytes. -/
def buildGasContext (day slotIndex : Nat) : Context :=
  padded 32 0 (pgasContextPrefix ++ leBytes 4 day ++ leBytes 4 slotIndex)

def currentDay (now : Nat) : Nat := U32.saturatedFrom (now / secsPerDay)

/-- The day before within the grace window, and the current day outside it. -/
def graceDay (now : Nat) : Nat := U32.saturatedFrom ((now - pgasDayGraceWindow) / secsPerDay)

variable (T : Config)

def maxClaimsFor : PgasCollection → Nat
  | .people => T.maxClaimsPerPeriodPerPerson
  | .litePeople => T.maxClaimsPerPeriodPerLitePerson

/-! ### Calls -/

inductive Error
  | alreadyClaimed
  | pgasMintFailed
  | noRecordsForDay
  | firstAliasMismatch
  | createFailed
  | badOrigin
  deriving DecidableEq, Repr

inductive InvalidTransaction
  | badSigner
  | call
  | future
  | stale
  | badProof
  | invalidClaimSlot
  | invalidClaimDay
  | alreadyClaimed
  | pgasAssetNotCreated
  | firstAliasMismatch
  deriving DecidableEq, Repr

inductive TransactionSource
  | inBlock
  | local
  | external
  deriving DecidableEq, Repr

/-- The claims on record, and the ledger that the gas is minted in. -/
structure Store where
  claimedGasAliases : StorageMap (Nat × T.membershipProver.Alias) Unit
  assets : T.fungibles.Ledger

/-- Who a call comes from: nobody, an account or another authority, the pallet's own checks of a
call that anyone may submit, or the member behind an alias. -/
inductive Origin
  | none
  | other
  | authorized
  | claimAlias (claimant : T.membershipProver.Alias) (day : Nat) (collection : PgasCollection)

inductive Call
  | claimPgas (slotIndex : Nat) (target : T.fungibles.AccountId)
  | createPgasAsset
  | cleanPgasClaimRecords (dayIndex : Nat) (firstAlias : T.membershipProver.Alias)
  | other

/-- A claim's proof, and what it was made for. -/
structure AsPgasInfo where
  proof : T.membershipProver.Proof
  ringIndex : Nat
  revision : Nat
  collection : PgasCollection
  day : Nat

/-- `authorized` when another extension has provided an origin before; `message` is the hash of what
the proof is to cover. -/
structure Transaction where
  source : TransactionSource
  authorized : Bool
  asPgas : Option (AsPgasInfo T)
  call : Call T
  message : T.membershipProver.Message

variable {T}

def claimPgas (origin : Origin T) (_slotIndex : Nat) (target : T.fungibles.AccountId) (s : Store T) :
    Except Error (Store T) :=
  match origin with
  | .claimAlias claimant day _ => do
    ensure (s.claimedGasAliases.contains (day, claimant) = false) .alreadyClaimed
    let assets ← okOr (T.fungibles.mintInto s.assets T.pgasAssetId target T.pgasClaimAmount) .pgasMintFailed
    return { s with assets := assets, claimedGasAliases := s.claimedGasAliases.insert (day, claimant) () }
  | _ => .error .badOrigin

def createPgasAsset (origin : Origin T) (s : Store T) : Except Error (Store T) :=
  match origin with
  | .authorized => do
    let assets ← okOr (T.fungibles.create s.assets T.pgasAssetId T.pgasAdmin true T.pgasMinBalance) .createFailed
    return { s with assets := assets }
  | _ => .error .badOrigin

/-- The first alias on record for a day. -/
def firstAliasOf (s : Store T) (day : Nat) : Option T.membershipProver.Alias :=
  (s.claimedGasAliases.prefixKeys T.recordKey day).head?.map Prod.snd

def cleanPgasClaimRecords (origin : Origin T) (dayIndex : Nat) (firstAlias : T.membershipProver.Alias)
    (s : Store T) : Except Error (Store T) :=
  match origin with
  | .authorized => do
    let actualFirst ← okOr (firstAliasOf s dayIndex) .noRecordsForDay
    ensure (actualFirst = firstAlias) .firstAliasMismatch
    let cleared := s.claimedGasAliases.clearPrefix T.recordKey dayIndex T.maxPgasClaimRecordCleanupPerCall
    return { s with claimedGasAliases := cleared.1 }
  | _ => .error .badOrigin

/-! ### Checks before a call -/

def authorizeCreatePgasAsset (s : Store T) : Except InvalidTransaction Unit :=
  ensure (T.fungibles.assetExists s.assets T.pgasAssetId = false) .stale

def authorizeCleanPgasClaimRecords (now : Nat) (s : Store T) (source : TransactionSource) (dayIndex : Nat)
    (firstAlias : T.membershipProver.Alias) : Except InvalidTransaction Unit := do
  ensure (source = .inBlock ∨ source = .local) .call
  ensure (dayIndex < graceDay now) .future
  let actualFirst ← okOr (firstAliasOf s dayIndex) .stale
  ensure (actualFirst = firstAlias) .firstAliasMismatch

/-- The origin of a transaction ahead of the extension: a call that anyone may submit is checked. -/
def authorizeCall (now : Nat) (s : Store T) (tx : Transaction T) : Except InvalidTransaction (Origin T) :=
  if tx.authorized = true then .ok .other
  else
    match tx.call with
    | .createPgasAsset => do
      authorizeCreatePgasAsset s
      return .authorized
    | .cleanPgasClaimRecords dayIndex firstAlias => do
      authorizeCleanPgasClaimRecords now s tx.source dayIndex firstAlias
      return .authorized
    | _ => .ok .none

def validateClaim (w : T.membershipProver.World) (now : Nat) (s : Store T) (origin : Origin T) (call : Call T)
    (message : T.membershipProver.Message) (info : AsPgasInfo T) : Except InvalidTransaction (Origin T) :=
  match origin, call with
  | .none, .claimPgas slotIndex _ => do
    ensure (slotIndex < maxClaimsFor T info.collection) .invalidClaimSlot
    ensure (T.fungibles.assetExists s.assets T.pgasAssetId = true) .pgasAssetNotCreated
    ensure (info.day = currentDay now ∨ info.day = graceDay now) .invalidClaimDay
    let context := buildGasContext info.day slotIndex
    let ca ← okOr (T.membershipProver.verifyMembershipAtRev w info.collection.identifier info.proof
      info.ringIndex info.revision context message) .badProof
    ensure (s.claimedGasAliases.contains (info.day, ca.ringAlias) = false) .alreadyClaimed
    return .claimAlias ca.ringAlias info.day info.collection
  | .none, _ => .error .call
  | _, _ => .error .badSigner

def validate (w : T.membershipProver.World) (now : Nat) (s : Store T) (tx : Transaction T) :
    Except InvalidTransaction (Origin T) := do
  let origin ← authorizeCall now s tx
  match tx.asPgas with
  | some info => validateClaim w now s origin tx.call tx.message info
  | none => return origin

/-! ### A chain with the pallet -/

/-- Other calls do not touch the pallet. -/
def dispatch (origin : Origin T) (call : Call T) (s : Store T) : Except Error (Store T) :=
  match call with
  | .claimPgas slotIndex target => claimPgas origin slotIndex target s
  | .createPgasAsset => createPgasAsset origin s
  | .cleanPgasClaimRecords dayIndex firstAlias => cleanPgasClaimRecords origin dayIndex firstAlias s
  | .other => .ok s

variable (T)

/-- The pallet's storage, the clock, and the members pallet. -/
structure Chain where
  store : Store T
  now : Nat
  members : T.membershipProver.World

inductive Action
  | elapse (now : Nat)
  | elsewhere (members : T.membershipProver.World) (assets : T.fungibles.Ledger)
  | submit (tx : Transaction T)

inductive Refusal
  | clock
  | invalid (e : InvalidTransaction)
  | failed (e : Error)
  deriving DecidableEq

variable {T}

def submit (c : Chain T) (tx : Transaction T) : Except Refusal (Store T) := do
  let origin ← (validate c.members c.now c.store tx).mapError .invalid
  (dispatch origin tx.call c.store).mapError .failed

/-- The clock does not go back. -/
def exec (c : Chain T) : Action T → Except Refusal (Chain T)
  | .elapse now => do
    ensure (c.now ≤ now) .clock
    return { c with now := now }
  | .elsewhere members assets => .ok { c with members := members, store := { c.store with assets := assets } }
  | .submit tx => do
    let s ← submit c tx
    return { c with store := s }

/-- The chain before any claim. -/
def genesis (now : Nat) (members : T.membershipProver.World) (assets : T.fungibles.Ledger) : Chain T :=
  ⟨⟨∅, assets⟩, now, members⟩

end Individuality.Pgas
