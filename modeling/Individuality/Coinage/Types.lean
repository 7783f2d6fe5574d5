import Mathlib.Order.Defs.LinearOrder
import Individuality.Members.Calls
import Individuality.Support.Checked
import Individuality.Support.Encoding

/-! The coinage pallet: its types, its configuration and its storage.

A coin is worth a power of two of the underlying asset's unit; its value is the exponent, eight
bits with a sign. `Parameters` are the constants of the denominations, and `IntegrityTest` is what the
pallet's integrity test asserts of them; a `Config` carries both, so that one the runtime would
refuse cannot be built. The rings of recyclers and of paid tokens are collections of the
members pallet, one for each coin value and one for each period: a `State` is the
storage of both pallets. -/
namespace Individuality.Coinage
open Support

abbrev CoinValue := Int8
abbrev Period := Nat

structure Coin where
  value : CoinValue
  age : Nat
  deriving DecidableEq, Repr

inductive CoinValueToAssetAmountError
  | coinValueOutOfBound
  | coinValueTooSmall
  | coinValueTooBig
  | lossyCoinValueConversion
  deriving DecidableEq, Repr

/-- Why a transaction is not valid. -/
inductive CustomInvalidity
  | coinTooOld
  | splitIntoNotSorted
  | splitExponentTooSmall
  | splitExponentTooBig
  | internalError
  | invalidSplit
  | emptySplit
  | tooManySplits
  | addressAlreadyHasCoin
  | duplicateDestinationsInSplit
  | nothingToBuild
  | stale
  | future
  deriving DecidableEq, Repr

inductive Error
  | memberKeyAlreadyUsed
  | invalidMemberKey
  | internalError
  | recyclerAlreadyUnloaded
  | invalidConsolidation
  | consolidationTooBig
  | invalidAliasProof
  | proofAndAliasMismatch
  | invalidProofOfOwnership
  | emptyInputs
  | invalidRecyclerRevision
  | cannotCreateRecyclerCollection
  | badOrigin
  | members (e : Members.Error)
  | invalid (e : CustomInvalidity)
  deriving DecidableEq, Repr

/-! ### Configuration -/

/-- The constants of the denominations; a balance has `balanceBits` bits. -/
structure Parameters where
  balanceBits : Nat
  underlyingAssetUnit : Nat
  minimumExponent : CoinValue
  maximumExponent : CoinValue
  minimumExponentForOutputUnloadFee : CoinValue
  maximumAge : Nat
  maxSplitOutputs : Nat
  maxConsolidation : Nat
  underlyingAssetUnit_lt : underlyingAssetUnit < 2 ^ balanceBits
  maxSplitOutputs_le : maxSplitOutputs ≤ U32.max
  maxConsolidation_le : maxConsolidation ≤ U32.max

namespace Parameters
variable (P : Parameters)

/-- How many of the underlying asset a coin of a value is worth, unless it is out of range
or no whole number. -/
def coinValueToAssetAmount (value : CoinValue) : Except CoinValueToAssetAmountError Nat :=
  if value < P.minimumExponent ∨ P.maximumExponent < value then .error .coinValueOutOfBound
  else if value < 0 then do
    let shift := value.toInt.natAbs
    let shifted ← okOr (checkedShr P.balanceBits P.underlyingAssetUnit shift) .coinValueTooSmall
    -- The division has to be exact.
    ensure (checkedShl P.balanceBits shifted shift = some P.underlyingAssetUnit) .lossyCoinValueConversion
    .ok shifted
  else do
    let shift := value.toInt.toNat
    let shifted ← okOr (checkedShl P.balanceBits P.underlyingAssetUnit shift) .coinValueTooBig
    -- A shift within the width may still drop bits.
    ensure (checkedShr P.balanceBits shifted shift = some P.underlyingAssetUnit) .coinValueTooBig
    .ok shifted

/-- The distance between two exponents, where it is not negative. -/
def exponentOffset (low high : CoinValue) : Option Nat :=
  if 0 ≤ high.toInt - low.toInt then some (high.toInt - low.toInt).toNat else none

/-- What the pallet's integrity test asserts. -/
structure IntegrityTest : Prop where
  underlyingAssetUnit_ne : P.underlyingAssetUnit ≠ 0
  minimumExponent_le : P.minimumExponent ≤ P.maximumExponent
  maximumCoin : ((exponentOffset P.minimumExponent P.maximumExponent).bind (checkedShl 32 1)).isSome = true
  le_minimumExponentForOutputUnloadFee : P.minimumExponent ≤ P.minimumExponentForOutputUnloadFee
  minimumExponentForOutputUnloadFee_le : P.minimumExponentForOutputUnloadFee ≤ P.maximumExponent
  coinValueToAssetAmount_isOk : ∀ value, P.minimumExponent ≤ value → value ≤ P.maximumExponent →
    (P.coinValueToAssetAmount value).isOk = true
  maxConsolidation_pos : 0 < P.maxConsolidation
  maxSplitOutputs_ge : 2 ≤ P.maxSplitOutputs

end Parameters

/-- What the pallet is configured with. A batch of proofs is validated at once, by code that is
not the pallet's; the clock is the one the members pallet reads. -/
structure Config extends Parameters where
  members : Members.Config
  AccountId : Type
  Signature : Type
  accountOrder : LinearOrder AccountId
  aliasDecEq : DecidableEq members.crypto.Alias
  verifySignature : Signature → AccountId → members.Member → Bool
  batchValidate : members.crypto.Capacity → members.RingMembers →
    List (members.crypto.Proof × members.crypto.Context × members.crypto.Message) →
    Option (List members.crypto.Alias)
  unloadingRecyclerContext : members.crypto.Context
  collectionOwner : members.Location
  recyclerRingExponent : Members.RingExponent
  paidUnloadTokenRingExponent : Members.RingExponent
  recyclerExpirationTime : Nat
  paidUnloadTokenRingExpirationTime : Nat
  paidUnloadTokenTimePeriod : Nat
  recyclerExpirationTime_le : recyclerExpirationTime ≤ U32.max
  paidUnloadTokenRingExpirationTime_le : paidUnloadTokenRingExpirationTime ≤ U32.max
  paidUnloadTokenTimePeriod_le : paidUnloadTokenTimePeriod ≤ U32.max
  integrity : toParameters.IntegrityTest

namespace Config
variable (T : Config)

abbrev Member : Type := T.members.Member
abbrev Alias : Type := T.members.crypto.Alias
abbrev Proof : Type := T.members.crypto.Proof
abbrev Message : Type := T.members.crypto.Message

instance : LinearOrder T.AccountId := T.accountOrder
instance : DecidableEq T.Alias := T.aliasDecEq

end Config

/-! ### Storage -/

structure Store (T : Config) where
  coinsByOwner : StorageMap T.AccountId Coin
  recyclerCollectionCreated : StorageMap CoinValue Unit
  recyclersLastRemovedRingIndex : StorageMap CoinValue Nat
  recyclersCoinToRecycler : StorageMap T.Member CoinValue
  recyclersUnloaded : StorageMap (CoinValue × Nat × T.Alias) Unit
  recyclersDusting : StorageMap (CoinValue × Nat) Unit
  paidUnloadTokenMembers : StorageMap T.Member Unit
  paidUnloadTokenConsumed : StorageMap (Period × Nat × T.Alias) Unit
  paidTokenCollectionsCreated : StorageMap Period Unit
  paidUnloadTokenDusting : StorageMap Period Unit
  paidUnloadTokenNextRingToClean : StorageMap Period Nat

/-- The storage of the pallet and that of the members pallet, with the clock. -/
structure State (T : Config) where
  members : Members.State T.members
  coinage : Store T

/-! ### Identifiers -/

/-- The collection of the recycler for a coin value. -/
def recyclerCollectionIdentifier (value : CoinValue) : Members.Identifier :=
  padded 32 0 (ascii "coinage/recycler" ++ [value.toUInt8])

/-- The collection of the paid tokens of a period. -/
def paidTokenCollectionIdentifier (period : Period) : Members.Identifier :=
  padded 32 0 (ascii "coinage/paidtkn!" ++ leBytes 4 period)

end Individuality.Coinage
