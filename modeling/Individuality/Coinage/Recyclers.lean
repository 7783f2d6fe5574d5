import Individuality.Coinage.Denominations
import Individuality.Members.Service

/-! The recyclers: `RecyclerManager`, and the calls on top of it.

The vouchers of one coin value are the members of a collection of the members pallet. A ring of it
can be unloaded from while its root is valid and, once it is full, until it expires; then it is
cleaned, in the order of the ring indices: the ring is removed and what was not unloaded is
destroyed. -/
namespace Individuality.Coinage
open Support

/-- The onboarding size of the recyclers' collections. -/
def recyclerOnboardingSize : Nat := 1

/-- The largest number of entries that one cleaning of dust removes. -/
def dustCleanupBatchSize : Nat := 1000

namespace State
variable {T : Config}

/-- A call of the members pallet that this pallet makes. -/
def memberCall (s : State T) (id : Members.Identifier) (c : Members.Call T.members) : Except Error (State T) := do
  let members ← (s.members.exec (.call id c)).mapError .members
  .ok { s with members := members }

/-- The collection of the recycler for a coin value. -/
def recycler (s : State T) (value : CoinValue) : Members.Store T.members :=
  s.members.store (recyclerCollectionIdentifier value)

/-- The clock's seconds. -/
def now (s : State T) : Nat := s.members.env.now

/-- The clock's seconds as 32 bits. -/
def nowU32 (s : State T) : Nat := s.now % 2 ^ 32

/-- The oldest ring that has not been cleaned. -/
def nextRingToClean (s : State T) (value : CoinValue) : Option Nat :=
  match s.coinage.recyclersLastRemovedRingIndex.get value with
  | some i => checkedAdd 32 i 1
  | none => some 0

/-- `RecyclerManager::ensure_collection_exists`. -/
def ensureRecyclerExists (s : State T) (value : CoinValue) : Except Error (State T) :=
  if s.coinage.recyclerCollectionCreated.contains value then .ok s
  else do
    let s ← s.memberCall (recyclerCollectionIdentifier value)
      (.createCollection T.collectionOwner recyclerOnboardingSize .appendOnly T.recyclerRingExponent none)
    .ok { s with coinage := { s.coinage with
      recyclerCollectionCreated := s.coinage.recyclerCollectionCreated.insert value () } }

def validateRecyclerRevision (s : State T) (value : CoinValue) (index revision : Nat) : Bool :=
  match (s.recycler value).ringStatus index with
  | none => false
  | some status =>
    !(status.immutableSince.any fun immutableSince =>
      U64.saturatingAdd immutableSince T.recyclerExpirationTime ≤ s.now) &&
    ((s.recycler value).ringRevision index).isSome &&
    (s.recycler value).isRevisionValid s.members.env index revision

/-- Push a voucher into the recycler for a coin value. -/
def load (s : State T) (value : CoinValue) (memberKey : T.Member) : Except Error (State T) := do
  ensure (s.coinage.recyclersCoinToRecycler.contains memberKey = false) .memberKeyAlreadyUsed
  ensure (T.members.crypto.isMemberValid memberKey = true) .invalidMemberKey
  let s ← (s.ensureRecyclerExists value).mapError fun _ => .cannotCreateRecyclerCollection
  let s ← (s.memberCall (recyclerCollectionIdentifier value) (.addMembers [memberKey])).mapError fun _ => .internalError
  .ok { s with coinage := { s.coinage with
    recyclersCoinToRecycler := s.coinage.recyclersCoinToRecycler.insert memberKey value } }

/-- The vouchers of a batch for one coin value are pushed together. -/
def loadGroup (vouchers : List (CoinValue × T.Member)) (s : State T) (value : CoinValue) : Except Error (State T) := do
  let members := (vouchers.filter fun v => v.1 = value).map Prod.snd
  let s ← (s.ensureRecyclerExists value).mapError fun _ => .cannotCreateRecyclerCollection
  let s := { s with coinage := { s.coinage with
    recyclersCoinToRecycler := members.foldl (fun m key => m.insert key value) s.coinage.recyclersCoinToRecycler } }
  (s.memberCall (recyclerCollectionIdentifier value) (.addMembers members)).mapError fun _ => .internalError

/-- One turn of the loop that checks a batch, with the keys seen so far. -/
def checkVoucher (s : State T) (seen : List T.Member) (voucher : CoinValue × T.Member) : Except Error (List T.Member) := do
  ensure (voucher.2 ∉ seen ∧ s.coinage.recyclersCoinToRecycler.contains voucher.2 = false) .memberKeyAlreadyUsed
  ensure (T.members.crypto.isMemberValid voucher.2 = true) .invalidMemberKey
  .ok (seen ++ [voucher.2])

/-- Push several vouchers, grouped by coin value from the least on. -/
def loadBatchGrouped (s : State T) (vouchers : List (CoinValue × T.Member)) : Except Error (State T) := do
  let _ ← vouchers.foldlM s.checkVoucher []
  let values := ((vouchers.map Prod.fst).insertionSort (· ≤ ·)).dedup
  values.foldlM (loadGroup vouchers) s

/-- `verify_memberships_in_ring_at_rev`, of the members pallet: all the proofs at once. -/
def verifyMembershipsInRingAtRev (s : State T) (id : Members.Identifier) (index revision : Nat)
    (items : List (T.Proof × T.members.crypto.Context × T.Message)) : Except Members.Error (List T.Alias) := do
  let info ← okOr (s.members.store id).collections .collectionNotFound
  let capacity ← okOr (T.members.capacity info.ringSize) .invalidRingExponent
  let root ← (s.members.store id).getRootAtRevision s.members.env index revision
  okOr (T.batchValidate capacity root items) .invalidProof

def markAliasUnloaded (s : State T) (value : CoinValue) (index : Nat) (unloaded : T.Alias) : State T :=
  { s with coinage := { s.coinage with
    recyclersUnloaded := s.coinage.recyclersUnloaded.insert (value, index, unloaded) () } }

/-- One turn of the loop over the verified aliases and those that were announced. -/
def unloadAlias (value : CoinValue) (index : Nat) (s : State T) (pair : T.Alias × T.Alias) : Except Error (State T) := do
  ensure (pair.1 = pair.2) .proofAndAliasMismatch
  ensure (s.coinage.recyclersUnloaded.contains (value, index, pair.1) = false) .recyclerAlreadyUnloaded
  .ok (s.markAliasUnloaded value index pair.1)

/-- Unload vouchers from a ring. -/
def unload (s : State T) (value : CoinValue) (index revision : Nat) (aliases : List T.Alias)
    (aliasProofs : List T.Proof) (provenMsg : T.Message) : Except Error (State T) := do
  ensure (aliases.length = aliasProofs.length) .proofAndAliasMismatch
  ensure (s.validateRecyclerRevision value index revision = true) .invalidRecyclerRevision
  let results ← (s.verifyMembershipsInRingAtRev (recyclerCollectionIdentifier value) index revision
    (aliasProofs.map fun proof => (proof, T.unloadingRecyclerContext, provenMsg))).mapError fun _ => .invalidAliasProof
  ensure (results.length = aliases.length) .proofAndAliasMismatch
  (results.zip aliases).foldlM (unloadAlias value index) s

/-- Whether the next ring of a recycler can be cleaned, and which it is. -/
def ensureCanClean (s : State T) (value : CoinValue) : Except CustomInvalidity Nat := do
  let nextRing ← okOr (s.nextRingToClean value) .stale
  let status ← okOr ((s.recycler value).ringStatus nextRing) .future
  let immutableSince ← okOr status.immutableSince .future
  ensure (U32.saturatingAdd (immutableSince % 2 ^ 32) T.recyclerExpirationTime ≤ s.nowU32) .future
  .ok nextRing

/-- Clean the next ring of a recycler: the vouchers left in it, and how many were ever in it. -/
def cleanUnchecked (s : State T) (value : CoinValue) : Except Error (State T × Nat × Nat) := do
  let nextRing ← okOr (s.nextRingToClean value) .internalError
  let status ← okOr ((s.recycler value).ringStatus nextRing) .internalError
  let members := (s.recycler value).ringMembers nextRing
  let s := { s with coinage := { s.coinage with
    recyclersCoinToRecycler := s.coinage.recyclersCoinToRecycler.removeAll members } }
  let s ← s.memberCall (recyclerCollectionIdentifier value) (.removeRing nextRing)
  let unloadedCount := s.coinage.recyclersUnloaded.countOf fun k _ => k.1 = value ∧ k.2.1 = nextRing
  let s := { s with coinage := { s.coinage with
    recyclersDusting := if unloadedCount = 0 then s.coinage.recyclersDusting
      else s.coinage.recyclersDusting.insert (value, nextRing) ()
    recyclersLastRemovedRingIndex := s.coinage.recyclersLastRemovedRingIndex.insert value nextRing } }
  .ok (s, status.total - unloadedCount, members.length)

/-- Clean recycler dust, of the first ring that has any. -/
def cleanRecyclerDust (s : State T) : State T :=
  match s.coinage.recyclersDusting.keys.head? with
  | none => s
  | some (value, index) =>
    let unloaded := s.coinage.recyclersUnloaded.clear (fun k => k.1 = value ∧ k.2.1 = index) dustCleanupBatchSize
    { s with coinage := { s.coinage with
      recyclersUnloaded := unloaded
      recyclersDusting := if (unloaded.countOf fun k _ => k.1 = value ∧ k.2.1 = index) = 0 then
        s.coinage.recyclersDusting.remove (value, index) else s.coinage.recyclersDusting } }

/-! ### Calls -/

/-- What the transaction extension has proven of a call that unloads, and how its fee is paid. -/
inductive UnloadFee
  | prepaid
  | fromOutput (feeRecyclerValue : CoinValue) (feeRecyclerIndex : Nat)

structure UnloadToken (T : Config) where
  aliasProofs : BoundedVec T.Proof T.maxConsolidation
  provenMsg : T.Message
  fee : UnloadFee

/-- The number of zeros below the lowest one of 64 bits. -/
def trailingZeros (n : Nat) : Nat := ((List.range 64).find? fun i => n.testBit i).getD 64

/-- A sum of eight bits with sign. -/
def checkedAddValue (value : CoinValue) (increment : Nat) : Option CoinValue :=
  if value.toInt + increment ≤ 127 then some (Int8.ofInt (value.toInt + increment)) else none

/-- Unload vouchers of one coin value into one coin. -/
def unloadRecyclerIntoCoin (s : State T) (origin : UnloadToken T) (aliases : BoundedVec T.Alias T.maxConsolidation)
    (value : CoinValue) (index revision : Nat) (dest : T.AccountId) : Except Error (State T) :=
  match origin.fee with
  | .fromOutput _ _ => .error .badOrigin
  | .prepaid => do
    ensure (aliases.toList ≠ []) .emptyInputs
    ensure aliases.length.isPowerOfTwo .invalidConsolidation
    let s ← s.unload value index revision aliases.toList origin.aliasProofs.toList origin.provenMsg
    let increment := trailingZeros aliases.length
    ensure (increment ≤ 127) .consolidationTooBig
    let newValue ← okOr (checkedAddValue value increment) .consolidationTooBig
    ensure (newValue ≤ T.maximumExponent) .consolidationTooBig
    .ok { s with coinage := { s.coinage with coinsByOwner := s.coinage.coinsByOwner.insert dest ⟨newValue, 0⟩ } }

/-! ### Consolidation -/

theorem trailingZeros_two_pow {k : Nat} (h : k < 64) : trailingZeros (2 ^ k) = k := by
  have hfind : (List.range 64).find? (fun i => (2 ^ k).testBit i) = some k := by
    rw [List.find?_range_eq_some]
    refine ⟨by simp [Nat.testBit_two_pow_self], List.mem_range.mpr h, fun j hj => ?_⟩
    simp [Nat.ne_of_gt hj]
  rw [trailingZeros, hfind]
  rfl

theorem checkedAddValue_eq_some {value newValue : CoinValue} {increment : Nat}
    (h : checkedAddValue value increment = some newValue) : newValue.toInt - value.toInt = increment := by
  unfold checkedAddValue at h
  split at h
  · have hlow := value.le_toInt
    cases h
    rw [Int8.toInt_ofInt_of_le (by omega) (by omega)]
    omega
  · cases h

/-- What the consolidated vouchers are worth together, the coin is worth. -/
theorem unloadRecyclerIntoCoin_spec {s s' : State T} {origin : UnloadToken T}
    {aliases : BoundedVec T.Alias T.maxConsolidation} {value : CoinValue} {index revision : Nat} {dest : T.AccountId}
    (h : s.unloadRecyclerIntoCoin origin aliases value index revision dest = .ok s') (hvalue : T.InRange value) :
    ∃ (k : Nat) (newValue : CoinValue), aliases.length = 2 ^ k ∧ newValue.toInt = value.toInt + k ∧ T.InRange newValue ∧
      s'.coinage.coinsByOwner.get dest = some ⟨newValue, 0⟩ ∧ aliases.length * T.amount value = T.amount newValue := by
  unfold unloadRecyclerIntoCoin at h
  split at h
  · cases h
  simp only [bind_eq_ok, ensure_eq_ok, okOr_eq_ok] at h
  obtain ⟨-, -, -, ⟨k, hk⟩, t, -, -, hincrement, newValue, hnew, -, hmax, h⟩ := h
  cases h
  have hlt : k < 64 := by
    have hle := aliases.length_le.trans T.maxConsolidation_le
    rw [show aliases.toList.length = 2 ^ k from hk] at hle
    by_contra hge
    have := Nat.pow_le_pow_right Nat.two_pos (Nat.le_of_not_lt hge)
    have : U32.max < 2 ^ 64 := by decide
    omega
  rw [hk, trailingZeros_two_pow hlt] at hnew
  have hoffset := checkedAddValue_eq_some hnew
  have hnewValue : T.InRange newValue := by
    refine ⟨Int8.le_iff_toInt_le.mpr ?_, hmax⟩
    have := Int8.le_iff_toInt_le.mp hvalue.1
    omega
  refine ⟨k, newValue, hk, by omega, hnewValue, by simp, ?_⟩
  rw [hk]
  exact (T.amount_eq_mul_of_offset hoffset hvalue.coinValueToAssetAmount hnewValue.coinValueToAssetAmount).symm

end State
end Individuality.Coinage
