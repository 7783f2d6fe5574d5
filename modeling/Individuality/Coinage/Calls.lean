import Individuality.Coinage.PaidTokens
import Individuality.Members.InOrder

/-! The pallet and the members pallet as a system of calls.

A `Call` is what a transaction, a hook or the offchain worker makes of the two managers; what else
the pallet's calls do is to coins and balances. Around them, accounts and workers make the members pallet's
own calls, on any collection, and other pallets use collections of their own. -/
namespace Individuality.Coinage
open Support

inductive Call (T : Config)
  | ensureRecycler (value : CoinValue)
  | load (value : CoinValue) (memberKey : T.Member)
  | loadBatch (vouchers : List (CoinValue × T.Member))
  | unload (value : CoinValue) (index revision : Nat) (aliases : List T.Alias) (aliasProofs : List T.Proof)
      (provenMsg : T.Message)
  | premark (value : CoinValue) (index revision : Nat) (aliasProof : T.Proof) (provenMsg : T.Message)
  | cleanRecycler (value : CoinValue)
  | cleanRecyclerDust
  | ensurePeriod
  | payForToken (caller : T.AccountId) (member : T.Member) (proofOfOwnership : T.Signature)
  | consumeToken (period : Period) (ringIndex : Nat) (token : T.Alias)
  | cleanPaidRing (period : Period) (ringIndex : Nat)
  | deletePaidCollection (period : Period)
  | cleanPaidTokenDust
  | coins (coinsByOwner : StorageMap T.AccountId Coin)

/-- A call of this pallet, one of the members pallet, or the world outside moving on. -/
inductive Action (T : Config)
  | call (c : Call T)
  | members (id : Members.Identifier) (c : Members.Call T.members)
  | advance (seconds : Nat)
  | provideChunks (chunks : Members.RingExponent → Nat → Nat → Option (List T.members.crypto.StaticChunk))

/-- Whether an identifier is one of a recycler, or of the paid tokens of a period. -/
def isRecycler (id : Members.Identifier) : Bool := id.toList.take 16 = ascii "coinage/recycler"

def isPaidToken (id : Members.Identifier) : Bool := id.toList.take 16 = ascii "coinage/paidtkn!"

namespace State
variable {T : Config}

/-- The alias of a proof for a voucher that has not been unloaded. -/
def validateAliasProof (s : State T) (value : CoinValue) (index revision : Nat) (aliasProof : T.Proof)
    (provenMsg : T.Message) : Except Error T.Alias := do
  ensure (s.validateRecyclerRevision value index revision = true) .invalidRecyclerRevision
  let proven ← ((s.recycler value).verifyMembershipAtRev s.members.env aliasProof index revision
    T.unloadingRecyclerContext provenMsg).mapError fun _ => .invalidAliasProof
  ensure (s.coinage.recyclersUnloaded.contains (value, index, proven) = false) .recyclerAlreadyUnloaded
  .ok proven

def execCall (s : State T) : Call T → Except Error (State T)
  | .ensureRecycler value => s.ensureRecyclerExists value
  | .load value memberKey => s.load value memberKey
  | .loadBatch vouchers => s.loadBatchGrouped vouchers
  | .unload value index revision aliases aliasProofs provenMsg =>
    s.unload value index revision aliases aliasProofs provenMsg
  -- The first voucher of an unload that pays its fee from the output is unloaded before the call.
  | .premark value index revision aliasProof provenMsg => do
    .ok (s.markAliasUnloaded value index (← s.validateAliasProof value index revision aliasProof provenMsg))
  | .cleanRecycler value => do
    let _ ← (s.ensureCanClean value).mapError .invalid
    .ok (← s.cleanUnchecked value).1
  | .cleanRecyclerDust => .ok s.cleanRecyclerDust
  | .ensurePeriod => do .ok (← s.ensurePaidCollectionExists s.currentPeriod).1
  | .payForToken caller member proofOfOwnership => s.addMember caller member proofOfOwnership
  | .consumeToken period ringIndex token => .ok (s.markTokenConsumed period ringIndex token)
  | .cleanPaidRing period ringIndex => do
    (s.ensureCanCleanRing period ringIndex).mapError .invalid
    .ok (s.cleanRingUnchecked period ringIndex).1
  | .deletePaidCollection period => do
    (s.ensureCanDeleteCollection period).mapError .invalid
    s.deleteCollectionUnchecked period
  | .cleanPaidTokenDust => .ok s.cleanPaidTokenDust
  | .coins coinsByOwner => .ok { s with coinage := { s.coinage with coinsByOwner := coinsByOwner } }

def exec (s : State T) : Action T → Except Error (State T)
  | .call c => s.execCall c
  | .members id c => do
    -- Only this pallet makes the other calls on its collections.
    ensure (isRecycler id = true ∨ isPaidToken id = true → (s.members.store id).isOpen s.members.env c = true)
      .badOrigin
    s.memberCall id c
  | .advance seconds => do
    let members ← (s.members.exec (.advance seconds)).mapError .members
    .ok { s with members := members }
  | .provideChunks chunks => do
    let members ← (s.members.exec (.provideChunks chunks)).mapError .members
    .ok { s with members := members }

/-- The storage before the first call. -/
def genesis (T : Config) : State T where
  members := .genesis T.members
  coinage := ⟨∅, ∅, ∅, ∅, ∅, ∅, ∅, ∅, ∅, ∅, ∅⟩

theorem memberCall_spec {s s' : State T} {id : Members.Identifier} {c : Members.Call T.members}
    (h : s.memberCall id c = .ok s') :
    (s.members.store id).exec s.members.env c = .ok (s'.members.store id) ∧ s'.members.env = s.members.env ∧
      (∀ id', id' ≠ id → s'.members.store id' = s.members.store id') ∧ s'.coinage = s.coinage := by
  simp only [memberCall, bind_eq_ok, mapError_eq_ok] at h
  obtain ⟨members, hexec, h⟩ := h
  cases h
  obtain ⟨hstore, henv, hother⟩ := Members.State.exec_call hexec
  exact ⟨hstore, henv, hother, rfl⟩

/-! ### The collections of the pallet -/

theorem length_ascii_headers : (ascii "coinage/recycler").length = 16 ∧ (ascii "coinage/paidtkn!").length = 16 := by
  decide

theorem isRecycler_recycler (value : CoinValue) : isRecycler (recyclerCollectionIdentifier value) = true := by
  have htake := take_padded (k := 32) 0 (ascii "coinage/recycler") [value.toUInt8]
    (by rw [List.length_append, length_ascii_headers.1, List.length_singleton]; decide)
  rw [length_ascii_headers.1] at htake
  exact decide_eq_true htake

theorem isPaidToken_paidToken (period : Period) : isPaidToken (paidTokenCollectionIdentifier period) = true := by
  have htake := take_padded (k := 32) 0 (ascii "coinage/paidtkn!") (leBytes 4 period)
    (by rw [List.length_append, length_ascii_headers.2, length_leBytes]; decide)
  rw [length_ascii_headers.2] at htake
  exact decide_eq_true htake

theorem recyclerCollectionIdentifier_injective : Function.Injective recyclerCollectionIdentifier := by
  intro v v' h
  have hbytes := padded_injective (by rw [List.length_append, length_ascii_headers.1, List.length_singleton]; decide)
    (by simp) h
  have htail := List.append_cancel_left hbytes
  have hbyte := (List.cons.inj htail).1
  have h8 := congrArg UInt8.toInt8 hbyte
  simpa only [Int8.toInt8_toUInt8] using h8

theorem recycler_ne_paidToken (value : CoinValue) (period : Period) :
    recyclerCollectionIdentifier value ≠ paidTokenCollectionIdentifier period := by
  intro h
  have hr := of_decide_eq_true (isRecycler_recycler value)
  have hp := of_decide_eq_true (isPaidToken_paidToken period)
  rw [h, hp] at hr
  exact absurd hr (by decide)

end State
end Individuality.Coinage
