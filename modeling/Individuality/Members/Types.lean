import Individuality.Support.BoundedVec
import Individuality.Support.Outcome
import Individuality.Support.StorageMap

/-! The members pallet: its types and its configuration.

A collection keeps member keys in rings; each ring has a root, a commitment to
the keys included so far. `Config` is what the pallet is generic over: the
ring-VRF (`GenerateVerifiable`), the owners' locations, and the constants, with
the facts the pallet's integrity test asserts of them as fields, so that a
configuration the runtime would refuse cannot be built. The indices of rings, of
their pages and of root revisions are plain numbers; only the onboarding queue's
page indices wrap around. -/
namespace Individuality.Members
open Support

abbrev Identifier := Vector UInt8 32
/-- The index of a page of the onboarding queue, which wraps around. -/
abbrev QueuePageIndex := BitVec 32

/-! ### Rings -/

inductive RingExponent
  | r2e9
  | r2e10
  | r2e14
  deriving DecidableEq, Repr

namespace RingExponent

def exponent : RingExponent → Nat
  | r2e9 => 9
  | r2e10 => 10
  | r2e14 => 14

/-- The maximum number of members of a ring. -/
def ringCapacity : RingExponent → Nat
  | r2e9 => 255
  | r2e10 => 767
  | r2e14 => 16127

def maxRingExponent : RingExponent := r2e14

theorem ringCapacity_pos (e : RingExponent) : 0 < e.ringCapacity := by cases e <;> decide

theorem ringCapacity_le (e : RingExponent) : e.ringCapacity ≤ 16127 := by cases e <;> decide

end RingExponent

inductive RingMode
  | appendOnly
  | flexible
  deriving DecidableEq, Repr

/-- How many keys a ring has and how many of them its root includes. -/
structure RingStatus where
  total : Nat
  included : Nat
  immutableSince : Option Nat
  deriving DecidableEq, Repr

instance : Inhabited RingStatus := ⟨⟨0, 0, none⟩⟩

@[simp] theorem RingStatus.default_total : (default : RingStatus).total = 0 := rfl

@[simp] theorem RingStatus.default_included : (default : RingStatus).included = 0 := rfl

inductive RingPosition
  | onboarding (queuePage : QueuePageIndex) (queuedAt : Nat)
  | included (ringIndex : Nat) (ringPage : Nat) (ringPosition : Nat)
  | suspended
  deriving DecidableEq, Repr

def RingPosition.isSuspended : RingPosition → Bool
  | suspended => true
  | _ => false

inductive RingMutationMode
  | appendOnly
  | mutating (sessions : Nat)
  deriving DecidableEq, Repr

/-- The state of all rings of a collection. -/
structure RingMembersState where
  mode : RingMutationMode
  deriving DecidableEq, Repr

instance : Inhabited RingMembersState := ⟨⟨.appendOnly⟩⟩

namespace RingMembersState

def appendOnly (s : RingMembersState) : Bool :=
  match s.mode with
  | .appendOnly => true
  | .mutating _ => false

def mutating (s : RingMembersState) : Bool :=
  match s.mode with
  | .appendOnly => false
  | .mutating _ => true

theorem eq_default {s : RingMembersState} (h : s.appendOnly = true) : s = default := by
  obtain ⟨mode⟩ := s
  cases mode with
  | appendOnly => rfl
  | mutating n => cases h

/-- One more session; the count is eight bits wide. -/
def startMutationSession (s : RingMembersState) : Option RingMembersState :=
  match s.mode with
  | .appendOnly => some ⟨.mutating 1⟩
  | .mutating n => if n < 255 then some ⟨.mutating (n + 1)⟩ else none

def endMutationSession (s : RingMembersState) : Option RingMembersState :=
  match s.mode with
  | .appendOnly => none
  | .mutating 1 => some ⟨.appendOnly⟩
  | .mutating n => some ⟨.mutating (n - 1)⟩

end RingMembersState

/-! ### Configuration -/

/-- The ring-VRF. Pushing keys, where it succeeds, pushes them one after the other; `lookup`
gives the static chunks it needs. -/
structure GenerateVerifiable where
  Member : Type
  RingMembers : Type
  Intermediate : Type
  Capacity : Type
  StaticChunk : Type
  Proof : Type
  Context : Type
  Message : Type
  Alias : Type
  memberDecEq : DecidableEq Member
  ringMembersDecEq : DecidableEq RingMembers
  intermediateDecEq : DecidableEq Intermediate
  startMembers : Capacity → Intermediate
  pushMember : Intermediate → Member → Intermediate
  pushMembers : Intermediate → List Member → (Nat → Nat → Option (List StaticChunk)) →
    Option Intermediate
  finishMembers : Intermediate → RingMembers
  isMemberValid : Member → Bool
  validate : Capacity → Proof → RingMembers → Context → Message → Option Alias
  pushMembers_eq : ∀ i ks lookup j, pushMembers i ks lookup = some j → j = ks.foldl pushMember i

/-- What the pallet is configured with. -/
structure Config where
  crypto : GenerateVerifiable
  Location : Type
  AccountId : Type
  locationDecEq : DecidableEq Location
  accountDecEq : DecidableEq AccountId
  capacity : RingExponent → Option crypto.Capacity
  maxCollections : Nat
  onboardingQueuePageSize : Nat
  maxFlexibleRingExponent : RingExponent
  ringBuildingMemberLimit : Nat
  oldRootRetentionDuration : Nat
  onboardingQueuePageSize_le : onboardingQueuePageSize ≤ U32.max
  -- The integrity test.
  onboardingQueuePageSize_pos : 0 < onboardingQueuePageSize
  ringBuildingMemberLimit_le : ringBuildingMemberLimit ≤ maxFlexibleRingExponent.ringCapacity
  capacity_isSome : ∀ e, (capacity e).isSome = true

namespace Config
variable (T : Config)

abbrev Member : Type := T.crypto.Member
abbrev RingMembers : Type := T.crypto.RingMembers
abbrev Intermediate : Type := T.crypto.Intermediate

instance : DecidableEq T.Member := T.crypto.memberDecEq

instance : LawfulBEq T.Member := inferInstance
instance : DecidableEq T.RingMembers := T.crypto.ringMembersDecEq
instance : DecidableEq T.Intermediate := T.crypto.intermediateDecEq
instance : DecidableEq T.Location := T.locationDecEq
instance : DecidableEq T.AccountId := T.accountDecEq

/-- The capacity of a flexible ring, which is also the size of a page of ring keys. -/
def flexibleRingCapacity : Nat := T.maxFlexibleRingExponent.ringCapacity

theorem flexibleRingCapacity_pos : 0 < T.flexibleRingCapacity :=
  T.maxFlexibleRingExponent.ringCapacity_pos

theorem flexibleRingCapacity_le : T.flexibleRingCapacity ≤ 16127 :=
  T.maxFlexibleRingExponent.ringCapacity_le

end Config

variable (T : Config)

/-- A page of ring keys. -/
abbrev RingPage := BoundedVec T.Member T.flexibleRingCapacity
/-- A page of the onboarding queue. -/
abbrev QueuePage := BoundedVec T.Member T.onboardingQueuePageSize

inductive CollectionOwner
  | external (location : T.Location)
  | local (account : T.AccountId)
  deriving DecidableEq

structure CollectionInfo where
  owner : CollectionOwner T
  mode : RingMode
  ringSize : RingExponent
  selfInclusionDelay : Option Nat
  deriving DecidableEq

/-- The root of a ring: the commitment, its revision, and the value building resumes from. -/
structure RingRoot where
  root : T.RingMembers
  revision : Nat
  intermediate : T.Intermediate
  deriving DecidableEq

/-- A root that was replaced or removed, kept for the retention period. -/
structure OldRoot where
  root : T.RingMembers
  archivedAt : Nat
  deriving DecidableEq

inductive Error
  | notMember
  | noRoot
  | invalidProof
  | tooManyMembers
  | keyAlreadyInUse
  | keyNotFound
  | couldNotPush
  | invalidRing
  | suspensionsPending
  | ringAboveMergeThreshold
  | invalidSuspensions
  | noRemovalSession
  | couldNotStartRemovalSession
  | removalSessionInProgress
  | keyAlreadySuspended
  | invalidOnboardingSize
  | invalidMemberKey
  | collectionNotFound
  | collectionAlreadyExists
  | tooManyCollections
  | invalidRingSizeForFlexible
  | invalidRingExponent
  | prematureOnboarding
  | collectionMarkedForDeletion
  | notCollectionOwner
  | notOnboarding
  | overflow
  /-- An `expect` that failed: the call traps. -/
  | trap
  /-- An authorization that found the call out of date, or early. -/
  | stale
  | future
  deriving DecidableEq, Repr

end Individuality.Members
