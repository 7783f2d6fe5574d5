import Individuality.Replication.Types
import Individuality.Support.Outcome

/-! The members-notifier pallet: its configuration and storage.

Changed ring roots are noted as keys, in pages of pending updates; a page is
sealed into the current batch, which is sent to one subscriber at a time. The
pages' numbers wrap around. `Config` holds the constants with the facts that the
pallet's integrity test asserts of them as fields; `R` is the type of ring roots. -/
namespace Individuality.Notifier
open Support Replication
open Members (Identifier RingExponent)

structure Config (R : Type) where
  maxSubscribers : Nat
  maxUpdatesPerBatch : Nat
  maxCollectionsPerSubscriber : Nat
  maxCollections : Nat
  updateTriggerBlocks : Nat
  updateTriggerThreshold : Nat
  stuckBatchTimeout : Nat
  replayCooldownSeconds : Nat
  /-- The encoded length of a message without updates, and of the longest update. -/
  xcmOverhead : Nat
  updateMaxEncodedLen : Nat
  /-- The place of a ring root in the provider's storage. -/
  storageKey : Identifier → Nat → Nat
  storageKey_injective : ∀ identifier, Function.Injective (storageKey identifier)
  updateTriggerThreshold_le : updateTriggerThreshold ≤ maxUpdatesPerBatch
  updateMaxEncodedLen_pos : 0 < updateMaxEncodedLen
  maxCollectionsPerSubscriber_le : maxCollectionsPerSubscriber ≤ maxCollections
  maxCollectionsPerSubscriber_le_updates : maxCollectionsPerSubscriber ≤ maxUpdatesPerBatch
  txLongevity_lt : 64 < stuckBatchTimeout
  maxUpdatesPerBatch_le : maxUpdatesPerBatch ≤ U32.max
  maxSubscribers_le : maxSubscribers ≤ U32.max

inductive Error
  | subscriberNotFound
  | alreadySubscribed
  | tooManySubscribers
  | invalidCollectionsList
  | tooManyUpdates
  | xcmSendFailed
  | notSubscribedToCollection
  | invalidRingIndex
  | exceedsChannelCapacity
  | noBatchActive
  | noPendingInit
  | replayCooldownActive
  | emptyRingIndices
  -- Reasons for which an authorized call is not valid.
  | batchInProgress
  | noPendingWork
  | alreadySent
  | batchNotStuck
  | stale
  | future
  deriving DecidableEq, Repr

/-- The collections a subscriber asked for. -/
abbrev Collections {R : Type} (T : Config R) : Type :=
  BoundedVec (Identifier × RingExponent) T.maxCollectionsPerSubscriber

structure SubscriberInfo {R : Type} (T : Config R) where
  collections : Collections T
  /-- The sequence of the last batch sealed when the subscriber was registered. -/
  lastInitSequence : Nat
  palletIndex : Nat

structure PagingState where
  writePage : UpdatesPageIndex
  sendPage : UpdatesPageIndex
  lastUpdateBlock : Nat
  deriving DecidableEq, Repr

structure BatchDistributionState where
  sequence : Nat
  sourceTime : Nat
  sealedAt : Nat
  /-- Subscribers still waiting for this batch. -/
  remainingSubscribers : Nat
  deriving DecidableEq, Repr

structure PendingInitState {R : Type} (T : Config R) where
  collections : Collections T
  currentCollectionIndex : Nat
  /-- The ring index after which the next page starts. -/
  afterRingIndex : Option Nat
  sequence : Nat
  sourceTime : Nat
  palletIndex : Nat

structure Store {R : Type} (T : Config R) where
  subscribers : StorageMap ParaId (SubscriberInfo T)
  sealedBatchSequence : Nat
  pageState : PagingState
  pendingUpdates : StorageMap (UpdatesPageIndex × Identifier × Nat) Unit
  pageUpdatesCount : StorageMap UpdatesPageIndex Nat
  pendingInit : StorageMap ParaId (PendingInitState T)
  sealedBatchIndices : StorageMap Identifier (BoundedVec Nat T.maxUpdatesPerBatch)
  currentBatch : Option BatchDistributionState
  subscribersWithCurrentBatch : StorageMap ParaId Unit
  lastReplayTime : StorageMap (ParaId × Identifier) Nat

/-- The store before the first call. -/
def Store.genesis {R : Type} (T : Config R) : Store T where
  subscribers := ∅
  sealedBatchSequence := 0
  pageState := ⟨0, 0, 0⟩
  pendingUpdates := ∅
  pageUpdatesCount := ∅
  pendingInit := ∅
  sealedBatchIndices := ∅
  currentBatch := none
  subscribersWithCurrentBatch := ∅
  lastReplayTime := ∅

/-- A message to a subscriber. -/
abbrev Message {R : Type} (T : Config R) : Type := SubscriberCall R T.maxUpdatesPerBatch

/-- What a call finds around it: the clock, the ring roots, the open channels with the size of
the largest message each takes, and whether the router takes a message. -/
structure Env {R : Type} (T : Config R) where
  block : Nat
  now : Nat
  provider : RingRootsProvider R
  channelInfo : ParaId → Option Nat
  router : ParaId → Message T → Bool

namespace Store
variable {R : Type} {T : Config R} (s : Store T)

def pageCount (page : UpdatesPageIndex) : Nat := (s.pageUpdatesCount.get page).getD 0

/-- The keys noted on a page. -/
def pageUpdates (page : UpdatesPageIndex) : List (Identifier × Nat) :=
  (s.pendingUpdates.keys.filter fun k => k.1 = page).map Prod.snd

def sealedIndices (identifier : Identifier) : List Nat :=
  ((s.sealedBatchIndices.get identifier).map BoundedVec.toList).getD []

/-! ### Pages -/

/-- Clear the send page, and advance to the next one. -/
def cleanupSendBuffer (block : Nat) (sendPage : UpdatesPageIndex) : Store T :=
  { s with
    pendingUpdates := s.pendingUpdates.clear (fun k => k.1 = sendPage) T.maxUpdatesPerBatch
    pageUpdatesCount := s.pageUpdatesCount.remove sendPage
    pageState := { s.pageState with
      sendPage := s.pageState.sendPage + 1#16
      lastUpdateBlock := block } }

/-- Advance the write page when it is the one being sent. -/
def sealWritePage (sendPage writePage : UpdatesPageIndex) : Store T :=
  if sendPage = writePage then
    { s with pageState := { s.pageState with writePage := s.pageState.writePage + 1#16 } }
  else s

def hasProcessableUpdates (block : Nat) : Bool :=
  if s.pageState.sendPage ≠ s.pageState.writePage then true
  else
    let count := s.pageCount s.pageState.writePage
    if count = 0 then false
    else decide (T.updateTriggerBlocks ≤ block - s.pageState.lastUpdateBlock ∨
      T.updateTriggerThreshold ≤ count)

/-- `on_ring_root_change`: note the key on the write page, or on the next one when that is full. -/
def onRingRootChange (identifier : Identifier) (ringIndex : Nat) : Store T :=
  let page := s.pageState.writePage
  if s.pendingUpdates.contains (page, identifier, ringIndex) then s
  else
    let (page, s) :=
      if T.maxUpdatesPerBatch ≤ s.pageCount page then
        (page + 1#16, { s with pageState := { s.pageState with writePage := page + 1#16 } })
      else (page, s)
    { s with
      pendingUpdates := s.pendingUpdates.insert (page, identifier, ringIndex) ()
      pageUpdatesCount := s.pageUpdatesCount.insert page (U32.saturatingAdd (s.pageCount page) 1) }

/-! ### Batches -/

/-- Forget the current batch. A clear removes as many entries as its limit allows. -/
def clearBatch : Store T :=
  { s with
    currentBatch := none
    sealedBatchIndices := s.sealedBatchIndices.clear (fun _ => true) T.maxCollections
    subscribersWithCurrentBatch :=
      s.subscribersWithCurrentBatch.clear (fun _ => true) T.maxSubscribers }

/-- The keys of a page, by collection, in ascending order. -/
def changedIndices (page : UpdatesPageIndex) : List (Identifier × List Nat) :=
  ((s.pageUpdates page).map Prod.fst).dedup.map fun identifier =>
    (identifier, (((s.pageUpdates page).filter fun u => u.1 = identifier).map Prod.snd).insertionSort
      (· ≤ ·))

/-- Store the indices of one collection; what exceeds the bound is cut off. -/
def sealIndices (sealed : StorageMap Identifier (BoundedVec Nat T.maxUpdatesPerBatch))
    (changed : Identifier × List Nat) : StorageMap Identifier (BoundedVec Nat T.maxUpdatesPerBatch) :=
  sealed.insert changed.1 ⟨changed.2.take T.maxUpdatesPerBatch, List.length_take_le _ _⟩

/-- Count down the subscribers of the batch; the last one ends it. -/
def putRemaining (batch : BatchDistributionState) (remaining : Nat) : Store T :=
  if remaining = 0 then s.clearBatch
  else { s with currentBatch := some { batch with remainingSubscribers := remaining } }

end Store

/-! ### Messages -/

section Messages
variable {R : Type} {T : Config R} (env : Env T)

/-- The number of updates that fit one message to the subscriber. -/
def maxUpdatesPerXcm (paraId : ParaId) : Option Nat :=
  (env.channelInfo paraId).bind fun maxPayload =>
    let count := (maxPayload - T.xcmOverhead) / T.updateMaxEncodedLen
    if count = 0 then none else some (min count T.maxUpdatesPerBatch)

/-- The updates for some indices, given the roots found for them: the others are gone. -/
def matchRoots : List Nat → List (Nat × ProvidedRoot R) → List (RingRootUpdate R)
  | [], _ => []
  | index :: rest, [] => ⟨index, .deleted⟩ :: matchRoots rest []
  | index :: rest, root :: roots =>
    if root.1 = index then ⟨index, .built root.2.revision root.2.root⟩ :: matchRoots rest roots
    else ⟨index, .deleted⟩ :: matchRoots rest (root :: roots)

def resolveUpdatesForIndices (identifier : Identifier) (indices : List Nat) :
    List (RingRootUpdate R) :=
  matchRoots indices (env.provider.getRingRoots identifier indices)

/-- The messages that carry the changes of one collection. -/
def updateBatches (identifier : Identifier) (indices : List Nat) (sequence sourceTime maxPerXcm : Nat) :
    List (Message T) :=
  (chunks maxPerXcm (resolveUpdatesForIndices env identifier indices)).filterMap fun chunk =>
    (BoundedVec.tryFrom chunk).map fun updates =>
      .updateRingRoots ⟨identifier, sequence, sourceTime, updates, env.provider.nextRingIndex identifier⟩

/-- The page of roots that comes next in an initialization, as updates. -/
def initBatch (state : PendingInitState T) (identifier : Identifier)
    (roots : List (Nat × ProvidedRoot R)) :
    RingRootUpdatesBatch R T.maxUpdatesPerBatch where
  identifier := identifier
  sequence := state.sequence
  sourceTime := state.sourceTime
  updates :=
    ⟨(roots.map fun r => ⟨r.1, .built r.2.revision r.2.root⟩).take T.maxUpdatesPerBatch,
      List.length_take_le _ _⟩
  nextRingIndex := env.provider.nextRingIndex identifier

end Messages
end Individuality.Notifier
