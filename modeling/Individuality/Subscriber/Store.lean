import Individuality.Replication.Types
import Individuality.Support.BoundedMap
import Individuality.Support.Outcome

/-! The members-subscriber pallet: its configuration and storage, and what a batch
of updates does to them.

For each ring the roots of the last revisions are kept. A ring below the next ring
index that is neither stored nor known to be deleted is noted as missing, with the
number of times it was asked for. -/
namespace Individuality.Subscriber
open Support Replication
open Members (Identifier RingExponent)

structure Config (R : Type) where
  selfParaId : ParaId
  maxMissingRootsPerCollection : Nat
  maxDeletedRingsPerCollection : Nat
  maxRingRootsPerCollection : Nat
  maxCollections : Nat
  replayCooldownSeconds : Nat
  maxUpdatesPerBatch : Nat
  replayWarningThreshold : Nat
  replayAbandonThreshold : Nat
  maxRecentRootsPerRing : Nat
  maxMissingRootsPerCollection_pos : 0 < maxMissingRootsPerCollection
  maxDeletedRingsPerCollection_pos : 0 < maxDeletedRingsPerCollection
  maxRingRootsPerCollection_pos : 0 < maxRingRootsPerCollection
  maxCollections_pos : 0 < maxCollections
  replayCooldownSeconds_pos : 0 < replayCooldownSeconds
  maxUpdatesPerBatch_pos : 0 < maxUpdatesPerBatch
  replayWarningThreshold_lt : replayWarningThreshold < replayAbandonThreshold
  maxRecentRootsPerRing_pos : 0 < maxRecentRootsPerRing

inductive Error
  | subscriptionInactive
  | subscriptionTerminated
  | subscriptionAlreadyActive
  -- Reasons for which an authorized call is not valid.
  | call
  | stale
  deriving DecidableEq, Repr

/-- A ring root received from the notifier. -/
structure RingCommitmentRecord {R : Type} (T : Config R) where
  root : R
  revision : Nat
  sourceTime : Nat
  sourceSequence : Nat

structure RingCollectionState {R : Type} (T : Config R) where
  /-- The number of rings with a root. -/
  ringCount : Nat
  nextRingIndex : Nat
  /-- Missing rings, each with the number of replay requests for it. -/
  missingIndices : BoundedMap Nat Nat T.maxMissingRootsPerCollection
  /-- Rings known to be deleted, which are not to be taken as missing. -/
  deletedIndices : BoundedMap Nat Unit T.maxDeletedRingsPerCollection

instance {R : Type} {T : Config R} : Inhabited (RingCollectionState T) := ⟨⟨0, 0, .empty, .empty⟩⟩

inductive SubscriptionStatus
  | inactive
  | active (initializedAtSequence : Nat)
  | terminated
  deriving DecidableEq, Repr

structure UpdatesProcessingState where
  lastProcessedSequence : Nat
  lastBatchReceivedTime : Nat
  lastReplayRequestTime : Nat
  deriving DecidableEq, Repr

/-- The recent roots of a ring, the newest last. -/
abbrev Window {R : Type} (T : Config R) : Type := BoundedVec (RingCommitmentRecord T) T.maxRecentRootsPerRing

structure Store {R : Type} (T : Config R) where
  ringRoots : StorageMap (Identifier × Nat) (Window T)
  ringCollectionStates : StorageMap Identifier (RingCollectionState T)
  ringCollectionExponents : StorageMap Identifier RingExponent
  subscription : SubscriptionStatus
  processingState : UpdatesProcessingState

/-- The store before the first call. -/
def Store.genesis {R : Type} (T : Config R) : Store T where
  ringRoots := ∅
  ringCollectionStates := ∅
  ringCollectionExponents := ∅
  subscription := .inactive
  processingState := ⟨0, 0, 0⟩

/-- A batch as the subscriber decodes it. -/
abbrev Batch {R : Type} (T : Config R) : Type := RingRootUpdatesBatch R T.maxUpdatesPerBatch

/-- The window with a root pushed; a full one loses its oldest. -/
def Window.push {R : Type} {T : Config R} (roots : Window T) (record : RingCommitmentRecord T) : Window T :=
  let roots := if T.maxRecentRootsPerRing ≤ roots.length then roots.remove 0 else roots
  (roots.tryPush record).getD roots

namespace Store
variable {R : Type} {T : Config R} (s : Store T)

/-- The state of a collection, the default one where there is none. -/
def collectionState (identifier : Identifier) : RingCollectionState T :=
  (s.ringCollectionStates.get identifier).getD default

def clearAllRingData : Store T :=
  { s with
    ringRoots := s.ringRoots.clear (fun _ => true)
      (U32.saturatingMul T.maxCollections T.maxRingRootsPerCollection)
    ringCollectionStates := s.ringCollectionStates.clear (fun _ => true) T.maxCollections
    ringCollectionExponents := s.ringCollectionExponents.clear (fun _ => true) T.maxCollections
    processingState := ⟨0, 0, 0⟩ }

/-- Store the root of a ring that was built. -/
def storeBuilt (batch : Batch T) (ringIndex revision : Nat) (root : R) : Store T :=
  let roots := (s.ringRoots.get (batch.identifier, ringIndex)).getD default
  let state := s.collectionState batch.identifier
  let ringCount := if roots.toList = [] then U32.saturatingAdd state.ringCount 1 else state.ringCount
  { s with
    ringRoots := s.ringRoots.insert (batch.identifier, ringIndex)
      (roots.push ⟨root, revision, batch.sourceTime, batch.sequence⟩)
    ringCollectionStates := s.ringCollectionStates.insert batch.identifier
      { state with ringCount, deletedIndices := state.deletedIndices.remove ringIndex } }

/-- Forget a ring that was deleted, and note it as such where there is room. -/
def storeDeleted (batch : Batch T) (ringIndex : Nat) : Store T :=
  let state := s.collectionState batch.identifier
  let ringCount := if s.ringRoots.contains (batch.identifier, ringIndex) then state.ringCount - 1
    else state.ringCount
  { s with
    ringRoots := s.ringRoots.remove (batch.identifier, ringIndex)
    ringCollectionStates := s.ringCollectionStates.insert batch.identifier
      { state with ringCount, deletedIndices := state.deletedIndices.set ringIndex () } }

/-- Take a ring off the missing ones. -/
def recover (identifier : Identifier) (ringIndex : Nat) : Store T :=
  let state := s.collectionState identifier
  { s with
    ringCollectionStates := s.ringCollectionStates.insert identifier
      { state with missingIndices := state.missingIndices.remove ringIndex } }

/-- Store one update. The ring is not missing any more, whatever became of it. -/
def storeUpdate (batch : Batch T) (s : Store T) (update : RingRootUpdate R) : Store T :=
  let s := s.recover batch.identifier update.ringIndex
  match update.op with
  | .built revision root => s.storeBuilt batch update.ringIndex revision root
  | .deleted => s.storeDeleted batch update.ringIndex

def raiseNextRingIndex (batch : Batch T) : Store T :=
  let state := s.collectionState batch.identifier
  { s with
    ringCollectionStates := s.ringCollectionStates.insert batch.identifier
      { state with nextRingIndex := max state.nextRingIndex batch.nextRingIndex } }

def storeRingRoots (batch : Batch T) : Store T :=
  batch.updates.toList.foldl (storeUpdate batch) (s.raiseNextRingIndex batch)

/-- Note the missing ones of some rings; the scan stops where there is no room for another. -/
def noteMissing (identifier : Identifier) (deleted : BoundedMap Nat Unit T.maxDeletedRingsPerCollection) :
    List Nat → BoundedMap Nat Nat T.maxMissingRootsPerCollection →
      BoundedMap Nat Nat T.maxMissingRootsPerCollection
  | [], missing => missing
  | index :: rest, missing =>
    if s.ringRoots.contains (identifier, index) || missing.contains index || deleted.contains index then
      noteMissing identifier deleted rest missing
    else
      match missing.tryInsert index 0 with
      | none => missing
      | some missing => noteMissing identifier deleted rest missing

/-- Note the rings that the batch made known and that are neither stored nor deleted. -/
def detectMissingRingsInBatch (identifier : Identifier) (oldNextRingIndex : Nat) : Store T :=
  let state := s.collectionState identifier
  if state.nextRingIndex ≤ U32.saturatingAdd state.ringCount state.deletedIndices.length then
    { s with
      ringCollectionStates := s.ringCollectionStates.insert identifier
        { state with missingIndices := .empty } }
  else if T.maxDeletedRingsPerCollection ≤ state.deletedIndices.length then s
  else
    { s with
      ringCollectionStates := s.ringCollectionStates.insert identifier
        { state with
          missingIndices := s.noteMissing identifier state.deletedIndices
            (List.range' oldNextRingIndex (state.nextRingIndex - oldNextRingIndex))
            state.missingIndices } }

def recordBatchProcessed (now sequence : Nat) : Store T :=
  { s with
    processingState := { s.processingState with
      lastBatchReceivedTime := now
      lastProcessedSequence := sequence } }

/-- Take a batch in. -/
def applyBatch (now : Nat) (batch : Batch T) : Store T :=
  let oldNextRingIndex := (s.collectionState batch.identifier).nextRingIndex
  ((s.storeRingRoots batch).detectMissingRingsInBatch batch.identifier
    oldNextRingIndex).recordBatchProcessed now batch.sequence

end Store
end Individuality.Subscriber
