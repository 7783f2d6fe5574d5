import Individuality.Notifier.Store
import Individuality.Support.Runs

/-! The notifier's calls.

Subscribing and unsubscribing are signed, requesting a replay is open to anyone,
and the rest is submitted by the offchain worker and checked before it is
dispatched; `onRingRootChange` is called by the pallet that owns the ring roots.
A call leaves a store and the messages that the router took. -/
namespace Individuality.Notifier
open Support Replication
open Members (Identifier RingExponent)
variable {R : Type} {T : Config R}

inductive Call {R : Type} (T : Config R)
  | subscribe (paraId : ParaId) (collections : Collections T) (palletIndex : Nat)
  | unsubscribe (paraId : ParaId) (fromSubscriber : Bool)
  | requestReplay (paraId : ParaId) (identifier : Identifier)
      (ringRootIndices : BoundedVec Nat T.maxUpdatesPerBatch)
  | enqueueUpdates (sendPage : UpdatesPageIndex)
  | sendBatch (paraId : ParaId) (sequence : Nat)
  | sendInitPage (paraId : ParaId) (currentCollectionIndex : Nat) (afterRingIndex : Option Nat)
  | abandonStuckBatch
  | onRingRootChange (identifier : Identifier) (ringIndex : Nat)

/-- The messages that were sent, in order. -/
abbrev Outbox {R : Type} (T : Config R) : Type := List (ParaId × Message T)

namespace Store
variable (env : Env T) (s : Store T)

/-! ### Subscriptions -/

def registerForInit (paraId : ParaId) (collections : Collections T) (palletIndex : Nat) : Store T :=
  { s with
    subscribers := s.subscribers.insert paraId ⟨collections, s.sealedBatchSequence, palletIndex⟩
    pendingInit := s.pendingInit.insert paraId
      ⟨collections, 0, none, s.sealedBatchSequence, env.now, palletIndex⟩ }

def subscribe (paraId : ParaId) (collections : Collections T) (palletIndex : Nat) :
    Except Error (Store T) := do
  ensure (s.subscribers.contains paraId = false) .alreadySubscribed
  ensure (s.subscribers.size < T.maxSubscribers) .tooManySubscribers
  ensure (collections.toList.IsChain fun a b => a.1.toList < b.1.toList) .invalidCollectionsList
  .ok (s.registerForInit env paraId collections palletIndex)

/-- Take a subscriber that left out of the current batch. -/
def leaveBatch (paraId : ParaId) (info : SubscriberInfo T) : Store T :=
  match s.currentBatch with
  | none => s
  | some batch =>
    if s.subscribersWithCurrentBatch.contains paraId then
      { s with subscribersWithCurrentBatch := s.subscribersWithCurrentBatch.remove paraId }
    -- Only a subscriber that was counted is taken off the count.
    else if info.lastInitSequence < batch.sequence ∧ 0 < batch.remainingSubscribers then
      s.putRemaining batch (batch.remainingSubscribers - 1)
    else s

def withdraw (paraId : ParaId) (info : SubscriberInfo T) : Store T :=
  { s with
    lastReplayTime := s.lastReplayTime.removeAll
      (info.collections.toList.map fun (collection : Identifier × RingExponent) => (paraId, collection.1))
    subscribers := s.subscribers.remove paraId
    pendingInit := s.pendingInit.remove paraId }

/-- Governance notifies the subscriber; one that asked for it itself knows. -/
def terminationNotice (paraId : ParaId) (fromSubscriber : Bool) : Outbox T :=
  if !fromSubscriber && env.router paraId .terminateSubscription then
    [(paraId, .terminateSubscription)]
  else []

def unsubscribe (paraId : ParaId) (fromSubscriber : Bool) : Except Error (Store T × Outbox T) := do
  let info ← okOr (s.subscribers.get paraId) .subscriberNotFound
  .ok ((s.withdraw paraId info).leaveBatch paraId info, terminationNotice env paraId fromSubscriber)

/-- Note the time of a replay. -/
def replayedAt (paraId : ParaId) (identifier : Identifier) : Store T :=
  { s with lastReplayTime := s.lastReplayTime.insert (paraId, identifier) env.now }

def requestReplay (paraId : ParaId) (identifier : Identifier)
    (ringRootIndices : BoundedVec Nat T.maxUpdatesPerBatch) : Except Error (Store T × Outbox T) := do
  ensure (ringRootIndices.toList ≠ []) .emptyRingIndices
  let info ← okOr (s.subscribers.get paraId) .subscriberNotFound
  ensure (∃ collection ∈ info.collections.toList, collection.1 = identifier)
    .notSubscribedToCollection
  let next := env.provider.nextRingIndex identifier
  ensure (ringRootIndices.toList.IsChain (· < ·) ∧ ∀ last ∈ ringRootIndices.toList.getLast?, last < next)
    .invalidRingIndex
  let maxPerXcm ← okOr (maxUpdatesPerXcm env paraId) .xcmSendFailed
  ensure (ringRootIndices.length ≤ maxPerXcm) .exceedsChannelCapacity
  ensure (∀ last ∈ s.lastReplayTime.get (paraId, identifier), T.replayCooldownSeconds ≤ env.now - last)
    .replayCooldownActive
  let updates ← okOr (BoundedVec.tryFrom
    (resolveUpdatesForIndices env identifier ringRootIndices.toList)) .tooManyUpdates
  let message := .updateRingRoots ⟨identifier, s.sealedBatchSequence, env.now, updates, next⟩
  ensure (env.router paraId message = true) .xcmSendFailed
  .ok (s.replayedAt env paraId identifier, [(paraId, message)])

/-! ### Sealing -/

def authorizeEnqueueUpdates (sendPage : UpdatesPageIndex) : Except Error Unit := do
  ensure (s.currentBatch = none) .batchInProgress
  ensure (¬ sendPage < s.pageState.sendPage) .stale
  ensure (¬ s.pageState.sendPage < sendPage) .future
  ensure (s.hasProcessableUpdates env.block = true) .noPendingWork

/-- Seal the send page into the current batch; without subscribers it is only cleared. -/
def enqueueUpdates : Store T :=
  let writePage := s.pageState.writePage
  let sendPage := s.pageState.sendPage
  let remaining := s.subscribers.size
  if remaining = 0 then (s.sealWritePage sendPage writePage).cleanupSendBuffer env.block sendPage
  else
    let s := s.sealWritePage sendPage writePage
    let sequence := U64.saturatingAdd s.sealedBatchSequence 1
    let s := { s with sealedBatchSequence := sequence }
    let s := { s with
      sealedBatchIndices := (s.changedIndices sendPage).foldl sealIndices s.sealedBatchIndices }
    let s := s.cleanupSendBuffer env.block sendPage
    { s with currentBatch := some ⟨sequence, env.now, env.block, remaining⟩ }

/-! ### Sending -/

def authorizeSendBatch (paraId : ParaId) (sequence : Nat) : Except Error Unit := do
  let batch ← okOr s.currentBatch .noBatchActive
  ensure (¬ sequence < batch.sequence) .stale
  ensure (¬ batch.sequence < sequence) .future
  ensure (batch.remainingSubscribers ≠ 0) .noBatchActive
  ensure (s.subscribersWithCurrentBatch.contains paraId = false) .alreadySent
  let info ← okOr (s.subscribers.get paraId) .subscriberNotFound
  ensure (¬ batch.sequence ≤ info.lastInitSequence) .stale

/-- The messages that bring the current batch to a subscriber. -/
def batchMessages (batch : BatchDistributionState) (info : SubscriberInfo T) (sequence maxPerXcm : Nat) :
    List (Message T) :=
  info.collections.toList.flatMap fun collection =>
    updateBatches env collection.1 (s.sealedIndices collection.1) sequence batch.sourceTime maxPerXcm

/-- Record a subscriber as served. -/
def markServed (batch : BatchDistributionState) (paraId : ParaId) : Store T :=
  { s with subscribersWithCurrentBatch := s.subscribersWithCurrentBatch.insert paraId () }.putRemaining
    batch (batch.remainingSubscribers - 1)

/-- Send the current batch to a subscriber. A subscriber without channel capacity is skipped; one
to which a message could not be sent gets the whole batch again. -/
def sendBatch (paraId : ParaId) (sequence : Nat) : Except Error (Store T × Outbox T) := do
  let batch ← okOr s.currentBatch .noBatchActive
  let info ← okOr (s.subscribers.get paraId) .subscriberNotFound
  let maxPerXcm := (maxUpdatesPerXcm env paraId).getD 0
  if maxPerXcm = 0 then .ok (s.markServed batch paraId, [])
  else
    let messages := s.batchMessages env batch info sequence maxPerXcm
    let sent := (messages.filter (env.router paraId)).map fun message => (paraId, message)
    if messages.all (env.router paraId) then .ok (s.markServed batch paraId, sent)
    else .ok (s, sent)

def authorizeSendInitPage (paraId : ParaId) (currentCollectionIndex : Nat)
    (afterRingIndex : Option Nat) : Except Error Unit := do
  let state ← okOr (s.pendingInit.get paraId) .noPendingInit
  ensure (¬ currentCollectionIndex < state.currentCollectionIndex) .stale
  ensure (¬ state.currentCollectionIndex < currentCollectionIndex) .future
  ensure (¬ Option.lt (· < ·) afterRingIndex state.afterRingIndex) .stale
  ensure (¬ Option.lt (· < ·) state.afterRingIndex afterRingIndex) .future

/-- Where an initialization goes on after a page. -/
def advanceInitPagination (paraId : ParaId) (state : PendingInitState T) (mightHaveMore : Bool)
    (lastReturnedIndex : Option Nat) : Store T :=
  if mightHaveMore then
    let state := { state with afterRingIndex := lastReturnedIndex }
    { s with pendingInit := s.pendingInit.insert paraId state }
  else if state.currentCollectionIndex < state.collections.length - 1 then
    let state := { state with
      currentCollectionIndex := U32.saturatingAdd state.currentCollectionIndex 1
      afterRingIndex := none }
    { s with pendingInit := s.pendingInit.insert paraId state }
  else { s with pendingInit := s.pendingInit.remove paraId }

/-- Send one page of an initialization; where that fails it is tried again later. -/
def sendInitPage (paraId : ParaId) : Except Error (Store T × Outbox T) := do
  let state ← okOr (s.pendingInit.get paraId) .noPendingInit
  match maxUpdatesPerXcm env paraId with
  | none => .ok (s, [])
  | some maxPerXcm =>
    match state.collections.toList[state.currentCollectionIndex]? with
    | none => .ok ({ s with pendingInit := s.pendingInit.remove paraId }, [])
    | some (collection, ringExponent) =>
      let roots := env.provider.getRingRootsPaginated T.storageKey collection state.afterRingIndex
        maxPerXcm
      let message := .initializeRingRoots ringExponent (initBatch env state collection roots)
      if env.router paraId message then
        .ok (s.advanceInitPagination paraId state (roots.length = maxPerXcm)
          (roots.getLast?.map Prod.fst), [(paraId, message)])
      else .ok (s, [])

def authorizeAbandonStuckBatch : Except Error Unit := do
  let batch ← okOr s.currentBatch .noBatchActive
  ensure (¬ env.block - batch.sealedAt < T.stuckBatchTimeout) .batchNotStuck

/-! ### Calls -/

def exec : Call T → Except Error (Store T × Outbox T)
  | .subscribe paraId collections palletIndex => do
    .ok (← s.subscribe env paraId collections palletIndex, [])
  | .unsubscribe paraId fromSubscriber => s.unsubscribe env paraId fromSubscriber
  | .requestReplay paraId identifier indices => s.requestReplay env paraId identifier indices
  | .enqueueUpdates sendPage => do
    s.authorizeEnqueueUpdates env sendPage
    .ok (s.enqueueUpdates env, [])
  | .sendBatch paraId sequence => do
    s.authorizeSendBatch paraId sequence
    s.sendBatch env paraId sequence
  | .sendInitPage paraId currentCollectionIndex afterRingIndex => do
    s.authorizeSendInitPage paraId currentCollectionIndex afterRingIndex
    s.sendInitPage env paraId
  | .abandonStuckBatch => do
    s.authorizeAbandonStuckBatch env
    .ok (s.clearBatch, [])
  | .onRingRootChange identifier ringIndex => .ok (s.onRingRootChange identifier ringIndex, [])

end Store

/-- One call, under whatever it finds around it. -/
abbrev Action {R : Type} (T : Config R) : Type := Env T × Call T

/-- The notifier on its own: its messages leave it. -/
def Store.execAction (s : Store T) (a : Action T) : Except Error (Store T) :=
  (s.exec a.1 a.2).map Prod.fst

/-! ### A small notifier -/

/-- Pages of two keys, and one collection. -/
def sampleConfig : Config Unit where
  maxSubscribers := 2
  maxUpdatesPerBatch := 2
  maxCollectionsPerSubscriber := 1
  maxCollections := 1
  updateTriggerBlocks := 10
  updateTriggerThreshold := 1
  stuckBatchTimeout := 100
  replayCooldownSeconds := 60
  xcmOverhead := 8
  updateMaxEncodedLen := 4
  storageKey _ ringIndex := ringIndex
  storageKey_injective _ _ _ h := h
  updateTriggerThreshold_le := by decide
  updateMaxEncodedLen_pos := by decide
  maxCollectionsPerSubscriber_le := by decide
  maxCollectionsPerSubscriber_le_updates := by decide
  txLongevity_lt := by decide
  maxUpdatesPerBatch_le := by decide
  maxSubscribers_le := by decide

/-- Open channels that take two updates at a time. -/
def sampleEnv : Env sampleConfig where
  block := 1
  now := 1
  provider := ⟨fun _ => ∅, fun _ => 0⟩
  channelInfo _ := some 16
  router _ _ := true

/-- The identifier of the `n`-th sample collection. -/
def sampleId (n : UInt8) : Identifier := Vector.replicate 32 n

/-- A subscription to the first sample collection. -/
def sampleCollections : Collections sampleConfig := ⟨[(sampleId 0, .r2e9)], by decide⟩

end Individuality.Notifier
