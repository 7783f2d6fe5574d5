import Individuality.Subscriber.Store
import Individuality.Support.Runs
import Mathlib.Data.List.Dedup

/-! The subscriber's calls.

The notifier initializes and updates the ring roots; governance or the notifier
terminates the subscription; the offchain worker asks for what is missing. -/
namespace Individuality.Subscriber
open Support Replication
open Members (Identifier RingExponent)
variable {R : Type} {T : Config R}

/-- A call the subscriber makes on the notifier's chain. -/
inductive NotifierCall
  | unsubscribe
  | requestReplay (paraId : ParaId) (identifier : Identifier) (ringRootIndices : List Nat)
  deriving DecidableEq

/-- What a call finds around it: the clock, and whether the sender takes a message. -/
structure Env where
  now : Nat
  sender : NotifierCall → Bool

inductive Call {R : Type} (T : Config R)
  | initializeRingRoots (ringExponent : RingExponent) (roots : Batch T)
  | processRingUpdates (batch : Batch T)
  | terminateSubscription (fromNotifier : Bool)
  | replayMissingRoots (identifier : Identifier)
      (indices : BoundedVec Nat T.maxMissingRootsPerCollection)

namespace Store
variable (env : Env) (s : Store T)

/-! ### Batches -/

/-- Store roots of an initialization, and be active from its sequence on. -/
def storeInitial (ringExponent : RingExponent) (roots : Batch T) : Store T :=
  let s := s.applyBatch env.now roots
  { s with
    subscription := .active roots.sequence
    ringCollectionExponents := s.ringCollectionExponents.insert roots.identifier ringExponent }

/-- A higher sequence starts over; the same sequence goes on. -/
def initializeRingRoots (ringExponent : RingExponent) (roots : Batch T) : Except Error (Store T) :=
  match s.subscription with
  | .active initializedAtSequence =>
    if roots.sequence < initializedAtSequence then .error .subscriptionAlreadyActive
    else if initializedAtSequence < roots.sequence then
      .ok (s.clearAllRingData.storeInitial env ringExponent roots)
    else .ok (s.storeInitial env ringExponent roots)
  | _ => .ok (s.storeInitial env ringExponent roots)

def ensureSubscriptionActive : Except Error Unit :=
  match s.subscription with
  | .active _ => .ok ()
  | .inactive => .error .subscriptionInactive
  | .terminated => .error .subscriptionTerminated

/-- Take in a batch; an old one is ignored. -/
def processRingUpdates (batch : Batch T) : Except Error (Store T) := do
  s.ensureSubscriptionActive
  if batch.sequence < s.processingState.lastProcessedSequence then .ok s
  else .ok (s.applyBatch env.now batch)

def terminateSubscription (fromNotifier : Bool) : Except Error (Store T × List NotifierCall) :=
  match s.subscription with
  | .inactive => .error .subscriptionInactive
  | .terminated => .ok (s, [])
  | .active _ =>
    let sent := if !fromNotifier && env.sender .unsubscribe then [.unsubscribe] else []
    .ok ({ s.clearAllRingData with subscription := .terminated }, sent)

/-! ### Replays -/

/-- Count an attempt to recover a missing ring, which is given up when there were too many. -/
def countAttempt (acc : BoundedMap Nat Nat T.maxMissingRootsPerCollection × List Nat) (index : Nat) :
    BoundedMap Nat Nat T.maxMissingRootsPerCollection × List Nat :=
  match acc.1.get index with
  | none => acc
  | some replayAttempts =>
    if T.replayAbandonThreshold ≤ U32.saturatingAdd replayAttempts 1 then (acc.1.remove index, acc.2)
    else (acc.1.set index (U32.saturatingAdd replayAttempts 1), acc.2 ++ [index])

/-- The missing rings after an attempt for some of them, and those to ask for. -/
def countAttempts (missing : BoundedMap Nat Nat T.maxMissingRootsPerCollection) (indices : List Nat) :
    BoundedMap Nat Nat T.maxMissingRootsPerCollection × List Nat :=
  indices.foldl countAttempt (missing, [])

/-- The replay requests for some rings, in chunks. -/
def replayRequests (identifier : Identifier) (toSend : List Nat) : List NotifierCall :=
  (chunks T.maxUpdatesPerBatch toSend).map fun chunk => .requestReplay T.selfParaId identifier chunk

/-- Ask for some missing rings of a collection, up to the first message that is not taken. -/
def processCollectionReplay (identifier : Identifier) (indices : List Nat) :
    Store T × List NotifierCall :=
  let state := s.collectionState identifier
  if indices = [] ∨ state.missingIndices.isEmpty = true then (s, [])
  else
    let (missing, toSend) := countAttempts state.missingIndices indices
    let s := { s with
      ringCollectionStates := s.ringCollectionStates.insert identifier
        { state with missingIndices := missing } }
    (s, (replayRequests (T := T) identifier toSend).takeWhile env.sender)

def authorizeReplayMissingRoots (identifier : Identifier) (indices : List Nat) : Except Error Unit := do
  ensure (s.ensureSubscriptionActive.toOption.isSome = true) .call
  ensure (¬ env.now - s.processingState.lastReplayRequestTime < T.replayCooldownSeconds) .stale
  ensure (∃ index ∈ indices, (s.collectionState identifier).missingIndices.contains index = true) .stale

/-- The rings are asked for in ascending order, each once. -/
def replayMissingRoots (identifier : Identifier) (indices : List Nat) : Store T × List NotifierCall :=
  let (s, sent) := s.processCollectionReplay env identifier (indices.dedup.insertionSort (· ≤ ·))
  if sent = [] then (s, [])
  else ({ s with processingState := { s.processingState with lastReplayRequestTime := env.now } }, sent)

/-! ### Calls -/

def exec : Call T → Except Error (Store T × List NotifierCall)
  | .initializeRingRoots ringExponent roots => do
    .ok (← s.initializeRingRoots env ringExponent roots, [])
  | .processRingUpdates batch => do .ok (← s.processRingUpdates env batch, [])
  | .terminateSubscription fromNotifier => s.terminateSubscription env fromNotifier
  | .replayMissingRoots identifier indices => do
    s.authorizeReplayMissingRoots env identifier indices.toList
    .ok (s.replayMissingRoots env identifier indices.toList)

end Store

/-- One call, under whatever it finds around it. -/
abbrev Action {R : Type} (T : Config R) : Type := Env × Call T

/-- The subscriber on its own: its messages leave it. -/
def Store.execAction (s : Store T) (a : Action T) : Except Error (Store T) := (s.exec a.1 a.2).map Prod.fst

/-! ### A small subscriber -/

/-- A subscriber that takes two updates at a time. -/
theorem four_pos : 0 < 4 := by decide

theorem eight_pos : 0 < 8 := by decide

theorem sixty_pos : 0 < 60 := by decide

theorem one_lt_three : 1 < 3 := by decide

def sampleConfig : Config Unit where
  selfParaId := 1
  maxMissingRootsPerCollection := 4
  maxDeletedRingsPerCollection := 4
  maxRingRootsPerCollection := 8
  maxCollections := 1
  replayCooldownSeconds := 60
  maxUpdatesPerBatch := 2
  replayWarningThreshold := 1
  replayAbandonThreshold := 3
  maxRecentRootsPerRing := 2
  maxMissingRootsPerCollection_pos := four_pos
  maxDeletedRingsPerCollection_pos := four_pos
  maxRingRootsPerCollection_pos := eight_pos
  maxCollections_pos := Nat.one_pos
  replayCooldownSeconds_pos := sixty_pos
  maxUpdatesPerBatch_pos := Nat.two_pos
  replayWarningThreshold_lt := one_lt_three
  maxRecentRootsPerRing_pos := Nat.two_pos

/-- An active subscriber with the first `n` rings of a collection missing. -/
def sampleMissing (identifier : Identifier) (n : Nat) : Store sampleConfig :=
  let missing := (List.range n).foldl (fun m index => (m.tryInsert index 0).getD m) .empty
  { Store.genesis sampleConfig with
    subscription := .active 0
    ringCollectionStates := (∅ : StorageMap _ _).insert identifier ⟨0, n, missing, .empty⟩ }

/-- The time of a replay, and a sender that takes everything. -/
def sampleEnv : Env := ⟨100, fun _ => true⟩

end Individuality.Subscriber
