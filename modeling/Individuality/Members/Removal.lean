import Individuality.Members.Rings

/-! Taking members out: suspension sessions and `remove_suspended_keys`, the removal of
whole rings, and the asynchronous deletion of pages, queues and collections. -/
namespace Individuality.Members
open Support
namespace Store
variable {T : Config}

/-! ### Suspension sessions -/

def startRemovalSession (s : Store T) : Except Error (Store T) :=
  if s.collections.isNone then .ok s
  else do
    let state ← okOr s.ringsState.startMutationSession .couldNotStartRemovalSession
    .ok { s with ringsState := state }

def endRemovalSession (s : Store T) : Except Error (Store T) :=
  if s.collections.isNone then .ok s
  else do
    let state ← okOr s.ringsState.endMutationSession .noRemovalSession
    .ok { s with ringsState := state }

/-- Queue the index a member has inside its page; the page itself is not recorded. -/
def queueIncluded (s : Store T) (ringIndex : Nat) (ringPosition : Nat) :
    Except Error (Store T) :=
  match binarySearch (s.pendingAt ringIndex).toList ringPosition with
  | .inl _ => .error .keyAlreadySuspended
  | .inr insertIdx => do
    let indices ← okOr ((s.pendingAt ringIndex).tryInsert insertIdx ringPosition) .tooManyMembers
    .ok { s with pendingSuspensions := s.pendingSuspensions.insert ringIndex indices }

/-- A member suspended before it was onboarded leaves its queue page, which may stay empty. -/
def dropQueued (s : Store T) (queuePage : QueuePageIndex) (key : T.Member) : Store T :=
  let keys := s.queueAt queuePage
  if key ∈ keys.toList then
    s.setQueuePage queuePage (keys.remove (keys.toList.idxOf key))
  else s

def queueMemberSuspension (s : Store T) (key : T.Member) : Except Error (Store T) := do
  let position ← okOr (s.members.get key) .invalidSuspensions
  let s ← match position with
    | .included ringIndex _ ringPosition => s.queueIncluded ringIndex ringPosition
    | .onboarding queuePage _ => .ok (s.dropQueued queuePage key)
    | .suspended => .ok s
  .ok (s.setMember key .suspended)

def queueMemberSuspensions (s : Store T) (suspensions : List T.Member) :
    Except Error (Store T) := do
  ensure (s.ringsState.mutating = true) .noRemovalSession
  suspensions.foldlM queueMemberSuspension s

def removeMembers (s : Store T) (suspensions : List T.Member) : Except Error (Store T) :=
  s.queueMemberSuspensions suspensions

def shouldRemoveSuspendedKeys (s : Store T) (r : Nat) (checkRingsState : Bool) : Bool :=
  if s.suspendedCollections.isSome then false
  else if checkRingsState && !s.ringsState.appendOnly then false
  else (s.pendingAt r).length ≠ 0

/-- A retained key's record gets the key's new index, when it points into this ring. -/
def reposition (s : Store T) (r : Nat) (key : T.Member) (index : Nat) : Store T :=
  match s.members.get key with
  | some (.included ringIndex ringPage _) =>
    if r ≠ ringIndex then s else s.setMember key (.included ringIndex ringPage index)
  | _ => s

/-- The walk over a page, `i` its index there, and over the suspended indices not yet met:
the store with the retained keys repositioned and the page they make. -/
def retainKeys (r : Nat) : (i : Nat) → (suspended : List Nat) → Store T → RingPage T →
    List T.Member → Store T × Option (RingPage T)
  | _, _, s, newKeys, [] => (s, some newKeys)
  | i, suspended, s, newKeys, key :: keys =>
    if suspended.head? = some i then retainKeys r (i + 1) suspended.tail s newKeys keys
    else
      let s := s.reposition r key newKeys.length
      match newKeys.tryPush key with
      | some newKeys => retainKeys r (i + 1) suspended s newKeys keys
      | none => (s, none)

/-- The root of a ring whose keys were removed: it commits to no key until it is rebuilt. -/
def resetRoot (env : Env T) (s : Store T) (capacity : T.crypto.Capacity) (r : Nat) :
    Store T :=
  match s.root.get r with
  | some root =>
    let emptyIntermediate := T.crypto.startMembers capacity
    { s.archive env r root with
      root := s.root.insert r ⟨T.crypto.finishMembers emptyIntermediate,
        U32.saturatingAdd root.revision 1, emptyIntermediate⟩ }
  | none => s

def removeSuspendedKeys (env : Env T) (s : Store T) (r : Nat) : Store T :=
  match s.collections.bind fun info => T.capacity info.ringSize with
  | none => s
  | some capacity =>
    match retainKeys r 0 (s.pendingAt r).toList s BoundedVec.nil (s.page r 0) with
    | (s, none) => s
    | (s, some newKeys) =>
      let status := s.ringStatusAt r
      let suspendedCount := status.total - newKeys.length
      let s := s.setRingStatus r { status with total := newKeys.length, included := 0 }
      let s := { s with activeMembers := s.activeMembers - suspendedCount }
      let s := if newKeys.toList = [] then s.removeRingPage r 0 else s.setRingPage r 0 newKeys
      let s := s.resetRoot env capacity r
      let s := if 0 < newKeys.length then s.setStale r else s
      { s with pendingSuspensions := s.pendingSuspensions.remove r }

def removeSuspendedKeysAuthorized (env : Env T) (s : Store T) (r : Nat) :
    Except Error (Store T) := do
  ensure (s.shouldRemoveSuspendedKeys r true = true) .stale
  .ok (s.removeSuspendedKeys env r)

/-! ### Removing rings -/

/-- The number of pages that hold `total` keys. -/
def pageCount (T : Config) (total : Nat) : Nat :=
  total / T.flexibleRingCapacity + if total % T.flexibleRingCapacity = 0 then 0 else 1

def enqueueRingForDeletion (env : Env T) (s : Store T) (r : Nat) : Store T :=
  let s := s.archiveRoot env r
  let s := { s with
    staleRings := s.staleRings.remove r
    pendingSuspensions := s.pendingSuspensions.remove r }
  let status := s.ringStatusAt r
  let s := { s with ringKeysStatus := s.ringKeysStatus.remove r }
  if status.total = 0 then s
  else
    { s with
      activeMembers := s.activeMembers - status.total
      ringDeletionQueue := (List.range (pageCount T status.total)).foldl
        (fun queue i => queue.insert (r, i) ()) s.ringDeletionQueue }

def removeRing (env : Env T) (s : Store T) (r : Nat) : Except Error (Store T) := do
  ensure (s.collections.isSome = true) .collectionNotFound
  ensure (r ≠ s.currentRingIndex) .invalidRing
  if s.ringQueued r then .ok s else .ok (s.enqueueRingForDeletion env r)

/-- Delete a member's record when it points at the slot being deleted. -/
def deleteSlot (r : Nat) (p : Nat) (s : Store T) (slot : T.Member × Nat) : Store T :=
  if s.members.get slot.1 = some (.included r p slot.2) then s.removeMember slot.1 else s

def deleteRingPage (s : Store T) (r : Nat) (p : Nat) : Store T :=
  ((s.page r p).zipIdx.foldl (deleteSlot r p) s).removeRingPage r p

/-- The queued page is taken off the queue and deleted. -/
def deleteRingPageAuthorized (s : Store T) (r : Nat) (p : Nat) :
    Except Error (Store T) := do
  ensure (s.ringDeletionQueue.contains (r, p) = true) .stale
  .ok ({ s with ringDeletionQueue := s.ringDeletionQueue.remove (r, p) }.deleteRingPage r p)

/-! ### Deleting a collection -/

def deleteCollection (s : Store T) (owner : T.Location) : Except Error (Store T) := do
  let info ← okOr s.collections .collectionNotFound
  ensure (info.owner = .external owner) .notCollectionOwner
  ensure (s.suspendedCollections.isNone = true) .collectionMarkedForDeletion
  .ok { s with collections := none, suspendedCollections := some info }

def enqueueRingDeletionAuthorized (env : Env T) (s : Store T) (r : Nat) :
    Except Error (Store T) := do
  ensure (s.suspendedCollections.isSome = true) .stale
  ensure (s.ringKeysStatus.contains r = true) .stale
  .ok (s.enqueueRingForDeletion env r)

def deleteOnboardingQueuePage (s : Store T) (q : QueuePageIndex) : Store T :=
  (s.queuePage q).foldl removeMember (s.removeQueuePage q)

def deleteOnboardingQueuePageAuthorized (s : Store T) (q : QueuePageIndex) :
    Except Error (Store T) := do
  ensure (s.suspendedCollections.isSome = true) .stale
  ensure (s.ringKeysStatus.isEmpty = true) .future
  ensure (s.ringDeletionQueue.isEmpty = true) .future
  ensure (s.onboardingQueue.contains q = true) .stale
  .ok (s.deleteOnboardingQueuePage q)

def finalizeCollectionDeletion (s : Store T) : Store T :=
  { s with
    suspendedCollections := none
    currentRingIndex := 0
    onboardingSize := 0
    activeMembers := 0
    ringsState := default
    queuePageIndices := (0, 0) }

def finalizeCollectionDeletionAuthorized (s : Store T) : Except Error (Store T) := do
  ensure (s.suspendedCollections.isSome = true) .stale
  ensure (s.ringKeysStatus.isEmpty = true) .future
  ensure (s.ringDeletionQueue.isEmpty = true) .future
  ensure (s.onboardingQueue.isEmpty = true) .future
  .ok s.finalizeCollectionDeletion

/-! ### Maintenance -/

def markRingStaleAuthorized (s : Store T) (r : Nat) : Except Error (Store T) := do
  ensure (s.suspendedCollections.isNone = true) .stale
  ensure (s.staleRings.contains r = false) .stale
  ensure ((s.ringStatusAt r).included < (s.ringStatusAt r).total) .stale
  .ok (s.setStale r)

/-- The least revision of a ring among the old roots, the first in storage order. -/
def firstOldRevision (s : Store T) (r : Nat) : Option Nat :=
  ((s.oldRoots.keys.filter fun k => k.1 = r).map Prod.snd).min?

/-- Remove expired old roots from the oldest revision on, at most `limit` of them. -/
def cleanUpOldRoots (env : Env T) (r : Nat) : (limit : Nat) → Store T → Store T
  | 0, s => s
  | limit + 1, s =>
    match s.firstOldRevision r with
    | none => s
    | some revision =>
      match s.oldRoots.get (r, revision) with
      | none => s
      | some oldRoot =>
        if env.now < U64.saturatingAdd oldRoot.archivedAt T.oldRootRetentionDuration then s
        else cleanUpOldRoots env r limit { s with oldRoots := s.oldRoots.remove (r, revision) }

def cleanUpOldRootsAuthorized (env : Env T) (s : Store T) (r : Nat) (limit : Nat) :
    Except Error (Store T) := do
  let revision ← okOr (s.firstOldRevision r)
    (if s.ringKeysStatus.contains r then .future else .stale)
  let oldRoot ← okOr (s.oldRoots.get (r, revision)) .stale
  ensure (U64.saturatingAdd oldRoot.archivedAt T.oldRootRetentionDuration ≤ env.now) .future
  .ok (cleanUpOldRoots env r limit s)

end Store
end Individuality.Members
