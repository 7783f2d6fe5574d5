import Individuality.Members.Store

/-! Filling rings and building their roots: `available_ring`, `onboard_members`,
`do_self_include`, `build_ring`, `merge_rings` and the resolution of a root at a revision. -/
namespace Individuality.Members
open Support
namespace Store
variable {T : Config}

/-! ### The ring that takes new members -/

/-- What `available_ring` returns, and the store it leaves. -/
structure AvailableRing (T : Config) where
  store : Store T
  ringIndex : Nat
  pageIndex : Nat
  keys : RingPage T
  status : RingStatus

/-- The current ring stores as many keys as its collection allows. -/
def currentRingFull (s : Store T) (maxRingSize : Nat) : Prop :=
  let pageIndex := (s.ringStatusAt s.currentRingIndex).total / T.flexibleRingCapacity
  maxRingSize ≤ pageIndex * T.flexibleRingCapacity + (s.ringKeysAt s.currentRingIndex pageIndex).length

instance (s : Store T) (maxRingSize : Nat) : Decidable (s.currentRingFull maxRingSize) :=
  inferInstanceAs (Decidable (_ ≤ _))

def availableRing (s : Store T) (maxRingSize : Nat) : AvailableRing T :=
  let status := s.ringStatusAt s.currentRingIndex
  let pageIndex := status.total / T.flexibleRingCapacity
  if s.currentRingFull maxRingSize then
    -- The next ring's first page, with the status read for the full ring.
    let next := U32.saturatingInc s.currentRingIndex
    let s := { s with currentRingIndex := next }
    ⟨s, next, 0, s.ringKeysAt next 0, status⟩
  else ⟨s, s.currentRingIndex, pageIndex, s.ringKeysAt s.currentRingIndex pageIndex, status⟩

/-! ### Onboarding -/

/-- How many of the available members to onboard, and whether they fill the ring. -/
def shouldOnboardMembers (s : Store T) (ringIndex : Nat) (status : RingStatus)
    (openSlots available onboardingSize maxRingSize : Nat) : Option (Nat × Bool) :=
  if s.suspendedCollections.isSome then none
  else if !s.ringsState.appendOnly then none
  else if s.pendingSuspensions.contains ringIndex then none
  else
    let toInclude := min available openSlots
    if toInclude = 0 then none
    else
      let canOnboardWithCohort := onboardingSize ≤ toInclude ∧
        U32.saturatingAdd status.total toInclude ≤ maxRingSize - onboardingSize
      let ringFilled := openSlots = toInclude
      if ringFilled ∨ canOnboardWithCohort then some (toInclude, decide ringFilled) else none

/-- Where onboarding writes next: the store so far, the page index and that page's keys. -/
structure Filling (T : Config) where
  store : Store T
  pageIndex : Nat
  keys : RingPage T

/-- One turn of the onboarding loop: a full page is stored and the next one fetched. -/
def includeKey (ringIndex : Nat) (f : Filling T) (key : T.Member) :
    Except Error (Filling T) := do
  ensure (f.store.members.contains key = true) .keyNotFound
  let s := f.store.setMember key (.included ringIndex f.pageIndex f.keys.length)
  let keys ← okOr (f.keys.tryPush key) .tooManyMembers
  if T.flexibleRingCapacity ≤ keys.length then
    let s := s.setRingPage ringIndex f.pageIndex keys
    let next := U32.saturatingInc f.pageIndex
    .ok ⟨s, next, s.ringKeysAt ringIndex next⟩
  else .ok ⟨s, f.pageIndex, keys⟩

/-- The store once the page being written is stored too. -/
def Filling.close (f : Filling T) (ringIndex : Nat) : Store T :=
  f.store.setRingPage ringIndex f.pageIndex f.keys

/-- The counters after `toInclude` members were placed, and the ring marked stale. -/
def recordOnboarded (s : Store T) (ringIndex : Nat) (status : RingStatus) (toInclude : Nat)
    (ringFilled : Bool) : Store T :=
  { s with
    activeMembers := U32.saturatingAdd s.activeMembers toInclude
    ringKeysStatus := s.ringKeysStatus.insert ringIndex
      { status with total := U32.saturatingAdd status.total toInclude }
    staleRings := s.staleRings.insert ringIndex ()
    currentRingIndex :=
      if ringFilled then U32.saturatingInc s.currentRingIndex else s.currentRingIndex }

/-- What is left of the pages read from the queue goes back, and the head moves. -/
def requeue (s : Store T) (oldHead head tail : QueuePageIndex) (remaining : List T.Member) :
    Except Error (Store T) :=
  if T.onboardingQueuePageSize < remaining.length then do
    let splitIdx := remaining.length - T.onboardingQueuePageSize
    let second ← okOr (BoundedVec.tryFrom (remaining.drop splitIdx)) .trap
    let first ← okOr (BoundedVec.tryFrom (remaining.take splitIdx)) .trap
    let s := (s.setQueuePage oldHead first).setQueuePage head second
    .ok { s with queuePageIndices := (oldHead, tail) }
  else if remaining ≠ [] then do
    let keys ← okOr (BoundedVec.tryFrom remaining) .trap
    let s := (s.removeQueuePage oldHead).setQueuePage head keys
    .ok { s with queuePageIndices := (head, tail) }
  else
    let s := s.removeQueuePage head
    let s := if oldHead ≠ head then s.removeQueuePage oldHead else s
    let head := if head ≠ tail then head + 1#32 else head
    .ok { s with queuePageIndices := (head, tail) }

/-- The pages onboarding reads: the head, and the one after it when there is room for more. -/
def candidates (s : Store T) (openSlots : Nat) : QueuePageIndex × List T.Member :=
  let head := s.queuePageIndices.1
  let first := s.queuePage head
  if first.length < openSlots ∧ head ≠ s.queuePageIndices.2 then
    (head + 1#32, first ++ s.queuePage (head + 1#32))
  else (head, first)

/-- The commit of an onboarding round: the members placed, the counters and the queue moved. -/
def onboard (a : AvailableRing T) (head : QueuePageIndex) (keys : List T.Member) (toInclude : Nat)
    (ringFilled : Bool) : Except Error (Store T) := do
  let f ← (keys.take toInclude).foldlM (includeKey a.ringIndex) ⟨a.store, a.pageIndex, a.keys⟩
  let s := (f.close a.ringIndex).recordOnboarded a.ringIndex a.status toInclude ringFilled
  s.requeue a.store.queuePageIndices.1 head a.store.queuePageIndices.2 (keys.drop toInclude)

def onboardMembers (s : Store T) (mustBuild : Bool) : Except Error (Store T × Bool) := do
  let info ← okOr s.collections .collectionNotFound
  let maxRingSize := info.ringSize.ringCapacity
  let a := s.availableRing maxRingSize
  let openSlots := maxRingSize - (a.keys.length + a.pageIndex * T.flexibleRingCapacity)
  let c := a.store.candidates openSlots
  match a.store.shouldOnboardMembers a.ringIndex a.status openSlots
    (U32.saturatedFrom c.2.length) s.onboardingSize maxRingSize with
  | none => if mustBuild then .error .prematureOnboarding else .ok (s, false)
  | some (toInclude, ringFilled) => do
    let s ← onboard a c.1 c.2 toInclude ringFilled
    .ok (s, true)

/-- `can_onboard_members`: the checks of onboarding, on the lengths of the pages and the total
of the ring's status. -/
def canOnboardMembers (s : Store T) (ringIndex : Nat) (head : QueuePageIndex) : Bool :=
  match s.collections with
  | none => false
  | some info =>
    let maxRingSize := info.ringSize.ringCapacity
    let status := s.ringStatusAt ringIndex
    let openSlots := maxRingSize - status.total
    let firstPageLen := (s.queueAt head).length
    let available := if firstPageLen < openSlots ∧ head ≠ s.queuePageIndices.2 then
      U32.saturatingAdd firstPageLen (s.queueAt (head + 1#32)).length else firstPageLen
    (s.shouldOnboardMembers ringIndex status openSlots available s.onboardingSize maxRingSize).isSome

/-! ### Self-inclusion -/

/-- Take a member out of its queue page; a page left empty is removed, and the head moves
past it unless it is the last. -/
def dequeue (s : Store T) (queuePage : QueuePageIndex) (member : T.Member) :
    Except Error (Store T) :=
  let page := s.queueAt queuePage
  if member ∈ page.toList then
    let keys := page.remove (page.toList.idxOf member)
    if keys.toList = [] then
      let head := s.queuePageIndices.1
      let tail := s.queuePageIndices.2
      .ok { s.removeQueuePage queuePage with
        queuePageIndices := (if head = queuePage ∧ head ≠ tail then queuePage + 1#32 else head, tail) }
    else .ok (s.setQueuePage queuePage keys)
  else .error .keyNotFound

def doSelfInclude (s : Store T) (member : T.Member) : Except Error (Store T) := do
  let info ← okOr s.collections .collectionNotFound
  let maxRingSize := info.ringSize.ringCapacity
  ensure (s.ringsState.appendOnly = true) .removalSessionInProgress
  let position ← okOr (s.members.get member) .notMember
  match position with
  | .onboarding queuePage _ => do
    let s ← s.dequeue queuePage member
    let a := s.availableRing maxRingSize
    let keys ← okOr (a.keys.tryPush member) .tooManyMembers
    let s := a.store.setRingPage a.ringIndex a.pageIndex keys
    let s := s.setMember member (.included a.ringIndex a.pageIndex a.keys.length)
    .ok (s.recordOnboarded a.ringIndex a.status 1
      (maxRingSize ≤ U32.saturatingAdd a.status.total 1))
  | _ => .error .notOnboarding

/-! ### Ring roots -/

/-- The keys a build pushes, page by page, and the status it leaves. Each turn pushes a key
or ends the loop, so `fuel = toInclude` turns are enough. -/
def keysToPush (s : Store T) (r : Nat) :
    (fuel toInclude : Nat) → RingStatus → List T.Member × RingStatus
  | 0, _, status => ([], status)
  | fuel + 1, toInclude, status =>
    let pageSize := T.flexibleRingCapacity
    let includedInPage := status.included % pageSize
    let unincludedLeftInPage := min (status.total - status.included) (pageSize - includedInPage)
    let toPush := min toInclude unincludedLeftInPage
    if toPush = 0 then ([], status)
    else
      let keys := s.page r (status.included / pageSize)
      let rest := s.keysToPush r fuel (toInclude - toPush)
        { status with included := U32.saturatingAdd status.included toPush }
      ((keys.drop includedInPage).take toPush ++ rest.1, rest.2)

/-- The revision a build gives the ring's root and the value it resumes from. -/
def buildStart (s : Store T) (capacity : T.crypto.Capacity) (r : Nat) :
    Except Error (Nat × T.Intermediate) :=
  match s.root.get r with
  | some existing => do
    ensure (existing.revision < U32.max) .overflow
    .ok (existing.revision + 1, existing.intermediate)
  | none => .ok (0, T.crypto.startMembers capacity)

/-- Keep a root for the retention period. -/
def archive (env : Env T) (s : Store T) (r : Nat) (root : RingRoot T) : Store T :=
  { s with oldRoots := s.oldRoots.insert (r, root.revision) ⟨root.root, env.now⟩ }

/-- The writes of a build. -/
def finishBuild (env : Env T) (s : Store T) (info : CollectionInfo T) (r : Nat)
    (status : RingStatus) (root : RingRoot T) : Store T :=
  let built := status.included = status.total
  let status := if built ∧ info.mode = .appendOnly ∧ status.total = info.ringSize.ringCapacity then
    { status with immutableSince := some env.now } else status
  let original := s.root.get r
  let s := if built then { s with staleRings := s.staleRings.remove r } else s
  let s := { s.setRingStatus r status with root := s.root.insert r root }
  match original with
  | some original => s.archive env r original
  | none => s

def buildRing (env : Env T) (s : Store T) (r : Nat) (toInclude : Nat) :
    Except Error (Store T) := do
  let info ← okOr s.collections .collectionNotFound
  let capacity ← okOr (T.capacity info.ringSize) .invalidRingExponent
  let start ← s.buildStart capacity r
  let keys := s.keysToPush r toInclude toInclude (s.ringStatusAt r)
  let intermediate ← okOr
    (T.crypto.pushMembers start.2 keys.1 (env.chunks info.ringSize)) .couldNotPush
  .ok (s.finishBuild env info r keys.2
    ⟨T.crypto.finishMembers intermediate, start.1, intermediate⟩)

/-- Move the current root into `OldRoots`, if there is one. -/
def archiveRoot (env : Env T) (s : Store T) (r : Nat) : Store T :=
  match s.root.get r with
  | some root => { s.archive env r root with root := s.root.remove r }
  | none => s

/-- The root a revision of a ring denotes: the current one, or an old one whose retention
period has not passed, as long as the ring has a current root. -/
def getRootAtRevision (env : Env T) (s : Store T) (r : Nat) (revision : Nat) :
    Except Error T.RingMembers :=
  match s.root.get r with
  | none => .error .noRoot
  | some current =>
    if current.revision = revision then .ok current.root
    else do
      let oldRoot ← okOr (s.oldRoots.get (r, revision)) .noRoot
      ensure (env.now < U64.saturatingAdd oldRoot.archivedAt T.oldRootRetentionDuration) .noRoot
      .ok oldRoot.root

/-- The revision of the ring's root, and the alias that the proof shows. -/
def verifyMembership (s : Store T) (proof : T.crypto.Proof) (r : Nat) (context : T.crypto.Context)
    (msg : T.crypto.Message) : Except Error (Nat × T.crypto.Alias) := do
  let info ← okOr s.collections .collectionNotFound
  let capacity ← okOr (T.capacity info.ringSize) .invalidRingExponent
  let ring ← okOr (s.root.get r) .noRoot
  let found ← okOr (T.crypto.validate capacity proof ring.root context msg) .invalidProof
  .ok (ring.revision, found)

def verifyMembershipAtRev (env : Env T) (s : Store T) (proof : T.crypto.Proof) (r : Nat)
    (revision : Nat) (context : T.crypto.Context) (msg : T.crypto.Message) :
    Except Error T.crypto.Alias := do
  let info ← okOr s.collections .collectionNotFound
  let capacity ← okOr (T.capacity info.ringSize) .invalidRingExponent
  let root ← s.getRootAtRevision env r revision
  okOr (T.crypto.validate capacity proof root context msg) .invalidProof

def isRevisionValid (env : Env T) (s : Store T) (r : Nat) (revision : Nat) : Bool :=
  s.collections.isSome &&
    match s.root.get r with
    | none => false
    | some current =>
      current.revision = revision ||
        match s.oldRoots.get (r, revision) with
        | some oldRoot =>
          env.now < U64.saturatingAdd oldRoot.archivedAt T.oldRootRetentionDuration
        | none => false

/-! ### Merging rings -/

/-- One turn of the merge loop: the record points behind the keys the base page has so far. -/
def moveKey (base : Nat) (acc : Store T × RingPage T) (key : T.Member) :
    Except Error (Store T × RingPage T) := do
  ensure (acc.1.members.contains key = true) .notMember
  let keys ← okOr (acc.2.tryPush key) .tooManyMembers
  .ok (acc.1.setMember key (.included base 0 acc.2.length), keys)

def mergeRings (env : Env T) (s : Store T) (base target : Nat) : Except Error (Store T) := do
  let info ← okOr s.collections .collectionNotFound
  let maxRingSize := info.ringSize.ringCapacity
  ensure (s.ringsState.appendOnly = true) .removalSessionInProgress
  ensure (base ≠ target ∧ base ≠ s.currentRingIndex ∧ target ≠ s.currentRingIndex) .invalidRing
  let baseKeys := s.ringKeysAt base 0
  let baseStatus := s.ringStatusAt base
  ensure (baseKeys.length < maxRingSize / 2) .ringAboveMergeThreshold
  ensure ((s.pendingAt base).length = 0) .suspensionsPending
  let targetKeys := s.ringKeysAt target 0
  ensure (targetKeys.length < maxRingSize / 2) .ringAboveMergeThreshold
  ensure ((s.pendingAt target).length = 0) .suspensionsPending
  let baseStatus := { baseStatus with
    total := U32.saturatingAdd baseStatus.total targetKeys.length }
  let moved ← targetKeys.toList.foldlM (moveKey base) (s, baseKeys)
  let s := (moved.1.setRingPage base 0 moved.2).setRingStatus base baseStatus
  let s := s.archiveRoot env target
  let s := { s with staleRings := (s.staleRings.insert base ()).remove target }
  let s := s.removeRingPage target 0
  .ok { s with ringKeysStatus := s.ringKeysStatus.remove target }

end Store
end Individuality.Members
