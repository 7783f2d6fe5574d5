import Individuality.Members.Types
import Individuality.Support.Paging

/-! The storage of one collection.

Every storage map of the pallet but `IdentifiersOf` is keyed by the collection's
identifier first, so a `Store` is what those maps hold under one identifier. An
operation takes a store and returns the store it leaves, or an error and nothing
written. The reads here are the pallet's own (a `ValueQuery` map reads its
default where it holds nothing), then the derived views the statements use: the
keys of a ring in page order and the queue's pages as lists. -/
namespace Individuality.Members
open Support

/-- What the pallet reads from outside its storage: the clock and the static chunks. -/
structure Env (T : Config) where
  now : Nat
  chunks : RingExponent → Nat → Nat → Option (List T.crypto.StaticChunk)

structure Store (T : Config) where
  collections : Option (CollectionInfo T)
  suspendedCollections : Option (CollectionInfo T)
  root : StorageMap Nat (RingRoot T)
  oldRoots : StorageMap (Nat × Nat) (OldRoot T)
  currentRingIndex : Nat
  onboardingSize : Nat
  ringKeys : StorageMap (Nat × Nat) (RingPage T)
  ringKeysStatus : StorageMap Nat RingStatus
  pendingSuspensions : StorageMap Nat (BoundedVec Nat T.flexibleRingCapacity)
  activeMembers : Nat
  members : StorageMap T.Member RingPosition
  ringsState : RingMembersState
  staleRings : StorageMap Nat Unit
  queuePageIndices : QueuePageIndex × QueuePageIndex
  onboardingQueue : StorageMap QueuePageIndex (QueuePage T)
  ringDeletionQueue : StorageMap (Nat × Nat) Unit

variable {T : Config}

namespace Store

/-- A collection nothing was ever written for. -/
def empty (T : Config) : Store T where
  collections := none
  suspendedCollections := none
  root := ∅
  oldRoots := ∅
  currentRingIndex := 0
  onboardingSize := 0
  ringKeys := ∅
  ringKeysStatus := ∅
  pendingSuspensions := ∅
  activeMembers := 0
  members := ∅
  ringsState := default
  staleRings := ∅
  queuePageIndices := (0, 0)
  onboardingQueue := ∅
  ringDeletionQueue := ∅

instance : Inhabited (Store T) := ⟨empty T⟩

/-! ### Reads -/

def ringKeysAt (s : Store T) (r : Nat) (p : Nat) : RingPage T :=
  (s.ringKeys.get (r, p)).getD default

def ringStatusAt (s : Store T) (r : Nat) : RingStatus :=
  (s.ringKeysStatus.get r).getD default

def pendingAt (s : Store T) (r : Nat) : BoundedVec Nat T.flexibleRingCapacity :=
  (s.pendingSuspensions.get r).getD default

def queueAt (s : Store T) (q : QueuePageIndex) : QueuePage T :=
  (s.onboardingQueue.get q).getD default

def ringRevision (s : Store T) (r : Nat) : Option Nat :=
  (s.root.get r).map RingRoot.revision

/-- Some page of the ring is queued for deletion. -/
def ringQueued (s : Store T) (r : Nat) : Bool :=
  s.ringDeletionQueue.keys.any fun k => k.1 = r

/-! ### Views -/

/-- The keys a ring stores in a page. -/
def page (s : Store T) (r : Nat) (p : Nat) : List T.Member := (s.ringKeysAt r p).toList

/-- The keys waiting in a page of the onboarding queue. -/
def queuePage (s : Store T) (q : QueuePageIndex) : List T.Member := (s.queueAt q).toList

/-- A bound on the pages in which a ring stores keys. -/
def pageBound (s : Store T) (r : Nat) : Nat :=
  (s.ringKeys.keys.filter fun k => k.1 = r).foldr (fun k n => max n (k.2 + 1)) 0

/-- All the keys a ring stores, in page order. -/
def keysInOrder (s : Store T) (r : Nat) : List T.Member :=
  Paging.concat (s.page r) (s.pageBound r)

theorem page_eq_nil_of_get_none {s : Store T} {r : Nat} {p : Nat}
    (h : s.ringKeys.get (r, p) = none) : s.page r p = [] := by
  simp [page, ringKeysAt, h]

theorem lt_pageBound {s : Store T} {r : Nat} {p : Nat}
    (h : (s.ringKeys.get (r, p)).isSome = true) : p < s.pageBound r := by
  have hmem : (r, p) ∈ s.ringKeys.keys.filter fun k => k.1 = r := by
    rw [List.mem_filter]
    exact ⟨(StorageMap.mem_keys _ _).mpr h, by simp⟩
  unfold pageBound
  generalize s.ringKeys.keys.filter (fun k => k.1 = r) = l at hmem
  induction l with
  | nil => cases hmem
  | cons k l ih =>
    rw [List.foldr_cons]
    rcases List.mem_cons.mp hmem with rfl | hmem
    · exact lt_of_lt_of_le p.lt_succ_self (le_max_right _ _)
    · exact lt_of_lt_of_le (ih hmem) (le_max_left _ _)

theorem page_eq_nil {s : Store T} {r : Nat} {p : Nat} (h : s.pageBound r ≤ p) :
    s.page r p = [] := by
  apply page_eq_nil_of_get_none
  by_contra hne
  exact absurd (lt_pageBound (Option.isSome_iff_ne_none.mpr hne)) (Nat.not_lt.mpr h)

theorem page_length_le (s : Store T) (r : Nat) (p : Nat) :
    (s.page r p).length ≤ T.flexibleRingCapacity := (s.ringKeysAt r p).length_le

theorem queuePage_length_le (s : Store T) (q : QueuePageIndex) :
    (s.queuePage q).length ≤ T.onboardingQueuePageSize := (s.queueAt q).length_le

theorem mem_keysInOrder {s : Store T} {r : Nat} {k : T.Member} :
    k ∈ s.keysInOrder r ↔ ∃ p, k ∈ s.page r p := by
  rw [keysInOrder, Paging.mem_concat]
  constructor
  · rintro ⟨p, -, hk⟩
    exact ⟨p, hk⟩
  · rintro ⟨p, hk⟩
    refine ⟨p, ?_, hk⟩
    by_contra hp
    rw [page_eq_nil (Nat.le_of_not_lt hp)] at hk
    cases hk

theorem keysInOrder_eq_concat {s : Store T} {r : Nat} {n : Nat} (h : s.pageBound r ≤ n) :
    s.keysInOrder r = Paging.concat (s.page r) n :=
  (Paging.concat_of_empty h fun _ hp => page_eq_nil hp).symm

/-- Two rings with the same pages hold the same keys in the same order. -/
theorem keysInOrder_congr {s s' : Store T} {r r' : Nat} (h : s.page r = s'.page r') :
    s.keysInOrder r = s'.keysInOrder r' := by
  rw [keysInOrder_eq_concat (le_max_left _ (s'.pageBound r')),
    keysInOrder_eq_concat (s := s') (le_max_right (s.pageBound r) _), h]

/-- A ring with keys on its first page only holds those. -/
theorem keysInOrder_of_single {s : Store T} {r : Nat} (h : ∀ q, 0 < q → s.page r q = []) :
    s.keysInOrder r = s.page r 0 := by
  rw [keysInOrder_eq_concat (le_max_left _ 1),
    Paging.concat_of_empty (le_max_right (s.pageBound r) 1) fun p hp => h p hp, Paging.concat_succ,
    Paging.concat_zero, List.nil_append]

theorem ringQueued_iff {s : Store T} {r : Nat} :
    s.ringQueued r = true ↔ ∃ p, (s.ringDeletionQueue.get (r, p)).isSome = true := by
  simp only [ringQueued, List.any_eq_true, decide_eq_true_eq, StorageMap.mem_keys, Prod.exists]
  constructor
  · rintro ⟨r', p, hget, rfl⟩
    exact ⟨p, hget⟩
  · rintro ⟨p, hget⟩
    exact ⟨r, p, hget, rfl⟩

/-! ### Writes -/

def setRingPage (s : Store T) (r : Nat) (p : Nat) (keys : RingPage T) : Store T :=
  { s with ringKeys := s.ringKeys.insert (r, p) keys }

def removeRingPage (s : Store T) (r : Nat) (p : Nat) : Store T :=
  { s with ringKeys := s.ringKeys.remove (r, p) }

def setRingStatus (s : Store T) (r : Nat) (status : RingStatus) : Store T :=
  { s with ringKeysStatus := s.ringKeysStatus.insert r status }

def setMember (s : Store T) (k : T.Member) (position : RingPosition) : Store T :=
  { s with members := s.members.insert k position }

def removeMember (s : Store T) (k : T.Member) : Store T :=
  { s with members := s.members.remove k }

def setQueuePage (s : Store T) (q : QueuePageIndex) (keys : QueuePage T) : Store T :=
  { s with onboardingQueue := s.onboardingQueue.insert q keys }

def removeQueuePage (s : Store T) (q : QueuePageIndex) : Store T :=
  { s with onboardingQueue := s.onboardingQueue.remove q }

def setStale (s : Store T) (r : Nat) : Store T :=
  { s with staleRings := s.staleRings.insert r () }

section Views
variable (s : Store T) (r r' : Nat) (p p' : Nat) (q q' : QueuePageIndex)

@[simp] theorem page_setRingPage (keys : RingPage T) :
    (s.setRingPage r p keys).page r' p' = if r' = r ∧ p' = p then keys.toList else s.page r' p' := by
  by_cases h : r' = r ∧ p' = p
  · simp [setRingPage, page, ringKeysAt, h]
  · have hne : ((r', p') : Nat × Nat) ≠ (r, p) := by
      simpa [Prod.ext_iff] using h
    simp only [setRingPage, page, ringKeysAt, StorageMap.get_insert, if_neg hne, if_neg h]

@[simp] theorem page_removeRingPage :
    (s.removeRingPage r p).page r' p' = if r' = r ∧ p' = p then [] else s.page r' p' := by
  by_cases h : r' = r ∧ p' = p
  · simp [removeRingPage, page, ringKeysAt, h]
  · have hne : ((r', p') : Nat × Nat) ≠ (r, p) := by
      simpa [Prod.ext_iff] using h
    simp only [removeRingPage, page, ringKeysAt, StorageMap.get_remove, if_neg hne, if_neg h]

@[simp] theorem queuePage_setQueuePage (keys : QueuePage T) :
    (s.setQueuePage q keys).queuePage q' = if q' = q then keys.toList else s.queuePage q' := by
  by_cases h : q' = q <;> simp [setQueuePage, queuePage, queueAt, h]

@[simp] theorem queuePage_removeQueuePage :
    (s.removeQueuePage q).queuePage q' = if q' = q then [] else s.queuePage q' := by
  by_cases h : q' = q <;> simp [removeQueuePage, queuePage, queueAt, h]

@[simp] theorem ringStatusAt_setRingStatus (status : RingStatus) :
    (s.setRingStatus r status).ringStatusAt r' = if r' = r then status else s.ringStatusAt r' := by
  by_cases h : r' = r <;> simp [setRingStatus, ringStatusAt, h]

end Views
end Store
end Individuality.Members
