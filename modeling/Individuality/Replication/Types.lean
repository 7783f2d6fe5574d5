import Individuality.Members.Types
import Individuality.Support.Chunks
import Mathlib.Data.List.Sort

/-! What the notifier and its subscribers exchange.

A batch of updates is about one collection. It is encoded for the bound on the
notifier's side and decoded for the bound on the subscriber's, which refuses what
is longer (`RingRootUpdatesBatch.decode`). -/
namespace Individuality.Replication
open Support
open Members (Identifier RingExponent)

abbrev ParaId := Nat
/-- The index of a page of pending updates, which wraps around. -/
abbrev UpdatesPageIndex := BitVec 16

/-- Whether a ring root was built or deleted. -/
inductive RingRootOp (R : Type)
  | built (revision : Nat) (root : R)
  | deleted
  deriving DecidableEq, Repr

structure RingRootUpdate (R : Type) where
  ringIndex : Nat
  op : RingRootOp R
  deriving DecidableEq, Repr

structure RingRootUpdatesBatch (R : Type) (n : Nat) where
  identifier : Identifier
  sequence : Nat
  sourceTime : Nat
  updates : BoundedVec (RingRootUpdate R) n
  /-- The index of the next ring that will be built for this collection. -/
  nextRingIndex : Nat
  deriving DecidableEq

/-- The batch as a side with another bound reads it. -/
def RingRootUpdatesBatch.decode {R : Type} {n : Nat} (m : Nat) (b : RingRootUpdatesBatch R n) :
    Option (RingRootUpdatesBatch R m) :=
  (BoundedVec.tryFrom b.updates.toList).map fun updates =>
    ⟨b.identifier, b.sequence, b.sourceTime, updates, b.nextRingIndex⟩

/-- A call the notifier makes on a subscriber's chain. -/
inductive SubscriberCall (R : Type) (n : Nat)
  | initializeRingRoots (ringExponent : RingExponent) (roots : RingRootUpdatesBatch R n)
  | updateRingRoots (updates : RingRootUpdatesBatch R n)
  | terminateSubscription
  deriving DecidableEq

/-- A ring root with its revision, as the notifier reads it. -/
structure ProvidedRoot (R : Type) where
  root : R
  revision : Nat
  deriving DecidableEq, Repr

/-- The source of ring roots: what a collection's rings commit to now. -/
structure RingRootsProvider (R : Type) where
  roots : Identifier → StorageMap Nat (ProvidedRoot R)
  nextRingIndex : Identifier → Nat

namespace RingRootsProvider
variable {R : Type} (P : RingRootsProvider R)

def getRingRoots (identifier : Identifier) (indices : List Nat) : List (Nat × ProvidedRoot R) :=
  indices.filterMap fun index => ((P.roots identifier).get index).map fun root => (index, root)

/-- The next roots in the order of their storage keys. -/
def getRingRootsPaginated (storageKey : Identifier → Nat → Nat) (identifier : Identifier)
    (after : Option Nat) (limit : Nat) : List (Nat × ProvidedRoot R) :=
  let keys := ((P.roots identifier).keys.insertionSort fun i j =>
    storageKey identifier i ≤ storageKey identifier j).filter fun i =>
      after.all fun key => storageKey identifier key < storageKey identifier i
  (keys.filterMap fun i => ((P.roots identifier).get i).map fun root => (i, root)).take limit

end RingRootsProvider
end Individuality.Replication
