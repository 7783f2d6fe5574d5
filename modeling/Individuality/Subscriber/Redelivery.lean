import Individuality.Subscriber.Updates

/-! A batch that is taken in a second time.

It pushes its roots again, unless a window is full of the root it brings; and it notes a deleted ring for which there
was no room the first time, where there is room now. Nothing else changes: no ring is counted twice, and there is no
range left to scan. -/
namespace Individuality.Subscriber
open Support Replication
open Members (Identifier RingExponent)
variable {R : Type} {T : Config R}

/-! ### The deleted rings -/

section Deleted
variable {deleted : BoundedMap Nat Unit T.maxDeletedRingsPerCollection} {updates : List (RingRootUpdate R)}

end Deleted

namespace Store
variable (s : Store T) (batch : Batch T)

/-! ### The second time -/

/-- The windows of the rings that a batch builds are full of what it brings, but for their oldest root. -/
def Refills : Prop :=
  ∀ update ∈ batch.updates.toList, ∀ revision root, update.op = .built revision root →
    T.maxRecentRootsPerRing ≤ (s.window batch.identifier update.ringIndex).length + 1 ∧
      ∀ x ∈ staying T.maxRecentRootsPerRing (s.window batch.identifier update.ringIndex).toList,
        x = record batch revision root

/-- The deleted rings of a batch are noted after it, or there is no room to note one. -/
def Remembers : Prop :=
  let deleted := batch.updates.toList.foldl noteOp (s.collectionState batch.identifier).deletedIndices
  ∀ update ∈ batch.updates.toList, update.op = .deleted →
    (deleted.get update.ringIndex).isSome = true ∨ T.maxDeletedRingsPerCollection ≤ deleted.length

section Again
variable {s batch} {u : Store T}

end Again

/-! ### Calls -/

section Calls
variable {s s' : Store T} {batch : Batch T}

/-- A call that brings a batch again changes none of the rings: it is old, or it refills its windows and its deleted
rings are remembered. -/
def Settles (s : Store T) : Call T → Prop
  | .processRingUpdates batch => batch.sequence < s.processingState.lastProcessedSequence ∨
      s.Refills batch ∧ s.Remembers batch
  | .initializeRingRoots _ roots => (s.intake roots).Refills roots ∧ (s.intake roots).Remembers roots
  | _ => True

/-- The revisions of each window increase strictly. -/
def Increasing (s : Store T) : Prop :=
  ∀ k roots, s.ringRoots.get k = some roots → roots.toList.Pairwise fun a b => a.revision < b.revision

/-- Each root that a batch brings is newer than the roots that stay in its window. -/
def BringsNewer (s : Store T) (batch : Batch T) : Prop :=
  ∀ update ∈ batch.updates.toList, ∀ revision root, update.op = .built revision root →
    ∀ x ∈ staying T.maxRecentRootsPerRing (s.window batch.identifier update.ringIndex).toList, x.revision < revision

theorem Increasing.window (h : Increasing s) (id : Identifier) (r : Nat) :
    (s.window id r).toList.Pairwise fun a b => a.revision < b.revision := by
  unfold Store.window
  cases hget : s.ringRoots.get (id, r) with
  | none => exact List.Pairwise.nil
  | some roots => exact h _ _ hget

theorem Increasing.storeRingRoots (h : Increasing s) (hnodup : (ringIndices batch).Nodup) (hnewer : s.BringsNewer batch) :
    Increasing (s.storeRingRoots batch) := by
  rintro ⟨id, r⟩ roots hget
  by_cases hk : id ≠ batch.identifier ∨ r ∉ ringIndices batch
  · rw [ringRoots_storeRingRoots_of_notMem hk] at hget
    exact h _ _ hget
  rw [not_or, not_not, not_not] at hk
  obtain ⟨rfl, hr⟩ := hk
  obtain ⟨update, hmem, rfl⟩ := List.mem_map.mp hr
  rw [ringRoots_storeRingRoots_of_mem hnodup hmem] at hget
  cases hop : update.op with
  | deleted =>
    rw [hop] at hget
    cases hget
  | built revision root =>
    rw [hop] at hget
    cases hget
    rw [Window.toList_push]
    exact pairwise_slide (h.window _ _) (hnewer update hmem revision root hop)

theorem Increasing.of_ringRoots (h : Increasing s) (heq : s'.ringRoots = s.ringRoots) : Increasing s' := by
  unfold Increasing
  rwa [heq]

theorem Increasing.clearAllRingData (h : Increasing s) : Increasing s.clearAllRingData :=
  fun k _ hget => h k _ (StorageMap.get_of_get_clear hget)

theorem Increasing.intake (h : Increasing s) (batch : Batch T) : Increasing (s.intake batch) := by
  unfold Store.intake
  split
  · split
    · exact h.clearAllRingData
    · exact h
  · exact h

/-- A call brings newer roots only, where it brings a batch that is taken in. -/
def CallBringsNewer (s : Store T) : Call T → Prop
  | .processRingUpdates batch => batch.sequence < s.processingState.lastProcessedSequence ∨ s.BringsNewer batch
  | .initializeRingRoots _ roots => (s.intake roots).BringsNewer roots
  | _ => True

theorem ringRoots_replayMissingRoots (s : Store T) (env : Env) (identifier : Identifier) (indices : List Nat) :
    (s.replayMissingRoots env identifier indices).1.ringRoots = s.ringRoots := by
  have hprocess : ∀ l, (s.processCollectionReplay env identifier l).1.ringRoots = s.ringRoots := by
    intro l
    simp only [processCollectionReplay]
    split
    · rfl
    · rfl
  simp only [replayMissingRoots]
  split
  · exact hprocess _
  · exact hprocess _

theorem Increasing.step {a : Action T} (h : Increasing s) (hnodup : ∀ batch, (a.2 = .processRingUpdates batch ∨
      ∃ e, a.2 = .initializeRingRoots e batch) → (ringIndices batch).Nodup) (hnewer : s.CallBringsNewer a.2)
    (hs : s.execAction a = .ok s') : Increasing s' := by
  obtain ⟨env, call⟩ := a
  unfold execAction at hs
  cases hout : s.exec env call with
  | error e =>
    rw [hout] at hs
    cases hs
  | ok out =>
  rw [hout] at hs
  cases hs
  cases call with
  | processRingUpdates batch =>
    simp only [exec, bind_eq_ok] at hout
    obtain ⟨s', hs', hout⟩ := hout
    cases hout
    obtain ⟨-, ⟨-, rfl⟩ | ⟨hnew, rfl⟩⟩ := processRingUpdates_eq_ok hs'
    · exact h
    · have hstored := h.storeRingRoots (hnodup batch (.inl rfl)) (hnewer.resolve_left hnew)
      exact hstored.of_ringRoots (ringRoots_applyBatch s batch env.now)
  | initializeRingRoots ringExponent roots =>
    simp only [exec, bind_eq_ok] at hout
    obtain ⟨s', hs', hout⟩ := hout
    cases hout
    have hinit := initializeRingRoots_eq_ok hs'
    subst hinit
    have hstored := (h.intake roots).storeRingRoots (hnodup roots (.inr ⟨ringExponent, rfl⟩)) hnewer
    exact hstored.of_ringRoots (ringRoots_applyBatch (s.intake roots) roots env.now)
  | terminateSubscription fromNotifier =>
    simp only [exec, terminateSubscription] at hout
    split at hout
    · cases hout
    · cases hout
      exact h
    · cases hout
      exact h.clearAllRingData
  | replayMissingRoots identifier indices =>
    simp only [exec, bind_eq_ok] at hout
    obtain ⟨-, -, hout⟩ := hout
    cases hout
    exact h.of_ringRoots (ringRoots_replayMissingRoots s env identifier indices.toList)

end Calls

end Store
end Individuality.Subscriber
