import Individuality.Subscriber.Effects
import Individuality.Support.Sliding

/-! What the updates of a batch do to the roots and to each part of a collection's state. -/
namespace Individuality.Subscriber
open Support Replication
open Members (Identifier RingExponent)
variable {R : Type} {T : Config R}

/-- Pushing a root slides its window. -/
theorem Window.toList_push (roots : Window T) (record : RingCommitmentRecord T) :
    (roots.push record).toList = slide T.maxRecentRootsPerRing roots.toList record := by
  have hpos := T.maxRecentRootsPerRing_pos
  have hle := roots.length_le
  have hpush : ∀ v : Window T, v.toList = staying T.maxRecentRootsPerRing roots.toList →
      ((v.tryPush record).getD v).toList = slide T.maxRecentRootsPerRing roots.toList record := by
    intro v hv
    cases hpush : v.tryPush record with
    | none =>
      rw [BoundedVec.tryPush_eq_none] at hpush
      have hlength := length_staying T.maxRecentRootsPerRing roots.toList
      rw [← hv] at hlength
      change v.length = _ at hlength
      omega
    | some w =>
      rw [Option.getD_some, BoundedVec.tryPush_eq_some.mp hpush, hv]
      rfl
  unfold Window.push
  split
  · next hfull =>
    refine hpush _ ?_
    have hone : roots.toList.length + 1 - T.maxRecentRootsPerRing = 1 := by
      change T.maxRecentRootsPerRing ≤ roots.toList.length at hfull
      omega
    rw [staying, hone, BoundedVec.toList_remove, List.eraseIdx_zero, List.drop_one]
  · next hroom => exact hpush _ (staying_of_lt (Nat.lt_of_not_le hroom)).symm

theorem Window.push_ne_nil (roots : Window T) (record : RingCommitmentRecord T) : (roots.push record).toList ≠ [] := by
  rw [toList_push, slide]
  exact List.concat_ne_nil _ _

/-- The record that an update leaves, where it brings a root. -/
def record (batch : Batch T) (revision : Nat) (root : R) : RingCommitmentRecord T :=
  ⟨root, revision, batch.sourceTime, batch.sequence⟩

/-- The deleted rings after an update. -/
def noteOp (deleted : BoundedMap Nat Unit T.maxDeletedRingsPerCollection) (update : RingRootUpdate R) :
    BoundedMap Nat Unit T.maxDeletedRingsPerCollection :=
  match update.op with
  | .built _ _ => deleted.remove update.ringIndex
  | .deleted => deleted.set update.ringIndex ()

/-- An update notes its own ring only. -/
theorem get_noteOp_of_ne {deleted : BoundedMap Nat Unit T.maxDeletedRingsPerCollection}
    {update : RingRootUpdate R} {k : Nat} (h : k ≠ update.ringIndex) :
    (noteOp deleted update).get k = deleted.get k := by
  unfold noteOp
  cases update.op with
  | built => rw [BoundedMap.get_remove, if_neg h]
  | deleted => rw [BoundedMap.get_set_iff, if_neg fun hk => h hk.1]

namespace Store
variable (s : Store T) (batch : Batch T)

/-- The recent roots of a ring, none where it is not stored. -/
def window (identifier : Identifier) (ringIndex : Nat) : Window T :=
  (s.ringRoots.get (identifier, ringIndex)).getD default

def stored (identifier : Identifier) (ringIndex : Nat) : Bool := s.ringRoots.contains (identifier, ringIndex)

/-! ### One update -/

theorem ringRoots_storeUpdate (update : RingRootUpdate R) (k : Identifier × Nat) :
    (storeUpdate batch s update).ringRoots.get k = if k = (batch.identifier, update.ringIndex) then
      match update.op with
      | .built revision root => some ((s.window batch.identifier update.ringIndex).push (record batch revision root))
      | .deleted => none
    else s.ringRoots.get k := by
  unfold storeUpdate
  cases update.op with
  | built revision root => exact StorageMap.get_insert _ _ _ _
  | deleted => exact StorageMap.get_remove _ _ _

/-- The number of rings with a root, after an update. -/
def ringCountAfter (identifier : Identifier) (update : RingRootUpdate R) : Nat :=
  match update.op with
  | .built _ _ =>
    if (s.window identifier update.ringIndex).toList = [] then
      U32.saturatingAdd (s.collectionState identifier).ringCount 1
    else (s.collectionState identifier).ringCount
  | .deleted =>
    if s.stored identifier update.ringIndex then (s.collectionState identifier).ringCount - 1
    else (s.collectionState identifier).ringCount

/-- What an update leaves of the states of the collections. -/
theorem collectionState_storeUpdate (update : RingRootUpdate R) (id : Identifier) :
    (storeUpdate batch s update).collectionState id =
      if id = batch.identifier then
        { ringCount := s.ringCountAfter id update
          nextRingIndex := (s.collectionState id).nextRingIndex
          missingIndices := (s.collectionState id).missingIndices.remove update.ringIndex
          deletedIndices := noteOp (s.collectionState id).deletedIndices update }
      else s.collectionState id := by
  have hrecover := collectionState_of_insert s (s.recover batch.identifier update.ringIndex) rfl id
  have hown := collectionState_of_insert s (s.recover batch.identifier update.ringIndex) rfl batch.identifier
  rw [if_pos rfl] at hown
  unfold storeUpdate ringCountAfter noteOp
  cases update.op with
  | built revision root =>
    refine (collectionState_of_insert (s.recover batch.identifier update.ringIndex)
      ((s.recover batch.identifier update.ringIndex).storeBuilt batch update.ringIndex revision root) rfl id).trans ?_
    split
    · next heq =>
      rw [hown, heq]
      rfl
    · next hne => rw [hrecover, if_neg hne]
  | deleted =>
    refine (collectionState_of_insert (s.recover batch.identifier update.ringIndex)
      ((s.recover batch.identifier update.ringIndex).storeDeleted batch update.ringIndex) rfl id).trans ?_
    split
    · next heq =>
      rw [hown, heq]
      rfl
    · next hne => rw [hrecover, if_neg hne]

/-! ### The updates of a batch -/

/-- The updates of a batch change its own collection only, and of the others nothing. -/
theorem collectionState_foldl_of_ne (updates : List (RingRootUpdate R)) {id : Identifier} (hne : id ≠ batch.identifier) :
    (updates.foldl (storeUpdate batch) s).collectionState id = s.collectionState id := by
  induction updates generalizing s with
  | nil => rfl
  | cons update rest ih => rw [List.foldl_cons, ih, collectionState_storeUpdate, if_neg hne]

/-- What the updates leave of the missing and the deleted rings. -/
theorem collectionState_foldl (updates : List (RingRootUpdate R)) :
    (updates.foldl (storeUpdate batch) s).collectionState batch.identifier =
      { ringCount := ((updates.foldl (storeUpdate batch) s).collectionState batch.identifier).ringCount
        nextRingIndex := (s.collectionState batch.identifier).nextRingIndex
        missingIndices := updates.foldl (fun missing update => missing.remove update.ringIndex)
          (s.collectionState batch.identifier).missingIndices
        deletedIndices := updates.foldl noteOp (s.collectionState batch.identifier).deletedIndices } := by
  induction updates generalizing s with
  | nil => rfl
  | cons update rest ih =>
    have hone := s.collectionState_storeUpdate batch update batch.identifier
    rw [if_pos rfl] at hone
    rw [List.foldl_cons, ih, hone]
    rfl

theorem ringRoots_foldl_of_notMem (updates : List (RingRootUpdate R)) {k : Identifier × Nat}
    (hk : k.1 ≠ batch.identifier ∨ k.2 ∉ updates.map RingRootUpdate.ringIndex) :
    (updates.foldl (storeUpdate batch) s).ringRoots.get k = s.ringRoots.get k := by
  induction updates generalizing s with
  | nil => rfl
  | cons update rest ih =>
    rw [List.map_cons, List.mem_cons, not_or] at hk
    rw [List.foldl_cons, ih _ (hk.imp_right And.right), ringRoots_storeUpdate, if_neg]
    rintro rfl
    exact hk.elim (fun h => h rfl) fun h => h.1 rfl

/-- Where every ring is named once, each update finds its ring as it was before the batch. -/
theorem ringRoots_foldl_of_mem {updates : List (RingRootUpdate R)}
    (hnodup : (updates.map RingRootUpdate.ringIndex).Nodup) {update : RingRootUpdate R} (hmem : update ∈ updates) :
    (updates.foldl (storeUpdate batch) s).ringRoots.get (batch.identifier, update.ringIndex) =
      match update.op with
      | .built revision root => some ((s.window batch.identifier update.ringIndex).push (record batch revision root))
      | .deleted => none := by
  induction updates generalizing s with
  | nil => cases hmem
  | cons first rest ih =>
    rw [List.map_cons, List.nodup_cons] at hnodup
    rw [List.foldl_cons]
    rcases List.mem_cons.mp hmem with rfl | hrest
    · rw [ringRoots_foldl_of_notMem _ _ _ (.inr hnodup.1), ringRoots_storeUpdate, if_pos rfl]
    · have hne : update.ringIndex ≠ first.ringIndex := fun heq => hnodup.1 (heq ▸ List.mem_map_of_mem hrest)
      have hwindow : (storeUpdate batch s first).window batch.identifier update.ringIndex =
          s.window batch.identifier update.ringIndex := by
        rw [window, ringRoots_storeUpdate, if_neg fun heq => hne (congrArg Prod.snd heq)]
        rfl
      rw [ih _ hnodup.2 hrest, hwindow]

theorem get_foldl_remove (updates : List (RingRootUpdate R)) (missing : BoundedMap Nat Nat T.maxMissingRootsPerCollection)
    (r : Nat) : (updates.foldl (fun missing update => missing.remove update.ringIndex) missing).get r =
      if r ∈ updates.map RingRootUpdate.ringIndex then none else missing.get r := by
  induction updates generalizing missing with
  | nil => rfl
  | cons update rest ih =>
    rw [List.foldl_cons, ih, BoundedMap.get_remove, List.map_cons]
    by_cases hr : r = update.ringIndex
    · simp [hr]
    · simp [hr]

section Stored
variable {s batch}

theorem collectionState_storeRingRoots (s : Store T) (batch : Batch T) :
    (s.storeRingRoots batch).collectionState batch.identifier =
      { ringCount := ((s.storeRingRoots batch).collectionState batch.identifier).ringCount
        nextRingIndex := max (s.collectionState batch.identifier).nextRingIndex batch.nextRingIndex
        missingIndices := batch.updates.toList.foldl (fun missing update => missing.remove update.ringIndex)
          (s.collectionState batch.identifier).missingIndices
        deletedIndices := batch.updates.toList.foldl noteOp (s.collectionState batch.identifier).deletedIndices } := by
  have hraise := collectionState_of_insert s (s.raiseNextRingIndex batch) rfl batch.identifier
  rw [if_pos rfl] at hraise
  have hfold := collectionState_foldl (s.raiseNextRingIndex batch) batch batch.updates.toList
  rw [hraise] at hfold
  exact hfold

/-- Where every ring is named once, each update finds its ring as it was before the batch. -/
theorem ringRoots_storeRingRoots_of_mem (hnodup : (ringIndices batch).Nodup) {update : RingRootUpdate R}
    (hmem : update ∈ batch.updates.toList) :
    (s.storeRingRoots batch).ringRoots.get (batch.identifier, update.ringIndex) =
      match update.op with
      | .built revision root => some ((s.window batch.identifier update.ringIndex).push (record batch revision root))
      | .deleted => none :=
  ringRoots_foldl_of_mem (s.raiseNextRingIndex batch) batch hnodup hmem

theorem ringRoots_storeRingRoots_of_notMem {k : Identifier × Nat}
    (hk : k.1 ≠ batch.identifier ∨ k.2 ∉ ringIndices batch) :
    (s.storeRingRoots batch).ringRoots.get k = s.ringRoots.get k :=
  ringRoots_foldl_of_notMem (s.raiseNextRingIndex batch) batch batch.updates.toList hk

end Stored

/-! ### The scan -/

/-- The missing rings after a scan. -/
def missingAfter (identifier : Identifier) (oldNextRingIndex : Nat) :
    BoundedMap Nat Nat T.maxMissingRootsPerCollection :=
  let state := s.collectionState identifier
  if state.nextRingIndex ≤ U32.saturatingAdd state.ringCount state.deletedIndices.length then .empty
  else if T.maxDeletedRingsPerCollection ≤ state.deletedIndices.length then state.missingIndices
  else s.noteMissing identifier state.deletedIndices
    (List.range' oldNextRingIndex (state.nextRingIndex - oldNextRingIndex)) state.missingIndices

theorem collectionState_detect (identifier : Identifier) (old : Nat) (id : Identifier) :
    (s.detectMissingRingsInBatch identifier old).collectionState id =
      if id = identifier then
        { s.collectionState identifier with missingIndices := s.missingAfter identifier old }
      else s.collectionState id := by
  simp only [detectMissingRingsInBatch, missingAfter]
  split
  · exact collectionState_of_insert s _ rfl id
  · split
    · split
      · next heq => rw [heq]
      · rfl
    · exact collectionState_of_insert s _ rfl id

/-- What a batch leaves of the states of the collections. -/
theorem collectionState_applyBatch (now : Nat) (id : Identifier) :
    (s.applyBatch now batch).collectionState id = if id = batch.identifier then
      { (s.storeRingRoots batch).collectionState id with
        missingIndices := (s.storeRingRoots batch).missingAfter id (s.collectionState id).nextRingIndex }
    else s.collectionState id := by
  have hdetect := (s.storeRingRoots batch).collectionState_detect batch.identifier
    (s.collectionState batch.identifier).nextRingIndex id
  refine hdetect.trans ?_
  split
  · next heq => rw [heq]
  · next hne =>
    refine (collectionState_foldl_of_ne _ _ _ hne).trans ?_
    exact (collectionState_of_insert s (s.raiseNextRingIndex batch) rfl id).trans (if_neg hne)

theorem ringRoots_applyBatch (now : Nat) : (s.applyBatch now batch).ringRoots = (s.storeRingRoots batch).ringRoots := by
  rw [applyBatch_eq]

section Noted
variable {s}

/-- A scan notes no ring that is stored or deleted. -/
theorem noteMissing_of_known {id : Identifier} {deleted : BoundedMap Nat Unit T.maxDeletedRingsPerCollection}
    {range : List Nat} {missing : BoundedMap Nat Nat T.maxMissingRootsPerCollection} {r : Nat}
    (hknown : s.stored id r = true ∨ deleted.contains r = true) :
    (s.noteMissing id deleted range missing).get r = missing.get r := by
  induction range generalizing missing with
  | nil => rfl
  | cons index rest ih =>
    unfold noteMissing
    split
    · exact ih
    · next hnew =>
      split
      · rfl
      · next missing' hins =>
        have hne : r ≠ index := by
          rintro rfl
          refine hnew ?_
          rw [Bool.or_eq_true, Bool.or_eq_true]
          exact hknown.elim (fun h => .inl (.inl h)) .inr
        rw [ih, BoundedMap.get_tryInsert hins, if_neg hne]

end Noted

end Store
end Individuality.Subscriber
