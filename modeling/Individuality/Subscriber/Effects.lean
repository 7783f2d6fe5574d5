import Individuality.Subscriber.Calls

/-! What a batch does to the roots and the missing rings of a collection. -/
namespace Individuality.Subscriber
open Support Replication
open Members (Identifier RingExponent)
variable {R : Type} {T : Config R}

/-- The rings that a batch is about. -/
def ringIndices (batch : Batch T) : List Nat := batch.updates.toList.map RingRootUpdate.ringIndex

namespace Store
variable (s : Store T) (batch : Batch T)

/-! ### One update -/

theorem collectionState_of_insert (s s' : Store T) {id : Identifier} {state : RingCollectionState T}
    (h : s'.ringCollectionStates = s.ringCollectionStates.insert id state) (id' : Identifier) :
    s'.collectionState id' = if id' = id then state else s.collectionState id' := by
  unfold collectionState
  rw [h, StorageMap.get_insert]
  split
  · rfl
  · rfl

theorem storeBuilt_spec (ringIndex revision : Nat) (root : R) (id : Identifier) :
    ∃ ringCount deletedIndices, (s.storeBuilt batch ringIndex revision root).collectionState id =
      if id = batch.identifier then { s.collectionState id with ringCount, deletedIndices }
      else s.collectionState id := by
  by_cases heq : id = batch.identifier
  · subst heq
    simp only [if_true]
    exact ⟨_, _, (collectionState_of_insert s _ rfl _).trans (if_pos rfl)⟩
  · simp only [if_neg heq]
    exact ⟨0, .empty, (collectionState_of_insert s _ rfl id).trans (if_neg heq)⟩

theorem storeDeleted_spec (ringIndex : Nat) (id : Identifier) :
    ∃ ringCount deletedIndices, (s.storeDeleted batch ringIndex).collectionState id =
      if id = batch.identifier then { s.collectionState id with ringCount, deletedIndices }
      else s.collectionState id := by
  by_cases heq : id = batch.identifier
  · subst heq
    simp only [if_true]
    exact ⟨_, _, (collectionState_of_insert s _ rfl _).trans (if_pos rfl)⟩
  · simp only [if_neg heq]
    exact ⟨0, .empty, (collectionState_of_insert s _ rfl id).trans (if_neg heq)⟩

/-- An update is of its own collection only, and takes its ring off the missing ones. -/
theorem storeUpdate_spec (update : RingRootUpdate R) (id : Identifier) :
    ∃ ringCount deletedIndices, (storeUpdate batch s update).collectionState id =
      if id = batch.identifier then
        { s.collectionState id with
          ringCount
          missingIndices := (s.collectionState id).missingIndices.remove update.ringIndex
          deletedIndices }
      else s.collectionState id := by
  have hfirst := collectionState_of_insert s
    (s.recover batch.identifier update.ringIndex) rfl id
  unfold storeUpdate
  cases update.op with
  | built revision root =>
    obtain ⟨ringCount, deletedIndices, hsecond⟩ := storeBuilt_spec
      (s.recover batch.identifier update.ringIndex) batch update.ringIndex revision root id
    refine ⟨ringCount, deletedIndices, hsecond.trans ?_⟩
    rw [hfirst]
    split
    · rename_i heq
      rw [heq]
    · rfl
  | deleted =>
    obtain ⟨ringCount, deletedIndices, hsecond⟩ := storeDeleted_spec
      (s.recover batch.identifier update.ringIndex) batch update.ringIndex id
    refine ⟨ringCount, deletedIndices, hsecond.trans ?_⟩
    rw [hfirst]
    split
    · rename_i heq
      rw [heq]
    · rfl

/-! ### A batch -/

/-- The updates of a batch, one after the other. -/
theorem foldl_storeUpdate (updates : List (RingRootUpdate R)) (id : Identifier) :
    if id = batch.identifier then
      ((updates.foldl (storeUpdate batch) s).collectionState id).nextRingIndex =
        (s.collectionState id).nextRingIndex ∧
      ∀ r, ((updates.foldl (storeUpdate batch) s).collectionState id).missingIndices.get r =
        if r ∈ updates.map RingRootUpdate.ringIndex then none
        else (s.collectionState id).missingIndices.get r
    else (updates.foldl (storeUpdate batch) s).collectionState id = s.collectionState id := by
  induction updates generalizing s with
  | nil => simp
  | cons update rest ih =>
    obtain ⟨ringCount, deletedIndices, hone⟩ := storeUpdate_spec s batch update id
    have hrest := ih (storeUpdate batch s update)
    rw [List.foldl_cons]
    split at hone
    · rename_i heq
      rw [if_pos heq] at hrest ⊢
      obtain ⟨hnext, hmissing⟩ := hrest
      refine ⟨by rw [hnext, hone], fun r => ?_⟩
      rw [hmissing, hone, List.map_cons]
      by_cases hr : r = update.ringIndex
      · simp [hr]
      · simp [hr]
    · rename_i hne
      rw [if_neg hne] at hrest ⊢
      rw [hrest, hone]

/-- A scan notes only rings of its range, none of them asked for yet. -/
theorem noteMissing_spec (id : Identifier) (deleted : BoundedMap Nat Unit T.maxDeletedRingsPerCollection)
    (range : List Nat) (missing : BoundedMap Nat Nat T.maxMissingRootsPerCollection) {r attempts : Nat}
    (h : (s.noteMissing id deleted range missing).get r = some attempts) :
    missing.get r = some attempts ∨ attempts = 0 ∧ r ∈ range := by
  induction range generalizing missing with
  | nil => exact .inl h
  | cons index rest ih =>
    unfold noteMissing at h
    split at h
    · exact (ih missing h).imp_right (And.imp_right (List.mem_cons_of_mem index))
    · split at h
      · exact .inl h
      · rename_i missing' hins
        rcases ih missing' h with hold | ⟨hzero, hmem⟩
        · rw [BoundedMap.get_tryInsert hins] at hold
          split at hold
          · rename_i heq
            exact .inr ⟨(Option.some.inj hold).symm, heq ▸ List.mem_cons_self⟩
          · exact .inl hold
        · exact .inr ⟨hzero, List.mem_cons_of_mem index hmem⟩

theorem nextRingIndex_storeRingRoots (id : Identifier) :
    ((s.storeRingRoots batch).collectionState id).nextRingIndex =
      if id = batch.identifier then max (s.collectionState id).nextRingIndex batch.nextRingIndex
      else (s.collectionState id).nextRingIndex := by
  have hraise := collectionState_of_insert s (s.raiseNextRingIndex batch) rfl id
  have hupdates := foldl_storeUpdate (s.raiseNextRingIndex batch) batch batch.updates.toList id
  rw [hraise] at hupdates
  unfold storeRingRoots
  split
  · rename_i heq
    rw [if_pos heq, if_pos heq] at hupdates
    rw [hupdates.1, heq]
  · rename_i hne
    rw [if_neg hne, if_neg hne] at hupdates
    rw [hupdates]

theorem missingIndices_storeRingRoots (id : Identifier) (r : Nat) :
    ((s.storeRingRoots batch).collectionState id).missingIndices.get r =
      if id = batch.identifier ∧ r ∈ ringIndices batch then none
      else (s.collectionState id).missingIndices.get r := by
  have hraise := collectionState_of_insert s (s.raiseNextRingIndex batch) rfl id
  have hupdates := foldl_storeUpdate (s.raiseNextRingIndex batch) batch batch.updates.toList id
  rw [hraise] at hupdates
  unfold storeRingRoots
  by_cases heq : id = batch.identifier
  · rw [if_pos heq, if_pos heq] at hupdates
    rw [hupdates.2 r, heq]
    simp only [true_and]
    rfl
  · rw [if_neg heq, if_neg heq] at hupdates
    rw [hupdates, if_neg fun h => heq h.1]

/-- A scan goes over the rings that the batch made known. -/
theorem detectMissing_spec (id : Identifier) (old : Nat) (id' : Identifier) :
    ((s.detectMissingRingsInBatch id old).collectionState id').nextRingIndex =
      (s.collectionState id').nextRingIndex ∧
    ∀ r attempts, ((s.detectMissingRingsInBatch id old).collectionState id').missingIndices.get r =
      some attempts → (s.collectionState id').missingIndices.get r = some attempts ∨
        attempts = 0 ∧ id' = id ∧ old ≤ r ∧ r < (s.collectionState id').nextRingIndex := by
  simp only [detectMissingRingsInBatch]
  split
  · -- Everything is accounted for.
    rw [collectionState_of_insert s _ rfl id']
    split
    · rename_i heq
      refine ⟨by rw [heq], fun r attempts h => nomatch h⟩
    · exact ⟨rfl, fun r attempts h => .inl h⟩
  · split
    · exact ⟨rfl, fun r attempts h => .inl h⟩
    · rw [collectionState_of_insert s _ rfl id']
      split
      · rename_i heq
        refine ⟨by rw [heq], fun r attempts h => ?_⟩
        rw [heq]
        rcases s.noteMissing_spec id _ _ _ h with hold | ⟨hzero, hmem⟩
        · exact .inl hold
        · rw [List.mem_range'_1] at hmem
          exact .inr ⟨hzero, rfl, hmem.1, by omega⟩
      · exact ⟨rfl, fun r attempts h => .inl h⟩

theorem storeUpdate_eq (update : RingRootUpdate R) : storeUpdate batch s update = { s with
    ringRoots := (storeUpdate batch s update).ringRoots
    ringCollectionStates := (storeUpdate batch s update).ringCollectionStates } := by
  unfold storeUpdate
  cases update.op with
  | built revision root => rfl
  | deleted => rfl

theorem foldl_storeUpdate_eq (updates : List (RingRootUpdate R)) :
    updates.foldl (storeUpdate batch) s = { s with
      ringRoots := (updates.foldl (storeUpdate batch) s).ringRoots
      ringCollectionStates := (updates.foldl (storeUpdate batch) s).ringCollectionStates } := by
  induction updates generalizing s with
  | nil => rfl
  | cons update rest ih =>
    rw [List.foldl_cons, ih, storeUpdate_eq]

theorem detectMissing_eq (id : Identifier) (old : Nat) : s.detectMissingRingsInBatch id old = { s with
    ringCollectionStates := (s.detectMissingRingsInBatch id old).ringCollectionStates } := by
  simp only [detectMissingRingsInBatch]
  split
  · rfl
  · split
    · rfl
    · rfl

/-- A batch changes roots, the states of collections, and what was processed last. -/
theorem applyBatch_eq (now : Nat) : s.applyBatch now batch = { s with
    ringRoots := (s.storeRingRoots batch).ringRoots
    ringCollectionStates := (s.applyBatch now batch).ringCollectionStates
    processingState := { s.processingState with
      lastBatchReceivedTime := now
      lastProcessedSequence := batch.sequence } } := by
  simp only [applyBatch]
  rw [detectMissing_eq, storeRingRoots, foldl_storeUpdate_eq]
  rfl

theorem nextRingIndex_applyBatch (now : Nat) (id : Identifier) :
    (s.collectionState id).nextRingIndex ≤ ((s.applyBatch now batch).collectionState id).nextRingIndex := by
  have hdetect := (s.storeRingRoots batch).detectMissing_spec batch.identifier
    (s.collectionState batch.identifier).nextRingIndex id
  have hstore := s.nextRingIndex_storeRingRoots batch id
  show _ ≤ (((s.storeRingRoots batch).detectMissingRingsInBatch batch.identifier
    (s.collectionState batch.identifier).nextRingIndex).collectionState id).nextRingIndex
  rw [hdetect.1, hstore]
  split
  · exact le_max_left _ _
  · exact le_refl _

/-- What is missing after a batch was missing before and is not in the batch, or is newly noted. -/
theorem missingIndices_applyBatch (now : Nat) (id : Identifier) {r attempts : Nat}
    (h : ((s.applyBatch now batch).collectionState id).missingIndices.get r = some attempts) :
    (s.collectionState id).missingIndices.get r = some attempts ∧
      ¬ (id = batch.identifier ∧ r ∈ ringIndices batch) ∨
    attempts = 0 ∧ (s.collectionState id).nextRingIndex ≤ r ∧
      r < ((s.applyBatch now batch).collectionState id).nextRingIndex := by
  have hdetect := (s.storeRingRoots batch).detectMissing_spec batch.identifier
    (s.collectionState batch.identifier).nextRingIndex id
  have hnext : ((s.applyBatch now batch).collectionState id).nextRingIndex =
      ((s.storeRingRoots batch).collectionState id).nextRingIndex := hdetect.1
  rcases hdetect.2 r attempts h with hold | ⟨hzero, heq, hle, hlt⟩
  · rw [missingIndices_storeRingRoots] at hold
    split at hold
    · cases hold
    · rename_i hnot
      exact .inl ⟨hold, hnot⟩
  · rw [hnext, heq]
    rw [heq] at hlt
    exact .inr ⟨hzero, hle, hlt⟩

/-! ### Attempts -/

/-- The attempts after one more, unless the ring is given up. -/
def attempted (attempts : Nat) : Option Nat :=
  if T.replayAbandonThreshold ≤ U32.saturatingAdd attempts 1 then none
  else some (U32.saturatingAdd attempts 1)

theorem countAttempt_spec (acc : BoundedMap Nat Nat T.maxMissingRootsPerCollection × List Nat)
    (index : Nat) :
    (∀ r, (countAttempt acc index).1.get r =
      if r = index then (acc.1.get r).bind (attempted (T := T)) else acc.1.get r) ∧
    (countAttempt acc index).2 = acc.2 ++
      if ((acc.1.get index).bind (attempted (T := T))).isSome = true then [index] else [] := by
  unfold countAttempt
  split
  · rename_i hnone
    refine ⟨fun r => ?_, by simp [hnone]⟩
    split
    · rename_i heq
      rw [heq, hnone]
      rfl
    · rfl
  · rename_i attempts hget
    rw [hget, Option.bind_some]
    unfold attempted
    split
    · refine ⟨fun r => ?_, by simp⟩
      rw [BoundedMap.get_remove]
      split
      · rename_i hgiven heq
        rw [heq, hget, Option.bind_some, if_pos hgiven]
      · rfl
    · refine ⟨fun r => ?_, by simp⟩
      rw [BoundedMap.get_set _ _ (by rw [hget]; rfl)]
      split
      · rename_i hkept heq
        rw [heq, hget, Option.bind_some, if_neg hkept]
      · rfl

theorem foldl_countAttempt (acc : BoundedMap Nat Nat T.maxMissingRootsPerCollection × List Nat)
    {indices : List Nat} (hnodup : indices.Nodup) :
    (∀ r, (indices.foldl countAttempt acc).1.get r =
      if r ∈ indices then (acc.1.get r).bind (attempted (T := T)) else acc.1.get r) ∧
    (indices.foldl countAttempt acc).2 = acc.2 ++ indices.filter fun r =>
      ((acc.1.get r).bind (attempted (T := T))).isSome := by
  induction indices generalizing acc with
  | nil => simp
  | cons index rest ih =>
    obtain ⟨hnot, hrest⟩ := List.nodup_cons.mp hnodup
    obtain ⟨hget, hsend⟩ := countAttempt_spec acc index
    obtain ⟨hget', hsend'⟩ := ih (countAttempt acc index) hrest
    rw [List.foldl_cons]
    constructor
    · intro r
      rw [hget', hget]
      by_cases heq : r = index
      · simp [heq, hnot]
      · simp [heq]
    · -- The later rings have not been touched by the first one's attempt.
      have hsame : rest.filter (fun r =>
          (((countAttempt acc index).1.get r).bind (attempted (T := T))).isSome) =
          rest.filter fun r => ((acc.1.get r).bind (attempted (T := T))).isSome := by
        refine List.filter_congr fun r hr => ?_
        have hne : r ≠ index := fun heq => hnot (heq ▸ hr)
        rw [hget, if_neg hne]
      rw [hsend', hsend, hsame, List.filter_cons, List.append_assoc]
      split
      · rfl
      · rfl

/-- The rings asked for are those missing that are not given up. -/
theorem countAttempts_spec (missing : BoundedMap Nat Nat T.maxMissingRootsPerCollection)
    {indices : List Nat} (hnodup : indices.Nodup) :
    (∀ r, (countAttempts missing indices).1.get r =
      if r ∈ indices then (missing.get r).bind (attempted (T := T)) else missing.get r) ∧
    (countAttempts missing indices).2 = indices.filter fun r =>
      ((missing.get r).bind (attempted (T := T))).isSome := by
  have h := foldl_countAttempt (missing, []) hnodup
  exact ⟨h.1, h.2.trans (List.nil_append _)⟩

/-- The rings of a list, in the order in which they are asked for. -/
def inOrder (indices : List Nat) : List Nat := indices.dedup.insertionSort (· ≤ ·)

theorem inOrder_sorted (indices : List Nat) : (inOrder indices).Pairwise (· < ·) := by
  have hle : (inOrder indices).Pairwise (· ≤ ·) := List.pairwise_insertionSort (· ≤ ·) _
  have hne : (inOrder indices).Pairwise (· ≠ ·) :=
    ((List.perm_insertionSort (· ≤ ·) _).nodup_iff).mpr (List.nodup_dedup indices)
  exact (hle.and hne).imp fun h => lt_of_le_of_ne h.1 h.2

@[simp] theorem mem_inOrder {indices : List Nat} {r : Nat} : r ∈ inOrder indices ↔ r ∈ indices := by
  rw [inOrder, List.mem_insertionSort, List.mem_dedup]

/-- The rings that a replay of some rings asks for. -/
def askedFor (s : Store T) (identifier : Identifier) (indices : List Nat) : List Nat :=
  (inOrder indices).filter fun r =>
    (((s.collectionState identifier).missingIndices.get r).bind (attempted (T := T))).isSome

/-- What a replay sends, and what it leaves of the missing rings. -/
theorem processCollectionReplay_spec (env : Env) (identifier : Identifier) (indices : List Nat) :
    (s.processCollectionReplay env identifier (inOrder indices)).2 =
      (replayRequests (T := T) identifier (s.askedFor identifier indices)).takeWhile env.sender ∧
    ∀ id, ((s.processCollectionReplay env identifier (inOrder indices)).1.collectionState
        id).nextRingIndex = (s.collectionState id).nextRingIndex ∧
      ∀ r, ((s.processCollectionReplay env identifier (inOrder indices)).1.collectionState
        id).missingIndices.get r =
        if id = identifier ∧ r ∈ indices then
          ((s.collectionState id).missingIndices.get r).bind (attempted (T := T))
        else (s.collectionState id).missingIndices.get r := by
  have hnodup : (inOrder indices).Nodup := (inOrder_sorted indices).imp Nat.ne_of_lt
  obtain ⟨hget, hsend⟩ := countAttempts_spec (s.collectionState identifier).missingIndices hnodup
  simp only [processCollectionReplay]
  split
  · -- Nothing to ask for.
    rename_i hnothing
    have hnone : ∀ r ∈ indices, (s.collectionState identifier).missingIndices.get r = none := by
      rcases hnothing with hnil | hempty
      · intro r hr
        rw [← mem_inOrder, hnil] at hr
        cases hr
      · exact fun r _ => (StorageMap.isEmpty_iff _).mp hempty r
    have hasked : s.askedFor identifier indices = [] := by
      refine List.filter_eq_nil_iff.mpr fun r hr => ?_
      rw [hnone r (mem_inOrder.mp hr)]
      exact Bool.false_ne_true
    refine ⟨by rw [hasked]; rfl, fun id => ⟨rfl, fun r => ?_⟩⟩
    split
    · rename_i h
      rw [h.1, hnone r h.2]
      rfl
    · rfl
  · refine ⟨by rw [hsend]; rfl, fun id => ?_⟩
    rw [collectionState_of_insert s _ rfl id]
    by_cases heq : id = identifier
    · rw [if_pos heq, heq]
      refine ⟨rfl, fun r => (hget r).trans ?_⟩
      simp only [mem_inOrder, true_and]
    · rw [if_neg heq]
      exact ⟨rfl, fun r => (if_neg fun h => heq h.1).symm⟩

/-- A replay of missing rings by an active subscriber. -/
theorem replayMissingRoots_spec {env : Env} {identifier : Identifier}
    {indices : BoundedVec Nat T.maxMissingRootsPerCollection} {out : Store T × List NotifierCall}
    (h : s.exec env (.replayMissingRoots identifier indices) = .ok out) :
    (∃ sequence, s.subscription = .active sequence ∧ out.1.subscription = .active sequence) ∧
    out.1.processingState.lastProcessedSequence = s.processingState.lastProcessedSequence ∧
    out.2 = (replayRequests (T := T) identifier (s.askedFor identifier indices.toList)).takeWhile
      env.sender ∧
    ∀ id, (out.1.collectionState id).nextRingIndex = (s.collectionState id).nextRingIndex ∧
      ∀ r, (out.1.collectionState id).missingIndices.get r =
        if id = identifier ∧ r ∈ indices.toList then
          ((s.collectionState id).missingIndices.get r).bind (attempted (T := T))
        else (s.collectionState id).missingIndices.get r := by
  simp only [exec, authorizeReplayMissingRoots, bind_eq_ok, ensure_eq_ok] at h
  obtain ⟨-, ⟨-, hactive, -⟩, h⟩ := h
  have hstatus : ∃ sequence, s.subscription = .active sequence := by
    unfold ensureSubscriptionActive at hactive
    split at hactive
    · rename_i sequence hsub
      exact ⟨sequence, hsub⟩
    · cases hactive
    · cases hactive
  obtain ⟨sequence, hsub⟩ := hstatus
  obtain ⟨hsent, hstates⟩ := s.processCollectionReplay_spec env identifier indices.toList
  have hframe : (s.processCollectionReplay env identifier (inOrder indices.toList)).1.subscription =
      s.subscription ∧
      (s.processCollectionReplay env identifier (inOrder indices.toList)).1.processingState =
        s.processingState := by
    simp only [processCollectionReplay]
    split
    · exact ⟨rfl, rfl⟩
    · exact ⟨rfl, rfl⟩
  cases h
  simp only [replayMissingRoots]
  rw [← inOrder]
  split
  · rename_i hnil
    refine ⟨⟨sequence, hsub, hframe.1.trans hsub⟩, by rw [hframe.2], ?_, hstates⟩
    rw [← hsent, hnil]
  · have hlast := congrArg UpdatesProcessingState.lastProcessedSequence hframe.2
    exact ⟨⟨sequence, hsub, hframe.1.trans hsub⟩, hlast, hsent, hstates⟩

/-! ### Batches that are taken in -/

section Intake
variable {s : Store T} {batch : Batch T}

/-- The store that an initialization starts from. -/
def intake (s : Store T) (batch : Batch T) : Store T :=
  match s.subscription with
  | .active initializedAtSequence => if initializedAtSequence < batch.sequence then s.clearAllRingData else s
  | _ => s

theorem initializeRingRoots_eq_ok {env : Env} {ringExponent : RingExponent} {s' : Store T}
    (h : s.initializeRingRoots env ringExponent batch = .ok s') :
    s' = (s.intake batch).storeInitial env ringExponent batch := by
  unfold initializeRingRoots at h
  unfold intake
  cases hsubscription : s.subscription with
  | active initializedAtSequence =>
    rw [hsubscription] at h
    simp only at h ⊢
    split at h
    · cases h
    · split at h
      · next hlt =>
        cases h
        rw [if_pos hlt]
      · next hlt =>
        cases h
        rw [if_neg hlt]
  | inactive =>
    rw [hsubscription] at h
    cases h
    rfl
  | terminated =>
    rw [hsubscription] at h
    cases h
    rfl

theorem processRingUpdates_eq_ok {env : Env} {s' : Store T} (h : s.processRingUpdates env batch = .ok s') :
    s.ensureSubscriptionActive = .ok () ∧ (batch.sequence < s.processingState.lastProcessedSequence ∧ s' = s ∨
      ¬ batch.sequence < s.processingState.lastProcessedSequence ∧ s' = s.applyBatch env.now batch) := by
  simp only [processRingUpdates, bind_eq_ok] at h
  obtain ⟨⟨⟩, hactive, h⟩ := h
  refine ⟨hactive, ?_⟩
  split at h
  · next hlt =>
    cases h
    exact .inl ⟨hlt, rfl⟩
  · next hlt =>
    cases h
    exact .inr ⟨hlt, rfl⟩

end Intake

end Store
end Individuality.Subscriber
