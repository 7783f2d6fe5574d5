import Individuality.Members.Histories
import Individuality.Members.RootChanges

/-! Deleting a collection.

`delete_collection` only marks the collection; its rings are enqueued, their
pages and the queue's pages deleted, and the deletion finalized, one call at a
time. Each of these steps deletes what a ring's total counts or a queue page
lists, so what is left in the end is what no step would find. `Deletable` says
that there is no such thing; the steps of a deletion neither make it true nor
false (`Deletable.exec_iff`), except the removal of a member, which leaves a
suspended record behind. Hence a collection whose members are left alone is
deleted without a trace exactly when it was deletable in the first place
(`finalized_clean_iff`). -/
namespace Individuality.Members
open Support
variable {T : Config}

namespace Store

/-- The page is queued for deletion, or counted in its ring's total. -/
def Scheduled (s : Store T) (r p : Nat) : Prop :=
  (s.ringDeletionQueue.get (r, p)).isSome = true ∨ p < pageCount T (s.ringStatusAt r).total

/-- A member that a deletion will find: one in the queue, or one whose record points at the
slot that stores it, on a page that is scheduled. -/
def Found (s : Store T) (k : T.Member) : Prop :=
  s.members.get k = none ∨ (∃ q, k ∈ s.queuePage q) ∨
    ∃ r p i, s.members.get k = some (.included r p i) ∧ (s.page r p)[i]? = some k ∧ s.Scheduled r p

structure Deletable (s : Store T) : Prop where
  members : ∀ k, s.Found k
  pages : ∀ r p, (s.ringKeys.get (r, p)).isSome = true → s.Scheduled r p
  pending : ∀ r, (s.pendingSuspensions.get r).isSome = true →
    (s.ringKeysStatus.get r).isSome = true

/-- Roots and stale marks belong to rings with a status. -/
structure Tracked (s : Store T) : Prop where
  root : ∀ r, (s.root.get r).isSome = true → (s.ringKeysStatus.get r).isSome = true
  stale : ∀ r, (s.staleRings.get r).isSome = true → (s.ringKeysStatus.get r).isSome = true

/-- Nothing is stored but old roots. -/
structure Clean (s : Store T) : Prop where
  members : ∀ k, s.members.get k = none
  ringKeys : ∀ k, s.ringKeys.get k = none
  ringKeysStatus : ∀ r, s.ringKeysStatus.get r = none
  pendingSuspensions : ∀ r, s.pendingSuspensions.get r = none
  staleRings : ∀ r, s.staleRings.get r = none
  root : ∀ r, s.root.get r = none
  onboardingQueue : ∀ q, s.onboardingQueue.get q = none
  ringDeletionQueue : ∀ k, s.ringDeletionQueue.get k = none
  currentRingIndex : s.currentRingIndex = 0
  onboardingSize : s.onboardingSize = 0
  activeMembers : s.activeMembers = 0
  ringsState : s.ringsState = default
  queuePageIndices : s.queuePageIndices = (0, 0)

theorem clean_iff (s : Store T) : s.Clean ↔
    (s.members.isEmpty = true ∧ s.ringKeys.isEmpty = true ∧ s.ringKeysStatus.isEmpty = true ∧
      s.pendingSuspensions.isEmpty = true ∧ s.staleRings.isEmpty = true ∧ s.root.isEmpty = true ∧
      s.onboardingQueue.isEmpty = true ∧ s.ringDeletionQueue.isEmpty = true) ∧
    s.currentRingIndex = 0 ∧ s.onboardingSize = 0 ∧ s.activeMembers = 0 ∧
      s.ringsState = default ∧ s.queuePageIndices = (0, 0) := by
  simp only [StorageMap.isEmpty_iff]
  constructor
  · rintro ⟨h₁, h₂, h₃, h₄, h₅, h₆, h₇, h₈, h₉, h₁₀, h₁₁, h₁₂, h₁₃⟩
    exact ⟨⟨h₁, h₂, h₃, h₄, h₅, h₆, h₇, h₈⟩, h₉, h₁₀, h₁₁, h₁₂, h₁₃⟩
  · rintro ⟨⟨h₁, h₂, h₃, h₄, h₅, h₆, h₇, h₈⟩, h₉, h₁₀, h₁₁, h₁₂, h₁₃⟩
    exact ⟨h₁, h₂, h₃, h₄, h₅, h₆, h₇, h₈, h₉, h₁₀, h₁₁, h₁₂, h₁₃⟩

instance (s : Store T) : Decidable s.Clean := decidable_of_iff' _ s.clean_iff

/-! ### Roots and stale marks -/

theorem Tracked.empty : Tracked (Store.empty T) :=
  ⟨fun _ h => (by cases h), fun _ h => by cases h⟩

section Tracked
variable {env : Env T} {s s' : Store T}

theorem Tracked.congr (h : Tracked s) (hroot : s'.root = s.root) (hstale : s'.staleRings = s.staleRings)
    (hstatus : s'.ringKeysStatus = s.ringKeysStatus) : Tracked s' :=
  ⟨fun r hr => hstatus ▸ h.root r (hroot ▸ hr), fun r hr => hstatus ▸ h.stale r (hstale ▸ hr)⟩

/-- A ring that is given a status may be given a root and a stale mark. -/
theorem Tracked.insert (h : Tracked s) {r : Nat}
    (hnew : (s'.ringKeysStatus.get r).isSome = true)
    (hstatus : ∀ r', r' ≠ r → s'.ringKeysStatus.get r' = s.ringKeysStatus.get r')
    (hroot : ∀ r', r' ≠ r → s'.root.get r' = s.root.get r')
    (hstale : ∀ r', r' ≠ r → s'.staleRings.get r' = s.staleRings.get r') : Tracked s' := by
  refine ⟨fun r' hr' => ?_, fun r' hr' => ?_⟩
  · by_cases hr : r' = r
    · rw [hr, hnew]
    · rw [hstatus r' hr]
      exact h.root r' (hroot r' hr ▸ hr')
  · by_cases hr : r' = r
    · rw [hr, hnew]
    · rw [hstatus r' hr]
      exact h.stale r' (hstale r' hr ▸ hr')

/-- A ring whose status is taken loses its root and its stale mark. -/
theorem Tracked.remove (h : Tracked s) {r : Nat}
    (hstatus : s'.ringKeysStatus = s.ringKeysStatus.remove r)
    (hroot : ∀ r', s'.root.get r' = if r' = r then none else s.root.get r')
    (hstale : ∀ r', s'.staleRings.get r' = if r' = r then none else s.staleRings.get r') :
    Tracked s' := by
  refine ⟨fun r' hr' => ?_, fun r' hr' => ?_⟩
  · rw [hroot] at hr'
    by_cases hr : r' = r
    · simp [hr] at hr'
    · rw [if_neg hr] at hr'
      simpa [hstatus, hr] using h.root r' hr'
  · rw [hstale] at hr'
    by_cases hr : r' = r
    · simp [hr] at hr'
    · rw [if_neg hr] at hr'
      simpa [hstatus, hr] using h.stale r' hr'

theorem Tracked.step {c : Call T} (h : Tracked s) (hexec : s.exec env c = .ok s') :
    Tracked s' := by
  have same : SameRoots s s' → Tracked s' := fun hsame =>
    h.congr hsame.root hsame.staleRings hsame.ringKeysStatus
  have enqueued (r : Nat) : Tracked (s.enqueueRingForDeletion env r) := by
    obtain ⟨queue, hs', -⟩ := enqueueRingForDeletion_spec env s r
    rw [hs']
    exact h.remove (r := r) rfl (root_archiveRoot env s r) fun r' => StorageMap.get_remove _ _ _
  cases exec_effect hexec with
  | addMembers _ hfold => exact same (addMembers_sameRoots hfold)
  | onboardNone => exact h
  | onboard R =>
    have hroot := congrArg Store.root R.store_eq
    have hstatus := congrArg Store.ringKeysStatus R.store_eq
    have hstale := congrArg Store.staleRings R.store_eq
    refine h.insert (r := R.a.ringIndex) ?_ (fun r hr => ?_) (fun r hr => ?_) fun r hr => ?_
    · rw [hstatus]
      simp
    · rw [hstatus]
      simp [hr]
    · rw [hroot]
    · rw [hstale]
      simp [hr]
  | selfInclude hself =>
    obtain ⟨info, q, t, d, a, keys, -, -, -, hd, -, -, rfl⟩ := doSelfInclude_spec hself
    obtain ⟨-, hframe, -, -⟩ := dequeue_spec hd
    rw [hframe]
    exact h.insert (r := a.ringIndex) (by simp) (fun r hr => by simp [hr]) (fun r hr => rfl)
      fun r hr => by simp [hr]
  | mergeQueuePages hmerge => exact same (mergeFrontQueuePages_sameRoots hmerge)
  | @buildRing r n _ hbuild =>
    obtain ⟨info, capacity, start, root, status, -, -, -, -, -, -, -, -, hs'⟩ := buildRing_spec hbuild
    have hroot := congrArg Store.root hs'
    have hstatus := congrArg Store.ringKeysStatus hs'
    refine h.insert (r := r) ?_ (fun r' hr => ?_) (fun r' hr => ?_) fun r' hr =>
      staleRings_buildRing hbuild hr
    · rw [hstatus]
      simp
    · rw [hstatus]
      simp [hr]
    · rw [hroot]
      simp [hr]
  | @mergeRings base target _ hmerge =>
    obtain ⟨info, m, -, -, hne, -, -, -, -, -, -, -, rfl⟩ := mergeRings_spec hmerge
    -- The base is given a status and a mark, then the target loses its own.
    have hbase : Tracked { s with
        ringKeysStatus := s.ringKeysStatus.insert base { s.ringStatusAt base with
          total := U32.saturatingAdd (s.ringStatusAt base).total (s.page target 0).length }
        staleRings := s.staleRings.insert base () } :=
      h.insert (r := base) (by simp) (fun r hr => by simp [hr]) (fun r hr => rfl)
        fun r hr => by simp [hr]
    refine hbase.remove (r := target) rfl (fun r => ?_) fun r => ?_
    · exact root_archiveRoot env s target r
    · exact StorageMap.get_remove _ _ _
  | removeMembers _ hfold => exact same (queueMemberSuspensions_sameRoots hfold)
  | @removeSuspendedKeys r _ =>
    rcases removeSuspendedKeys_spec env s r with ⟨-, hs'⟩ |
      ⟨info, capacity, members, page, -, -, -, -, hs'⟩
    · rw [hs']
      exact h
    · rw [hs']
      refine h.insert (r := r) (by simp) (fun r' hr => by simp [hr]) (fun r' hr => ?_) fun r' hr => ?_
      · exact (root_resetRoot env s capacity r r').trans (if_neg hr)
      · show (if 0 < page.length then s.staleRings.insert r () else s.staleRings).get r' = _
        split <;> simp [hr]
  | removeRing _ _ _ => exact enqueued _
  | deleteRingPage _ => exact same (deleteRingPage_sameRoots _ _ _)
  | enqueueRingDeletion _ _ => exact enqueued _
  | deleteOnboardingQueuePage _ => exact same (deleteOnboardingQueuePage_sameRoots _)
  | @markRingStale r =>
    simp only [exec, markRingStaleAuthorized, bind_eq_ok, ensure_eq_ok] at hexec
    obtain ⟨-, -, -, -, -, hlt, -⟩ := hexec
    refine h.insert (r := r) ?_ (fun r' hr => rfl) (fun r' hr => rfl) fun r' hr => ?_
    · show (s.ringKeysStatus.get r).isSome = true
      unfold ringStatusAt at hlt
      cases hget : s.ringKeysStatus.get r with
      | none =>
        rw [hget] at hlt
        exact absurd hlt (Nat.lt_irrefl _)
      | some status => rfl
    · simp [setStale, hr]
  | createCollection _ _ _ _ => exact same ⟨rfl, rfl, rfl, rfl⟩
  | setOnboardingSize => exact same ⟨rfl, rfl, rfl, rfl⟩
  | session _ _ => exact same ⟨rfl, rfl, rfl, rfl⟩
  | removeRingQueued _ => exact h
  | deleteCollection _ _ => exact same ⟨rfl, rfl, rfl, rfl⟩
  | finalizeCollectionDeletion _ _ _ _ => exact same ⟨rfl, rfl, rfl, rfl⟩
  | cleanUpOldRoots _ _ => exact h.congr rfl rfl rfl

end Tracked

/-! ### The steps of a deletion -/

/-- The collection is marked for deletion. -/
structure Deleting (s : Store T) : Prop where
  collections : s.collections = none
  suspended : s.suspendedCollections.isSome = true

section Steps
variable {env : Env T} {s s' : Store T}

open Classical in
/-- Deleting a page that is queued deletes the records that point into it. -/
theorem deletable_deleteRingPage {r p : Nat} (hq : (s.ringDeletionQueue.get (r, p)).isSome = true) :
    Deletable ({ s with ringDeletionQueue := s.ringDeletionQueue.remove (r, p) }.deleteRingPage r p) ↔
      Deletable s := by
  obtain ⟨members, hs', hmembers⟩ := deleteRingPage_spec
    { s with ringDeletionQueue := s.ringDeletionQueue.remove (r, p) } r p
  rw [hs']
  generalize ht : ({ s with
    ringDeletionQueue := s.ringDeletionQueue.remove (r, p)
    members := members
    ringKeys := s.ringKeys.remove (r, p) } : Store T) = t
  have hqueue : ∀ q, t.queuePage q = s.queuePage q := fun q => by rw [← ht]; rfl
  have hstatus : ∀ r', t.ringStatusAt r' = s.ringStatusAt r' := fun r' => by rw [← ht]; rfl
  have hpage : ∀ r' p', t.page r' p' = if r' = r ∧ p' = p then [] else s.page r' p' := by
    intro r' p'
    rw [← ht]
    exact page_removeRingPage s r r' p p'
  have hsched : ∀ r' p', ¬ (r' = r ∧ p' = p) → (t.Scheduled r' p' ↔ s.Scheduled r' p') := by
    intro r' p' hne
    unfold Scheduled
    rw [hstatus, ← ht]
    simp [hne]
  have hrecord : ∀ k, t.members.get k = if ∃ i, (s.page r p)[i]? = some k ∧
      s.members.get k = some (.included r p i) then none else s.members.get k := by
    intro k
    rw [← ht]
    exact hmembers k
  have hfound : ∀ k, t.Found k ↔ s.Found k := by
    intro k
    by_cases hgone : ∃ i, (s.page r p)[i]? = some k ∧ s.members.get k = some (.included r p i)
    · obtain ⟨i, hslot, hget⟩ := hgone
      have hnone : t.members.get k = none := by rw [hrecord, if_pos ⟨i, hslot, hget⟩]
      exact iff_of_true (.inl hnone) (.inr (.inr ⟨r, p, i, hget, hslot, .inl hq⟩))
    · have hsame : t.members.get k = s.members.get k := by rw [hrecord, if_neg hgone]
      unfold Found
      simp only [hsame, hqueue]
      refine or_congr_right (or_congr_right ?_)
      constructor
      · rintro ⟨r', p', i, hget, hslot, hs⟩
        have hne : ¬ (r' = r ∧ p' = p) := fun hrp => by simp [hpage, hrp] at hslot
        rw [hpage, if_neg hne] at hslot
        exact ⟨r', p', i, hget, hslot, (hsched r' p' hne).mp hs⟩
      · rintro ⟨r', p', i, hget, hslot, hs⟩
        have hne : ¬ (r' = r ∧ p' = p) := by
          rintro ⟨rfl, rfl⟩
          exact hgone ⟨i, hslot, hget⟩
        refine ⟨r', p', i, hget, ?_, (hsched r' p' hne).mpr hs⟩
        rw [hpage, if_neg hne, hslot]
  have hpages : (∀ r' p', (t.ringKeys.get (r', p')).isSome = true → t.Scheduled r' p') ↔
      ∀ r' p', (s.ringKeys.get (r', p')).isSome = true → s.Scheduled r' p' := by
    refine forall_congr' fun r' => forall_congr' fun p' => ?_
    by_cases hrp : r' = r ∧ p' = p
    · obtain ⟨rfl, rfl⟩ := hrp
      refine iff_of_true (fun hsome => ?_) fun _ => .inl hq
      rw [← ht] at hsome
      simp at hsome
    · rw [hsched r' p' hrp, ← ht]
      simp [hrp]
  constructor
  · intro h
    refine ⟨fun k => (hfound k).mp (h.members k), hpages.mp h.pages, ?_⟩
    have hpending := h.pending
    rw [← ht] at hpending
    exact hpending
  · intro h
    refine ⟨fun k => (hfound k).mpr (h.members k), hpages.mpr h.pages, ?_⟩
    rw [← ht]
    exact h.pending

/-- Enqueueing a ring schedules the pages its total counted. -/
theorem deletable_enqueueRingForDeletion {r : Nat} (hr : (s.ringKeysStatus.get r).isSome = true) :
    Deletable (s.enqueueRingForDeletion env r) ↔ Deletable s := by
  obtain ⟨queue, hs', hqueue⟩ := enqueueRingForDeletion_spec env s r
  rw [hs']
  generalize ht : ({ s with
    root := (s.archiveRoot env r).root
    oldRoots := (s.archiveRoot env r).oldRoots
    staleRings := s.staleRings.remove r
    pendingSuspensions := s.pendingSuspensions.remove r
    ringKeysStatus := s.ringKeysStatus.remove r
    activeMembers := s.activeMembers - (s.ringStatusAt r).total
    ringDeletionQueue := queue } : Store T) = t
  have hsched : ∀ r' p', t.Scheduled r' p' ↔ s.Scheduled r' p' := by
    intro r' p'
    unfold Scheduled
    have hstatus : t.ringStatusAt r' = if r' = r then default else s.ringStatusAt r' := by
      rw [← ht]
      by_cases hrr : r' = r <;> simp [ringStatusAt, hrr]
    rw [hstatus, ← ht]
    show ((queue.get (r', p')).isSome = true ∨ _) ↔ _
    rw [hqueue]
    by_cases hrr : r' = r
    · subst hrr
      simp [pageCount]
    · simp [hrr]
  have hfound : ∀ k, t.Found k ↔ s.Found k := by
    intro k
    unfold Found
    simp only [hsched]
    rw [← ht]
    rfl
  constructor
  · intro h
    refine ⟨fun k => (hfound k).mp (h.members k), fun r' p' hsome => (hsched r' p').mp
      (h.pages r' p' (by rw [← ht]; exact hsome)), fun r' hsome => ?_⟩
    by_cases hrr : r' = r
    · rw [hrr, hr]
    · have hpending := h.pending r' (by rw [← ht]; simpa [hrr] using hsome)
      rw [← ht] at hpending
      simpa [hrr] using hpending
  · intro h
    refine ⟨fun k => (hfound k).mpr (h.members k), fun r' p' hsome => (hsched r' p').mpr
      (h.pages r' p' (by rw [← ht] at hsome; exact hsome)), fun r' hsome => ?_⟩
    rw [← ht] at hsome ⊢
    by_cases hrr : r' = r
    · simp [hrr] at hsome
    · simpa [hrr] using h.pending r' (by simpa [hrr] using hsome)

/-- Deleting a page of the queue deletes the records of the members in it. -/
theorem deletable_deleteOnboardingQueuePage (q : QueuePageIndex) :
    Deletable (s.deleteOnboardingQueuePage q) ↔ Deletable s := by
  obtain ⟨members, hs', hmembers⟩ := deleteOnboardingQueuePage_spec s q
  rw [hs']
  generalize ht : ({ s with
    members := members
    onboardingQueue := s.onboardingQueue.remove q } : Store T) = t
  have hqueue : ∀ q', t.queuePage q' = if q' = q then [] else s.queuePage q' := by
    intro q'
    rw [← ht]
    exact queuePage_removeQueuePage s q q'
  have hrecord : ∀ k, t.members.get k = if k ∈ s.queuePage q then none else s.members.get k := by
    intro k
    rw [← ht]
    exact hmembers k
  have hsched : t.Scheduled = s.Scheduled := by
    rw [← ht]
    rfl
  have hpage : t.page = s.page := by
    rw [← ht]
    rfl
  have hfound : ∀ k, t.Found k ↔ s.Found k := by
    intro k
    by_cases hk : k ∈ s.queuePage q
    · exact iff_of_true (.inl (by rw [hrecord, if_pos hk])) (.inr (.inl ⟨q, hk⟩))
    · unfold Found
      rw [hrecord, if_neg hk, hsched, hpage]
      refine or_congr_right (or_congr_left ?_)
      refine exists_congr fun q' => ?_
      rw [hqueue]
      by_cases hq : q' = q
      · simp [hq, hk]
      · rw [if_neg hq]
  constructor
  · intro h
    refine ⟨fun k => (hfound k).mp (h.members k), ?_, ?_⟩
    · rw [← hsched]
      have hpages := h.pages
      rw [← ht] at hpages ⊢
      exact hpages
    · have hpending := h.pending
      rw [← ht] at hpending
      exact hpending
  · intro h
    refine ⟨fun k => (hfound k).mpr (h.members k), ?_, ?_⟩
    · rw [hsched, ← ht]
      exact h.pages
    · rw [← ht]
      exact h.pending

theorem shouldMergeQueuePages_of_deleting (h : Deleting s) :
    s.shouldMergeQueuePages = .noAction := if_pos h.suspended

/-- While a collection is being deleted, a call other than a removal of members and the
finalization leaves it so, and as deletable as it was. -/
theorem deletable_step {c : Call T} (h : Deleting s) (hexec : s.exec env c = .ok s')
    (hremove : ∀ suspensions, c = .removeMembers suspensions → suspensions = [])
    (hfinal : c ≠ .finalizeCollectionDeletion) : Deleting s' ∧ (Deletable s' ↔ Deletable s) := by
  have hnone := h.collections
  cases exec_effect hexec with
  | createCollection _ hsuspended _ _ =>
    have := h.suspended
    simp [hsuspended] at this
  | addMembers hsome _ => simp [hnone] at hsome
  | setOnboardingSize => exact ⟨⟨h.1, h.2⟩, ⟨fun d => ⟨d.1, d.2, d.3⟩, fun d => ⟨d.1, d.2, d.3⟩⟩⟩
  | onboardNone => exact ⟨h, Iff.rfl⟩
  | onboard R =>
    have := R.collections_eq
    simp [hnone] at this
  | selfInclude hself =>
    obtain ⟨info, _, _, _, _, _, hinfo, -⟩ := doSelfInclude_spec hself
    simp [hnone] at hinfo
  | mergeQueuePages hmerge =>
    rw [mergeFrontQueuePages, shouldMergeQueuePages_of_deleting h] at hmerge
    cases hmerge
  | buildRing hbuild =>
    obtain ⟨info, _, _, _, _, hinfo, -⟩ := buildRing_spec hbuild
    simp [hnone] at hinfo
  | mergeRings hmerge =>
    obtain ⟨info, _, hinfo, -⟩ := mergeRings_spec hmerge
    simp [hnone] at hinfo
  | session state _ => exact ⟨⟨h.1, h.2⟩, ⟨fun d => ⟨d.1, d.2, d.3⟩, fun d => ⟨d.1, d.2, d.3⟩⟩⟩
  | @removeMembers suspensions _ _ hfold =>
    rw [hremove suspensions rfl] at hfold
    cases hfold
    exact ⟨h, Iff.rfl⟩
  | @removeSuspendedKeys r hr =>
    simp [shouldRemoveSuspendedKeys, h.suspended] at hr
  | removeRingQueued _ => exact ⟨h, Iff.rfl⟩
  | removeRing hsome _ _ => simp [hnone] at hsome
  | @deleteRingPage r p hq =>
    refine ⟨?_, deletable_deleteRingPage hq⟩
    obtain ⟨members, hs', -⟩ := deleteRingPage_spec
      { s with ringDeletionQueue := s.ringDeletionQueue.remove (r, p) } r p
    rw [hs']
    exact ⟨h.1, h.2⟩
  | deleteCollection hinfo _ => simp [hnone] at hinfo
  | @enqueueRingDeletion r _ hr =>
    refine ⟨?_, deletable_enqueueRingForDeletion hr⟩
    obtain ⟨queue, hs', -⟩ := enqueueRingForDeletion_spec env s r
    rw [hs']
    exact ⟨h.1, h.2⟩
  | @deleteOnboardingQueuePage q _ =>
    refine ⟨?_, deletable_deleteOnboardingQueuePage q⟩
    obtain ⟨members, hs', -⟩ := deleteOnboardingQueuePage_spec s q
    rw [hs']
    exact ⟨h.1, h.2⟩
  | finalizeCollectionDeletion _ _ _ _ => exact absurd rfl hfinal
  | markRingStale => exact ⟨⟨h.1, h.2⟩, ⟨fun d => ⟨d.1, d.2, d.3⟩, fun d => ⟨d.1, d.2, d.3⟩⟩⟩
  | cleanUpOldRoots _ _ => exact ⟨⟨h.1, h.2⟩, ⟨fun d => ⟨d.1, d.2, d.3⟩, fun d => ⟨d.1, d.2, d.3⟩⟩⟩

/-- What is left when the deletion is finalized is what no step found. -/
theorem clean_finalize_iff (htracked : Tracked s)
    (hexec : s.exec env .finalizeCollectionDeletion = .ok s') : Clean s' ↔ Deletable s := by
  cases exec_effect hexec with
  | session state hc => rcases hc with hc | hc <;> cases hc
  | finalizeCollectionDeletion _ hstatus hdeletions hqueue =>
    have hunscheduled : ∀ r p, ¬ s.Scheduled r p := by
      intro r p hs
      unfold Scheduled ringStatusAt at hs
      simp [hstatus, hdeletions, pageCount] at hs
    have hunqueued : ∀ q, s.queuePage q = [] := fun q => by
      unfold queuePage queueAt
      rw [hqueue]
      rfl
    have noneOf : ∀ {r : Nat}, ¬ (s.ringKeysStatus.get r).isSome = true := fun {r} => by
      simp [hstatus r]
    constructor
    · intro h
      refine ⟨fun k => .inl (h.members k), fun r p hsome => ?_, fun r hsome => ?_⟩
      · have := h.ringKeys (r, p)
        simp [finalizeCollectionDeletion] at this
        simp [this] at hsome
      · have := h.pendingSuspensions r
        simp [finalizeCollectionDeletion] at this
        simp [this] at hsome
    · intro h
      refine ⟨fun k => ?_, fun k => ?_, hstatus, fun r => ?_, fun r => ?_, fun r => ?_, hqueue,
        hdeletions, rfl, rfl, rfl, rfl, rfl⟩
      · rcases h.members k with hnone | ⟨q, hk⟩ | ⟨r, p, i, -, -, hs⟩
        · exact hnone
        · rw [hunqueued] at hk
          cases hk
        · exact absurd hs (hunscheduled r p)
      · by_contra hne
        exact hunscheduled _ _ (h.pages k.1 k.2 (Option.isSome_iff_ne_none.mpr hne))
      · by_contra hne
        exact noneOf (h.pending r (Option.isSome_iff_ne_none.mpr hne))
      · by_contra hne
        exact noneOf (htracked.stale r (Option.isSome_iff_ne_none.mpr hne))
      · by_contra hne
        exact noneOf (htracked.root r (Option.isSome_iff_ne_none.mpr hne))

end Steps

end Store

/-! ### Whole deletions -/

namespace State
variable {s s' : State T}

/-- The actions of a deletion keep the collection marked and as deletable as it was. -/
theorem deletable_run {id : Identifier} {actions : List (Action T)}
    (hrun : actions.foldlM exec s = .ok s') (h : (s.store id).Deleting)
    (hremove : ∀ suspensions, .call id (.removeMembers suspensions) ∈ actions → suspensions = [])
    (hfinal : .call id .finalizeCollectionDeletion ∉ actions) :
    (s'.store id).Deleting ∧ ((s'.store id).Deletable ↔ (s.store id).Deletable) := by
  refine foldlM_ok_induction (fun _ t => (t.store id).Deleting ∧
    ((t.store id).Deletable ↔ (s.store id).Deletable)) hrun ⟨h, Iff.rfl⟩ ?_
  intro done a t t' hpre ⟨ht, hiff⟩ hstep
  have hmem : a ∈ actions := hpre.sublist.subset (by simp)
  cases a with
  | call id' c =>
    obtain ⟨hstore, -, hother⟩ := exec_call hstep
    by_cases hid : id = id'
    · subst hid
      obtain ⟨ht', hsame⟩ := Store.deletable_step ht hstore
        (fun suspensions hc => hremove suspensions (hc ▸ hmem))
        (fun hc => hfinal (hc ▸ hmem))
      exact ⟨ht', hsame.trans hiff⟩
    · rw [hother id hid]
      exact ⟨ht, hiff⟩
  | advance seconds =>
    cases hstep
    exact ⟨ht, hiff⟩
  | provideChunks chunks =>
    cases hstep
    exact ⟨ht, hiff⟩

/-- The collection is deletable when it is marked: `delete_collection` moves its entry only. -/
theorem deletable_deleteCollection {id : Identifier} {owner : T.Location}
    (h : s.exec (.call id (.deleteCollection owner)) = .ok s') :
    (s'.store id).Deleting ∧ ((s'.store id).Deletable ↔ (s.store id).Deletable) := by
  obtain ⟨hstore, -, -⟩ := exec_call h
  generalize s'.store id = t at hstore ⊢
  cases exec_effect hstore with
  | session state hc => rcases hc with hc | hc <;> cases hc
  | deleteCollection hinfo hsuspended =>
    exact ⟨⟨rfl, rfl⟩, ⟨fun d => ⟨d.1, d.2, d.3⟩, fun d => ⟨d.1, d.2, d.3⟩⟩⟩

end State

/-- A deletion during which no member is removed leaves nothing behind exactly when, as
`delete_collection` is called, every member waits in the queue or is stored where its record
says on a scheduled page, every stored page is scheduled, and only rings with a status have
suspensions pending. -/
theorem finalized_clean_iff {s s₀ s₁ s₂ : State T} {id : Identifier} {owner : T.Location}
    {actions : List (Action T)} (hs : State.Reachable (fun _ _ => True) s)
    (hdelete : s.exec (.call id (.deleteCollection owner)) = .ok s₀)
    (hrun : actions.foldlM State.exec s₀ = .ok s₁)
    (hfinal : .call id .finalizeCollectionDeletion ∉ actions)
    (hremove : ∀ suspensions, .call id (.removeMembers suspensions) ∈ actions → suspensions = [])
    (hfinalize : s₁.exec (.call id .finalizeCollectionDeletion) = .ok s₂) :
    (s₂.store id).Clean ↔ (s.store id).Deletable := by
  obtain ⟨hdeleting, hdeletable⟩ := State.deletable_deleteCollection hdelete
  obtain ⟨-, hsame⟩ := State.deletable_run hrun hdeleting hremove hfinal
  have hreach : State.Reachable (fun _ _ => True) s₁ :=
    Reaches.trans (hs.tail trivial hdelete) (Reaches.of_foldlM hrun fun _ _ _ => trivial)
  have htracked : (s₁.store id).Tracked := by
    refine State.reachable_invariant (G := fun _ _ _ => True)
      (hreach.mono fun _ a _ => by cases a <;> trivial) Store.Tracked.empty ?_ id
    intro env t c t' ht _ hexec
    exact ht.step hexec
  obtain ⟨hexec, -, -⟩ := State.exec_call hfinalize
  exact (Store.clean_finalize_iff htracked hexec).trans (hsame.trans hdeletable)

/-! ### Sample deletions -/

/-- Calls on the sample collection. -/
def sampleCalls (calls : List (Call sampleConfig)) : List (Action sampleConfig) :=
  calls.map (.call sampleId)

/-- A collection of three members, two in a ring and one in the queue. -/
def sampleCollection : List (Call sampleConfig) :=
  [.createCollection (0 : Nat) 1 .flexible .r2e9 none, .addMembers (sampleKeys 0 2),
    .onboardMembers true, .buildRing 0 2, .addMembers (sampleKeys 2 1)]

def sampleDeletion : List (Call sampleConfig) :=
  [.enqueueRingDeletion 0, .deleteRingPage 0 0]

/-- What a deletion of the sample collection goes through, and where it ends. -/
theorem exists_sampleDeletion (collection deletion : List (Call sampleConfig))
    (P : State sampleConfig → Prop) [DecidablePred P]
    (h : ((sampleCalls (collection ++ [.deleteCollection (0 : Nat)] ++ deletion ++
      [.finalizeCollectionDeletion])).foldlM State.exec (State.genesis sampleConfig)).toOption.any
        (fun s => decide (P s)) = true) :
    ∃ s s₀ s₁ s₂, State.Reachable (fun _ _ => True) s ∧
      s.exec (.call sampleId (.deleteCollection (0 : Nat))) = .ok s₀ ∧
      (sampleCalls deletion).foldlM State.exec s₀ = .ok s₁ ∧
      s₁.exec (.call sampleId .finalizeCollectionDeletion) = .ok s₂ ∧ P s₂ := by
  cases hrun : (sampleCalls (collection ++ [.deleteCollection (0 : Nat)] ++ deletion ++
      [.finalizeCollectionDeletion])).foldlM State.exec (State.genesis sampleConfig) with
  | error e =>
    rw [hrun] at h
    cases h
  | ok s₂ =>
    rw [hrun] at h
    simp only [sampleCalls, List.map_append, List.foldlM_append, bind_eq_ok, List.map_cons,
      List.map_nil, List.foldlM_cons, List.foldlM_nil, pure_eq_ok] at hrun
    obtain ⟨s₁, ⟨s₀, ⟨s, hs, _, hdelete, heq⟩, hdeletion⟩, _, hfinalize, heq'⟩ := hrun
    subst heq heq'
    exact ⟨s, _, s₁, _, Reaches.of_foldlM hs fun _ _ _ => trivial, hdelete, hdeletion, hfinalize,
      of_decide_eq_true h⟩

theorem finalized_clean_sample : ∃ s s₀ s₁ s₂ : State sampleConfig,
    s.exec (.call sampleId (.deleteCollection (0 : Nat))) = .ok s₀ ∧
      (sampleCalls (sampleDeletion ++ [.deleteOnboardingQueuePage 0])).foldlM State.exec s₀ =
        .ok s₁ ∧
      s₁.exec (.call sampleId .finalizeCollectionDeletion) = .ok s₂ ∧
      (s₂.store sampleId).Clean ∧ (s.store sampleId).Deletable := by
  obtain ⟨s, s₀, s₁, s₂, hs, hdelete, hrun, hfinalize, hclean⟩ := exists_sampleDeletion
    sampleCollection (sampleDeletion ++ [.deleteOnboardingQueuePage 0])
    (fun s => (s.store sampleId).Clean) (by decide)
  refine ⟨s, s₀, s₁, s₂, hdelete, hrun, hfinalize, hclean, ?_⟩
  refine (finalized_clean_iff hs hdelete hrun ?_ ?_ hfinalize).mp hclean
  · simp [sampleCalls, sampleDeletion]
  · simp [sampleCalls, sampleDeletion]

/-- A member that was removed from its ring before the deletion keeps its record. -/
theorem finalized_clean_fails : ∃ s s₀ s₁ s₂ : State sampleConfig,
    State.Reachable (fun _ _ => True) s ∧
      s.exec (.call sampleId (.deleteCollection (0 : Nat))) = .ok s₀ ∧
      (sampleCalls sampleDeletion).foldlM State.exec s₀ = .ok s₁ ∧
      s₁.exec (.call sampleId .finalizeCollectionDeletion) = .ok s₂ ∧
      (s₂.store sampleId).members.get (1 : Nat) = some .suspended ∧
      ¬ (s₂.store sampleId).Clean := by
  obtain ⟨s, s₀, s₁, s₂, hs, hdelete, hrun, hfinalize, hmember⟩ := exists_sampleDeletion
    ([.createCollection (0 : Nat) 1 .flexible .r2e9 none,
      .addMembers (sampleKeys 0 2), .onboardMembers true, .startRemovalSession,
      .removeMembers (sampleKeys 1 1), .endRemovalSession, .removeSuspendedKeys 0])
    sampleDeletion
    (fun s => (s.store sampleId).members.get (1 : Nat) = some .suspended) (by decide)
  refine ⟨s, s₀, s₁, s₂, hs, hdelete, hrun, hfinalize, hmember, fun hclean => ?_⟩
  cases hmember.symm.trans (hclean.members (1 : Nat))

end Individuality.Members
