import Individuality.Members.RemovalEffects

/-! What a call can do, said once.

`Effect env s c s'` lists, for each call, what was checked and the store that is
left; an accepted call has its effect (`exec_effect`). An invariant of the pallet
is proved by cases on the effect. -/
namespace Individuality.Members
open Support
variable {T : Config}

namespace Store

/-- Old roots are cleaned up only once their retention period has passed. -/
theorem cleanUpOldRoots_spec (env : Env T) (r limit : Nat) (s : Store T) :
    ∃ oldRoots, cleanUpOldRoots env r limit s = { s with oldRoots := oldRoots } ∧
      ∀ k, oldRoots.get k = s.oldRoots.get k ∨ (oldRoots.get k = none ∧ ∃ oldRoot,
        s.oldRoots.get k = some oldRoot ∧
        U64.saturatingAdd oldRoot.archivedAt T.oldRootRetentionDuration ≤ env.now) := by
  induction limit generalizing s with
  | zero => exact ⟨s.oldRoots, rfl, fun _ => .inl rfl⟩
  | succ limit ih =>
    unfold cleanUpOldRoots
    split
    · exact ⟨s.oldRoots, rfl, fun _ => .inl rfl⟩
    · rename_i revision _
      split
      · exact ⟨s.oldRoots, rfl, fun _ => .inl rfl⟩
      · rename_i oldRoot hget
        split
        · exact ⟨s.oldRoots, rfl, fun _ => .inl rfl⟩
        · rename_i hexpired
          obtain ⟨oldRoots, hs, hrest⟩ := ih { s with oldRoots := s.oldRoots.remove (r, revision) }
          refine ⟨oldRoots, hs, fun k => ?_⟩
          simp only [StorageMap.get_remove] at hrest
          by_cases hk : k = (r, revision)
          · subst hk
            have hgone : oldRoots.get (r, revision) = none := by
              rcases hrest (r, revision) with h | ⟨h, -⟩
              · simpa using h
              · exact h
            exact .inr ⟨hgone, oldRoot, hget, Nat.le_of_not_lt hexpired⟩
          · simpa only [hk, if_false] using hrest k

end Store

inductive Effect (env : Env T) (s : Store T) : Call T → Store T → Prop
  | createCollection {owner n mode size delay} :
      s.collections = none → s.suspendedCollections = none →
      (mode = .flexible → size.ringCapacity ≤ T.flexibleRingCapacity) → n ≤ size.ringCapacity →
      Effect env s (.createCollection owner n mode size delay) { s with
        collections := some ⟨.external owner, mode, size, delay⟩
        onboardingSize := n
        ringsState := default }
  | addMembers {members s'} : s.collections.isSome = true →
      members.foldlM (Store.addMember env) s = .ok s' → Effect env s (.addMembers members) s'
  | setOnboardingSize {n} : Effect env s (.setOnboardingSize n) { s with onboardingSize := n }
  | onboardNone {mustBuild} : Effect env s (.onboardMembers mustBuild) s
  | onboard {mustBuild s'} (R : Store.Round s s') : Effect env s (.onboardMembers mustBuild) s'
  | selfInclude {member s'} : s.doSelfInclude member = .ok s' → Effect env s (.selfInclude member) s'
  | mergeQueuePages {s'} : s.mergeFrontQueuePages = .ok s' → Effect env s .mergeQueuePages s'
  | buildRing {r n s'} : s.buildRing env r n = .ok s' → Effect env s (.buildRing r n) s'
  | mergeRings {base target s'} : s.mergeRings env base target = .ok s' →
      Effect env s (.mergeRings base target) s'
  | session {c} (state : RingMembersState) : c = .startRemovalSession ∨ c = .endRemovalSession →
      Effect env s c { s with ringsState := state }
  | removeMembers {suspensions s'} : s.ringsState.mutating = true →
      suspensions.foldlM Store.queueMemberSuspension s = .ok s' →
      Effect env s (.removeMembers suspensions) s'
  | removeSuspendedKeys {r} : s.shouldRemoveSuspendedKeys r true = true →
      Effect env s (.removeSuspendedKeys r) (s.removeSuspendedKeys env r)
  | removeRingQueued {r} : s.ringQueued r = true → Effect env s (.removeRing r) s
  | removeRing {r} : s.collections.isSome = true → r ≠ s.currentRingIndex →
      s.ringQueued r = false → Effect env s (.removeRing r) (s.enqueueRingForDeletion env r)
  | deleteRingPage {r p} : (s.ringDeletionQueue.get (r, p)).isSome = true →
      Effect env s (.deleteRingPage r p)
        ({ s with ringDeletionQueue := s.ringDeletionQueue.remove (r, p) }.deleteRingPage r p)
  | deleteCollection {owner info} : s.collections = some info →
      s.suspendedCollections = none → Effect env s (.deleteCollection owner)
        { s with collections := none, suspendedCollections := some info }
  | enqueueRingDeletion {r} : s.suspendedCollections.isSome = true →
      (s.ringKeysStatus.get r).isSome = true →
      Effect env s (.enqueueRingDeletion r) (s.enqueueRingForDeletion env r)
  | deleteOnboardingQueuePage {q} : s.suspendedCollections.isSome = true →
      Effect env s (.deleteOnboardingQueuePage q) (s.deleteOnboardingQueuePage q)
  | finalizeCollectionDeletion : s.suspendedCollections.isSome = true →
      (∀ r, s.ringKeysStatus.get r = none) → (∀ k, s.ringDeletionQueue.get k = none) →
      (∀ q, s.onboardingQueue.get q = none) →
      Effect env s .finalizeCollectionDeletion s.finalizeCollectionDeletion
  | markRingStale {r} : Effect env s (.markRingStale r) (s.setStale r)
  | cleanUpOldRoots {r limit} (oldRoots : StorageMap (Nat × Nat) (OldRoot T)) :
      (∀ k, oldRoots.get k = s.oldRoots.get k ∨ (oldRoots.get k = none ∧ ∃ oldRoot,
        s.oldRoots.get k = some oldRoot ∧
        U64.saturatingAdd oldRoot.archivedAt T.oldRootRetentionDuration ≤ env.now)) →
      Effect env s (.cleanUpOldRoots r limit) { s with oldRoots := oldRoots }

/-- An accepted call has its effect. -/
theorem exec_effect {env : Env T} {s s' : Store T} {c : Call T} (h : s.exec env c = .ok s') :
    Effect env s c s' := by
  cases c with
  | createCollection owner n mode size delay =>
    simp only [Store.exec, Store.createCollection, bind_eq_ok, ensure_eq_ok] at h
    obtain ⟨-, ⟨hc, hs⟩, -, hflex, -, hn, h⟩ := h
    cases h
    exact .createCollection (Option.isNone_iff_eq_none.mp hc) (Option.isNone_iff_eq_none.mp hs)
      (fun hm => (hflex hm).2) hn
  | addMembers members =>
    obtain ⟨hc, hfold⟩ := Store.addMembers_spec h
    exact .addMembers hc hfold
  | setOnboardingSize n =>
    simp only [Store.exec, Store.setOnboardingSize, bind_eq_ok, ensure_eq_ok] at h
    obtain ⟨-, -, -, -, h⟩ := h
    cases h
    exact .setOnboardingSize
  | onboardMembers mustBuild =>
    simp only [Store.exec, Except.map] at h
    split at h
    · cases h
    · rename_i result hround
      obtain ⟨t, done⟩ := result
      cases h
      rcases Store.onboardMembers_spec hround with ⟨hs, -⟩ | hR
      · rw [hs]
        exact .onboardNone
      · obtain ⟨R⟩ := hR
        exact .onboard R
  | selfInclude member => exact .selfInclude h
  | mergeQueuePages => exact .mergeQueuePages h
  | buildRing r n => exact .buildRing h
  | mergeRings base target => exact .mergeRings h
  | startRemovalSession =>
    simp only [Store.exec, Store.startRemovalSession] at h
    split at h
    · cases h
      exact .session s.ringsState (.inl rfl)
    · simp only [bind_eq_ok] at h
      obtain ⟨state, -, h⟩ := h
      cases h
      exact .session state (.inl rfl)
  | endRemovalSession =>
    simp only [Store.exec, Store.endRemovalSession] at h
    split at h
    · cases h
      exact .session s.ringsState (.inr rfl)
    · simp only [bind_eq_ok] at h
      obtain ⟨state, -, h⟩ := h
      cases h
      exact .session state (.inr rfl)
  | removeMembers suspensions =>
    obtain ⟨hm, hfold⟩ := Store.queueMemberSuspensions_spec h
    exact .removeMembers hm hfold
  | removeSuspendedKeys r =>
    simp only [Store.exec, Store.removeSuspendedKeysAuthorized, bind_eq_ok, ensure_eq_ok] at h
    obtain ⟨-, hr, h⟩ := h
    cases h
    exact .removeSuspendedKeys hr
  | removeRing r =>
    simp only [Store.exec, Store.removeRing, bind_eq_ok, ensure_eq_ok] at h
    obtain ⟨-, hc, -, hr, h⟩ := h
    split at h <;> rename_i hq <;> cases h
    · exact .removeRingQueued hq
    · exact .removeRing hc hr (by simpa using hq)
  | deleteRingPage r p =>
    simp only [Store.exec, Store.deleteRingPageAuthorized, bind_eq_ok, ensure_eq_ok] at h
    obtain ⟨-, hq, h⟩ := h
    cases h
    exact .deleteRingPage hq
  | deleteCollection owner =>
    simp only [Store.exec, Store.deleteCollection, bind_eq_ok, ensure_eq_ok, okOr_eq_ok] at h
    obtain ⟨info, hinfo, -, -, -, hsus, h⟩ := h
    cases h
    exact .deleteCollection hinfo (Option.isNone_iff_eq_none.mp hsus)
  | enqueueRingDeletion r =>
    simp only [Store.exec, Store.enqueueRingDeletionAuthorized, bind_eq_ok, ensure_eq_ok] at h
    obtain ⟨-, hsus, -, hr, h⟩ := h
    cases h
    exact .enqueueRingDeletion hsus hr
  | deleteOnboardingQueuePage q =>
    simp only [Store.exec, Store.deleteOnboardingQueuePageAuthorized, bind_eq_ok, ensure_eq_ok] at h
    obtain ⟨-, hsus, -, -, -, -, -, -, h⟩ := h
    cases h
    exact .deleteOnboardingQueuePage hsus
  | finalizeCollectionDeletion =>
    simp only [Store.exec, Store.finalizeCollectionDeletionAuthorized, bind_eq_ok,
      ensure_eq_ok, StorageMap.isEmpty_iff] at h
    obtain ⟨-, hsus, -, hr, -, hd, -, hq, h⟩ := h
    cases h
    exact .finalizeCollectionDeletion hsus hr hd hq
  | markRingStale r =>
    simp only [Store.exec, Store.markRingStaleAuthorized, bind_eq_ok, ensure_eq_ok] at h
    obtain ⟨-, -, -, -, -, -, h⟩ := h
    cases h
    exact .markRingStale
  | cleanUpOldRoots r limit =>
    simp only [Store.exec, Store.cleanUpOldRootsAuthorized, bind_eq_ok, ensure_eq_ok] at h
    obtain ⟨-, -, -, -, -, -, h⟩ := h
    cases h
    obtain ⟨oldRoots, hs, hroots⟩ := Store.cleanUpOldRoots_spec env r limit s
    rw [hs]
    exact .cleanUpOldRoots oldRoots hroots

/-- What becomes of the collection's entry. -/
inductive InfoChange (s : Store T) (c : Call T) (s' : Store T) : Prop
  | same : s'.collections = s.collections → s'.suspendedCollections = s.suspendedCollections →
      InfoChange s c s'
  | created : s.collections = none → s.suspendedCollections = none →
      s'.suspendedCollections = none → InfoChange s c s'
  | marked : s.suspendedCollections = none → s'.collections = none →
      s'.suspendedCollections = s.collections → InfoChange s c s'
  | finalized : c = .finalizeCollectionDeletion → s'.suspendedCollections = none →
      s'.collections = s.collections → InfoChange s c s'

/-- A loop whose turns leave the entry alone leaves it alone. -/
theorem InfoChange.of_foldlM {α : Type} {f : Store T → α → Except Error (Store T)} {l : List α}
    {s s' : Store T} {c : Call T} (hfold : l.foldlM f s = .ok s')
    (step : ∀ a t t', f t a = .ok t' →
      t'.collections = t.collections ∧ t'.suspendedCollections = t.suspendedCollections) :
    InfoChange s c s' := by
  have hsame : s'.collections = s.collections ∧ s'.suspendedCollections = s.suspendedCollections := by
    refine foldlM_ok_induction (fun _ t => t.collections = s.collections ∧
      t.suspendedCollections = s.suspendedCollections) hfold ⟨rfl, rfl⟩ ?_
    intro done a t t' _ ht hstep
    exact ⟨(step a t t' hstep).1.trans ht.1, (step a t t' hstep).2.trans ht.2⟩
  exact .same hsame.1 hsame.2

open Store in
/-- Creation, deletion and finalization are the only calls that change the entry. -/
theorem exec_infoChange {env : Env T} {s s' : Store T} {c : Call T} (h : s.exec env c = .ok s') :
    InfoChange s c s' := by
  cases exec_effect h with
  | createCollection hcollections hsuspended _ _ => exact .created hcollections hsuspended hsuspended
  | deleteCollection hinfo hsuspended => exact .marked hsuspended rfl hinfo.symm
  | finalizeCollectionDeletion _ _ _ _ => exact .finalized rfl rfl rfl
  | addMembers _ hfold =>
    refine .of_foldlM hfold fun key t t' hstep => ?_
    obtain ⟨tail, keys, rfl, -⟩ := pushToOnboardingQueue_spec (addMember_spec hstep).2
    exact ⟨rfl, rfl⟩
  | removeMembers _ hfold =>
    refine .of_foldlM hfold fun key t t' hstep => ?_
    rcases queueMemberSuspension_cases hstep with
      ⟨r, p, i, j, indices, -, -, -, rfl⟩ | ⟨q, queuedAt, -, rfl⟩ | ⟨-, rfl⟩
    · exact ⟨rfl, rfl⟩
    · rw [dropQueued_frame t q key]
      exact ⟨rfl, rfl⟩
    · exact ⟨rfl, rfl⟩
  | onboardNone => exact .same rfl rfl
  | onboard R =>
    have hcollections := congrArg Store.collections R.store_eq
    have hsuspended := congrArg Store.suspendedCollections R.store_eq
    exact .same hcollections hsuspended
  | selfInclude hself =>
    obtain ⟨info, q, t, d, a, keys, -, -, -, hd, -, -, rfl⟩ := doSelfInclude_spec hself
    obtain ⟨-, hframe, -, -⟩ := dequeue_spec hd
    rw [hframe]
    exact .same rfl rfl
  | mergeQueuePages hmerge =>
    obtain ⟨-, t, keys, hfold, -, rfl⟩ := mergeFrontQueuePages_spec hmerge
    rw [(relocateQueued_fold hfold).1]
    exact .same rfl rfl
  | buildRing hbuild =>
    obtain ⟨_, _, _, _, _, -, -, -, -, -, -, -, -, hs'⟩ := buildRing_spec hbuild
    rw [hs']
    exact .same rfl rfl
  | mergeRings hmerge =>
    obtain ⟨info, m, -, -, -, -, -, -, -, -, -, -, hs'⟩ := mergeRings_spec hmerge
    rw [hs']
    exact .same rfl rfl
  | @removeSuspendedKeys r _ =>
    rcases removeSuspendedKeys_spec env s r with ⟨-, hs'⟩ | ⟨_, _, _, _, -, -, -, -, hs'⟩ <;>
      rw [hs'] <;> exact .same rfl rfl
  | @removeRing r _ _ _ =>
    obtain ⟨queue, hs', -⟩ := enqueueRingForDeletion_spec env s r
    rw [hs']
    exact .same rfl rfl
  | @enqueueRingDeletion r _ _ =>
    obtain ⟨queue, hs', -⟩ := enqueueRingForDeletion_spec env s r
    rw [hs']
    exact .same rfl rfl
  | @deleteRingPage r p _ =>
    obtain ⟨members, hs', -⟩ := deleteRingPage_spec
      { s with ringDeletionQueue := s.ringDeletionQueue.remove (r, p) } r p
    rw [hs']
    exact .same rfl rfl
  | @deleteOnboardingQueuePage q _ =>
    obtain ⟨members, hs', -⟩ := deleteOnboardingQueuePage_spec s q
    rw [hs']
    exact .same rfl rfl
  | removeRingQueued _ => exact .same rfl rfl
  | setOnboardingSize => exact .same rfl rfl
  | session _ _ => exact .same rfl rfl
  | markRingStale => exact .same rfl rfl
  | cleanUpOldRoots _ _ => exact .same rfl rfl

end Individuality.Members
