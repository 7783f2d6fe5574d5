import Individuality.Members.Flexible

/-! Records that stay, and records that are given.

Of a collection that is not deleted, and whose members nobody removes (`tends`), no ring
is queued for deletion (`Undeleted`): a key that has a record keeps one, wherever calls
move it. No call but an addition gives a record to a key that has none (`Founded`). -/
namespace Individuality.Members
open Support
variable {T : Config} {env : Env T} {s s' : Store T} {c : Call T} {key k : T.Member}

/-- The collection is not deleted, and none of its rings is to be. -/
structure Undeleted (s : Store T) : Prop where
  alive : s.suspendedCollections = none
  undeleted : ∀ k, s.ringDeletionQueue.get k = none

/-- Nobody loses a record. -/
def Store.Keeps (s s' : Store T) : Prop := ∀ k, (s.members.get k).isSome = true → (s'.members.get k).isSome = true

namespace Store

theorem Keeps.of_eq (h : s'.members = s.members) : s.Keeps s' := fun k hk => by rwa [h]

theorem Keeps.trans {s'' : Store T} (h : s.Keeps s') (h' : s'.Keeps s'') : s.Keeps s'' := fun k hk => h' k (h k hk)

theorem Keeps.setMember (s : Store T) (key : T.Member) (position : RingPosition) : s.Keeps (s.setMember key position) := by
  intro k hk
  show ((s.members.insert key position).get k).isSome = true
  rw [StorageMap.get_insert]
  split
  · rfl
  · exact hk

theorem keeps_addMember (hadded : Store.addMember env s key = .ok s') :
    s.Keeps s' ∧ (s'.members.get key).isSome = true ∧ s'.suspendedCollections = s.suspendedCollections ∧
      s'.ringDeletionQueue = s.ringDeletionQueue := by
  obtain ⟨tail, keys, rfl, -⟩ := Store.pushToOnboardingQueue_spec (Store.addMember_spec hadded).2
  refine ⟨Keeps.setMember s key _, ?_, rfl, rfl⟩
  show ((s.members.insert key _).get key).isSome = true
  rw [StorageMap.get_insert, if_pos rfl]
  rfl

theorem keeps_relocateQueued {head : QueuePageIndex} {keys : List T.Member}
    (hfold : keys.foldlM (relocateQueued head) s = .ok s') : s.Keeps s' := by
  refine foldlM_ok_induction (fun _ t => s.Keeps t) hfold (fun _ hk => hk) fun _ key t t' _ ht hstep => ht.trans ?_
  simp only [relocateQueued, bind_eq_ok, okOr_eq_ok] at hstep
  obtain ⟨position, -, hstep⟩ := hstep
  split at hstep
  · cases hstep
    exact Keeps.setMember t key _
  · cases hstep
    exact fun _ hk => hk

theorem keeps_round (R : Store.Round s s') : s.Keeps s' := by
  intro k hk
  by_cases hmem : k ∈ R.keys.take R.toInclude
  · obtain ⟨p, i, hget⟩ := R.members_of_mem hmem
    rw [hget]
    rfl
  · rwa [R.members_of_notMem hmem]

theorem keeps_doSelfInclude (hself : s.doSelfInclude key = .ok s') :
    s.Keeps s' ∧ s'.suspendedCollections = s.suspendedCollections ∧ s'.ringDeletionQueue = s.ringDeletionQueue := by
  obtain ⟨info, d, a, q, t, -, -, -, hmembers, -, -, halive, -, -, hdeletions⟩ := Store.doSelfInclude_places hself
  refine ⟨fun k hk => ?_, halive, hdeletions⟩
  rw [hmembers, StorageMap.get_insert]
  split
  · rfl
  · exact hk

theorem keeps_mergeRings {base target : Nat} (hmerge : s.mergeRings env base target = .ok s') : s.Keeps s' := by
  obtain ⟨info, m, -, -, -, -, -, -, -, -, -, hm, hs'⟩ := mergeRings_spec hmerge
  obtain ⟨-, -, hsame, hmoved⟩ := moveKeys_spec hm
  intro k hk
  rw [hs']
  show (m.1.members.get k).isSome = true
  by_cases hmem : k ∈ s.page target 0
  · obtain ⟨-, i, -, -, hget⟩ := hmoved k hmem
    rw [hget]
    rfl
  · rwa [hsame k hmem]

theorem keeps_removeSuspendedKeys (r : Nat) : s.Keeps (s.removeSuspendedKeys env r) := by
  intro k hk
  rcases removeSuspendedKeys_spec env s r with ⟨-, hs'⟩ | ⟨info, capacity, members, page, -, -, hmembers, -, hs'⟩
  · rwa [hs']
  · rw [hs']
    show (members.get k).isSome = true
    rw [hmembers]
    rcases retainKeys_members_cases r 0 (s.pendingAt r).toList s BoundedVec.nil (s.page r 0) k with
      hsame | ⟨p, a, b, -, hget⟩
    · rwa [hsame]
    · rw [hget]
      rfl

end Store

namespace Undeleted

theorem empty : Undeleted (Store.empty T) := ⟨rfl, fun _ => rfl⟩

theorem of_eq (h : Undeleted s) (halive : s'.suspendedCollections = s.suspendedCollections)
    (hdeletions : s'.ringDeletionQueue = s.ringDeletionQueue) : Undeleted s' :=
  ⟨halive.trans h.alive, fun k => (congrArg (fun m => m.get k) hdeletions).trans (h.undeleted k)⟩

/-- What others do takes nobody's record. -/
theorem step (h : Undeleted s) (hc : tends c = true) (hexec : s.exec env c = .ok s') : Undeleted s' ∧ s.Keeps s' := by
  cases exec_effect hexec with
  | createCollection _ _ _ _ => cases hc
  | addMembers _ _ => cases hc
  | removeMembers _ _ => cases hc
  | removeRingQueued _ => cases hc
  | removeRing _ _ _ => cases hc
  | deleteCollection _ _ => cases hc
  | setOnboardingSize => exact ⟨h.of_eq rfl rfl, .of_eq rfl⟩
  | onboardNone => exact ⟨h, .of_eq rfl⟩
  | onboard R =>
    obtain ⟨-, -, hdeletions, -⟩ := R.frame
    have halive := congrArg Store.suspendedCollections R.store_eq
    exact ⟨h.of_eq halive hdeletions, Store.keeps_round R⟩
  | selfInclude hself =>
    obtain ⟨hkeeps, halive, hdeletions⟩ := Store.keeps_doSelfInclude hself
    exact ⟨h.of_eq halive hdeletions, hkeeps⟩
  | mergeQueuePages hmerge =>
    obtain ⟨-, t, keys, hfold, -, rfl⟩ := Store.mergeFrontQueuePages_spec hmerge
    obtain ⟨hframe, -⟩ := Store.relocateQueued_fold hfold
    have halive : t.suspendedCollections = s.suspendedCollections := by rw [hframe]
    have hdeletions : t.ringDeletionQueue = s.ringDeletionQueue := by rw [hframe]
    exact ⟨h.of_eq halive hdeletions, (Store.keeps_relocateQueued hfold).trans (.of_eq rfl)⟩
  | buildRing hbuild =>
    obtain ⟨_, _, _, _, _, -, -, -, -, -, -, -, -, hs'⟩ := Store.buildRing_spec hbuild
    rw [hs']
    exact ⟨h.of_eq rfl rfl, .of_eq rfl⟩
  | mergeRings hmerge =>
    refine ⟨?_, Store.keeps_mergeRings hmerge⟩
    obtain ⟨_, _, -, -, -, -, -, -, -, -, -, -, hs'⟩ := Store.mergeRings_spec hmerge
    rw [hs']
    exact h.of_eq rfl rfl
  | session _ _ => exact ⟨h.of_eq rfl rfl, .of_eq rfl⟩
  | @removeSuspendedKeys r _ =>
    refine ⟨?_, Store.keeps_removeSuspendedKeys r⟩
    rcases Store.removeSuspendedKeys_spec env s r with ⟨-, hs'⟩ | ⟨_, _, _, _, -, -, -, -, hs'⟩
    · rwa [hs']
    · rw [hs']
      exact h.of_eq rfl rfl
  | deleteRingPage hq =>
    rw [h.undeleted] at hq
    cases hq
  | enqueueRingDeletion hsuspended _ =>
    rw [h.alive] at hsuspended
    cases hsuspended
  | deleteOnboardingQueuePage hsuspended =>
    rw [h.alive] at hsuspended
    cases hsuspended
  | finalizeCollectionDeletion hsuspended _ _ _ =>
    rw [h.alive] at hsuspended
    cases hsuspended
  | markRingStale => exact ⟨h.of_eq rfl rfl, .of_eq rfl⟩
  | cleanUpOldRoots _ _ => exact ⟨h.of_eq rfl rfl, .of_eq rfl⟩

/-- A key that is added has a record. -/
theorem addMember (h : Undeleted s) (hadded : s.addMembers env [key] = .ok s') :
    Undeleted s' ∧ s.Keeps s' ∧ (s'.members.get key).isSome = true := by
  obtain ⟨-, hfold⟩ := Store.addMembers_spec hadded
  simp only [List.foldlM_cons, List.foldlM_nil, bind_pure] at hfold
  obtain ⟨hkeeps, hrecord, halive, hdeletions⟩ := Store.keeps_addMember hfold
  exact ⟨h.of_eq halive hdeletions, hkeeps, hrecord⟩

theorem createCollection (h : Undeleted s) {owner : T.Location} {n : Nat} {mode : RingMode} {size : RingExponent}
    {delay : Option Nat} (hcreated : s.createCollection owner n mode size delay = .ok s') :
    Undeleted s' ∧ s.Keeps s' := by
  simp only [Store.createCollection, bind_eq_ok, ensure_eq_ok] at hcreated
  obtain ⟨-, -, -, -, -, -, hcreated⟩ := hcreated
  cases hcreated
  exact ⟨h.of_eq rfl rfl, .of_eq rfl⟩

end Undeleted

/-! ### Records that are given -/

/-- Nobody is given a record. -/
def Store.Founded (s s' : Store T) : Prop := ∀ k, (s'.members.get k).isSome = true → (s.members.get k).isSome = true

theorem Store.Founded.of_eq (h : s'.members = s.members) : s.Founded s' := fun k hk => by rwa [h] at hk

namespace Flexible

theorem founded_round (h : Flexible s) (R : Store.Round s s') : s.Founded s' := by
  intro k hk
  by_cases hmem : k ∈ R.keys.take R.toInclude
  · obtain ⟨q, t, hold⟩ := h.onboarding_of_round R (List.mem_of_mem_take hmem)
    rw [hold]
    rfl
  · rwa [R.members_of_notMem hmem] at hk

theorem founded_doSelfInclude (hself : s.doSelfInclude key = .ok s') : s.Founded s' := by
  obtain ⟨info, d, a, q, t, -, -, hget, hmembers, -⟩ := Store.doSelfInclude_places hself
  intro k hk
  rw [hmembers, StorageMap.get_insert] at hk
  split at hk
  · rename_i heq
    rw [heq, hget]
    rfl
  · exact hk

theorem founded_mergeFrontQueuePages (h : Flexible s) (hmerge : s.mergeFrontQueuePages = .ok s') : s.Founded s' := by
  obtain ⟨-, t, keys, hfold, -, rfl⟩ := Store.mergeFrontQueuePages_spec hmerge
  obtain ⟨-, hsame, -⟩ := Store.relocateQueued_fold hfold
  intro k hk
  by_cases hmem : k ∈ s.queuePage s.queuePageIndices.1
  · obtain ⟨u, hu⟩ := (h.queue.mem_iff k _).mp hmem
    rw [hu]
    rfl
  · have hk : (t.members.get k).isSome = true := hk
    rwa [hsame k hmem] at hk

theorem founded_mergeRings {base target : Nat} (hmerge : s.mergeRings env base target = .ok s') : s.Founded s' := by
  obtain ⟨info, m, -, -, -, -, -, -, -, -, -, hm, hs'⟩ := Store.mergeRings_spec hmerge
  obtain ⟨-, -, hsame, hmoved⟩ := Store.moveKeys_spec hm
  intro k hk
  by_cases hmem : k ∈ s.page target 0
  · exact (hmoved k hmem).1
  · rw [hs'] at hk
    have hk : (m.1.members.get k).isSome = true := hk
    rwa [hsame k hmem] at hk

theorem founded_removeSuspendedKeys (r : Nat) : s.Founded (s.removeSuspendedKeys env r) := by
  intro k hk
  rcases Store.removeSuspendedKeys_spec env s r with ⟨-, hs'⟩ | ⟨info, capacity, members, page, -, -, hmembers, -, hs'⟩
  · rwa [hs'] at hk
  · rw [hs'] at hk
    have hk : (members.get k).isSome = true := hk
    rw [hmembers] at hk
    rcases Store.retainKeys_members_cases r 0 (s.pendingAt r).toList s BoundedVec.nil (s.page r 0) k with
      hsame | ⟨p, a, b, hget, -⟩
    · rwa [hsame] at hk
    · rw [hget]
      rfl

/-- What others do gives nobody a record. -/
theorem founded (h : Flexible s) (hc : tends c = true) (hexec : s.exec env c = .ok s') : s.Founded s' := by
  cases exec_effect hexec with
  | createCollection _ _ _ _ => cases hc
  | addMembers _ _ => cases hc
  | removeMembers _ _ => cases hc
  | removeRingQueued _ => cases hc
  | removeRing _ _ _ => cases hc
  | deleteCollection _ _ => cases hc
  | setOnboardingSize => exact .of_eq rfl
  | onboardNone => exact .of_eq rfl
  | onboard R => exact h.founded_round R
  | selfInclude hself => exact founded_doSelfInclude hself
  | mergeQueuePages hmerge => exact h.founded_mergeFrontQueuePages hmerge
  | buildRing hbuild =>
    obtain ⟨_, _, _, _, _, -, -, -, -, -, -, -, -, hs'⟩ := Store.buildRing_spec hbuild
    rw [hs']
    exact .of_eq rfl
  | mergeRings hmerge => exact founded_mergeRings hmerge
  | session _ _ => exact .of_eq rfl
  | @removeSuspendedKeys r _ => exact founded_removeSuspendedKeys r
  | deleteRingPage hq =>
    rw [h.undeleted] at hq
    cases hq
  | enqueueRingDeletion hsuspended _ =>
    rw [h.alive] at hsuspended
    cases hsuspended
  | deleteOnboardingQueuePage hsuspended =>
    rw [h.alive] at hsuspended
    cases hsuspended
  | finalizeCollectionDeletion hsuspended _ _ _ =>
    rw [h.alive] at hsuspended
    cases hsuspended
  | markRingStale => exact .of_eq rfl
  | cleanUpOldRoots _ _ => exact .of_eq rfl

end Flexible

theorem Store.founded_queueMemberSuspension (hs : s.queueMemberSuspension key = .ok s') : s.Founded s' := by
  intro k hk
  obtain ⟨-, hmembers⟩ := queueMemberSuspension_frame hs
  rw [hmembers] at hk
  split at hk
  · rename_i heq
    simp only [queueMemberSuspension, bind_eq_ok, okOr_eq_ok] at hs
    obtain ⟨position, hget, -⟩ := hs
    rw [heq, hget]
    rfl
  · exact hk

/-- A key that is added is the only one that is given a record. -/
theorem Store.founded_addMembers (hadded : s.addMembers env [key] = .ok s')
    (hk : (s'.members.get k).isSome = true) : k = key ∨ (s.members.get k).isSome = true := by
  obtain ⟨-, hfold⟩ := addMembers_spec hadded
  simp only [List.foldlM_cons, List.foldlM_nil, bind_pure] at hfold
  obtain ⟨tail, keys, rfl, -⟩ := pushToOnboardingQueue_spec (addMember_spec hfold).2
  have hk : ((s.members.insert key _).get k).isSome = true := hk
  rw [StorageMap.get_insert] at hk
  split at hk
  · rename_i heq
    exact .inl heq
  · exact .inr hk

end Individuality.Members
