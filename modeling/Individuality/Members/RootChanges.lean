import Individuality.Members.Steps

/-! What a call does to the root of a ring.

Four calls change roots: a build replaces the ring's root, a removal of suspended
keys resets it, and a merge and the removal of a ring take it away, each keeping the
root it replaces among the old roots. `RootChange` says this ring by ring, with what
becomes of the ring's staleness; every accepted call makes one of these changes to
every ring (`exec_rootChange`). -/
namespace Individuality.Members
open Support
variable {T : Config}

namespace Store

/-- The keys of a ring's first page that are not queued for removal. -/
def retained (s : Store T) (r : Nat) : List T.Member :=
  compact 0 (s.pendingAt r).toList (s.page r 0)

/-- Whether a call builds the ring's root. -/
def builds (r : Nat) : Call T → Bool
  | .buildRing r' _ => r' = r
  | _ => false

/-- Whether a call resets the ring's root. -/
def resets (s : Store T) (r : Nat) : Call T → Bool
  | .removeSuspendedKeys r' => r' = r && s.collections.isSome
  | _ => false

/-- Whether a call removes the ring: it takes its status and its root away. -/
def removes (s : Store T) (r : Nat) : Call T → Bool
  | .mergeRings _ target => target = r
  | .removeRing r' => r' = r && !s.ringQueued r
  | .enqueueRingDeletion r' => r' = r
  | _ => false

/-- The ring's root, if it had one, is now among the old roots. -/
def ArchivedIn (env : Env T) (s s' : Store T) (r : Nat) : Prop :=
  ∀ j, s'.oldRoots.get (r, j) =
    match s.root.get r with
    | some root => if j = root.revision then some ⟨root.root, env.now⟩ else s.oldRoots.get (r, j)
    | none => s.oldRoots.get (r, j)

end Store

/-- Roots, stale marks and the rings' statuses are the same. -/
structure SameRoots (s s' : Store T) : Prop where
  root : s'.root = s.root
  oldRoots : s'.oldRoots = s.oldRoots
  staleRings : s'.staleRings = s.staleRings
  ringKeysStatus : s'.ringKeysStatus = s.ringKeysStatus

inductive RootChange (env : Env T) (s : Store T) (c : Call T) (s' : Store T) (r : Nat) : Prop
  | kept : Store.builds r c = false → s.resets r c = false → s.removes r c = false →
      s'.root.get r = s.root.get r →
      (s.staleRings.get r = some () → s'.staleRings.get r = some ()) →
      (∀ j, s'.oldRoots.get (r, j) = s.oldRoots.get (r, j) ∨ s'.oldRoots.get (r, j) = none) →
      RootChange env s c s' r
  | built (n : Nat) (root : RingRoot T) : c = .buildRing r n → s'.root.get r = some root →
      root.revision = (match s.root.get r with
        | some original => original.revision + 1
        | none => 0) →
      s.ArchivedIn env s' r → RootChange env s c s' r
  | reset : c = .removeSuspendedKeys r → s.resets r c = true →
      (s'.root.get r).isSome = (s.root.get r).isSome →
      (s.staleRings.get r = some () ∨ s.retained r ≠ [] → s'.staleRings.get r = some ()) →
      s.ArchivedIn env s' r → RootChange env s c s' r
  | removed : Store.builds r c = false → s.resets r c = false → s.removes r c = true →
      s'.root.get r = none → s.ArchivedIn env s' r → RootChange env s c s' r

section Changes
variable {env : Env T} {s s' : Store T} {c : Call T}

theorem RootChange.of_eq {r : Nat} (hb : Store.builds r c = false) (hs : s.resets r c = false)
    (hc : s.removes r c = false) (hroot : s'.root = s.root) (hold : s'.oldRoots = s.oldRoots)
    (hstale : s.staleRings.get r = some () → s'.staleRings.get r = some ()) :
    RootChange env s c s' r :=
  .kept hb hs hc (by rw [hroot]) hstale fun j => .inl (by rw [hold])

theorem RootChange.of_same {r : Nat} (hb : Store.builds r c = false) (hs : s.resets r c = false)
    (hc : s.removes r c = false) (h : SameRoots s s') : RootChange env s c s' r :=
  .of_eq hb hs hc h.root h.oldRoots fun hget => h.staleRings ▸ hget

theorem staleRings_buildRing {r r' n : Nat} (h : s.buildRing env r n = .ok s') (hr : r' ≠ r) :
    s'.staleRings.get r' = s.staleRings.get r' := by
  simp only [Store.buildRing, bind_eq_ok] at h
  obtain ⟨_, -, _, -, _, -, _, -, h⟩ := h
  cases h
  simp only [Store.finishBuild, Store.setRingStatus, Store.archive]
  cases s.root.get r <;> simp only <;> split <;> simp [hr]

/-- A build archives what it replaces. -/
theorem rootChange_buildRing {r n : Nat} (h : s.buildRing env r n = .ok s') (r' : Nat) :
    RootChange env s (.buildRing r n) s' r' := by
  obtain ⟨info, capacity, start, root, status, -, -, hstart, hrev, -, -, -, -, hs'⟩ :=
    Store.buildRing_spec h
  have hroot : s'.root = s.root.insert r root := by
    have h := congrArg Store.root hs'
    exact h
  have hold : s'.oldRoots = match s.root.get r with
      | some original => s.oldRoots.insert (r, original.revision) ⟨original.root, env.now⟩
      | none => s.oldRoots := by
    have h := congrArg Store.oldRoots hs'
    exact h
  by_cases hr : r' = r
  · subst hr
    refine .built n root rfl (by rw [hroot, StorageMap.get_insert, if_pos rfl]) ?_ fun j => ?_
    · rw [hrev]
      unfold Store.buildStart at hstart
      cases hget : s.root.get r' with
      | none =>
        rw [hget] at hstart
        cases hstart
        rfl
      | some original =>
        simp only [hget, bind_eq_ok, ensure_eq_ok] at hstart
        obtain ⟨-, -, hstart⟩ := hstart
        cases hstart
        rfl
    · rw [hold]
      cases s.root.get r' with
      | none => rfl
      | some original => simp
  · have hstale := staleRings_buildRing h hr
    refine .kept (by simpa [Store.builds] using Ne.symm hr) rfl rfl ?_ (fun hget => hstale ▸ hget)
      fun j => .inl ?_
    · rw [hroot, StorageMap.get_insert, if_neg hr]
    · rw [hold]
      cases s.root.get r with
      | none => rfl
      | some original => simp [hr]

/-- A removal of suspended keys archives the root it resets, and marks the ring stale when it
retains a key. -/
theorem rootChange_removeSuspendedKeys (r r' : Nat) :
    RootChange env s (.removeSuspendedKeys r) (s.removeSuspendedKeys env r) r' := by
  rcases Store.removeSuspendedKeys_spec env s r with ⟨hnone, hs'⟩ |
    ⟨info, capacity, members, page, hinfo, -, -, hpage, hs'⟩
  · rw [hs']
    exact .of_same rfl (by simp [Store.resets, hnone]) rfl ⟨rfl, rfl, rfl, rfl⟩
  have hroot : (s.removeSuspendedKeys env r).root = (s.resetRoot env capacity r).root := by
    have h := congrArg Store.root hs'
    exact h
  have hold : (s.removeSuspendedKeys env r).oldRoots = (s.resetRoot env capacity r).oldRoots := by
    have h := congrArg Store.oldRoots hs'
    exact h
  have hstale : (s.removeSuspendedKeys env r).staleRings =
      if 0 < page.length then s.staleRings.insert r () else s.staleRings := by
    have h := congrArg Store.staleRings hs'
    exact h
  by_cases hr : r' = r
  · subst hr
    refine .reset rfl (by simp [Store.resets, hinfo]) ?_ (fun hret => ?_) fun j => ?_
    · rw [hroot, Store.root_resetRoot, if_pos rfl]
      cases hget : s.root.get r' <;> simp
    · rw [hstale]
      split
      · simp
      · rename_i hempty
        have hnil : page.toList = [] :=
          List.length_eq_zero_iff.mp (Nat.le_zero.mp (Nat.le_of_not_lt hempty))
        rcases hret with hget | hret
        · exact hget
        · exact absurd (hpage.symm.trans hnil) hret
    · rw [hold, Store.oldRoots_resetRoot]
      cases s.root.get r' <;> simp
  · refine .kept rfl (by simp [Store.resets, Ne.symm hr]) rfl ?_ (fun hget => ?_) fun j => .inl ?_
    · rw [hroot, Store.root_resetRoot, if_neg hr]
    · rw [hstale]
      split <;> simp [hget]
    · rw [hold, Store.oldRoots_resetRoot]
      cases s.root.get r <;> simp [hr]

/-- What goes with a ring that is removed. -/
theorem rootChange_removed {r r' : Nat} (hroot : s'.root = (s.archiveRoot env r).root)
    (hold : s'.oldRoots = (s.archiveRoot env r).oldRoots)
    (hstale : r' ≠ r → s.staleRings.get r' = some () → s'.staleRings.get r' = some ())
    (hb : Store.builds r' c = false) (hs : s.resets r' c = false)
    (hc : s.removes r' c = decide (r = r')) : RootChange env s c s' r' := by
  by_cases hr : r' = r
  · subst hr
    refine .removed hb hs (by simpa using hc) ?_ fun j => ?_
    · rw [hroot, Store.root_archiveRoot, if_pos rfl]
    · rw [hold, Store.oldRoots_archiveRoot]
      cases s.root.get r' <;> simp
  · refine .kept hb hs (by simpa [Ne.symm hr] using hc) ?_ (hstale hr) fun j => .inl ?_
    · rw [hroot, Store.root_archiveRoot, if_neg hr]
    · rw [hold, Store.oldRoots_archiveRoot]
      cases s.root.get r <;> simp [hr]

theorem rootChange_enqueue {r r' : Nat} (hb : Store.builds r' c = false)
    (hs : s.resets r' c = false) (hc : s.removes r' c = decide (r = r')) :
    RootChange env s c (s.enqueueRingForDeletion env r) r' := by
  obtain ⟨queue, hs', -⟩ := Store.enqueueRingForDeletion_spec env s r
  rw [hs']
  exact rootChange_removed rfl rfl (fun hr hget => by simp [hr, hget]) hb hs hc

theorem rootChange_mergeRings {base target : Nat} (h : s.mergeRings env base target = .ok s')
    (r : Nat) : RootChange env s (.mergeRings base target) s' r := by
  obtain ⟨info, m, -, -, -, -, -, -, -, -, -, -, hs'⟩ := Store.mergeRings_spec h
  rw [hs']
  refine rootChange_removed rfl rfl (fun hr hget => ?_) rfl rfl rfl
  show ((s.staleRings.insert base ()).remove target).get r = some ()
  rw [StorageMap.get_remove, if_neg hr, StorageMap.get_insert, hget]
  split <;> rfl

/-! ### Calls on the queue and on records -/

theorem SameRoots.refl (s : Store T) : SameRoots s s := ⟨rfl, rfl, rfl, rfl⟩

theorem SameRoots.trans {s'' : Store T} (h : SameRoots s s') (h' : SameRoots s' s'') :
    SameRoots s s'' :=
  ⟨h'.root.trans h.root, h'.oldRoots.trans h.oldRoots, h'.staleRings.trans h.staleRings,
    h'.ringKeysStatus.trans h.ringKeysStatus⟩

theorem foldlM_sameRoots {α : Type} {f : Store T → α → Except Error (Store T)} {l : List α}
    (h : l.foldlM f s = .ok s') (step : ∀ a t t', f t a = .ok t' → SameRoots t t') :
    SameRoots s s' := by
  refine foldlM_ok_induction (fun _ t => SameRoots s t) h (SameRoots.refl s) ?_
  intro done a t t' _ ht hstep
  exact ht.trans (step a t t' hstep)

theorem addMembers_sameRoots {members : List T.Member}
    (h : members.foldlM (Store.addMember env) s = .ok s') : SameRoots s s' := by
  refine foldlM_sameRoots h fun key t t' hstep => ?_
  obtain ⟨tail, keys, ht', -⟩ := Store.pushToOnboardingQueue_spec (Store.addMember_spec hstep).2
  rw [ht']
  exact ⟨rfl, rfl, rfl, rfl⟩

theorem queueMemberSuspensions_sameRoots {suspensions : List T.Member}
    (h : suspensions.foldlM Store.queueMemberSuspension s = .ok s') : SameRoots s s' := by
  refine foldlM_sameRoots h fun key t t' hstep => ?_
  rcases Store.queueMemberSuspension_cases hstep with
    ⟨r, p, i, j, indices, -, -, -, rfl⟩ | ⟨q, at_, -, rfl⟩ | ⟨-, rfl⟩
  · exact ⟨rfl, rfl, rfl, rfl⟩
  · rw [Store.dropQueued_frame t q key]
    exact ⟨rfl, rfl, rfl, rfl⟩
  · exact ⟨rfl, rfl, rfl, rfl⟩

theorem mergeFrontQueuePages_sameRoots (h : s.mergeFrontQueuePages = .ok s') : SameRoots s s' := by
  obtain ⟨-, t, keys, hfold, -, hs'⟩ := Store.mergeFrontQueuePages_spec h
  have hframe := (Store.relocateQueued_fold hfold).1
  rw [hs', hframe]
  exact ⟨rfl, rfl, rfl, rfl⟩

theorem deleteRingPage_sameRoots (r p : Nat) (queue : StorageMap (Nat × Nat) Unit) :
    SameRoots s ({ s with ringDeletionQueue := queue }.deleteRingPage r p) := by
  obtain ⟨members, hs', -⟩ := Store.deleteRingPage_spec { s with ringDeletionQueue := queue } r p
  rw [hs']
  exact ⟨rfl, rfl, rfl, rfl⟩

theorem deleteOnboardingQueuePage_sameRoots (q : QueuePageIndex) :
    SameRoots s (s.deleteOnboardingQueuePage q) := by
  obtain ⟨members, hs', -⟩ := Store.deleteOnboardingQueuePage_spec s q
  rw [hs']
  exact ⟨rfl, rfl, rfl, rfl⟩

theorem exec_rootChange (h : s.exec env c = .ok s') (r : Nat) : RootChange env s c s' r := by
  cases exec_effect h with
  | createCollection _ _ _ _ => exact .of_same rfl rfl rfl ⟨rfl, rfl, rfl, rfl⟩
  | addMembers _ hfold =>
    exact .of_same rfl rfl rfl (addMembers_sameRoots hfold)
  | setOnboardingSize => exact .of_same rfl rfl rfl ⟨rfl, rfl, rfl, rfl⟩
  | onboardNone => exact .of_same rfl rfl rfl ⟨rfl, rfl, rfl, rfl⟩
  | onboard R =>
    have hroot := congrArg Store.root R.store_eq
    have hold := congrArg Store.oldRoots R.store_eq
    have hstale := congrArg Store.staleRings R.store_eq
    refine .of_eq rfl rfl rfl hroot hold fun hget => ?_
    rw [hstale]
    simp [hget]
  | selfInclude hself =>
    obtain ⟨info, q, t, d, a, keys, -, -, -, hd, -, -, hs'⟩ := Store.doSelfInclude_spec hself
    obtain ⟨-, hframe, -, -⟩ := Store.dequeue_spec hd
    refine .of_eq rfl rfl rfl ?_ ?_ fun hget => ?_
    · rw [hs', hframe]
    · rw [hs', hframe]
    · rw [hs', hframe]
      simp [hget]
  | mergeQueuePages hmerge =>
    exact .of_same rfl rfl rfl (mergeFrontQueuePages_sameRoots hmerge)
  | buildRing hbuild => exact rootChange_buildRing hbuild r
  | mergeRings hmerge => exact rootChange_mergeRings hmerge r
  | session state hc => rcases hc with rfl | rfl <;> exact .of_same rfl rfl rfl ⟨rfl, rfl, rfl, rfl⟩
  | removeMembers _ hfold =>
    exact .of_same rfl rfl rfl (queueMemberSuspensions_sameRoots hfold)
  | @removeSuspendedKeys r' _ => exact rootChange_removeSuspendedKeys r' r
  | @removeRingQueued r' hq =>
    refine .of_same rfl rfl ?_ ⟨rfl, rfl, rfl, rfl⟩
    by_cases hr : r' = r
    · simp [Store.removes, ← hr, hq]
    · simp [Store.removes, hr]
  | @removeRing r' _ _ hq =>
    refine rootChange_enqueue rfl rfl ?_
    by_cases hr : r' = r
    · simp [Store.removes, ← hr, hq]
    · simp [Store.removes, hr]
  | deleteRingPage _ =>
    exact .of_same rfl rfl rfl (deleteRingPage_sameRoots _ _ _)
  | deleteCollection _ _ => exact .of_same rfl rfl rfl ⟨rfl, rfl, rfl, rfl⟩
  | enqueueRingDeletion _ _ => exact rootChange_enqueue rfl rfl rfl
  | deleteOnboardingQueuePage _ =>
    exact .of_same rfl rfl rfl (deleteOnboardingQueuePage_sameRoots _)
  | finalizeCollectionDeletion _ _ _ _ => exact .of_same rfl rfl rfl ⟨rfl, rfl, rfl, rfl⟩
  | @markRingStale r' =>
    refine .of_eq rfl rfl rfl rfl rfl fun hget => ?_
    simp [Store.setStale, hget]
  | cleanUpOldRoots oldRoots hroots =>
    refine .kept rfl rfl rfl rfl id fun j => ?_
    exact (hroots (r, j)).imp_right And.left

end Changes
end Individuality.Members
