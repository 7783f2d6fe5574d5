import Individuality.Members.Ideal
import Individuality.Members.RootChanges

/-! The rings that the builder is to visit.

`StaleRings` holds the rings that require building. A ring with keys that its root does not
include is always among them (`Marked`), so that no ring has to be marked by hand. A ring
may be among them for nothing, where it was marked and nothing was left to include, or where
a merge marks a ring to which it adds no key (`KeepsMarks`). -/
namespace Individuality.Members
open Support
variable {T : Config}

namespace Store

theorem included_keysToPush (s : Store T) (r fuel m : Nat) (status : RingStatus) (h : status.included ≤ status.total) :
    (s.keysToPush r fuel m status).2.included ≤ status.total ∧
      (status.included = status.total → (s.keysToPush r fuel m status).2 = status) := by
  induction fuel generalizing m status with
  | zero => exact ⟨h, fun _ => rfl⟩
  | succ fuel ih =>
    unfold keysToPush
    simp only
    split
    · exact ⟨h, fun _ => rfl⟩
    · rename_i hpush
      have hle : U32.saturatingAdd status.included (min m (min (status.total - status.included)
          (T.flexibleRingCapacity - status.included % T.flexibleRingCapacity))) ≤ status.total := by
        unfold U32.saturatingAdd
        omega
      exact ⟨(ih _ _ hle).1, fun heq => absurd (by omega) hpush⟩

theorem staleRings_finishBuild (env : Env T) (s : Store T) (info : CollectionInfo T) (r : Nat) (status : RingStatus)
    (root : RingRoot T) : (s.finishBuild env info r status root).staleRings =
      if status.included = status.total then s.staleRings.remove r else s.staleRings := by
  simp only [finishBuild, setRingStatus, archive]
  cases s.root.get r <;> simp only <;> split <;> rfl

end Store

/-- What a call does to the status, the mark and the suspensions of a ring. -/
inductive MarkChange (s : Store T) (c : Call T) (s' : Store T) (r : Nat) : Prop
  | kept : s'.ringStatusAt r = s.ringStatusAt r → s'.staleRings.get r = s.staleRings.get r →
      ((s'.pendingAt r).toList = [] → (s.pendingAt r).toList = []) → MarkChange s c s' r
  | marked : (s.ringStatusAt r).included < (s.ringStatusAt r).total → s'.ringStatusAt r = s.ringStatusAt r →
      s'.staleRings.get r = some () → MarkChange s c s' r
  | joined (n : Nat) : ((∃ mustBuild, c = .onboardMembers mustBuild) ∨ ∃ member, c = .selfInclude member) → 0 < n →
      s'.ringStatusAt r = { s.ringStatusAt s.currentRingIndex with
        total := U32.saturatingAdd (s.ringStatusAt s.currentRingIndex).total n } →
      s'.staleRings.get r = some () → MarkChange s c s' r
  | merged (target : Nat) : c = .mergeRings r target →
      s'.ringStatusAt r = { s.ringStatusAt r with
        total := U32.saturatingAdd (s.ringStatusAt r).total (s.page target 0).length } →
      s'.staleRings.get r = some () → MarkChange s c s' r
  | built (status : RingStatus) : s'.ringStatusAt r = status → status.total = (s.ringStatusAt r).total →
      ((s.ringStatusAt r).included ≤ (s.ringStatusAt r).total → status.included ≤ status.total ∧
        ((s.ringStatusAt r).included = (s.ringStatusAt r).total → status.included = status.total)) →
      s'.staleRings.get r = (if status.included = status.total then none else s.staleRings.get r) →
      s'.pendingAt r = s.pendingAt r → MarkChange s c s' r
  | recounted : c = .removeSuspendedKeys r →
      s'.ringStatusAt r = { s.ringStatusAt r with total := (s.retained r).length, included := 0 } →
      s'.staleRings.get r = (if s.retained r = [] then s.staleRings.get r else some ()) → MarkChange s c s' r
  | removed : s'.ringStatusAt r = default → s'.staleRings.get r = none → MarkChange s c s' r

section Changes
variable {env : Env T} {s s' : Store T} {c : Call T} {r : Nat}

theorem availableRing_status (s : Store T) (cap : Nat) :
    (s.availableRing cap).status = s.ringStatusAt s.currentRingIndex := by
  unfold Store.availableRing
  simp only
  split <;> rfl

theorem MarkChange.of_same (hroots : SameRoots s s') (hpending : (s'.pendingAt r).toList = [] → (s.pendingAt r).toList = []) :
    MarkChange s c s' r := by
  refine .kept ?_ ?_ hpending
  · unfold Store.ringStatusAt
    rw [hroots.ringKeysStatus]
  · rw [hroots.staleRings]

/-- Suspensions are only added to. -/
theorem pendingAt_queueMemberSuspension {key : T.Member} (h : s.queueMemberSuspension key = .ok s')
    (hnil : (s'.pendingAt r).toList = []) : (s.pendingAt r).toList = [] := by
  rcases Store.queueMemberSuspension_cases h with ⟨ring, p, i, j, indices, -, -, hindices, rfl⟩ | ⟨q, t, -, rfl⟩ | ⟨-, rfl⟩
  · by_cases hr : r = ring
    · subst hr
      have hlength := congrArg List.length hindices
      have hnil : indices.toList = [] := by
        simpa [Store.pendingAt, StorageMap.get_insert] using hnil
      rw [hnil, List.length_nil, List.length_insertIdx] at hlength
      refine List.length_eq_zero_iff.mp ?_
      split at hlength <;> omega
    · simpa [Store.pendingAt, StorageMap.get_insert, hr] using hnil
  · rw [Store.dropQueued_frame s q key] at hnil
    exact hnil
  · exact hnil

theorem markChange_joined {status : RingStatus} {ring n : Nat}
    (hjoins : (∃ mustBuild, c = .onboardMembers mustBuild) ∨ ∃ member, c = .selfInclude member) (hn : 0 < n)
    (hstatus : status = s.ringStatusAt s.currentRingIndex)
    (hringKeysStatus : s'.ringKeysStatus =
      s.ringKeysStatus.insert ring { status with total := U32.saturatingAdd status.total n })
    (hstale : s'.staleRings = s.staleRings.insert ring ()) (hpending : s'.pendingSuspensions = s.pendingSuspensions) :
    MarkChange s c s' r := by
  subst hstatus
  by_cases hr : r = ring
  · refine .joined n hjoins hn ?_ ?_
    · rw [Store.ringStatusAt, hringKeysStatus, StorageMap.get_insert, if_pos hr]
      rfl
    · rw [hstale, StorageMap.get_insert, if_pos hr]
  · refine .kept ?_ ?_ fun hnil => ?_
    · rw [Store.ringStatusAt, hringKeysStatus, StorageMap.get_insert, if_neg hr]
      rfl
    · rw [hstale, StorageMap.get_insert, if_neg hr]
    · rw [Store.pendingAt, hpending] at hnil
      exact hnil

theorem markChange_buildRing {ring n : Nat} (h : s.buildRing env ring n = .ok s') : MarkChange s c s' r := by
  obtain ⟨info, capacity, start, root, status, -, -, -, -, -, -, htotal, hincluded, hs'⟩ := Store.buildRing_spec h
  have hstatus : s'.ringKeysStatus = s.ringKeysStatus.insert ring status := by
    have h := congrArg Store.ringKeysStatus hs'
    exact h
  have hpending : s'.pendingSuspensions = s.pendingSuspensions := by
    have h := congrArg Store.pendingSuspensions hs'
    exact h
  by_cases hr : r = ring
  · subst hr
    refine .built status ?_ (htotal.trans (Store.total_keysToPush _ _ _ _ _)) ?_ ?_ ?_
    · rw [Store.ringStatusAt, hstatus, StorageMap.get_insert, if_pos rfl]
      rfl
    · intro hle
      obtain ⟨hle', hsame⟩ := Store.included_keysToPush s r n n _ hle
      rw [htotal, hincluded, Store.total_keysToPush]
      exact ⟨hle', fun heq => by rw [hsame heq, heq]⟩
    · simp only [Store.buildRing, bind_eq_ok] at h
      obtain ⟨_, -, _, -, _, -, _, -, h⟩ := h
      cases h
      rw [Store.staleRings_finishBuild, htotal, hincluded]
      split
      · rw [StorageMap.get_remove, if_pos rfl]
      · rfl
    · rw [Store.pendingAt, hpending]
      rfl
  · refine .kept ?_ (staleRings_buildRing h hr) fun hnil => ?_
    · rw [Store.ringStatusAt, hstatus, StorageMap.get_insert, if_neg hr]
      rfl
    · rw [Store.pendingAt, hpending] at hnil
      exact hnil

theorem markChange_mergeRings {base target : Nat} (h : s.mergeRings env base target = .ok s') :
    MarkChange s (.mergeRings base target) s' r := by
  obtain ⟨info, m, -, -, hne, -, -, -, -, -, -, -, rfl⟩ := Store.mergeRings_spec h
  by_cases htarget : r = target
  · refine .removed ?_ ?_
    · simp [Store.ringStatusAt, htarget]
    · simp [htarget]
  · by_cases hbase : r = base
    · subst hbase
      refine .merged target rfl ?_ ?_
      · simp [Store.ringStatusAt, hne]
      · simp [hne]
    · refine .kept ?_ ?_ id
      · simp [Store.ringStatusAt, htarget, hbase]
      · simp [htarget, hbase]

theorem markChange_removeSuspendedKeys {ring : Nat} :
    MarkChange s (.removeSuspendedKeys ring) (s.removeSuspendedKeys env ring) r := by
  rcases Store.removeSuspendedKeys_spec env s ring with ⟨-, hs'⟩ | ⟨info, capacity, members, page, -, -, -, hpage, hs'⟩
  · rw [hs']
    exact .kept rfl rfl id
  · rw [hs']
    by_cases hr : r = ring
    · subst hr
      refine .recounted rfl ?_ ?_
      · simp [Store.ringStatusAt, Store.retained, ← hpage, BoundedVec.length]
      · simp only [Store.retained, ← hpage, BoundedVec.length, List.length_pos_iff]
        by_cases hnil : page.toList = [] <;> simp [hnil]
    · refine .kept ?_ ?_ fun hnil => ?_
      · simp [Store.ringStatusAt, hr]
      · simp only
        split <;> simp [hr]
      · simpa [Store.pendingAt, hr] using hnil

theorem markChange_enqueue {ring : Nat} : MarkChange s c (s.enqueueRingForDeletion env ring) r := by
  obtain ⟨queue, hs', -⟩ := Store.enqueueRingForDeletion_spec env s ring
  rw [hs']
  by_cases hr : r = ring
  · refine .removed ?_ ?_
    · simp [Store.ringStatusAt, hr]
    · simp [hr]
  · refine .kept ?_ ?_ fun hnil => ?_
    · simp [Store.ringStatusAt, hr]
    · simp [hr]
    · simpa [Store.pendingAt, hr] using hnil

theorem exec_markChange (h : s.exec env c = .ok s') (r : Nat) : MarkChange s c s' r := by
  cases exec_effect h with
  | createCollection _ _ _ _ => exact .kept rfl rfl id
  | setOnboardingSize => exact .kept rfl rfl id
  | onboardNone => exact .kept rfl rfl id
  | session _ _ => exact .kept rfl rfl id
  | removeRingQueued _ => exact .kept rfl rfl id
  | deleteCollection _ _ => exact .kept rfl rfl id
  | finalizeCollectionDeletion _ _ _ _ => exact .kept rfl rfl id
  | cleanUpOldRoots _ _ => exact .kept rfl rfl id
  | addMembers _ hfold =>
    refine .of_same (addMembers_sameRoots hfold) ?_
    refine foldlM_ok_induction (fun _ t => (t.pendingAt r).toList = [] → (s.pendingAt r).toList = []) hfold id ?_
    intro _ key t t' _ ht hstep
    obtain ⟨tail, keys, rfl, -⟩ := Store.pushToOnboardingQueue_spec (Store.addMember_spec hstep).2
    exact ht
  | removeMembers _ hfold =>
    refine .of_same (queueMemberSuspensions_sameRoots hfold) ?_
    refine foldlM_ok_induction (fun _ t => (t.pendingAt r).toList = [] → (s.pendingAt r).toList = []) hfold id ?_
    exact fun _ key t t' _ ht hstep hnil => ht (pendingAt_queueMemberSuspension hstep hnil)
  | mergeQueuePages hmerge =>
    refine .of_same (mergeFrontQueuePages_sameRoots hmerge) ?_
    obtain ⟨-, t, keys, hfold, -, hs'⟩ := Store.mergeFrontQueuePages_spec hmerge
    rw [hs', (Store.relocateQueued_fold hfold).1]
    exact id
  | deleteRingPage _ =>
    refine .of_same (deleteRingPage_sameRoots _ _ _) ?_
    rename_i ring p _
    obtain ⟨members, hs', -⟩ := Store.deleteRingPage_spec
      { s with ringDeletionQueue := s.ringDeletionQueue.remove (ring, p) } ring p
    rw [hs']
    exact id
  | deleteOnboardingQueuePage _ =>
    rename_i q _
    refine .of_same (deleteOnboardingQueuePage_sameRoots _) ?_
    obtain ⟨members, hs', -⟩ := Store.deleteOnboardingQueuePage_spec s q
    rw [hs']
    exact id
  | onboard R =>
    have hstatus := congrArg Store.ringKeysStatus R.store_eq
    have hstale := congrArg Store.staleRings R.store_eq
    refine markChange_joined (.inl ⟨_, rfl⟩) (Store.shouldOnboardMembers_spec R.should).2.2.1 ?_ hstatus hstale R.frame.2.1
    rw [← R.a_eq, availableRing_status]
  | selfInclude hself =>
    obtain ⟨info, q, t, d, a, keys, -, -, -, hd, ha, -, hs'⟩ := Store.doSelfInclude_spec hself
    have hframe := (Store.dequeue_spec hd).2.1
    have hstatus := congrArg Store.ringKeysStatus hframe
    have hstale := congrArg Store.staleRings hframe
    have hpending := congrArg Store.pendingSuspensions hframe
    have hcurrent := congrArg Store.currentRingIndex hframe
    have hstatus' := congrArg Store.ringKeysStatus hs'
    have hstale' := congrArg Store.staleRings hs'
    have hpending' := congrArg Store.pendingSuspensions hs'
    simp only at hstatus hstale hpending hcurrent hstatus' hstale' hpending'
    rw [hstatus] at hstatus'
    rw [hstale] at hstale'
    refine markChange_joined (.inr ⟨_, rfl⟩) Nat.one_pos ?_ hstatus' hstale' (hpending'.trans hpending)
    rw [← ha, availableRing_status, Store.ringStatusAt, hcurrent, hstatus]
    rfl
  | buildRing hbuild => exact markChange_buildRing hbuild
  | mergeRings hmerge => exact markChange_mergeRings hmerge
  | removeSuspendedKeys _ => exact markChange_removeSuspendedKeys
  | removeRing _ _ _ => exact markChange_enqueue
  | enqueueRingDeletion _ _ => exact markChange_enqueue
  | @markRingStale ring =>
    simp only [Store.exec, Store.markRingStaleAuthorized, bind_eq_ok, ensure_eq_ok] at h
    obtain ⟨-, -, -, -, -, hlt, -⟩ := h
    by_cases hr : r = ring
    · subst hr
      refine .marked hlt rfl ?_
      simp [Store.setStale]
    · refine .kept rfl ?_ id
      simp [Store.setStale, hr]

end Changes
/-! ### The marks -/

/-- A ring with keys that its root does not include is marked. -/
structure Marked (s : Store T) : Prop where
  included_le : ∀ r, (s.ringStatusAt r).included ≤ (s.ringStatusAt r).total
  total_le : ∀ r, (s.ringStatusAt r).total ≤ U32.max
  stale : ∀ r, (s.ringStatusAt r).included < (s.ringStatusAt r).total → s.staleRings.get r = some ()

/-- A marked ring has keys that its root does not include, unless suspensions are pending for it. -/
def Laden (s : Store T) : Prop :=
  ∀ r, s.staleRings.get r = some () → (s.pendingAt r).toList = [] →
    (s.ringStatusAt r).included < (s.ringStatusAt r).total

namespace Marked
variable {env : Env T} {s s' : Store T} {c : Call T}

theorem empty : Marked (Store.empty T) where
  included_le _ := le_rfl
  total_le _ := Nat.zero_le _
  stale _ h := absurd h (lt_irrefl _)

theorem retained_le (s : Store T) (r : Nat) : (s.retained r).length ≤ U32.max :=
  ((compact_sublist _ _ _).length_le.trans (s.page_length_le r 0)).trans
    (T.flexibleRingCapacity_le.trans (by decide))

theorem step (h : Marked s) (hexec : s.exec env c = .ok s') : Marked s' := by
  have hring : ∀ r, (s'.ringStatusAt r).included ≤ (s'.ringStatusAt r).total ∧ (s'.ringStatusAt r).total ≤ U32.max ∧
      ((s'.ringStatusAt r).included < (s'.ringStatusAt r).total → s'.staleRings.get r = some ()) := by
    intro r
    have hle := h.included_le r
    have htotal := h.total_le r
    cases exec_markChange hexec r with
    | kept hstatus hstale _ =>
      rw [hstatus, hstale]
      exact ⟨hle, htotal, h.stale r⟩
    | marked _ hstatus hstale =>
      rw [hstatus]
      exact ⟨hle, htotal, fun _ => hstale⟩
    | joined n _ _ hstatus hstale =>
      have hle := h.included_le s.currentRingIndex
      rw [hstatus]
      refine ⟨?_, Nat.min_le_right _ _, fun _ => hstale⟩
      exact le_min (hle.trans (Nat.le_add_right _ _)) (hle.trans (h.total_le _))
    | merged target _ hstatus hstale =>
      rw [hstatus]
      refine ⟨?_, Nat.min_le_right _ _, fun _ => hstale⟩
      exact le_min (hle.trans (Nat.le_add_right _ _)) (hle.trans htotal)
    | built status hstatus heq hincluded hstale _ =>
      obtain ⟨hle', hsame⟩ := hincluded hle
      rw [hstatus]
      refine ⟨hle', heq.trans_le htotal, fun hlt => ?_⟩
      rw [hstale, if_neg hlt.ne]
      refine h.stale r (lt_of_le_of_ne hle fun hdone => hlt.ne (hsame hdone))
    | recounted _ hstatus hstale =>
      rw [hstatus, hstale]
      refine ⟨Nat.zero_le _, retained_le s r, fun hpos => ?_⟩
      exact if_neg (List.ne_nil_of_length_pos hpos)
    | removed hstatus _ =>
      rw [hstatus]
      exact ⟨le_rfl, Nat.zero_le _, fun hlt => absurd hlt (lt_irrefl _)⟩
  exact ⟨fun r => (hring r).1, fun r => (hring r).2.1, fun r => (hring r).2.2⟩

theorem of_reachable {G : State T → Action T → Prop} {s : State T} (h : State.Reachable G s) (id : Identifier) :
    Marked (s.store id) := by
  have hany : State.Reachable (State.OnCalls fun _ _ _ => True) s := h.mono fun _ a _ => by cases a <;> trivial
  exact State.reachable_invariant hany empty (fun _ _ _ _ ht _ hexec => ht.step hexec) id

end Marked

/-! ### Runs -/

/-- The calls that mark no ring for nothing: a merge leaves the base with keys that are not included, a removal
of suspended keys retains a key or finds the ring unmarked, and members join a ring that does
not include as many keys as there are numbers. -/
def KeepsMarks (s : Store T) : Call T → Prop
  | .onboardMembers _ | .selfInclude _ => (s.ringStatusAt s.currentRingIndex).included < U32.max
  | .mergeRings base target => (s.ringStatusAt base).included <
    U32.saturatingAdd (s.ringStatusAt base).total (s.page target 0).length
  | .removeSuspendedKeys r => s.retained r ≠ [] ∨ s.staleRings.contains r = false
  | _ => True

theorem Laden.step {env : Env T} {s s' : Store T} {c : Call T} (h : Laden s) (hmarked : Marked s) (hG : KeepsMarks s c)
    (hexec : s.exec env c = .ok s') : Laden s' := by
  intro r hstale' hnil
  cases exec_markChange hexec r with
  | kept hstatus hstale hpending =>
    rw [hstatus]
    exact h r (hstale ▸ hstale') (hpending hnil)
  | marked hlt hstatus _ =>
    rw [hstatus]
    exact hlt
  | joined n hjoins hn hstatus _ =>
    have hle := hmarked.included_le s.currentRingIndex
    have hmax : (s.ringStatusAt s.currentRingIndex).included < U32.max := by
      rcases hjoins with ⟨_, rfl⟩ | ⟨_, rfl⟩ <;> exact hG
    rw [hstatus]
    exact lt_min (hle.trans_lt (Nat.lt_add_of_pos_right hn)) hmax
  | merged target hcall hstatus _ =>
    subst hcall
    rw [hstatus]
    exact hG
  | built status hstatus heq hincluded hstale hpending =>
    rw [hstale] at hstale'
    split at hstale'
    · cases hstale'
    · rename_i hne
      rw [hstatus]
      exact lt_of_le_of_ne (hincluded (hmarked.included_le r)).1 hne
  | recounted hcall hstatus hstale =>
    subst hcall
    rw [hstatus]
    refine List.length_pos_of_ne_nil fun hempty => ?_
    rw [hstale, if_pos hempty] at hstale'
    rcases hG with hne | hunmarked
    · exact hne hempty
    · rw [StorageMap.contains, hstale'] at hunmarked
      cases hunmarked
  | removed _ hstale =>
    rw [hstale] at hstale'
    cases hstale'

/-- In every state that runs of calls reach that mark no ring for nothing, a ring has keys that its root does not
include if it is marked, unless suspensions are pending for it, and only if it is marked: no ring is
ever there to be marked by hand. -/
theorem stale_rings_exact {s : State T} (h : State.Reachable (State.OnCalls fun _ t c => KeepsMarks t c) s)
    (id : Identifier) :
    (∀ r, ((s.store id).ringStatusAt r).included < ((s.store id).ringStatusAt r).total →
      (s.store id).staleRings.contains r = true) ∧
    (∀ r, ∃ e, (s.store id).markRingStaleAuthorized r = .error e) ∧
    ∀ r, (s.store id).staleRings.contains r = true → ((s.store id).pendingAt r).toList = [] →
      ((s.store id).ringStatusAt r).included < ((s.store id).ringStatusAt r).total := by
  have hmarked := Marked.of_reachable h id
  have hladen : Laden (s.store id) := by
    refine (State.reachable_invariant (I := fun t => Marked t ∧ Laden t) h ⟨Marked.empty, ?_⟩ ?_ id).2
    · intro r hstale
      cases hstale
    · exact fun _ t _ _ ⟨hm, hl⟩ hG hexec => ⟨hm.step hexec, hl.step hm hG hexec⟩
  have hcontains : ∀ r, (s.store id).staleRings.contains r = true ↔ (s.store id).staleRings.get r = some () := by
    intro r
    rw [StorageMap.contains_eq_true]
    exact ⟨fun ⟨_, hget⟩ => hget, fun hget => ⟨(), hget⟩⟩
  refine ⟨fun r hlt => (hcontains r).mpr (hmarked.stale r hlt), fun r => ?_, fun r hstale hnil => ?_⟩
  · cases hmark : (s.store id).markRingStaleAuthorized r with
    | error e => exact ⟨e, rfl⟩
    | ok t =>
      simp only [Store.markRingStaleAuthorized, bind_eq_ok, ensure_eq_ok] at hmark
      obtain ⟨-, -, -, hunmarked, -, hlt, -⟩ := hmark
      rw [(hcontains r).mpr (hmarked.stale r hlt)] at hunmarked
      cases hunmarked
  · exact hladen r ((hcontains r).mp hstale) hnil

instance (s : Store T) (c : Call T) : Decidable (KeepsMarks s c) := by
  apply Call.casesOn (motive := fun c => Decidable (KeepsMarks s c)) c <;> intros <;> dsimp only [KeepsMarks] <;>
    infer_instance

instance (G : Env T → Store T → Call T → Prop) [∀ env s c, Decidable (G env s c)] (s : State T) (a : Action T) :
    Decidable (State.OnCalls G s a) := by
  cases a <;> unfold State.OnCalls <;> infer_instance

/-- Three members join a ring of which two are built, and one is removed then. -/
def sampleMarks : List (Action sampleConfig) :=
  ([.createCollection (0 : Nat) 1 .flexible .r2e9 none, .addMembers (sampleKeys 0 3), .onboardMembers true,
    .buildRing 0 2, .startRemovalSession, .removeMembers (sampleKeys 2 1), .endRemovalSession, .removeSuspendedKeys 0] :
    List (Call sampleConfig)).map (.call sampleId)

theorem stale_rings_exact_sample : ∃ s : State sampleConfig, State.Reachable (State.OnCalls fun _ t c => KeepsMarks t c) s ∧
    (s.store sampleId).staleRings.contains 0 = true ∧
    ((s.store sampleId).ringStatusAt 0).included < ((s.store sampleId).ringStatusAt 0).total := by
  obtain ⟨s, hreach, hstale, hnil⟩ := exists_reaches State.exec (State.OnCalls fun _ t c => KeepsMarks t c)
    (State.genesis sampleConfig) sampleMarks (fun s => (s.store sampleId).staleRings.contains 0 = true ∧
      ((s.store sampleId).pendingAt 0).toList = []) (by decide +kernel)
  exact ⟨s, hreach, hstale, (stale_rings_exact hreach sampleId).2.2 0 hstale hnil⟩

/-- Two calls that leave a ring marked for nothing: a merge of two rings that hold no key, and the removal of all
members of a ring that is yet to be built. -/
theorem stale_rings_inexact : (∃ s : State sampleConfig, State.Reachable (fun _ _ => True) s ∧
      (s.store sampleId).collections.isSome = true ∧ (s.store sampleId).staleRings.contains 5 = true ∧
      ((s.store sampleId).pendingAt 5).toList = [] ∧ (s.store sampleId).ringStatusAt 5 = ⟨0, 0, none⟩) ∧
    ∃ s : State sampleConfig, State.Reachable (fun _ _ => True) s ∧
      (s.store sampleId).collections.isSome = true ∧ (s.store sampleId).staleRings.contains 0 = true ∧
      ((s.store sampleId).pendingAt 0).toList = [] ∧ (s.store sampleId).ringStatusAt 0 = ⟨0, 0, none⟩ :=
  ⟨exists_reaches State.exec (fun _ _ => True) (State.genesis sampleConfig)
      [.call sampleId (.createCollection (0 : Nat) 1 .flexible .r2e9 none), .call sampleId (.mergeRings 5 6)] _
      (by decide +kernel),
    exists_reaches State.exec (fun _ _ => True) (State.genesis sampleConfig)
      (([.createCollection (0 : Nat) 1 .flexible .r2e9 none, .addMembers (sampleKeys 0 3), .onboardMembers true,
        .startRemovalSession, .removeMembers (sampleKeys 0 3), .endRemovalSession, .removeSuspendedKeys 0] :
        List (Call sampleConfig)).map (.call sampleId)) _ (by decide +kernel)⟩

end Individuality.Members
