import Individuality.Members.Placement
import Individuality.Members.RootChanges
import Individuality.Members.RootCommitment

/-! A flexible collection that is never deleted.

Its rings fit their first pages, and the root of a ring commits to keys that the ring
stores (`Flexible`). Of the calls that others make (`tends`), most store waiting members
at most (`Grown`); the others build a root, merge two rings or remove suspended keys
(`Tended`). So a suspended key stays suspended until it is added again, a key that no
ring stores is stored in none, and a ring loses keys only with its root. -/
namespace Individuality.Members
open Support
variable {T : Config} {env : Env T} {s s' : Store T} {c : Call T} {r p : Nat} {k key : T.Member}

namespace Store

/-- The root commits to keys that the ring stores. -/
def RootWithin (s : Store T) (r : Nat) (root : RingRoot T) : Prop :=
  ∃ info capacity keys, s.collections = some info ∧ T.capacity info.ringSize = some capacity ∧
    root.intermediate = commitment T capacity keys ∧
    root.root = T.crypto.finishMembers root.intermediate ∧ ∀ k ∈ keys, k ∈ s.page r 0

/-- The revision that a call gives a ring. -/
def nextRevision (s : Store T) : Call T → Nat → Option Nat
  | .buildRing r' _, r => if r' = r then
      some (match s.root.get r with
        | some root => U32.saturatingAdd root.revision 1
        | none => 0)
    else none
  | .removeSuspendedKeys r', r =>
    if r' = r then (s.root.get r).map fun root => U32.saturatingAdd root.revision 1 else none
  | _, _ => none

/-- No ring stores the key. -/
def Absent (s : Store T) (k : T.Member) : Prop := ∀ r p, k ∉ s.page r p

/-- A ring that fits a page is filled from its first one on. -/
theorem pageIndex_of_fits {capacity : Nat} (hfits : capacity ≤ T.flexibleRingCapacity) :
    (s.availableRing capacity).pageIndex = 0 := by
  by_cases hfull : s.currentRingFull capacity
  · exact pageIndex_of_full hfull
  · rw [availableRing_of_not_full hfull]
    show (s.ringStatusAt s.currentRingIndex).total / T.flexibleRingCapacity = 0
    by_contra hpos
    have hpage := Nat.le_mul_of_pos_left T.flexibleRingCapacity (Nat.pos_of_ne_zero hpos)
    exact hfull (hfits.trans (hpage.trans (Nat.le_add_right _ _)))

/-- A build pushes keys that the ring stores. -/
theorem mem_keysToPush {fuel m : Nat} {status : RingStatus} (hk : k ∈ (s.keysToPush r fuel m status).1) :
    ∃ p, k ∈ s.page r p := by
  induction fuel generalizing m status with
  | zero => cases hk
  | succ fuel ih =>
    unfold keysToPush at hk
    simp only at hk
    split at hk
    · cases hk
    · rcases List.mem_append.mp hk with hk | hk
      · exact ⟨_, List.mem_of_mem_drop (List.mem_of_mem_take hk)⟩
      · exact ih hk

end Store

structure Flexible (s : Store T) : Prop where
  fits : ∀ info, s.collections = some info → info.ringSize.ringCapacity ≤ T.flexibleRingCapacity
  alive : s.suspendedCollections = none
  undeleted : ∀ k, s.ringDeletionQueue.get k = none
  uncreated : s.collections = none → ∀ r p, s.page r p = []
  firstPage : ∀ r p, 0 < p → s.page r p = []
  queue : QueueCoherent s
  placed : Placed s
  roots : ∀ r root, s.root.get r = some root → s.RootWithin r root

/-- What a call leaves that stores waiting members at most. -/
structure Grown (s s' : Store T) : Prop where
  collections : s'.collections = s.collections
  alive : s'.suspendedCollections = s.suspendedCollections
  deletions : s'.ringDeletionQueue = s.ringDeletionQueue
  root : s'.root = s.root
  placed : Placed s'
  uncreated : s.collections = none → s'.page = s.page
  firstPage : ∀ r p, 0 < p → s'.page r p = []
  grows : ∀ r p, s.page r p <+: s'.page r p
  waiting : ∀ k r p, k ∈ s'.page r p → k ∈ s.page r p ∨ ∃ q t, s.members.get k = some (.onboarding q t)
  suspended : ∀ k, s'.members.get k = some .suspended ↔ s.members.get k = some .suspended

/-- Calls that others make: they add and remove no members, and delete nothing. -/
def tends : Call T → Bool
  | .createCollection .. | .addMembers _ | .removeMembers _ | .removeRing _ | .deleteCollection _ => false
  | _ => true

/-- What such a call does. -/
inductive Tended (env : Env T) (s : Store T) : Call T → Store T → Prop
  | grown {c : Call T} {s' : Store T} : Grown s s' → Tended env s c s'
  | built {r n : Nat} {s' : Store T} : s.buildRing env r n = .ok s' → Tended env s (.buildRing r n) s'
  | merged {base target : Nat} {s' : Store T} : s.mergeRings env base target = .ok s' →
    Tended env s (.mergeRings base target) s'
  | cleaned {r : Nat} : (s.pendingAt r).toList ≠ [] →
    Tended env s (.removeSuspendedKeys r) (s.removeSuspendedKeys env r)

namespace Flexible

theorem empty : Flexible (Store.empty T) where
  fits _ h := by cases h
  alive := rfl
  undeleted _ := rfl
  uncreated _ _ _ := rfl
  firstPage _ _ _ := rfl
  queue := .empty
  placed := .empty
  roots _ _ h := by cases h

/-- A slot is dead when its index is pending removal. -/
theorem dead_iff (h : Flexible s) {i : Nat} : s.Dead r p i ↔ p = 0 ∧ i ∈ (s.pendingAt r).toList := by
  simp [Store.Dead, h.undeleted]

/-- The ring that a merge empties has no index pending removal. -/
theorem moved (h : Flexible s) {base target : Nat} (hs : s.mergeRings env base target = .ok s') (k : T.Member)
    (i : Nat) (hslot : (s.page target 0)[i]? = some k) : s.members.get k = some (.included target 0 i) := by
  obtain ⟨info, m, -, -, -, -, -, -, -, -, hpending, -, -⟩ := Store.mergeRings_spec hs
  refine h.placed.places.live k target 0 i hslot fun hdead => ?_
  exact absurd hpending (Nat.ne_of_gt (List.length_pos_of_mem (h.dead_iff.mp hdead).2))

/-! ### One call -/

theorem grown_of_frame (h : Flexible s) (hcollections : s'.collections = s.collections)
    (halive : s'.suspendedCollections = s.suspendedCollections)
    (hdeletions : s'.ringDeletionQueue = s.ringDeletionQueue) (hroot : s'.root = s.root)
    (hmembers : s'.members = s.members) (hkeys : s'.ringKeys = s.ringKeys)
    (hpending : s'.pendingSuspensions = s.pendingSuspensions) : Grown s s' := by
  have hpage : s'.page = s.page := by
    unfold Store.page Store.ringKeysAt
    rw [hkeys]
  refine ⟨hcollections, halive, hdeletions, hroot, h.placed.of_frame hmembers hkeys hpending hdeletions,
    fun _ => hpage, ?_, ?_, ?_, ?_⟩
  · rw [hpage]
    exact h.firstPage
  · rw [hpage]
    exact fun _ _ => List.prefix_rfl
  · rw [hpage]
    exact fun _ _ _ hk => .inl hk
  · rw [hmembers]
    exact fun _ => Iff.rfl

/-- The members that a round reads wait. -/
theorem onboarding_of_round (h : Flexible s) (R : Store.Round s s') (hk : k ∈ R.keys) :
    ∃ q t, s.members.get k = some (.onboarding q t) := by
  rcases (QueueCoherent.mem_round R k).mp hk with hk | hk
  · obtain ⟨t, ht⟩ := (h.queue.mem_iff k _).mp hk
    exact ⟨_, t, ht⟩
  · obtain ⟨t, ht⟩ := (h.queue.mem_iff k _).mp hk
    exact ⟨_, t, ht⟩

/-- A round fills first pages only: it takes no more members than the page has slots left. -/
theorem round_pages (h : Flexible s) (R : Store.Round s s') :
    (∀ r p, 0 < p → s'.page r p = []) ∧
      ∀ k r p, k ∈ s'.page r p → k ∈ s.page r p ∨ k ∈ R.keys := by
  have hfits := h.fits _ R.collections_eq
  have hindex := Store.pageIndex_of_fits (s := s) hfits
  have hread := Store.availableRing_keys s R.info.ringSize.ringCapacity
  rw [R.a_eq] at hindex hread
  have hlength : R.a.keys.length = (s.page R.a.ringIndex 0).length := by
    rw [hread, hindex]
    rfl
  obtain ⟨-, -, -, hn, -⟩ := Store.shouldOnboardMembers_spec R.should
  rw [hlength, hindex] at hn
  obtain ⟨c, ⟨-, -, hempty, hfrom⟩, hpage⟩ := R.turns (P := fun done _ c =>
    (c.pages 0).length = (s.page R.a.ringIndex 0).length + done.length ∧
    (c.at_ = 0 ∨ T.flexibleRingCapacity ≤ (s.page R.a.ringIndex 0).length + done.length) ∧
    (∀ p, 0 < p → c.pages p = []) ∧
    ∀ k p, k ∈ c.pages p → k ∈ s.page R.a.ringIndex p ∨ k ∈ done)
    ⟨rfl, .inl hindex, fun p hp => h.firstPage _ p hp, fun _ _ hk => .inl hk⟩
    (by
      intro done key _ c hpre ⟨hlen, hat, hempty, hfrom⟩ _
      have hle := hpre.length_le
      rw [List.length_append, List.length_singleton, R.length_take] at hle
      have hzero : c.at_ = 0 := hat.resolve_right (by omega)
      have hself := Paging.Cursor.pages_push_self T.flexibleRingCapacity c key
      rw [hzero] at hself
      refine ⟨?_, ?_, fun p hp => ?_, fun k p hk => ?_⟩
      · rw [hself, List.length_append, List.length_append, hlen, List.length_singleton]
        omega
      · rw [List.length_append, List.length_singleton]
        by_cases hfull : T.flexibleRingCapacity ≤ (s.page R.a.ringIndex 0).length + (done.length + 1)
        · exact .inr hfull
        · refine .inl ?_
          have hroom : ¬T.flexibleRingCapacity ≤ (c.pages 0 ++ [key]).length := by
            rw [List.length_append, List.length_singleton, hlen]
            omega
          simp only [Paging.Cursor.push, Function.update_self, hzero]
          exact if_neg hroom
      · rw [Paging.Cursor.pages_push_of_ne (by omega)]
        exact hempty p hp
      · rw [List.mem_append]
        by_cases hp : p = c.at_
        · rw [hp, Paging.Cursor.pages_push_self, List.mem_append] at hk
          rcases hk with hk | hk
          · exact (hfrom k _ hk).imp (fun hk => hp ▸ hk) .inl
          · exact .inr (.inr hk)
        · rw [Paging.Cursor.pages_push_of_ne hp] at hk
          exact (hfrom k p hk).imp_right .inl)
  refine ⟨fun r p hp => ?_, fun k r p hk => ?_⟩
  · rw [hpage]
    split
    · exact hempty p hp
    · exact h.firstPage r p hp
  · rw [hpage] at hk
    split at hk
    · rename_i hr
      rw [hr]
      exact (hfrom k p hk).imp_right List.mem_of_mem_take
    · exact .inl hk

theorem grown_round (h : Flexible s) (R : Store.Round s s') : Grown s s' := by
  obtain ⟨hroot, -, hdeletions, -⟩ := R.frame
  have hcollections := congrArg Store.collections R.store_eq
  have halive := congrArg Store.suspendedCollections R.store_eq
  obtain ⟨hempty, hfrom⟩ := h.round_pages R
  refine ⟨hcollections, halive, hdeletions, hroot, h.placed.round h.queue R, fun hnone => ?_, hempty,
    (h.placed.joined_round h.queue R).grows, fun k r p hk => ?_, fun k => ?_⟩
  · cases hnone.symm.trans R.collections_eq
  · exact (hfrom k r p hk).imp_right fun hk => h.onboarding_of_round R hk
  · by_cases hk : k ∈ R.keys.take R.toInclude
    · obtain ⟨q, t, hold⟩ := h.onboarding_of_round R (List.mem_of_mem_take hk)
      obtain ⟨p, i, hnew⟩ := R.members_of_mem hk
      simp [hold, hnew]
    · rw [R.members_of_notMem hk]

theorem grown_doSelfInclude (h : Flexible s) {member : T.Member} (hs : s.doSelfInclude member = .ok s') :
    Grown s s' := by
  obtain ⟨info, d, a, q, t, hinfo, ha, hget, hmembers, hpage, hcollections, halive, hroot, -, hdeletions⟩ :=
    Store.doSelfInclude_places hs
  have hindex := Store.pageIndex_of_fits (s := d) (h.fits info hinfo)
  rw [ha] at hindex
  refine ⟨hcollections, halive, hdeletions, hroot, h.placed.doSelfInclude hs, fun hnone => ?_, fun r p hp => ?_,
    (h.placed.joined_doSelfInclude hs).grows, fun k r p hk => ?_, fun k => ?_⟩
  · cases hnone.symm.trans hinfo
  · rw [hpage, if_neg fun hc => absurd (hc.2.trans hindex) (Nat.ne_of_gt hp)]
    exact h.firstPage r p hp
  · rw [hpage] at hk
    split at hk
    · rename_i hrp
      rw [hrp.1, hrp.2]
      rcases List.mem_append.mp hk with hk | hk
      · exact .inl hk
      · rw [List.mem_singleton.mp hk]
        exact .inr ⟨q, t, hget⟩
    · exact .inl hk
  · rw [hmembers, StorageMap.get_insert]
    split
    · rename_i hk
      simp [hk, hget]
    · rfl

theorem grown_mergeFrontQueuePages (h : Flexible s) (hs : s.mergeFrontQueuePages = .ok s') : Grown s s' := by
  have hplaced := h.placed.mergeFrontQueuePages h.queue hs
  obtain ⟨-, t, keys, hfold, -, rfl⟩ := Store.mergeFrontQueuePages_spec hs
  obtain ⟨hframe, hsame, hmoved⟩ := Store.relocateQueued_fold hfold
  have hpage : t.page = s.page := by
    unfold Store.page Store.ringKeysAt
    rw [hframe]
  have hcollections : t.collections = s.collections := by rw [hframe]
  have halive : t.suspendedCollections = s.suspendedCollections := by rw [hframe]
  have hdeletions : t.ringDeletionQueue = s.ringDeletionQueue := by rw [hframe]
  have hroot : t.root = s.root := by rw [hframe]
  refine ⟨hcollections, halive, hdeletions, hroot, hplaced, fun _ => hpage, fun r p hp => ?_, fun r p => ?_,
    fun k r p hk => ?_, fun k => ?_⟩
  · show t.page r p = []
    rw [hpage]
    exact h.firstPage r p hp
  · show _ <+: t.page r p
    rw [hpage]
  · exact .inl (hpage ▸ hk)
  · show t.members.get k = _ ↔ _
    by_cases hk : k ∈ s.queuePage s.queuePageIndices.1
    · obtain ⟨u, hu⟩ := (h.queue.mem_iff k _).mp hk
      simp [hmoved k hk _ u hu, hu]
    · rw [hsame k hk]

theorem tended (h : Flexible s) (hc : tends c = true) (hs : s.exec env c = .ok s') : Tended env s c s' := by
  have same : Grown s s := h.grown_of_frame rfl rfl rfl rfl rfl rfl rfl
  cases exec_effect hs with
  | createCollection _ _ _ _ => cases hc
  | addMembers _ _ => cases hc
  | removeMembers _ _ => cases hc
  | removeRingQueued _ => cases hc
  | removeRing _ _ _ => cases hc
  | deleteCollection _ _ => cases hc
  | setOnboardingSize => exact .grown (h.grown_of_frame rfl rfl rfl rfl rfl rfl rfl)
  | onboardNone => exact .grown same
  | onboard R => exact .grown (h.grown_round R)
  | selfInclude hself => exact .grown (h.grown_doSelfInclude hself)
  | mergeQueuePages hmerge => exact .grown (h.grown_mergeFrontQueuePages hmerge)
  | buildRing hbuild => exact .built hbuild
  | mergeRings hmerge => exact .merged hmerge
  | session _ _ => exact .grown (h.grown_of_frame rfl rfl rfl rfl rfl rfl rfl)
  | removeSuspendedKeys hshould =>
    refine .cleaned fun hnil => ?_
    simp [Store.shouldRemoveSuspendedKeys, BoundedVec.length, hnil] at hshould
  | deleteRingPage hq =>
    rw [h.undeleted] at hq
    cases hq
  | enqueueRingDeletion hsuspended _ =>
    rw [h.alive] at hsuspended
    cases hsuspended
  | deleteOnboardingQueuePage hsuspended =>
    rw [h.alive] at hsuspended
    cases hsuspended
  | finalizeCollectionDeletion hsuspended _ _ _ =>
    rw [h.alive] at hsuspended
    cases hsuspended
  | markRingStale => exact .grown (h.grown_of_frame rfl rfl rfl rfl rfl rfl rfl)
  | cleanUpOldRoots _ _ => exact .grown (h.grown_of_frame rfl rfl rfl rfl rfl rfl rfl)

/-! ### What is kept -/

theorem of_grown (h : Flexible s) (hgrown : Grown s s') (hqueue : QueueCoherent s') : Flexible s' := by
  refine ⟨fun info hinfo => h.fits info (hgrown.collections ▸ hinfo), hgrown.alive.trans h.alive, fun k => ?_,
    fun hnone => ?_, hgrown.firstPage, hqueue, hgrown.placed, fun r root hroot => ?_⟩
  · rw [hgrown.deletions]
    exact h.undeleted k
  · rw [hgrown.collections] at hnone
    rw [hgrown.uncreated hnone]
    exact h.uncreated hnone
  · rw [hgrown.root] at hroot
    obtain ⟨info, capacity, keys, hinfo, hcapacity, hcommits, hfinished, hstored⟩ := h.roots r root hroot
    exact ⟨info, capacity, keys, hgrown.collections.trans hinfo, hcapacity, hcommits, hfinished,
      fun k hk => (hgrown.grows r 0).subset (hstored k hk)⟩

theorem buildRing (h : Flexible s) {n : Nat} (hs : s.buildRing env r n = .ok s') (hqueue : QueueCoherent s') :
    Flexible s' := by
  obtain ⟨info, capacity, start, root, status, hinfo, hcapacity, hstart, -, hcommits, hfinished, -, -, hs'⟩ :=
    Store.buildRing_spec hs
  have hpage : s'.page = s.page := by
    rw [hs']
    rfl
  have hcollections : s'.collections = s.collections := by rw [hs']
  have hroots : s'.root = s.root.insert r root := by
    have hroot := congrArg Store.root hs'
    exact hroot
  refine ⟨fun info' hinfo' => h.fits info' (hcollections ▸ hinfo'), by rw [hs']; exact h.alive,
    by rw [hs']; exact h.undeleted, by rw [hpage, hcollections]; exact h.uncreated, by rw [hpage]; exact h.firstPage,
    hqueue, ?_, fun r' root' hroot' => ?_⟩
  · rw [hs']
    exact h.placed.of_frame rfl rfl rfl rfl
  rw [hroots, StorageMap.get_insert] at hroot'
  split at hroot'
  · rename_i hr
    cases hroot'
    -- The build resumes from a value that commits to keys of the ring, and pushes more of them.
    obtain ⟨keys, hresumed, hstored⟩ : ∃ keys, start.2 = commitment T capacity keys ∧ ∀ k ∈ keys, k ∈ s.page r 0 := by
      unfold Store.buildStart at hstart
      cases hget : s.root.get r with
      | none =>
        rw [hget] at hstart
        cases hstart
        exact ⟨[], rfl, fun _ hk => absurd hk List.not_mem_nil⟩
      | some existing =>
        simp only [hget, bind_eq_ok, ensure_eq_ok] at hstart
        obtain ⟨-, -, hstart⟩ := hstart
        cases hstart
        obtain ⟨info', capacity', keys, hinfo', hcapacity', hcommits', -, hstored⟩ := h.roots r existing hget
        rw [hinfo] at hinfo'
        cases hinfo'
        rw [hcapacity] at hcapacity'
        cases hcapacity'
        exact ⟨keys, hcommits', hstored⟩
    refine ⟨info, capacity, keys ++ (s.keysToPush r n n (s.ringStatusAt r)).1, hcollections.trans hinfo, hcapacity, ?_,
      hfinished, fun k hk => ?_⟩
    · rw [hcommits, hresumed, commitment, commitment, List.foldl_append]
    · rw [hpage, hr]
      rcases List.mem_append.mp hk with hk | hk
      · exact hstored k hk
      · obtain ⟨p, hp⟩ := Store.mem_keysToPush hk
        by_cases hzero : p = 0
        · exact hzero ▸ hp
        · rw [h.firstPage r p (Nat.pos_of_ne_zero hzero)] at hp
          cases hp
  · obtain ⟨info', capacity', keys, hinfo', hrest⟩ := h.roots r' root' hroot'
    exact ⟨info', capacity', keys, hcollections.trans hinfo', by rw [hpage]; exact hrest⟩

theorem mergeRings (h : Flexible s) {base target : Nat} (hs : s.mergeRings env base target = .ok s')
    (hqueue : QueueCoherent s') : Flexible s' := by
  have hplaced := h.placed.mergeRings hs (h.moved hs)
  have hpage := Store.page_mergeRings hs
  obtain ⟨info, m, hinfo, -, -, -, -, -, -, -, -, -, hs'⟩ := Store.mergeRings_spec hs
  have hroots : s'.root = (s.archiveRoot env target).root := by
    have hroot := congrArg Store.root hs'
    exact hroot
  have hcollections : s'.collections = s.collections := by rw [hs']
  refine ⟨by rw [hcollections]; exact h.fits, by rw [hs']; exact h.alive, by rw [hs']; exact h.undeleted,
    fun hnone => ?_, fun r p hp => ?_, hqueue, hplaced, fun r root hroot => ?_⟩
  · cases hnone.symm.trans (hcollections.trans hinfo)
  · rw [hpage, if_neg fun hc => absurd hc.2 (Nat.ne_of_gt hp), if_neg fun hc => absurd hc.2 (Nat.ne_of_gt hp)]
    exact h.firstPage r p hp
  · rw [hroots, Store.root_archiveRoot] at hroot
    split at hroot
    · cases hroot
    · rename_i hr
      obtain ⟨info', capacity, keys, hinfo', hcapacity, hcommits, hfinished, hstored⟩ := h.roots r root hroot
      refine ⟨info', capacity, keys, by rw [hs']; exact hinfo', hcapacity, hcommits, hfinished, fun k hk => ?_⟩
      rw [hpage, if_neg fun hc => hr hc.1]
      split
      · rename_i hbase
        exact List.mem_append_left _ (hbase.1 ▸ hstored k hk)
      · exact hstored k hk

theorem removeSuspendedKeys (h : Flexible s) (hpending : (s.pendingAt r).toList ≠ []) :
    Flexible (s.removeSuspendedKeys env r) := by
  have hplaced : Placed (s.removeSuspendedKeys env r) := h.placed.removeSuspendedKeys hpending
  have hqueue : QueueCoherent (s.removeSuspendedKeys env r) := h.queue.removeSuspendedKeys
  rcases Store.removeSuspendedKeys_spec env s r with ⟨-, hs⟩ | ⟨info, capacity, members, page, hinfo, hcapacity,
    -, -, hs⟩
  · rw [hs]
    exact h
  have hpage := Store.page_removeSuspendedKeys hs
  generalize s.removeSuspendedKeys env r = s' at hs hpage hplaced hqueue
  have hcollections : s'.collections = s.collections := by rw [hs]
  have hroots : s'.root = (s.resetRoot env capacity r).root := by rw [hs]
  refine ⟨by rw [hcollections]; exact h.fits, by rw [hs]; exact h.alive, by rw [hs]; exact h.undeleted,
    fun hnone => ?_, fun r' p hp => ?_, hqueue, hplaced, fun r' root hroot => ?_⟩
  · cases hnone.symm.trans (hcollections.trans hinfo)
  · rw [hpage, if_neg fun hc => absurd hc.2 (Nat.ne_of_gt hp)]
    exact h.firstPage r' p hp
  · rw [hroots, Store.root_resetRoot] at hroot
    by_cases hr : r' = r
    · rw [if_pos hr, Option.map_eq_some_iff] at hroot
      obtain ⟨old, -, rfl⟩ := hroot
      exact ⟨info, capacity, [], hcollections.trans hinfo, hcapacity, rfl, rfl, fun _ hk => nomatch hk⟩
    · rw [if_neg hr] at hroot
      obtain ⟨info', capacity', keys, hinfo', hcapacity', hcommits, hfinished, hstored⟩ := h.roots r' root hroot
      refine ⟨info', capacity', keys, hcollections.trans hinfo', hcapacity', hcommits, hfinished, fun k hk => ?_⟩
      rw [hpage, if_neg fun hc => hr hc.1]
      exact hstored k hk

theorem step (h : Flexible s) (hc : tends c = true) (hs : s.exec env c = .ok s') : Flexible s' := by
  have hqueue : QueueCoherent s' := h.queue.step (fun base target heq k hk => by
    subst heq
    obtain ⟨i, hi⟩ := List.getElem?_of_mem hk
    exact ⟨target, 0, i, h.moved hs k i hi⟩) hs
  cases h.tended hc hs with
  | grown hgrown => exact h.of_grown hgrown hqueue
  | built hbuild => exact h.buildRing hbuild hqueue
  | merged hmerge => exact h.mergeRings hmerge hqueue
  | cleaned hpending => exact h.removeSuspendedKeys hpending

theorem suspended_iff (h : Flexible s) (hc : tends c = true) (hs : s.exec env c = .ok s') :
    s'.members.get k = some .suspended ↔ s.members.get k = some .suspended := by
  cases h.tended hc hs with
  | grown hgrown => exact hgrown.suspended k
  | built hbuild =>
    obtain ⟨_, _, _, _, _, -, -, -, -, -, -, -, -, hs'⟩ := Store.buildRing_spec hbuild
    rw [hs']
  | @merged base target _ hmerge =>
    have hmoved := h.moved hmerge
    obtain ⟨info, m, -, -, -, -, -, -, -, -, -, hm, hs'⟩ := Store.mergeRings_spec hmerge
    obtain ⟨-, -, hsame, hrecord⟩ := Store.moveKeys_spec hm
    rw [hs']
    show m.1.members.get k = _ ↔ _
    by_cases hk : k ∈ s.page target 0
    · obtain ⟨-, j, -, -, hnew⟩ := hrecord k hk
      obtain ⟨i, hi⟩ := List.getElem?_of_mem hk
      simp [hnew, hmoved k i hi]
    · rw [hsame k hk]
  | @cleaned r _ =>
    rcases Store.removeSuspendedKeys_spec env s r with ⟨-, hs'⟩ | ⟨info, capacity, members, page, -, -, hmembers,
      -, hs'⟩
    · rw [hs']
    · rw [hs']
      show members.get k = _ ↔ _
      rw [hmembers]
      rcases Store.retainKeys_members_cases r 0 (s.pendingAt r).toList s BoundedVec.nil (s.page r 0) k with
        hold | ⟨p, a, b, ha, hb⟩
      · rw [hold]
      · simp [ha, hb]

/-- A suspended key that no ring stores is stored in none. -/
theorem absent (h : Flexible s) (hc : tends c = true) (hs : s.exec env c = .ok s')
    (hk : s.members.get k = some .suspended) (habsent : s.Absent k) : s'.Absent k := by
  intro r p hstored
  cases h.tended hc hs with
  | grown hgrown =>
    rcases hgrown.waiting k r p hstored with hold | ⟨q, t, hwaits⟩
    · exact habsent r p hold
    · cases hk.symm.trans hwaits
  | built hbuild =>
    obtain ⟨_, _, _, _, _, -, -, -, -, -, -, -, -, hs'⟩ := Store.buildRing_spec hbuild
    rw [hs'] at hstored
    exact habsent r p hstored
  | @merged base target _ hmerge =>
    rw [Store.page_mergeRings hmerge] at hstored
    split at hstored
    · cases hstored
    · split at hstored
      · rcases List.mem_append.mp hstored with hold | hold
        · exact habsent base 0 hold
        · exact habsent target 0 hold
      · exact habsent r p hstored
  | @cleaned r' _ =>
    rcases Store.removeSuspendedKeys_spec env s r' with ⟨-, hs'⟩ | ⟨info, capacity, members, page, -, -, -, hlist,
      hs'⟩
    · rw [hs'] at hstored
      exact habsent r p hstored
    · rw [Store.page_removeSuspendedKeys hs'] at hstored
      split at hstored
      · rw [hlist] at hstored
        exact habsent r' 0 ((compact_sublist _ _ _).subset hstored)
      · exact habsent r p hstored

/-- A revision of a ring stands while the ring loses no key, or is the one that the call gives it. -/
theorem revision_cases (h : Flexible s) (hc : tends c = true) (hs : s.exec env c = .ok s') {v : Nat}
    (hrevision : s'.ringRevision r = some v) :
    (s.ringRevision r = some v ∧ ∀ k ∈ s.page r 0, k ∈ s'.page r 0) ∨ s.nextRevision c r = some v := by
  cases h.tended hc hs with
  | grown hgrown =>
    refine .inl ⟨?_, fun k hk => (hgrown.grows r 0).subset hk⟩
    rw [Store.ringRevision, ← hgrown.root]
    exact hrevision
  | @built r' n _ hbuild =>
    obtain ⟨_, _, start, root, _, -, -, hstart, hnew, -, -, -, -, hs'⟩ := Store.buildRing_spec hbuild
    have hroots : s'.root = s.root.insert r' root := by
      have hroot := congrArg Store.root hs'
      exact hroot
    have hpage : s'.page = s.page := by
      rw [hs']
      rfl
    rw [Store.ringRevision, hroots, StorageMap.get_insert] at hrevision
    by_cases hr : r = r'
    · rw [if_pos hr] at hrevision
      cases hrevision
      refine .inr ?_
      rw [Store.nextRevision, if_pos hr.symm, hnew, hr]
      unfold Store.buildStart at hstart
      cases hget : s.root.get r' with
      | none =>
        rw [hget] at hstart
        cases hstart
        rfl
      | some existing =>
        simp only [hget, bind_eq_ok, ensure_eq_ok] at hstart
        obtain ⟨-, hlt, hstart⟩ := hstart
        cases hstart
        exact congrArg some (U32.saturatingAdd_eq hlt)
    · rw [if_neg hr] at hrevision
      refine .inl ⟨hrevision, fun k hk => ?_⟩
      rw [hpage]
      exact hk
  | @merged base target _ hmerge =>
    have hpage := Store.page_mergeRings hmerge
    obtain ⟨_, _, -, -, -, -, -, -, -, -, -, -, hs'⟩ := Store.mergeRings_spec hmerge
    have hroots : s'.root = (s.archiveRoot env target).root := by
      have hroot := congrArg Store.root hs'
      exact hroot
    rw [Store.ringRevision, hroots, Store.root_archiveRoot] at hrevision
    by_cases hr : r = target
    · rw [if_pos hr] at hrevision
      cases hrevision
    · rw [if_neg hr] at hrevision
      refine .inl ⟨hrevision, fun k hk => ?_⟩
      rw [hpage, if_neg fun hc => hr hc.1]
      split
      · rename_i hbase
        exact List.mem_append_left _ (hbase.1 ▸ hk)
      · exact hk
  | @cleaned r' _ =>
    rcases Store.removeSuspendedKeys_spec env s r' with ⟨-, hs'⟩ | ⟨info, capacity, members, page, -, -, -, -, hs'⟩
    · rw [hs'] at hrevision ⊢
      exact .inl ⟨hrevision, fun _ hk => hk⟩
    have hpage := Store.page_removeSuspendedKeys hs'
    have hroots : (s.removeSuspendedKeys env r').root = (s.resetRoot env capacity r').root := by
      have hroot := congrArg Store.root hs'
      exact hroot
    rw [Store.ringRevision, hroots, Store.root_resetRoot] at hrevision
    by_cases hr : r = r'
    · refine .inr ?_
      rw [if_pos hr, Option.map_map] at hrevision
      rw [Store.nextRevision, if_pos hr.symm, hr]
      exact hrevision
    · rw [if_neg hr] at hrevision
      refine .inl ⟨hrevision, fun k hk => ?_⟩
      rw [hpage, if_neg fun hc => hr hc.1]
      exact hk

/-- A removal takes a suspended key out of the ring. -/
theorem absent_cleaned (h : Flexible s) (hpending : (s.pendingAt r).toList ≠ [])
    (hk : s.members.get k = some .suspended) (hother : ∀ r', r' ≠ r → k ∉ s.page r' 0) :
    (s.removeSuspendedKeys env r).Absent k := by
  intro r' p hstored
  rcases Store.removeSuspendedKeys_spec env s r with ⟨hnone, -⟩ | ⟨info, capacity, members, page, -, -, -, hlist, hs'⟩
  · -- A collection that does not exist has no ring to clean.
    obtain ⟨i, hi⟩ := List.exists_mem_of_ne_nil _ hpending
    have hslot := (h.placed.pending_slot r i hi).1
    rw [h.uncreated hnone r 0] at hslot
    cases hslot
  · rw [Store.page_removeSuspendedKeys hs'] at hstored
    split at hstored
    · rw [hlist] at hstored
      obtain ⟨i, hslot, hlive⟩ := (mem_compact (h.placed.sorted r)).mp hstored
      have hrecord := h.placed.places.live k r 0 i hslot fun hdead => hlive (h.dead_iff.mp hdead).2
      cases hk.symm.trans hrecord
    · rename_i hrp
      by_cases hp : p = 0
      · rw [hp] at hstored hrp
        exact hother r' (fun hr => hrp ⟨hr, rfl⟩) hstored
      · rw [h.firstPage r' p (Nat.pos_of_ne_zero hp)] at hstored
        cases hstored

/-! ### Creating the collection, and its members -/

theorem createCollection (h : Flexible s) {owner : T.Location} {n : Nat} {size : RingExponent} {delay : Option Nat}
    (hs : s.createCollection owner n .flexible size delay = .ok s') :
    Flexible s' ∧ s'.page = s.page ∧ s'.root = s.root ∧ s'.members = s.members := by
  simp only [Store.createCollection, bind_eq_ok, ensure_eq_ok, Option.isNone_iff_eq_none] at hs
  obtain ⟨-, ⟨hnone, -⟩, -, hfits, -, -, hs⟩ := hs
  cases hs
  refine ⟨⟨fun info hinfo => ?_, h.alive, h.undeleted, fun hnone' => ?_, h.firstPage, ?_, ?_, fun r root hroot => ?_⟩,
    rfl, rfl, rfl⟩
  · cases hinfo
    exact (hfits trivial).2
  · cases hnone'
  · exact h.queue.of_same (fun _ => rfl) rfl fun _ _ _ => Iff.rfl
  · exact h.placed.of_frame rfl rfl rfl rfl
  · obtain ⟨info, -, -, hinfo, -⟩ := h.roots r root hroot
    cases hnone.symm.trans hinfo

/-- Records of members change, and no ring does. -/
theorem of_same_rings (h : Flexible s) (hcollections : s'.collections = s.collections)
    (halive : s'.suspendedCollections = s.suspendedCollections)
    (hdeletions : s'.ringDeletionQueue = s.ringDeletionQueue) (hpage : s'.page = s.page) (hroot : s'.root = s.root)
    (hqueue : QueueCoherent s') (hplaced : Placed s') : Flexible s' := by
  refine ⟨by rw [hcollections]; exact h.fits, halive.trans h.alive, by rw [hdeletions]; exact h.undeleted,
    by rw [hcollections, hpage]; exact h.uncreated, by rw [hpage]; exact h.firstPage, hqueue, hplaced,
    fun r root hget => ?_⟩
  obtain ⟨info, capacity, keys, hinfo, hrest⟩ := h.roots r root (hroot ▸ hget)
  exact ⟨info, capacity, keys, hcollections.trans hinfo, by rw [hpage]; exact hrest⟩

theorem addMember (h : Flexible s) (hs : Store.addMember env s key = .ok s') :
    Flexible s' ∧ s'.page = s.page ∧ s'.root = s.root ∧
      ∀ k, s'.members.get k = some .suspended ↔ s.members.get k = some .suspended ∧ k ≠ key := by
  have hqueue := h.queue.addMember hs
  have hplaced := h.placed.addMember hs
  obtain ⟨tail, keys, rfl, -⟩ := Store.pushToOnboardingQueue_spec (Store.addMember_spec hs).2
  refine ⟨h.of_same_rings rfl rfl rfl rfl rfl hqueue hplaced, rfl, rfl, fun k => ?_⟩
  show (s.members.insert key _).get k = _ ↔ _
  rw [StorageMap.get_insert]
  by_cases hk : k = key <;> simp [hk]

theorem queueMemberSuspension (h : Flexible s) (hs : s.queueMemberSuspension key = .ok s') :
    Flexible s' ∧ s'.page = s.page ∧ s'.root = s.root ∧
      ∀ k, s'.members.get k = some .suspended ↔ s.members.get k = some .suspended ∨ k = key := by
  have hqueue := h.queue.queueMemberSuspension hs
  have hplaced := h.placed.queueMemberSuspension (fun r p i hget => by
    have hslot := h.placed.places.slot key r p i hget
    refine ⟨?_, by rw [h.undeleted]; rfl⟩
    by_contra hp
    rw [h.firstPage r p (Nat.pos_of_ne_zero hp)] at hslot
    cases hslot) hs
  obtain ⟨-, hmembers⟩ := Store.queueMemberSuspension_frame hs
  have hsuspended : ∀ k, s'.members.get k = some .suspended ↔ s.members.get k = some .suspended ∨ k = key := by
    intro k
    rw [hmembers]
    by_cases hk : k = key <;> simp [hk]
  rcases Store.queueMemberSuspension_cases hs with
    ⟨r, p, i, j, indices, -, -, -, rfl⟩ | ⟨q, t, -, rfl⟩ | ⟨-, rfl⟩
  · exact ⟨h.of_same_rings rfl rfl rfl rfl rfl hqueue hplaced, rfl, rfl, hsuspended⟩
  · have hframe := Store.dropQueued_frame s q key
    have hpage : (s.dropQueued q key).page = s.page := by
      rw [hframe]
      rfl
    have hroot : (s.dropQueued q key).root = s.root := by rw [hframe]
    refine ⟨h.of_same_rings ?_ ?_ ?_ hpage hroot hqueue hplaced, hpage, hroot, hsuspended⟩
    · show (s.dropQueued q key).collections = _
      rw [hframe]
    · show (s.dropQueued q key).suspendedCollections = _
      rw [hframe]
    · show (s.dropQueued q key).ringDeletionQueue = _
      rw [hframe]
  · exact ⟨h.of_same_rings rfl rfl rfl rfl rfl hqueue hplaced, rfl, rfl, hsuspended⟩

end Flexible

/-! ### Proofs of membership -/

/-- An ideal ring-VRF: a proof that a root accepts is by one of its keys, and shows the alias that the
key has in the context. No two keys have the same one. -/
structure IdealRingVrf (T : Config) where
  prover : T.crypto.Proof → T.Member
  aliasIn : T.Member → T.crypto.Context → T.crypto.Alias
  sound : ∀ {capacity keys proof context message found},
    T.crypto.validate capacity proof (T.crypto.finishMembers (commitment T capacity keys)) context message =
      some found → prover proof ∈ keys ∧ found = aliasIn (prover proof) context
  injective : ∀ {k k' context}, aliasIn k context = aliasIn k' context → k = k'

/-- A proof of membership is by a key that the ring stores. -/
theorem Flexible.verified (h : Flexible s) (V : IdealRingVrf T) {proof : T.crypto.Proof}
    {context : T.crypto.Context} {message : T.crypto.Message} {found : Nat × T.crypto.Alias}
    (hok : s.verifyMembership proof r context message = .ok found) :
    s.ringRevision r = some found.1 ∧ ∃ k ∈ s.page r 0, found.2 = V.aliasIn k context := by
  simp only [Store.verifyMembership, bind_eq_ok, okOr_eq_ok] at hok
  obtain ⟨info, hinfo, capacity, hcapacity, ring, hring, shown, hvalid, hok⟩ := hok
  cases hok
  obtain ⟨info', capacity', keys, hinfo', hcapacity', hcommits, hfinished, hstored⟩ := h.roots r ring hring
  cases hinfo.symm.trans hinfo'
  cases hcapacity.symm.trans hcapacity'
  rw [hfinished, hcommits] at hvalid
  obtain ⟨hmem, halias⟩ := V.sound hvalid
  refine ⟨?_, _, hstored _ hmem, halias⟩
  rw [Store.ringRevision, hring]
  rfl

end Individuality.Members
