import Individuality.Members.Counters

/-! What a removal session removes.

A suspended member's slot is remembered as the index inside its page; which page
that was is not. The removal compacts the first page of each ring at those
indices and counts what is left there. So a session leaves exactly the members
that were not suspended, with the right counters, when every ring it suspends a
member of keeps all its keys on its first page, and only then. -/
namespace Individuality.Members
open Support
variable {T : Config}

/-- A removal session: suspensions queued by any number of calls, its end, and the removal from
some rings. -/
def suspensionSession (s : Store T) (batches : List (List T.Member))
    (removals : List (Env T × Nat)) : Except Error (Store T) := do
  let s ← s.startRemovalSession
  let s ← batches.foldlM Store.removeMembers s
  let s ← s.endRemovalSession
  removals.foldlM (fun s e => s.removeSuspendedKeysAuthorized e.1 e.2) s

/-- A collection at rest: no session and no suspension is pending, its members are stored where
their records say, and its counters count them. -/
structure Settled (s : Store T) (info : CollectionInfo T) : Prop where
  collections : s.collections = some info
  active : s.suspendedCollections = none
  appendOnly : s.ringsState.appendOnly = true
  pending : ∀ r, s.pendingSuspensions.get r = none
  record_iff : ∀ k r p i,
    s.members.get k = some (.included r p i) ↔ (s.page r p)[i]? = some k
  total_eq : ∀ r, (s.ringStatusAt r).total = (s.keysInOrder r).length
  active_eq : s.activeMembers = s.ringKeysStatus.sumOf RingStatus.total

/-- Exactly the suspended members are gone. -/
structure RemovedExactly (s s' : Store T) (suspended : List T.Member) : Prop where
  keys : ∀ r, s'.keysInOrder r = (s.keysInOrder r).filter (· ∉ suspended)
  record : ∀ k r p i, (s'.page r p)[i]? = some k → s'.members.get k = some (.included r p i)
  total_eq : ∀ r, (s'.ringStatusAt r).total = (s'.keysInOrder r).length
  included : ∀ r, (∃ k ∈ suspended, k ∈ s.keysInOrder r) → (s'.ringStatusAt r).included = 0
  active_eq : s'.activeMembers + suspended.length = s.activeMembers

/-! ### Queueing suspensions -/

/-- What queueing the suspension of included members did. -/
structure Queued (s t : Store T) (done : List T.Member) : Prop where
  frame : t = { s with members := t.members, pendingSuspensions := t.pendingSuspensions }
  members : ∀ k, t.members.get k = if k ∈ done then some .suspended else s.members.get k
  sorted : ∀ r, (t.pendingAt r).toList.Pairwise (· < ·)
  pending : ∀ r i, i ∈ (t.pendingAt r).toList ↔
    ∃ k ∈ done, ∃ p, s.members.get k = some (.included r p i)
  count : t.pendingSuspensions.sumOf BoundedVec.length = done.length
  absent : ∀ r, (∀ k ∈ done, ∀ p i, s.members.get k ≠ some (.included r p i)) →
    t.pendingSuspensions.get r = none

namespace Queued
variable {s t t' : Store T} {done : List T.Member} {key : T.Member}

theorem refl (hpending : ∀ r, s.pendingSuspensions.get r = none) : Queued s s [] where
  frame := rfl
  members _ := rfl
  sorted r := by simp [Store.pendingAt, hpending]
  pending r i := by simp [Store.pendingAt, hpending]
  count := StorageMap.sumOf_of_get_none hpending _
  absent r _ := hpending r

theorem step (h : Queued s t done) (hkey : key ∉ done) {r p i : Nat}
    (hrecord : s.members.get key = some (.included r p i))
    (hs : t.queueMemberSuspension key = .ok t') : Queued s t' (done ++ [key]) := by
  have hget : t.members.get key = some (.included r p i) := by rw [h.members, if_neg hkey, hrecord]
  rcases Store.queueMemberSuspension_cases hs with
    ⟨r', p', i', j, indices, hget', hsearch, hindices, hs'⟩ | ⟨q, at_, hget', -⟩ | ⟨hget', -⟩
  · rw [hget] at hget'
    cases hget'
    obtain ⟨hnew, hsorted⟩ := binarySearch_inr (h.sorted r) hsearch
    have hpendingAt : ∀ r', t'.pendingAt r' = if r' = r then indices else t.pendingAt r' := by
      intro r'
      rw [hs']
      by_cases hr : r' = r <;> simp [Store.pendingAt, hr]
    have hmem : ∀ x, x ∈ indices.toList ↔ x = i ∨ x ∈ (t.pendingAt r).toList := by
      intro x
      rw [hindices]
      exact List.mem_insertIdx (binarySearch_inr_le hsearch)
    refine ⟨?_, fun k => ?_, fun r' => ?_, fun r' x => ?_, ?_, fun r' habsent => ?_⟩
    · rw [hs']
      exact congrArg (fun u : Store T => { u with
        members := t.members.insert key .suspended
        pendingSuspensions := t.pendingSuspensions.insert r indices }) h.frame
    · rw [hs']
      simp only [StorageMap.get_insert, h.members, List.mem_append, List.mem_singleton]
      by_cases hk : k = key <;> simp [hk]
    · rw [hpendingAt]
      split
      · rw [hindices]
        exact hsorted
      · exact h.sorted r'
    · rw [hpendingAt]
      simp only [List.mem_append, List.mem_singleton]
      split
      · rename_i hr
        rw [hmem, hr, h.pending]
        constructor
        · rintro (rfl | ⟨k, hk, hp⟩)
          · exact ⟨key, .inr rfl, p, hrecord⟩
          · exact ⟨k, .inl hk, hp⟩
        · rintro ⟨k, hk | rfl, hp⟩
          · exact .inr ⟨k, hk, hp⟩
          · obtain ⟨p', hp'⟩ := hp
            rw [hrecord] at hp'
            cases hp'
            exact .inl rfl
      · rename_i hr
        rw [h.pending]
        constructor
        · rintro ⟨k, hk, hp⟩
          exact ⟨k, .inl hk, hp⟩
        · rintro ⟨k, hk | rfl, p', hp'⟩
          · exact ⟨k, hk, p', hp'⟩
          · rw [hrecord] at hp'
            cases hp'
            exact absurd rfl hr
    · have hsum := t.pendingSuspensions.sumOf_insert BoundedVec.length r indices
      have hmeasure : t.pendingSuspensions.measureAt BoundedVec.length r =
          (t.pendingAt r).toList.length := by
        unfold StorageMap.measureAt Store.pendingAt
        cases t.pendingSuspensions.get r <;> rfl
      have hlen : indices.length = (t.pendingAt r).toList.length + 1 := by
        rw [BoundedVec.length, hindices,
          List.length_insertIdx_of_le_length (binarySearch_inr_le hsearch)]
      have hpendings := congrArg Store.pendingSuspensions hs'
      rw [hpendings, List.length_append, List.length_singleton, ← h.count]
      show (t.pendingSuspensions.insert r indices).sumOf _ = _
      omega
    · have hr : r' ≠ r := by
        rintro rfl
        exact habsent key (by simp) p i hrecord
      rw [hs', StorageMap.get_insert, if_neg hr]
      exact h.absent r' fun k hk => habsent k (by simp [hk])
  · rw [hget] at hget'
    cases hget'
  · rw [hget] at hget'
    cases hget'

/-- The suspension is accepted when its index is not queued already and there is room. -/
theorem exists_step (h : Queued s t done) (hkey : key ∉ done) {r p i : Nat}
    (hrecord : s.members.get key = some (.included r p i))
    (hnew : ¬ ∃ k ∈ done, ∃ p', s.members.get k = some (.included r p' i))
    (hlt : ∀ x ∈ i :: (t.pendingAt r).toList, x < T.flexibleRingCapacity) :
    ∃ t', t.queueMemberSuspension key = .ok t' := by
  have hget : t.members.get key = some (.included r p i) := by rw [h.members, if_neg hkey, hrecord]
  have hnotin : i ∉ (t.pendingAt r).toList := fun hin => hnew ((h.pending r i).mp hin)
  obtain ⟨j, hsearch⟩ : ∃ j, binarySearch (t.pendingAt r).toList i = .inr j := by
    unfold binarySearch
    simp only
    split
    · rename_i hat
      exact absurd (List.mem_of_getElem? hat) hnotin
    · exact ⟨_, rfl⟩
  -- Different indices below the page size fit the page size.
  have hroom : (t.pendingAt r).toList.length < T.flexibleRingCapacity := by
    have hnodup : (i :: (t.pendingAt r).toList).Nodup :=
      List.nodup_cons.mpr ⟨hnotin, (h.sorted r).imp fun hab => Nat.ne_of_lt hab⟩
    have hsub : i :: (t.pendingAt r).toList ⊆ List.range T.flexibleRingCapacity :=
      fun x hx => List.mem_range.mpr (hlt x hx)
    have hle := (hnodup.subperm hsub).length_le
    rw [List.length_range, List.length_cons] at hle
    exact hle
  obtain ⟨indices, hinsert, -⟩ := BoundedVec.exists_tryFrom (n := T.flexibleRingCapacity)
    (l := (t.pendingAt r).toList.insertIdx j i)
    (List.length_insertIdx_le_succ.trans hroom)
  have htry : (t.pendingAt r).tryInsert j i = some indices := hinsert
  simp only [Store.queueMemberSuspension, hget, okOr_some, ok_bind, Store.queueIncluded, hsearch, htry]
  exact ⟨_, rfl⟩

end Queued

/-- Calls that queue suspensions one after the other queue them all. -/
theorem foldlM_removeMembers {s : Store T} (batches : List (List T.Member))
    (hmutating : s.ringsState.mutating = true) :
    batches.foldlM Store.removeMembers s = batches.flatten.foldlM Store.queueMemberSuspension s := by
  induction batches generalizing s with
  | nil => rfl
  | cons ks batches ih =>
    rw [List.flatten_cons, List.foldlM_append, List.foldlM_cons]
    have hone : s.removeMembers ks = ks.foldlM Store.queueMemberSuspension s := by
      unfold Store.removeMembers Store.queueMemberSuspensions
      rw [ensure_pos hmutating]
      rfl
    rw [hone]
    cases hks : ks.foldlM Store.queueMemberSuspension s with
    | error e => rfl
    | ok t =>
      have hstate : t.ringsState = s.ringsState := by
        refine foldlM_ok_induction (fun _ u => u.ringsState = s.ringsState) hks rfl ?_
        intro _ key u u' _ hu hstep
        rcases Store.queueMemberSuspension_cases hstep with
          ⟨_, _, _, _, _, -, -, -, rfl⟩ | ⟨q, _, -, rfl⟩ | ⟨-, rfl⟩
        · exact hu
        · rw [Store.dropQueued_frame]
          exact hu
        · exact hu
      exact ih (by rw [hstate]; exact hmutating)

/-! ### Removing -/

/-- What the removals from some rings did, whatever their layout: each counts what it left on
the ring's first page. -/
structure Removing (u t : Store T) (done : List Nat) : Prop where
  collections : t.collections = u.collections
  active : t.suspendedCollections = u.suspendedCollections
  appendOnly : t.ringsState = u.ringsState
  page : ∀ r p, t.page r p = if r ∈ done ∧ p = 0 then
    compact 0 (u.pendingAt r).toList (u.page r 0) else u.page r p
  pending : ∀ r, t.pendingSuspensions.get r = if r ∈ done then none else u.pendingSuspensions.get r
  status : ∀ r, r ∉ done → t.ringStatusAt r = u.ringStatusAt r
  counted : ∀ r, r ∈ done → (t.ringStatusAt r).total = (t.page r 0).length ∧
    (t.ringStatusAt r).included = 0

namespace Removing
variable {u t : Store T} {done : List Nat}

theorem refl (u : Store T) : Removing u u [] where
  collections := rfl
  active := rfl
  appendOnly := rfl
  page r p := by simp
  pending r := by simp
  status _ _ := rfl
  counted r hr := by cases hr

theorem step (h : Removing u t done) {info : CollectionInfo T} (hinfo : u.collections = some info)
    {r : Nat} (hr : r ∉ done) (env : Env T) :
    Removing u (t.removeSuspendedKeys env r) (done ++ [r]) := by
  rcases Store.removeSuspendedKeys_spec env t r with ⟨hnone, -⟩ | ⟨info', capacity, members, page, -, -,
    -, hlist, hs⟩
  · rw [h.collections, hinfo] at hnone
    cases hnone
  have hpage := Store.page_removeSuspendedKeys hs
  have hpendingAt : t.pendingAt r = u.pendingAt r := by
    unfold Store.pendingAt
    rw [h.pending, if_neg hr]
  have hfirst : page.toList = compact 0 (u.pendingAt r).toList (u.page r 0) := by
    rw [hlist, hpendingAt, h.page, if_neg fun hc => hr hc.1]
  have hstatus : ∀ r', (t.removeSuspendedKeys env r).ringStatusAt r' =
      if r' = r then { t.ringStatusAt r with total := page.length, included := 0 }
      else t.ringStatusAt r' := by
    intro r'
    rw [hs]
    exact Store.ringStatusAt_setRingStatus t r r' _
  refine ⟨by rw [hs]; exact h.collections, by rw [hs]; exact h.active, by rw [hs]; exact h.appendOnly,
    fun r' p => ?_, fun r' => ?_, fun r' hr' => ?_, fun r' hr' => ?_⟩
  · rw [hpage, h.page]
    by_cases hrp : r' = r ∧ p = 0
    · rw [if_pos hrp, if_pos ⟨by simp [hrp.1], hrp.2⟩, hfirst, hrp.1]
    · rw [if_neg hrp]
      by_cases hd : r' ∈ done ∧ p = 0
      · rw [if_pos hd, if_pos ⟨by simp [hd.1], hd.2⟩]
      · rw [if_neg hd, if_neg]
        rintro ⟨hmem, hp⟩
        rcases List.mem_append.mp hmem with hmem | hmem
        · exact hd ⟨hmem, hp⟩
        · exact hrp ⟨List.mem_singleton.mp hmem, hp⟩
  · rw [hs]
    simp only [StorageMap.get_remove, h.pending, List.mem_append, List.mem_singleton]
    by_cases hrr : r' = r <;> simp [hrr]
  · rw [List.mem_append, List.mem_singleton, not_or] at hr'
    rw [hstatus, if_neg hr'.2]
    exact h.status r' hr'.1
  · rw [hstatus, hpage]
    by_cases hrr : r' = r
    · rw [if_pos hrr, if_pos ⟨hrr, rfl⟩]
      exact ⟨rfl, rfl⟩
    · rw [if_neg hrr, if_neg fun hc => hrr hc.1]
      exact h.counted r' (by simpa [hrr] using hr')

end Removing

/-- What the removals did to records and counters, from rings whose keys are all on their first
page. -/
structure Tracked (u t : Store T) (done : List Nat) : Prop extends Removing u t done where
  others : ∀ k r p i, r ∉ done → u.members.get k = some (.included r p i) →
    t.members.get k = some (.included r p i)
  record : ∀ k r p i, r ∈ done → u.members.get k = some (.included r p i) → k ∈ t.page r 0 →
    ∃ j, t.members.get k = some (.included r p j) ∧ (t.page r 0)[j]? = some k
  active_eq : t.activeMembers = t.ringKeysStatus.sumOf RingStatus.total
  count : t.activeMembers + u.pendingSuspensions.sumOf BoundedVec.length =
    u.activeMembers + t.pendingSuspensions.sumOf BoundedVec.length

namespace Tracked
variable {u t : Store T} {done : List Nat}

theorem refl (hactive : u.activeMembers = u.ringKeysStatus.sumOf RingStatus.total) :
    Tracked u u [] where
  toRemoving := Removing.refl u
  others _ _ _ _ _ hrecord := hrecord
  record _ _ _ _ hr := by cases hr
  active_eq := hactive
  count := rfl

theorem step (h : Tracked u t done) {info : CollectionInfo T} (hinfo : u.collections = some info)
    {r : Nat} (hr : r ∉ done) (htotal : (u.ringStatusAt r).total = (u.page r 0).length)
    (hsorted : (u.pendingAt r).toList.Pairwise (· < ·))
    (hlt : ∀ j ∈ (u.pendingAt r).toList, j < (u.page r 0).length) (env : Env T) :
    Tracked u (t.removeSuspendedKeys env r) (done ++ [r]) := by
  have hremoving := h.toRemoving.step hinfo hr env
  rcases Store.removeSuspendedKeys_spec env t r with ⟨hnone, -⟩ | ⟨info', capacity, members, page, -, -,
    hmembers, hlist, hs⟩
  · rw [h.collections, hinfo] at hnone
    cases hnone
  have hpendingAt : t.pendingAt r = u.pendingAt r := by
    unfold Store.pendingAt
    rw [h.pending, if_neg hr]
  have hpage : t.page r 0 = u.page r 0 := by rw [h.page, if_neg fun hc => hr hc.1]
  rw [hpendingAt, hpage] at hlist hmembers
  have hmembers' : (t.removeSuspendedKeys env r).members = members := by rw [hs]
  -- Records that point into other rings stay.
  have hother : ∀ k r' p i, r' ≠ r → t.members.get k = some (.included r' p i) →
      (t.removeSuspendedKeys env r).members.get k = some (.included r' p i) := by
    intro k r' p i hne hrecord
    rw [hmembers', hmembers]
    rcases Store.retainKeys_members_cases r 0 (u.pendingAt r).toList t BoundedVec.nil (u.page r 0) k
      with hsame | ⟨p', a, b, ha, -⟩
    · rw [hsame, hrecord]
    · rw [hrecord] at ha
      cases ha
      exact absurd rfl hne
  have hlen : page.length + (u.pendingAt r).toList.length = (u.page r 0).length := by
    rw [BoundedVec.length, hlist]
    exact length_compact hsorted fun j hj => ⟨Nat.zero_le j, by simpa using hlt j hj⟩
  have htotal' : (t.ringStatusAt r).total = (u.page r 0).length := by rw [h.status r hr, htotal]
  have hmeasure : t.ringKeysStatus.measureAt RingStatus.total r = (u.page r 0).length := by
    rw [← htotal']
    unfold StorageMap.measureAt Store.ringStatusAt
    cases t.ringKeysStatus.get r <;> rfl
  have hle := t.ringKeysStatus.measureAt_le_sumOf RingStatus.total r
  rw [hmeasure, ← h.active_eq] at hle
  have hactive : (t.removeSuspendedKeys env r).activeMembers =
      t.activeMembers - (u.pendingAt r).toList.length := by
    rw [hs]
    show t.activeMembers - ((t.ringStatusAt r).total - page.length) = _
    omega
  refine ⟨hremoving, fun k r' p i hr' hrecord => ?_, fun k r' p i hr' hrecord hk => ?_, ?_, ?_⟩
  · rw [List.mem_append, List.mem_singleton, not_or] at hr'
    exact hother k r' p i hr'.2 (h.others k r' p i hr'.1 hrecord)
  · by_cases hrr : r' = r
    · subst hrr
      have hnew : (t.removeSuspendedKeys env r').page r' 0 =
          compact 0 (u.pendingAt r').toList (u.page r' 0) := by
        rw [hremoving.page, if_pos ⟨by simp, rfl⟩]
      rw [hnew] at hk ⊢
      rw [hmembers', hmembers]
      have := Store.retainKeys_members_mem r' p 0 (u.pendingAt r').toList t BoundedVec.nil
        (u.page r' 0) (by simpa [BoundedVec.length] using u.page_length_le r' 0) hk
        (h.others k r' p i hr hrecord)
      simpa using this
    · have hdone : r' ∈ done := by simpa [hrr] using hr'
      have hsame : (t.removeSuspendedKeys env r).page r' 0 = t.page r' 0 := by
        rw [hremoving.page, h.page, if_pos ⟨by simp [hdone], rfl⟩, if_pos ⟨hdone, rfl⟩]
      rw [hsame] at hk ⊢
      obtain ⟨j, hj, hslot⟩ := h.record k r' p i hdone hrecord hk
      exact ⟨j, hother k r' p j hrr hj, hslot⟩
  · have hstatus := congrArg Store.ringKeysStatus hs
    simp only at hstatus
    have hsum := t.ringKeysStatus.sumOf_insert RingStatus.total r
      ⟨page.length, 0, (t.ringStatusAt r).immutableSince⟩
    rw [← hstatus, hmeasure] at hsum
    have := h.active_eq
    rw [hactive]
    change _ + _ = _ + page.length at hsum
    omega
  · have hsum := t.pendingSuspensions.sumOf_remove BoundedVec.length r
    have hpending : t.pendingSuspensions.measureAt BoundedVec.length r =
        (u.pendingAt r).toList.length := by
      rw [← hpendingAt]
      unfold StorageMap.measureAt Store.pendingAt
      cases t.pendingSuspensions.get r <;> rfl
    have hpendings := congrArg Store.pendingSuspensions hs
    rw [hactive, hpendings]
    show t.activeMembers - _ + _ = u.activeMembers + (t.pendingSuspensions.remove r).sumOf _
    have := h.count
    omega

end Tracked

/-! ### A session -/

/-- The collection while the session runs. -/
def Store.inSession (s : Store T) : Store T := { s with ringsState := ⟨.mutating 1⟩ }

theorem Settled.start {s : Store T} {info : CollectionInfo T} (h : Settled s info) :
    s.startRemovalSession = .ok s.inSession := by
  rw [Store.startRemovalSession, if_neg (by simp [h.collections]),
    RingMembersState.eq_default h.appendOnly]
  rfl

/-- The session's end brings the collection back, with the suspensions queued. -/
theorem Queued.endSession {s t : Store T} {info : CollectionInfo T} (h : Settled s info)
    {done : List T.Member} (hq : Queued s.inSession t done) :
    ∃ u, t.endRemovalSession = .ok u ∧ Queued s u done := by
  have hcoll : t.collections = some info := by
    rw [hq.frame]
    exact h.collections
  have hstate : t.ringsState = ⟨.mutating 1⟩ := by
    rw [hq.frame]
    rfl
  refine ⟨{ t with ringsState := default }, ?_, ?_⟩
  · rw [Store.endRemovalSession, if_neg (by simp [hcoll]), hstate]
    rfl
  · refine ⟨?_, hq.members, hq.sorted, hq.pending, hq.count, hq.absent⟩
    have hdefault := RingMembersState.eq_default h.appendOnly
    have hframe := congrArg (fun u : Store T => { u with ringsState := default }) hq.frame
    refine hframe.trans ?_
    simp only [Store.inSession]
    rw [hdefault]

/-- A session that succeeds queued every suspension, then removed from every ring it names. -/
theorem suspensionSession_spec {s s' : Store T} {info : CollectionInfo T} (h : Settled s info)
    {batches : List (List T.Member)} {removals : List (Env T × Nat)}
    (hnodup : batches.flatten.Nodup)
    (hincluded : ∀ k ∈ batches.flatten, ∃ r p i, s.members.get k = some (.included r p i))
    (hrings : (removals.map Prod.snd).Nodup)
    (hs : suspensionSession s batches removals = .ok s') :
    ∃ u, Queued s u batches.flatten ∧ Removing u s' (removals.map Prod.snd) := by
  simp only [suspensionSession, bind_eq_ok, h.start] at hs
  obtain ⟨s₁, h₁, s₂, h₂, u, hu, hs⟩ := hs
  cases h₁
  rw [foldlM_removeMembers batches (by rfl)] at h₂
  have hqueued : Queued s.inSession s₂ batches.flatten := by
    refine foldlM_ok_induction (fun done t => Queued s.inSession t done) h₂
      (Queued.refl h.pending) ?_
    intro done key t t' hpre ht hstep
    have hnd := (List.nodup_append.mp (hnodup.sublist hpre.sublist)).2.2
    obtain ⟨r, p, i, hrecord⟩ := hincluded key (hpre.sublist.subset (by simp))
    exact ht.step (fun hin => hnd key hin key (by simp) rfl) hrecord hstep
  obtain ⟨u', hu', hqu⟩ := hqueued.endSession h
  rw [hu] at hu'
  cases hu'
  have hcoll : u.collections = some info := by
    rw [hqu.frame]
    exact h.collections
  refine ⟨u, hqu, ?_⟩
  refine foldlM_ok_induction (fun done t => Removing u t (done.map Prod.snd)) hs
    (Removing.refl u) ?_
  intro done e t t' hpre ht hstep
  simp only [Store.removeSuspendedKeysAuthorized, bind_eq_ok, ensure_eq_ok] at hstep
  obtain ⟨-, -, hstep⟩ := hstep
  cases hstep
  have hsub := hpre.sublist.map Prod.snd
  rw [List.map_append, List.map_singleton] at hsub ⊢
  have hnd := (List.nodup_append.mp (hrings.sublist hsub)).2.2
  exact ht.step hcoll (fun hin => hnd e.2 hin e.2 (by simp) rfl) e.1

/-- A session that removes exactly the suspended members names no ring with keys beyond its
first page: there the removal loses count. -/
theorem single_page_of_removedExactly {s s' : Store T} {info : CollectionInfo T}
    (h : Settled s info) (batches : List (List T.Member)) (removals : List (Env T × Nat))
    (hnodup : batches.flatten.Nodup)
    (hincluded : ∀ k ∈ batches.flatten, ∃ r p i, s.members.get k = some (.included r p i))
    (hrings : (removals.map Prod.snd).Nodup)
    (hs : suspensionSession s batches removals = .ok s')
    (hremoved : RemovedExactly s s' batches.flatten) {r : Nat} (hr : r ∈ removals.map Prod.snd)
    {q : Nat} (hq : 0 < q) : s.page r q = [] := by
  obtain ⟨u, hqu, hrem⟩ := suspensionSession_spec h hnodup hincluded hrings hs
  have hpage : s'.page r q = s.page r q := by
    rw [hrem.page, if_neg (by omega), hqu.frame]
    rfl
  have htotal := hremoved.total_eq r
  rw [(hrem.counted r hr).1, Store.keysInOrder_eq_concat (le_max_left _ (q + 1))] at htotal
  -- The first page and page `q` are both among the keys counted.
  have hfirsts := (Paging.concat_prefix (s'.page r) (le_max_right (s'.pageBound r) (q + 1))).length_le
  rw [Paging.concat_succ, List.length_append] at hfirsts
  have hfirst := (Paging.concat_prefix (s'.page r) (m := 1) (n := q) hq).length_le
  rw [Paging.concat_succ, Paging.concat_zero, List.nil_append] at hfirst
  rw [← List.length_eq_zero_iff, ← hpage]
  omega

section Single
variable {s : Store T} {info : CollectionInfo T} {suspended : List T.Member}
  (h : Settled s info)
  (hsingle : ∀ k ∈ suspended, ∀ r p i, s.members.get k = some (.included r p i) →
    ∀ q, 0 < q → s.page r q = [])
include h hsingle

/-- A suspended member of such a ring is stored on the first page. -/
theorem Settled.slot_of_single {k : T.Member} (hk : k ∈ suspended) {r p i : Nat}
    (hrecord : s.members.get k = some (.included r p i)) :
    p = 0 ∧ (s.page r 0)[i]? = some k := by
  have hslot := (h.record_iff k r p i).mp hrecord
  rcases Nat.eq_zero_or_pos p with rfl | hp
  · exact ⟨rfl, hslot⟩
  · rw [hsingle k hk r p i hrecord p hp] at hslot
    cases hslot

/-- Queueing suspensions of such members is accepted. -/
theorem Settled.exists_queued (hnodup : suspended.Nodup)
    (hincluded : ∀ k ∈ suspended, ∃ r p i, s.members.get k = some (.included r p i)) :
    ∃ t, suspended.foldlM Store.queueMemberSuspension s.inSession = .ok t ∧
      Queued s.inSession t suspended := by
  refine exists_foldlM_ok (fun done t => Queued s.inSession t done) (Queued.refl h.pending) ?_
  intro done key t hpre ht
  have hnd := (List.nodup_append.mp (hnodup.sublist hpre.sublist)).2.2
  have hkey : key ∉ done := fun hin => hnd key hin key (by simp) rfl
  have hmem : key ∈ suspended := hpre.sublist.subset (by simp)
  have hdone : ∀ k ∈ done, k ∈ suspended := fun k hk => hpre.sublist.subset (by simp [hk])
  obtain ⟨r, p, i, hrecord⟩ := hincluded key hmem
  obtain ⟨rfl, hslot⟩ := h.slot_of_single hsingle hmem hrecord
  have hlt : ∀ {k x p'}, k ∈ suspended → s.members.get k = some (.included r p' x) →
      x < T.flexibleRingCapacity := by
    intro k x p' hk hrec
    have hslot' := (h.slot_of_single hsingle hk hrec).2
    exact (List.getElem?_eq_some_iff.mp hslot').1.trans_le (s.page_length_le r 0)
  obtain ⟨t', ht'⟩ := ht.exists_step hkey hrecord
    (by
      -- One slot holds one key.
      rintro ⟨k, hk, p', hrec⟩
      have hslot' := (h.slot_of_single hsingle (hdone k hk) hrec).2
      rw [hslot] at hslot'
      exact hkey (Option.some.inj hslot' ▸ hk))
    (by
      intro x hx
      rcases List.mem_cons.mp hx with rfl | hx
      · exact hlt hmem hrecord
      · obtain ⟨k, hk, p', hrec⟩ := (ht.pending r x).mp hx
        exact hlt (hdone k hk) hrec)
  exact ⟨t', ht', ht.step hkey hrecord ht'⟩

end Single

/-- Once its suspensions are removed from such rings, exactly the suspended members are gone. -/
theorem Tracked.removedExactly {s u s' : Store T} {info : CollectionInfo T}
    {suspended : List T.Member} {rings : List Nat} (hrem : Tracked u s' rings) (h : Settled s info)
    (hqu : Queued s u suspended) (hsingle : ∀ r, r ∈ rings → ∀ q, 0 < q → s.page r q = [])
    (hslots : ∀ r i, i ∈ (u.pendingAt r).toList → ∃ k ∈ suspended,
      s.members.get k = some (.included r 0 i) ∧ (s.page r 0)[i]? = some k)
    (hcover : ∀ r, r ∈ rings ↔
      ∃ k ∈ suspended, ∃ p i, s.members.get k = some (.included r p i)) :
    RemovedExactly s s' suspended := by
  have hpage : u.page = s.page := by
    rw [hqu.frame]
    rfl
  have hstatus : u.ringStatusAt = s.ringStatusAt := by
    rw [hqu.frame]
    rfl
  have hactive : u.activeMembers = s.activeMembers := by rw [hqu.frame]
  have hfirst : ∀ r, r ∈ rings → s'.page r 0 = (s.page r 0).filter (· ∉ suspended) := by
    intro r hr
    rw [hrem.page, if_pos ⟨hr, rfl⟩, hpage]
    refine compact_zero_eq_filter (hqu.sorted r) fun i a hget => ?_
    constructor
    · intro hi
      obtain ⟨k, hk, -, hslot⟩ := hslots r i hi
      rw [hget] at hslot
      cases hslot
      exact hk
    · intro ha
      exact (hqu.pending r i).mpr ⟨a, ha, 0, (h.record_iff a r 0 i).mpr hget⟩
  have hrest : ∀ r p, ¬ (r ∈ rings ∧ p = 0) → s'.page r p = s.page r p := by
    intro r p hne
    rw [hrem.page, if_neg hne, hpage]
  have hsingle' : ∀ r, r ∈ rings → ∀ q, 0 < q → s'.page r q = [] := by
    intro r hr q hq
    rw [hrest r q (by omega)]
    exact hsingle r hr q hq
  -- No member of another ring is suspended.
  have hother : ∀ r, r ∉ rings → ∀ k ∈ s.keysInOrder r, k ∉ suspended := by
    intro r hr k hk hin
    obtain ⟨p, hp⟩ := Store.mem_keysInOrder.mp hk
    obtain ⟨i, hi⟩ := List.getElem?_of_mem hp
    exact hr ((hcover r).mpr ⟨k, hin, p, i, (h.record_iff k r p i).mpr hi⟩)
  have hkeys : ∀ r, s'.keysInOrder r = (s.keysInOrder r).filter (· ∉ suspended) := by
    intro r
    by_cases hr : r ∈ rings
    · rw [Store.keysInOrder_of_single (hsingle' r hr), Store.keysInOrder_of_single (hsingle r hr),
        hfirst r hr]
    · rw [List.filter_eq_self.mpr fun k hk => by simpa using hother r hr k hk]
      exact Store.keysInOrder_congr (funext fun p => hrest r p fun hc => hr hc.1)
  refine ⟨hkeys, fun k r p i hslot => ?_, fun r => ?_, fun r hr => ?_, ?_⟩
  · by_cases hr : r ∈ rings
    · have hp : p = 0 := by
        by_contra hp
        rw [hsingle' r hr p (by omega)] at hslot
        cases hslot
      subst hp
      have hmem := List.mem_of_getElem? hslot
      have hold : k ∈ s.page r 0 ∧ k ∉ suspended := by
        rw [hfirst r hr] at hmem
        simpa using hmem
      obtain ⟨a, ha⟩ := List.getElem?_of_mem hold.1
      have hrecord := (h.record_iff k r 0 a).mpr ha
      obtain ⟨j, hj, hslot'⟩ := hrem.record k r 0 a hr
        (by rw [hqu.members, if_neg hold.2]; exact hrecord) hmem
      -- The first page held the key once.
      have hnodup : (s'.page r 0).Nodup := by
        rw [hfirst r hr]
        refine List.Nodup.filter _ (List.nodup_iff_injective_getElem.mpr fun x y hxy => ?_)
        have hx := (h.record_iff _ r 0 x).mpr (List.getElem?_eq_getElem x.2)
        have hy := (h.record_iff _ r 0 y).mpr (List.getElem?_eq_getElem y.2)
        have hsame : (s.page r 0)[x.1] = (s.page r 0)[y.1] := hxy
        rw [hsame, hy] at hx
        exact Fin.ext (by simpa using hx.symm)
      have hji := (List.getElem?_inj (List.getElem?_eq_some_iff.mp hslot').1 hnodup).mp
        (hslot'.trans hslot.symm)
      rw [hj, hji]
    · rw [hrest r p fun hc => hr hc.1] at hslot
      have hrecord := (h.record_iff k r p i).mpr hslot
      have hk : k ∉ suspended := hother r hr k (Store.mem_keysInOrder.mpr ⟨p, List.mem_of_getElem? hslot⟩)
      exact hrem.others k r p i hr (by rw [hqu.members, if_neg hk]; exact hrecord)
  · by_cases hr : r ∈ rings
    · rw [(hrem.counted r hr).1, Store.keysInOrder_of_single (hsingle' r hr)]
    · rw [hrem.status r hr, hstatus, h.total_eq,
        Store.keysInOrder_congr (funext fun p => hrest r p fun hc => hr hc.1)]
  · obtain ⟨k, hk, hin⟩ := hr
    have hr : r ∈ rings := by
      by_contra hne
      exact hother r hne k hin hk
    exact (hrem.counted r hr).2
  · have hnone : ∀ r, s'.pendingSuspensions.get r = none := by
      intro r
      rw [hrem.pending]
      split
      · rfl
      · rename_i hr
        exact hqu.absent r fun k hk p i hrec => hr ((hcover r).mpr ⟨k, hk, p, i, hrec⟩)
    have hcount := hrem.count
    rw [StorageMap.sumOf_of_get_none hnone, hqu.count, hactive] at hcount
    exact hcount

/-- A session over rings with keys on their first page only succeeds and removes exactly the
suspended members. -/
theorem exists_removedExactly {s : Store T} {info : CollectionInfo T} (h : Settled s info)
    (batches : List (List T.Member)) (removals : List (Env T × Nat))
    (hnodup : batches.flatten.Nodup)
    (hincluded : ∀ k ∈ batches.flatten, ∃ r p i, s.members.get k = some (.included r p i))
    (hrings : (removals.map Prod.snd).Nodup)
    (hcover : ∀ r, r ∈ removals.map Prod.snd ↔
      ∃ k ∈ batches.flatten, ∃ p i, s.members.get k = some (.included r p i))
    (hsingle : ∀ k ∈ batches.flatten, ∀ r p i, s.members.get k = some (.included r p i) →
      ∀ q, 0 < q → s.page r q = []) :
    ∃ s', suspensionSession s batches removals = .ok s' ∧ RemovedExactly s s' batches.flatten := by
  obtain ⟨t, ht, hqt⟩ := h.exists_queued hsingle hnodup hincluded
  obtain ⟨u, hu, hqu⟩ := hqt.endSession h
  have hcoll : u.collections = some info := by
    rw [hqu.frame]
    exact h.collections
  have hpage : u.page = s.page := by
    rw [hqu.frame]
    rfl
  have hstatus : u.ringStatusAt = s.ringStatusAt := by
    rw [hqu.frame]
    rfl
  have hsingleRing : ∀ r, r ∈ removals.map Prod.snd → ∀ q, 0 < q → s.page r q = [] := by
    intro r hr
    obtain ⟨k, hk, p, i, hrec⟩ := (hcover r).mp hr
    exact hsingle k hk r p i hrec
  have hpendingSlot : ∀ r i, i ∈ (u.pendingAt r).toList → ∃ k ∈ batches.flatten,
      s.members.get k = some (.included r 0 i) ∧ (s.page r 0)[i]? = some k := by
    intro r i hi
    obtain ⟨k, hk, p, hrec⟩ := (hqu.pending r i).mp hi
    obtain ⟨rfl, hslot⟩ := h.slot_of_single hsingle hk hrec
    exact ⟨k, hk, hrec, hslot⟩
  obtain ⟨s', hs', hrem⟩ := exists_foldlM_ok (l := removals) (s := u)
    (f := fun s e => s.removeSuspendedKeysAuthorized e.1 e.2)
    (fun done t => Tracked u t (done.map Prod.snd))
    (Tracked.refl (by rw [hqu.frame]; exact h.active_eq))
    (by
      intro done e t hpre ht
      have hsub := hpre.sublist.map Prod.snd
      rw [List.map_append, List.map_singleton] at hsub ⊢
      have hnd := (List.nodup_append.mp (hrings.sublist hsub)).2.2
      have hnew : e.2 ∉ done.map Prod.snd := fun hin => hnd e.2 hin e.2 (by simp) rfl
      have hr : e.2 ∈ removals.map Prod.snd := hsub.subset (by simp)
      have hshould : t.shouldRemoveSuspendedKeys e.2 true = true := by
        obtain ⟨k, hk, p, i, hrec⟩ := (hcover e.2).mp hr
        have hin := (hqu.pending e.2 i).mpr ⟨k, hk, p, hrec⟩
        have hsame : t.pendingAt e.2 = u.pendingAt e.2 := by
          unfold Store.pendingAt
          rw [ht.pending, if_neg hnew]
        have hactive : t.suspendedCollections = none := by
          rw [ht.active, hqu.frame]
          exact h.active
        have happend : t.ringsState.appendOnly = true := by
          rw [ht.appendOnly, hqu.frame]
          exact h.appendOnly
        have hpos := List.length_pos_of_mem hin
        simp only [Store.shouldRemoveSuspendedKeys, hactive, happend, hsame]
        simpa [BoundedVec.length] using List.ne_nil_of_mem hin
      refine ⟨t.removeSuspendedKeys e.1 e.2, ?_, ht.step hcoll hnew ?_ (hqu.sorted e.2)
        (fun j hj => ?_) e.1⟩
      · unfold Store.removeSuspendedKeysAuthorized
        rw [ensure_pos hshould]
        rfl
      · rw [hstatus, hpage, h.total_eq, Store.keysInOrder_of_single (hsingleRing e.2 hr)]
      · obtain ⟨k, -, -, hslot⟩ := hpendingSlot e.2 j hj
        rw [hpage]
        exact (List.getElem?_eq_some_iff.mp hslot).1)
  refine ⟨s', ?_, ?_⟩
  · simp only [suspensionSession, h.start, ok_bind]
    rw [foldlM_removeMembers batches (by rfl), ht]
    simp only [ok_bind, hu]
    exact hs'
  exact hrem.removedExactly h hqu hsingleRing hpendingSlot hcover

/-- A removal session that suspends any distinct included members, and then removes from every
ring it suspended a member of, succeeds and removes exactly those members, with records and
counters to match, if and only if each of these rings keeps its keys on its first page. -/
theorem suspension_removes_exactly {s : Store T} {info : CollectionInfo T} (h : Settled s info)
    (batches : List (List T.Member)) (removals : List (Env T × Nat))
    (hnodup : batches.flatten.Nodup)
    (hincluded : ∀ k ∈ batches.flatten, ∃ r p i, s.members.get k = some (.included r p i))
    (hrings : (removals.map Prod.snd).Nodup)
    (hcover : ∀ r, r ∈ removals.map Prod.snd ↔
      ∃ k ∈ batches.flatten, ∃ p i, s.members.get k = some (.included r p i)) :
    (∃ s', suspensionSession s batches removals = .ok s' ∧ RemovedExactly s s' batches.flatten) ↔
      ∀ k ∈ batches.flatten, ∀ r p i, s.members.get k = some (.included r p i) →
        ∀ q, 0 < q → s.page r q = [] := by
  constructor
  · rintro ⟨s', hs', hremoved⟩ k hk r p i hrec q hq
    exact single_page_of_removedExactly h batches removals hnodup hincluded hrings hs' hremoved
      ((hcover r).mpr ⟨k, hk, p, i, hrec⟩) hq
  · exact exists_removedExactly h batches removals hnodup hincluded hrings hcover

/-- The sample collection after a first cohort, at rest. -/
theorem exists_settled {n : Nat} (hpos : 0 < n) (hn : n ≤ 767) :
    ∃ s : State sampleConfig, State.Reachable (State.OnCalls fun _ _ _ => True) s ∧
      Settled (s.store sampleId) ⟨.external (0 : Nat), .appendOnly, .r2e10, none⟩ ∧
      Store.FirstCohort (s.store sampleId) ⟨.external (0 : Nat), .appendOnly, .r2e10, none⟩
        (sampleKeys 0 n) := by
  obtain ⟨s, hr, hcohort⟩ := exists_counted_cohort hpos hn
  refine ⟨s, hr.mono fun t a _ => by cases a <;> trivial,
    ⟨hcohort.waiting.collections, hcohort.waiting.active, hcohort.waiting.appendOnly,
      fun r => by rw [hcohort.pending]; rfl, hcohort.record_iff (sampleKeys_nodup 0 n), fun r => ?_,
      (Counted.of_reachable hr sampleId).active_eq⟩, hcohort⟩
  rw [hcohort.status r]
  split
  · rename_i h
    rw [h, hcohort.keysInOrder]
  · rename_i hne
    rw [Store.keysInOrder_of_single fun q _ => hcohort.page_of_ne r hne q, hcohort.page_of_ne r hne]
    rfl

private theorem eq_of_mem_batch {α : Type} {k a : α} (h : k ∈ [[a]].flatten) : k = a := by
  simpa using h

/-- One of three members is suspended: the session removes it. -/
theorem suspension_removes_exactly_three : ∃ s s' : Store sampleConfig,
    suspensionSession s [[(1 : Nat)]] [((State.genesis sampleConfig).env, 0)] = .ok s' ∧
      RemovedExactly s s' [(1 : Nat)] := by
  obtain ⟨s, -, hsettled, hcohort⟩ := exists_settled (n := 3) (by decide) (by decide)
  obtain ⟨p, i, hrecord, -⟩ := hcohort.stored (1 : Nat) (mem_sampleKeys (by decide) (by decide))
  have hring : ∀ k r p' i', k ∈ [[(1 : Nat)]].flatten →
      (s.store sampleId).members.get k = some (.included r p' i') → r = 0 := by
    intro k r p' i' hk hrec
    cases eq_of_mem_batch hk
    rw [hrecord] at hrec
    cases hrec
    rfl
  have hsingle : ∀ q, 0 < q → (s.store sampleId).page 0 q = [] := by
    intro q hq
    refine List.eq_nil_of_length_eq_zero ?_
    rw [hcohort.packed q, length_sampleKeys]
    have hle := Nat.le_mul_of_pos_left sampleConfig.flexibleRingCapacity hq
    have hcap : 3 ≤ sampleConfig.flexibleRingCapacity := by decide
    omega
  obtain ⟨s', hs', hremoved⟩ := (suspension_removes_exactly hsettled
    [[(1 : Nat)]] [((State.genesis sampleConfig).env, 0)]
    (List.nodup_singleton _)
    (fun k hk => ⟨0, p, i, eq_of_mem_batch hk ▸ hrecord⟩) (List.nodup_singleton _)
    (fun r => ⟨fun hr => ⟨(1 : Nat), List.mem_singleton_self _, p, i, List.mem_singleton.mp hr ▸ hrecord⟩,
      fun ⟨k, hk, p', i', hrec⟩ => List.mem_singleton.mpr (hring k r p' i' hk hrec)⟩)).mpr
    fun k hk r p' i' hrec q hq => hring k r p' i' hk hrec ▸ hsingle q hq
  exact ⟨s.store sampleId, s', hs', hremoved⟩

/-- One of 257 members is suspended: its ring keeps two keys on its second page, and the session
does not remove exactly the suspended member. -/
theorem suspension_removes_exactly_fails : ∃ s : State sampleConfig,
    State.Reachable (State.OnCalls fun _ _ _ => True) s ∧
      Settled (s.store sampleId) ⟨.external (0 : Nat), .appendOnly, .r2e10, none⟩ ∧
      ∃ s', suspensionSession (s.store sampleId) [[(0 : Nat)]] [(s.env, 0)] = .ok s' ∧
        ¬ RemovedExactly (s.store sampleId) s' [(0 : Nat)] := by
  obtain ⟨s, hr, hsettled, hcohort⟩ := exists_settled (n := 257) (by decide) (by decide)
  have hmem : (0 : Nat) ∈ sampleKeys 0 257 := mem_sampleKeys (by decide) (by decide)
  obtain ⟨p, i, hrecord, -⟩ := hcohort.stored (0 : Nat) hmem
  obtain ⟨s₁, s₂, s₃, s₄, h₁, h₂, h₃, h₄, hshrunk⟩ := hcohort.exists_shrunk s.env hmem
    (by rw [length_sampleKeys]; decide)
  have hsession : suspensionSession (s.store sampleId) [[(0 : Nat)]] [(s.env, 0)] = .ok s₄ := by
    simp only [Store.exec] at h₁ h₂ h₃ h₄
    simp only [suspensionSession, h₁, ok_bind, List.foldlM_cons, List.foldlM_nil]
    rw [h₂, ok_bind, pure_bind, h₃, ok_bind, h₄]
    rfl
  refine ⟨s, hr, hsettled, s₄, hsession, fun hremoved => ?_⟩
  have hnil := single_page_of_removedExactly hsettled [[(0 : Nat)]] [(s.env, 0)]
    (List.nodup_singleton _) (fun k hk => ⟨0, p, i, eq_of_mem_batch hk ▸ hrecord⟩)
    (List.nodup_singleton _) hsession hremoved (List.mem_singleton_self 0) Nat.one_pos
  have hsecond := hcohort.packed 1
  rw [hnil, length_sampleKeys] at hsecond
  exact absurd hsecond (by decide)

end Individuality.Members
