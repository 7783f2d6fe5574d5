import Individuality.Members.Progress
import Individuality.Members.Steps

/-! A ring's status counts its live pages, those not queued for deletion.

A ring that is being removed gives its status up at once and its pages later. The
live pages are packed, and every operation moves the status by what it moves the
pages (`Paged`). It fails where an operation counts keys it does not see: a merge
or a removal that reads the first page of a ring with more, and keys that join or
leave a page already queued. -/
namespace Individuality.Members
open Support
variable {T : Config}

/-- The keys of a page, unless it is queued for deletion. -/
def Store.livePage (s : Store T) (r p : Nat) : List T.Member :=
  if (s.ringDeletionQueue.get (r, p)).isSome = true then [] else s.page r p

structure Paged (s : Store T) : Prop where
  packed : ∀ r, Paging.Packed T.flexibleRingCapacity (s.ringStatusAt r).total (s.livePage r)
  included_le : ∀ r, (s.ringStatusAt r).included ≤ (s.ringStatusAt r).total
  total_le : ∀ info, s.collections = some info ∨ s.suspendedCollections = some info →
    ∀ r, (s.ringStatusAt r).total ≤ info.ringSize.ringCapacity
  exclusive : s.collections = none ∨ s.suspendedCollections = none
  absent : s.collections = none → s.suspendedCollections = none →
    ∀ r, s.ringKeysStatus.get r = none

namespace Paged
variable {s s' : Store T}

theorem empty : Paged (Store.empty T) where
  packed _ := Paging.packed_zero fun _ => rfl
  included_le _ := le_rfl
  total_le _ _ _ := Nat.zero_le _
  exclusive := .inl rfl
  absent _ _ _ := rfl

theorem livePage_congr (hpages : s'.ringKeys = s.ringKeys)
    (hdeletions : s'.ringDeletionQueue = s.ringDeletionQueue) : s'.livePage = s.livePage := by
  unfold Store.livePage Store.page Store.ringKeysAt
  rw [hpages, hdeletions]

theorem livePage_eq_of {r p : Nat}
    (hdeletions : s'.ringDeletionQueue.get (r, p) = s.ringDeletionQueue.get (r, p))
    (hpage : s'.page r p = s.page r p) : s'.livePage r p = s.livePage r p := by
  unfold Store.livePage
  rw [hdeletions, hpage]

/-- What leaves statuses and live pages alone keeps them in agreement. -/
theorem of_same (h : Paged s) (hstatus : s'.ringKeysStatus = s.ringKeysStatus) (hlive : s'.livePage = s.livePage)
    (hcollections : s'.collections = s.collections)
    (hsuspended : s'.suspendedCollections = s.suspendedCollections) : Paged s' := by
  have hat : s'.ringStatusAt = s.ringStatusAt := by
    unfold Store.ringStatusAt
    rw [hstatus]
  refine ⟨fun r => ?_, fun r => ?_, fun info hinfo => ?_, ?_, ?_⟩
  · rw [hat, hlive]
    exact h.packed r
  · rw [hat]
    exact h.included_le r
  · rw [hat]
    exact h.total_le info (by rwa [hcollections, hsuspended] at hinfo)
  · rw [hcollections, hsuspended]
    exact h.exclusive
  · rw [hcollections, hsuspended, hstatus]
    exact h.absent

/-- Changing the status of one ring along with its live pages. -/
theorem of_ring (h : Paged s) (r : Nat) (status : RingStatus) {info : CollectionInfo T}
    (hinfo : s.collections = some info) (hcollections : s'.collections = s.collections)
    (hsuspended : s'.suspendedCollections = s.suspendedCollections)
    (hstatus : s'.ringKeysStatus = s.ringKeysStatus.insert r status)
    (hlive : ∀ r', r' ≠ r → s'.livePage r' = s.livePage r')
    (hpacked : Paging.Packed T.flexibleRingCapacity status.total (s'.livePage r))
    (hincluded : status.included ≤ status.total)
    (htotal : status.total ≤ info.ringSize.ringCapacity) : Paged s' := by
  have hat : ∀ r', s'.ringStatusAt r' = if r' = r then status else s.ringStatusAt r' := by
    intro r'
    unfold Store.ringStatusAt
    rw [hstatus, StorageMap.get_insert]
    split <;> rfl
  have hnone : s.suspendedCollections = none := by
    rcases h.exclusive with hc | hs
    · rw [hc] at hinfo
      cases hinfo
    · exact hs
  refine ⟨fun r' => ?_, fun r' => ?_, fun info' hinfo' r' => ?_, ?_, fun hc _ => ?_⟩
  · rw [hat]
    by_cases hr : r' = r
    · rw [if_pos hr, hr]
      exact hpacked
    · rw [if_neg hr, hlive r' hr]
      exact h.packed r'
  · rw [hat]
    split
    · exact hincluded
    · exact h.included_le r'
  · have hsame : info' = info := by
      rw [hcollections, hsuspended, hinfo, hnone] at hinfo'
      rcases hinfo' with hi | hi
      · exact (Option.some.inj hi).symm
      · cases hi
    rw [hat, hsame]
    split
    · exact htotal
    · exact h.total_le info (.inl hinfo) r'
  · rw [hcollections, hsuspended]
    exact h.exclusive
  · rw [hcollections, hinfo] at hc
    cases hc

/-- Taking a ring's status along with its live pages. -/
theorem of_removed (h : Paged s) {r : Nat} (hcollections : s'.collections = s.collections)
    (hsuspended : s'.suspendedCollections = s.suspendedCollections)
    (hstatus : s'.ringKeysStatus = s.ringKeysStatus.remove r)
    (hlive : ∀ r', r' ≠ r → s'.livePage r' = s.livePage r')
    (hempty : ∀ p, s'.livePage r p = []) : Paged s' := by
  have hat : ∀ r', s'.ringStatusAt r' = if r' = r then default else s.ringStatusAt r' := by
    intro r'
    unfold Store.ringStatusAt
    rw [hstatus, StorageMap.get_remove]
    split <;> rfl
  refine ⟨fun r' => ?_, fun r' => ?_, fun info hinfo r' => ?_, ?_, fun hc hs r' => ?_⟩
  · rw [hat]
    by_cases hr : r' = r
    · rw [if_pos hr, hr]
      exact Paging.packed_zero hempty
    · rw [if_neg hr, hlive r' hr]
      exact h.packed r'
  · rw [hat]
    split
    · exact le_rfl
    · exact h.included_le r'
  · rw [hat]
    split
    · exact Nat.zero_le _
    · exact h.total_le info (by rwa [hcollections, hsuspended] at hinfo) r'
  · rw [hcollections, hsuspended]
    exact h.exclusive
  · rw [hstatus, StorageMap.get_remove, h.absent (hcollections ▸ hc) (hsuspended ▸ hs)]
    split <;> rfl

/-- A ring none of whose pages is queued lives on all its pages. -/
theorem livePage_of_not_queued {r : Nat} (hq : s.ringQueued r = false) :
    s.livePage r = s.page r := by
  funext p
  unfold Store.livePage
  rw [if_neg]
  intro hget
  rw [Store.ringQueued_iff.mpr ⟨p, hget⟩] at hq
  cases hq

theorem covers (h : Paged s) (r : Nat) :
    Paging.Covers T.flexibleRingCapacity (s.ringStatusAt r).total (s.page r) := by
  intro p
  have := h.packed r p
  unfold Store.livePage at this
  split at this
  · rw [← this]
    exact Nat.zero_le _
  · exact this.ge

theorem total_le_max (h : Paged s) {info : CollectionInfo T} (hinfo : s.collections = some info)
    (r : Nat) : (s.ringStatusAt r).total ≤ U32.max :=
  (h.total_le info (.inl hinfo) r).trans (info.ringSize.ringCapacity_le.trans (by decide))

/-! ### One operation at a time -/

/-- Members that join the current ring, packed behind its keys. -/
theorem of_joined (h : Paged s) {info : CollectionInfo T} {n : Nat}
    {c : Paging.Cursor T.Member} (hinfo : s.collections = some info)
    (hqueued : s.ringQueued s.currentRingIndex = false)
    (hfit : (s.ringStatusAt s.currentRingIndex).total + n ≤ info.ringSize.ringCapacity)
    (hcollections : s'.collections = s.collections)
    (hsuspended : s'.suspendedCollections = s.suspendedCollections)
    (hdeletions : s'.ringDeletionQueue = s.ringDeletionQueue)
    (hstatus : s'.ringKeysStatus = s.ringKeysStatus.insert s.currentRingIndex
      { s.ringStatusAt s.currentRingIndex with
        total := U32.saturatingAdd (s.ringStatusAt s.currentRingIndex).total n })
    (hc : c.Packs T.flexibleRingCapacity ((s.ringStatusAt s.currentRingIndex).total + n))
    (hpage : ∀ r p, s'.page r p = if r = s.currentRingIndex then c.pages p else s.page r p) :
    Paged s' := by
  have hcap : info.ringSize.ringCapacity ≤ U32.max :=
    info.ringSize.ringCapacity_le.trans (by decide)
  rw [U32.saturatingAdd_eq (hfit.trans hcap)] at hstatus
  refine h.of_ring _ _ hinfo hcollections hsuspended hstatus (fun r hr => ?_) ?_ ?_ hfit
  · funext p
    unfold Store.livePage
    rw [hdeletions, hpage, if_neg hr]
  · have hqueued' : s'.ringQueued s.currentRingIndex = false := by
      unfold Store.ringQueued
      rw [hdeletions]
      exact hqueued
    have hpages : s'.page s.currentRingIndex = c.pages := by
      funext p
      rw [hpage, if_pos rfl]
    rw [livePage_of_not_queued hqueued', hpages]
    exact hc.packed
  · exact (h.included_le _).trans (Nat.le_add_right _ _)

/-- The current ring's keys, as the pages onboarding fills. -/
theorem packs (h : Paged s) (hqueued : s.ringQueued s.currentRingIndex = false) :
    Paging.Cursor.Packs T.flexibleRingCapacity (s.ringStatusAt s.currentRingIndex).total
      ⟨s.page s.currentRingIndex,
        (s.ringStatusAt s.currentRingIndex).total / T.flexibleRingCapacity⟩ := by
  have hpacked := h.packed s.currentRingIndex
  rw [livePage_of_not_queued hqueued] at hpacked
  exact Paging.Cursor.packs_of_packed hpacked T.flexibleRingCapacity_pos

/-- The members a round takes fit the ring. -/
theorem round_le (h : Paged s) (R : Store.Round s s')
    (hqueued : s.ringQueued s.currentRingIndex = false)
    (hroom : ¬ s.currentRingFull R.info.ringSize.ringCapacity) :
    (s.ringStatusAt s.currentRingIndex).total + R.toInclude ≤ R.info.ringSize.ringCapacity := by
  obtain ⟨-, -, -, hn, -⟩ := Store.shouldOnboardMembers_spec R.should
  rw [R.a_of_not_full hroom] at hn
  have htotal : (s.ringStatusAt s.currentRingIndex).total =
      (s.ringStatusAt s.currentRingIndex).total / T.flexibleRingCapacity *
        T.flexibleRingCapacity + (s.ringKeysAt s.currentRingIndex
          ((s.ringStatusAt s.currentRingIndex).total / T.flexibleRingCapacity)).length :=
    (h.packs hqueued).total_eq
  unfold Store.currentRingFull at hroom
  simp only [Nat.not_le] at hn hroom
  omega

theorem round (h : Paged s) (R : Store.Round s s')
    (hqueued : s.ringQueued s.currentRingIndex = false)
    (hroom : ¬ s.currentRingFull R.info.ringSize.ringCapacity) : Paged s' := by
  have hpacks := h.packs hqueued
  obtain ⟨c, hc, hpage⟩ := R.pages_of_not_full hroom
    (P := fun done c => c.Packs T.flexibleRingCapacity
      ((s.ringStatusAt s.currentRingIndex).total + done.length)) hpacks
    (fun done key c hc _ => by
      rw [List.length_append, List.length_singleton, ← Nat.add_assoc]
      exact hc.push T.flexibleRingCapacity_pos)
  rw [R.length_take] at hc
  have hfit := h.round_le R hqueued hroom
  have hstatus := congrArg Store.ringKeysStatus R.store_eq
  rw [R.a_of_not_full hroom] at hstatus
  obtain ⟨-, -, hdeletions, -⟩ := R.frame
  have hcollections := congrArg Store.collections R.store_eq
  have hsuspended := congrArg Store.suspendedCollections R.store_eq
  exact h.of_joined R.collections_eq hqueued hfit hcollections hsuspended hdeletions hstatus hc hpage

theorem total_lt_of_room (h : Paged s) {capacity : Nat}
    (hqueued : s.ringQueued s.currentRingIndex = false) (hroom : ¬ s.currentRingFull capacity) :
    (s.ringStatusAt s.currentRingIndex).total < capacity := by
  have htotal : (s.ringStatusAt s.currentRingIndex).total =
      (s.ringStatusAt s.currentRingIndex).total / T.flexibleRingCapacity *
        T.flexibleRingCapacity + (s.ringKeysAt s.currentRingIndex
          ((s.ringStatusAt s.currentRingIndex).total / T.flexibleRingCapacity)).length :=
    (h.packs hqueued).total_eq
  unfold Store.currentRingFull at hroom
  omega

theorem doSelfInclude (h : Paged s) {member : T.Member} {info : CollectionInfo T}
    (hs : s.doSelfInclude member = .ok s') (hinfo : s.collections = some info)
    (hqueued : s.ringQueued s.currentRingIndex = false)
    (hroom : ∀ info, s.collections = some info → ¬ s.currentRingFull info.ringSize.ringCapacity) :
    Paged s' := by
  obtain ⟨hcollections, -, -, hpage, -⟩ := Store.doSelfInclude_of_not_full hs hroom
  obtain ⟨-, -, hstatus, -, hsuspended, -, hdeletions⟩ := Store.doSelfInclude_writes hs hroom
  exact h.of_joined hinfo hqueued (h.total_lt_of_room hqueued (hroom info hinfo)) hcollections
    hsuspended hdeletions hstatus ((h.packs hqueued).push T.flexibleRingCapacity_pos) hpage

/-- What a removal retains of the first page, the ring counted. -/
theorem length_retained_le (h : Paged s) {r : Nat}
    (hqueued : (s.ringDeletionQueue.get (r, 0)).isSome = true →
      compact 0 (s.pendingAt r).toList (s.page r 0) = []) :
    (compact 0 (s.pendingAt r).toList (s.page r 0)).length ≤ (s.ringStatusAt r).total := by
  have hpacked := h.packed r 0
  unfold Store.livePage at hpacked
  split at hpacked
  · rename_i hq
    rw [hqueued hq]
    exact Nat.zero_le _
  · have hle := (compact_sublist 0 (s.pendingAt r).toList (s.page r 0)).length_le
    omega

/-- Removing suspended keys recounts the first page, which has to be the whole ring. -/
theorem removeSuspendedKeys (h : Paged s) {env : Env T} {r : Nat}
    (hlive : (s.ringDeletionQueue.get (r, 0)).isSome = false → ∀ p, 0 < p → s.livePage r p = [])
    (hqueued : (s.ringDeletionQueue.get (r, 0)).isSome = true →
      compact 0 (s.pendingAt r).toList (s.page r 0) = []) :
    Paged (s.removeSuspendedKeys env r) := by
  rcases Store.removeSuspendedKeys_spec env s r with ⟨-, hs⟩ | ⟨info, capacity, members, page, hinfo,
    -, -, hlist, hs⟩
  · rw [hs]
    exact h
  have hpage : ∀ r' p, (s.removeSuspendedKeys env r).page r' p =
      if r' = r ∧ p = 0 then page.toList else s.page r' p := Store.page_removeSuspendedKeys hs
  have hdeletions : (s.removeSuspendedKeys env r).ringDeletionQueue = s.ringDeletionQueue := by
    rw [hs]
  have hlivePage : ∀ r' p, (s.removeSuspendedKeys env r).livePage r' p =
      if r' = r ∧ p = 0 then page.toList else s.livePage r' p := by
    intro r' p
    unfold Store.livePage
    rw [hdeletions, hpage]
    by_cases hrp : r' = r ∧ p = 0
    · rw [if_pos hrp, if_pos hrp, hrp.1, hrp.2]
      split
      · rename_i hq
        rw [hlist, hqueued hq]
      · rfl
    · rw [if_neg hrp, if_neg hrp]
  have htotal : page.length ≤ (s.ringStatusAt r).total := by
    rw [BoundedVec.length, hlist]
    exact h.length_retained_le hqueued
  have hrest : ∀ p, 0 < p → s.livePage r p = [] := by
    intro p hp
    by_cases hq : (s.ringDeletionQueue.get (r, 0)).isSome = true
    · -- A ring whose first page is queued counts no key.
      have hpacked := h.packed r
      have hzero := hpacked 0
      unfold Store.livePage at hzero
      rw [if_pos hq, List.length_nil] at hzero
      have := T.flexibleRingCapacity_pos
      exact hpacked.eq_nil (by omega)
    · exact hlive (by simpa using hq) p hp
  refine h.of_ring r _ hinfo (by rw [hs]) (by rw [hs]) (by rw [hs]) (fun r' hr => ?_) ?_
    (Nat.zero_le _) (htotal.trans (h.total_le info (.inl hinfo) r))
  · funext p
    rw [hlivePage, if_neg (by tauto)]
  · intro p
    rw [hlivePage]
    show _ = min _ (page.length - _)
    rcases Nat.eq_zero_or_pos p with rfl | hp
    · rw [if_pos ⟨rfl, rfl⟩]
      have := page.length_le
      show page.toList.length = min _ (page.toList.length - _)
      omega
    · rw [if_neg (by omega), hrest p hp, List.length_nil]
      have hle := page.length_le
      have : T.flexibleRingCapacity ≤ p * T.flexibleRingCapacity := Nat.le_mul_of_pos_left _ hp
      show 0 = min _ (page.toList.length - _)
      omega

theorem buildRing (h : Paged s) {env : Env T} {r n : Nat} (hs : s.buildRing env r n = .ok s') :
    Paged s' := by
  obtain ⟨info, capacity, start, root, status, hinfo, -, -, -, -, -, htotal, hincluded, hs'⟩ :=
    Store.buildRing_spec hs
  obtain ⟨htotal', hincluded', -⟩ := Store.keysToPush_spec n n (s.ringStatusAt r) (h.covers r)
    (h.included_le r) (h.total_le_max hinfo r) le_rfl (Nat.lt_succ_self _)
  have hle := h.included_le r
  have hlive : s'.livePage = s.livePage := by
    rw [hs']
    rfl
  have hsame : status.total = (s.ringStatusAt r).total := htotal.trans htotal'
  refine h.of_ring r status hinfo (by rw [hs']) (by rw [hs']) (by rw [hs'])
    (fun r' _ => by rw [hlive]) ?_ ?_ ?_
  · rw [hlive, hsame]
    exact h.packed r
  · rw [hincluded, hincluded', hsame]
    omega
  · rw [hsame]
    exact h.total_le info (.inl hinfo) r

/-- A merge sees the first page of the target only, which has to be all that lives of it. -/
theorem mergeRings (h : Paged s) {env : Env T} {base target : Nat}
    (hs : s.mergeRings env base target = .ok s')
    (hmoves : s.page target 0 = [] ∨ ((s.ringDeletionQueue.get (base, 0)).isSome = false ∧
      ∀ p, 0 < p → s.livePage target p = [])) : Paged s' := by
  obtain ⟨info, m, hinfo, -, hne, -, -, hbase, htarget, -, -, hm, hs'⟩ := Store.mergeRings_spec hs
  obtain ⟨hlist, -, -, -⟩ := Store.moveKeys_spec hm
  have hsize := T.flexibleRingCapacity_pos
  have hpackedBase := h.packed base
  have hcap := info.ringSize.ringCapacity_le
  have hrest : ∀ p, 0 < p → s.livePage target p = [] := by
    rcases hmoves with hnil | ⟨-, hrest⟩
    · intro p _
      have h0 := h.packed target 0
      unfold Store.livePage at h0
      rw [hnil, ite_self, List.length_nil] at h0
      exact (h.packed target).eq_nil (by omega)
    · exact hrest
  -- A base that takes keys has room on its first page, which is all of it.
  have hfirst : s.page target 0 ≠ [] →
      (s.ringDeletionQueue.get (base, 0)).isSome = false ∧
      (s.ringStatusAt base).total = (s.page base 0).length ∧
      (s.page base 0).length + (s.page target 0).length ≤ T.flexibleRingCapacity := by
    intro hmoved
    obtain ⟨hq, -⟩ := hmoves.resolve_left hmoved
    have hlen := m.2.length_le
    rw [hlist, List.length_append] at hlen
    have h0 := hpackedBase 0
    unfold Store.livePage at h0
    rw [if_neg (by simp [hq])] at h0
    have hpos := List.length_pos_of_ne_nil hmoved
    refine ⟨hq, ?_, hlen⟩
    change (s.page base 0).length + (s.page target 0).length ≤ _ at hlen
    omega
  have hsum : (s.ringStatusAt base).total + (s.page target 0).length ≤ info.ringSize.ringCapacity := by
    by_cases hnil : s.page target 0 = []
    · rw [hnil, List.length_nil]
      exact h.total_le info (.inl hinfo) base
    · obtain ⟨-, htotal, -⟩ := hfirst hnil
      omega
  have hsat := U32.saturatingAdd_eq (hsum.trans (hcap.trans (by decide : 16127 ≤ U32.max)))
  let grown : RingStatus := { s.ringStatusAt base with
    total := (s.ringStatusAt base).total + (s.page target 0).length }
  -- First the base grows, then the target goes.
  let mid : Store T := { s.setRingPage base 0 m.2 with
    ringKeysStatus := s.ringKeysStatus.insert base grown }
  have hmidPage : ∀ r p, mid.page r p = if r = base ∧ p = 0 then s.page base 0 ++ s.page target 0
      else s.page r p := by
    intro r p
    have := Store.page_setRingPage s base r 0 p m.2
    rw [hlist] at this
    exact this
  have hmid : Paged mid := by
    refine h.of_ring base grown hinfo rfl rfl rfl (fun r hr => ?_) ?_ ?_ hsum
    · funext p
      exact livePage_eq_of rfl (by rw [hmidPage, if_neg (by tauto)])
    · intro p
      unfold Store.livePage
      rw [hmidPage]
      show (if (s.ringDeletionQueue.get (base, p)).isSome = true then [] else _).length =
        min _ ((s.ringStatusAt base).total + (s.page target 0).length - _)
      have hp := hpackedBase p
      unfold Store.livePage at hp
      by_cases hnil : s.page target 0 = []
      · rw [hnil, List.append_nil, List.length_nil, Nat.add_zero, ← hp]
        by_cases hp0 : p = 0
        · simp [hp0]
        · simp [hp0]
      · obtain ⟨hq, htotal, hfit⟩ := hfirst hnil
        rcases Nat.eq_zero_or_pos p with rfl | hpos
        · rw [if_neg (by simp [hq]), if_pos ⟨rfl, rfl⟩, List.length_append]
          omega
        · have hmul : T.flexibleRingCapacity ≤ p * T.flexibleRingCapacity :=
            Nat.le_mul_of_pos_left _ hpos
          rw [if_neg (by omega : ¬ (base = base ∧ p = 0)), hp]
          omega
    · exact (h.included_le base).trans (Nat.le_add_right _ _)
  refine hmid.of_removed (r := target) (by rw [hs']; rfl) (by rw [hs']; rfl) ?_ (fun r hr => ?_)
    fun p => ?_
  · rw [hs', hsat]
  · funext p
    exact livePage_eq_of (by rw [hs']; rfl)
      (by rw [Store.page_mergeRings hs, hmidPage, if_neg (by tauto : ¬ (r = target ∧ p = 0))])
  · rcases Nat.eq_zero_or_pos p with rfl | hp
    · unfold Store.livePage
      rw [Store.page_mergeRings hs, if_pos (⟨rfl, rfl⟩ : target = target ∧ 0 = 0), ite_self]
    · rw [← hrest p hp]
      exact livePage_eq_of (by rw [hs'])
        (by rw [Store.page_mergeRings hs, if_neg (by omega), if_neg (by omega)])

theorem enqueueRingForDeletion (h : Paged s) {env : Env T} {r : Nat} :
    Paged (s.enqueueRingForDeletion env r) := by
  obtain ⟨queue, hs, hqueue⟩ := Store.enqueueRingForDeletion_spec env s r
  have hpage : (s.enqueueRingForDeletion env r).page = s.page := by
    rw [hs]
    rfl
  have hdeletions : (s.enqueueRingForDeletion env r).ringDeletionQueue = queue := by rw [hs]
  refine h.of_removed (r := r) (by rw [hs]) (by rw [hs]) (by rw [hs]) (fun r' hr => ?_) fun p => ?_
  · funext p
    unfold Store.livePage
    rw [hpage, hdeletions]
    have : (queue.get (r', p)).isSome = true ↔ (s.ringDeletionQueue.get (r', p)).isSome = true := by
      rw [hqueue]
      exact or_iff_left fun hc => hr hc.1
    simp only [this]
  · unfold Store.livePage
    rw [hpage, hdeletions]
    split
    · rfl
    · rename_i hq
      -- The pages not queued are past the ring's total.
      rw [hqueue, not_or] at hq
      have hp : Store.pageCount T (s.ringStatusAt r).total ≤ p := by
        by_contra hlt
        exact hq.2 ⟨rfl, by omega⟩
      have hlive := (h.packed r).eq_nil (Store.le_pageCount_mul.trans (Nat.mul_le_mul_right _ hp))
      unfold Store.livePage at hlive
      rwa [if_neg hq.1] at hlive

/-- Deleting a queued page takes nothing that lives. -/
theorem deleteRingPage (h : Paged s) {r p : Nat}
    (hq : (s.ringDeletionQueue.get (r, p)).isSome = true) :
    Paged ({ s with ringDeletionQueue := s.ringDeletionQueue.remove (r, p) }.deleteRingPage r p) := by
  obtain ⟨members, hs, -⟩ := Store.deleteRingPage_spec
    { s with ringDeletionQueue := s.ringDeletionQueue.remove (r, p) } r p
  generalize ({ s with ringDeletionQueue := s.ringDeletionQueue.remove (r, p) } :
    Store T).deleteRingPage r p = s' at hs ⊢
  have hpage : ∀ r' p', s'.page r' p' = if r' = r ∧ p' = p then [] else s.page r' p' := by
    intro r' p'
    rw [hs]
    exact Store.page_removeRingPage s r r' p p'
  have hlive : s'.livePage = s.livePage := by
    funext r' p'
    by_cases hk : r' = r ∧ p' = p
    · unfold Store.livePage
      rw [hpage, if_pos hk, ite_self, hk.1, hk.2, if_pos hq]
    · have hne : ((r', p') : Nat × Nat) ≠ (r, p) := by simpa [Prod.ext_iff] using hk
      exact livePage_eq_of (by rw [hs, StorageMap.get_remove, if_neg hne])
        (by rw [hpage, if_neg hk])
  exact h.of_same (by rw [hs]) hlive (by rw [hs]) (by rw [hs])

theorem addMember (h : Paged s) {env : Env T} {key : T.Member}
    (hs : Store.addMember env s key = .ok s') : Paged s' := by
  obtain ⟨-, hpush⟩ := Store.addMember_spec hs
  obtain ⟨tail, keys, rfl, -⟩ := Store.pushToOnboardingQueue_spec hpush
  exact h.of_same rfl rfl rfl rfl

theorem mergeFrontQueuePages (h : Paged s) (hs : s.mergeFrontQueuePages = .ok s') :
    Paged s' := by
  obtain ⟨-, t, keys, hfold, -, rfl⟩ := Store.mergeFrontQueuePages_spec hs
  obtain ⟨hframe, -, -⟩ := Store.relocateQueued_fold hfold
  refine h.of_same ?_ (livePage_congr ?_ ?_) ?_ ?_ <;> rw [hframe] <;> rfl

theorem queueMemberSuspension (h : Paged s) {key : T.Member}
    (hs : s.queueMemberSuspension key = .ok s') : Paged s' := by
  rcases Store.queueMemberSuspension_cases hs with
    ⟨r, p, i, j, indices, -, -, -, rfl⟩ | ⟨q, t, -, rfl⟩ | ⟨-, rfl⟩
  · exact h.of_same rfl rfl rfl rfl
  · have hd := Store.dropQueued_frame s q key
    refine h.of_same ?_ (livePage_congr ?_ ?_) ?_ ?_ <;> rw [hd] <;> rfl
  · exact h.of_same rfl rfl rfl rfl

end Paged

/-! ### Runs -/

/-- The calls that see every key they count: members join a ring none of whose pages is queued
and that has room, a merge moves nothing or all that lives of its target into a base whose
first page lives, and a removal recounts a ring that lives on its first page, or keeps nothing
of a page that is queued. -/
def SeesKeys (s : Store T) : Call T → Prop
  | .onboardMembers _ | .selfInclude _ => ∀ info, s.collections = some info →
    ¬ s.currentRingFull info.ringSize.ringCapacity ∧ s.ringQueued s.currentRingIndex = false
  | .mergeRings base target => s.page target 0 = [] ∨
    ((s.ringDeletionQueue.get (base, 0)).isSome = false ∧ ∀ p, 0 < p → s.livePage target p = [])
  | .removeSuspendedKeys r =>
    ((s.ringDeletionQueue.get (r, 0)).isSome = false → ∀ p, 0 < p → s.livePage r p = []) ∧
      ((s.ringDeletionQueue.get (r, 0)).isSome = true →
        compact 0 (s.pendingAt r).toList (s.page r 0) = [])
  | _ => True

theorem Paged.step {env : Env T} {s s' : Store T} {c : Call T} (h : Paged s)
    (hsees : SeesKeys s c) (hs : s.exec env c = .ok s') : Paged s' := by
  cases exec_effect hs with
  | createCollection hnone hnone' _ _ =>
    have habsent := h.absent hnone hnone'
    refine ⟨h.packed, h.included_le, fun info _ r => ?_, .inr hnone', fun hc => by cases hc⟩
    have : (s.ringStatusAt r).total = 0 := by simp [Store.ringStatusAt, habsent r]
    show (s.ringStatusAt r).total ≤ _
    rw [this]
    exact Nat.zero_le _
  | addMembers _ hfold =>
    exact foldlM_ok_induction (fun _ t => Paged t) hfold h
      fun _ _ _ _ _ ht hstep => ht.addMember hstep
  | setOnboardingSize => exact h.of_same rfl rfl rfl rfl
  | onboardNone => exact h
  | onboard R =>
    obtain ⟨hroom, hqueued⟩ := hsees _ R.collections_eq
    exact h.round R hqueued hroom
  | selfInclude hs =>
    obtain ⟨info, _, _, _, _, _, hinfo, -⟩ := Store.doSelfInclude_spec hs
    exact h.doSelfInclude hs hinfo (hsees info hinfo).2 fun info hinfo => (hsees info hinfo).1
  | mergeQueuePages hs => exact h.mergeFrontQueuePages hs
  | buildRing hs => exact h.buildRing hs
  | mergeRings hs => exact h.mergeRings hs hsees
  | session _ _ => exact h.of_same rfl rfl rfl rfl
  | removeMembers _ hfold =>
    exact foldlM_ok_induction (fun _ t => Paged t) hfold h
      fun _ _ _ _ _ ht hstep => ht.queueMemberSuspension hstep
  | removeSuspendedKeys _ => exact h.removeSuspendedKeys hsees.1 hsees.2
  | removeRingQueued _ => exact h
  | removeRing _ _ _ => exact h.enqueueRingForDeletion
  | deleteRingPage hq => exact h.deleteRingPage hq
  | deleteCollection hinfo hnone =>
    refine ⟨h.packed, h.included_le, fun info hi r => ?_, .inl rfl, fun _ hc => by cases hc⟩
    rcases hi with hi | hi
    · cases hi
    · cases hi
      exact h.total_le _ (.inl hinfo) r
  | enqueueRingDeletion _ _ => exact h.enqueueRingForDeletion
  | deleteOnboardingQueuePage _ =>
    obtain ⟨members, hs, -⟩ := Store.deleteOnboardingQueuePage_spec s _
    rw [hs]
    exact h.of_same rfl rfl rfl rfl
  | finalizeCollectionDeletion hsuspended hstatus hdeletions _ =>
    have hc : s.collections = none := by
      rcases h.exclusive with hc | hs
      · exact hc
      · rw [hs] at hsuspended
        cases hsuspended
    refine ⟨h.packed, h.included_le, fun info hi r => ?_, .inl hc, fun _ _ => hstatus⟩
    rcases hi with hi | hi
    · exact h.total_le info (.inl hi) r
    · cases hi
  | markRingStale => exact h.of_same rfl rfl rfl rfl
  | cleanUpOldRoots _ _ => exact h.of_same rfl rfl rfl rfl

end Individuality.Members
