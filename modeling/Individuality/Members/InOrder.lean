import Individuality.Members.Paged

/-! Rings that fill, and are removed, in the order of their indices.

The members of a collection that nobody is suspended from join one ring after the other. The pallet
that owns such a collection removes its rings from the first on, once they are full. Every call from
outside keeps this (`InOrder.step`), as long as no merge moves a key: the rings removed stay
empty and without a root, and those before the current one stay full. -/
namespace Individuality.Members
open Support
variable {T : Config}

namespace Store

/-! ### Calls from outside -/

/-- `should_build_ring`: how many members a build would include, where the ring needs one. -/
def shouldBuildRing (s : Store T) (r limit : Nat) : Option Nat :=
  if s.suspendedCollections.isSome then none
  else if !s.ringsState.appendOnly then none
  else if s.pendingSuspensions.contains r then none
  else
    let status := s.ringStatusAt r
    let toInclude := min (status.total - status.included) limit
    if toInclude = 0 then none else some toInclude

/-- The checks on a member that asks to be included. -/
def canSelfInclude (env : Env T) (s : Store T) (member : T.Member) : Bool :=
  match s.collections, s.members.get member with
  | some info, some (.onboarding _ queuedAt) => s.ringsState.appendOnly &&
    info.selfInclusionDelay.any fun delay => U64.saturatingAdd queuedAt delay ≤ env.now
  | _, _ => false

/-- Whether a signed account or the offchain worker can make a call; the others are made by the
pallet that owns the collection. -/
def isOpen (env : Env T) (s : Store T) : Call T → Bool
  | .createCollection .. | .addMembers _ | .startRemovalSession | .endRemovalSession | .removeMembers _
  | .removeRing _ | .deleteCollection _ => false
  | .selfInclude member => s.canSelfInclude env member
  | .buildRing r toInclude =>
    (s.shouldBuildRing r T.ringBuildingMemberLimit).any fun pending => 0 < toInclude ∧ toInclude ≤ pending
  | _ => true

theorem shouldBuildRing_eq_some {s : Store T} {r limit pending : Nat} (h : s.shouldBuildRing r limit = some pending) :
    pending ≤ (s.ringStatusAt r).total - (s.ringStatusAt r).included := by
  unfold shouldBuildRing at h
  split at h
  · cases h
  · split at h
    · cases h
    · split at h
      · cases h
      · simp only at h
        split at h
        · cases h
        · cases h
          exact Nat.min_le_left _ _

theorem availableRing_of_full {s : Store T} {cap : Nat} (h : s.currentRingFull cap) :
    s.availableRing cap = ⟨{ s with currentRingIndex := U32.saturatingInc s.currentRingIndex },
      U32.saturatingInc s.currentRingIndex, 0, s.ringKeysAt (U32.saturatingInc s.currentRingIndex) 0,
      s.ringStatusAt s.currentRingIndex⟩ := if_pos h

/-! ### When a ring became immutable -/

theorem immutableSince_keysToPush (s : Store T) (r fuel m : Nat) (status : RingStatus) :
    (s.keysToPush r fuel m status).2.immutableSince = status.immutableSince := by
  induction fuel generalizing m status with
  | zero => rfl
  | succ fuel ih =>
    unfold keysToPush
    simp only
    split
    · rfl
    · exact ih _ _

/-- A build makes a ring immutable once all the keys it will ever have are included. -/
theorem ringStatusAt_buildRing {env : Env T} {s s' : Store T} {r n : Nat} {info : CollectionInfo T}
    (h : s.buildRing env r n = .ok s') (hinfo : s.collections = some info) :
    s'.ringStatusAt r = if (s.keysToPush r n n (s.ringStatusAt r)).2.included =
        (s.keysToPush r n n (s.ringStatusAt r)).2.total ∧ info.mode = .appendOnly ∧
        (s.keysToPush r n n (s.ringStatusAt r)).2.total = info.ringSize.ringCapacity then
      { (s.keysToPush r n n (s.ringStatusAt r)).2 with immutableSince := some env.now }
      else (s.keysToPush r n n (s.ringStatusAt r)).2 := by
  simp only [buildRing, bind_eq_ok, okOr_eq_ok] at h
  obtain ⟨info', hinfo', capacity, -, start, -, intermediate, -, h⟩ := h
  obtain rfl : info' = info := Option.some.inj (hinfo'.symm.trans hinfo)
  cases h
  simp only [finishBuild, archive, setRingStatus]
  cases s.root.get r <;> simp only [ringStatusAt, StorageMap.get_insert, if_true, Option.getD_some]

theorem immutableSince_buildRing {env : Env T} {s s' : Store T} {r n i : Nat} {info : CollectionInfo T}
    (h : s.buildRing env r n = .ok s') (hinfo : s.collections = some info)
    (hi : (s'.ringStatusAt r).immutableSince = some i) :
    (s.ringStatusAt r).immutableSince = some i ∨
      (i = env.now ∧ (s'.ringStatusAt r).included = (s'.ringStatusAt r).total ∧
        (s'.ringStatusAt r).total = info.ringSize.ringCapacity) := by
  rw [ringStatusAt_buildRing h hinfo] at hi ⊢
  split at hi
  · next hbuilt =>
    rw [if_pos hbuilt]
    exact .inr ⟨(Option.some.inj hi).symm, hbuilt.1, hbuilt.2.2⟩
  · exact .inl (immutableSince_keysToPush s r n n _ ▸ hi)

end Store

/-! ### The order of the rings -/

/-- The first `removed` rings of the collection are gone, those before the current one are full. -/
structure InOrder (s : Store T) (removed : Nat) : Prop where
  paged : Paged s
  active : s.suspendedCollections = none
  appendOnly : s.ringsState.appendOnly = true
  pending : ∀ r, s.pendingSuspensions.get r = none
  notSelf : ∀ info, s.collections = some info → info.selfInclusionDelay = none
  start : s.collections = none → s.currentRingIndex ≤ removed
  removed_le : removed ≤ s.currentRingIndex
  queued_lt : ∀ r, s.ringQueued r = true → r < removed
  gone : ∀ r, r < removed → (s.ringStatusAt r).total = 0 ∧ s.root.get r = none
  full : ∀ info, s.collections = some info → ∀ r, removed ≤ r → r < s.currentRingIndex →
    (s.ringStatusAt r).total = info.ringSize.ringCapacity
  ahead : ∀ r, s.currentRingIndex < r → (s.ringStatusAt r).total = 0
  -- The last index of all is never left.
  index_le : s.currentRingIndex ≤ U32.max
  room : ∀ info, s.collections = some info →
    (s.ringStatusAt s.currentRingIndex).total < info.ringSize.ringCapacity ∨ s.currentRingIndex = U32.max
  immutable : ∀ info, s.collections = some info → ∀ r, (s.ringStatusAt r).immutableSince ≠ none →
    (s.ringStatusAt r).included = info.ringSize.ringCapacity

/-- A merge moves no key; other calls do not move keys between rings. -/
def MovesNoKey (s : Store T) : Call T → Prop
  | .mergeRings _ target => s.page target 0 = []
  | _ => True

instance (s : Store T) (c : Call T) : Decidable (MovesNoKey s c) := by
  apply Call.casesOn (motive := fun c => Decidable (MovesNoKey s c)) c <;> intros <;> dsimp only [MovesNoKey] <;>
    infer_instance

namespace InOrder
variable {env : Env T} {s s' : Store T} {removed : Nat} {c : Call T}

theorem empty : InOrder (Store.empty T) 0 where
  paged := .empty
  active := rfl
  appendOnly := rfl
  pending _ := rfl
  notSelf _ h := nomatch h
  start _ := le_rfl
  removed_le := le_rfl
  queued_lt _ h := nomatch h
  gone r h := absurd h r.not_lt_zero
  full _ h := nomatch h
  ahead _ _ := rfl
  index_le := Nat.zero_le _
  room _ h := nomatch h
  immutable _ h := nomatch h

theorem included_le (h : InOrder s removed) {info : CollectionInfo T} (hinfo : s.collections = some info) (r : Nat) :
    (s.ringStatusAt r).included ≤ (s.ringStatusAt r).total ∧
      (s.ringStatusAt r).total ≤ info.ringSize.ringCapacity :=
  ⟨h.paged.included_le r, h.paged.total_le info (.inl hinfo) r⟩

/-- An immutable ring is full, and so is none of the others. -/
theorem total_of_immutable (h : InOrder s removed) {info : CollectionInfo T} (hinfo : s.collections = some info)
    {r : Nat} (hr : (s.ringStatusAt r).immutableSince ≠ none) :
    (s.ringStatusAt r).total = info.ringSize.ringCapacity := by
  have hincluded := h.immutable info hinfo r hr
  have := h.included_le hinfo r
  omega

theorem immutableSince_absent (h : InOrder s removed) (hnone : s.collections = none) (r : Nat) :
    (s.ringStatusAt r) = default := by
  rw [Store.ringStatusAt, h.paged.absent hnone h.active]
  rfl

theorem current_not_queued (h : InOrder s removed) : s.ringQueued s.currentRingIndex = false := by
  rw [Bool.eq_false_iff]
  intro hq
  exact absurd (h.queued_lt _ hq) (Nat.not_lt.mpr h.removed_le)

/-- A ring with an empty first page counts no key, unless it is gone. -/
theorem total_of_empty (h : InOrder s removed) {r : Nat} (hempty : s.page r 0 = []) : (s.ringStatusAt r).total = 0 := by
  have hpacked := h.paged.packed r 0
  have hpos := T.flexibleRingCapacity_pos
  unfold Store.livePage at hpacked
  rw [hempty, ite_self, List.length_nil] at hpacked
  omega

/-- What leaves the number of keys of every ring and the current ring alone keeps the order, where it gives
no removed ring a root and makes only full rings immutable. -/
theorem of_totals (h : InOrder s removed) (hpaged : Paged s') (hcollections : s'.collections = s.collections)
    (hsuspended : s'.suspendedCollections = s.suspendedCollections) (hstate : s'.ringsState = s.ringsState)
    (hpending : s'.pendingSuspensions = s.pendingSuspensions) (hcurrent : s'.currentRingIndex = s.currentRingIndex)
    (hqueued : ∀ r, s'.ringQueued r = true → s.ringQueued r = true)
    (htotal : ∀ r, (s'.ringStatusAt r).total = (s.ringStatusAt r).total)
    (hroot : ∀ r, r < removed → s'.root.get r = none)
    (himmutable : ∀ info, s.collections = some info → ∀ r, (s'.ringStatusAt r).immutableSince ≠ none →
      (s'.ringStatusAt r).included = info.ringSize.ringCapacity) : InOrder s' removed := by
  refine ⟨hpaged, ?_, ?_, ?_, ?_, ?_, ?_, ?_, ?_, ?_, ?_, ?_, ?_, ?_⟩
  · rw [hsuspended]
    exact h.active
  · rw [hstate]
    exact h.appendOnly
  · rw [hpending]
    exact h.pending
  · rw [hcollections]
    exact h.notSelf
  · rw [hcollections, hcurrent]
    exact h.start
  · rw [hcurrent]
    exact h.removed_le
  · exact fun r hr => h.queued_lt r (hqueued r hr)
  · intro r hr
    rw [htotal]
    exact ⟨(h.gone r hr).1, hroot r hr⟩
  · intro info hinfo r hr hlt
    rw [hcollections] at hinfo
    rw [hcurrent] at hlt
    rw [htotal]
    exact h.full info hinfo r hr hlt
  · intro r hr
    rw [hcurrent] at hr
    rw [htotal]
    exact h.ahead r hr
  · rw [hcurrent]
    exact h.index_le
  · rw [hcollections, hcurrent, htotal]
    exact h.room
  · rw [hcollections]
    exact himmutable

/-- What leaves the statuses and the roots alone keeps the order. -/
theorem of_same (h : InOrder s removed) (hpaged : Paged s') (hcollections : s'.collections = s.collections)
    (hsuspended : s'.suspendedCollections = s.suspendedCollections) (hstate : s'.ringsState = s.ringsState)
    (hpending : s'.pendingSuspensions = s.pendingSuspensions) (hcurrent : s'.currentRingIndex = s.currentRingIndex)
    (hqueued : ∀ r, s'.ringQueued r = true → s.ringQueued r = true) (hstatus : s'.ringKeysStatus = s.ringKeysStatus)
    (hroot : s'.root = s.root) : InOrder s' removed := by
  have hat : s'.ringStatusAt = s.ringStatusAt := by
    unfold Store.ringStatusAt
    rw [hstatus]
  refine h.of_totals hpaged hcollections hsuspended hstate hpending hcurrent hqueued (fun r => by rw [hat])
    (fun r hr => ?_) (fun info hinfo r hr => ?_)
  · rw [hroot]
    exact (h.gone r hr).2
  · rw [hat] at hr ⊢
    exact h.immutable info hinfo r hr

/-! ### One call at a time -/

/-- A full ring that stays the current one takes no member: its first page is full, or all of it. -/
theorem not_full_of_round (h : InOrder s removed) (R : Store.Round s s') :
    ¬ s.currentRingFull R.info.ringSize.ringCapacity := by
  intro hfull
  have hpacked := h.paged.packed s.currentRingIndex
  rw [Paged.livePage_of_not_queued h.current_not_queued] at hpacked
  have hle := (Store.currentRingFull_iff_of_packed hpacked).mp hfull
  have hlast : s.currentRingIndex = U32.max := (h.room R.info R.collections_eq).resolve_left (by omega)
  have hnext : U32.saturatingInc s.currentRingIndex = s.currentRingIndex := by
    rw [hlast]
    rfl
  have ha : R.a = ⟨s, s.currentRingIndex, 0, s.ringKeysAt s.currentRingIndex 0, s.ringStatusAt s.currentRingIndex⟩ := by
    rw [← R.a_eq, Store.availableRing_of_full hfull, hnext]
  obtain ⟨-, -, hpos, hn, -⟩ := Store.shouldOnboardMembers_spec R.should
  have hloop := R.loop
  have hlength := R.length_take
  have hfirst := hpacked 0
  rw [ha] at hn hloop
  cases hkeys : R.keys.take R.toInclude with
  | nil =>
    rw [hkeys, List.length_nil] at hlength
    omega
  | cons key rest =>
    rw [hkeys, List.foldlM_cons, bind_eq_ok] at hloop
    obtain ⟨f, hf, -⟩ := hloop
    obtain ⟨-, hroom, -⟩ := Store.includeKey_spec hf
    change (s.page s.currentRingIndex 0).length < T.flexibleRingCapacity at hroom
    change R.toInclude = min _ (_ - ((s.page s.currentRingIndex 0).length + 0 * T.flexibleRingCapacity)) at hn
    omega

/-- Members that join the current ring. -/
theorem of_joined (h : InOrder s removed) {info : CollectionInfo T} (n : Nat) (filled : Bool)
    (hinfo : s.collections = some info) (hpaged : Paged s') (hcollections : s'.collections = s.collections)
    (hsuspended : s'.suspendedCollections = s.suspendedCollections) (hstate : s'.ringsState = s.ringsState)
    (hpending : s'.pendingSuspensions = s.pendingSuspensions)
    (hdeletions : s'.ringDeletionQueue = s.ringDeletionQueue) (hroot : s'.root = s.root)
    (hroom : (s.ringStatusAt s.currentRingIndex).total < info.ringSize.ringCapacity)
    (hstatus : ∀ r, s'.ringStatusAt r = if r = s.currentRingIndex then
      { s.ringStatusAt r with total := (s.ringStatusAt r).total + n } else s.ringStatusAt r)
    (hcurrent : s'.currentRingIndex = if filled then U32.saturatingInc s.currentRingIndex else s.currentRingIndex)
    (hfit : (s.ringStatusAt s.currentRingIndex).total + n ≤ info.ringSize.ringCapacity)
    (hfilled : filled = true ↔ (s.ringStatusAt s.currentRingIndex).total + n = info.ringSize.ringCapacity) :
    InOrder s' removed := by
  have hmutable : (s.ringStatusAt s.currentRingIndex).immutableSince = none := by
    by_contra hne
    have := h.total_of_immutable hinfo hne
    omega
  have hindex := h.index_le
  -- The next ring, unless the indices are used up.
  have hnext : s'.currentRingIndex = s.currentRingIndex ∨ (filled = true ∧ s'.currentRingIndex = s.currentRingIndex + 1) := by
    rw [hcurrent]
    split
    · next hf =>
      unfold U32.saturatingInc U32.saturatingAdd
      rcases Nat.lt_or_ge s.currentRingIndex U32.max with hlt | hge
      · exact .inr ⟨hf, Nat.min_eq_left hlt⟩
      · exact .inl (by omega)
    · exact .inl rfl
  have hsame : ∀ info', s'.collections = some info' → info' = info := fun info' hi => by
    rw [hcollections, hinfo] at hi
    exact (Option.some.inj hi).symm
  refine ⟨hpaged, ?_, ?_, ?_, ?_, ?_, ?_, ?_, ?_, ?_, ?_, ?_, ?_, ?_⟩
  · rw [hsuspended]
    exact h.active
  · rw [hstate]
    exact h.appendOnly
  · rw [hpending]
    exact h.pending
  · rw [hcollections]
    exact h.notSelf
  · intro hnone
    rw [hcollections, hinfo] at hnone
    cases hnone
  · have := h.removed_le
    omega
  · intro r hr
    refine h.queued_lt r ?_
    unfold Store.ringQueued at hr ⊢
    rwa [hdeletions] at hr
  · intro r hr
    have := h.removed_le
    rw [hstatus, if_neg (by omega), hroot]
    exact h.gone r hr
  · intro info' hinfo' r hr hlt
    rw [hsame info' hinfo', hstatus]
    split
    · next heq =>
      subst heq
      have hf : filled = true := by
        rcases hnext with hnext | ⟨hf, -⟩
        · omega
        · exact hf
      exact hfilled.mp hf
    · next hne => exact h.full info hinfo r hr (by omega)
  · intro r hr
    have hne : r ≠ s.currentRingIndex := by omega
    rw [hstatus, if_neg hne]
    exact h.ahead r (by omega)
  · rw [hcurrent]
    split
    · exact U32.saturatingAdd_le _ _
    · exact hindex
  · intro info' hinfo'
    rw [hsame info' hinfo']
    cases hf : filled with
    | false =>
      rw [hf] at hcurrent hfilled
      rw [hcurrent, if_neg Bool.false_ne_true, hstatus, if_pos rfl]
      refine .inl (Nat.lt_of_le_of_ne hfit fun heq => Bool.false_ne_true (hfilled.mpr heq))
    | true =>
      rcases hnext with hnext | ⟨-, hnext⟩
      · rw [hcurrent, hf, if_pos rfl] at hnext ⊢
        refine .inr ?_
        unfold U32.saturatingInc U32.saturatingAdd at hnext ⊢
        omega
      · refine .inl ?_
        rw [hnext, hstatus, if_neg (Nat.succ_ne_self _), h.ahead _ (Nat.lt_succ_self _)]
        exact info.ringSize.ringCapacity_pos
  · intro info' hinfo' r hr
    rw [hsame info' hinfo']
    rw [hstatus] at hr ⊢
    split at hr
    · next heq =>
      subst heq
      exact absurd hmutable hr
    · next hne =>
      rw [if_neg hne]
      exact h.immutable info hinfo r hr

theorem round (h : InOrder s removed) (R : Store.Round s s') : InOrder s' removed := by
  have hroom := h.not_full_of_round R
  have hqueued := h.current_not_queued
  have hfit := h.paged.round_le R hqueued hroom
  have hcap : R.info.ringSize.ringCapacity ≤ U32.max := R.info.ringSize.ringCapacity_le.trans (by decide)
  obtain ⟨hroot, hpending, hdeletions, -⟩ := R.frame
  have hcollections := congrArg Store.collections R.store_eq
  have hsuspended := congrArg Store.suspendedCollections R.store_eq
  have hstate := congrArg Store.ringsState R.store_eq
  obtain ⟨-, -, -, -, hfilled⟩ := Store.shouldOnboardMembers_spec R.should
  have htotal : (s.ringStatusAt s.currentRingIndex).total =
      (s.ringStatusAt s.currentRingIndex).total / T.flexibleRingCapacity *
        T.flexibleRingCapacity + (s.ringKeysAt s.currentRingIndex
          ((s.ringStatusAt s.currentRingIndex).total / T.flexibleRingCapacity)).length :=
    (h.paged.packs hqueued).total_eq
  refine h.of_joined R.toInclude R.filled R.collections_eq (h.paged.round R hqueued hroom)
    hcollections hsuspended hstate hpending hdeletions hroot (h.paged.total_lt_of_room hqueued hroom) (fun r => ?_)
    (R.currentRingIndex_of_not_full hroom) hfit ?_
  · rw [R.ringStatusAt_of_not_full hroom]
    split
    · next heq =>
      subst heq
      rw [U32.saturatingAdd_eq (hfit.trans hcap)]
    · rfl
  · rw [hfilled, R.a_of_not_full hroom]
    have hlt := h.paged.total_lt_of_room hqueued hroom
    simp only
    omega

/-- A build that is asked for includes keys, so the ring has some left. -/
theorem included_lt_of_open {r n : Nat} (hopen : s.isOpen env (.buildRing r n) = true) :
    (s.ringStatusAt r).included < (s.ringStatusAt r).total := by
  simp only [Store.isOpen, Option.any_eq_true_iff_get, decide_eq_true_eq] at hopen
  obtain ⟨hsome, hpos, hle⟩ := hopen
  have := Store.shouldBuildRing_eq_some (Option.some_get hsome).symm
  omega

theorem buildRing (h : InOrder s removed) {r n : Nat} (hopen : s.isOpen env (.buildRing r n) = true)
    (hs : s.buildRing env r n = .ok s') : InOrder s' removed := by
  have hpaged := h.paged.buildRing hs
  have hpending := included_lt_of_open hopen
  obtain ⟨info, capacity, start, root, status, hinfo, -, -, -, -, -, htotal, hincluded, hs'⟩ := Store.buildRing_spec hs
  rw [Store.total_keysToPush] at htotal
  have hat : ∀ r', s'.ringStatusAt r' = if r' = r then status else s.ringStatusAt r' := by
    intro r'
    rw [hs']
    exact Store.ringStatusAt_setRingStatus s r r' status
  have htotals : ∀ r', (s'.ringStatusAt r').total = (s.ringStatusAt r').total := by
    intro r'
    rw [hat]
    split
    · next heq => rw [htotal, heq]
    · rfl
  refine h.of_totals hpaged (by rw [hs']) (by rw [hs']) (by rw [hs']) (by rw [hs']) (by rw [hs'])
    (fun r' hr' => ?_) htotals (fun r' hr' => ?_) (fun info' hinfo' r' hr' => ?_)
  · rw [hs'] at hr'
    exact hr'
  · obtain ⟨hzero, hroot⟩ := h.gone r' hr'
    have hne : r' ≠ r := by
      rintro rfl
      omega
    rw [hs']
    change (s.root.insert r root).get r' = none
    rw [StorageMap.get_insert, if_neg hne]
    exact hroot
  · by_cases heq : r' = r
    · subst heq
      obtain ⟨i, hi⟩ := Option.ne_none_iff_exists'.mp hr'
      rcases Store.immutableSince_buildRing hs hinfo' hi with hold | ⟨-, hall, hfull⟩
      · have hwas := h.immutable info' hinfo' r' (by rw [hold]; exact Option.some_ne_none i)
        have := h.included_le hinfo' r'
        omega
      · rw [hall, hfull]
    · rw [hat, if_neg heq] at hr' ⊢
      exact h.immutable info' hinfo' r' hr'

/-- A merge that moves no key takes a ring without keys. -/
theorem mergeRings (h : InOrder s removed) {base target : Nat} (hempty : s.page target 0 = [])
    (hs : s.mergeRings env base target = .ok s') :
    InOrder s' removed ∧ ∀ r, s'.ringStatusAt r = if r = target then default else s.ringStatusAt r := by
  have hpaged := h.paged.mergeRings hs (.inl hempty)
  have hzero := h.total_of_empty hempty
  obtain ⟨info, m, hinfo, -, -, -, -, -, -, -, -, -, hs'⟩ := Store.mergeRings_spec hs
  have hat : ∀ r, s'.ringStatusAt r = if r = target then default else s.ringStatusAt r := by
    intro r
    rw [Store.ringStatusAt_mergeRings hs, hempty, List.length_nil,
      U32.saturatingAdd_eq (h.paged.total_le_max hinfo base), Nat.add_zero]
    split
    · rfl
    · split
      · next heq => rw [heq]
      · rfl
  have htotals : ∀ r, (s'.ringStatusAt r).total = (s.ringStatusAt r).total := by
    intro r
    rw [hat]
    split
    · next heq => rw [heq, hzero, RingStatus.default_total]
    · rfl
  refine ⟨h.of_totals hpaged (by rw [hs']) (by rw [hs']) (by rw [hs']) (by rw [hs']) (by rw [hs'])
    (fun r hr => ?_) htotals (fun r hr => ?_) (fun info' hinfo' r hr => ?_), hat⟩
  · rw [hs'] at hr
    exact hr
  · rw [hs']
    change (s.archiveRoot env target).root.get r = none
    rw [Store.root_archiveRoot, (h.gone r hr).2, ite_self]
  · rw [hat] at hr ⊢
    split at hr
    · exact absurd rfl hr
    · next hne =>
      rw [if_neg hne]
      exact h.immutable info' hinfo' r hr

/-- A collection that is created for one that never was. -/
theorem createCollection (h : InOrder s removed) {owner : T.Location} {n : Nat} {size : RingExponent}
    (hs : s.exec env (.createCollection owner n .appendOnly size none) = .ok s') :
    InOrder s' removed ∧ s'.ringStatusAt = s.ringStatusAt := by
  have hpaged := h.paged.step (c := .createCollection owner n .appendOnly size none) trivial hs
  cases exec_effect hs with
  | createCollection hnone _ _ _ =>
    have habsent := h.immutableSince_absent hnone
    have hcurrent : s.currentRingIndex = removed := le_antisymm (h.start hnone) h.removed_le
    refine ⟨⟨hpaged, h.active, rfl, h.pending, ?_, by rintro ⟨⟩, h.removed_le, h.queued_lt, h.gone, ?_, h.ahead,
      h.index_le, ?_, ?_⟩, rfl⟩
    · rintro info ⟨⟩
      rfl
    · intro info _ r hr hlt
      change r < s.currentRingIndex at hlt
      omega
    · intro info _
      refine .inl ?_
      change (s.ringStatusAt s.currentRingIndex).total < _
      rw [habsent]
      exact info.ringSize.ringCapacity_pos
    · intro info _ r hr
      change (s.ringStatusAt r).immutableSince ≠ none at hr
      rw [habsent] at hr
      exact absurd rfl hr
  | session _ hc => rcases hc with hc | hc <;> cases hc

theorem addMembers (h : InOrder s removed) {members : List T.Member} (hs : s.exec env (.addMembers members) = .ok s') :
    InOrder s' removed ∧ s'.ringStatusAt = s.ringStatusAt := by
  cases exec_effect hs with
  | addMembers _ hfold =>
    refine foldlM_ok_induction (fun _ t => InOrder t removed ∧ t.ringStatusAt = s.ringStatusAt) hfold ⟨h, rfl⟩ ?_
    rintro _ _ t t' _ ⟨ht, hstatus⟩ hstep
    have hpaged := ht.paged.addMember hstep
    obtain ⟨-, hpush⟩ := Store.addMember_spec hstep
    obtain ⟨tail, keys, rfl, -⟩ := Store.pushToOnboardingQueue_spec hpush
    exact ⟨ht.of_same hpaged rfl rfl rfl rfl rfl (fun _ => id) rfl rfl, hstatus⟩
  | session _ hc => rcases hc with hc | hc <;> cases hc

/-- The first ring that is left is removed. -/
theorem removeRing (h : InOrder s removed) (hs : s.exec env (.removeRing removed) = .ok s') :
    InOrder s' (removed + 1) ∧
      ∀ r, s'.ringStatusAt r = if r = removed then default else s.ringStatusAt r := by
  have hpaged := h.paged.step (c := .removeRing removed) trivial hs
  cases exec_effect hs with
  | removeRingQueued hq => exact absurd (h.queued_lt _ hq) (Nat.lt_irrefl _)
  | removeRing hsome hne hq =>
    obtain ⟨queue, hs', hqueue⟩ := Store.enqueueRingForDeletion_spec env s removed
    have hlt : removed < s.currentRingIndex := lt_of_le_of_ne h.removed_le hne
    have hat : ∀ r, (s.enqueueRingForDeletion env removed).ringStatusAt r =
        if r = removed then default else s.ringStatusAt r := by
      intro r
      rw [hs']
      change ((s.ringKeysStatus.remove removed).get r).getD default = _
      rw [StorageMap.get_remove]
      split <;> rfl
    have hcollections : (s.enqueueRingForDeletion env removed).collections = s.collections := by rw [hs']
    have hcurrent : (s.enqueueRingForDeletion env removed).currentRingIndex = s.currentRingIndex := by rw [hs']
    refine ⟨⟨hpaged, ?_, ?_, ?_, ?_, ?_, ?_, ?_, ?_, ?_, ?_, ?_, ?_, ?_⟩, hat⟩
    · rw [hs']
      exact h.active
    · rw [hs']
      exact h.appendOnly
    · intro r
      rw [hs']
      change (s.pendingSuspensions.remove removed).get r = none
      rw [StorageMap.get_remove, h.pending, ite_self]
    · rw [hcollections]
      exact h.notSelf
    · rw [hcollections, hcurrent]
      exact fun hnone => (h.start hnone).trans (Nat.le_succ _)
    · rw [hcurrent]
      exact hlt
    · intro r hr
      rw [Store.ringQueued_iff, hs'] at hr
      obtain ⟨p, hp⟩ := hr
      rcases (hqueue r p).mp hp with hold | ⟨rfl, -⟩
      · exact (h.queued_lt r (Store.ringQueued_iff.mpr ⟨p, hold⟩)).trans (Nat.lt_succ_self _)
      · exact Nat.lt_succ_self _
    · intro r hr
      have hroot : (s.enqueueRingForDeletion env removed).root.get r =
          if r = removed then none else s.root.get r := by
        rw [hs']
        exact Store.root_archiveRoot env s removed r
      rw [hat, hroot]
      by_cases heq : r = removed
      · rw [if_pos heq, if_pos heq]
        exact ⟨rfl, rfl⟩
      · rw [if_neg heq, if_neg heq]
        exact h.gone r (by omega)
    · intro info hinfo r hr hr'
      rw [hcollections] at hinfo
      rw [hcurrent] at hr'
      rw [hat, if_neg (by omega)]
      exact h.full info hinfo r (by omega) hr'
    · intro r hr
      rw [hcurrent] at hr
      rw [hat, if_neg (by omega)]
      exact h.ahead r hr
    · rw [hcurrent]
      exact h.index_le
    · rw [hcollections, hcurrent, hat, if_neg (Ne.symm hne)]
      exact h.room
    · intro info hinfo r hr
      rw [hcollections] at hinfo
      rw [hat] at hr ⊢
      split at hr
      · exact absurd rfl hr
      · next hr' =>
        rw [if_neg hr']
        exact h.immutable info hinfo r hr
  | session _ hc => rcases hc with hc | hc <;> cases hc

/-! ### Calls from outside -/

/-- Nobody includes itself where the collection does not let its members. -/
theorem not_canSelfInclude (h : InOrder s removed) (env : Env T) (member : T.Member) :
    s.canSelfInclude env member = false := by
  unfold Store.canSelfInclude
  split
  · next hinfo _ =>
    rw [h.notSelf _ hinfo, Option.any_none, Bool.and_false]
  · rfl

/-- No ring has suspended keys to remove. -/
theorem not_shouldRemoveSuspendedKeys (h : InOrder s removed) (r : Nat) :
    ¬ s.shouldRemoveSuspendedKeys r true = true := by
  have hnil : (s.pendingAt r).length = 0 := by
    unfold Store.pendingAt
    rw [h.pending]
    rfl
  simp [Store.shouldRemoveSuspendedKeys, hnil]

/-- A call from outside keeps the order and the status of an immutable ring, and makes rings
immutable now, if at all. -/
theorem step (h : InOrder s removed) (hopen : s.isOpen env c = true) (hmoves : MovesNoKey s c)
    (hs : s.exec env c = .ok s') : InOrder s' removed ∧
      (∀ r, (s.ringStatusAt r).immutableSince ≠ none → s'.ringStatusAt r = s.ringStatusAt r) ∧
      ∀ r i, (s'.ringStatusAt r).immutableSince = some i → (s.ringStatusAt r).immutableSince = some i ∨ i = env.now := by
  have hsuspended : s.suspendedCollections.isSome = true → False := by
    rw [h.active]
    rintro ⟨⟩
  cases exec_effect hs with
  | createCollection _ _ _ _ => cases hopen
  | addMembers _ _ => cases hopen
  | setOnboardingSize =>
    exact ⟨h.of_same (h.paged.of_same rfl rfl rfl rfl) rfl rfl rfl rfl rfl (fun _ => id) rfl rfl, fun _ _ => rfl, fun _ _ => .inl⟩
  | onboardNone => exact ⟨h, fun _ _ => rfl, fun _ _ => .inl⟩
  | onboard R =>
    have hroom := h.not_full_of_round R
    have hlt := h.paged.total_lt_of_room h.current_not_queued hroom
    refine ⟨h.round R, fun r hr => ?_, fun r i hi => .inl ?_⟩
    · rw [R.ringStatusAt_of_not_full hroom, if_neg]
      rintro rfl
      have := h.total_of_immutable R.collections_eq hr
      omega
    · rw [R.ringStatusAt_of_not_full hroom] at hi
      split at hi
      · exact hi
      · exact hi
  | selfInclude hs =>
    rw [Store.isOpen, h.not_canSelfInclude] at hopen
    cases hopen
  | mergeQueuePages hs =>
    have hpaged := h.paged.mergeFrontQueuePages hs
    obtain ⟨-, t, keys, hfold, -, rfl⟩ := Store.mergeFrontQueuePages_spec hs
    obtain ⟨hframe, -, -⟩ := Store.relocateQueued_fold hfold
    have hcollections := congrArg Store.collections hframe
    have hsuspended := congrArg Store.suspendedCollections hframe
    have hstate := congrArg Store.ringsState hframe
    have hpending := congrArg Store.pendingSuspensions hframe
    have hcurrent := congrArg Store.currentRingIndex hframe
    have hstatus := congrArg Store.ringKeysStatus hframe
    have hdeletions := congrArg Store.ringDeletionQueue hframe
    have hroot := congrArg Store.root hframe
    have hat : ∀ r, (t.ringKeysStatus.get r).getD default = s.ringStatusAt r := fun r => by
      rw [hstatus]
      rfl
    refine ⟨h.of_same hpaged hcollections hsuspended hstate hpending hcurrent (fun r hr => ?_) hstatus hroot,
      fun r _ => hat r, fun r i hi => .inl ?_⟩
    · unfold Store.ringQueued at hr ⊢
      change (t.ringDeletionQueue.keys.any _) = true at hr
      rw [hdeletions] at hr
      exact hr
    · rw [← hat r]
      exact hi
  | @buildRing r n _ hbuild =>
    have hother : ∀ r', r' ≠ r → s'.ringStatusAt r' = s.ringStatusAt r' := by
      intro r' hne
      obtain ⟨_, _, _, root, status, -, -, -, -, -, -, -, -, hs'⟩ := Store.buildRing_spec hbuild
      rw [hs']
      exact (Store.ringStatusAt_setRingStatus s r r' status).trans (if_neg hne)
    obtain ⟨info, _, _, _, _, hinfo, -⟩ := Store.buildRing_spec hbuild
    refine ⟨h.buildRing hopen hbuild, fun r' hr' => hother r' ?_, fun r' i hi => ?_⟩
    · rintro rfl
      have hwas := h.immutable info hinfo r' hr'
      have hlt := included_lt_of_open hopen
      have := h.included_le hinfo r'
      omega
    · by_cases hr' : r' = r
      · subst hr'
        exact (Store.immutableSince_buildRing hbuild hinfo hi).imp_right And.left
      · exact .inl (hother r' hr' ▸ hi)
  | @mergeRings base target _ hmerge =>
    obtain ⟨h', hat⟩ := h.mergeRings hmoves hmerge
    refine ⟨h', fun r hr => ?_, fun r i hi => .inl ?_⟩
    · rw [hat, if_neg]
      rintro rfl
      obtain ⟨info, _, hinfo, -⟩ := Store.mergeRings_spec hmerge
      have htotal := h.total_of_immutable hinfo hr
      have hzero := h.total_of_empty hmoves
      have hpos := info.ringSize.ringCapacity_pos
      omega
    · rw [hat] at hi
      split at hi
      · cases hi
      · exact hi
  | session _ hc =>
    rcases hc with rfl | rfl
    · cases hopen
    · cases hopen
  | removeMembers _ _ => cases hopen
  | removeSuspendedKeys hshould => exact (h.not_shouldRemoveSuspendedKeys _ hshould).elim
  | removeRingQueued _ => cases hopen
  | removeRing _ _ _ => cases hopen
  | @deleteRingPage r p hq =>
    have hpaged := h.paged.deleteRingPage hq
    obtain ⟨members, hs', -⟩ := Store.deleteRingPage_spec
      { s with ringDeletionQueue := s.ringDeletionQueue.remove (r, p) } r p
    rw [hs'] at hpaged ⊢
    refine ⟨h.of_same hpaged rfl rfl rfl rfl rfl (fun r' hr' => ?_) rfl rfl, fun _ _ => rfl, fun _ _ => .inl⟩
    rw [Store.ringQueued_iff] at hr' ⊢
    obtain ⟨p', hp'⟩ := hr'
    change ((s.ringDeletionQueue.remove (r, p)).get (r', p')).isSome = true at hp'
    rw [StorageMap.get_remove] at hp'
    split at hp'
    · cases hp'
    · exact ⟨p', hp'⟩
  | deleteCollection _ _ => cases hopen
  | enqueueRingDeletion hc _ => exact (hsuspended hc).elim
  | deleteOnboardingQueuePage hc => exact (hsuspended hc).elim
  | finalizeCollectionDeletion hc _ _ _ => exact (hsuspended hc).elim
  | markRingStale =>
    exact ⟨h.of_same (h.paged.of_same rfl rfl rfl rfl) rfl rfl rfl rfl rfl (fun _ => id) rfl rfl, fun _ _ => rfl, fun _ _ => .inl⟩
  | cleanUpOldRoots _ _ =>
    exact ⟨h.of_same (h.paged.of_same rfl rfl rfl rfl) rfl rfl rfl rfl rfl (fun _ => id) rfl rfl, fun _ _ => rfl, fun _ _ => .inl⟩

end InOrder
end Individuality.Members
