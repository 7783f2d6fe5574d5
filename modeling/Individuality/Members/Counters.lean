import Individuality.Members.Paged

/-! The counters agree with storage: `ActiveMembers` sums up the statuses, each of which
counts its ring's live pages (`Paged`), and every operation moves the sum by what it
moves the ring.

Beyond what the statuses need, joining must not overflow the sum, and a merge must
not bring back the keys of a ring whose count was taken off it. -/
namespace Individuality.Members
open Support
variable {T : Config}

structure Counted (s : Store T) : Prop extends Paged s where
  active_eq : s.activeMembers = s.ringKeysStatus.sumOf RingStatus.total

/-- What a ring contributes to the sum of the statuses. -/
theorem measureAt_total (s : Store T) (r : Nat) :
    s.ringKeysStatus.measureAt RingStatus.total r = (s.ringStatusAt r).total := by
  unfold StorageMap.measureAt Store.ringStatusAt
  cases s.ringKeysStatus.get r <;> rfl

namespace Counted
variable {s s' : Store T}

theorem empty : Counted (Store.empty T) := ⟨Paged.empty, rfl⟩

theorem total_le_active (h : Counted s) (r : Nat) : (s.ringStatusAt r).total ≤ s.activeMembers := by
  have hle := s.ringKeysStatus.measureAt_le_sumOf RingStatus.total r
  rwa [measureAt_total, ← h.active_eq] at hle

/-- The sum follows the status that changes. -/
theorem active_of_insert (h : Counted s) (r : Nat) (status : RingStatus)
    (hstatus : s'.ringKeysStatus = s.ringKeysStatus.insert r status)
    (hactive : s'.activeMembers + (s.ringStatusAt r).total = s.activeMembers + status.total) :
    s'.activeMembers = s'.ringKeysStatus.sumOf RingStatus.total := by
  have hsum := s.ringKeysStatus.sumOf_insert RingStatus.total r status
  rw [measureAt_total, ← h.active_eq] at hsum
  rw [hstatus]
  omega

theorem active_of_remove (h : Counted s) (r : Nat)
    (hstatus : s'.ringKeysStatus = s.ringKeysStatus.remove r)
    (hactive : s'.activeMembers + (s.ringStatusAt r).total = s.activeMembers) :
    s'.activeMembers = s'.ringKeysStatus.sumOf RingStatus.total := by
  have hsum := s.ringKeysStatus.sumOf_remove RingStatus.total r
  rw [measureAt_total, ← h.active_eq] at hsum
  rw [hstatus]
  omega

theorem active_of_same (h : Counted s) (hactive : s'.activeMembers = s.activeMembers)
    (hstatus : s'.ringKeysStatus = s.ringKeysStatus) :
    s'.activeMembers = s'.ringKeysStatus.sumOf RingStatus.total := by
  rw [hactive, hstatus, h.active_eq]

/-! ### One operation at a time -/

/-- Members that join the current ring are counted once in its status and once in the sum. -/
theorem active_of_joined (h : Counted s) {info : CollectionInfo T} {n : Nat}
    (hfit : (s.ringStatusAt s.currentRingIndex).total + n ≤ info.ringSize.ringCapacity)
    (hmax : s.activeMembers + n ≤ U32.max)
    (hactive : s'.activeMembers = U32.saturatingAdd s.activeMembers n)
    (hstatus : s'.ringKeysStatus = s.ringKeysStatus.insert s.currentRingIndex
      { s.ringStatusAt s.currentRingIndex with
        total := U32.saturatingAdd (s.ringStatusAt s.currentRingIndex).total n }) :
    s'.activeMembers = s'.ringKeysStatus.sumOf RingStatus.total := by
  have hcap : info.ringSize.ringCapacity ≤ U32.max :=
    info.ringSize.ringCapacity_le.trans (by decide)
  refine h.active_of_insert _ _ hstatus ?_
  rw [hactive, U32.saturatingAdd_eq hmax]
  show s.activeMembers + n + (s.ringStatusAt s.currentRingIndex).total = s.activeMembers +
    U32.saturatingAdd (s.ringStatusAt s.currentRingIndex).total n
  rw [U32.saturatingAdd_eq (hfit.trans hcap)]
  omega

theorem round (h : Counted s) (R : Store.Round s s')
    (hqueued : s.ringQueued s.currentRingIndex = false)
    (hroom : ¬ s.currentRingFull R.info.ringSize.ringCapacity)
    (hmax : s.activeMembers + R.info.ringSize.ringCapacity ≤ U32.max) : Counted s' := by
  refine ⟨h.toPaged.round R hqueued hroom, ?_⟩
  have hfit := h.round_le R hqueued hroom
  have hstatus := congrArg Store.ringKeysStatus R.store_eq
  rw [R.a_of_not_full hroom] at hstatus
  exact h.active_of_joined hfit (by omega) R.activeMembers_eq hstatus

theorem doSelfInclude (h : Counted s) {member : T.Member} {info : CollectionInfo T}
    (hs : s.doSelfInclude member = .ok s') (hinfo : s.collections = some info)
    (hqueued : s.ringQueued s.currentRingIndex = false)
    (hroom : ∀ info, s.collections = some info → ¬ s.currentRingFull info.ringSize.ringCapacity)
    (hmax : s.activeMembers + 1 ≤ U32.max) : Counted s' := by
  refine ⟨h.toPaged.doSelfInclude hs hinfo hqueued hroom, ?_⟩
  obtain ⟨-, -, hstatus, hactive, -⟩ := Store.doSelfInclude_writes hs hroom
  exact h.active_of_joined (h.total_lt_of_room hqueued (hroom info hinfo)) hmax hactive hstatus

/-- Removing suspended keys takes off the sum what it takes off the ring. -/
theorem removeSuspendedKeys (h : Counted s) {env : Env T} {r : Nat}
    (hlive : (s.ringDeletionQueue.get (r, 0)).isSome = false → ∀ p, 0 < p → s.livePage r p = [])
    (hqueued : (s.ringDeletionQueue.get (r, 0)).isSome = true →
      compact 0 (s.pendingAt r).toList (s.page r 0) = []) :
    Counted (s.removeSuspendedKeys env r) := by
  refine ⟨h.toPaged.removeSuspendedKeys hlive hqueued, ?_⟩
  rcases Store.removeSuspendedKeys_spec env s r with ⟨-, hs⟩ | ⟨info, capacity, members, page, -, -,
    -, hlist, hs⟩
  · rw [hs]
    exact h.active_eq
  have htotal := h.length_retained_le hqueued
  rw [← hlist] at htotal
  have hle := h.total_le_active r
  refine h.active_of_insert r { s.ringStatusAt r with total := page.length, included := 0 }
    (by rw [hs]) ?_
  rw [hs]
  show s.activeMembers - ((s.ringStatusAt r).total - page.length) + (s.ringStatusAt r).total =
    s.activeMembers + page.length
  change page.length ≤ _ at htotal
  omega

theorem buildRing (h : Counted s) {env : Env T} {r n : Nat} (hs : s.buildRing env r n = .ok s') :
    Counted s' := by
  refine ⟨h.toPaged.buildRing hs, ?_⟩
  obtain ⟨info, capacity, start, root, status, hinfo, -, -, -, -, -, htotal, -, hs'⟩ :=
    Store.buildRing_spec hs
  obtain ⟨htotal', -⟩ := Store.keysToPush_spec n n (s.ringStatusAt r) (h.covers r)
    (h.included_le r) (h.total_le_max hinfo r) le_rfl (Nat.lt_succ_self _)
  refine h.active_of_insert r status (by rw [hs']) ?_
  rw [hs', htotal, htotal']

/-- A merge leaves the sum alone: what the base gains, the target counted before. -/
theorem mergeRings (h : Counted s) {env : Env T} {base target : Nat}
    (hs : s.mergeRings env base target = .ok s')
    (hmoves : s.page target 0 = [] ∨ ((s.ringDeletionQueue.get (base, 0)).isSome = false ∧
      ∀ p, 0 < p → s.livePage target p = []))
    (hcounted : s.page target 0 = [] ∨ (s.ringDeletionQueue.get (target, 0)).isSome = false) :
    Counted s' := by
  have hpaged := h.toPaged.mergeRings hs hmoves
  refine ⟨hpaged, ?_⟩
  obtain ⟨info, m, hinfo, -, hne, -, -, -, -, -, -, -, hs'⟩ := Store.mergeRings_spec hs
  -- The base's new total is within the capacity, so it did not saturate.
  have hsat : U32.saturatingAdd (s.ringStatusAt base).total (s.page target 0).length =
      (s.ringStatusAt base).total + (s.page target 0).length := by
    have hle := hpaged.total_le info (.inl (by rw [hs']; exact hinfo)) base
    rw [Store.ringStatusAt_mergeRings hs base, if_neg hne, if_pos rfl] at hle
    have hcap := info.ringSize.ringCapacity_le
    simp only [U32.saturatingAdd, U32.max] at hle ⊢
    omega
  have htotal : (s.ringStatusAt target).total = (s.page target 0).length := by
    have hpos := T.flexibleRingCapacity_pos
    have h0 := h.packed target 0
    unfold Store.livePage at h0
    rw [Nat.zero_mul, Nat.sub_zero] at h0
    by_cases hnil : s.page target 0 = []
    · rw [hnil, ite_self, List.length_nil] at h0
      rw [hnil, List.length_nil]
      omega
    · rw [if_neg (by simp [hcounted.resolve_left hnil])] at h0
      have h1 := h.packed target 1
      rw [(hmoves.resolve_left hnil).2 1 Nat.one_pos, List.length_nil, Nat.one_mul] at h1
      omega
  let grown : RingStatus := { s.ringStatusAt base with
    total := (s.ringStatusAt base).total + (s.page target 0).length }
  have hstatus : s'.ringKeysStatus = (s.ringKeysStatus.insert base grown).remove target := by
    rw [hs', hsat]
  have hactive : s'.activeMembers = s.activeMembers := by rw [hs']
  have hgrown := s.ringKeysStatus.sumOf_insert RingStatus.total base grown
  have hgone := (s.ringKeysStatus.insert base grown).sumOf_remove RingStatus.total target
  rw [measureAt_total, ← h.active_eq] at hgrown
  rw [StorageMap.measureAt, StorageMap.get_insert, if_neg (Ne.symm hne), ← StorageMap.measureAt,
    measureAt_total, htotal] at hgone
  change _ = s.activeMembers + ((s.ringStatusAt base).total + (s.page target 0).length) at hgrown
  rw [hstatus, hactive]
  omega

theorem enqueueRingForDeletion (h : Counted s) {env : Env T} {r : Nat} :
    Counted (s.enqueueRingForDeletion env r) := by
  refine ⟨h.toPaged.enqueueRingForDeletion, ?_⟩
  obtain ⟨queue, hs, -⟩ := Store.enqueueRingForDeletion_spec env s r
  refine h.active_of_remove r (by rw [hs]) ?_
  rw [hs]
  exact Nat.sub_add_cancel (h.total_le_active r)

theorem deleteRingPage (h : Counted s) {r p : Nat}
    (hq : (s.ringDeletionQueue.get (r, p)).isSome = true) :
    Counted ({ s with ringDeletionQueue := s.ringDeletionQueue.remove (r, p) }.deleteRingPage r p) := by
  refine ⟨h.toPaged.deleteRingPage hq, ?_⟩
  obtain ⟨members, hs, -⟩ := Store.deleteRingPage_spec
    { s with ringDeletionQueue := s.ringDeletionQueue.remove (r, p) } r p
  exact h.active_of_same (by rw [hs]) (by rw [hs])

theorem addMember (h : Counted s) {env : Env T} {key : T.Member}
    (hs : Store.addMember env s key = .ok s') : Counted s' := by
  refine ⟨h.toPaged.addMember hs, ?_⟩
  obtain ⟨-, hpush⟩ := Store.addMember_spec hs
  obtain ⟨tail, keys, rfl, -⟩ := Store.pushToOnboardingQueue_spec hpush
  exact h.active_eq

theorem mergeFrontQueuePages (h : Counted s) (hs : s.mergeFrontQueuePages = .ok s') :
    Counted s' := by
  refine ⟨h.toPaged.mergeFrontQueuePages hs, ?_⟩
  obtain ⟨-, t, keys, hfold, -, rfl⟩ := Store.mergeFrontQueuePages_spec hs
  obtain ⟨hframe, -, -⟩ := Store.relocateQueued_fold hfold
  refine h.active_of_same ?_ ?_ <;> rw [hframe] <;> rfl

theorem queueMemberSuspension (h : Counted s) {key : T.Member}
    (hs : s.queueMemberSuspension key = .ok s') : Counted s' := by
  refine ⟨h.toPaged.queueMemberSuspension hs, ?_⟩
  rcases Store.queueMemberSuspension_cases hs with
    ⟨r, p, i, j, indices, -, -, -, rfl⟩ | ⟨q, t, -, rfl⟩ | ⟨-, rfl⟩
  · exact h.active_eq
  · have hd := Store.dropQueued_frame s q key
    refine h.active_of_same ?_ ?_ <;> rw [hd] <;> rfl
  · exact h.active_eq

end Counted

/-! ### Runs -/

/-- The calls that see every key they count, without overflowing the sum and without bringing back
keys that were taken off it. -/
def CountsKeys (s : Store T) (c : Call T) : Prop :=
  SeesKeys s c ∧ match c with
    | .onboardMembers _ | .selfInclude _ => ∀ info, s.collections = some info →
      s.activeMembers + info.ringSize.ringCapacity ≤ U32.max
    | .mergeRings _ target =>
      s.page target 0 = [] ∨ (s.ringDeletionQueue.get (target, 0)).isSome = false
    | _ => True

theorem Counted.step {env : Env T} {s s' : Store T} {c : Call T} (h : Counted s)
    (hcounts : CountsKeys s c) (hs : s.exec env c = .ok s') : Counted s' := by
  obtain ⟨hsees, hcounts⟩ := hcounts
  have hpaged := h.toPaged.step hsees hs
  cases exec_effect hs with
  | createCollection hnone hnone' _ _ => exact ⟨hpaged, h.active_eq⟩
  | addMembers _ hfold =>
    exact foldlM_ok_induction (fun _ t => Counted t) hfold h
      fun _ _ _ _ _ ht hstep => ht.addMember hstep
  | setOnboardingSize => exact ⟨hpaged, h.active_eq⟩
  | onboardNone => exact h
  | onboard R =>
    obtain ⟨hroom, hqueued⟩ := hsees _ R.collections_eq
    exact h.round R hqueued hroom (hcounts _ R.collections_eq)
  | selfInclude hs =>
    obtain ⟨info, _, _, _, _, _, hinfo, -⟩ := Store.doSelfInclude_spec hs
    have hmax := hcounts info hinfo
    have hpos := info.ringSize.ringCapacity_pos
    exact h.doSelfInclude hs hinfo (hsees info hinfo).2 (fun info hinfo => (hsees info hinfo).1) (by omega)
  | mergeQueuePages hs => exact h.mergeFrontQueuePages hs
  | buildRing hs => exact h.buildRing hs
  | mergeRings hs => exact h.mergeRings hs hsees hcounts
  | session _ _ => exact ⟨hpaged, h.active_eq⟩
  | removeMembers _ hfold =>
    exact foldlM_ok_induction (fun _ t => Counted t) hfold h
      fun _ _ _ _ _ ht hstep => ht.queueMemberSuspension hstep
  | removeSuspendedKeys _ => exact h.removeSuspendedKeys hsees.1 hsees.2
  | removeRingQueued _ => exact h
  | removeRing _ _ _ => exact h.enqueueRingForDeletion
  | deleteRingPage hq => exact h.deleteRingPage hq
  | deleteCollection hinfo hnone => exact ⟨hpaged, h.active_eq⟩
  | enqueueRingDeletion _ _ => exact h.enqueueRingForDeletion
  | deleteOnboardingQueuePage _ =>
    obtain ⟨members, hs, -⟩ := Store.deleteOnboardingQueuePage_spec s _
    exact ⟨hpaged, h.active_of_same (by rw [hs]) (by rw [hs])⟩
  | finalizeCollectionDeletion _ hstatus _ _ =>
    exact ⟨hpaged, (StorageMap.sumOf_of_get_none hstatus _).symm⟩
  | markRingStale => exact ⟨hpaged, h.active_eq⟩
  | cleanUpOldRoots _ _ => exact ⟨hpaged, h.active_eq⟩

/-- What the counters of a collection say of its storage. -/
def CountersAgree (s : Store T) : Prop :=
  s.activeMembers = s.ringKeysStatus.sumOf RingStatus.total ∧
    ∀ r, s.ringQueued r = false →
      (s.ringStatusAt r).total = (s.keysInOrder r).length ∧
      (s.ringStatusAt r).included ≤ (s.ringStatusAt r).total ∧
      (∀ info, s.collections = some info ∨ s.suspendedCollections = some info →
        (s.ringStatusAt r).total ≤ info.ringSize.ringCapacity) ∧
      ∀ p q, p < q → s.page r q ≠ [] → (s.page r p).length = T.flexibleRingCapacity

theorem Counted.agree {s : Store T} (h : Counted s) : CountersAgree s := by
  refine ⟨h.active_eq, fun r hq => ?_⟩
  have hpacked := h.packed r
  rw [Paged.livePage_of_not_queued hq] at hpacked
  refine ⟨?_, h.included_le r, fun info hinfo => h.total_le info hinfo r, fun p q hpq hne => ?_⟩
  · have hpos := T.flexibleRingCapacity_pos
    rw [Store.keysInOrder_eq_concat (le_max_left _ (s.ringStatusAt r).total), hpacked.length_concat]
    exact (le_max_right _ _).trans (Nat.le_mul_of_pos_right _ hpos)
  · have hq := hpacked q
    have hlen := List.length_pos_of_ne_nil hne
    have hmul : (p + 1) * T.flexibleRingCapacity ≤ q * T.flexibleRingCapacity :=
      Nat.mul_le_mul_right _ hpq
    rw [Nat.add_mul, Nat.one_mul] at hmul
    rw [hpacked p]
    omega

theorem Counted.of_reachable {s : State T}
    (h : State.Reachable (State.OnCalls fun _ t c => CountsKeys t c) s) (id : Identifier) :
    Counted (s.store id) :=
  State.reachable_invariant h Counted.empty (fun _ _ _ _ ht hG hs => ht.step hG hs) id

/-- The counters of every collection agree with its storage in every state that runs of calls
reach that see every key they count. -/
theorem counters_agree {s : State T}
    (h : State.Reachable (State.OnCalls fun _ t c => CountsKeys t c) s) (id : Identifier) :
    CountersAgree (s.store id) :=
  (Counted.of_reachable h id).agree

/-- Runs that count every key reach a first cohort. -/
theorem exists_counted_cohort {n : Nat} (hpos : 0 < n) (hn : n ≤ 767) :
    ∃ s : State sampleConfig, State.Reachable (State.OnCalls fun _ t c => CountsKeys t c) s ∧
      Store.FirstCohort (s.store sampleId) ⟨.external (0 : Nat), .appendOnly, .r2e10, none⟩
        (sampleKeys 0 n) := by
  obtain ⟨s, hr, -, hcohort⟩ := State.exists_first_cohort (G := fun _ t c => CountsKeys t c) sampleId
    (0 : Nat) .r2e10 (sampleKeys 0 n) (sampleKeys_ne_nil hpos) (sampleKeys_nodup 0 n)
    (fun _ _ => rfl) (by rw [length_sampleKeys]; exact hn)
    (by rw [length_sampleKeys]; exact hn.trans (by decide)) (by decide)
    (fun _ _ => ⟨trivial, trivial⟩) (fun _ _ => ⟨trivial, trivial⟩)
    (fun _ s hroom hdeletions hactive => by
      refine ⟨fun info hinfo => ⟨hroom info hinfo, ?_⟩, fun info hinfo => ?_⟩
      · unfold Store.ringQueued
        rw [hdeletions]
        rfl
      · have hcap := info.ringSize.ringCapacity_le
        rw [hactive, Nat.zero_add]
        exact hcap.trans (by decide))
  exact ⟨s, hr, hcohort⟩

/-- Three members on their first page. -/
theorem counters_agree_three : ∃ s : State sampleConfig,
    ((s.store sampleId).ringStatusAt 0).total = 3 ∧ CountersAgree (s.store sampleId) := by
  obtain ⟨s, hr, hcohort⟩ := exists_counted_cohort (n := 3) (by decide) (by decide)
  refine ⟨s, ?_, counters_agree hr sampleId⟩
  rw [hcohort.status 0]
  rfl

/-- Of 257 members one is suspended and removed: the ring still holds two keys on its second
page, and its total counts the first page only. -/
theorem counters_agree_fails : ∃ s : State sampleConfig,
    State.Reachable (State.OnCalls fun _ _ _ => True) s ∧
      ¬ CountersAgree (s.store sampleId) := by
  obtain ⟨s, hr, hcohort⟩ := exists_counted_cohort (n := 257) (by decide) (by decide)
  obtain ⟨s', hr', -, hshrunk⟩ := State.exists_shrunk (G := fun _ _ _ => True)
    (hr.mono fun t a _ => by cases a <;> trivial) hcohort (k := (0 : Nat))
    (mem_sampleKeys (by decide) (by decide)) (by rw [length_sampleKeys]; decide)
    (fun _ _ => trivial) (fun _ _ => trivial) (fun _ _ => trivial) (fun _ _ => trivial)
  refine ⟨s', hr', fun hagree => ?_⟩
  have hqueued : (s'.store sampleId).ringQueued 0 = false := by
    unfold Store.ringQueued
    rw [hshrunk.deletions]
    rfl
  obtain ⟨-, -, -, hfull⟩ := hagree.2 0 hqueued
  have hsecond := hshrunk.rest 1 Nat.one_pos
  rw [length_sampleKeys] at hsecond
  have hne : (s'.store sampleId).page 0 1 ≠ [] := by
    intro hnil
    rw [hnil] at hsecond
    cases hsecond
  have hfirst := hfull 0 1 Nat.zero_lt_one hne
  rw [hshrunk.first] at hfirst
  exact absurd hfirst (by decide)

end Individuality.Members
