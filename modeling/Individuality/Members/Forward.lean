import Individuality.Members.InOrder
import Individuality.Members.Merging
import Individuality.Members.Service

/-! Where the members of a collection in order are.

A member waits in the queue until it joins the ring that is the current one then, and stays there: no
call from outside does more to a record (`Forward`), where nobody is suspended and no merge moves a key.
So whether a member is held, in the queue or in a ring from the `n`-th on, changes for none, as
long as the rings before the `n`-th take no more members. -/
namespace Individuality.Members
open Support
variable {T : Config}

/-- The member waits in the queue or is in one of the rings from the `n`-th on. -/
def Store.Held (s : Store T) (n : Nat) (k : T.Member) : Prop :=
  ∃ position, s.members.get k = some position ∧ ∀ r p i, position = .included r p i → n ≤ r

/-- No page of the queue has keys. -/
def Store.NobodyWaits (s : Store T) : Prop := ∀ q ∈ s.onboardingQueue.keys, s.queuePage q = []

-- Over the keys that are stored, not over all indices.
instance (s : Store T) : Decidable s.NobodyWaits := List.decidableBAll _ _

theorem Store.NobodyWaits.queuePage {s : Store T} (h : s.NobodyWaits) (q : QueuePageIndex) : s.queuePage q = [] := by
  cases hq : s.onboardingQueue.get q with
  | none => rw [Store.queuePage, Store.queueAt, hq]; rfl
  | some page => exact h q ((StorageMap.mem_keys _ q).mpr (by rw [hq]; rfl))

/-- Records stay, or go from the queue to the current ring; the collection stays. -/
structure Forward (s s' : Store T) : Prop where
  record : ∀ k, s'.members.get k = s.members.get k ∨ ∃ q t, s.members.get k = some (.onboarding q t) ∧
    ((∃ q', s'.members.get k = some (.onboarding q' t)) ∨
      ∃ p i, s'.members.get k = some (.included s.currentRingIndex p i))
  current_le : s.currentRingIndex ≤ s'.currentRingIndex
  collections_eq : s'.collections = s.collections

namespace Forward
variable {s s' : Store T} {n : Nat}

theorem of_same (hmembers : s'.members = s.members) (hcurrent : s'.currentRingIndex = s.currentRingIndex)
    (hcollections : s'.collections = s.collections) : Forward s s' :=
  ⟨fun k => .inl (by rw [hmembers]), hcurrent.ge, hcollections⟩

/-- Who waits has waited before. -/
theorem waiting (h : Forward s s') {k : T.Member} {q : QueuePageIndex} {t : Nat}
    (hk : s'.members.get k = some (.onboarding q t)) : ∃ q', s.members.get k = some (.onboarding q' t) := by
  rcases h.record k with hsame | ⟨q', t', hold, ⟨q'', hnew⟩ | ⟨p, i, hnew⟩⟩
  · exact ⟨q, hsame ▸ hk⟩
  · rw [hk] at hnew
    cases hnew
    exact ⟨q', hold⟩
  · rw [hk] at hnew
    cases hnew

theorem unsuspended (h : Forward s s') (hs : ∀ k, s.members.get k ≠ some .suspended) (k : T.Member) :
    s'.members.get k ≠ some .suspended := by
  rcases h.record k with hsame | ⟨q, t, -, ⟨q', hnew⟩ | ⟨p, i, hnew⟩⟩
  · rw [hsame]
    exact hs k
  · rw [hnew]
    nofun
  · rw [hnew]
    nofun

theorem held_iff (h : Forward s s') (hn : n ≤ s.currentRingIndex ∨ ∀ k q t, s.members.get k ≠ some (.onboarding q t))
    (k : T.Member) : s'.Held n k ↔ s.Held n k := by
  rcases h.record k with hsame | ⟨q, t, hold, hnew⟩
  · unfold Store.Held
    rw [hsame]
  · -- Who waits is held before; afterwards it waits still, or is in the current ring.
    have hle : n ≤ s.currentRingIndex := hn.resolve_right fun hnone => hnone k q t hold
    refine ⟨fun _ => ⟨_, hold, nofun⟩, fun _ => ?_⟩
    rcases hnew with ⟨q', hnew⟩ | ⟨p, i, hnew⟩
    · exact ⟨_, hnew, nofun⟩
    · refine ⟨_, hnew, fun r p' i' heq => ?_⟩
      cases heq
      exact hle

end Forward

namespace InOrder
variable {env : Env T} {s s' : Store T} {c : Call T}

/-- Where no ring was removed, no page is queued for deletion. -/
theorem not_queued (h : InOrder s 0) (r p : Nat) : (s.ringDeletionQueue.get (r, p)).isSome = false := by
  rw [Bool.eq_false_iff]
  intro hq
  exact absurd (h.queued_lt r (Store.ringQueued_iff.mpr ⟨p, hq⟩)) r.not_lt_zero

theorem packed (h : InOrder s 0) (r : Nat) :
    Paging.Packed T.flexibleRingCapacity (s.ringStatusAt r).total (s.page r) := by
  have hpacked := h.paged.packed r
  rw [Paged.livePage_of_not_queued] at hpacked
  · exact hpacked
  · rw [Bool.eq_false_iff]
    intro hq
    exact absurd (h.queued_lt r hq) r.not_lt_zero

/-- A call from outside keeps records and slots in agreement, or does nothing. -/
theorem conservesKeys (h : InOrder s 0) (hopen : s.isOpen env c = true) (hmoves : MovesNoKey s c)
    (hs : s.exec env c = .ok s') : ConservesKeys s c ∨ s' = s := by
  cases c with
  | onboardMembers =>
    cases exec_effect hs with
    | onboardNone => exact .inr rfl
    | onboard R =>
      refine .inl ⟨fun info hinfo => ⟨?_, h.current_not_queued⟩, trivial⟩
      obtain rfl : R.info = info := Option.some.inj (R.collections_eq.symm.trans hinfo)
      exact h.not_full_of_round R
    | session _ hc => rcases hc with hc | hc <;> cases hc
  | selfInclude =>
    rw [Store.isOpen, h.not_canSelfInclude] at hopen
    cases hopen
  | mergeRings base target =>
    have hzero := h.total_of_empty hmoves
    refine .inl ⟨.inl hmoves, fun p _ => ?_, fun p hq => ?_, fun hq => ?_⟩
    · have hlength := h.packed target p
      rw [hzero, Nat.zero_sub, Nat.min_zero] at hlength
      exact List.length_eq_zero_iff.mp hlength
    · rw [h.not_queued] at hq
      cases hq
    · rw [h.not_queued] at hq
      cases hq
  | removeMembers => cases hopen
  | removeSuspendedKeys r =>
    cases exec_effect hs with
    | removeSuspendedKeys hshould => exact (h.not_shouldRemoveSuspendedKeys _ hshould).elim
    | session _ hc => rcases hc with hc | hc <;> cases hc
  | _ => exact .inl ⟨trivial, trivial⟩

theorem conserved (h : InOrder s 0) (hc : Conserved s) (hopen : s.isOpen env c = true) (hmoves : MovesNoKey s c)
    (hs : s.exec env c = .ok s') : Conserved s' := by
  rcases h.conservesKeys hopen hmoves hs with hG | rfl
  · exact hc.step hG hs
  · exact hc

/-- No call from outside does more to a record. -/
theorem forward (h : InOrder s 0) (hc : Conserved s) (hopen : s.isOpen env c = true) (hmoves : MovesNoKey s c)
    (hs : s.exec env c = .ok s') : Forward s s' := by
  have hsuspended : s.suspendedCollections.isSome = true → False := by
    rw [h.active]
    rintro ⟨⟩
  cases exec_effect hs with
  | createCollection _ _ _ _ => cases hopen
  | addMembers _ _ => cases hopen
  | setOnboardingSize => exact .of_same rfl rfl rfl
  | onboardNone => exact .of_same rfl rfl rfl
  | onboard R =>
    have hroom := h.not_full_of_round R
    refine ⟨fun k => ?_, ?_, ?_⟩
    · by_cases hk : k ∈ R.keys.take R.toInclude
      · obtain ⟨p, i, hnew⟩ := R.members_of_mem hk
        rw [R.a_of_not_full hroom] at hnew
        have hwaits : ∃ q, k ∈ s.queuePage q :=
          ((QueueCoherent.mem_round R k).mp (List.mem_of_mem_take hk)).elim (⟨_, ·⟩) (⟨_, ·⟩)
        obtain ⟨q, hq⟩ := hwaits
        obtain ⟨t, ht⟩ := (hc.queue.mem_iff k q).mp hq
        exact .inr ⟨q, t, ht, .inr ⟨p, i, hnew⟩⟩
      · exact .inl (R.members_of_notMem hk)
    · rw [R.currentRingIndex_of_not_full hroom]
      have hindex := h.index_le
      unfold U32.saturatingInc U32.saturatingAdd
      split <;> omega
    · have hstore := congrArg Store.collections R.store_eq
      rw [R.a_of_not_full hroom] at hstore
      exact hstore
  | selfInclude hs =>
    rw [Store.isOpen, h.not_canSelfInclude] at hopen
    cases hopen
  | mergeQueuePages hs =>
    obtain ⟨-, t, keys, hfold, -, rfl⟩ := Store.mergeFrontQueuePages_spec hs
    obtain ⟨hframe, hold, hmoved⟩ := Store.relocateQueued_fold hfold
    have hcollections := congrArg Store.collections hframe
    refine ⟨fun k => ?_, (congrArg Store.currentRingIndex hframe).ge, hcollections⟩
    by_cases hk : k ∈ s.queuePage s.queuePageIndices.1
    · obtain ⟨u, hu⟩ := (hc.queue.mem_iff k _).mp hk
      exact .inr ⟨_, u, hu, .inl ⟨_, hmoved k hk _ u hu⟩⟩
    · exact .inl (hold k hk)
  | buildRing hbuild =>
    obtain ⟨_, _, _, root, status, -, -, -, -, -, -, -, -, hs'⟩ := Store.buildRing_spec hbuild
    exact .of_same (by rw [hs']) (by rw [hs']) (by rw [hs'])
  | @mergeRings base target _ hmerge =>
    obtain ⟨info, m, -, -, -, -, -, -, -, -, -, hm, hs'⟩ := Store.mergeRings_spec hmerge
    have hempty : s.page target 0 = [] := hmoves
    rw [hempty] at hm
    cases hm
    exact .of_same (by rw [hs']) (by rw [hs']) (by rw [hs'])
  | session _ hc =>
    rcases hc with rfl | rfl
    · cases hopen
    · cases hopen
  | removeMembers _ _ => cases hopen
  | removeSuspendedKeys hshould => exact (h.not_shouldRemoveSuspendedKeys _ hshould).elim
  | removeRingQueued _ => cases hopen
  | removeRing _ _ _ => cases hopen
  | deleteRingPage hq =>
    rw [h.not_queued] at hq
    cases hq
  | deleteCollection _ _ => cases hopen
  | enqueueRingDeletion hc _ => exact (hsuspended hc).elim
  | deleteOnboardingQueuePage hc => exact (hsuspended hc).elim
  | finalizeCollectionDeletion hc _ _ _ => exact (hsuspended hc).elim
  | markRingStale => exact .of_same rfl rfl rfl
  | cleanUpOldRoots _ _ => exact .of_same rfl rfl rfl

/-- One more member waits. -/
theorem addMember (h : InOrder s 0) (hc : Conserved s) {key : T.Member} (hs : s.exec env (.addMembers [key]) = .ok s') :
    InOrder s' 0 ∧ Conserved s' ∧ (s.members.get key = none ∨ s.members.get key = some .suspended) ∧
      s'.currentRingIndex = s.currentRingIndex ∧ s'.collections = s.collections ∧
      ∃ q t, ∀ k, s'.members.get k = if k = key then some (.onboarding q t) else s.members.get k := by
  refine ⟨(h.addMembers hs).1, hc.step (c := .addMembers [key]) ⟨trivial, trivial⟩ hs, ?_⟩
  simp only [Store.exec, Store.addMembers, bind_eq_ok, List.foldlM_cons, List.foldlM_nil, pure_eq_ok] at hs
  obtain ⟨-, -, t, ht, rfl⟩ := hs
  obtain ⟨hfree, hpush⟩ := Store.addMember_spec ht
  obtain ⟨tail, keys, rfl, -⟩ := Store.pushToOnboardingQueue_spec hpush
  exact ⟨hfree, rfl, rfl, _, _, fun k => StorageMap.get_insert _ _ _ _⟩

/-- A collection that is created has the records that were there, that is, none. -/
theorem create (h : InOrder s 0) (hc : Conserved s) {owner : T.Location} {n : Nat} {size : RingExponent}
    (hs : s.exec env (.createCollection owner n .appendOnly size none) = .ok s') :
    InOrder s' 0 ∧ Conserved s' ∧ s'.members = s.members ∧ s'.currentRingIndex = s.currentRingIndex ∧
      s'.collections.isSome = true := by
  refine ⟨(h.createCollection hs).1,
    hc.step (c := .createCollection owner n .appendOnly size none) ⟨trivial, trivial⟩ hs, ?_⟩
  cases exec_effect hs with
  | createCollection _ _ _ _ => exact ⟨rfl, rfl, rfl⟩
  | session _ hc => rcases hc with hc | hc <;> cases hc

/-! ### What is held -/

/-- The keys of a ring are those whose records say so. -/
theorem mem_ringMembers_iff (h : InOrder s 0) (hc : Conserved s) {info : CollectionInfo T}
    (hinfo : s.collections = some info) (r : Nat) (k : T.Member) :
    k ∈ s.ringMembers r ↔ ∃ p i, s.members.get k = some (.included r p i) := by
  have hpending : (s.pendingAt r).length = 0 := by
    rw [Store.pendingAt, h.pending]
    rfl
  obtain ⟨hrecord, -, -⟩ := hc.ring_settled (fun p hq => by rw [h.not_queued] at hq; cases hq) hpending
  rw [Store.mem_ringMembers hinfo (h.packed r) (h.included_le hinfo r).2]
  constructor
  · rintro ⟨p, hp⟩
    obtain ⟨i, hi⟩ := List.getElem?_of_mem hp
    exact ⟨p, i, hrecord k p i hi⟩
  · rintro ⟨p, i, hk⟩
    exact ⟨p, List.mem_of_getElem? (hc.placed.places.slot k r p i hk)⟩

/-- Who is held from the next ring on is held, and is not in this one. -/
theorem held_succ (h : InOrder s 0) (hc : Conserved s) {info : CollectionInfo T} (hinfo : s.collections = some info)
    (n : Nat) (k : T.Member) : s.Held (n + 1) k ↔ s.Held n k ∧ k ∉ s.ringMembers n := by
  rw [h.mem_ringMembers_iff hc hinfo]
  constructor
  · rintro ⟨position, hk, hle⟩
    refine ⟨⟨position, hk, fun r p i heq => (Nat.le_succ n).trans (hle r p i heq)⟩, ?_⟩
    rintro ⟨p, i, hin⟩
    rw [hk] at hin
    exact absurd (hle n p i (Option.some.inj hin)) (Nat.not_succ_le_self n)
  · rintro ⟨⟨position, hk, hle⟩, hnot⟩
    refine ⟨position, hk, fun r p i heq => Nat.lt_of_le_of_ne (hle r p i heq) ?_⟩
    rintro rfl
    exact hnot ⟨p, i, heq ▸ hk⟩

/-- Where a ring that counts nobody is reached and nobody waits, nobody is held any more. -/
theorem not_held (h : InOrder s 0) (hc : Conserved s) {info : CollectionInfo T} (hinfo : s.collections = some info)
    {n : Nat} (hempty : (s.ringStatusAt n).total = 0) (hnobody : s.NobodyWaits)
    (hunsuspended : ∀ k, s.members.get k ≠ some .suspended) (k : T.Member) : ¬ s.Held n k := by
  have hcurrent : s.currentRingIndex ≤ n := by
    by_contra hlt
    have hfull := h.full info hinfo n (Nat.zero_le n) (Nat.lt_of_not_le hlt)
    have := info.ringSize.ringCapacity_pos
    omega
  rintro ⟨position, hk, hle⟩
  cases position with
  | onboarding q t =>
    have hmem := (hc.queue.mem_iff k q).mpr ⟨t, hk⟩
    rw [hnobody.queuePage q] at hmem
    cases hmem
  | suspended => exact hunsuspended k hk
  | included r p i =>
    have hzero : (s.ringStatusAt r).total = 0 := by
      rcases (hle r p i rfl).lt_or_eq with hlt | rfl
      · exact h.ahead r (hcurrent.trans_lt hlt)
      · exact hempty
    have hslot := hc.placed.places.slot k r p i hk
    have hlength := h.packed r p
    rw [hzero, Nat.zero_sub, Nat.min_zero] at hlength
    rw [List.length_eq_zero_iff.mp hlength] at hslot
    cases hslot

end InOrder
end Individuality.Members
