import Individuality.Members.QueueCoherence

/-! When the onboarding queue moves.

Onboarding reads the first two pages of the queue and takes all it can of them;
where that neither fills the ring nor leaves room for another cohort it refuses.
Merging joins the first two pages when one page can hold them. Neither looks at
the pages behind, so a queue that holds enough members moves exactly when its
first two pages do not hold more than a page and yet too few or too many keys for
the ring (`Store.Moves`). A queue that does not move is stuck: only calls at its
tail change it. -/
namespace Individuality.Members
open Support
variable {T : Config}

namespace Store

def openSlots (s : Store T) (info : CollectionInfo T) : Nat :=
  info.ringSize.ringCapacity - (s.ringStatusAt s.currentRingIndex).total

/-- The number of keys on all pages of the queue. -/
def queued (s : Store T) : Nat := s.onboardingQueue.sumOf BoundedVec.length

/-- The number of keys on the first two pages of the queue. -/
def front (s : Store T) : Nat :=
  (s.queuePage s.queuePageIndices.1).length + (s.queuePage (s.queuePageIndices.1 + 1#32)).length

/-- A collection is live or marked for deletion, not both. -/
def Exclusive (s : Store T) : Prop := s.collections = none ∨ s.suspendedCollections = none

theorem Exclusive.step {env : Env T} {s s' : Store T} {c : Call T} (h : Exclusive s)
    (hs : s.exec env c = .ok s') : Exclusive s' := by
  cases exec_infoChange hs with
  | same hcollections hsuspended =>
    unfold Exclusive
    rwa [hcollections, hsuspended]
  | created _ _ hsuspended => exact .inr hsuspended
  | marked _ hcollections _ => exact .inl hcollections
  | finalized _ hsuspended _ => exact .inr hsuspended

/-! ### What the two checks come to -/

section Checks
variable {s : Store T} {info : CollectionInfo T}

/-- The number of members onboarding has at its disposal. -/
def available (s : Store T) (openSlots : Nat) : Nat :=
  if (s.queuePage s.queuePageIndices.1).length < openSlots ∧
      s.queuePageIndices.1 ≠ s.queuePageIndices.2 then
    U32.saturatingAdd (s.queuePage s.queuePageIndices.1).length
      (s.queuePage (s.queuePageIndices.1 + 1#32)).length
  else (s.queuePage s.queuePageIndices.1).length

theorem isSome_shouldOnboardMembers {r openSlots n onboardingSize cap : Nat} {status : RingStatus}
    (hsuspended : s.suspendedCollections = none) (happend : s.ringsState.appendOnly = true)
    (hpending : s.pendingSuspensions.get r = none)
    (htotal : status.total + min n openSlots ≤ U32.max) :
    (s.shouldOnboardMembers r status openSlots n onboardingSize cap).isSome = true ↔
      0 < min n openSlots ∧ (openSlots ≤ n ∨ onboardingSize ≤ min n openSlots ∧
        status.total + min n openSlots ≤ cap - onboardingSize) := by
  have hcontains : s.pendingSuspensions.contains r = false := by
    rw [StorageMap.contains, hpending]
    rfl
  unfold shouldOnboardMembers
  simp only [hsuspended, happend, hcontains, Option.isSome_none, Bool.not_true,
    Bool.false_eq_true, if_false, U32.saturatingAdd_eq htotal]
  by_cases hzero : min n openSlots = 0
  · simp [hzero]
  · have hfilled : openSlots = min n openSlots ↔ openSlots ≤ n := by omega
    simp only [if_neg hzero, hfilled, Nat.pos_of_ne_zero hzero, true_and]
    split <;> simp_all

/-- Onboarding goes through when what it takes fills the ring, or is a cohort and leaves room
for another. -/
theorem canOnboardMembers_iff (hinfo : s.collections = some info)
    (hsuspended : s.suspendedCollections = none) (happend : s.ringsState.appendOnly = true)
    (hpending : s.pendingSuspensions.get s.currentRingIndex = none)
    (hsize : s.onboardingSize ≤ info.ringSize.ringCapacity) :
    s.canOnboardMembers s.currentRingIndex s.queuePageIndices.1 = true ↔
      0 < s.openSlots info ∧ 0 < s.available (s.openSlots info) ∧
        (s.openSlots info ≤ s.available (s.openSlots info) ∨
          s.onboardingSize ≤ s.available (s.openSlots info) ∧
            s.available (s.openSlots info) + s.onboardingSize ≤ s.openSlots info) := by
  have hcap := info.ringSize.ringCapacity_le
  have hmax : U32.max = 4294967295 := rfl
  unfold canOnboardMembers
  simp only [hinfo]
  change (s.shouldOnboardMembers _ _ (s.openSlots info) (s.available (s.openSlots info)) _ _).isSome =
    true ↔ _
  generalize s.available (s.openSlots info) = n
  have hslots : s.openSlots info =
    info.ringSize.ringCapacity - (s.ringStatusAt s.currentRingIndex).total := rfl
  rcases Nat.eq_zero_or_pos (s.openSlots info) with hfull | hroom
  · -- A full ring takes nobody, whatever its total.
    have hnone : s.shouldOnboardMembers s.currentRingIndex (s.ringStatusAt s.currentRingIndex)
        (s.openSlots info) n s.onboardingSize info.ringSize.ringCapacity = none := by
      unfold shouldOnboardMembers
      simp [hfull]
    rw [hnone]
    simp [hfull]
  · rw [isSome_shouldOnboardMembers hsuspended happend hpending (by omega)]
    omega

end Checks

end Store

namespace Store
variable {s : Store T}

/-- A push is refused only when the last page is full and the next one is the head. -/
theorem exists_pushToOnboardingQueue (env : Env T) (key : T.Member)
    (h : (s.queuePage s.queuePageIndices.2).length < T.onboardingQueuePageSize ∨
      s.queuePageIndices.2 + 1#32 ≠ s.queuePageIndices.1) :
    ∃ s', s.pushToOnboardingQueue env key = .ok s' := by
  unfold pushToOnboardingQueue
  split
  · exact ⟨_, rfl⟩
  · rename_i hfull
    have hne := h.resolve_left (Nat.not_lt.mpr (BoundedVec.tryPush_eq_none.mp hfull))
    obtain ⟨keys, hkeys, -⟩ := BoundedVec.exists_tryFrom (n := T.onboardingQueuePageSize)
      (l := [key]) T.onboardingQueuePageSize_pos
    simp only [ensure_pos hne, hkeys, okOr_some, ok_bind]
    exact ⟨_, rfl⟩

theorem queued_enqueueAt (env : Env T) (s : Store T) (tail : QueuePageIndex) (keys : QueuePage T)
    (key : T.Member) : (s.enqueueAt env tail keys key).queued + (s.queuePage tail).length =
      s.queued + keys.toList.length := by
  have hmeasure : s.onboardingQueue.measureAt BoundedVec.length tail =
      (s.queuePage tail).length := by
    unfold StorageMap.measureAt queuePage queueAt
    cases s.onboardingQueue.get tail <;> rfl
  rw [← hmeasure]
  exact s.onboardingQueue.sumOf_insert BoundedVec.length tail keys

/-- The queue after `n` keys were added to an empty one: its pages are full up to the last. -/
structure Lined (s : Store T) (n : Nat) : Prop where
  arc : s.OnArc
  head : s.queuePageIndices.1 = 0
  count : n = s.queuePageIndices.2.toNat * T.onboardingQueuePageSize +
    (s.queuePage s.queuePageIndices.2).length
  full : ∀ q, q < s.queuePageIndices.2 → (s.queuePage q).length = T.onboardingQueuePageSize
  queued : s.queued = n

theorem Lined.push {n : Nat} (h : Lined s n) (hn : n < U32.max) (env : Env T) (key : T.Member) :
    ∃ tail keys, s.pushToOnboardingQueue env key = .ok (s.enqueueAt env tail keys key) ∧
      Lined (s.enqueueAt env tail keys key) (n + 1) := by
  have hpos := T.onboardingQueuePageSize_pos
  have hmax : U32.max = 4294967295 := rfl
  have hcount := h.count
  have hone : (1#32 : BitVec 32).toNat = 1 := rfl
  have hpage : ∀ (tail : QueuePageIndex) (keys : QueuePage T) q,
      (s.enqueueAt env tail keys key).queuePage q =
        if q = tail then keys.toList else s.queuePage q :=
    fun tail keys q => queuePage_setQueuePage s tail q keys
  -- As long as there are fewer keys than page numbers, the queue does not come back to its head.
  have hopen : (s.queuePage s.queuePageIndices.2).length = T.onboardingQueuePageSize →
      (s.queuePageIndices.2 + 1#32).toNat = s.queuePageIndices.2.toNat + 1 := by
    intro hfull
    have hle : s.queuePageIndices.2.toNat ≤
        s.queuePageIndices.2.toNat * T.onboardingQueuePageSize := Nat.le_mul_of_pos_right _ hpos
    rw [BitVec.toNat_add, hone, Nat.mod_eq_of_lt (by omega)]
  obtain ⟨s', hs'⟩ := exists_pushToOnboardingQueue (s := s) env key (by
    rcases Nat.lt_or_ge (s.queuePage s.queuePageIndices.2).length T.onboardingQueuePageSize with
      hroom | hroom
    · exact .inl hroom
    · refine .inr fun heq => ?_
      have := hopen (le_antisymm (s.queuePage_length_le _) hroom)
      rw [heq, h.head] at this
      simp at this)
  have harc := h.arc.pushToOnboardingQueue hs'
  obtain ⟨tail, keys, rfl, htail⟩ := pushToOnboardingQueue_spec hs'
  have hqueued := queued_enqueueAt env s tail keys key
  refine ⟨tail, keys, hs', harc, h.head, ?_, fun q hq => ?_, ?_⟩
  · show n + 1 = tail.toNat * _ + ((s.enqueueAt env tail keys key).queuePage tail).length
    rw [hpage, if_pos rfl]
    rcases htail with ⟨rfl, hkeys⟩ | ⟨rfl, -, hkeys, hfull⟩
    · rw [hkeys, List.length_append, List.length_singleton]
      omega
    · rw [hkeys, hopen hfull, List.length_singleton, Nat.add_mul]
      omega
  · replace hq : q < tail := hq
    have hne : q ≠ tail := fun heq => absurd (heq ▸ hq) (by simp)
    rw [hpage, if_neg hne]
    rcases htail with ⟨rfl, -⟩ | ⟨rfl, -, -, hfull⟩
    · exact h.full q hq
    · rw [BitVec.lt_def, hopen hfull] at hq
      rcases Nat.lt_succ_iff_lt_or_eq.mp hq with hlt | heq
      · exact h.full q (BitVec.lt_def.mpr hlt)
      · rw [BitVec.eq_of_toNat_eq heq, hfull]
  · have h₀ := h.queued
    rcases htail with ⟨rfl, hkeys⟩ | ⟨rfl, hne, hkeys, -⟩
    · rw [hkeys, List.length_append, List.length_singleton] at hqueued
      omega
    · rw [hkeys, h.arc.page_succ_tail hne, List.length_singleton, List.length_nil] at hqueued
      omega

/-- A queue nothing was added to. -/
theorem Lined.nil (hq : s.onboardingQueue = ∅) (hi : s.queuePageIndices = (0, 0)) : Lined s 0 := by
  have hnil : ∀ q, s.queuePage q = [] := fun q => by
    unfold queuePage queueAt
    rw [hq]
    rfl
  refine ⟨fun q hne => absurd (hnil q) hne, by rw [hi], ?_, fun q hlt => ?_, ?_⟩
  · rw [hnil, hi]
    simp
  · rw [hi] at hlt
    exact absurd hlt BitVec.not_lt_zero
  · unfold Store.queued
    rw [hq]
    rfl

/-- Fresh keys line up. -/
theorem Lined.addMembers (env : Env T) {keys : List T.Member} (h : Lined s 0)
    (hc : s.collections.isSome = true) (hnodup : keys.Nodup)
    (hfresh : ∀ k ∈ keys, s.members.get k = none)
    (hvalid : ∀ k ∈ keys, T.crypto.isMemberValid k = true) (hlen : keys.length < U32.max) :
    ∃ s', s.addMembers env keys = .ok s' ∧ Lined s' keys.length ∧
      s' = { s with
        members := s'.members
        onboardingQueue := s'.onboardingQueue
        queuePageIndices := s'.queuePageIndices } := by
  obtain ⟨info, hinfo⟩ := Option.isSome_iff_exists.mp hc
  obtain ⟨s', hs', hlined, hframe, -⟩ := exists_foldlM_ok (f := addMember env) (l := keys) (s := s)
    (fun done t => Lined t done.length ∧ t = { s with
        members := t.members
        onboardingQueue := t.onboardingQueue
        queuePageIndices := t.queuePageIndices } ∧
      ∀ k, k ∉ done → t.members.get k = s.members.get k)
    ⟨h, rfl, fun _ _ => rfl⟩
    (by
      intro done key t hpre ⟨ht, hframe, hmem⟩
      have hcat := List.IsPrefix.sublist hpre
      have hnd := (List.nodup_append.mp (hnodup.sublist hcat)).2.2
      have hkey : key ∉ done := fun hin => hnd key hin key (by simp) rfl
      have hin : key ∈ keys := hcat.subset (by simp)
      have hle := hcat.length_le
      rw [List.length_append, List.length_singleton] at hle
      obtain ⟨tail, page, hpush, hlined⟩ := ht.push (by omega) env key
      refine ⟨t.enqueueAt env tail page key, ?_, ?_, ?_, fun k hk => ?_⟩
      · unfold addMember
        rw [hmem key hkey, hfresh key hin, ensure_pos (hvalid key hin)]
        exact hpush
      · rw [List.length_append, List.length_singleton]
        exact hlined
      · unfold enqueueAt
        conv_lhs => rw [hframe]
      · have hne : k ≠ key := fun he => hk (by simp [he])
        show (t.members.insert key _).get k = _
        rw [StorageMap.get_insert, if_neg hne]
        exact hmem k fun hd => hk (by simp [hd]))
  refine ⟨s', ?_, hlined, hframe⟩
  unfold Store.addMembers
  rw [hinfo]
  exact hs'

end Store

end Individuality.Members
