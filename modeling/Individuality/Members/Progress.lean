import Individuality.Members.Ideal
import Individuality.Members.RemovalEffects

/-! When joining is accepted.

`Effects` reads off what an accepted call did; here is the other direction for
the calls through which members join, so that states with full rings can be
reached without running them: fresh keys fit the queue's last page, and a round
of onboarding takes a queue of one page whole. -/
namespace Individuality.Members
open Support
variable {T : Config}

namespace Store

/-! ### Queueing -/

/-- A fresh key joins the last page of the queue while that has room. -/
theorem addMember_of_fresh (env : Env T) (s : Store T) (key : T.Member)
    (hfresh : s.members.get key = none) (hvalid : T.crypto.isMemberValid key = true)
    (hroom : (s.queuePage s.queuePageIndices.2).length < T.onboardingQueuePageSize) :
    ∃ keys : QueuePage T, keys.toList = s.queuePage s.queuePageIndices.2 ++ [key] ∧
      addMember env s key = .ok (s.enqueueAt env s.queuePageIndices.2 keys key) := by
  have hlen : (s.queuePage s.queuePageIndices.2 ++ [key]).length ≤ T.onboardingQueuePageSize := by
    rw [List.length_append, List.length_singleton]
    exact hroom
  obtain ⟨keys, hpush, hkeys⟩ := BoundedVec.exists_tryFrom hlen
  refine ⟨keys, hkeys, ?_⟩
  have htry : (s.queueAt s.queuePageIndices.2).tryPush key = some keys := hpush
  unfold addMember pushToOnboardingQueue
  rw [hfresh, htry, ensure_pos hvalid]
  rfl

/-- The onboarding queue has a slot on its last page, or a page behind it. -/
def queueHasRoom (s : Store T) : Prop :=
  (s.queuePage s.queuePageIndices.2).length < T.onboardingQueuePageSize ∨
    s.queuePageIndices.2 + 1#32 ≠ s.queuePageIndices.1

instance (s : Store T) : Decidable s.queueHasRoom := inferInstanceAs (Decidable (_ ∨ _))

/-- A fresh key joins the queue while that has room. -/
theorem exists_addMembers (env : Env T) {s : Store T} {key : T.Member} (hc : s.collections.isSome = true)
    (hroom : s.queueHasRoom) (hvalid : T.crypto.isMemberValid key = true) (hfresh : s.members.get key = none) :
    ∃ s', s.addMembers env [key] = .ok s' := by
  obtain ⟨info, hinfo⟩ := Option.isSome_iff_exists.mp hc
  obtain ⟨s', hadded⟩ : ∃ s', addMember env s key = .ok s' := by
    by_cases hslot : (s.queuePage s.queuePageIndices.2).length < T.onboardingQueuePageSize
    · obtain ⟨keys, -, hadded⟩ := addMember_of_fresh env s key hfresh hvalid hslot
      exact ⟨_, hadded⟩
    · have hfull : (s.queueAt s.queuePageIndices.2).tryPush key = none :=
        BoundedVec.tryPush_eq_none.mpr (Nat.not_lt.mp hslot)
      obtain ⟨keys, hpage, -⟩ := BoundedVec.exists_tryFrom (l := [key]) T.onboardingQueuePageSize_pos
      refine ⟨s.enqueueAt env (s.queuePageIndices.2 + 1#32) keys key, ?_⟩
      unfold addMember pushToOnboardingQueue
      rw [hfresh, hfull, ensure_pos hvalid]
      simp only [ok_bind, ensure_pos (hroom.resolve_left hslot), hpage, okOr_some]
  refine ⟨s', ?_⟩
  simp only [addMembers, bind_eq_ok, okOr_eq_ok]
  refine ⟨info, hinfo, ?_⟩
  rw [List.foldlM_cons, hadded]
  rfl

/-- Fresh keys join the last page together when they all fit. -/
theorem addMembers_of_fresh (env : Env T) {s : Store T} {keys : List T.Member}
    (hc : s.collections.isSome = true) (hnodup : keys.Nodup)
    (hfresh : ∀ k ∈ keys, s.members.get k = none)
    (hvalid : ∀ k ∈ keys, T.crypto.isMemberValid k = true)
    (hroom : (s.queuePage s.queuePageIndices.2).length + keys.length ≤ T.onboardingQueuePageSize) :
    ∃ s', s.addMembers env keys = .ok s' ∧
      s' = { s with members := s'.members, onboardingQueue := s'.onboardingQueue } ∧
      (∀ q, s'.queuePage q = if q = s.queuePageIndices.2 then
        s.queuePage s.queuePageIndices.2 ++ keys else s.queuePage q) ∧
      ∀ k, s'.members.get k = if k ∈ keys then some (.onboarding s.queuePageIndices.2 env.now)
        else s.members.get k := by
  obtain ⟨info, hinfo⟩ := Option.isSome_iff_exists.mp hc
  obtain ⟨s', hs', hfinal⟩ := exists_foldlM_ok (f := addMember env) (l := keys) (s := s)
    (fun done t => t = { s with members := t.members, onboardingQueue := t.onboardingQueue } ∧
      (∀ q, t.queuePage q = if q = s.queuePageIndices.2 then
        s.queuePage s.queuePageIndices.2 ++ done else s.queuePage q) ∧
      ∀ k, t.members.get k = if k ∈ done then some (.onboarding s.queuePageIndices.2 env.now)
        else s.members.get k)
    ⟨rfl, fun q => by split <;> simp_all, fun k => by simp⟩
    (by
      rintro done key t hpre ⟨hframe, hpage, hmem⟩
      have hcat := List.IsPrefix.sublist hpre
      have hnd := (List.nodup_append.mp (hnodup.sublist hcat)).2.2
      have hkey : key ∉ done := fun hin => hnd key hin key (by simp) rfl
      have hin : key ∈ keys := hcat.subset (by simp)
      have hind : t.queuePageIndices = s.queuePageIndices := by rw [hframe]
      have hlen := hcat.length_le
      rw [List.length_append, List.length_singleton] at hlen
      obtain ⟨page, hlist, hadd⟩ := addMember_of_fresh env t key
        (by rw [hmem, if_neg hkey]; exact hfresh key hin) (hvalid key hin)
        (by rw [hind, hpage, if_pos rfl, List.length_append]; omega)
      refine ⟨_, hadd, ?_, fun q => ?_, fun k => ?_⟩
      · exact congrArg (fun u : Store T => { u with
          members := t.members.insert key (.onboarding t.queuePageIndices.2 env.now)
          onboardingQueue := t.onboardingQueue.insert t.queuePageIndices.2 page }) hframe
      · rw [hind] at hlist ⊢
        rw [hpage, if_pos rfl] at hlist
        have hset := queuePage_setQueuePage t s.queuePageIndices.2 q page
        have : (t.enqueueAt env s.queuePageIndices.2 page key).queuePage q =
            (t.setQueuePage s.queuePageIndices.2 page).queuePage q := rfl
        rw [this, hset, hlist, hpage]
        by_cases hq : q = s.queuePageIndices.2 <;> simp [hq]
      · rw [hind]
        simp only [enqueueAt, StorageMap.get_insert, hmem, List.mem_append, List.mem_singleton]
        by_cases hk : k = key <;> simp [hk])
  refine ⟨s', ?_, hfinal⟩
  unfold addMembers
  rw [hinfo]
  exact hs'

/-! ### Onboarding -/

theorem exists_includeKey (r : Nat) (f : Filling T) (key : T.Member)
    (hrecord : (f.store.members.get key).isSome = true)
    (hroom : f.keys.length < T.flexibleRingCapacity) : ∃ f', includeKey r f key = .ok f' := by
  have hlen : (f.keys.toList ++ [key]).length ≤ T.flexibleRingCapacity := by
    rw [List.length_append, List.length_singleton]
    exact hroom
  obtain ⟨keys, hpush, -⟩ := BoundedVec.exists_tryFrom hlen
  have htry : f.keys.tryPush key = some keys := hpush
  have hcontains : f.store.members.contains key = true := hrecord
  unfold includeKey
  rw [ensure_pos hcontains, htry]
  simp only [okOr_some, ok_bind]
  split <;> exact ⟨_, rfl⟩

/-- The loop of onboarding goes through when each key has a record and each page it comes to
has room. -/
theorem exists_includeKeys {P : List T.Member → Paging.Cursor T.Member → Prop} (r : Nat)
    (f : Filling T) (keys : List T.Member)
    (hrecords : ∀ k ∈ keys, (f.store.members.get k).isSome = true)
    (hp : f.pageIndex + keys.length ≤ U32.max) (h₀ : P [] (f.cursor r))
    (push : ∀ done key c, P done c → (c.pages c.at_).length < T.flexibleRingCapacity →
      P (done ++ [key]) (c.push T.flexibleRingCapacity key))
    (room : ∀ done c, done.length < keys.length → P done c →
      (c.pages c.at_).length < T.flexibleRingCapacity) :
    ∃ f', keys.foldlM (includeKey r) f = .ok f' := by
  obtain ⟨f', hf', -⟩ := exists_foldlM_ok (f := includeKey r) (l := keys) (s := f)
    (fun done t => P done (t.cursor r) ∧ t.pageIndex ≤ f.pageIndex + done.length ∧
      ∀ k ∈ keys, (t.store.members.get k).isSome = true)
    ⟨h₀, le_rfl, hrecords⟩
    (by
      intro done key t hpre ⟨hP, hat, hsome⟩
      have hlen := hpre.length_le
      rw [List.length_append, List.length_singleton] at hlen
      have hkeys : (t.cursor r).pages (t.cursor r).at_ = t.keys.toList :=
        Function.update_self _ _ _
      have hroom := room done _ hlen hP
      obtain ⟨t', ht'⟩ := exists_includeKey r t key
        (hsome key (hpre.sublist.subset (by simp))) (by rw [hkeys] at hroom; exact hroom)
      have hcursor := includeKey_cursor ht' (by omega)
      have hnext := Paging.Cursor.at_push_le T.flexibleRingCapacity (t.cursor r) key
      rw [← hcursor] at hnext
      obtain ⟨-, -, -, hmem, -⟩ := includeKey_spec ht'
      refine ⟨t', ht', hcursor ▸ push done key _ hP hroom, ?_, fun k hk => ?_⟩
      · rw [List.length_append, List.length_singleton]
        exact hnext.trans (Nat.succ_le_succ hat)
      · rw [hmem, StorageMap.get_insert]
        split
        · rfl
        · exact hsome k hk)
  exact ⟨f', hf'⟩

/-- The members of one page of the queue, and no others, wait to be onboarded. -/
structure Waiting (s : Store T) (info : CollectionInfo T) (keys : List T.Member) : Prop where
  collections : s.collections = some info
  active : s.suspendedCollections = none
  appendOnly : s.ringsState.appendOnly = true
  onePage : s.queuePageIndices.1 = s.queuePageIndices.2
  queue : s.queuePage s.queuePageIndices.1 = keys
  records : ∀ k ∈ keys, (s.members.get k).isSome = true

/-- Fresh keys wait once they are added to an empty queue. -/
theorem Waiting.addMembers {s : Store T} {info : CollectionInfo T} (h : Waiting s info [])
    (env : Env T) (keys : List T.Member) (hnodup : keys.Nodup)
    (hfresh : ∀ k ∈ keys, s.members.get k = none)
    (hvalid : ∀ k ∈ keys, T.crypto.isMemberValid k = true)
    (hroom : keys.length ≤ T.onboardingQueuePageSize) :
    ∃ s', s.addMembers env keys = .ok s' ∧ Waiting s' info keys ∧
      s' = { s with members := s'.members, onboardingQueue := s'.onboardingQueue } ∧
      ∀ k, s'.members.get k = if k ∈ keys then some (.onboarding s.queuePageIndices.2 env.now)
        else s.members.get k := by
  have hqueue := h.queue
  rw [h.onePage] at hqueue
  obtain ⟨s', hs', hframe, hpage, hmem⟩ := addMembers_of_fresh env (s := s)
    (by rw [h.collections]; rfl) hnodup hfresh hvalid (by rw [hqueue]; simpa using hroom)
  have hind : s'.queuePageIndices = s.queuePageIndices := by rw [hframe]
  refine ⟨s', hs', ⟨?_, ?_, ?_, ?_, ?_, fun k hk => ?_⟩, hframe, hmem⟩
  · rw [hframe]
    exact h.collections
  · rw [hframe]
    exact h.active
  · rw [hframe]
    exact h.appendOnly
  · rw [hind]
    exact h.onePage
  · rw [hind, hpage, if_pos h.onePage, hqueue, List.nil_append]
  · rw [hmem, if_pos hk]
    rfl

/-- A queue of one page is onboarded whole when it fits the ring that takes it, and fills it or
leaves room for another cohort. -/
theorem Waiting.exists_round {s : Store T} {info : CollectionInfo T} {a : AvailableRing T}
    {keys : List T.Member} {f : Filling T} (h : Waiting s info keys)
    (mustBuild : Bool) (openSlots : Nat) (ha : s.availableRing info.ringSize.ringCapacity = a)
    (hpending : s.pendingSuspensions.get a.ringIndex = none) (hpos : keys ≠ [])
    (hopen : info.ringSize.ringCapacity - (a.keys.length + a.pageIndex * T.flexibleRingCapacity) =
      openSlots)
    (hfit : keys.length ≤ openSlots)
    (hcohort : openSlots = keys.length ∨ (s.onboardingSize ≤ keys.length ∧
      U32.saturatingAdd a.status.total keys.length ≤
        info.ringSize.ringCapacity - s.onboardingSize))
    (hloop : keys.foldlM (includeKey a.ringIndex) ⟨a.store, a.pageIndex, a.keys⟩ = .ok f) :
    ∃ s', ∃ R : Round s s', s.onboardMembers mustBuild = .ok (s', true) ∧ R.info = info ∧
      R.a = a ∧ R.keys = keys ∧ R.toInclude = keys.length ∧
      R.filled = decide (openSlots = keys.length) := by
  have hstore := availableRing_store s info.ringSize.ringCapacity
  rw [ha] at hstore
  have hlen : keys.length ≤ U32.max := by
    rw [← h.queue]
    exact (s.queuePage_length_le _).trans T.onboardingQueuePageSize_le
  have hne : keys.length ≠ 0 := fun h => hpos (List.length_eq_zero_iff.mp h)
  have hcandidates : s.candidates openSlots = (s.queuePageIndices.1, keys) := by
    unfold candidates
    simp only [h.queue]
    rw [if_neg fun hc => hc.2 h.onePage]
  have hshould : s.shouldOnboardMembers a.ringIndex a.status openSlots
      (U32.saturatedFrom keys.length) s.onboardingSize info.ringSize.ringCapacity =
        some (keys.length, decide (openSlots = keys.length)) := by
    unfold shouldOnboardMembers
    rw [U32.saturatedFrom_eq hlen, Nat.min_eq_left hfit]
    simp only [h.active, h.appendOnly, StorageMap.contains, hpending, Option.isSome_none,
      Bool.false_eq_true, Bool.not_true, if_false, if_neg hne]
    rw [if_pos hcohort]
  have hcommit : ∃ s', ((f.close a.ringIndex).recordOnboarded a.ringIndex a.status keys.length
      (decide (openSlots = keys.length))).requeue s.queuePageIndices.1 s.queuePageIndices.1
        s.queuePageIndices.2 (keys.drop keys.length) = .ok s' := by
    unfold requeue
    rw [List.drop_length, if_neg (by simp), if_neg (by simp)]
    exact ⟨_, rfl⟩
  obtain ⟨s', hs'⟩ := hcommit
  refine ⟨s', ⟨info, a, s.queuePageIndices.1, keys, keys.length, decide (openSlots = keys.length),
    f, h.collections, ha, by rw [hopen, hcandidates], by rw [hopen, hshould],
    by rw [List.take_length, hloop], hs'⟩, ?_, rfl, rfl, rfl, rfl, rfl⟩
  have hqueue : a.store.queuePageIndices = s.queuePageIndices := by rw [hstore]
  have hcandidates' : a.store.candidates openSlots = s.candidates openSlots := by
    rw [hstore]
    rfl
  have hshould' : ∀ r status o n m c, a.store.shouldOnboardMembers r status o n m c =
      s.shouldOnboardMembers r status o n m c := fun _ _ _ _ _ _ => by
    rw [hstore]
    rfl
  unfold onboardMembers
  simp only [h.collections, okOr_some, ok_bind, ha, hopen, hcandidates', hcandidates, hshould',
    hshould]
  unfold onboard
  rw [List.take_length, hloop]
  simp only [ok_bind, hqueue, hs']

/-- A round that took the whole queue leaves it empty. -/
theorem Round.waiting {s s' : Store T} (R : Round s s') {info : CollectionInfo T}
    {keys : List T.Member} (h : Waiting s info keys) (hkeys : R.keys = keys)
    (hall : R.toInclude = keys.length) : Waiting s' info [] := by
  have hdrop : R.keys.drop R.toInclude = [] := by rw [hkeys, hall, List.drop_length]
  have hhead : R.head = s.queuePageIndices.1 := by
    rcases R.keys_cases with ⟨hhead, -⟩ | ⟨-, hne, -⟩
    · exact hhead
    · exact absurd h.onePage hne
  have hind : s'.queuePageIndices = s.queuePageIndices := by
    rw [R.queuePageIndices_eq, hhead, if_neg fun hc => hc.2 h.onePage]
  have hstore := R.store_eq
  refine ⟨?_, ?_, ?_, ?_, ?_, fun k hk => by cases hk⟩
  · rw [hstore]
    exact h.collections
  · rw [hstore]
    exact h.active
  · rw [hstore]
    exact h.appendOnly
  · rw [hind]
    exact h.onePage
  · rw [hind, R.queuePage_eq, hhead, if_pos rfl, hdrop]

/-- A ring whose keys are packed is full when its total says so. -/
theorem currentRingFull_iff_of_packed {s : Store T} {cap : Nat}
    (hpacked : Paging.Packed T.flexibleRingCapacity (s.ringStatusAt s.currentRingIndex).total
      (s.page s.currentRingIndex)) :
    s.currentRingFull cap ↔ cap ≤ (s.ringStatusAt s.currentRingIndex).total := by
  have hpacks := Paging.Cursor.packs_of_packed hpacked T.flexibleRingCapacity_pos
  rw [hpacks.total_eq]
  exact Iff.rfl

/-- The same for a current ring whose keys are packed. -/
theorem Waiting.exists_round_of_packed {s : Store T} {info : CollectionInfo T}
    {keys : List T.Member} (h : Waiting s info keys) (mustBuild : Bool)
    (hpacked : Paging.Packed T.flexibleRingCapacity (s.ringStatusAt s.currentRingIndex).total
      (s.page s.currentRingIndex))
    (hpending : s.pendingSuspensions.get s.currentRingIndex = none) (hpos : keys ≠ [])
    (hfit : (s.ringStatusAt s.currentRingIndex).total + keys.length ≤
      info.ringSize.ringCapacity)
    (hcohort : (s.ringStatusAt s.currentRingIndex).total + keys.length =
        info.ringSize.ringCapacity ∨
      (s.onboardingSize ≤ keys.length ∧ (s.ringStatusAt s.currentRingIndex).total + keys.length ≤
        info.ringSize.ringCapacity - s.onboardingSize)) :
    ∃ s', ∃ R : Round s s', s.onboardMembers mustBuild = .ok (s', true) ∧ R.info = info ∧
      R.keys = keys ∧ R.toInclude = keys.length ∧
      ¬ s.currentRingFull R.info.ringSize.ringCapacity ∧
      (R.filled = true ↔ (s.ringStatusAt s.currentRingIndex).total + keys.length =
        info.ringSize.ringCapacity) := by
  have hlen : keys.length ≠ 0 := fun h => hpos (List.length_eq_zero_iff.mp h)
  have hcap := info.ringSize.ringCapacity_le
  have hroom : ¬ s.currentRingFull info.ringSize.ringCapacity := by
    rw [currentRingFull_iff_of_packed hpacked]
    omega
  have hpacks := Paging.Cursor.packs_of_packed hpacked T.flexibleRingCapacity_pos
  have htotal := hpacks.total_eq
  generalize hp : (s.ringStatusAt s.currentRingIndex).total / T.flexibleRingCapacity = p at *
  have hpos' : p ≤ p * T.flexibleRingCapacity := Nat.le_mul_of_pos_right _ T.flexibleRingCapacity_pos
  have hopen : info.ringSize.ringCapacity - ((s.ringKeysAt s.currentRingIndex p).length +
      p * T.flexibleRingCapacity) =
        info.ringSize.ringCapacity - (s.ringStatusAt s.currentRingIndex).total := by
    rw [htotal, Nat.add_comm]
    rfl
  have hsat : U32.saturatingAdd (s.ringStatusAt s.currentRingIndex).total keys.length =
      (s.ringStatusAt s.currentRingIndex).total + keys.length :=
    U32.saturatingAdd_eq (by simp only [U32.max]; omega)
  obtain ⟨f, hloop⟩ := exists_includeKeys s.currentRingIndex
    ⟨s, p, s.ringKeysAt s.currentRingIndex p⟩ keys
    (P := fun done c => c.Packs T.flexibleRingCapacity
      ((s.ringStatusAt s.currentRingIndex).total + done.length))
    h.records (by simp only [U32.max]; omega)
    (by
      rw [Filling.cursor_stored]
      exact hpacks)
    (fun done key c hc _ => by
      rw [List.length_append, List.length_singleton, ← Nat.add_assoc]
      exact hc.push T.flexibleRingCapacity_pos)
    (fun _ _ _ hc => hc.lt_size)
  have havail := availableRing_of_not_full hroom
  rw [hp] at havail
  obtain ⟨s', R, hs', hinfo, -, hkeys, hall, hfilled⟩ := h.exists_round mustBuild _ havail hpending hpos
    hopen (by omega) (by rw [hsat]; omega) hloop
  refine ⟨s', R, hs', hinfo, hkeys, hall, by rw [hinfo]; exact hroom, ?_⟩
  rw [hfilled, decide_eq_true_eq]
  omega

/-! ### A first cohort -/

/-- What a collection holds whose first members were onboarded together. -/
structure FirstCohort (s : Store T) (info : CollectionInfo T) (keys : List T.Member) : Prop where
  waiting : Waiting s info []
  packed : Paging.Packed T.flexibleRingCapacity keys.length (s.page 0)
  keysInOrder : s.keysInOrder 0 = keys
  page_of_ne : ∀ r, r ≠ 0 → ∀ p, s.page r p = []
  status : ∀ r, s.ringStatusAt r = if r = 0 then ⟨keys.length, 0, none⟩ else default
  stored : ∀ k ∈ keys, ∃ p i, s.members.get k = some (.included 0 p i) ∧
    (s.page 0 p)[i]? = some k
  fresh : ∀ k, k ∉ keys → s.members.get k = none
  root : s.root = ∅
  pending : s.pendingSuspensions = ∅
  deletions : s.ringDeletionQueue = ∅
  onboardingSize : s.onboardingSize = 1
  activeMembers : s.activeMembers = keys.length
  currentRing : s.currentRingIndex = if keys.length = info.ringSize.ringCapacity then 1 else 0

/-- Records and slots of a first cohort agree. -/
theorem FirstCohort.record_iff {s : Store T} {info : CollectionInfo T} {keys : List T.Member}
    (h : FirstCohort s info keys) (hnodup : keys.Nodup) (k : T.Member) (r p i : Nat) :
    s.members.get k = some (.included r p i) ↔ (s.page r p)[i]? = some k := by
  constructor
  · intro hrecord
    by_cases hk : k ∈ keys
    · obtain ⟨p', i', hrecord', hslot⟩ := h.stored k hk
      rw [hrecord] at hrecord'
      cases hrecord'
      exact hslot
    · rw [h.fresh k hk] at hrecord
      cases hrecord
  · intro hslot
    have hr : r = 0 := by
      by_contra hne
      rw [h.page_of_ne r hne] at hslot
      cases hslot
    subst hr
    have hk : k ∈ keys := by
      rw [← h.keysInOrder]
      exact mem_keysInOrder.mpr ⟨p, List.mem_of_getElem? hslot⟩
    obtain ⟨p', i', hrecord, hslot'⟩ := h.stored k hk
    have hconcat := keysInOrder_eq_concat (s := s) (r := 0)
      (le_max_left (s.pageBound 0) (max p p' + 1))
    rw [h.keysInOrder] at hconcat
    obtain ⟨rfl, rfl⟩ := Paging.eq_of_nodup_concat (hconcat ▸ hnodup)
      (lt_of_lt_of_le (Nat.lt_succ_of_le (le_max_left p p')) (le_max_right _ _))
      (lt_of_lt_of_le (Nat.lt_succ_of_le (le_max_right p p')) (le_max_right _ _)) hslot hslot'
    exact hrecord

/-- A new append-only collection takes as many fresh keys as a ring and a queue page hold. -/
theorem exists_first_cohort (env : Env T) (owner : T.Location) (size : RingExponent)
    {keys : List T.Member} (hpos : keys ≠ []) (hnodup : keys.Nodup)
    (hvalid : ∀ k ∈ keys, T.crypto.isMemberValid k = true)
    (hcap : keys.length ≤ size.ringCapacity) (hpage : keys.length ≤ T.onboardingQueuePageSize) :
    ∃ s₁ s₂ s₃, (empty T).exec env (.createCollection owner 1 .appendOnly size none) = .ok s₁ ∧
      s₁.exec env (.addMembers keys) = .ok s₂ ∧ s₂.exec env (.onboardMembers false) = .ok s₃ ∧
      (∀ info, s₂.collections = some info → ¬ s₂.currentRingFull info.ringSize.ringCapacity) ∧
      s₂.ringDeletionQueue = ∅ ∧ s₂.activeMembers = 0 ∧
      FirstCohort s₃ ⟨.external owner, .appendOnly, size, none⟩ keys := by
  have hlen : keys.length ≠ 0 := fun h => hpos (List.length_eq_zero_iff.mp h)
  have hsize : 1 ≤ size.ringCapacity := size.ringCapacity_pos
  have hcreate : (empty T).exec env (.createCollection owner 1 .appendOnly size none) =
      .ok { empty T with
        collections := some ⟨.external owner, .appendOnly, size, none⟩, onboardingSize := 1 } := by
    simp only [exec, createCollection]
    rw [ensure_pos ⟨rfl, rfl⟩, ensure_pos (fun h => by cases h), ensure_pos hsize]
    rfl
  obtain ⟨s₂, hs₂, hwaiting, hframe, hmem⟩ := Waiting.addMembers (s := { empty T with
      collections := some ⟨.external owner, .appendOnly, size, none⟩, onboardingSize := 1 })
    ⟨rfl, rfl, rfl, rfl, rfl, fun k hk => by cases hk⟩ env keys hnodup (fun _ _ => rfl) hvalid hpage
  have hcur : s₂.currentRingIndex = 0 := by rw [hframe]; rfl
  have hstatus : ∀ r, s₂.ringStatusAt r = default := by
    intro r
    unfold ringStatusAt
    rw [hframe]
    rfl
  have hpages : ∀ r p, s₂.page r p = [] := by
    intro r p
    unfold page ringKeysAt
    rw [hframe]
    rfl
  have hpacked : Paging.Packed T.flexibleRingCapacity (s₂.ringStatusAt s₂.currentRingIndex).total
      (s₂.page s₂.currentRingIndex) := by
    rw [hstatus]
    exact Paging.packed_zero (hpages _)
  have hpending : s₂.pendingSuspensions.get s₂.currentRingIndex = none := by
    rw [hframe]
    rfl
  obtain ⟨s₃, R, hs₃, -, hkeys, hall, hroom, hfilled⟩ := hwaiting.exists_round_of_packed false
    hpacked hpending hpos (by rw [hstatus]; simpa using hcap)
    (by
      have honboarding : s₂.onboardingSize = 1 := by rw [hframe]
      rw [hstatus, honboarding]
      simp only [RingStatus.default_total]
      omega)
  have hinfo : R.info = ⟨.external owner, .appendOnly, size, none⟩ := by
    have := R.collections_eq
    rw [hwaiting.collections] at this
    exact (Option.some.inj this).symm
  have htake : R.keys.take R.toInclude = keys := by rw [hkeys, hall, List.take_length]
  obtain ⟨c, ⟨hc, hconcat⟩, hpage'⟩ := R.pages_of_not_full hroom
    (P := fun done c => c.Packs T.flexibleRingCapacity
      ((s₂.ringStatusAt s₂.currentRingIndex).total + done.length) ∧
        ∀ n, c.at_ < n → Paging.concat c.pages n = done)
    ⟨Paging.Cursor.packs_of_packed hpacked T.flexibleRingCapacity_pos, fun n _ =>
      (Paging.concat_of_empty (Nat.zero_le n) fun p _ => hpages _ p)⟩
    (fun done key c hpacked _ => by
      obtain ⟨hc, hconcat⟩ := hpacked
      refine ⟨?_, fun n hn => ?_⟩
      · rw [List.length_append, List.length_singleton, ← Nat.add_assoc]
        exact hc.push T.flexibleRingCapacity_pos
      · have hlt : c.at_ < n := lt_of_le_of_lt (Paging.Cursor.le_at_push _ c key) hn
        rw [hc.concat_push hlt, hconcat n hlt])
  rw [htake] at hconcat
  rw [htake, hstatus] at hc
  simp only [RingStatus.default_total, Nat.zero_add] at hc
  obtain ⟨hroot, hpendings, hdeletions, honboarding⟩ := R.frame
  have hfirst : s₃.page 0 = c.pages := by
    funext p
    rw [hpage', hcur, if_pos rfl]
  have hcap' : keys.length ≤ U32.max := by
    have := size.ringCapacity_le
    simp only [U32.max]
    omega
  refine ⟨_, s₂, s₃, hcreate, hs₂, by simp [exec, Except.map, hs₃], fun info h => ?_,
    congrArg Store.ringDeletionQueue hframe, congrArg Store.activeMembers hframe,
    R.waiting hwaiting hkeys hall, ?_, ?_, fun r hr p => ?_, fun r => ?_, fun k hk => ?_,
    fun k hk => ?_, ?_, ?_, ?_, ?_, ?_, ?_⟩
  · rw [R.collections_eq] at h
    cases h
    exact hroom
  · rw [hfirst]
    exact hc.packed
  · rw [Store.keysInOrder_eq_concat (le_max_left _ (c.at_ + 1)), hfirst]
    exact hconcat _ (lt_of_lt_of_le (Nat.lt_succ_self _) (le_max_right _ _))
  · rw [hpage', hcur, if_neg hr, hpages]
  · rw [R.ringStatusAt_of_not_full hroom, hcur, hstatus, hall]
    split
    · simp only [RingStatus.default_total, U32.saturatingAdd_eq (Nat.le_trans (Nat.zero_add _).le hcap'),
        Nat.zero_add]
      rfl
    · rfl
  · have := R.stored_of_not_full hroom (k := k) (by rw [htake]; exact hk)
    rwa [hcur] at this
  · rw [R.members_of_notMem (by rw [htake]; exact hk), hmem, if_neg hk]
    rfl
  · exact hroot.trans (congrArg Store.root hframe)
  · exact hpendings.trans (congrArg Store.pendingSuspensions hframe)
  · exact hdeletions.trans (congrArg Store.ringDeletionQueue hframe)
  · exact honboarding.trans (congrArg Store.onboardingSize hframe)
  · have hactive := congrArg Store.activeMembers hframe
    rw [R.activeMembers_eq, hall, hactive]
    exact (U32.saturatingAdd_eq (Nat.le_trans (Nat.zero_add _).le hcap')).trans (Nat.zero_add _)
  · rw [hstatus] at hfilled
    simp only [RingStatus.default_total, Nat.zero_add] at hfilled
    rw [R.currentRingIndex_of_not_full hroom, hcur]
    by_cases hf : R.filled = true
    · rw [if_pos hf, if_pos (hfilled.mp hf)]
      rfl
    · rw [if_neg hf, if_neg fun h => hf (hfilled.mpr h)]

/-! ### Suspending one member -/

/-- Suspending one included member in a session of its own is accepted; its index is pending
then, and its ring's suspended keys can be removed. -/
theorem exists_suspension (env : Env T) {s : Store T} {info : CollectionInfo T} {k : T.Member}
    {r p i : Nat} (hinfo : s.collections = some info) (hactive : s.suspendedCollections = none)
    (happend : s.ringsState.appendOnly = true)
    (hrecord : s.members.get k = some (.included r p i))
    (hpending : s.pendingSuspensions.get r = none) :
    ∃ s₁ s₂ s₃ indices, s.exec env .startRemovalSession = .ok s₁ ∧
      s₁.exec env (.removeMembers [k]) = .ok s₂ ∧ s₂.exec env .endRemovalSession = .ok s₃ ∧
      s₃.exec env (.removeSuspendedKeys r) = .ok (s₃.removeSuspendedKeys env r) ∧
      BoundedVec.toList indices = [i] ∧
      s₃ = { s with
        members := s.members.insert k .suspended
        pendingSuspensions := s.pendingSuspensions.insert r indices } := by
  obtain ⟨indices, hpush, hindices⟩ := BoundedVec.exists_tryFrom (n := T.flexibleRingCapacity)
    (l := [i]) T.flexibleRingCapacity_pos
  have hinsert : (s.pendingAt r).tryInsert 0 i = some indices := by
    simp only [pendingAt, hpending, Option.getD_none]
    exact hpush
  have hsearch : binarySearch (s.pendingAt r).toList i = .inr 0 := by
    simp [pendingAt, hpending, binarySearch]
  have hstate := RingMembersState.eq_default happend
  refine ⟨{ s with ringsState := ⟨.mutating 1⟩ }, { s with
      ringsState := ⟨.mutating 1⟩
      members := s.members.insert k .suspended
      pendingSuspensions := s.pendingSuspensions.insert r indices }, _, indices, ?_, ?_, ?_, ?_,
    hindices, rfl⟩
  · simp only [exec, startRemovalSession, hinfo, hstate]
    rfl
  · simp only [exec, removeMembers, queueMemberSuspensions]
    rw [ensure_pos (by rfl)]
    simp only [ok_bind, List.foldlM_cons, List.foldlM_nil, queueMemberSuspension, hrecord, okOr_some,
      queueIncluded]
    have hsame : ({ s with ringsState := ⟨.mutating 1⟩ } : Store T).pendingAt r = s.pendingAt r := rfl
    rw [hsame, hsearch]
    simp only [hinsert, okOr_some, ok_bind]
    rfl
  · simp only [exec, endRemovalSession, hinfo, hstate]
    rfl
  · simp only [exec, removeSuspendedKeysAuthorized]
    rw [ensure_pos]
    · rfl
    · simp [shouldRemoveSuspendedKeys, hactive, hstate, pendingAt, BoundedVec.length, hindices,
        RingMembersState.appendOnly]

/-- The first ring of a cohort of more than a page, after one of its members was removed: the
first page lost a key, and the total counts that page only. -/
structure Shrunk (s : Store T) (info : CollectionInfo T) (keys : List T.Member) : Prop where
  waiting : Waiting s info []
  first : (s.page 0 0).length = T.flexibleRingCapacity - 1
  rest : ∀ p, 0 < p →
    (s.page 0 p).length = min T.flexibleRingCapacity (keys.length - p * T.flexibleRingCapacity)
  page_of_ne : ∀ r, r ≠ 0 → ∀ p, s.page r p = []
  status : ∀ r, s.ringStatusAt r =
    if r = 0 then ⟨T.flexibleRingCapacity - 1, 0, none⟩ else default
  fresh : ∀ k, k ∉ keys → s.members.get k = none
  root : s.root = ∅
  pending : ∀ r, s.pendingSuspensions.get r = none
  deletions : s.ringDeletionQueue = ∅
  onboardingSize : s.onboardingSize = 1
  currentRing : s.currentRingIndex = if keys.length = info.ringSize.ringCapacity then 1 else 0

theorem FirstCohort.exists_shrunk (env : Env T) {s : Store T} {info : CollectionInfo T}
    {keys : List T.Member} {k : T.Member} (h : FirstCohort s info keys) (hk : k ∈ keys)
    (hlen : T.flexibleRingCapacity ≤ keys.length) :
    ∃ s₁ s₂ s₃ s₄, s.exec env .startRemovalSession = .ok s₁ ∧
      s₁.exec env (.removeMembers [k]) = .ok s₂ ∧ s₂.exec env .endRemovalSession = .ok s₃ ∧
      s₃.exec env (.removeSuspendedKeys 0) = .ok s₄ ∧ Shrunk s₄ info keys := by
  obtain ⟨p, i, hrecord, hget⟩ := h.stored k hk
  have hi : i < T.flexibleRingCapacity :=
    (List.getElem?_eq_some_iff.mp hget).1.trans_le (s.page_length_le 0 p)
  obtain ⟨s₁, s₂, s₃, indices, h₁, h₂, h₃, h₄, hindices, hs₃⟩ := exists_suspension env
    h.waiting.collections h.waiting.active h.waiting.appendOnly hrecord (by rw [h.pending]; rfl)
  refine ⟨s₁, s₂, s₃, _, h₁, h₂, h₃, h₄, ?_⟩
  have hpage₃ : ∀ r p, s₃.page r p = s.page r p := by
    intro r p
    rw [hs₃]
    rfl
  have hfirst : (s.page 0 0).length = T.flexibleRingCapacity := by
    rw [h.packed 0]
    omega
  have hpendingAt : (s₃.pendingAt 0).toList = [i] := by
    rw [hs₃]
    simpa [pendingAt] using hindices
  rcases removeSuspendedKeys_spec env s₃ 0 with ⟨hnone, -⟩ | ⟨info', capacity, members, page, -, -,
    hmembers, hlist, hs₄⟩
  · rw [hs₃] at hnone
    exact absurd (h.waiting.collections.symm.trans hnone) (by simp)
  rw [hpendingAt, hpage₃] at hlist
  rw [compact_singleton (Nat.zero_le i), Nat.sub_zero] at hlist
  have hlist' : page.length = T.flexibleRingCapacity - 1 := by
    rw [BoundedVec.length, hlist, List.length_eraseIdx_of_lt (by omega), hfirst]
  have hpage₄ : ∀ r p, (s₃.removeSuspendedKeys env 0).page r p =
      if r = 0 ∧ p = 0 then page.toList else s.page r p := by
    intro r p
    rw [page_removeSuspendedKeys hs₄, hpage₃]
  have hfresh : ∀ x, x ∉ keys → (s₃.removeSuspendedKeys env 0).members.get x = none := by
    intro x hx
    have hxk : x ≠ k := fun he => hx (he ▸ hk)
    have hnone : s₃.members.get x = none := by
      rw [hs₃]
      simp [hxk, h.fresh x hx]
    rw [hs₄]
    show members.get x = none
    rcases retainKeys_members_cases 0 0 (s₃.pendingAt 0).toList s₃ BoundedVec.nil (s₃.page 0 0) x
      with hsame | ⟨p', a, b, ha, -⟩
    · rw [hmembers, hsame, hnone]
    · rw [hnone] at ha
      cases ha
  have hstatus : ∀ r, (s₃.removeSuspendedKeys env 0).ringStatusAt r =
      if r = 0 then ⟨T.flexibleRingCapacity - 1, 0, none⟩ else default := by
    intro r
    have hzero := h.status 0
    have hr := h.status r
    rw [hs₄, hs₃]
    simp only [ringStatusAt, StorageMap.get_insert] at hzero hr ⊢
    split
    · simp only [hzero, if_true, hlist', Option.getD_some]
    · rename_i hne
      rw [hr, if_neg hne]
  have hroot : (s₃.removeSuspendedKeys env 0).root = ∅ := by
    rw [hs₄, hs₃]
    simp only [resetRoot, h.root, StorageMap.get_empty]
  refine ⟨⟨?_, ?_, ?_, ?_, ?_, fun x hx => by cases hx⟩, ?_, fun p hp => ?_, fun r hr p => ?_, hstatus,
    hfresh, hroot, fun r => ?_, ?_, ?_, ?_⟩
  · rw [hs₄, hs₃]
    exact h.waiting.collections
  · rw [hs₄, hs₃]
    exact h.waiting.active
  · rw [hs₄, hs₃]
    exact h.waiting.appendOnly
  · rw [hs₄, hs₃]
    exact h.waiting.onePage
  · rw [hs₄, hs₃]
    exact h.waiting.queue
  · rw [hpage₄, if_pos ⟨rfl, rfl⟩]
    exact hlist'
  · rw [hpage₄, if_neg (by omega)]
    exact h.packed p
  · rw [hpage₄, if_neg (by tauto)]
    exact h.page_of_ne r hr p
  · rw [hs₄, hs₃]
    simp [h.pending]
  · rw [hs₄, hs₃]
    exact h.deletions
  · rw [hs₄, hs₃]
    exact h.onboardingSize
  · rw [hs₄, hs₃]
    exact h.currentRing

end Store

/-- The first collection of all is within its owner's bound. -/
theorem State.exists_register_genesis (id : Identifier) (owner : T.Location) (n : Nat) (mode : RingMode)
    (size : RingExponent) (delay : Option Nat) (hmax : 0 < T.maxCollections) :
    ∃ identifiersOf, (State.genesis T).register id (.createCollection owner n mode size delay) = .ok identifiersOf := by
  obtain ⟨v, hv, -⟩ := BoundedVec.exists_tryFrom (n := T.maxCollections) (l := [id])
    (by rw [List.length_singleton]; exact hmax)
  have hpush : (default : BoundedVec Identifier T.maxCollections).tryPush id = some v := hv
  simp only [State.register, State.genesis, StorageMap.get_empty, Option.getD_none, hpush,
    okOr_some, ok_bind]
  exact ⟨_, rfl⟩

/-- Runs of the pallet reach such a collection, under any condition on their calls that lets
members join while the current ring has room. -/
theorem State.exists_first_cohort {G : Env T → Store T → Call T → Prop} (id : Identifier)
    (owner : T.Location) (size : RingExponent) (keys : List T.Member) (hpos : keys ≠ [])
    (hnodup : keys.Nodup) (hvalid : ∀ k ∈ keys, T.crypto.isMemberValid k = true)
    (hcap : keys.length ≤ size.ringCapacity) (hpage : keys.length ≤ T.onboardingQueuePageSize)
    (hmax : 0 < T.maxCollections)
    (hcreate : ∀ env s, G env s (.createCollection owner 1 .appendOnly size none))
    (hadd : ∀ env s, G env s (.addMembers keys))
    (honboard : ∀ env s, (∀ info, s.collections = some info →
      ¬ s.currentRingFull info.ringSize.ringCapacity) → s.ringDeletionQueue = ∅ →
      s.activeMembers = 0 → G env s (.onboardMembers false)) :
    ∃ s : State T, State.Reachable (State.OnCalls G) s ∧ s.env = (State.genesis T).env ∧
      Store.FirstCohort (s.store id) ⟨.external owner, .appendOnly, size, none⟩ keys := by
  obtain ⟨t₁, t₂, t₃, h₁, h₂, h₃, hroom, hdeletions, hactive, hcohort⟩ := Store.exists_first_cohort
    (State.genesis T).env owner size hpos hnodup hvalid hcap hpage
  have hregister := State.exists_register_genesis id owner 1 .appendOnly size none hmax
  replace h₁ : ((State.genesis T).store id).exec (State.genesis T).env
    (.createCollection owner 1 .appendOnly size none) = .ok t₁ := h₁
  obtain ⟨s₁, hr₁, hs₁, he₁⟩ := State.Reachable.call (G := State.OnCalls G)
    (Reaches.refl (State.genesis T)) _ _ h₁ hregister (hcreate _ _)
  rw [← hs₁, ← he₁] at h₂
  obtain ⟨s₂, hr₂, hs₂, he₂⟩ := hr₁.call _ _ h₂ (s₁.exists_register id rfl) (hadd _ _)
  rw [he₁] at he₂
  rw [← hs₂, ← he₂] at h₃
  obtain ⟨s₃, hr₃, hs₃, he₃⟩ := hr₂.call _ _ h₃ (s₂.exists_register id rfl)
    (honboard _ _ (by rw [hs₂]; exact hroom) (by rw [hs₂]; exact hdeletions)
      (by rw [hs₂]; exact hactive))
  exact ⟨s₃, hr₃, he₃.trans he₂, by rw [hs₃]; exact hcohort⟩

/-- From such a collection they reach one whose first ring shrunk. -/
theorem State.exists_shrunk {G : Env T → Store T → Call T → Prop} {s : State T} {id : Identifier}
    {info : CollectionInfo T} {keys : List T.Member} {k : T.Member}
    (h : State.Reachable (State.OnCalls G) s) (hcohort : Store.FirstCohort (s.store id) info keys)
    (hk : k ∈ keys) (hlen : T.flexibleRingCapacity ≤ keys.length)
    (hstart : ∀ env s, G env s .startRemovalSession) (hend : ∀ env s, G env s .endRemovalSession)
    (hremove : ∀ env s, G env s (.removeMembers [k]))
    (hsuspended : ∀ env s, G env s (.removeSuspendedKeys 0)) :
    ∃ s', State.Reachable (State.OnCalls G) s' ∧ s'.env = s.env ∧
      Store.Shrunk (s'.store id) info keys := by
  obtain ⟨t₁, t₂, t₃, t₄, h₁, h₂, h₃, h₄, hshrunk⟩ := hcohort.exists_shrunk s.env hk hlen
  have hrun : State.Run s.env G (s.store id) t₄ :=
    ((((Reaches.refl _).tail ⟨hstart _ _, rfl⟩ h₁).tail ⟨hremove _ _, rfl⟩ h₂).tail
      ⟨hend _ _, rfl⟩ h₃).tail ⟨hsuspended _ _, rfl⟩ h₄
  obtain ⟨s', hs', hstore, henv⟩ := h.run hrun
  exact ⟨s', hs', henv, hstore ▸ hshrunk⟩

/-! ### The sample collection -/

/-- Calls on the sample collection, from the start of the pallet. -/
def sampleRun (calls : List (Call sampleConfig)) : Except Error (State sampleConfig) :=
  calls.foldlM (fun s c => s.exec (.call sampleId c)) (State.genesis sampleConfig)

/-- Calls that are accepted one after the other are a run. -/
theorem exists_sampleRun {G : Env sampleConfig → Store sampleConfig → Call sampleConfig → Prop}
    (calls : List (Call sampleConfig)) (h : (sampleRun calls).toOption.isSome = true)
    (hG : ∀ env s, ∀ c ∈ calls, G env s c) :
    ∃ s, sampleRun calls = .ok s ∧ State.Reachable (State.OnCalls G) s := by
  cases hrun : sampleRun calls with
  | error e =>
    rw [hrun] at h
    cases h
  | ok s =>
    refine ⟨s, rfl, ?_⟩
    refine foldlM_ok_induction (fun _ t => State.Reachable (State.OnCalls G) t) hrun
      (Reaches.refl _) ?_
    intro done c t t' hpre ht hstep
    exact ht.tail (i := .call sampleId c) (hG _ _ c (hpre.sublist.subset (by simp))) hstep

end Individuality.Members
