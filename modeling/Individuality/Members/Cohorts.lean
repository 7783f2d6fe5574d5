import Individuality.Members.Merging

/-! The cohorts in which members join a ring.

A round of onboarding takes a cohort that leaves room for another, or whatever
fills the ring. The second keeps to the size of a cohort too as long as the ring
has a cohort's worth of open slots to begin with (`Store.Roomy`): every round
leaves it so, and a ring that was filled is followed by an empty one. Two calls
can take the slots from under the rule: a merge into a ring that is not current
yet (its keys are there when the ring's turn comes), and a removal that recounts
the first page of a current ring of several (`Store.KeepsCohorts`). -/
namespace Individuality.Members
open Support
variable {T : Config}

/-- The calls that leave the onboarding size at `n`, and are no self-inclusion. -/
def Call.KeepsSize (n : Nat) : Call T → Prop
  | .createCollection _ m _ _ _ | .setOnboardingSize m => m = n
  | .selfInclude _ | .finalizeCollectionDeletion => False
  | _ => True

namespace Store

/-- Merges leave the rings ahead alone; the current ring is recounted only while it is a page
of keys and not full (a ring stays current when full only under the last index). -/
def KeepsCohorts (s : Store T) : Call T → Prop
  | .mergeRings base target => base < s.currentRingIndex ∨ s.page target 0 = []
  | .removeSuspendedKeys r => r = s.currentRingIndex → (∀ p, 0 < p → s.page r p = []) ∧
    ∀ info, s.collections = some info → (s.ringStatusAt r).total < info.ringSize.ringCapacity
  | _ => True

/-- From `s` to `t` the members `moved` joined the current ring, behind its keys. -/
structure Moved (s t : Store T) (moved : List T.Member) : Prop where
  keysInOrder : ∀ r, t.keysInOrder r =
    if r = s.currentRingIndex then s.keysInOrder r ++ moved else s.keysInOrder r
  included : ∀ k ∈ moved, ∃ p i, t.members.get k = some (.included s.currentRingIndex p i) ∧
    (t.page s.currentRingIndex p)[i]? = some k

/-- The current ring has room for a cohort of `n`, and the rings ahead of it are empty. -/
structure Roomy (s : Store T) (n : Nat) : Prop where
  index_le : s.currentRingIndex ≤ U32.max
  packed : Paging.Packed T.flexibleRingCapacity (s.ringStatusAt s.currentRingIndex).total
    (s.page s.currentRingIndex)
  ahead : ∀ r, s.currentRingIndex < r → (s.ringStatusAt r).total = 0 ∧ ∀ p, s.page r p = []
  unqueued : ∀ r p, s.currentRingIndex ≤ r → s.ringDeletionQueue.get (r, p) = none
  size : ∀ info, s.collections = some info → s.onboardingSize = n
  room : ∀ info, s.collections = some info →
    ((s.ringStatusAt s.currentRingIndex).total + n ≤ info.ringSize.ringCapacity ∧
      (s.ringStatusAt s.currentRingIndex).total < info.ringSize.ringCapacity) ∨
    (s.currentRingIndex = U32.max ∧
      (s.ringStatusAt s.currentRingIndex).total = info.ringSize.ringCapacity)
  absent : s.collections = none → (s.ringStatusAt s.currentRingIndex).total = 0

theorem Roomy.empty (T : Config) (n : Nat) : Roomy (Store.empty T) n where
  index_le := Nat.zero_le _
  packed := Paging.packed_zero fun _ => rfl
  ahead _ _ := ⟨rfl, fun _ => rfl⟩
  unqueued _ _ _ := rfl
  size _ h := by cases h
  room _ h := by cases h
  absent _ := rfl

/-! ### One operation at a time -/

section Steps
variable {s s' : Store T} {n : Nat}

/-- What leaves the current ring and those ahead of it alone keeps the room. -/
theorem Roomy.of_same (h : Roomy s n) (hcurrent : s'.currentRingIndex = s.currentRingIndex)
    (htotal : ∀ r, s.currentRingIndex ≤ r → (s'.ringStatusAt r).total = (s.ringStatusAt r).total)
    (hpage : ∀ r, s.currentRingIndex ≤ r → s'.page r = s.page r)
    (hdeletions : ∀ r p, s.currentRingIndex ≤ r → s'.ringDeletionQueue.get (r, p) = none)
    (hcollections : s'.collections = s.collections)
    (hsize : s'.onboardingSize = s.onboardingSize) : Roomy s' n := by
  refine ⟨hcurrent ▸ h.index_le, ?_, fun r hr => ?_, fun r p hr => ?_, fun info hinfo => ?_,
    fun info hinfo => ?_, fun hnone => ?_⟩
  · rw [hcurrent, htotal _ le_rfl, hpage _ le_rfl]
    exact h.packed
  · rw [hcurrent] at hr
    rw [htotal r hr.le, hpage r hr.le]
    exact h.ahead r hr
  · rw [hcurrent] at hr
    exact hdeletions r p hr
  · rw [hsize]
    exact h.size info (hcollections ▸ hinfo)
  · rw [hcurrent, htotal _ le_rfl]
    exact h.room info (hcollections ▸ hinfo)
  · rw [hcurrent, htotal _ le_rfl]
    exact h.absent (hcollections ▸ hnone)

/-- The same for what leaves the rings alone altogether. -/
theorem Roomy.of_rings (h : Roomy s n) (hcurrent : s'.currentRingIndex = s.currentRingIndex)
    (hstatus : s'.ringKeysStatus = s.ringKeysStatus) (hkeys : s'.ringKeys = s.ringKeys)
    (hdeletions : s'.ringDeletionQueue = s.ringDeletionQueue)
    (hcollections : s'.collections = s.collections)
    (hsize : s'.onboardingSize = s.onboardingSize) : Roomy s' n := by
  refine h.of_same hcurrent (fun r _ => ?_) (fun r _ => ?_) (fun r p hr => ?_) hcollections hsize
  · unfold ringStatusAt
    rw [hstatus]
  · unfold page ringKeysAt
    rw [hkeys]
  · rw [hdeletions]
    exact h.unqueued r p hr

theorem Roomy.addMember {env : Env T} {key : T.Member} (h : Roomy s n)
    (hs : Store.addMember env s key = .ok s') : Roomy s' n := by
  obtain ⟨tail, keys, rfl, -⟩ := pushToOnboardingQueue_spec (addMember_spec hs).2
  exact h.of_rings rfl rfl rfl rfl rfl rfl

theorem Roomy.queueMemberSuspension {key : T.Member} (h : Roomy s n)
    (hs : s.queueMemberSuspension key = .ok s') : Roomy s' n := by
  rcases queueMemberSuspension_cases hs with
    ⟨r, p, i, j, indices, -, -, -, rfl⟩ | ⟨q, t, -, rfl⟩ | ⟨-, rfl⟩
  · exact h.of_rings rfl rfl rfl rfl rfl rfl
  · have hd := dropQueued_frame s q key
    refine h.of_rings ?_ ?_ ?_ ?_ ?_ ?_ <;> rw [hd] <;> rfl
  · exact h.of_rings rfl rfl rfl rfl rfl rfl

theorem Roomy.mergeFrontQueuePages (h : Roomy s n) (hs : s.mergeFrontQueuePages = .ok s') :
    Roomy s' n := by
  obtain ⟨-, t, keys, hfold, -, rfl⟩ := mergeFrontQueuePages_spec hs
  obtain ⟨hframe, -, -⟩ := relocateQueued_fold hfold
  refine h.of_rings ?_ ?_ ?_ ?_ ?_ ?_ <;> rw [hframe] <;> rfl

/-- A build includes keys; it leaves every ring's total. -/
theorem Roomy.buildRing {env : Env T} {r m : Nat} (h : Roomy s n)
    (hs : s.buildRing env r m = .ok s') : Roomy s' n := by
  obtain ⟨info, capacity, start, root, status, -, -, -, -, -, -, htotal, -, hs'⟩ := buildRing_spec hs
  refine h.of_same (by rw [hs']) (fun r' _ => ?_) (fun r' _ => ?_) (fun r' p hr => ?_)
    (by rw [hs']) (by rw [hs'])
  · rw [total_keysToPush] at htotal
    rw [hs']
    unfold ringStatusAt
    rw [StorageMap.get_insert]
    by_cases hr : r' = r
    · rw [if_pos hr, hr]
      exact htotal
    · rw [if_neg hr]
  · rw [hs']
    rfl
  · rw [hs']
    exact h.unqueued r' p hr

/-- A merge between rings that are behind, or one that moves nothing. -/
theorem Roomy.mergeRings {env : Env T} {base target : Nat} (h : Roomy s n)
    (hs : s.mergeRings env base target = .ok s')
    (hbase : base < s.currentRingIndex ∨ s.page target 0 = []) : Roomy s' n := by
  obtain ⟨info, m, -, -, -, hb, ht, -, -, -, -, -, hs'⟩ := mergeRings_spec hs
  have hstatus := ringStatusAt_mergeRings hs
  have hpages := page_mergeRings hs
  refine h.of_same (by rw [hs']) (fun r hr => ?_) (fun r hr => ?_) (fun r p hr => ?_) (by rw [hs'])
    (by rw [hs'])
  · rw [hstatus]
    by_cases hrt : r = target
    · rw [if_pos hrt, hrt, (h.ahead target (lt_of_le_of_ne (hrt ▸ hr) ht.symm)).1]
      rfl
    · rw [if_neg hrt]
      by_cases hrb : r = base
      · have hnil : s.page target 0 = [] := hbase.resolve_left (Nat.not_lt.mpr (hrb ▸ hr))
        rw [if_pos hrb, hnil, hrb, (h.ahead base (lt_of_le_of_ne (hrb ▸ hr) hb.symm)).1]
        rfl
      · rw [if_neg hrb]
  · funext p
    rw [hpages]
    by_cases hrt : r = target ∧ p = 0
    · rw [if_pos hrt, hrt.1, (h.ahead target (lt_of_le_of_ne (hrt.1 ▸ hr) ht.symm)).2]
    · rw [if_neg hrt]
      by_cases hrb : r = base ∧ p = 0
      · have hnil : s.page target 0 = [] := hbase.resolve_left (Nat.not_lt.mpr (hrb.1 ▸ hr))
        rw [if_pos hrb, hnil, List.append_nil, hrb.1, hrb.2]
      · rw [if_neg hrb]
  · rw [hs']
    exact h.unqueued r p hr

/-- A removal that recounts a ring of one page leaves no less room than there was. -/
theorem Roomy.removeSuspendedKeys {env : Env T} {r : Nat} (h : Roomy s n)
    (hkeeps : s.KeepsCohorts (.removeSuspendedKeys r)) : Roomy (s.removeSuspendedKeys env r) n := by
  rcases removeSuspendedKeys_spec env s r with
    ⟨-, hs⟩ | ⟨info, capacity, members, page, hinfo, -, -, hlist, hs⟩
  · rwa [hs]
  have hpage : ∀ r' p, (s.removeSuspendedKeys env r).page r' p =
      if r' = r ∧ p = 0 then page.toList else s.page r' p := page_removeSuspendedKeys hs
  have hstatus : ∀ r', ((s.removeSuspendedKeys env r).ringStatusAt r').total =
      if r' = r then page.length else (s.ringStatusAt r').total := by
    intro r'
    unfold ringStatusAt
    rw [hs, StorageMap.get_insert]
    split <;> rfl
  have hcurrent : (s.removeSuspendedKeys env r).currentRingIndex = s.currentRingIndex := by rw [hs]
  have hle : page.length ≤ (s.page r 0).length := by
    rw [BoundedVec.length, hlist]
    exact (compact_sublist 0 _ _).length_le
  rcases Nat.lt_trichotomy r s.currentRingIndex with hr | hr | hr
  · refine h.of_same hcurrent (fun r' hr' => ?_) (fun r' hr' => ?_) (fun r' p hr' => ?_) (by rw [hs])
      (by rw [hs])
    · rw [hstatus, if_neg (by omega)]
    · funext p
      rw [hpage, if_neg (by omega)]
    · rw [hs]
      exact h.unqueued r' p hr'
  · obtain ⟨hrest, hlt⟩ := hkeeps hr
    have hlt := hlt info hinfo
    have hfirst : (s.ringStatusAt r).total = (s.page r 0).length := by
      have hzero := h.packed 0
      have hone := h.packed 1
      have hpos := T.flexibleRingCapacity_pos
      rw [← hr] at hzero hone
      rw [hrest 1 Nat.one_pos, List.length_nil] at hone
      omega
    have htotal : ((s.removeSuspendedKeys env r).ringStatusAt
        (s.removeSuspendedKeys env r).currentRingIndex).total = page.length := by
      rw [hcurrent, hstatus, if_pos hr.symm]
    refine ⟨hcurrent ▸ h.index_le, fun p => ?_, fun r' hr' => ?_, fun r' p hr' => ?_,
      fun i hi => ?_, fun i hi => ?_, fun hnone => ?_⟩
    · rw [htotal, hcurrent, hpage]
      have hpagelen : page.length ≤ T.flexibleRingCapacity := page.length_le
      rcases Nat.eq_zero_or_pos p with rfl | hp
      · rw [if_pos ⟨hr.symm, rfl⟩]
        change page.length = min _ (page.length - _)
        omega
      · have hmul : T.flexibleRingCapacity ≤ p * T.flexibleRingCapacity :=
          Nat.le_mul_of_pos_left _ hp
        rw [if_neg (by omega), ← hr, hrest p hp, List.length_nil]
        omega
    · rw [hcurrent, ← hr] at hr'
      have hahead := h.ahead r' (hr ▸ hr')
      refine ⟨?_, fun p => ?_⟩
      · rw [hstatus, if_neg (by omega)]
        exact hahead.1
      · rw [hpage, if_neg (by omega)]
        exact hahead.2 p
    · rw [hcurrent] at hr'
      rw [hs]
      exact h.unqueued r' p hr'
    · rw [hs] at hi ⊢
      exact h.size i hi
    · rw [htotal]
      rw [hs] at hi
      change s.collections = some i at hi
      rw [hinfo] at hi
      cases hi
      have hroom := h.room info hinfo
      rw [← hr] at hroom
      left
      omega
    · rw [hs] at hnone
      change s.collections = none at hnone
      rw [hinfo] at hnone
      cases hnone
  · have hahead := h.ahead r hr
    have hzero : page.length = 0 := by
      rw [hahead.2 0, List.length_nil] at hle
      omega
    refine h.of_same hcurrent (fun r' hr' => ?_) (fun r' hr' => ?_) (fun r' p hr' => ?_) (by rw [hs])
      (by rw [hs])
    · rw [hstatus]
      split
      · rename_i heq
        rw [hzero, heq, hahead.1]
      · rfl
    · funext p
      rw [hpage]
      split
      · rename_i heq
        rw [heq.1, hahead.2 p]
        exact List.length_eq_zero_iff.mp hzero
      · rfl
    · rw [hs]
      exact h.unqueued r' p hr'

/-- A ring ahead has no page to queue. -/
theorem Roomy.enqueueRingForDeletion {env : Env T} {r : Nat} (h : Roomy s n)
    (hr : r ≠ s.currentRingIndex) : Roomy (s.enqueueRingForDeletion env r) n := by
  obtain ⟨queue, hs, hqueue⟩ := enqueueRingForDeletion_spec env s r
  refine h.of_same (by rw [hs]) (fun r' hr' => ?_) (fun r' _ => ?_) (fun r' p hr' => ?_) (by rw [hs])
    (by rw [hs])
  · rw [hs]
    unfold ringStatusAt
    rw [StorageMap.get_remove]
    split
    · rename_i heq
      have hahead := (h.ahead r (lt_of_le_of_ne (heq ▸ hr') hr.symm)).1
      rw [heq]
      exact hahead.symm
    · rfl
  · rw [hs]
    rfl
  · rw [hs]
    refine Option.not_isSome_iff_eq_none.mp fun hsome => ?_
    rcases (hqueue r' p).mp hsome with hold | ⟨heq, hlt⟩
    · rw [h.unqueued r' p hr'] at hold
      cases hold
    · rw [(h.ahead r (lt_of_le_of_ne (heq ▸ hr') hr.symm)).1] at hlt
      simp [pageCount] at hlt

/-- A queued page is behind. -/
theorem Roomy.deleteRingPage {r p : Nat} (h : Roomy s n)
    (hq : (s.ringDeletionQueue.get (r, p)).isSome = true) :
    Roomy ({ s with ringDeletionQueue := s.ringDeletionQueue.remove (r, p) }.deleteRingPage r p) n := by
  obtain ⟨members, hs, -⟩ := deleteRingPage_spec
    { s with ringDeletionQueue := s.ringDeletionQueue.remove (r, p) } r p
  have hbehind : r < s.currentRingIndex := by
    by_contra hge
    rw [h.unqueued r p (Nat.not_lt.mp hge)] at hq
    cases hq
  generalize ({ s with ringDeletionQueue := s.ringDeletionQueue.remove (r, p) } :
    Store T).deleteRingPage r p = s' at hs ⊢
  refine h.of_same (by rw [hs]) (fun r' hr' => ?_) (fun r' hr' => ?_) (fun r' p' hr' => ?_)
    (by rw [hs]) (by rw [hs])
  · rw [hs]
    rfl
  · funext p'
    rw [hs]
    refine (page_removeRingPage s r r' p p').trans (if_neg ?_)
    omega
  · rw [hs, StorageMap.get_remove, h.unqueued r' p' hr', ite_self]

/-- A round fills the ring, or takes a cohort that leaves room for another. -/
theorem Round.filled_or_cohort (R : Round s s') : R.filled = true ∨
    (s.onboardingSize ≤ R.toInclude ∧ U32.saturatingAdd R.a.status.total R.toInclude ≤
      R.info.ringSize.ringCapacity - s.onboardingSize) := by
  have hshould := R.should
  unfold shouldOnboardMembers at hshould
  split at hshould
  · cases hshould
  · split at hshould
    · cases hshould
    · split at hshould
      · cases hshould
      · simp only at hshould
        split at hshould
        · cases hshould
        · split at hshould
          · rename_i hcohort
            simp only [Option.some.injEq, Prod.mk.injEq] at hshould
            rw [← hshould.1, ← hshould.2, decide_eq_true_eq]
            exact hcohort
          · cases hshould

/-- A full ring that stays current takes nobody: the page a round would fill is the first. -/
theorem Roomy.not_full (h : Roomy s n) (R : Round s s') :
    ¬ s.currentRingFull R.info.ringSize.ringCapacity := by
  intro hfull
  have htotal := (currentRingFull_iff_of_packed h.packed).mp hfull
  have hroom := h.room R.info R.collections_eq
  have hcurrent : s.currentRingIndex = U32.max := by omega
  have hnext : U32.saturatingInc s.currentRingIndex = s.currentRingIndex := by
    rw [hcurrent]
    rfl
  have ha : R.a.pageIndex = 0 ∧ R.a.keys = s.ringKeysAt s.currentRingIndex 0 := by
    rw [← R.a_eq]
    unfold availableRing
    simp only
    rw [if_pos hfull, hnext]
    exact ⟨rfl, rfl⟩
  obtain ⟨-, -, hpos, hn, -⟩ := shouldOnboardMembers_spec R.should
  have hloop := R.loop
  have htake := R.length_take
  cases hkeys : R.keys.take R.toInclude with
  | nil =>
    rw [hkeys, List.length_nil] at htake
    omega
  | cons key rest =>
    rw [hkeys, List.foldlM_cons, bind_eq_ok] at hloop
    obtain ⟨f, hf, -⟩ := hloop
    have hroom' := (includeKey_spec hf).2.1
    have hzero := h.packed 0
    rw [ha.1, ha.2] at hn
    rw [ha.2] at hroom'
    change (s.page s.currentRingIndex 0).length < _ at hroom'
    change R.toInclude = min _ (_ - ((s.page s.currentRingIndex 0).length + _)) at hn
    omega

/-- What a round takes: a cohort at least, and what it leaves open is a cohort at least. -/
theorem Roomy.toInclude (h : Roomy s n) (R : Round s s') :
    n ≤ R.toInclude ∧
      (s.ringStatusAt s.currentRingIndex).total + R.toInclude ≤ R.info.ringSize.ringCapacity ∧
      (R.filled = true → (s.ringStatusAt s.currentRingIndex).total + R.toInclude =
        R.info.ringSize.ringCapacity) ∧
      (R.filled = false → (s.ringStatusAt s.currentRingIndex).total + R.toInclude + n ≤
        R.info.ringSize.ringCapacity ∧ (s.ringStatusAt s.currentRingIndex).total + R.toInclude <
          R.info.ringSize.ringCapacity) := by
  have hnot := h.not_full R
  have hlt := mt (currentRingFull_iff_of_packed h.packed).mpr hnot
  have hroom := h.room R.info R.collections_eq
  obtain ⟨-, -, hpos, hn, hfilled⟩ := shouldOnboardMembers_spec R.should
  have hcohort := R.filled_or_cohort
  have htotal : (s.ringStatusAt s.currentRingIndex).total =
      (s.ringStatusAt s.currentRingIndex).total / T.flexibleRingCapacity * T.flexibleRingCapacity +
        (s.ringKeysAt s.currentRingIndex
          ((s.ringStatusAt s.currentRingIndex).total / T.flexibleRingCapacity)).length :=
    (Paging.Cursor.packs_of_packed h.packed T.flexibleRingCapacity_pos).total_eq
  rw [R.a_of_not_full hnot] at hn hfilled hcohort
  simp only [h.size R.info R.collections_eq] at hn hfilled hcohort
  have hcap := R.info.ringSize.ringCapacity_le
  have hmax : U32.max = 4294967295 := rfl
  rw [U32.saturatingAdd_eq (by omega)] at hcohort
  refine ⟨?_, by omega, fun hf => ?_, fun hf => ?_⟩
  · rcases hcohort with hf | ⟨hle, -⟩
    · have := hfilled.mp hf
      omega
    · exact hle
  · have := hfilled.mp hf
    omega
  · have hne := mt hfilled.mpr (by rw [hf]; exact Bool.false_ne_true)
    rw [hf] at hcohort
    simp only [Bool.false_eq_true, false_or] at hcohort
    omega

/-- The members a round takes join the current ring, in their order. -/
theorem Round.moved (R : Round s s')
    (hpacked : Paging.Packed T.flexibleRingCapacity (s.ringStatusAt s.currentRingIndex).total
      (s.page s.currentRingIndex))
    (hnot : ¬ s.currentRingFull R.info.ringSize.ringCapacity) :
    Moved s s' (R.keys.take R.toInclude) := by
  refine ⟨fun r => ?_, fun k hk => R.stored_of_not_full hnot hk⟩
  have hbound : ∀ r, s.pageBound r ≤ max (s.pageBound r) (s'.pageBound r) := fun r =>
    le_max_left _ _
  obtain ⟨c, ⟨hc, hconcat⟩, hpage⟩ := R.pages_of_not_full hnot
    (P := fun done c => c.Packs T.flexibleRingCapacity
        ((s.ringStatusAt s.currentRingIndex).total + done.length) ∧
      ∀ m, c.at_ < m → Paging.concat c.pages m =
        Paging.concat (s.page s.currentRingIndex) m ++ done)
    ⟨Paging.Cursor.packs_of_packed hpacked T.flexibleRingCapacity_pos, fun m _ => by simp⟩
    (fun done key c ⟨hc, hconcat⟩ _ => by
      refine ⟨?_, fun m hm => ?_⟩
      · rw [List.length_append, List.length_singleton, ← Nat.add_assoc]
        exact hc.push T.flexibleRingCapacity_pos
      · have hlt : c.at_ < m := lt_of_le_of_lt (Paging.Cursor.le_at_push _ c key) hm
        rw [hc.concat_push hlt, hconcat m hlt, List.append_assoc])
  by_cases hr : r = s.currentRingIndex
  · rw [if_pos hr, hr]
    have hpages : s'.page s.currentRingIndex = c.pages := by
      funext p
      rw [hpage, if_pos rfl]
    have hlt : c.at_ < max (max (s.pageBound s.currentRingIndex) (s'.pageBound s.currentRingIndex))
        (c.at_ + 1) := lt_of_lt_of_le (Nat.lt_succ_self _) (le_max_right _ _)
    rw [keysInOrder_eq_concat ((le_max_right _ _).trans (le_max_left _ (c.at_ + 1))),
      keysInOrder_eq_concat ((hbound s.currentRingIndex).trans (le_max_left _ (c.at_ + 1))), hpages]
    exact hconcat _ hlt
  · rw [if_neg hr, keysInOrder_eq_concat (hbound r), keysInOrder_eq_concat (le_max_right _ _)]
    exact Paging.concat_congr fun p _ => by rw [hpage, if_neg hr]

theorem Roomy.round (h : Roomy s n) (R : Round s s') : Roomy s' n := by
  have hnot := h.not_full R
  obtain ⟨hle, hfit, hfilled, hopen⟩ := h.toInclude R
  have hinfo : ∀ info, s.collections = some info → info = R.info := fun info hi =>
    Option.some.inj (hi.symm.trans R.collections_eq)
  have hcap := R.info.ringSize.ringCapacity_le
  have hcappos := R.info.ringSize.ringCapacity_pos
  have hroom := h.room R.info R.collections_eq
  have hlt := mt (currentRingFull_iff_of_packed h.packed).mpr hnot
  have hmax : U32.max = 4294967295 := rfl
  obtain ⟨c, hc, hpage⟩ := R.pages_of_not_full hnot
    (P := fun done c => c.Packs T.flexibleRingCapacity
      ((s.ringStatusAt s.currentRingIndex).total + done.length))
    (Paging.Cursor.packs_of_packed h.packed T.flexibleRingCapacity_pos)
    (fun done key c hc _ => by
      rw [List.length_append, List.length_singleton, ← Nat.add_assoc]
      exact hc.push T.flexibleRingCapacity_pos)
  rw [R.length_take] at hc
  have hcollections := congrArg Store.collections R.store_eq
  change s'.collections = s.collections at hcollections
  obtain ⟨-, -, hdeletions, hsize⟩ := R.frame
  have hcurrent := R.currentRingIndex_of_not_full hnot
  have htotal : ∀ r, (s'.ringStatusAt r).total = if r = s.currentRingIndex then
      (s.ringStatusAt r).total + R.toInclude else (s.ringStatusAt r).total := by
    intro r
    rw [R.ringStatusAt_of_not_full hnot]
    split
    · rename_i hr
      rw [hr]
      exact U32.saturatingAdd_eq (by omega)
    · rfl
  have hpages : s'.page s.currentRingIndex = c.pages := by
    funext p
    rw [hpage, if_pos rfl]
  have hother : ∀ r, r ≠ s.currentRingIndex → s'.page r = s.page r := by
    intro r hr
    funext p
    rw [hpage, if_neg hr]
  have habsent : ¬ s.collections = none := by
    rw [R.collections_eq]
    exact fun hc => by cases hc
  -- Either the ring stays current, or it is full and the next one takes its turn.
  have hcases : s'.currentRingIndex = s.currentRingIndex ∧
        ((s.ringStatusAt s.currentRingIndex).total + R.toInclude + n ≤ R.info.ringSize.ringCapacity ∧
          (s.ringStatusAt s.currentRingIndex).total + R.toInclude < R.info.ringSize.ringCapacity ∨
        s.currentRingIndex = U32.max ∧ (s.ringStatusAt s.currentRingIndex).total + R.toInclude =
          R.info.ringSize.ringCapacity) ∨
      s'.currentRingIndex = s.currentRingIndex + 1 ∧ s.currentRingIndex < U32.max := by
    cases hf : R.filled with
    | false =>
      rw [hf] at hcurrent
      exact .inl ⟨hcurrent, .inl (hopen hf)⟩
    | true =>
      rw [hf, if_pos rfl] at hcurrent
      rcases Nat.lt_or_ge s.currentRingIndex U32.max with hlast | hlast
      · exact .inr ⟨hcurrent.trans (U32.saturatingInc_eq hlast), hlast⟩
      · have hindex := le_antisymm h.index_le hlast
        rw [hindex] at hcurrent
        exact .inl ⟨hcurrent.trans hindex.symm, .inr ⟨hindex, hfilled hf⟩⟩
  rcases hcases with ⟨hsame, hroom'⟩ | ⟨hnext, hlast⟩
  · refine ⟨hsame ▸ h.index_le, ?_, fun r hr => ?_, fun r p hr => ?_, fun info hi => ?_,
      fun info hi => ?_, fun hnone => ?_⟩
    · rw [hsame, htotal, if_pos rfl, hpages]
      exact hc.packed
    · rw [hsame] at hr
      rw [htotal, if_neg hr.ne', hother r hr.ne']
      exact h.ahead r hr
    · rw [hsame] at hr
      rw [hdeletions]
      exact h.unqueued r p hr
    · rw [hsize]
      exact h.size info (hcollections ▸ hi)
    · rw [hinfo info (hcollections ▸ hi), hsame, htotal, if_pos rfl]
      exact hroom'
    · exact absurd (hcollections ▸ hnone) habsent
  · have hahead := h.ahead (s.currentRingIndex + 1) (Nat.lt_succ_self _)
    have hne : s.currentRingIndex + 1 ≠ s.currentRingIndex := Nat.succ_ne_self _
    refine ⟨by omega, ?_, fun r hr => ?_, fun r p hr => ?_, fun info hi => ?_, fun info hi => ?_,
      fun hnone => ?_⟩
    · rw [hnext, htotal, if_neg hne, hother _ hne, hahead.1]
      exact Paging.packed_zero hahead.2
    · rw [hnext] at hr
      rw [htotal, if_neg (by omega), hother r (by omega)]
      exact h.ahead r (by omega)
    · rw [hnext] at hr
      rw [hdeletions]
      exact h.unqueued r p (by omega)
    · rw [hsize]
      exact h.size info (hcollections ▸ hi)
    · rw [hinfo info (hcollections ▸ hi), hnext, htotal, if_neg hne, hahead.1]
      left
      omega
    · exact absurd (hcollections ▸ hnone) habsent

end Steps

/-- A collection that is being deleted takes nobody; any other has its room. -/
def RoomyOrDeleted (s : Store T) (n : Nat) : Prop :=
  s.suspendedCollections.isSome = true ∨ Roomy s n

theorem RoomyOrDeleted.step {env : Env T} {s s' : Store T} {c : Call T} {n : Nat}
    (h : RoomyOrDeleted s n) (hsize : c.KeepsSize n) (hkeeps : s.KeepsCohorts c)
    (hs : s.exec env c = .ok s') : RoomyOrDeleted s' n := by
  rcases h with hdeleted | h
  · -- Only finalization ends a deletion.
    cases exec_infoChange hs with
    | same _ hsuspended => exact .inl (hsuspended ▸ hdeleted)
    | created _ hnone _ =>
      rw [hnone] at hdeleted
      cases hdeleted
    | marked hnone _ _ =>
      rw [hnone] at hdeleted
      cases hdeleted
    | finalized hc _ _ =>
      rw [hc] at hsize
      exact hsize.elim
  · cases exec_effect hs with
    | createCollection hnone _ _ hle =>
      right
      have htotal := h.absent hnone
      refine ⟨h.index_le, h.packed, h.ahead, h.unqueued, fun _ _ => hsize, fun info hinfo => ?_,
        fun hc => by cases hc⟩
      cases hinfo
      left
      change (s.ringStatusAt s.currentRingIndex).total + n ≤ _ ∧
        (s.ringStatusAt s.currentRingIndex).total < _
      rw [htotal]
      change _ = n at hsize
      exact ⟨by rw [← hsize, Nat.zero_add]; exact hle, RingExponent.ringCapacity_pos _⟩
    | addMembers _ hfold =>
      exact .inr (foldlM_ok_induction (fun _ t => Roomy t n) hfold h
        fun _ _ _ _ _ ht hstep => ht.addMember hstep)
    | setOnboardingSize =>
      exact .inr ⟨h.index_le, h.packed, h.ahead, h.unqueued, fun _ _ => hsize, h.room, h.absent⟩
    | onboardNone => exact .inr h
    | onboard R => exact .inr (h.round R)
    | selfInclude _ => exact hsize.elim
    | mergeQueuePages hmerge => exact .inr (h.mergeFrontQueuePages hmerge)
    | buildRing hbuild => exact .inr (h.buildRing hbuild)
    | mergeRings hmerge => exact .inr (h.mergeRings hmerge hkeeps)
    | session _ _ => exact .inr (h.of_rings rfl rfl rfl rfl rfl rfl)
    | removeMembers _ hfold =>
      exact .inr (foldlM_ok_induction (fun _ t => Roomy t n) hfold h
        fun _ _ _ _ _ ht hstep => ht.queueMemberSuspension hstep)
    | removeSuspendedKeys _ => exact .inr (h.removeSuspendedKeys hkeeps)
    | removeRingQueued _ => exact .inr h
    | removeRing _ hr _ => exact .inr (h.enqueueRingForDeletion hr)
    | deleteRingPage hq => exact .inr (h.deleteRingPage hq)
    | deleteCollection _ _ => exact .inl rfl
    | @enqueueRingDeletion r hsuspended _ =>
      obtain ⟨queue, hs', -⟩ := enqueueRingForDeletion_spec env s r
      exact .inl (by rw [hs']; exact hsuspended)
    | @deleteOnboardingQueuePage q hsuspended =>
      obtain ⟨members, hs', -⟩ := deleteOnboardingQueuePage_spec s q
      exact .inl (by rw [hs']; exact hsuspended)
    | finalizeCollectionDeletion _ _ _ _ => exact hsize.elim
    | markRingStale => exact .inr (h.of_rings rfl rfl rfl rfl rfl rfl)
    | cleanUpOldRoots _ _ => exact .inr (h.of_rings rfl rfl rfl rfl rfl rfl)

end Store

/-- In a run in which the onboarding size of a collection stays `n`, nobody includes himself,
and every merge and removal leaves the rings to come alone, whoever is onboarded is onboarded
with a cohort of `n` at least. -/
theorem cohort_privacy {s : State T} {id : Identifier} {n : Nat}
    (h : State.Reachable (State.OnCallsTo id fun _ s c => c.KeepsSize n ∧ s.KeepsCohorts c) s)
    {mustBuild : Bool} {t : Store T} (ht : (s.store id).onboardMembers mustBuild = .ok (t, true)) :
    ∃ moved, (s.store id).Moved t moved ∧ n ≤ moved.length := by
  have hinv : (s.store id).RoomyOrDeleted n := State.reaches_invariant_of
    (I := fun s => s.RoomyOrDeleted n) h (.inr (Store.Roomy.empty T n)) 
    fun _ _ _ _ ht ⟨hsize, hkeeps⟩ hexec => ht.step hsize hkeeps hexec
  rcases Store.onboardMembers_spec ht with ⟨-, hfalse⟩ | ⟨⟨R⟩⟩
  · cases hfalse
  have hroomy : (s.store id).Roomy n := by
    refine hinv.resolve_left fun hdeleted => ?_
    have hshould := R.should
    unfold Store.shouldOnboardMembers at hshould
    rw [if_pos hdeleted] at hshould
    cases hshould
  refine ⟨_, R.moved hroomy.packed (hroomy.not_full R), ?_⟩
  rw [R.length_take]
  exact (hroomy.toInclude R).1

/-! ### A ring merged into before its turn -/

namespace Store

/-- Fresh keys are added to `s`, and then fill the current ring. -/
structure FillsRing (env : Env T) (info : CollectionInfo T) (keys : List T.Member)
    (s s₁ s₂ : Store T) : Prop where
  add : s.exec env (.addMembers keys) = .ok s₁
  onboard : s₁.onboardMembers false = .ok (s₂, true)
  moved : Moved s₁ s₂ keys
  waiting : Waiting s₂ info []
  currentRingIndex : s₂.currentRingIndex = U32.saturatingInc s.currentRingIndex
  added : s₁ = { s with members := s₁.members, onboardingQueue := s₁.onboardingQueue }
  packed : Paging.Packed T.flexibleRingCapacity info.ringSize.ringCapacity
    (s₂.page s.currentRingIndex)
  page : ∀ r, r ≠ s.currentRingIndex → s₂.page r = s.page r
  status : ∀ r, r ≠ s.currentRingIndex → s₂.ringStatusAt r = s.ringStatusAt r
  onboardingSize : s₂.onboardingSize = s.onboardingSize
  pending : s₂.pendingSuspensions = s.pendingSuspensions
  known : ∀ k ∈ keys, (s₂.members.get k).isSome = true
  others : ∀ k, k ∉ keys → s₂.members.get k = s.members.get k

theorem Waiting.exists_fillsRing (env : Env T) {s : Store T} {info : CollectionInfo T}
    {keys : List T.Member} (h : Waiting s info []) (hpos : keys ≠ []) (hnodup : keys.Nodup)
    (hfresh : ∀ k ∈ keys, s.members.get k = none)
    (hvalid : ∀ k ∈ keys, T.crypto.isMemberValid k = true)
    (hqueue : keys.length ≤ T.onboardingQueuePageSize)
    (hpacked : Paging.Packed T.flexibleRingCapacity (s.ringStatusAt s.currentRingIndex).total
      (s.page s.currentRingIndex))
    (hpending : s.pendingSuspensions.get s.currentRingIndex = none)
    (hfill : (s.ringStatusAt s.currentRingIndex).total + keys.length = info.ringSize.ringCapacity) :
    ∃ s₁ s₂, FillsRing env info keys s s₁ s₂ := by
  obtain ⟨s₁, hadd, hwaiting, hframe, hmembers⟩ := h.addMembers env keys hnodup hfresh hvalid hqueue
  have hcurrent : s₁.currentRingIndex = s.currentRingIndex := by rw [hframe]
  have hpage : s₁.page = s.page := by
    rw [hframe]
    rfl
  have hstatus : s₁.ringStatusAt = s.ringStatusAt := by
    rw [hframe]
    rfl
  have hpacked₁ : Paging.Packed T.flexibleRingCapacity (s₁.ringStatusAt s₁.currentRingIndex).total
      (s₁.page s₁.currentRingIndex) := by
    rw [hcurrent, hpage, hstatus]
    exact hpacked
  obtain ⟨s₂, R, honboard, hinfo, hkeys, hall, hroom, hfilled⟩ := hwaiting.exists_round_of_packed false
    hpacked₁ (by rw [hcurrent, hframe]; exact hpending) hpos (by rw [hcurrent, hstatus]; omega)
    (.inl (by rw [hcurrent, hstatus]; exact hfill))
  have htake : R.keys.take R.toInclude = keys := by rw [hkeys, hall, List.take_length]
  have hmoved := R.moved hpacked₁ hroom
  rw [htake] at hmoved
  obtain ⟨c, hc, hpages⟩ := R.pages_of_not_full hroom
    (P := fun done c => c.Packs T.flexibleRingCapacity
      ((s₁.ringStatusAt s₁.currentRingIndex).total + done.length))
    (Paging.Cursor.packs_of_packed hpacked₁ T.flexibleRingCapacity_pos)
    (fun done key c hc _ => by
      rw [List.length_append, List.length_singleton, ← Nat.add_assoc]
      exact hc.push T.flexibleRingCapacity_pos)
  rw [htake, hcurrent, hstatus, hfill] at hc
  obtain ⟨-, hpendings, -, hsize⟩ := R.frame
  refine ⟨s₁, s₂, hadd, honboard, hmoved, R.waiting hwaiting hkeys hall, ?_, hframe, ?_, fun r hr => ?_,
    fun r hr => ?_, ?_, ?_, fun k hk => ?_, fun k hk => ?_⟩
  · rw [R.currentRingIndex_of_not_full hroom, hcurrent, if_pos]
    rw [hfilled, hcurrent, hstatus]
    exact hfill
  · have hsame : s₂.page s.currentRingIndex = c.pages := by
      funext p
      rw [hpages, hcurrent, if_pos rfl]
    rw [hsame]
    exact hc.packed
  · funext p
    rw [hpages, hcurrent, if_neg hr, hpage]
  · rw [R.ringStatusAt_of_not_full hroom, hcurrent, if_neg hr, hstatus]
  · rw [hsize, hframe]
  · rw [hpendings, hframe]
  · obtain ⟨p, i, hget, -⟩ := hmoved.included k hk
    rw [hget]
    rfl
  · rw [R.members_of_notMem (by rw [htake]; exact hk), hmembers, if_neg hk]

/-- A merge leaves the queue alone. -/
theorem Waiting.mergeRings {env : Env T} {s s' : Store T} {info : CollectionInfo T}
    {base target : Nat} (h : Waiting s info []) (hs : s.mergeRings env base target = .ok s') :
    Waiting s' info [] := by
  obtain ⟨_, m, -, -, -, -, -, -, -, -, -, -, hs'⟩ := mergeRings_spec hs
  rw [hs']
  exact ⟨h.collections, h.active, h.appendOnly, h.onePage, h.queue, fun k hk => by cases hk⟩

end Store

/-- A collection of three pages a ring, with cohorts of 600. -/
def sampleCohorts : CollectionInfo sampleConfig :=
  ⟨.external (0 : Nat), .appendOnly, .r2e10, none⟩

/-- The second ring is current and empty, and part of the third is taken. -/
structure Store.Crowded (s : Store sampleConfig) : Prop where
  waiting : s.Waiting sampleCohorts []
  currentRingIndex : s.currentRingIndex = 1
  onboardingSize : s.onboardingSize = 600
  pending : s.pendingSuspensions = ∅
  second : s.ringStatusAt 1 = default
  second_nil : ∀ p, s.page 1 p = []
  third : (s.ringStatusAt 2).total = 255
  third_packed : Paging.Packed 255 255 (s.page 2)
  fresh : ∀ k, k ∉ sampleKeys 0 767 → s.members.get k = none

/-- The first ring is filled, and its first page merged into the third. -/
theorem Store.exists_crowded (env : Env sampleConfig) : ∃ a₁ a₂ b,
    FillsRing env sampleCohorts (sampleKeys 0 767) { Store.empty sampleConfig with
      collections := some sampleCohorts, onboardingSize := 600 } a₁ a₂ ∧
      a₂.mergeRings env 2 0 = .ok b ∧ Crowded b := by
  have hcap : sampleCohorts.ringSize.ringCapacity = 767 := rfl
  have hsize : sampleConfig.flexibleRingCapacity = 255 := rfl
  have hstart : Waiting { Store.empty sampleConfig with
      collections := some sampleCohorts, onboardingSize := 600 } sampleCohorts [] :=
    ⟨rfl, rfl, rfl, rfl, rfl, fun k hk => by cases hk⟩
  obtain ⟨a₁, a₂, ha⟩ := hstart.exists_fillsRing env
    (sampleKeys_ne_nil (a := 0) (n := 767) (by decide)) (sampleKeys_nodup 0 767) (fun _ _ => rfl)
    (fun _ _ => rfl) (by rw [length_sampleKeys]; decide) (Paging.packed_zero fun _ => rfl) rfl
    (by rw [length_sampleKeys]; rfl)
  have hcurrent : a₂.currentRingIndex = 1 := ha.currentRingIndex
  have hpageA : ∀ r, r ≠ 0 → ∀ p, a₂.page r p = [] := fun r hr p => by
    rw [ha.page r hr]
    rfl
  have hfirst : (a₂.page 0 0).length = 255 := ha.packed 0
  have hmem : ∀ k ∈ a₂.page 0 0, k ∈ sampleKeys 0 767 := by
    intro k hk
    have hin : k ∈ a₂.keysInOrder 0 := mem_keysInOrder.mpr ⟨0, hk⟩
    have hempty : a₁.keysInOrder 0 = [] := by
      refine List.eq_nil_iff_forall_not_mem.mpr fun x hx => ?_
      obtain ⟨p, hp⟩ := mem_keysInOrder.mp hx
      rw [ha.added] at hp
      cases hp
    rw [ha.moved.keysInOrder, hempty, List.nil_append] at hin
    split at hin
    · exact hin
    · cases hin
  have hpending : ∀ r, (a₂.pendingAt r).length = 0 := fun r => by
    unfold pendingAt
    rw [ha.pending]
    rfl
  obtain ⟨b, hb⟩ := exists_mergeRings env 2 0 ha.waiting.collections ha.waiting.appendOnly
    (by rw [hcurrent]; decide) (by rw [hpageA 2 (by decide), hcap]; decide)
    (by rw [hfirst, hcap]; decide) ⟨hpending 2, hpending 0⟩ (fun k hk => ha.known k (hmem k hk))
    (by rw [hpageA 2 (by decide), hfirst, hsize]; decide)
  obtain ⟨_, m, -, -, -, -, -, -, -, -, -, hm, hb'⟩ := mergeRings_spec hb
  have hpage := page_mergeRings hb
  have hstatus := ringStatusAt_mergeRings hb
  refine ⟨a₁, a₂, b, ha, hb, ha.waiting.mergeRings hb, ?_, ?_, ?_, ?_, fun p => ?_, ?_, fun p => ?_,
    fun k hk => ?_⟩
  · rw [hb']
    exact hcurrent
  · rw [hb']
    exact ha.onboardingSize
  · rw [hb']
    exact ha.pending
  · rw [hstatus, if_neg (by decide), if_neg (by decide), ha.status 1 Nat.one_ne_zero]
    rfl
  · rw [hpage, if_neg (by simp), if_neg (by simp), hpageA 1 Nat.one_ne_zero]
  · rw [hstatus, if_neg (by decide), if_pos rfl, hfirst, ha.status 2 (by decide)]
    exact U32.saturatingAdd_eq (a := 0) (b := 255) (by decide)
  · rw [hpage, if_neg (by simp)]
    rcases Nat.eq_zero_or_pos p with rfl | hp
    · rw [if_pos ⟨rfl, rfl⟩, hpageA 2 (by decide), List.nil_append, hfirst]
      rfl
    · rw [if_neg (by omega), hpageA 2 (by decide), List.length_nil]
      omega
  · rw [hb', (moveKeys_spec hm).2.2.1 k fun hin => hk (hmem k hin)]
    exact ha.others k hk

/-- The second ring is filled, and the next cohort fills what is left of the third. -/
theorem Store.Crowded.exists_fillsRing (env : Env sampleConfig) {b : Store sampleConfig}
    (h : Crowded b) : ∃ c₁ c₂ d₁ d₂, FillsRing env sampleCohorts (sampleKeys 767 767) b c₁ c₂ ∧
      FillsRing env sampleCohorts (sampleKeys 1534 512) c₂ d₁ d₂ := by
  have hone : b.currentRingIndex ≠ 2 := by
    rw [h.currentRingIndex]
    decide
  obtain ⟨c₁, c₂, hc⟩ := h.waiting.exists_fillsRing env
    (sampleKeys_ne_nil (a := 767) (n := 767) (by decide)) (sampleKeys_nodup 767 767)
    (fun k hk => h.fresh k (notMem_sampleKeys (by decide) k hk)) (fun _ _ => rfl)
    (by rw [length_sampleKeys]; decide)
    (by rw [h.currentRingIndex, h.second]; exact Paging.packed_zero h.second_nil)
    (by rw [h.pending]; rfl) (by rw [h.currentRingIndex, h.second, length_sampleKeys]; rfl)
  have hcurrent : c₂.currentRingIndex = 2 := by
    rw [hc.currentRingIndex, h.currentRingIndex]
    rfl
  have hstatus : (c₂.ringStatusAt 2).total = 255 := by
    rw [hc.status 2 hone.symm]
    exact h.third
  obtain ⟨d₁, d₂, hd⟩ := hc.waiting.exists_fillsRing env
    (sampleKeys_ne_nil (a := 1534) (n := 512) (by decide)) (sampleKeys_nodup 1534 512)
    (fun k hk => by
      rw [hc.others k (notMem_sampleKeys (by decide) k hk)]
      exact h.fresh k (notMem_sampleKeys (by decide) k hk))
    (fun _ _ => rfl) (by rw [length_sampleKeys]; decide)
    (by
      rw [hcurrent, hstatus, hc.page 2 hone.symm]
      exact h.third_packed)
    (by rw [hc.pending, h.pending]; rfl) (by rw [hcurrent, hstatus, length_sampleKeys]; rfl)
  exact ⟨c₁, c₂, d₁, d₂, hc, hd⟩

/-- Runs with cohorts of 600 reach a collection that onboards 512 members at once. -/
theorem exists_small_cohort : ∃ s : State sampleConfig,
    State.Reachable (State.OnCalls fun _ _ c => c.KeepsSize 600) s ∧
      (s.store sampleId).onboardingSize = 600 ∧ ∃ t,
      (s.store sampleId).onboardMembers false = .ok (t, true) ∧
      (s.store sampleId).Moved t (sampleKeys 1534 512) := by
  obtain ⟨u, hu, hus, hue⟩ := State.Reachable.call (G := State.OnCalls fun _ _ c => c.KeepsSize 600)
    (s := State.genesis sampleConfig) (Reaches.refl _) sampleId
    (.createCollection (0 : Nat) 600 .appendOnly .r2e10 none) rfl ⟨_, rfl⟩ rfl
  obtain ⟨a₁, a₂, b, ha, hb, hcrowded⟩ := Store.exists_crowded u.env
  obtain ⟨c₁, c₂, d₁, d₂, hc, hd⟩ := hcrowded.exists_fillsRing u.env
  have honboard : ∀ {t t' : Store sampleConfig}, t.onboardMembers false = .ok (t', true) →
      t.exec u.env (.onboardMembers false) = .ok t' := by
    intro t t' h
    show Except.map Prod.fst (t.onboardMembers false) = _
    rw [h]
    rfl
  have hrun : State.Run u.env (fun _ _ c => c.KeepsSize 600) (u.store sampleId) d₁ := by
    rw [hus]
    refine Reaches.tail ?_ (i := .addMembers (sampleKeys 1534 512)) ⟨trivial, rfl⟩ hd.add
    refine Reaches.tail ?_ (i := .onboardMembers false) ⟨trivial, rfl⟩ (honboard hc.onboard)
    refine Reaches.tail ?_ (i := .addMembers (sampleKeys 767 767)) ⟨trivial, rfl⟩ hc.add
    refine Reaches.tail ?_ (i := .mergeRings 2 0) ⟨trivial, rfl⟩ hb
    refine Reaches.tail ?_ (i := .onboardMembers false) ⟨trivial, rfl⟩ (honboard ha.onboard)
    exact Reaches.tail (Reaches.refl _) (i := .addMembers (sampleKeys 0 767)) ⟨trivial, rfl⟩ ha.add
  obtain ⟨s, hs, hstore, -⟩ := hu.run hrun
  refine ⟨s, hs, ?_, d₂, hstore ▸ hd.onboard, hstore ▸ hd.moved⟩
  rw [hstore, hd.added]
  show c₂.onboardingSize = 600
  rw [hc.onboardingSize]
  exact hcrowded.onboardingSize

/-- Three members join in cohorts of two at least. -/
theorem cohort_privacy_three : ∃ (s : State sampleConfig) (t : Store sampleConfig),
    (s.store sampleId).onboardMembers false = .ok (t, true) ∧
      ∃ moved, (s.store sampleId).Moved t moved ∧ 2 ≤ moved.length := by
  obtain ⟨s, hs, hr⟩ := exists_sampleRun
    (G := fun _ s c => c.KeepsSize 2 ∧ s.KeepsCohorts c)
    [.createCollection (0 : Nat) 2 .flexible .r2e9 none, .addMembers (sampleKeys 0 3)] (by decide)
    (fun env s c hc => by
      simp only [List.mem_cons, List.not_mem_nil, or_false] at hc
      rcases hc with rfl | rfl
      · exact ⟨rfl, trivial⟩
      · exact ⟨trivial, trivial⟩)
  have honboard : (sampleRun [.createCollection (0 : Nat) 2 .flexible .r2e9 none,
      .addMembers (sampleKeys 0 3)]).toOption.any (fun s =>
        ((s.store sampleId).onboardMembers false).toOption.any Prod.snd) = true := by decide
  rw [hs] at honboard
  cases ht : (s.store sampleId).onboardMembers false with
  | error e =>
    rw [Except.toOption, Option.any, ht] at honboard
    cases honboard
  | ok result =>
    obtain ⟨t, done⟩ := result
    rw [Except.toOption, Option.any, ht] at honboard
    obtain rfl : done = true := honboard
    exact ⟨s, t, ht, cohort_privacy (hr.onCallsTo sampleId) ht⟩

/-- With cohorts of 600, the 512 members that fill the third ring are onboarded at once. -/
theorem cohort_privacy_fails : ∃ (s : State sampleConfig) (t : Store sampleConfig),
    State.Reachable (State.OnCallsTo sampleId fun _ _ c => c.KeepsSize 600) s ∧
      (s.store sampleId).onboardingSize = 600 ∧
      (s.store sampleId).onboardMembers false = .ok (t, true) ∧
      (s.store sampleId).Moved t (sampleKeys 1534 512) ∧
      ¬ ∃ moved, (s.store sampleId).Moved t moved ∧ 600 ≤ moved.length := by
  obtain ⟨s, hs, hsize, t, honboard, hmoved⟩ := exists_small_cohort
  refine ⟨s, t, hs.onCallsTo sampleId, hsize, honboard, hmoved, ?_⟩
  rintro ⟨moved, hmoved', hle⟩
  have hsame := hmoved'.keysInOrder (s.store sampleId).currentRingIndex
  rw [hmoved.keysInOrder, if_pos rfl, if_pos rfl] at hsame
  rw [← List.append_cancel_left hsame, length_sampleKeys] at hle
  exact absurd hle (by decide)

end Individuality.Members
