import Individuality.Members.Calls

/-! What each operation does, said once.

Every operation of the pallet has one lemma here that turns its success into the
checks that passed and the store it leaves, written as the old store with the
fields it changed. Loops get a lemma about one turn and, from it, one about the
whole loop. The invariants are proved from these and unfold no operation. -/
namespace Individuality.Members
open Support
namespace Store
variable {T : Config}

/-! ### The loop of onboarding -/

/-- The ring's pages as the loop sees them: those stored, and the one it is writing. -/
def Filling.cursor (f : Filling T) (r : Nat) : Paging.Cursor T.Member :=
  ⟨Function.update (f.store.page r) f.pageIndex f.keys.toList, f.pageIndex⟩

/-- A filling that starts on a stored page. -/
theorem Filling.cursor_stored (s : Store T) (r p : Nat) :
    (⟨s, p, s.ringKeysAt r p⟩ : Filling T).cursor r = ⟨s.page r, p⟩ := by
  simp only [Filling.cursor, Paging.Cursor.mk.injEq, and_true]
  exact Function.update_eq_self _ _

theorem Filling.page_close (f : Filling T) (r r' : Nat) (p : Nat) :
    (f.close r).page r' p = if r' = r then (f.cursor r).pages p else f.store.page r' p := by
  unfold Filling.close Filling.cursor
  rw [page_setRingPage]
  by_cases hr : r' = r
  · subst hr
    by_cases hp : p = f.pageIndex <;> simp [hp]
  · simp [hr]

theorem includeKey_spec {r : Nat} {f f' : Filling T} {key : T.Member}
    (h : includeKey r f key = .ok f') :
    (f.store.members.get key).isSome = true ∧ f.keys.length < T.flexibleRingCapacity ∧
      f'.store = { f.store with members := f'.store.members, ringKeys := f'.store.ringKeys } ∧
      f'.store.members = f.store.members.insert key (.included r f.pageIndex f.keys.length) ∧
      ∀ r' p, r' ≠ r → f'.store.page r' p = f.store.page r' p := by
  simp only [includeKey, bind_eq_ok, ensure_eq_ok, okOr_eq_ok] at h
  obtain ⟨-, hmem, keys, hkeys, h⟩ := h
  have hpush := BoundedVec.tryPush_eq_some.mp hkeys
  have hroom : f.keys.length < T.flexibleRingCapacity := by
    have hle := keys.length_le
    rw [hpush, List.length_append, List.length_singleton] at hle
    exact hle
  refine ⟨hmem, hroom, ?_⟩
  split at h <;> cases h
  · refine ⟨rfl, rfl, fun r' p hr => ?_⟩
    rw [page_setRingPage, if_neg (by tauto)]
    rfl
  · exact ⟨rfl, rfl, fun _ _ _ => rfl⟩

/-- One turn pushes the key at the cursor, as long as the page numbers do not saturate. -/
theorem includeKey_cursor {r : Nat} {f f' : Filling T} {key : T.Member}
    (h : includeKey r f key = .ok f') (hp : f.pageIndex < U32.max) :
    f'.cursor r = (f.cursor r).push T.flexibleRingCapacity key := by
  simp only [includeKey, bind_eq_ok, ensure_eq_ok, okOr_eq_ok] at h
  obtain ⟨-, -, keys, hkeys, h⟩ := h
  have hpush := BoundedVec.tryPush_eq_some.mp hkeys
  have hat : (f.cursor r).pages f.pageIndex = f.keys.toList := Function.update_self _ _ _
  have hlen : ((f.cursor r).pages f.pageIndex ++ [key]).length = keys.length := by
    rw [hat, ← hpush]
    rfl
  split at h
  · rename_i hfull
    cases h
    have hcond : T.flexibleRingCapacity ≤ ((f.cursor r).pages f.pageIndex ++ [key]).length :=
      hlen ▸ hfull
    simp only [Filling.cursor, Paging.Cursor.push, Function.update_self] at hat hcond ⊢
    rw [if_pos hcond, U32.saturatingInc_eq hp, ← hpush, Function.update_idem,
      Paging.Cursor.mk.injEq]
    refine ⟨?_, rfl⟩
    -- The next page is fetched as it is stored.
    funext p
    by_cases hp' : p = f.pageIndex + 1
    · subst hp'
      rw [Function.update_self, Function.update_of_ne (by omega)]
      show (_ : List T.Member) = _
      have : ((f.store.setMember key (.included r f.pageIndex f.keys.length)).setRingPage r
          f.pageIndex keys).page r (f.pageIndex + 1) = f.store.page r (f.pageIndex + 1) := by
        rw [page_setRingPage, if_neg fun h => absurd h.2 (Nat.succ_ne_self _)]
        rfl
      exact this
    · rw [Function.update_of_ne hp', page_setRingPage]
      by_cases hpe : p = f.pageIndex
      · subst hpe
        simp
      · rw [Function.update_of_ne hpe, if_neg (by tauto)]
        rfl
  · rename_i hfull
    cases h
    have hcond : ¬ T.flexibleRingCapacity ≤ ((f.cursor r).pages f.pageIndex ++ [key]).length :=
      hlen ▸ hfull
    simp only [Filling.cursor, Paging.Cursor.push, Function.update_self] at hat hcond ⊢
    rw [if_neg hcond, ← hpush, Function.update_idem]
    rfl

/-- The loop touches the members' records and the ring's pages only. -/
theorem includeKeys_frame {r : Nat} {f f' : Filling T} {keys : List T.Member}
    (h : keys.foldlM (includeKey r) f = .ok f') :
    f'.store = { f.store with members := f'.store.members, ringKeys := f'.store.ringKeys } := by
  refine foldlM_ok_induction (fun _ t =>
    t.store = { f.store with members := t.store.members, ringKeys := t.store.ringKeys }) h rfl ?_
  intro done key t t' _ ht hstep
  obtain ⟨-, -, hframe, -, -⟩ := includeKey_spec hstep
  rw [hframe]
  conv_lhs => rw [ht]

/-- Keys that are not onboarded keep their record; the others had one, and are included in
the ring now. -/
theorem includeKeys_members {r : Nat} {f f' : Filling T} {keys : List T.Member}
    (h : keys.foldlM (includeKey r) f = .ok f') (k : T.Member) :
    (k ∉ keys → f'.store.members.get k = f.store.members.get k) ∧
      (k ∈ keys → ∃ p i, f'.store.members.get k = some (.included r p i)) := by
  refine foldlM_ok_induction (fun done t =>
    (k ∉ done → t.store.members.get k = f.store.members.get k) ∧
      (k ∈ done → ∃ p i, t.store.members.get k = some (.included r p i))) h
    ⟨fun _ => rfl, fun hk => by cases hk⟩ ?_
  intro done key t t' _ ht hstep
  obtain ⟨-, -, -, hmem, -⟩ := includeKey_spec hstep
  rw [hmem, StorageMap.get_insert]
  by_cases hk : k = key
  · subst hk
    refine ⟨fun hne => absurd (by simp) hne, fun _ => ⟨_, _, if_pos rfl⟩⟩
  · rw [if_neg hk]
    refine ⟨fun hne => ht.1 fun hd => hne (by simp [hd]), fun hd => ht.2 ?_⟩
    simpa [hk] using hd

/-- The loop gives each key the record of the slot it pushes the key into: what such a turn
carries of records and pages holds after the loop. -/
theorem includeKeys_loop
    {P : List T.Member → (T.Member → Option RingPosition) → Paging.Cursor T.Member → Prop} {r : Nat}
    {f f' : Filling T} {keys : List T.Member} (h : keys.foldlM (includeKey r) f = .ok f')
    (hp : f.pageIndex + keys.length ≤ U32.max) (h₀ : P [] f.store.members.get (f.cursor r))
    (push : ∀ done key m c, done ++ [key] <+: keys → P done m c →
      (c.pages c.at_).length < T.flexibleRingCapacity →
      P (done ++ [key])
        (fun k => if k = key then some (.included r c.at_ (c.pages c.at_).length) else m k)
        (c.push T.flexibleRingCapacity key)) : P keys f'.store.members.get (f'.cursor r) := by
  refine (foldlM_ok_induction (fun done t => P done t.store.members.get (t.cursor r) ∧
    t.pageIndex ≤ f.pageIndex + done.length) h ⟨h₀, le_rfl⟩ ?_).1
  intro done key t t' hpre ⟨hP, hat⟩ hstep
  have hlen := hpre.length_le
  rw [List.length_append, List.length_singleton] at hlen
  have hcursor := includeKey_cursor hstep (by omega)
  obtain ⟨-, hroom, -, hmem, -⟩ := includeKey_spec hstep
  have hself : (t.cursor r).pages t.pageIndex = t.keys.toList := Function.update_self _ _ _
  have hget : t'.store.members.get = fun k => if k = key then
      some (.included r (t.cursor r).at_ ((t.cursor r).pages (t.cursor r).at_).length)
      else t.store.members.get k := by
    funext k
    rw [hmem, StorageMap.get_insert]
    show _ = if k = key then
      some (RingPosition.included r t.pageIndex ((t.cursor r).pages t.pageIndex).length) else _
    rw [hself]
    rfl
  refine ⟨?_, ?_⟩
  · rw [hcursor, hget]
    refine push done key _ _ hpre hP ?_
    show ((t.cursor r).pages t.pageIndex).length < _
    rw [hself]
    exact hroom
  · have hnext := Paging.Cursor.at_push_le T.flexibleRingCapacity (t.cursor r) key
    rw [← hcursor] at hnext
    rw [List.length_append, List.length_singleton]
    exact hnext.trans (Nat.succ_le_succ hat)

/-- The record an onboarded key gets says where the loop stored the key. -/
theorem includeKeys_stored {r : Nat} {f f' : Filling T} {keys : List T.Member}
    (h : keys.foldlM (includeKey r) f = .ok f') (hp : f.pageIndex + keys.length ≤ U32.max) :
    ∀ k ∈ keys, ∃ p i, f'.store.members.get k = some (.included r p i) ∧
      ((f'.cursor r).pages p)[i]? = some k := by
  refine includeKeys_loop (P := fun done m c => ∀ k ∈ done, ∃ p i, m k = some (.included r p i) ∧
    (c.pages p)[i]? = some k) h hp (fun k hk => by cases hk) ?_
  intro done key m c _ hstored _ k hk
  by_cases hkey : k = key
  · subst hkey
    refine ⟨c.at_, (c.pages c.at_).length, if_pos rfl, ?_⟩
    rw [Paging.Cursor.pages_push_self]
    exact List.getElem?_concat_length
  · obtain ⟨p, i, hrec, hget⟩ := hstored k (by simpa [hkey] using hk)
    exact ⟨p, i, (if_neg hkey).trans hrec, Paging.Cursor.getElem?_push hget⟩

/-- The loop writes pages of its own ring only. -/
theorem includeKeys_page_of_ne {r : Nat} {f f' : Filling T} {keys : List T.Member}
    (h : keys.foldlM (includeKey r) f = .ok f') (r' : Nat) (p : Nat) (hr : r' ≠ r) :
    f'.store.page r' p = f.store.page r' p := by
  refine foldlM_ok_induction (fun _ t => t.store.page r' p = f.store.page r' p) h rfl ?_
  intro done key t t' _ ht hstep
  obtain ⟨-, -, -, -, hpage⟩ := includeKey_spec hstep
  rw [hpage r' p hr, ht]

/-! ### Onboarding -/

/-- The queue after a round: what is left of the pages read stays at the new head. -/
theorem requeue_spec {s s' : Store T} {oldHead head tail : QueuePageIndex}
    {remaining : List T.Member} (hfit : remaining.length ≤ T.onboardingQueuePageSize)
    (h : s.requeue oldHead head tail remaining = .ok s') :
    s' = { s with
        onboardingQueue := s'.onboardingQueue
        queuePageIndices := s'.queuePageIndices } ∧
      (∀ q, s'.queuePage q = if q = head then remaining else if q = oldHead then []
        else s.queuePage q) ∧
      s'.queuePageIndices = (if remaining = [] ∧ head ≠ tail then head + 1#32 else head, tail) := by
  unfold requeue at h
  rw [if_neg (by omega)] at h
  split at h
  · rename_i hne
    simp only [bind_eq_ok, okOr_eq_ok, BoundedVec.tryFrom_eq_some] at h
    obtain ⟨keys, hkeys, h⟩ := h
    cases h
    refine ⟨rfl, fun q => ?_, by simp [hne]⟩
    show ((s.removeQueuePage oldHead).setQueuePage head keys).queuePage q = _
    rw [queuePage_setQueuePage, queuePage_removeQueuePage, hkeys]
  · rename_i he
    have he : remaining = [] := by simpa using he
    subst he
    cases h
    by_cases hh : oldHead = head
    · subst hh
      refine ⟨by simp [removeQueuePage], fun q => ?_, ?_⟩
      · show (Store.queuePage _ q) = _
        simp only [ne_eq, not_true_eq_false, if_false]
        show (s.removeQueuePage oldHead).queuePage q = _
        rw [queuePage_removeQueuePage]
        split <;> simp_all
      · by_cases ht : oldHead = tail <;> simp [ht]
    · refine ⟨by simp [removeQueuePage, hh], fun q => ?_, ?_⟩
      · simp only [ne_eq, hh, not_false_eq_true, if_true]
        show ((s.removeQueuePage head).removeQueuePage oldHead).queuePage q = _
        rw [queuePage_removeQueuePage, queuePage_removeQueuePage]
        by_cases h1 : q = head <;> by_cases h2 : q = oldHead <;> simp_all
      · by_cases ht : head = tail <;> simp [ht]

/-- How many members a round takes: no more than are there or fit, and all of them unless it
fills the ring. -/
theorem shouldOnboardMembers_spec {s : Store T} {r : Nat} {status : RingStatus}
    {openSlots available size cap n : Nat} {filled : Bool}
    (h : s.shouldOnboardMembers r status openSlots available size cap = some (n, filled)) :
    s.ringsState.appendOnly = true ∧ s.pendingSuspensions.get r = none ∧ 0 < n ∧
      n = min available openSlots ∧ (filled = true ↔ openSlots = n) := by
  unfold shouldOnboardMembers at h
  split at h
  · cases h
  · split at h
    · cases h
    · rename_i happ
      split at h
      · cases h
      · rename_i hpend
        simp only at h
        split at h
        · cases h
        · rename_i hne
          split at h
          · cases h
            refine ⟨by simpa using happ, ?_, by omega, rfl, by simp⟩
            simpa [StorageMap.contains] using hpend
          · cases h

/-- The pages a round reads: the head page, joined by the next one when it leaves room. -/
theorem candidates_cases (s : Store T) (openSlots : Nat) :
    (s.candidates openSlots = (s.queuePageIndices.1, s.queuePage s.queuePageIndices.1)) ∨
      ((s.queuePage s.queuePageIndices.1).length < openSlots ∧
        s.queuePageIndices.1 ≠ s.queuePageIndices.2 ∧
        s.candidates openSlots = (s.queuePageIndices.1 + 1#32,
          s.queuePage s.queuePageIndices.1 ++ s.queuePage (s.queuePageIndices.1 + 1#32))) := by
  unfold candidates
  simp only
  split
  · rename_i h
    exact .inr ⟨h.1, h.2, rfl⟩
  · exact .inl rfl

/-- A round that reads two pages takes the whole of the first, so what is left is the end of
the second and fits its page. -/
theorem remaining_of_two {n openSlots : Nat} {first second : List T.Member}
    (hfirst : first.length < openSlots) (hf : first.length ≤ T.onboardingQueuePageSize)
    (hn : n = min (U32.saturatedFrom (first ++ second).length) openSlots) :
    first.length ≤ n ∧ (first ++ second).drop n = second.drop (n - first.length) := by
  have hP := T.onboardingQueuePageSize_le
  have hle : first.length ≤ n := by
    rw [hn, U32.saturatedFrom, List.length_append]
    omega
  refine ⟨hle, ?_⟩
  rw [List.drop_append, List.drop_of_length_le hle, List.nil_append]

/-- `available_ring` moves the current ring's index at most. -/
theorem availableRing_store (s : Store T) (cap : Nat) :
    (s.availableRing cap).store =
      { s with currentRingIndex := (s.availableRing cap).store.currentRingIndex } := by
  unfold availableRing
  simp only
  split <;> rfl

theorem availableRing_of_not_full {s : Store T} {cap : Nat} (h : ¬ s.currentRingFull cap) :
    s.availableRing cap = ⟨s, s.currentRingIndex,
      (s.ringStatusAt s.currentRingIndex).total / T.flexibleRingCapacity,
      s.ringKeysAt s.currentRingIndex
        ((s.ringStatusAt s.currentRingIndex).total / T.flexibleRingCapacity),
      s.ringStatusAt s.currentRingIndex⟩ := if_neg h

/-- The page that is filled next, and its keys. -/
theorem availableRing_keys (s : Store T) (cap : Nat) : (s.availableRing cap).keys =
    s.ringKeysAt (s.availableRing cap).ringIndex (s.availableRing cap).pageIndex := by
  unfold availableRing
  simp only
  split <;> rfl

/-- A full ring is left for the first page of the next one. -/
theorem pageIndex_of_full {s : Store T} {cap : Nat} (h : s.currentRingFull cap) :
    (s.availableRing cap).pageIndex = 0 := by
  unfold availableRing
  simp only
  rw [if_pos h]

/-- A round of onboarding: what it read and what it left. -/
structure Round (s s' : Store T) where
  info : CollectionInfo T
  a : AvailableRing T
  /-- The page its last members come from, and the members it read. -/
  head : QueuePageIndex
  keys : List T.Member
  toInclude : Nat
  filled : Bool
  /-- The loop's last turn. -/
  last : Filling T
  collections_eq : s.collections = some info
  a_eq : s.availableRing info.ringSize.ringCapacity = a
  candidates_eq : s.candidates (info.ringSize.ringCapacity -
    (a.keys.length + a.pageIndex * T.flexibleRingCapacity)) = (head, keys)
  should : s.shouldOnboardMembers a.ringIndex a.status
    (info.ringSize.ringCapacity - (a.keys.length + a.pageIndex * T.flexibleRingCapacity))
    (U32.saturatedFrom keys.length) s.onboardingSize info.ringSize.ringCapacity =
      some (toInclude, filled)
  loop : (keys.take toInclude).foldlM (includeKey a.ringIndex) ⟨a.store, a.pageIndex, a.keys⟩ =
    .ok last
  commit : ((last.close a.ringIndex).recordOnboarded a.ringIndex a.status toInclude filled).requeue
    s.queuePageIndices.1 head s.queuePageIndices.2 (keys.drop toInclude) = .ok s'

theorem onboardMembers_spec {s s' : Store T} {mustBuild done : Bool}
    (h : s.onboardMembers mustBuild = .ok (s', done)) :
    (s' = s ∧ done = false) ∨ Nonempty (Round s s') := by
  simp only [onboardMembers, bind_eq_ok, okOr_eq_ok] at h
  obtain ⟨info, hinfo, h⟩ := h
  have hstore := availableRing_store s info.ringSize.ringCapacity
  generalize ha : s.availableRing info.ringSize.ringCapacity = a at h hstore
  have hcandidates : ∀ n, a.store.candidates n = s.candidates n := fun n => by rw [hstore]; rfl
  have hshould : ∀ r status o n m c, a.store.shouldOnboardMembers r status o n m c =
      s.shouldOnboardMembers r status o n m c := fun _ _ _ _ _ _ => by rw [hstore]; rfl
  have hqueue : a.store.queuePageIndices = s.queuePageIndices := by rw [hstore]
  rw [hcandidates, hshould] at h
  split at h
  · split at h <;> cases h
    exact .inl ⟨rfl, rfl⟩
  · rename_i toInclude filled hsome
    simp only [onboard, bind_eq_ok, hqueue] at h
    obtain ⟨t, ⟨f, hloop, hcommit⟩, h⟩ := h
    cases h
    exact .inr ⟨⟨info, a, _, _, toInclude, filled, f, hinfo, ha, rfl, hsome, hloop, hcommit⟩⟩

namespace Round
variable {s s' : Store T} (R : Round s s')

/-- What the round leaves of the pages it read, in one page of the queue. -/
theorem keys_cases :
    (R.head = s.queuePageIndices.1 ∧ R.keys = s.queuePage R.head) ∨
      (R.head = s.queuePageIndices.1 + 1#32 ∧ s.queuePageIndices.1 ≠ s.queuePageIndices.2 ∧
        R.keys = s.queuePage s.queuePageIndices.1 ++ s.queuePage R.head ∧
        (s.queuePage s.queuePageIndices.1).length ≤ R.toInclude ∧
        R.keys.drop R.toInclude =
          (s.queuePage R.head).drop (R.toInclude - (s.queuePage s.queuePageIndices.1).length)) := by
  obtain ⟨-, -, -, hn, -⟩ := shouldOnboardMembers_spec R.should
  rcases candidates_cases s (R.info.ringSize.ringCapacity -
      (R.a.keys.length + R.a.pageIndex * T.flexibleRingCapacity)) with h | ⟨hlt, hne, h⟩
  · rw [R.candidates_eq, Prod.mk.injEq] at h
    exact .inl ⟨h.1, by rw [h.2, h.1]⟩
  · rw [R.candidates_eq, Prod.mk.injEq] at h
    obtain ⟨hhead, hkeys⟩ := h
    rw [hkeys] at hn
    obtain ⟨hle, hdrop⟩ := remaining_of_two hlt (s.queuePage_length_le _) hn
    rw [hhead]
    exact .inr ⟨rfl, hne, hkeys, hle, hkeys ▸ hdrop⟩

theorem fits : (R.keys.drop R.toInclude).length ≤ T.onboardingQueuePageSize := by
  rcases R.keys_cases with ⟨-, hkeys⟩ | ⟨-, -, -, -, hdrop⟩
  · rw [hkeys, List.length_drop]
    exact (Nat.sub_le _ _).trans (s.queuePage_length_le _)
  · rw [hdrop, List.length_drop]
    exact (Nat.sub_le _ _).trans (s.queuePage_length_le _)

/-- The store a round leaves: the records and pages of the loop, the counters, the queue. -/
theorem store_eq :
    s' = { s with
      members := R.last.store.members
      ringKeys := (R.last.close R.a.ringIndex).ringKeys
      activeMembers := U32.saturatingAdd s.activeMembers R.toInclude
      ringKeysStatus := s.ringKeysStatus.insert R.a.ringIndex
        { R.a.status with total := U32.saturatingAdd R.a.status.total R.toInclude }
      staleRings := s.staleRings.insert R.a.ringIndex ()
      currentRingIndex := if R.filled then U32.saturatingInc R.a.store.currentRingIndex
        else R.a.store.currentRingIndex
      onboardingQueue := s'.onboardingQueue
      queuePageIndices := s'.queuePageIndices } := by
  obtain ⟨hframe, -, -⟩ := requeue_spec R.fits R.commit
  have hloop := includeKeys_frame R.loop
  have hstore := availableRing_store s R.info.ringSize.ringCapacity
  rw [R.a_eq] at hstore
  simp only at hloop
  rw [hstore] at hloop
  conv_lhs => rw [hframe]
  simp only [recordOnboarded, Filling.close, setRingPage]
  rw [hloop]

theorem queuePage_eq (q : QueuePageIndex) :
    s'.queuePage q = if q = R.head then R.keys.drop R.toInclude
      else if q = s.queuePageIndices.1 then [] else s.queuePage q := by
  obtain ⟨-, hpages, -⟩ := requeue_spec R.fits R.commit
  have hloop := includeKeys_frame R.loop
  have hstore := availableRing_store s R.info.ringSize.ringCapacity
  rw [R.a_eq] at hstore
  rw [hpages q]
  have hsame : ((R.last.close R.a.ringIndex).recordOnboarded R.a.ringIndex R.a.status R.toInclude
      R.filled).queuePage q = s.queuePage q := by
    simp only at hloop
    rw [hstore] at hloop
    unfold queuePage queueAt recordOnboarded Filling.close setRingPage
    rw [hloop]
  rw [hsame]

theorem queuePageIndices_eq :
    s'.queuePageIndices = (if R.keys.drop R.toInclude = [] ∧ R.head ≠ s.queuePageIndices.2
      then R.head + 1#32 else R.head, s.queuePageIndices.2) :=
  (requeue_spec R.fits R.commit).2.2

theorem members_eq : s'.members = R.last.store.members := by
  have h := congrArg Store.members R.store_eq
  exact h

theorem activeMembers_eq :
    s'.activeMembers = U32.saturatingAdd s.activeMembers R.toInclude := by
  have h := congrArg Store.activeMembers R.store_eq
  exact h

include R in
/-- A round leaves roots, suspensions, deletions and the onboarding size alone. -/
theorem frame : s'.root = s.root ∧ s'.pendingSuspensions = s.pendingSuspensions ∧
    s'.ringDeletionQueue = s.ringDeletionQueue ∧ s'.onboardingSize = s.onboardingSize := by
  have hroot := congrArg Store.root R.store_eq
  have hpending := congrArg Store.pendingSuspensions R.store_eq
  have hdeletions := congrArg Store.ringDeletionQueue R.store_eq
  have hsize := congrArg Store.onboardingSize R.store_eq
  exact ⟨hroot, hpending, hdeletions, hsize⟩

/-- A member the round does not take keeps its record. -/
theorem members_of_notMem {k : T.Member} (hk : k ∉ R.keys.take R.toInclude) :
    s'.members.get k = s.members.get k := by
  have hstore := availableRing_store s R.info.ringSize.ringCapacity
  rw [R.a_eq] at hstore
  have h := (includeKeys_members R.loop k).1 hk
  rw [R.members_eq, h]
  show R.a.store.members.get k = _
  rw [hstore]

/-- A member the round takes is included in the available ring. -/
theorem members_of_mem {k : T.Member} (hk : k ∈ R.keys.take R.toInclude) :
    ∃ p i, s'.members.get k = some (.included R.a.ringIndex p i) := by
  rw [R.members_eq]
  exact (includeKeys_members R.loop k).2 hk

theorem length_take : (R.keys.take R.toInclude).length = R.toInclude := by
  obtain ⟨-, -, -, hn, -⟩ := shouldOnboardMembers_spec R.should
  rw [List.length_take]
  have := U32.saturatedFrom_le R.keys.length
  omega

/-- The pages a round leaves: those of its loop in the ring it fills, the others as they
were. -/
theorem page_eq (r p : Nat) : s'.page r p =
    if r = R.a.ringIndex then (R.last.cursor R.a.ringIndex).pages p else s.page r p := by
  have hpages : s'.page r p = (R.last.close R.a.ringIndex).page r p := by
    have h := congrArg Store.ringKeys R.store_eq
    unfold page ringKeysAt
    rw [h]
  rw [hpages, Filling.page_close]
  split
  · rfl
  · rename_i hr
    have hstore := availableRing_store s R.info.ringSize.ringCapacity
    rw [R.a_eq] at hstore
    rw [includeKeys_page_of_ne R.loop r p hr]
    show R.a.store.page r p = _
    unfold page ringKeysAt
    rw [hstore]

theorem ringStatusAt_eq (r : Nat) : s'.ringStatusAt r = if r = R.a.ringIndex then
    { R.a.status with total := U32.saturatingAdd R.a.status.total R.toInclude }
    else s.ringStatusAt r := by
  have h := congrArg Store.ringKeysStatus R.store_eq
  unfold ringStatusAt
  rw [h, StorageMap.get_insert]
  split <;> rfl

/-! A round that starts while the current ring has room. -/

section NotFull
variable (hroom : ¬ s.currentRingFull R.info.ringSize.ringCapacity)
include hroom

theorem a_of_not_full : R.a = ⟨s, s.currentRingIndex,
    (s.ringStatusAt s.currentRingIndex).total / T.flexibleRingCapacity,
    s.ringKeysAt s.currentRingIndex
      ((s.ringStatusAt s.currentRingIndex).total / T.flexibleRingCapacity),
    s.ringStatusAt s.currentRingIndex⟩ := by
  rw [← R.a_eq]
  exact availableRing_of_not_full hroom

/-- Fewer pages than the ring's capacity has slots: the page numbers do not saturate. -/
theorem pageIndex_le_of_not_full :
    R.a.pageIndex + (R.keys.take R.toInclude).length ≤ U32.max := by
  obtain ⟨-, -, -, hn, -⟩ := shouldOnboardMembers_spec R.should
  rw [R.length_take]
  rw [R.a_of_not_full hroom] at hn ⊢
  have hcap := R.info.ringSize.ringCapacity_le
  have hpos := T.flexibleRingCapacity_pos
  unfold currentRingFull at hroom
  simp only [Nat.not_le] at hroom
  have hmul : (s.ringStatusAt s.currentRingIndex).total / T.flexibleRingCapacity ≤
      (s.ringStatusAt s.currentRingIndex).total / T.flexibleRingCapacity *
        T.flexibleRingCapacity := Nat.le_mul_of_pos_right _ hpos
  simp only [U32.max] at hn ⊢
  omega

end NotFull

/-- The page numbers do not saturate: a round that starts a ring starts with its first page. -/
theorem pageIndex_le : R.a.pageIndex + (R.keys.take R.toInclude).length ≤ U32.max := by
  by_cases hroom : s.currentRingFull R.info.ringSize.ringCapacity
  · obtain ⟨-, -, -, hn, -⟩ := shouldOnboardMembers_spec R.should
    have hzero := pageIndex_of_full hroom
    have hcap := R.info.ringSize.ringCapacity_le
    rw [R.a_eq] at hzero
    rw [R.length_take]
    simp only [U32.max] at hn ⊢
    omega
  · exact R.pageIndex_le_of_not_full hroom

/-- What the turns of the loop carry of records and pages holds after a round. -/
theorem turns
    {P : List T.Member → (T.Member → Option RingPosition) → Paging.Cursor T.Member → Prop}
    (h₀ : P [] s.members.get ⟨s.page R.a.ringIndex, R.a.pageIndex⟩)
    (push : ∀ done key m c, done ++ [key] <+: R.keys.take R.toInclude → P done m c →
      (c.pages c.at_).length < T.flexibleRingCapacity →
      P (done ++ [key]) (fun k => if k = key then
        some (.included R.a.ringIndex c.at_ (c.pages c.at_).length) else m k)
        (c.push T.flexibleRingCapacity key)) :
    ∃ c, P (R.keys.take R.toInclude) s'.members.get c ∧
      ∀ r p, s'.page r p = if r = R.a.ringIndex then c.pages p else s.page r p := by
  refine ⟨R.last.cursor R.a.ringIndex, ?_, R.page_eq⟩
  have hstore := availableRing_store s R.info.ringSize.ringCapacity
  have hkeys := availableRing_keys s R.info.ringSize.ringCapacity
  rw [R.a_eq] at hstore hkeys
  have hstart : (⟨R.a.store, R.a.pageIndex, R.a.keys⟩ : Filling T).cursor R.a.ringIndex =
      ⟨s.page R.a.ringIndex, R.a.pageIndex⟩ := by
    rw [hstore, hkeys]
    exact Filling.cursor_stored s R.a.ringIndex R.a.pageIndex
  rw [R.members_eq]
  refine includeKeys_loop R.loop R.pageIndex_le ?_ push
  show P [] R.a.store.members.get _
  rw [hstart, hstore]
  exact h₀

section NotFull
variable (hroom : ¬ s.currentRingFull R.info.ringSize.ringCapacity)
include hroom

theorem page_of_not_full (r p : Nat) : s'.page r p =
    if r = s.currentRingIndex then (R.last.cursor s.currentRingIndex).pages p
    else s.page r p := by
  have h := R.page_eq r p
  rwa [R.a_of_not_full hroom] at h

/-- The same, for the current ring. -/
theorem loop_of_not_full
    {P : List T.Member → (T.Member → Option RingPosition) → Paging.Cursor T.Member → Prop}
    (h₀ : P [] s.members.get ⟨s.page s.currentRingIndex,
      (s.ringStatusAt s.currentRingIndex).total / T.flexibleRingCapacity⟩)
    (push : ∀ done key m c, done ++ [key] <+: R.keys.take R.toInclude → P done m c →
      (c.pages c.at_).length < T.flexibleRingCapacity →
      P (done ++ [key]) (fun k => if k = key then
        some (.included s.currentRingIndex c.at_ (c.pages c.at_).length) else m k)
        (c.push T.flexibleRingCapacity key)) :
    ∃ c, P (R.keys.take R.toInclude) s'.members.get c ∧
      ∀ r p, s'.page r p = if r = s.currentRingIndex then c.pages p else s.page r p := by
  have hturns := R.turns (P := P)
  rw [R.a_of_not_full hroom] at hturns
  exact hturns h₀ push

/-- What pushing keys into pages with room carries holds of the ring's pages after a round. -/
theorem pages_of_not_full {P : List T.Member → Paging.Cursor T.Member → Prop}
    (h₀ : P [] ⟨s.page s.currentRingIndex,
      (s.ringStatusAt s.currentRingIndex).total / T.flexibleRingCapacity⟩)
    (push : ∀ done key c, P done c → (c.pages c.at_).length < T.flexibleRingCapacity →
      P (done ++ [key]) (c.push T.flexibleRingCapacity key)) :
    ∃ c, P (R.keys.take R.toInclude) c ∧
      ∀ r p, s'.page r p = if r = s.currentRingIndex then c.pages p else s.page r p :=
  R.loop_of_not_full hroom (P := fun done _ c => P done c) h₀ fun done key _ c _ => push done key c

/-- The record of a member the round takes says where the member is stored. -/
theorem stored_of_not_full {k : T.Member} (hk : k ∈ R.keys.take R.toInclude) :
    ∃ p i, s'.members.get k = some (.included s.currentRingIndex p i) ∧
      (s'.page s.currentRingIndex p)[i]? = some k := by
  have hbound := R.pageIndex_le_of_not_full hroom
  have hloop := R.loop
  rw [R.a_of_not_full hroom] at hloop hbound
  obtain ⟨p, i, hrec, hget⟩ := includeKeys_stored hloop hbound k hk
  refine ⟨p, i, by rw [R.members_eq, hrec], ?_⟩
  rw [R.page_of_not_full hroom, if_pos rfl, hget]

theorem ringStatusAt_of_not_full (r : Nat) :
    s'.ringStatusAt r = if r = s.currentRingIndex then
      { s.ringStatusAt r with total := U32.saturatingAdd (s.ringStatusAt r).total R.toInclude }
      else s.ringStatusAt r := by
  have h := R.ringStatusAt_eq r
  rw [R.a_of_not_full hroom] at h
  by_cases hr : r = s.currentRingIndex
  · rw [h, if_pos hr, if_pos hr, hr]
  · rw [h, if_neg hr, if_neg hr]

theorem currentRingIndex_of_not_full : s'.currentRingIndex =
    if R.filled then U32.saturatingInc s.currentRingIndex else s.currentRingIndex := by
  have h := congrArg Store.currentRingIndex R.store_eq
  rw [R.a_of_not_full hroom] at h
  exact h

end NotFull
end Round

/-! ### Self-inclusion -/

/-- The member leaves its page; an emptied page goes, and the head passes it. -/
theorem dequeue_spec {s s' : Store T} {q : QueuePageIndex} {member : T.Member}
    (h : s.dequeue q member = .ok s') :
    member ∈ s.queuePage q ∧
      s' = { s with
        onboardingQueue := s'.onboardingQueue
        queuePageIndices := s'.queuePageIndices } ∧
      (∀ q', s'.queuePage q' = if q' = q then (s.queuePage q).erase member
        else s.queuePage q') ∧
      s'.queuePageIndices = (if (s.queuePage q).erase member = [] ∧ s.queuePageIndices.1 = q ∧
        s.queuePageIndices.1 ≠ s.queuePageIndices.2 then q + 1#32 else s.queuePageIndices.1,
        s.queuePageIndices.2) := by
  unfold dequeue at h
  simp only at h
  split at h
  · rename_i hmem
    have herase : ((s.queueAt q).remove ((s.queueAt q).toList.idxOf member)).toList =
        (s.queuePage q).erase member := (List.erase_eq_eraseIdx_of_idxOf rfl).symm
    rw [herase] at h
    refine ⟨hmem, ?_⟩
    split at h
    · rename_i hnil
      rw [hnil]
      cases h
      refine ⟨rfl, fun q' => queuePage_removeQueuePage s q q', ?_⟩
      simp
    · rename_i hne
      cases h
      refine ⟨rfl, fun q' => ?_, ?_⟩
      · rw [queuePage_setQueuePage, herase]
      · rw [if_neg (by tauto)]
        rfl
  · cases h

/-- What self-inclusion read and left. -/
theorem doSelfInclude_spec {s s' : Store T} {member : T.Member}
    (h : s.doSelfInclude member = .ok s') :
    ∃ info q t d a keys, s.collections = some info ∧ s.ringsState.appendOnly = true ∧
      s.members.get member = some (.onboarding q t) ∧ s.dequeue q member = .ok d ∧
      d.availableRing info.ringSize.ringCapacity = a ∧ keys.toList = a.keys.toList ++ [member] ∧
      s' = { d with
        ringKeys := d.ringKeys.insert (a.ringIndex, a.pageIndex) keys
        members := d.members.insert member (.included a.ringIndex a.pageIndex a.keys.length)
        activeMembers := U32.saturatingAdd d.activeMembers 1
        ringKeysStatus := d.ringKeysStatus.insert a.ringIndex
          { a.status with total := U32.saturatingAdd a.status.total 1 }
        staleRings := d.staleRings.insert a.ringIndex ()
        currentRingIndex :=
          if info.ringSize.ringCapacity ≤ U32.saturatingAdd a.status.total 1 then
            U32.saturatingInc a.store.currentRingIndex else a.store.currentRingIndex } := by
  simp only [doSelfInclude, bind_eq_ok, okOr_eq_ok, ensure_eq_ok] at h
  obtain ⟨info, hinfo, -, happ, position, hget, h⟩ := h
  split at h
  · rename_i q t
    simp only [bind_eq_ok, okOr_eq_ok] at h
    obtain ⟨d, hd, keys, hkeys, h⟩ := h
    refine ⟨info, q, t, d, _, keys, hinfo, happ, hget, hd, rfl,
      BoundedVec.tryPush_eq_some.mp hkeys, ?_⟩
    have hstore := availableRing_store d info.ringSize.ringCapacity
    generalize d.availableRing info.ringSize.ringCapacity = a at h hstore
    cases h
    simp only [recordOnboarded, setMember, setRingPage]
    rw [hstore]
    simp
  · cases h

/-- Self-inclusion stores the member behind the keys of the page that is filled next. -/
theorem doSelfInclude_places {s s' : Store T} {member : T.Member} (h : s.doSelfInclude member = .ok s') :
    ∃ (info : CollectionInfo T) (d : Store T) (a : AvailableRing T) (q : QueuePageIndex) (t : Nat),
      s.collections = some info ∧ d.availableRing info.ringSize.ringCapacity = a ∧
      s.members.get member = some (.onboarding q t) ∧
      s'.members =
        s.members.insert member (.included a.ringIndex a.pageIndex (s.page a.ringIndex a.pageIndex).length) ∧
      (∀ r p, s'.page r p = if r = a.ringIndex ∧ p = a.pageIndex then
        s.page a.ringIndex a.pageIndex ++ [member] else s.page r p) ∧
      s'.collections = s.collections ∧ s'.suspendedCollections = s.suspendedCollections ∧
      s'.root = s.root ∧ s'.pendingSuspensions = s.pendingSuspensions ∧
      s'.ringDeletionQueue = s.ringDeletionQueue := by
  obtain ⟨info, q, t, d, a, keys, hinfo, -, hget, hd, ha, hkeys, rfl⟩ := doSelfInclude_spec h
  obtain ⟨-, hframe, -, -⟩ := dequeue_spec hd
  have hread := availableRing_keys d info.ringSize.ringCapacity
  rw [ha] at hread
  have hpage : d.page = s.page := by
    unfold page ringKeysAt
    rw [hframe]
  have hlist : a.keys.toList = s.page a.ringIndex a.pageIndex := by
    rw [hread, ← hpage]
    rfl
  refine ⟨info, d, a, q, t, hinfo, ha, hget, ?_, fun r p => ?_, ?_, ?_, ?_, ?_, ?_⟩
  · show d.members.insert member _ = _
    rw [← hlist, hframe]
    rfl
  · have hset := page_setRingPage d a.ringIndex r a.pageIndex p keys
    rw [hkeys, hlist, hpage] at hset
    exact hset
  all_goals rw [hframe]

/-- What self-inclusion writes beside the ring's page while the current ring has room. -/
theorem doSelfInclude_writes {s s' : Store T} {member : T.Member}
    (h : s.doSelfInclude member = .ok s')
    (hroom : ∀ info, s.collections = some info → ¬ s.currentRingFull info.ringSize.ringCapacity) :
    (∃ q t, s.members.get member = some (.onboarding q t)) ∧
      s'.members = s.members.insert member (.included s.currentRingIndex
        ((s.ringStatusAt s.currentRingIndex).total / T.flexibleRingCapacity)
        (s.page s.currentRingIndex
          ((s.ringStatusAt s.currentRingIndex).total / T.flexibleRingCapacity)).length) ∧
      s'.ringKeysStatus = s.ringKeysStatus.insert s.currentRingIndex
        { s.ringStatusAt s.currentRingIndex with
          total := U32.saturatingAdd (s.ringStatusAt s.currentRingIndex).total 1 } ∧
      s'.activeMembers = U32.saturatingAdd s.activeMembers 1 ∧
      s'.suspendedCollections = s.suspendedCollections ∧
      s'.pendingSuspensions = s.pendingSuspensions ∧
      s'.ringDeletionQueue = s.ringDeletionQueue := by
  obtain ⟨info, q, t, d, a, keys, hinfo, -, hget, hd, ha, -, hs'⟩ := doSelfInclude_spec h
  obtain ⟨-, hframe, -, -⟩ := dequeue_spec hd
  have hroomd : ¬ d.currentRingFull info.ringSize.ringCapacity := by
    rw [hframe]
    exact hroom info hinfo
  rw [availableRing_of_not_full hroomd, hframe] at ha
  rw [hs', ← ha]
  refine ⟨⟨q, t, hget⟩, ?_, ?_, ?_, ?_, ?_, ?_⟩ <;> rw [hframe] <;> rfl

/-- Self-inclusion while the current ring has room: one key pushed at the ring's cursor. -/
theorem doSelfInclude_of_not_full {s s' : Store T} {member : T.Member}
    (h : s.doSelfInclude member = .ok s')
    (hroom : ∀ info, s.collections = some info → ¬ s.currentRingFull info.ringSize.ringCapacity) :
    s'.collections = s.collections ∧ s'.root = s.root ∧
      (s.page s.currentRingIndex
        ((s.ringStatusAt s.currentRingIndex).total / T.flexibleRingCapacity)).length <
          T.flexibleRingCapacity ∧
      (∀ r p, s'.page r p = if r = s.currentRingIndex then
        (Paging.Cursor.push T.flexibleRingCapacity ⟨s.page s.currentRingIndex,
          (s.ringStatusAt s.currentRingIndex).total / T.flexibleRingCapacity⟩ member).pages p
        else s.page r p) ∧
      ∀ r, s'.ringStatusAt r = if r = s.currentRingIndex then
        { s.ringStatusAt r with total := U32.saturatingAdd (s.ringStatusAt r).total 1 }
        else s.ringStatusAt r := by
  obtain ⟨info, q, t, d, a, keys, hinfo, -, -, hd, ha, hkeys, rfl⟩ := doSelfInclude_spec h
  obtain ⟨-, hframe, -, -⟩ := dequeue_spec hd
  have hroomd : ¬ d.currentRingFull info.ringSize.ringCapacity := by
    rw [hframe]
    exact hroom info hinfo
  rw [availableRing_of_not_full hroomd] at ha
  have hcur : d.currentRingIndex = s.currentRingIndex := by rw [hframe]
  have hstatus : d.ringStatusAt = s.ringStatusAt := by
    unfold ringStatusAt
    rw [hframe]
  have hpage : d.page = s.page := by
    unfold page ringKeysAt
    rw [hframe]
  have hlist : a.keys.toList = s.page s.currentRingIndex
      ((s.ringStatusAt s.currentRingIndex).total / T.flexibleRingCapacity) := by
    rw [← ha, ← hpage, hcur, hstatus]
    rfl
  have hr : a.ringIndex = s.currentRingIndex := by rw [← ha, ← hcur]
  have hp : a.pageIndex = (s.ringStatusAt s.currentRingIndex).total / T.flexibleRingCapacity := by
    rw [← ha, ← hcur, hstatus]
  have hst : a.status = s.ringStatusAt s.currentRingIndex := by rw [← ha, ← hcur, hstatus]
  have hcoll : d.collections = s.collections := by rw [hframe]
  have hroot : d.root = s.root := by rw [hframe]
  refine ⟨hcoll, hroot, ?_, fun r p => ?_, fun r => ?_⟩
  · have hle := keys.length_le
    rw [hkeys, List.length_append, List.length_singleton, hlist] at hle
    exact hle
  · show (d.setRingPage a.ringIndex a.pageIndex keys).page r p = _
    rw [page_setRingPage, hr, hp, hkeys, hlist, hpage]
    by_cases hrr : r = s.currentRingIndex
    · subst hrr
      simp only [true_and, if_true, Paging.Cursor.push]
      by_cases hpp : p = (s.ringStatusAt s.currentRingIndex).total / T.flexibleRingCapacity
      · rw [if_pos hpp, hpp, Function.update_self]
      · rw [if_neg hpp, Function.update_of_ne hpp]
    · simp [hrr]
  · show (d.setRingStatus a.ringIndex { a.status with
      total := U32.saturatingAdd a.status.total 1 }).ringStatusAt r = _
    rw [ringStatusAt_setRingStatus, hr, hst, hstatus]
    split
    · rename_i hrr
      rw [hrr]
    · rfl

/-! ### Roots -/

theorem archiveRoot_frame (env : Env T) (s : Store T) (r : Nat) :
    s.archiveRoot env r = { s with
      root := (s.archiveRoot env r).root
      oldRoots := (s.archiveRoot env r).oldRoots } := by
  unfold archiveRoot
  split <;> rfl

theorem root_archiveRoot (env : Env T) (s : Store T) (r r' : Nat) :
    (s.archiveRoot env r).root.get r' = if r' = r then none else s.root.get r' := by
  unfold archiveRoot
  split
  · exact StorageMap.get_remove _ _ _
  · rename_i hnone
    by_cases hr : r' = r <;> simp [hr, hnone]

/-- Only the current root's revision is archived. -/
theorem oldRoots_archiveRoot (env : Env T) (s : Store T) (r : Nat) (k : Nat × Nat) :
    (s.archiveRoot env r).oldRoots.get k =
      match s.root.get r with
      | some root => if k = (r, root.revision) then some ⟨root.root, env.now⟩ else s.oldRoots.get k
      | none => s.oldRoots.get k := by
  unfold archiveRoot
  cases hget : s.root.get r with
  | some root => simp [archive]
  | none => rfl

/-- A build leaves the number of keys in the ring. -/
theorem total_keysToPush (s : Store T) (r fuel m : Nat) (status : RingStatus) :
    (s.keysToPush r fuel m status).2.total = status.total := by
  induction fuel generalizing m status with
  | zero => rfl
  | succ fuel ih =>
    unfold keysToPush
    simp only
    split
    · rfl
    · exact ih _ _

/-- The loop of `build_ring` collects the keys that come next in page order, as many as asked
for and there are. -/
theorem keysToPush_spec {s : Store T} {r n : Nat} (fuel m : Nat) (status : RingStatus)
    (hcovers : Paging.Covers T.flexibleRingCapacity status.total (s.page r))
    (hinc : status.included ≤ status.total) (hmax : status.total ≤ U32.max) (hfuel : m ≤ fuel)
    (hn : status.total / T.flexibleRingCapacity < n) :
    (s.keysToPush r fuel m status).2.total = status.total ∧
      (s.keysToPush r fuel m status).2.included =
        status.included + min m (status.total - status.included) ∧
      (Paging.concat (s.page r) n).take (s.keysToPush r fuel m status).2.included =
        (Paging.concat (s.page r) n).take status.included ++ (s.keysToPush r fuel m status).1 := by
  have hpos := T.flexibleRingCapacity_pos
  induction fuel generalizing m status with
  | zero =>
    obtain rfl : m = 0 := by omega
    simp [keysToPush]
  | succ fuel ih =>
    have hmod := Nat.mod_lt status.included hpos
    unfold keysToPush
    simp only
    split
    · rename_i hzero
      have : min m (status.total - status.included) = 0 := by omega
      simp [this]
    · rename_i hne
      generalize hpush : min m (min (status.total - status.included)
        (T.flexibleRingCapacity - status.included % T.flexibleRingCapacity)) = k at hne ⊢
      have hsat : U32.saturatingAdd status.included k = status.included + k :=
        U32.saturatingAdd_eq (by omega)
      rw [hsat]
      obtain ⟨htotal, hincluded, htake⟩ := ih (m - k) { status with included := status.included + k }
        hcovers (by show status.included + k ≤ status.total; omega) hmax (by omega) hn
      have hdiv : status.included / T.flexibleRingCapacity < n :=
        lt_of_le_of_lt (Nat.div_le_div_right hinc) hn
      refine ⟨htotal, ?_, ?_⟩
      · rw [hincluded]
        show status.included + k + min (m - k) (status.total - (status.included + k)) = _
        omega
      · rw [htake]
        show (Paging.concat (s.page r) n).take (status.included + k) ++ _ = _
        rw [hcovers.take_add (fun p => s.page_length_le r p) (by omega) hpos (by omega) hdiv,
          List.append_assoc]

/-- What a build reads and leaves: the root it gives the ring resumes from the ring's
intermediate value, or starts afresh at revision zero. -/
theorem buildRing_spec {env : Env T} {s s' : Store T} {r toInclude : Nat}
    (h : s.buildRing env r toInclude = .ok s') :
    ∃ info capacity start root status, s.collections = some info ∧
      T.capacity info.ringSize = some capacity ∧ s.buildStart capacity r = .ok start ∧
      root.revision = start.1 ∧
      root.intermediate =
        (s.keysToPush r toInclude toInclude (s.ringStatusAt r)).1.foldl T.crypto.pushMember start.2 ∧
      root.root = T.crypto.finishMembers root.intermediate ∧
      status.total = (s.keysToPush r toInclude toInclude (s.ringStatusAt r)).2.total ∧
      status.included = (s.keysToPush r toInclude toInclude (s.ringStatusAt r)).2.included ∧
      s' = { s with
        ringKeysStatus := s.ringKeysStatus.insert r status
        root := s.root.insert r root
        oldRoots := match s.root.get r with
          | some original => s.oldRoots.insert (r, original.revision) ⟨original.root, env.now⟩
          | none => s.oldRoots
        staleRings := s'.staleRings } := by
  simp only [buildRing, bind_eq_ok, okOr_eq_ok] at h
  obtain ⟨info, hinfo, capacity, hcap, start, hstart, intermediate, hpush, h⟩ := h
  cases h
  have hfold := T.crypto.pushMembers_eq _ _ _ _ hpush
  refine ⟨info, capacity, start,
    ⟨T.crypto.finishMembers intermediate, start.1, intermediate⟩,
    if (s.keysToPush r toInclude toInclude (s.ringStatusAt r)).2.included =
        (s.keysToPush r toInclude toInclude (s.ringStatusAt r)).2.total ∧
        info.mode = .appendOnly ∧
        (s.keysToPush r toInclude toInclude (s.ringStatusAt r)).2.total = info.ringSize.ringCapacity
      then { (s.keysToPush r toInclude toInclude (s.ringStatusAt r)).2 with
        immutableSince := some env.now }
      else (s.keysToPush r toInclude toInclude (s.ringStatusAt r)).2,
    hinfo, hcap, hstart, rfl, hfold, rfl, by split <;> rfl, by split <;> rfl, ?_⟩
  simp only [finishBuild, setRingStatus, archive]
  cases s.root.get r <;> simp only <;> split <;> rfl

/-! ### Merging rings -/

/-- The moved keys stand behind the base page's, and their records say so. -/
theorem moveKeys_spec {base : Nat} {s : Store T} {v : RingPage T} {keys : List T.Member}
    {m : Store T × RingPage T} (h : keys.foldlM (moveKey base) (s, v) = .ok m) :
    m.2.toList = v.toList ++ keys ∧ m.1 = { s with members := m.1.members } ∧
      (∀ k, k ∉ keys → m.1.members.get k = s.members.get k) ∧
      ∀ k ∈ keys, (s.members.get k).isSome = true ∧ ∃ i, v.length ≤ i ∧
        (v.toList ++ keys)[i]? = some k ∧ m.1.members.get k = some (.included base 0 i) := by
  refine foldlM_ok_induction (fun done (t : Store T × RingPage T) =>
    t.2.toList = v.toList ++ done ∧ t.1 = { s with members := t.1.members } ∧
      (∀ k, k ∉ done → t.1.members.get k = s.members.get k) ∧
      ∀ k ∈ done, (s.members.get k).isSome = true ∧ ∃ i, v.length ≤ i ∧
        (v.toList ++ done)[i]? = some k ∧ t.1.members.get k = some (.included base 0 i)) h
    ⟨by simp, rfl, fun _ _ => rfl, fun k hk => by cases hk⟩ ?_
  intro done key t t' _ ⟨hlist, hframe, hsame, hmoved⟩ hstep
  simp only [moveKey, bind_eq_ok, ensure_eq_ok, okOr_eq_ok, BoundedVec.tryPush_eq_some] at hstep
  obtain ⟨-, hcontains, w, hw, hstep⟩ := hstep
  cases hstep
  have hlen : t.2.length = (v.toList ++ done).length := by
    rw [← hlist]
    rfl
  have hsome : (s.members.get key).isSome = true := by
    by_cases hd : key ∈ done
    · exact (hmoved key hd).1
    · rw [← hsame key hd]
      exact hcontains
  refine ⟨by rw [hw, hlist, List.append_assoc], ?_, fun k hk => ?_, fun k hk => ?_⟩
  · simp only [setMember]
    conv_lhs => rw [hframe]
  · have hne : k ≠ key := fun he => hk (by simp [he])
    simp only [setMember, StorageMap.get_insert, if_neg hne]
    exact hsame k fun hd => hk (by simp [hd])
  · simp only [setMember, StorageMap.get_insert]
    by_cases hkey : k = key
    · subst hkey
      refine ⟨hsome, t.2.length, ?_, ?_, if_pos rfl⟩
      · rw [hlen, List.length_append]
        exact Nat.le_add_right _ _
      · rw [hlen, ← List.append_assoc, List.getElem?_concat_length]
    · obtain ⟨hs, i, hi, hget, hrec⟩ := hmoved k (by simpa [hkey] using hk)
      refine ⟨hs, i, hi, ?_, by rw [if_neg hkey, hrec]⟩
      have hlt : i < (v.toList ++ done).length := (List.getElem?_eq_some_iff.mp hget).1
      rw [← List.append_assoc, List.getElem?_append_left hlt, hget]

/-- What a merge checked and left. -/
theorem mergeRings_spec {env : Env T} {s s' : Store T} {base target : Nat}
    (h : s.mergeRings env base target = .ok s') :
    ∃ info m, s.collections = some info ∧ s.ringsState.appendOnly = true ∧ base ≠ target ∧
      base ≠ s.currentRingIndex ∧ target ≠ s.currentRingIndex ∧
      (s.page base 0).length < info.ringSize.ringCapacity / 2 ∧
      (s.page target 0).length < info.ringSize.ringCapacity / 2 ∧
      (s.pendingAt base).length = 0 ∧ (s.pendingAt target).length = 0 ∧
      (s.page target 0).foldlM (moveKey base) (s, s.ringKeysAt base 0) = .ok m ∧
      s' = { s with
        members := m.1.members
        ringKeys := (s.ringKeys.insert (base, 0) m.2).remove (target, 0)
        ringKeysStatus := (s.ringKeysStatus.insert base { s.ringStatusAt base with
          total := U32.saturatingAdd (s.ringStatusAt base).total (s.page target 0).length }).remove
            target
        root := (s.archiveRoot env target).root
        oldRoots := (s.archiveRoot env target).oldRoots
        staleRings := (s.staleRings.insert base ()).remove target } := by
  simp only [mergeRings, bind_eq_ok, okOr_eq_ok, ensure_eq_ok] at h
  obtain ⟨info, hinfo, -, happ, -, ⟨hne, hb, ht⟩, -, hbase, -, hpb, -, htarget, -, hpt, m, hm, h⟩ := h
  refine ⟨info, m, hinfo, happ, hne, hb, ht, hbase, htarget, hpb, hpt, hm, ?_⟩
  cases h
  obtain ⟨-, hframe, -, -⟩ := moveKeys_spec hm
  simp only [archiveRoot, archive, setRingPage, setRingStatus, removeRingPage, ringStatusAt]
  rw [hframe]
  cases hroot : s.root.get target <;> rfl

theorem page_mergeRings {env : Env T} {s s' : Store T} {base target : Nat}
    (h : s.mergeRings env base target = .ok s') (r p : Nat) :
    s'.page r p = if r = target ∧ p = 0 then [] else
      if r = base ∧ p = 0 then s.page base 0 ++ s.page target 0 else s.page r p := by
  obtain ⟨info, m, -, -, -, -, -, -, -, -, -, hm, hs⟩ := mergeRings_spec h
  have hset := page_setRingPage s base r 0 p m.2
  have hremove := page_removeRingPage (s.setRingPage base 0 m.2) target r 0 p
  rw [hset, (moveKeys_spec hm).1] at hremove
  rw [hs]
  exact hremove

theorem ringStatusAt_mergeRings {env : Env T} {s s' : Store T} {base target : Nat}
    (h : s.mergeRings env base target = .ok s') (r : Nat) :
    s'.ringStatusAt r = if r = target then default else
      if r = base then { s.ringStatusAt base with
        total := U32.saturatingAdd (s.ringStatusAt base).total (s.page target 0).length }
      else s.ringStatusAt r := by
  obtain ⟨info, m, -, -, -, -, -, -, -, -, -, -, hs⟩ := mergeRings_spec h
  rw [hs]
  by_cases ht : r = target
  · simp [ringStatusAt, ht]
  · by_cases hb : r = base
    · subst hb
      simp [ringStatusAt, ht]
    · simp [ringStatusAt, ht, hb]

end Store
end Individuality.Members
