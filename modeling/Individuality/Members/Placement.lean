import Individuality.Members.Paged
import Individuality.Members.QueueCoherence

/-! Records and slots agree.

An included record says where its key is stored. A stored key has that record
unless its slot is dead: its page is queued for deletion, or its index is pending
removal. `Placed` is kept by every call that suspends members of a first page
that is not queued and merges keys whose records point at the page they leave. -/
namespace Individuality.Members
open Support
variable {T : Config}

/-- Included records point at their keys, and the keys of live slots have them. -/
structure Places (dead : Nat → Nat → Nat → Prop) (record : T.Member → Option RingPosition)
    (page : Nat → Nat → List T.Member) : Prop where
  slot : ∀ k r p i, record k = some (.included r p i) → (page r p)[i]? = some k
  live : ∀ k r p i, (page r p)[i]? = some k → ¬ dead r p i → record k = some (.included r p i)

namespace Places
variable {dead dead' : Nat → Nat → Nat → Prop} {record record' : T.Member → Option RingPosition}
  {page page' : Nat → Nat → List T.Member}

theorem congr (h : Places dead record page)
    (hrecord : ∀ k r p i, record' k = some (.included r p i) ↔ record k = some (.included r p i))
    (hpage : page' = page) (hdead : ∀ r p i, dead r p i → dead' r p i) :
    Places dead' record' page' := by
  subst hpage
  refine ⟨fun k r p i hk => h.slot k r p i ((hrecord k r p i).mp hk), fun k r p i hk hlive => ?_⟩
  exact (hrecord k r p i).mpr (h.live k r p i hk fun hd => hlive (hdead r p i hd))

/-- A key that was not included gets the record of the slot it is pushed into. -/
theorem push (h : Places dead record page) {key : T.Member} {r p : Nat}
    (hkey : ∀ r p i, record key ≠ some (.included r p i)) :
    Places dead (fun k => if k = key then some (.included r p (page r p).length) else record k)
      (fun r' p' => if r' = r ∧ p' = p then page r p ++ [key] else page r' p') := by
  have hgrow : ∀ {k : T.Member} {r' p' i : Nat}, (page r' p')[i]? = some k →
      (if r' = r ∧ p' = p then page r p ++ [key] else page r' p')[i]? = some k := by
    intro k r' p' i hslot
    split
    · rename_i hrp
      rw [hrp.1, hrp.2] at hslot
      rw [List.getElem?_append_left (List.getElem?_eq_some_iff.mp hslot).1, hslot]
    · exact hslot
  refine ⟨fun k r' p' i hrecord => ?_, fun k r' p' i hslot hlive => ?_⟩
  · by_cases hk : k = key
    · rw [if_pos hk] at hrecord
      cases hrecord
      rw [if_pos ⟨rfl, rfl⟩, hk, List.getElem?_concat_length]
    · rw [if_neg hk] at hrecord
      exact hgrow (h.slot k r' p' i hrecord)
  · by_cases hold : (page r' p')[i]? = some k
    · have hrecord := h.live k r' p' i hold hlive
      have hk : k ≠ key := by
        rintro rfl
        exact hkey r' p' i hrecord
      rw [if_neg hk, hrecord]
    · split at hslot
      · rename_i hrp
        obtain ⟨rfl, rfl⟩ := hrp
        have hi : i = (page r' p').length := by
          have hlt := (List.getElem?_eq_some_iff.mp hslot).1
          rw [List.length_append, List.length_singleton] at hlt
          by_contra hne
          rw [List.getElem?_append_left (by omega)] at hslot
          exact hold hslot
        rw [hi, List.getElem?_concat_length] at hslot
        cases hslot
        rw [if_pos rfl, hi]
      · exact absurd hslot hold

end Places

/-- A slot whose key is on its way out. -/
def Store.Dead (s : Store T) (r p i : Nat) : Prop :=
  (s.ringDeletionQueue.get (r, p)).isSome = true ∨ (p = 0 ∧ i ∈ (s.pendingAt r).toList)

structure Placed (s : Store T) : Prop where
  places : Places s.Dead s.members.get s.page
  /-- A pending index is a slot of a first page that is not queued. -/
  pending_slot : ∀ r i, i ∈ (s.pendingAt r).toList →
    i < (s.page r 0).length ∧ (s.ringDeletionQueue.get (r, 0)).isSome = false
  /-- The key at a pending index has another record. -/
  pending_free : ∀ r i, i ∈ (s.pendingAt r).toList →
    ∀ k, s.members.get k ≠ some (.included r 0 i)
  sorted : ∀ r, (s.pendingAt r).toList.Pairwise (· < ·)

namespace Placed
variable {s s' : Store T}

theorem empty : Placed (Store.empty T) where
  places := ⟨fun _ _ _ _ h => (by cases h), fun _ _ _ _ h => (by cases h)⟩
  pending_slot _ _ h := by cases h
  pending_free _ _ h := by cases h
  sorted _ := List.Pairwise.nil

/-- What leaves pages, suspensions, deletions and the included records alone keeps them in
agreement. -/
theorem of_same (h : Placed s)
    (hrecord : ∀ k r p i,
      s'.members.get k = some (.included r p i) ↔ s.members.get k = some (.included r p i))
    (hpage : s'.page = s.page) (hpending : s'.pendingAt = s.pendingAt)
    (hdeletions : s'.ringDeletionQueue = s.ringDeletionQueue) : Placed s' := by
  have hdead : s'.Dead = s.Dead := by
    unfold Store.Dead
    rw [hpending, hdeletions]
  refine ⟨h.places.congr hrecord hpage fun r p i hd => by rwa [hdead], fun r i hi => ?_,
    fun r i hi k hk => ?_, fun r => ?_⟩
  · rw [hpage, hdeletions]
    exact h.pending_slot r i (hpending ▸ hi)
  · exact h.pending_free r i (hpending ▸ hi) k ((hrecord k r 0 i).mp hk)
  · rw [hpending]
    exact h.sorted r

/-- The same, where the members' records are untouched. -/
theorem of_frame (h : Placed s) (hmembers : s'.members = s.members)
    (hkeys : s'.ringKeys = s.ringKeys) (hpending : s'.pendingSuspensions = s.pendingSuspensions)
    (hdeletions : s'.ringDeletionQueue = s.ringDeletionQueue) : Placed s' := by
  refine h.of_same (fun k r p i => by rw [hmembers]) ?_ ?_ hdeletions
  · unfold Store.page Store.ringKeysAt
    rw [hkeys]
  · unfold Store.pendingAt
    rw [hpending]

/-- What a member that joins keeps: pages grow at their ends, and a new record points behind
what was stored. -/
structure Joined (s : Store T) (record : T.Member → Option RingPosition)
    (page : Nat → Nat → List T.Member) : Prop where
  places : Places s.Dead record page
  grows : ∀ r p, s.page r p <+: page r p
  behind : ∀ k r p i, record k = some (.included r p i) →
    s.members.get k = some (.included r p i) ∨ (s.page r p).length ≤ i

theorem Joined.push {record : T.Member → Option RingPosition} {page : Nat → Nat → List T.Member}
    (h : Joined s record page) (key : T.Member) {r p : Nat}
    (hkey : ∀ r p i, record key ≠ some (.included r p i)) :
    Joined s (fun k => if k = key then some (.included r p (page r p).length) else record k)
      (fun r' p' => if r' = r ∧ p' = p then page r p ++ [key] else page r' p') := by
  refine ⟨h.places.push hkey, fun r' p' => ?_, fun k r' p' i hrecord => ?_⟩
  · split
    · rename_i hrp
      rw [hrp.1, hrp.2]
      exact (h.grows r p).trans (List.prefix_append _ _)
    · exact h.grows r' p'
  · by_cases hk : k = key
    · rw [if_pos hk] at hrecord
      cases hrecord
      exact .inr (h.grows r p).length_le
    · rw [if_neg hk] at hrecord
      exact h.behind k r' p' i hrecord

theorem Joined.congr_page {record : T.Member → Option RingPosition}
    {page page' : Nat → Nat → List T.Member} (h : Joined s record page)
    (hpage : ∀ r p, page' r p = page r p) : Joined s record page' := by
  have : page' = page := by
    funext r p
    exact hpage r p
  rwa [this]

theorem joined (h : Placed s) : Joined s s.members.get s.page :=
  ⟨h.places, fun _ _ => List.prefix_rfl, fun _ _ _ _ hk => .inl hk⟩

theorem of_joined (h : Placed s) (hjoined : Joined s s'.members.get s'.page)
    (hpending : s'.pendingSuspensions = s.pendingSuspensions)
    (hdeletions : s'.ringDeletionQueue = s.ringDeletionQueue) : Placed s' := by
  have hpendingAt : s'.pendingAt = s.pendingAt := by
    unfold Store.pendingAt
    rw [hpending]
  have hdead : s'.Dead = s.Dead := by
    unfold Store.Dead
    rw [hpendingAt, hdeletions]
  refine ⟨by rw [hdead]; exact hjoined.places, fun r i hi => ?_, fun r i hi k hk => ?_, fun r => ?_⟩
  · rw [hpendingAt] at hi
    obtain ⟨hlt, hq⟩ := h.pending_slot r i hi
    rw [hdeletions]
    exact ⟨hlt.trans_le (hjoined.grows r 0).length_le, hq⟩
  · rw [hpendingAt] at hi
    rcases hjoined.behind k r 0 i hk with hold | hge
    · exact h.pending_free r i hi k hold
    · exact absurd (h.pending_slot r i hi).1 (by omega)
  · rw [hpendingAt]
    exact h.sorted r

/-! ### One operation at a time -/

theorem addMember (h : Placed s) {env : Env T} {key : T.Member}
    (hs : Store.addMember env s key = .ok s') : Placed s' := by
  obtain ⟨hfree, hpush⟩ := Store.addMember_spec hs
  obtain ⟨tail, keys, rfl, -⟩ := Store.pushToOnboardingQueue_spec hpush
  refine h.of_same (fun k r p i => ?_) rfl rfl rfl
  show (s.members.insert key _).get k = _ ↔ _
  rw [StorageMap.get_insert]
  split
  · rename_i hk
    rw [hk]
    rcases hfree with hnone | hsuspended
    · simp [hnone]
    · simp [hsuspended]
  · rfl

/-- Members that wait have no included record. -/
theorem not_included_of_queued (hq : QueueCoherent s) {k : T.Member} {q : QueuePageIndex}
    (hk : k ∈ s.queuePage q) (r p i : Nat) : s.members.get k ≠ some (.included r p i) := by
  obtain ⟨t, ht⟩ := (hq.mem_iff k q).mp hk
  rw [ht]
  intro hc
  cases hc

theorem mergeFrontQueuePages (h : Placed s) (hq : QueueCoherent s)
    (hs : s.mergeFrontQueuePages = .ok s') : Placed s' := by
  obtain ⟨-, t, keys, hfold, -, rfl⟩ := Store.mergeFrontQueuePages_spec hs
  obtain ⟨hframe, hsame, hmoved⟩ := Store.relocateQueued_fold hfold
  have hpage : t.page = s.page := by
    unfold Store.page Store.ringKeysAt
    rw [hframe]
  have hpending : t.pendingAt = s.pendingAt := by
    unfold Store.pendingAt
    rw [hframe]
  have hdeletions : t.ringDeletionQueue = s.ringDeletionQueue := by rw [hframe]
  refine h.of_same (fun k r p i => ?_) hpage hpending hdeletions
  show t.members.get k = _ ↔ _
  by_cases hk : k ∈ s.queuePage s.queuePageIndices.1
  · obtain ⟨u, hu⟩ := (hq.mem_iff k _).mp hk
    simp [hmoved k hk _ u hu, hu]
  · rw [hsame k hk]

theorem joined_round (h : Placed s) (hq : QueueCoherent s) (R : Store.Round s s') :
    Joined s s'.members.get s'.page := by
  have hnodup : (R.keys.take R.toInclude).Nodup := (hq.round_nodup R).sublist (List.take_sublist _ _)
  have hwaiting : ∀ k ∈ R.keys.take R.toInclude, ∀ r p i,
      s.members.get k ≠ some (.included r p i) := by
    intro k hk
    rcases (QueueCoherent.mem_round R k).mp (List.mem_of_mem_take hk) with hin | hin
    · exact not_included_of_queued hq hin
    · exact not_included_of_queued hq hin
  obtain ⟨c, ⟨hjoined, -⟩, hpage⟩ := R.turns
    (P := fun done m c => Joined s m (fun r p => if r = R.a.ringIndex then c.pages p else
      s.page r p) ∧ ∀ k, k ∉ done → m k = s.members.get k)
    ⟨h.joined.congr_page fun r p => by split <;> simp_all, fun _ _ => rfl⟩
    (by
      rintro done key m c hpre ⟨hjoined, hsame⟩ -
      have hsub := hpre.sublist
      have hnew : key ∉ done := fun hin =>
        (List.nodup_append.mp (hnodup.sublist hsub)).2.2 key hin key (by simp) rfl
      refine ⟨?_, fun k hk => ?_⟩
      · have hpush := hjoined.push key (r := R.a.ringIndex) (p := c.at_)
          (by rw [hsame key hnew]; exact hwaiting key (hsub.subset (by simp)))
        rw [if_pos rfl] at hpush
        refine hpush.congr_page fun r p => ?_
        by_cases hr : r = R.a.ringIndex
        · rw [if_pos hr]
          by_cases hp : p = c.at_
          · rw [if_pos ⟨hr, hp⟩, hp, Paging.Cursor.pages_push_self]
          · rw [if_neg (fun hc => hp hc.2), if_pos hr, Paging.Cursor.pages_push_of_ne hp]
        · rw [if_neg hr, if_neg (fun hc => hr hc.1), if_neg hr]
      · have hne : k ≠ key := fun he => hk (by simp [he])
        exact (if_neg hne).trans (hsame k fun hin => hk (by simp [hin])))
  exact hjoined.congr_page hpage

theorem round (h : Placed s) (hq : QueueCoherent s) (R : Store.Round s s') : Placed s' := by
  obtain ⟨-, hpending, hdeletions, -⟩ := R.frame
  exact h.of_joined (h.joined_round hq R) hpending hdeletions

theorem joined_doSelfInclude (h : Placed s) {member : T.Member} (hs : s.doSelfInclude member = .ok s') :
    Joined s s'.members.get s'.page := by
  obtain ⟨-, -, a, q, t, -, -, hget, hmembers, hpage, -⟩ := Store.doSelfInclude_places hs
  have hpush := h.joined.push member (r := a.ringIndex) (p := a.pageIndex)
    (by rw [hget]; intro _ _ _ hc; cases hc)
  have hrecord : s'.members.get = fun k => if k = member then
      some (.included a.ringIndex a.pageIndex (s.page a.ringIndex a.pageIndex).length)
      else s.members.get k := by
    funext k
    rw [hmembers, StorageMap.get_insert]
  rw [hrecord]
  exact hpush.congr_page hpage

theorem doSelfInclude (h : Placed s) {member : T.Member} (hs : s.doSelfInclude member = .ok s') :
    Placed s' := by
  obtain ⟨-, -, -, -, -, -, -, -, -, -, -, -, -, hpending, hdeletions⟩ := Store.doSelfInclude_places hs
  exact h.of_joined (h.joined_doSelfInclude hs) hpending hdeletions

theorem queueMemberSuspension (h : Placed s) {key : T.Member}
    (hfirst : ∀ r p i, s.members.get key = some (.included r p i) →
      p = 0 ∧ (s.ringDeletionQueue.get (r, 0)).isSome = false)
    (hs : s.queueMemberSuspension key = .ok s') : Placed s' := by
  rcases Store.queueMemberSuspension_cases hs with
    ⟨r, p, i, j, indices, hget, hsearch, hindices, hs'⟩ | ⟨q, t, hget, hs'⟩ | ⟨hget, rfl⟩
  · obtain ⟨rfl, hq⟩ := hfirst r p i hget
    obtain ⟨-, hsorted⟩ := binarySearch_inr (h.sorted r) hsearch
    have hslot := h.places.slot key r 0 i hget
    have hmembers : ∀ k, s'.members.get k = if k = key then some .suspended else s.members.get k := by
      intro k
      rw [hs', StorageMap.get_insert]
    have hpendingAt : ∀ r', s'.pendingAt r' = if r' = r then indices else s.pendingAt r' := by
      intro r'
      rw [hs']
      by_cases hr : r' = r <;> simp [Store.pendingAt, hr]
    have hmem : ∀ r' x, x ∈ (s'.pendingAt r').toList ↔
        x ∈ (s.pendingAt r').toList ∨ (r' = r ∧ x = i) := by
      intro r' x
      rw [hpendingAt]
      split
      · rename_i hr
        rw [hindices, List.mem_insertIdx (binarySearch_inr_le hsearch), hr]
        tauto
      · rename_i hr
        tauto
    have hpage : s'.page = s.page := by
      rw [hs']
      rfl
    have hdeletions : s'.ringDeletionQueue = s.ringDeletionQueue := by rw [hs']
    refine ⟨⟨fun k r' p' i' hrecord => ?_, fun k r' p' i' hget' hlive => ?_⟩, fun r' x hx => ?_,
      fun r' x hx k hrecord => ?_, fun r' => ?_⟩
    · rw [hmembers] at hrecord
      split at hrecord
      · cases hrecord
      · rw [hpage]
        exact h.places.slot k r' p' i' hrecord
    · rw [hpage] at hget'
      have hold := h.places.live k r' p' i' hget' fun hdead => hlive (by
        rcases hdead with hd | ⟨hp, hi⟩
        · exact .inl (by rw [hdeletions]; exact hd)
        · exact .inr ⟨hp, (hmem r' i').mpr (.inl hi)⟩)
      rw [hmembers, if_neg, hold]
      -- The suspended key's slot is pending now.
      rintro rfl
      rw [hget] at hold
      cases hold
      exact hlive (.inr ⟨rfl, (hmem r i).mpr (.inr ⟨rfl, rfl⟩)⟩)
    · rw [hpage, hdeletions]
      rcases (hmem r' x).mp hx with hin | ⟨rfl, rfl⟩
      · exact h.pending_slot r' x hin
      · exact ⟨(List.getElem?_eq_some_iff.mp hslot).1, hq⟩
    · rw [hmembers] at hrecord
      split at hrecord
      · cases hrecord
      · rename_i hk
        rcases (hmem r' x).mp hx with hin | ⟨rfl, rfl⟩
        · exact h.pending_free r' x hin k hrecord
        · have hslot' := h.places.slot k r' 0 x hrecord
          rw [hslot] at hslot'
          exact hk (Option.some.inj hslot').symm
    · rw [hpendingAt]
      split
      · rw [hindices]
        exact hsorted
      · exact h.sorted r'
  · have hframe := Store.dropQueued_frame s q key
    have hpage : s'.page = s.page := by
      rw [hs']
      show (s.dropQueued q key).page = _
      rw [hframe]
      rfl
    have hpendingAt : s'.pendingAt = s.pendingAt := by
      rw [hs']
      show (s.dropQueued q key).pendingAt = _
      rw [hframe]
      rfl
    refine h.of_same (fun k r p i => ?_) hpage hpendingAt ?_
    · rw [hs']
      show ((s.dropQueued q key).members.insert key _).get k = _ ↔ _
      rw [StorageMap.get_insert, hframe]
      split
      · rename_i hk
        simp [hk, hget]
      · rfl
    · rw [hs']
      show (s.dropQueued q key).ringDeletionQueue = _
      rw [hframe]
  · refine h.of_same (fun k r p i => ?_) rfl rfl rfl
    show (s.members.insert key _).get k = _ ↔ _
    rw [StorageMap.get_insert]
    split
    · rename_i hk
      simp [hk, hget]
    · rfl

/-- A removal compacts a page that is not queued: the retained keys get the records of their new
slots, and no other key has a record there. -/
theorem removeSuspendedKeys (h : Placed s) {env : Env T} {r : Nat}
    (hpending : (s.pendingAt r).toList ≠ []) : Placed (s.removeSuspendedKeys env r) := by
  rcases Store.removeSuspendedKeys_spec env s r with ⟨-, hs⟩ | ⟨info, capacity, members, page, -, -,
    hmembers, hlist, hs⟩
  · rw [hs]
    exact h
  have hpage := Store.page_removeSuspendedKeys hs
  have hq : (s.ringDeletionQueue.get (r, 0)).isSome = false := by
    obtain ⟨i, hi⟩ := List.exists_mem_of_ne_nil _ hpending
    exact (h.pending_slot r i hi).2
  generalize s.removeSuspendedKeys env r = s' at hs hpage
  have hrecords : s'.members = members := by rw [hs]
  have hdeletions : s'.ringDeletionQueue = s.ringDeletionQueue := by rw [hs]
  have hpendingAt : ∀ r', (s'.pendingAt r').toList = if r' = r then [] else (s.pendingAt r').toList := by
    intro r'
    rw [hs]
    by_cases hr : r' = r <;> simp [Store.pendingAt, hr]
  -- The retained keys stood at live slots.
  have hlive : ∀ k i, (s.page r 0)[i]? = some k → i ∉ (s.pendingAt r).toList →
      s.members.get k = some (.included r 0 i) := by
    intro k i hget hi
    refine h.places.live k r 0 i hget ?_
    rintro (hd | ⟨-, hd⟩)
    · rw [hq] at hd
      cases hd
    · exact hi hd
  have hnodup : page.toList.Nodup := by
    rw [hlist]
    refine nodup_compact (h.sorted r) fun i j k hi hj hin hjn => ?_
    have hrecord := hlive k i hi hin
    rw [hlive k j hj hjn] at hrecord
    cases hrecord
    rfl
  have hretained : ∀ k ∈ page.toList, ∃ j, s'.members.get k = some (.included r 0 j) ∧
      page.toList[j]? = some k := by
    intro k hk
    rw [hlist] at hk ⊢
    obtain ⟨i, hget, hi⟩ := (mem_compact (h.sorted r)).mp hk
    obtain ⟨j, hj, hslot⟩ := Store.retainKeys_members_mem r 0 0 (s.pendingAt r).toList s
      BoundedVec.nil (s.page r 0) (by simpa [BoundedVec.length] using s.page_length_le r 0) hk
      (hlive k i hget hi)
    exact ⟨j, by rw [hrecords, hmembers, hj], by simpa using hslot⟩
  have hother : ∀ k, k ∉ page.toList → s'.members.get k = s.members.get k := by
    intro k hk
    rw [hrecords, hmembers]
    exact Store.retainKeys_members_notMem r 0 _ s BoundedVec.nil _ (hlist ▸ hk)
  refine ⟨⟨fun k r' p i hrecord => ?_, fun k r' p i hget hdead => ?_⟩, fun r' i hi => ?_,
    fun r' i hi k hrecord => ?_, fun r' => ?_⟩
  · rw [hpage]
    by_cases hk : k ∈ page.toList
    · obtain ⟨j, hj, hslot⟩ := hretained k hk
      rw [hj] at hrecord
      cases hrecord
      rw [if_pos ⟨rfl, rfl⟩, hslot]
    · rw [hother k hk] at hrecord
      have hslot := h.places.slot k r' p i hrecord
      rw [if_neg, hslot]
      rintro ⟨rfl, rfl⟩
      refine hk ?_
      rw [hlist]
      exact (mem_compact (h.sorted r')).mpr
        ⟨i, hslot, fun hi => h.pending_free r' i hi k hrecord⟩
  · rw [hpage] at hget
    split at hget
    · rename_i hrp
      obtain ⟨rfl, rfl⟩ := hrp
      obtain ⟨j, hj, hslot⟩ := hretained k (List.mem_of_getElem? hget)
      rw [hj, (List.getElem?_inj (List.getElem?_eq_some_iff.mp hslot).1 hnodup).mp
        (hslot.trans hget.symm)]
    · rename_i hrp
      have hold : s.members.get k = some (.included r' p i) := by
        refine h.places.live k r' p i hget fun hd => hdead ?_
        rcases hd with hd | ⟨hp, hi⟩
        · exact .inl (by rw [hdeletions]; exact hd)
        · refine .inr ⟨hp, ?_⟩
          rw [hpendingAt, if_neg fun hr => hrp ⟨hr, hp⟩]
          exact hi
      rw [hother, hold]
      intro hk
      rw [hlist] at hk
      obtain ⟨i', hget', hi'⟩ := (mem_compact (h.sorted r)).mp hk
      rw [hlive k i' hget' hi'] at hold
      cases hold
      exact hrp ⟨rfl, rfl⟩
  · rw [hpendingAt] at hi
    split at hi
    · cases hi
    · rename_i hr
      rw [hpage, if_neg fun hc => hr hc.1, hdeletions]
      exact h.pending_slot r' i hi
  · rw [hpendingAt] at hi
    split at hi
    · cases hi
    · rename_i hr
      by_cases hk : k ∈ page.toList
      · obtain ⟨j, hj, -⟩ := hretained k hk
        rw [hj] at hrecord
        cases hrecord
        exact hr rfl
      · rw [hother k hk] at hrecord
        exact h.pending_free r' i hi k hrecord
  · rw [hpendingAt]
    split
    · exact List.Pairwise.nil
    · exact h.sorted r'

theorem enqueueRingForDeletion (h : Placed s) (hpaged : Paged s) {env : Env T} {r : Nat} :
    Placed (s.enqueueRingForDeletion env r) := by
  obtain ⟨queue, hs, hqueue⟩ := Store.enqueueRingForDeletion_spec env s r
  have hpages : Paged (s.enqueueRingForDeletion env r) := hpaged.enqueueRingForDeletion
  generalize s.enqueueRingForDeletion env r = s' at hs hpages
  have hpage : s'.page = s.page := by
    rw [hs]
    rfl
  have hmembers : s'.members = s.members := by rw [hs]
  have hdeletions : s'.ringDeletionQueue = queue := by rw [hs]
  have hpendingAt : ∀ r', (s'.pendingAt r').toList = if r' = r then [] else (s.pendingAt r').toList := by
    intro r'
    rw [hs]
    by_cases hr : r' = r <;> simp [Store.pendingAt, hr]
  -- No page of the ring lives on.
  have hgone : ∀ p, s'.livePage r p = [] := by
    intro p
    refine (hpages.packed r).eq_nil ?_
    rw [hs]
    simp [Store.ringStatusAt]
  refine ⟨⟨fun k r' p i hrecord => ?_, fun k r' p i hget hlive => ?_⟩, fun r' i hi => ?_,
    fun r' i hi k hrecord => ?_, fun r' => ?_⟩
  · rw [hpage]
    exact h.places.slot k r' p i (hmembers ▸ hrecord)
  · rw [hmembers]
    refine h.places.live k r' p i (hpage ▸ hget) fun hdead => hlive ?_
    rcases hdead with hd | ⟨hp, hi⟩
    · exact .inl (by rw [hdeletions]; exact (hqueue r' p).mpr (.inl hd))
    · by_cases hr : r' = r
      · left
        have hnil := hgone p
        unfold Store.livePage at hnil
        by_contra hq
        rw [if_neg (by rw [← hr]; exact hq), ← hr] at hnil
        rw [hnil] at hget
        cases hget
      · refine .inr ⟨hp, ?_⟩
        rw [hpendingAt, if_neg hr]
        exact hi
  · rw [hpendingAt] at hi
    split at hi
    · cases hi
    · rename_i hr
      obtain ⟨hlt, hq⟩ := h.pending_slot r' i hi
      refine ⟨by rw [hpage]; exact hlt, ?_⟩
      rw [hdeletions, Bool.eq_false_iff]
      intro hc
      rcases (hqueue r' 0).mp hc with hc | ⟨hc, -⟩
      · rw [hq] at hc
        cases hc
      · exact hr hc
  · rw [hpendingAt] at hi
    split at hi
    · cases hi
    · exact h.pending_free r' i hi k (hmembers ▸ hrecord)
  · rw [hpendingAt]
    split
    · exact List.Pairwise.nil
    · exact h.sorted r'

open Classical in
theorem deleteRingPage (h : Placed s) {r p : Nat}
    (hq : (s.ringDeletionQueue.get (r, p)).isSome = true) :
    Placed ({ s with ringDeletionQueue := s.ringDeletionQueue.remove (r, p) }.deleteRingPage r p) := by
  obtain ⟨members, hs, hget⟩ := Store.deleteRingPage_spec
    { s with ringDeletionQueue := s.ringDeletionQueue.remove (r, p) } r p
  generalize ({ s with ringDeletionQueue := s.ringDeletionQueue.remove (r, p) } :
    Store T).deleteRingPage r p = s' at hs ⊢
  have hpage : ∀ r' p', s'.page r' p' = if r' = r ∧ p' = p then [] else s.page r' p' := by
    intro r' p'
    rw [hs]
    exact Store.page_removeRingPage s r r' p p'
  have hmembers : ∀ k, s'.members.get k =
      if ∃ i, (s.page r p)[i]? = some k ∧ s.members.get k = some (.included r p i) then none
      else s.members.get k := by
    intro k
    rw [hs]
    exact hget k
  have hpendingAt : s'.pendingAt = s.pendingAt := by
    rw [hs]
    rfl
  have hdeletions : ∀ r' p', s'.ringDeletionQueue.get (r', p') =
      if r' = r ∧ p' = p then none else s.ringDeletionQueue.get (r', p') := by
    intro r' p'
    rw [hs, StorageMap.get_remove]
    simp only [Prod.mk.injEq]
  refine ⟨⟨fun k r' p' i hrecord => ?_, fun k r' p' i hslot hlive => ?_⟩, fun r' i hi => ?_,
    fun r' i hi k hrecord => ?_, fun r' => ?_⟩
  · rw [hmembers] at hrecord
    split at hrecord
    · cases hrecord
    · rename_i hkept
      have hslot := h.places.slot k r' p' i hrecord
      rw [hpage, if_neg, hslot]
      rintro ⟨rfl, rfl⟩
      exact hkept ⟨i, hslot, hrecord⟩
  · rw [hpage] at hslot
    split at hslot
    · cases hslot
    · rename_i hrp
      have hold : s.members.get k = some (.included r' p' i) := by
        refine h.places.live k r' p' i hslot fun hd => hlive ?_
        rcases hd with hd | hd
        · exact .inl (by rw [hdeletions, if_neg hrp]; exact hd)
        · exact .inr (by rw [hpendingAt]; exact hd)
      rw [hmembers, if_neg, hold]
      rintro ⟨j, -, hj⟩
      rw [hold] at hj
      cases hj
      exact hrp ⟨rfl, rfl⟩
  · rw [hpendingAt] at hi
    obtain ⟨hlt, hnot⟩ := h.pending_slot r' i hi
    have hrp : ¬ (r' = r ∧ 0 = p) := by
      rintro ⟨rfl, rfl⟩
      rw [hq] at hnot
      cases hnot
    rw [hpage, if_neg hrp, hdeletions, if_neg hrp]
    exact ⟨hlt, hnot⟩
  · rw [hpendingAt] at hi
    rw [hmembers] at hrecord
    split at hrecord
    · cases hrecord
    · exact h.pending_free r' i hi k hrecord
  · rw [hpendingAt]
    exact h.sorted r'

theorem deleteOnboardingQueuePage (h : Placed s) (hq : QueueCoherent s) {q : QueuePageIndex} :
    Placed (s.deleteOnboardingQueuePage q) := by
  obtain ⟨members, hs, hget⟩ := Store.deleteOnboardingQueuePage_spec s q
  rw [hs]
  refine h.of_same (fun k r p i => ?_) rfl rfl rfl
  show members.get k = _ ↔ _
  rw [hget]
  split
  · rename_i hk
    simp [not_included_of_queued hq hk r p i]
  · rfl

/-- A merge moves keys whose records point at the page they leave. -/
theorem mergeRings (h : Placed s) {env : Env T} {base target : Nat}
    (hs : s.mergeRings env base target = .ok s')
    (hmoved : ∀ k i, (s.page target 0)[i]? = some k →
      s.members.get k = some (.included target 0 i)) : Placed s' := by
  obtain ⟨info, m, -, -, hne, -, -, -, -, hpb, hpt, hm, hs'⟩ := Store.mergeRings_spec hs
  obtain ⟨-, -, hsame, hrecord⟩ := Store.moveKeys_spec hm
  have hpage := Store.page_mergeRings hs
  have hmembers : s'.members = m.1.members := by rw [hs']
  have hdeletions : s'.ringDeletionQueue = s.ringDeletionQueue := by rw [hs']
  have hpendingAt : s'.pendingAt = s.pendingAt := by
    rw [hs']
    rfl
  have hdead : s'.Dead = s.Dead := by
    unfold Store.Dead
    rw [hpendingAt, hdeletions]
  have hleave : ∀ k r p i, s.members.get k = some (.included r p i) → ¬ (r = target ∧ p = 0) →
      k ∉ s.page target 0 := by
    intro k r p i hget hrp hin
    obtain ⟨j, hj⟩ := List.getElem?_of_mem hin
    rw [hmoved k j hj] at hget
    cases hget
    exact hrp ⟨rfl, rfl⟩
  have hnew : ∀ k ∈ s.page target 0, ∃ i, (s.page base 0).length ≤ i ∧
      (s.page base 0 ++ s.page target 0)[i]? = some k ∧
      s'.members.get k = some (.included base 0 i) := by
    intro k hk
    obtain ⟨-, i, hle, hslot, hget⟩ := hrecord k hk
    exact ⟨i, hle, hslot, by rw [hmembers, hget]⟩
  refine ⟨⟨fun k r p i hget => ?_, fun k r p i hslot hlive => ?_⟩, fun r i hi => ?_,
    fun r i hi k hget => ?_, fun r => ?_⟩
  · by_cases hk : k ∈ s.page target 0
    · obtain ⟨j, -, hslot, hj⟩ := hnew k hk
      rw [hj] at hget
      cases hget
      rw [hpage, if_neg fun hc => hne hc.1, if_pos ⟨rfl, rfl⟩, hslot]
    · rw [hmembers, hsame k hk] at hget
      have hslot := h.places.slot k r p i hget
      rw [hpage, if_neg]
      · split
        · rename_i hrp
          rw [hrp.1, hrp.2] at hslot
          rw [List.getElem?_append_left (List.getElem?_eq_some_iff.mp hslot).1, hslot]
        · exact hslot
      · rintro ⟨rfl, rfl⟩
        exact hk (List.mem_of_getElem? hslot)
  · rw [hdead] at hlive
    rw [hpage] at hslot
    split at hslot
    · cases hslot
    rename_i htarget
    have hkept : (s.page r p)[i]? = some k → s'.members.get k = some (.included r p i) := by
      intro hold
      have hget := h.places.live k r p i hold hlive
      rw [hmembers, hsame k (hleave k r p i hget htarget), hget]
    split at hslot
    · rename_i hrp
      obtain ⟨rfl, rfl⟩ := hrp
      by_cases hi : i < (s.page r 0).length
      · rw [List.getElem?_append_left hi] at hslot
        exact hkept hslot
      · -- The key came from the target, which held it once.
        have hi' : (s.page r 0).length ≤ i := Nat.le_of_not_lt hi
        rw [List.getElem?_append_right hi'] at hslot
        obtain ⟨j, hj, hslot', hget⟩ := hnew k (List.mem_of_getElem? hslot)
        rw [List.getElem?_append_right hj] at hslot'
        have hrecord' := hmoved k _ hslot'
        rw [hmoved k _ hslot] at hrecord'
        simp only [Option.some.injEq, RingPosition.included.injEq, true_and] at hrecord'
        rw [hget, show j = i by omega]
    · exact hkept hslot
  · rw [hpendingAt] at hi
    have hpos := List.length_pos_of_mem hi
    have hrt : r ≠ target := by
      rintro rfl
      exact absurd hpt (Nat.ne_of_gt hpos)
    have hrb : r ≠ base := by
      rintro rfl
      exact absurd hpb (Nat.ne_of_gt hpos)
    rw [hpage, if_neg fun hc => hrt hc.1, if_neg fun hc => hrb hc.1, hdeletions]
    exact h.pending_slot r i hi
  · rw [hpendingAt] at hi
    have hpos := List.length_pos_of_mem hi
    by_cases hk : k ∈ s.page target 0
    · obtain ⟨j, -, -, hj⟩ := hnew k hk
      rw [hj] at hget
      cases hget
      exact absurd hpb (Nat.ne_of_gt hpos)
    · rw [hmembers, hsame k hk] at hget
      exact h.pending_free r i hi k hget
  · rw [hpendingAt]
    exact h.sorted r

end Placed

/-! ### Runs -/

/-- The calls that keep records and slots in agreement: those that see every key they count,
suspend included members of first pages that stay only, and merge a target of one page,
whose keys' records point there, into a base none of whose pages with keys is queued. -/
def ConservesKeys (s : Store T) (c : Call T) : Prop :=
  SeesKeys s c ∧ match c with
    | .removeMembers suspensions => ∀ k ∈ suspensions, ∀ r p i,
      s.members.get k = some (.included r p i) →
        p = 0 ∧ (s.ringDeletionQueue.get (r, 0)).isSome = false
    | .mergeRings base target => (∀ p, 0 < p → s.page target p = []) ∧
      (∀ p, (s.ringDeletionQueue.get (base, p)).isSome = true → s.page base p = []) ∧
      ((s.ringDeletionQueue.get (target, 0)).isSome = true → ∀ k i,
        (s.page target 0)[i]? = some k → s.members.get k = some (.included target 0 i))
    | _ => True

structure Conserved (s : Store T) : Prop where
  queue : QueueCoherent s
  paged : Paged s
  placed : Placed s

namespace Conserved
variable {s s' : Store T}

theorem empty : Conserved (Store.empty T) := ⟨QueueCoherent.empty, Paged.empty, Placed.empty⟩

/-- A merge finds the records of the keys it moves pointing at the target's first page. -/
theorem moved (h : Conserved s) {env : Env T} {base target : Nat}
    (hs : s.mergeRings env base target = .ok s') (hG : ConservesKeys s (.mergeRings base target))
    (k : T.Member) (i : Nat) (hslot : (s.page target 0)[i]? = some k) :
    s.members.get k = some (.included target 0 i) := by
  obtain ⟨info, m, -, -, -, -, -, -, -, -, hpt, -, -⟩ := Store.mergeRings_spec hs
  by_cases hq : (s.ringDeletionQueue.get (target, 0)).isSome = true
  · exact hG.2.2.2 hq k i hslot
  · refine h.placed.places.live k target 0 i hslot ?_
    rintro (hd | ⟨-, hd⟩)
    · exact hq hd
    · exact absurd hpt (Nat.ne_of_gt (List.length_pos_of_mem hd))

theorem step {env : Env T} {c : Call T} (h : Conserved s) (hG : ConservesKeys s c)
    (hs : s.exec env c = .ok s') : Conserved s' := by
  have hpaged := h.paged.step hG.1 hs
  have hqueue := h.queue.step (fun base target hc k hk => by
    subst hc
    obtain ⟨i, hi⟩ := List.getElem?_of_mem hk
    exact ⟨target, 0, i, h.moved hs hG k i hi⟩) hs
  refine ⟨hqueue, hpaged, ?_⟩
  have hp := h.placed
  cases exec_effect hs with
  | createCollection _ _ _ _ => exact hp.of_frame rfl rfl rfl rfl
  | addMembers _ hfold =>
    exact foldlM_ok_induction (fun _ t => Placed t) hfold hp
      fun _ _ _ _ _ ht hstep => ht.addMember hstep
  | setOnboardingSize => exact hp.of_frame rfl rfl rfl rfl
  | onboardNone => exact hp
  | onboard R => exact hp.round h.queue R
  | selfInclude hs => exact hp.doSelfInclude hs
  | mergeQueuePages hs => exact hp.mergeFrontQueuePages h.queue hs
  | buildRing hbuild =>
    obtain ⟨_, _, _, _, _, -, -, -, -, -, -, -, -, hs⟩ := Store.buildRing_spec hbuild
    rw [hs]
    exact hp.of_frame rfl rfl rfl rfl
  | mergeRings hs => exact hp.mergeRings hs (h.moved hs hG)
  | session _ _ => exact hp.of_frame rfl rfl rfl rfl
  | removeMembers _ hfold =>
    refine (foldlM_ok_induction (fun _ t => Placed t ∧ t.ringDeletionQueue = s.ringDeletionQueue ∧
      ∀ k r p i, t.members.get k = some (.included r p i) →
        s.members.get k = some (.included r p i)) hfold ⟨hp, rfl, fun _ _ _ _ hk => hk⟩ ?_).1
    intro done key t t' hpre ⟨ht, hdeletions, hold⟩ hstep
    have hfirst := hG.2 key (hpre.sublist.subset (by simp))
    refine ⟨ht.queueMemberSuspension (fun r p i hk => ?_) hstep, ?_⟩
    · rw [hdeletions]
      exact hfirst r p i (hold key r p i hk)
    · obtain ⟨hdeletions', hmembers⟩ := Store.queueMemberSuspension_frame hstep
      refine ⟨hdeletions'.trans hdeletions, fun k r p i hk => ?_⟩
      rw [hmembers] at hk
      split at hk
      · cases hk
      · exact hold k r p i hk
  | removeSuspendedKeys hshould =>
    refine hp.removeSuspendedKeys fun hnil => ?_
    simp [Store.shouldRemoveSuspendedKeys, BoundedVec.length, hnil] at hshould
  | removeRingQueued _ => exact hp
  | removeRing _ _ _ => exact hp.enqueueRingForDeletion h.paged
  | deleteRingPage hq => exact hp.deleteRingPage hq
  | deleteCollection _ _ => exact hp.of_frame rfl rfl rfl rfl
  | enqueueRingDeletion _ _ => exact hp.enqueueRingForDeletion h.paged
  | deleteOnboardingQueuePage _ => exact hp.deleteOnboardingQueuePage h.queue
  | finalizeCollectionDeletion _ _ _ _ => exact hp.of_frame rfl rfl rfl rfl
  | markRingStale => exact hp.of_frame rfl rfl rfl rfl
  | cleanUpOldRoots _ _ => exact hp.of_frame rfl rfl rfl rfl

end Conserved
end Individuality.Members
