import Individuality.Members.Effects
import Individuality.Support.Compaction

/-! What the removing operations do: suspensions, whole rings, pages and collections. -/
namespace Individuality.Members
open Support

/-- A record with a new index, when it points into the ring. -/
def RingPosition.reindex (r index : Nat) : RingPosition → RingPosition
  | included ringIndex ringPage i => included ringIndex ringPage (if r = ringIndex then index else i)
  | onboarding queuePage queuedAt => onboarding queuePage queuedAt
  | suspended => suspended

namespace Store
variable {T : Config}

/-! ### Suspensions -/

theorem queuePage_dropQueued (s : Store T) (q q' : QueuePageIndex) (key : T.Member) :
    (s.dropQueued q key).queuePage q' =
      if q' = q then (s.queuePage q).erase key else s.queuePage q' := by
  unfold dropQueued
  simp only
  split
  · rw [queuePage_setQueuePage]
    split
    · exact (List.erase_eq_eraseIdx_of_idxOf rfl).symm
    · rfl
  · rename_i hmem
    split
    · rename_i hq
      rw [hq]
      exact (List.erase_of_not_mem hmem).symm
    · rfl

theorem dropQueued_frame (s : Store T) (q : QueuePageIndex) (key : T.Member) :
    s.dropQueued q key = { s with onboardingQueue := (s.dropQueued q key).onboardingQueue } := by
  unfold dropQueued
  simp only
  split <;> rfl

/-- Suspending a member queues its index, or takes it out of the queue, or does nothing but
write the record it already has. -/
theorem queueMemberSuspension_cases {s s' : Store T} {key : T.Member}
    (h : s.queueMemberSuspension key = .ok s') :
    (∃ r p i j indices, s.members.get key = some (.included r p i) ∧
      binarySearch (s.pendingAt r).toList i = .inr j ∧
      indices.toList = (s.pendingAt r).toList.insertIdx j i ∧
      s' = { s with
        pendingSuspensions := s.pendingSuspensions.insert r indices
        members := s.members.insert key .suspended }) ∨
    (∃ q t, s.members.get key = some (.onboarding q t) ∧
      s' = (s.dropQueued q key).setMember key .suspended) ∨
    (s.members.get key = some .suspended ∧ s' = s.setMember key .suspended) := by
  simp only [queueMemberSuspension, bind_eq_ok, okOr_eq_ok] at h
  obtain ⟨position, hget, h⟩ := h
  cases position with
  | included r p i =>
    simp only [bind_eq_ok, queueIncluded] at h
    obtain ⟨t, ht, h⟩ := h
    cases h
    split at ht
    · cases ht
    · rename_i j hj
      simp only [bind_eq_ok, okOr_eq_ok, BoundedVec.tryInsert_eq_some] at ht
      obtain ⟨indices, hindices, ht⟩ := ht
      cases ht
      exact .inl ⟨r, p, i, j, indices, hget, hj, hindices, rfl⟩
  | onboarding q t =>
    cases h
    exact .inr (.inl ⟨q, t, hget, rfl⟩)
  | suspended =>
    cases h
    exact .inr (.inr ⟨hget, rfl⟩)

/-- Suspending a member leaves the other records and the deletions alone. -/
theorem queueMemberSuspension_frame {s s' : Store T} {key : T.Member}
    (h : s.queueMemberSuspension key = .ok s') :
    s'.ringDeletionQueue = s.ringDeletionQueue ∧
      ∀ k, s'.members.get k = if k = key then some .suspended else s.members.get k := by
  rcases queueMemberSuspension_cases h with
    ⟨r, p, i, j, indices, -, -, -, rfl⟩ | ⟨q, t, -, rfl⟩ | ⟨-, rfl⟩
  · exact ⟨rfl, fun k => StorageMap.get_insert _ _ _ _⟩
  · have hframe := dropQueued_frame s q key
    refine ⟨?_, fun k => ?_⟩
    · show (s.dropQueued q key).ringDeletionQueue = _
      rw [hframe]
    · show ((s.dropQueued q key).members.insert key _).get k = _
      rw [StorageMap.get_insert, hframe]
  · exact ⟨rfl, fun k => StorageMap.get_insert _ _ _ _⟩

theorem queueMemberSuspensions_spec {s s' : Store T} {suspensions : List T.Member}
    (h : s.queueMemberSuspensions suspensions = .ok s') :
    s.ringsState.mutating = true ∧ suspensions.foldlM queueMemberSuspension s = .ok s' := by
  simp only [queueMemberSuspensions, bind_eq_ok, ensure_eq_ok] at h
  obtain ⟨-, hm, hfold⟩ := h
  exact ⟨hm, hfold⟩

/-! ### Removing suspended keys -/

theorem members_reposition (s : Store T) (r index : Nat) (key k : T.Member) :
    (s.reposition r key index).members.get k =
      if k = key then (s.members.get key).map (RingPosition.reindex r index)
      else s.members.get k := by
  unfold reposition
  split
  · rename_i ringIndex ringPage i hget
    split
    · rename_i hne
      by_cases hk : k = key
      · subst hk
        simp [hget, RingPosition.reindex, hne]
      · simp [hk]
    · rename_i heq
      have heq : r = ringIndex := by simpa using heq
      rw [setMember, StorageMap.get_insert]
      by_cases hk : k = key
      · simp [hk, hget, RingPosition.reindex, heq]
      · simp [hk]
  · rename_i hother
    by_cases hk : k = key
    · subst hk
      rw [if_pos rfl]
      cases hget : s.members.get k with
      | none => rfl
      | some position =>
        cases position with
        | included ringIndex ringPage i => exact absurd hget (hother ringIndex ringPage i)
        | onboarding q t => rfl
        | suspended => rfl
    · simp [hk]

theorem reposition_frame (s : Store T) (r index : Nat) (key : T.Member) :
    s.reposition r key index = { s with members := (s.reposition r key index).members } := by
  unfold reposition
  split
  · split <;> rfl
  · rfl

theorem members_frame_trans {s t u : Store T} (h : t = { s with members := t.members })
    (h' : u = { t with members := u.members }) : u = { s with members := u.members } := by
  rw [h', h]

theorem retainKeys_frame (r : Nat) (i : Nat) (js : List Nat) (s : Store T) (v : RingPage T)
    (keys : List T.Member) :
    (retainKeys r i js s v keys).1 = { s with members := (retainKeys r i js s v keys).1.members } := by
  induction keys generalizing i js s v with
  | nil => rfl
  | cons key keys ih =>
    unfold retainKeys
    split
    · exact ih _ _ _ _
    · have hframe := reposition_frame s r v.length key
      simp only
      split
      · exact members_frame_trans hframe (ih _ _ _ _)
      · exact hframe

/-- The walk keeps what `compact` keeps, and never overflows the page. -/
theorem retainKeys_snd (r : Nat) (i : Nat) (js : List Nat) (s : Store T) (v : RingPage T)
    (keys : List T.Member) (hfit : v.length + keys.length ≤ T.flexibleRingCapacity) :
    ∃ w, (retainKeys r i js s v keys).2 = some w ∧ w.toList = v.toList ++ compact i js keys := by
  induction keys generalizing i js s v with
  | nil => exact ⟨v, rfl, by simp [compact]⟩
  | cons key keys ih =>
    rw [List.length_cons] at hfit
    unfold retainKeys compact
    split
    · exact ih _ _ _ _ (by omega)
    · simp only
      obtain ⟨w, hpush, hw⟩ : ∃ w, v.tryPush key = some w ∧ w.toList = v.toList ++ [key] :=
        BoundedVec.exists_tryFrom (by
          simp only [BoundedVec.length] at hfit
          rw [List.length_append, List.length_singleton]
          omega)
      rw [hpush]
      obtain ⟨x, hx, hxl⟩ := ih (i + 1) js (s.reposition r key v.length) w (by
        simp only [BoundedVec.length, hw, List.length_append, List.length_singleton] at hfit ⊢
        omega)
      refine ⟨x, hx, ?_⟩
      rw [hxl, hw, List.append_assoc]
      rfl

/-- A record changes only by the index it gives inside the ring. -/
theorem retainKeys_members_cases (r : Nat) (i : Nat) (js : List Nat) (s : Store T) (v : RingPage T)
    (keys : List T.Member) (k : T.Member) :
    (retainKeys r i js s v keys).1.members.get k = s.members.get k ∨
      ∃ p a b, s.members.get k = some (.included r p a) ∧
        (retainKeys r i js s v keys).1.members.get k = some (.included r p b) := by
  induction keys generalizing i js s v with
  | nil => exact .inl rfl
  | cons key keys ih =>
    unfold retainKeys
    split
    · exact ih _ _ _ _
    · have hone : (s.reposition r key v.length).members.get k = s.members.get k ∨
          ∃ p a b, s.members.get k = some (.included r p a) ∧
            (s.reposition r key v.length).members.get k = some (.included r p b) := by
        rw [members_reposition]
        by_cases hk : k = key
        · subst hk
          rw [if_pos rfl]
          cases hget : s.members.get k with
          | none => exact .inl rfl
          | some position =>
            cases position with
            | included r' p a =>
              by_cases hr : r = r'
              · exact .inr ⟨p, a, v.length, by rw [hr], by simp [RingPosition.reindex, hr]⟩
              · exact .inl (by simp [RingPosition.reindex, hr])
            | onboarding q t => exact .inl rfl
            | suspended => exact .inl rfl
        · exact .inl (if_neg hk)
      simp only
      split
      · rename_i w _
        rcases ih (i + 1) js (s.reposition r key v.length) w with h | ⟨p, a, b, ha, hb⟩
        · rw [h]
          exact hone
        · rcases hone with h₁ | ⟨p', a', b', ha', hb'⟩
          · exact .inr ⟨p, a, b, h₁ ▸ ha, hb⟩
          · rw [hb'] at ha
            cases ha
            exact .inr ⟨_, a', b, ha', hb⟩
      · exact hone

/-- A key that is not retained keeps its record. -/
theorem retainKeys_members_notMem (r : Nat) (i : Nat) (js : List Nat) (s : Store T)
    (v : RingPage T) (keys : List T.Member) {k : T.Member} (hk : k ∉ compact i js keys) :
    (retainKeys r i js s v keys).1.members.get k = s.members.get k := by
  induction keys generalizing i js s v with
  | nil => rfl
  | cons key keys ih =>
    unfold compact at hk
    unfold retainKeys
    split
    · rename_i hhead
      rw [if_pos hhead] at hk
      exact ih _ _ _ _ hk
    · rename_i hhead
      rw [if_neg hhead, List.mem_cons, not_or] at hk
      have hone : (s.reposition r key v.length).members.get k = s.members.get k := by
        rw [members_reposition, if_neg hk.1]
      simp only
      split
      · rw [ih _ _ _ _ hk.2, hone]
      · exact hone

/-- A retained key's record gets an index at which the new page holds the key. -/
theorem retainKeys_members_mem (r p : Nat) (i : Nat) (js : List Nat) (s : Store T)
    (v : RingPage T) (keys : List T.Member) (hfit : v.length + keys.length ≤ T.flexibleRingCapacity)
    {k : T.Member} {a : Nat} (hk : k ∈ compact i js keys)
    (hrecord : s.members.get k = some (.included r p a)) :
    ∃ j, (retainKeys r i js s v keys).1.members.get k = some (.included r p j) ∧
      (v.toList ++ compact i js keys)[j]? = some k := by
  induction keys generalizing i js s v a with
  | nil => cases hk
  | cons key keys ih =>
    rw [List.length_cons] at hfit
    unfold compact at hk ⊢
    unfold retainKeys
    split
    · rename_i hhead
      rw [if_pos hhead] at hk
      exact ih _ _ _ _ (by omega) hk hrecord
    · rename_i hhead
      rw [if_neg hhead] at hk
      obtain ⟨w, hpush, hw⟩ : ∃ w, v.tryPush key = some w ∧ w.toList = v.toList ++ [key] :=
        BoundedVec.exists_tryFrom (by
          simp only [BoundedVec.length] at hfit
          rw [List.length_append, List.length_singleton]
          omega)
      simp only [hpush]
      have hlen : w.length = v.length + 1 := by
        rw [BoundedVec.length, hw, List.length_append, List.length_singleton]
        rfl
      have hcat : v.toList ++ key :: compact (i + 1) js keys =
          w.toList ++ compact (i + 1) js keys := by rw [hw, List.append_assoc]; rfl
      rw [hcat]
      have hstep := members_reposition s r v.length key k
      by_cases hrest : k ∈ compact (i + 1) js keys
      · obtain ⟨b, hb⟩ : ∃ b, (s.reposition r key v.length).members.get k =
            some (.included r p b) := by
          rw [hstep]
          split
          · rename_i hkey
            rw [← hkey, hrecord]
            exact ⟨v.length, by simp [RingPosition.reindex]⟩
          · exact ⟨a, hrecord⟩
        exact ih _ _ _ _ (by omega) hrest hb
      · obtain rfl : k = key := (List.mem_cons.mp hk).resolve_right hrest
        refine ⟨v.length, ?_, ?_⟩
        · rw [retainKeys_members_notMem r (i + 1) js _ w keys hrest, hstep, if_pos rfl, hrecord]
          simp [RingPosition.reindex]
        · rw [hw, List.append_assoc, List.getElem?_append_right (by rfl)]
          simp [BoundedVec.length]

/-! ### Roots -/

/-- The ring whose keys were removed keeps a root, of no key, at the next revision. -/
theorem root_resetRoot (env : Env T) (s : Store T) (capacity : T.crypto.Capacity) (r r' : Nat) :
    (s.resetRoot env capacity r).root.get r' =
      if r' = r then (s.root.get r).map fun root =>
        ⟨T.crypto.finishMembers (T.crypto.startMembers capacity), U32.saturatingAdd root.revision 1,
          T.crypto.startMembers capacity⟩
      else s.root.get r' := by
  unfold resetRoot
  cases hget : s.root.get r with
  | some root => simp [StorageMap.get_insert]
  | none => by_cases hr : r' = r <;> simp [hr, hget]

theorem oldRoots_resetRoot (env : Env T) (s : Store T) (capacity : T.crypto.Capacity) (r : Nat) (k : Nat × Nat) :
    (s.resetRoot env capacity r).oldRoots.get k =
      match s.root.get r with
      | some root => if k = (r, root.revision) then some ⟨root.root, env.now⟩ else s.oldRoots.get k
      | none => s.oldRoots.get k := by
  unfold resetRoot
  cases hget : s.root.get r with
  | some root => simp [archive]
  | none => rfl

/-- What `remove_suspended_keys` leaves, for a collection that exists. -/
theorem removeSuspendedKeys_spec (env : Env T) (s : Store T) (r : Nat) :
    (s.collections = none ∧ s.removeSuspendedKeys env r = s) ∨
    ∃ info capacity members page, s.collections = some info ∧ T.capacity info.ringSize = some capacity ∧
      members = (retainKeys r 0 (s.pendingAt r).toList s BoundedVec.nil (s.page r 0)).1.members ∧
      BoundedVec.toList page = compact 0 (s.pendingAt r).toList (s.page r 0) ∧
      s.removeSuspendedKeys env r = { s with
        members := members
        ringKeysStatus := s.ringKeysStatus.insert r
          { s.ringStatusAt r with total := page.length, included := 0 }
        activeMembers := s.activeMembers - ((s.ringStatusAt r).total - page.length)
        ringKeys := if page.toList = [] then s.ringKeys.remove (r, 0) else s.ringKeys.insert (r, 0) page
        root := (s.resetRoot env capacity r).root
        oldRoots := (s.resetRoot env capacity r).oldRoots
        staleRings := if 0 < page.length then s.staleRings.insert r () else s.staleRings
        pendingSuspensions := s.pendingSuspensions.remove r } := by
  unfold removeSuspendedKeys
  cases hinfo : s.collections with
  | none => exact .inl ⟨rfl, rfl⟩
  | some info =>
    right
    obtain ⟨capacity, hcap⟩ := Option.isSome_iff_exists.mp (T.capacity_isSome info.ringSize)
    obtain ⟨page, hpage, hlist⟩ := retainKeys_snd r 0 (s.pendingAt r).toList s BoundedVec.nil
      (s.page r 0) (by simpa [BoundedVec.length] using s.page_length_le r 0)
    have hframe := retainKeys_frame r 0 (s.pendingAt r).toList s BoundedVec.nil (s.page r 0)
    refine ⟨info, capacity, _, page, rfl, hcap, rfl, by simpa using hlist, ?_⟩
    simp only [Option.bind_some, hcap]
    generalize retainKeys r 0 (s.pendingAt r).toList s BoundedVec.nil (s.page r 0) = result
      at hpage hframe ⊢
    obtain ⟨t, o⟩ := result
    simp only at hpage hframe ⊢
    subst hpage
    rw [hframe]
    simp only [setRingStatus, ringStatusAt, removeRingPage, setRingPage, setStale, resetRoot, archive]
    by_cases hnil : page.toList = [] <;> by_cases hpos : 0 < page.length <;>
      cases hroot : s.root.get r <;> simp [hnil, hpos, hroot, hinfo]

/-- The first page is the only one a removal writes. -/
theorem page_removeSuspendedKeys {s s' : Store T} {r : Nat} {page : RingPage T}
    {members : StorageMap T.Member RingPosition} {status : StorageMap Nat RingStatus}
    {active : Nat} {root : StorageMap Nat (RingRoot T)}
    {oldRoots : StorageMap (Nat × Nat) (OldRoot T)} {stale : StorageMap Nat Unit}
    {pending : StorageMap Nat (BoundedVec Nat T.flexibleRingCapacity)}
    (h : s' = { s with
      members := members
      ringKeysStatus := status
      activeMembers := active
      ringKeys := if page.toList = [] then s.ringKeys.remove (r, 0) else s.ringKeys.insert (r, 0) page
      root := root
      oldRoots := oldRoots
      staleRings := stale
      pendingSuspensions := pending }) (r' p : Nat) :
    s'.page r' p = if r' = r ∧ p = 0 then page.toList else s.page r' p := by
  rw [h]
  by_cases hnil : page.toList = []
  · have := page_removeRingPage s r r' 0 p
    simpa [hnil, Store.page, ringKeysAt, removeRingPage] using this
  · have := page_setRingPage s r r' 0 p page
    simpa [hnil, Store.page, ringKeysAt, setRingPage] using this

/-! ### Removing rings -/

theorem get_foldl_insert_unit {κ : Type} [DecidableEq κ] (ks : List κ) (m : StorageMap κ Unit)
    (k : κ) : ((ks.foldl (fun m k => m.insert k ()) m).get k).isSome = true ↔
      (m.get k).isSome = true ∨ k ∈ ks := by
  induction ks generalizing m with
  | nil => simp
  | cons a ks ih =>
    rw [List.foldl_cons, ih, StorageMap.get_insert]
    by_cases h : k = a <;> simp [h]

/-- The pages of a ring's total hold it. -/
theorem le_pageCount_mul {total : Nat} : total ≤ pageCount T total * T.flexibleRingCapacity := by
  have hdiv := Nat.div_add_mod' total T.flexibleRingCapacity
  have hmod := Nat.mod_lt total T.flexibleRingCapacity_pos
  unfold pageCount
  split <;> rw [Nat.add_mul] <;> omega

/-- Enqueueing a ring archives its root, takes its status and counts, and queues as many
pages as its status says it has. -/
theorem enqueueRingForDeletion_spec (env : Env T) (s : Store T) (r : Nat) :
    ∃ queue, s.enqueueRingForDeletion env r = { s with
        root := (s.archiveRoot env r).root
        oldRoots := (s.archiveRoot env r).oldRoots
        staleRings := s.staleRings.remove r
        pendingSuspensions := s.pendingSuspensions.remove r
        ringKeysStatus := s.ringKeysStatus.remove r
        activeMembers := s.activeMembers - (s.ringStatusAt r).total
        ringDeletionQueue := queue } ∧
      ∀ r' p, (queue.get (r', p)).isSome = true ↔ (s.ringDeletionQueue.get (r', p)).isSome = true ∨
        (r' = r ∧ p < pageCount T (s.ringStatusAt r).total) := by
  have hframe := archiveRoot_frame env s r
  have hstatus : (s.archiveRoot env r).ringStatusAt r = s.ringStatusAt r := by
    rw [hframe]
    rfl
  unfold enqueueRingForDeletion
  simp only
  have hread : ({ s.archiveRoot env r with
      staleRings := (s.archiveRoot env r).staleRings.remove r
      pendingSuspensions := (s.archiveRoot env r).pendingSuspensions.remove r } : Store T).ringStatusAt
        r = s.ringStatusAt r := hstatus
  rw [hread]
  split
  · rename_i hzero
    refine ⟨s.ringDeletionQueue, ?_, fun r' p => ?_⟩
    · rw [hzero]
      conv_lhs => rw [hframe]
      rfl
    · rw [hzero]
      simp [pageCount]
  · refine ⟨(List.range (pageCount T (s.ringStatusAt r).total)).foldl
      (fun queue i => queue.insert (r, i) ()) s.ringDeletionQueue, ?_, fun r' p => ?_⟩
    · conv_lhs => rw [hframe]
    · have hmap : (List.range (pageCount T (s.ringStatusAt r).total)).foldl
          (fun queue i => queue.insert (r, i) ()) s.ringDeletionQueue =
          ((List.range (pageCount T (s.ringStatusAt r).total)).map fun i => (r, i)).foldl
            (fun queue k => queue.insert k ()) s.ringDeletionQueue :=
        (List.foldl_map (f := fun i => (r, i))
          (g := fun (queue : StorageMap (Nat × Nat) Unit) k => queue.insert k ())).symm
      rw [hmap, get_foldl_insert_unit]
      simp only [List.mem_map, List.mem_range, Prod.mk.injEq]
      constructor
      · rintro (h | ⟨i, hi, rfl, rfl⟩)
        · exact .inl h
        · exact .inr ⟨rfl, hi⟩
      · rintro (h | ⟨rfl, hp⟩)
        · exact .inl h
        · exact .inr ⟨p, hp, rfl, rfl⟩

theorem deleteSlots_frame (r p : Nat) (slots : List (T.Member × Nat)) (s : Store T) :
    slots.foldl (deleteSlot r p) s = { s with members := (slots.foldl (deleteSlot r p) s).members } := by
  induction slots generalizing s with
  | nil => rfl
  | cons slot slots ih =>
    rw [List.foldl_cons]
    refine members_frame_trans (t := deleteSlot r p s slot) ?_ (ih _)
    unfold deleteSlot
    split <;> rfl

open Classical in
/-- A record is deleted when it points at one of the slots, and kept otherwise. -/
theorem deleteSlots_members (r p : Nat) (slots : List (T.Member × Nat)) (s : Store T)
    (k : T.Member) :
    (slots.foldl (deleteSlot r p) s).members.get k =
      if ∃ i, (k, i) ∈ slots ∧ s.members.get k = some (.included r p i) then none
      else s.members.get k := by
  induction slots generalizing s with
  | nil => simp
  | cons slot slots ih =>
    obtain ⟨key, i⟩ := slot
    rw [List.foldl_cons, ih]
    have hone : (deleteSlot r p s (key, i)).members.get k =
        if k = key ∧ s.members.get k = some (.included r p i) then none else s.members.get k := by
      unfold deleteSlot
      by_cases hk : k = key
      · subst hk
        by_cases hget : s.members.get k = some (.included r p i) <;>
          simp [hget, removeMember]
      · by_cases hget : s.members.get key = some (.included r p i) <;>
          simp [hget, hk, removeMember]
    rw [hone]
    by_cases hcase : k = key ∧ s.members.get k = some (.included r p i)
    · obtain ⟨rfl, hget⟩ := hcase
      simp [hget]
    · rw [if_neg hcase]
      congr 1
      apply propext
      constructor
      · rintro ⟨j, hj, hget⟩
        exact ⟨j, List.mem_cons_of_mem _ hj, hget⟩
      · rintro ⟨j, hj, hget⟩
        rcases List.mem_cons.mp hj with hj | hj
        · cases hj
          exact absurd ⟨rfl, hget⟩ hcase
        · exact ⟨j, hj, hget⟩

open Classical in
/-- Deleting a page empties it and deletes the records that point into it. -/
theorem deleteRingPage_spec (s : Store T) (r p : Nat) :
    ∃ members, s.deleteRingPage r p = { s with
        members := members
        ringKeys := s.ringKeys.remove (r, p) } ∧
      ∀ k, members.get k =
        if ∃ i, (s.page r p)[i]? = some k ∧ s.members.get k = some (.included r p i) then none
        else s.members.get k := by
  refine ⟨((s.page r p).zipIdx.foldl (deleteSlot r p) s).members, ?_, fun k => ?_⟩
  · unfold deleteRingPage removeRingPage
    conv_lhs => rw [deleteSlots_frame]
  · rw [deleteSlots_members]
    simp only [List.mk_mem_zipIdx_iff_getElem?]

/-! ### Deleting the queue -/

theorem removeMembers_frame (keys : List T.Member) (s : Store T) :
    keys.foldl removeMember s = { s with members := (keys.foldl removeMember s).members } := by
  induction keys generalizing s with
  | nil => rfl
  | cons key keys ih => exact members_frame_trans (t := s.removeMember key) rfl (ih _)

theorem removeMembers_get (keys : List T.Member) (s : Store T) (k : T.Member) :
    (keys.foldl removeMember s).members.get k = if k ∈ keys then none else s.members.get k := by
  induction keys generalizing s with
  | nil => simp
  | cons key keys ih =>
    rw [List.foldl_cons, ih]
    by_cases hk : k = key <;> by_cases hmem : k ∈ keys <;> simp [removeMember, hk, hmem]

theorem deleteOnboardingQueuePage_spec (s : Store T) (q : QueuePageIndex) :
    ∃ members, s.deleteOnboardingQueuePage q = { s with
        members := members
        onboardingQueue := s.onboardingQueue.remove q } ∧
      ∀ k, members.get k = if k ∈ s.queuePage q then none else s.members.get k := by
  refine ⟨((s.queuePage q).foldl removeMember (s.removeQueuePage q)).members, ?_, fun k => ?_⟩
  · unfold deleteOnboardingQueuePage
    conv_lhs => rw [removeMembers_frame]
    rfl
  · exact removeMembers_get _ _ _

end Store
end Individuality.Members
