import Individuality.Members.Progress
import Individuality.Members.QueueArc

/-! The onboarding queue stays coherent.

Five operations move keys between pages, drop pages and move the head on their
own, and only some of them rewrite the records of the keys they move. What they
all keep (`QueueCoherent`): a record says a key waits in a page exactly when the
key is there, no page holds a key twice, and the pages with keys lie on the arc
from the head to the tail. A page past the tail is therefore empty, so a push
that opens it overwrites nothing. -/
namespace Individuality.Members
open Support
variable {T : Config}

structure QueueCoherent (s : Store T) : Prop where
  mem_iff : ∀ k q, k ∈ s.queuePage q ↔ ∃ t, s.members.get k = some (.onboarding q t)
  nodup : ∀ q, (s.queuePage q).Nodup
  onArc : ∀ q, s.queuePage q ≠ [] → InArc s.queuePageIndices.1 s.queuePageIndices.2 q

namespace QueueCoherent
variable {s s' : Store T}

theorem empty : QueueCoherent (Store.empty T) where
  mem_iff k q := by simp [Store.empty, Store.queuePage, Store.queueAt]
  nodup q := by simp [Store.empty, Store.queuePage, Store.queueAt]
  onArc q h := absurd (by simp [Store.empty, Store.queuePage, Store.queueAt]) h

/-- A key waits in one page only. -/
theorem page_unique (h : QueueCoherent s) {k : T.Member} {q q' : QueuePageIndex}
    (hq : k ∈ s.queuePage q) (hq' : k ∈ s.queuePage q') : q = q' := by
  obtain ⟨t, ht⟩ := (h.mem_iff k q).mp hq
  obtain ⟨t', ht'⟩ := (h.mem_iff k q').mp hq'
  rw [ht] at ht'
  cases ht'
  rfl

theorem not_mem (h : QueueCoherent s) {k : T.Member}
    (hk : ∀ q t, s.members.get k ≠ some (.onboarding q t)) (q : QueuePageIndex) :
    k ∉ s.queuePage q := by
  intro hmem
  obtain ⟨t, ht⟩ := (h.mem_iff k q).mp hmem
  exact hk q t ht

/-- What leaves the queue and the waiting records alone keeps the queue coherent. -/
theorem of_same (h : QueueCoherent s) (hq : ∀ q, s'.queuePage q = s.queuePage q)
    (hi : s'.queuePageIndices = s.queuePageIndices)
    (hm : ∀ k q t, s'.members.get k = some (.onboarding q t) ↔
      s.members.get k = some (.onboarding q t)) : QueueCoherent s' where
  mem_iff k q := by
    rw [hq, h.mem_iff]
    simp only [hm]
  nodup q := by
    rw [hq]
    exact h.nodup q
  onArc q hne := by
    rw [hi]
    rw [hq] at hne
    exact h.onArc q hne

/-- The page past the tail is empty. -/
theorem page_succ_tail (h : QueueCoherent s)
    (hne : s.queuePageIndices.2 + 1#32 ≠ s.queuePageIndices.1) :
    s.queuePage (s.queuePageIndices.2 + 1#32) = [] := Store.OnArc.page_succ_tail h.onArc hne

/-! ### One operation at a time -/

theorem enqueueAt {env : Env T} {tail : QueuePageIndex} {keys : QueuePage T} {key : T.Member}
    (h : QueueCoherent s) (hkey : ∀ q t, s.members.get key ≠ some (.onboarding q t))
    (hkeys : keys.toList = s.queuePage tail ++ [key])
    (harc : ∀ q, InArc s.queuePageIndices.1 s.queuePageIndices.2 q →
      InArc s.queuePageIndices.1 tail q) : QueueCoherent (s.enqueueAt env tail keys key) := by
  have hpage : ∀ q, (s.enqueueAt env tail keys key).queuePage q =
      if q = tail then s.queuePage tail ++ [key] else s.queuePage q := by
    intro q
    rw [← hkeys]
    exact Store.queuePage_setQueuePage s tail q keys
  have hget : ∀ k, (s.enqueueAt env tail keys key).members.get k =
      if k = key then some (.onboarding tail env.now) else s.members.get k :=
    fun k => StorageMap.get_insert _ _ _ _
  have hfresh := h.not_mem hkey
  refine ⟨fun k q => ?_, fun q => ?_, fun q hne => ?_⟩
  · rw [hpage, hget]
    by_cases hk : k = key
    · subst hk
      by_cases hq : q = tail
      · simp [hq]
      · simp [hq, hfresh q, Ne.symm hq]
    · by_cases hq : q = tail
      · simp [hq, hk, h.mem_iff]
      · simp [hq, hk, h.mem_iff]
  · rw [hpage]
    split
    · rw [List.nodup_append]
      refine ⟨h.nodup tail, List.nodup_singleton key, ?_⟩
      intro a ha b hb hab
      rw [List.mem_singleton] at hb
      exact hfresh tail (hb ▸ hab ▸ ha)
    · exact h.nodup q
  · show InArc s.queuePageIndices.1 tail q
    rw [hpage] at hne
    split at hne
    · rename_i hq
      rw [hq]
      exact inArc_tail _ _
    · exact harc q (h.onArc q hne)

theorem pushToOnboardingQueue {env : Env T} {key : T.Member} (h : QueueCoherent s)
    (hkey : ∀ q t, s.members.get key ≠ some (.onboarding q t))
    (hs : s.pushToOnboardingQueue env key = .ok s') : QueueCoherent s' := by
  obtain ⟨tail, keys, rfl, ⟨htail, hkeys⟩ | ⟨htail, hne, hkeys, -⟩⟩ :=
    Store.pushToOnboardingQueue_spec hs
  · refine h.enqueueAt hkey hkeys fun q hq => ?_
    rw [htail]
    exact hq
  · rw [htail] at hne
    refine h.enqueueAt hkey ?_ fun q hq => ?_
    · rw [htail, h.page_succ_tail hne]
      exact hkeys
    · rw [htail]
      exact hq.extend hne

theorem addMember {env : Env T} {key : T.Member} (h : QueueCoherent s)
    (hs : Store.addMember env s key = .ok s') : QueueCoherent s' := by
  obtain ⟨hrec, hpush⟩ := Store.addMember_spec hs
  refine h.pushToOnboardingQueue (fun q t hget => ?_) hpush
  rcases hrec with hrec | hrec <;> rw [hrec] at hget <;> cases hget

/-- The keys a round reads are those of one or two pages. -/
theorem mem_round (R : Store.Round s s') (k : T.Member) :
    k ∈ R.keys ↔ k ∈ s.queuePage R.head ∨ k ∈ s.queuePage s.queuePageIndices.1 := by
  rcases R.keys_cases with ⟨hhead, hkeys⟩ | ⟨-, -, hkeys, -, -⟩
  · rw [hkeys, hhead]
    simp
  · rw [hkeys, List.mem_append]
    exact or_comm

/-- It reads each key once. -/
theorem round_nodup (h : QueueCoherent s) (R : Store.Round s s') : R.keys.Nodup := by
  rcases R.keys_cases with ⟨-, hkeys⟩ | ⟨hhead, -, hkeys, -, -⟩
  · rw [hkeys]
    exact h.nodup _
  · rw [hkeys, List.nodup_append]
    refine ⟨h.nodup _, h.nodup _, ?_⟩
    intro a ha b hb hab
    subst hab
    have := h.page_unique ha hb
    rw [hhead] at this
    exact absurd this.symm (by simp)

/-- An onboarding round empties the pages it reads up to what it leaves of the last one. -/
theorem round (h : QueueCoherent s) (R : Store.Round s s') : QueueCoherent s' := by
  have hread := mem_round R
  have hnodup := h.round_nodup R
  have hsplit : ∀ k, k ∈ R.keys.drop R.toInclude ↔ k ∈ R.keys ∧ k ∉ R.keys.take R.toInclude := by
    intro k
    have hcat := List.take_append_drop R.toInclude R.keys
    rw [← hcat, List.nodup_append] at hnodup
    constructor
    · intro hk
      exact ⟨List.mem_of_mem_drop hk, fun ht => hnodup.2.2 k ht k hk rfl⟩
    · rintro ⟨hk, ht⟩
      rw [← hcat, List.mem_append] at hk
      exact hk.resolve_left ht
  -- What is left was all in the new head page.
  have hleft : ∀ k, k ∈ R.keys.drop R.toInclude → k ∈ s.queuePage R.head := by
    intro k hk
    rcases R.keys_cases with ⟨-, hkeys⟩ | ⟨-, -, -, -, hdrop⟩
    · rw [hkeys] at hk
      exact List.mem_of_mem_drop hk
    · rw [hdrop] at hk
      exact List.mem_of_mem_drop hk
  have htaken : ∀ k q t, k ∈ R.keys.take R.toInclude →
      s'.members.get k ≠ some (.onboarding q t) := by
    intro k q t hk hget
    obtain ⟨p, i, hinc⟩ := R.members_of_mem hk
    rw [hinc] at hget
    cases hget
  refine ⟨fun k q => ?_, fun q => ?_, fun q hne => ?_⟩
  · rw [R.queuePage_eq]
    by_cases hk : k ∈ R.keys.take R.toInclude
    · -- A key taken is in none of the pages and its record is no longer waiting.
      have hin := (hread k).mp (List.mem_of_mem_take hk)
      constructor
      · intro hmem
        split at hmem
        · exact absurd hk ((hsplit k).mp hmem).2
        · rename_i hq
          split at hmem
          · cases hmem
          · rename_i hq'
            rcases hin with hin | hin
            · exact absurd (h.page_unique hmem hin) hq
            · exact absurd (h.page_unique hmem hin) hq'
      · rintro ⟨t, ht⟩
        exact absurd ht (htaken k q t hk)
    · rw [R.members_of_notMem hk, ← h.mem_iff]
      split
      · rename_i hq
        rw [hq, hsplit, hread]
        constructor
        · rintro ⟨hin, -⟩
          exact hleft k ((hsplit k).mpr ⟨(hread k).mpr hin, hk⟩)
        · intro hmem
          exact ⟨.inl hmem, hk⟩
      · rename_i hq
        split
        · rename_i hq'
          rw [hq']
          simp only [List.not_mem_nil, false_iff]
          intro hmem
          have hleft := hleft k ((hsplit k).mpr ⟨(hread k).mpr (.inr hmem), hk⟩)
          exact hq (hq' ▸ h.page_unique hmem hleft)
        · rfl
  · rw [R.queuePage_eq]
    split
    · exact hnodup.sublist (List.drop_sublist _ _)
    · split
      · exact List.nodup_nil
      · exact h.nodup q
  · exact Store.OnArc.round h.onArc R q hne

/-- Taking a waiting key out of its page and giving it another record. -/
theorem leave {q : QueuePageIndex} {t : Nat} {key : T.Member} (h : QueueCoherent s)
    (hget : s.members.get key = some (.onboarding q t)) (position : RingPosition)
    (hposition : ∀ q t, position ≠ .onboarding q t)
    (hpage : ∀ q', s'.queuePage q' = if q' = q then (s.queuePage q).erase key else s.queuePage q')
    (hmembers : ∀ k, s'.members.get k = if k = key then some position else s.members.get k)
    (harc : s'.OnArc) : QueueCoherent s' := by
  have hmem : key ∈ s.queuePage q := (h.mem_iff key q).mpr ⟨t, hget⟩
  refine ⟨fun k q' => ?_, fun q' => ?_, harc⟩
  · rw [hpage, hmembers]
    by_cases hk : k = key
    · subst hk
      simp only [if_true, Option.some.injEq]
      constructor
      · intro hin
        split at hin
        · exact absurd hin (h.nodup q).not_mem_erase
        · rename_i hq
          exact absurd (h.page_unique hin hmem) hq
      · rintro ⟨t', ht'⟩
        exact absurd ht' (hposition q' t')
    · rw [if_neg hk, ← h.mem_iff]
      split
      · rename_i hq
        rw [hq, List.mem_erase_of_ne hk]
      · rfl
  · rw [hpage]
    split
    · exact (h.nodup q).erase key
    · exact h.nodup q'

theorem doSelfInclude {member : T.Member} (h : QueueCoherent s)
    (hs : s.doSelfInclude member = .ok s') : QueueCoherent s' := by
  obtain ⟨info, q, t, d, a, keys, -, -, hget, hd, ha, -, rfl⟩ := Store.doSelfInclude_spec hs
  obtain ⟨-, hframe, hpage, -⟩ := Store.dequeue_spec hd
  refine h.leave hget (.included a.ringIndex a.pageIndex a.keys.length)
    (fun _ _ h => by cases h) hpage (fun k => ?_)
    ((Store.OnArc.dequeue h.onArc hd).of_same rfl rfl)
  show (d.members.insert member _).get k = _
  rw [StorageMap.get_insert, hframe]

theorem queueMemberSuspension {key : T.Member} (h : QueueCoherent s)
    (hs : s.queueMemberSuspension key = .ok s') : QueueCoherent s' := by
  have hget' : ∀ (t : Store T) k, (t.setMember key .suspended).members.get k =
      if k = key then some .suspended else t.members.get k := fun t k => StorageMap.get_insert _ _ _ _
  have hother : ∀ position, s.members.get key = some position →
      (∀ q t, position ≠ .onboarding q t) → ∀ k q t,
      (if k = key then some .suspended else s.members.get k) = some (.onboarding q t) ↔
        s.members.get k = some (.onboarding q t) := by
    intro position hget hne k q t
    by_cases hk : k = key
    · subst hk
      rw [if_pos rfl, hget]
      simp [hne q t]
    · rw [if_neg hk]
  rcases Store.queueMemberSuspension_cases hs with
    ⟨r, p, i, j, indices, hget, -, -, rfl⟩ | ⟨q, t, hget, rfl⟩ | ⟨hget, rfl⟩
  · refine h.of_same (fun _ => rfl) rfl fun k q t => ?_
    show (s.members.insert key .suspended).get k = _ ↔ _
    rw [StorageMap.get_insert]
    exact hother _ hget (fun _ _ h => by cases h) k q t
  · have hframe := Store.dropQueued_frame s q key
    refine h.leave hget .suspended (fun _ _ h => by cases h)
      (fun q' => Store.queuePage_dropQueued s q q' key) (fun k => ?_)
      (Store.OnArc.queueMemberSuspension h.onArc hs)
    rw [hget', hframe]
  · refine h.of_same (fun _ => rfl) rfl fun k q t => ?_
    rw [hget']
    exact hother _ hget (fun _ _ h => by cases h) k q t

/-- Merging the two front pages moves the first page's keys and their records together. -/
theorem mergeFrontQueuePages (h : QueueCoherent s) (hs : s.mergeFrontQueuePages = .ok s') :
    QueueCoherent s' := by
  have harc := Store.OnArc.mergeFrontQueuePages h.onArc hs
  obtain ⟨hne, t, keys, hfold, hkeys, rfl⟩ := Store.mergeFrontQueuePages_spec hs
  obtain ⟨hframe, hsame, hmoved⟩ := Store.relocateQueued_fold hfold
  generalize hhead : s.queuePageIndices.1 = head at *
  have hnext : head + 1#32 ≠ head := by simp
  have hpage : ∀ q, ({ ((t.removeQueuePage head).setQueuePage (head + 1#32) keys) with
      queuePageIndices := (head + 1#32, t.queuePageIndices.2) } : Store T).queuePage q =
      if q = head + 1#32 then s.queuePage head ++ s.queuePage (head + 1#32)
      else if q = head then [] else s.queuePage q := by
    intro q
    show ((t.removeQueuePage head).setQueuePage (head + 1#32) keys).queuePage q = _
    rw [Store.queuePage_setQueuePage, Store.queuePage_removeQueuePage, hkeys, hframe]
    rfl
  have hfirst : ∀ k, k ∈ s.queuePage head → ∃ t₀, s.members.get k = some (.onboarding head t₀) :=
    fun k hk => (h.mem_iff k head).mp hk
  have hdisjoint : ∀ k, k ∈ s.queuePage head → k ∉ s.queuePage (head + 1#32) :=
    fun k hk hk' => hnext (h.page_unique hk' hk)
  refine ⟨fun k q => ?_, fun q => ?_, harc⟩
  · rw [hpage]
    show _ ↔ ∃ t₀, t.members.get k = _
    by_cases hk : k ∈ s.queuePage head
    · obtain ⟨t₀, ht₀⟩ := hfirst k hk
      rw [hmoved k hk head t₀ ht₀]
      by_cases hq : q = head + 1#32
      · simp [hq, hk]
      · have hout : k ∉ (if q = head then [] else s.queuePage q) := by
          split
          · exact List.not_mem_nil
          · rename_i hq'
            exact fun hin => hq' (h.page_unique hin hk)
        simp [hq, hout, Ne.symm hq]
    · rw [hsame k hk, ← h.mem_iff]
      by_cases hq : q = head + 1#32
      · simp [hq, hk]
      · by_cases hq' : q = head
        · simp [hq', hk]
        · simp [hq, hq']
  · rw [hpage]
    split
    · rw [List.nodup_append]
      refine ⟨h.nodup _, h.nodup _, ?_⟩
      intro a ha b hb hab
      exact hdisjoint a ha (hab ▸ hb)
    · split
      · exact List.nodup_nil
      · exact h.nodup q

/-- A merge that moves included keys leaves those that wait alone. -/
theorem mergeRings {env : Env T} {base target : Nat} (h : QueueCoherent s)
    (hs : s.mergeRings env base target = .ok s')
    (hmoved : ∀ k ∈ s.page target 0, ∃ r p i, s.members.get k = some (.included r p i)) :
    QueueCoherent s' := by
  obtain ⟨info, m, -, -, -, -, -, -, -, -, -, hm, hs'⟩ := Store.mergeRings_spec hs
  obtain ⟨-, -, hsame, hrecord⟩ := Store.moveKeys_spec hm
  rw [hs']
  refine h.of_same (fun _ => rfl) rfl fun k q t => ?_
  show m.1.members.get k = _ ↔ _
  by_cases hk : k ∈ s.page target 0
  · obtain ⟨-, i, -, -, hnew⟩ := hrecord k hk
    obtain ⟨r, p, j, hold⟩ := hmoved k hk
    simp [hnew, hold]
  · rw [hsame k hk]

theorem removeSuspendedKeys {env : Env T} {r : Nat} (h : QueueCoherent s) :
    QueueCoherent (s.removeSuspendedKeys env r) := by
  rcases Store.removeSuspendedKeys_spec env s r with ⟨-, hs⟩ | ⟨info, capacity, members, page, -, -,
    hmembers, -, hs⟩
  · rw [hs]
    exact h
  · rw [hs]
    refine h.of_same (fun _ => rfl) rfl fun k q t => ?_
    show members.get k = _ ↔ _
    rcases Store.retainKeys_members_cases r 0 (s.pendingAt r).toList s BoundedVec.nil (s.page r 0) k
      with hsame | ⟨p, a, b, hold, hnew⟩
    · rw [hmembers, hsame]
    · rw [hmembers, hnew, hold]
      simp

theorem enqueueRingForDeletion {env : Env T} {r : Nat} (h : QueueCoherent s) :
    QueueCoherent (s.enqueueRingForDeletion env r) := by
  obtain ⟨queue, hs, -⟩ := Store.enqueueRingForDeletion_spec env s r
  rw [hs]
  exact h.of_same (fun _ => rfl) rfl fun _ _ _ => Iff.rfl

theorem deleteRingPage {r p : Nat} (h : QueueCoherent s) : QueueCoherent (s.deleteRingPage r p) := by
  obtain ⟨members, hs, hget⟩ := Store.deleteRingPage_spec s r p
  rw [hs]
  refine h.of_same (fun _ => rfl) rfl fun k q t => ?_
  show members.get k = _ ↔ _
  rw [hget]
  split
  · rename_i hdel
    obtain ⟨i, -, hold⟩ := hdel
    simp [hold]
  · rfl

theorem deleteOnboardingQueuePage {q : QueuePageIndex} (h : QueueCoherent s) :
    QueueCoherent (s.deleteOnboardingQueuePage q) := by
  obtain ⟨members, hs, hget⟩ := Store.deleteOnboardingQueuePage_spec s q
  rw [hs]
  have hpage : ∀ q', ({ s with
      members := members, onboardingQueue := s.onboardingQueue.remove q } : Store T).queuePage q' =
      if q' = q then [] else s.queuePage q' := Store.queuePage_removeQueuePage s q
  refine ⟨fun k q' => ?_, fun q' => ?_, fun q' hne => ?_⟩
  · rw [hpage]
    show _ ↔ ∃ t, members.get k = _
    rw [hget]
    by_cases hk : k ∈ s.queuePage q
    · have hout : k ∉ (if q' = q then [] else s.queuePage q') := by
        split
        · exact List.not_mem_nil
        · rename_i hq
          exact fun hin => hq (h.page_unique hin hk)
      simp [hk, hout]
    · rw [if_neg hk, ← h.mem_iff]
      by_cases hq : q' = q <;> simp [hq, hk]
  · rw [hpage]
    split
    · exact List.nodup_nil
    · exact h.nodup q'
  · rw [hpage] at hne
    split at hne
    · exact absurd rfl hne
    · exact h.onArc q' hne

/-- Every call keeps the queue coherent, a merge of rings when the keys it moves are included. -/
theorem step {env : Env T} {c : Call T} (h : QueueCoherent s)
    (hc : ∀ base target, c = .mergeRings base target →
      ∀ k ∈ s.page target 0, ∃ r p i, s.members.get k = some (.included r p i))
    (hs : s.exec env c = .ok s') : QueueCoherent s' := by
  have frame : ∀ {u : Store T}, u.queuePage = s.queuePage → u.queuePageIndices = s.queuePageIndices →
      u.members = s.members → QueueCoherent u := fun hq hi hm =>
    h.of_same (fun q => congrFun hq q) hi fun _ _ _ => by rw [hm]
  cases exec_effect hs with
  | mergeRings hs => exact h.mergeRings hs (hc _ _ rfl)
  | addMembers _ hfold =>
    exact foldlM_ok_induction (fun _ t => QueueCoherent t) hfold h
      fun _ _ _ _ _ ht hstep => ht.addMember hstep
  | onboardNone => exact h
  | onboard R => exact h.round R
  | selfInclude hs => exact h.doSelfInclude hs
  | mergeQueuePages hs => exact h.mergeFrontQueuePages hs
  | removeMembers _ hfold =>
    exact foldlM_ok_induction (fun _ t => QueueCoherent t) hfold h
      fun _ _ _ _ _ ht hstep => ht.queueMemberSuspension hstep
  | removeSuspendedKeys _ => exact h.removeSuspendedKeys
  | removeRingQueued _ => exact h
  | removeRing _ _ _ => exact h.enqueueRingForDeletion
  | enqueueRingDeletion _ _ => exact h.enqueueRingForDeletion
  | deleteRingPage _ =>
    exact deleteRingPage (h.of_same (fun _ => rfl) rfl fun _ _ _ => Iff.rfl)
  | deleteOnboardingQueuePage _ => exact h.deleteOnboardingQueuePage
  | finalizeCollectionDeletion _ _ _ hempty =>
    -- The indices start over, and no page is left.
    have hnil : ∀ q, s.queuePage q = [] := by
      intro q
      simp [Store.queuePage, Store.queueAt, hempty q]
    exact ⟨h.mem_iff, h.nodup, fun q hne => absurd (hnil q) hne⟩
  | buildRing hbuild =>
    obtain ⟨_, _, _, _, _, -, -, -, -, -, -, -, -, hs⟩ := Store.buildRing_spec hbuild
    rw [hs]
    exact frame rfl rfl rfl
  | createCollection _ _ _ _ => exact frame rfl rfl rfl
  | setOnboardingSize => exact frame rfl rfl rfl
  | session _ _ => exact frame rfl rfl rfl
  | deleteCollection _ _ => exact frame rfl rfl rfl
  | markRingStale => exact frame rfl rfl rfl
  | cleanUpOldRoots _ _ => exact frame rfl rfl rfl

end QueueCoherent

/-- The queue of every collection is coherent in every state that runs without ring merges
reach: records and pages agree, each waiting key is stored once, included and suspended keys
are not stored, the pages with keys lie between head and tail, and a push keeps what every
page holds. -/
theorem queue_coherent {s : State T}
    (h : State.Reachable (State.OnCalls fun _ _ c => ∀ base target, c ≠ .mergeRings base target) s)
    (id : Identifier) :
    (∀ k q, (∃ t, (s.store id).members.get k = some (.onboarding q t)) ↔
      k ∈ (s.store id).queuePage q) ∧
    (∀ k q t, (s.store id).members.get k = some (.onboarding q t) →
      ((s.store id).queuePage q).count k = 1 ∧ ∀ q', q' ≠ q → k ∉ (s.store id).queuePage q') ∧
    (∀ k, ((s.store id).members.get k = some .suspended ∨
      ∃ r p i, (s.store id).members.get k = some (.included r p i)) →
      ∀ q, k ∉ (s.store id).queuePage q) ∧
    (∀ q, (s.store id).queuePage q ≠ [] →
      InArc (s.store id).queuePageIndices.1 (s.store id).queuePageIndices.2 q) ∧
    (∀ env k s', (s.store id).pushToOnboardingQueue env k = .ok s' →
      ∀ q, (s.store id).queuePage q <+: s'.queuePage q) := by
  have hq : QueueCoherent (s.store id) := State.reachable_invariant h QueueCoherent.empty
    (fun _ _ _ _ ht hc hs => ht.step (fun base target he => absurd he (hc base target)) hs) id
  refine ⟨fun k q => (hq.mem_iff k q).symm, fun k q t hget => ?_, fun k hk q => ?_, hq.onArc,
    fun env k s' hpush q => ?_⟩
  · have hmem := (hq.mem_iff k q).mpr ⟨t, hget⟩
    refine ⟨List.count_eq_one_of_mem (hq.nodup q) hmem, fun q' hne hin => ?_⟩
    exact hne (hq.page_unique hin hmem)
  · refine hq.not_mem (fun q' t hget => ?_) q
    rcases hk with hk | ⟨r, p, i, hk⟩ <;> rw [hk] at hget <;> cases hget
  · obtain ⟨tail, keys, rfl, hcase⟩ := Store.pushToOnboardingQueue_spec hpush
    have hpage : ((s.store id).enqueueAt env tail keys k).queuePage q =
        if q = tail then keys.toList else (s.store id).queuePage q :=
      Store.queuePage_setQueuePage _ tail q keys
    rw [hpage]
    split
    · rename_i hqt
      rw [hqt]
      rcases hcase with ⟨-, hkeys⟩ | ⟨htail, hne, -, -⟩
      · rw [hkeys]
        exact List.prefix_append _ _
      · rw [htail] at hne ⊢
        rw [hq.page_succ_tail hne]
        exact List.nil_prefix
    · exact List.prefix_refl _

/-- One member of four is onboarded by itself, one is suspended while it waits. -/
theorem queue_coherent_four : ∃ s : State sampleConfig,
    sampleRun [.createCollection (0 : Nat) 1 .appendOnly .r2e10 none, .addMembers (sampleKeys 0 4),
      .selfInclude (1 : Nat), .startRemovalSession, .removeMembers [(2 : Nat)]] = .ok s ∧
    (s.store sampleId).queuePage 0 = sampleKeys 0 1 ++ sampleKeys 3 1 ∧
    ∀ k q, (∃ t, (s.store sampleId).members.get k = some (.onboarding q t)) ↔
      k ∈ (s.store sampleId).queuePage q := by
  obtain ⟨s, hs, hr⟩ := exists_sampleRun (G := fun _ _ c => ∀ base target, c ≠ .mergeRings base target)
    [.createCollection (0 : Nat) 1 .appendOnly .r2e10 none, .addMembers (sampleKeys 0 4),
      .selfInclude (1 : Nat), .startRemovalSession, .removeMembers [(2 : Nat)]] (by decide)
    (by simp)
  refine ⟨s, hs, ?_, (queue_coherent hr sampleId).1⟩
  have hpage : (sampleRun [.createCollection (0 : Nat) 1 .appendOnly .r2e10 none,
      .addMembers (sampleKeys 0 4), .selfInclude (1 : Nat), .startRemovalSession,
      .removeMembers [(2 : Nat)]]).toOption.map (fun s => (s.store sampleId).queuePage 0) =
        some (sampleKeys 0 1 ++ sampleKeys 3 1) := by decide
  rw [hs] at hpage
  exact Option.some.inj hpage

end Individuality.Members
