import Individuality.Members.Steps
import Individuality.Support.Circular

/-! The pages of the onboarding queue that hold keys lie on the arc from its head to its tail,
whatever becomes of the records of the keys. -/
namespace Individuality.Members
open Support
variable {T : Config}
namespace Store

/-- The pages with keys lie between head and tail. -/
def OnArc (s : Store T) : Prop :=
  ∀ q, s.queuePage q ≠ [] → InArc s.queuePageIndices.1 s.queuePageIndices.2 q

namespace OnArc
variable {s s' : Store T}

theorem empty : OnArc (Store.empty T) := fun _ h =>
  absurd (by simp [Store.empty, queuePage, queueAt]) h

/-- What fills no page and leaves the indices alone keeps the arc. -/
theorem of_subset (h : OnArc s) (hi : s'.queuePageIndices = s.queuePageIndices)
    (hq : ∀ q, s'.queuePage q ≠ [] → s.queuePage q ≠ []) : OnArc s' := fun q hne => by
  rw [hi]
  exact h q (hq q hne)

theorem of_same (h : OnArc s) (hi : s'.queuePageIndices = s.queuePageIndices)
    (hq : s'.onboardingQueue = s.onboardingQueue) : OnArc s' :=
  h.of_subset hi fun q hne => by
    unfold queuePage queueAt at hne ⊢
    rw [hq] at hne
    exact hne

/-- The page past the tail is empty. -/
theorem page_succ_tail (h : OnArc s) (hne : s.queuePageIndices.2 + 1#32 ≠ s.queuePageIndices.1) :
    s.queuePage (s.queuePageIndices.2 + 1#32) = [] := by
  by_contra hfull
  exact not_inArc_succ hne (h _ hfull)

/-- A queue whose head is its tail has one page. -/
theorem page_eq_nil (h : OnArc s) (heq : s.queuePageIndices.1 = s.queuePageIndices.2)
    {q : QueuePageIndex} (hq : q ≠ s.queuePageIndices.1) : s.queuePage q = [] := by
  by_contra hfull
  have hin := h q hfull
  rw [← heq] at hin
  exact hq (inArc_self_iff.mp hin)

theorem pushToOnboardingQueue {env : Env T} {key : T.Member} (h : OnArc s)
    (hs : s.pushToOnboardingQueue env key = .ok s') : OnArc s' := by
  obtain ⟨tail, keys, rfl, htail⟩ := pushToOnboardingQueue_spec hs
  intro q hne
  have hpage : (s.enqueueAt env tail keys key).queuePage q =
      if q = tail then keys.toList else s.queuePage q := queuePage_setQueuePage s tail q keys
  rw [hpage] at hne
  show InArc s.queuePageIndices.1 tail q
  by_cases hq : q = tail
  · rw [hq]
    exact inArc_tail _ _
  · rw [if_neg hq] at hne
    rcases htail with ⟨htail, -⟩ | ⟨htail, hclosed, -, -⟩
    · rw [htail]
      exact h q hne
    · rw [htail] at hclosed ⊢
      exact (h q hne).extend hclosed

/-- An onboarding round passes the pages it emptied. -/
theorem round (h : OnArc s) (R : Round s s') : OnArc s' := by
  intro q hne
  rw [R.queuePageIndices_eq]
  rw [R.queuePage_eq] at hne
  -- The arc from the page the round ends in: the old one less the pages it passed.
  have harc : ∀ q, q ≠ s.queuePageIndices.1 ∨ R.head = s.queuePageIndices.1 →
      s.queuePage q ≠ [] → InArc R.head s.queuePageIndices.2 q := by
    intro q hq hfull
    rcases R.keys_cases with ⟨hhead, -⟩ | ⟨hhead, hmore, -, -, -⟩
    · rw [hhead]
      exact h q hfull
    · rw [hhead]
      refine (h q hfull).advance hmore (hq.resolve_right ?_)
      rw [hhead]
      simp
  split at hne
  · rename_i hq
    rw [if_neg (by tauto), hq]
    exact inArc_head _ _
  · rename_i hq
    split at hne
    · exact absurd rfl hne
    · rename_i hq'
      have hin := harc q (.inl hq') hne
      split
      · rename_i hend
        exact hin.advance hend.2 hq
      · exact hin

theorem dequeue {q : QueuePageIndex} {member : T.Member} (h : OnArc s)
    (hs : s.dequeue q member = .ok s') : OnArc s' := by
  obtain ⟨hmem, -, hpage, hindices⟩ := dequeue_spec hs
  intro q' hne
  have hold : s.queuePage q' ≠ [] := by
    intro hnil
    rw [hpage] at hne
    split at hne
    · rename_i hq
      rw [hq] at hnil
      rw [hnil] at hmem
      cases hmem
    · exact hne hnil
  rw [hindices]
  split
  · -- The head page emptied: it is not the page looked at.
    rename_i hcase
    have hq' : q' ≠ q := by
      rintro rfl
      apply hne
      exact (hpage q').trans ((if_pos rfl).trans hcase.1)
    have hin := h q' hold
    rw [← hcase.2.1] at hq' ⊢
    exact hin.advance hcase.2.2 hq'
  · exact h q' hold

theorem queueMemberSuspension {key : T.Member} (h : OnArc s)
    (hs : s.queueMemberSuspension key = .ok s') : OnArc s' := by
  rcases queueMemberSuspension_cases hs with
    ⟨r, p, i, j, indices, -, -, -, rfl⟩ | ⟨q, t, -, rfl⟩ | ⟨-, rfl⟩
  · exact h.of_same rfl rfl
  · refine h.of_subset ?_ fun q' hne => ?_
    · show (s.dropQueued q key).queuePageIndices = _
      rw [dropQueued_frame]
    · have hpage : ((s.dropQueued q key).setMember key .suspended).queuePage q' =
          if q' = q then (s.queuePage q).erase key else s.queuePage q' :=
        queuePage_dropQueued s q q' key
      rw [hpage] at hne
      by_cases hq : q' = q
      · rw [if_pos hq] at hne
        rw [hq]
        exact fun hnil => hne (by rw [hnil]; rfl)
      · rwa [if_neg hq] at hne
  · exact h.of_same rfl rfl

theorem mergeFrontQueuePages (h : OnArc s) (hs : s.mergeFrontQueuePages = .ok s') : OnArc s' := by
  obtain ⟨hne, t, keys, hfold, hkeys, rfl⟩ := mergeFrontQueuePages_spec hs
  have hframe := (relocateQueued_fold hfold).1
  generalize hhead : s.queuePageIndices.1 = head at *
  intro q hfull
  show InArc (head + 1#32) t.queuePageIndices.2 q
  have hpage : ({ ((t.removeQueuePage head).setQueuePage (head + 1#32) keys) with
      queuePageIndices := (head + 1#32, t.queuePageIndices.2) } : Store T).queuePage q =
      if q = head + 1#32 then keys.toList else if q = head then [] else s.queuePage q := by
    show ((t.removeQueuePage head).setQueuePage (head + 1#32) keys).queuePage q = _
    rw [queuePage_setQueuePage, queuePage_removeQueuePage, hframe]
    rfl
  rw [hpage] at hfull
  rw [hframe]
  split at hfull
  · rename_i hq
    rw [hq]
    exact inArc_head _ _
  · split at hfull
    · exact absurd rfl hfull
    · rename_i hq
      have hin := h q hfull
      rw [hhead] at hin
      exact hin.advance hne hq

/-- Every call keeps the pages with keys on the arc. -/
theorem step {env : Env T} {c : Call T} (h : OnArc s) (hs : s.exec env c = .ok s') : OnArc s' := by
  cases exec_effect hs with
  | addMembers _ hfold =>
    exact foldlM_ok_induction (fun _ t => OnArc t) hfold h
      fun _ _ _ _ _ ht hstep => ht.pushToOnboardingQueue (addMember_spec hstep).2
  | onboardNone => exact h
  | onboard R => exact h.round R
  | selfInclude hself =>
    obtain ⟨info, q, t, d, a, keys, -, -, -, hd, -, -, rfl⟩ := doSelfInclude_spec hself
    exact (h.dequeue hd).of_same rfl rfl
  | mergeQueuePages hmerge => exact h.mergeFrontQueuePages hmerge
  | removeMembers _ hfold =>
    exact foldlM_ok_induction (fun _ t => OnArc t) hfold h
      fun _ _ _ _ _ ht hstep => ht.queueMemberSuspension hstep
  | @deleteOnboardingQueuePage q _ =>
    obtain ⟨members, hs', -⟩ := deleteOnboardingQueuePage_spec s q
    rw [hs']
    refine h.of_subset rfl fun q' hne => ?_
    have hpage : ({ s with
        members := members, onboardingQueue := s.onboardingQueue.remove q } : Store T).queuePage q' =
        if q' = q then [] else s.queuePage q' := queuePage_removeQueuePage s q q'
    rw [hpage] at hne
    split at hne
    · exact absurd rfl hne
    · exact hne
  | finalizeCollectionDeletion _ _ _ hempty =>
    -- The indices start over, and no page is left.
    intro q hne
    refine absurd ?_ hne
    show s.queuePage q = []
    simp [queuePage, queueAt, hempty q]
  | buildRing hbuild =>
    obtain ⟨_, _, _, _, _, -, -, -, -, -, -, -, -, hs'⟩ := buildRing_spec hbuild
    rw [hs']
    exact h.of_same rfl rfl
  | mergeRings hmerge =>
    obtain ⟨info, m, -, -, -, -, -, -, -, -, -, -, hs'⟩ := mergeRings_spec hmerge
    rw [hs']
    exact h.of_same rfl rfl
  | @removeSuspendedKeys r _ =>
    rcases removeSuspendedKeys_spec env s r with ⟨-, hs'⟩ | ⟨_, _, _, _, -, -, -, -, hs'⟩ <;> rw [hs']
    · exact h
    · exact h.of_same rfl rfl
  | @removeRing r _ _ _ =>
    obtain ⟨queue, hs', -⟩ := enqueueRingForDeletion_spec env s r
    rw [hs']
    exact h.of_same rfl rfl
  | @enqueueRingDeletion r _ _ =>
    obtain ⟨queue, hs', -⟩ := enqueueRingForDeletion_spec env s r
    rw [hs']
    exact h.of_same rfl rfl
  | @deleteRingPage r p _ =>
    obtain ⟨members, hs', -⟩ := deleteRingPage_spec
      { s with ringDeletionQueue := s.ringDeletionQueue.remove (r, p) } r p
    rw [hs']
    exact h.of_same rfl rfl
  | removeRingQueued _ => exact h
  | createCollection _ _ _ _ => exact h.of_same rfl rfl
  | setOnboardingSize => exact h.of_same rfl rfl
  | session _ _ => exact h.of_same rfl rfl
  | deleteCollection _ _ => exact h.of_same rfl rfl
  | markRingStale => exact h.of_same rfl rfl
  | cleanUpOldRoots _ _ => exact h.of_same rfl rfl

end OnArc
end Store
end Individuality.Members
