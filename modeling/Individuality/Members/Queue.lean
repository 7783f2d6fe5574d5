import Individuality.Members.Store
import Mathlib.Data.BitVec

/-! The onboarding queue: `add_members`, `push_to_onboarding_queue` and the merging of
its two front pages. -/
namespace Individuality.Members
open Support
namespace Store
variable {T : Config}

/-- The writes of a push: the tail, the page it ends with and the member's record. -/
def enqueueAt (env : Env T) (s : Store T) (tail : QueuePageIndex) (keys : QueuePage T)
    (key : T.Member) : Store T :=
  { s with
    queuePageIndices := (s.queuePageIndices.1, tail)
    onboardingQueue := s.onboardingQueue.insert tail keys
    members := s.members.insert key (.onboarding tail env.now) }

def pushToOnboardingQueue (env : Env T) (s : Store T) (key : T.Member) :
    Except Error (Store T) :=
  match (s.queueAt s.queuePageIndices.2).tryPush key with
  | some keys => .ok (s.enqueueAt env s.queuePageIndices.2 keys key)
  | none => do
    -- The tail page is full: `checked_add(1).unwrap_or(0)` wraps to the next page.
    let tail := s.queuePageIndices.2 + 1#32
    ensure (tail ≠ s.queuePageIndices.1) .tooManyMembers
    let keys ← okOr (BoundedVec.tryFrom [key]) .trap
    .ok (s.enqueueAt env tail keys key)

def addMember (env : Env T) (s : Store T) (member : T.Member) : Except Error (Store T) :=
  match s.members.get member with
  | none => do
    ensure (T.crypto.isMemberValid member = true) .invalidMemberKey
    s.pushToOnboardingQueue env member
  | some position =>
    if position.isSuspended then s.pushToOnboardingQueue env member else .error .keyAlreadyInUse

def addMembers (env : Env T) (s : Store T) (members : List T.Member) : Except Error (Store T) := do
  let _ ← okOr s.collections .collectionNotFound
  members.foldlM (addMember env) s

inductive QueueMergeAction (T : Config)
  | merge (initialHead newHead : QueuePageIndex) (firstKeyPage secondKeyPage : QueuePage T)
  | noAction

def shouldMergeQueuePages (s : Store T) : QueueMergeAction T :=
  if s.suspendedCollections.isSome then .noAction
  else
    let initialHead := s.queuePageIndices.1
    let tail := s.queuePageIndices.2
    if initialHead = tail then .noAction
    else
      let newHead := initialHead + 1#32
      if T.onboardingQueuePageSize < (s.queueAt initialHead).length + (s.queueAt newHead).length then
        .noAction
      else .merge initialHead newHead (s.queueAt initialHead) (s.queueAt newHead)

/-- The record of a member whose queue page moved; other records stay. -/
def relocateQueued (newHead : QueuePageIndex) (s : Store T) (key : T.Member) :
    Except Error (Store T) := do
  let position ← okOr (s.members.get key) .keyNotFound
  match position with
  | .onboarding _ queuedAt => .ok (s.setMember key (.onboarding newHead queuedAt))
  | _ => .ok s

def mergeQueuePages (s : Store T) (initialHead newHead : QueuePageIndex)
    (firstKeyPage secondKeyPage : QueuePage T) : Except Error (Store T) := do
  let s ← firstKeyPage.toList.foldlM (relocateQueued newHead) s
  let keys ← okOr (firstKeyPage.tryExtend secondKeyPage) .tooManyMembers
  let s := (s.removeQueuePage initialHead).setQueuePage newHead keys
  .ok { s with queuePageIndices := (newHead, s.queuePageIndices.2) }

/-- `process_maintenance` and the offchain worker merge what `should_merge_queue_pages` returns. -/
def mergeFrontQueuePages (s : Store T) : Except Error (Store T) :=
  match s.shouldMergeQueuePages with
  | .merge initialHead newHead firstKeyPage secondKeyPage =>
    s.mergeQueuePages initialHead newHead firstKeyPage secondKeyPage
  | .noAction => .error .stale

/-! ### What each operation does -/

/-- A push puts the key behind the tail page's keys, or alone on the next page when the tail
page is full and the queue does not come back to its head. -/
theorem pushToOnboardingQueue_spec {env : Env T} {s s' : Store T} {key : T.Member}
    (h : s.pushToOnboardingQueue env key = .ok s') :
    ∃ tail keys, s' = s.enqueueAt env tail keys key ∧
      ((tail = s.queuePageIndices.2 ∧ keys.toList = s.queuePage tail ++ [key]) ∨
        (tail = s.queuePageIndices.2 + 1#32 ∧ tail ≠ s.queuePageIndices.1 ∧ keys.toList = [key] ∧
          (s.queuePage s.queuePageIndices.2).length = T.onboardingQueuePageSize)) := by
  unfold pushToOnboardingQueue at h
  split at h
  · rename_i keys hpush
    cases h
    exact ⟨_, keys, rfl, .inl ⟨rfl, BoundedVec.tryPush_eq_some.mp hpush⟩⟩
  · rename_i hfull
    simp only [bind_eq_ok, ensure_eq_ok, okOr_eq_ok, BoundedVec.tryFrom_eq_some] at h
    obtain ⟨-, hne, keys, hkeys, hs⟩ := h
    cases hs
    have hlen := BoundedVec.tryPush_eq_none.mp hfull
    exact ⟨_, keys, rfl, .inr ⟨rfl, hne, hkeys, le_antisymm (s.queuePage_length_le _) hlen⟩⟩

/-- Only a key with no record, or a suspended one, is added. -/
theorem addMember_spec {env : Env T} {s s' : Store T} {key : T.Member}
    (h : addMember env s key = .ok s') :
    (s.members.get key = none ∨ s.members.get key = some .suspended) ∧
      s.pushToOnboardingQueue env key = .ok s' := by
  unfold addMember at h
  split at h
  · rename_i hget
    simp only [bind_eq_ok, ensure_eq_ok] at h
    obtain ⟨-, -, hpush⟩ := h
    exact ⟨.inl hget, hpush⟩
  · rename_i position hget
    split at h
    · rename_i hsus
      refine ⟨.inr ?_, h⟩
      cases position <;> simp_all [RingPosition.isSuspended]
    · cases h

theorem addMembers_spec {env : Env T} {s s' : Store T} {members : List T.Member}
    (h : s.addMembers env members = .ok s') :
    s.collections.isSome = true ∧ members.foldlM (addMember env) s = .ok s' := by
  simp only [addMembers, bind_eq_ok, okOr_eq_ok] at h
  obtain ⟨info, hinfo, hs⟩ := h
  exact ⟨by simp [hinfo], hs⟩

/-- Relocating keys gives those that wait the new page and keeps when they joined. -/
theorem relocateQueued_fold {newHead : QueuePageIndex} {s s' : Store T} {keys : List T.Member}
    (h : keys.foldlM (relocateQueued newHead) s = .ok s') :
    s' = { s with members := s'.members } ∧
      (∀ k, k ∉ keys → s'.members.get k = s.members.get k) ∧
      ∀ k ∈ keys, ∀ q t, s.members.get k = some (.onboarding q t) →
        s'.members.get k = some (.onboarding newHead t) := by
  refine foldlM_ok_induction (fun done u => u = { s with members := u.members } ∧
      (∀ k, k ∉ done → u.members.get k = s.members.get k) ∧
      ∀ k ∈ done, ∀ q t, s.members.get k = some (.onboarding q t) →
        u.members.get k = some (.onboarding newHead t)) h
    ⟨rfl, fun _ _ => rfl, fun k hk => by cases hk⟩ ?_
  intro done key u u' _ ⟨hframe, hsame, hmoved⟩ hstep
  simp only [relocateQueued, bind_eq_ok, okOr_eq_ok] at hstep
  obtain ⟨position, hget, hstep⟩ := hstep
  split at hstep
  · rename_i q₀ t₀
    cases hstep
    refine ⟨?_, fun k hk => ?_, fun k hk q t hold => ?_⟩
    · simp only [setMember]
      conv_lhs => rw [hframe]
    · have hne : k ≠ key := fun he => hk (by simp [he])
      simp only [setMember, StorageMap.get_insert, if_neg hne]
      exact hsame k fun hd => hk (by simp [hd])
    · simp only [setMember, StorageMap.get_insert]
      by_cases hkey : k = key
      · subst hkey
        rw [if_pos rfl]
        by_cases hd : k ∈ done
        · rw [hmoved k hd q t hold] at hget
          cases hget
          rfl
        · rw [hsame k hd, hold] at hget
          cases hget
          rfl
      · rw [if_neg hkey]
        exact hmoved k (by simpa [hkey] using hk) q t hold
  · rename_i hother
    cases hstep
    refine ⟨hframe, fun k hk => hsame k fun hd => hk (by simp [hd]), fun k hk q t hold => ?_⟩
    by_cases hd : k ∈ done
    · exact hmoved k hd q t hold
    · obtain rfl : k = key := by simpa [hd] using hk
      rw [hsame k hd, hold] at hget
      exact absurd (Option.some.inj hget).symm (hother q t)

theorem mergeFrontQueuePages_spec {s s' : Store T} (h : s.mergeFrontQueuePages = .ok s') :
    s.queuePageIndices.1 ≠ s.queuePageIndices.2 ∧
      ∃ t keys, (s.queuePage s.queuePageIndices.1).foldlM
          (relocateQueued (s.queuePageIndices.1 + 1#32)) s = .ok t ∧
        keys.toList = s.queuePage s.queuePageIndices.1 ++ s.queuePage (s.queuePageIndices.1 + 1#32) ∧
        s' = { ((t.removeQueuePage s.queuePageIndices.1).setQueuePage
            (s.queuePageIndices.1 + 1#32) keys) with
          queuePageIndices := (s.queuePageIndices.1 + 1#32, t.queuePageIndices.2) } := by
  unfold mergeFrontQueuePages shouldMergeQueuePages at h
  split at h
  · rename_i initialHead newHead first second hact
    split at hact
    · cases hact
    · simp only at hact
      split at hact
      · cases hact
      · rename_i hne
        split at hact
        · cases hact
        · cases hact
          simp only [mergeQueuePages, bind_eq_ok, okOr_eq_ok, BoundedVec.tryExtend_eq_some] at h
          obtain ⟨t, hfold, keys, hkeys, hs⟩ := h
          cases hs
          exact ⟨hne, t, keys, hfold, hkeys, rfl⟩
  · cases h

end Store
end Individuality.Members
