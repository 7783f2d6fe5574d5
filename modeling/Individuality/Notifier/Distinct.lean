import Individuality.Notifier.Capacity

/-! A message names each of its rings once.

The keys of a page, the indices of a replay and the roots of a collection are without repetition, and a message
carries a part of one of these. -/
namespace Individuality.Notifier
open Support Replication
open Members (Identifier RingExponent)
variable {R : Type} {T : Config R}

/-- The messages that a notifier sends in its runs. -/
def Produced (paraId : ParaId) (message : Message T) : Prop :=
  ∃ (s : Store T) (env : Env T) (call : Call T) (out : Store T × Outbox T),
    Reaches Store.execAction (fun _ _ => True) (Store.genesis T) s ∧ s.exec env call = .ok out ∧
      (paraId, message) ∈ out.2

/-- What the last of some calls sends, each accepted after the ones before. -/
theorem produced_of_calls [DecidableEq R] (calls : List (Action T)) (last : Action T) {paraId : ParaId}
    {message : Message T} (h : (calls.foldlM Store.execAction (Store.genesis T)).toOption.any (fun s =>
      (s.exec last.1 last.2).toOption.any fun out => decide ((paraId, message) ∈ out.2)) = true) :
    Produced paraId message := by
  cases hcalls : calls.foldlM Store.execAction (Store.genesis T) with
  | error e =>
    rw [hcalls] at h
    cases h
  | ok s =>
    rw [hcalls] at h
    cases hlast : s.exec last.1 last.2 with
    | error e =>
      simp only [Except.toOption, Option.any_some, hlast, Option.any_none] at h
      cases h
    | ok out =>
      simp only [Except.toOption, Option.any_some, hlast, decide_eq_true_eq] at h
      exact ⟨s, last.1, last.2, out, Reaches.of_foldlM hcalls fun _ _ _ => trivial, hlast, h⟩

/-- The indices that are sealed for a collection are distinct. -/
def SealedDistinct (s : Store T) : Prop :=
  ∀ identifier indices, s.sealedBatchIndices.get identifier = some indices → indices.toList.Nodup

namespace Store

theorem nodup_changedIndicesOf (s : Store T) (page : UpdatesPageIndex) (identifier : Identifier) :
    (s.changedIndicesOf page identifier).Nodup := by
  have hkeys : (s.pageUpdates page).Nodup := by
    unfold pageUpdates
    refine (List.nodup_map_iff_inj_on (s.pendingUpdates.nodup_keys.filter _)).mpr fun a ha b hb heq => ?_
    have hpage : a.1 = b.1 :=
      (of_decide_eq_true (List.mem_filter.mp ha).2).trans (of_decide_eq_true (List.mem_filter.mp hb).2).symm
    exact Prod.ext hpage heq
  rw [changedIndicesOf, (List.perm_insertionSort (· ≤ ·) _).nodup_iff]
  refine (List.nodup_map_iff_inj_on (hkeys.filter _)).mpr fun a ha b hb heq => ?_
  have hid : a.1 = b.1 :=
    (of_decide_eq_true (List.mem_filter.mp ha).2).trans (of_decide_eq_true (List.mem_filter.mp hb).2).symm
  exact Prod.ext hid heq

theorem sealed_putRemaining {s : Store T} {batch : BatchDistributionState} {remaining : Nat} {identifier : Identifier}
    {indices : BoundedVec Nat T.maxUpdatesPerBatch}
    (h : (s.putRemaining batch remaining).sealedBatchIndices.get identifier = some indices) :
    s.sealedBatchIndices.get identifier = some indices := by
  rcases putRemaining_spec s batch remaining with heq | heq
  · rw [heq] at h
    exact StorageMap.get_of_get_clear h
  · rwa [heq] at h

theorem sealed_leaveBatch {s : Store T} {paraId : ParaId} {info : SubscriberInfo T} {identifier : Identifier}
    {indices : BoundedVec Nat T.maxUpdatesPerBatch}
    (h : (s.leaveBatch paraId info).sealedBatchIndices.get identifier = some indices) :
    s.sealedBatchIndices.get identifier = some indices := by
  unfold leaveBatch at h
  split at h
  · exact h
  · split at h
    · exact h
    · split at h
      · exact sealed_putRemaining h
      · exact h

end Store

theorem SealedDistinct.foldl_sealIndices (sealed : StorageMap Identifier (BoundedVec Nat T.maxUpdatesPerBatch))
    (h : ∀ identifier indices, sealed.get identifier = some indices → indices.toList.Nodup)
    {changes : List (Identifier × List Nat)} (hchanges : ∀ changed ∈ changes, changed.2.Nodup) (identifier : Identifier)
    (indices : BoundedVec Nat T.maxUpdatesPerBatch)
    (hget : (changes.foldl Store.sealIndices sealed).get identifier = some indices) : indices.toList.Nodup := by
  induction changes generalizing sealed with
  | nil => exact h identifier indices hget
  | cons changed rest ih =>
    refine ih (Store.sealIndices sealed changed) (fun id v hv => ?_)
      (fun c hc => hchanges c (List.mem_cons_of_mem _ hc)) hget
    rw [Store.sealIndices, StorageMap.get_insert] at hv
    split at hv
    · cases hv
      exact (hchanges changed List.mem_cons_self).sublist (List.take_sublist _ _)
    · exact h id v hv

theorem SealedDistinct.step {s s' : Store T} {a : Action T} (h : SealedDistinct s) (hs : s.execAction a = .ok s') :
    SealedDistinct s' := by
  obtain ⟨sent, hstep⟩ := Store.execAction_step hs
  intro identifier indices hget
  generalize a.1 = env, a.2 = call at hstep
  cases hstep with
  | unsubscribe paraId _ info => exact h identifier indices (Store.sealed_leaveBatch (s := s.withdraw paraId info) hget)
  | enqueueUpdates =>
    rcases eq_or_ne s.subscribers.size 0 with hzero | hpos
    · rw [Store.enqueueUpdates_of_none env hzero, Store.sentPages_eq] at hget
      exact h identifier indices hget
    · rw [Store.enqueueUpdates_of_pos env hpos] at hget
      refine SealedDistinct.foldl_sealIndices _ h (fun changed hchanged => ?_) identifier indices hget
      obtain ⟨id, -, rfl⟩ := List.mem_map.mp hchanged
      exact s.nodup_changedIndicesOf s.pageState.sendPage id
  | served paraId batch =>
    refine h identifier indices (Store.sealed_putRemaining (s := { s with
      subscribersWithCurrentBatch := s.subscribersWithCurrentBatch.insert paraId () }) hget)
  | abandonStuckBatch => exact h identifier indices (StorageMap.get_of_get_clear hget)
  | onRingRootChange id r =>
    by_cases hnew : s.pendingUpdates.contains (s.pageState.writePage, id, r) = true
    · rw [Store.onRingRootChange_of_noted hnew] at hget
      exact h identifier indices hget
    · rw [Store.onRingRootChange_of_new hnew] at hget
      exact h identifier indices hget
  | subscribe => exact h identifier indices hget
  | requestReplay => exact h identifier indices hget
  | unserved => exact h identifier indices hget
  | sendInitPage => exact h identifier indices hget

theorem map_fst_getRingRootsPaginated (P : RingRootsProvider R) (storageKey : Identifier → Nat → Nat)
    (identifier : Identifier) (after : Option Nat) (limit : Nat) :
    ((P.getRingRootsPaginated storageKey identifier after limit).map Prod.fst).Nodup := by
  have hsub : ∀ l : List Nat, ((l.filterMap fun i => ((P.roots identifier).get i).map fun root => (i, root)).map
      Prod.fst).Sublist l := by
    intro l
    induction l with
    | nil => exact List.Sublist.slnil
    | cons i rest ih =>
      cases hget : (P.roots identifier).get i with
      | none =>
        rw [List.filterMap_cons_none (by rw [hget]; rfl)]
        exact ih.cons i
      | some root =>
        rw [List.filterMap_cons_some (by rw [hget]; rfl)]
        exact ih.cons_cons i
  have hkeys := (List.perm_insertionSort (fun i j => storageKey identifier i ≤ storageKey identifier j)
    (P.roots identifier).keys).nodup_iff.mpr (P.roots identifier).nodup_keys
  unfold RingRootsProvider.getRingRootsPaginated
  rw [List.map_take]
  exact ((hkeys.filter _).sublist (hsub _)).sublist (List.take_sublist _ _)

/-- No message names a ring twice. -/
theorem Produced.nodup {paraId : ParaId} {message : Message T} (h : Produced paraId message) :
    (message.updates.map RingRootUpdate.ringIndex).Nodup := by
  obtain ⟨s, env, call, ⟨s', sent⟩, hreach, hexec, hmem⟩ := h
  have hsealed : SealedDistinct s := hreach.invariant (I := SealedDistinct) (fun _ _ hget => nomatch hget)
    fun _ _ _ ht _ hs => ht.step hs
  cases call with
  | requestReplay dest identifier indices =>
    simp only [Store.exec, Store.requestReplay, bind_eq_ok, ensure_eq_ok, okOr_eq_ok] at hexec
    obtain ⟨-, -, info, -, -, -, -, ⟨hchain, -⟩, maxPerXcm, -, -, -, -, -, updates, hupdates, -, -, hout⟩ := hexec
    cases hout
    obtain ⟨rfl, rfl⟩ := Prod.mk.inj (List.mem_singleton.mp hmem)
    change (updates.toList.map RingRootUpdate.ringIndex).Nodup
    rw [BoundedVec.tryFrom_eq_some.mp hupdates, resolveUpdatesForIndices, ringIndex_matchRoots]
    exact hchain.pairwise.imp Nat.ne_of_lt
  | sendBatch dest sequence =>
    simp only [Store.exec, Store.sendBatch, bind_eq_ok, okOr_eq_ok] at hexec
    obtain ⟨-, -, batch, -, info, -, hexec⟩ := hexec
    split at hexec
    · cases hexec
      exact absurd hmem List.not_mem_nil
    · next hmax =>
      generalize (maxUpdatesPerXcm env dest).getD 0 = maxPerXcm at hmax hexec
      have hsent : sent = ((s.batchMessages env batch info sequence maxPerXcm).filter (env.router dest)).map
          fun message => (dest, message) := by
        split at hexec
        · cases hexec
          rfl
        · cases hexec
          rfl
      rw [hsent] at hmem
      obtain ⟨m, hm, heq⟩ := List.mem_map.mp hmem
      obtain ⟨rfl, rfl⟩ := Prod.mk.inj heq
      obtain ⟨collection, -, hupdate⟩ := List.mem_flatMap.mp (List.mem_filter.mp hm).1
      obtain ⟨chunk, hchunk, hmessage⟩ := List.mem_filterMap.mp hupdate
      obtain ⟨updates, hupdates, rfl⟩ := Option.map_eq_some_iff.mp hmessage
      change (updates.toList.map RingRootUpdate.ringIndex).Nodup
      rw [BoundedVec.tryFrom_eq_some.mp hupdates]
      have hsub := ((mem_chunks (Nat.pos_of_ne_zero hmax) hchunk).2).map RingRootUpdate.ringIndex
      rw [resolveUpdatesForIndices, ringIndex_matchRoots] at hsub
      refine List.Nodup.sublist hsub ?_
      unfold Store.sealedIndices
      cases hget : s.sealedBatchIndices.get collection.1 with
      | none => exact List.nodup_nil
      | some indices => exact hsealed _ _ hget
  | sendInitPage dest index after =>
    simp only [Store.exec, Store.sendInitPage, bind_eq_ok, okOr_eq_ok] at hexec
    obtain ⟨-, -, state, -, hexec⟩ := hexec
    split at hexec
    · cases hexec
      exact absurd hmem List.not_mem_nil
    · split at hexec
      · cases hexec
        exact absurd hmem List.not_mem_nil
      · split at hexec
        · cases hexec
          obtain ⟨rfl, rfl⟩ := Prod.mk.inj (List.mem_singleton.mp hmem)
          refine List.Nodup.sublist ((List.take_sublist _ _).map RingRootUpdate.ringIndex) ?_
          rw [List.map_map]
          exact map_fst_getRingRootsPaginated env.provider T.storageKey _ _ _
        · cases hexec
          exact absurd hmem List.not_mem_nil
  | unsubscribe dest fromSubscriber =>
    simp only [Store.exec, Store.unsubscribe, bind_eq_ok, okOr_eq_ok] at hexec
    obtain ⟨info, -, hexec⟩ := hexec
    cases hexec
    unfold Store.terminationNotice at hmem
    split at hmem
    · rw [(Prod.mk.inj (List.mem_singleton.mp hmem)).2]
      exact List.nodup_nil
    · cases hmem
  | subscribe =>
    simp only [Store.exec, bind_eq_ok] at hexec
    obtain ⟨_, -, hexec⟩ := hexec
    cases hexec
    cases hmem
  | enqueueUpdates =>
    simp only [Store.exec, bind_eq_ok] at hexec
    obtain ⟨_, -, hexec⟩ := hexec
    cases hexec
    cases hmem
  | abandonStuckBatch =>
    simp only [Store.exec, bind_eq_ok] at hexec
    obtain ⟨_, -, hexec⟩ := hexec
    cases hexec
    cases hmem
  | onRingRootChange =>
    cases hexec
    cases hmem

end Individuality.Notifier
