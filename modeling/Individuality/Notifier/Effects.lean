import Individuality.Notifier.Calls
import Mathlib.Data.List.Dedup

/-! What an accepted call does.

`Step` says it once for each call: the checks that passed, and the store and the
messages that result. The invariants of the notifier are carried over its cases. -/
namespace Individuality.Notifier
open Support Replication
open Members (Identifier RingExponent)
variable {R : Type} {T : Config R}

/-- The updates are for the indices asked for, in their order. -/
theorem ringIndex_matchRoots (indices : List Nat) (roots : List (Nat × ProvidedRoot R)) :
    (matchRoots indices roots).map RingRootUpdate.ringIndex = indices := by
  induction indices generalizing roots with
  | nil => rfl
  | cons index rest ih =>
    cases roots with
    | nil => exact congrArg (index :: ·) (ih [])
    | cons root roots =>
      unfold matchRoots
      split
      · exact congrArg (index :: ·) (ih roots)
      · exact congrArg (index :: ·) (ih (root :: roots))

theorem length_resolveUpdatesForIndices (env : Env T) (identifier : Identifier) (indices : List Nat) :
    (resolveUpdatesForIndices env identifier indices).length = indices.length := by
  have hindices := congrArg List.length
    (ringIndex_matchRoots indices (env.provider.getRingRoots identifier indices))
  rwa [List.length_map] at hindices

namespace Store

inductive Step (env : Env T) (s : Store T) : Call T → Store T × Outbox T → Prop
  | subscribe (paraId : ParaId) (collections : Collections T) (palletIndex : Nat)
      (hnew : s.subscribers.get paraId = none) (hroom : s.subscribers.size < T.maxSubscribers)
      (hlist : collections.toList.IsChain fun a b => a.1.toList < b.1.toList) :
      Step env s (.subscribe paraId collections palletIndex)
        (s.registerForInit env paraId collections palletIndex, [])
  | unsubscribe (paraId : ParaId) (fromSubscriber : Bool) (info : SubscriberInfo T)
      (hinfo : s.subscribers.get paraId = some info) :
      Step env s (.unsubscribe paraId fromSubscriber)
        ((s.withdraw paraId info).leaveBatch paraId info, terminationNotice env paraId fromSubscriber)
  | requestReplay (paraId : ParaId) (identifier : Identifier)
      (indices : BoundedVec Nat T.maxUpdatesPerBatch) (sent : Outbox T)
      (hsent : s.requestReplay env paraId identifier indices =
        .ok (s.replayedAt env paraId identifier, sent)) :
      Step env s (.requestReplay paraId identifier indices) (s.replayedAt env paraId identifier, sent)
  | enqueueUpdates (hidle : s.currentBatch = none) (hwork : s.hasProcessableUpdates env.block = true) :
      Step env s (.enqueueUpdates s.pageState.sendPage) (s.enqueueUpdates env, [])
  -- A subscriber is served once the whole batch is sent to it, or when it is skipped.
  | served (paraId : ParaId) (batch : BatchDistributionState) (info : SubscriberInfo T)
      (sent : Outbox T) (hbatch : s.currentBatch = some batch)
      (hinfo : s.subscribers.get paraId = some info)
      (hnew : s.subscribersWithCurrentBatch.contains paraId = false)
      (hpos : 0 < batch.remainingSubscribers) (hseq : info.lastInitSequence < batch.sequence)
      (hsent : s.sendBatch env paraId batch.sequence = .ok (s.markServed batch paraId, sent)) :
      Step env s (.sendBatch paraId batch.sequence) (s.markServed batch paraId, sent)
  | unserved (paraId : ParaId) (batch : BatchDistributionState) (info : SubscriberInfo T)
      (sent : Outbox T) (hbatch : s.currentBatch = some batch)
      (hinfo : s.subscribers.get paraId = some info)
      (hsent : s.sendBatch env paraId batch.sequence = .ok (s, sent)) :
      Step env s (.sendBatch paraId batch.sequence) (s, sent)
  | sendInitPage (paraId : ParaId) (state : PendingInitState T)
      (pending : StorageMap ParaId (PendingInitState T)) (sent : Outbox T)
      (hstate : s.pendingInit.get paraId = some state)
      (hsent : s.sendInitPage env paraId = .ok ({ s with pendingInit := pending }, sent)) :
      Step env s (.sendInitPage paraId state.currentCollectionIndex state.afterRingIndex)
        ({ s with pendingInit := pending }, sent)
  | abandonStuckBatch (batch : BatchDistributionState) (hbatch : s.currentBatch = some batch)
      (hstuck : T.stuckBatchTimeout ≤ env.block - batch.sealedAt) :
      Step env s .abandonStuckBatch (s.clearBatch, [])
  | onRingRootChange (identifier : Identifier) (ringIndex : Nat) :
      Step env s (.onRingRootChange identifier ringIndex) (s.onRingRootChange identifier ringIndex, [])

variable {env : Env T} {s : Store T} {out : Store T × Outbox T}

/-! ### The calls of the worker -/

theorem authorizeSendBatch_spec {paraId : ParaId} {sequence : Nat}
    (h : s.authorizeSendBatch paraId sequence = .ok ()) :
    ∃ batch info, s.currentBatch = some batch ∧ sequence = batch.sequence ∧
      0 < batch.remainingSubscribers ∧ s.subscribersWithCurrentBatch.contains paraId = false ∧
      s.subscribers.get paraId = some info ∧ info.lastInitSequence < batch.sequence := by
  simp only [authorizeSendBatch, bind_eq_ok, okOr_eq_ok, ensure_eq_ok] at h
  obtain ⟨batch, hbatch, -, hlow, -, hhigh, -, hpos, -, hnew, info, hinfo, hseq⟩ := h
  have hsequence : sequence = batch.sequence :=
    le_antisymm (Nat.le_of_not_lt hhigh) (Nat.le_of_not_lt hlow)
  exact ⟨batch, info, hbatch, hsequence, Nat.pos_of_ne_zero hpos, hnew, hinfo, Nat.lt_of_not_le hseq⟩

/-- Either the subscriber is served, or the batch is left as it was. -/
theorem sendBatch_spec {paraId : ParaId} {sequence : Nat} {batch : BatchDistributionState}
    (hbatch : s.currentBatch = some batch) (h : s.sendBatch env paraId sequence = .ok out) :
    out.1 = s.markServed batch paraId ∨ out.1 = s := by
  simp only [sendBatch, bind_eq_ok, okOr_eq_ok] at h
  obtain ⟨batch', hbatch', info, hinfo, h⟩ := h
  have heq : batch' = batch := Option.some.inj (hbatch'.symm.trans hbatch)
  rw [heq] at h
  split at h
  · cases h
    exact .inl rfl
  · split at h
    · cases h
      exact .inl rfl
    · cases h
      exact .inr rfl

theorem eq_of_not_lt {a b : Option Nat} (h : ¬ Option.lt (· < ·) a b)
    (h' : ¬ Option.lt (· < ·) b a) : a = b := by
  cases a with
  | none =>
    cases b with
    | none => rfl
    | some b => exact absurd trivial h
  | some a =>
    cases b with
    | none => exact absurd trivial h'
    | some b => exact congrArg some (le_antisymm (Nat.le_of_not_lt h') (Nat.le_of_not_lt h))

theorem authorizeSendInitPage_spec {paraId : ParaId} {index : Nat} {after : Option Nat}
    (h : s.authorizeSendInitPage paraId index after = .ok ()) :
    ∃ state, s.pendingInit.get paraId = some state ∧ index = state.currentCollectionIndex ∧
      after = state.afterRingIndex := by
  simp only [authorizeSendInitPage, bind_eq_ok, okOr_eq_ok, ensure_eq_ok] at h
  obtain ⟨state, hstate, -, hlow, -, hhigh, -, hafter, hafter'⟩ := h
  exact ⟨state, hstate, le_antisymm (Nat.le_of_not_lt hhigh) (Nat.le_of_not_lt hlow),
    eq_of_not_lt hafter hafter'⟩

/-- A page of an initialization changes only where the initialization stands. -/
theorem sendInitPage_spec {paraId : ParaId} (h : s.sendInitPage env paraId = .ok out) :
    ∃ pending, out.1 = { s with pendingInit := pending } := by
  simp only [sendInitPage, bind_eq_ok, okOr_eq_ok] at h
  obtain ⟨state, -, h⟩ := h
  split at h
  · cases h
    exact ⟨s.pendingInit, rfl⟩
  · split at h
    · cases h
      exact ⟨_, rfl⟩
    · split at h
      · cases h
        unfold advanceInitPagination
        split
        · exact ⟨_, rfl⟩
        · split
          · exact ⟨_, rfl⟩
          · exact ⟨_, rfl⟩
      · cases h
        exact ⟨s.pendingInit, rfl⟩

/-- A replay changes only the time of the last one. -/
theorem requestReplay_spec {paraId : ParaId} {identifier : Identifier}
    {indices : BoundedVec Nat T.maxUpdatesPerBatch}
    (h : s.requestReplay env paraId identifier indices = .ok out) :
    out.1 = s.replayedAt env paraId identifier := by
  simp only [requestReplay, bind_eq_ok, okOr_eq_ok, ensure_eq_ok] at h
  obtain ⟨-, -, info, -, -, -, -, -, maxPerXcm, -, -, -, -, -, updates, -, -, -, h⟩ := h
  cases h
  rfl

/-- The count is put on the batch, unless nobody is left. -/
theorem putRemaining_spec (s : Store T) (batch : BatchDistributionState) (remaining : Nat) :
    s.putRemaining batch remaining = s.clearBatch ∨
      s.putRemaining batch remaining =
        { s with currentBatch := some { batch with remainingSubscribers := remaining } } := by
  unfold putRemaining
  split
  · exact .inl rfl
  · exact .inr rfl

/-- A count that is put touches nothing but the batch. -/
theorem putRemaining_eq (s : Store T) (batch : BatchDistributionState) (remaining : Nat) :
    s.putRemaining batch remaining = { s with
      currentBatch := (s.putRemaining batch remaining).currentBatch
      sealedBatchIndices := (s.putRemaining batch remaining).sealedBatchIndices
      subscribersWithCurrentBatch := (s.putRemaining batch remaining).subscribersWithCurrentBatch } := by
  unfold putRemaining
  split
  · rfl
  · rfl

theorem markServed_eq (s : Store T) (batch : BatchDistributionState) (paraId : ParaId) :
    s.markServed batch paraId = { s with
      currentBatch := (s.markServed batch paraId).currentBatch
      sealedBatchIndices := (s.markServed batch paraId).sealedBatchIndices
      subscribersWithCurrentBatch := (s.markServed batch paraId).subscribersWithCurrentBatch } := by
  unfold markServed
  rw [putRemaining_eq]

theorem leaveBatch_eq (s : Store T) (paraId : ParaId) (info : SubscriberInfo T) :
    s.leaveBatch paraId info = { s with
      currentBatch := (s.leaveBatch paraId info).currentBatch
      sealedBatchIndices := (s.leaveBatch paraId info).sealedBatchIndices
      subscribersWithCurrentBatch := (s.leaveBatch paraId info).subscribersWithCurrentBatch } := by
  unfold leaveBatch
  split
  · rfl
  · split
    · rfl
    · split
      · rw [putRemaining_eq]
      · rfl

/-! ### Sealing -/

/-- The pages after the send page is cleared. -/
def sentPages (env : Env T) (s : Store T) : Store T :=
  (s.sealWritePage s.pageState.sendPage s.pageState.writePage).cleanupSendBuffer env.block
    s.pageState.sendPage

theorem sealWritePage_eq (s : Store T) (sendPage writePage : UpdatesPageIndex) :
    s.sealWritePage sendPage writePage =
      { s with pageState := (s.sealWritePage sendPage writePage).pageState } := by
  unfold sealWritePage
  split
  · rfl
  · rfl

theorem sentPages_eq (env : Env T) (s : Store T) :
    s.sentPages env = { s with
      pageState := (s.sentPages env).pageState
      pendingUpdates := (s.sentPages env).pendingUpdates
      pageUpdatesCount := (s.sentPages env).pageUpdatesCount } := by
  unfold sentPages cleanupSendBuffer
  rw [sealWritePage_eq]

/-- Without subscribers the send page is only cleared. -/
theorem enqueueUpdates_of_none (env : Env T) (h : s.subscribers.size = 0) :
    s.enqueueUpdates env = s.sentPages env := if_pos h

/-- With subscribers the send page becomes the current batch. -/
theorem enqueueUpdates_of_pos (env : Env T) (h : s.subscribers.size ≠ 0) :
    s.enqueueUpdates env = { s.sentPages env with
      sealedBatchSequence := U64.saturatingAdd s.sealedBatchSequence 1
      sealedBatchIndices :=
        (s.changedIndices s.pageState.sendPage).foldl sealIndices s.sealedBatchIndices
      currentBatch := some ⟨U64.saturatingAdd s.sealedBatchSequence 1, env.now, env.block,
        s.subscribers.size⟩ } := by
  unfold enqueueUpdates sentPages
  simp only [if_neg h]
  rw [sealWritePage_eq]
  rfl

/-! ### Noting a changed root -/

/-- The page on which a key that is not yet noted is noted. -/
def notePage (s : Store T) : UpdatesPageIndex :=
  if T.maxUpdatesPerBatch ≤ s.pageCount s.pageState.writePage then s.pageState.writePage + 1#16
  else s.pageState.writePage

theorem onRingRootChange_of_noted {identifier : Identifier} {ringIndex : Nat}
    (h : s.pendingUpdates.contains (s.pageState.writePage, identifier, ringIndex) = true) :
    s.onRingRootChange identifier ringIndex = s := if_pos h

theorem onRingRootChange_of_new {identifier : Identifier} {ringIndex : Nat}
    (h : ¬ s.pendingUpdates.contains (s.pageState.writePage, identifier, ringIndex) = true) :
    s.onRingRootChange identifier ringIndex = { s with
      pageState := { s.pageState with writePage := s.notePage }
      pendingUpdates := s.pendingUpdates.insert (s.notePage, identifier, ringIndex) ()
      pageUpdatesCount := s.pageUpdatesCount.insert s.notePage
        (U32.saturatingAdd (s.pageCount s.notePage) 1) } := by
  unfold onRingRootChange notePage
  simp only [if_neg h]
  by_cases hfull : T.maxUpdatesPerBatch ≤ s.pageCount s.pageState.writePage
  · simp only [if_pos hfull]
    rfl
  · simp only [if_neg hfull]

/-! ### The keys of a page -/

@[simp] theorem mem_pageUpdates (s : Store T) (page : UpdatesPageIndex) (key : Identifier × Nat) :
    key ∈ s.pageUpdates page ↔ s.pendingUpdates.contains (page, key) = true := by
  rw [pageUpdates, List.mem_map, StorageMap.contains]
  constructor
  · rintro ⟨⟨p, k⟩, hmem, rfl⟩
    rw [List.mem_filter, decide_eq_true_eq] at hmem
    obtain ⟨hmem, rfl⟩ := hmem
    exact (s.pendingUpdates.mem_keys _).mp hmem
  · intro hget
    refine ⟨(page, key), List.mem_filter.mpr ⟨(s.pendingUpdates.mem_keys _).mpr hget, ?_⟩, rfl⟩
    exact decide_eq_true rfl

theorem length_pageUpdates (s : Store T) (page : UpdatesPageIndex) :
    (s.pageUpdates page).length = s.pendingUpdates.countOf fun k _ => decide (k.1 = page) := by
  rw [pageUpdates, List.length_map]
  exact s.pendingUpdates.length_filter_keys fun k => decide (k.1 = page)

/-- The last write to a collection is the one that stays, and there is one for each. -/
theorem get_foldl_sealIndices {changes : List (Identifier × List Nat)} {identifier : Identifier}
    {indices : List Nat} (sealed : StorageMap Identifier (BoundedVec Nat T.maxUpdatesPerBatch))
    (hnodup : (changes.map Prod.fst).Nodup) (hmem : (identifier, indices) ∈ changes) :
    ((changes.foldl sealIndices sealed).get identifier).map BoundedVec.toList =
      some (indices.take T.maxUpdatesPerBatch) := by
  have hrest : ∀ (changes : List (Identifier × List Nat)) sealed,
      identifier ∉ changes.map Prod.fst →
      (changes.foldl (sealIndices (T := T)) sealed).get identifier = sealed.get identifier := by
    intro changes
    induction changes with
    | nil => exact fun _ _ => rfl
    | cons changed rest ih =>
      intro sealed hnot
      rw [List.map_cons, List.mem_cons, not_or] at hnot
      rw [List.foldl_cons, ih _ hnot.2, sealIndices, StorageMap.get_insert, if_neg hnot.1]
  induction changes generalizing sealed with
  | nil => cases hmem
  | cons changed rest ih =>
    rw [List.map_cons, List.nodup_cons] at hnodup
    rw [List.foldl_cons]
    rcases List.mem_cons.mp hmem with heq | hmem
    · rw [← heq] at hnodup ⊢
      rw [hrest _ _ hnodup.1, sealIndices, StorageMap.get_insert, if_pos rfl]
      rfl
    · exact ih _ hnodup.2 hmem

/-- The indices noted for one collection on a page, in ascending order. -/
def changedIndicesOf (s : Store T) (page : UpdatesPageIndex) (identifier : Identifier) : List Nat :=
  (((s.pageUpdates page).filter fun u => u.1 = identifier).map Prod.snd).insertionSort (· ≤ ·)

theorem mem_changedIndicesOf {s : Store T} {page : UpdatesPageIndex} {identifier : Identifier}
    {ringIndex : Nat} : ringIndex ∈ s.changedIndicesOf page identifier ↔
      (identifier, ringIndex) ∈ s.pageUpdates page := by
  rw [changedIndicesOf, List.mem_insertionSort, List.mem_map]
  constructor
  · rintro ⟨⟨id, r⟩, hmem, rfl⟩
    obtain ⟨hfound, heq⟩ := List.mem_filter.mp hmem
    obtain rfl : id = identifier := of_decide_eq_true heq
    exact hfound
  · intro hmem
    exact ⟨(identifier, ringIndex), List.mem_filter.mpr ⟨hmem, decide_eq_true rfl⟩, rfl⟩

theorem length_changedIndicesOf_le (s : Store T) (page : UpdatesPageIndex) (identifier : Identifier) :
    (s.changedIndicesOf page identifier).length ≤ (s.pageUpdates page).length := by
  rw [changedIndicesOf, List.length_insertionSort, List.length_map]
  exact List.length_filter_le _ _

theorem map_fst_changedIndices (s : Store T) (page : UpdatesPageIndex) :
    (s.changedIndices page).map Prod.fst = ((s.pageUpdates page).map Prod.fst).dedup := by
  rw [changedIndices, List.map_map]
  exact List.map_id _

theorem mem_changedIndices {s : Store T} {page : UpdatesPageIndex} {identifier : Identifier}
    {ringIndex : Nat} (hmem : (identifier, ringIndex) ∈ s.pageUpdates page) :
    (identifier, s.changedIndicesOf page identifier) ∈ s.changedIndices page := by
  rw [changedIndices, List.mem_map]
  exact ⟨identifier, List.mem_dedup.mpr (List.mem_map.mpr ⟨_, hmem, rfl⟩), rfl⟩

/-- A sealed page holds every key noted on it, where none had to be cut off. -/
theorem mem_sealed {s : Store T} {page : UpdatesPageIndex} {identifier : Identifier} {ringIndex : Nat}
    (sealed : StorageMap Identifier (BoundedVec Nat T.maxUpdatesPerBatch))
    (hle : (s.pageUpdates page).length ≤ T.maxUpdatesPerBatch)
    (hmem : (identifier, ringIndex) ∈ s.pageUpdates page) :
    ∃ indices, ((s.changedIndices page).foldl sealIndices sealed).get identifier = some indices ∧
      indices.toList = s.changedIndicesOf page identifier := by
  have hnodup : ((s.changedIndices page).map Prod.fst).Nodup := by
    rw [map_fst_changedIndices]
    exact List.nodup_dedup _
  have hget := get_foldl_sealIndices sealed hnodup (mem_changedIndices hmem)
  rw [List.take_of_length_le ((s.length_changedIndicesOf_le page identifier).trans hle),
    Option.map_eq_some_iff] at hget
  exact hget

/-! ### Every call -/

theorem exec_step {call : Call T} (h : s.exec env call = .ok out) : Step env s call out := by
  cases call with
  | subscribe paraId collections palletIndex =>
    simp only [exec, Store.subscribe, bind_eq_ok, ensure_eq_ok] at h
    obtain ⟨s', ⟨-, hnew, -, hroom, -, hlist, hs'⟩, h⟩ := h
    cases hs'
    cases h
    rw [StorageMap.contains, Option.isSome_eq_false_iff, Option.isNone_iff_eq_none] at hnew
    exact .subscribe paraId collections palletIndex hnew hroom hlist
  | unsubscribe paraId fromSubscriber =>
    simp only [exec, Store.unsubscribe, bind_eq_ok, okOr_eq_ok] at h
    obtain ⟨info, hinfo, h⟩ := h
    cases h
    exact .unsubscribe paraId fromSubscriber info hinfo
  | requestReplay paraId identifier indices =>
    obtain ⟨s', sent⟩ := out
    have hs' : s' = s.replayedAt env paraId identifier := requestReplay_spec h
    rw [hs'] at h ⊢
    exact .requestReplay paraId identifier indices sent h
  | enqueueUpdates sendPage =>
    simp only [exec, authorizeEnqueueUpdates, bind_eq_ok, ensure_eq_ok] at h
    obtain ⟨-, ⟨-, hidle, -, hlow, -, hhigh, hwork⟩, h⟩ := h
    cases h
    have hpage : sendPage = s.pageState.sendPage := by
      simp only [BitVec.not_lt] at hlow hhigh
      exact BitVec.le_antisymm hhigh hlow
    rw [hpage]
    exact .enqueueUpdates hidle hwork
  | sendBatch paraId sequence =>
    simp only [exec, bind_eq_ok] at h
    obtain ⟨⟨⟩, hauth, h⟩ := h
    obtain ⟨batch, info, hbatch, hsequence, hpos, hnew, hinfo, hseq⟩ := authorizeSendBatch_spec hauth
    rw [hsequence] at h ⊢
    obtain ⟨s', sent⟩ := out
    rcases sendBatch_spec hbatch h with hs' | hs'
    · change s' = _ at hs'
      rw [hs'] at h ⊢
      exact .served paraId batch info sent hbatch hinfo hnew hpos hseq h
    · change s' = s at hs'
      rw [hs'] at h ⊢
      exact .unserved paraId batch info sent hbatch hinfo h
  | sendInitPage paraId index after =>
    simp only [exec, bind_eq_ok] at h
    obtain ⟨⟨⟩, hauth, h⟩ := h
    obtain ⟨state, hstate, hindex, hafter⟩ := authorizeSendInitPage_spec hauth
    rw [hindex, hafter]
    obtain ⟨s', sent⟩ := out
    obtain ⟨pending, hs'⟩ := sendInitPage_spec h
    change s' = _ at hs'
    rw [hs'] at h ⊢
    exact .sendInitPage paraId state pending sent hstate h
  | abandonStuckBatch =>
    simp only [exec, authorizeAbandonStuckBatch, bind_eq_ok, okOr_eq_ok, ensure_eq_ok] at h
    obtain ⟨-, ⟨batch, hbatch, hstuck⟩, h⟩ := h
    cases h
    exact .abandonStuckBatch batch hbatch (Nat.le_of_not_lt hstuck)
  | onRingRootChange identifier ringIndex =>
    simp only [exec] at h
    cases h
    exact .onRingRootChange identifier ringIndex

theorem execAction_step {a : Action T} {s' : Store T} (h : s.execAction a = .ok s') :
    ∃ sent, Step a.1 s a.2 (s', sent) := by
  unfold execAction at h
  cases hout : s.exec a.1 a.2 with
  | error e =>
    rw [hout] at h
    cases h
  | ok out =>
    rw [hout] at h
    cases h
    exact ⟨out.2, exec_step hout⟩

/-- The sequence of batches never goes back. -/
theorem Step.sequence_le {call : Call T} (h : Step env s call out)
    (hs : s.sealedBatchSequence ≤ U64.max) : s.sealedBatchSequence ≤ out.1.sealedBatchSequence ∧
      out.1.sealedBatchSequence ≤ U64.max := by
  cases h with
  | unsubscribe paraId _ info =>
    rw [leaveBatch_eq]
    exact ⟨le_refl s.sealedBatchSequence, hs⟩
  | enqueueUpdates =>
    rcases eq_or_ne s.subscribers.size 0 with hzero | hpos
    · rw [enqueueUpdates_of_none env hzero, sentPages_eq]
      exact ⟨le_refl s.sealedBatchSequence, hs⟩
    · rw [enqueueUpdates_of_pos env hpos]
      exact ⟨Nat.le_min.mpr ⟨Nat.le_succ _, hs⟩, Nat.min_le_right _ _⟩
  | served =>
    rw [markServed_eq]
    exact ⟨le_refl s.sealedBatchSequence, hs⟩
  | onRingRootChange identifier ringIndex =>
    by_cases hnew : s.pendingUpdates.contains (s.pageState.writePage, identifier, ringIndex) = true
    · rw [onRingRootChange_of_noted hnew]
      exact ⟨le_refl s.sealedBatchSequence, hs⟩
    · rw [onRingRootChange_of_new hnew]
      exact ⟨le_refl s.sealedBatchSequence, hs⟩
  | subscribe => exact ⟨le_refl s.sealedBatchSequence, hs⟩
  | requestReplay => exact ⟨le_refl s.sealedBatchSequence, hs⟩
  | unserved => exact ⟨le_refl s.sealedBatchSequence, hs⟩
  | sendInitPage => exact ⟨le_refl s.sealedBatchSequence, hs⟩
  | abandonStuckBatch => exact ⟨le_refl s.sealedBatchSequence, hs⟩

end Store
end Individuality.Notifier
