import Individuality.Notifier.Effects

/-! The accounting of the current batch.

A batch waits for the subscribers that were registered when it was sealed and are
not yet served (`waiting`); `Accounted` says that its counter is their number,
whoever joins, leaves or is served meanwhile. The clear that ends a batch is
bounded, so the page sealed into it must not name more collections than the clear
removes (`SealsRoomy`). -/
namespace Individuality.Notifier
open Support Replication
open Members (Identifier RingExponent)
variable {R : Type} {T : Config R}

namespace Store
variable (s : Store T)

/-- Whether a batch waits for a subscriber. -/
def waiting (sequence : Nat) (paraId : ParaId) (info : SubscriberInfo T) : Bool :=
  decide (info.lastInitSequence < sequence) && !s.subscribersWithCurrentBatch.contains paraId

/-- The number of subscribers that a batch waits for. -/
def unserved (sequence : Nat) : Nat := s.subscribers.countOf (s.waiting sequence)

end Store

/-- What holds of the subscribers, whether there is a batch or not. -/
structure Registered (s : Store T) : Prop where
  subscribers_le : s.subscribers.size ≤ T.maxSubscribers
  lastInit_le : ∀ paraId info, s.subscribers.get paraId = some info →
    info.lastInitSequence ≤ s.sealedBatchSequence
  served_registered : ∀ paraId, s.subscribersWithCurrentBatch.contains paraId = true →
    s.subscribers.contains paraId = true

structure Accounted (s : Store T) : Prop extends Registered s where
  sequence_eq : ∀ batch, s.currentBatch = some batch → batch.sequence = s.sealedBatchSequence
  remaining_eq : ∀ batch, s.currentBatch = some batch →
    batch.remainingSubscribers = s.unserved batch.sequence
  remaining_pos : ∀ batch, s.currentBatch = some batch → 0 < batch.remainingSubscribers
  sealed_le : s.currentBatch.isSome = true → s.sealedBatchIndices.size ≤ T.maxCollections
  idle_served : s.currentBatch = none → ∀ paraId, s.subscribersWithCurrentBatch.get paraId = none
  idle_sealed : s.currentBatch = none → ∀ identifier, s.sealedBatchIndices.get identifier = none

namespace Accounted
variable {s s' : Store T}

theorem genesis : Accounted (Store.genesis T) where
  subscribers_le := Nat.zero_le _
  lastInit_le := fun _ _ h => nomatch h
  served_registered := fun _ h => nomatch h
  sequence_eq := fun _ h => nomatch h
  remaining_eq := fun _ h => nomatch h
  remaining_pos := fun _ h => nomatch h
  sealed_le := fun h => nomatch h
  idle_served := fun _ _ => rfl
  idle_sealed := fun _ _ => rfl

/-! ### The end of a batch -/

/-- Forgetting a batch leaves nothing of it, where the clears reach everything. -/
theorem clearBatch (h : Registered s) (hsealed : s.sealedBatchIndices.size ≤ T.maxCollections) :
    Accounted s.clearBatch := by
  have hserved : s.subscribersWithCurrentBatch.size ≤ T.maxSubscribers := by
    refine (StorageMap.size_le_size fun paraId hmem => ?_).trans h.subscribers_le
    exact h.served_registered paraId hmem
  have hnone : ∀ paraId, s.clearBatch.subscribersWithCurrentBatch.get paraId = none := fun paraId => by
    show (s.subscribersWithCurrentBatch.clear _ _).get paraId = none
    rw [StorageMap.get_clear hserved, if_pos rfl]
  constructor
  · refine ⟨h.subscribers_le, h.lastInit_le, fun paraId hmem => ?_⟩
    rw [StorageMap.contains, hnone paraId] at hmem
    cases hmem
  · exact fun _ hbatch => by cases hbatch
  · exact fun _ hbatch => by cases hbatch
  · exact fun _ hbatch => by cases hbatch
  · exact fun hbatch => by cases hbatch
  · exact fun _ => hnone
  · intro _ identifier
    show (s.sealedBatchIndices.clear _ _).get identifier = none
    rw [StorageMap.get_clear hsealed, if_pos rfl]

/-- The count that is put is the number of subscribers the batch still waits for. -/
theorem putRemaining (h : Registered s) {batch : BatchDistributionState} {remaining : Nat}
    (hsealed : s.sealedBatchIndices.size ≤ T.maxCollections)
    (hsequence : batch.sequence = s.sealedBatchSequence)
    (hremaining : remaining = s.unserved batch.sequence) : Accounted (s.putRemaining batch remaining) := by
  unfold Store.putRemaining
  split
  · exact clearBatch h hsealed
  · rename_i hpos
    constructor
    · exact ⟨h.subscribers_le, h.lastInit_le, h.served_registered⟩
    · intro b hb
      cases hb
      exact hsequence
    · intro b hb
      cases hb
      exact hremaining
    · intro b hb
      cases hb
      exact Nat.pos_of_ne_zero hpos
    · exact fun _ => hsealed
    · exact fun hb => by cases hb
    · exact fun hb => by cases hb

/-- Each collection sealed takes one entry at most. -/
theorem size_foldl_sealIndices (changes : List (Identifier × List Nat))
    (m : StorageMap Identifier (BoundedVec Nat T.maxUpdatesPerBatch)) :
    (changes.foldl Store.sealIndices m).size ≤ m.size + changes.length := by
  induction changes generalizing m with
  | nil => exact le_refl m.size
  | cons changed rest ih =>
    have hinsert : (Store.sealIndices m changed).size ≤ m.size + 1 := m.size_insert_le _ _
    have hrest := ih (Store.sealIndices m changed)
    rw [List.foldl_cons, List.length_cons]
    omega

/-! ### One call at a time -/

/-- What a store keeps of its batch when neither the batch nor a subscriber changes. -/
theorem of_same (h : Accounted s) (hsubscribers : s'.subscribers = s.subscribers)
    (hsequence : s'.sealedBatchSequence = s.sealedBatchSequence)
    (hbatch : s'.currentBatch = s.currentBatch)
    (hserved : s'.subscribersWithCurrentBatch = s.subscribersWithCurrentBatch)
    (hsealed : s'.sealedBatchIndices = s.sealedBatchIndices) : Accounted s' := by
  obtain ⟨⟨h₁, h₂, h₃⟩, h₄, h₅, h₆, h₇, h₈, h₉⟩ := h
  constructor
  · exact ⟨by rwa [hsubscribers], by rwa [hsubscribers, hsequence], by rwa [hsubscribers, hserved]⟩
  · rwa [hbatch, hsequence]
  · unfold Store.unserved Store.waiting
    rwa [hbatch, hsubscribers, hserved]
  · rwa [hbatch]
  · rwa [hbatch, hsealed]
  · rwa [hbatch, hserved]
  · rwa [hbatch, hsealed]

/-- A new subscriber is not waited for. -/
theorem registerForInit (h : Accounted s) (env : Env T) {paraId : ParaId} (collections : Collections T)
    (palletIndex : Nat) (hnew : s.subscribers.get paraId = none)
    (hroom : s.subscribers.size < T.maxSubscribers) :
    Accounted (s.registerForInit env paraId collections palletIndex) := by
  constructor
  · constructor
    · exact (s.subscribers.size_insert_le paraId _).trans hroom
    · intro p info hinfo
      change (s.subscribers.insert paraId _).get p = some info at hinfo
      rw [StorageMap.get_insert] at hinfo
      split at hinfo
      · cases hinfo
        exact le_refl s.sealedBatchSequence
      · exact h.lastInit_le p info hinfo
    · intro p hp
      show ((s.subscribers.insert paraId _).get p).isSome = true
      rw [StorageMap.get_insert]
      split
      · rfl
      · exact h.served_registered p hp
  · exact h.sequence_eq
  · intro batch hbatch
    have hcount := s.subscribers.countOf_insert (s.waiting batch.sequence) paraId
      ⟨collections, s.sealedBatchSequence, palletIndex⟩
    have hwait : s.waiting batch.sequence paraId
        ⟨collections, s.sealedBatchSequence, palletIndex⟩ = false := by
      rw [h.sequence_eq batch hbatch]
      simp [Store.waiting]
    simp only [StorageMap.countAt, hnew, hwait, Option.any_none, Bool.false_eq_true, if_false] at hcount
    exact (h.remaining_eq batch hbatch).trans hcount.symm
  · exact h.remaining_pos
  · exact h.sealed_le
  · exact h.idle_served
  · exact h.idle_sealed

/-- A batch waits for everyone but the subscriber that left. -/
theorem unserved_of_remove (s s' : Store T) (paraId : ParaId) (sequence : Nat)
    (hsubscribers : s'.subscribers = s.subscribers.remove paraId)
    (hserved : ∀ p, p ≠ paraId →
      s'.subscribersWithCurrentBatch.contains p = s.subscribersWithCurrentBatch.contains p) :
    s'.unserved sequence + s.subscribers.countAt (s.waiting sequence) paraId = s.unserved sequence := by
  rw [Store.unserved, Store.unserved, ← s.subscribers.countOf_remove _ paraId, hsubscribers]
  congr 1
  refine StorageMap.countOf_congr fun p info hget => ?_
  have hne : p ≠ paraId := by
    rintro rfl
    rw [StorageMap.get_remove, if_pos rfl] at hget
    cases hget
  simp only [Store.waiting, hserved p hne]

/-- A subscriber that leaves is taken off the count when the batch waited for it. -/
theorem unsubscribe (h : Accounted s) {paraId : ParaId} {info : SubscriberInfo T}
    (hinfo : s.subscribers.get paraId = some info) :
    Accounted ((s.withdraw paraId info).leaveBatch paraId info) := by
  have hsize : (s.subscribers.remove paraId).size ≤ T.maxSubscribers :=
    (s.subscribers.size_remove_le paraId).trans h.subscribers_le
  have hlast : ∀ p i, (s.subscribers.remove paraId).get p = some i →
      i.lastInitSequence ≤ s.sealedBatchSequence := by
    intro p i hget
    rw [StorageMap.get_remove] at hget
    split at hget
    · cases hget
    · exact h.lastInit_le p i hget
  have hothers : ∀ p, p ≠ paraId → s.subscribersWithCurrentBatch.contains p = true →
      (s.subscribers.remove paraId).contains p = true := by
    intro p hne hp
    rw [StorageMap.contains, StorageMap.get_remove, if_neg hne]
    exact h.served_registered p hp
  have hat : ∀ sequence, s.subscribers.countAt (s.waiting sequence) paraId =
      if s.waiting sequence paraId info = true then 1 else 0 := by
    intro sequence
    rw [StorageMap.countAt, hinfo, Option.any_some]
  unfold Store.leaveBatch
  split
  · -- No batch, so nobody is marked as served either.
    rename_i hbatch
    change s.currentBatch = none at hbatch
    have hnone := h.idle_served hbatch
    refine ⟨⟨hsize, hlast, fun p hp => ?_⟩, ?_, ?_, ?_, ?_, fun _ => hnone, fun _ => h.idle_sealed hbatch⟩
    · change (s.subscribersWithCurrentBatch.get p).isSome = true at hp
      rw [hnone p] at hp
      cases hp
    · exact fun b hb => absurd (hbatch.symm.trans hb) (by simp)
    · exact fun b hb => absurd (hbatch.symm.trans hb) (by simp)
    · exact fun b hb => absurd (hbatch.symm.trans hb) (by simp)
    · exact h.sealed_le
  · rename_i batch hbatch
    change s.currentBatch = some batch at hbatch
    have hsealed := h.sealed_le (by rw [hbatch]; rfl)
    split
    · -- Already served: the batch no longer waited for it.
      rename_i hserved
      change s.subscribersWithCurrentBatch.contains paraId = true at hserved
      refine ⟨⟨hsize, hlast, fun p hp => ?_⟩, h.sequence_eq, fun b hb => ?_, h.remaining_pos, h.sealed_le,
        fun hb => ?_, h.idle_sealed⟩
      · change ((s.subscribersWithCurrentBatch.remove paraId).get p).isSome = true at hp
        rw [StorageMap.get_remove] at hp
        split at hp
        · cases hp
        · rename_i hne
          exact hothers p hne hp
      · have hcount := unserved_of_remove s { s.withdraw paraId info with
          subscribersWithCurrentBatch := s.subscribersWithCurrentBatch.remove paraId }
          paraId b.sequence rfl fun p hne => by
            rw [StorageMap.contains, StorageMap.get_remove, if_neg hne]
            rfl
        rw [hat, if_neg (by simp [Store.waiting, hserved])] at hcount
        exact (h.remaining_eq b hb).trans hcount.symm
      · exact absurd (hbatch.symm.trans hb) (by simp)
    · rename_i hserved
      change ¬ s.subscribersWithCurrentBatch.contains paraId = true at hserved
      have hregistered : Registered (s.withdraw paraId info) := by
        refine ⟨hsize, hlast, fun p hp => hothers p ?_ hp⟩
        rintro rfl
        exact hserved hp
      have hcount := unserved_of_remove s (s.withdraw paraId info) paraId
        batch.sequence rfl fun p _ => rfl
      have heq := h.remaining_eq batch hbatch
      split
      · -- Counted and not served: the count goes down.
        rename_i hcounted
        rw [hat, if_pos (by simp [Store.waiting, hserved, hcounted.1])] at hcount
        exact putRemaining hregistered hsealed (h.sequence_eq batch hbatch) (by omega)
      · -- Registered after the batch was sealed: never counted.
        rename_i hcounted
        have hlate : ¬ info.lastInitSequence < batch.sequence := fun hlt =>
          hcounted ⟨hlt, h.remaining_pos batch hbatch⟩
        rw [hat, if_neg (by simp [Store.waiting, hlate])] at hcount
        refine ⟨hregistered, h.sequence_eq, fun b hb => ?_, h.remaining_pos, h.sealed_le,
          h.idle_served, h.idle_sealed⟩
        rw [Option.some.inj (hb.symm.trans hbatch), heq, ← hcount]
        rfl

/-- Every subscriber is waited for when a batch is sealed. -/
theorem enqueueUpdates (h : Accounted s) (env : Env T) (hidle : s.currentBatch = none)
    (hroomy : s.subscribers.size ≠ 0 → s.sealedBatchSequence < U64.max ∧
      (s.changedIndices s.pageState.sendPage).length ≤ T.maxCollections) :
    Accounted (s.enqueueUpdates env) := by
  rcases eq_or_ne s.subscribers.size 0 with hzero | hpos
  · rw [Store.enqueueUpdates_of_none env hzero, Store.sentPages_eq]
    exact h.of_same rfl rfl rfl rfl rfl
  · obtain ⟨hmax, hcollections⟩ := hroomy hpos
    have hsequence : U64.saturatingAdd s.sealedBatchSequence 1 = s.sealedBatchSequence + 1 :=
      Nat.min_eq_left hmax
    have hlast : ∀ p info, s.subscribers.get p = some info →
        info.lastInitSequence < s.sealedBatchSequence + 1 :=
      fun p info hget => Nat.lt_succ_of_le (h.lastInit_le p info hget)
    rw [Store.enqueueUpdates_of_pos env hpos, Store.sentPages_eq, hsequence]
    constructor
    · exact ⟨h.subscribers_le, fun p info hget => (hlast p info hget).le, h.served_registered⟩
    · intro b hb
      cases hb
      rfl
    · intro b hb
      cases hb
      show s.subscribers.size = s.subscribers.countOf _
      refine StorageMap.countOf_congr fun p info hget => ?_
      have hserved := h.idle_served hidle p
      simp only [Store.waiting, StorageMap.contains, hserved, hlast p info hget, decide_true,
        Option.isSome_none, Bool.not_false, Bool.and_self]
    · intro b hb
      cases hb
      exact Nat.pos_of_ne_zero hpos
    · intro _
      have hempty : s.sealedBatchIndices.size = 0 :=
        StorageMap.size_eq_zero_iff.mpr (h.idle_sealed hidle)
      have hle := size_foldl_sealIndices (s.changedIndices s.pageState.sendPage) s.sealedBatchIndices
      refine hle.trans ?_
      rw [hempty, Nat.zero_add]
      exact hcollections
    · exact fun hb => by cases hb
    · exact fun hb => by cases hb

/-- Serving a subscriber takes exactly it off the count. -/
theorem markServed (h : Accounted s) {paraId : ParaId} {batch : BatchDistributionState}
    {info : SubscriberInfo T} (hbatch : s.currentBatch = some batch)
    (hinfo : s.subscribers.get paraId = some info)
    (hnew : s.subscribersWithCurrentBatch.contains paraId = false)
    (hseq : info.lastInitSequence < batch.sequence) : Accounted (s.markServed batch paraId) := by
  refine putRemaining (s := { s with
    subscribersWithCurrentBatch := s.subscribersWithCurrentBatch.insert paraId () }) ?_
    (h.sealed_le (by rw [hbatch]; rfl)) (h.sequence_eq batch hbatch) ?_
  · refine ⟨h.subscribers_le, h.lastInit_le, fun p hp => ?_⟩
    change ((s.subscribersWithCurrentBatch.insert paraId ()).get p).isSome = true at hp
    rw [StorageMap.get_insert] at hp
    split at hp
    · rename_i heq
      rw [StorageMap.contains, heq, hinfo]
      rfl
    · exact h.served_registered p hp
  · have hupdate := StorageMap.countOf_update (m := s.subscribers) (k := paraId)
      (p := Store.waiting { s with
        subscribersWithCurrentBatch := s.subscribersWithCurrentBatch.insert paraId () } batch.sequence)
      (q := s.waiting batch.sequence) fun p i hne => by
        simp only [Store.waiting, StorageMap.contains, StorageMap.get_insert, if_neg hne]
    have hbefore : s.waiting batch.sequence paraId info = true := by
      simp only [Store.waiting, hseq, hnew, decide_true, Bool.not_false, Bool.and_self]
    have hafter : Store.waiting { s with
        subscribersWithCurrentBatch := s.subscribersWithCurrentBatch.insert paraId () }
        batch.sequence paraId info = false := by
      simp [Store.waiting, StorageMap.contains]
    simp only [StorageMap.countAt, hinfo, Option.any_some, hbefore, hafter, if_true,
      Bool.false_eq_true, if_false] at hupdate
    have heq := h.remaining_eq batch hbatch
    rw [Store.unserved] at heq ⊢
    show batch.remainingSubscribers - 1 = s.subscribers.countOf _
    omega

end Accounted

/-! ### Runs -/

/-- A batch that is sealed names no more collections than the clear that ends it removes, and gets a
sequence of its own. -/
def SealsRoomy (s : Store T) (a : Action T) : Prop :=
  match a.2 with
  | .enqueueUpdates _ => s.subscribers.size ≠ 0 → s.sealedBatchSequence < U64.max ∧
      (s.changedIndices s.pageState.sendPage).length ≤ T.maxCollections
  | _ => True

instance (s : Store T) (a : Action T) : Decidable (SealsRoomy s a) := by
  obtain ⟨env, call⟩ := a
  apply Call.casesOn (motive := fun call => Decidable (SealsRoomy s (env, call))) call <;> intros <;>
    dsimp only [SealsRoomy] <;> infer_instance

theorem Accounted.step {s s' : Store T} {a : Action T} (h : Accounted s) (hG : SealsRoomy s a)
    (ha : s.execAction a = .ok s') : Accounted s' := by
  obtain ⟨env, call⟩ := a
  obtain ⟨sent, hstep⟩ := Store.execAction_step ha
  cases hstep with
  | subscribe paraId collections palletIndex hnew hroom =>
    exact h.registerForInit env collections palletIndex hnew hroom
  | unsubscribe paraId fromSubscriber info hinfo => exact h.unsubscribe hinfo
  | requestReplay => exact h.of_same rfl rfl rfl rfl rfl
  | enqueueUpdates hidle => exact h.enqueueUpdates env hidle hG
  | served paraId batch info _ hbatch hinfo hnew _ hseq => exact h.markServed hbatch hinfo hnew hseq
  | unserved => exact h
  | sendInitPage => exact h.of_same rfl rfl rfl rfl rfl
  | abandonStuckBatch batch hbatch =>
    exact .clearBatch h.toRegistered (h.sealed_le (by rw [hbatch]; rfl))
  | onRingRootChange identifier ringIndex =>
    by_cases hnoted : s.pendingUpdates.contains (s.pageState.writePage, identifier, ringIndex) = true
    · rw [Store.onRingRootChange_of_noted hnoted]
      exact h
    · rw [Store.onRingRootChange_of_new hnoted]
      exact h.of_same rfl rfl rfl rfl rfl

/-- The subscribers that were marked as served, each with the sequence of its batch. A subscriber
is marked by the `send_batch` that counts the batch down. -/
abbrev Marks := List (ParaId × Nat)

def noteMark (s : Store T) (a : Action T) (s' : Store T) (marks : Marks) : Marks :=
  match a.2 with
  | .sendBatch paraId sequence =>
    if s'.currentBatch = s.currentBatch then marks else (paraId, sequence) :: marks
  | _ => marks

/-- The marks are of batches sealed so far, and those of the current batch can still be told. -/
structure Marked (s : Store T) (marks : Marks) : Prop where
  nodup : marks.Nodup
  sequence_le : ∀ paraId sequence, (paraId, sequence) ∈ marks → sequence ≤ s.sealedBatchSequence
  served : ∀ paraId batch, (paraId, batch.sequence) ∈ marks → s.currentBatch = some batch →
    ∀ info, s.subscribers.get paraId = some info → s.waiting batch.sequence paraId info = false

namespace Marked
variable {s s' : Store T} {marks : Marks}

/-- No step makes a batch wait again for a subscriber it did not wait for. -/
theorem of_waiting (h : Marked s marks) (hsequence : s'.sealedBatchSequence = s.sealedBatchSequence)
    (hbatch : ∀ batch', s'.currentBatch = some batch' → ∃ batch, s.currentBatch = some batch ∧
      batch.sequence = batch'.sequence ∧ ∀ paraId info, s'.subscribers.get paraId = some info →
        s'.waiting batch.sequence paraId info = true →
        s.subscribers.get paraId = some info ∧ s.waiting batch.sequence paraId info = true) :
    Marked s' marks := by
  refine ⟨h.nodup, by rw [hsequence]; exact h.sequence_le, ?_⟩
  intro paraId batch' hmem hb' info hinfo
  obtain ⟨batch, hb, heq, hwaiting⟩ := hbatch batch' hb'
  rw [← heq] at hmem ⊢
  by_contra hwait
  obtain ⟨hold, hwait⟩ := hwaiting paraId info hinfo (by simpa using hwait)
  rw [h.served paraId batch hmem hb info hold] at hwait
  cases hwait

theorem of_same (h : Marked s marks) (hsubscribers : s'.subscribers = s.subscribers)
    (hsequence : s'.sealedBatchSequence = s.sealedBatchSequence)
    (hbatch : s'.currentBatch = s.currentBatch)
    (hserved : s'.subscribersWithCurrentBatch = s.subscribersWithCurrentBatch) : Marked s' marks := by
  refine h.of_waiting hsequence fun batch hb => ⟨batch, hbatch ▸ hb, rfl, fun paraId info hinfo hwait => ?_⟩
  unfold Store.waiting at hwait ⊢
  rw [hsubscribers] at hinfo
  rw [hserved] at hwait
  exact ⟨hinfo, hwait⟩

theorem clearBatch (h : Marked s marks) : Marked s.clearBatch marks :=
  h.of_waiting rfl fun _ hb => nomatch hb

theorem registerForInit (h : Marked s marks) (ha : Accounted s) (env : Env T) (paraId : ParaId)
    (collections : Collections T) (palletIndex : Nat) :
    Marked (s.registerForInit env paraId collections palletIndex) marks := by
  refine h.of_waiting rfl fun batch hb => ⟨batch, hb, rfl, fun p info hinfo hwait => ?_⟩
  change (s.subscribers.insert paraId _).get p = some info at hinfo
  rw [StorageMap.get_insert] at hinfo
  split at hinfo
  · cases hinfo
    have hseq : batch.sequence = s.sealedBatchSequence := ha.sequence_eq batch hb
    simp [Store.waiting, hseq] at hwait
  · exact ⟨hinfo, hwait⟩

theorem unsubscribe (h : Marked s marks) {paraId : ParaId} {info : SubscriberInfo T} :
    Marked ((s.withdraw paraId info).leaveBatch paraId info) marks := by
  -- Without the subscriber, the batch waits for fewer.
  have hothers : ∀ p i, (s.subscribers.remove paraId).get p = some i →
      p ≠ paraId ∧ s.subscribers.get p = some i := by
    intro p i hget
    rw [StorageMap.get_remove] at hget
    split at hget
    · cases hget
    · rename_i hne
      exact ⟨hne, hget⟩
  have hwithdrawn : Marked (s.withdraw paraId info) marks :=
    h.of_waiting rfl fun batch hb => ⟨batch, hb, rfl, fun p i hget hwait =>
      ⟨(hothers p i hget).2, hwait⟩⟩
  unfold Store.leaveBatch
  split
  · exact hwithdrawn
  · rename_i batch hbatch
    split
    · refine h.of_waiting rfl fun b hb => ⟨b, hb, rfl, fun p i hget hwait => ?_⟩
      obtain ⟨hne, hget⟩ := hothers p i hget
      simp only [Store.waiting, StorageMap.contains, StorageMap.get_remove, if_neg hne] at hwait
      exact ⟨hget, hwait⟩
    · split
      · rcases Store.putRemaining_spec (s.withdraw paraId info) batch (batch.remainingSubscribers - 1)
          with heq | heq
        · rw [heq]
          exact hwithdrawn.clearBatch
        · rw [heq]
          refine hwithdrawn.of_waiting rfl fun b hb => ⟨batch, hbatch, ?_, fun p i hget hwait => ⟨hget, hwait⟩⟩
          cases hb
          rfl
      · exact hwithdrawn

theorem enqueueUpdates (h : Marked s marks) (env : Env T)
    (hmax : s.subscribers.size ≠ 0 → s.sealedBatchSequence < U64.max) :
    Marked (s.enqueueUpdates env) marks := by
  rcases eq_or_ne s.subscribers.size 0 with hzero | hpos
  · rw [Store.enqueueUpdates_of_none env hzero, Store.sentPages_eq]
    exact h.of_same rfl rfl rfl rfl
  · have hsequence : U64.saturatingAdd s.sealedBatchSequence 1 = s.sealedBatchSequence + 1 :=
      Nat.min_eq_left (hmax hpos)
    rw [Store.enqueueUpdates_of_pos env hpos, hsequence]
    refine ⟨h.nodup, fun p q hmem => Nat.le_succ_of_le (h.sequence_le p q hmem), ?_⟩
    intro p batch hmem hb
    cases hb
    exact absurd (h.sequence_le p _ hmem) (Nat.not_succ_le_self _)

/-- The subscriber was waited for, so it was not marked for this batch before. -/
theorem markServed (h : Marked s marks) (ha : Accounted s) {paraId : ParaId}
    {batch : BatchDistributionState} {info : SubscriberInfo T} (hbatch : s.currentBatch = some batch)
    (hinfo : s.subscribers.get paraId = some info)
    (hnew : s.subscribersWithCurrentBatch.contains paraId = false)
    (hseq : info.lastInitSequence < batch.sequence) :
    Marked (s.markServed batch paraId) ((paraId, batch.sequence) :: marks) := by
  have hwaiting : s.waiting batch.sequence paraId info = true := by
    simp only [Store.waiting, hseq, hnew, decide_true, Bool.not_false, Bool.and_self]
  have hfresh : (paraId, batch.sequence) ∉ marks := fun hmem => by
    rw [h.served paraId batch hmem hbatch info hinfo] at hwaiting
    cases hwaiting
  have hle : ∀ p q, (p, q) ∈ (paraId, batch.sequence) :: marks → q ≤ s.sealedBatchSequence := by
    intro p q hmem
    rcases List.mem_cons.mp hmem with heq | hmem
    · cases heq
      exact (ha.sequence_eq batch hbatch).le
    · exact h.sequence_le p q hmem
  have hcons : ((paraId, batch.sequence) :: marks).Nodup := List.nodup_cons.mpr ⟨hfresh, h.nodup⟩
  rcases Store.putRemaining_spec { s with
    subscribersWithCurrentBatch := s.subscribersWithCurrentBatch.insert paraId () } batch
    (batch.remainingSubscribers - 1) with heq | heq
  · rw [Store.markServed, heq]
    exact ⟨hcons, hle, fun _ _ _ hb => by cases hb⟩
  · rw [Store.markServed, heq]
    refine ⟨hcons, hle, ?_⟩
    intro p b hmem hb i hi
    cases hb
    simp only [Store.waiting, StorageMap.contains, StorageMap.get_insert]
    by_cases hp : p = paraId
    · rw [if_pos hp]
      simp
    · rw [if_neg hp]
      have hold : (p, batch.sequence) ∈ marks := by
        rcases List.mem_cons.mp hmem with heq | hmem
        · exact absurd (congrArg Prod.fst heq) hp
        · exact hmem
      exact h.served p batch hold hbatch i hi

end Marked

/-- A batch that serves a subscriber is counted down or ends. -/
theorem currentBatch_markServed (s : Store T) {batch : BatchDistributionState} (paraId : ParaId)
    (hbatch : s.currentBatch = some batch) (hpos : 0 < batch.remainingSubscribers) :
    (s.markServed batch paraId).currentBatch ≠ s.currentBatch := by
  rw [hbatch]
  rcases Store.putRemaining_spec { s with
    subscribersWithCurrentBatch := s.subscribersWithCurrentBatch.insert paraId () } batch
    (batch.remainingSubscribers - 1) with heq | heq
  · rw [Store.markServed, heq]
    exact nofun
  · rw [Store.markServed, heq]
    intro hsame
    have := congrArg BatchDistributionState.remainingSubscribers (Option.some.inj hsame)
    change batch.remainingSubscribers - 1 = batch.remainingSubscribers at this
    omega

theorem Marked.step {s s' : Store T} {marks : Marks} {a : Action T} (h : Marked s marks)
    (hs : Accounted s) (hG : SealsRoomy s a) (ha : s.execAction a = .ok s') :
    Marked s' (noteMark s a s' marks) := by
  obtain ⟨env, call⟩ := a
  obtain ⟨sent, hstep⟩ := Store.execAction_step ha
  cases hstep with
  | subscribe paraId collections palletIndex => exact h.registerForInit hs env paraId collections palletIndex
  | unsubscribe => exact h.unsubscribe
  | requestReplay => exact h.of_same rfl rfl rfl rfl
  | enqueueUpdates => exact h.enqueueUpdates env fun hpos => (hG hpos).1
  | served paraId batch info _ hbatch hinfo hnew hpos hseq =>
    simp only [noteMark, if_neg (currentBatch_markServed s paraId hbatch hpos)]
    exact h.markServed hs hbatch hinfo hnew hseq
  | unserved =>
    simp only [noteMark, if_true]
    exact h
  | sendInitPage => exact h.of_same rfl rfl rfl rfl
  | abandonStuckBatch => exact h.clearBatch
  | onRingRootChange identifier ringIndex =>
    by_cases hnoted : s.pendingUpdates.contains (s.pageState.writePage, identifier, ringIndex) = true
    · rw [Store.onRingRootChange_of_noted hnoted]
      exact h
    · rw [Store.onRingRootChange_of_new hnoted]
      exact h.of_same rfl rfl rfl rfl

/-- The notifier with its marks. -/
def Marking (w : Store T × Marks) : Prop :=
  Reaches (noting Store.execAction noteMark) (fun w a => SealsRoomy w.1 a) (Store.genesis T, []) w

theorem Marking.accounted {w : Store T × Marks} (h : Marking w) : Accounted w.1 ∧ Marked w.1 w.2 := by
  refine h.noted (I := fun s marks => Accounted s ∧ Marked s marks) ?_ ?_
  · exact ⟨.genesis, List.nodup_nil, fun _ _ hmem => (List.not_mem_nil hmem).elim,
      fun _ _ hmem => (List.not_mem_nil hmem).elim⟩
  · rintro s marks a s' ⟨hs, hmarks⟩ hG ha
    exact ⟨hs.step hG ha, hmarks.step hs hG ha⟩

end Individuality.Notifier
