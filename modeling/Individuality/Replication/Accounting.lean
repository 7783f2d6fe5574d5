import Individuality.Replication.Idempotence
import Individuality.Subscriber.Accounting

/-! Every ring is accounted for, whichever messages are lost.

What a batch makes known without naming it is missing, until it is delivered, deleted or given up. A scan that stops
for lack of room, or is left out because the deleted rings are at capacity, is never made up for: the rings behind are
not known, and nothing asks for them when there is room again. -/
namespace Individuality.Subscriber
open Support Replication
open Members (Identifier RingExponent)
variable {R : Type} {T : Config R}

namespace Store
variable {s s' : Store T} {givenUp : List (Identifier × Nat)}

/-! ### The rings given up -/

/-- Whether a call clears all ring data. -/
def clears (s : Store T) : Call T → Bool
  | .initializeRingRoots _ roots =>
    match s.subscription with
    | .active initializedAtSequence => decide (initializedAtSequence < roots.sequence)
    | _ => false
  | .terminateSubscription _ => s.ensureSubscriptionActive.toOption.isSome
  | _ => false

/-- Note the rings that a replay gives up; a clear starts over. -/
def noteGivenUp (s : Store T) (a : Action T) (s' : Store T) (givenUp : List (Identifier × Nat)) : List (Identifier × Nat) :=
  if s.clears a.2 then []
  else
    match a.2 with
    | .replayMissingRoots identifier indices =>
      ((indices.toList.filter fun r => (s.collectionState identifier).missingIndices.contains r &&
        !(s'.collectionState identifier).missingIndices.contains r).map fun r => (identifier, r)) ++ givenUp
    | _ => givenUp

/-- The count of a collection is right, its sets are disjoint, and where there is room every ring below the next ring
index is in one of them or was given up. -/
structure RingsAccounted (s : Store T) (givenUp : List (Identifier × Nat)) : Prop where
  ringCount_eq : ∀ id, (s.collectionState id).ringCount = s.ringRoots.countOf fun k _ => decide (k.1 = id)
  stored_disjoint : ∀ id r, s.ringRoots.contains (id, r) = true →
    (s.collectionState id).deletedIndices.get r = none ∧ (s.collectionState id).missingIndices.get r = none
  deleted_disjoint : ∀ id r, ((s.collectionState id).deletedIndices.get r).isSome = true →
    (s.collectionState id).missingIndices.get r = none
  known : ∀ id, (s.collectionState id).missingIndices.length < T.maxMissingRootsPerCollection →
    (s.collectionState id).deletedIndices.length < T.maxDeletedRingsPerCollection →
      ∀ r, r < (s.collectionState id).nextRingIndex → s.Knows givenUp id r

/-- What is carried through a run. -/
structure Accounted (s : Store T) (givenUp : List (Identifier × Nat)) : Prop where
  tally : ∀ id, Tally s id
  knows : ∀ id r, r < (s.collectionState id).nextRingIndex → s.Knows givenUp id r

namespace Accounted

theorem accounted (h : Accounted s givenUp) : RingsAccounted s givenUp := by
  have hnone : ∀ {α : Type} {o : Option α} {P : Prop}, (o.isSome = true → P) → ¬ P → o = none := fun ho hP =>
    Option.isNone_iff_eq_none.mp (Option.isSome_eq_false_iff.mp (Bool.eq_false_iff.mpr fun hsome => hP (ho hsome)))
  refine ⟨fun id => (h.tally id).count, fun id r hs => ⟨?_, ?_⟩, fun id r hd => ?_, fun id _ _ => h.knows id⟩
  · refine hnone ((h.tally id).deleted_lt r) fun hnot => ?_
    exact Bool.false_ne_true (hnot.2.symm.trans hs)
  · refine hnone ((h.tally id).missing_lt r) fun hnot => ?_
    exact Bool.false_ne_true (hnot.2.1.symm.trans hs)
  · refine hnone ((h.tally id).missing_lt r) fun hnot => ?_
    rw [hnot.2.2] at hd
    cases hd

/-- A store that holds nothing. -/
theorem of_empty (hroots : ∀ k, s.ringRoots.get k = none) (hstates : ∀ id, s.collectionState id = default) :
    Accounted s givenUp := by
  refine ⟨fun id => ⟨?_, fun r roots hget => ?_, ?_, fun r hr => ?_, fun r hr => ?_, fun r hr => ?_⟩, fun id r hr => ?_⟩
  · rw [hstates]
    exact (StorageMap.countOf_eq_zero_iff.mpr fun k roots hget => by rw [hroots] at hget; cases hget).symm
  · rw [hroots] at hget
    cases hget
  · rw [hstates]
    exact Nat.zero_le _
  · rw [stored, StorageMap.contains, hroots] at hr
    cases hr
  · rw [hstates] at hr
    cases hr
  · rw [hstates] at hr
    cases hr
  · rw [hstates] at hr
    exact absurd hr (Nat.not_lt_zero r)

end Accounted

/-! ### Calls -/

/-- A clear removes all there is: its limits are not exceeded. -/
def ClearsAll (s : Store T) : Prop :=
  s.ringRoots.size ≤ U32.saturatingMul T.maxCollections T.maxRingRootsPerCollection ∧
    s.ringCollectionStates.size ≤ T.maxCollections

theorem Accounted.clearAllRingData (h : s.ClearsAll) : Accounted s.clearAllRingData givenUp := by
  refine .of_empty (fun k => ?_) fun id => ?_
  · exact (StorageMap.get_clear h.1 k).trans (if_pos rfl)
  · have hget : s.clearAllRingData.ringCollectionStates.get id = none :=
      (StorageMap.get_clear h.2 id).trans (if_pos rfl)
    rw [collectionState, hget]
    rfl

/-- A batch that the subscriber can keep account of. -/
structure TakesIn (s : Store T) (batch : Batch T) : Prop where
  named : s.NamesKnown batch
  room : FindsRoom (s.collectionState batch.identifier).deletedIndices batch.updates.toList
  scanned : s.ScansAll batch

/-- A call that clears removes all there is, and a batch that is taken in is kept account of. -/
def AccountsFor (s : Store T) (a : Action T) : Prop :=
  (s.clears a.2 = true → s.ClearsAll) ∧
    match a.2 with
    | .processRingUpdates batch => batch.sequence < s.processingState.lastProcessedSequence ∨ s.TakesIn batch
    | .initializeRingRoots _ roots => (s.intake roots).TakesIn roots
    | _ => True

theorem Accounted.applyBatch {batch : Batch T} (h : Accounted s givenUp) (htakes : s.TakesIn batch) (now : Nat) :
    Accounted (s.applyBatch now batch) givenUp :=
  ⟨Tally.applyBatch h.tally htakes.named now,
    knows_applyBatch h.knows h.tally htakes.named htakes.room htakes.scanned now⟩

theorem collectionState_replayMissingRoots (s : Store T) (env : Env) (identifier : Identifier) (indices : List Nat)
    (id : Identifier) : ∃ missing, (s.replayMissingRoots env identifier indices).1.collectionState id =
      { s.collectionState id with missingIndices := missing } := by
  have hprocess : ∀ l, ∃ missing, (s.processCollectionReplay env identifier l).1.collectionState id =
      { s.collectionState id with missingIndices := missing } := by
    intro l
    simp only [processCollectionReplay]
    split
    · exact ⟨_, rfl⟩
    · by_cases hid : id = identifier
      · subst hid
        exact ⟨_, (collectionState_of_insert s _ rfl id).trans (if_pos rfl)⟩
      · exact ⟨_, (collectionState_of_insert s _ rfl id).trans (if_neg hid)⟩
  simp only [replayMissingRoots]
  split
  · exact hprocess _
  · exact hprocess _

/-- A replay gives rings up, and changes nothing else of what is known. -/
theorem Accounted.replayMissingRoots (h : Accounted s givenUp) {env : Env} {identifier : Identifier}
    {indices : BoundedVec Nat T.maxMissingRootsPerCollection} {out : Store T × List NotifierCall}
    (hout : s.exec env (.replayMissingRoots identifier indices) = .ok out) :
    Accounted out.1 (s.noteGivenUp (env, .replayMissingRoots identifier indices) out.1 givenUp) := by
  obtain ⟨-, -, -, hspec⟩ := s.replayMissingRoots_spec hout
  have hroots : out.1.ringRoots = s.ringRoots ∧ ∀ id, ∃ missing, out.1.collectionState id =
      { s.collectionState id with missingIndices := missing } := by
    simp only [exec, bind_eq_ok] at hout
    obtain ⟨-, -, hout⟩ := hout
    cases hout
    exact ⟨ringRoots_replayMissingRoots s env identifier _, collectionState_replayMissingRoots s env identifier _⟩
  obtain ⟨hroots, hstates⟩ := hroots
  refine ⟨fun id => ?_, fun id r hr => ?_⟩
  · obtain ⟨missing, hstate⟩ := hstates id
    refine (h.tally id).of_same (fun r => by rw [hroots]) (by rw [hstate]) (by rw [hstate]) (by rw [hstate])
      fun r hr => .inl ?_
    rw [(hspec id).2 r] at hr
    split at hr
    · cases hget : (s.collectionState id).missingIndices.get r with
      | none =>
        rw [hget] at hr
        cases hr
      | some attempts => rfl
    · exact hr
  · rw [(hspec id).1] at hr
    obtain ⟨missing, hstate⟩ := hstates id
    have hnoted : ∀ x ∈ givenUp, x ∈ s.noteGivenUp (env, .replayMissingRoots identifier indices) out.1 givenUp :=
      fun x hx => List.mem_append_right _ hx
    unfold Knows
    rw [stored, hroots, congrArg RingCollectionState.deletedIndices hstate]
    rcases h.knows id r hr with hs | hd | hm | hg
    · exact .inl hs
    · exact .inr (.inl hd)
    · by_cases hstill : ((out.1.collectionState id).missingIndices.get r).isSome = true
      · exact .inr (.inr (.inl hstill))
      · -- The replay gave this ring up.
        have hasked : id = identifier ∧ r ∈ indices.toList := by
          by_contra hnot
          rw [(hspec id).2 r, if_neg hnot] at hstill
          exact hstill hm
        refine .inr (.inr (.inr (List.mem_append_left _ (List.mem_map.mpr ⟨r, List.mem_filter.mpr ⟨hasked.2, ?_⟩, ?_⟩))))
        · rw [← hasked.1, Bool.and_eq_true, Bool.not_eq_true']
          exact ⟨hm, Bool.eq_false_iff.mpr hstill⟩
        · rw [hasked.1]
    · exact .inr (.inr (.inr (hnoted _ hg)))

theorem Accounted.step {a : Action T} (h : Accounted s givenUp) (hG : s.AccountsFor a) (hs : s.execAction a = .ok s') :
    Accounted s' (s.noteGivenUp a s' givenUp) := by
  obtain ⟨env, call⟩ := a
  unfold execAction at hs
  cases hout : s.exec env call with
  | error e =>
    rw [hout] at hs
    cases hs
  | ok out =>
  rw [hout] at hs
  cases hs
  obtain ⟨hclears, htakes⟩ := hG
  cases call with
  | processRingUpdates batch =>
    simp only [exec, bind_eq_ok] at hout
    obtain ⟨s', hs', hout⟩ := hout
    cases hout
    obtain ⟨-, ⟨-, rfl⟩ | ⟨hnew, rfl⟩⟩ := processRingUpdates_eq_ok hs'
    · exact h
    · exact h.applyBatch (htakes.resolve_left hnew) env.now
  | initializeRingRoots ringExponent roots =>
    simp only [exec, bind_eq_ok] at hout
    obtain ⟨s', hs', hout⟩ := hout
    cases hout
    have hinit := initializeRingRoots_eq_ok hs'
    subst hinit
    have hintake : Accounted (s.intake roots) (s.noteGivenUp (env, .initializeRingRoots ringExponent roots)
        ((s.intake roots).storeInitial env ringExponent roots) givenUp) := by
      unfold noteGivenUp
      cases hsubscription : s.subscription with
      | active initializedAtSequence =>
        unfold intake clears at *
        simp only [hsubscription] at hclears ⊢
        split
        · next hlt => exact .clearAllRingData (hclears (decide_eq_true hlt))
        · next hlt =>
          rw [decide_eq_false hlt]
          exact h
      | inactive =>
        unfold intake clears
        simp only [hsubscription]
        exact h
      | terminated =>
        unfold intake clears
        simp only [hsubscription]
        exact h
    obtain ⟨htally, hknows⟩ := hintake.applyBatch htakes env.now
    exact ⟨fun id => ⟨(htally id).count, (htally id).nonempty, (htally id).next_le, (htally id).stored_lt,
      (htally id).deleted_lt, (htally id).missing_lt⟩, hknows⟩
  | terminateSubscription fromNotifier =>
    simp only [exec, terminateSubscription] at hout
    unfold noteGivenUp clears ensureSubscriptionActive at *
    cases hsubscription : s.subscription with
    | inactive =>
      rw [hsubscription] at hout
      cases hout
    | terminated =>
      rw [hsubscription] at hout
      cases hout
      exact h
    | active initializedAtSequence =>
      rw [hsubscription] at hout
      simp only [hsubscription] at hclears ⊢
      cases hout
      obtain ⟨htally, hknows⟩ : Accounted s.clearAllRingData [] := .clearAllRingData (hclears rfl)
      exact ⟨fun id => ⟨(htally id).count, (htally id).nonempty, (htally id).next_le, (htally id).stored_lt,
        (htally id).deleted_lt, (htally id).missing_lt⟩, hknows⟩
  | replayMissingRoots identifier indices => exact h.replayMissingRoots hout

/-- In runs that keep account of what they take in, every ring is accounted for. -/
theorem rings_accounted {w : Store T × List (Identifier × Nat)} (h : Reaches (noting execAction noteGivenUp)
      (fun w a => AccountsFor w.1 a) (genesis T, []) w) : RingsAccounted w.1 w.2 := by
  have haccounted : Accounted w.1 w.2 := h.noted (I := Accounted) (.of_empty (fun _ => rfl) fun _ => rfl)
    fun _ _ _ _ ht hG hs => ht.step hG hs
  exact haccounted.accounted

end Store
end Individuality.Subscriber

namespace Individuality.Replication
open Support

/-- The first page of a collection of three rings leaves one missing. -/
theorem rings_accounted_three : ∃ w : Subscriber.Store Subscriber.sampleConfig × List (Members.Identifier × Nat),
    ((w.1.collectionState (Notifier.sampleId 0)).missingIndices.get 2 = some 0) ∧ w.1.RingsAccounted w.2 := by
  obtain ⟨s, hs⟩ : ∃ s, (Subscriber.Store.genesis Subscriber.sampleConfig).execAction
    (Subscriber.sampleEnv, sampleInit 3 ⟨[0, 1], by decide⟩) = .ok s := ⟨_, rfl⟩
  have hmissing : ((Subscriber.Store.genesis Subscriber.sampleConfig).execAction
      (Subscriber.sampleEnv, sampleInit 3 ⟨[0, 1], by decide⟩)).toOption.map (fun s =>
        (s.collectionState (Notifier.sampleId 0)).missingIndices.get 2) = some (some 0) := by decide
  rw [hs] at hmissing
  have haccounts : (Subscriber.Store.genesis Subscriber.sampleConfig).AccountsFor
      (Subscriber.sampleEnv, sampleInit 3 ⟨[0, 1], by decide⟩) := by
    refine ⟨nofun, ⟨by decide, by decide⟩, ⟨nofun, nofun, trivial⟩, .inr ⟨by decide, by decide⟩⟩
  have hnoting : noting Subscriber.Store.execAction Subscriber.Store.noteGivenUp
      (Subscriber.Store.genesis Subscriber.sampleConfig, []) (Subscriber.sampleEnv, sampleInit 3 ⟨[0, 1], by decide⟩) =
        .ok (s, []) := by
    unfold noting
    rw [hs]
    rfl
  exact ⟨(s, []), Option.some.inj hmissing, Subscriber.Store.rings_accounted ((Reaches.refl _).tail
    (i := (Subscriber.sampleEnv, sampleInit 3 ⟨[0, 1], by decide⟩)) haccounts hnoting)⟩

/-- The first two pages of a collection of seven rings. -/
theorem sampleInit_seven : FromNotifier Notifier.sampleConfig (sampleInit 7 ⟨[0, 1], by decide⟩) ∧
    FromNotifier Notifier.sampleConfig (sampleInit 7 ⟨[2, 3], by decide⟩) := by
  constructor
  · exact sampleInit_of_produced 1 (Notifier.produced_of_calls
      [(sampleChain 7, .subscribe 1 Notifier.sampleCollections 0)] (sampleChain 7, .sendInitPage 1 0 none)
      (by decide +kernel))
  · exact sampleInit_of_produced 1 (Notifier.produced_of_calls
      [(sampleChain 7, .subscribe 1 Notifier.sampleCollections 0), (sampleChain 7, .sendInitPage 1 0 none)]
      (sampleChain 7, .sendInitPage 1 0 (some 1)) (by decide +kernel))

/-- The subscriber takes them in, one after the other. -/
def samplePages : List (Subscriber.Action Subscriber.sampleConfig) :=
  [(Subscriber.sampleEnv, sampleInit 7 ⟨[0, 1], by decide⟩), (Subscriber.sampleEnv, sampleInit 7 ⟨[2, 3], by decide⟩)]

/-- With room for four missing rings, the scan of the first page stops at the last ring of seven; after the second page
there is room again, and the last ring is not known. -/
theorem rings_accounted_fails : ∃ w : Subscriber.Store Subscriber.sampleConfig × List (Members.Identifier × Nat),
    Reaches (noting Subscriber.Store.execAction Subscriber.Store.noteGivenUp)
      (fun w a => Delivers Notifier.sampleConfig w.1 a) (Subscriber.Store.genesis Subscriber.sampleConfig, []) w ∧
    ¬ w.1.RingsAccounted w.2 := by
  obtain ⟨w, hw⟩ : ∃ w, samplePages.foldlM (noting Subscriber.Store.execAction Subscriber.Store.noteGivenUp)
    (Subscriber.Store.genesis Subscriber.sampleConfig, []) = .ok w := ⟨_, rfl⟩
  have hfacts : (samplePages.foldlM (noting Subscriber.Store.execAction Subscriber.Store.noteGivenUp)
      (Subscriber.Store.genesis Subscriber.sampleConfig, [])).toOption.all (fun w =>
        let state := w.1.collectionState (Notifier.sampleId 0)
        decide (state.missingIndices.length < 4 ∧ state.deletedIndices.length < 4 ∧ 6 < state.nextRingIndex ∧
          w.1.stored (Notifier.sampleId 0) 6 = false ∧ state.deletedIndices.get 6 = none ∧
            state.missingIndices.get 6 = none ∧ w.2 = [])) = true := by decide +kernel
  rw [hw] at hfacts
  obtain ⟨hmissing, hdeleted, hlt, hs, hd, hm, hg⟩ := of_decide_eq_true hfacts
  refine ⟨w, ?_, fun h => ?_⟩
  · refine Reaches.of_foldlM hw fun t a ha _ => ?_
    obtain ⟨hfirst, hsecond⟩ := sampleInit_seven
    rcases List.mem_cons.mp ha with rfl | ha
    · exact hfirst
    · rw [List.mem_singleton.mp ha]
      exact hsecond
  · rcases h.known _ hmissing hdeleted 6 hlt with hs' | hd' | hm' | hg'
    · rw [hs] at hs'
      cases hs'
    · rw [hd] at hd'
      cases hd'
    · rw [hm] at hm'
      cases hm'
    · rw [hg] at hg'
      cases hg'

end Individuality.Replication
