import Individuality.Subscriber.Updates
import Mathlib.Data.List.Perm.Subperm

/-! Which rings of a collection the subscriber knows of.

The count of the rings, and what is stored, deleted and missing, agree with one another (`Tally`) as long as a batch names
only rings below the next ring index and a clear leaves nothing behind. Every ring below that index is known
(`Knows`) as long as each deleted ring is noted and no scan ends before it is through. -/
namespace Individuality.Subscriber
open Support Replication
open Members (Identifier RingExponent)
variable {R : Type} {T : Config R}

namespace Store
variable {s s' : Store T} {batch : Batch T} {id : Identifier}

/-! ### Counting -/

/-- The number of stored windows of a collection. -/
def storedCount (s : Store T) (id : Identifier) : Nat := s.ringRoots.countOf fun k _ => decide (k.1 = id)

/-- The rings of a collection that are stored. -/
def storedRings (s : Store T) (id : Identifier) : List Nat :=
  (s.ringRoots.keys.filter fun k => decide (k.1 = id)).map Prod.snd

theorem length_storedRings (s : Store T) (id : Identifier) : (s.storedRings id).length = s.storedCount id := by
  rw [storedRings, List.length_map]
  exact s.ringRoots.length_filter_keys fun k => decide (k.1 = id)

theorem mem_storedRings {r : Nat} : r ∈ s.storedRings id ↔ s.stored id r = true := by
  rw [storedRings, List.mem_map, stored, StorageMap.contains]
  constructor
  · rintro ⟨⟨id', r'⟩, hmem, rfl⟩
    obtain ⟨hkey, hid⟩ := List.mem_filter.mp hmem
    obtain rfl : id' = id := of_decide_eq_true hid
    exact (s.ringRoots.mem_keys _).mp hkey
  · intro hstored
    exact ⟨(id, r), List.mem_filter.mpr ⟨(s.ringRoots.mem_keys _).mpr hstored, decide_eq_true rfl⟩, rfl⟩

theorem nodup_storedRings (s : Store T) (id : Identifier) : (s.storedRings id).Nodup := by
  refine (List.nodup_map_iff_inj_on (s.ringRoots.nodup_keys.filter _)).mpr fun a ha b hb heq => ?_
  have hid : a.1 = b.1 :=
    (of_decide_eq_true (List.mem_filter.mp ha).2).trans (of_decide_eq_true (List.mem_filter.mp hb).2).symm
  exact Prod.ext hid heq

/-- Numbers without repetition below a bound are no more than it, and all of them when they are as many. -/
theorem nodup_below {l : List Nat} {n : Nat} (hnodup : l.Nodup) (hbelow : ∀ r ∈ l, r < n) :
    l.length ≤ n ∧ (n ≤ l.length → ∀ r, r < n → r ∈ l) := by
  have hsub : l.Subperm (List.range n) := List.subperm_of_subset hnodup fun r hr => List.mem_range.mpr (hbelow r hr)
  have hle := hsub.length_le
  rw [List.length_range] at hle
  refine ⟨hle, fun hge r hr => ?_⟩
  have hperm := hsub.perm_of_length_le (by rwa [List.length_range])
  exact hperm.mem_iff.mpr (List.mem_range.mpr hr)

/-! ### The sets of a collection -/

/-- The sets of a collection are disjoint and below the next ring index, and the stored rings are counted. -/
structure Tally (s : Store T) (id : Identifier) : Prop where
  count : (s.collectionState id).ringCount = s.storedCount id
  nonempty : ∀ r roots, s.ringRoots.get (id, r) = some roots → roots.toList ≠ []
  next_le : (s.collectionState id).nextRingIndex ≤ U32.max
  stored_lt : ∀ r, s.stored id r = true → r < (s.collectionState id).nextRingIndex
  deleted_lt : ∀ r, ((s.collectionState id).deletedIndices.get r).isSome = true →
    r < (s.collectionState id).nextRingIndex ∧ s.stored id r = false
  missing_lt : ∀ r, ((s.collectionState id).missingIndices.get r).isSome = true →
    r < (s.collectionState id).nextRingIndex ∧ s.stored id r = false ∧ (s.collectionState id).deletedIndices.get r = none

namespace Tally

/-- A ring that is not stored leaves a gap in the count. -/
theorem storedCount_lt (h : Tally s id) {r : Nat} (hr : r < (s.collectionState id).nextRingIndex)
    (hnew : s.stored id r = false) : s.storedCount id < (s.collectionState id).nextRingIndex := by
  have hnot : r ∉ s.storedRings id := fun hmem => by
    rw [mem_storedRings, hnew] at hmem
    cases hmem
  have hle := (nodup_below (List.nodup_cons.mpr ⟨hnot, s.nodup_storedRings id⟩) (n :=
    (s.collectionState id).nextRingIndex) (List.forall_mem_cons.mpr ⟨hr, fun q hq =>
      h.stored_lt q (mem_storedRings.mp hq)⟩)).1
  rw [List.length_cons, length_storedRings] at hle
  exact hle

/-- The stored and the deleted rings are no more than there are, and all of them when they are as many. -/
theorem accountedFor (h : Tally s id) :
    U32.saturatingAdd (s.collectionState id).ringCount (s.collectionState id).deletedIndices.length =
        (s.collectionState id).ringCount + (s.collectionState id).deletedIndices.length ∧
      ((s.collectionState id).nextRingIndex ≤
          (s.collectionState id).ringCount + (s.collectionState id).deletedIndices.length →
        ∀ r, r < (s.collectionState id).nextRingIndex →
          s.stored id r = true ∨ ((s.collectionState id).deletedIndices.get r).isSome = true) := by
  have hdeleted : (s.collectionState id).deletedIndices.length =
      (s.collectionState id).deletedIndices.toMap.keys.length := by
    have hlength := (s.collectionState id).deletedIndices.toMap.length_filter_keys fun _ => true
    rw [List.filter_true] at hlength
    exact hlength.symm
  have hmem : ∀ r, r ∈ (s.collectionState id).deletedIndices.toMap.keys ↔
      ((s.collectionState id).deletedIndices.get r).isSome = true := StorageMap.mem_keys _
  obtain ⟨hle, hall⟩ := nodup_below (l := s.storedRings id ++ (s.collectionState id).deletedIndices.toMap.keys)
    (n := (s.collectionState id).nextRingIndex)
    (List.nodup_append.mpr ⟨s.nodup_storedRings id, StorageMap.nodup_keys _, fun a ha b hb heq => by
      have hnot := (h.deleted_lt b ((hmem b).mp hb)).2
      rw [← heq, mem_storedRings.mp ha] at hnot
      cases hnot⟩)
    (fun r hr => (List.mem_append.mp hr).elim (fun hs => h.stored_lt r (mem_storedRings.mp hs))
      fun hd => (h.deleted_lt r ((hmem r).mp hd)).1)
  rw [List.length_append, length_storedRings, ← h.count, ← hdeleted] at hle hall
  refine ⟨U32.saturatingAdd_eq (hle.trans h.next_le), fun hge r hr => ?_⟩
  exact (List.mem_append.mp (hall hge r hr)).imp mem_storedRings.mp (hmem r).mp

/-- What leaves the roots and the state of a collection alone keeps its sets in order. -/
theorem of_same (h : Tally s id) (hroots : ∀ r, s'.ringRoots.get (id, r) = s.ringRoots.get (id, r))
    (hcount : (s'.collectionState id).ringCount = (s.collectionState id).ringCount)
    (hnext : (s'.collectionState id).nextRingIndex = (s.collectionState id).nextRingIndex)
    (hdeleted : (s'.collectionState id).deletedIndices = (s.collectionState id).deletedIndices)
    (hmissing : ∀ r, ((s'.collectionState id).missingIndices.get r).isSome = true →
      ((s.collectionState id).missingIndices.get r).isSome = true ∨ r < (s.collectionState id).nextRingIndex ∧
        s.stored id r = false ∧ (s.collectionState id).deletedIndices.get r = none) : Tally s' id := by
  have hstored : ∀ r, s'.stored id r = s.stored id r := fun r => by
    unfold stored StorageMap.contains
    rw [hroots]
  have hstoredCount : s'.storedCount id = s.storedCount id := by
    refine StorageMap.countOf_eq_of_get fun k v hk => ?_
    obtain ⟨id', r⟩ := k
    obtain rfl : id' = id := of_decide_eq_true hk
    rw [hroots]
  refine ⟨?_, fun r roots hget => ?_, ?_, fun r hr => ?_, fun r hr => ?_, fun r hr => ?_⟩
  · rw [hcount, hstoredCount]
    exact h.count
  · rw [hroots] at hget
    exact h.nonempty r roots hget
  · rw [hnext]
    exact h.next_le
  · rw [hnext]
    rw [hstored] at hr
    exact h.stored_lt r hr
  · rw [hnext, hstored]
    rw [hdeleted] at hr
    exact h.deleted_lt r hr
  · rw [hnext, hstored, hdeleted]
    exact (hmissing r hr).elim (h.missing_lt r) fun hnew => hnew

/-! ### One update -/

/-- An update of a ring below the next ring index keeps the sets of every collection in order. -/
theorem storeUpdate (h : Tally s id) {update : RingRootUpdate R}
    (hlt : id = batch.identifier → update.ringIndex < (s.collectionState id).nextRingIndex) :
    Tally (storeUpdate batch s update) id := by
  have hroots := s.ringRoots_storeUpdate batch update
  have hstate := s.collectionState_storeUpdate batch update id
  by_cases hid : id = batch.identifier
  swap
  · -- Another collection.
    rw [if_neg hid] at hstate
    refine h.of_same (fun r => ?_) (by rw [hstate]) (by rw [hstate]) (by rw [hstate]) fun r hr => ?_
    · rw [hroots, if_neg fun heq => hid (congrArg Prod.fst heq)]
    · rw [hstate] at hr
      exact .inl hr
  subst hid
  rw [if_pos rfl] at hstate
  have hlt := hlt rfl
  have hother : ∀ r, r ≠ update.ringIndex → (Store.storeUpdate batch s update).ringRoots.get (batch.identifier, r) =
      s.ringRoots.get (batch.identifier, r) := fun r hr => by
    rw [hroots, if_neg fun heq => hr (congrArg Prod.snd heq)]
  have hown := hroots (batch.identifier, update.ringIndex)
  rw [if_pos rfl] at hown
  have hstoredOther : ∀ r, r ≠ update.ringIndex → (Store.storeUpdate batch s update).stored batch.identifier r =
      s.stored batch.identifier r := fun r hr => by
    unfold stored StorageMap.contains
    rw [hother r hr]
  -- The windows after the update.
  have hcount : (Store.storeUpdate batch s update).storedCount batch.identifier +
      (if s.stored batch.identifier update.ringIndex = true then 1 else 0) = s.storedCount batch.identifier +
        (if (Store.storeUpdate batch s update).stored batch.identifier update.ringIndex = true then 1 else 0) := by
    have hrest : ((Store.storeUpdate batch s update).ringRoots.remove (batch.identifier, update.ringIndex)).countOf
        (fun k _ => decide (k.1 = batch.identifier)) =
        (s.ringRoots.remove (batch.identifier, update.ringIndex)).countOf fun k _ => decide (k.1 = batch.identifier) := by
      refine StorageMap.countOf_eq_of_get fun k v _ => ?_
      rw [StorageMap.get_remove, StorageMap.get_remove, hroots]
      by_cases hk : k = (batch.identifier, update.ringIndex)
      · rw [if_pos hk, if_pos hk]
      · rw [if_neg hk, if_neg hk, if_neg hk]
    have hbefore := s.ringRoots.countOf_remove (fun k _ => decide (k.1 = batch.identifier))
      (batch.identifier, update.ringIndex)
    have hafter := (Store.storeUpdate batch s update).ringRoots.countOf_remove
      (fun k _ => decide (k.1 = batch.identifier)) (batch.identifier, update.ringIndex)
    have hat : ∀ t : Store T, t.ringRoots.countAt (fun k _ => decide (k.1 = batch.identifier))
        (batch.identifier, update.ringIndex) = if t.stored batch.identifier update.ringIndex = true then 1 else 0 := by
      intro t
      unfold StorageMap.countAt stored StorageMap.contains
      cases t.ringRoots.get (batch.identifier, update.ringIndex) with
      | none => rfl
      | some roots => simp
    rw [hat] at hbefore hafter
    unfold storedCount
    omega
  have hdeletedOther : ∀ r, r ≠ update.ringIndex →
      (noteOp (s.collectionState batch.identifier).deletedIndices update).get r =
        (s.collectionState batch.identifier).deletedIndices.get r := fun r hr => get_noteOp_of_ne hr
  refine ⟨?_, fun r roots hget => ?_, ?_, fun r hr => ?_, fun r hr => ?_, fun r hr => ?_⟩
  · rw [hstate]
    have hroom := h.storedCount_lt hlt
    have hmax := h.next_le
    have hold := h.count
    unfold ringCountAfter
    cases hop : update.op with
    | built revision root =>
      rw [hop] at hown
      have hnow : (Store.storeUpdate batch s update).stored batch.identifier update.ringIndex = true := by
        rw [stored, StorageMap.contains, hown]
        rfl
      rw [hnow, if_pos rfl] at hcount
      cases hget : s.ringRoots.get (batch.identifier, update.ringIndex) with
      | none =>
        have hnew : s.stored batch.identifier update.ringIndex = false := by
          rw [stored, StorageMap.contains, hget]
          rfl
        have hlt' := hroom hnew
        rw [hnew, if_neg Bool.false_ne_true] at hcount
        simp only [window, hget, Option.getD_none, BoundedVec.toList_default, if_true]
        rw [U32.saturatingAdd_eq (by omega)]
        omega
      | some roots =>
        have hthere : s.stored batch.identifier update.ringIndex = true := by
          rw [stored, StorageMap.contains, hget]
          rfl
        rw [hthere, if_pos rfl] at hcount
        simp only [window, hget, Option.getD_some, if_neg (h.nonempty _ _ hget)]
        omega
    | deleted =>
      rw [hop] at hown
      have hnow : (Store.storeUpdate batch s update).stored batch.identifier update.ringIndex = false := by
        rw [stored, StorageMap.contains, hown]
        rfl
      rw [hnow, if_neg Bool.false_ne_true] at hcount
      cases hthere : s.stored batch.identifier update.ringIndex with
      | true =>
        rw [hthere, if_pos rfl] at hcount
        simp only [if_true]
        omega
      | false =>
        rw [hthere, if_neg Bool.false_ne_true] at hcount
        simp only [Bool.false_eq_true, if_false]
        omega
  · by_cases hr : r = update.ringIndex
    · subst hr
      rw [hown] at hget
      cases hop : update.op with
      | built revision root =>
        rw [hop] at hget
        cases hget
        exact Window.push_ne_nil _ _
      | deleted =>
        rw [hop] at hget
        cases hget
    · rw [hother r hr] at hget
      exact h.nonempty r roots hget
  · rw [hstate]
    exact h.next_le
  · rw [hstate]
    by_cases hru : r = update.ringIndex
    · rw [hru]
      exact hlt
    · rw [hstoredOther r hru] at hr
      exact h.stored_lt r hr
  · rw [hstate] at hr ⊢
    by_cases hru : r = update.ringIndex
    · subst hru
      refine ⟨hlt, ?_⟩
      cases hop : update.op with
      | built revision root =>
        rw [noteOp, hop] at hr
        have hnone : ((s.collectionState batch.identifier).deletedIndices.remove update.ringIndex).get
          update.ringIndex = none := (BoundedMap.get_remove _ _ _).trans (if_pos rfl)
        exact absurd hr (by rw [hnone]; exact Bool.false_ne_true)
      | deleted =>
        rw [stored, StorageMap.contains, hown, hop]
        rfl
    · rw [hstoredOther r hru]
      rw [hdeletedOther r hru] at hr
      exact h.deleted_lt r hr
  · rw [hstate] at hr ⊢
    simp only [BoundedMap.get_remove] at hr
    split at hr
    · cases hr
    · next hru =>
      rw [hstoredOther r hru, hdeletedOther r hru]
      exact h.missing_lt r hr

/-! ### A batch -/

theorem raiseNextRingIndex (h : Tally s id) (hnext : batch.nextRingIndex ≤ U32.max) :
    Tally (s.raiseNextRingIndex batch) id := by
  have hstate := collectionState_of_insert s (s.raiseNextRingIndex batch) rfl id
  by_cases hid : id = batch.identifier
  · subst hid
    rw [if_pos rfl] at hstate
    have hle : (s.collectionState batch.identifier).nextRingIndex ≤
        ((s.raiseNextRingIndex batch).collectionState batch.identifier).nextRingIndex := by
      rw [hstate]
      exact Nat.le_max_left _ _
    refine ⟨?_, h.nonempty, ?_, fun r hr => (h.stored_lt r hr).trans_le hle, fun r hr => ?_, fun r hr => ?_⟩
    · rw [hstate]
      exact h.count
    · rw [hstate]
      exact Nat.max_le.mpr ⟨h.next_le, hnext⟩
    · rw [hstate] at hr
      exact ⟨(h.deleted_lt r hr).1.trans_le hle, (h.deleted_lt r hr).2⟩
    · rw [hstate] at hr
      refine ⟨(h.missing_lt r hr).1.trans_le hle, (h.missing_lt r hr).2.1, ?_⟩
      rw [hstate]
      exact (h.missing_lt r hr).2.2
  · rw [if_neg hid] at hstate
    exact h.of_same (fun _ => rfl) (by rw [hstate]) (by rw [hstate]) (by rw [hstate])
      fun r hr => .inl (by rwa [hstate] at hr)

/-- A scan notes rings that are neither stored nor deleted. -/
theorem detect (h : Tally s id) (identifier : Identifier) (old : Nat) :
    Tally (s.detectMissingRingsInBatch identifier old) id := by
  have hdetect := s.collectionState_detect identifier old id
  have hroots : (s.detectMissingRingsInBatch identifier old).ringRoots = s.ringRoots := by rw [detectMissing_eq]
  by_cases hid : id = identifier
  swap
  · rw [if_neg hid] at hdetect
    exact h.of_same (fun r => by rw [hroots]) (by rw [hdetect]) (by rw [hdetect]) (by rw [hdetect])
      fun r hr => .inl (by rwa [hdetect] at hr)
  subst hid
  rw [if_pos rfl] at hdetect
  refine h.of_same (fun r => by rw [hroots]) (by rw [hdetect]) (by rw [hdetect]) (by rw [hdetect]) fun r hr => ?_
  rw [hdetect] at hr
  simp only [missingAfter] at hr
  split at hr
  · cases hr
  · split at hr
    · exact .inl hr
    · by_cases hknown : s.stored id r = true ∨ (s.collectionState id).deletedIndices.contains r = true
      · rw [noteMissing_of_known hknown] at hr
        exact .inl hr
      · rw [not_or, Bool.not_eq_true, Bool.not_eq_true] at hknown
        obtain ⟨attempts, hget⟩ := Option.isSome_iff_exists.mp hr
        rcases s.noteMissing_spec id _ _ _ hget with hold | ⟨-, hmem⟩
        · exact .inl (by rw [hold]; rfl)
        · rw [List.mem_range'_1] at hmem
          exact .inr ⟨by omega, hknown.1, StorageMap.contains_eq_false.mp hknown.2⟩

end Tally

/-- A batch names only rings below the next ring index, its own or the one known; and that is a `u32`. -/
def NamesKnown (s : Store T) (batch : Batch T) : Prop :=
  batch.nextRingIndex ≤ U32.max ∧
    ∀ r ∈ ringIndices batch, r < max (s.collectionState batch.identifier).nextRingIndex batch.nextRingIndex

theorem Tally.foldl_storeUpdate (h : ∀ id, Tally s id) {updates : List (RingRootUpdate R)}
    (hlt : ∀ update ∈ updates, update.ringIndex < (s.collectionState batch.identifier).nextRingIndex) (id : Identifier) :
    Tally (updates.foldl (Store.storeUpdate batch) s) id := by
  induction updates generalizing s with
  | nil => exact h id
  | cons update rest ih =>
    rw [List.foldl_cons]
    refine ih (fun id' => (h id').storeUpdate fun heq => ?_) fun u hu => ?_
    · rw [heq]
      exact hlt update List.mem_cons_self
    · rw [collectionState_storeUpdate, if_pos rfl]
      exact hlt u (List.mem_cons_of_mem _ hu)

theorem Tally.storeRingRoots (h : ∀ id, Tally s id) (hnames : s.NamesKnown batch) (id : Identifier) :
    Tally (s.storeRingRoots batch) id := by
  refine Tally.foldl_storeUpdate (fun id' => (h id').raiseNextRingIndex hnames.1) (fun update hu => ?_) id
  rw [collectionState_of_insert s (s.raiseNextRingIndex batch) rfl, if_pos rfl]
  exact hnames.2 _ (List.mem_map_of_mem hu)

theorem Tally.applyBatch (h : ∀ id, Tally s id) (hnames : s.NamesKnown batch) (now : Nat) (id : Identifier) :
    Tally (s.applyBatch now batch) id := by
  obtain ⟨hcount, hnonempty, hnext, hstored, hdeleted, hmissing⟩ := (Tally.storeRingRoots h hnames id).detect
    batch.identifier (s.collectionState batch.identifier).nextRingIndex
  exact ⟨hcount, hnonempty, hnext, hstored, hdeleted, hmissing⟩

/-! ### What is known of a ring -/

/-- A ring is stored, deleted, missing, or one of those given up. -/
def Knows (s : Store T) (givenUp : List (Identifier × Nat)) (id : Identifier) (r : Nat) : Prop :=
  s.stored id r = true ∨ ((s.collectionState id).deletedIndices.get r).isSome = true ∨
    ((s.collectionState id).missingIndices.get r).isSome = true ∨ (id, r) ∈ givenUp

/-- Each deleted ring is noted already, or finds room, when its turn comes. -/
def FindsRoom (deleted : BoundedMap Nat Unit T.maxDeletedRingsPerCollection) : List (RingRootUpdate R) → Prop
  | [] => True
  | update :: rest => (update.op = .deleted →
      (deleted.get update.ringIndex).isSome = true ∨ deleted.length < T.maxDeletedRingsPerCollection) ∧
        FindsRoom (noteOp deleted update) rest

section Knows
variable {givenUp : List (Identifier × Nat)} {r : Nat}

theorem knows_updated {update : RingRootUpdate R} (hroom : update.op = .deleted →
      ((s.collectionState batch.identifier).deletedIndices.get update.ringIndex).isSome = true ∨
        (s.collectionState batch.identifier).deletedIndices.length < T.maxDeletedRingsPerCollection) :
    Knows (storeUpdate batch s update) givenUp batch.identifier update.ringIndex := by
  cases hop : update.op with
  | built revision root =>
    left
    rw [stored, StorageMap.contains, ringRoots_storeUpdate, if_pos rfl, hop]
    rfl
  | deleted =>
    right
    left
    rw [collectionState_storeUpdate, if_pos rfl, noteOp, hop]
    exact congrArg Option.isSome ((BoundedMap.get_set_iff _ _ _ _).trans (if_pos ⟨rfl, hroom hop⟩))

theorem Knows.storeUpdate (h : Knows s givenUp batch.identifier r) {update : RingRootUpdate R}
    (hroom : update.op = .deleted →
      ((s.collectionState batch.identifier).deletedIndices.get update.ringIndex).isSome = true ∨
        (s.collectionState batch.identifier).deletedIndices.length < T.maxDeletedRingsPerCollection) :
    Knows (storeUpdate batch s update) givenUp batch.identifier r := by
  by_cases hr : r = update.ringIndex
  · rw [hr]
    exact knows_updated hroom
  · unfold Knows
    rw [stored, StorageMap.contains, ringRoots_storeUpdate, if_neg fun heq => hr (congrArg Prod.snd heq),
      collectionState_storeUpdate, if_pos rfl]
    rw [get_noteOp_of_ne hr, BoundedMap.get_remove, if_neg hr]
    exact h

/-- After the updates of a batch, what was known still is, and so are the rings of the batch. -/
theorem knows_foldl {updates : List (RingRootUpdate R)}
    (hroom : FindsRoom (s.collectionState batch.identifier).deletedIndices updates)
    (h : Knows s givenUp batch.identifier r ∨ r ∈ updates.map RingRootUpdate.ringIndex) :
    Knows (updates.foldl (Store.storeUpdate batch) s) givenUp batch.identifier r := by
  induction updates generalizing s with
  | nil => exact h.resolve_right List.not_mem_nil
  | cons update rest ih =>
    obtain ⟨hfirst, hrest⟩ := hroom
    rw [List.foldl_cons]
    refine ih ?_ ?_
    · rw [collectionState_storeUpdate, if_pos rfl]
      exact hrest
    · rcases h with hknown | hmem
      · exact .inl (hknown.storeUpdate hfirst)
      · rcases List.mem_cons.mp hmem with rfl | hmem
        · exact .inl (knows_updated hfirst)
        · exact .inr hmem

/-- A scan forgets nothing that is missing. -/
theorem isSome_noteMissing {deleted : BoundedMap Nat Unit T.maxDeletedRingsPerCollection} {range : List Nat}
    {missing : BoundedMap Nat Nat T.maxMissingRootsPerCollection} (h : (missing.get r).isSome = true) :
    ((s.noteMissing id deleted range missing).get r).isSome = true := by
  induction range generalizing missing with
  | nil => exact h
  | cons index rest ih =>
    unfold noteMissing
    split
    · exact ih h
    · split
      · exact h
      · next missing' hins =>
        refine ih ?_
        rw [BoundedMap.get_tryInsert hins]
        split
        · rfl
        · exact h

/-- A scan with room for the rings of its range that are not known gets through. -/
theorem noteMissing_covers {deleted : BoundedMap Nat Unit T.maxDeletedRingsPerCollection} {range : List Nat}
    {missing : BoundedMap Nat Nat T.maxMissingRootsPerCollection} (p : Nat → Bool)
    (hknown : ∀ r ∈ range, p r = false → s.stored id r = true ∨ deleted.contains r = true)
    (hroom : missing.length + (range.filter p).length ≤ T.maxMissingRootsPerCollection) (hr : r ∈ range) :
    s.stored id r = true ∨ deleted.contains r = true ∨
      ((s.noteMissing id deleted range missing).get r).isSome = true := by
  induction range generalizing missing with
  | nil => cases hr
  | cons index rest ih =>
    have hrest := fun q hq => hknown q (List.mem_cons_of_mem index hq)
    have hle : (rest.filter p).length ≤ ((index :: rest).filter p).length :=
      ((List.sublist_cons_self index rest).filter p).length_le
    unfold noteMissing
    split
    · next hskip =>
      rcases List.mem_cons.mp hr with rfl | hr
      · rw [Bool.or_eq_true, Bool.or_eq_true] at hskip
        rcases hskip with (hs | hm) | hd
        · exact .inl hs
        · exact .inr (.inr (isSome_noteMissing hm))
        · exact .inr (.inl hd)
      · exact ih hrest (by omega) hr
    · next hnew =>
      -- This ring is not known, and there is room for it.
      rw [Bool.or_eq_true, Bool.or_eq_true, not_or, not_or] at hnew
      have hp : p index = true := by
        by_contra hp
        rcases hknown index List.mem_cons_self (Bool.eq_false_iff.mpr hp) with hs | hd
        · exact hnew.1.1 hs
        · exact hnew.2 hd
      rw [List.filter_cons_of_pos hp, List.length_cons] at hroom
      split
      · next hfull =>
        have hlength := (BoundedMap.tryInsert_eq_none hfull).2
        omega
      · next missing' hins =>
        rcases List.mem_cons.mp hr with rfl | hr
        · refine .inr (.inr (isSome_noteMissing ?_))
          rw [BoundedMap.get_tryInsert hins, if_pos rfl]
          rfl
        · have hlength : missing'.length ≤ missing.length + 1 := by
            rw [BoundedMap.length, BoundedMap.tryInsert_eq_some hins]
            exact StorageMap.size_insert_le _ _ _
          exact ih hrest (by omega) hr

/-- The rings that a batch makes known without naming them. -/
def gaps (s : Store T) (batch : Batch T) : List Nat :=
  (List.range' (s.collectionState batch.identifier).nextRingIndex
    (batch.nextRingIndex - (s.collectionState batch.identifier).nextRingIndex)).filter fun r => decide (r ∉ ringIndices batch)

/-- Every ring that a batch makes known without naming it is noted as missing: there are none, or there is room for all
of them and for another deleted ring. -/
def ScansAll (s : Store T) (batch : Batch T) : Prop :=
  s.gaps batch = [] ∨
    (batch.updates.toList.foldl noteOp (s.collectionState batch.identifier).deletedIndices).length <
        T.maxDeletedRingsPerCollection ∧
      (batch.updates.toList.foldl (fun missing update => missing.remove update.ringIndex)
        (s.collectionState batch.identifier).missingIndices).length + (s.gaps batch).length ≤
          T.maxMissingRootsPerCollection

/-- After a batch every ring below the next ring index is known. -/
theorem knows_applyBatch (h : ∀ id r, r < (s.collectionState id).nextRingIndex → Knows s givenUp id r)
    (htally : ∀ id, Tally s id) (hnames : s.NamesKnown batch)
    (hroom : FindsRoom (s.collectionState batch.identifier).deletedIndices batch.updates.toList)
    (hscans : s.ScansAll batch) (now : Nat) (id : Identifier) (r : Nat)
    (hr : r < ((s.applyBatch now batch).collectionState id).nextRingIndex) :
    Knows (s.applyBatch now batch) givenUp id r := by
  have happly := s.collectionState_applyBatch batch now id
  by_cases hid : id = batch.identifier
  swap
  · rw [if_neg hid] at happly
    rw [happly] at hr
    unfold Knows
    rw [happly, stored, ringRoots_applyBatch, StorageMap.contains, ringRoots_storeRingRoots_of_notMem (.inl hid)]
    exact h id r hr
  subst hid
  rw [if_pos rfl] at happly
  have hstate := collectionState_storeRingRoots s batch
  have hnext : ((s.storeRingRoots batch).collectionState batch.identifier).nextRingIndex =
      max (s.collectionState batch.identifier).nextRingIndex batch.nextRingIndex :=
    congrArg RingCollectionState.nextRingIndex hstate
  have hdeleted : ((s.storeRingRoots batch).collectionState batch.identifier).deletedIndices =
      batch.updates.toList.foldl noteOp (s.collectionState batch.identifier).deletedIndices :=
    congrArg RingCollectionState.deletedIndices hstate
  have hmissing : ((s.storeRingRoots batch).collectionState batch.identifier).missingIndices =
      batch.updates.toList.foldl (fun missing update => missing.remove update.ringIndex)
        (s.collectionState batch.identifier).missingIndices := congrArg RingCollectionState.missingIndices hstate
  have hstored : ∀ q, (s.applyBatch now batch).stored batch.identifier q =
      (s.storeRingRoots batch).stored batch.identifier q := fun q => by
    unfold stored
    rw [ringRoots_applyBatch]
  have htally' := (Tally.storeRingRoots htally hnames batch.identifier).accountedFor
  -- What the updates know of.
  have hraise := collectionState_of_insert s (s.raiseNextRingIndex batch) rfl batch.identifier
  rw [if_pos rfl] at hraise
  have hnamed : ∀ q ∈ ringIndices batch, Knows (s.storeRingRoots batch) [] batch.identifier q :=
    fun q hq => knows_foldl (by rw [hraise]; exact hroom) (.inr hq)
  have hupdates : ∀ q, q < (s.collectionState batch.identifier).nextRingIndex ∨ q ∈ ringIndices batch →
      Knows (s.storeRingRoots batch) givenUp batch.identifier q := by
    intro q hq
    refine knows_foldl (by rw [hraise]; exact hroom) (hq.imp_left fun hlt => ?_)
    have hknown := h batch.identifier q hlt
    unfold Knows at hknown ⊢
    rw [hraise]
    exact hknown
  rw [happly] at hr
  change r < ((s.storeRingRoots batch).collectionState batch.identifier).nextRingIndex at hr
  -- A ring of the new range that the batch does not name is a gap.
  have hgap : ¬ r < (s.collectionState batch.identifier).nextRingIndex → r ∉ ringIndices batch → r ∈ s.gaps batch := by
    intro hnew hnot
    rw [hnext] at hr
    rw [gaps, List.mem_filter, List.mem_range'_1]
    exact ⟨by omega, decide_eq_true hnot⟩
  unfold Knows
  rw [happly, hstored]
  simp only [missingAfter, htally'.1]
  split
  · next haccounted =>
    exact (htally'.2 haccounted r hr).imp_right Or.inl
  · next hmore =>
    split
    · next hfull =>
      -- No scan: the new range holds nothing but what the batch names.
      refine hupdates r ?_
      by_contra hnew
      rw [not_or] at hnew
      have hmem := hgap hnew.1 hnew.2
      rcases hscans with hnil | ⟨hlt, -⟩
      · rw [hnil] at hmem
        cases hmem
      · rw [hdeleted] at hfull
        omega
    · next hlt =>
      by_cases hold : r < (s.collectionState batch.identifier).nextRingIndex ∨ r ∈ ringIndices batch
      · rcases hupdates r hold with hs | hd | hm | hg
        · exact .inl hs
        · exact .inr (.inl hd)
        · exact .inr (.inr (.inl (isSome_noteMissing hm)))
        · exact .inr (.inr (.inr hg))
      · rw [not_or] at hold
        have hmem := hgap hold.1 hold.2
        have hfits := (hscans.resolve_left fun hnil => by rw [hnil] at hmem; cases hmem).2
        have hrange : List.range' (s.collectionState batch.identifier).nextRingIndex
            (((s.storeRingRoots batch).collectionState batch.identifier).nextRingIndex -
              (s.collectionState batch.identifier).nextRingIndex) =
            List.range' (s.collectionState batch.identifier).nextRingIndex
              (batch.nextRingIndex - (s.collectionState batch.identifier).nextRingIndex) := by
          rw [hnext]
          congr 1
          omega
        rw [hrange]
        refine (noteMissing_covers (fun q => decide (q ∉ ringIndices batch)) (fun q _ hin => ?_) ?_
          (List.mem_filter.mp hmem).1).imp_right (Or.imp_right Or.inl)
        · -- A ring that the batch names is stored or deleted.
          have hq : q ∈ ringIndices batch := not_not.mp (of_decide_eq_false hin)
          rcases hnamed q hq with hs | hd | hm | hg
          · exact .inl hs
          · exact .inr hd
          · rw [missingIndices_storeRingRoots, if_pos ⟨rfl, hq⟩] at hm
            cases hm
          · cases hg
        · rw [hmissing]
          exact hfits

end Knows
end Store
end Individuality.Subscriber
