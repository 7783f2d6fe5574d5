import Individuality.Members.Placement
import Individuality.Members.Progress
import Individuality.Members.Stalls

/-! Authorizing an onboarding, and dispatching it.

`can_onboard_members` replicates the checks of `onboard_members` on the ring's total and the lengths
of the queue's pages; the dispatch reads the pages themselves. They agree where the keys of the current ring
are packed as its total says (`Paged`), and every key of the queue has a record. The dispatch runs in
a storage transaction (`onboardTransaction`): what it wrote before it fails is undone. -/
namespace Individuality.Members
open Support
variable {T : Config}

/-! ### The dispatch as a transaction -/

/-- How the body of a transaction ends. -/
inductive TransactionOutcome (ε α : Type)
  | commit (r : Except ε α)
  | rollback (r : Except ε α)

/-- What a body that rolls back wrote is undone. -/
def withTransaction {ε α σ : Type} (body : σ → TransactionOutcome ε α × σ) (s : σ) : Except ε α × σ :=
  match body s with
  | (.commit r, s') => (r, s')
  | (.rollback r, _) => (r, s)

namespace Store

/-- One turn of the onboarding loop, with what it has written when it fails. -/
def includeKeyWriting (ringIndex : Nat) (f : Filling T) (key : T.Member) : Except Error Unit × Filling T :=
  if f.store.members.contains key = true then
    let s := f.store.setMember key (.included ringIndex f.pageIndex f.keys.length)
    match f.keys.tryPush key with
    | none => (.error .tooManyMembers, { f with store := s })
    | some keys =>
      if T.flexibleRingCapacity ≤ keys.length then
        let s := s.setRingPage ringIndex f.pageIndex keys
        let next := U32.saturatingInc f.pageIndex
        (.ok (), ⟨s, next, s.ringKeysAt ringIndex next⟩)
      else (.ok (), ⟨s, f.pageIndex, keys⟩)
  else (.error .keyNotFound, f)

def includeKeysWriting (ringIndex : Nat) : List T.Member → Filling T → Except Error Unit × Filling T
  | [], f => (.ok (), f)
  | key :: keys, f =>
    match includeKeyWriting ringIndex f key with
    | (.error e, f) => (.error e, f)
    | (.ok (), f) => includeKeysWriting ringIndex keys f

/-- The body of `onboard_members`: it writes as it goes. -/
def onboardBody (mustBuild : Bool) (s : Store T) : TransactionOutcome Error Bool × Store T :=
  match s.collections with
  | none => (.rollback (.error .collectionNotFound), s)
  | some info =>
    let maxRingSize := info.ringSize.ringCapacity
    let a := s.availableRing maxRingSize
    let openSlots := maxRingSize - (a.keys.length + a.pageIndex * T.flexibleRingCapacity)
    let c := a.store.candidates openSlots
    match a.store.shouldOnboardMembers a.ringIndex a.status openSlots
      (U32.saturatedFrom c.2.length) s.onboardingSize maxRingSize with
    | none => (.rollback (if mustBuild then .error .prematureOnboarding else .ok false), a.store)
    | some (toInclude, ringFilled) =>
      match includeKeysWriting a.ringIndex (c.2.take toInclude) ⟨a.store, a.pageIndex, a.keys⟩ with
      | (.error e, f) => (.rollback (.error e), f.store)
      | (.ok (), f) =>
        let s := (f.close a.ringIndex).recordOnboarded a.ringIndex a.status toInclude ringFilled
        match s.requeue a.store.queuePageIndices.1 c.1 a.store.queuePageIndices.2 (c.2.drop toInclude) with
        | .ok s => (.commit (.ok true), s)
        | .error e => (.rollback (.error e), f.store)

def onboardTransaction (s : Store T) (mustBuild : Bool) : Except Error Bool × Store T :=
  withTransaction (onboardBody mustBuild) s

theorem includeKeyWriting_eq (ringIndex : Nat) (f : Filling T) (key : T.Member) :
    (∃ f', includeKey ringIndex f key = .ok f' ∧ includeKeyWriting ringIndex f key = (.ok (), f')) ∨
      ∃ e f', includeKey ringIndex f key = .error e ∧ includeKeyWriting ringIndex f key = (.error e, f') := by
  unfold includeKey includeKeyWriting
  by_cases hcontains : f.store.members.contains key = true
  · rw [ensure_pos hcontains, if_pos hcontains]
    cases hpush : f.keys.tryPush key with
    | none => exact .inr ⟨_, _, rfl, rfl⟩
    | some keys =>
      refine .inl ?_
      simp only [okOr_some, ok_bind]
      split
      · exact ⟨_, rfl, rfl⟩
      · exact ⟨_, rfl, rfl⟩
  · rw [ensure, if_neg hcontains, if_neg hcontains]
    exact .inr ⟨_, _, rfl, rfl⟩

theorem includeKeysWriting_eq (ringIndex : Nat) (keys : List T.Member) (f : Filling T) :
    (∃ f', keys.foldlM (includeKey ringIndex) f = .ok f' ∧ includeKeysWriting ringIndex keys f = (.ok (), f')) ∨
      ∃ e f', keys.foldlM (includeKey ringIndex) f = .error e ∧
        includeKeysWriting ringIndex keys f = (.error e, f') := by
  induction keys generalizing f with
  | nil => exact .inl ⟨f, rfl, rfl⟩
  | cons key keys ih =>
    rw [List.foldlM_cons]
    unfold includeKeysWriting
    rcases includeKeyWriting_eq ringIndex f key with ⟨f', hf, hw⟩ | ⟨e, f', hf, hw⟩
    · rw [hf, hw]
      exact ih f'
    · rw [hf, hw]
      exact .inr ⟨e, f', rfl, rfl⟩

/-- The transaction does what `onboardMembers` does, and leaves the storage alone where that fails. -/
theorem onboardTransaction_eq (s : Store T) (mustBuild : Bool) :
    s.onboardTransaction mustBuild = match s.onboardMembers mustBuild with
      | .ok (t, done) => (.ok done, t)
      | .error e => (.error e, s) := by
  unfold onboardTransaction withTransaction onboardBody onboardMembers onboard
  cases s.collections with
  | none => rfl
  | some info =>
    simp only [okOr_some, ok_bind]
    generalize s.availableRing info.ringSize.ringCapacity = a
    generalize a.store.candidates _ = c
    cases a.store.shouldOnboardMembers _ _ _ _ _ _ with
    | none => cases mustBuild <;> rfl
    | some found =>
      obtain ⟨toInclude, ringFilled⟩ := found
      simp only
      rcases includeKeysWriting_eq a.ringIndex (c.2.take toInclude) ⟨a.store, a.pageIndex, a.keys⟩ with
        ⟨f, hf, hw⟩ | ⟨e, f, hf, hw⟩
      · rw [hf, hw]
        simp only [ok_bind]
        cases Store.requeue _ _ _ _ _ <;> rfl
      · rw [hf, hw]
        rfl

/-- A failed dispatch leaves the storage as it was. -/
theorem onboardTransaction_of_error {s t : Store T} {mustBuild : Bool} {e : Error}
    (h : s.onboardTransaction mustBuild = (.error e, t)) : t = s := by
  rw [onboardTransaction_eq] at h
  split at h
  · cases h
  · cases h
    rfl

/-! ### The checks agree -/

/-- What is left of the pages goes back. -/
theorem exists_requeue (s : Store T) (oldHead head tail : QueuePageIndex) {remaining : List T.Member}
    (hlen : remaining.length ≤ T.onboardingQueuePageSize) : ∃ s', s.requeue oldHead head tail remaining = .ok s' := by
  unfold requeue
  rw [if_neg (Nat.not_lt.mpr hlen)]
  split
  · obtain ⟨keys, hkeys, -⟩ := BoundedVec.exists_tryFrom hlen
    rw [hkeys]
    exact ⟨_, rfl⟩
  · exact ⟨_, rfl⟩

/-- What is left of the pages that are read fits one page. -/
theorem length_remaining_le (s : Store T) (openSlots : Nat) :
    ((s.candidates openSlots).2.drop (min (U32.saturatedFrom (s.candidates openSlots).2.length) openSlots)).length ≤
      T.onboardingQueuePageSize := by
  rcases candidates_cases s openSlots with h | ⟨hlt, -, h⟩
  · rw [h, List.length_drop]
    exact (Nat.sub_le _ _).trans (s.queuePage_length_le _)
  · rw [h]
    rw [(remaining_of_two hlt (s.queuePage_length_le _) rfl).2, List.length_drop]
    exact (Nat.sub_le _ _).trans (s.queuePage_length_le _)

/-- The number of members the cheap check sees is the number of keys the dispatch reads. -/
theorem length_candidates (s : Store T) (openSlots : Nat) :
    U32.saturatedFrom (s.candidates openSlots).2.length =
      if (s.queueAt s.queuePageIndices.1).length < openSlots ∧ s.queuePageIndices.1 ≠ s.queuePageIndices.2 then
        U32.saturatingAdd (s.queueAt s.queuePageIndices.1).length (s.queueAt (s.queuePageIndices.1 + 1#32)).length
      else (s.queueAt s.queuePageIndices.1).length := by
  have hlen := (s.queuePage_length_le s.queuePageIndices.1).trans T.onboardingQueuePageSize_le
  by_cases hmore : (s.queuePage s.queuePageIndices.1).length < openSlots ∧ s.queuePageIndices.1 ≠ s.queuePageIndices.2
  · have hcandidates : s.candidates openSlots = (s.queuePageIndices.1 + 1#32,
        s.queuePage s.queuePageIndices.1 ++ s.queuePage (s.queuePageIndices.1 + 1#32)) := if_pos hmore
    rw [hcandidates, List.length_append]
    exact (if_pos hmore).symm
  · have hcandidates : s.candidates openSlots = (s.queuePageIndices.1, s.queuePage s.queuePageIndices.1) := if_neg hmore
    rw [hcandidates]
    exact (U32.saturatedFrom_eq hlen).trans (if_neg hmore).symm

/-- Every key that onboarding reads has a record. -/
theorem records_of_candidates {s : Store T} (hqueue : QueueCoherent s) (openSlots : Nat) {k : T.Member}
    (hk : k ∈ (s.candidates openSlots).2) : (s.members.get k).isSome = true := by
  have hwaits : ∃ q, k ∈ s.queuePage q := by
    rcases candidates_cases s openSlots with h | ⟨-, -, h⟩
    · rw [h] at hk
      exact ⟨_, hk⟩
    · rw [h] at hk
      exact (List.mem_append.mp hk).elim (⟨_, ·⟩) (⟨_, ·⟩)
  obtain ⟨q, hq⟩ := hwaits
  obtain ⟨t, ht⟩ := (hqueue.mem_iff k q).mp hq
  rw [ht]
  rfl

/-- Where the current ring has room and its keys are packed, the two checks are one, and the
dispatch does not fail after it. -/
theorem canOnboardMembers_iff_dispatch {s : Store T} (hpaged : Paged s) (hqueue : QueueCoherent s)
    (hsees : SeesKeys s (.onboardMembers true)) :
    s.canOnboardMembers s.currentRingIndex s.queuePageIndices.1 = true ↔ ∃ t, s.onboardMembers true = .ok (t, true) := by
  unfold canOnboardMembers onboardMembers
  cases hinfo : s.collections with
  | none =>
    simp only [okOr]
    refine ⟨fun hfalse => (by cases hfalse), ?_⟩
    rintro ⟨_, herror⟩
    cases herror
  | some info =>
    obtain ⟨hroom, hqueued⟩ := hsees info hinfo
    have hpacks := hpaged.packs hqueued
    have htotal := hpacks.total_eq
    have hlt := hpaged.total_lt_of_room hqueued hroom
    have hcap := info.ringSize.ringCapacity_le
    have hpage : (s.ringStatusAt s.currentRingIndex).total / T.flexibleRingCapacity ≤
        (s.ringStatusAt s.currentRingIndex).total := Nat.div_le_self _ _
    have havail := availableRing_of_not_full hroom
    generalize hp : (s.ringStatusAt s.currentRingIndex).total / T.flexibleRingCapacity = p at *
    have hslots : info.ringSize.ringCapacity - ((s.ringKeysAt s.currentRingIndex p).length + p * T.flexibleRingCapacity) =
        info.ringSize.ringCapacity - (s.ringStatusAt s.currentRingIndex).total := by
      rw [htotal, Nat.add_comm]
      rfl
    simp only [okOr_some, ok_bind, havail, hslots, ← length_candidates]
    generalize hopen : info.ringSize.ringCapacity - (s.ringStatusAt s.currentRingIndex).total = openSlots
    cases hshould : s.shouldOnboardMembers _ _ _ _ _ _ with
    | none =>
      simp only [Option.isSome_none, if_true]
      refine ⟨fun hfalse => (by cases hfalse), ?_⟩
      rintro ⟨_, hnone⟩
      cases hnone
    | some found =>
      obtain ⟨toInclude, ringFilled⟩ := found
      refine ⟨fun _ => ?_, fun _ => rfl⟩
      obtain ⟨-, -, -, hn, -⟩ := shouldOnboardMembers_spec hshould
      have hle : ((s.candidates openSlots).2.take toInclude).length ≤ openSlots := by
        rw [List.length_take, hn]
        exact (Nat.min_le_left _ _).trans (Nat.min_le_right _ _)
      obtain ⟨f, hf⟩ := exists_includeKeys s.currentRingIndex ⟨s, p, s.ringKeysAt s.currentRingIndex p⟩
        ((s.candidates openSlots).2.take toInclude)
        (P := fun done c => c.Packs T.flexibleRingCapacity ((s.ringStatusAt s.currentRingIndex).total + done.length))
        (fun k hk => records_of_candidates hqueue openSlots (List.mem_of_mem_take hk))
        (by simp only [U32.max]; omega)
        (by
          rw [Filling.cursor_stored]
          exact hpacks)
        (fun done key c hc _ => by
          rw [List.length_append, List.length_singleton, ← Nat.add_assoc]
          exact hc.push T.flexibleRingCapacity_pos)
        (fun _ _ _ hc => hc.lt_size)
      have hremaining := length_remaining_le s openSlots
      rw [← hn] at hremaining
      obtain ⟨t, ht⟩ := exists_requeue
        ((f.close s.currentRingIndex).recordOnboarded s.currentRingIndex (s.ringStatusAt s.currentRingIndex) toInclude
          ringFilled) s.queuePageIndices.1 (s.candidates openSlots).1 s.queuePageIndices.2 hremaining
      simp only [onboard, hf, ht, ok_bind]
      exact ⟨_, rfl⟩

/-- The check agrees with the dispatch, and a dispatch that fails leaves the storage as it was. -/
def CheckAgrees (s : Store T) : Prop :=
  (s.canOnboardMembers s.currentRingIndex s.queuePageIndices.1 = true ↔ (s.onboardTransaction true).1 = .ok true) ∧
    ∀ e t, s.onboardTransaction true = (.error e, t) → t = s

theorem onboardTransaction_fst_iff (s : Store T) (mustBuild : Bool) :
    (s.onboardTransaction mustBuild).1 = .ok true ↔ ∃ t, s.onboardMembers mustBuild = .ok (t, true) := by
  rw [onboardTransaction_eq]
  cases s.onboardMembers mustBuild with
  | error e => exact ⟨nofun, fun ⟨_, h⟩ => nomatch h⟩
  | ok found =>
    obtain ⟨t, done⟩ := found
    constructor
    · intro h
      cases h
      exact ⟨t, rfl⟩
    · rintro ⟨_, h⟩
      cases h
      rfl

end Store

/-! ### Runs -/

/-- The calls that see every key they count, where a merge moves included keys only. -/
def Onboards (s : Store T) (c : Call T) : Prop :=
  SeesKeys s c ∧ ∀ base target, c = .mergeRings base target →
    ∀ k ∈ s.page target 0, ∃ r p i, s.members.get k = some (.included r p i)

/-- The cheap check agrees with the dispatch in every state that runs reach whose calls see the keys
they count, while the current ring has room and no page of it is queued for deletion. -/
theorem check_agrees {s : State T} (h : State.Reachable (State.OnCalls fun _ t c => Onboards t c) s)
    (id : Identifier) (hsees : SeesKeys (s.store id) (.onboardMembers true)) : (s.store id).CheckAgrees := by
  have hpaged : Paged (s.store id) := State.reachable_invariant h Paged.empty
    (fun _ _ _ _ ht hG hs => ht.step hG.1 hs) id
  have hqueue : QueueCoherent (s.store id) := State.reachable_invariant h QueueCoherent.empty
    (fun _ _ _ _ ht hG hs => ht.step hG.2 hs) id
  refine ⟨?_, fun e t ht => Store.onboardTransaction_of_error ht⟩
  rw [Store.onboardTransaction_fst_iff]
  exact Store.canOnboardMembers_iff_dispatch hpaged hqueue hsees

/-- Runs that see their keys reach a first cohort. -/
theorem exists_onboarded_cohort {n : Nat} (hpos : 0 < n) (hn : n ≤ 767) :
    ∃ s : State sampleConfig, State.Reachable (State.OnCalls fun _ t c => Onboards t c) s ∧
      Store.FirstCohort (s.store sampleId) ⟨.external (0 : Nat), .appendOnly, .r2e10, none⟩ (sampleKeys 0 n) := by
  obtain ⟨s, hr, -, hcohort⟩ := State.exists_first_cohort (G := fun _ t c => Onboards t c) sampleId
    (0 : Nat) .r2e10 (sampleKeys 0 n) (sampleKeys_ne_nil hpos) (sampleKeys_nodup 0 n)
    (fun _ _ => rfl) (by rw [length_sampleKeys]; exact hn)
    (by rw [length_sampleKeys]; exact hn.trans (by decide)) (by decide)
    (fun _ _ => ⟨trivial, nofun⟩) (fun _ _ => ⟨trivial, nofun⟩)
    (fun _ s hroom hdeletions _ => by
      refine ⟨fun info hinfo => ⟨hroom info hinfo, ?_⟩, nofun⟩
      unfold Store.ringQueued
      rw [hdeletions]
      rfl)
  exact ⟨s, hr, hcohort⟩

/-- Three members are on their ring, and the next may be onboarded any time. -/
theorem check_agrees_three : ∃ s : State sampleConfig, ((s.store sampleId).ringStatusAt 0).total = 3 ∧
    (s.store sampleId).CheckAgrees := by
  obtain ⟨s, hr, hcohort⟩ := exists_onboarded_cohort (n := 3) (by decide) (by decide)
  have hcur : (s.store sampleId).currentRingIndex = 0 := by
    rw [hcohort.currentRing, length_sampleKeys]
    rfl
  refine ⟨s, ?_, check_agrees hr sampleId fun info hinfo => ⟨?_, ?_⟩⟩
  · rw [hcohort.status 0]
    rfl
  · have hinfo' := hinfo.symm.trans hcohort.waiting.collections
    cases hinfo'
    have htotal : ((s.store sampleId).ringStatusAt 0).total = (sampleKeys 0 3).length := by rw [hcohort.status 0]; rfl
    rw [Store.currentRingFull_iff_of_packed (by rw [hcur, htotal]; exact hcohort.packed), hcur, htotal, length_sampleKeys]
    decide
  · unfold Store.ringQueued
    rw [hcohort.deletions]
    rfl

namespace Store

/-- One key more fills the first page; the next key goes to the second page, which is full. -/
def OneFits (size : Nat) (done : List T.Member) (c : Paging.Cursor T.Member) : Prop :=
  (c.pages 1).length = size ∧
    ((done.length = 0 ∧ c.at_ = 0 ∧ (c.pages 0).length + 1 = size) ∨ (done.length = 1 ∧ c.at_ = 1))

theorem OneFits.push {size : Nat} {done : List T.Member} {c : Paging.Cursor T.Member} (h : OneFits size done c)
    (key : T.Member) (hroom : (c.pages c.at_).length < size) : OneFits size (done ++ [key]) (c.push size key) := by
  obtain ⟨hsecond, ⟨hdone, hat, hfirst⟩ | ⟨-, hat⟩⟩ := h
  · refine ⟨?_, .inr ⟨?_, ?_⟩⟩
    · simp only [Paging.Cursor.push, hat]
      rw [Function.update_of_ne (by decide)]
      exact hsecond
    · rw [List.length_append, hdone]
      rfl
    · simp only [Paging.Cursor.push, hat, Function.update_self, List.length_append, List.length_singleton]
      rw [if_pos hfirst.ge]
  · -- The second page takes nothing.
    rw [hat, hsecond] at hroom
    exact absurd hroom (lt_irrefl size)

/-- A ring with one slot left on the page its total points at takes no two keys, where the page behind is full. -/
theorem not_onboard_of_full_page {s t : Store T} {info : CollectionInfo T} {keys : List T.Member}
    (h : Waiting s info keys) (hkeys : keys.length = 2)
    (hfirst : (s.page s.currentRingIndex 0).length + 1 = T.flexibleRingCapacity)
    (hsecond : (s.page s.currentRingIndex 1).length = T.flexibleRingCapacity)
    (htotal : (s.ringStatusAt s.currentRingIndex).total < T.flexibleRingCapacity)
    (hroom : T.flexibleRingCapacity < info.ringSize.ringCapacity) : s.onboardMembers true ≠ .ok (t, true) := by
  intro hone
  rcases onboardMembers_spec hone with ⟨-, hfalse⟩ | ⟨⟨R⟩⟩
  · cases hfalse
  have hinfo : R.info = info := Option.some.inj (R.collections_eq.symm.trans h.collections)
  have hpage : (s.ringStatusAt s.currentRingIndex).total / T.flexibleRingCapacity = 0 := Nat.div_eq_of_lt htotal
  have hstored : (s.ringKeysAt s.currentRingIndex 0).length + 1 = T.flexibleRingCapacity := hfirst
  have hfull : ¬ s.currentRingFull R.info.ringSize.ringCapacity := by
    rw [hinfo, currentRingFull, hpage]
    omega
  have hread : R.keys = keys := by
    rcases R.keys_cases with ⟨hhead, hread⟩ | ⟨-, hne, -⟩
    · rw [hread, hhead]
      exact h.queue
    · exact absurd h.onePage hne
  obtain ⟨-, -, -, hn, -⟩ := shouldOnboardMembers_spec R.should
  rw [R.a_of_not_full hfull, hpage, hread, hkeys, hinfo] at hn
  have htwo : R.toInclude = 2 := by
    rw [hn, U32.saturatedFrom_eq (by decide)]
    exact Nat.min_eq_left (by simp only; omega)
  obtain ⟨c, hc, -⟩ := R.pages_of_not_full hfull (P := OneFits T.flexibleRingCapacity)
    (by rw [hpage]; exact ⟨hsecond, .inl ⟨rfl, rfl, hfirst⟩⟩)
    (fun _ key _ hc hlt => hc.push key hlt)
  have hdone := R.length_take
  obtain ⟨-, ⟨hzero, -⟩ | ⟨hlen, -⟩⟩ := hc <;> omega

end Store

/-- Of 510 members one of the first page is suspended and removed, and two more join the queue: the ring's total
leaves room for both, and the dispatch that the check allows fails on the full second page. -/
theorem check_agrees_fails : ∃ s : State sampleConfig, State.Reachable (State.OnCalls fun _ _ _ => True) s ∧
    ¬ (s.store sampleId).CheckAgrees := by
  obtain ⟨s₁, hr₁, hcohort⟩ := exists_onboarded_cohort (n := 510) (by decide) (by decide)
  obtain ⟨s₂, hr₂, -, hshrunk⟩ := State.exists_shrunk (G := fun _ _ _ => True)
    (hr₁.mono fun t a _ => by cases a <;> trivial) hcohort (k := (0 : Nat))
    (mem_sampleKeys (by decide) (by decide)) (by rw [length_sampleKeys]; decide)
    (fun _ _ => trivial) (fun _ _ => trivial) (fun _ _ => trivial) (fun _ _ => trivial)
  obtain ⟨t, ht, hwaiting, hframe, -⟩ := hshrunk.waiting.addMembers s₂.env (sampleKeys 510 2) (sampleKeys_nodup 510 2)
    (fun k hk => hshrunk.fresh k (notMem_sampleKeys (by decide) k hk)) (fun _ _ => rfl)
    (by rw [length_sampleKeys]; decide)
  obtain ⟨s₃, hr₃, hstore, -⟩ := hr₂.call sampleId (.addMembers (sampleKeys 510 2)) ht
    (s₂.exists_register sampleId rfl) trivial
  have hcur : t.currentRingIndex = 0 := by
    rw [hframe, hshrunk.currentRing, length_sampleKeys]
    rfl
  have hpage : t.page = (s₂.store sampleId).page := by
    rw [hframe]
    rfl
  have hstatus : t.ringStatusAt 0 = ⟨254, 0, none⟩ := by
    rw [hframe]
    exact hshrunk.status 0
  have hpending : t.pendingSuspensions.get 0 = none := by
    rw [hframe]
    exact hshrunk.pending 0
  have hsize : t.onboardingSize = 1 := by
    rw [hframe]
    exact hshrunk.onboardingSize
  have hsecond := hshrunk.rest 1 Nat.one_pos
  rw [length_sampleKeys] at hsecond
  refine ⟨s₃, hr₃, fun hagrees => ?_⟩
  rw [hstore] at hagrees
  have hcan : t.canOnboardMembers t.currentRingIndex t.queuePageIndices.1 = true := by
    have hqueue : (t.queuePage t.queuePageIndices.1).length = 2 := by rw [hwaiting.queue, length_sampleKeys]
    rw [Store.canOnboardMembers_iff hwaiting.collections hwaiting.active hwaiting.appendOnly (by rw [hcur]; exact hpending)
      (by rw [hsize]; decide)]
    have hopen : t.openSlots ⟨.external (0 : Nat), .appendOnly, .r2e10, none⟩ = 513 := by
      rw [Store.openSlots, hcur, hstatus]
      rfl
    have havailable : t.available 513 = 2 := by
      rw [Store.available, if_neg fun hc => hc.2 hwaiting.onePage, hqueue]
    rw [hopen, havailable, hsize]
    decide
  obtain ⟨u, hu⟩ := (t.onboardTransaction_fst_iff true).mp (hagrees.1.mp hcan)
  refine Store.not_onboard_of_full_page hwaiting (length_sampleKeys 510 2) ?_ ?_ ?_ (by decide) hu
  · rw [hcur, hpage, hshrunk.first]
    rfl
  · rw [hcur, hpage, hsecond]
    rfl
  · rw [hcur, hstatus]
    decide

end Individuality.Members
