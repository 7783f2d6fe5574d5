import Individuality.Coinage.Progress
import Individuality.Coinage.Ideal
import Individuality.Members.Validity

/-! Rings of recyclers that nobody can unload from any more.

A ring is retired once it is removed, or once it has been full for long enough (`Retired`). The members
pallet never gives a removed ring a root again, and never forgets when a ring became full, as long as
no merge moves a key between rings: what one operation of the two pallets does to a recycler is
`Onward`, and a retired ring stays retired. `merge_rings` does not ask how a collection uses its pages,
so a merge there and back makes a ring look new. -/
namespace Individuality.Coinage
open Support

namespace State
variable {T : Config} {s s' t : State T} {value : CoinValue}

/-- How many rings of a recycler have been cleaned; they are the first ones. -/
def cleanedRings (s : State T) (value : CoinValue) : Nat :=
  match s.coinage.recyclersLastRemovedRingIndex.get value with
  | some last => last + 1
  | none => 0

/-- The members pallet's merges move no key between the rings of a recycler. -/
def MovesNoVoucher (s : State T) : Action T → Prop
  | .members id c => isRecycler id = true → Members.MovesNoKey (s.members.store id) c
  | _ => True

/-- A ring that is removed, or was full for as long as it lasts. -/
def Retired (s : State T) (value : CoinValue) (r : Nat) : Prop :=
  r < s.cleanedRings value ∨ ∃ immutableSince,
    ((s.recycler value).ringStatusAt r).immutableSince = some immutableSince ∧
      U64.saturatingAdd immutableSince T.recyclerExpirationTime ≤ s.now

/-- The rings of a recycler fill, and are removed, in order; none became full in the future. -/
structure Ordered (s : State T) (value : CoinValue) : Prop where
  inOrder : Members.InOrder (s.recycler value) (s.cleanedRings value)
  since_le : ∀ r i, ((s.recycler value).ringStatusAt r).immutableSince = some i → i ≤ s.now

/-- What one operation may do to the rings of a recycler. -/
structure Onward (s s' : State T) (value : CoinValue) : Prop where
  ordered : s'.Ordered value
  cleaned_le : s.cleanedRings value ≤ s'.cleanedRings value
  now_le : s.now ≤ s'.now
  kept : ∀ r, ((s.recycler value).ringStatusAt r).immutableSince ≠ none →
    r < s'.cleanedRings value ∨ (s'.recycler value).ringStatusAt r = (s.recycler value).ringStatusAt r

namespace Onward

theorem refl (h : s.Ordered value) : Onward s s value := ⟨h, le_rfl, le_rfl, fun _ _ => .inr rfl⟩

theorem trans (h : Onward s t value) (h' : Onward t s' value) : Onward s s' value where
  ordered := h'.ordered
  cleaned_le := h.cleaned_le.trans h'.cleaned_le
  now_le := h.now_le.trans h'.now_le
  kept r hr := by
    rcases h.kept r hr with hlt | hsame
    · exact .inl (hlt.trans_le h'.cleaned_le)
    · rw [← hsame] at hr ⊢
      exact h'.kept r hr

/-- What leaves the recycler and its count alone. -/
theorem of_same (h : s.Ordered value) (hstore : s'.recycler value = s.recycler value)
    (hcleaned : s'.cleanedRings value = s.cleanedRings value) (hnow : s.now ≤ s'.now) : Onward s s' value where
  ordered := by
    refine ⟨?_, ?_⟩
    · rw [hstore, hcleaned]
      exact h.inOrder
    · rw [hstore]
      exact fun r i hi => (h.since_le r i hi).trans hnow
  cleaned_le := hcleaned.ge
  now_le := hnow
  kept r _ := by
    rw [hstore]
    exact .inr rfl

end Onward

theorem cleanedRings_of_get {last : Nat} (h : s.coinage.recyclersLastRemovedRingIndex.get value = some last) :
    s.cleanedRings value = last + 1 := by
  unfold cleanedRings
  rw [h]

theorem cleanedRings_congr (h : s'.coinage.recyclersLastRemovedRingIndex.get value =
    s.coinage.recyclersLastRemovedRingIndex.get value) : s'.cleanedRings value = s.cleanedRings value := by
  unfold cleanedRings
  rw [h]

/-- The next ring to be cleaned is the one after those that are. -/
theorem nextRingToClean_eq_some {r : Nat} (h : s.nextRingToClean value = some r) : r = s.cleanedRings value := by
  unfold nextRingToClean at h
  split at h
  · next last hlast =>
    rw [cleanedRings_of_get hlast]
    exact (checkedAdd_eq_some.mp h).2.symm
  · next hnone =>
    unfold cleanedRings
    rw [hnone]
    exact (Option.some.inj h).symm

theorem cleanUnchecked_spec {out : State T × Nat × Nat} (h : s.cleanUnchecked value = .ok out) :
    out.1.cleanedRings value = s.cleanedRings value + 1 ∧
      (∀ value', value' ≠ value → out.1.cleanedRings value' = s.cleanedRings value') ∧
      (s.recycler value).exec s.members.env (.removeRing (s.cleanedRings value)) = .ok (out.1.recycler value) ∧
      out.1.members.env = s.members.env ∧
      ∀ id, id ≠ recyclerCollectionIdentifier value → out.1.members.store id = s.members.store id := by
  simp only [cleanUnchecked, bind_eq_ok, okOr_eq_ok] at h
  obtain ⟨nextRing, hnext, status, -, t, ht, h⟩ := h
  cases h
  obtain ⟨hexec, henv, hother, hcoinage⟩ := memberCall_spec ht
  rw [nextRingToClean_eq_some hnext] at hexec ⊢
  refine ⟨?_, fun value' hne => ?_, hexec, henv, hother⟩
  · exact cleanedRings_of_get ((StorageMap.get_insert _ _ _ _).trans (if_pos rfl))
  · refine cleanedRings_congr ((StorageMap.get_insert _ _ _ _).trans ?_)
    rw [if_neg hne, hcoinage]

namespace Ordered

/-- The calls on its collections that make rings or members: nothing changes for the rings. -/
theorem memberCall (h : s.Ordered value) {id : Members.Identifier} {c : Members.Call T.members}
    (hs : s.memberCall id c = .ok s')
    (hown : id = recyclerCollectionIdentifier value →
      (∃ owner n size, c = .createCollection owner n .appendOnly size none) ∨ ∃ members, c = .addMembers members) :
    Onward s s' value := by
  obtain ⟨hexec, henv, hother, hcoinage⟩ := memberCall_spec hs
  have hcleaned : s'.cleanedRings value = s.cleanedRings value := cleanedRings_congr (by rw [hcoinage])
  have hnow : s'.now = s.now := by rw [now, henv]; rfl
  by_cases hid : id = recyclerCollectionIdentifier value
  · have hstep : Members.InOrder (s'.recycler value) (s.cleanedRings value) ∧
        (s'.recycler value).ringStatusAt = (s.recycler value).ringStatusAt := by
      rw [hid] at hexec
      rcases hown hid with ⟨owner, n, size, rfl⟩ | ⟨members, rfl⟩
      · exact h.inOrder.createCollection hexec
      · exact h.inOrder.addMembers hexec
    refine ⟨⟨?_, ?_⟩, hcleaned.ge, hnow.ge, fun r _ => .inr ?_⟩
    · rw [hcleaned]
      exact hstep.1
    · rw [hstep.2, hnow]
      exact h.since_le
    · rw [hstep.2]
  · exact .of_same h (hother _ (Ne.symm hid)) hcleaned hnow.ge

theorem ensureRecyclerExists (h : s.Ordered value) {value' : CoinValue} (hs : s.ensureRecyclerExists value' = .ok s') :
    Onward s s' value := by
  unfold State.ensureRecyclerExists at hs
  split at hs
  · cases hs
    exact .refl h
  · simp only [bind_eq_ok] at hs
    obtain ⟨t, ht, hs⟩ := hs
    cases hs
    have hcreate := h.memberCall ht fun _ => .inl ⟨_, _, _, rfl⟩
    exact hcreate.trans (.of_same hcreate.ordered rfl rfl le_rfl)

theorem load (h : s.Ordered value) {value' : CoinValue} {memberKey : T.Member} (hs : s.load value' memberKey = .ok s') :
    Onward s s' value := by
  simp only [State.load, bind_eq_ok, ensure_eq_ok, mapError_eq_ok] at hs
  obtain ⟨-, -, -, -, t, ht, u, hu, hs⟩ := hs
  cases hs
  have hexists := h.ensureRecyclerExists ht
  have hadd := hexists.ordered.memberCall hu fun _ => .inr ⟨_, rfl⟩
  exact (hexists.trans hadd).trans (.of_same hadd.ordered rfl rfl le_rfl)

theorem loadGroup (h : s.Ordered value) {vouchers : List (CoinValue × T.Member)} {value' : CoinValue}
    (hs : State.loadGroup vouchers s value' = .ok s') : Onward s s' value := by
  simp only [State.loadGroup, bind_eq_ok, mapError_eq_ok] at hs
  obtain ⟨t, ht, hs⟩ := hs
  have hexists := h.ensureRecyclerExists ht
  let noted (t : State T) : State T := { t with coinage := { t.coinage with
    recyclersCoinToRecycler := ((vouchers.filter fun v => v.1 = value').map Prod.snd).foldl
      (fun m key => m.insert key value') t.coinage.recyclersCoinToRecycler } }
  have hnoted : Onward s (noted t) value := hexists.trans (.of_same hexists.ordered rfl rfl le_rfl)
  exact hnoted.trans (hnoted.ordered.memberCall hs fun _ => .inr ⟨_, rfl⟩)

theorem loadBatchGrouped (h : s.Ordered value) {vouchers : List (CoinValue × T.Member)}
    (hs : s.loadBatchGrouped vouchers = .ok s') : Onward s s' value := by
  simp only [State.loadBatchGrouped, bind_eq_ok] at hs
  obtain ⟨-, -, hs⟩ := hs
  exact foldlM_ok_induction (fun _ t => Onward s t value) hs (.refl h)
    fun _ _ _ _ _ ht hstep => ht.trans (ht.ordered.loadGroup hstep)

theorem ensurePaidCollectionExists (h : s.Ordered value) {period : Period} {out : State T × Bool}
    (hs : s.ensurePaidCollectionExists period = .ok out) : Onward s out.1 value := by
  unfold State.ensurePaidCollectionExists at hs
  split at hs
  · cases hs
    exact .refl h
  · simp only [bind_eq_ok] at hs
    obtain ⟨t, ht, hs⟩ := hs
    cases hs
    have hcreate := h.memberCall ht fun _ => .inl ⟨_, _, _, rfl⟩
    exact hcreate.trans (.of_same hcreate.ordered rfl rfl le_rfl)

/-- Unloading marks aliases and touches no ring. -/
theorem unload (h : s.Ordered value) {value' : CoinValue} {index revision : Nat} {aliases : List T.Alias}
    {aliasProofs : List T.Proof} {provenMsg : T.Message}
    (hs : s.unload value' index revision aliases aliasProofs provenMsg = .ok s') : Onward s s' value := by
  simp only [State.unload, bind_eq_ok] at hs
  obtain ⟨-, -, -, -, results, -, -, -, hs⟩ := hs
  refine foldlM_ok_induction (fun _ t => Onward s t value) hs (.refl h) ?_
  intro _ pair t t' _ ht hstep
  simp only [unloadAlias, bind_eq_ok] at hstep
  obtain ⟨-, -, -, -, hstep⟩ := hstep
  cases hstep
  exact ht.trans (.of_same ht.ordered rfl rfl le_rfl)

/-- Cleaning removes the first ring that is left. -/
theorem cleanUnchecked (h : s.Ordered value) {value' : CoinValue} {out : State T × Nat × Nat}
    (hs : s.cleanUnchecked value' = .ok out) : Onward s out.1 value := by
  obtain ⟨hcleaned, hother, hexec, henv, hstores⟩ := cleanUnchecked_spec hs
  have hnow : out.1.now = s.now := by rw [now, henv]; rfl
  by_cases hvalue : value = value'
  · subst hvalue
    obtain ⟨hinOrder, hat⟩ := h.inOrder.removeRing hexec
    refine ⟨⟨?_, fun r i hi => ?_⟩, hcleaned ▸ Nat.le_succ _, hnow.ge, fun r _ => ?_⟩
    · rw [hcleaned]
      exact hinOrder
    · rw [hnow]
      rw [hat] at hi
      split at hi
      · cases hi
      · exact h.since_le r i hi
    · by_cases hr : r = s.cleanedRings value
      · rw [hr, hcleaned]
        exact .inl (Nat.lt_succ_self _)
      · exact .inr ((hat r).trans (if_neg hr))
  · exact .of_same h (hstores _ fun hid => hvalue (recyclerCollectionIdentifier_injective hid)) (hother value hvalue)
      hnow.ge

/-- A call from outside: a merge moves no voucher. -/
theorem members (h : s.Ordered value) {id : Members.Identifier} {c : Members.Call T.members}
    (hmoves : MovesNoVoucher s (.members id c)) (hs : s.exec (.members id c) = .ok s') : Onward s s' value := by
  simp only [exec, bind_eq_ok, ensure_eq_ok] at hs
  obtain ⟨-, hopen, hs⟩ := hs
  obtain ⟨hexec, henv, hother, hcoinage⟩ := memberCall_spec hs
  have hcleaned : s'.cleanedRings value = s.cleanedRings value := cleanedRings_congr (by rw [hcoinage])
  have hnow : s'.now = s.now := by rw [now, henv]; rfl
  by_cases hid : id = recyclerCollectionIdentifier value
  · subst hid
    have hrecycler := isRecycler_recycler value
    obtain ⟨hinOrder, hkept, hsince⟩ := h.inOrder.step (hopen (.inl hrecycler)) (hmoves hrecycler) hexec
    refine ⟨⟨?_, fun r i hi => ?_⟩, hcleaned.ge, hnow.ge, fun r hr => .inr (hkept r hr)⟩
    · rw [hcleaned]
      exact hinOrder
    · rw [hnow]
      rcases hsince r i hi with hold | rfl
      · exact h.since_le r i hold
      · exact le_rfl
  · exact .of_same h (hother _ (Ne.symm hid)) hcleaned hnow.ge

/-- The calls of this pallet. -/
theorem execCall (h : s.Ordered value) {c : Call T} (hs : s.execCall c = .ok s') : Onward s s' value := by
  cases c with
  | ensureRecycler => exact h.ensureRecyclerExists hs
  | load => exact h.load hs
  | loadBatch => exact h.loadBatchGrouped hs
  | unload => exact h.unload hs
  | premark =>
    simp only [State.execCall, bind_eq_ok] at hs
    obtain ⟨proven, -, hs⟩ := hs
    cases hs
    exact .of_same h rfl rfl le_rfl
  | cleanRecycler =>
    simp only [State.execCall, bind_eq_ok] at hs
    obtain ⟨-, -, out, hout, hs⟩ := hs
    cases hs
    exact h.cleanUnchecked hout
  | cleanRecyclerDust =>
    cases hs
    unfold State.cleanRecyclerDust
    split
    · exact .refl h
    · exact .of_same h rfl rfl le_rfl
  | ensurePeriod =>
    simp only [State.execCall, bind_eq_ok] at hs
    obtain ⟨out, hout, hs⟩ := hs
    cases hs
    exact h.ensurePaidCollectionExists hout
  | payForToken =>
    simp only [State.execCall, State.addMember, bind_eq_ok] at hs
    obtain ⟨-, -, -, -, -, -, out, hout, t, ht, hs⟩ := hs
    cases hs
    have hexists := h.ensurePaidCollectionExists hout
    have hadd := hexists.ordered.memberCall ht fun _ => .inr ⟨_, rfl⟩
    exact (hexists.trans hadd).trans (.of_same hadd.ordered rfl rfl le_rfl)
  | consumeToken =>
    cases hs
    exact .of_same h rfl rfl le_rfl
  | cleanPaidRing =>
    simp only [State.execCall, bind_eq_ok] at hs
    obtain ⟨-, -, hs⟩ := hs
    cases hs
    exact .of_same h rfl rfl le_rfl
  | deletePaidCollection =>
    simp only [State.execCall, deleteCollectionUnchecked, bind_eq_ok] at hs
    obtain ⟨-, -, t, ht, hs⟩ := hs
    cases hs
    have hdelete := h.memberCall ht fun hid => (recycler_ne_paidToken _ _ hid.symm).elim
    exact hdelete.trans (.of_same hdelete.ordered rfl rfl le_rfl)
  | cleanPaidTokenDust =>
    cases hs
    unfold State.cleanPaidTokenDust
    split
    · exact .refl h
    · exact .of_same h rfl rfl le_rfl
  | coins =>
    cases hs
    exact .of_same h rfl rfl le_rfl

/-- One operation of the two pallets. -/
theorem step (h : s.Ordered value) {a : Action T} (hmoves : MovesNoVoucher s a) (hs : s.exec a = .ok s') :
    Onward s s' value := by
  cases a with
  | call c => exact h.execCall hs
  | members id c => exact h.members hmoves hs
  | advance seconds =>
    simp only [exec, Members.State.exec, Except.mapError, ok_bind] at hs
    cases hs
    exact .of_same h rfl rfl (Nat.le_add_right _ _)
  | provideChunks chunks =>
    simp only [exec, Members.State.exec, Except.mapError, ok_bind] at hs
    cases hs
    exact .of_same h rfl rfl le_rfl

/-- A run, step by step. -/
theorem run (h : s.Ordered value) (hrun : Reaches exec MovesNoVoucher s s') : Onward s s' value :=
  hrun.invariant (I := fun t => Onward s t value) (.refl h) fun _ _ _ ht hmoves hs => ht.trans (ht.ordered.step hmoves hs)

theorem genesis (value : CoinValue) : (genesis T).Ordered value where
  inOrder := .empty
  since_le _ _ h := nomatch h

end Ordered

/-! ### Retired rings -/

/-- A retired ring stays retired. -/
theorem Retired.onward {r : Nat} (hretired : s.Retired value r) (h : Onward s s' value) : s'.Retired value r := by
  rcases hretired with hlt | ⟨i, hi, hexpired⟩
  · exact .inl (hlt.trans_le h.cleaned_le)
  · rcases h.kept r (by rw [hi]; exact Option.some_ne_none i) with hlt | hsame
    · exact .inl hlt
    · exact .inr ⟨i, hsame ▸ hi, hexpired.trans h.now_le⟩

/-- Nobody can unload from a retired ring, at whatever revision. -/
theorem Retired.validateRecyclerRevision {r : Nat} (hretired : s.Retired value r) (h : s.Ordered value)
    (revision : Nat) : s.validateRecyclerRevision value r revision = false := by
  unfold State.validateRecyclerRevision
  split
  · rfl
  · next status hstatus =>
    rcases hretired with hlt | ⟨i, hi, hexpired⟩
    · have hroot := (h.inOrder.gone r hlt).2
      rw [Members.Store.ringRevision, hroot]
      simp
    · rw [Members.Store.ringStatusAt_of_ringStatus hstatus, hi]
      simp [hexpired]

/-- The ring that can be cleaned has been full for as long as a ring lasts: no arithmetic of 32 bits
is cut off. -/
theorem retired_of_ensureCanClean (h : s.Ordered value) {r : Nat} (hclean : s.ensureCanClean value = .ok r)
    (htime : s.now + T.recyclerExpirationTime < 2 ^ 32) : s.nextRingToClean value = some r ∧ s.Retired value r := by
  simp only [ensureCanClean, bind_eq_ok, okOr_eq_ok, ensure_eq_ok] at hclean
  obtain ⟨nextRing, hnext, status, hstatus, i, hi, -, hexpired, hr⟩ := hclean
  cases hr
  have hat : ((s.recycler value).ringStatusAt r).immutableSince = some i := by
    rw [← Members.Store.ringStatusAt_of_ringStatus hstatus]
    exact hi
  refine ⟨hnext, .inr ⟨i, hat, ?_⟩⟩
  · have hle : i ≤ s.now := h.since_le r i hat
    have hnow : s.nowU32 = s.now := Nat.mod_eq_of_lt (by omega)
    have hmax : U32.max = 2 ^ 32 - 1 := rfl
    rw [hnow, Nat.mod_eq_of_lt (by omega), U32.saturatingAdd_eq (by omega)] at hexpired
    rw [U64.saturatingAdd_eq (by have : U64.max = 2 ^ 64 - 1 := rfl; omega)]
    exact hexpired

/-- In every run whose merges move no voucher between rings: once the next ring of a recycler can be
cleaned, before the clock's 32 bits run out, no revision of that ring is valid any more, whatever
happens, and the same holds of every ring that was cleaned. -/
theorem cleaned_unspendable (hrun : Reaches exec MovesNoVoucher (genesis T) s) (value : CoinValue) :
    (∀ r, s.ensureCanClean value = .ok r → s.now + T.recyclerExpirationTime < 2 ^ 32 →
      (∀ out, s.cleanUnchecked value = .ok out → out.1.coinage.recyclersLastRemovedRingIndex.get value = some r) ∧
        ∀ s', Reaches exec MovesNoVoucher s s' → ∀ revision, s'.validateRecyclerRevision value r revision = false) ∧
    ∀ last, s.coinage.recyclersLastRemovedRingIndex.get value = some last → ∀ r, r < last + 1 →
      ∀ s', Reaches exec MovesNoVoucher s s' → ∀ revision, s'.validateRecyclerRevision value r revision = false := by
  have hordered := ((Ordered.genesis value).run hrun).ordered
  have hforever : ∀ r, s.Retired value r → ∀ s', Reaches exec MovesNoVoucher s s' →
      ∀ revision, s'.validateRecyclerRevision value r revision = false := by
    intro r hretired s' hrun'
    have honward := hordered.run hrun'
    exact (hretired.onward honward).validateRecyclerRevision honward.ordered
  refine ⟨fun r hclean htime => ?_, fun last hlast r hr => hforever r (.inl ?_)⟩
  · obtain ⟨hnext, hretired⟩ := retired_of_ensureCanClean hordered hclean htime
    refine ⟨fun out hout => ?_, hforever r hretired⟩
    simp only [cleanUnchecked, bind_eq_ok, okOr_eq_ok, hnext] at hout
    obtain ⟨nextRing, hsame, status, -, t, -, hout⟩ := hout
    cases hsame
    cases hout
    exact (StorageMap.get_insert _ _ _ _).trans (if_pos rfl)
  · rw [cleanedRings_of_get hlast]
    exact hr

/-! ### A full ring of the sample -/

/-- The first ring of the sample recycler is full, and some of its keys are included; the clock stands
at zero when the last ones are. -/
structure Filled (s : Members.Store Members.sampleConfig) (included : Nat) : Prop where
  movable : s.Movable 0 5
  active : s.suspendedCollections = none
  unsuspended : s.pendingSuspensions = ∅
  covers : Paging.Covers Members.sampleConfig.flexibleRingCapacity 767 (s.page 0)
  status : s.ringStatusAt 0 = ⟨767, included, if included = 767 then some 0 else none⟩
  revision_lt : ∀ root, s.root.get 0 = some root → root.revision < included

/-- A build of no more than can be included at once may be asked for. -/
theorem isOpen_buildRing {env : Members.Env Members.sampleConfig} {s : Members.Store Members.sampleConfig} {r n : Nat}
    (hactive : s.suspendedCollections = none) (happend : s.ringsState.appendOnly = true)
    (hunsuspended : s.pendingSuspensions = ∅) (hpos : 0 < n)
    (hle : n ≤ min ((s.ringStatusAt r).total - (s.ringStatusAt r).included) 20) :
    s.isOpen env (.buildRing r n) = true := by
  have hcontains : s.pendingSuspensions.contains r = false := by
    rw [hunsuspended]
    rfl
  have hshould : s.shouldBuildRing r 20 = some (min ((s.ringStatusAt r).total - (s.ringStatusAt r).included) 20) := by
    simp only [Members.Store.shouldBuildRing, hactive, happend, hcontains, Option.isSome_none,
      Bool.false_eq_true, if_false, Bool.not_true]
    exact if_neg (by omega)
  change ((s.shouldBuildRing r 20).any fun pending => 0 < n ∧ n ≤ pending) = true
  rw [hshould]
  exact decide_eq_true ⟨hpos, hle⟩

/-- The next build of the ring. -/
theorem Filled.exists_build {env : Members.Env Members.sampleConfig} {s : Members.Store Members.sampleConfig}
    {included : Nat} (h : Filled s included) (hnow : env.now = 0) (hlt : included < 767) :
    ∃ s', s.isOpen env (.buildRing 0 (min (767 - included) 20)) = true ∧
      s.exec env (.buildRing 0 (min (767 - included) 20)) = .ok s' ∧ Filled s' (included + min (767 - included) 20) := by
  generalize hn : min (767 - included) 20 = n
  have hmax : U32.max = 4294967295 := rfl
  obtain ⟨s', hs', hcollections, root, hroot, hrevision⟩ := Members.exists_buildRing env 0 n h.movable.collections
    (fun root hroot => by have := h.revision_lt root hroot; omega)
  obtain ⟨htotal, hincluded, -⟩ := Members.Store.keysToPush_spec (n := 4) n n (s.ringStatusAt 0)
    (by rw [h.status]; exact h.covers) (by rw [h.status]; exact hlt.le) (by rw [h.status]; exact (by decide : 767 ≤ U32.max)) le_rfl
    (by rw [h.status]; exact (by decide : 767 / 255 < 4))
  have himmutable := Members.Store.immutableSince_keysToPush s 0 n n (s.ringStatusAt 0)
  have hstatus := Members.Store.ringStatusAt_buildRing hs' h.movable.collections
  obtain ⟨_, _, _, _, _, -, -, -, -, -, -, -, -, hframe⟩ := Members.Store.buildRing_spec hs'
  refine ⟨s', isOpen_buildRing h.active h.movable.appendOnly h.unsuspended (by omega) ?_, hs',
    ⟨h.movable.build hs', ?_, ?_, ?_, ?_, ?_⟩⟩
  · rw [h.status]
    exact hn.ge
  · rw [hframe]
    exact h.active
  · rw [hframe]
    exact h.unsuspended
  · rw [hframe]
    exact h.covers
  · rw [h.status] at htotal hincluded himmutable hstatus
    generalize (s.keysToPush 0 n n _).2 = status at htotal hincluded himmutable hstatus
    obtain ⟨total, included', since⟩ := status
    simp only [if_neg hlt.ne] at htotal hincluded himmutable
    have hsum : included + min n (767 - included) = included + n := by omega
    rw [hstatus, htotal, hincluded, himmutable, hsum, hnow]
    have hcapacity : Members.RingExponent.r2e10.ringCapacity = 767 := rfl
    by_cases hall : included + n = 767
    · rw [if_pos ⟨hall, rfl, hcapacity.symm⟩, if_pos hall]
    · rw [if_neg fun hc => hall hc.1, if_neg hall]
  · intro root' hroot'
    rw [hroot] at hroot'
    cases hroot'
    rw [hrevision]
    cases hold : s.root.get 0 with
    | none => exact (by omega : 0 < included + n)
    | some old =>
      have := h.revision_lt old hold
      exact (by omega : old.revision + 1 < included + n)

/-- The ring is built to the end. -/
theorem exists_built {s : State sampleConfig} (hnow : s.now = 0) {included : Nat} (h : Filled (s.recycler 0) included)
    (hle : included ≤ 767) :
    ∃ s', Reaches exec MovesNoVoucher s s' ∧ Filled (s'.recycler 0) 767 ∧ s'.now = 0 ∧ s'.coinage = s.coinage := by
  generalize hleft : 767 - included = left
  induction left using Nat.strong_induction_on generalizing s included with
  | _ left ih =>
    rcases hle.lt_or_eq with hlt | rfl
    · obtain ⟨t, hopen, hexec, ht⟩ := h.exists_build hnow hlt
      obtain ⟨s₁, hs₁, hstore, henv, hcoinage⟩ := exists_members _ hopen hexec rfl
      have hstore' : s₁.recycler 0 = t := hstore
      have hnow₁ : s₁.now = 0 := by rw [now, henv]; exact hnow
      obtain ⟨s', hrun, hs', hnow', hcoinage'⟩ := ih _ (by omega) hnow₁ (hstore' ▸ ht) (by omega) rfl
      exact ⟨s', ((Reaches.refl s).tail (fun _ => trivial) hs₁).trans hrun, hs', hnow', hcoinage'.trans hcoinage⟩
    · exact ⟨s, .refl s, h, hnow, rfl⟩

/-- Loading 767 vouchers fills the first ring. -/
theorem exists_filled : ∃ s : State sampleConfig, Reaches exec MovesNoVoucher (genesis sampleConfig) s ∧
    Filled (s.recycler 0) 0 ∧ s.now = 0 ∧ s.coinage.recyclersLastRemovedRingIndex = ∅ := by
  obtain ⟨t₁, t₂, t₃, h₁, h₂, h₃, -, -, -, hcohort⟩ := Members.Store.exists_first_cohort
    (T := Members.sampleConfig) (Members.State.genesis Members.sampleConfig).env (0 : Nat) .r2e10
    (Members.sampleKeys_ne_nil (by decide)) (Members.sampleKeys_nodup 0 767) (fun _ _ => rfl)
    (by rw [Members.length_sampleKeys]; exact le_rfl) (by rw [Members.length_sampleKeys]; decide)
  obtain ⟨s₁, hs₁, hstore₁, henv₁, hcoinage₁⟩ := exists_ensureRecycler (s := genesis sampleConfig) 0 rfl h₁
    (Members.State.exists_register_genesis _ _ _ _ _ _ (by decide))
  rw [← hstore₁] at h₂
  obtain ⟨s₂, hrun₂, hstore₂, henv₂, hlast₂⟩ := exists_loads (G := MovesNoVoucher) 0 (fun _ _ => trivial)
    (by rw [hcoinage₁]; rfl) (fun _ _ => by rw [hcoinage₁]; rfl) (Members.sampleKeys_nodup 0 767) (fun _ _ => rfl)
    (by rw [henv₁]; exact h₂)
  rw [← hstore₂] at h₃
  obtain ⟨s₃, hs₃, hstore₃, henv₃, hcoinage₃⟩ := exists_members (s := s₂) (recyclerCollectionIdentifier 0)
    (c := .onboardMembers false) rfl (by rw [henv₂, henv₁]; exact h₃) rfl
  refine ⟨s₃, ((((Reaches.refl _).tail (i := .call (.ensureRecycler 0)) trivial hs₁).trans hrun₂).tail
    (i := .members (recyclerCollectionIdentifier 0) (.onboardMembers false)) (fun _ => trivial) hs₃), ?_, ?_, ?_⟩
  · have hstore : s₃.recycler 0 = t₃ := hstore₃
    rw [hstore]
    refine ⟨hcohort.movable (by decide), hcohort.waiting.active, hcohort.pending, ?_, ?_, ?_⟩
    · have hcovers := hcohort.packed.covers
      rwa [Members.length_sampleKeys] at hcovers
    · rw [hcohort.status, if_pos rfl, Members.length_sampleKeys]
      rfl
    · rw [hcohort.root]
      rintro root ⟨⟩
  · rw [now, henv₃, henv₂, henv₁]
    rfl
  · rw [hcoinage₃, hlast₂, hcoinage₁]
    rfl

/-- A ring that was full for as long as it lasts. -/
theorem exists_expired : ∃ s : State sampleConfig, Reaches exec MovesNoVoucher (genesis sampleConfig) s ∧
    Filled (s.recycler 0) 767 ∧ s.now = 1000 ∧ s.ensureCanClean 0 = .ok 0 := by
  obtain ⟨s, hrun, hfilled, hnow, hlast⟩ := exists_filled
  obtain ⟨s', hrun', hfilled', hnow', hcoinage'⟩ := exists_built hnow hfilled (by decide)
  let aged : State sampleConfig := { s' with
    members := { s'.members with env := { s'.members.env with now := s'.members.env.now + 1000 } } }
  have hadvance : s'.exec (.advance 1000) = .ok aged := rfl
  have hnow'' : aged.now = 1000 := by
    change s'.now + 1000 = 1000
    rw [hnow']
  refine ⟨aged, (hrun.trans hrun').tail (i := .advance 1000) trivial hadvance, hfilled', hnow'', ?_⟩
  have hnext : aged.nextRingToClean 0 = some 0 := by
    unfold nextRingToClean
    change (match s'.coinage.recyclersLastRemovedRingIndex.get 0 with
      | some i => checkedAdd 32 i 1 | none => some 0) = some 0
    rw [hcoinage', hlast]
    rfl
  have hstatus : (aged.recycler 0).ringStatus 0 = some ⟨767, 767, some 0⟩ := by
    have hinfo : (aged.recycler 0).collections.isNone = false := by
      rw [show (aged.recycler 0).collections = _ from hfilled'.movable.collections]
      rfl
    have hat : (aged.recycler 0).ringStatusAt 0 = ⟨767, 767, some 0⟩ := hfilled'.status
    rw [Members.Store.ringStatus, hinfo, hat]
    rfl
  simp only [ensureCanClean, hnext, hstatus, okOr_some, ok_bind]
  rw [ensure_pos]
  · rfl
  · rw [nowU32, hnow'']
    decide

/-- A ring of 767 vouchers that expired. -/
theorem cleaned_unspendable_full : ∃ s : State sampleConfig, s.ensureCanClean 0 = .ok 0 ∧
    ∀ s', Reaches exec MovesNoVoucher s s' → ∀ revision, s'.validateRecyclerRevision 0 0 revision = false := by
  obtain ⟨s, hrun, -, hnow, hclean⟩ := exists_expired
  exact ⟨s, hclean, ((cleaned_unspendable hrun 0).1 0 hclean (by rw [hnow]; decide)).2⟩

/-- The first ring of the sample recycler after a merge there and back: it counts a page of keys, none
of them included, and its root is gone. -/
structure Emptied (s : Members.Store Members.sampleConfig) : Prop where
  movable : s.Movable 0 5
  active : s.suspendedCollections = none
  unsuspended : s.pendingSuspensions = ∅
  status : s.ringStatusAt 0 = ⟨255, 0, none⟩
  root : s.root.get 0 = none

/-- The first page of a full ring is merged into a ring that does not exist, and back. -/
theorem Filled.exists_emptied (env : Members.Env Members.sampleConfig) {s : Members.Store Members.sampleConfig}
    {included : Nat} (h : Filled s included) : ∃ t s', s.exec env (.mergeRings 5 0) = .ok t ∧
      t.exec env (.mergeRings 0 5) = .ok s' ∧ Emptied s' := by
  obtain ⟨t, ht, hmovable, hroot⟩ := h.movable.merge env (by decide)
  obtain ⟨s', hs', hmovable', hroot'⟩ := hmovable.merge env (by decide)
  have hgone : t.root.get 0 = none := by
    rw [hroot, Members.Store.root_archiveRoot, if_pos rfl]
  have hstatus := Members.Store.ringStatusAt_mergeRings ht 0
  have hstatus' := Members.Store.ringStatusAt_mergeRings hs' 0
  obtain ⟨_, _, -, -, -, -, -, -, -, -, -, -, hframe⟩ := Members.Store.mergeRings_spec ht
  obtain ⟨_, _, -, -, -, -, -, -, -, -, -, -, hframe'⟩ := Members.Store.mergeRings_spec hs'
  refine ⟨t, s', ht, hs', hmovable', ?_, ?_, ?_, ?_⟩
  · rw [hframe', hframe]
    exact h.active
  · rw [hframe', hframe]
    exact h.unsuspended
  · rw [if_pos rfl] at hstatus
    rw [if_neg (by decide), if_pos rfl, hstatus, hmovable.first] at hstatus'
    exact hstatus'
  · rw [hroot', Members.Store.root_archiveRoot, if_neg (by decide), hgone]

/-- The ring can be built again, from its first revision on, and does not become full. -/
theorem Emptied.exists_build (env : Members.Env Members.sampleConfig) {s : Members.Store Members.sampleConfig}
    (h : Emptied s) : ∃ s', s.isOpen env (.buildRing 0 20) = true ∧ s.exec env (.buildRing 0 20) = .ok s' ∧
      (s'.ringStatus 0).map Members.RingStatus.immutableSince = some none ∧ (s'.ringRevision 0).isSome = true ∧
      s'.isRevisionValid env 0 0 = true := by
  obtain ⟨s', hs', hinfo, root, hroot, hrevision⟩ := Members.exists_buildRing env 0 20 h.movable.collections
    (by rw [h.root]; nofun)
  rw [h.root] at hrevision
  refine ⟨s', isOpen_buildRing h.active h.movable.appendOnly h.unsuspended (by decide) (by rw [h.status]; decide), hs',
    ?_, ?_, ?_⟩
  · have hmutable : (s'.ringStatusAt 0).immutableSince = none := by
      rw [Members.Store.ringStatusAt_buildRing hs' h.movable.collections, if_neg]
      · rw [Members.Store.immutableSince_keysToPush, h.status]
      · rw [Members.Store.total_keysToPush, h.status]
        exact fun hc => absurd hc.2.2 (by decide)
    rw [Members.Store.ringStatus, hinfo]
    exact congrArg some hmutable
  · rw [Members.Store.ringRevision, hroot]
    rfl
  · rw [Members.Store.isRevisionValid, hinfo, hroot]
    simp [hrevision]

/-- An expired ring that can be cleaned is merged there and back and built again: its first revision is
valid, and can be unloaded from. -/
theorem cleaned_unspendable_fails : ∃ s s' : State sampleConfig,
    Reaches exec (fun _ _ => True) (genesis sampleConfig) s ∧ s.now + sampleConfig.recyclerExpirationTime < 2 ^ 32 ∧
      s.ensureCanClean 0 = .ok 0 ∧ Reaches exec (fun _ _ => True) s s' ∧
      s'.validateRecyclerRevision 0 0 0 = true := by
  obtain ⟨s, hrun, hfilled, hnow, hclean⟩ := exists_expired
  obtain ⟨t₁, t₂, ht₁, ht₂, hemptied⟩ := hfilled.exists_emptied s.members.env
  obtain ⟨t₃, hopen, ht₃, hstatus, hcurrent, hvalid⟩ := hemptied.exists_build s.members.env
  obtain ⟨s₁, hs₁, rfl, henv₁, -⟩ := exists_members (s := s) (recyclerCollectionIdentifier 0)
    (c := .mergeRings 5 0) rfl ht₁ rfl
  rw [← henv₁] at ht₂
  obtain ⟨s₂, hs₂, rfl, henv₂, -⟩ := exists_members (s := s₁) (recyclerCollectionIdentifier 0)
    (c := .mergeRings 0 5) rfl ht₂ rfl
  rw [← henv₁, ← henv₂] at hopen ht₃ hvalid
  obtain ⟨s₃, hs₃, rfl, henv₃, -⟩ := exists_members (s := s₂) (recyclerCollectionIdentifier 0) hopen ht₃ rfl
  refine ⟨s, s₃, hrun.mono fun _ _ _ => trivial, by rw [hnow]; decide, hclean,
    (((Reaches.refl s).tail trivial hs₁).tail trivial hs₂).tail trivial hs₃, ?_⟩
  obtain ⟨status, hringStatus, hmutable⟩ := Option.map_eq_some_iff.mp hstatus
  have hringStatus : (s₃.recycler 0).ringStatus 0 = some status := hringStatus
  have hcurrent : ((s₃.recycler 0).ringRevision 0).isSome = true := hcurrent
  have hvalid : (s₃.recycler 0).isRevisionValid s₃.members.env 0 0 = true := by
    rw [henv₃]
    exact hvalid
  simp only [validateRecyclerRevision, hringStatus, hmutable, hcurrent, hvalid]
  rfl

end State
end Individuality.Coinage
