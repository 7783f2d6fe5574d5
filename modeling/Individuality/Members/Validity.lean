import Individuality.Members.Deletion
import Individuality.Members.Flexible
import Individuality.Members.Merging
import Individuality.Members.RootCommitment

/-! Revisions that are past.

Others keep the revision of a ring that they have seen and ask later whether it still
stands: whether it is the ring's, or was replaced no longer ago than they allow
(`Store.Stands`). Time ends that, and so does the removal of the ring; a call brings it
back only where it gives the ring that revision again, or gives a ring without a root a
new one while the old root is still kept (`Store.Revives`). -/
namespace Individuality.Members
open Support
variable {T : Config} {env env' : Env T} {s s' : Store T} {c : Call T} {grace r revision : Nat}

namespace Store

/-- The old root is retained, and was replaced no longer ago than the grace period. -/
def KeptFor (env : Env T) (s : Store T) (grace r revision : Nat) : Prop :=
  ∃ oldRoot, s.oldRoots.get (r, revision) = some oldRoot ∧
    env.now < U64.saturatingAdd oldRoot.archivedAt T.oldRootRetentionDuration ∧
    env.now ≤ U64.saturatingAdd oldRoot.archivedAt grace

def Stands (env : Env T) (s : Store T) (grace r revision : Nat) : Prop :=
  s.collections.isSome = true ∧ ∃ root, s.root.get r = some root ∧
    (root.revision = revision ∨ s.KeptFor env grace r revision)

def Revives (env : Env T) (s : Store T) (grace : Nat) (c : Call T) (r revision : Nat) : Prop :=
  s.nextRevision c r = some revision ∨
    (builds r c = true ∧ s.root.get r = none ∧ s.KeptFor env grace r revision)

theorem isRevisionValid_iff : s.isRevisionValid env r revision = true ↔ s.collections.isSome = true ∧
    ∃ root, s.root.get r = some root ∧ (root.revision = revision ∨ ∃ oldRoot, s.oldRoots.get (r, revision) = some oldRoot ∧
      env.now < U64.saturatingAdd oldRoot.archivedAt T.oldRootRetentionDuration) := by
  rw [isRevisionValid, Bool.and_eq_true]
  refine and_congr_right fun _ => ?_
  cases s.root.get r with
  | none => simp
  | some root => cases s.oldRoots.get (r, revision) <;> simp

/-- A collection that does not exist has no roots. -/
structure Unborn (s : Store T) : Prop where
  tracked : Tracked s
  root : s.collections = none → s.suspendedCollections = none → ∀ r, s.root.get r = none

theorem Unborn.empty : (Store.empty T).Unborn := ⟨Tracked.empty, fun _ _ _ => rfl⟩

theorem KeptFor.earlier (h : s.KeptFor env' grace r revision) (hnow : env.now ≤ env'.now) :
    s.KeptFor env grace r revision := by
  obtain ⟨oldRoot, hget, hretained, hgrace⟩ := h
  exact ⟨oldRoot, hget, hnow.trans_lt hretained, hnow.trans hgrace⟩

theorem Stands.earlier (h : s.Stands env' grace r revision) (hnow : env.now ≤ env'.now) :
    s.Stands env grace r revision := by
  obtain ⟨hcollections, root, hroot, hstands⟩ := h
  exact ⟨hcollections, root, hroot, hstands.imp_right fun hkept => hkept.earlier hnow⟩

end Store

/-! ### A call -/

theorem ringRevision_removeSuspendedKeys (env : Env T) (s : Store T) (r : Nat) (hcollections : s.collections.isSome = true) :
    (s.removeSuspendedKeys env r).ringRevision r = s.nextRevision (.removeSuspendedKeys r) r := by
  rcases Store.removeSuspendedKeys_spec env s r with ⟨hnone, -⟩ | ⟨info, capacity, members, page, -, -, -, -, hs⟩
  · rw [hnone] at hcollections
    cases hcollections
  · have hroot : (s.removeSuspendedKeys env r).root = (s.resetRoot env capacity r).root := by
      have h := congrArg Store.root hs
      exact h
    rw [Store.ringRevision, hroot, Store.root_resetRoot, if_pos rfl, Option.map_map, Store.nextRevision, if_pos rfl]
    rfl

/-- A ring whose root a call replaces or removes keeps the replaced one, and no other new one. -/
theorem kept_of_archived (harchived : s.ArchivedIn env s' r) (hkept : s'.KeptFor env grace r revision) :
    s.ringRevision r = some revision ∨ s.KeptFor env grace r revision := by
  obtain ⟨oldRoot, hget, hnow⟩ := hkept
  rw [harchived revision] at hget
  cases hroot : s.root.get r with
  | none =>
    rw [hroot] at hget
    exact .inr ⟨oldRoot, hget, hnow⟩
  | some root =>
    rw [hroot] at hget
    by_cases hrevision : revision = root.revision
    · rw [Store.ringRevision, hroot, hrevision]
      exact .inl rfl
    · exact .inr ⟨oldRoot, (if_neg hrevision).symm.trans hget, hnow⟩

theorem root_of_unborn (hexec : s.exec env c = .ok s') (hnone : s.collections = none) (hroot : ∀ r, s.root.get r = none) :
    ∀ r, s'.root.get r = none := by
  intro r
  cases exec_rootChange hexec r with
  | kept _ _ _ hsame _ _ => exact hsame.trans (hroot r)
  | built n _ hcall _ _ _ =>
    rw [hcall] at hexec
    obtain ⟨info, _, _, _, _, hinfo, -⟩ := Store.buildRing_spec hexec
    cases hnone.symm.trans hinfo
  | reset hcall hresets _ _ _ =>
    rw [hcall] at hresets
    simp [Store.resets, hnone] at hresets
  | removed _ _ _ hgone _ => exact hgone

theorem Store.Unborn.step (h : s.Unborn) (hexec : s.exec env c = .ok s') : s'.Unborn := by
  refine ⟨h.tracked.step hexec, fun hnone hsuspended => ?_⟩
  cases exec_infoChange hexec with
  | same hcollections hsame =>
    have hold := hcollections.symm.trans hnone
    exact root_of_unborn hexec hold (h.root hold (hsame.symm.trans hsuspended))
  | created hold hfree _ => exact root_of_unborn hexec hold (h.root hold hfree)
  | marked hfree _ hmoved =>
    have hold := hmoved.symm.trans hsuspended
    exact root_of_unborn hexec hold (h.root hold hfree)
  | finalized hcall _ _ =>
    rw [hcall] at hexec
    cases exec_effect hexec with
    | session _ hcall => rcases hcall with hcall | hcall <;> cases hcall
    | finalizeCollectionDeletion _ hstatus _ _ =>
      intro r
      have hroot : s.root.get r = none := by
        by_contra hsome
        have hget := h.tracked.root r (Option.isSome_iff_ne_none.mpr hsome)
        rw [hstatus r] at hget
        cases hget
      exact hroot

/-- A revision that is past stays past, unless the call revives it. -/
theorem not_stands_step (h : s.Unborn) (hexec : s.exec env c = .ok s') (hpast : ¬s.Stands env grace r revision)
    (hrevives : ¬s.Revives env grace c r revision) : ¬s'.Stands env grace r revision := by
  rintro ⟨hsome, root, hroot, hstands⟩
  cases hcollections : s.collections with
  | none =>
    -- Only a creation leaves a collection where there was none, and it has no roots yet.
    have hfree : s.suspendedCollections = none := by
      cases exec_infoChange hexec with
      | same hsame _ => rw [hsame, hcollections] at hsome; cases hsome
      | created _ hfree _ => exact hfree
      | marked hfree _ _ => exact hfree
      | finalized _ _ hsame => rw [hsame, hcollections] at hsome; cases hsome
    cases (root_of_unborn hexec hcollections (h.root hcollections hfree) r).symm.trans hroot
  | some info =>
    have hnot : ∀ old, s.root.get r = some old → old.revision ≠ revision ∧ ¬s.KeptFor env grace r revision :=
      fun old hold => not_or.mp fun hor => hpast ⟨by rw [hcollections]; rfl, old, hold, hor⟩
    have hring : ∀ old, s.root.get r = some old → s.ringRevision r ≠ some revision := by
      intro old hold heq
      rw [Store.ringRevision, hold] at heq
      exact (hnot old hold).1 (Option.some.inj heq)
    cases exec_rootChange hexec r with
    | kept _ _ _ hsame _ holdRoots =>
      obtain ⟨hrevision, hkept⟩ := hnot root (hsame.symm.trans hroot)
      refine hstands.elim hrevision ?_
      rintro ⟨oldRoot, hget, hnow⟩
      rcases holdRoots revision with heq | hnone
      · exact hkept ⟨oldRoot, heq.symm.trans hget, hnow⟩
      · cases hnone.symm.trans hget
    | built n newRoot hcall hnew hrevision harchived =>
      cases hnew.symm.trans hroot
      subst hcall
      obtain ⟨_, capacity, start, _, _, -, -, hstart, -⟩ := Store.buildRing_spec hexec
      cases hold : s.root.get r with
      | none =>
        rw [hold] at hrevision
        refine hstands.elim (fun heq => hrevives (.inl ?_)) fun hkept => hrevives (.inr ⟨by simp [Store.builds], hold, ?_⟩)
        · simp [Store.nextRevision, hold, ← heq, hrevision]
        · refine (kept_of_archived harchived hkept).resolve_left fun heq => ?_
          rw [Store.ringRevision, hold] at heq
          cases heq
      | some old =>
        rw [hold] at hrevision
        simp only [Store.buildStart, hold, bind_eq_ok, ensure_eq_ok] at hstart
        obtain ⟨-, hlt, -⟩ := hstart
        have hfits : old.revision + 1 ≤ U32.max := hlt
        refine hstands.elim (fun heq => hrevives (.inl ?_)) fun hkept => ?_
        · simp only [Store.nextRevision, if_true, hold, ← heq, hrevision, U32.saturatingAdd_eq hfits]
        · exact (kept_of_archived harchived hkept).elim (hring old hold) (hnot old hold).2
    | reset hcall hresets hsame _ harchived =>
      subst hcall
      have hs' : s' = s.removeSuspendedKeys env r := by
        cases exec_effect hexec with
        | session _ hcall => rcases hcall with hcall | hcall <;> cases hcall
        | removeSuspendedKeys _ => rfl
      have hnext := ringRevision_removeSuspendedKeys env s r (by rw [hcollections]; rfl)
      rw [hs'] at hroot
      rw [Store.ringRevision, hroot] at hnext
      obtain ⟨old, hold⟩ : ∃ old, s.root.get r = some old := by
        rw [← Option.isSome_iff_exists, ← hsame, hs', hroot]
        rfl
      refine hstands.elim (fun heq => hrevives (.inl ?_)) fun hkept => ?_
      · exact hnext.symm.trans (congrArg some heq)
      · exact (kept_of_archived harchived hkept).elim (hring old hold) (hnot old hold).2
    | removed _ _ _ hgone _ => cases hgone.symm.trans hroot

/-! ### A revision that comes back -/

namespace Store

/-- The first page of one ring is full, that of the other one empty. -/
structure Movable (s : Store sampleConfig) (r r' : Nat) : Prop where
  collections : s.collections = some ⟨.external (0 : Nat), .appendOnly, .r2e10, none⟩
  appendOnly : s.ringsState.appendOnly = true
  currentRing : s.currentRingIndex = 1
  first : (s.page r 0).length = 255
  other : s.page r' 0 = []
  pending : ∀ r, (s.pendingAt r).length = 0
  records : ∀ k ∈ s.page r 0, (s.members.get k).isSome = true

theorem FirstCohort.movable {s : Store sampleConfig} {r' : Nat}
    (h : FirstCohort s ⟨.external (0 : Nat), .appendOnly, .r2e10, none⟩ (sampleKeys 0 767)) (hr' : r' ≠ 0) :
    Movable s 0 r' := by
  refine ⟨h.waiting.collections, h.waiting.appendOnly, ?_, ?_, h.page_of_ne r' hr' 0, fun r => ?_, fun k hk => ?_⟩
  · rw [h.currentRing, length_sampleKeys]
    rfl
  · rw [h.packed 0, length_sampleKeys]
    rfl
  · rw [pendingAt, h.pending]
    rfl
  · obtain ⟨i, hi⟩ := List.getElem?_of_mem hk
    rw [(h.record_iff (sampleKeys_nodup 0 767) k 0 0 i).mpr hi]
    rfl

theorem Movable.build {env : Env sampleConfig} {s s' : Store sampleConfig} {r r' : Nat} {ring n : Nat}
    (h : Movable s r r') (hbuild : s.buildRing env ring n = .ok s') : Movable s' r r' := by
  obtain ⟨_, _, _, _, _, -, -, -, -, -, -, -, -, hs'⟩ := buildRing_spec hbuild
  rw [hs']
  exact ⟨h.collections, h.appendOnly, h.currentRing, h.first, h.other, h.pending, h.records⟩

/-- The first page moves, and the ring that it leaves has no root. -/
theorem Movable.merge (env : Env sampleConfig) {s : Store sampleConfig} {r r' : Nat} (h : Movable s r r')
    (hrings : r' ≠ r ∧ r' ≠ 1 ∧ r ≠ 1) :
    ∃ s', s.mergeRings env r' r = .ok s' ∧ Movable s' r' r ∧ s'.root = (s.archiveRoot env r).root := by
  have hlength : (s.page r' 0).length = 0 := by
    rw [h.other]
    rfl
  have hhalf : (255 : Nat) < RingExponent.r2e10.ringCapacity / 2 := by decide
  have hfit : (255 : Nat) ≤ sampleConfig.flexibleRingCapacity := by decide
  obtain ⟨s', hs'⟩ := exists_mergeRings env r' r h.collections h.appendOnly (by rw [h.currentRing]; exact hrings)
    (by rw [hlength]; decide) (by rw [h.first]; exact hhalf) ⟨h.pending _, h.pending _⟩ h.records
    (by rw [hlength, h.first, Nat.zero_add]; exact hfit)
  have hpage := page_mergeRings hs'
  obtain ⟨_, m, -, -, -, -, -, -, -, -, -, hm, heq⟩ := mergeRings_spec hs'
  have hmoved : s'.page r' 0 = s.page r 0 := by
    rw [hpage, if_neg fun hr => hrings.1 hr.1, if_pos ⟨rfl, rfl⟩, h.other, List.nil_append]
  refine ⟨s', hs', ⟨?_, ?_, ?_, ?_, ?_, fun ring => ?_, fun k hk => ?_⟩, ?_⟩
  · rw [heq]; exact h.collections
  · rw [heq]; exact h.appendOnly
  · rw [heq]; exact h.currentRing
  · rw [hmoved]; exact h.first
  · rw [hpage, if_pos ⟨rfl, rfl⟩]
  · rw [heq]; exact h.pending ring
  · rw [hmoved] at hk
    obtain ⟨-, i, -, -, hrecord⟩ := (moveKeys_spec hm).2.2.2 k hk
    rw [heq]
    show (m.1.members.get k).isSome = true
    rw [hrecord]
    rfl
  · rw [heq]

/-- A revision comes back: the first page of a ring moves to another ring, whereby its root goes, and
back again. -/
theorem exists_revived {s : Store sampleConfig} (env : Env sampleConfig)
    (h : FirstCohort s ⟨.external (0 : Nat), .appendOnly, .r2e10, none⟩ (sampleKeys 0 767)) :
    ∃ s₁ s₂ s₃ s₄, s.exec env (.buildRing 0 1) = .ok s₁ ∧ s₁.exec env (.mergeRings 5 0) = .ok s₂ ∧
      s₂.exec env (.mergeRings 0 5) = .ok s₃ ∧ s₃.exec env (.buildRing 0 1) = .ok s₄ ∧
      s₁.collections.isSome = true ∧ s₄.collections.isSome = true ∧
      s₂.root.get 0 = none ∧ (∃ root, s₄.root.get 0 = some root ∧ root.revision = 0) ∧
      ∃ root, s₁.root.get 0 = some root ∧ root.revision = 0 ∧ root.root ≠ ([] : List Nat) := by
  obtain ⟨s₁, hs₁⟩ : ∃ s₁, s.exec env (.buildRing 0 1) = .ok s₁ := by
    obtain ⟨s₁, hs₁, -⟩ := exists_buildRing env 0 1 h.waiting.collections (by rw [h.root]; nofun)
    exact ⟨s₁, hs₁⟩
  have hmovable : Movable s 0 5 := h.movable (by decide)
  have hmovable₁ := hmovable.build hs₁
  obtain ⟨s₂, hs₂, hmovable₂, hroot₂⟩ := hmovable₁.merge env (by decide)
  obtain ⟨s₃, hs₃, hmovable₃, hroot₃⟩ := hmovable₂.merge env (by decide)
  have hgone₂ : s₂.root.get 0 = none := by
    rw [hroot₂, root_archiveRoot, if_pos rfl]
  have hgone₃ : s₃.root.get 0 = none := by
    rw [hroot₃, root_archiveRoot, if_neg (by decide)]
    exact hgone₂
  obtain ⟨s₄, hs₄, hinfo₄, root₄, hroot₄, hrevision₄⟩ := exists_buildRing env 0 1 hmovable₃.collections
    (by rw [hgone₃]; nofun)
  rw [hgone₃] at hrevision₄
  refine ⟨s₁, s₂, s₃, s₄, hs₁, hs₂, hs₃, hs₄, by rw [hmovable₁.collections]; rfl, by rw [hinfo₄]; rfl, hgone₂,
    ⟨root₄, hroot₄, hrevision₄⟩, ?_⟩
  obtain ⟨_, _, start, root, _, -, -, hstart, hrevision, hpushed, hroot, -, -, heq⟩ := buildRing_spec hs₁
  have hstatus : s.ringStatusAt 0 = ⟨767, 0, none⟩ := by
    rw [h.status 0, if_pos rfl, length_sampleKeys]
  have hcovers : Paging.Covers sampleConfig.flexibleRingCapacity (s.ringStatusAt 0).total (s.page 0) := by
    rw [hstatus]
    have hpacked := h.packed.covers
    rwa [length_sampleKeys] at hpacked
  obtain ⟨-, hincluded, htake⟩ := keysToPush_spec 1 1 (s.ringStatusAt 0) hcovers (by rw [hstatus]; decide)
    (by rw [hstatus]; decide) le_rfl (Nat.lt_succ_self _)
  simp only [buildStart, h.root, StorageMap.get_empty] at hstart
  cases hstart
  refine ⟨root, by rw [heq]; exact (StorageMap.get_insert _ _ _ _).trans (if_pos rfl), hrevision, ?_⟩
  have hkeys : (s.keysToPush 0 1 1 (s.ringStatusAt 0)).1 = root.root := by
    rw [hroot, hpushed]
    exact idealVrf.pushMembers_eq [] (s.keysToPush 0 1 1 (s.ringStatusAt 0)).1 (fun _ _ => none) _ rfl
  intro hnil
  rw [hkeys, hnil, hincluded, hstatus] at htake
  have htaken : (Paging.concat (s.page 0) 4).take 1 = [] := htake.trans (List.append_nil _)
  have hfirst : (s.page 0 0).length = 255 := hmovable.first
  have hempty : Paging.concat (s.page 0) 4 = [] := (List.take_eq_nil_iff.mp htaken).resolve_left (by decide)
  simp only [Paging.concat_succ, Paging.concat_zero, List.nil_append, List.append_eq_nil_iff] at hempty
  rw [hempty.1.1.1] at hfirst
  cases hfirst

end Store

end Individuality.Members
