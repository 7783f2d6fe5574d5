import Individuality.Members.Histories
import Individuality.Members.RootChanges

/-! The lives of a ring, and the roots its revisions denote.

A ring lives from its first build to its removal, and may live again: the first
build after a removal starts over at revision zero, while the roots archived in
earlier lives stay in storage until their retention period has passed.
`lineage` notes how often each ring was removed and in which life each kept root
was archived. A revision then denotes the current root or one of the same life
(`Store.Denotes`), as long as every first build finds no kept root of a revision
other than zero still in its retention period (`Store.startsFresh`); where one
is, the build brings it back to validity. -/
namespace Individuality.Members
open Support
variable {T : Config}

structure Lineage where
  /-- How often each ring was removed. -/
  incarnation : Nat → Nat
  /-- The life of the ring in which the root kept under a revision was archived. -/
  archivedIn : Nat × Nat → Nat

namespace Store

/-- Whether a call archives the root of the ring. -/
def archives (s : Store T) (r : Nat) (c : Call T) : Bool :=
  builds r c || s.resets r c || s.removes r c

end Store

def lineage (T : Config) : Observer T Lineage where
  start := ⟨fun _ => 0, fun _ => 0⟩
  observe _ s c _ n :=
    { incarnation := fun r => if s.removes r c then n.incarnation r + 1 else n.incarnation r
      archivedIn := fun k =>
        if s.archives k.1 c ∧ s.ringRevision k.1 = some k.2 then n.incarnation k.1
        else n.archivedIn k }

/-- The retention period of an old root has passed. -/
def OldRoot.expired (oldRoot : OldRoot T) (env : Env T) : Bool :=
  U64.saturatingAdd oldRoot.archivedAt T.oldRootRetentionDuration ≤ env.now

namespace Store
variable (env : Env T) (s : Store T) (n : Lineage) (r : Nat)

/-- The ring's first build finds no kept root that could come back with it. -/
def startsFresh : Call T → Bool
  | .buildRing r _ =>
    (s.root.get r).isSome || (s.oldRoots.keys.all fun k => k.1 ≠ r || k.2 = 0 ||
      ((s.oldRoots.get k).map fun oldRoot => oldRoot.expired env).getD true)
  | _ => true

/-- A root of the ring's present life: the current one, or one archived since the ring was
last removed. -/
def Denotes (revision : Nat) (root : T.RingMembers) : Prop :=
  (∃ current, s.root.get r = some current ∧ current.revision = revision ∧ current.root = root) ∨
    ∃ oldRoot, s.oldRoots.get (r, revision) = some oldRoot ∧ oldRoot.root = root ∧
      n.archivedIn (r, revision) = n.incarnation r

/-- While the ring has a root, a kept root of an earlier life has expired, or has the
revision of the current root. -/
def Settled : Prop :=
  ∀ current, s.root.get r = some current → ∀ j oldRoot, s.oldRoots.get (r, j) = some oldRoot →
    n.archivedIn (r, j) = n.incarnation r ∨ oldRoot.expired env = true ∨ j = current.revision

variable {env s n r}

theorem startsFresh_buildRing {m : Nat} (h : s.startsFresh env (.buildRing r m) = true)
    (hnone : s.root.get r = none) {j : Nat} {oldRoot : OldRoot T}
    (hget : s.oldRoots.get (r, j) = some oldRoot) : j = 0 ∨ oldRoot.expired env = true := by
  simp only [startsFresh, hnone, Option.isSome_none, Bool.false_or, List.all_eq_true] at h
  have hkey := h (r, j) ((StorageMap.mem_keys _ _).mpr (by rw [hget]; rfl))
  simpa [hget] using hkey

/-- A valid revision denotes a root. -/
theorem exists_getRootAtRevision {revision : Nat} (h : s.isRevisionValid env r revision = true) :
    ∃ root, s.getRootAtRevision env r revision = .ok root := by
  simp only [isRevisionValid, Bool.and_eq_true] at h
  obtain ⟨-, h⟩ := h
  unfold getRootAtRevision
  cases hcurrent : s.root.get r with
  | none =>
    rw [hcurrent] at h
    cases h
  | some current =>
    by_cases hrev : current.revision = revision
    · exact ⟨current.root, if_pos hrev⟩
    · cases hget : s.oldRoots.get (r, revision) with
      | none => simp [hcurrent, hrev, hget] at h
      | some oldRoot =>
        have hnow : env.now < U64.saturatingAdd oldRoot.archivedAt T.oldRootRetentionDuration := by
          simpa [hcurrent, hrev, hget] using h
        refine ⟨oldRoot.root, ?_⟩
        simp only [if_neg hrev, okOr_some, ok_bind, ensure_pos hnow]

/-- What a settled ring's revisions denote. -/
theorem getRootAtRevision_of_settled (h : s.Settled env n r) {revision : Nat}
    {root : T.RingMembers} (hroot : s.getRootAtRevision env r revision = .ok root) :
    s.Denotes n r revision root := by
  unfold getRootAtRevision at hroot
  split at hroot
  · cases hroot
  · rename_i current hcurrent
    split at hroot
    · rename_i hrev
      cases hroot
      exact .inl ⟨current, hcurrent, hrev, rfl⟩
    · rename_i hrev
      simp only [bind_eq_ok, okOr_eq_ok, ensure_eq_ok] at hroot
      obtain ⟨oldRoot, hget, -, hnow, hroot⟩ := hroot
      cases hroot
      refine .inr ⟨oldRoot, hget, rfl, ?_⟩
      rcases h current hcurrent revision oldRoot hget with hlife | hexpired | hrev'
      · exact hlife
      · simp only [OldRoot.expired, decide_eq_true_eq] at hexpired
        omega
      · exact absurd hrev'.symm hrev

/-- Replacing the root of a settled ring keeps the replaced one in the ring's present life. -/
theorem settled_of_archived {s' : Store T} {c : Call T} (hr : s.Settled env n r)
    (harchives : s.archives r c = true) (hremoves : s.removes r c = false)
    (harchived : s.ArchivedIn env s' r) {original : RingRoot T} (hroot : s.root.get r = some original)
    {j : Nat} {oldRoot : OldRoot T} (hget : s'.oldRoots.get (r, j) = some oldRoot) :
    ((lineage T).observe env s c s' n).archivedIn (r, j) =
        ((lineage T).observe env s c s' n).incarnation r ∨ oldRoot.expired env = true := by
  have hrev : s.ringRevision r = some original.revision := by rw [ringRevision, hroot]; rfl
  simp only [lineage, harchives, hremoves, hrev, true_and, Option.some.injEq]
  by_cases hj : j = original.revision
  · exact .inl (by simp [hj])
  · rw [harchived j, hroot] at hget
    simp only [if_neg hj] at hget
    rcases hr original hroot j oldRoot hget with hlife | hexpired | hj'
    · exact .inl (by simp [Ne.symm hj, hlife])
    · exact .inr hexpired
    · exact absurd hj' hj

/-- Every call that meets `startsFresh` leaves each ring settled. -/
theorem settled_step {s' : Store T} {c : Call T} (h : s.exec env c = .ok s')
    (hc : s.startsFresh env c = true) (hr : s.Settled env n r) :
    s'.Settled env ((lineage T).observe env s c s' n) r := by
  intro current hcurrent j oldRoot hget
  cases exec_rootChange h r with
  | kept hb hs hremoves hroot _ hold =>
    have harchives : s.archives r c = false := by simp [archives, hb, hs, hremoves]
    rw [hroot] at hcurrent
    have hget' : s.oldRoots.get (r, j) = some oldRoot := by
      rcases hold j with heq | hnone
      · rw [← heq, hget]
      · rw [hnone] at hget
        cases hget
    simpa [lineage, harchives, hremoves] using hr current hcurrent j oldRoot hget'
  | built m root hcall hroot hrev harchived =>
    subst hcall
    cases horiginal : s.root.get r with
    | some original =>
      exact (settled_of_archived hr (by simp [archives, builds]) rfl harchived horiginal hget).imp_right
        .inl
    | none =>
      right
      rw [harchived j, horiginal] at hget
      rw [hroot] at hcurrent
      cases hcurrent
      rw [horiginal] at hrev
      rw [hrev]
      exact (startsFresh_buildRing hc horiginal hget).symm
  | reset hcall hs hroot _ harchived =>
    cases horiginal : s.root.get r with
    | some original =>
      exact (settled_of_archived hr (by simp [archives, hs]) (by rw [hcall]; rfl) harchived
        horiginal hget).imp_right .inl
    | none =>
      rw [hcurrent, horiginal] at hroot
      cases hroot
  | removed _ _ _ hroot _ =>
    rw [hroot] at hcurrent
    cases hcurrent

theorem Settled.outside {env' : Env T} (h : s.Settled env n r) (hnow : env.now ≤ env'.now) :
    s.Settled env' n r := by
  intro current hcurrent j oldRoot hget
  refine (h current hcurrent j oldRoot hget).imp_right (Or.imp_left fun hexpired => ?_)
  simp only [OldRoot.expired, decide_eq_true_eq] at hexpired ⊢
  exact hexpired.trans hnow

end Store

/-- In a run in which every first build of a ring finds no root of an earlier life in its
retention period under a revision other than zero, whatever a revision is accepted for is
the ring's current root or one archived since the ring was last removed. -/
theorem no_dead_root {w : Observer.World T Lineage}
    (h : (lineage T).Reachable (fun env s c => s.startsFresh env c = true) w) (id : Identifier)
    (r revision : Nat) :
    (∀ root, (w.1.store id).getRootAtRevision w.1.env r revision = .ok root →
      (w.1.store id).Denotes (w.2 id) r revision root) ∧
    ((w.1.store id).isRevisionValid w.1.env r revision = true →
      ∃ root, (w.1.store id).Denotes (w.2 id) r revision root) ∧
    ∀ proof context msg a,
      (w.1.store id).verifyMembershipAtRev w.1.env proof r revision context msg = .ok a →
      ∃ capacity root, (w.1.store id).Denotes (w.2 id) r revision root ∧
        T.crypto.validate capacity proof root context msg = some a := by
  have hr : (w.1.store id).Settled w.1.env (w.2 id) r := by
    refine Observer.reachable_invariant (I := fun env s n => s.Settled env n r) h
      (fun _ current hcurrent => by cases hcurrent) ?_ (fun _ _ _ _ hI hnow => hI.outside hnow) id
    intro env s c s' n hI hG hexec
    exact Store.settled_step hexec hG hI
  have hdenotes : ∀ root, (w.1.store id).getRootAtRevision w.1.env r revision = .ok root →
      (w.1.store id).Denotes (w.2 id) r revision root := fun _ => Store.getRootAtRevision_of_settled hr
  refine ⟨hdenotes, fun hvalid => ?_, fun proof context msg a hverify => ?_⟩
  · obtain ⟨root, hroot⟩ := Store.exists_getRootAtRevision hvalid
    exact ⟨root, hdenotes root hroot⟩
  · simp only [Store.verifyMembershipAtRev, bind_eq_ok, okOr_eq_ok] at hverify
    obtain ⟨info, -, capacity, -, root, hroot, hvalidate⟩ := hverify
    exact ⟨capacity, root, hdenotes root hroot, hvalidate⟩

/-- A ring is built, in two steps, its collection is deleted and a new one created under the
same identifier, and its ring is built. -/
def sampleRecreated (builds : List (Call sampleConfig)) : List (Call sampleConfig) :=
  [.createCollection (0 : Nat) 1 .flexible .r2e9 none, .addMembers (sampleKeys 0 3),
    .onboardMembers true] ++ builds ++ [.deleteCollection (0 : Nat), .enqueueRingDeletion 0,
    .deleteRingPage 0 0, .finalizeCollectionDeletion,
    .createCollection (0 : Nat) 1 .flexible .r2e9 none, .addMembers (sampleKeys 7 1),
    .onboardMembers true, .buildRing 0 1]

theorem no_dead_root_sample : ∃ w, (lineage sampleConfig).sampleRun
      (fun env s c => s.startsFresh env c) (sampleRecreated [.buildRing 0 3]) = .ok w ∧
    (w.1.store sampleId).isRevisionValid w.1.env 0 0 = true ∧
    ∃ root, (w.1.store sampleId).Denotes (w.2 sampleId) 0 0 root := by
  obtain ⟨w, hw, hr, hvalid⟩ := Observer.exists_sampleRun (O := lineage sampleConfig)
    (G := fun env s c => s.startsFresh env c) (sampleRecreated [.buildRing 0 3])
    (fun w => (w.1.store sampleId).isRevisionValid w.1.env 0 0 = true) (by decide)
  exact ⟨w, hw, hvalid, (no_dead_root hr sampleId 0 0).2.1 hvalid⟩

/-- After two builds of the deleted collection's ring, revision one of the new collection's
ring denotes the root of the deleted one, and a proof by one of its members is accepted. -/
theorem no_dead_root_fails : ∃ w, (lineage sampleConfig).Reachable (fun _ _ _ => True) w ∧
    (w.1.store sampleId).members.get (0 : Nat) = none ∧
    (w.1.store sampleId).getRootAtRevision w.1.env 0 1 = .ok (sampleKeys 0 3) ∧
    (w.1.store sampleId).verifyMembershipAtRev w.1.env ((0, 5) : Nat × Nat) 0 1 (9 : Nat) (5 : Nat) =
      .ok ((0, 9) : Nat × Nat) ∧
    ¬ (w.1.store sampleId).Denotes (w.2 sampleId) 0 1 (sampleKeys 0 3) := by
  obtain ⟨w, -, hr, hmember, hroot, hverify, hcurrent, hlife⟩ := Observer.exists_sampleRun
    (O := lineage sampleConfig) (G := fun _ _ _ => true)
    (sampleRecreated [.buildRing 0 2, .buildRing 0 1])
    (fun w => (w.1.store sampleId).members.get (0 : Nat) = none ∧
      ((w.1.store sampleId).getRootAtRevision w.1.env 0 1).toOption.any
        (fun root : List Nat => root = [0, 1, 2]) = true ∧
      ((w.1.store sampleId).verifyMembershipAtRev w.1.env ((0, 5) : Nat × Nat) 0 1 (9 : Nat)
        (5 : Nat)).toOption.any (fun a : Nat × Nat => a = (0, 9)) = true ∧
      (w.1.store sampleId).ringRevision 0 = some 0 ∧
      (w.2 sampleId).archivedIn (0, 1) ≠ (w.2 sampleId).incarnation 0) (by decide)
  have hkeys : ∀ root : List Nat, decide (root = [0, 1, 2]) = true → root = [0, 1, 2] :=
    fun _ => of_decide_eq_true
  have halias : ∀ a : Nat × Nat, decide (a = (0, 9)) = true → a = (0, 9) :=
    fun _ => of_decide_eq_true
  refine ⟨w, Reaches.mono hr fun _ a _ => ?_, hmember,
    eq_ok_of_any hkeys hroot, eq_ok_of_any halias hverify, ?_⟩
  · cases a <;> trivial
  · rintro (⟨current, hget, hrev, -⟩ | ⟨oldRoot, -, -, hsame⟩)
    · rw [Store.ringRevision, hget] at hcurrent
      cases hcurrent.symm.trans (congrArg some hrev)
    · exact hlife hsame

end Individuality.Members
