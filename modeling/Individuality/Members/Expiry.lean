import Individuality.Members.Incarnations
import Individuality.Members.StaleMarks

/-! The clean-up of old roots.

The clean-up walks the old roots of a ring in the order of their revisions and stops at the
first whose retention period has not passed. It finds all that are out of date as long as no
revision was archived before a lower one (`Aged`). A ring that is built again after it was
removed starts over at revision zero, and its next root is archived under a lower revision
than those of its earlier life (`KeepsOrder`). -/
namespace Individuality.Members
open Support
variable {T : Config}

namespace Store
variable {env : Env T} {s s' : Store T} {r : Nat}

/-- No root of the ring is kept under a higher revision than the current one that was archived before now. -/
def ArchivesInOrder (env : Env T) (s : Store T) (r : Nat) : Prop :=
  ∀ root ∈ s.root.get r, ∀ k ∈ s.oldRoots.keys, k.1 = r → root.revision < k.2 →
    ∀ oldRoot ∈ s.oldRoots.get k, env.now ≤ oldRoot.archivedAt

instance (env : Env T) (s : Store T) (r : Nat) : Decidable (s.ArchivesInOrder env r) := by
  unfold ArchivesInOrder
  infer_instance

/-- The old roots of a ring are archived before now, the later the higher their revision. -/
structure Aged (env : Env T) (s : Store T) (r : Nat) : Prop where
  past : ∀ j oldRoot, s.oldRoots.get (r, j) = some oldRoot → oldRoot.archivedAt ≤ env.now
  ordered : ∀ j j' oldRoot oldRoot', j ≤ j' → s.oldRoots.get (r, j) = some oldRoot →
    s.oldRoots.get (r, j') = some oldRoot' → oldRoot.archivedAt ≤ oldRoot'.archivedAt

theorem Aged.sub {env' : Env T} (h : s.Aged env r) (hnow : env.now ≤ env'.now)
    (hsub : ∀ j, s'.oldRoots.get (r, j) = s.oldRoots.get (r, j) ∨ s'.oldRoots.get (r, j) = none) : s'.Aged env' r := by
  have hget : ∀ {j oldRoot}, s'.oldRoots.get (r, j) = some oldRoot → s.oldRoots.get (r, j) = some oldRoot := by
    intro j oldRoot hold
    rcases hsub j with heq | hnone
    · exact heq ▸ hold
    · rw [hnone] at hold
      cases hold
  exact ⟨fun j oldRoot hold => (h.past j oldRoot (hget hold)).trans hnow,
    fun j j' oldRoot oldRoot' hle hold hold' => h.ordered j j' _ _ hle (hget hold) (hget hold')⟩

/-- A root is archived now, and later than those of lower revisions. -/
theorem Aged.archived (h : s.Aged env r) (horder : s.ArchivesInOrder env r) (harchived : s.ArchivedIn env s' r) :
    s'.Aged env r := by
  cases hroot : s.root.get r with
  | none =>
    refine h.sub le_rfl fun j => .inl ?_
    rw [harchived j, hroot]
  | some root =>
    have hold : ∀ j, s'.oldRoots.get (r, j) =
        if j = root.revision then some ⟨root.root, env.now⟩ else s.oldRoots.get (r, j) := by
      intro j
      rw [harchived j, hroot]
    refine ⟨fun j oldRoot hget => ?_, fun j j' oldRoot oldRoot' hle hget hget' => ?_⟩
    · rw [hold] at hget
      split at hget
      · cases hget
        exact le_rfl
      · exact h.past j oldRoot hget
    · rw [hold] at hget hget'
      split at hget' <;> split at hget
      · cases hget
        cases hget'
        exact le_rfl
      · cases hget'
        exact h.past j oldRoot hget
      · -- The root that is archived now is of a lower revision.
        rename_i hne hj
        cases hget
        refine horder root (by rw [hroot]; rfl) (r, j') ?_ rfl (by omega) oldRoot' hget'
        exact (StorageMap.mem_keys _ _).mpr (by rw [hget']; rfl)
      · exact h.ordered j j' oldRoot oldRoot' hle hget hget'

/-! ### The walk -/

theorem mem_oldRevisions {j : Nat} :
    j ∈ (s.oldRoots.keys.filter fun k => k.1 = r).map Prod.snd ↔ (s.oldRoots.get (r, j)).isSome = true := by
  rw [← StorageMap.mem_keys]
  constructor
  · intro h
    obtain ⟨⟨r', j'⟩, hk, rfl⟩ := List.mem_map.mp h
    obtain ⟨hmem, hr⟩ := List.mem_filter.mp hk
    rw [← of_decide_eq_true hr]
    exact hmem
  · intro h
    exact List.mem_map.mpr ⟨(r, j), List.mem_filter.mpr ⟨h, decide_eq_true rfl⟩, rfl⟩

theorem firstOldRevision_eq_none (h : s.firstOldRevision r = none) (j : Nat) : s.oldRoots.get (r, j) = none := by
  have hnil := List.min?_eq_none_iff.mp h
  by_contra hne
  have hmem := mem_oldRevisions.mpr (Option.isSome_iff_ne_none.mpr hne)
  rw [hnil] at hmem
  cases hmem

theorem firstOldRevision_eq_some {revision : Nat} (h : s.firstOldRevision r = some revision) :
    (∃ oldRoot, s.oldRoots.get (r, revision) = some oldRoot) ∧
      ∀ j oldRoot, s.oldRoots.get (r, j) = some oldRoot → revision ≤ j := by
  obtain ⟨hmem, hleast⟩ := List.min?_eq_some_iff.mp h
  refine ⟨Option.isSome_iff_exists.mp (mem_oldRevisions.mp hmem), fun j oldRoot hget => ?_⟩
  exact hleast j (mem_oldRevisions.mpr (by rw [hget]; rfl))

theorem exists_firstOldRevision {j : Nat} {oldRoot : OldRoot T} (h : s.oldRoots.get (r, j) = some oldRoot) :
    ∃ revision first, s.firstOldRevision r = some revision ∧ s.oldRoots.get (r, revision) = some first ∧
      revision ≤ j := by
  cases hfirst : s.firstOldRevision r with
  | none =>
    rw [firstOldRevision_eq_none hfirst j] at h
    cases h
  | some revision =>
    obtain ⟨⟨first, hget⟩, hleast⟩ := firstOldRevision_eq_some hfirst
    exact ⟨revision, first, rfl, hget, hleast j oldRoot h⟩

theorem expired_iff {oldRoot : OldRoot T} (hnow : env.now < U64.max) :
    oldRoot.expired env = true ↔ oldRoot.archivedAt + T.oldRootRetentionDuration ≤ env.now := by
  simp only [OldRoot.expired, decide_eq_true_eq, U64.saturatingAdd_le_iff hnow]

/-- The lowest of the kept revisions has expired when any has. -/
theorem Aged.exists_expired (h : s.Aged env r) {j : Nat} {oldRoot : OldRoot T}
    (hget : s.oldRoots.get (r, j) = some oldRoot) (hexpired : oldRoot.expired env = true) :
    ∃ revision first, s.firstOldRevision r = some revision ∧ s.oldRoots.get (r, revision) = some first ∧
      first.expired env = true := by
  obtain ⟨revision, first, hfirst, hget', hle⟩ := exists_firstOldRevision hget
  refine ⟨revision, first, hfirst, hget', ?_⟩
  have hbefore := h.ordered revision j first oldRoot hle hget' hget
  simp only [OldRoot.expired, decide_eq_true_eq] at hexpired ⊢
  exact (U64.saturatingAdd_mono hbefore).trans hexpired

/-- How many old roots of the ring are kept. -/
def oldRootCount (s : Store T) (r : Nat) : Nat := s.oldRoots.countOf fun k _ => k.1 = r

theorem oldRootCount_pos {j : Nat} {oldRoot : OldRoot T} (h : s.oldRoots.get (r, j) = some oldRoot) :
    0 < s.oldRootCount r := by
  refine Nat.pos_of_ne_zero fun hzero => ?_
  have := StorageMap.countOf_eq_zero_iff.mp hzero (r, j) oldRoot h
  simp at this

theorem oldRootCount_remove {j : Nat} {oldRoot : OldRoot T} (h : s.oldRoots.get (r, j) = some oldRoot) :
    Store.oldRootCount { s with oldRoots := s.oldRoots.remove (r, j) } r + 1 = s.oldRootCount r := by
  have hcount := s.oldRoots.countOf_remove (fun k _ => k.1 = r) (r, j)
  simp only [StorageMap.countAt, h, Option.any_some, decide_true, if_true] at hcount
  exact hcount

/-- With a limit that the old roots of the ring do not exceed, the walk removes all that have expired. -/
theorem Aged.cleanUpOldRoots {limit : Nat} (h : s.Aged env r) (hlimit : s.oldRootCount r ≤ limit) {j : Nat}
    {oldRoot : OldRoot T} (hget : s.oldRoots.get (r, j) = some oldRoot) (hexpired : oldRoot.expired env = true) :
    (Store.cleanUpOldRoots env r limit s).oldRoots.get (r, j) = none := by
  induction limit generalizing s with
  | zero => exact absurd (oldRootCount_pos hget) (by omega)
  | succ limit ih =>
    obtain ⟨revision, first, hfirst, hfirst', hexpired'⟩ := h.exists_expired hget hexpired
    have hpassed : ¬ env.now < U64.saturatingAdd first.archivedAt T.oldRootRetentionDuration :=
      Nat.not_lt.mpr (of_decide_eq_true hexpired')
    rw [Store.cleanUpOldRoots]
    simp only [hfirst, hfirst', if_neg hpassed]
    have hcount := oldRootCount_remove hfirst'
    by_cases hj : j = revision
    · -- What the walk removes does not come back.
      obtain ⟨oldRoots, hs, hroots⟩ := cleanUpOldRoots_spec env r limit
        { s with oldRoots := s.oldRoots.remove (r, revision) }
      rw [hs, hj]
      rcases hroots (r, revision) with heq | ⟨hnone, -⟩
      · rw [heq]
        simp
      · exact hnone
    · refine ih (h.sub le_rfl fun j' => ?_) (by omega) ?_
      · simp only [StorageMap.get_remove]
        split
        · exact .inr rfl
        · exact .inl rfl
      · rw [StorageMap.get_remove, if_neg (by simpa using hj)]
        exact hget

/-- Only roots of the ring are removed. -/
theorem cleanUpOldRoots_of_ne (limit : Nat) {k : Nat × Nat} (hk : k.1 ≠ r) :
    (Store.cleanUpOldRoots env r limit s).oldRoots.get k = s.oldRoots.get k := by
  induction limit generalizing s with
  | zero => rfl
  | succ limit ih =>
    have hne : ∀ revision, k ≠ (r, revision) := fun revision heq => hk (by rw [heq])
    rw [Store.cleanUpOldRoots]
    split
    · rfl
    · split
      · rfl
      · split
        · rfl
        · rw [ih, StorageMap.get_remove, if_neg (hne _)]

end Store

/-! ### Runs -/

/-- No root is archived under a lower revision than one that was archived before. -/
def KeepsOrder (env : Env T) (s : Store T) (c : Call T) : Prop :=
  ∀ r ∈ s.root.keys, s.archives r c = true → s.ArchivesInOrder env r

instance (env : Env T) (s : Store T) (c : Call T) : Decidable (KeepsOrder env s c) := by
  unfold KeepsOrder
  infer_instance

namespace Store.Aged
variable {env : Env T} {s s' : Store T} {c : Call T} {r : Nat}

theorem empty (env : Env T) (r : Nat) : (Store.empty T).Aged env r where
  past _ _ h := by cases h
  ordered _ _ _ _ _ h := by cases h

theorem step (h : s.Aged env r) (hG : KeepsOrder env s c) (hexec : s.exec env c = .ok s') : s'.Aged env r := by
  have horder : s.archives r c = true → s.ArchivesInOrder env r := by
    intro harchives root hroot
    refine hG r ((StorageMap.mem_keys _ _).mpr ?_) harchives root hroot
    exact Option.isSome_iff_exists.mpr ⟨root, hroot⟩
  cases exec_rootChange hexec r with
  | kept _ _ _ _ _ hold => exact h.sub le_rfl hold
  | built n root hcall _ _ harchived =>
    exact h.archived (horder (by simp [archives, builds, hcall])) harchived
  | reset _ hresets _ _ harchived => exact h.archived (horder (by simp [archives, hresets])) harchived
  | removed _ _ hremoves _ harchived => exact h.archived (horder (by simp [archives, hremoves])) harchived

theorem of_reachable {s : State T} (h : State.Reachable (State.OnCalls KeepsOrder) s) (id : Identifier) (r : Nat) :
    (s.store id).Aged s.env r := by
  refine State.reachable_invariant_at (I := fun env s => ∀ r, s.Aged env r) h (fun env r => empty env r) ?_ ?_ id r
  · exact fun env t c t' ht hG hexec r => (ht r).step hG hexec
  · exact fun env env' t ht hnow r => (ht r).sub hnow fun _ => .inl rfl

end Store.Aged

/-- In every state that runs reach which archive no root under a lower revision than one archived before, and
before the last second there is, the old roots of a ring are in order of their times; a clean-up
removes none within its retention period, and is accepted and removes all others of its ring if
the limit allows for all that are kept. -/
theorem old_roots_cleaned {s : State T} (h : State.Reachable (State.OnCalls KeepsOrder) s)
    (hnow : s.env.now < U64.max) (id : Identifier) (r limit : Nat) :
    (∀ j j' oldRoot oldRoot', j ≤ j' → (s.store id).oldRoots.get (r, j) = some oldRoot →
      (s.store id).oldRoots.get (r, j') = some oldRoot' → oldRoot.archivedAt ≤ oldRoot'.archivedAt) ∧
    (∀ t, (s.store id).cleanUpOldRootsAuthorized s.env r limit = .ok t →
      (∀ k, t.oldRoots.get k = (s.store id).oldRoots.get k ∨ t.oldRoots.get k = none ∧ k.1 = r ∧
        ∃ oldRoot, (s.store id).oldRoots.get k = some oldRoot ∧
          oldRoot.archivedAt + T.oldRootRetentionDuration ≤ s.env.now) ∧
      ((s.store id).oldRootCount r ≤ limit → ∀ j oldRoot, t.oldRoots.get (r, j) = some oldRoot →
        s.env.now < oldRoot.archivedAt + T.oldRootRetentionDuration)) ∧
    ∀ j oldRoot, (s.store id).oldRoots.get (r, j) = some oldRoot →
      oldRoot.archivedAt + T.oldRootRetentionDuration ≤ s.env.now →
      ∃ t, (s.store id).cleanUpOldRootsAuthorized s.env r limit = .ok t := by
  have haged := Store.Aged.of_reachable h id r
  refine ⟨haged.ordered, fun t hclean => ?_, fun j oldRoot hget hexpired => ?_⟩
  · simp only [Store.cleanUpOldRootsAuthorized, bind_eq_ok, okOr_eq_ok, ensure_eq_ok] at hclean
    obtain ⟨revision, -, first, -, -, -, hclean⟩ := hclean
    cases hclean
    have hroots : ∀ k, (Store.cleanUpOldRoots s.env r limit (s.store id)).oldRoots.get k = (s.store id).oldRoots.get k ∨
        (Store.cleanUpOldRoots s.env r limit (s.store id)).oldRoots.get k = none ∧ ∃ oldRoot,
          (s.store id).oldRoots.get k = some oldRoot ∧ oldRoot.expired s.env = true := by
      obtain ⟨oldRoots, hs, hroots⟩ := Store.cleanUpOldRoots_spec s.env r limit (s.store id)
      rw [hs]
      refine fun k => (hroots k).imp_right ?_
      rintro ⟨hnone, oldRoot, hget, hexpired⟩
      exact ⟨hnone, oldRoot, hget, decide_eq_true hexpired⟩
    refine ⟨fun k => ?_, fun hlimit j oldRoot hget => ?_⟩
    · by_cases hk : k.1 = r
      · refine (hroots k).imp_right ?_
        rintro ⟨hnone, oldRoot, hget, hexpired⟩
        exact ⟨hnone, hk, oldRoot, hget, (Store.expired_iff hnow).mp hexpired⟩
      · exact .inl (Store.cleanUpOldRoots_of_ne limit hk)
    · by_contra hpassed
      have hexpired : oldRoot.expired s.env = true := (Store.expired_iff hnow).mpr (by omega)
      rcases hroots (r, j) with heq | ⟨hnone, -⟩
      · rw [haged.cleanUpOldRoots hlimit (heq ▸ hget) hexpired] at hget
        cases hget
      · rw [hnone] at hget
        cases hget
  · obtain ⟨revision, first, hfirst, hfirst', hexpired'⟩ :=
      haged.exists_expired hget ((Store.expired_iff hnow).mpr hexpired)
    refine ⟨Store.cleanUpOldRoots s.env r limit (s.store id), ?_⟩
    simp only [Store.cleanUpOldRootsAuthorized, hfirst, hfirst', okOr_some, ok_bind,
      ensure_pos (of_decide_eq_true hexpired')]

/-- A ring is built in two steps, and its first root is archived ten seconds later. -/
def sampleAged : List (Action sampleConfig) :=
  ([.createCollection (0 : Nat) 1 .flexible .r2e9 none, .addMembers (sampleKeys 0 3), .onboardMembers true,
    .buildRing 0 2] : List (Call sampleConfig)).map (.call sampleId) ++
  [.advance 10, .call sampleId (.buildRing 0 1)]

theorem old_roots_cleaned_sample : ∃ s : State sampleConfig, State.Reachable (State.OnCalls KeepsOrder) s ∧
    ∃ t, (s.store sampleId).cleanUpOldRootsAuthorized s.env 0 1 = .ok t := by
  obtain ⟨s, hreach, hnow, hget⟩ := exists_reaches State.exec (State.OnCalls KeepsOrder) (State.genesis sampleConfig)
    (sampleAged ++ [.advance 100]) (fun s => s.env.now = 110 ∧
      (s.store sampleId).oldRoots.get (0, 0) = some ⟨([0, 1] : List Nat), 10⟩) (by decide +kernel)
  have hless : s.env.now < U64.max := by
    rw [hnow]
    decide
  exact ⟨s, hreach, (old_roots_cleaned hreach hless sampleId 0 1).2.2 0 _ hget hnow.ge⟩

/-- A ring of a deleted collection is built again ninety seconds later. -/
def sampleRebuilt : List (Action sampleConfig) :=
  ([.createCollection (0 : Nat) 1 .flexible .r2e9 none, .addMembers (sampleKeys 0 3), .onboardMembers true,
    .buildRing 0 2, .buildRing 0 1, .deleteCollection (0 : Nat), .enqueueRingDeletion 0, .deleteRingPage 0 0,
    .finalizeCollectionDeletion] : List (Call sampleConfig)).map (.call sampleId) ++ [.advance 90] ++
  ([.createCollection (0 : Nat) 1 .flexible .r2e9 none, .addMembers (sampleKeys 7 2), .onboardMembers true,
    .buildRing 0 1, .buildRing 0 1] : List (Call sampleConfig)).map (.call sampleId)

/-- The new collection's first root, kept under revision zero, is younger than the old one's kept under revision one,
and the clean-up does not get past it. -/
theorem old_roots_kept : ∃ s : State sampleConfig, State.Reachable (fun _ _ => True) s ∧ s.env.now = 110 ∧
    (s.store sampleId).oldRoots.get (0, 0) = some ⟨([7] : List Nat), 90⟩ ∧
    (s.store sampleId).oldRoots.get (0, 1) = some ⟨([0, 1, 2] : List Nat), 0⟩ ∧
    (s.store sampleId).oldRootCount 0 = 2 ∧
    ((s.store sampleId).cleanUpOldRootsAuthorized s.env 0 2).toOption.isNone = true :=
  exists_reaches State.exec (fun _ _ => True) (State.genesis sampleConfig) (sampleRebuilt ++ [.advance 20]) _
    (by decide +kernel)

end Individuality.Members
