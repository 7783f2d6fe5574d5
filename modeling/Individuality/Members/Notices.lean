import Individuality.Members.Histories
import Individuality.Members.RootChanges

/-! What subscribers are told about roots.

A build, and the archiving of a removed ring's root, notify whoever listens to
root changes; `remove_suspended_keys` resets a root and leaves the notification
to the build that follows, which it asks for by marking the ring stale, but only
when it retained a key. So a ring that is not stale has the root its
subscribers were told of last (`Store.Told`) as long as every removal that
leaves no key finds the ring without a root or already stale
(`Store.tellsLater`). Any other removal that leaves no key leaves the
subscribers with the root that still contains the suspended members. -/
namespace Individuality.Members
open Support
variable {T : Config}

inductive RingRootOp (T : Config)
  | built (revision : Nat) (root : T.RingMembers)
  | deleted
  deriving DecidableEq

namespace Store

/-- The notification that goes with a root's archiving, when there is a root. -/
def deletedNotice (s : Store T) (r : Nat) : List (Nat × RingRootOp T) :=
  match s.root.get r with
  | some _ => [(r, .deleted)]
  | none => []

/-- What an accepted call on `s` that leaves `s'` passes to `on_ring_root_change`. A build
passes the root it inserts. -/
def notices (s s' : Store T) : Call T → List (Nat × RingRootOp T)
  | .buildRing r _ =>
    match s'.root.get r with
    | some root => [(r, .built root.revision root.root)]
    | none => []
  | .mergeRings _ target => s.deletedNotice target
  | .removeRing r => if s.ringQueued r then [] else s.deletedNotice r
  | .enqueueRingDeletion r => s.deletedNotice r
  | _ => []

end Store

/-- The log of a collection's notifications, the newest first. -/
def noticeLog (T : Config) : Observer T (List (Nat × RingRootOp T)) where
  start := []
  observe _ s c s' log := s.notices s' c ++ log

/-- The last notification about a ring. -/
def lastNotice (log : List (Nat × RingRootOp T)) (r : Nat) : Option (RingRootOp T) :=
  (log.find? fun n => n.1 = r).map Prod.snd

@[simp] theorem lastNotice_cons (r r' : Nat) (op : RingRootOp T)
    (log : List (Nat × RingRootOp T)) :
    lastNotice ((r', op) :: log) r = if r' = r then some op else lastNotice log r := by
  unfold lastNotice
  by_cases hr : r' = r <;> simp [hr]

namespace Store
variable (s s' : Store T) (log : List (Nat × RingRootOp T)) (r : Nat)

/-- The last notification about the ring tells of its root as it is. -/
def Told : Prop :=
  match s.root.get r with
  | some root => lastNotice log r = some (.built root.revision root.root)
  | none => lastNotice log r = none ∨ lastNotice log r = some .deleted

instance : Decidable (s.Told log r) := by
  unfold Told
  split <;> infer_instance

/-- A removal that leaves no key of a ring with a root finds the ring stale already. -/
def tellsLater : Call T → Bool
  | .removeSuspendedKeys r =>
    (s.root.get r).isNone || (s.staleRings.get r).isSome || !(s.retained r).isEmpty
  | _ => true

theorem lastNotice_deletedNotice (r' : Nat) : lastNotice (s.deletedNotice r' ++ log) r =
    if r' = r ∧ (s.root.get r).isSome = true then some .deleted else lastNotice log r := by
  unfold deletedNotice
  by_cases hr : r' = r
  · subst hr
    cases s.root.get r' <;> simp
  · cases s.root.get r' <;> simp [hr]

variable {s s' log r}

/-- A call that does not build or remove a ring says nothing about it. -/
theorem lastNotice_kept {c : Call T} (hb : builds r c = false) (hc : s.removes r c = false) :
    lastNotice (s.notices s' c ++ log) r = lastNotice log r := by
  cases c with
  | buildRing r' n =>
    have hr : r' ≠ r := by simpa [builds] using hb
    simp only [notices]
    cases s'.root.get r' <;> simp [hr]
  | mergeRings base target =>
    have hr : target ≠ r := by simpa [removes] using hc
    simp only [notices]
    rw [lastNotice_deletedNotice, if_neg fun h => hr h.1]
  | removeRing r' =>
    simp only [notices]
    split
    · rfl
    · rename_i hq
      have hr : r' ≠ r := by
        rintro rfl
        simp [removes, hq] at hc
      rw [lastNotice_deletedNotice, if_neg fun h => hr h.1]
  | enqueueRingDeletion r' =>
    have hr : r' ≠ r := by simpa [removes] using hc
    simp only [notices]
    rw [lastNotice_deletedNotice, if_neg fun h => hr h.1]
  | _ => rfl

/-- A call that removes a ring tells that its root is gone, if it had one. -/
theorem lastNotice_removed {c : Call T} (hc : s.removes r c = true) :
    lastNotice (s.notices s' c ++ log) r =
      if (s.root.get r).isSome = true then some .deleted else lastNotice log r := by
  cases c with
  | mergeRings base target =>
    obtain rfl : target = r := by simpa [removes] using hc
    simp only [notices]
    rw [lastNotice_deletedNotice]
    simp
  | removeRing r' =>
    obtain ⟨rfl, hq⟩ : r' = r ∧ s.ringQueued r = false := by simpa [removes] using hc
    simp only [notices, hq]
    exact (lastNotice_deletedNotice s log r' r').trans (by simp)
  | enqueueRingDeletion r' =>
    obtain rfl : r' = r := by simpa [removes] using hc
    simp only [notices]
    rw [lastNotice_deletedNotice]
    simp
  | _ => cases hc

/-- A ring without a root is told of, and so is one with a root unless it is stale. -/
def ToldOrStale (s : Store T) (log : List (Nat × RingRootOp T)) (r : Nat) : Prop :=
  s.Told log r ∨ (s.root.get r).isSome = true ∧ s.staleRings.get r = some ()

/-- Every call that meets `tellsLater` leaves each ring told of, or stale. -/
theorem toldOrStale_step {env : Env T} {c : Call T} (h : s.exec env c = .ok s')
    (hc : s.tellsLater c = true) (hr : s.ToldOrStale log r) :
    s'.ToldOrStale (s.notices s' c ++ log) r := by
  cases exec_rootChange h r with
  | kept hb _ hremoves hroot hstale _ =>
    refine hr.imp (fun htold => ?_) fun ⟨hsome, hget⟩ => ⟨hroot ▸ hsome, hstale hget⟩
    unfold Told at htold ⊢
    rwa [lastNotice_kept hb hremoves, hroot]
  | built n root hcall hroot _ _ =>
    left
    unfold Told
    rw [hroot, hcall]
    simp [notices, hroot]
  | reset hcall _ hroot hstale _ =>
    subst hcall
    cases hget : s.root.get r with
    | none =>
      have hnone : s'.root.get r = none := by simpa [hget] using hroot
      have htold : s.Told log r := hr.resolve_right fun h => by simp [hget] at h
      left
      unfold Told at htold ⊢
      rw [hget] at htold
      rw [hnone]
      exact htold
    | some root =>
      have hcase : (s.staleRings.get r).isSome = true ∨ s.retained r ≠ [] := by
        simpa [tellsLater, hget] using hc
      refine .inr ⟨by rw [hroot, hget]; rfl, hstale (hcase.imp_left fun hsome => ?_)⟩
      obtain ⟨⟨⟩, hget⟩ := Option.isSome_iff_exists.mp hsome
      exact hget
  | removed _ _ hremoves hroot _ =>
    left
    unfold Told
    rw [hroot, lastNotice_removed hremoves]
    cases hget : s.root.get r with
    | some root => exact .inr rfl
    | none =>
      have htold : s.Told log r := hr.resolve_right fun h => by simp [hget] at h
      unfold Told at htold
      rw [hget] at htold
      exact htold

end Store

/-- In a run in which every removal of suspended keys either retains a key of the ring, or
finds it without a root or already stale, the last notification about each ring that is not
stale tells of its root as it is. -/
theorem subscribers_told {w : Observer.World T (List (Nat × RingRootOp T))}
    (h : (noticeLog T).Reachable (fun _ s c => s.tellsLater c = true) w) (id : Identifier)
    (r : Nat) (hstale : (w.1.store id).staleRings.get r = none) :
    (w.1.store id).Told (w.2 id) r := by
  have hr : (w.1.store id).ToldOrStale (w.2 id) r := by
    refine Observer.reachable_invariant (I := fun _ s log => s.ToldOrStale log r) h
      (fun _ => .inl (.inl rfl)) ?_ (fun _ _ _ _ hI _ => hI) id
    intro env s c s' log hI hG hexec
    exact Store.toldOrStale_step hexec hG hI
  refine hr.resolve_right fun ⟨_, hget⟩ => ?_
  rw [hstale] at hget
  cases hget

/-- Three members join a ring, its root is built, and the third is removed. -/
def sampleTold : List (Call sampleConfig) :=
  [.createCollection (0 : Nat) 1 .flexible .r2e9 none, .addMembers (sampleKeys 0 3),
    .onboardMembers true, .buildRing 0 3, .startRemovalSession, .removeMembers (sampleKeys 2 1),
    .endRemovalSession, .removeSuspendedKeys 0, .buildRing 0 2]

theorem subscribers_told_sample : ∃ w : Observer.World sampleConfig _,
    (noticeLog sampleConfig).sampleRun (fun _ s c => s.tellsLater c) sampleTold = .ok w ∧
      (w.1.store sampleId).staleRings.get 0 = none ∧
      ((w.1.store sampleId).root.get 0).isSome = true ∧
      (w.1.store sampleId).Told (w.2 sampleId) 0 := by
  obtain ⟨w, hw, hr, hstale, hroot⟩ := Observer.exists_sampleRun (O := noticeLog sampleConfig)
    (G := fun _ s c => s.tellsLater c) sampleTold
    (fun w => (w.1.store sampleId).staleRings.get 0 = none ∧
      ((w.1.store sampleId).root.get 0).isSome = true) (by decide)
  exact ⟨w, hw, hstale, hroot, subscribers_told hr sampleId 0 hstale⟩

/-- The three members of a ring are all removed: its root commits to none of them, and the
subscribers still have the root of the build before. -/
theorem subscribers_told_fails : ∃ w, (noticeLog sampleConfig).Reachable (fun _ _ _ => True) w ∧
    (∀ r, (w.1.store sampleId).staleRings.get r = none) ∧
    (∀ r, (w.1.store sampleId).pendingSuspensions.get r = none) ∧
    (w.1.store sampleId).root.get 0 = some ⟨[], 1, []⟩ ∧
    lastNotice (w.2 sampleId) 0 = some (.built 0 (sampleKeys 0 3)) ∧
    ¬ (w.1.store sampleId).Told (w.2 sampleId) 0 := by
  obtain ⟨w, -, hr, hstale, hpending, hroot, hlast⟩ := Observer.exists_sampleRun
    (O := noticeLog sampleConfig) (G := fun _ _ _ => true)
    ([.createCollection (0 : Nat) 1 .flexible .r2e9 none, .addMembers (sampleKeys 0 3),
      .onboardMembers true, .buildRing 0 3, .startRemovalSession, .removeMembers (sampleKeys 0 3),
      .endRemovalSession, .removeSuspendedKeys 0])
    (fun w => (w.1.store sampleId).staleRings.isEmpty = true ∧
      (w.1.store sampleId).pendingSuspensions.isEmpty = true ∧
      (w.1.store sampleId).root.get 0 = some ⟨[], 1, []⟩ ∧
      lastNotice (w.2 sampleId) 0 = some (.built 0 (sampleKeys 0 3))) (by decide)
  refine ⟨w, Reaches.mono hr fun _ a _ => ?_, (StorageMap.isEmpty_iff _).mp hstale,
    (StorageMap.isEmpty_iff _).mp hpending, hroot, hlast, ?_⟩
  · cases a <;> trivial
  · unfold Store.Told
    rw [hroot, hlast]
    decide

end Individuality.Members
