import Individuality.Members.Ideal
import Individuality.Members.Progress
import Individuality.Members.Steps

/-! A ring's root commits to the ring's first keys.

`build_ring` resumes from the intermediate value it stored and walks the pages
from the slot the status says comes next; suspension resets both. What ties them
together (`Committed`): the first `total` slots of a ring are filled, whatever
its pages hold behind them, and the intermediate value is the fold over the first
`included` keys in page order. Filling a ring appends behind those, so it cannot
change what was included. -/
namespace Individuality.Members
open Support
variable {T : Config}

/-- The value that commits to a list of keys. -/
def commitment (T : Config) (capacity : T.crypto.Capacity) (keys : List T.Member) : T.Intermediate :=
  keys.foldl T.crypto.pushMember (T.crypto.startMembers capacity)

/-- The root of ring `r` commits to its first `included` keys. -/
def RootCommits (s : Store T) (r : Nat) (root : RingRoot T) : Prop :=
  ∃ info capacity, s.collections = some info ∧ T.capacity info.ringSize = some capacity ∧
    root.intermediate =
      commitment T capacity ((s.keysInOrder r).take (s.ringStatusAt r).included) ∧
    root.root = T.crypto.finishMembers root.intermediate

structure Committed (s : Store T) : Prop where
  covers : ∀ r, Paging.Covers T.flexibleRingCapacity (s.ringStatusAt r).total (s.page r)
  included_le : ∀ r, (s.ringStatusAt r).included ≤ (s.ringStatusAt r).total
  total_le : ∀ r, (s.ringStatusAt r).total ≤ U32.max
  unbuilt : ∀ r, s.root.get r = none → (s.ringStatusAt r).included = 0
  built : ∀ r root, s.root.get r = some root → RootCommits s r root

/-- The first `n` keys of a ring, read off enough of its pages. -/
theorem take_keysInOrder {s : Store T} {r k n : Nat} (hk : k ≤ (Paging.concat (s.page r) n).length) :
    (s.keysInOrder r).take k = (Paging.concat (s.page r) n).take k := by
  rw [Store.keysInOrder_eq_concat (le_max_left (s.pageBound r) n)]
  exact Paging.take_concat (le_max_right _ _) hk

namespace Committed
variable {s s' : Store T}

theorem empty : Committed (Store.empty T) where
  covers r p := by simp [Store.empty, Store.ringStatusAt]
  included_le r := by simp [Store.empty, Store.ringStatusAt]
  total_le r := by simp [Store.empty, Store.ringStatusAt]
  unbuilt r _ := by simp [Store.empty, Store.ringStatusAt]
  built r root h := by simp [Store.empty] at h

/-- What leaves the rings, their roots and the collection alone keeps the roots committed. -/
theorem of_same (h : Committed s) (hpage : s'.page = s.page)
    (hstatus : s'.ringStatusAt = s.ringStatusAt) (hroot : s'.root = s.root)
    (hinfo : ∀ info, s.collections = some info → s'.collections = some info) : Committed s' where
  covers r := by rw [hpage, hstatus]; exact h.covers r
  included_le r := by rw [hstatus]; exact h.included_le r
  total_le r := by rw [hstatus]; exact h.total_le r
  unbuilt r hr := by rw [hstatus]; rw [hroot] at hr; exact h.unbuilt r hr
  built r root hr := by
    rw [hroot] at hr
    obtain ⟨info, capacity, hc, hcap, hi, hf⟩ := h.built r root hr
    refine ⟨info, capacity, hinfo info hc, hcap, ?_, hf⟩
    rw [hi, hstatus, Store.keysInOrder_congr (congrFun hpage r)]

/-- The keys a root includes are among the pages its status covers. -/
theorem included_le_length (h : Committed s) (r : Nat) :
    (s.ringStatusAt r).included ≤ (Paging.concat (s.page r)
      ((s.ringStatusAt r).total / T.flexibleRingCapacity + 1)).length := by
  have hfill := Paging.Cursor.fills_of_covers (h.covers r) (fun p => s.page_length_le r p)
    T.flexibleRingCapacity_pos
  rw [Paging.concat_succ, List.length_append, Paging.length_concat_of_full hfill.full]
  exact (h.included_le r).trans hfill.total_le

/-- Changing one ring, keeping what its root includes, keeps the roots committed. -/
theorem of_grown (h : Committed s) {r : Nat} (hcollections : s'.collections = s.collections)
    (hroot : s'.root = s.root) (hpage : ∀ r', r' ≠ r → s'.page r' = s.page r')
    (hstatus : ∀ r', r' ≠ r → s'.ringStatusAt r' = s.ringStatusAt r')
    (hcovers : Paging.Covers T.flexibleRingCapacity (s'.ringStatusAt r).total (s'.page r))
    (hincluded : (s'.ringStatusAt r).included = (s.ringStatusAt r).included)
    (htotal : (s.ringStatusAt r).total ≤ (s'.ringStatusAt r).total)
    (hmax : (s'.ringStatusAt r).total ≤ U32.max)
    (htake : ∀ n, (Paging.concat (s'.page r) n).take (s.ringStatusAt r).included =
      (Paging.concat (s.page r) n).take (s.ringStatusAt r).included) : Committed s' := by
  have hkeys : ∀ r', (s'.keysInOrder r').take (s'.ringStatusAt r').included =
      (s.keysInOrder r').take (s.ringStatusAt r').included := by
    intro r'
    by_cases hr : r' = r
    · subst hr
      rw [Store.keysInOrder_eq_concat (le_max_left (s'.pageBound r') (s.pageBound r')),
        Store.keysInOrder_eq_concat (le_max_right (s'.pageBound r') (s.pageBound r')), hincluded,
        htake]
    · rw [hstatus r' hr, Store.keysInOrder_congr (hpage r' hr)]
  refine ⟨fun r' => ?_, fun r' => ?_, fun r' => ?_, fun r' hr' => ?_, fun r' root hr' => ?_⟩
  · by_cases hr : r' = r
    · rw [hr]
      exact hcovers
    · rw [hstatus r' hr, hpage r' hr]
      exact h.covers r'
  · by_cases hr : r' = r
    · rw [hr, hincluded]
      exact (h.included_le r).trans htotal
    · rw [hstatus r' hr]
      exact h.included_le r'
  · by_cases hr : r' = r
    · rw [hr]
      exact hmax
    · rw [hstatus r' hr]
      exact h.total_le r'
  · rw [hroot] at hr'
    have hunbuilt := h.unbuilt r' hr'
    by_cases hr : r' = r
    · rw [hr, hincluded, ← hr]
      exact hunbuilt
    · rw [hstatus r' hr]
      exact hunbuilt
  · rw [hroot] at hr'
    obtain ⟨info, capacity, hc, hcap, hi, hf⟩ := h.built r' root hr'
    exact ⟨info, capacity, hcollections.trans hc, hcap, hi.trans (by rw [hkeys]), hf⟩

/-! ### One operation at a time -/

/-- Keys pushed behind the filled slots of the current ring. -/
theorem of_pushed (h : Committed s) {c : Paging.Cursor T.Member} {n : Nat}
    (hcollections : s'.collections = s.collections) (hroot : s'.root = s.root)
    (hc : c.Fills T.flexibleRingCapacity ((s.ringStatusAt s.currentRingIndex).total + n))
    (htake : ∀ n, (Paging.concat c.pages n).take (s.ringStatusAt s.currentRingIndex).included =
      (Paging.concat (s.page s.currentRingIndex) n).take
        (s.ringStatusAt s.currentRingIndex).included)
    (hpage : ∀ r p, s'.page r p = if r = s.currentRingIndex then c.pages p else s.page r p)
    (hstatus : ∀ r, s'.ringStatusAt r = if r = s.currentRingIndex then
      { s.ringStatusAt r with total := U32.saturatingAdd (s.ringStatusAt r).total n }
      else s.ringStatusAt r) : Committed s' := by
  have hpage' : s'.page s.currentRingIndex = c.pages := by
    funext p
    rw [hpage, if_pos rfl]
  have hself := hstatus s.currentRingIndex
  rw [if_pos rfl] at hself
  refine h.of_grown (r := s.currentRingIndex) hcollections hroot (fun r' hr => ?_)
    (fun r' hr => ?_) ?_ ?_ ?_ ?_ ?_
  · funext p
    rw [hpage, if_neg hr]
  · rw [hstatus, if_neg hr]
  · rw [hself, hpage']
    exact hc.covers.mono (Nat.min_le_left _ _)
  · rw [hself]
  · rw [hself]
    exact le_min (Nat.le_add_right _ _) (h.total_le _)
  · rw [hself]
    exact U32.saturatingAdd_le _ _
  · intro n
    rw [hpage']
    exact htake n

theorem fills (h : Committed s) (r : Nat) : Paging.Cursor.Fills T.flexibleRingCapacity
    (s.ringStatusAt r).total ⟨s.page r, (s.ringStatusAt r).total / T.flexibleRingCapacity⟩ :=
  Paging.Cursor.fills_of_covers (h.covers r) (fun p => s.page_length_le _ p)
    T.flexibleRingCapacity_pos

theorem round (h : Committed s) (R : Store.Round s s')
    (hroom : ¬ s.currentRingFull R.info.ringSize.ringCapacity) : Committed s' := by
  obtain ⟨c, ⟨hc, htake⟩, hpage⟩ := R.pages_of_not_full hroom
    (P := fun done c => c.Fills T.flexibleRingCapacity
        ((s.ringStatusAt s.currentRingIndex).total + done.length) ∧
      ∀ n, (Paging.concat c.pages n).take (s.ringStatusAt s.currentRingIndex).included =
        (Paging.concat (s.page s.currentRingIndex) n).take
          (s.ringStatusAt s.currentRingIndex).included)
    ⟨h.fills _, fun _ => rfl⟩
    (by
      intro done key c ⟨hc, htake⟩ hroom
      refine ⟨?_, fun n => ?_⟩
      · rw [List.length_append, List.length_singleton, ← Nat.add_assoc]
        exact hc.push hroom
      · rw [hc.take_push ((h.included_le _).trans (Nat.le_add_right _ _)), htake])
  rw [R.length_take] at hc
  have hcollections := congrArg Store.collections R.store_eq
  have hroot := congrArg Store.root R.store_eq
  exact h.of_pushed hcollections hroot hc htake hpage (R.ringStatusAt_of_not_full hroom)

theorem doSelfInclude {member : T.Member} (h : Committed s) (hs : s.doSelfInclude member = .ok s')
    (hroom : ∀ info, s.collections = some info → ¬ s.currentRingFull info.ringSize.ringCapacity) :
    Committed s' := by
  obtain ⟨hcollections, hroot, hlt, hpage, hstatus⟩ := Store.doSelfInclude_of_not_full hs hroom
  have hfill := h.fills s.currentRingIndex
  exact h.of_pushed hcollections hroot (hfill.push hlt)
    (fun n => hfill.take_push (h.included_le _)) hpage hstatus

/-- A removal keeps no commitment: the root is reset along with what it includes. -/
theorem removeSuspendedKeys {env : Env T} {r : Nat} (h : Committed s) :
    Committed (s.removeSuspendedKeys env r) := by
  rcases Store.removeSuspendedKeys_spec env s r with ⟨-, hs⟩ | ⟨info, capacity, members, page, hinfo,
    hcap, -, -, hs⟩
  · rw [hs]
    exact h
  have hpage := Store.page_removeSuspendedKeys hs
  have hstatus : ∀ r', (s.removeSuspendedKeys env r).ringStatusAt r' =
      if r' = r then { s.ringStatusAt r with total := page.length, included := 0 }
      else s.ringStatusAt r' := by
    intro r'
    rw [hs]
    exact Store.ringStatusAt_setRingStatus s r r' _
  have hlen : page.length ≤ T.flexibleRingCapacity := page.length_le
  have hother : ∀ r', r' ≠ r → (s.removeSuspendedKeys env r).page r' = s.page r' := by
    intro r' hr
    funext p
    rw [hpage, if_neg (by tauto)]
  have hroot : ∀ r', r' ≠ r → (s.removeSuspendedKeys env r).root.get r' = s.root.get r' := by
    intro r' hr
    rw [hs]
    exact (Store.root_resetRoot env s capacity r r').trans (if_neg hr)
  refine ⟨fun r' => ?_, fun r' => ?_, fun r' => ?_, fun r' hr' => ?_, fun r' root hr' => ?_⟩
  · rw [hstatus]
    by_cases hr : r' = r
    · subst hr
      rw [if_pos rfl]
      intro p
      rw [hpage]
      rcases Nat.eq_zero_or_pos p with rfl | hp
      · rw [if_pos ⟨rfl, rfl⟩]
        exact (Nat.min_le_right _ _).trans (Nat.sub_le _ _)
      · have : T.flexibleRingCapacity ≤ p * T.flexibleRingCapacity :=
          Nat.le_mul_of_pos_left _ hp
        show min _ (page.length - _) ≤ _
        omega
    · rw [if_neg hr, hother r' hr]
      exact h.covers r'
  · rw [hstatus]
    split
    · exact Nat.zero_le _
    · exact h.included_le r'
  · rw [hstatus]
    split
    · exact hlen.trans (T.flexibleRingCapacity_le.trans (by decide))
    · exact h.total_le r'
  · rw [hstatus]
    split
    · rfl
    · rename_i hr
      rw [hroot r' hr] at hr'
      exact h.unbuilt r' hr'
  · by_cases hr : r' = r
    · subst hr
      have hreset : (s.resetRoot env capacity r').root.get r' = some root := by
        rw [hs] at hr'
        exact hr'
      rw [Store.root_resetRoot, if_pos rfl, Option.map_eq_some_iff] at hreset
      obtain ⟨old, -, rfl⟩ := hreset
      refine ⟨info, capacity, by rw [hs]; exact hinfo, hcap, ?_⟩
      rw [hstatus, if_pos rfl]
      exact ⟨rfl, rfl⟩
    · rw [hroot r' hr] at hr'
      obtain ⟨info', capacity', hc, hcap', hi, hf⟩ := h.built r' root hr'
      refine ⟨info', capacity', by rw [hs]; exact hc, hcap', ?_, hf⟩
      rw [hi, hstatus, if_neg hr, Store.keysInOrder_congr (hother r' hr)]

/-- Merging single-page rings appends to the base ring and drops the target's root. -/
theorem mergeRings {env : Env T} {base target : Nat} (h : Committed s)
    (hs : s.mergeRings env base target = .ok s') (hbase : ∀ p, 0 < p → s.page base p = []) :
    Committed s' := by
  obtain ⟨info, m, -, -, hne, -, -, -, -, -, -, -, hs'⟩ := Store.mergeRings_spec hs
  have hpage := Store.page_mergeRings hs
  have hstatus := Store.ringStatusAt_mergeRings hs
  have hroot : ∀ r, s'.root.get r = if r = target then none else s.root.get r := by
    intro r
    rw [hs']
    exact Store.root_archiveRoot env s target r
  have hsame : ∀ r, r ≠ target → r ≠ base → s'.page r = s.page r := by
    intro r ht hb
    funext p
    rw [hpage, if_neg (by tauto), if_neg (by tauto)]
  have hfirst : s'.page base 0 = s.page base 0 ++ s.page target 0 := by
    rw [hpage, if_neg (by tauto), if_pos ⟨rfl, rfl⟩]
  -- The base ring keeps its keys on its first page, so its total fits there.
  have htotal : (s.ringStatusAt base).total ≤ (s.page base 0).length := by
    have h0 := h.covers base 0
    have h1 := h.covers base 1
    have hpos := T.flexibleRingCapacity_pos
    rw [hbase 1 Nat.one_pos] at h1
    simp only [List.length_nil] at h1
    omega
  have hfirsts : ∀ n, (Paging.concat (s'.page base) n).take (s.ringStatusAt base).included =
      (Paging.concat (s.page base) n).take (s.ringStatusAt base).included := by
    intro n
    cases n with
    | zero => rfl
    | succ n =>
      have hin : (s.ringStatusAt base).included ≤ (Paging.concat (s.page base) 1).length := by
        rw [Paging.concat_succ, Paging.concat_zero, List.nil_append]
        exact (h.included_le base).trans htotal
      have hgrown : Paging.concat (s'.page base) 1 =
          Paging.concat (s.page base) 1 ++ s.page target 0 := by
        simp only [Paging.concat_succ, Paging.concat_zero, List.nil_append, hfirst]
      rw [Paging.take_concat (Nat.le_add_left 1 n) hin, Paging.take_concat (Nat.le_add_left 1 n)
        (by rw [hgrown, List.length_append]; omega), hgrown, List.take_append_of_le_length hin]
  have hbaseStatus := hstatus base
  rw [if_neg hne, if_pos rfl] at hbaseStatus
  refine ⟨fun r => ?_, fun r => ?_, fun r => ?_, fun r hr => ?_, fun r root hr => ?_⟩
  · by_cases ht : r = target
    · rw [hstatus, if_pos ht]
      intro p
      simp
    by_cases hb : r = base
    · rw [hb, hbaseStatus]
      have hsat : U32.saturatingAdd (s.ringStatusAt base).total (s.page target 0).length ≤
          (s'.page base 0).length := by
        rw [hfirst, List.length_append]
        exact (Nat.min_le_left _ _).trans (Nat.add_le_add_right htotal _)
      have hcap := s'.page_length_le base 0
      intro p
      rcases Nat.eq_zero_or_pos p with rfl | hp
      · exact (Nat.min_le_right _ _).trans ((Nat.sub_le _ _).trans hsat)
      · have : T.flexibleRingCapacity ≤ p * T.flexibleRingCapacity := Nat.le_mul_of_pos_left _ hp
        show min _ (U32.saturatingAdd _ _ - _) ≤ _
        omega
    · rw [hstatus, if_neg ht, if_neg hb, hsame r ht hb]
      exact h.covers r
  · rw [hstatus]
    split
    · exact le_rfl
    · split
      · exact le_min ((h.included_le base).trans (Nat.le_add_right _ _))
          ((h.included_le base).trans (h.total_le base))
      · exact h.included_le r
  · rw [hstatus]
    split
    · exact Nat.zero_le _
    · split
      · exact U32.saturatingAdd_le _ _
      · exact h.total_le r
  · rw [hstatus]
    split
    · rfl
    · rename_i ht
      rw [hroot, if_neg ht] at hr
      have hunbuilt := h.unbuilt r hr
      split
      · rename_i hb
        rwa [hb] at hunbuilt
      · exact hunbuilt
  · have ht : r ≠ target := by
      rintro rfl
      rw [hroot, if_pos rfl] at hr
      cases hr
    rw [hroot, if_neg ht] at hr
    obtain ⟨info', capacity, hc, hcap, hi, hf⟩ := h.built r root hr
    refine ⟨info', capacity, by rw [hs']; exact hc, hcap, ?_, hf⟩
    rw [hi]
    by_cases hb : r = base
    · subst hb
      rw [hbaseStatus]
      rw [Store.keysInOrder_eq_concat (le_max_left (s'.pageBound r) (s.pageBound r)),
        Store.keysInOrder_eq_concat (s := s) (le_max_right (s'.pageBound r) (s.pageBound r)),
        hfirsts]
    · rw [hstatus, if_neg ht, if_neg hb, Store.keysInOrder_congr (hsame r ht hb)]

/-- A build includes the keys that come next, as many as asked for and there are. -/
theorem build (h : Committed s) {env : Env T} {r n : Nat} (hs : s.buildRing env r n = .ok s') :
    s'.page = s.page ∧ s'.collections = s.collections ∧
      (s'.ringStatusAt r).total = (s.ringStatusAt r).total ∧
      (s'.ringStatusAt r).included = min ((s.ringStatusAt r).included + n)
        (s.ringStatusAt r).total ∧
      ∃ info capacity root, s.collections = some info ∧ T.capacity info.ringSize = some capacity ∧
        s'.root.get r = some root ∧ root.root = T.crypto.finishMembers root.intermediate ∧
        root.intermediate =
          commitment T capacity ((s.keysInOrder r).take (s'.ringStatusAt r).included) := by
  obtain ⟨info, capacity, start, root, status, hinfo, hcap, hstart, -, hi, hf, htotal, hincluded,
    hs'⟩ := Store.buildRing_spec hs
  have hinc := h.included_le r
  have hlen := h.included_le_length r
  obtain ⟨htotal', hincluded', htake⟩ := Store.keysToPush_spec n n (s.ringStatusAt r) (h.covers r) hinc
    (h.total_le r) le_rfl (Nat.lt_succ_self _)
  have hstatus : s'.ringStatusAt r = status := by
    rw [hs']
    simp [Store.ringStatusAt]
  have hpage : s'.page = s.page := by
    rw [hs']
    rfl
  -- The value the build resumes from commits to what the ring includes already.
  have hresume : start.2 = commitment T capacity
      ((s.keysInOrder r).take (s.ringStatusAt r).included) := by
    unfold Store.buildStart at hstart
    cases hroot : s.root.get r with
    | none =>
      rw [hroot] at hstart
      cases hstart
      rw [h.unbuilt r hroot]
      rfl
    | some existing =>
      rw [hroot] at hstart
      simp only [bind_eq_ok, ensure_eq_ok] at hstart
      obtain ⟨-, -, hstart⟩ := hstart
      cases hstart
      obtain ⟨info', capacity', hinfo', hcap', hi', -⟩ := h.built r existing hroot
      rw [hinfo] at hinfo'
      cases hinfo'
      rw [hcap] at hcap'
      cases hcap'
      exact hi'
  have hnew : (s.keysToPush r n n (s.ringStatusAt r)).2.included ≤ (s.ringStatusAt r).total := by
    rw [hincluded']
    omega
  have hnewlen : (s.keysToPush r n n (s.ringStatusAt r)).2.included ≤
      (Paging.concat (s.page r)
        ((s.ringStatusAt r).total / T.flexibleRingCapacity + 1)).length := by
    have hfill := h.fills r
    rw [Paging.concat_succ, List.length_append, Paging.length_concat_of_full hfill.full]
    exact hnew.trans hfill.total_le
  refine ⟨hpage, by rw [hs'], by rw [hstatus, htotal, htotal'], ?_, info, capacity, root, hinfo, hcap, ?_, hf,
    ?_⟩
  · rw [hstatus, hincluded, hincluded']
    omega
  · rw [hs']
    simp
  · rw [hi, hresume, hstatus, hincluded]
    unfold commitment
    rw [take_keysInOrder hlen, take_keysInOrder hnewlen, htake, List.foldl_append]

theorem buildRing {env : Env T} {r n : Nat} (h : Committed s) (hs : s.buildRing env r n = .ok s') :
    Committed s' := by
  obtain ⟨hpage, hcoll, htotal, hincluded, info, capacity, root, hinfo, hcap, hroot, hf, hi⟩ :=
    h.build hs
  obtain ⟨-, -, -, root', status, -, -, -, -, -, -, -, -, hs'⟩ := Store.buildRing_spec hs
  have hstatus : ∀ r', r' ≠ r → s'.ringStatusAt r' = s.ringStatusAt r' := by
    intro r' hr
    rw [hs']
    simp [Store.ringStatusAt, hr]
  have hroots : ∀ r', r' ≠ r → s'.root.get r' = s.root.get r' := by
    intro r' hr
    rw [hs']
    simp [hr]
  have hkeys : ∀ r', s'.keysInOrder r' = s.keysInOrder r' :=
    fun r' => Store.keysInOrder_congr (congrFun hpage r')
  refine ⟨fun r' => ?_, fun r' => ?_, fun r' => ?_, fun r' hr' => ?_, fun r' root' hr' => ?_⟩
  · rw [hpage]
    by_cases hr : r' = r
    · rw [hr, htotal]
      exact h.covers r
    · rw [hstatus r' hr]
      exact h.covers r'
  · by_cases hr : r' = r
    · rw [hr, hincluded, htotal]
      exact Nat.min_le_right _ _
    · rw [hstatus r' hr]
      exact h.included_le r'
  · by_cases hr : r' = r
    · rw [hr, htotal]
      exact h.total_le r
    · rw [hstatus r' hr]
      exact h.total_le r'
  · have hr : r' ≠ r := by
      rintro rfl
      rw [hroot] at hr'
      cases hr'
    rw [hroots r' hr] at hr'
    rw [hstatus r' hr]
    exact h.unbuilt r' hr'
  · by_cases hr : r' = r
    · subst hr
      rw [hroot] at hr'
      cases hr'
      exact ⟨info, capacity, hcoll.trans hinfo, hcap, by rw [hi, hkeys], hf⟩
    · rw [hroots r' hr] at hr'
      obtain ⟨info', capacity', hc, hcap', hi', hf'⟩ := h.built r' root' hr'
      exact ⟨info', capacity', hcoll.trans hc, hcap', by rw [hi', hstatus r' hr, hkeys], hf'⟩

/-- Suspending members touches no ring. -/
theorem queueMemberSuspension {key : T.Member} (h : Committed s)
    (hs : s.queueMemberSuspension key = .ok s') : Committed s' := by
  rcases Store.queueMemberSuspension_cases hs with
    ⟨r, p, i, j, indices, -, -, -, rfl⟩ | ⟨q, t, -, rfl⟩ | ⟨-, rfl⟩
  · exact h.of_same rfl rfl rfl fun _ => id
  · have hd := Store.dropQueued_frame s q key
    refine h.of_same ?_ ?_ ?_ ?_ <;> rw [hd]
    · rfl
    · rfl
    · rfl
    · exact fun _ => id
  · exact h.of_same rfl rfl rfl fun _ => id

/-- A queued key leaves the rings as they are. -/
theorem addMember {env : Env T} {key : T.Member} (h : Committed s)
    (hs : Store.addMember env s key = .ok s') : Committed s' := by
  obtain ⟨-, hpush⟩ := Store.addMember_spec hs
  obtain ⟨tail, keys, rfl, -⟩ := Store.pushToOnboardingQueue_spec hpush
  exact h.of_same rfl rfl rfl fun _ => id

theorem mergeFrontQueuePages (h : Committed s) (hs : s.mergeFrontQueuePages = .ok s') :
    Committed s' := by
  obtain ⟨-, t, keys, hfold, -, rfl⟩ := Store.mergeFrontQueuePages_spec hs
  obtain ⟨hframe, -, -⟩ := Store.relocateQueued_fold hfold
  refine h.of_same ?_ ?_ ?_ ?_ <;> rw [hframe]
  · rfl
  · rfl
  · rfl
  · exact fun _ => id

end Committed

/-! ### Runs -/

/-- The calls under which a ring keeps its root: those that neither remove rings nor delete
the collection, with merges of rings that store keys on their first page only. -/
def KeepsRings (s : Store T) : Call T → Prop
  | .mergeRings base target => ∀ p, 0 < p → s.page base p = [] ∧ s.page target p = []
  | .removeRing _ | .deleteRingPage _ _ | .deleteCollection _ | .enqueueRingDeletion _
  | .deleteOnboardingQueuePage _ | .finalizeCollectionDeletion => False
  | _ => True

/-- Members join while the current ring has room. -/
def JoinsWithRoom (s : Store T) : Call T → Prop
  | .onboardMembers _ | .selfInclude _ =>
    ∀ info, s.collections = some info → ¬ s.currentRingFull info.ringSize.ringCapacity
  | _ => True

theorem Committed.step {env : Env T} {s s' : Store T} {c : Call T} (h : Committed s)
    (hkeeps : KeepsRings s c) (hroom : JoinsWithRoom s c) (hs : s.exec env c = .ok s') :
    Committed s' := by
  cases exec_effect hs with
  | createCollection hnone _ _ _ =>
    exact h.of_same rfl rfl rfl fun info hinfo => absurd hinfo (by simp [hnone])
  | addMembers _ hfold =>
    exact foldlM_ok_induction (fun _ t => Committed t) hfold h
      fun _ _ _ _ _ ht hstep => ht.addMember hstep
  | setOnboardingSize => exact h.of_same rfl rfl rfl fun _ => id
  | onboardNone => exact h
  | onboard R => exact h.round R (hroom _ R.collections_eq)
  | selfInclude hs => exact h.doSelfInclude hs hroom
  | mergeQueuePages hs => exact h.mergeFrontQueuePages hs
  | buildRing hs => exact h.buildRing hs
  | mergeRings hs => exact h.mergeRings hs fun p hp => (hkeeps p hp).1
  | session _ _ => exact h.of_same rfl rfl rfl fun _ => id
  | removeMembers _ hfold =>
    exact foldlM_ok_induction (fun _ t => Committed t) hfold h
      fun _ _ _ _ _ ht hstep => ht.queueMemberSuspension hstep
  | removeSuspendedKeys _ => exact h.removeSuspendedKeys
  | removeRingQueued _ => exact hkeeps.elim
  | removeRing _ _ _ => exact hkeeps.elim
  | deleteRingPage _ => exact hkeeps.elim
  | deleteCollection _ _ => exact hkeeps.elim
  | enqueueRingDeletion _ _ => exact hkeeps.elim
  | deleteOnboardingQueuePage _ => exact hkeeps.elim
  | finalizeCollectionDeletion _ _ _ _ => exact hkeeps.elim
  | markRingStale => exact h.of_same rfl rfl rfl fun _ => id
  | cleanUpOldRoots _ _ => exact h.of_same rfl rfl rfl fun _ => id

/-- A sequence of builds of one ring, each with its own limit. -/
def buildSequence (s : Store T) (r : Nat) (builds : List (Env T × Nat)) : Except Error (Store T) :=
  builds.foldlM (fun s b => s.buildRing b.1 r b.2) s

/-- Partial builds include what one build of all of them would. -/
theorem Committed.buildSequence {s s' : Store T} {r : Nat} {builds : List (Env T × Nat)}
    (h : Committed s) (hs : Members.buildSequence s r builds = .ok s') :
    Committed s' ∧ s'.page = s.page ∧ (s'.ringStatusAt r).total = (s.ringStatusAt r).total ∧
      s'.collections = s.collections ∧ (s'.ringStatusAt r).included =
        min ((s.ringStatusAt r).included + (builds.map Prod.snd).sum) (s.ringStatusAt r).total := by
  refine foldlM_ok_induction (fun done t => Committed t ∧ t.page = s.page ∧
    (t.ringStatusAt r).total = (s.ringStatusAt r).total ∧ t.collections = s.collections ∧
    (t.ringStatusAt r).included = min ((s.ringStatusAt r).included + (done.map Prod.snd).sum)
      (s.ringStatusAt r).total) hs ⟨h, rfl, rfl, rfl, ?_⟩ ?_
  · simpa using (Nat.min_eq_left (h.included_le r)).symm
  · intro done b t t' _ ⟨ht, hpage, htotal, hcoll, hincluded⟩ hstep
    obtain ⟨hpage', hcoll', htotal', hincluded', -⟩ := ht.build hstep
    refine ⟨ht.buildRing hstep, hpage'.trans hpage, htotal'.trans htotal, hcoll'.trans hcoll, ?_⟩
    rw [hincluded', hincluded, htotal, List.map_append, List.sum_append]
    simp only [List.map_cons, List.map_nil, List.sum_cons, List.sum_nil]
    omega

/-- Two rings with the same keys and as many included have the same root. -/
theorem Committed.root_unique {s s' : Store T} {r : Nat} {root root' : RingRoot T}
    (h : Committed s) (h' : Committed s') (hpage : s.page r = s'.page r)
    (hcoll : s.collections = s'.collections)
    (hincluded : (s.ringStatusAt r).included = (s'.ringStatusAt r).included)
    (hroot : s.root.get r = some root) (hroot' : s'.root.get r = some root') :
    root.root = root'.root ∧ root.intermediate = root'.intermediate := by
  obtain ⟨info, capacity, hc, hcap, hi, hf⟩ := h.built r root hroot
  obtain ⟨info', capacity', hc', hcap', hi', hf'⟩ := h'.built r root' hroot'
  rw [hcoll, hc'] at hc
  cases hc
  rw [hcap'] at hcap
  cases hcap
  have : root.intermediate = root'.intermediate := by
    rw [hi, hi', hincluded, Store.keysInOrder_congr hpage]
  exact ⟨by rw [hf, hf', this], this⟩

/-- In every state that runs of these calls reach, as long as members only join while the
current ring has room, a ring's root commits to exactly its first `included` keys in page
order; and building in parts ends at the root of a single build. -/
theorem root_commits {s : State T}
    (h : State.Reachable (State.OnCalls fun _ t c => KeepsRings t c ∧ JoinsWithRoom t c) s)
    (id : Identifier) (r : Nat) :
    (∀ root, (s.store id).root.get r = some root →
      RootCommits (s.store id) r root ∧
      ((s.store id).ringStatusAt r).included ≤ ((s.store id).keysInOrder r).length) ∧
    ∀ builds env n parts whole root root', buildSequence (s.store id) r builds = .ok parts →
      (s.store id).buildRing env r n = .ok whole →
      min (((s.store id).ringStatusAt r).included + (builds.map Prod.snd).sum)
        ((s.store id).ringStatusAt r).total =
        min (((s.store id).ringStatusAt r).included + n) ((s.store id).ringStatusAt r).total →
      parts.root.get r = some root → whole.root.get r = some root' →
      root.root = root'.root ∧ root.intermediate = root'.intermediate := by
  have hc : Committed (s.store id) := State.reachable_invariant h Committed.empty
    (fun _ _ _ _ ht hG hs => ht.step hG.1 hG.2 hs) id
  refine ⟨fun root hroot => ⟨hc.built r root hroot, ?_⟩, ?_⟩
  · have hlen := hc.included_le_length r
    rw [Store.keysInOrder_eq_concat (le_max_left _ _)]
    exact hlen.trans (Paging.concat_prefix _ (le_max_right _ _)).length_le
  · intro builds env n parts whole root root' hparts hwhole hsum hroot hroot'
    obtain ⟨hcp, hpage, -, hcoll, hincluded⟩ := hc.buildSequence hparts
    obtain ⟨hpage', hcoll', -, hincluded', -⟩ := hc.build hwhole
    refine hcp.root_unique (hc.buildRing hwhole) (by rw [hpage, hpage'])
      (by rw [hcoll, hcoll']) ?_ hroot hroot'
    rw [hincluded, hincluded', hsum]

/-- The ideal ring-VRF never fails to build. -/
theorem exists_buildRing (env : Env sampleConfig) {s : Store sampleConfig}
    {info : CollectionInfo sampleConfig} (r n : Nat) (hinfo : s.collections = some info)
    (hrevision : ∀ root, s.root.get r = some root → root.revision < U32.max) :
    ∃ s', s.buildRing env r n = .ok s' ∧ s'.collections = some info ∧
      ∃ root, s'.root.get r = some root ∧
        root.revision = ((s.root.get r).map fun root => root.revision + 1).getD 0 := by
  obtain ⟨s', hs'⟩ : ∃ s', s.buildRing env r n = .ok s' := by
    simp only [Store.buildRing, hinfo, okOr_some, ok_bind, Store.buildStart]
    cases hroot : s.root.get r with
    | none => exact ⟨_, rfl⟩
    | some root =>
      simp only
      rw [ensure_pos (hrevision root hroot)]
      exact ⟨_, rfl⟩
  obtain ⟨_, _, start, root, _, -, -, hstart, hrev, -, -, -, -, hs⟩ := Store.buildRing_spec hs'
  refine ⟨s', hs', by rw [hs]; exact hinfo, root, by rw [hs]; simp, ?_⟩
  rw [hrev]
  unfold Store.buildStart at hstart
  cases hroot : s.root.get r with
  | none =>
    rw [hroot] at hstart
    cases hstart
    rfl
  | some root =>
    rw [hroot] at hstart
    simp only [bind_eq_ok, ensure_eq_ok] at hstart
    obtain ⟨-, -, hstart⟩ := hstart
    cases hstart
    rfl

/-- Three members, one of them included, then the other two one by one or together. -/
theorem root_commits_three : ∃ s : State sampleConfig, ∃ root parts whole root₁ root₂,
    (s.store sampleId).root.get 0 = some root ∧ RootCommits (s.store sampleId) 0 root ∧
    buildSequence (s.store sampleId) 0 [(s.env, 1), (s.env, 1)] = .ok parts ∧
    (s.store sampleId).buildRing s.env 0 2 = .ok whole ∧ parts.root.get 0 = some root₁ ∧
    whole.root.get 0 = some root₂ ∧ root₁.root = root₂.root := by
  obtain ⟨s₁, hr₁, -, hcohort⟩ := State.exists_first_cohort
    (G := fun _ t c => KeepsRings t c ∧ JoinsWithRoom t c) sampleId (0 : Nat) .r2e10
    (sampleKeys 0 3) (sampleKeys_ne_nil (by decide)) (sampleKeys_nodup 0 3)
    (fun _ _ => rfl) (by rw [length_sampleKeys]; decide) (by rw [length_sampleKeys]; decide)
    (by decide) (fun _ _ => ⟨trivial, trivial⟩) (fun _ _ => ⟨trivial, trivial⟩)
    (fun _ _ h _ _ => ⟨trivial, h⟩)
  have hempty : ∀ root, (s₁.store sampleId).root.get 0 = some root → root.revision < U32.max := by
    rw [hcohort.root]
    intro root h
    cases h
  obtain ⟨t, ht, hinfo, root, hroot, hrev⟩ := exists_buildRing s₁.env 0 1 hcohort.waiting.collections
    hempty
  obtain ⟨s, hr, hstore, -⟩ := hr₁.call sampleId (.buildRing 0 1) ht (s₁.exists_register sampleId rfl)
    ⟨trivial, trivial⟩
  rw [← hstore] at hinfo hroot
  rw [hcohort.root] at hrev
  obtain ⟨t₁, ht₁, hinfo₁, first, hfirst, hrev₁⟩ := exists_buildRing s.env 0 1 hinfo
    (by rw [hroot]; intro root' h; cases h; rw [hrev]; decide)
  obtain ⟨parts, hparts, -, root₁, hroot₁, -⟩ := exists_buildRing s.env 0 1 hinfo₁
    (by rw [hfirst]; intro root' h; cases h; rw [hrev₁, hroot]; simp [hrev, U32.max])
  obtain ⟨whole, hwhole, -, root₂, hroot₂, -⟩ := exists_buildRing s.env 0 2 hinfo
    (by rw [hroot]; intro root' h; cases h; rw [hrev]; decide)
  have hsequence : buildSequence (s.store sampleId) 0 [(s.env, 1), (s.env, 1)] = .ok parts := by
    simp only [buildSequence, List.foldlM_cons, List.foldlM_nil, ht₁, ok_bind, hparts]
    rfl
  have hcommits := root_commits hr sampleId 0
  exact ⟨s, root, parts, whole, root₁, root₂, hroot, (hcommits.1 root hroot).1, hsequence, hwhole,
    hroot₁, hroot₂,
    (hcommits.2 _ s.env 2 parts whole root₁ root₂ hsequence hwhole rfl hroot₁ hroot₂).1⟩

/-! ### A ring taken for full -/

section Overfull
open Store

/-- Where a cohort stands that fills the last slot of a first page and goes on behind the two
keys its second page has: two slots further than the keys it placed. -/
def TwoAhead {α : Type} (size : Nat) (done : List α) (c : Paging.Cursor α) : Prop :=
  (c.pages c.at_).length < size ∧ (∀ p, 2 ≤ p → c.at_ < p → c.pages p = []) ∧
    ((c.at_ = 0 ∧ done = [] ∧ (c.pages 0).length + 1 = size ∧ (c.pages 1).length = 2) ∨
      (1 ≤ c.at_ ∧ c.at_ * size + (c.pages c.at_).length = size + 1 + done.length))

theorem TwoAhead.push {α : Type} {size : Nat} {done : List α} {c : Paging.Cursor α}
    (h : TwoAhead size done c) (hsize : 2 < size) (key : α) :
    TwoAhead size (done ++ [key]) (c.push size key) := by
  obtain ⟨hlt, hnil, hcase⟩ := h
  have hself : ((c.push size key).pages c.at_).length = (c.pages c.at_).length + 1 := by
    rw [Paging.Cursor.pages_push_self, List.length_append, List.length_singleton]
  have hnext : (c.push size key).pages (c.at_ + 1) = c.pages (c.at_ + 1) :=
    Paging.Cursor.pages_push_of_ne (Nat.succ_ne_self _)
  unfold TwoAhead
  rw [List.length_append, List.length_singleton]
  by_cases hfull : size ≤ ((c.push size key).pages c.at_).length
  · have hat : (c.push size key).at_ = c.at_ + 1 := if_pos hfull
    rw [hat, hnext, Nat.add_mul, Nat.one_mul]
    refine ⟨?_, fun p h2 hp => ?_, .inr ⟨Nat.le_add_left 1 _, ?_⟩⟩
    · rcases hcase with ⟨h0, -, -, h1⟩ | ⟨h1, -⟩
      · rw [h0, h1]
        exact hsize
      · rw [hnil _ (by omega) (Nat.lt_succ_self _), List.length_nil]
        omega
    · rw [Paging.Cursor.pages_push_of_ne (by omega)]
      exact hnil p h2 (by omega)
    · rcases hcase with ⟨h0, hdone, -, h1⟩ | ⟨h1, heq⟩
      · simp only [h0, h1, hdone, List.length_nil]
        omega
      · rw [hnil _ (by omega) (Nat.lt_succ_self _), List.length_nil]
        omega
  · have hat : (c.push size key).at_ = c.at_ := if_neg hfull
    rw [hat]
    refine ⟨by omega, fun p h2 hp => ?_, .inr ?_⟩
    · rw [Paging.Cursor.pages_push_of_ne (by omega)]
      exact hnil p h2 hp
    · rcases hcase with ⟨h0, -, hl, -⟩ | ⟨h1, heq⟩
      · rw [h0] at hself hfull
        omega
      · exact ⟨h1, by omega⟩

/-- A cohort that joins a shrunk ring ends two slots further than the total says: the ring is
taken for full although its total leaves room. -/
theorem exists_overfull {s : Store sampleConfig} {info : CollectionInfo sampleConfig}
    {keys : List sampleConfig.Member} (hwaiting : Waiting s info keys)
    (hsize : info.ringSize = .r2e10) (hcur : s.currentRingIndex = 0)
    (htotal : (s.ringStatusAt 0).total = 254) (hfirst : (s.page 0 0).length = 254)
    (hsecond : (s.page 0 1).length = 2) (hempty : ∀ p, 2 ≤ p → s.page 0 p = [])
    (hpending : s.pendingSuspensions.get 0 = none) (honboarding : s.onboardingSize = 1)
    (hlen : keys.length = 511) :
    ∃ s', ∃ R : Round s s', s.onboardMembers false = .ok (s', true) ∧ R.keys = keys ∧
      R.toInclude = keys.length ∧ ¬ s.currentRingFull R.info.ringSize.ringCapacity ∧
      R.filled = false ∧ (s'.page 0 3).length = 2 := by
  have hcap : info.ringSize.ringCapacity = 767 := by rw [hsize]; rfl
  have hpageSize : sampleConfig.flexibleRingCapacity = 255 := rfl
  have hpageIndex : (s.ringStatusAt s.currentRingIndex).total / sampleConfig.flexibleRingCapacity =
      0 := by
    rw [hcur, htotal]
    rfl
  have hkeys : (s.ringKeysAt s.currentRingIndex 0).length = 254 := by
    rw [hcur]
    exact hfirst
  have hroom : ¬ s.currentRingFull info.ringSize.ringCapacity := by
    simp only [currentRingFull, hpageIndex, hkeys, hcap]
    omega
  have hstart : TwoAhead 255 [] ⟨s.page s.currentRingIndex, 0⟩ := by
    rw [hcur]
    exact ⟨by rw [hfirst]; omega, fun p h2 _ => hempty p h2,
      .inl ⟨rfl, rfl, by rw [hfirst], hsecond⟩⟩
  have havail := availableRing_of_not_full hroom
  rw [hpageIndex] at havail
  obtain ⟨f, hloop⟩ := exists_includeKeys s.currentRingIndex
    ⟨s, 0, s.ringKeysAt s.currentRingIndex 0⟩ keys (P := TwoAhead 255) hwaiting.records
    (by rw [hlen]; simp [U32.max]) (by rw [Filling.cursor_stored]; exact hstart)
    (fun _ key _ hc _ => hc.push (by omega) key) (fun _ _ _ hc => hc.1)
  obtain ⟨s', R, hs', hinfo, -, hR, hall, hfilled⟩ := hwaiting.exists_round false 513 havail
    (by rw [hcur]; exact hpending) (by intro h; rw [h] at hlen; cases hlen)
    (by simp only [hkeys, hcap]; omega) (by omega)
    (.inr ⟨by rw [honboarding, hlen]; omega, by
      rw [hcur, htotal, hlen, hcap, honboarding, U32.saturatingAdd_eq (by simp [U32.max])]
      omega⟩) hloop
  rw [← hinfo] at hroom
  obtain ⟨c, hc, hpage⟩ := R.pages_of_not_full hroom (P := TwoAhead 255) (by rw [hpageIndex]; exact hstart)
    (fun _ key _ hc _ => hc.push (by omega) key)
  refine ⟨s', R, hs', hR, hall, hroom, by rw [hfilled, hlen]; rfl, ?_⟩
  rw [hpage, hcur, if_pos rfl]
  have hdone : (R.keys.take R.toInclude).length = 511 := by rw [R.length_take, hall, hlen]
  obtain ⟨hlt, -, ⟨-, hnil, -⟩ | ⟨hat, heq⟩⟩ := hc
  · rw [hnil] at hdone
    cases hdone
  · rw [hdone] at heq
    have hthree : c.at_ = 3 := by omega
    rw [hthree] at heq
    omega

/-- The next member goes to the next ring, along with the full ring's status. -/
theorem exists_misplaced {s : Store sampleConfig} {info : CollectionInfo sampleConfig}
    {k : sampleConfig.Member} (hwaiting : Waiting s info [k]) (hsize : info.ringSize = .r2e10)
    (hcur : s.currentRingIndex = 0) (htotal : (s.ringStatusAt 0).total = 765)
    (hlast : (s.page 0 3).length = 2) (hnext : ∀ p, s.page 1 p = [])
    (hpending : s.pendingSuspensions.get 1 = none) (honboarding : s.onboardingSize = 1) :
    ∃ s', s.onboardMembers false = .ok (s', true) ∧ s'.page 1 0 = [k] ∧
      (s'.ringStatusAt 1).included = (s.ringStatusAt 0).included ∧
      s'.root = s.root ∧ s'.collections = s.collections := by
  have hcap : info.ringSize.ringCapacity = 767 := by rw [hsize]; rfl
  have hfull : s.currentRingFull info.ringSize.ringCapacity := by
    have hpageIndex : (s.ringStatusAt s.currentRingIndex).total /
        sampleConfig.flexibleRingCapacity = 3 := by
      rw [hcur, htotal]
      rfl
    have hkeys : (s.ringKeysAt s.currentRingIndex 3).length = 2 := by
      rw [hcur]
      exact hlast
    simp only [currentRingFull, hpageIndex, hkeys, hcap]
    decide
  have havail : s.availableRing info.ringSize.ringCapacity =
      ⟨{ s with currentRingIndex := 1 }, 1, 0, s.ringKeysAt 1 0, s.ringStatusAt 0⟩ := by
    simp only [availableRing, hfull, if_true, hcur]
    rfl
  have hempty : (s.ringKeysAt 1 0).length = 0 := by
    have := hnext 0
    rw [BoundedVec.length, show (s.ringKeysAt 1 0).toList = [] from this, List.length_nil]
  obtain ⟨f, hf⟩ := exists_includeKey 1
    (⟨{ s with currentRingIndex := 1 }, 0, s.ringKeysAt 1 0⟩ : Filling sampleConfig) k
    (hwaiting.records k (by simp)) (by rw [hempty]; decide)
  have hloop : [k].foldlM (includeKey 1)
      (⟨{ s with currentRingIndex := 1 }, 0, s.ringKeysAt 1 0⟩ : Filling sampleConfig) = .ok f := by
    rw [List.foldlM_cons, hf]
    rfl
  obtain ⟨s', R, hs', -, ha, hkeys, hall, -⟩ := hwaiting.exists_round false 767 havail hpending
    (by simp) (by simp only [hempty, hcap]; omega) (by simp)
    (.inr ⟨by simp [honboarding], by
      rw [htotal, hcap, honboarding, List.length_singleton]
      decide⟩) hloop
  have hlast : R.last = f := by
    have hR := R.loop
    rw [hkeys, hall, List.take_length, ha, hloop] at hR
    exact (Except.ok.inj hR).symm
  have hstatus := R.ringStatusAt_eq 1
  have hpage := R.page_eq 1 0
  rw [ha, if_pos rfl] at hstatus hpage
  rw [hlast, includeKey_cursor hf (by simp [U32.max])] at hpage
  have hroot := congrArg Store.root R.store_eq
  have hcoll := congrArg Store.collections R.store_eq
  refine ⟨s', hs', ?_, by rw [hstatus], hroot, hcoll⟩
  have hcursor := Filling.cursor_stored ({ s with currentRingIndex := 1 } : Store sampleConfig) 1 0
  have hself := Paging.Cursor.pages_push_self sampleConfig.flexibleRingCapacity
    ⟨({ s with currentRingIndex := 1 } : Store sampleConfig).page 1, 0⟩ k
  rw [← hcursor] at hself
  rw [hpage]
  refine hself.trans ?_
  rw [hcursor]
  show s.page 1 0 ++ [k] = [k]
  rw [hnext, List.nil_append]

/-- From a shrunk ring of 257 keys a run reaches a root that commits to the wrong keys. -/
theorem exists_uncommitted (env : Env sampleConfig) {s : Store sampleConfig}
    {info : CollectionInfo sampleConfig} (hsize : info.ringSize = .r2e10)
    (h : Shrunk s info (sampleKeys 0 257)) (hc : Committed s) :
    ∃ s', State.Run env (fun _ t c => KeepsRings t c) s s' ∧
      ∃ root, s'.root.get 1 = some root ∧ ¬ RootCommits s' 1 root := by
  have hlen := length_sampleKeys 0 257
  have hcap : info.ringSize.ringCapacity = 767 := by rw [hsize]; rfl
  have hcur : s.currentRingIndex = 0 := by
    rw [h.currentRing, hlen, hcap]
    rfl
  have hstatus := h.status 0
  rw [if_pos rfl] at hstatus
  -- One key of the first ring is included.
  obtain ⟨s₁, hs₁⟩ : ∃ s₁, s.buildRing env 0 1 = .ok s₁ := by
    simp only [buildRing, h.waiting.collections, okOr_some, ok_bind, buildStart, h.root]
    exact ⟨_, rfl⟩
  obtain ⟨hpage₁, -, htotal₁, hincluded₁, -⟩ := hc.build hs₁
  obtain ⟨-, -, -, root₁, status₁, -, -, -, -, -, -, -, -, hs₁'⟩ := buildRing_spec hs₁
  rw [hstatus] at htotal₁ hincluded₁
  have hwaiting₁ : Waiting s₁ info [] := by
    rw [hs₁']
    exact ⟨h.waiting.collections, h.waiting.active, h.waiting.appendOnly, h.waiting.onePage,
      h.waiting.queue, fun k hk => by cases hk⟩
  -- 511 members more join it.
  obtain ⟨s₂, hs₂, hwaiting₂, hs₂', hmembers₂⟩ := hwaiting₁.addMembers env
    (sampleKeys 257 511) (sampleKeys_nodup 257 511)
    (fun k hk => by
      rw [hs₁']
      exact h.fresh k (notMem_sampleKeys (by decide) k hk))
    (fun _ _ => rfl) (by rw [length_sampleKeys]; decide)
  have hpage₂ : s₂.page = s.page := by
    rw [hs₂', ← hpage₁]
    rfl
  have hstatus₂ : s₂.ringStatusAt = s₁.ringStatusAt := by
    rw [hs₂']
    rfl
  obtain ⟨s₃, R, hs₃, hkeys, hall, hroom, hfilled, hlast⟩ := exists_overfull hwaiting₂ hsize
    (by rw [hs₂', hs₁']; exact hcur) (by rw [hstatus₂, htotal₁]; rfl)
    (by rw [hpage₂, h.first]; rfl) (by rw [hpage₂, h.rest 1 (by decide), hlen]; rfl)
    (fun p hp => by
      rw [hpage₂, ← List.length_eq_zero_iff, h.rest p (by omega), hlen]
      show min 255 (257 - p * 255) = 0
      omega)
    (by rw [hs₂', hs₁']; exact h.pending 0) (by rw [hs₂', hs₁']; exact h.onboardingSize)
    (length_sampleKeys 257 511)
  have hcur₂ : s₂.currentRingIndex = 0 := by rw [hs₂', hs₁']; exact hcur
  have hstatus₃ := R.ringStatusAt_of_not_full hroom 0
  rw [hcur₂, if_pos rfl, hall, length_sampleKeys, hstatus₂] at hstatus₃
  have hpage₃ : ∀ p, s₃.page 1 p = [] := by
    intro p
    rw [R.page_of_not_full hroom, hcur₂, if_neg (by decide), hpage₂]
    exact h.page_of_ne 1 (by decide) p
  obtain ⟨hroots₃, hpendings₃, -, honboarding₃⟩ := R.frame
  -- One more finds the ring full.
  obtain ⟨s₄, hs₄, hwaiting₄, hs₄', -⟩ := (R.waiting hwaiting₂ hkeys hall).addMembers env
    (sampleKeys 768 1) (sampleKeys_nodup 768 1)
    (fun k hk => by
      have hnew := notMem_sampleKeys (a := 257) (n := 511) (by decide) k hk
      rw [R.members_of_notMem fun hin => hnew (hkeys ▸ List.mem_of_mem_take hin), hmembers₂,
        if_neg hnew, hs₁']
      exact h.fresh k (notMem_sampleKeys (by decide) k hk))
    (fun _ _ => rfl) (by rw [length_sampleKeys]; decide)
  have hstatus₄ : s₄.ringStatusAt = s₃.ringStatusAt := by
    rw [hs₄']
    rfl
  have hpage₄ : s₄.page = s₃.page := by
    rw [hs₄']
    rfl
  obtain ⟨s₅, hs₅, hkey₅, hincluded₅, hroot₅, hcoll₅⟩ := exists_misplaced (k := (768 : Nat))
    hwaiting₄ hsize
    (by
      rw [hs₄']
      have hcur₃ := R.currentRingIndex_of_not_full hroom
      rwa [hfilled, hcur₂] at hcur₃)
    (by
      rw [hstatus₄, hstatus₃]
      simp only [htotal₁]
      exact U32.saturatingAdd_eq (by decide))
    (by rw [hpage₄, hlast]) (fun p => by rw [hpage₄, hpage₃])
    (by rw [hs₄', hpendings₃, hs₂', hs₁']; exact h.pending 1)
    (by rw [hs₄', honboarding₃, hs₂', hs₁']; exact h.onboardingSize)
  -- The next ring is built from a key on that it never included.
  have hnone : s₅.root.get 1 = none := by
    rw [hroot₅, hs₄', hroots₃, hs₂', hs₁']
    simp [h.root]
  have hinfo : s₅.collections = some info := hcoll₅.trans hwaiting₄.collections
  obtain ⟨s₆, hs₆⟩ : ∃ s₆, s₅.buildRing env 1 0 = .ok s₆ := by
    simp only [buildRing, hinfo, okOr_some, ok_bind, buildStart, hnone]
    exact ⟨_, rfl⟩
  obtain ⟨info₆, capacity, start, root, status, -, -, hstart, -, hi, -, -, hincluded, hs₆'⟩ :=
    buildRing_spec hs₆
  have hempty : root.intermediate = ([] : List Nat) := by
    rw [hi]
    simp only [buildStart, hnone] at hstart
    cases hstart
    rfl
  have hone : (s₆.ringStatusAt 1).included = 1 := by
    have : s₆.ringStatusAt 1 = status := by
      rw [hs₆']
      simp [ringStatusAt]
    rw [this, hincluded]
    show (s₅.ringStatusAt 1).included = 1
    rw [hincluded₅, hstatus₄, hstatus₃]
    exact hincluded₁
  refine ⟨s₆, ?_, root, by rw [hs₆']; simp, ?_⟩
  · exact (((((Reaches.refl s).tail (i := .buildRing 0 1) ⟨trivial, rfl⟩ hs₁).tail
      (i := .addMembers _) ⟨trivial, rfl⟩ hs₂).tail (i := .onboardMembers false) ⟨trivial, rfl⟩
      (by simp [exec, Except.map, hs₃])).tail (i := .addMembers _) ⟨trivial, rfl⟩ hs₄).tail
      (i := .onboardMembers false) ⟨trivial, rfl⟩ (by simp [exec, Except.map, hs₅]) |>.tail
      (i := .buildRing 1 0) ⟨trivial, rfl⟩ hs₆
  · rintro ⟨-, capacity', -, -, hcommits, -⟩
    have hpage : s₆.page 1 0 = [(768 : Nat)] := by
      rw [hs₆']
      exact hkey₅
    rw [hone, take_keysInOrder (n := 1) (by
      rw [Paging.concat_succ, Paging.concat_zero, List.nil_append, hpage]
      exact le_rfl), Paging.concat_succ, Paging.concat_zero, List.nil_append, hpage, hempty]
      at hcommits
    cases hcommits

/-- Without room the root commits to the wrong keys: of 257 members one is removed while one is
included, and 511 more fill the ring two slots beyond its total; the next member goes to the
next ring with the full ring's status, and building that ring starts with a key it never
included. -/
theorem root_commits_fails : ∃ s : State sampleConfig,
    State.Reachable (State.OnCalls fun _ t c => KeepsRings t c) s ∧
    ∃ r root, (s.store sampleId).root.get r = some root ∧
      ¬ RootCommits (s.store sampleId) r root := by
  obtain ⟨s₁, hr₁, -, hcohort⟩ := State.exists_first_cohort
    (G := fun _ t c => KeepsRings t c ∧ JoinsWithRoom t c) sampleId (0 : Nat) .r2e10
    (sampleKeys 0 257) (sampleKeys_ne_nil (by decide)) (sampleKeys_nodup 0 257)
    (fun _ _ => rfl) (by rw [length_sampleKeys]; decide) (by rw [length_sampleKeys]; decide)
    (by decide) (fun _ _ => ⟨trivial, trivial⟩) (fun _ _ => ⟨trivial, trivial⟩)
    (fun _ _ h _ _ => ⟨trivial, h⟩)
  obtain ⟨s₂, hr₂, -, hshrunk⟩ := State.exists_shrunk hr₁ hcohort (k := (0 : Nat))
    (mem_sampleKeys (by decide) (by decide)) (by rw [length_sampleKeys]; decide)
    (fun _ _ => ⟨trivial, trivial⟩) (fun _ _ => ⟨trivial, trivial⟩) (fun _ _ => ⟨trivial, trivial⟩)
    (fun _ _ => ⟨trivial, trivial⟩)
  have hcommitted : Committed (s₂.store sampleId) := State.reachable_invariant hr₂ Committed.empty
    (fun _ _ _ _ ht hG hs => ht.step hG.1 hG.2 hs) sampleId
  replace hr₂ : State.Reachable (State.OnCalls fun _ t c => KeepsRings t c) s₂ := hr₂.mono (by
    intro t a hG
    cases a with
    | call id c => exact hG.1
    | advance _ => trivial
    | provideChunks _ => trivial)
  obtain ⟨t, hrun, root, hroot, hne⟩ := exists_uncommitted s₂.env rfl hshrunk hcommitted
  obtain ⟨s₃, hr₃, hstore, -⟩ := hr₂.run hrun
  exact ⟨s₃, hr₃, 1, root, by rw [hstore]; exact hroot, by rw [hstore]; exact hne⟩

end Overfull

end Individuality.Members
