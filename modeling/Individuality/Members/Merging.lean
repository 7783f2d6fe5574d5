import Individuality.Members.Placement

/-! Merging rings conserves membership.

A merge reads the first page of each ring and checks neither that there are no
others nor that none is queued for deletion. Where the target lives on its first
page and no page with keys of the base is queued, every key of the two rings is
stored once in the base afterwards, where its record says, and is counted; and
what is queued for deletion by then can be deleted without touching it. -/
namespace Individuality.Members
open Support
variable {T : Config}

/-- What a merge of two rings owes their members. -/
structure Merged (s s' : Store T) (base target : Nat) : Prop where
  once : ∀ k, k ∈ s.keysInOrder base ∨ k ∈ s.keysInOrder target → (s'.keysInOrder base).count k = 1
  stored : ∀ k, k ∈ s.keysInOrder base ∨ k ∈ s.keysInOrder target →
    ∃ p i, s'.members.get k = some (.included base p i) ∧ (s'.page base p)[i]? = some k
  total_eq : (s'.ringStatusAt base).total = (s'.keysInOrder base).length
  target_empty : ∀ p, s'.page target p = []

namespace Conserved
variable {s s' : Store T}

/-- A ring whose pages with keys all live, and that has no suspension pending, holds each key
once, where its record says. -/
theorem ring_settled (h : Conserved s) {r : Nat}
    (hlive : ∀ p, (s.ringDeletionQueue.get (r, p)).isSome = true → s.page r p = [])
    (hpending : (s.pendingAt r).length = 0) :
    (∀ k p i, (s.page r p)[i]? = some k → s.members.get k = some (.included r p i)) ∧
      (s.keysInOrder r).Nodup ∧ (s.ringStatusAt r).total = (s.keysInOrder r).length := by
  have hrecord : ∀ k p i, (s.page r p)[i]? = some k → s.members.get k = some (.included r p i) := by
    intro k p i hslot
    refine h.placed.places.live k r p i hslot ?_
    rintro (hq | ⟨-, hin⟩)
    · rw [hlive p hq] at hslot
      cases hslot
    · exact absurd hpending (Nat.ne_of_gt (List.length_pos_of_mem hin))
  refine ⟨hrecord, ?_, ?_⟩
  · refine Paging.nodup_concat fun p i p' i' k hslot hslot' => ?_
    have hk := hrecord k p i hslot
    rw [hrecord k p' i' hslot'] at hk
    cases hk
    exact ⟨rfl, rfl⟩
  · have hpages : s.livePage r = s.page r := by
      funext p
      unfold Store.livePage
      split
      · rename_i hq
        rw [hlive p hq]
      · rfl
    have hpacked := h.paged.packed r
    rw [hpages] at hpacked
    have hpos := T.flexibleRingCapacity_pos
    rw [Store.keysInOrder_eq_concat (le_max_left _ (s.ringStatusAt r).total), hpacked.length_concat]
    exact (le_max_right _ _).trans (Nat.le_mul_of_pos_right _ hpos)

/-- The base of a merge lives on all pages that have keys. -/
theorem base_lives {env : Env T} {base target : Nat} (hs : s.mergeRings env base target = .ok s')
    (hG : ConservesKeys s (.mergeRings base target)) (p : Nat)
    (hq : (s'.ringDeletionQueue.get (base, p)).isSome = true) : s'.page base p = [] := by
  obtain ⟨info, m, -, -, hne, -, -, -, -, -, -, hm, hs'⟩ := Store.mergeRings_spec hs
  have hdeletions : s'.ringDeletionQueue = s.ringDeletionQueue := by rw [hs']
  obtain ⟨hsees, -, hbase, -⟩ := hG
  rw [hdeletions] at hq
  rw [Store.page_mergeRings hs, if_neg fun hc => hne hc.1]
  split
  · rename_i hp
    obtain ⟨-, rfl⟩ := hp
    rw [hbase 0 hq, List.nil_append]
    rcases hsees with hnil | ⟨hnot, -⟩
    · exact hnil
    · rw [hnot] at hq
      cases hq
  · exact hbase p hq

theorem merged (h : Conserved s) {env : Env T} {base target : Nat}
    (hs : s.mergeRings env base target = .ok s') (hG : ConservesKeys s (.mergeRings base target)) :
    Merged s s' base target := by
  obtain ⟨info, m, -, -, hne, -, -, -, -, hpb, -, hm, hs'⟩ := Store.mergeRings_spec hs
  have hafter : Conserved s' := h.step hG (show s.exec env (.mergeRings base target) = .ok s' from hs)
  have hpage := Store.page_mergeRings hs
  have hpending : (s'.pendingAt base).length = 0 := by
    rw [hs']
    exact hpb
  obtain ⟨hrecord, hnodup, htotal⟩ := hafter.ring_settled (base_lives hs hG) hpending
  -- The target had nothing beyond its first page, and that page moved.
  have hmem : ∀ k, k ∈ s.keysInOrder base ∨ k ∈ s.keysInOrder target →
      ∃ (p i : Nat), (s'.page base p)[i]? = some k := by
    intro k hk
    have hin : ∃ p, k ∈ s'.page base p := by
      rcases hk with hk | hk
      · obtain ⟨p, hp⟩ := Store.mem_keysInOrder.mp hk
        refine ⟨p, ?_⟩
        rw [hpage, if_neg fun hc => hne hc.1]
        split
        · rename_i hp0
          rw [hp0.2] at hp
          exact List.mem_append_left _ hp
        · exact hp
      · rw [Store.keysInOrder_of_single hG.2.1] at hk
        refine ⟨0, ?_⟩
        rw [hpage, if_neg fun hc => hne hc.1, if_pos ⟨rfl, rfl⟩]
        exact List.mem_append_right _ hk
    obtain ⟨p, hp⟩ := hin
    obtain ⟨i, hi⟩ := List.getElem?_of_mem hp
    exact ⟨p, i, hi⟩
  refine ⟨fun k hk => ?_, fun k hk => ?_, htotal, fun p => ?_⟩
  · obtain ⟨p, i, hslot⟩ := hmem k hk
    exact List.count_eq_one_of_mem hnodup
      (Store.mem_keysInOrder.mpr ⟨p, List.mem_of_getElem? hslot⟩)
  · obtain ⟨p, i, hslot⟩ := hmem k hk
    exact ⟨p, i, hrecord k p i hslot, hslot⟩
  · rw [hpage]
    split
    · rfl
    · rename_i hp
      rw [if_neg fun hc => hne hc.1.symm]
      exact hG.2.1 p (Nat.pos_of_ne_zero fun h0 => hp ⟨rfl, h0⟩)

end Conserved

/-- A merge within the bounds it checks is accepted. -/
theorem Store.exists_mergeRings (env : Env T) {s : Store T} {info : CollectionInfo T}
    (base target : Nat) (hinfo : s.collections = some info) (happ : s.ringsState.appendOnly = true)
    (hrings : base ≠ target ∧ base ≠ s.currentRingIndex ∧ target ≠ s.currentRingIndex)
    (hbase : (s.page base 0).length < info.ringSize.ringCapacity / 2)
    (htarget : (s.page target 0).length < info.ringSize.ringCapacity / 2)
    (hpending : (s.pendingAt base).length = 0 ∧ (s.pendingAt target).length = 0)
    (hsome : ∀ k ∈ s.page target 0, (s.members.get k).isSome = true)
    (hfit : (s.page base 0).length + (s.page target 0).length ≤ T.flexibleRingCapacity) :
    ∃ s', s.mergeRings env base target = .ok s' := by
  obtain ⟨m, hm, -⟩ := exists_foldlM_ok (f := moveKey base) (l := s.page target 0)
    (s := (s, s.ringKeysAt base 0))
    (fun done m => m.2.toList = s.page base 0 ++ done ∧
      ∀ k ∈ s.page target 0, (m.1.members.get k).isSome = true)
    ⟨(List.append_nil _).symm, hsome⟩
    (by
      intro done key m hpre ⟨hlist, hmembers⟩
      have hlen := hpre.length_le
      have hroom : (m.2.toList ++ [key]).length ≤ T.flexibleRingCapacity := by
        rw [hlist, List.append_assoc, List.length_append]
        omega
      obtain ⟨keys, hpush, hkeys⟩ := BoundedVec.exists_tryFrom hroom
      have htry : m.2.tryPush key = some keys := hpush
      refine ⟨(m.1.setMember key (.included base 0 m.2.length), keys), ?_, ?_, fun k hk => ?_⟩
      · have hcontains : m.1.members.contains key = true :=
          hmembers key (hpre.sublist.subset (by simp))
        unfold moveKey
        rw [ensure_pos hcontains, htry]
        rfl
      · rw [hkeys, hlist, List.append_assoc]
      · show ((m.1.members.insert key _).get k).isSome = true
        rw [StorageMap.get_insert]
        split
        · rfl
        · exact hmembers k hk)
  change (s.ringKeysAt base 0).length < _ at hbase
  change (s.ringKeysAt target 0).length < _ at htarget
  change (s.ringKeysAt target 0).toList.foldlM (moveKey base) (s, s.ringKeysAt base 0) = .ok m at hm
  unfold mergeRings
  simp only [hinfo, okOr_some, ok_bind, ensure_pos happ, ensure_pos hrings, ensure_pos hbase,
    ensure_pos hpending.1, ensure_pos htarget, ensure_pos hpending.2, hm]
  exact ⟨_, rfl⟩

end Individuality.Members
