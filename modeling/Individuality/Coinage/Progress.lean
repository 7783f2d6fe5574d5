import Individuality.Coinage.Calls

/-! Calls of the two pallets that are accepted.

A call of the members pallet is accepted where its collection accepts it, and vouchers are loaded one
by one where the members pallet would take their keys together. -/
namespace Individuality.Members.Store
open Support
variable {T : Config}

/-- Keys that can be added together can be added one by one. -/
theorem exists_addMember_of_cons {env : Env T} {s s' : Store T} {key : T.Member} {keys : List T.Member}
    (h : s.exec env (.addMembers (key :: keys)) = .ok s') :
    ∃ t, s.exec env (.addMembers [key]) = .ok t ∧ t.exec env (.addMembers keys) = .ok s' := by
  simp only [exec, addMembers, bind_eq_ok, okOr_eq_ok, List.foldlM_cons] at h
  obtain ⟨info, hinfo, t, ht, hrest⟩ := h
  have hcollections : t.collections = some info := by
    obtain ⟨tail, page, rfl, -⟩ := pushToOnboardingQueue_spec (addMember_spec ht).2
    exact hinfo
  refine ⟨t, ?_, ?_⟩
  · simp only [exec, addMembers, hinfo, okOr_some, ok_bind, List.foldlM_cons, ht, List.foldlM_nil]
    rfl
  · simp only [exec, addMembers, hcollections, okOr_some, ok_bind]
    exact hrest

end Individuality.Members.Store

namespace Individuality.Coinage.State
open Support
variable {T : Config} {s : State T}

/-- A call that its collection accepts. -/
theorem exists_memberCall {id : Members.Identifier} {c : Members.Call T.members} {t : Members.Store T.members}
    (hexec : (s.members.store id).exec s.members.env c = .ok t)
    (hregister : ∃ identifiersOf, s.members.register id c = .ok identifiersOf) :
    ∃ s', s.memberCall id c = .ok s' ∧ s'.members.store id = t ∧ s'.members.env = s.members.env ∧
      s'.coinage = s.coinage := by
  obtain ⟨members, hmembers, hstore, henv⟩ := Members.State.exists_exec_call hexec hregister
  refine ⟨{ s with members := members }, ?_, hstore, henv, rfl⟩
  simp only [memberCall, hmembers, Except.mapError, ok_bind]

/-- The same, of a call from outside. -/
theorem exists_members (id : Members.Identifier) {c : Members.Call T.members} {t : Members.Store T.members}
    (hopen : (s.members.store id).isOpen s.members.env c = true)
    (hexec : (s.members.store id).exec s.members.env c = .ok t) (hc : Members.State.creates c = false) :
    ∃ s', s.exec (.members id c) = .ok s' ∧ s'.members.store id = t ∧ s'.members.env = s.members.env ∧
      s'.coinage = s.coinage := by
  obtain ⟨s', hs', hstore⟩ := exists_memberCall hexec (s.members.exists_register id hc)
  refine ⟨s', ?_, hstore⟩
  simp only [exec, ensure_pos (show _ → _ from fun _ => hopen), ok_bind]
  exact hs'

/-- A recycler that is not there is created. -/
theorem exists_ensureRecycler (value : CoinValue) {t : Members.Store T.members}
    (hnone : s.coinage.recyclerCollectionCreated.contains value = false)
    (hexec : (s.recycler value).exec s.members.env (.createCollection T.collectionOwner recyclerOnboardingSize
      .appendOnly T.recyclerRingExponent none) = .ok t)
    (hregister : ∃ identifiersOf, s.members.register (recyclerCollectionIdentifier value)
      (.createCollection T.collectionOwner recyclerOnboardingSize .appendOnly T.recyclerRingExponent none) =
        .ok identifiersOf) :
    ∃ s', s.ensureRecyclerExists value = .ok s' ∧ s'.recycler value = t ∧ s'.members.env = s.members.env ∧
      s'.coinage = { s.coinage with
        recyclerCollectionCreated := s.coinage.recyclerCollectionCreated.insert value () } := by
  obtain ⟨s', hs', hstore, henv, hcoinage⟩ := exists_memberCall hexec hregister
  refine ⟨{ s' with coinage := { s'.coinage with
    recyclerCollectionCreated := s'.coinage.recyclerCollectionCreated.insert value () } }, ?_, hstore, henv, ?_⟩
  · unfold ensureRecyclerExists
    rw [hnone, if_neg Bool.false_ne_true, hs']
    rfl
  · rw [hcoinage]

/-- A key that no voucher has is loaded where the members pallet takes it. -/
theorem exists_load {value : CoinValue} {memberKey : T.Member} {t : Members.Store T.members}
    (hcreated : s.coinage.recyclerCollectionCreated.contains value = true)
    (hfree : s.coinage.recyclersCoinToRecycler.contains memberKey = false)
    (hvalid : T.members.crypto.isMemberValid memberKey = true)
    (hexec : (s.recycler value).exec s.members.env (.addMembers [memberKey]) = .ok t) :
    ∃ s', s.load value memberKey = .ok s' ∧ s'.recycler value = t ∧ s'.members.env = s.members.env ∧
      s'.coinage = { s.coinage with
        recyclersCoinToRecycler := s.coinage.recyclersCoinToRecycler.insert memberKey value } := by
  obtain ⟨s', hs', hstore, henv, hcoinage⟩ := exists_memberCall hexec
    (s.members.exists_register (recyclerCollectionIdentifier value) rfl)
  refine ⟨{ s' with coinage := { s'.coinage with
    recyclersCoinToRecycler := s'.coinage.recyclersCoinToRecycler.insert memberKey value } }, ?_, hstore, henv, ?_⟩
  · have hexists : s.ensureRecyclerExists value = .ok s := if_pos hcreated
    simp only [load, ensure_pos hfree, ensure_pos hvalid, hexists, hs', Except.mapError, ok_bind]
  · rw [hcoinage]

/-- Vouchers that the members pallet would take together are loaded one by one. -/
theorem exists_loads {G : State T → Action T → Prop} (value : CoinValue) {keys : List T.Member}
    {t : Members.Store T.members} (hG : ∀ s memberKey, G s (.call (.load value memberKey)))
    (hcreated : s.coinage.recyclerCollectionCreated.contains value = true)
    (hfree : ∀ k ∈ keys, s.coinage.recyclersCoinToRecycler.contains k = false) (hnodup : keys.Nodup)
    (hvalid : ∀ k ∈ keys, T.members.crypto.isMemberValid k = true)
    (hexec : (s.recycler value).exec s.members.env (.addMembers keys) = .ok t) :
    ∃ s', Reaches exec G s s' ∧ s'.recycler value = t ∧ s'.members.env = s.members.env ∧
      s'.coinage.recyclersLastRemovedRingIndex = s.coinage.recyclersLastRemovedRingIndex := by
  induction keys generalizing s with
  | nil =>
    simp only [Members.Store.exec, Members.Store.addMembers, bind_eq_ok, List.foldlM_nil, pure_eq_ok] at hexec
    obtain ⟨-, -, hexec⟩ := hexec
    exact ⟨s, .refl s, hexec, rfl, rfl⟩
  | cons key keys ih =>
    obtain ⟨hnotMem, hnodup⟩ := List.nodup_cons.mp hnodup
    obtain ⟨u, hu, hrest⟩ := Members.Store.exists_addMember_of_cons hexec
    obtain ⟨s₁, hs₁, hstore, henv, hcoinage⟩ := exists_load hcreated (hfree key List.mem_cons_self)
      (hvalid key List.mem_cons_self) hu
    rw [← hstore, ← henv] at hrest
    obtain ⟨s', hrun, hs', henv', hlast⟩ := ih (s := s₁) (by rw [hcoinage]; exact hcreated)
      (fun k hk => by
        rw [hcoinage]
        have hne : k ≠ key := fun h => hnotMem (h ▸ hk)
        change ((s.coinage.recyclersCoinToRecycler.insert key value).get k).isSome = false
        rw [StorageMap.get_insert, if_neg hne]
        exact hfree k (List.mem_cons_of_mem _ hk))
      hnodup (fun k hk => hvalid k (List.mem_cons_of_mem _ hk)) hrest
    refine ⟨s', (((Reaches.refl s).tail (hG s key) hs₁).trans hrun), hs', henv'.trans henv, ?_⟩
    rw [hlast, hcoinage]

end Individuality.Coinage.State
