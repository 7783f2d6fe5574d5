import Individuality.People.Bindings

/-! Ids that stay reserved, and people who stay.

Whatever happens in the people pallet, nobody's record goes away, and an id stays
reserved until that very reservation is cancelled or a person is recognized under it
(`Onward`). A new id is below no other one. -/
namespace Individuality.People
open Support
variable {T : Config} {s s' s'' : Store T} {c c' : Chain T} {a : Action T} {env : Env T} {id : Nat}
  {account : T.AccountId} {taken : Option Nat}

/-- People stay, and so do reservations but for one that may be taken. -/
structure Onward (taken : Option Nat) (s s' : Store T) : Prop where
  people : ∀ id, s.people.contains id = true → s'.people.contains id = true
  reserved : ∀ id, taken ≠ some id → s.reservedPersonalId.get id = some () → s'.reservedPersonalId.get id = some ()

namespace Onward

theorem refl (taken : Option Nat) (s : Store T) : Onward taken s s := ⟨fun _ h => h, fun _ _ h => h⟩

theorem trans (h : Onward taken s s') (h' : Onward taken s' s'') : Onward taken s s'' :=
  ⟨fun id hid => h'.people id (h.people id hid), fun id hne hid => h'.reserved id hne (h.reserved id hne hid)⟩

theorem of_eq (hpeople : s'.people = s.people) (hreserved : s'.reservedPersonalId = s.reservedPersonalId) :
    Onward taken s s' := ⟨fun _ hid => hpeople ▸ hid, fun _ _ hid => hreserved ▸ hid⟩

/-- A record is written. -/
theorem of_insert {record : PersonRecord T} (hpeople : s'.people = s.people.insert id record)
    (hreserved : s'.reservedPersonalId = s.reservedPersonalId) : Onward taken s s' := by
  refine ⟨fun id' hid => ?_, fun _ _ hid => hreserved ▸ hid⟩
  obtain ⟨record', hget⟩ := StorageMap.contains_eq_true.mp hid
  rw [hpeople, StorageMap.contains_eq_true, StorageMap.get_insert]
  split
  · exact ⟨record, rfl⟩
  · exact ⟨record', hget⟩

end Onward

theorem onward_reserveNewId (s : Store T) : Onward taken s (reserveNewId s).2 := by
  refine ⟨fun _ h => h, fun id _ hid => ?_⟩
  refine (StorageMap.get_insert _ _ _ _).trans ?_
  split
  · rfl
  · exact hid

theorem onward_renewIdReservation (hok : renewIdReservation s id = .ok s') : Onward taken s s' := by
  simp only [renewIdReservation, bind_eq_ok, pure_eq_ok] at hok
  obtain ⟨-, -, rfl⟩ := hok
  refine ⟨fun _ h => h, fun id' _ hid => ?_⟩
  refine (StorageMap.get_insert _ _ _ _).trans ?_
  split
  · rfl
  · exact hid

theorem cancelIdReservation_ok (hok : cancelIdReservation s id = .ok s') :
    s.reservedPersonalId.get id = some () ∧ s' = { s with reservedPersonalId := s.reservedPersonalId.remove id } := by
  simp only [cancelIdReservation, bind_eq_ok, ensure_eq_ok, pure_eq_ok, StorageMap.contains_eq_true] at hok
  obtain ⟨-, ⟨_, hreserved⟩, rfl⟩ := hok
  exact ⟨hreserved, rfl⟩

theorem onward_cancelIdReservation (hok : cancelIdReservation s id = .ok s') : Onward (some id) s s' := by
  obtain ⟨-, rfl⟩ := cancelIdReservation_ok hok
  refine ⟨fun _ h => h, fun id' hne hid => ?_⟩
  refine (StorageMap.get_remove _ _ _).trans ?_
  rw [if_neg fun heq => hne (congrArg some heq.symm)]
  exact hid

theorem onward_recognizePersonhood {maybeKey : Option T.Member} (hok : recognizePersonhood s id maybeKey = .ok s') :
    Onward (maybeKey.map fun _ => id) s s' := by
  rcases recognizePersonhood_ok hok with ⟨key, members, rfl, -, -, -, rfl⟩ | ⟨record, members, rfl, -, -, rfl⟩
  · have honward : Onward none s { s with people := s.people.insert id ⟨key, none⟩ } := .of_insert rfl rfl
    refine ⟨honward.people, fun id' hne hid => ?_⟩
    refine (StorageMap.get_remove _ _ _).trans ?_
    rw [if_neg fun heq => hne (congrArg some heq.symm)]
    exact hid
  · exact Onward.of_eq rfl rfl

theorem onward_unpair (ca : T.Ca) (account : T.AccountId) : Onward taken s (unpair s ca account) := Onward.of_eq rfl rfl

theorem onward_paired {revCa : T.RevCa} (h : Paired s revCa account s') : Onward taken s s' := by
  cases h with
  | again _ => exact Onward.of_eq rfl rfl
  | moved _ _ _ => exact Onward.of_eq rfl rfl
  | fresh _ _ => exact Onward.of_eq rfl rfl

theorem onward_dispatch (hb : Bindings s) {origin : Origin T} {call : Call T}
    (hids : s.nextPersonalId + call.reserved ≤ U64.max) (h : Dispatch env s origin call s') : Onward none s s' := by
  induction h with
  | underAlias _ hinner ih =>
    refine ih (le_trans (Nat.add_le_add_left ?_ _) hids)
    cases hinner with
    | _ => exact Nat.zero_le _
  | setAlias hpaired => exact onward_paired hpaired
  | unsetAlias _ => exact onward_unpair _ _
  | force hok =>
    -- A reserved id is below the one that is recognized at once.
    refine (forceRecognize_induction (P := fun t => Bindings t ∧ Onward none s t) hok hids ⟨hb, Onward.refl none s⟩
      fun t key t' hnext ht hrecognized => ?_).2
    refine ⟨(ht.1.reserveNewId hnext).recognizePersonhood hrecognized, ht.2.trans ⟨fun id hid => ?_, fun id _ hid => ?_⟩⟩
    · exact (onward_recognizePersonhood hrecognized).people id hid
    · refine (onward_recognizePersonhood hrecognized).reserved id ?_
        ((@onward_reserveNewId _ none t).reserved id nofun hid)
      intro heq
      exact absurd (ht.1.below_reserved id hid) (Nat.not_lt.mpr (Option.some.inj heq).le)
  | setPersonal _ _ hbound =>
    cases hbound with
    | moved _ _ =>
      exact (Onward.of_insert rfl rfl : Onward none _ (releaseAccount _ _ _ _)).trans (Onward.of_insert rfl rfl)
    | fresh _ => exact Onward.of_insert rfl rfl
  | unsetPersonal _ _ => exact Onward.of_insert rfl rfl
  | create _ => exact Onward.of_eq rfl rfl
  | cleanUp =>
    exact cleanUpStaleAliases_induction (P := fun t => Onward none _ t) _ _ (Onward.refl none _)
      fun t ca account ht _ => ht.trans (onward_unpair ca account)
  | other => exact Onward.refl none _

theorem onward_suspendPersonhood (suspensions : List Nat) : Onward taken s (suspendPersonhood s suspensions).1 := by
  have hunbound : Onward taken s (unbindAll s suspensions).1 :=
    unbindAll_induction (P := fun t => Onward taken s t) suspensions (Onward.refl taken s)
      fun t id record ht _ _ => ht.trans (Onward.of_insert rfl rfl)
  obtain ⟨members, heq⟩ := suspendPersonhood_eq s suspensions
  rw [heq]
  exact hunbound.trans (Onward.of_eq rfl rfl)

/-- Whatever happens, people and reservations stay. -/
theorem onward_apply (hb : Bindings c.store) (hids : LeavesIds c a) (hok : apply c a = .ok s') :
    Onward a.taken c.store s' := by
  cases a with
  | submit tx =>
    obtain ⟨origin, val, t, hauthenticated, hprepared, hdispatched⟩ := submit_ok (mapError_eq_ok.mp hok)
    have hready : Onward none c.store t := by
      obtain ⟨nonces, rfl | ⟨who, old, revCa, -, -, -, rfl⟩⟩ := prepare_ok hauthenticated hprepared
      · exact Onward.of_eq rfl rfl
      · exact Onward.of_eq rfl rfl
    obtain ⟨hbt, hnext⟩ := hb.prepare hauthenticated hprepared
    rcases hdispatched with rfl | hdispatched
    · exact hready
    · exact hready.trans (onward_dispatch hbt (by rw [hnext]; exact hids) hdispatched)
  | dispatch origin call => exact onward_dispatch hb hids (apply_dispatch_ok hok)
  | reserveNewId =>
    cases hok
    exact onward_reserveNewId c.store
  | cancelIdReservation id => exact onward_cancelIdReservation (mapError_eq_ok.mp hok)
  | renewIdReservation id => exact onward_renewIdReservation (mapError_eq_ok.mp hok)
  | recognizePersonhood who maybeKey =>
    have honward := onward_recognizePersonhood (mapError_eq_ok.mp hok)
    cases maybeKey with
    | _ => exact honward
  | suspendPersonhood suspensions =>
    cases hok
    exact onward_suspendPersonhood suspensions
  | cleanUpAlias ca =>
    obtain ⟨account, -, rfl⟩ := cleanUpAlias_ok (mapError_eq_ok.mp hok)
    exact onward_unpair ca account
  | elsewhere members env =>
    cases hok
    exact Onward.of_eq rfl rfl

end Individuality.People
