import Individuality.Members.Records
import Individuality.People.Powers

/-! The members of the people collection are people.

A key has a record in the collection only if it is the key of a person (`Enrolled`): the
people pallet adds nobody else, suspending somebody leaves the record, and what others do
with the collection gives nobody a record. So a key that no person has is fresh to the
members pallet. -/
namespace Individuality.People
open Support
variable {R : RingConfig} {s s' : Store R.people} {c : Chain R.people} {a : Action R.people}
  {env : Env R.people} {origin : Origin R.people} {call : Call R.people} {id : Nat}

structure Enrolled (s : Store R.people) : Prop where
  flexible : Members.Flexible s.rings
  known : ∀ k, (s.rings.members.get k).isSome = true → s.keys.contains k = true

theorem founded_suspendEach {rings : Members.Store R.pallet} (keys : List R.pallet.Member) :
    rings.Founded (suspendEach rings keys).1 := by
  induction keys generalizing rings with
  | nil => exact fun _ hk => hk
  | cons key rest ih =>
    unfold suspendEach
    split
    · rename_i rings' hok
      exact fun k hk => Members.Store.founded_queueMemberSuspension hok k (ih k hk)
    · exact fun _ hk => hk

theorem founded_removeMembers (w : Members.Env R.pallet × Members.Store R.pallet) (keys : List R.pallet.Member) :
    w.2.Founded (R.people.memberService.removeMembers w keys).1.2 := by
  by_cases hmutating : w.2.ringsState.mutating = true
  · have heq : R.people.memberService.removeMembers w keys =
        ((w.1, (suspendEach w.2 keys).1), (suspendEach w.2 keys).2) := if_pos hmutating
    rw [heq]
    exact founded_suspendEach keys
  · have heq : R.people.memberService.removeMembers w keys = (w, false) := if_neg hmutating
    rw [heq]
    exact fun _ hk => hk

theorem founded_addMembers {w w' : Members.Env R.pallet × Members.Store R.pallet} {key k : R.pallet.Member}
    (hadded : R.people.memberService.addMembers w [key] = some w') (hk : (w'.2.members.get k).isSome = true) :
    k = key ∨ (w.2.members.get k).isSome = true := by
  simp only [Option.map_eq_some_iff, toOption_eq_some] at hadded
  obtain ⟨rings, hok, rfl⟩ := hadded
  exact Members.Store.founded_addMembers hok hk

namespace Enrolled

theorem of_eq (h : Enrolled s) (hkeys : s'.keys = s.keys) (hrings : s'.rings = s.rings) : Enrolled s' :=
  ⟨hrings ▸ h.flexible, fun k hk => hkeys ▸ h.known k (hrings ▸ hk)⟩

theorem of_founded (h : Enrolled s) (hkeys : s'.keys = s.keys) (hflexible : Members.Flexible s'.rings)
    (hfounded : s.rings.Founded s'.rings) : Enrolled s' :=
  ⟨hflexible, fun k hk => hkeys ▸ h.known k (hfounded k hk)⟩

/-- Somebody new is recognized under a key of its own, or somebody known again. -/
theorem recognizePersonhood (h : Enrolled s) (hb : Bindings s) {maybeKey : Option R.pallet.Member}
    (hok : People.recognizePersonhood s id maybeKey = .ok s') : Enrolled s' := by
  rcases recognizePersonhood_ok hok with ⟨key, members, -, -, -, hadded, rfl⟩ | ⟨record, members, -, hget, hadded, rfl⟩
  · obtain ⟨hflexible, -⟩ := addMembers_rings h.flexible hadded
    refine ⟨hflexible, fun k hk => ?_⟩
    show (s.keys.insert key id).contains k = true
    rw [StorageMap.contains_eq_true, StorageMap.get_insert]
    split
    · exact ⟨id, rfl⟩
    · rename_i hne
      exact StorageMap.contains_eq_true.mp (h.known k ((founded_addMembers hadded hk).resolve_left hne))
  · obtain ⟨hflexible, -⟩ := addMembers_rings h.flexible hadded
    refine ⟨hflexible, fun k hk => ?_⟩
    rcases founded_addMembers hadded hk with rfl | hk
    · exact StorageMap.contains_eq_true.mpr ⟨id, hb.keys.get hget rfl⟩
    · exact h.known k hk

theorem suspendPersonhood (h : Enrolled s) (suspensions : List Nat) :
    Enrolled (People.suspendPersonhood s suspensions).1 := by
  have hunbound : Enrolled (unbindAll s suspensions).1 :=
    unbindAll_induction (P := Enrolled) suspensions h fun t id record ht _ _ => ht.of_eq rfl rfl
  unfold People.suspendPersonhood
  generalize unbindAll s suspensions = out at hunbound
  obtain ⟨t, keys⟩ := out
  cases keys with
  | error e => exact hunbound
  | ok keys =>
    obtain ⟨_, -, hflexible, -⟩ := removeMembers_rings hunbound.flexible keys
    exact hunbound.of_founded rfl hflexible (founded_removeMembers t.members keys)

theorem dispatch (h : Enrolled s) (hb : Bindings s) (hids : s.nextPersonalId + call.reserved ≤ U64.max)
    (hdispatch : Dispatch env s origin call s') : Enrolled s' := by
  induction hdispatch with
  | underAlias _ hinner ih =>
    refine ih (le_trans (Nat.add_le_add_left ?_ _) hids)
    cases hinner with
    | _ => exact Nat.zero_le _
  | setAlias hpaired =>
    cases hpaired with
    | again _ => exact h.of_eq rfl rfl
    | moved _ _ _ => exact h.of_eq rfl rfl
    | fresh _ _ => exact h.of_eq rfl rfl
  | unsetAlias _ => exact h.of_eq rfl rfl
  | force hok =>
    refine (forceRecognize_induction (P := fun t => Bindings t ∧ Enrolled t) hok hids ⟨hb, h⟩
      fun t key t' hnext ht hrecognized => ?_).2
    have hreserved := ht.1.reserveNewId hnext
    have henrolled : Enrolled (reserveNewId t).2 := ht.2.of_eq rfl rfl
    exact ⟨hreserved.recognizePersonhood hrecognized, henrolled.recognizePersonhood hreserved hrecognized⟩
  | setPersonal _ _ hbound =>
    cases hbound with
    | moved _ _ => exact h.of_eq rfl rfl
    | fresh _ => exact h.of_eq rfl rfl
  | unsetPersonal _ _ => exact h.of_eq rfl rfl
  | create hcreated =>
    obtain ⟨hflexible, -, -, hmembers⟩ := createCollection_rings h.flexible hcreated
    exact h.of_founded rfl hflexible (Members.Store.Founded.of_eq hmembers)
  | cleanUp =>
    exact cleanUpStaleAliases_induction (P := Enrolled) _ _ h fun t ca account ht _ => ht.of_eq rfl rfl
  | other => exact h

/-- What the people pallet does of its own. -/
theorem apply (h : Enrolled c.store) (hb : Bindings c.store) (hids : LeavesIds c a) (hinternal : a.isInternal = true)
    (hok : People.apply c a = .ok s') : Enrolled s' := by
  cases a with
  | submit tx =>
    obtain ⟨origin, val, t, hauthenticated, hprepared, hdispatched⟩ := submit_ok (mapError_eq_ok.mp hok)
    have hready : Enrolled t := by
      obtain ⟨nonces, rfl | ⟨who, old, revCa, -, -, -, rfl⟩⟩ := prepare_ok hauthenticated hprepared
      · exact h.of_eq rfl rfl
      · exact h.of_eq rfl rfl
    obtain ⟨hbt, hnext⟩ := hb.prepare hauthenticated hprepared
    rcases hdispatched with rfl | hdispatched
    · exact hready
    · exact hready.dispatch hbt (by rw [hnext]; exact hids) hdispatched
  | dispatch origin call => exact h.dispatch hb hids (apply_dispatch_ok hok)
  | cleanUpAlias ca =>
    obtain ⟨account, -, rfl⟩ := cleanUpAlias_ok (mapError_eq_ok.mp hok)
    exact h.of_eq rfl rfl
  | _ => cases hinternal

/-- What others do with the collection. -/
theorem tend (h : Enrolled s) {clock : Members.Env R.pallet} {call : Members.Call R.pallet}
    {rings : Members.Store R.pallet} (htends : Members.tends call = true) (hok : s.rings.exec clock call = .ok rings)
    (clock' : Members.Env R.pallet) : Enrolled { s with members := (clock', rings) } :=
  h.of_founded rfl (h.flexible.step htends hok) (h.flexible.founded htends hok)

theorem genesis (clock : Members.Env R.pallet) (env : Env R.people) : Enrolled (ringGenesis clock env).store :=
  ⟨Members.Flexible.empty, nofun⟩

end Enrolled
end Individuality.People
