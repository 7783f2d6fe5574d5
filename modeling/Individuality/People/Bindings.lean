import Individuality.People.Effects

/-! Accounts of aliases and of people.

Three indexes mirror what is stored of the aliases and of the people, and no account
is bound twice (`Bindings`). The pallet's sufficient references of an account are one
if it is bound and none otherwise (`Counted`): suspending people breaks that where a
person has an account, which is unbound while its reference stays. -/
namespace Individuality.People
open Support
variable {T : Config} {s s' : Store T} {c c' : Chain T} {env : Env T} {id : Nat} {account : T.AccountId}
  {ca : T.Ca} {revCa : T.RevCa} {record : PersonRecord T}

structure Bindings (s : Store T) : Prop where
  aliases : Mirrors s.aliasToAccount s.accountToAlias fun revCa => some revCa.ca
  accounts : Mirrors s.accountToPersonalId s.people PersonRecord.account
  keys : Mirrors s.keys s.people fun record => some record.key
  apart : ∀ a revCa, s.accountToAlias.get a = some revCa → s.accountToPersonalId.get a = none
  reserved : ∀ id, s.reservedPersonalId.get id = some () → s.people.get id = none
  below_reserved : ∀ id, s.reservedPersonalId.get id = some () → id < s.nextPersonalId
  below : ∀ id record, s.people.get id = some record → id < s.nextPersonalId

def Counted (s : Store T) : Prop := ∀ account, s.sufficients account = if s.isBound account = true then 1 else 0

/-! ### References -/

theorem incSufficients_sufficients (s : Store T) (who a : T.AccountId) : (incSufficients s who).sufficients a =
    if a = who then s.sufficients who + 1 else s.sufficients a := Function.update_apply _ _ _ _

theorem decSufficients_sufficients (s : Store T) (who a : T.AccountId) : (decSufficients s who).sufficients a =
    if a = who then s.sufficients who - 1 else s.sufficients a := Function.update_apply _ _ _ _

/-- An account is bound, with a reference. -/
theorem Counted.inc (h : Counted s) (hfree : s.isBound account = false) (hbound : s'.isBound account = true)
    (hother : ∀ a, a ≠ account → s'.isBound a = s.isBound a)
    (hsufficients : s'.sufficients = (incSufficients s account).sufficients) : Counted s' := by
  intro a
  rw [hsufficients, incSufficients_sufficients]
  by_cases ha : a = account
  · rw [if_pos ha, ha, h account, hfree, hbound]
    rfl
  · rw [if_neg ha, hother a ha]
    exact h a

/-- An account is unbound, and loses the reference. -/
theorem Counted.dec (h : Counted s) (hbound : s.isBound account = true) (hfree : s'.isBound account = false)
    (hother : ∀ a, a ≠ account → s'.isBound a = s.isBound a)
    (hsufficients : s'.sufficients = (decSufficients s account).sufficients) : Counted s' := by
  intro a
  rw [hsufficients, decSufficients_sufficients]
  by_cases ha : a = account
  · rw [if_pos ha, ha, h account, hfree, hbound]
    rfl
  · rw [if_neg ha, hother a ha]
    exact h a

theorem Counted.of_same (h : Counted s) (hbound : ∀ a, s'.isBound a = s.isBound a)
    (hsufficients : s'.sufficients = s.sufficients) : Counted s' := by
  intro a
  rw [hsufficients, hbound a]
  exact h a

/-! ### Aliases and their accounts -/

namespace Bindings

theorem unpair (h : Bindings s) (hget : s.aliasToAccount.get ca = some account) :
    Bindings (People.unpair s ca account) := by
  obtain ⟨revCa, hrev, hname⟩ := (h.aliases ca account).mp hget
  refine ⟨h.aliases.remove hrev hname, h.accounts, h.keys, fun a revCa' hget' => ?_, h.reserved, h.below_reserved,
    h.below⟩
  exact h.apart a revCa' (StorageMap.get_of_get_remove hget')

theorem pair (h : Bindings s) (hnone : s.aliasToAccount.get revCa.ca = none) (hfree : s.isBound account = false) :
    Bindings (People.pair s revCa account) := by
  obtain ⟨halias, hperson⟩ := isBound_eq_false.mp hfree
  refine ⟨h.aliases.insert_named (fun _ hold => ?_) rfl hnone, h.accounts, h.keys, fun a revCa' hget => ?_,
    h.reserved, h.below_reserved, h.below⟩
  · cases halias.symm.trans hold
  · by_cases ha : a = account
    · rw [ha]
      exact hperson
    · exact h.apart a revCa' (((StorageMap.get_insert _ _ _ _).trans (if_neg ha)).symm.trans hget)

theorem revise (h : Bindings s) {old : T.RevCa} (hold : s.accountToAlias.get account = some old)
    (hca : revCa.ca = old.ca) : Bindings { s with accountToAlias := s.accountToAlias.insert account revCa } := by
  refine ⟨h.aliases.insert_same hold (congrArg some hca), h.accounts, h.keys, fun a revCa' hget => ?_, h.reserved,
    h.below_reserved, h.below⟩
  by_cases ha : a = account
  · rw [ha]
    exact h.apart account old hold
  · exact h.apart a revCa' (((StorageMap.get_insert _ _ _ _).trans (if_neg ha)).symm.trans hget)

theorem repair (h : Bindings s) (hget : s.aliasToAccount.get revCa.ca = some account) :
    Bindings (People.repair s revCa account) := by
  obtain ⟨old, hold, hname⟩ := (h.aliases revCa.ca account).mp hget
  have hrevised := h.revise hold (Option.some.inj hname).symm
  refine { hrevised with aliases := hrevised.aliases.congr fun k => ?_ }
  refine (StorageMap.get_insert _ _ _ _).trans ?_
  split
  · rename_i hk
    rw [hk]
    exact hget.symm
  · rfl

end Bindings

theorem isBound_unpair_of_ne {a : T.AccountId} (ha : a ≠ account) :
    (unpair s ca account).isBound a = s.isBound a :=
  isBound_congr ((StorageMap.get_remove _ _ _).trans (if_neg ha)) rfl

theorem isBound_unpair (h : Bindings s) (hget : s.aliasToAccount.get ca = some account) :
    (unpair s ca account).isBound account = false := by
  obtain ⟨revCa, hrev, -⟩ := (h.aliases ca account).mp hget
  exact isBound_eq_false.mpr ⟨(StorageMap.get_remove _ _ _).trans (if_pos rfl), h.apart account revCa hrev⟩

/-- A free account stays free when another one loses its alias. -/
theorem isBound_unpair_of_free (h : Bindings s) {old : T.AccountId} (hget : s.aliasToAccount.get ca = some old)
    (hfree : s.isBound account = false) : (unpair s ca old).isBound account = false := by
  by_cases hold : account = old
  · rw [hold]
    exact isBound_unpair h hget
  · rw [isBound_unpair_of_ne hold]
    exact hfree

theorem Counted.unpair (h : Counted s) (hb : Bindings s) (hget : s.aliasToAccount.get ca = some account) :
    Counted (People.unpair s ca account) := by
  obtain ⟨revCa, hrev, -⟩ := (hb.aliases ca account).mp hget
  exact h.dec (isBound_of_alias hrev) (isBound_unpair hb hget) (fun a ha => isBound_unpair_of_ne ha) rfl

theorem Counted.pair (h : Counted s) (hfree : s.isBound account = false) : Counted (People.pair s revCa account) :=
  h.inc hfree (isBound_of_alias ((StorageMap.get_insert _ _ _ _).trans (if_pos rfl)))
    (fun _ ha => isBound_congr ((StorageMap.get_insert _ _ _ _).trans (if_neg ha)) rfl) rfl

/-- An alias of another revision in place of the one that is there. -/
theorem Counted.revise (h : Counted s) {old : T.RevCa} (hold : s.accountToAlias.get account = some old)
    (haccountToAlias : s'.accountToAlias = s.accountToAlias.insert account revCa)
    (hpersonal : s'.accountToPersonalId = s.accountToPersonalId) (hsufficients : s'.sufficients = s.sufficients) :
    Counted s' := by
  refine h.of_same (fun a => ?_) hsufficients
  by_cases ha : a = account
  · rw [ha, isBound_of_alias hold]
    have hnew : s'.accountToAlias.get account = some revCa := by
      rw [haccountToAlias]
      exact (StorageMap.get_insert _ _ _ _).trans (if_pos rfl)
    exact isBound_of_alias hnew
  · refine isBound_congr ?_ (by rw [hpersonal])
    rw [haccountToAlias]
    exact (StorageMap.get_insert _ _ _ _).trans (if_neg ha)

/-! ### People and their accounts -/

namespace Bindings

/-- The record of a person changes, and the key stays. -/
theorem put_record (h : Bindings s) (record' : PersonRecord T) {accountToPersonalId : StorageMap T.AccountId Nat}
    (hget : s.people.get id = some record) (hkey : record'.key = record.key)
    (haccounts : Mirrors accountToPersonalId (s.people.insert id record') PersonRecord.account)
    (hapart : ∀ a revCa, s.accountToAlias.get a = some revCa → accountToPersonalId.get a = none)
    {sufficients : T.AccountId → Int} :
    Bindings { s with
      accountToPersonalId := accountToPersonalId
      people := s.people.insert id record'
      sufficients := sufficients } := by
  have hother : ∀ id' record'', (s.people.insert id record').get id' = some record'' →
      ∃ record''', s.people.get id' = some record''' := by
    intro id' record'' hget'
    rw [StorageMap.get_insert] at hget'
    split at hget'
    · rename_i hid
      exact ⟨record, hid ▸ hget⟩
    · exact ⟨record'', hget'⟩
  refine ⟨h.aliases, haccounts, h.keys.insert_same hget (congrArg some hkey), hapart, fun id' hreserved => ?_,
    h.below_reserved, fun id' record'' hget' => ?_⟩
  · cases hget' : (s.people.insert id record').get id' with
    | none => rfl
    | some record'' =>
      obtain ⟨_, hthere⟩ := hother id' record'' hget'
      cases (h.reserved id' hreserved).symm.trans hthere
  · obtain ⟨_, hthere⟩ := hother id' record'' hget'
    exact h.below id' _ hthere

theorem bindAccount (h : Bindings s) (hget : s.people.get id = some record) (hnone : record.account = none)
    (hfree : s.isBound account = false) : Bindings (People.bindAccount s id record account) := by
  obtain ⟨halias, hperson⟩ := isBound_eq_false.mp hfree
  refine h.put_record { record with account := some account } hget rfl (h.accounts.insert_named (fun record₀ hget₀ => ?_) rfl hperson)
    fun a revCa hget' => ?_
  · cases hget.symm.trans hget₀
    exact hnone
  · refine (StorageMap.get_insert _ _ _ _).trans ?_
    split
    · rename_i ha
      rw [ha, halias] at hget'
      cases hget'
    · exact h.apart a revCa hget'

theorem releaseAccount (h : Bindings s) (hget : s.people.get id = some record)
    (haccount : record.account = some account) : Bindings (People.releaseAccount s id record account) := by
  refine h.put_record { record with account := none } hget rfl (h.accounts.clear hget haccount rfl) fun a revCa hget' => ?_
  refine (StorageMap.get_remove _ _ _).trans ?_
  split
  · rfl
  · exact h.apart a revCa hget'

/-- Without an account to unbind, a suspension leaves the accounts as they are. -/
theorem unbind (h : Bindings s) (hget : s.people.get id = some record) : Bindings (People.unbind s id record) := by
  unfold People.unbind
  cases haccount : record.account with
  | none => exact h.put_record { record with account := none } hget rfl (h.accounts.insert_same hget haccount.symm) h.apart
  | some account =>
    refine h.put_record { record with account := none } hget rfl (h.accounts.clear hget haccount rfl) fun a revCa hget' => ?_
    refine (StorageMap.get_remove _ _ _).trans ?_
    split
    · rfl
    · exact h.apart a revCa hget'

end Bindings

theorem isBound_releaseAccount (h : Bindings s) (hget : s.people.get id = some record)
    (haccount : record.account = some account) : (releaseAccount s id record account).isBound account = false := by
  refine isBound_eq_false.mpr ⟨?_, (StorageMap.get_remove _ _ _).trans (if_pos rfl)⟩
  cases halias : s.accountToAlias.get account with
  | none => exact halias
  | some revCa => cases (h.apart account revCa halias).symm.trans (h.accounts.get hget haccount)

theorem isBound_releaseAccount_of_ne {a : T.AccountId} (ha : a ≠ account) :
    (releaseAccount s id record account).isBound a = s.isBound a :=
  isBound_congr rfl ((StorageMap.get_remove _ _ _).trans (if_neg ha))

/-- A free account stays free when a person loses another one. -/
theorem isBound_releaseAccount_of_free (h : Bindings s) {old : T.AccountId} (hget : s.people.get id = some record)
    (hold : record.account = some old) (hfree : s.isBound account = false) :
    (releaseAccount s id record old).isBound account = false := by
  by_cases ha : account = old
  · rw [ha]
    exact isBound_releaseAccount h hget hold
  · rw [isBound_releaseAccount_of_ne ha]
    exact hfree

theorem Counted.releaseAccount (h : Counted s) (hb : Bindings s) (hget : s.people.get id = some record)
    (haccount : record.account = some account) : Counted (People.releaseAccount s id record account) :=
  h.dec (isBound_of_person (hb.accounts.get hget haccount)) (isBound_releaseAccount hb hget haccount)
    (fun _ ha => isBound_releaseAccount_of_ne ha) rfl

theorem Counted.bindAccount (h : Counted s) (hfree : s.isBound account = false) :
    Counted (People.bindAccount s id record account) :=
  h.inc hfree (isBound_of_person ((StorageMap.get_insert _ _ _ _).trans (if_pos rfl)))
    (fun _ ha => isBound_congr rfl ((StorageMap.get_insert _ _ _ _).trans (if_neg ha))) rfl

theorem Counted.unbind (h : Counted s) (hnone : record.account = none) : Counted (People.unbind s id record) := by
  refine h.of_same (fun _ => isBound_congr rfl ?_) rfl
  rw [People.unbind, hnone]

/-! ### People and their ids -/

namespace Bindings

/-- The rest of the storage says nothing of accounts or keys. -/
theorem frame (h : Bindings s) (members : T.memberService.World) (created : Bool) (nonces : T.AccountId → Nat) :
    Bindings { s with members := members, peopleCollectionCreated := created, nonces := nonces } :=
  ⟨h.aliases, h.accounts, h.keys, h.apart, h.reserved, h.below_reserved, h.below⟩

theorem reserveNewId (h : Bindings s) (hnext : s.nextPersonalId + 1 ≤ U64.max) :
    Bindings (People.reserveNewId s).2 := by
  have hincreased : U64.saturatingAdd s.nextPersonalId 1 = s.nextPersonalId + 1 := U64.saturatingAdd_eq hnext
  have hnone : s.people.get s.nextPersonalId = none := by
    cases hget : s.people.get s.nextPersonalId with
    | none => rfl
    | some record => exact absurd (h.below _ record hget) (Nat.lt_irrefl _)
  refine ⟨h.aliases, h.accounts, h.keys, h.apart, fun id hreserved => ?_, fun id hreserved => ?_,
    fun id record hget => ?_⟩
  · have hreserved := (StorageMap.get_insert _ _ _ _).symm.trans hreserved
    split at hreserved
    · rename_i hid
      rw [hid]
      exact hnone
    · exact h.reserved id hreserved
  · have hreserved := (StorageMap.get_insert _ _ _ _).symm.trans hreserved
    show id < U64.saturatingAdd s.nextPersonalId 1
    rw [hincreased]
    split at hreserved
    · rename_i hid
      rw [hid]
      exact Nat.lt_succ_self _
    · exact Nat.lt_succ_of_lt (h.below_reserved id hreserved)
  · show id < U64.saturatingAdd s.nextPersonalId 1
    rw [hincreased]
    exact Nat.lt_succ_of_lt (h.below id record hget)

theorem cancelIdReservation (h : Bindings s) (hok : People.cancelIdReservation s id = .ok s') : Bindings s' := by
  simp only [People.cancelIdReservation, bind_eq_ok, pure_eq_ok] at hok
  obtain ⟨-, -, rfl⟩ := hok
  exact ⟨h.aliases, h.accounts, h.keys, h.apart, fun id' hget => h.reserved id' (StorageMap.get_of_get_remove hget),
    fun id' hget => h.below_reserved id' (StorageMap.get_of_get_remove hget), h.below⟩

theorem renewIdReservation (h : Bindings s) (hok : People.renewIdReservation s id = .ok s') : Bindings s' := by
  simp only [People.renewIdReservation, bind_eq_ok, ensure_eq_ok, pure_eq_ok, not_or, Nat.not_le, Bool.not_eq_true,
    StorageMap.contains_eq_false] at hok
  obtain ⟨-, ⟨hbelow, hnone, -⟩, rfl⟩ := hok
  refine ⟨h.aliases, h.accounts, h.keys, h.apart, fun id' hreserved => ?_, fun id' hreserved => ?_, h.below⟩
  · have hreserved := (StorageMap.get_insert _ _ _ _).symm.trans hreserved
    split at hreserved
    · rename_i hid
      rw [hid]
      exact hnone
    · exact h.reserved id' hreserved
  · have hreserved := (StorageMap.get_insert _ _ _ _).symm.trans hreserved
    split at hreserved
    · rename_i hid
      rw [hid]
      exact hbelow
    · exact h.below_reserved id' hreserved

end Bindings

/-- What an accepted recognition writes: a new person under a reserved id, or only members. -/
theorem recognizePersonhood_ok {maybeKey : Option T.Member} (hok : recognizePersonhood s id maybeKey = .ok s') :
    (∃ key members, maybeKey = some key ∧ s.keys.get key = none ∧ s.reservedPersonalId.get id = some () ∧
      T.memberService.addMembers s.members [key] = some members ∧ s' = { s with
        members := members
        reservedPersonalId := s.reservedPersonalId.remove id
        keys := s.keys.insert key id
        people := s.people.insert id ⟨key, none⟩ }) ∨
    ∃ record members, maybeKey = none ∧ s.people.get id = some record ∧
      T.memberService.addMembers s.members [record.key] = some members ∧ s' = { s with members := members } := by
  cases maybeKey with
  | some key =>
    simp only [recognizePersonhood, bind_eq_ok, ensure_eq_ok, okOr_eq_ok, pure_eq_ok,
      StorageMap.contains_eq_false, StorageMap.contains_eq_true] at hok
    obtain ⟨-, hkey, -, ⟨_, hreserved⟩, members, hadded, rfl⟩ := hok
    exact .inl ⟨key, members, rfl, hkey, hreserved, hadded, rfl⟩
  | none =>
    simp only [recognizePersonhood, bind_eq_ok, okOr_eq_ok, pure_eq_ok] at hok
    obtain ⟨record, hrecord, -, -, members, hadded, rfl⟩ := hok
    exact .inr ⟨record, members, rfl, hrecord, hadded, rfl⟩

theorem Bindings.recognizePersonhood (h : Bindings s) {maybeKey : Option T.Member}
    (hok : People.recognizePersonhood s id maybeKey = .ok s') : Bindings s' := by
  rcases recognizePersonhood_ok hok with ⟨key, members, -, hkey, hreserved, -, rfl⟩ | ⟨_, members, -, -, -, rfl⟩
  · have hnone := h.reserved id hreserved
    refine ⟨h.aliases, h.accounts.insert_unnamed hnone rfl, h.keys.insert_named (fun _ hget => ?_) rfl hkey, h.apart,
      fun id' hget => ?_, fun id' hget => h.below_reserved id' (StorageMap.get_of_get_remove hget),
      fun id' record hget => ?_⟩
    · cases hnone.symm.trans hget
    · refine (StorageMap.get_insert _ _ _ _).trans ?_
      split
      · rename_i hid
        rw [hid] at hget
        cases ((StorageMap.get_remove _ _ _).trans (if_pos rfl)).symm.trans hget
      · exact h.reserved id' (StorageMap.get_of_get_remove hget)
    · have hget := (StorageMap.get_insert _ _ _ _).symm.trans hget
      split at hget
      · rename_i hid
        rw [hid]
        exact h.below_reserved id hreserved
      · exact h.below id' record hget
  · exact h.frame members s.peopleCollectionCreated s.nonces

theorem Counted.recognizePersonhood (h : Counted s) {maybeKey : Option T.Member}
    (hok : People.recognizePersonhood s id maybeKey = .ok s') : Counted s' := by
  rcases recognizePersonhood_ok hok with ⟨_, _, -, -, -, -, rfl⟩ | ⟨_, _, -, -, -, rfl⟩
  · exact h
  · exact h

/-- Recognizing people by force, as long as there are ids for them. -/
theorem forceRecognize_induction {P : Store T → Prop} {people : List T.Member}
    (hok : people.foldlM forceRecognize s = .ok s') (hnext : s.nextPersonalId + people.length ≤ U64.max) (h₀ : P s)
    (step : ∀ t key t', t.nextPersonalId + 1 ≤ U64.max → P t →
      People.recognizePersonhood (reserveNewId t).2 t.nextPersonalId (some key) = .ok t' → P t') : P s' := by
  induction people generalizing s with
  | nil =>
    cases hok
    exact h₀
  | cons key rest ih =>
    rw [List.foldlM_cons, bind_eq_ok] at hok
    obtain ⟨t, hforced, hok⟩ := hok
    have hrecognized : People.recognizePersonhood (reserveNewId s).2 s.nextPersonalId (some key) = .ok t := hforced
    rw [List.length_cons] at hnext
    have hone : s.nextPersonalId + 1 ≤ U64.max := by omega
    refine ih hok ?_ (step s key t hone h₀ hrecognized)
    have hincreased : t.nextPersonalId = s.nextPersonalId + 1 := by
      rcases recognizePersonhood_ok hrecognized with ⟨_, _, -, -, -, -, rfl⟩ | ⟨_, _, hkey, -⟩
      · exact U64.saturatingAdd_eq hone
      · cases hkey
    rw [hincreased]
    omega

/-! ### Runs -/

/-- How many ids a call reserves. -/
def Call.reserved : Call T → Nat
  | .forceRecognizePersonhood people => people.length
  | _ => 0

/-- How many ids an action reserves. -/
def Action.reserved : Action T → Nat
  | .submit tx => tx.call.reserved
  | .dispatch _ call => call.reserved
  | .reserveNewId => 1
  | _ => 0

/-- There are ids left for those that an action reserves. -/
def LeavesIds (c : Chain T) (a : Action T) : Prop := c.store.nextPersonalId + a.reserved ≤ U64.max

instance (c : Chain T) (a : Action T) : Decidable (LeavesIds c a) := inferInstanceAs (Decidable (_ ≤ _))

theorem Bindings.dispatch (h : Bindings s) {origin : Origin T} {call : Call T}
    (hids : s.nextPersonalId + call.reserved ≤ U64.max) (hdispatch : Dispatch env s origin call s') :
    Bindings s' := by
  induction hdispatch with
  | underAlias _ hinner ih =>
    refine ih (le_trans (Nat.add_le_add_left ?_ _) hids)
    cases hinner with
    | _ => exact Nat.zero_le _
  | setAlias hpaired =>
    cases hpaired with
    | again hget => exact h.repair hget
    | moved old hget hfree =>
      exact (h.unpair hget).pair ((StorageMap.get_remove _ _ _).trans (if_pos rfl)) (isBound_unpair_of_free h hget hfree)
    | fresh hnone hfree => exact h.pair hnone hfree
  | unsetAlias hget => exact h.unpair hget
  | force hok =>
    exact forceRecognize_induction hok hids h fun t key t' hnext ht hrecognized =>
      (ht.reserveNewId hnext).recognizePersonhood hrecognized
  | setPersonal hget hfree hbound =>
    cases hbound with
    | moved old hold =>
      exact (h.releaseAccount hget hold).bindAccount ((StorageMap.get_insert _ _ _ _).trans (if_pos rfl)) rfl
        (isBound_releaseAccount_of_free h hget hold hfree)
    | fresh hnone => exact h.bindAccount hget hnone hfree
  | unsetPersonal hget haccount => exact h.releaseAccount hget haccount
  | create => exact h.frame _ _ _
  | cleanUp => exact cleanUpStaleAliases_induction _ _ h fun t ca account ht hget => ht.unpair hget
  | other => exact h

theorem Counted.dispatch (h : Counted s) (hb : Bindings s) {origin : Origin T} {call : Call T}
    (hids : s.nextPersonalId + call.reserved ≤ U64.max) (hdispatch : Dispatch env s origin call s') :
    Counted s' := by
  induction hdispatch with
  | underAlias _ hinner ih =>
    refine ih (le_trans (Nat.add_le_add_left ?_ _) hids)
    cases hinner with
    | _ => exact Nat.zero_le _
  | setAlias hpaired =>
    cases hpaired with
    | again hget =>
      obtain ⟨old, hold, -⟩ := (hb.aliases _ _).mp hget
      exact h.revise hold rfl rfl rfl
    | moved old hget hfree => exact (h.unpair hb hget).pair (isBound_unpair_of_free hb hget hfree)
    | fresh hnone hfree => exact h.pair hfree
  | unsetAlias hget => exact h.unpair hb hget
  | force hok =>
    exact forceRecognize_induction hok hids h fun t key t' _ ht hrecognized =>
      Counted.recognizePersonhood (s := (reserveNewId t).2) ht hrecognized
  | setPersonal hget hfree hbound =>
    cases hbound with
    | moved old hold =>
      exact (h.releaseAccount hb hget hold).bindAccount (isBound_releaseAccount_of_free hb hget hold hfree)
    | fresh hnone => exact h.bindAccount hfree
  | unsetPersonal hget haccount => exact h.releaseAccount hb hget haccount
  | create => exact h
  | cleanUp =>
    exact (cleanUpStaleAliases_induction (P := fun t => Bindings t ∧ Counted t) _ _ ⟨hb, h⟩
      fun t ca account ht hget => ⟨ht.1.unpair hget, ht.2.unpair ht.1 hget⟩).2
  | other => exact h

/-- What the extension writes ahead of a call. -/
theorem Bindings.prepare (h : Bindings s) {tx : Transaction T} {origin : Origin T} {val : Val T}
    (hauthenticated : Authenticated env s tx origin val) (hok : People.prepare s val = .ok s') :
    Bindings s' ∧ s'.nextPersonalId = s.nextPersonalId := by
  obtain ⟨nonces, rfl | ⟨who, old, revCa, -, hold, hca, rfl⟩⟩ := prepare_ok hauthenticated hok
  · exact ⟨h.frame _ _ nonces, rfl⟩
  · exact ⟨(h.revise hold hca).frame _ _ nonces, rfl⟩

theorem Counted.prepare (h : Counted s) {tx : Transaction T} {origin : Origin T} {val : Val T}
    (hauthenticated : Authenticated env s tx origin val) (hok : People.prepare s val = .ok s') : Counted s' := by
  obtain ⟨nonces, rfl | ⟨who, old, revCa, -, hold, -, rfl⟩⟩ := prepare_ok hauthenticated hok
  · exact h
  · exact h.revise hold rfl rfl rfl

theorem Bindings.suspendPersonhood (h : Bindings s) (suspensions : List Nat) :
    Bindings (People.suspendPersonhood s suspensions).1 := by
  have hunbound : Bindings (unbindAll s suspensions).1 :=
    unbindAll_induction suspensions h fun t id record ht _ hget => ht.unbind hget
  obtain ⟨members, heq⟩ := suspendPersonhood_eq s suspensions
  rw [heq]
  exact hunbound.frame members _ _

theorem apply_dispatch_ok {origin : Origin T} {call : Call T} (hok : apply c (.dispatch origin call) = .ok s') :
    Dispatch c.env c.store origin call s' := by
  have hok := mapError_eq_ok.mp hok
  cases hdispatched : dispatch c.env c.store origin call with
  | error e =>
    rw [hdispatched] at hok
    cases hok
  | ok out =>
    rw [hdispatched] at hok
    cases hok
    exact dispatch_effect hdispatched

theorem cleanUpAlias_ok (hok : cleanUpAlias s ca = .ok s') :
    ∃ account, s.aliasToAccount.get ca = some account ∧ s' = unpair s ca account := by
  simp only [cleanUpAlias, bind_eq_ok, okOr_eq_ok, pure_eq_ok] at hok
  obtain ⟨account, hget, _, -, -, -, rfl⟩ := hok
  exact ⟨account, hget, rfl⟩

theorem Bindings.apply (h : Bindings c.store) (hids : LeavesIds c a) (hok : People.apply c a = .ok s') :
    Bindings s' := by
  cases a with
  | submit tx =>
    obtain ⟨origin, val, t, hauthenticated, hprepared, hdispatched⟩ := submit_ok (mapError_eq_ok.mp hok)
    obtain ⟨ht, hnext⟩ := h.prepare hauthenticated hprepared
    rcases hdispatched with rfl | hdispatched
    · exact ht
    · exact ht.dispatch (by rw [hnext]; exact hids) hdispatched
  | dispatch origin call => exact h.dispatch hids (apply_dispatch_ok hok)
  | reserveNewId =>
    cases hok
    exact h.reserveNewId hids
  | cancelIdReservation id => exact h.cancelIdReservation (mapError_eq_ok.mp hok)
  | renewIdReservation id => exact h.renewIdReservation (mapError_eq_ok.mp hok)
  | recognizePersonhood who maybeKey => exact h.recognizePersonhood (mapError_eq_ok.mp hok)
  | suspendPersonhood suspensions =>
    cases hok
    exact h.suspendPersonhood suspensions
  | cleanUpAlias ca =>
    obtain ⟨account, hget, rfl⟩ := cleanUpAlias_ok (mapError_eq_ok.mp hok)
    exact h.unpair hget
  | elsewhere members env =>
    cases hok
    exact h.frame members _ _

/-- The people that an action suspends. -/
def Action.suspensions : Action T → List Nat
  | .suspendPersonhood suspensions => suspensions
  | _ => []

/-- People who are suspended have no accounts. -/
def SuspendsUnbound (c : Chain T) (a : Action T) : Prop :=
  ∀ id ∈ a.suspensions, (c.store.people.get id).bind PersonRecord.account = none

instance (c : Chain T) (a : Action T) : Decidable (SuspendsUnbound c a) :=
  inferInstanceAs (Decidable (∀ id ∈ a.suspensions, _))

theorem Counted.suspendPersonhood (h : Counted s) {suspensions : List Nat}
    (hnone : ∀ id ∈ suspensions, (s.people.get id).bind PersonRecord.account = none) :
    Counted (People.suspendPersonhood s suspensions).1 := by
  obtain ⟨hunbound, -⟩ := unbindAll_induction (s := s) (P := fun t => Counted t ∧
    ∀ id ∈ suspensions, (t.people.get id).bind PersonRecord.account = none) suspensions ⟨h, hnone⟩
    fun t id record ht hid hget => by
      have haccount := ht.2 id hid
      rw [hget] at haccount
      refine ⟨ht.1.unbind haccount, fun id' hid' => ?_⟩
      show ((t.people.insert id { record with account := none }).get id').bind PersonRecord.account = none
      rw [StorageMap.get_insert]
      split
      · rfl
      · exact ht.2 id' hid'
  obtain ⟨members, heq⟩ := suspendPersonhood_eq s suspensions
  rw [heq]
  exact hunbound

theorem Counted.apply (h : Counted c.store) (hb : Bindings c.store) (hids : LeavesIds c a)
    (hunbound : SuspendsUnbound c a) (hok : People.apply c a = .ok s') : Counted s' := by
  cases a with
  | submit tx =>
    obtain ⟨origin, val, t, hauthenticated, hprepared, hdispatched⟩ := submit_ok (mapError_eq_ok.mp hok)
    have ht := h.prepare hauthenticated hprepared
    obtain ⟨hbt, hnext⟩ := hb.prepare hauthenticated hprepared
    rcases hdispatched with rfl | hdispatched
    · exact ht
    · exact ht.dispatch hbt (by rw [hnext]; exact hids) hdispatched
  | dispatch origin call => exact h.dispatch hb hids (apply_dispatch_ok hok)
  | reserveNewId =>
    cases hok
    exact h
  | cancelIdReservation id =>
    have hok := mapError_eq_ok.mp hok
    simp only [cancelIdReservation, bind_eq_ok, pure_eq_ok] at hok
    obtain ⟨-, -, rfl⟩ := hok
    exact h
  | renewIdReservation id =>
    have hok := mapError_eq_ok.mp hok
    simp only [renewIdReservation, bind_eq_ok, pure_eq_ok] at hok
    obtain ⟨-, -, rfl⟩ := hok
    exact h
  | recognizePersonhood who maybeKey => exact h.recognizePersonhood (mapError_eq_ok.mp hok)
  | suspendPersonhood suspensions =>
    cases hok
    exact h.suspendPersonhood hunbound
  | cleanUpAlias ca =>
    obtain ⟨account, hget, rfl⟩ := cleanUpAlias_ok (mapError_eq_ok.mp hok)
    exact h.unpair hb hget
  | elsewhere members env =>
    cases hok
    exact h

theorem bindings_genesis (members : T.memberService.World) (env : Env T) : Bindings (genesis members env).store :=
  ⟨Mirrors.empty, Mirrors.empty, Mirrors.empty, nofun, nofun, nofun, nofun⟩

theorem counted_reached {members : T.memberService.World}
    (h : Reaches exec (fun c a => LeavesIds c a ∧ SuspendsUnbound c a) (genesis members env) c) :
    Bindings c.store ∧ Counted c.store :=
  h.invariant (I := fun c => Bindings c.store ∧ Counted c.store) ⟨bindings_genesis members env, fun _ => rfl⟩
    fun t a t' ht ha hexec => by
      obtain ⟨s', happly, hstore⟩ := exec_ok hexec
      rw [hstore]
      exact ⟨ht.1.apply ha.1 happly, ht.2.apply ht.1 ha.1 ha.2 happly⟩

/-- In every state reached by reserving ids that are there and suspending people without accounts, aliases
and people have exactly the accounts that say so, no account has both, an account that has either
has one reference and the others none, keys are people's and people's keys are known, and ids are
reserved or people's, not both, and have been given out. -/
theorem bindings_balance {members : T.memberService.World}
    (h : Reaches exec (fun c a => LeavesIds c a ∧ SuspendsUnbound c a) (genesis members env) c) :
    (∀ ca account, c.store.aliasToAccount.get ca = some account ↔
      ∃ revCa, c.store.accountToAlias.get account = some revCa ∧ revCa.ca = ca) ∧
    (∀ account id, c.store.accountToPersonalId.get account = some id ↔
      ∃ record, c.store.people.get id = some record ∧ record.account = some account) ∧
    (∀ account, c.store.accountToAlias.get account = none ∨ c.store.accountToPersonalId.get account = none) ∧
    (∀ account, c.store.sufficients account = if c.store.isBound account = true then 1 else 0) ∧
    (∀ key id, c.store.keys.get key = some id ↔
      ∃ record, c.store.people.get id = some record ∧ record.key = key) ∧
    (∀ id, c.store.reservedPersonalId.get id = none ∨ c.store.people.get id = none) ∧
    ∀ id, c.store.reservedPersonalId.contains id = true ∨ c.store.people.contains id = true →
      id < c.store.nextPersonalId := by
  obtain ⟨hb, hcounted⟩ := counted_reached h
  refine ⟨fun ca account => ?_, hb.accounts, fun account => ?_, hcounted, fun key id => ?_, fun id => ?_,
    fun id hid => ?_⟩
  · simp only [hb.aliases ca account, Option.some.injEq]
  · cases hget : c.store.accountToAlias.get account with
    | none => exact .inl rfl
    | some revCa => exact .inr (hb.apart account revCa hget)
  · simp only [hb.keys key id, Option.some.injEq]
  · cases hget : c.store.reservedPersonalId.get id with
    | none => exact .inl rfl
    | some u => exact .inr (hb.reserved id hget)
  · rcases hid with hid | hid
    · obtain ⟨_, hget⟩ := StorageMap.contains_eq_true.mp hid
      exact hb.below_reserved id hget
    · obtain ⟨record, hget⟩ := StorageMap.contains_eq_true.mp hid
      exact hb.below id record hget

/-! ### Sample runs -/

/-- A collection of one ring that never changes its revision. A proof names its member and its message. -/
def sampleService : MemberService where
  World := List Nat
  Member := Nat
  Proof := Nat × Nat
  Message := Nat
  Context := Nat
  Alias := Nat × Nat
  memberDecEq := inferInstance
  contextDecEq := inferInstance
  aliasDecEq := inferInstance
  createCollection := some
  addMembers w members := if members.all (· ∉ w) then some (w ++ members) else none
  removeMembers w members := (w.filter (· ∉ members), true)
  ringRevision _ _ := some 0
  verifyMembership w proof _ context message :=
    if proof.1 ∈ w ∧ proof.2 = message then some (0, proof.1, context) else none

/-- A signature is its key. -/
def sampleConfig : Config where
  memberService := sampleService
  AccountId := Nat
  accountDecEq := inferInstance
  Signature := Nat
  verifySignature signature _ key := Nat.beq signature key
  reviseMessage message _ _ := message

def sampleGenesis : Chain sampleConfig := genesis [] ⟨0, fun _ => true, fun _ => true⟩

/-- Two people, of whom the first sets an account of their own and the second one of an alias. -/
def sampleSetup : List (Action sampleConfig) :=
  [.submit ⟨.external, .manager, none, .forceRecognizePersonhood [(5 : Nat), (6 : Nat)], (0 : Nat)⟩,
    .submit ⟨.external, .none, some (.asPersonalIdentityWithProof (5 : Nat) 0),
      .setPersonalIdAccount (7 : Nat) 0, (0 : Nat)⟩,
    .submit ⟨.external, .none, some (.asPersonalAliasWithProof ((6 : Nat), (0 : Nat)) 0 (1 : Nat)),
      .setAliasAccount (8 : Nat) 0, (0 : Nat)⟩]

/-- The second person is suspended, who has no account of their own. -/
theorem bindings_balance_sample : ∃ c, Reaches exec (fun c a => LeavesIds c a ∧ SuspendsUnbound c a) sampleGenesis c ∧
    (c.store.isBound (7 : Nat) = true ∧ c.store.isBound (8 : Nat) = true) ∧
    ∀ account, c.store.sufficients account = if c.store.isBound account = true then 1 else 0 := by
  obtain ⟨c, hreach, hbound⟩ := exists_reaches exec (fun c a => LeavesIds c a ∧ SuspendsUnbound c a) sampleGenesis
    (sampleSetup ++ [.suspendPersonhood [1]])
    (fun c => c.store.isBound (7 : Nat) = true ∧ c.store.isBound (8 : Nat) = true) (by decide +kernel)
  exact ⟨c, hreach, hbound, (bindings_balance (T := sampleConfig) hreach).2.2.2.1⟩

/-- The first person is suspended, who has an account: it keeps its reference. -/
theorem bindings_unbalanced : ∃ c, Reaches exec (fun _ _ => True) sampleGenesis c ∧
    c.store.isBound (7 : Nat) = false ∧ c.store.sufficients (7 : Nat) = 1 :=
  exists_reaches exec (fun _ _ => True) sampleGenesis (sampleSetup ++ [.suspendPersonhood [0]])
    (fun c => c.store.isBound (7 : Nat) = false ∧ c.store.sufficients (7 : Nat) = 1) (by decide +kernel)

end Individuality.People
