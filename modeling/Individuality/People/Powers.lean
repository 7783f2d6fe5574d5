import Individuality.People.Rings
import Individuality.Members.Ideal

/-! What a suspended person may not do.

A transaction is given the personal identity of an account that a person has bound, and
a person who is suspended has none; it is given an alias that a key of the ring shows, or
that an account was bound to at the ring's revision, and what such an alias was shown by
stays in the ring until the revision passes (`Standing`). So a suspended person acts
neither under the personal identity nor, once the ring is cleaned, under an alias, unless
the identity is asked for by a signature: nothing asks whether its key is suspended. -/
namespace Individuality.People
open Support
variable {R : RingConfig} {V : Members.IdealRingVrf R.pallet} {s s' : Store R.people} {c c' : Chain R.people}
  {env : Env R.people} {cleaned cleaned' : Set Nat} {origin : Origin R.people} {call : Call R.people}
  {tx : Transaction R.people} {id : Nat} {record : PersonRecord R.people} {account : R.AccountId}
  {revCa : R.people.RevCa}

section Powers
variable (V)

/-- The alias is of a key that its ring stores. -/
def Shown (rings : Members.Store R.pallet) (revCa : R.people.RevCa) : Prop :=
  ∃ key ∈ rings.page revCa.ring 0, revCa.ca.ringAlias = V.aliasIn key revCa.ca.context

/-- What is asked of a transaction ahead of a personal origin. -/
def Granted (s : Store R.people) : Origin R.people → Prop
  | .personalIdentity id => ¬Suspended s id
  | .personalAlias revCa => Shown V s.rings revCa
  | _ => True

/-- The origins of suspended people, and the aliases of those whose ring has been cleaned. -/
def Forbidden (s : Store R.people) (cleaned : Set Nat) : Origin R.people → Prop
  | .personalIdentity id => Suspended s id
  | .personalAlias revCa => ∃ id ∈ cleaned, ∃ record, s.people.get id = some record ∧
      revCa.ca.ringAlias = V.aliasIn record.key revCa.ca.context
  | _ => False

structure Standing (s : Store R.people) (cleaned : Set Nat) : Prop where
  bindings : Bindings s
  flexible : Members.Flexible s.rings
  unbound : ∀ id record, s.people.get id = some record → s.rings.members.get record.key = some .suspended →
    record.account = none
  shown : ∀ account revCa, s.accountToAlias.get account = some revCa →
    s.rings.ringRevision revCa.ring = some revCa.revision → Shown V s.rings revCa
  cleaned : ∀ id ∈ cleaned, ∃ record, s.people.get id = some record ∧
    s.rings.members.get record.key = some .suspended ∧ s.rings.Absent record.key

end Powers

/-- A cleaned ring shows no alias of the key that it lost. -/
theorem Granted.not_forbidden (h : Granted V s origin) (hs : Standing V s cleaned) : ¬Forbidden V s cleaned origin := by
  cases origin with
  | personalIdentity id => exact h
  | personalAlias revCa =>
    rintro ⟨id, hid, record, hget, halias⟩
    obtain ⟨key, hkey, hshown⟩ := h
    obtain ⟨record', hget', -, habsent⟩ := hs.cleaned id hid
    cases hget.symm.trans hget'
    have heq : key = record.key := V.injective (hshown.symm.trans halias)
    exact habsent _ 0 (heq ▸ hkey)
  | _ => exact id

theorem Shown.congr {rings : Members.Store R.pallet} (h : Shown V s.rings revCa) (hpage : rings.page = s.rings.page) :
    Shown V rings revCa := by
  obtain ⟨key, hkey, halias⟩ := h
  exact ⟨key, by rw [hpage]; exact hkey, halias⟩

/-! ### The members of the collection -/

theorem addMembers_rings {w w' : Members.Env R.pallet × Members.Store R.pallet} {key : R.pallet.Member}
    (h : Members.Flexible w.2) (hadded : R.people.memberService.addMembers w [key] = some w') :
    Members.Flexible w'.2 ∧ w'.2.page = w.2.page ∧ w'.2.root = w.2.root ∧
      ∀ k, w'.2.members.get k = some .suspended ↔ w.2.members.get k = some .suspended ∧ k ≠ key := by
  simp only [Option.map_eq_some_iff, toOption_eq_some] at hadded
  obtain ⟨rings, hok, rfl⟩ := hadded
  obtain ⟨-, hfold⟩ := Members.Store.addMembers_spec hok
  simp only [List.foldlM_cons, List.foldlM_nil, bind_pure] at hfold
  exact h.addMember hfold

theorem suspendEach_rings {rings : Members.Store R.pallet} (h : Members.Flexible rings) (keys : List R.pallet.Member) :
    ∃ done, done ⊆ keys ∧ Members.Flexible (suspendEach rings keys).1 ∧
      (suspendEach rings keys).1.page = rings.page ∧ (suspendEach rings keys).1.root = rings.root ∧
      ∀ k, (suspendEach rings keys).1.members.get k = some .suspended ↔
        rings.members.get k = some .suspended ∨ k ∈ done := by
  induction keys generalizing rings with
  | nil => exact ⟨[], List.Subset.refl _, h, rfl, rfl, fun k => by simp [suspendEach]⟩
  | cons key rest ih =>
    unfold suspendEach
    split
    · rename_i rings' hok
      obtain ⟨h', hpage, hroot, hsuspended⟩ := h.queueMemberSuspension hok
      obtain ⟨done, hdone, hflexible, hpage', hroot', hsuspended'⟩ := ih h'
      refine ⟨key :: done, List.cons_subset_cons key hdone, hflexible, hpage'.trans hpage, hroot'.trans hroot,
        fun k => ?_⟩
      rw [hsuspended', hsuspended, List.mem_cons, or_assoc]
    · exact ⟨[], List.nil_subset _, h, rfl, rfl, fun k => by simp⟩

theorem removeMembers_rings {w : Members.Env R.pallet × Members.Store R.pallet} (h : Members.Flexible w.2)
    (keys : List R.pallet.Member) :
    ∃ done, done ⊆ keys ∧ Members.Flexible (R.people.memberService.removeMembers w keys).1.2 ∧
      (R.people.memberService.removeMembers w keys).1.2.page = w.2.page ∧
      (R.people.memberService.removeMembers w keys).1.2.root = w.2.root ∧
      ∀ k, (R.people.memberService.removeMembers w keys).1.2.members.get k = some .suspended ↔
        w.2.members.get k = some .suspended ∨ k ∈ done := by
  by_cases hmutating : w.2.ringsState.mutating = true
  · have heq : R.people.memberService.removeMembers w keys =
        ((w.1, (suspendEach w.2 keys).1), (suspendEach w.2 keys).2) := if_pos hmutating
    rw [heq]
    exact suspendEach_rings h keys
  · have heq : R.people.memberService.removeMembers w keys = (w, false) := if_neg hmutating
    rw [heq]
    exact ⟨[], List.nil_subset _, h, rfl, rfl, fun k => by simp⟩

theorem createCollection_rings {w w' : Members.Env R.pallet × Members.Store R.pallet} (h : Members.Flexible w.2)
    (hcreated : R.people.memberService.createCollection w = some w') :
    Members.Flexible w'.2 ∧ w'.2.page = w.2.page ∧ w'.2.root = w.2.root ∧ w'.2.members = w.2.members := by
  simp only [Option.map_eq_some_iff, toOption_eq_some] at hcreated
  obtain ⟨rings, hok, rfl⟩ := hcreated
  exact h.createCollection hok

namespace Standing

/-- Rings keep their keys and their roots, aliases of accounts are there or shown, and people are suspended
without accounts. -/
theorem of_rings (h : Standing V s cleaned) (hbindings : Bindings s') (hflexible : Members.Flexible s'.rings)
    (hpage : s'.rings.page = s.rings.page) (hroot : s'.rings.root = s.rings.root)
    (hentries : ∀ a revCa, s'.accountToAlias.get a = some revCa →
      (∃ a', s.accountToAlias.get a' = some revCa) ∨ Shown V s.rings revCa)
    (hunbound : ∀ id record, s'.people.get id = some record →
      s'.rings.members.get record.key = some .suspended → record.account = none)
    (hcleaned : ∀ id ∈ cleaned', ∃ record, s'.people.get id = some record ∧
      s'.rings.members.get record.key = some .suspended ∧ s.rings.Absent record.key) : Standing V s' cleaned' := by
  refine ⟨hbindings, hflexible, hunbound, fun a revCa hget hrevision => ?_, fun id hid => ?_⟩
  · have hold : s.rings.ringRevision revCa.ring = some revCa.revision := by
      rw [Members.Store.ringRevision, ← hroot]
      exact hrevision
    rcases hentries a revCa hget with ⟨a', hentry⟩ | hshown
    · exact (h.shown a' revCa hentry hold).congr hpage
    · exact hshown.congr hpage
  · obtain ⟨record, hget, hsuspended, habsent⟩ := hcleaned id hid
    refine ⟨record, hget, hsuspended, fun r p => ?_⟩
    rw [hpage]
    exact habsent r p

/-- The same, where people and members are untouched. -/
theorem of_entries (h : Standing V s cleaned) (hbindings : Bindings s') (hpeople : s'.people = s.people)
    (hmembers : s'.rings = s.rings) (hentries : ∀ a revCa, s'.accountToAlias.get a = some revCa →
      (∃ a', s.accountToAlias.get a' = some revCa) ∨ Shown V s.rings revCa) : Standing V s' cleaned := by
  refine h.of_rings hbindings ?_ (by rw [hmembers]) (by rw [hmembers]) hentries ?_ ?_
  · rw [hmembers]
    exact h.flexible
  · rw [hmembers, hpeople]
    exact h.unbound
  · rw [hmembers, hpeople]
    exact h.cleaned

/-- A person gets a record with the same key, and without an account if suspended. -/
theorem of_record (h : Standing V s cleaned) (hbindings : Bindings s') (record' : PersonRecord R.people)
    (hget : s.people.get id = some record) (hkey : record'.key = record.key)
    (haccount : record'.account = none ∨ ¬Suspended s id) (hpeople : s'.people = s.people.insert id record')
    (hmembers : s'.rings = s.rings) (halias : s'.accountToAlias = s.accountToAlias) : Standing V s' cleaned := by
  refine h.of_rings hbindings ?_ (by rw [hmembers]) (by rw [hmembers]) (fun a revCa hentry => ?_)
    (fun id' record'' hget' hsuspended => ?_) fun id' hid' => ?_
  · rw [hmembers]
    exact h.flexible
  · rw [halias] at hentry
    exact .inl ⟨a, hentry⟩
  · rw [hpeople, StorageMap.get_insert] at hget'
    rw [hmembers] at hsuspended
    split at hget'
    · cases hget'
      refine haccount.resolve_right fun hnot => hnot ⟨record, hget, ?_⟩
      rw [← hkey]
      exact hsuspended
    · exact h.unbound id' record'' hget' hsuspended
  · obtain ⟨record'', hget', hsuspended, habsent⟩ := h.cleaned id' hid'
    rw [hpeople, hmembers]
    by_cases hid : id' = id
    · rw [hid] at hget'
      cases hget.symm.trans hget'
      refine ⟨record', (StorageMap.get_insert _ _ _ _).trans (if_pos hid), ?_, ?_⟩
      · rw [hkey]
        exact hsuspended
      · rw [hkey]
        exact habsent
    · exact ⟨record'', (StorageMap.get_insert _ _ _ _).trans ((if_neg hid).trans hget'), hsuspended, habsent⟩

/-! ### Calls -/

theorem unpair (h : Standing V s cleaned) {ca : R.people.Ca} (hget : s.aliasToAccount.get ca = some account) :
    Standing V (People.unpair s ca account) cleaned :=
  h.of_entries (h.bindings.unpair hget) rfl rfl fun a _ hentry => .inl ⟨a, StorageMap.get_of_get_remove hentry⟩

theorem paired (h : Standing V s cleaned) (hbindings : Bindings s') (hshown : Shown V s.rings revCa)
    (hpaired : Paired s revCa account s') : Standing V s' cleaned := by
  have hinserted : ∀ (m : StorageMap R.AccountId R.people.RevCa) a found, (m.insert account revCa).get a = some found →
      (∀ found, m.get a = some found → ∃ a', s.accountToAlias.get a' = some found) →
      (∃ a', s.accountToAlias.get a' = some found) ∨ Shown V s.rings found := by
    intro m a found hget hold
    rw [StorageMap.get_insert] at hget
    split at hget
    · cases hget
      exact .inr hshown
    · exact .inl (hold found hget)
  cases hpaired with
  | again _ => exact h.of_entries hbindings rfl rfl fun a found hget => hinserted _ a found hget fun _ hold => ⟨a, hold⟩
  | moved old _ _ =>
    exact h.of_entries hbindings rfl rfl fun a found hget =>
      hinserted _ a found hget fun _ hold => ⟨a, StorageMap.get_of_get_remove hold⟩
  | fresh _ _ => exact h.of_entries hbindings rfl rfl fun a found hget => hinserted _ a found hget fun _ hold => ⟨a, hold⟩

theorem reserveNewId (h : Standing V s cleaned) (hnext : s.nextPersonalId + 1 ≤ U64.max) :
    Standing V (People.reserveNewId s).2 cleaned :=
  h.of_entries (h.bindings.reserveNewId hnext) rfl rfl fun a _ hget => .inl ⟨a, hget⟩

/-- Someone new is recognized, or someone known, who is not cleaned any more. -/
theorem recognizePersonhood (h : Standing V s cleaned) {maybeKey : Option R.pallet.Member}
    (hok : People.recognizePersonhood s id maybeKey = .ok s')
    (hcleaned : cleaned' ⊆ cleaned ∧ (maybeKey = none → id ∉ cleaned')) : Standing V s' cleaned' := by
  have hbindings := h.bindings.recognizePersonhood hok
  rcases recognizePersonhood_ok hok with ⟨key, members, -, hkey, hreserved, hadded, rfl⟩ |
    ⟨record, members, hnone, hget, hadded, rfl⟩
  · obtain ⟨hflexible, hpage, hroot, hsuspended⟩ := addMembers_rings h.flexible hadded
    refine h.of_rings hbindings hflexible hpage hroot (fun a _ hget => .inl ⟨a, hget⟩)
      (fun id' record hget hsuspended' => ?_) fun id' hid' => ?_
    · have hget := (StorageMap.get_insert _ _ _ _).symm.trans hget
      split at hget
      · cases hget
        rfl
      · exact h.unbound id' record hget ((hsuspended _).mp hsuspended').1
    · obtain ⟨record, hget, hold, habsent⟩ := h.cleaned id' (hcleaned.1 hid')
      refine ⟨record, (StorageMap.get_insert _ _ _ _).trans ((if_neg fun hid => ?_).trans hget),
        (hsuspended _).mpr ⟨hold, fun heq => ?_⟩, habsent⟩
      · cases (h.bindings.reserved id hreserved).symm.trans (hid ▸ hget)
      · cases hkey.symm.trans (heq ▸ h.bindings.keys.get hget rfl)
  · obtain ⟨hflexible, hpage, hroot, hsuspended⟩ := addMembers_rings h.flexible hadded
    refine h.of_rings hbindings hflexible hpage hroot (fun a _ hget => .inl ⟨a, hget⟩)
      (fun id' record' hget' hsuspended' => h.unbound id' record' hget' ((hsuspended _).mp hsuspended').1) fun id' hid' => ?_
    obtain ⟨record', hget', hold, habsent⟩ := h.cleaned id' (hcleaned.1 hid')
    refine ⟨record', hget', (hsuspended _).mpr ⟨hold, fun heq => ?_⟩, habsent⟩
    -- Two people do not share a key.
    have hid := h.bindings.keys.unique hget' rfl hget (congrArg some heq.symm)
    exact hcleaned.2 hnone (hid ▸ hid')

theorem createCollection (h : Standing V s cleaned) {members : R.people.memberService.World}
    (hcreated : R.people.memberService.createCollection s.members = some members) :
    Standing V { s with members := members, peopleCollectionCreated := true } cleaned := by
  obtain ⟨hflexible, hpage, hroot, hmembers⟩ := createCollection_rings h.flexible hcreated
  refine h.of_rings (h.bindings.frame members true s.nonces) hflexible hpage hroot (fun a _ hget => .inl ⟨a, hget⟩)
    (fun id record hget hsuspended => h.unbound id record hget ?_) fun id hid => ?_
  · rw [← hsuspended]
    exact congrArg (fun m => m.get record.key) hmembers.symm
  · obtain ⟨record, hget, hsuspended, habsent⟩ := h.cleaned id hid
    refine ⟨record, hget, ?_, habsent⟩
    rw [← hsuspended]
    exact congrArg (fun m => m.get record.key) hmembers

theorem bound (h : Standing V s cleaned) (hbindings : Bindings s') (hget : s.people.get id = some record)
    (hgood : ¬Suspended s id) (hbound : Bound s id record account s') : Standing V s' cleaned := by
  cases hbound with
  | moved old _ =>
    exact h.of_record hbindings { record with account := some account } hget rfl (.inr hgood)
      (StorageMap.insert_insert _ _ _ _) rfl rfl
  | fresh _ => exact h.of_record hbindings { record with account := some account } hget rfl (.inr hgood) rfl rfl rfl

/-- An account has an alias of a key that its ring stores, as long as the ring keeps the revision. -/
theorem shown_of_account (h : Standing V s cleaned) (hok : aliasOfAccount env s account = .ok revCa) :
    Shown V s.rings revCa := by
  simp only [aliasOfAccount, bind_eq_ok, okOr_eq_ok, ensure_eq_ok, pure_eq_ok] at hok
  obtain ⟨found, hfound, -, -, revision, hrevision, -, hcurrent, rfl⟩ := hok
  exact h.shown account found hfound (hrevision.trans (congrArg some hcurrent.symm))

theorem dispatch (h : Standing V s cleaned) (hgranted : Granted V s origin)
    (hids : s.nextPersonalId + call.reserved ≤ U64.max) (hdispatch : Dispatch env s origin call s') :
    Standing V s' cleaned := by
  have hbindings := h.bindings.dispatch hids hdispatch
  induction hdispatch with
  | underAlias halias hinner ih =>
    refine ih (h.shown_of_account halias) (le_trans (Nat.add_le_add_left ?_ _) hids) hbindings
    cases hinner with
    | _ => exact Nat.zero_le _
  | setAlias hpaired => exact h.paired hbindings hgranted hpaired
  | unsetAlias hget => exact h.unpair hget
  | force hok =>
    exact forceRecognize_induction (P := fun t => Standing V t cleaned) hok hids h fun t key t' hnext ht hrecognized =>
      (ht.reserveNewId hnext).recognizePersonhood hrecognized ⟨Set.Subset.rfl, nofun⟩
  | setPersonal hget _ hbound => exact h.bound hbindings hget hgranted hbound
  | @unsetPersonal id record account hget _ =>
    exact h.of_record hbindings { record with account := none } hget rfl (.inl rfl) rfl rfl rfl
  | create hcreated => exact h.createCollection hcreated
  | cleanUp =>
    exact cleanUpStaleAliases_induction (P := fun t => Standing V t cleaned) _ _ h
      fun t ca account ht hget => ht.unpair hget
  | other => exact h

/-! ### Suspensions -/

theorem unbind (h : Standing V s cleaned) (hget : s.people.get id = some record) :
    Standing V (People.unbind s id record) cleaned :=
  h.of_record (h.bindings.unbind hget) { record with account := none } hget rfl (.inl rfl) rfl rfl rfl

end Standing

/-- The keys that are removed are of people whose accounts are unbound. -/
theorem unbindAll_unbound {suspensions : List Nat} {keys : List R.pallet.Member}
    (hok : (unbindAll s suspensions).2 = .ok keys) : ∀ key ∈ keys, ∃ id record,
      (unbindAll s suspensions).1.people.get id = some record ∧ record.key = key ∧ record.account = none := by
  induction suspensions generalizing s keys with
  | nil =>
    cases hok
    exact fun _ hkey => nomatch hkey
  | cons id rest ih =>
    unfold unbindAll at hok ⊢
    split at hok
    · cases hok
    · rename_i record hget
      have hok : (unbindAll (People.unbind s id record) rest).2.map (record.key :: ·) = .ok keys := hok
      show ∀ key ∈ keys, ∃ id' record', (unbindAll (People.unbind s id record) rest).1.people.get id' = some record' ∧ _
      cases hrest : (unbindAll (People.unbind s id record) rest).2 with
      | error e =>
        rw [hrest] at hok
        cases hok
      | ok keys' =>
        rw [hrest] at hok
        cases hok
        intro key hkey
        rcases List.mem_cons.mp hkey with rfl | hkey
        · -- The record stays unbound while the others are unbound.
          obtain ⟨record', hrecord⟩ := unbindAll_induction (s := People.unbind s id record)
            (P := fun t => ∃ record', t.people.get id = some record' ∧ record'.key = record.key ∧ record'.account = none)
            rest ⟨{ record with account := none }, (StorageMap.get_insert _ _ _ _).trans (if_pos rfl), rfl, rfl⟩
            (by
              rintro t id' record₁ ⟨record₂, hget₂, hkey₂, hnone₂⟩ - hget₁
              by_cases hid : id = id'
              · rw [← hid] at hget₁
                cases hget₁.symm.trans hget₂
                exact ⟨{ record₁ with account := none }, (StorageMap.get_insert _ _ _ _).trans (if_pos hid), hkey₂, rfl⟩
              · exact ⟨record₂, (StorageMap.get_insert _ _ _ _).trans ((if_neg hid).trans hget₂), hkey₂, hnone₂⟩)
          exact ⟨id, record', hrecord⟩
        · exact ih hrest key hkey

namespace Standing

theorem suspendPersonhood (h : Standing V s cleaned) (suspensions : List Nat) :
    Standing V (People.suspendPersonhood s suspensions).1 cleaned := by
  have hunbound : Standing V (unbindAll s suspensions).1 cleaned :=
    unbindAll_induction (P := fun t => Standing V t cleaned) suspensions h fun t id record ht _ hget => ht.unbind hget
  have hkeys : ∀ keys, (unbindAll s suspensions).2 = .ok keys → ∀ key ∈ keys, ∃ id record,
      (unbindAll s suspensions).1.people.get id = some record ∧ record.key = key ∧ record.account = none :=
    fun _ => unbindAll_unbound
  have hbindings := h.bindings.suspendPersonhood suspensions
  unfold People.suspendPersonhood at hbindings ⊢
  generalize unbindAll s suspensions = out at hunbound hkeys hbindings
  obtain ⟨t, keys⟩ := out
  cases keys with
  | error e => exact hunbound
  | ok keys =>
    obtain ⟨done, hdone, hflexible, hpage, hroot, hsuspended⟩ :=
      removeMembers_rings hunbound.flexible keys
    refine hunbound.of_rings hbindings hflexible hpage hroot (fun a _ hget => .inl ⟨a, hget⟩)
      (fun id record hget hnow => ?_) fun id hid => ?_
    · rcases (hsuspended _).mp hnow with hold | hremoved
      · exact hunbound.unbound id record hget hold
      · obtain ⟨id', record', hget', hkey, hnone⟩ := hkeys keys rfl _ (hdone hremoved)
        have hsame := hunbound.bindings.keys.unique hget rfl hget' (congrArg some hkey)
        rw [hsame] at hget
        cases hget.symm.trans hget'
        exact hnone
    · obtain ⟨record, hget, hold, habsent⟩ := hunbound.cleaned id hid
      exact ⟨record, hget, (hsuspended _).mpr (.inl hold), habsent⟩

end Standing

/-! ### Transactions -/

theorem authorizeCall_ok (hok : authorizeCall env s tx = .ok origin) : origin.isPersonal = false := by
  unfold authorizeCall at hok
  split at hok
  · cases hauthorized : authorizeCreatePeopleCollection s with
    | error e =>
      rw [hauthorized] at hok
      cases hok
    | ok u =>
      rw [hauthorized] at hok
      cases hok
      rfl
  · rename_i aliases _ _
    cases hauthorized : authorizeCleanUpStaleAliases env s tx.source aliases with
    | error e =>
      rw [hauthorized] at hok
      cases hok
    | ok u =>
      rw [hauthorized] at hok
      cases hok
      rfl
  all_goals
    cases hok
    rfl

/-- Origins of no person are free. -/
theorem granted_of_not_personal (h : origin.isPersonal = false) : Granted V s origin := by
  cases origin with
  | personalIdentity id => cases h
  | personalAlias revCa => cases h
  | _ => trivial

theorem Granted.congr (h : Granted V s origin) (hpeople : s'.people = s.people) (hmembers : s'.rings = s.rings) :
    Granted V s' origin := by
  cases origin with
  | personalIdentity id =>
    rintro ⟨record, hget, hsuspended⟩
    exact h ⟨record, hpeople ▸ hget, hmembers ▸ hsuspended⟩
  | personalAlias revCa => exact Shown.congr h (by rw [hmembers])
  | _ => trivial

theorem shown_of_proof (h : Standing V s cleaned) {proof : R.pallet.crypto.Proof} {ring : Nat}
    {context : R.pallet.crypto.Context} {message : R.pallet.crypto.Message}
    (hok : verifyMembership s proof ring context message = .ok revCa) : Shown V s.rings revCa := by
  obtain ⟨hverified, hring, hcontext⟩ := verifyMembership_ok hok
  obtain ⟨-, key, hkey, halias⟩ := h.flexible.verified V (toOption_eq_some.mp hverified)
  refine ⟨key, ?_, ?_⟩
  · rw [hring]
    exact hkey
  · rw [hcontext]
    exact halias

namespace Standing

/-- A transaction of a person in good standing is given an origin that is granted. -/
theorem granted (h : Standing V s cleaned) (hgood : InGoodStanding s tx) {val : Val R.people}
    (hauthenticated : Authenticated env s tx origin val) : Granted V s origin := by
  cases hauthenticated with
  | plain _ hcall => exact granted_of_not_personal (authorizeCall_ok hcall)
  | aliasAccount halias => exact h.shown_of_account halias
  | aliasRevised _ hverified _ => exact shown_of_proof h hverified
  | identityAccount hget =>
    -- An account that a person has bound shows that the person is not suspended.
    rintro ⟨record, hrecord, hsuspended⟩
    obtain ⟨record', hrecord', haccount⟩ := (h.bindings.accounts _ _).mp hget
    cases hrecord.symm.trans hrecord'
    cases (h.unbound _ record hrecord hsuspended).symm.trans haccount
  | aliasProof hverified => exact shown_of_proof h hverified
  | identityProof hproof _ _ => exact hgood _ _ hproof

theorem prepare (h : Standing V s cleaned) (hgranted : Granted V s origin) {val : Val R.people}
    (hauthenticated : Authenticated env s tx origin val) (hok : People.prepare s val = .ok s') :
    Standing V s' cleaned ∧ Granted V s' origin ∧ s'.nextPersonalId = s.nextPersonalId := by
  obtain ⟨hbindings, hnext⟩ := h.bindings.prepare hauthenticated hok
  obtain ⟨nonces, rfl | ⟨who, old, revCa, rfl, -, -, rfl⟩⟩ := prepare_ok hauthenticated hok
  · exact ⟨h.of_entries hbindings rfl rfl fun a _ hget => .inl ⟨a, hget⟩, hgranted.congr rfl rfl, rfl⟩
  · refine ⟨h.of_entries hbindings rfl rfl fun a found hget => ?_, hgranted.congr rfl rfl, rfl⟩
    have hget := (StorageMap.get_insert _ _ _ _).symm.trans hget
    split at hget
    · cases hget
      exact .inr hgranted
    · exact .inl ⟨a, hget⟩

theorem submit (h : Standing V s cleaned) (hgood : InGoodStanding s tx)
    (hids : s.nextPersonalId + tx.call.reserved ≤ U64.max) (hok : People.submit env s tx = .ok s') :
    Standing V s' cleaned := by
  obtain ⟨origin, val, t, hauthenticated, hprepared, hdispatched⟩ := submit_ok hok
  obtain ⟨ht, hgranted, hnext⟩ := h.prepare (h.granted hgood hauthenticated) hauthenticated hprepared
  rcases hdispatched with rfl | hdispatched
  · exact ht
  · exact ht.dispatch hgranted (by rw [hnext]; exact hids) hdispatched

end Standing

/-- Under a personal origin, accounts change and nothing else does of people and members. -/
theorem Dispatch.of_personal (h : Dispatch env s origin call s') (hpersonal : origin.isPersonal = true) :
    call.reserved = 0 ∧ s'.nextPersonalId = s.nextPersonalId ∧ s'.rings = s.rings ∧
      ∀ id record, s'.people.get id = some record → ∃ record', s.people.get id = some record' ∧ record'.key = record.key := by
  have hinsert : ∀ (id : Nat) (record record' : PersonRecord R.people), s.people.get id = some record →
      record'.key = record.key → ∀ id' found, (s.people.insert id record').get id' = some found →
      ∃ found', s.people.get id' = some found' ∧ found'.key = found.key := by
    intro id record record' hget hkey id' found hfound
    rw [StorageMap.get_insert] at hfound
    split at hfound
    · rename_i hid
      cases hfound
      exact ⟨record, hid ▸ hget, hkey.symm⟩
    · exact ⟨found, hfound, rfl⟩
  cases h with
  | setAlias hpaired => cases hpaired <;> exact ⟨rfl, rfl, rfl, fun _ record hget => ⟨record, hget, rfl⟩⟩
  | unsetAlias _ => exact ⟨rfl, rfl, rfl, fun _ record hget => ⟨record, hget, rfl⟩⟩
  | @setPersonal id account _ record _ hget _ hbound =>
    cases hbound with
    | moved old _ =>
      have heq : (bindAccount (releaseAccount s id record old) id { record with account := none } account).people =
          s.people.insert id { record with account := some account } := StorageMap.insert_insert _ _ _ _
      refine ⟨rfl, rfl, rfl, ?_⟩
      rw [heq]
      exact hinsert id record { record with account := some account } hget rfl
    | fresh _ => exact ⟨rfl, rfl, rfl, hinsert id record _ hget rfl⟩
  | @unsetPersonal id record account hget _ => exact ⟨rfl, rfl, rfl, hinsert id record _ hget rfl⟩
  | other => exact ⟨rfl, rfl, rfl, fun _ record hget => ⟨record, hget, rfl⟩⟩
  | _ => cases hpersonal

namespace Standing

theorem batch (h : Standing V s cleaned) (hgood : InGoodStanding s tx) (hids : s.nextPersonalId ≤ U64.max)
    {calls : List (Call R.people)} (hok : People.batch env s tx calls = .ok s') : Standing V s' cleaned := by
  simp only [People.batch, bind_eq_ok, ensure_eq_ok, pure_eq_ok] at hok
  obtain ⟨⟨origin, val⟩, hvalidated, -, ⟨-, hpersonal⟩, t, hprepared, rfl⟩ := hok
  have hauthenticated := validate_ok hvalidated
  obtain ⟨ht, hgranted, hnext⟩ := h.prepare (h.granted hgood hauthenticated) hauthenticated hprepared
  have hids : t.nextPersonalId ≤ U64.max := hnext ▸ hids
  clear hprepared hnext hauthenticated hvalidated
  induction calls generalizing t with
  | nil => exact ht
  | cons call rest ih =>
    rw [List.foldl_cons]
    split
    · rename_i u pays hdispatched
      have hdispatch := dispatch_effect hdispatched
      obtain ⟨hreserved, hnext, hrings, hpeople⟩ := hdispatch.of_personal hpersonal
      refine ih u (ht.dispatch hgranted (by rw [hreserved]; exact hids) hdispatch) ?_ (hnext ▸ hids)
      cases origin with
      | personalIdentity id =>
        rintro ⟨record, hget, hsuspended⟩
        obtain ⟨record', hget', hkey⟩ := hpeople id record hget
        refine hgranted ⟨record', hget', ?_⟩
        rw [hkey, ← hrings]
        exact hsuspended
      | personalAlias revCa => exact Shown.congr hgranted (by rw [hrings])
      | _ => trivial
    · exact ih t ht hgranted hids

/-! ### Rings -/

/-- A call on the collection keeps the aliases of accounts shown, and the cleaned keys out of the rings. -/
theorem rings (h : Standing V s cleaned) {clock : Members.Env R.pallet} {call : Members.Call R.pallet}
    {rings : Members.Store R.pallet} (htends : Members.tends call = true) (hanew : RevisesAnew s call)
    (hok : s.rings.exec s.members.1 call = .ok rings)
    (hcleaned : ∀ id ∈ cleaned', id ∉ cleaned → ∃ record, s.people.get id = some record ∧
      s.rings.members.get record.key = some .suspended ∧ rings.Absent record.key) :
    Standing V { s with members := (clock, rings) } cleaned' := by
  refine ⟨h.bindings.frame _ _ _, h.flexible.step htends hok, fun id record hget hsuspended => ?_,
    fun account revCa hget hrevision => ?_, fun id hid => ?_⟩
  · exact h.unbound id record hget ((h.flexible.suspended_iff htends hok).mp hsuspended)
  · rcases h.flexible.revision_cases htends hok hrevision with ⟨hold, hkept⟩ | hnew
    · obtain ⟨key, hkey, halias⟩ := h.shown account revCa hget hold
      exact ⟨key, hkept key hkey, halias⟩
    · exact absurd hnew (hanew account revCa hget)
  · by_cases hold : id ∈ cleaned
    · obtain ⟨record, hget, hsuspended, habsent⟩ := h.cleaned id hold
      exact ⟨record, hget, (h.flexible.suspended_iff htends hok).mpr hsuspended,
        h.flexible.absent htends hok hsuspended habsent⟩
    · obtain ⟨record, hget, hsuspended, habsent⟩ := hcleaned id hid hold
      exact ⟨record, hget, (h.flexible.suspended_iff htends hok).mpr hsuspended, habsent⟩

/-- A removal takes the keys of suspended people out of the rings, if they are in no other ring. -/
theorem held_absent (h : Standing V s cleaned) {r : Nat} {rings : Members.Store R.pallet}
    (hwhole : CleansWhole s (.removeSuspendedKeys r))
    (hok : s.rings.exec s.members.1 (.removeSuspendedKeys r) = .ok rings) (hid : id ∈ heldIn s r) :
    ∃ record, s.people.get id = some record ∧ s.rings.members.get record.key = some .suspended ∧
      rings.Absent record.key := by
  obtain ⟨record, hget, hsuspended, hheld⟩ := hid
  refine ⟨record, hget, hsuspended, ?_⟩
  simp only [Members.Store.exec, Members.Store.removeSuspendedKeysAuthorized, bind_eq_ok, ensure_eq_ok] at hok
  obtain ⟨-, hshould, hok⟩ := hok
  cases hok
  refine h.flexible.absent_cleaned (fun hnil => ?_) hsuspended fun r' hr hstored => ?_
  · simp [Members.Store.shouldRemoveSuspendedKeys, BoundedVec.length, hnil] at hshould
  · exact hwhole id record hget hsuspended hheld r' hr (Members.Store.mem_keysInOrder.mpr ⟨0, hstored⟩)

/-! ### Moves -/

theorem people (h : Standing V c.store cleaned) {a : Action R.people} (hregular : Regular c (.people a))
    (hown : a.isOwn = true) (hok : exec c a = .ok c') :
    Standing V c'.store (noteCleaned c (.people a) c' cleaned) := by
  obtain ⟨s', happly, hstore⟩ := exec_ok hok
  rw [hstore]
  cases a with
  | submit tx => exact h.submit hregular.2 hregular.1 (mapError_eq_ok.mp happly)
  | dispatch origin call =>
    have hpersonal : origin.isPersonal = false := by simpa [Action.isOwn] using hown
    exact h.dispatch (granted_of_not_personal hpersonal) hregular (apply_dispatch_ok happly)
  | reserveNewId =>
    cases happly
    exact h.reserveNewId hregular
  | cancelIdReservation id =>
    have hok := mapError_eq_ok.mp happly
    have hbindings := h.bindings.cancelIdReservation hok
    simp only [cancelIdReservation, bind_eq_ok, pure_eq_ok] at hok
    obtain ⟨-, -, rfl⟩ := hok
    exact h.of_entries hbindings rfl rfl fun a _ hget => .inl ⟨a, hget⟩
  | renewIdReservation id =>
    have hok := mapError_eq_ok.mp happly
    have hbindings := h.bindings.renewIdReservation hok
    simp only [renewIdReservation, bind_eq_ok, pure_eq_ok] at hok
    obtain ⟨-, -, rfl⟩ := hok
    exact h.of_entries hbindings rfl rfl fun a _ hget => .inl ⟨a, hget⟩
  | recognizePersonhood who maybeKey =>
    refine h.recognizePersonhood (mapError_eq_ok.mp happly) ?_
    cases maybeKey with
    | some key => exact ⟨Set.Subset.rfl, fun hnone => by cases hnone⟩
    | none => exact ⟨Set.sdiff_subset, fun _ hwho => hwho.2 rfl⟩
  | suspendPersonhood suspensions =>
    cases happly
    exact h.suspendPersonhood suspensions
  | cleanUpAlias ca =>
    obtain ⟨account, hget, rfl⟩ := cleanUpAlias_ok (mapError_eq_ok.mp happly)
    exact h.unpair hget
  | elsewhere members env => cases hown

theorem move (h : Standing V c.store cleaned) {m : Move R} (hregular : Regular c m) (hok : People.move c m = .ok c') :
    Standing V c'.store (noteCleaned c m c' cleaned) := by
  cases m with
  | people a =>
    simp only [People.move, bind_eq_ok, ensure_eq_ok] at hok
    obtain ⟨-, hown, hok⟩ := hok
    exact h.people hregular hown hok
  | batch tx calls =>
    simp only [People.move, bind_eq_ok, mapError_eq_ok, pure_eq_ok] at hok
    obtain ⟨s, hbatch, rfl⟩ := hok
    exact h.batch hregular.2 hregular.1 hbatch
  | rings call =>
    simp only [People.move, bind_eq_ok, ensure_eq_ok, mapError_eq_ok, pure_eq_ok] at hok
    obtain ⟨-, htends, rings, hok, rfl⟩ := hok
    refine h.rings htends hregular.1 hok fun id hid hnew => ?_
    cases call with
    | removeSuspendedKeys r =>
      exact h.held_absent hregular.2 hok (hid.resolve_left hnew)
    | _ => exact absurd hid hnew
  | outside clock env =>
    cases hok
    exact h.of_rings (h.bindings.frame _ _ _) h.flexible rfl rfl (fun a _ hget => .inl ⟨a, hget⟩) h.unbound h.cleaned

theorem genesis (V : Members.IdealRingVrf R.pallet) (clock : Members.Env R.pallet) (env : Env R.people) :
    Standing V (ringGenesis clock env).store ∅ :=
  ⟨bindings_genesis _ env, Members.Flexible.empty, nofun, nofun, fun _ hid => hid.elim⟩

end Standing

/-- A call is dispatched under its transaction's origin, or under the alias of the account that signs. -/
theorem mem_dispatched {origin' : Origin R.people} (hmem : origin' ∈ dispatched env s origin call) :
    origin' = origin ∨ ∃ account revCa, origin' = .personalAlias revCa ∧ aliasOfAccount env s account = .ok revCa := by
  unfold dispatched at hmem
  split at hmem
  · rename_i account call'
    split at hmem
    · rename_i revCa halias
      rcases List.mem_cons.mp hmem with hmem | hmem
      · exact .inl hmem
      · have hinner : dispatched env s (.personalAlias revCa) call' = [.personalAlias revCa] := by
          unfold dispatched
          rfl
        rw [hinner, List.mem_singleton] at hmem
        exact .inr ⟨account, revCa, hmem, halias⟩
    · exact .inl (List.mem_singleton.mp hmem)
  · exact .inl (List.mem_singleton.mp hmem)

/-- In every state that a run reaches in which no suspended person asks for the personal identity by a
signature, no ring is given a revision again that an account's alias was shown with, a ring that is
cleaned is the only one with the keys of its suspended people, and ids are reserved that are there:
no transaction of a person in good standing, nor a call in it, is dispatched under the personal
identity of someone suspended, or under an alias of someone whose ring has been cleaned. -/
theorem suspended_powerless (V : Members.IdealRingVrf R.pallet) {clock : Members.Env R.pallet}
    {w : Chain R.people × Set Nat}
    (h : Reaches (noting move noteCleaned) (fun w m => Regular w.1 m) (ringGenesis clock env, ∅) w)
    (hgood : InGoodStanding w.1.store tx) :
    ∀ origin ∈ tx.origins w.1.env w.1.store, ¬Forbidden V w.1.store w.2 origin := by
  have hs : Standing V w.1.store w.2 :=
    h.noted (I := fun c cleaned => Standing V c.store cleaned) (Standing.genesis V clock env)
      fun c cleaned m c' hc hregular hok => hc.move hregular hok
  intro origin hmem
  unfold Transaction.origins at hmem
  split at hmem
  · cases hmem
  · rename_i origin' val hvalidated
    have hauthenticated := validate_ok hvalidated
    split at hmem
    · cases hmem
    · rename_i t hprepared
      have hgranted := hs.granted hgood hauthenticated
      rcases mem_dispatched hmem with rfl | ⟨account, revCa, rfl, halias⟩
      · exact hgranted.not_forbidden hs
      · obtain ⟨ht, -, -⟩ := hs.prepare hgranted hauthenticated hprepared
        have hshown : Granted V w.1.store (.personalAlias revCa) := by
          obtain ⟨nonces, rfl | ⟨who, old, revCa', -, -, -, rfl⟩⟩ := prepare_ok hauthenticated hprepared
          · exact ht.shown_of_account halias
          · exact ht.shown_of_account halias
        exact hshown.not_forbidden hs

/-! ### Sample runs -/

/-- A signature is its key. -/
def sampleRingConfig : RingConfig where
  pallet := Members.sampleConfig
  contextDecEq := inferInstanceAs (DecidableEq Nat)
  aliasDecEq := inferInstanceAs (DecidableEq (Nat × Nat))
  collectionOwner := (0 : Nat)
  peopleOnboardingSize := 1
  ringExponent := .r2e9
  selfInclusionDelay := 0
  AccountId := Nat
  accountDecEq := inferInstance
  Signature := Nat
  verifySignature signature _ key := Nat.beq signature key
  reviseMessage message _ _ := message

def sampleVrf : Members.IdealRingVrf Members.sampleConfig where
  prover := Prod.fst
  aliasIn key context := (key, context)
  sound := by
    intro capacity keys proof context message found hvalid
    obtain ⟨⟨hmem, -⟩, heq⟩ := Option.ite_none_right_eq_some.mp hvalid
    have hkeys : Members.sampleConfig.crypto.finishMembers (Members.commitment Members.sampleConfig capacity keys) =
        keys := (Members.foldl_pushMember [] keys).trans (List.nil_append keys)
    exact ⟨hkeys ▸ hmem, (Option.some.inj heq).symm⟩
  injective h := (Prod.mk.inj h).1

def sampleChain : Chain sampleRingConfig.people :=
  ringGenesis ⟨0, fun _ _ _ => none⟩ ⟨0, fun _ => true, fun _ => true⟩

/-- Two people are in a ring; the first is suspended, the ring is cleaned, and it is built again. -/
def sampleMoves : List (Move sampleRingConfig) :=
  [.people (.submit ⟨.external, .none, none, .createPeopleCollection, (0 : Nat)⟩),
    .people (.submit ⟨.external, .manager, none, .forceRecognizePersonhood [(5 : Nat), (6 : Nat)], (0 : Nat)⟩),
    .rings (.onboardMembers true), .rings (.buildRing 0 2), .rings .startRemovalSession,
    .people (.suspendPersonhood [0]), .rings .endRemovalSession, .rings (.removeSuspendedKeys 0),
    .rings (.buildRing 0 1)]

/-- The second person shows an alias to give it an account. -/
def sampleAliasProof : Transaction sampleRingConfig.people :=
  ⟨.external, .none, some (.asPersonalAliasWithProof ((6 : Nat), (0 : Nat)) 0 (1 : Nat)), .setAliasAccount (8 : Nat) 0,
    (0 : Nat)⟩

/-- The first person signs to have a personal account. -/
def sampleIdentityProof : Transaction sampleRingConfig.people :=
  ⟨.external, .none, some (.asPersonalIdentityWithProof (5 : Nat) 0), .setPersonalIdAccount (7 : Nat) 0, (0 : Nat)⟩

/-- No account has an alias, only the first ring stores keys, and nobody asks for an identity. -/
def sampleRegular (c : Chain sampleRingConfig.people) (m : Move sampleRingConfig) : Bool :=
  c.store.accountToAlias.isEmpty && c.store.rings.ringKeys.keys.all (fun k => k.1 = 0) &&
    match m with
    | .people (.submit tx) => decide (LeavesIds c (.submit tx)) && tx.asPerson.isNone
    | .people a => decide (LeavesIds c a)
    | .batch _ _ => false
    | _ => true

theorem regular_of_sample {c : Chain sampleRingConfig.people} {m : Move sampleRingConfig}
    (h : sampleRegular c m = true) : Regular c m := by
  simp only [sampleRegular, Bool.and_eq_true, List.all_eq_true, decide_eq_true_eq, StorageMap.isEmpty_iff] at h
  obtain ⟨⟨halias, hrings⟩, hmove⟩ := h
  have hring : ∀ r key, key ∈ c.store.rings.keysInOrder r → r = 0 := by
    intro r key hkey
    obtain ⟨p, hp⟩ := Members.Store.mem_keysInOrder.mp hkey
    refine hrings (r, p) ((StorageMap.mem_keys _ _).mpr ?_)
    cases hget : c.store.rings.ringKeys.get (r, p) with
    | some _ => rfl
    | none =>
      rw [Members.Store.page_eq_nil_of_get_none hget] at hp
      cases hp
  cases m with
  | people a =>
    cases a with
    | submit tx =>
      simp only [Bool.and_eq_true, decide_eq_true_eq, Option.isNone_iff_eq_none] at hmove
      refine ⟨hmove.1, fun signature id hproof => ?_⟩
      cases hproof.symm.trans hmove.2
    | _ => exact of_decide_eq_true (p := LeavesIds c _) hmove
  | batch tx calls => cases hmove
  | rings call =>
    refine ⟨fun account revCa hget => ?_, ?_⟩
    · cases (halias account).symm.trans hget
    · cases call with
      | removeSuspendedKeys r =>
        intro id record _ _ hheld r' hr hheld'
        exact hr ((hring r' _ hheld').trans (hring r _ hheld).symm)
      | _ => trivial
  | outside clock env => trivial

/-- The second person is given an alias, of nobody whose ring has been cleaned. -/
theorem suspended_powerless_sample : ∃ w, Reaches (noting move noteCleaned) (fun w m => Regular w.1 m) (sampleChain, ∅) w ∧
    (sampleAliasProof.origins w.1.env w.1.store).any Origin.isPersonal = true ∧
    ∀ origin ∈ sampleAliasProof.origins w.1.env w.1.store, ¬Forbidden sampleVrf w.1.store w.2 origin := by
  obtain ⟨w, hreach, hshown⟩ := exists_reaches (noting move noteCleaned) (fun w m => sampleRegular w.1 m = true)
    (sampleChain, ∅) sampleMoves
    (fun w => (sampleAliasProof.origins w.1.env w.1.store).any Origin.isPersonal = true) (by decide +kernel)
  have hreach := hreach.mono fun w m hm => regular_of_sample hm
  exact ⟨w, hreach, hshown, suspended_powerless sampleVrf hreach fun _ _ hproof => by cases hproof⟩

/-- The first person signs and is given the personal identity, although suspended and taken out of the ring. -/
theorem suspended_powerful : ∃ w, Reaches (noting move noteCleaned) (fun _ _ => True) (sampleChain, ∅) w ∧
    ∃ origin ∈ sampleIdentityProof.origins w.1.env w.1.store, Forbidden sampleVrf w.1.store w.2 origin := by
  obtain ⟨w, hreach, hsuspended, hgiven⟩ := exists_reaches (noting move noteCleaned) (fun _ _ => True)
    (sampleChain, ∅) sampleMoves
    (fun w => (w.1.store.people.get 0).any (fun record => w.1.store.rings.members.get record.key = some .suspended) = true ∧
      (sampleIdentityProof.origins w.1.env w.1.store).any (fun origin =>
        match origin with
        | .personalIdentity id => id = 0
        | _ => false) = true) (by decide +kernel)
  obtain ⟨record, hget, hrecord⟩ := (Option.any_eq_true _ _).mp hsuspended
  obtain ⟨origin, hmem, hname⟩ := List.any_eq_true.mp hgiven
  refine ⟨w, hreach, origin, hmem, ?_⟩
  cases origin with
  | personalIdentity id =>
    obtain rfl : id = 0 := of_decide_eq_true hname
    exact ⟨record, hget, of_decide_eq_true hrecord⟩
  | _ => cases hname

end Individuality.People
