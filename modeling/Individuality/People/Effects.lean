import Individuality.People.Calls

/-! What the calls of the people pallet write.

`Paired` and `Bound` say what setting an account writes, `Dispatch` what an accepted
call does under its origin, and `Authenticated` what the extension has found of a
transaction that it gives an origin. -/
namespace Individuality.People
open Support
variable {T : Config} {s s' : Store T} {c c' : Chain T} {a : Action T} {env : Env T} {id : Nat}
  {account : T.AccountId} {ca : T.Ca} {revCa : T.RevCa} {record : PersonRecord T}

/-! ### Bound accounts -/

/-- An account has an alias or a person. -/
def Store.isBound (s : Store T) (account : T.AccountId) : Bool :=
  s.accountToAlias.contains account || s.accountToPersonalId.contains account

theorem isBound_of_alias (h : s.accountToAlias.get account = some revCa) : s.isBound account = true := by
  rw [Store.isBound, StorageMap.contains, h]
  rfl

theorem isBound_of_person (h : s.accountToPersonalId.get account = some id) : s.isBound account = true := by
  rw [Store.isBound, StorageMap.contains, StorageMap.contains, h]
  exact Bool.or_true _

theorem isBound_eq_false :
    s.isBound account = false ↔ s.accountToAlias.get account = none ∧ s.accountToPersonalId.get account = none := by
  rw [Store.isBound, Bool.or_eq_false_iff, StorageMap.contains_eq_false, StorageMap.contains_eq_false]

theorem isBound_congr {a : T.AccountId} (halias : s'.accountToAlias.get a = s.accountToAlias.get a)
    (hperson : s'.accountToPersonalId.get a = s.accountToPersonalId.get a) : s'.isBound a = s.isBound a := by
  rw [Store.isBound, Store.isBound, StorageMap.contains, StorageMap.contains, StorageMap.contains,
    StorageMap.contains, halias, hperson]

/-! ### Setting accounts -/

/-- Give an alias an account, with a reference. -/
def pair (s : Store T) (revCa : T.RevCa) (account : T.AccountId) : Store T :=
  { incSufficients s account with
    accountToAlias := s.accountToAlias.insert account revCa
    aliasToAccount := s.aliasToAccount.insert revCa.ca account }

/-- Write the alias of an account again. -/
def repair (s : Store T) (revCa : T.RevCa) (account : T.AccountId) : Store T :=
  { s with
    accountToAlias := s.accountToAlias.insert account revCa
    aliasToAccount := s.aliasToAccount.insert revCa.ca account }

/-- What an accepted `setAliasAccount` writes. -/
inductive Paired (s : Store T) (revCa : T.RevCa) (account : T.AccountId) : Store T → Prop
  | again : s.aliasToAccount.get revCa.ca = some account → Paired s revCa account (repair s revCa account)
  | moved (old : T.AccountId) : s.aliasToAccount.get revCa.ca = some old → s.isBound account = false →
    Paired s revCa account (pair (unpair s revCa.ca old) revCa account)
  | fresh : s.aliasToAccount.get revCa.ca = none → s.isBound account = false →
    Paired s revCa account (pair s revCa account)

theorem setAliasAccount_ok {callValidAt : Nat} {pays : Pays}
    (hok : setAliasAccount env s revCa account callValidAt = .ok (s', pays)) : Paired s revCa account s' := by
  simp only [setAliasAccount, bind_eq_ok, ensure_eq_ok, pure_eq_ok, StorageMap.contains_eq_false] at hok
  obtain ⟨-, -, -, -, -, hpersonal, -, -, t, hmoved, heq⟩ := hok
  cases heq
  unfold moveAliasAccount at hmoved
  split at hmoved
  · rename_i hsame
    cases hmoved
    exact .again hsame
  · simp only [bind_eq_ok, ensure_eq_ok, StorageMap.contains_eq_false] at hmoved
    obtain ⟨-, hfree, hmoved⟩ := hmoved
    have hunbound := isBound_eq_false.mpr ⟨hfree, hpersonal⟩
    split at hmoved
    · rename_i old hold
      cases hmoved
      have heq : pair (unpair s revCa.ca old) revCa account = { incSufficients (dropAliasAccount s old) account with
          accountToAlias := (dropAliasAccount s old).accountToAlias.insert account revCa
          aliasToAccount := s.aliasToAccount.insert revCa.ca account } := by
        rw [pair, unpair, StorageMap.insert_remove]
        rfl
      exact heq ▸ .moved old hold hunbound
    · rename_i hnone
      cases hmoved
      exact .fresh hnone hunbound

/-- Give a person an account, with a reference. -/
def bindAccount (s : Store T) (id : Nat) (record : PersonRecord T) (account : T.AccountId) : Store T :=
  { incSufficients s account with
    accountToPersonalId := s.accountToPersonalId.insert account id
    people := s.people.insert id { record with account := some account } }

/-- Take the account from a person, and the reference from the account. -/
def releaseAccount (s : Store T) (id : Nat) (record : PersonRecord T) (account : T.AccountId) : Store T :=
  { decSufficients s account with
    accountToPersonalId := s.accountToPersonalId.remove account
    people := s.people.insert id { record with account := none } }

/-- What an accepted `setPersonalIdAccount` writes. -/
inductive Bound (s : Store T) (id : Nat) (record : PersonRecord T) (account : T.AccountId) : Store T → Prop
  | moved (old : T.AccountId) : record.account = some old →
    Bound s id record account (bindAccount (releaseAccount s id record old) id { record with account := none } account)
  | fresh : record.account = none → Bound s id record account (bindAccount s id record account)

theorem setPersonalIdAccount_ok {callValidAt : Nat} {pays : Pays}
    (hok : setPersonalIdAccount env s id account callValidAt = .ok (s', pays)) :
    ∃ record, s.people.get id = some record ∧ s.isBound account = false ∧ Bound s id record account s' := by
  simp only [setPersonalIdAccount, bind_eq_ok, ensure_eq_ok, okOr_eq_ok, pure_eq_ok,
    StorageMap.contains_eq_false] at hok
  obtain ⟨-, -, -, hpersonal, -, halias, record, hrecord, heq⟩ := hok
  refine ⟨record, hrecord, isBound_eq_false.mpr ⟨halias, hpersonal⟩, ?_⟩
  cases haccount : record.account with
  | none =>
    rw [haccount] at heq
    cases heq
    exact .fresh haccount
  | some old =>
    rw [haccount] at heq
    have hmoved : Bound s id record account
        (bindAccount (releaseAccount s id record old) id { record with account := none } account) :=
      .moved old haccount
    rw [bindAccount, releaseAccount, StorageMap.insert_insert] at hmoved
    cases heq
    exact hmoved

theorem unsetPersonalIdAccount_ok (hok : unsetPersonalIdAccount s id = .ok s') :
    ∃ record account, s.people.get id = some record ∧ record.account = some account ∧
      s' = releaseAccount s id record account := by
  simp only [unsetPersonalIdAccount, bind_eq_ok, okOr_eq_ok, pure_eq_ok] at hok
  obtain ⟨record, hrecord, account, haccount, -, -, rfl⟩ := hok
  exact ⟨record, account, hrecord, haccount, rfl⟩

/-! ### Dispatch -/

/-- What an accepted call writes under its origin. -/
inductive Dispatch (env : Env T) (s : Store T) : Origin T → Call T → Store T → Prop
  | underAlias {account : T.AccountId} {revCa : T.RevCa} {call : Call T} {s' : Store T} : 
    aliasOfAccount env s account = .ok revCa → Dispatch env s (.personalAlias revCa) call s' →
    Dispatch env s (.signed account) (.underAlias call) s'
  | setAlias {revCa : T.RevCa} {account : T.AccountId} {callValidAt : Nat} {s' : Store T} : Paired s revCa account s' →
    Dispatch env s (.personalAlias revCa) (.setAliasAccount account callValidAt) s'
  | unsetAlias {revCa : T.RevCa} {account : T.AccountId} : s.aliasToAccount.get revCa.ca = some account →
    Dispatch env s (.personalAlias revCa) .unsetAliasAccount (unpair s revCa.ca account)
  | force {people : List T.Member} {s' : Store T} : people.foldlM forceRecognize s = .ok s' →
    Dispatch env s .manager (.forceRecognizePersonhood people) s'
  | setPersonal {id : Nat} {account : T.AccountId} {callValidAt : Nat} {record : PersonRecord T}
      {s' : Store T} : s.people.get id = some record → s.isBound account = false → Bound s id record account s' →
    Dispatch env s (.personalIdentity id) (.setPersonalIdAccount account callValidAt) s'
  | unsetPersonal {id : Nat} {record : PersonRecord T} {account : T.AccountId} :
    s.people.get id = some record → record.account = some account →
    Dispatch env s (.personalIdentity id) .unsetPersonalIdAccount (releaseAccount s id record account)
  | create {members} : T.memberService.createCollection s.members = some members →
    Dispatch env s .authorized .createPeopleCollection { s with members := members, peopleCollectionCreated := true }
  | cleanUp {aliases} : Dispatch env s .authorized (.cleanUpStaleAliases aliases)
    (aliases.toList.foldl cleanUpStaleAlias (s, 0)).1
  | other {origin} : Dispatch env s origin .other s

theorem map_pays_eq_ok {x : Except Error (Store T)} {pays : Pays}
    (h : x.map (fun t => (t, Pays.yes)) = .ok (s', pays)) : x = .ok s' := by
  cases x with
  | error e => cases h
  | ok t =>
    cases h
    rfl

theorem dispatch_effect {origin : Origin T} {call : Call T} {pays : Pays}
    (hok : dispatch env s origin call = .ok (s', pays)) : Dispatch env s origin call s' := by
  induction call generalizing origin with
  | underAlias call ih =>
    cases origin with
    | signed account =>
      simp only [dispatch, bind_eq_ok] at hok
      obtain ⟨revCa, halias, hok⟩ := hok
      exact .underAlias halias (ih hok)
    | _ => cases hok
  | setAliasAccount account callValidAt =>
    cases origin with
    | personalAlias revCa => exact .setAlias (setAliasAccount_ok hok)
    | _ => cases hok
  | unsetAliasAccount =>
    cases origin with
    | personalAlias revCa =>
      have hok := map_pays_eq_ok hok
      simp only [unsetAliasAccount, bind_eq_ok, okOr_eq_ok, pure_eq_ok] at hok
      obtain ⟨account, hget, rfl⟩ := hok
      exact .unsetAlias hget
    | _ => cases hok
  | forceRecognizePersonhood people =>
    cases origin with
    | manager => exact .force (map_pays_eq_ok hok)
    | _ => cases hok
  | setPersonalIdAccount account callValidAt =>
    cases origin with
    | personalIdentity id =>
      obtain ⟨record, hrecord, hfree, hbound⟩ := setPersonalIdAccount_ok hok
      exact .setPersonal hrecord hfree hbound
    | _ => cases hok
  | unsetPersonalIdAccount =>
    cases origin with
    | personalIdentity id =>
      obtain ⟨record, account, hrecord, haccount, rfl⟩ := unsetPersonalIdAccount_ok (map_pays_eq_ok hok)
      exact .unsetPersonal hrecord haccount
    | _ => cases hok
  | createPeopleCollection =>
    cases origin with
    | authorized =>
      have hok := map_pays_eq_ok hok
      simp only [createPeopleCollection, bind_eq_ok, okOr_eq_ok, pure_eq_ok] at hok
      obtain ⟨members, hcreated, rfl⟩ := hok
      exact .create hcreated
    | _ => cases hok
  | cleanUpStaleAliases aliases =>
    cases origin with
    | authorized =>
      have hok := map_pays_eq_ok hok
      simp only [cleanUpStaleAliases, bind_eq_ok, pure_eq_ok] at hok
      obtain ⟨-, -, rfl⟩ := hok
      exact .cleanUp
    | _ => cases hok
  | other =>
    cases origin with
    | _ =>
      cases hok
      exact .other

/-- A cleanup takes aliases and their accounts apart, one after the other. -/
theorem cleanUpStaleAliases_induction {P : Store T → Prop} (aliases : List T.Ca) (acc : Store T × Nat)
    (h₀ : P acc.1)
    (step : ∀ t ca account, P t → t.aliasToAccount.get ca = some account → P (unpair t ca account)) :
    P (aliases.foldl cleanUpStaleAlias acc).1 := by
  induction aliases generalizing acc with
  | nil => exact h₀
  | cons ca rest ih =>
    refine ih _ ?_
    unfold cleanUpStaleAlias
    split
    · exact h₀
    · rename_i account hget
      split
      · exact h₀
      · split
        · exact h₀
        · exact step _ ca account h₀ hget

/-- A suspension unbinds accounts, one after the other, and then removes members. -/
theorem unbindAll_induction {P : Store T → Prop} (suspensions : List Nat) (h₀ : P s)
    (step : ∀ t id record, P t → id ∈ suspensions → t.people.get id = some record → P (unbind t id record)) :
    P (unbindAll s suspensions).1 := by
  induction suspensions generalizing s with
  | nil => exact h₀
  | cons id rest ih =>
    unfold unbindAll
    split
    · exact h₀
    · rename_i record hget
      exact ih (step _ id record h₀ List.mem_cons_self hget) fun t id' record' ht hid' =>
        step t id' record' ht (List.mem_cons_of_mem id hid')

theorem suspendPersonhood_eq (s : Store T) (suspensions : List Nat) :
    ∃ members, (suspendPersonhood s suspensions).1 = { (unbindAll s suspensions).1 with members := members } := by
  unfold suspendPersonhood
  generalize unbindAll s suspensions = out
  obtain ⟨t, keys⟩ := out
  cases keys with
  | error e => exact ⟨t.members, rfl⟩
  | ok keys => exact ⟨_, rfl⟩

/-! ### Transactions -/

/-- What the extension has found of a transaction. -/
inductive Authenticated (env : Env T) (s : Store T) (tx : Transaction T) : Origin T → Val T → Prop
  | plain {origin} : tx.asPerson = none → authorizeCall env s tx = .ok origin →
    Authenticated env s tx origin .notUsing
  | aliasAccount {who : T.AccountId} {nonce : Nat} {revCa : T.RevCa} : aliasOfAccount env s who = .ok revCa →
    Authenticated env s tx (.personalAlias revCa) (.usingAccount who nonce)
  | aliasRevised {who : T.AccountId} {nonce : Nat} {proof ring context message} {old revCa : T.RevCa} :
    s.accountToAlias.get who = some old →
    verifyMembership s proof ring context message = .ok revCa → revCa.ca = old.ca →
    Authenticated env s tx (.personalAlias revCa) (.usingAccountWithRevisionUpdate who nonce revCa)
  | identityAccount {who : T.AccountId} {nonce : Nat} {id : Nat} :
    s.accountToPersonalId.get who = some id →
    Authenticated env s tx (.personalIdentity id) (.usingAccount who nonce)
  | aliasProof {proof ring context message} {revCa : T.RevCa} :
    verifyMembership s proof ring context message = .ok revCa →
    Authenticated env s tx (.personalAlias revCa) .usingProof
  | identityProof {signature} {id : Nat} {record : PersonRecord T} :
    tx.asPerson = some (.asPersonalIdentityWithProof signature id) →
    s.people.get id = some record → T.verifySignature signature tx.implication record.key = true →
    Authenticated env s tx (.personalIdentity id) .usingProof

theorem verifyMembership_ok {proof : T.memberService.Proof} {ring : Nat} {context : T.Context}
    {message : T.Message}
    (hok : verifyMembership s proof ring context message = .ok revCa) :
    T.memberService.verifyMembership s.members proof ring context message =
      some (revCa.revision, revCa.ca.ringAlias) ∧ revCa.ring = ring ∧ revCa.ca.context = context := by
  simp only [verifyMembership, bind_eq_ok, okOr_eq_ok, pure_eq_ok] at hok
  obtain ⟨found, hfound, rfl⟩ := hok
  exact ⟨hfound, rfl, rfl⟩

theorem validate_ok {tx : Transaction T} {origin : Origin T} {val : Val T}
    (hok : validate env s tx = .ok (origin, val)) : Authenticated env s tx origin val := by
  unfold validate at hok
  split at hok
  · rename_i hnone
    cases hcall : authorizeCall env s tx with
    | error e =>
      rw [hcall] at hok
      cases hok
    | ok origin' =>
      rw [hcall] at hok
      cases hok
      exact .plain hnone hcall
  · simp only [bind_eq_ok, mapError_eq_ok, pure_eq_ok] at hok
    obtain ⟨who, -, revCa, halias, -, -, heq⟩ := hok
    cases heq
    exact .aliasAccount halias
  · simp only [bind_eq_ok, okOr_eq_ok, ensure_eq_ok, pure_eq_ok] at hok
    obtain ⟨who, -, old, hold, revCa, hverified, -, halias, -, hcontext, -, -, -, -, heq⟩ := hok
    cases heq
    exact .aliasRevised hold hverified
      (ContextualAlias.ext ((verifyMembership_ok hverified).2.2.trans hcontext) halias)
  · simp only [bind_eq_ok, okOr_eq_ok, pure_eq_ok] at hok
    obtain ⟨who, -, id, hid, -, -, heq⟩ := hok
    cases heq
    exact .identityAccount hid
  · simp only [bind_eq_ok] at hok
    obtain ⟨-, -, hok⟩ := hok
    split at hok
    · simp only [bind_eq_ok, pure_eq_ok] at hok
      obtain ⟨-, -, -, -, revCa, hverified, -, -, heq⟩ := hok
      cases heq
      exact .aliasProof hverified
    · cases hok
  · rename_i signature id hproof
    simp only [bind_eq_ok] at hok
    obtain ⟨-, -, hok⟩ := hok
    split at hok
    · simp only [bind_eq_ok, okOr_eq_ok, ensure_eq_ok, pure_eq_ok] at hok
      obtain ⟨-, -, record, hrecord, -, hverified, -, -, heq⟩ := hok
      cases heq
      exact .identityProof hproof hrecord hverified
    · cases hok

/-- What a transaction that is applied was found to be, and what was written ahead of its call. -/
theorem submit_ok {tx : Transaction T} (hok : submit env s tx = .ok s') :
    ∃ origin val t, Authenticated env s tx origin val ∧ prepare s val = .ok t ∧
      (s' = t ∨ Dispatch env t origin tx.call s') := by
  simp only [submit, bind_eq_ok] at hok
  obtain ⟨⟨origin, val⟩, hvalidated, t, hprepared, hok⟩ := hok
  refine ⟨origin, val, t, validate_ok hvalidated, hprepared, ?_⟩
  split at hok
  · rename_i hdispatched
    cases hok
    exact .inr (dispatch_effect hdispatched)
  · cases hok
    exact .inl rfl

/-- What the extension writes: a nonce, and maybe the alias of the account in its newest revision. -/
theorem prepare_ok {tx : Transaction T} {origin : Origin T} {val : Val T}
    (hauthenticated : Authenticated env s tx origin val) (hok : prepare s val = .ok s') :
    ∃ nonces, s' = { s with nonces := nonces } ∨ ∃ who old revCa, origin = .personalAlias revCa ∧
      s.accountToAlias.get who = some old ∧ revCa.ca = old.ca ∧
      s' = { s with accountToAlias := s.accountToAlias.insert who revCa, nonces := nonces } := by
  cases hauthenticated with
  | plain =>
    cases hok
    exact ⟨s.nonces, .inl rfl⟩
  | aliasAccount =>
    simp only [prepare, prepareNonceForAccount, bind_eq_ok, pure_eq_ok] at hok
    obtain ⟨-, -, rfl⟩ := hok
    exact ⟨_, .inl rfl⟩
  | aliasRevised hold hverified hca =>
    simp only [prepare, prepareNonceForAccount, bind_eq_ok, pure_eq_ok] at hok
    obtain ⟨-, -, rfl⟩ := hok
    exact ⟨_, .inr ⟨_, _, _, rfl, hold, hca, rfl⟩⟩
  | identityAccount =>
    simp only [prepare, prepareNonceForAccount, bind_eq_ok, pure_eq_ok] at hok
    obtain ⟨-, -, rfl⟩ := hok
    exact ⟨_, .inl rfl⟩
  | aliasProof =>
    cases hok
    exact ⟨s.nonces, .inl rfl⟩
  | identityProof =>
    cases hok
    exact ⟨s.nonces, .inl rfl⟩

theorem exec_ok (hexec : exec c a = .ok c') : ∃ s', apply c a = .ok s' ∧ c'.store = s' := by
  simp only [exec, bind_eq_ok] at hexec
  obtain ⟨s', happly, hexec⟩ := hexec
  refine ⟨s', happly, ?_⟩
  split at hexec
  · cases hexec
    rfl
  · cases hexec
    rfl

end Individuality.People
