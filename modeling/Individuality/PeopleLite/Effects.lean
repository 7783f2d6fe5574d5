import Individuality.PeopleLite.Calls

/-! What the calls of the people-lite pallet write.

`Attested` and `Paired` say what an attestation and the setting of an account write,
`Dispatch` what an accepted call does under its origin, and `Authenticated` what the
extension has found of a transaction that it gives an origin. -/
namespace Individuality.PeopleLite
open Support
variable {T : Config} {s s' : Store T} {c c' : Chain T} {a : Action T} {env : Env T} {account : T.AccountId}
  {ca : T.Ca} {revCa : T.RevCa}

/-! ### Attesting -/

/-- The allowances once an attestation has been spent. -/
def spend (s : Store T) (verifier : T.AccountId) : StorageMap T.AccountId Nat :=
  if 0 < s.allowance verifier - 1 then s.attestationAllowance.insert verifier (s.allowance verifier - 1)
  else s.attestationAllowance.remove verifier

/-- Enter a lite person, with a reference. -/
def enter (s : Store T) (verifier candidate : T.AccountId) (key : T.Member) (members : T.memberService.World)
    (registrar : T.Registrar) : Store T :=
  incSufficients { s with
    attestationAllowance := spend s verifier
    litePeople := s.litePeople.insert candidate ⟨key, .uniqueDevice verifier⟩
    members := members
    registrar := registrar } candidate

/-- What becomes of the registrar when an attestation brings a registration along. -/
def Registered (registrar : T.Registrar) (verifier : T.AccountId) (registrar' : T.Registrar) :
    Option (LiteConsumerRegistrationParams T) → Prop
  | none => registrar' = registrar
  | some params =>
    T.verifyAttestation params.signature
      (T.signingPayload params.account verifier params.identifierKey params.stem params.reservedUsername)
      params.account = true ∧
    T.registerConsumer registrar params.account params.identifierKey params.username params.reservedUsername =
      some registrar'

/-- An accepted attestation. -/
structure Attested (s : Store T) (verifier candidate : T.AccountId) (key : T.Member)
    (consumerRegistration : Option (LiteConsumerRegistrationParams T)) (members : T.memberService.World)
    (registrar : T.Registrar) : Prop where
  fresh : s.litePeople.get candidate = none
  freshKey : T.memberService.memberStatus s.members key = false
  allowed : 0 < s.allowance verifier
  added : T.memberService.addMembers s.members [key] = some members
  registered : Registered s.registrar verifier registrar consumerRegistration

theorem attest_ok {verifier candidate : T.AccountId} {candidateSignature : T.AttestationSignature} {key : T.Member}
    {proofOfOwnership : T.Signature} {consumerRegistration : Option (LiteConsumerRegistrationParams T)}
    (hok : attest s verifier candidate candidateSignature key proofOfOwnership consumerRegistration = .ok s') :
    ∃ members registrar, Attested s verifier candidate key consumerRegistration members registrar ∧
      s' = enter s verifier candidate key members registrar := by
  simp only [attest, bind_eq_ok, ensure_eq_ok, okOr_eq_ok, StorageMap.contains_eq_false] at hok
  obtain ⟨-, hfresh, -, hkey, -, hallowed, -, -, -, -, -, -, members, hadded, hok⟩ := hok
  cases consumerRegistration with
  | none =>
    cases hok
    exact ⟨members, s.registrar, ⟨hfresh, hkey, hallowed, hadded, rfl⟩, rfl⟩
  | some params =>
    simp only [registerLiteConsumer, bind_eq_ok, ensure_eq_ok, okOr_eq_ok, pure_eq_ok] at hok
    obtain ⟨-, hsigned, registrar, hregistered, rfl⟩ := hok
    exact ⟨members, registrar, ⟨hfresh, hkey, hallowed, hadded, hsigned, hregistered⟩, rfl⟩

/-! ### Setting accounts -/

/-- Take an alias and its account apart. -/
def unpair (s : Store T) (ca : T.Ca) (account : T.AccountId) : Store T :=
  { decSufficients s account with
    aliasToAccount := s.aliasToAccount.remove ca
    accountToAlias := s.accountToAlias.remove account }

/-- Write the alias of an account. -/
def repair (s : Store T) (revCa : T.RevCa) (account : T.AccountId) : Store T :=
  { s with
    accountToAlias := s.accountToAlias.insert account revCa
    aliasToAccount := s.aliasToAccount.insert revCa.ca account }

/-- Give an alias an account, with a reference. -/
def pair (s : Store T) (revCa : T.RevCa) (account : T.AccountId) : Store T :=
  repair (incSufficients s account) revCa account

/-- What an accepted `setAliasAccount` writes. -/
inductive Paired (s : Store T) (revCa : T.RevCa) (account : T.AccountId) : Store T → Prop
  | again : s.aliasToAccount.get revCa.ca = some account → Paired s revCa account (repair s revCa account)
  | moved (old : T.AccountId) : s.aliasToAccount.get revCa.ca = some old → old ≠ account →
    s.accountToAlias.get account = none → Paired s revCa account (pair (unpair s revCa.ca old) revCa account)
  | fresh : s.aliasToAccount.get revCa.ca = none → s.accountToAlias.get account = none →
    Paired s revCa account (pair s revCa account)

theorem setAliasAccount_ok {validAtBlock : Nat} {pays : Pays}
    (hok : setAliasAccount env s revCa account validAtBlock = .ok (s', pays)) :
    validNow env.now validAtBlock ∧ s.litePeople.get account = none ∧ Paired s revCa account s' := by
  simp only [setAliasAccount, bind_eq_ok, ensure_eq_ok, pure_eq_ok, StorageMap.contains_eq_false] at hok
  obtain ⟨-, hvalid, -, -, -, hnotLite, -, -, t, hmoved, heq⟩ := hok
  refine ⟨hvalid, hnotLite, ?_⟩
  cases heq
  unfold moveAliasAccount at hmoved
  split at hmoved
  · rename_i hnone
    simp only [bind_eq_ok, ensure_eq_ok, pure_eq_ok, StorageMap.contains_eq_false] at hmoved
    obtain ⟨-, hfree, rfl⟩ := hmoved
    exact .fresh hnone hfree
  · rename_i old hold
    split at hmoved
    · rename_i hne
      simp only [bind_eq_ok, ensure_eq_ok, pure_eq_ok, StorageMap.contains_eq_false] at hmoved
      obtain ⟨-, hfree, rfl⟩ := hmoved
      have heq : pair (unpair s revCa.ca old) revCa account =
          { incSufficients { decSufficients s old with accountToAlias := s.accountToAlias.remove old } account with
            accountToAlias := (s.accountToAlias.remove old).insert account revCa
            aliasToAccount := s.aliasToAccount.insert revCa.ca account } := by
        simp only [pair, repair, unpair, incSufficients, decSufficients, StorageMap.insert_remove]
      exact heq ▸ .moved old hold hne hfree
    · rename_i hsame
      cases hmoved
      exact .again (hold.trans (congrArg some (not_not.mp hsame)))

/-! ### Dispatch -/

/-- What an accepted call writes under its origin. -/
inductive Dispatch (env : Env T) (s : Store T) : Origin T → Call T → Store T → Prop
  | increase {account : T.AccountId} {count : Nat} :
    Dispatch env s .manager (.increaseAttestationAllowance account count) (increaseAttestationAllowance s account count)
  | clear {account : T.AccountId} :
    Dispatch env s .manager (.clearAttestationAllowance account) (clearAttestationAllowance s account)
  | attest {verifier candidate : T.AccountId} {signature key proof} {consumerRegistration members registrar} :
    Attested s verifier candidate key consumerRegistration members registrar →
    Dispatch env s (.signed verifier) (.attest candidate signature key proof consumerRegistration)
      (enter s verifier candidate key members registrar)
  | asSigner {who : T.AccountId} {call : Call T} {s' : Store T} : Dispatch env s (.signed who) call s' →
    Dispatch env s (.litePerson who) (.dispatchAsSigner call) s'
  | setAlias {revCa : T.RevCa} {account : T.AccountId} {validAtBlock : Nat} {s' : Store T} :
    validNow env.now validAtBlock → s.litePeople.get account = none → Paired s revCa account s' →
    Dispatch env s (.liteAlias revCa) (.setAliasAccount account validAtBlock) s'
  | unsetAlias {revCa : T.RevCa} {account : T.AccountId} : s.aliasToAccount.get revCa.ca = some account →
    Dispatch env s (.liteAlias revCa) .unsetAliasAccount (unpair s revCa.ca account)
  | other {origin : Origin T} : Dispatch env s origin .other s

theorem map_pays_eq_ok {x : Except Error (Store T)} {p pays : Pays}
    (h : x.map (fun t => (t, p)) = .ok (s', pays)) : x = .ok s' := by
  cases x with
  | error e => cases h
  | ok t =>
    cases h
    rfl

theorem dispatch_effect {origin : Origin T} {call : Call T} {pays : Pays}
    (hok : dispatch env s origin call = .ok (s', pays)) : Dispatch env s origin call s' := by
  induction call generalizing origin with
  | increaseAttestationAllowance account count =>
    cases origin with
    | manager =>
      cases hok
      exact .increase
    | _ => cases hok
  | clearAttestationAllowance account =>
    cases origin with
    | manager =>
      cases hok
      exact .clear
    | _ => cases hok
  | attest candidate signature key proof consumerRegistration =>
    cases origin with
    | signed verifier =>
      obtain ⟨members, registrar, hattested, rfl⟩ := attest_ok (map_pays_eq_ok hok)
      exact .attest hattested
    | _ => cases hok
  | dispatchAsSigner call ih =>
    cases origin with
    | litePerson who => exact .asSigner (ih hok)
    | _ => cases hok
  | setAliasAccount account validAtBlock =>
    cases origin with
    | liteAlias revCa =>
      obtain ⟨hvalid, hnotLite, hpaired⟩ := setAliasAccount_ok hok
      exact .setAlias hvalid hnotLite hpaired
    | _ => cases hok
  | unsetAliasAccount =>
    cases origin with
    | liteAlias revCa =>
      have hok := map_pays_eq_ok hok
      simp only [unsetAliasAccount, bind_eq_ok, okOr_eq_ok, pure_eq_ok] at hok
      obtain ⟨account, hget, rfl⟩ := hok
      exact .unsetAlias hget
    | _ => cases hok
  | other =>
    cases origin with
    | _ =>
      cases hok
      exact .other

/-! ### Transactions -/

/-- What the extension has found of a transaction. -/
inductive Authenticated (env : Env T) (s : Store T) (tx : Transaction T) : Origin T → PeopleLiteAuthVal T → Prop
  | plain : Authenticated env s tx (PeopleLiteAuth.plainOrigin tx.signer) .none
  | litePerson {who : T.AccountId} {nonce : Nat} : s.litePeople.contains who = true →
    Authenticated env s tx (.litePerson who) (.usingAccount who nonce)
  | aliasAccount {who : T.AccountId} {nonce : Nat} {revCa : T.RevCa} : s.accountToAlias.get who = some revCa →
    Authenticated env s tx (.liteAlias revCa) (.usingAccount who nonce)
  | aliasProof {proof ring context} {account : T.AccountId} {validAtBlock : Nat} {revCa : T.RevCa} :
    tx.peopleLiteAuth = some (.asLiteAliasWithProof proof ring context) → tx.call = .setAliasAccount account validAtBlock →
    validNow env.now validAtBlock →
    PeopleLiteAuth.verifyMembership s proof ring context tx.implication = some revCa →
    s.accountToAlias.get account ≠ some revCa → Authenticated env s tx (.liteAlias revCa) .usingProof
  | aliasRevised {who : T.AccountId} {nonce : Nat} {proof ring context message} {old revCa : T.RevCa} :
    s.accountToAlias.get who = some old →
    PeopleLiteAuth.verifyMembership s proof ring context message = some revCa → revCa.ca = old.ca →
    Authenticated env s tx (.liteAlias revCa) (.usingAccountRevised who nonce revCa)

theorem validate_ok {tx : Transaction T} {origin : Origin T} {val : PeopleLiteAuthVal T}
    (hok : PeopleLiteAuth.validate env s tx = .ok (origin, val)) : Authenticated env s tx origin val := by
  unfold PeopleLiteAuth.validate at hok
  split at hok
  · cases hok
    exact .plain
  · simp only [bind_eq_ok, ensure_eq_ok, pure_eq_ok] at hok
    obtain ⟨who, -, -, hlite, -, -, heq⟩ := hok
    cases heq
    exact .litePerson hlite
  · simp only [bind_eq_ok, ensure_eq_ok, okOr_eq_ok, pure_eq_ok] at hok
    obtain ⟨who, -, revCa, halias, _, -, -, -, -, -, heq⟩ := hok
    cases heq
    exact .aliasAccount halias
  · rename_i proof ring context hauth
    simp only [bind_eq_ok] at hok
    obtain ⟨-, -, hok⟩ := hok
    split at hok
    · rename_i account validAtBlock hcall
      simp only [PeopleLiteAuth.ensureValidNow, bind_eq_ok, ensure_eq_ok, okOr_eq_ok, pure_eq_ok, Nat.not_lt] at hok
      obtain ⟨-, -, -, ⟨-, hbegun, hstill⟩, revCa, hverified, -, hfresh, heq⟩ := hok
      cases heq
      exact .aliasProof hauth hcall ⟨hbegun, hstill⟩ hverified hfresh
    · cases hok
  · simp only [bind_eq_ok, ensure_eq_ok, okOr_eq_ok, pure_eq_ok] at hok
    obtain ⟨who, -, old, hold, -, -, revCa, hverified, -, hsame, -, -, heq⟩ := hok
    cases heq
    exact .aliasRevised hold hverified (People.ContextualAlias.ext hsame.2 hsame.1)

/-- The origin that a transaction asks for, and that the manager does not. -/
theorem validate_asked {tx : Transaction T} {origin : Origin T} {val : PeopleLiteAuthVal T} {data : PeopleLiteAuthData T}
    (hdata : tx.peopleLiteAuth = some data) (hok : PeopleLiteAuth.validate env s tx = .ok (origin, val)) :
    tx.signer ≠ .manager ∧ ((∃ who nonce, data = .asLitePerson nonce ∧ origin = .litePerson who) ∨
      ∃ revCa, (∀ nonce, data ≠ .asLitePerson nonce) ∧ origin = .liteAlias revCa) := by
  unfold PeopleLiteAuth.validate at hok
  rw [hdata] at hok
  have hmanager : tx.signer ≠ .manager := by
    intro hsigner
    rw [hsigner] at hok
    cases data <;> cases hok
  refine ⟨hmanager, ?_⟩
  cases data with
  | asLitePerson nonce =>
    simp only [bind_eq_ok, pure_eq_ok] at hok
    obtain ⟨who, -, -, -, -, -, heq⟩ := hok
    cases heq
    exact .inl ⟨who, nonce, rfl, rfl⟩
  | asLiteAliasWithAccount nonce =>
    simp only [bind_eq_ok, pure_eq_ok] at hok
    obtain ⟨_, -, revCa, -, _, -, -, -, -, -, heq⟩ := hok
    cases heq
    exact .inr ⟨revCa, fun _ heq => (by cases heq), rfl⟩
  | asLiteAliasWithProof proof ring context =>
    simp only [bind_eq_ok] at hok
    obtain ⟨-, -, hok⟩ := hok
    split at hok
    · simp only [bind_eq_ok, pure_eq_ok] at hok
      obtain ⟨-, -, -, -, revCa, -, -, -, heq⟩ := hok
      cases heq
      exact .inr ⟨revCa, fun _ heq => (by cases heq), rfl⟩
    · cases hok
  | asLiteAliasWithAccountRevised nonce proof ring context =>
    simp only [bind_eq_ok, pure_eq_ok] at hok
    obtain ⟨_, -, _, -, -, -, revCa, -, -, -, -, -, heq⟩ := hok
    cases heq
    exact .inr ⟨revCa, fun _ heq => (by cases heq), rfl⟩

/-- What the extension writes: a nonce, and maybe the alias of the account in its newest revision. -/
theorem prepare_ok {tx : Transaction T} {origin : Origin T} {val : PeopleLiteAuthVal T}
    (hauthenticated : Authenticated env s tx origin val) (hok : PeopleLiteAuth.prepare s val = .ok s') :
    ∃ nonces, s' = { s with nonces := nonces } ∨ ∃ who old revCa, origin = .liteAlias revCa ∧
      s.accountToAlias.get who = some old ∧ revCa.ca = old.ca ∧
      s' = { s with accountToAlias := s.accountToAlias.insert who revCa, nonces := nonces } := by
  cases hauthenticated with
  | plain =>
    cases hok
    exact ⟨s.nonces, .inl rfl⟩
  | aliasProof =>
    cases hok
    exact ⟨s.nonces, .inl rfl⟩
  | litePerson =>
    simp only [PeopleLiteAuth.prepare, prepareNonceForAccount, bind_eq_ok, pure_eq_ok] at hok
    obtain ⟨-, -, rfl⟩ := hok
    exact ⟨_, .inl rfl⟩
  | aliasAccount =>
    simp only [PeopleLiteAuth.prepare, prepareNonceForAccount, bind_eq_ok, pure_eq_ok] at hok
    obtain ⟨-, -, rfl⟩ := hok
    exact ⟨_, .inl rfl⟩
  | aliasRevised hold _ hca =>
    simp only [PeopleLiteAuth.prepare, prepareNonceForAccount, bind_eq_ok, pure_eq_ok] at hok
    obtain ⟨-, -, rfl⟩ := hok
    exact ⟨_, .inr ⟨_, _, _, rfl, hold, hca, rfl⟩⟩

theorem exec_ok (hexec : exec c a = .ok c') : ∃ s', apply c a = .ok s' ∧ c'.store = s' := by
  simp only [exec, bind_eq_ok] at hexec
  obtain ⟨s', happly, hexec⟩ := hexec
  refine ⟨s', happly, ?_⟩
  split at hexec
  · cases hexec
    rfl
  · cases hexec
    rfl

end Individuality.PeopleLite
