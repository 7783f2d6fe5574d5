import Individuality.People.Effects

/-! Setup transactions of the people pallet.

A person gives an alias or itself an account by a transaction that nobody signs, with a
proof or a signature in it (`IsSetup`). It has no nonce: it is accepted while its
tolerance lasts, wherever the pairing that it asks for is not in place (`Holds`). So it
takes effect again only after a step that has taken the pairing away. -/
namespace Individuality.People
open Support
variable {T : Config} {s s' : Store T} {c c' c₁ c₂ c₃ : Chain T} {env : Env T} {tx : Transaction T}
  {account : T.AccountId} {revCa : T.RevCa} {id : Nat}

/-- The transaction is a setup: of an alias's account, or of a person's. -/
inductive IsSetup (tx : Transaction T) : Prop
  | personalAlias {proof ring context} {account : T.AccountId} {callValidAt : Nat} :
    tx.asPerson = some (.asPersonalAliasWithProof proof ring context) →
    tx.call = .setAliasAccount account callValidAt → IsSetup tx
  | personalIdentity {signature id} {account : T.AccountId} {callValidAt : Nat} :
    tx.asPerson = some (.asPersonalIdentityWithProof signature id) →
    tx.call = .setPersonalIdAccount account callValidAt → IsSetup tx

/-- The pairing that the setup asks for is in place, at the revision that its ring has now. -/
def Holds (s : Store T) (tx : Transaction T) : Prop :=
  match tx.asPerson, tx.call with
  | some (.asPersonalAliasWithProof proof ring context), .setAliasAccount account _ =>
    ∃ revCa, verifyMembership s proof ring context tx.implication = .ok revCa ∧
      s.accountToAlias.get account = some revCa
  | some (.asPersonalIdentityWithProof _ id), .setPersonalIdAccount account _ =>
    ∃ record, s.people.get id = some record ∧ record.account = some account
  | _, _ => False

/-- The tolerance of the setup lasts. -/
def Open (now : Nat) (tx : Transaction T) : Prop :=
  match tx.call with
  | .setAliasAccount _ callValidAt | .setPersonalIdAccount _ callValidAt => validNow now callValidAt
  | _ => False

/-- What a transaction makes of a chain that is accepted, and whose call succeeds. -/
def takeEffect (c : Chain T) (tx : Transaction T) : Option (Chain T) :=
  match validate c.env c.store tx with
  | .error _ => none
  | .ok (origin, val) =>
    match prepare c.store val with
    | .error _ => none
    | .ok s =>
      match dispatch c.env s origin tx.call with
      | .error _ => none
      | .ok (s', _) => some { c with store := s' }

/-- Blocks do not go back. -/
def Forward (c : Chain T) : Action T → Prop
  | .elsewhere _ env => c.env.now ≤ env.now
  | _ => True

theorem takeEffect_ok (h : takeEffect c tx = some c') : ∃ origin val s pays,
    validate c.env c.store tx = .ok (origin, val) ∧ prepare c.store val = .ok s ∧
      dispatch c.env s origin tx.call = .ok (c'.store, pays) ∧ c'.env = c.env := by
  unfold takeEffect at h
  split at h
  · cases h
  · rename_i origin val hvalidated
    split at h
    · cases h
    · rename_i s hprepared
      split at h
      · cases h
      · rename_i s' pays hdispatched
        cases h
        exact ⟨origin, val, s, pays, hvalidated, hprepared, hdispatched, rfl⟩

theorem ensureValidNow_ok {now callValidAt : Nat} {u : Unit} (hok : ensureValidNow now callValidAt = .ok u) :
    validNow now callValidAt := by
  simp only [ensureValidNow, bind_eq_ok, ensure_eq_ok, Nat.not_lt] at hok
  obtain ⟨-, hbegun, hstill⟩ := hok
  exact ⟨hbegun, hstill⟩

/-- What a setup is given that is accepted. -/
inductive SetUp (s : Store T) (tx : Transaction T) : Origin T → Prop
  | personalAlias {proof ring context} {account : T.AccountId} {callValidAt : Nat} {revCa : T.RevCa} :
    tx.asPerson = some (.asPersonalAliasWithProof proof ring context) →
    tx.call = .setAliasAccount account callValidAt →
    verifyMembership s proof ring context tx.implication = .ok revCa → SetUp s tx (.personalAlias revCa)
  | personalIdentity {signature id} {account : T.AccountId} {callValidAt : Nat} :
    tx.asPerson = some (.asPersonalIdentityWithProof signature id) →
    tx.call = .setPersonalIdAccount account callValidAt → SetUp s tx (.personalIdentity id)

/-- A setup is accepted while its tolerance lasts, where its pairing is not in place. -/
theorem validate_setup {origin : Origin T} {val : Val T} (hsetup : IsSetup tx)
    (hok : validate env s tx = .ok (origin, val)) :
    Open env.now tx ∧ ¬Holds s tx ∧ val = .usingProof ∧ SetUp s tx origin := by
  cases hsetup with
  | @personalAlias proof ring context account callValidAt hinfo hcall =>
    simp only [validate, hinfo, hcall, bind_eq_ok, ensure_eq_ok, pure_eq_ok] at hok
    obtain ⟨-, -, -, -, _, hopen, revCa, hverified, -, hfresh, heq⟩ := hok
    cases heq
    refine ⟨?_, ?_, rfl, .personalAlias hinfo hcall hverified⟩
    · simp only [Open, hcall]
      exact ensureValidNow_ok hopen
    · simp only [Holds, hinfo, hcall]
      rintro ⟨revCa', hverified', hget⟩
      cases hverified.symm.trans hverified'
      exact hfresh hget
  | @personalIdentity signature id account callValidAt hinfo hcall =>
    simp only [validate, hinfo, hcall, bind_eq_ok, ensure_eq_ok, okOr_eq_ok, pure_eq_ok] at hok
    obtain ⟨-, -, _, hopen, record, hrecord, -, -, -, hfresh, heq⟩ := hok
    cases heq
    refine ⟨?_, ?_, rfl, .personalIdentity hinfo hcall⟩
    · simp only [Open, hcall]
      exact ensureValidNow_ok hopen
    · simp only [Holds, hinfo, hcall]
      rintro ⟨record', hrecord', haccount⟩
      cases hrecord.symm.trans hrecord'
      exact hfresh haccount

/-- The account has the alias, and the members are as before. -/
theorem Paired.written (h : Paired s revCa account s') :
    s'.accountToAlias.get account = some revCa ∧ s'.members = s.members := by
  cases h with
  | again _ => exact ⟨(StorageMap.get_insert _ _ _ _).trans (if_pos rfl), rfl⟩
  | moved _ _ _ => exact ⟨(StorageMap.get_insert _ _ _ _).trans (if_pos rfl), rfl⟩
  | fresh _ _ => exact ⟨(StorageMap.get_insert _ _ _ _).trans (if_pos rfl), rfl⟩

theorem Bound.written {record : PersonRecord T} (h : Bound s id record account s') :
    ∃ record', s'.people.get id = some record' ∧ record'.account = some account := by
  cases h with
  | moved _ _ => exact ⟨_, (StorageMap.get_insert _ _ _ _).trans (if_pos rfl), rfl⟩
  | fresh _ => exact ⟨_, (StorageMap.get_insert _ _ _ _).trans (if_pos rfl), rfl⟩

/-- A setup that takes effect leaves its pairing in place. -/
theorem holds_of_takeEffect (hsetup : IsSetup tx) (h : takeEffect c tx = some c') : Holds c'.store tx := by
  obtain ⟨origin, val, s, pays, hvalidated, hprepared, hdispatched, -⟩ := takeEffect_ok h
  obtain ⟨-, -, rfl, hsetUp⟩ := validate_setup hsetup hvalidated
  cases hprepared
  have hd := dispatch_effect hdispatched
  cases hsetUp with
  | personalAlias hinfo hcall hverified =>
    rw [hcall] at hd
    cases hd with
    | setAlias hpaired =>
      obtain ⟨hget, hmembers⟩ := hpaired.written
      simp only [Holds, hinfo, hcall]
      refine ⟨_, ?_, hget⟩
      rw [verifyMembership, hmembers]
      exact hverified
  | personalIdentity hinfo hcall =>
    rw [hcall] at hd
    cases hd with
    | setPersonal _ _ hbound =>
      simp only [Holds, hinfo, hcall]
      exact hbound.written

theorem Open.between {now now' n : Nat} (h : Open now tx) (h' : Open now' tx) (hle : now ≤ n) (hle' : n ≤ now') :
    Open n tx := by
  cases hcall : tx.call <;> simp only [Open, hcall] at h h' ⊢ <;> exact ⟨h.1.trans hle, hle'.trans h'.2⟩

theorem forward_le (h : Reaches exec Forward c c') : c.env.now ≤ c'.env.now := by
  refine Reaches.invariant (I := fun d => c.env.now ≤ d.env.now) h le_rfl fun d a d' hd hforward hok => ?_
  simp only [People.exec, bind_eq_ok] at hok
  obtain ⟨s, -, hok⟩ := hok
  cases a with
  | elsewhere members env =>
    cases hok
    exact hd.trans hforward
  | _ =>
    cases hok
    exact hd

/-- A setup that takes effect again has lost its pairing in between, while its tolerance lasted. -/
theorem setup_lost (hsetup : IsSetup tx) (h₁ : takeEffect c tx = some c₁) (h : Reaches exec Forward c₁ c₂)
    (h₂ : takeEffect c₂ tx = some c₃) : ∃ d a d', Reaches exec Forward c₁ d ∧ exec d a = .ok d' ∧ Reaches exec Forward d' c₂ ∧
      Open d.env.now tx ∧ Holds d.store tx ∧ ¬Holds d'.store tx := by
  have hheld := holds_of_takeEffect hsetup h₁
  obtain ⟨_, _, _, _, hvalidated₁, -, -, henv⟩ := takeEffect_ok h₁
  obtain ⟨_, _, _, _, hvalidated₂, -, -, -⟩ := takeEffect_ok h₂
  obtain ⟨hopen₁, -, -⟩ := validate_setup hsetup hvalidated₁
  obtain ⟨hopen₂, hfree, -⟩ := validate_setup hsetup hvalidated₂
  obtain ⟨d, a, d', hbefore, hforward, hok, hafter, hholds, hlost⟩ := h.exists_loss (P := fun c => Holds c.store tx) hheld hfree
  refine ⟨d, a, d', hbefore, hok, hafter, hopen₁.between hopen₂ ?_ ?_, hholds, hlost⟩
  · have hle := forward_le hbefore
    rwa [henv] at hle
  · exact (forward_le (Reaches.tail (Reaches.refl d) hforward hok)).trans (forward_le hafter)

end Individuality.People
