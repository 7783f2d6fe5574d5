import Individuality.People.Bindings
import Individuality.People.Setups
import Individuality.PeopleLite.Bindings

/-! Setup transactions of the people-lite pallet, and of both pallets.

A lite person gives its alias an account by a transaction that nobody signs, with a proof
in it (`IsSetup`). As with people, it is accepted while its tolerance lasts, wherever the
pairing that it asks for is not in place (`Holds`), and takes effect again only after a
step that has taken the pairing away (`setups_take_turns`). -/
namespace Individuality.PeopleLite
open Support
variable {T : Config} {s s' : Store T} {c c' c₁ c₂ c₃ : Chain T} {env : Env T} {tx : Transaction T}
  {account : T.AccountId} {revCa : T.RevCa}

inductive IsSetup (tx : Transaction T) : Prop
  | liteAlias {proof ring context} {account : T.AccountId} {validAtBlock : Nat} :
    tx.peopleLiteAuth = some (.asLiteAliasWithProof proof ring context) →
    tx.call = .setAliasAccount account validAtBlock → IsSetup tx

/-- The pairing that the setup asks for is in place, at the revision that its ring has now. -/
def Holds (s : Store T) (tx : Transaction T) : Prop :=
  match tx.peopleLiteAuth, tx.call with
  | some (.asLiteAliasWithProof proof ring context), .setAliasAccount account _ =>
    ∃ revCa, PeopleLiteAuth.verifyMembership s proof ring context tx.implication = some revCa ∧
      s.accountToAlias.get account = some revCa
  | _, _ => False

/-- The tolerance of the setup lasts. -/
def Open (now : Nat) (tx : Transaction T) : Prop :=
  match tx.call with
  | .setAliasAccount _ validAtBlock => validNow now validAtBlock
  | _ => False

/-- What a transaction makes of a chain that is accepted, and whose call succeeds. -/
def takeEffect (c : Chain T) (tx : Transaction T) : Option (Chain T) :=
  match PeopleLiteAuth.validate c.env c.store tx with
  | .error _ => none
  | .ok (origin, val) =>
    match PeopleLiteAuth.prepare c.store val with
    | .error _ => none
    | .ok s =>
      match dispatch c.env s origin tx.call with
      | .error _ => none
      | .ok (s', _) => some { c with store := s' }

/-- Blocks do not go back. -/
def Forward (c : Chain T) : Action T → Prop
  | .elsewhere _ _ env => c.env.now ≤ env.now
  | _ => True

theorem takeEffect_ok (h : takeEffect c tx = some c') : ∃ origin val s pays,
    PeopleLiteAuth.validate c.env c.store tx = .ok (origin, val) ∧ PeopleLiteAuth.prepare c.store val = .ok s ∧
      dispatch c.env s origin tx.call = .ok (c'.store, pays) ∧ c'.env = c.env := by
  unfold takeEffect at h
  split at h
  · cases h
  · rename_i origin val hvalidated
    split at h
    · cases h
    · rename_i s hprepared
      split at h
      · cases h
      · rename_i s' pays hdispatched
        cases h
        exact ⟨origin, val, s, pays, hvalidated, hprepared, hdispatched, rfl⟩

/-- A setup is accepted while its tolerance lasts, where its pairing is not in place. -/
theorem validate_setup {origin : Origin T} {val : PeopleLiteAuthVal T} (hsetup : IsSetup tx)
    (hok : PeopleLiteAuth.validate env s tx = .ok (origin, val)) : Open env.now tx ∧ ¬Holds s tx ∧ val = .usingProof ∧
      ∃ proof ring context account validAtBlock revCa,
        tx.peopleLiteAuth = some (.asLiteAliasWithProof proof ring context) ∧
        tx.call = .setAliasAccount account validAtBlock ∧
        PeopleLiteAuth.verifyMembership s proof ring context tx.implication = some revCa ∧ origin = .liteAlias revCa := by
  cases hsetup with
  | @liteAlias proof ring context account validAtBlock hinfo hcall =>
    simp only [PeopleLiteAuth.validate, hinfo, hcall, PeopleLiteAuth.ensureValidNow, bind_eq_ok, ensure_eq_ok,
      okOr_eq_ok, pure_eq_ok, Nat.not_lt] at hok
    obtain ⟨-, -, -, -, -, ⟨-, hbegun, hstill⟩, revCa, hverified, -, hfresh, heq⟩ := hok
    cases heq
    refine ⟨?_, ?_, rfl, proof, ring, context, account, validAtBlock, revCa, hinfo, hcall, hverified, rfl⟩
    · simp only [Open, hcall]
      exact ⟨hbegun, hstill⟩
    · simp only [Holds, hinfo, hcall]
      rintro ⟨revCa', hverified', hget⟩
      cases hverified.symm.trans hverified'
      exact hfresh hget

/-- The account has the alias, and the members are as before. -/
theorem Paired.written (h : Paired s revCa account s') :
    s'.accountToAlias.get account = some revCa ∧ s'.members = s.members := by
  cases h with
  | again _ => exact ⟨(StorageMap.get_insert _ _ _ _).trans (if_pos rfl), rfl⟩
  | moved _ _ _ _ => exact ⟨(StorageMap.get_insert _ _ _ _).trans (if_pos rfl), rfl⟩
  | fresh _ _ => exact ⟨(StorageMap.get_insert _ _ _ _).trans (if_pos rfl), rfl⟩

/-- A setup that takes effect leaves its pairing in place. -/
theorem holds_of_takeEffect (hsetup : IsSetup tx) (h : takeEffect c tx = some c') : Holds c'.store tx := by
  obtain ⟨origin, val, s, pays, hvalidated, hprepared, hdispatched, -⟩ := takeEffect_ok h
  obtain ⟨-, -, rfl, proof, ring, context, account, validAtBlock, revCa, hinfo, hcall, hverified, rfl⟩ :=
    validate_setup hsetup hvalidated
  cases hprepared
  have hd := dispatch_effect hdispatched
  rw [hcall] at hd
  cases hd with
  | setAlias _ _ hpaired =>
    obtain ⟨hget, hmembers⟩ := hpaired.written
    simp only [Holds, hinfo, hcall]
    refine ⟨revCa, ?_, hget⟩
    rw [PeopleLiteAuth.verifyMembership, hmembers]
    exact hverified

theorem Open.between {now now' n : Nat} (h : Open now tx) (h' : Open now' tx) (hle : now ≤ n) (hle' : n ≤ now') :
    Open n tx := by
  cases hcall : tx.call <;> simp only [Open, hcall] at h h' ⊢
  exact ⟨h.1.trans hle, hle'.trans h'.2⟩

theorem forward_le (h : Reaches exec Forward c c') : c.env.now ≤ c'.env.now := by
  refine Reaches.invariant (I := fun d => c.env.now ≤ d.env.now) h le_rfl fun d a d' hd hforward hok => ?_
  simp only [PeopleLite.exec, bind_eq_ok] at hok
  obtain ⟨s, -, hok⟩ := hok
  cases a with
  | elsewhere members registrar env =>
    cases hok
    exact hd.trans hforward
  | _ =>
    cases hok
    exact hd

/-- A setup that takes effect again has lost its pairing in between, while its tolerance lasted. -/
theorem setup_lost (hsetup : IsSetup tx) (h₁ : takeEffect c tx = some c₁) (h : Reaches exec Forward c₁ c₂)
    (h₂ : takeEffect c₂ tx = some c₃) : ∃ d a d', Reaches exec Forward c₁ d ∧ exec d a = .ok d' ∧ Reaches exec Forward d' c₂ ∧
      Open d.env.now tx ∧ Holds d.store tx ∧ ¬Holds d'.store tx := by
  have hheld := holds_of_takeEffect hsetup h₁
  obtain ⟨_, _, _, _, hvalidated₁, -, -, henv⟩ := takeEffect_ok h₁
  obtain ⟨_, _, _, _, hvalidated₂, -, -, -⟩ := takeEffect_ok h₂
  obtain ⟨hopen₁, -, -⟩ := validate_setup hsetup hvalidated₁
  obtain ⟨hopen₂, hfree, -⟩ := validate_setup hsetup hvalidated₂
  obtain ⟨d, a, d', hbefore, hforward, hok, hafter, hholds, hlost⟩ := h.exists_loss (P := fun c => Holds c.store tx) hheld hfree
  refine ⟨d, a, d', hbefore, hok, hafter, hopen₁.between hopen₂ ?_ ?_, hholds, hlost⟩
  · have hle := forward_le hbefore
    rwa [henv] at hle
  · exact (forward_le (Reaches.tail (Reaches.refl d) hforward hok)).trans (forward_le hafter)

/-! ### Both pallets -/

/-- A setup transaction is accepted only while its tolerance lasts and where its pairing is not in place; and
where it takes effect again, a step has taken the pairing away in between, while the tolerance lasted. -/
theorem setups_take_turns (P : People.Config) (L : Config) :
    ((∀ env s (tx : People.Transaction P) origin val, People.IsSetup tx → People.validate env s tx = .ok (origin, val) →
        People.Open env.now tx ∧ ¬People.Holds s tx) ∧
      ∀ c c₁ c₂ c₃ (tx : People.Transaction P), People.IsSetup tx → People.takeEffect c tx = some c₁ →
        Reaches People.exec People.Forward c₁ c₂ → People.takeEffect c₂ tx = some c₃ →
        ∃ d a d', Reaches People.exec People.Forward c₁ d ∧ People.exec d a = .ok d' ∧
          Reaches People.exec People.Forward d' c₂ ∧ People.Open d.env.now tx ∧
          People.Holds d.store tx ∧ ¬People.Holds d'.store tx) ∧
    (∀ env s (tx : Transaction L) origin val, IsSetup tx → PeopleLiteAuth.validate env s tx = .ok (origin, val) →
        Open env.now tx ∧ ¬Holds s tx) ∧
      ∀ c c₁ c₂ c₃ (tx : Transaction L), IsSetup tx → takeEffect c tx = some c₁ → Reaches exec Forward c₁ c₂ →
        takeEffect c₂ tx = some c₃ →
        ∃ d a d', Reaches exec Forward c₁ d ∧ exec d a = .ok d' ∧ Reaches exec Forward d' c₂ ∧
          Open d.env.now tx ∧ Holds d.store tx ∧ ¬Holds d'.store tx := by
  refine ⟨⟨fun env s tx origin val hsetup hok => ?_, fun c c₁ c₂ c₃ tx hsetup h₁ h h₂ => People.setup_lost hsetup h₁ h h₂⟩,
    fun env s tx origin val hsetup hok => ?_, fun c c₁ c₂ c₃ tx hsetup h₁ h h₂ => setup_lost hsetup h₁ h h₂⟩
  · obtain ⟨hopen, hfree, -⟩ := People.validate_setup hsetup hok
    exact ⟨hopen, hfree⟩
  · obtain ⟨hopen, hfree, -⟩ := validate_setup hsetup hok
    exact ⟨hopen, hfree⟩

/-! ### Sample runs -/

/-- The members are a list of keys; a proof names its key and what it signs. -/
def sampleSetupService : MemberService where
  toMemberService := People.sampleService
  memberStatus w key := List.contains (α := Nat) w key

def sampleSetupConfig : Config where
  memberService := sampleSetupService
  AccountId := Nat
  accountDecEq := inferInstance
  Signature := Nat
  AttestationSignature := Nat
  Registrar := Unit
  verifySignature signature _ key := Nat.beq signature key
  verifyAttestation signature _ account := Nat.beq signature account
  registerConsumer _ _ _ _ _ := some ()
  litePeopleAuthContext := (1 : Nat)
  attestMessage _ _ := (0 : Nat)
  signingPayload _ _ _ _ _ := (0 : Nat)
  reviseMessage message _ _ := message

def sampleSetupChain : Chain sampleSetupConfig := genesis (T := sampleSetupConfig) ([] : List Nat) () ⟨0, fun _ => true⟩

def sampleEnrolment : List (Action sampleSetupConfig) :=
  [.onPoll, .submit ⟨.manager, none, .increaseAttestationAllowance (9 : Nat) 3, (0 : Nat)⟩,
    .submit ⟨.signed (9 : Nat), none, .attest (1 : Nat) (1 : Nat) (5 : Nat) (5 : Nat) none, (0 : Nat)⟩]

/-- The lite person gives its alias an account. -/
def sampleSetup : Transaction sampleSetupConfig :=
  ⟨.none, some (.asLiteAliasWithProof ((5 : Nat), (2 : Nat)) 0 (1 : Nat)), .setAliasAccount (8 : Nat) 0, (2 : Nat)⟩

/-- The alias takes the account away again. -/
def sampleUnset : Transaction sampleSetupConfig :=
  ⟨.signed (8 : Nat), some (.asLiteAliasWithAccount 0), .unsetAliasAccount, (3 : Nat)⟩

instance (c : Chain T) : ∀ a : Action T, Decidable (Forward c a)
  | .elsewhere _ _ env => inferInstanceAs (Decidable (c.env.now ≤ env.now))
  | .submit _ | .dispatch _ _ | .onPoll => isTrue trivial

/-- The setup takes effect, its pairing is taken away, and it takes effect again: the account has the alias
once more, and nobody has signed anything but the setup and the removal. -/
theorem exists_replay : ∃ c c₁ c₂ c₃ : Chain sampleSetupConfig,
    Reaches exec Forward sampleSetupChain c ∧ IsSetup sampleSetup ∧ takeEffect c sampleSetup = some c₁ ∧
      exec c₁ (.submit sampleUnset) = .ok c₂ ∧ c₂.store.accountToAlias.contains (8 : Nat) = false ∧
      takeEffect c₂ sampleSetup = some c₃ ∧ c₃.store.accountToAlias.contains (8 : Nat) = true := by
  obtain ⟨c, hreach, hreplay⟩ := exists_reaches exec Forward sampleSetupChain sampleEnrolment
    (fun c => ((takeEffect c sampleSetup).bind fun c₁ => (exec c₁ (.submit sampleUnset)).toOption).any (fun c₂ =>
      !c₂.store.accountToAlias.contains (8 : Nat) &&
        (takeEffect c₂ sampleSetup).any fun c₃ => c₃.store.accountToAlias.contains (8 : Nat)) = true) (by decide +kernel)
  obtain ⟨c₂, hc₂, hreplay⟩ := (Option.any_eq_true _ _).mp hreplay
  obtain ⟨c₁, h₁, hunset⟩ := Option.bind_eq_some_iff.mp hc₂
  obtain ⟨hfree, hreplay⟩ := (Bool.and_eq_true _ _).mp hreplay
  obtain ⟨c₃, h₃, hbound⟩ := (Option.any_eq_true _ _).mp hreplay
  exact ⟨c, c₁, c₂, c₃, hreach, .liteAlias rfl rfl, h₁, toOption_eq_some.mp hunset, by simpa using hfree, h₃, hbound⟩

theorem setups_take_turns_sample : ∃ c₁ d a d', exec d a = .ok d' ∧ Reaches exec Forward c₁ d ∧
    Holds c₁.store sampleSetup ∧ Open d.env.now sampleSetup ∧ ¬Holds d'.store sampleSetup := by
  obtain ⟨c, c₁, c₂, c₃, -, hsetup, h₁, hunset, -, h₃, -⟩ := exists_replay
  have hrun : Reaches exec Forward c₁ c₂ := (Reaches.refl c₁).tail (i := .submit sampleUnset) trivial hunset
  obtain ⟨d, a, d', hbefore, hok, -, hopen, -, hlost⟩ := (setups_take_turns People.sampleConfig sampleSetupConfig).2.2
    c c₁ c₂ c₃ sampleSetup hsetup h₁ hrun h₃
  exact ⟨c₁, d, a, d', hok, hbefore, holds_of_takeEffect hsetup h₁, hopen, hlost⟩

end Individuality.PeopleLite
