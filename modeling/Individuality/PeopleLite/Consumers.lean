import Individuality.PeopleLite.Bindings
import Individuality.Resources.Effects

/-! Lite people as consumers.

The registrar of the people-lite pallet is the resources pallet (`ConsumerConfig.lite`),
which registers whomever it is told to and leaves it to its callers that this is a lite
person. Its own transactions go through the people-lite extension; an attestation names
the account to register beside its candidate, so the runs considered are those whose
attestations name the candidate or a lite person (`Call.RegistersPeople`). Then every
consumer is a lite person, and a verifier has registered no more consumers than it has
attested people (`Registered`). -/
namespace Individuality.Resources
open Support
variable {T : Config} {c : Chain T} {tx : Transaction T} {s' : Store T} {who : T.AccountId}

theorem litePerson_of_validate {w : T.memberService.World} {now : Nat} {s : Store T}
    (h : validate w now s tx = .ok (.litePerson who)) : tx.signer = .litePerson who := by
  rcases validate_ok h with h | ⟨info, -, h⟩
  · unfold authorizeCall at h
    split at h
    · split at h
      · rename_i check _
        cases check with
        | error e => cases h
        | ok _ => cases h
      · cases h
    · cases h
    · cases h
    · rename_i account hsigner
      cases h
      exact hsigner
    · cases h
    · cases h
  · exfalso
    generalize tx.call = call at h
    cases h

/-- A registration makes a consumer of the account that it names. -/
theorem consumers_of_registrar {key : Vector UInt8 65} {username : Username} {reserved : Option Username}
    {account : T.AccountId} {c' : Chain T} (h : exec c (.registrar account key username reserved) = .ok c')
    (hget : c'.store.consumers.contains who = true) : c.store.consumers.contains who = true ∨ who = account := by
  simp only [exec, bind_eq_ok, mapError_eq_ok, pure_eq_ok] at h
  obtain ⟨s', hs, rfl⟩ := h
  obtain ⟨s, -, -, -, hqueued, rfl⟩ := registerLiteConsumerInner_ok hs
  obtain ⟨queues, reservations, rfl⟩ := hqueued.eq
  by_cases hwho : who = account
  · exact .inr hwho
  · refine .inl (hget.symm.trans ?_).symm
    exact congrArg Option.isSome ((StorageMap.get_insert _ _ _ _).trans (if_neg hwho))

/-- Only a lite person's own transaction makes it a consumer. -/
theorem consumers_of_submit (h : submit c tx = .ok s') (hget : s'.consumers.contains who = true) :
    c.store.consumers.contains who = true ∨ tx.signer = .litePerson who := by
  have hset : ∀ {account : T.AccountId} {info info' : ConsumerInfo T}, c.store.consumers.get account = some info →
      (c.store.consumers.insert account info').contains who = true → c.store.consumers.contains who = true := by
    intro account info info' hinfo hcontains
    rw [StorageMap.contains, StorageMap.get_insert] at hcontains
    split at hcontains
    · rename_i heq
      exact StorageMap.contains_eq_true.mpr ⟨info, heq ▸ hinfo⟩
    · exact hcontains
  have heffect := submit_effect h
  generalize haction : Action.submit tx = a at heffect
  cases heffect with
  | @enrolled _ account key username reserved s hcall hnew howner hvalid hqueued =>
    rcases hcall with hcall | ⟨tx', hcall, hregister⟩
    · cases haction.trans hcall
    · cases haction.trans hcall
      simp only [submit, bind_eq_ok, mapError_eq_ok] at h
      obtain ⟨origin, hvalidated, h⟩ := h
      rw [hregister] at h
      cases origin with
      | litePerson account' =>
        have hsigner := litePerson_of_validate hvalidated
        simp only [dispatch, registerLitePerson] at h
        split at h
        · rename_i heq
          cases h
          obtain ⟨t, -, -, -, hqueued', hs⟩ := registerLiteConsumerInner_ok (wrap_ok heq)
          obtain ⟨queues, reservations, rfl⟩ := hqueued'.eq
          rw [hs] at hget
          by_cases hwho : who = account'
          · exact .inr (hwho ▸ hsigner)
          · refine .inl (hget.symm.trans ?_).symm
            exact congrArg Option.isSome ((StorageMap.get_insert _ _ _ _).trans (if_neg hwho))
        · cases h
      | _ => cases h
  | upgraded _ _ hinfo _ hfreed =>
    obtain ⟨queues, reservations, rfl⟩ := hfreed.eq
    exact .inl (hset hinfo hget)
  | touched _ _ hinfo _ =>
    split at hget
    · exact .inl (hset hinfo hget)
    · exact .inl (hset hinfo hget)
  | demoted _ hinfo _ => exact .inl (hset hinfo hget)
  | keyed _ hinfo => exact .inl (hset hinfo hget)
  | slotSet _ _ _ _ _ hrevoked =>
    rcases hrevoked with ⟨-, rfl⟩ | ⟨entry, -, -, rfl⟩
    · exact .inl hget
    · exact .inl hget
  | slotsCleared _ _ =>
    refine .inl ?_
    obtain ⟨entries, reverse, granted, heq⟩ := foldl_drainEntry_eq (T := T) _ c.store
    rw [heq] at hget
    exact hget
  | _ => exact .inl hget

end Individuality.Resources

namespace Individuality.PeopleLite
open Support

/-- The pallets' configuration. -/
structure ConsumerConfig where
  resources : Resources.Config
  memberService : MemberService
  Signature : Type
  AttestationSignature : Type
  verifySignature : Signature → memberService.Message → memberService.Member → Bool
  verifyAttestation : AttestationSignature → memberService.Message → resources.AccountId → Bool
  litePeopleAuthContext : memberService.Context
  attestMessage : resources.AccountId → memberService.Member → memberService.Message
  signingPayload : resources.AccountId → resources.AccountId → Vector UInt8 65 → List UInt8 →
    Option Resources.Username → memberService.Message
  reviseMessage : memberService.Message → resources.AccountId → Nat → memberService.Message

namespace ConsumerConfig
variable (J : ConsumerConfig)

abbrev lite : Config where
  memberService := J.memberService
  AccountId := J.resources.AccountId
  accountDecEq := J.resources.accountDecEq
  Signature := J.Signature
  AttestationSignature := J.AttestationSignature
  Registrar := Resources.Chain J.resources
  verifySignature := J.verifySignature
  verifyAttestation := J.verifyAttestation
  registerConsumer c account identifierKey username reserved :=
    (Resources.exec c (.registrar account identifierKey username reserved)).toOption
  litePeopleAuthContext := J.litePeopleAuthContext
  attestMessage := J.attestMessage
  signingPayload := J.signingPayload
  reviseMessage := J.reviseMessage

end ConsumerConfig

variable {J : ConsumerConfig}

/-- A transaction of the resources pallet comes from whom the people-lite extension has found; the
other extensions may find a person. -/
def Origin.backs : Origin J.lite → Resources.Signer J.resources → Bool
  | .litePerson who, .litePerson account => decide (who = account)
  | _, .litePerson _ => false
  | .signed who, .signed account => decide (who = account)
  | _, .signed _ => false
  | _, _ => true

/-- The clock of the resources pallet and its members. -/
def isOutside : Resources.Action J.resources → Bool
  | .elapse _ | .elsewhere _ => true
  | _ => false

variable (J) in
inductive ConsumerMove
  | lite (a : Action J.lite)
  | resources (tx : Transaction J.lite) (resourcesTx : Resources.Transaction J.resources)
  | clock (a : Resources.Action J.resources)
  | outside (members : J.memberService.World) (env : Env J.lite)

def Store.consumers (s : Store J.lite) : StorageMap J.resources.AccountId (Resources.ConsumerInfo J.resources) :=
  s.registrar.store.consumers

def Call.isOther {T : Config} : Call T → Bool
  | .other => true
  | _ => false

/-- A transaction of the resources pallet under the origin that the people-lite extension gives it. -/
def submitResources (env : Env J.lite) (s : Store J.lite) (tx : Transaction J.lite)
    (resourcesTx : Resources.Transaction J.resources) : Except Refusal (Store J.lite) := do
  let (origin, val) ← (PeopleLiteAuth.validate env s tx).mapError .invalid
  ensure (tx.call.isOther = true ∧ origin.backs resourcesTx.signer = true) (.failed .badOrigin)
  let s ← (PeopleLiteAuth.prepare s val).mapError .invalid
  match Resources.exec s.registrar (.submit resourcesTx) with
  | .ok registrar => return { s with registrar := registrar }
  | .error _ => return s

def consumerMove (c : Chain J.lite) : ConsumerMove J → Except Refusal (Chain J.lite)
  | .lite a => do
    ensure (a.isOwn = true) (.failed .badOrigin)
    exec c a
  | .resources tx resourcesTx => do
    let s ← submitResources c.env c.store tx resourcesTx
    return { c with store := s }
  | .clock a => do
    ensure (isOutside a = true) (.failed .badOrigin)
    let registrar ← (Resources.exec c.store.registrar a).mapError fun _ => .failed .registrar
    return { c with store := { c.store with registrar := registrar } }
  | .outside members env => .ok ⟨{ c.store with members := members }, env⟩

def consumerGenesis (members : J.memberService.World) (now : Nat) (w : J.resources.memberService.World)
    (env : Env J.lite) : Chain J.lite :=
  genesis (T := J.lite) members (Resources.genesis now w) env

/-! ### Registrations -/

/-- A registration is for the candidate, or for a lite person. -/
def Call.RegistersPeople {T : Config} (s : Store T) : Call T → Prop
  | .attest candidate _ _ _ (some params) => params.account = candidate ∨ s.litePeople.contains params.account = true
  | .dispatchAsSigner call => call.RegistersPeople s
  | _ => True

def RegistersPeople (c : Chain J.lite) : ConsumerMove J → Prop
  | .lite a => ∀ t origin call, performed c a = some (t, origin, call) → call.RegistersPeople t
  | _ => True

/-- Count the consumers that verifiers register. -/
def countRegistrations {T : Config} : Origin T → Call T → (T.AccountId → Nat) → T.AccountId → Nat
  | .signed verifier, .attest _ _ _ _ (some _), counts => Function.update counts verifier (counts verifier + 1)
  | .litePerson who, .dispatchAsSigner call, counts => countRegistrations (.signed who) call counts
  | _, _, counts => counts

def noteRegistrations (c : Chain J.lite) (m : ConsumerMove J) (_ : Chain J.lite)
    (counts : J.resources.AccountId → Nat) : J.resources.AccountId → Nat :=
  match m with
  | .lite a =>
    match performed c a with
    | some (_, origin, call) => countRegistrations origin call counts
    | none => counts
  | _ => counts

/-- The lite people that a verifier has attested. -/
def Store.attestedBy {T : Config} (s : Store T) (verifier : T.AccountId) : Nat :=
  s.litePeople.countOf fun _ info =>
    match info.method with
    | .uniqueDevice by_ => decide (by_ = verifier)

/-! ### Consumers are lite people -/

structure Consuming (s : Store J.lite) (counts : J.resources.AccountId → Nat) : Prop where
  people : ∀ account, s.consumers.contains account = true → s.litePeople.contains account = true
  counted : ∀ verifier, counts verifier ≤ s.attestedBy verifier

/-- A new lite person counts for its verifier. -/
theorem attestedBy_enter {T : Config} {s : Store T} {verifier candidate : T.AccountId} {key : T.Member}
    {members : T.memberService.World} {registrar : T.Registrar} (hfresh : s.litePeople.get candidate = none)
    (v : T.AccountId) : (enter s verifier candidate key members registrar).attestedBy v =
      s.attestedBy v + if verifier = v then 1 else 0 := by
  have hcount := StorageMap.countOf_insert s.litePeople (fun _ info =>
    match info.method with
    | .uniqueDevice by_ => decide (by_ = v)) candidate ⟨key, .uniqueDevice verifier⟩
  simp only [StorageMap.countAt, hfresh, Option.any_none, Bool.false_eq_true, if_false, Nat.add_zero,
    decide_eq_true_eq] at hcount
  exact hcount

namespace Consuming
variable {s s' t : Store J.lite} {c c' : Chain J.lite} {counts : J.resources.AccountId → Nat}

theorem genesis {members : J.memberService.World} {now : Nat} {w : J.resources.memberService.World} {env : Env J.lite} :
    Consuming (consumerGenesis members now w env).store fun _ => 0 := ⟨fun _ h => (by cases h), fun _ => Nat.zero_le _⟩

/-- Lite people stay, and no one becomes a consumer. -/
theorem of_frame (h : Consuming s counts) (hlite : s'.litePeople = s.litePeople)
    (hconsumers : ∀ account, s'.consumers.contains account = true → s.consumers.contains account = true) :
    Consuming s' counts := by
  refine ⟨fun account hget => ?_, fun verifier => ?_⟩
  · rw [hlite]
    exact h.people account (hconsumers account hget)
  · rw [Store.attestedBy, hlite]
    exact h.counted verifier

theorem prepared (h : Consuming s counts) (ht : Prepared s t) : Consuming t counts := by
  cases ht with
  | nonces nonces => exact h.of_frame rfl fun _ hget => hget
  | revised nonces _ _ => exact h.of_frame rfl fun _ hget => hget

/-- A consumer whom an attestation brings along is its candidate, or a lite person already. -/
theorem enter {verifier candidate : J.resources.AccountId} {signature : J.AttestationSignature} {key : J.lite.Member}
    {proof : J.Signature} {members : J.memberService.World} {registrar : Resources.Chain J.resources}
    {consumerRegistration : Option (LiteConsumerRegistrationParams J.lite)} (h : Consuming s counts)
    (hattested : Attested s verifier candidate key consumerRegistration members registrar)
    (hregisters : Call.RegistersPeople s (.attest candidate signature key proof consumerRegistration)) :
    Consuming (PeopleLite.enter s verifier candidate key members registrar)
      (countRegistrations (.signed verifier) (.attest candidate signature key proof consumerRegistration) counts) := by
  have hcandidate : ∀ account, account = candidate ∨ s.litePeople.contains account = true →
      (PeopleLite.enter s verifier candidate key members registrar).litePeople.contains account = true := by
    intro account haccount
    show ((s.litePeople.insert candidate _).get account).isSome = true
    rw [StorageMap.get_insert]
    split
    · rfl
    · rename_i hne
      exact haccount.resolve_left hne
  have hregistered := hattested.registered
  cases consumerRegistration with
  | none =>
    cases hregistered
    refine ⟨fun account hget => hcandidate account (.inr (h.people account hget)), fun v => ?_⟩
    rw [attestedBy_enter hattested.fresh]
    exact Nat.le_add_right_of_le (h.counted v)
  | some params =>
    obtain ⟨-, hregistered⟩ := hregistered
    refine ⟨fun account hget => ?_, fun v => ?_⟩
    · rcases Resources.consumers_of_registrar (toOption_eq_some.mp hregistered) hget with hold | hnew
      · exact hcandidate account (.inr (h.people account hold))
      · exact hcandidate account (hnew ▸ hregisters)
    · have hcounted := h.counted v
      rw [attestedBy_enter hattested.fresh, countRegistrations, Function.update_apply]
      by_cases hv : v = verifier
      · rw [if_pos hv, if_pos hv.symm, ← hv]
        exact Nat.add_le_add_right hcounted 1
      · rw [if_neg hv]
        exact Nat.le_add_right_of_le hcounted

theorem dispatched {env : Env J.lite} {origin : Origin J.lite} {call : Call J.lite} (h : Consuming s counts)
    (hregisters : call.RegistersPeople s) (hd : Dispatch env s origin call s') :
    Consuming s' (countRegistrations origin call counts) := by
  induction hd with
  | increase => exact h.of_frame rfl fun _ hget => hget
  | clear => exact h.of_frame rfl fun _ hget => hget
  | attest hattested => exact h.enter hattested hregisters
  | asSigner _ ih => exact ih hregisters
  | setAlias _ _ hpaired =>
    cases hpaired with
    | again _ => exact h.of_frame rfl fun _ hget => hget
    | moved _ _ _ _ => exact h.of_frame rfl fun _ hget => hget
    | fresh _ _ => exact h.of_frame rfl fun _ hget => hget
  | unsetAlias _ => exact h.of_frame rfl fun _ hget => hget
  | @other origin =>
    cases origin with
    | _ => exact h

theorem lite {a : Action J.lite} (h : Consuming c.store counts) (c' : Chain J.lite)
    (hregisters : PeopleLite.RegistersPeople c (.lite a)) (hown : a.isOwn = true) (happly : apply c a = .ok s') :
    Consuming s' (noteRegistrations c (.lite a) c' counts) := by
  cases apply_ok happly with
  | @performed t origin call hperformed ht hd =>
    have hconsuming : Consuming t counts := by
      rcases ht with rfl | ht
      · exact h
      · exact h.prepared ht
    simp only [noteRegistrations, hperformed]
    exact hconsuming.dispatched (hregisters _ _ _ hperformed) hd
  | prepared hperformed ht =>
    simp only [noteRegistrations, hperformed]
    exact h.prepared ht
  | polled ha hs' =>
    subst ha hs'
    show Consuming (onPoll c.store) counts
    unfold onPoll
    split
    · exact h
    · split
      · exact h.of_frame rfl fun _ hget => hget
      · exact h
  | elsewhere ha _ =>
    subst ha
    cases hown

/-- A transaction under the origin of a lite person makes a consumer of a lite person. -/
theorem resources {env : Env J.lite} {tx : Transaction J.lite} {resourcesTx : Resources.Transaction J.resources}
    (h : Consuming s counts) (hok : submitResources env s tx resourcesTx = .ok s') : Consuming s' counts := by
  simp only [submitResources, bind_eq_ok, ensure_eq_ok, mapError_eq_ok] at hok
  obtain ⟨⟨origin, val⟩, hvalidated, -, ⟨-, hbacks⟩, t, hprepared, hok⟩ := hok
  have ht := h.prepared (prepared_of_validate hvalidated hprepared)
  have hsame : t.registrar = s.registrar ∧ t.litePeople = s.litePeople := by
    cases prepared_of_validate hvalidated hprepared with
    | nonces _ => exact ⟨rfl, rfl⟩
    | revised _ _ _ => exact ⟨rfl, rfl⟩
  split at hok
  · rename_i registrar hexec
    cases hok
    refine ⟨fun account hget => ?_, ht.counted⟩
    simp only [Resources.exec, bind_eq_ok, pure_eq_ok] at hexec
    obtain ⟨u, hu, rfl⟩ := hexec
    rcases Resources.consumers_of_submit hu hget with hold | hsigner
    · exact ht.people account hold
    · rw [hsigner] at hbacks
      cases validate_ok hvalidated with
      | plain => cases hsigner : tx.signer <;> rw [hsigner] at hbacks <;> cases hbacks
      | litePerson hlite =>
        show t.litePeople.contains account = true
        rw [hsame.2, ← of_decide_eq_true hbacks]
        exact hlite
      | aliasAccount _ => cases hbacks
      | aliasProof _ _ _ _ _ => cases hbacks
      | aliasRevised _ _ _ => cases hbacks
  · cases hok
    exact ht

theorem move {m : ConsumerMove J} (h : Consuming c.store counts) (hregisters : PeopleLite.RegistersPeople c m)
    (hok : consumerMove c m = .ok c') : Consuming c'.store (noteRegistrations c m c' counts) := by
  cases m with
  | lite a =>
    simp only [consumerMove, bind_eq_ok, ensure_eq_ok] at hok
    obtain ⟨-, hown, hok⟩ := hok
    obtain ⟨s', happly, hstore⟩ := exec_ok hok
    rw [hstore]
    exact h.lite c' hregisters hown happly
  | resources tx resourcesTx =>
    simp only [consumerMove, bind_eq_ok, pure_eq_ok] at hok
    obtain ⟨s, hs, rfl⟩ := hok
    exact h.resources hs
  | clock a =>
    simp only [consumerMove, bind_eq_ok, ensure_eq_ok, mapError_eq_ok, pure_eq_ok] at hok
    obtain ⟨-, houtside, registrar, hregistrar, rfl⟩ := hok
    have hstore : registrar.store = c.store.registrar.store := by
      cases a with
      | elapse now =>
        simp only [Resources.exec, bind_eq_ok, pure_eq_ok] at hregistrar
        obtain ⟨-, -, rfl⟩ := hregistrar
        rfl
      | elsewhere w =>
        cases hregistrar
        rfl
      | registrar account key username reserved => cases houtside
      | submit resourcesTx => cases houtside
    refine h.of_frame rfl fun account hget => ?_
    rw [Store.consumers, hstore] at hget
    exact hget
  | outside members env =>
    cases hok
    exact h.of_frame rfl fun _ hget => hget

end Consuming

/-- In every state that a run reaches whose attestations register their candidates or lite people, every
consumer is a lite person, and a verifier has registered no more consumers than it has attested people. -/
theorem consumers_are_people {members : J.memberService.World} {now : Nat} {w : J.resources.memberService.World}
    {env : Env J.lite} {x : Chain J.lite × (J.resources.AccountId → Nat)}
    (h : Reaches (noting consumerMove noteRegistrations) (fun x m => RegistersPeople x.1 m)
      (consumerGenesis members now w env, fun _ => 0) x) :
    (∀ account, x.1.store.consumers.contains account = true → x.1.store.litePeople.contains account = true) ∧
      ∀ verifier, x.2 verifier ≤ x.1.store.attestedBy verifier := by
  have hconsuming := Reaches.noted
    (I := fun (c : Chain J.lite) (counts : J.resources.AccountId → Nat) => Consuming c.store counts) h Consuming.genesis
    fun c counts m c' hc hregisters hok => hc.move hregisters hok
  exact ⟨hconsuming.people, hconsuming.counted⟩

/-! ### Sample runs -/

instance Call.decidableRegistersPeople {T : Config} (s : Store T) : ∀ call : Call T, Decidable (call.RegistersPeople s)
  | .attest candidate _ _ _ (some params) =>
    inferInstanceAs (Decidable (params.account = candidate ∨ s.litePeople.contains params.account = true))
  | .attest _ _ _ _ none => isTrue trivial
  | .dispatchAsSigner call => Call.decidableRegistersPeople s call
  | .increaseAttestationAllowance _ _ | .clearAttestationAllowance _ | .setAliasAccount _ _ | .unsetAliasAccount
  | .other => isTrue trivial

def registersPeople (c : Chain J.lite) : ConsumerMove J → Bool
  | .lite a => (performed c a).all fun p => decide (p.2.2.RegistersPeople p.1)
  | _ => true

theorem registersPeople_of {c : Chain J.lite} {m : ConsumerMove J} (h : registersPeople c m = true) :
    RegistersPeople c m := by
  cases m with
  | lite a =>
    intro t origin call heq
    simp only [registersPeople, heq, Option.all_some, decide_eq_true_eq] at h
    exact h
  | _ => trivial

/-- The members are a list of keys, and nothing proves membership. -/
def sampleService : MemberService where
  World := List Nat
  Member := Nat
  Proof := Nat
  Message := Nat
  Context := Nat
  Alias := Nat
  memberDecEq := inferInstance
  contextDecEq := inferInstance
  aliasDecEq := inferInstance
  createCollection w := some w
  addMembers w keys := some (keys ++ w)
  removeMembers w _ := (w, false)
  ringRevision _ _ := some 0
  verifyMembership _ _ _ _ _ := none
  memberStatus w key := w.contains key

/-- A signature is its key, or its account. -/
def sampleConsumerConfig : ConsumerConfig where
  resources := Resources.sampleConfig
  memberService := sampleService
  Signature := Nat
  AttestationSignature := Nat
  verifySignature signature _ key := Nat.beq signature key
  verifyAttestation signature _ account := Nat.beq signature account
  litePeopleAuthContext := (1 : Nat)
  attestMessage _ _ := (0 : Nat)
  signingPayload _ _ _ _ _ := (0 : Nat)
  reviseMessage message _ _ := message

def sampleConsumerChain : Chain sampleConsumerConfig.lite :=
  consumerGenesis (J := sampleConsumerConfig) ([] : List Nat) 0 (fun _ => []) ⟨0, fun _ => true⟩

def sampleUsername : Resources.Username := (BoundedVec.tryFrom (ascii "a.12")).getD BoundedVec.nil

/-- An account is attested, and an account is registered with it that has signed for that. -/
def sampleRegistration (candidate account : Nat) : List (ConsumerMove sampleConsumerConfig) :=
  [.lite .onPoll, .lite (.submit ⟨.manager, none, .increaseAttestationAllowance (9 : Nat) 3, (0 : Nat)⟩),
    .lite (.submit ⟨.signed (9 : Nat), none, .attest candidate candidate (5 : Nat) (5 : Nat)
      (some ⟨account, account, Vector.replicate 65 0, sampleUsername, none⟩), (0 : Nat)⟩)]

theorem consumers_are_people_sample : ∃ x, Reaches (noting consumerMove noteRegistrations)
      (fun x m => RegistersPeople x.1 m) (sampleConsumerChain, fun _ => 0) x ∧
    (x.1.store.consumers.contains (1 : Nat) = true ∧ x.1.store.litePeople.contains (1 : Nat) = true) ∧
    x.2 (9 : Nat) ≤ x.1.store.attestedBy (9 : Nat) := by
  obtain ⟨x, hreach, hconsumer⟩ := exists_reaches (noting consumerMove noteRegistrations)
    (fun x m => registersPeople x.1 m = true) (sampleConsumerChain, fun _ => 0) (sampleRegistration 1 1)
    (fun x => x.1.store.consumers.contains (1 : Nat) = true) (by decide +kernel)
  have hreach := hreach.mono fun x m hm => registersPeople_of hm
  obtain ⟨hpeople, hcounted⟩ := consumers_are_people hreach
  exact ⟨x, hreach, ⟨hconsumer, hpeople (1 : Nat) hconsumer⟩, hcounted (9 : Nat)⟩

/-- Another account than the candidate's is registered, and is no lite person. -/
theorem consumers_are_people_fails : ∃ x, Reaches (noting consumerMove noteRegistrations) (fun _ _ => True)
      (sampleConsumerChain, fun _ => 0) x ∧
    x.1.store.consumers.contains (3 : Nat) = true ∧ x.1.store.litePeople.contains (3 : Nat) = false :=
  exists_reaches (noting consumerMove noteRegistrations) (fun _ _ => True) (sampleConsumerChain, fun _ => 0)
    (sampleRegistration 1 3)
    (fun x => x.1.store.consumers.contains (3 : Nat) = true ∧ x.1.store.litePeople.contains (3 : Nat) = false)
    (by decide +kernel)

end Individuality.PeopleLite
