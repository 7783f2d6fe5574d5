import Individuality.PeoplePaseo.Extensions
import Individuality.OriginRestriction.RateLimit
import Individuality.People.Effects
import Individuality.PeopleLite.Effects
import Individuality.ProofOfInk.Books

/-! Free rides.

A signed transaction whose origin an extension replaces pays no fee: what it costs is
charged to the restricted entity of its origin, and no more than the allowance of the entity
goes through (`free_rides_limited`). The origins of invited candidates and of lite aliases
have no entity: what they cost is charged to nobody. -/
namespace Individuality.PeoplePaseo
open Support
open OriginRestriction (extrinsicFee noteCharge netCharges netCharges_charged netCharges_sublist MeteredIn)
variable {R : Config}

/-! ### Whose transactions pay no fee -/

namespace OriginCaller

def isFree : OriginCaller R → Bool
  | .personalIdentity _ | .personalAlias _ | .referredCandidate _ | .invitedCandidate _ | .accountParticipant _
  | .litePerson _ | .liteAlias _ => true
  | _ => false

/-- An invited candidate's, or a lite alias's. -/
def isOverlooked : OriginCaller R → Bool
  | .invitedCandidate _ | .liteAlias _ => true
  | _ => false

/-- No extension has replaced it. -/
def isSystem : OriginCaller R → Bool
  | .none | .signed _ => true
  | _ => false

end OriginCaller

namespace Transaction

def asksInvited (tx : Transaction R) : Bool :=
  match tx.asProofOfInkParticipant with
  | some (.asInvited _) => true
  | _ => false

def asksLiteAlias (tx : Transaction R) : Bool :=
  match tx.peopleLiteAuth with
  | none | some (.asLitePerson _) => false
  | some _ => true

/-- It asks to be dispatched as an invited candidate, or as a lite alias. -/
def isOverlooked (tx : Transaction R) : Bool := tx.asksInvited || tx.asksLiteAlias

end Transaction

section Extensions
variable {now : Nat} {p : Pallets R} {tx : Transaction R} {origin origin' : OriginCaller R}

theorem isSystem_of_asProofOfInk {who : R.AccountId} (h : origin.asProofOfInk = .signed who) : origin.isSystem = true := by
  cases origin <;> first | rfl | cases h

theorem isSystem_of_asPeopleLite (h : origin.asPeopleLite ≠ .manager) : origin.isSystem = true := by
  cases origin <;> first | rfl | exact absurd rfl h

theorem isOverlooked_of_isSystem (h : origin.isSystem = true) : origin.isOverlooked = false := by
  cases origin <;> first | rfl | cases h

theorem asPerson_ok {val : People.Val R.people} (hok : asPerson now p tx origin = .ok (origin', val)) :
    origin' = origin ∨ (∃ id, origin' = .personalIdentity id) ∨ ∃ revCa, origin' = .personalAlias revCa := by
  unfold asPerson at hok
  split at hok
  · cases hok
    exact .inl rfl
  · simp only [bind_eq_ok, mapError_eq_ok, pure_eq_ok] at hok
    obtain ⟨⟨o, v⟩, hvalidate, heq⟩ := hok
    cases heq
    cases People.validate_ok hvalidate with
    | plain hnone => cases hnone
    | identityAccount => exact .inr (.inl ⟨_, rfl⟩)
    | identityProof => exact .inr (.inl ⟨_, rfl⟩)
    | _ => exact .inr (.inr ⟨_, rfl⟩)

/-- Each of the next extensions leaves an origin alone, or gives one of the system its own. -/
theorem asProofOfInkParticipant_ok {val : Option (R.AccountId × Nat)}
    (hok : asProofOfInkParticipant now p tx origin = .ok (origin', val)) :
    (origin' = origin ∧ tx.asksInvited = false) ∨ origin.isSystem = true ∧ ∃ who,
      ((origin' = .authorizedApplyWithSig who ∨ origin' = .referredCandidate who) ∧ tx.asksInvited = false) ∨
      origin' = .invitedCandidate who ∧ tx.asksInvited = true := by
  unfold asProofOfInkParticipant at hok
  split at hok
  · rename_i hnone
    cases hok
    exact .inl ⟨rfl, by simp only [Transaction.asksInvited, hnone]⟩
  · rename_i info hinfo
    simp only [bind_eq_ok, mapError_eq_ok, pure_eq_ok] at hok
    obtain ⟨⟨o, v⟩, hvalidate, heq⟩ := hok
    cases heq
    obtain ⟨who, hsigner, horigin⟩ := ProofOfInk.validate_asked rfl hvalidate
    refine .inr ⟨isSystem_of_asProofOfInk hsigner, who, ?_⟩
    rw [horigin]
    simp only [Transaction.asksInvited, hinfo]
    cases info with
    | asApplyWithSig nonce => exact .inl ⟨.inl rfl, rfl⟩
    | asReferred nonce => exact .inl ⟨.inr rfl, rfl⟩
    | asInvited nonce => exact .inr ⟨rfl, rfl⟩

theorem scoreAsParticipant_ok {val : Option (R.AccountId × Nat)}
    (hok : scoreAsParticipant now p tx origin = .ok (origin', val)) :
    origin' = origin ∨ origin.isSystem = true ∧ ∃ who, origin' = .accountParticipant who := by
  unfold scoreAsParticipant at hok
  split at hok
  · cases hok
    exact .inl rfl
  · split at hok
    · rename_i who
      simp only [bind_eq_ok, pure_eq_ok] at hok
      obtain ⟨-, -, -, -, heq⟩ := hok
      cases heq
      exact .inr ⟨rfl, who, rfl⟩
    · cases hok

theorem peopleLiteAuth_ok {val : PeopleLite.PeopleLiteAuthVal R.peopleLite}
    (hok : peopleLiteAuth now p tx origin = .ok (origin', val)) :
    (origin' = origin ∧ tx.asksLiteAlias = false) ∨ origin.isSystem = true ∧
      ((∃ who, origin' = .litePerson who ∧ tx.asksLiteAlias = false) ∨
        ∃ revCa, origin' = .liteAlias revCa ∧ tx.asksLiteAlias = true) := by
  unfold peopleLiteAuth at hok
  split at hok
  · rename_i hnone
    cases hok
    exact .inl ⟨rfl, by simp only [Transaction.asksLiteAlias, hnone]⟩
  · rename_i data hdata
    simp only [bind_eq_ok, mapError_eq_ok, pure_eq_ok] at hok
    obtain ⟨⟨o, v⟩, hvalidate, heq⟩ := hok
    cases heq
    obtain ⟨hsigner, hasked⟩ := PeopleLite.validate_asked rfl hvalidate
    refine .inr ⟨isSystem_of_asPeopleLite hsigner, ?_⟩
    simp only [Transaction.asksLiteAlias, hdata]
    rcases hasked with ⟨who, nonce, rfl, rfl⟩ | ⟨revCa, hnot, rfl⟩
    · exact .inl ⟨who, rfl, rfl⟩
    · refine .inr ⟨revCa, rfl, ?_⟩
      split
      · rename_i h
        cases h
      · rename_i nonce h
        cases h
        exact absurd rfl (hnot nonce)
      · rfl

theorem asOther_ok (hok : asOther tx origin = .ok origin') :
    origin' = origin ∨ origin.isSystem = true ∧ origin' = .other := by
  unfold asOther at hok
  split at hok
  · split at hok
    · cases hok
      exact .inr ⟨rfl, rfl⟩
    · cases hok
      exact .inr ⟨rfl, rfl⟩
    · cases hok
  · cases hok
    exact .inl rfl

/-- The two origins are given when they are asked for. -/
theorem isOverlooked_eq {vals : Vals R} (hok : validateOrigin now p tx = .ok (origin, vals)) :
    origin.isOverlooked = tx.isOverlooked := by
  simp only [validateOrigin, bind_eq_ok, pure_eq_ok] at hok
  obtain ⟨⟨o₁, _⟩, h₁, ⟨o₂, _⟩, h₂, ⟨o₃, _⟩, h₃, ⟨o₄, _⟩, h₄, _, h₅, heq⟩ := hok
  cases heq
  have h₁ : o₁.isOverlooked = false := by
    rcases asPerson_ok h₁ with rfl | ⟨id, rfl⟩ | ⟨revCa, rfl⟩
    · cases tx.signer <;> rfl
    · rfl
    · rfl
  have h₂ : o₂.isOverlooked = tx.asksInvited := by
    rcases asProofOfInkParticipant_ok h₂ with ⟨rfl, hasked⟩ | ⟨-, who, ⟨rfl | rfl, hasked⟩ | ⟨rfl, hasked⟩⟩
    · rw [hasked, h₁]
    · exact hasked.symm
    · exact hasked.symm
    · exact hasked.symm
  have h₃ : o₃.isOverlooked = o₂.isOverlooked := by
    rcases scoreAsParticipant_ok h₃ with rfl | ⟨hsystem, who, rfl⟩
    · rfl
    · exact (isOverlooked_of_isSystem hsystem).symm
  have h₄ : o₄.isOverlooked = (o₃.isOverlooked || tx.asksLiteAlias) := by
    rcases peopleLiteAuth_ok h₄ with ⟨rfl, hasked⟩ | ⟨hsystem, ⟨who, rfl, hasked⟩ | ⟨revCa, rfl, hasked⟩⟩
    · rw [hasked, Bool.or_false]
    · rw [hasked, isOverlooked_of_isSystem hsystem]
      rfl
    · rw [hasked, Bool.or_true]
      rfl
  have h₅ : origin.isOverlooked = o₄.isOverlooked := by
    rcases asOther_ok h₅ with rfl | ⟨hsystem, rfl⟩
    · rfl
    · exact (isOverlooked_of_isSystem hsystem).symm
  rw [h₅, h₄, h₃, h₂, Transaction.isOverlooked]

/-- They are the ones that pay no fee and have no entity. -/
theorem restrictedEntity_eq_none (hfree : origin.isFree = true) :
    RestrictedEntity.restrictedEntity origin = none ↔ origin.isOverlooked = true := by
  cases origin <;> simp [RestrictedEntity.restrictedEntity, OriginCaller.isOverlooked]
  all_goals cases hfree

end Extensions

/-! ### Rides -/

/-- A transaction without a fee: the origin it was dispatched with, the entity that it was charged to, and what
it was to pay and to get back. -/
structure Ride (R : Config) where
  tx : Transaction R
  origin : OriginCaller R
  entity : Option (RestrictedEntity R)
  block : Nat
  fee : Nat
  refund : Nat

namespace Chain

/-- The entity that the last extension charges. -/
def charged (c : Chain R) (tx : Transaction R) (origin : OriginCaller R) : Option (RestrictedEntity R) :=
  match OriginRestriction.RestrictOrigin.validate c.usages (tx.restricted origin) with
  | .ok (_, .charge _ entity) => some entity
  | _ => none

def fee (tx : Transaction R) : Nat := extrinsicFee (restriction R) tx.weight tx.len

def ride (c : Chain R) (tx : Transaction R) (info : OriginRestriction.PostDispatchInfo (restriction R)) :
    Option (Ride R) :=
  match validateOrigin c.now c.pallets tx with
  | .ok (origin, _) =>
    if tx.signer.isSome && origin.isFree then
      some ⟨tx, origin, c.charged tx origin, c.now, fee tx,
        OriginRestriction.RestrictOrigin.refund (restriction R) (fee tx) info tx.len⟩
    else none
  | .error _ => none

end Chain

def noteRide (c : Chain R) (a : Action R) (_ : Chain R) (rides : List (Ride R)) : List (Ride R) :=
  match a with
  | .transaction tx _ _ info => (c.ride tx info).toList ++ rides
  | _ => rides

/-- What the rides with an origin cost, net of the refunds. -/
def netRides (origin : OriginCaller R) (rides : List (Ride R)) : List (Nat × Nat) :=
  (rides.filter fun r => r.origin = origin).map fun r => (r.block, r.fee - r.refund)

/-- Every ride is charged to the entity of its origin, and over every window of `n` blocks the rides with its
origin cost at most the maximum, or the largest fee of a call allowed in excess, and `n` recoveries. -/
def Limited (F : Nat) (rides : List (Ride R)) : Prop :=
  ∀ ride ∈ rides, ∃ entity, RestrictedEntity.restrictedEntity ride.origin = some entity ∧ ride.entity = some entity ∧
    ∀ start n, chargedWithin start n (netRides ride.origin rides) ≤
      Nat.max entity.allowance.max F + n * entity.allowance.recoveryPerBlock

/-- No call that the entity of its origin is allowed once in excess of its allowance costs more. -/
def ExcessAtMost (F : Nat) (c : Chain R) : Action R → Prop
  | .transaction tx _ _ _ => ∀ found ∈ (validateOrigin c.now c.pallets tx).toOption,
    ∀ entity ∈ RestrictedEntity.restrictedEntity found.1,
      operationAllowedOneTimeExcess entity tx.call = true → Chain.fee tx ≤ F
  | _ => True

/-! ### The usages -/

variable {c c' : Chain R} {F : Nat} {rides : List (Ride R)}

theorem max_lt (entity : RestrictedEntity R) : entity.allowance.max < U128.max := by
  cases entity <;> simp only [RestrictedEntity.allowance] <;> decide

/-- What the last extension admits is charged to the entity of its origin. -/
theorem charged_eq {tx : Transaction R} {origin : OriginCaller R} {cleaned : List (RestrictedEntity R)}
    {info : OriginRestriction.PostDispatchInfo (restriction R)} {usages : OriginRestriction.Store (restriction R)}
    (hok : OriginRestriction.exec c.usages (.transaction (tx.restricted origin) cleaned info) = .ok usages) :
    c.charged tx origin = RestrictedEntity.restrictedEntity origin := by
  simp only [OriginRestriction.exec, bind_eq_ok, mapError_eq_ok, pure_eq_ok] at hok
  obtain ⟨⟨u, val⟩, hvalidate, -⟩ := hok
  unfold Chain.charged
  rw [hvalidate]
  cases hentity : RestrictedEntity.restrictedEntity origin with
  | none =>
    simp only [OriginRestriction.RestrictOrigin.validate, Transaction.restricted, hentity] at hvalidate
    cases hvalidate
    rfl
  | some entity =>
    obtain ⟨-, rfl, -⟩ := OriginRestriction.RestrictOrigin.validate_ok hentity hvalidate
    rfl

structure Ride.Faithful (r : Ride R) : Prop where
  free : r.origin.isFree = true
  asked : r.origin.isOverlooked = r.tx.isOverlooked
  entity : r.entity = RestrictedEntity.restrictedEntity r.origin

/-- What was charged so far to the entities holds all that the rides cost. -/
def Covered (charges : List (OriginRestriction.Charge (restriction R))) (rides : List (Ride R)) : Prop :=
  ∀ origin entity, RestrictedEntity.restrictedEntity origin = some entity →
    (netRides origin rides).Sublist (netCharges (T := restriction R) entity charges)

structure Charged (F : Nat) (c : Chain R) (rides : List (Ride R)) : Prop where
  faithful : ∀ ride ∈ rides, ride.Faithful
  metered : ∃ charges, Covered charges rides ∧ ∀ entity, MeteredIn (T := restriction R) entity F c.usages charges

theorem ride_eq_some {tx : Transaction R} {info : OriginRestriction.PostDispatchInfo (restriction R)} {ride : Ride R}
    {origin : OriginCaller R} {vals : Vals R} (hvalidate : validateOrigin c.now c.pallets tx = .ok (origin, vals))
    (h : c.ride tx info = some ride) : origin.isFree = true ∧ ride = ⟨tx, origin, c.charged tx origin, c.now, Chain.fee tx,
      OriginRestriction.RestrictOrigin.refund (restriction R) (Chain.fee tx) info tx.len⟩ := by
  unfold Chain.ride at h
  rw [hvalidate] at h
  split at h
  · rename_i heq
    cases heq
    split at h
    · rename_i hride
      cases h
      exact ⟨(Bool.and_eq_true_iff.mp hride).2, rfl⟩
    · cases h
  · cases h

/-- A transaction of an entity is charged to it, whether it is a ride or not. -/
theorem Covered.transaction {charges : List (OriginRestriction.Charge (restriction R))} {tx : Transaction R}
    {info : OriginRestriction.PostDispatchInfo (restriction R)} {origin : OriginCaller R} {vals : Vals R}
    (h : Covered charges rides) (hvalidate : validateOrigin c.now c.pallets tx = .ok (origin, vals))
    (cleaned : List (RestrictedEntity R)) (usages : OriginRestriction.Store (restriction R)) :
    Covered (noteCharge c.usages (.transaction (tx.restricted origin) cleaned info) usages charges)
      ((c.ride tx info).toList ++ rides) := by
  intro o entity hentity
  cases hride : c.ride tx info with
  | none => exact (h o entity hentity).trans (netCharges_sublist _ charges)
  | some ride =>
    obtain ⟨-, rfl⟩ := ride_eq_some hvalidate hride
    by_cases ho : origin = o
    · subst ho
      rw [netCharges_charged (tx.restricted origin) hentity]
      simp only [Option.toList_some, List.singleton_append, netRides, List.filter_cons, decide_true, if_true, List.map_cons]
      exact (h origin entity hentity).cons_cons _
    · simp only [Option.toList_some, List.singleton_append, netRides, List.filter_cons, ho, decide_false,
        Bool.false_eq_true, if_false]
      exact (h o entity hentity).trans (netCharges_sublist _ charges)

theorem Charged.exec {a : Action R} (h : Charged F c rides) (hexcess : ExcessAtMost F c a) (hexec : exec c a = .ok c') :
    Charged F c' (noteRide c a c' rides) := by
  obtain ⟨charges, hcovered, hmetered⟩ := h.metered
  cases a with
  | transaction tx dispatched cleaned info =>
    simp only [PeoplePaseo.exec, bind_eq_ok, mapError_eq_ok, pure_eq_ok] at hexec
    obtain ⟨⟨origin, vals⟩, hvalidate, usages, husages, -, -, rfl⟩ := hexec
    refine ⟨?_, _, hcovered.transaction hvalidate cleaned usages, fun entity => ?_⟩
    · intro ride hmem
      rcases List.mem_append.mp hmem with hmem | hmem
      · obtain ⟨hfree, rfl⟩ := ride_eq_some hvalidate (Option.mem_toList.mp hmem)
        exact ⟨hfree, isOverlooked_eq hvalidate, charged_eq husages⟩
      · exact h.faithful ride hmem
    · refine (hmetered entity).exec (max_lt entity) ?_ husages
      intro hentity hallowed
      exact hexcess _ (toOption_eq_some.mpr hvalidate) entity hentity hallowed
  | cleanUsage isNone entity =>
    simp only [PeoplePaseo.exec, bind_eq_ok, mapError_eq_ok, pure_eq_ok] at hexec
    obtain ⟨usages, husages, rfl⟩ := hexec
    exact ⟨h.faithful, charges, hcovered, fun e => (hmetered e).exec (a := .cleanUsage isNone entity) (max_lt e) trivial husages⟩
  | advance blocks =>
    cases hexec
    exact ⟨h.faithful, charges, hcovered, fun e => (hmetered e).exec (max_lt e) (a := .advance blocks) trivial rfl⟩
  | elsewhere pallets =>
    cases hexec
    exact ⟨h.faithful, charges, hcovered, hmetered⟩

theorem charged_genesis (F : Nat) (pallets : Pallets R) (blockNumber : Nat) : Charged F (genesis pallets blockNumber) [] := by
  refine ⟨fun _ hmem => absurd hmem List.not_mem_nil, [], ?_, ?_⟩
  · intro origin entity _
    exact List.nil_sublist _
  · intro entity
    exact Metered.empty

/-- In every run the rides are charged, each to the entity of its origin, and limited by the allowance of the
entity, if and only if none of them asked for the origin of an invited candidate or of a lite alias. -/
theorem free_rides_limited {F blockNumber : Nat} {pallets : Pallets R} {w : Chain R × List (Ride R)}
    (h : Reaches (noting exec noteRide) (fun w a => ExcessAtMost F w.1 a) (genesis pallets blockNumber, []) w) :
    Limited F w.2 ↔ ∀ ride ∈ w.2, ride.tx.isOverlooked = false := by
  have hcharged : Charged F w.1 w.2 := by
    refine Reaches.noted (I := Charged F) (G := ExcessAtMost F) h (charged_genesis F pallets blockNumber) ?_
    exact fun c rides a c' hc hG hexec => hc.exec hG hexec
  obtain ⟨charges, hcovered, hmetered⟩ := hcharged.metered
  constructor
  · intro hlimited ride hmem
    obtain ⟨entity, hentity, -⟩ := hlimited ride hmem
    have hfaithful := hcharged.faithful ride hmem
    rw [← hfaithful.asked, ← Bool.not_eq_true, ← restrictedEntity_eq_none hfaithful.free, hentity]
    exact Option.some_ne_none entity
  · intro hasked ride hmem
    have hfaithful := hcharged.faithful ride hmem
    have hsome : RestrictedEntity.restrictedEntity ride.origin ≠ none := by
      rw [ne_eq, restrictedEntity_eq_none hfaithful.free, hfaithful.asked, hasked ride hmem]
      exact Bool.false_ne_true
    obtain ⟨entity, hentity⟩ := Option.ne_none_iff_exists'.mp hsome
    refine ⟨entity, hentity, hfaithful.entity.trans hentity, fun start n => ?_⟩
    exact (chargedWithin_le (hcovered ride.origin entity hentity)).trans ((hmetered entity).window start n)

/-! ### Sample runs -/

/-- The weights are the fees, and a signature is its key, or its account. -/
def sampleConfig : Config where
  proofOfInk := ProofOfInk.sampleConfig
  liteMembers := ⟨People.sampleService, fun w key => @List.elem Nat _ key w⟩
  LiteSignature := Nat
  AttestationSignature := Nat
  Registrar := Unit
  verifyLiteSignature signature _ key := Nat.beq signature key
  verifyAttestation signature _ account := Nat.beq signature account
  registerConsumer _ _ _ _ _ := some ()
  litePeopleAuthContext := (1 : Nat)
  attestMessage _ _ := (0 : Nat)
  signingPayload _ _ _ _ _ := (0 : Nat)
  reviseLiteMessage message _ _ := message
  Weight := Nat
  weightToFee := id
  lengthToFee _ := 0

/-- Account 2 has invited an account with a ticket of its own. -/
def sampleInvitation : List (ProofOfInk.Action sampleConfig.proofOfInk) :=
  [.dispatch .invitations (.grantInvites (2 : Nat) 1), .dispatch (.signed (2 : Nat)) (.setInviteTicket (3 : Nat))]

/-- Account 1 is a lite person, and account 8 its alias's. -/
def sampleAlias : List (PeopleLite.Action sampleConfig.peopleLite) :=
  [.onPoll, .submit ⟨.manager, none, .increaseAttestationAllowance (9 : Nat) 1, (0 : Nat)⟩,
    .submit ⟨.signed (9 : Nat), none, .attest (1 : Nat) (1 : Nat) (5 : Nat) (5 : Nat) none, (0 : Nat)⟩,
    .submit ⟨.none, some (.asLiteAliasWithProof ((5 : Nat), (0 : Nat)) 0 (1 : Nat)), .setAliasAccount (8 : Nat) 0, (0 : Nat)⟩]

def samplePallets : Pallets sampleConfig where
  proofOfInk := ((sampleInvitation.foldlM ProofOfInk.exec ProofOfInk.sampleGenesis).toOption.getD
    ProofOfInk.sampleGenesis).store
  peopleLite :=
    let c := PeopleLite.genesis (T := sampleConfig.peopleLite) ([] : List Nat) () ⟨0, fun _ => true⟩
    ((sampleAlias.foldlM PeopleLite.exec c).toOption.getD c).store
  score := ⟨∅, 0, [], [], (0, 0)⟩
  env := ProofOfInk.sampleEnv

/-- What a call of the proof-of-ink pallet makes of the pallets. -/
def dispatchProofOfInk (origin : ProofOfInk.Origin R.proofOfInk) (call : ProofOfInk.Call R.proofOfInk) (p : Pallets R) :
    Pallets R :=
  match ProofOfInk.dispatch (p.proofOfInkEnv 0) p.proofOfInk origin call with
  | .ok s => { p with proofOfInk := s }
  | .error _ => p

/-- A call by account 3, which is invited, with a fee of its own. -/
def sampleInvited (nonce fee : Nat) (call : ProofOfInk.Call sampleConfig.proofOfInk) : Action sampleConfig :=
  .transaction ⟨.external, some (3 : Nat), none, some (.asInvited nonce), none, none, false, true, .proofOfInk call,
    (0 : Nat), (0 : Nat), fee, 0⟩ (dispatchProofOfInk (.invitedCandidate (3 : Nat)) call) [] ⟨none, .yes⟩

/-- A call of another pallet by a lite person or by the account of its alias, that fails. -/
def sampleLite (who : Nat) (auth : PeopleLite.PeopleLiteAuthData sampleConfig.peopleLite) (fee : Nat) : Action sampleConfig :=
  .transaction ⟨.external, some who, none, none, none, some auth, false, true, .other, (0 : Nat), (0 : Nat), fee, 0⟩ id []
    ⟨none, .yes⟩

instance (F : Nat) (c : Chain R) (a : Action R) : Decidable (ExcessAtMost F c a) := by
  cases a <;> unfold ExcessAtMost <;> infer_instance

/-- A lite person spends what is allowed, and no more. -/
theorem free_rides_limited_sample : ∃ w, Reaches (noting exec noteRide) (fun w a => ExcessAtMost 0 w.1 a)
    (genesis samplePallets 0, []) w ∧ w.2.length = 2 ∧ Limited 0 w.2 := by
  obtain ⟨w, hreach, hlength, hasked⟩ := exists_reaches (noting exec noteRide) (fun w a => ExcessAtMost 0 w.1 a)
    (genesis samplePallets 0, [])
    [sampleLite (1 : Nat) (.asLitePerson 0) UNITS, .advance 1, sampleLite (1 : Nat) (.asLitePerson 1) MILLICENTS]
    (fun w => w.2.length = 2 ∧ ∀ ride ∈ w.2, ride.tx.isOverlooked = false) (by decide +kernel)
  exact ⟨w, hreach, hlength, (free_rides_limited hreach).mpr hasked⟩

/-- An invited candidate and the account of a lite alias spend, in one block, more than any entity is allowed. The
candidate applies, and then asks for another roll too early. -/
theorem free_rides_unlimited : ∃ w, Reaches (noting exec noteRide) (fun w a => ExcessAtMost 0 w.1 a)
    (genesis samplePallets 0, []) w ∧ ¬Limited 0 w.2 ∧ ∀ entity : RestrictedEntity sampleConfig,
      Nat.max entity.allowance.max 0 + 1 * entity.allowance.recoveryPerBlock <
        chargedWithin 0 1 (netRides (.invitedCandidate (3 : Nat)) w.2) ∧
      Nat.max entity.allowance.max 0 + 1 * entity.allowance.recoveryPerBlock <
        chargedWithin 0 1 (netRides (.liteAlias ⟨0, 0, (1 : Nat), ((5 : Nat), (1 : Nat))⟩) w.2) := by
  obtain ⟨w, hreach, -, hinvited, hspent, hspent'⟩ := exists_reaches (noting exec noteRide)
    (fun w a => ExcessAtMost 0 w.1 a) (genesis samplePallets 0, [])
    [sampleInvited 0 UNITS (.applyWithInvitation (2 : Nat) (3 : Nat) (3 : Nat)), sampleInvited 1 UNITS .reroll,
      sampleInvited 2 UNITS .reroll, sampleLite (8 : Nat) (.asLiteAliasWithAccount 0) UNITS,
      sampleLite (8 : Nat) (.asLiteAliasWithAccount 1) UNITS]
    (fun w => w.1.pallets.proofOfInk.candidates.contains (3 : Nat) = true ∧
      (∃ ride ∈ w.2, ride.origin = .invitedCandidate (3 : Nat)) ∧
      chargedWithin 0 1 (netRides (.invitedCandidate (3 : Nat)) w.2) = 3 * UNITS ∧
      chargedWithin 0 1 (netRides (.liteAlias ⟨0, 0, (1 : Nat), ((5 : Nat), (1 : Nat))⟩) w.2) = 2 * UNITS)
    (by decide +kernel)
  refine ⟨w, hreach, ?_, fun entity => ?_⟩
  · intro hlimited
    obtain ⟨ride, hmem, horigin⟩ := hinvited
    obtain ⟨entity, hentity, -⟩ := hlimited ride hmem
    rw [horigin] at hentity
    cases hentity
  · rw [hspent, hspent']
    cases entity <;> simp only [RestrictedEntity.allowance] <;> decide

end Individuality.PeoplePaseo
