import Individuality.Members.Progress
import Individuality.ProofOfInk.Progress
import Individuality.Reality.Ids

/-! Verdicts, applications and registrations that land.

While there are ids left and the dummy DIM gives up its own ids only, the id of every
candidate stays reserved. So every judgement of a pending case is carried out, and a
proven candidate is registered with any new key; and a ticket always finds a place among
the referrals of the person who gave it out. -/
namespace Individuality.Reality
open Support
open MobRule (Judgement)
variable {T : Config} {c : Chain T} {account : T.ring.AccountId}

/-- An account is decoded from its bytes, which a context has room for. -/
structure Codec (T : Config) : Prop where
  decode : ∀ account, T.decodeAccount (T.encodeAccount account) = some account
  fits : ∀ account, (T.encodeAccount account).length ≤ contextSize

theorem Codec.decode_context (h : Codec T) (account : T.ring.AccountId) :
    T.decodeAccount (judgementContext account).toList = some account := by
  have hbytes : (judgementContext account).toList = T.encodeAccount account := List.take_of_length_le (h.fits account)
  rw [hbytes, h.decode]

/-- The people collection is there, and its onboarding queue has room. -/
def takesMembers (registry : T.Registry) : Prop :=
  registry.rings.collections.isSome = true ∧ registry.rings.queueHasRoom

instance (registry : T.Registry) : Decidable (takesMembers registry) := inferInstanceAs (Decidable (_ ∧ _))

/-- A key that no person has is new to the members pallet. -/
theorem exists_addMembers {registry : T.Registry} (h : People.Enrolled registry) {key : T.Member}
    (hkey : registry.keys.contains key = false) (hvalid : T.ring.pallet.crypto.isMemberValid key = true)
    (htakes : takesMembers registry) :
    (T.ink.people.memberService.addMembers registry.members [key]).isSome = true := by
  have hfresh : registry.rings.members.get key = none := by
    cases hget : registry.rings.members.get key with
    | none => rfl
    | some position =>
      have hknown := h.known key (by rw [hget]; rfl)
      cases hkey.symm.trans hknown
  obtain ⟨rings, hadded⟩ := Members.Store.exists_addMembers registry.members.1 htakes.1 htakes.2 hvalid hfresh
  have hadded : registry.members.2.addMembers registry.members.1 [key] = .ok rings := hadded
  show ((registry.members.2.addMembers registry.members.1 [key]).toOption.map _).isSome = true
  rw [hadded]
  rfl

/-- In every state reached while there are ids to reserve and the dummy DIM gives up its own only: a judgement
of the case that a selected candidate waits for is carried out, if the data store has space for a retry;
an application that the extension lets through, with a nonce of the account's own, is carried out in the
same state; and a proven candidate is registered with a key that it signs with and nobody has, where the
people collection takes members and the pot pays the rewards of the moment. -/
theorem verdicts_land (hcodec : Codec T) (hproofs : ∀ proof account key, T.verifyOwnership proof account key = true →
      T.ring.pallet.crypto.isMemberValid key = true)
    {clock : Members.Env T.ring.pallet} {world : T.World} {env : ProofOfInk.Env T.ink}
    (h : Reaches exec Regular (genesis clock world env) c) :
    (∀ account selection ticket judgement, c.ink.store.candidates.get account = some (.selected selection) →
      selection.judging = some ticket → (T.refreshAllocation c.ink.store.world account).isSome = true →
      ∃ s', judged c.ink.store .root ticket (judgementContext account) judgement = .ok s') ∧
    (∀ (tx : ProofOfInk.Transaction T.ink) origin who nonce, tx.applies →
      ProofOfInk.validate c.ink.env c.ink.store tx = .ok (origin, some (who, nonce)) →
      nonce ≤ c.ink.store.registry.nonces who → ∃ t s', ProofOfInk.prepare c.ink.store (some (who, nonce)) = .ok t ∧
        ProofOfInk.dispatch c.ink.env t origin tx.call = .ok s') ∧
    ∀ account design id wasReferred wasInvited key destination proof,
      c.ink.store.candidates.get account = some (.proven design id wasReferred wasInvited) →
      T.verifyOwnership proof account key = true → c.ink.store.registry.keys.contains key = false →
      takesMembers c.ink.store.registry →
      ProofOfInk.Pays (T := T.ink) destination c.ink.store.world (ProofOfInk.rewardsDue c.ink.store !wasReferred) →
      ∃ s', ProofOfInk.dispatch c.ink.env c.ink.store (.signed account)
        (ProofOfInk.registration wasReferred key destination proof) = .ok s' := by
  have hkept := kept_reached h
  refine ⟨fun account selection ticket judgement hget hjudging hstorage => ?_,
    fun tx origin who nonce happlies hvalidated hnonce => ProofOfInk.exists_applies hkept.books happlies hvalidated hnonce,
    fun account design id wasReferred wasInvited key destination proof hget hproof hkey htakes hpays => ?_⟩
  · have hreserved := hkept.books.reserved_of_mem (ProofOfInk.mem_of_candidate hget rfl)
    obtain ⟨s', hjudged⟩ := ProofOfInk.exists_judged ⟨hget, hjudging⟩ hreserved hstorage judgement
    refine ⟨s', ?_⟩
    simp only [judged, ensure_pos, hcodec.decode_context, okOr_some, ok_bind]
    exact hjudged
  · have hreserved := hkept.books.reserved_of_mem (ProofOfInk.mem_of_candidate hget rfl)
    have hadded := exists_addMembers hkept.enrolled hkey (hproofs proof account key hproof) htakes
    exact ProofOfInk.exists_registered c.ink.env hget hproof hkey hreserved hadded hpays

/-! ### Sample runs -/

/-- The accounts are bytes. -/
def sampleRing : People.RingConfig :=
  { People.sampleRingConfig with
    AccountId := UInt8
    accountDecEq := inferInstance
    reviseMessage := fun message _ _ => message }

/-- Storage and rewards always succeed. A signature is what it signs with. -/
theorem three_le_max : 3 ≤ 200 := by decide

def sampleConfig : Config where
  ring := sampleRing
  maxPersonBatchSize := 4
  World := Unit
  Deposit := Unit
  Ticket := Nat
  TicketSignature := Nat
  KeySignature := Nat
  EvidenceHash := Nat
  ticketDecEq := inferInstance
  newDeposit world _ := some ((), world)
  dropDeposit world _ _ := some world
  burnDeposit world _ _ := world
  allocateStorage world _ _ _ := some world
  refreshAllocation world _ := some world
  transfer world _ _ _ := some world
  verifyTicket signature _ ticket := Nat.beq signature ticket
  verifyOwnership signature _ key := Nat.beq signature key
  accountBytes account := Vector.replicate 32 account
  inviteRank key := (key : UInt8 × Nat).1.toNat
  proofOfInkPotId := (0 : UInt8)
  maxActiveReferrals := 3
  maxRetryAttempts := 1
  maxReimbursementValues := 2
  maxActiveReferrals_le := three_le_max
  encodeAccount account := [account]
  decodeAccount bytes := bytes.head?

theorem sampleCodec : Codec sampleConfig := ⟨fun _ => rfl, fun _ => Nat.le_add_left 1 63⟩

def sampleEnv : ProofOfInk.Env sampleConfig.ink :=
  ⟨⟨0, fun _ => true, fun _ => true⟩, fun _ => Vector.replicate 32 0, true⟩

def sampleGenesis : Chain sampleConfig := genesis ⟨0, fun _ _ _ => none⟩ () sampleEnv

/-- The people collection is created. -/
def sampleCreate : List (Action sampleConfig) :=
  [.proofOfInk (.people (.submit ⟨.external, .none, none, .createPeopleCollection, (0 : Nat)⟩))]

/-- The account commits, with a deposit, to a design of the family, and submits evidence. -/
def sampleApply (account : UInt8) (design : Nat) : List (Action sampleConfig) :=
  [.proofOfInk (.dispatch .manager (.addDesignFamily 0 (.designed 3) (Vector.replicate 32 0))),
    .proofOfInk (.dispatch (.signed account) .apply),
    .proofOfInk (.dispatch (.signed account) (.commit (.designedElective 0 design) none)),
    .proofOfInk (.dispatch (.signed account) (.submitEvidence (0 : Nat)))]

/-- Account 1 becomes the person 1, after an id of the dummy DIM, and gives out a ticket; account 2 has
proven itself; and account 3 waits for its judgement. -/
def sampleMoves : List (Action sampleConfig) :=
  .dummyDim .update (.reserveIds 1) :: sampleCreate ++ sampleApply 1 0 ++
    [.proofOfInk (.judged 0 (.truth .true)),
      .proofOfInk (.dispatch (.signed (1 : UInt8)) (.registerNonReferred (5 : Nat) (1 : UInt8) (5 : Nat))),
      .proofOfInk (.dispatch (.person 1) (.setReferralTicket (7 : Nat)))] ++
    sampleApply 2 1 ++ [.proofOfInk (.judged 1 (.truth .true))] ++ sampleApply 3 2

/-- The account applies with the ticket of the person 1. -/
def sampleApplication (account : UInt8) (nonce : Nat) : ProofOfInk.Transaction sampleConfig.ink :=
  ⟨.signed account, some (.asApplyWithSig nonce), .applyWithSignature 1 (7 : Nat) (7 : Nat)⟩

/-- Whether the account waits for the judgement of the case. -/
def waits (c : Chain sampleConfig) (account : UInt8) (ticket : Nat) : Bool :=
  ((c.ink.store.candidates.get account).bind ProofOfInk.Candidate.asSelected).any fun selection =>
    selection.judging = some ticket

theorem awaits_of_waits {c : Chain sampleConfig} {account : UInt8} {ticket : Nat} (h : waits c account ticket = true) :
    ∃ selection, ProofOfInk.Awaits c.ink.store account ticket selection := by
  obtain ⟨selection, hselection, hjudging⟩ := (Option.any_eq_true _ _).mp h
  obtain ⟨status, hget, hstatus⟩ := Option.bind_eq_some_iff.mp hselection
  rw [ProofOfInk.Candidate.asSelected_eq_some.mp hstatus] at hget
  exact ⟨selection, hget, of_decide_eq_true hjudging⟩

/-- Whether the account has proven itself, not referred by anybody. -/
def isProven (c : Chain sampleConfig) (account : UInt8) : Bool :=
  ((c.ink.store.candidates.get account).bind ProofOfInk.Candidate.asProven).any fun proven => proven.2.2.1 = false

theorem proven_of_isProven {c : Chain sampleConfig} {account : UInt8} (h : isProven c account = true) :
    ∃ design id wasInvited, c.ink.store.candidates.get account = some (.proven design id false wasInvited) := by
  obtain ⟨⟨design, id, wasReferred, wasInvited⟩, hproven, hreferred⟩ := (Option.any_eq_true _ _).mp h
  obtain ⟨status, hget, hstatus⟩ := Option.bind_eq_some_iff.mp hproven
  have hreferred : wasReferred = false := of_decide_eq_true hreferred
  rw [ProofOfInk.Candidate.asProven_eq_some.mp hstatus, hreferred] at hget
  exact ⟨design, id, wasInvited, hget⟩

/-- Whether the extension lets the application of an account through. -/
def isValid (c : Chain sampleConfig) (account : UInt8) (nonce : Nat) : Bool :=
  (ProofOfInk.validate c.ink.env c.ink.store (sampleApplication account nonce)).toOption.isSome

/-- The origin and the nonce are those that are asked for. -/
theorem validate_of_isValid {c : Chain sampleConfig} {account : UInt8} {nonce : Nat} (h : isValid c account nonce = true) :
    ProofOfInk.validate c.ink.env c.ink.store (sampleApplication account nonce) =
      .ok (.authorizedApplyWithSig account, some (account, nonce)) := by
  obtain ⟨⟨origin, val⟩, hvalid⟩ := Option.isSome_iff_exists.mp h
  have hvalidated := toOption_eq_some.mp hvalid
  have hasked := hvalidated
  simp only [ProofOfInk.validate, sampleApplication, ProofOfInk.ensureSigner, bind_eq_ok, pure_eq_ok] at hasked
  obtain ⟨who, hwho, _, -, heq⟩ := hasked
  cases hwho
  rw [hvalidated, heq]

theorem pays_sample (destination : UInt8) (world : Unit) (values : List Nat) :
    ProofOfInk.Pays (T := sampleConfig.ink) destination world values := by
  induction values generalizing world with
  | nil => trivial
  | cons value rest ih => exact ⟨world, rfl, ih world⟩

/-- One account waits for its judgement, another one applies, and a third one registers. -/
theorem verdicts_land_sample : ∃ c, Reaches exec Regular sampleGenesis c ∧
    (∃ s', judged c.ink.store .root 2 (judgementContext (T := sampleConfig) (3 : UInt8)) .contempt = .ok s') ∧
    (∃ t s', ProofOfInk.prepare c.ink.store (some ((4 : UInt8), 0)) = .ok t ∧
      ProofOfInk.dispatch c.ink.env t (.authorizedApplyWithSig (4 : UInt8)) (sampleApplication 4 0).call = .ok s') ∧
    ∃ s', ProofOfInk.dispatch c.ink.env c.ink.store (.signed (2 : UInt8))
      (ProofOfInk.registration false (6 : Nat) (2 : UInt8) (6 : Nat)) = .ok s' := by
  obtain ⟨c, hreach, hwaits, hvalid, hproven, hkey, htakes⟩ := exists_reaches exec Regular sampleGenesis sampleMoves
    (fun c => waits c 3 2 = true ∧ isValid c 4 0 = true ∧ isProven c 2 = true ∧
      c.ink.store.registry.keys.contains (6 : Nat) = false ∧ takesMembers c.ink.store.registry) (by decide +kernel)
  obtain ⟨hjudged, happlied, hregistered⟩ := verdicts_land (T := sampleConfig) sampleCodec (fun _ _ _ _ => rfl) hreach
  obtain ⟨selection, hget, hjudging⟩ := awaits_of_waits hwaits
  obtain ⟨design, id, wasInvited, hget'⟩ := proven_of_isProven hproven
  refine ⟨c, hreach, hjudged (3 : UInt8) selection 2 .contempt hget hjudging rfl,
    happlied (sampleApplication 4 0) _ (4 : UInt8) 0 trivial (validate_of_isValid hvalid) (Nat.zero_le _),
    hregistered (2 : UInt8) design id false wasInvited (6 : Nat) (2 : UInt8) (6 : Nat) hget' rfl hkey htakes ?_⟩
  exact pays_sample _ _ _

/-- The chain before any candidate, with the people pallet and the dummy DIM in another state. -/
def sampleWith (registry : sampleConfig.Registry) (dummyDim : DummyDim.Store sampleConfig.toConfig) : Chain sampleConfig :=
  { sampleGenesis.withRegistry registry with dummyDim := dummyDim }

/-- The dummy DIM may have reserved any number of ids. -/
theorem exists_reserved (n : Nat) (hn : n ≤ U64.max) : ∃ registry dummyDim, registry.nextPersonalId = n ∧
    Reaches exec (fun _ _ => True) sampleGenesis (sampleWith registry dummyDim) := by
  induction n with
  | zero => exact ⟨sampleGenesis.ink.store.registry, DummyDim.genesis, rfl, Reaches.refl _⟩
  | succ n ih =>
    obtain ⟨registry, dummyDim, hnext, hreach⟩ := ih (Nat.le_of_succ_le hn)
    let s := DummyDim.reserveNewId (dummyDim, registry)
    have hreserved : exec (sampleWith registry dummyDim) (.dummyDim .update (.reserveIds 1)) =
        .ok (sampleWith s.2 s.1) := rfl
    refine ⟨s.2, s.1, ?_, hreach.tail trivial hreserved⟩
    show U64.saturatingAdd registry.nextPersonalId 1 = n + 1
    rw [hnext]
    exact U64.saturatingAdd_eq hn

/-- Two accounts commit, each with a new id, and submit evidence. -/
theorem exists_waiting (registry : sampleConfig.Registry) (dummyDim : DummyDim.Store sampleConfig.toConfig) : ∃ c,
    Reaches exec (fun _ _ => True) (sampleWith registry dummyDim) c ∧
    (∃ case, c.ink.store.cases.get 0 = some case ∧ case.context = (1 : UInt8)) ∧
    (∃ selection, ProofOfInk.Awaits c.ink.store (1 : UInt8) 0 selection ∧ selection.reserved = registry.nextPersonalId) ∧
    ∃ selection, ProofOfInk.Awaits c.ink.store (2 : UInt8) 1 selection ∧
      selection.reserved = U64.saturatingAdd registry.nextPersonalId 1 := by
  have hrun : ∃ c, (sampleApply 1 0 ++ sampleApply 2 1).foldlM exec (sampleWith registry dummyDim) = .ok c ∧
      (∃ case, c.ink.store.cases.get 0 = some case ∧ case.context = (1 : UInt8)) ∧
      (∃ selection, ProofOfInk.Awaits c.ink.store (1 : UInt8) 0 selection ∧ selection.reserved = registry.nextPersonalId) ∧
      ∃ selection, ProofOfInk.Awaits c.ink.store (2 : UInt8) 1 selection ∧
        selection.reserved = U64.saturatingAdd registry.nextPersonalId 1 :=
    ⟨_, rfl, ⟨_, rfl, rfl⟩, ⟨_, ⟨rfl, rfl⟩, rfl⟩, _, ⟨rfl, rfl⟩, rfl⟩
  obtain ⟨c, hfold, hwaiting⟩ := hrun
  exact ⟨c, Reaches.of_foldlM hfold fun _ _ _ => trivial, hwaiting⟩

/-- Whether a candidate waits for a judgement that is not carried out. -/
def IsStuck (c : Chain sampleConfig) : Prop :=
  ∃ account ticket selection, ProofOfInk.Awaits c.ink.store account ticket selection ∧
    (judged c.ink.store .root ticket (judgementContext (T := sampleConfig) account) .contempt).toOption.isNone = true

theorem two_ne_one : (2 : UInt8) ≠ 1 := by decide

/-- At the end of the ids two candidates have the same one, and only one of them can be judged. -/
theorem exists_stuck : ∃ c, Reaches exec (fun _ _ => True) sampleGenesis c ∧ IsStuck c := by
  obtain ⟨registry, dummyDim, hnext, hspent⟩ := exists_reserved U64.max le_rfl
  obtain ⟨c, hreach, ⟨case, hcase, hcontext⟩, ⟨first, hfirst, hid⟩, second, hsecond, hid'⟩ := exists_waiting registry dummyDim
  rw [hnext] at hid hid'
  have hfirst' : ProofOfInk.Awaits (ProofOfInk.closeCase c.ink.store 0) (1 : UInt8) 0 first := hfirst
  have hsecond' : ProofOfInk.Awaits (ProofOfInk.closeCase c.ink.store 0) (2 : UInt8) 1 second := hsecond
  have hcalled := ProofOfInk.callBack_eq hcase .contempt
  rw [hcontext] at hcalled
  have hexec : ∀ s', ProofOfInk.callBack c.ink.store 0 .contempt = .ok s' →
      exec c (.proofOfInk (.judged 0 .contempt)) = .ok { c with ink := { c.ink with store := s' } } := by
    intro s' hcalled
    simp only [exec, ProofOfInk.exec, bind_eq_ok, mapError_eq_ok]
    exact ⟨⟨⟩, rfl, { c.ink with store := s' }, ⟨s', hcalled, rfl⟩, rfl⟩
  cases hjudged : ProofOfInk.judged (ProofOfInk.closeCase c.ink.store 0) 0 (1 : UInt8) .contempt with
  | error e =>
    have hfailed : (ProofOfInk.judged (ProofOfInk.closeCase c.ink.store 0) 0 (1 : UInt8) .contempt).toOption.isNone =
        true := by
      rw [hjudged]
      rfl
    rw [hjudged] at hcalled
    exact ⟨_, (hspent.trans hreach).tail trivial (hexec _ hcalled), (1 : UInt8), 0, first, hfirst', hfailed⟩
  | ok s' =>
    rw [hjudged] at hcalled
    obtain ⟨hwaits, hnone⟩ := ProofOfInk.shared_id hjudged hfirst' hsecond' two_ne_one (hid'.trans hid.symm)
    exact ⟨_, (hspent.trans hreach).tail trivial (hexec _ hcalled), (2 : UInt8), 1, second, hwaits,
      ProofOfInk.judged_refused hwaits hnone⟩

/-- A referred candidate asks for an invitation. -/
def sampleInvitation : ProofOfInk.Transaction sampleConfig.ink :=
  ⟨.signed (4 : UInt8), some (.asReferred 1), .applyWithInvitation (1 : UInt8) (7 : Nat) (7 : Nat)⟩

/-- Whether a transaction is let through and its call fails. -/
def isWasted (c : Chain sampleConfig) (tx : ProofOfInk.Transaction sampleConfig.ink) : Bool :=
  (ProofOfInk.validate c.ink.env c.ink.store tx).toOption.any fun (origin, val) =>
    (ProofOfInk.prepare c.ink.store val).toOption.all fun t =>
      (ProofOfInk.dispatch c.ink.env t origin tx.call).toOption.isNone

/-- A judgement is not carried out after the dummy DIM has given up the candidate's id, nor at the end of the
ids. Besides, a transaction comes too early, or asks for another application than its origin is for; and a
candidate has proven itself before the people collection is created. -/
theorem verdicts_lost :
    (∃ c, Reaches exec (fun _ _ => True) sampleGenesis c ∧ waits c 1 0 = true ∧
      (judged c.ink.store .root 0 (judgementContext (T := sampleConfig) (1 : UInt8)) .contempt).toOption.isNone = true) ∧
    (∃ c, Reaches exec (fun _ _ => True) sampleGenesis c ∧ IsStuck c) ∧
    (∃ c, Reaches exec Regular sampleGenesis c ∧ isWasted c (sampleApplication 4 1) = true) ∧
    (∃ c, Reaches exec Regular sampleGenesis c ∧ isWasted c sampleInvitation = true) ∧
    ∃ c, Reaches exec Regular sampleGenesis c ∧ isProven c 1 = true ∧
      (ProofOfInk.dispatch c.ink.env c.ink.store (.signed (1 : UInt8))
        (ProofOfInk.registration false (6 : Nat) (1 : UInt8) (6 : Nat))).toOption.isNone = true := by
  refine ⟨?_, exists_stuck, ?_, ?_, ?_⟩
  · exact exists_reaches exec (fun _ _ => True) sampleGenesis
      (sampleApply 1 0 ++ [.dummyDim .update (.cancelIdReservation 0)])
      (fun c => waits c 1 0 = true ∧ (judged c.ink.store .root 0 (judgementContext (T := sampleConfig) (1 : UInt8))
        .contempt).toOption.isNone = true) (by decide +kernel)
  · exact exists_reaches exec Regular sampleGenesis sampleMoves (fun c => isWasted c (sampleApplication 4 1) = true)
      (by decide +kernel)
  · exact exists_reaches exec Regular sampleGenesis (sampleMoves ++ [.proofOfInk (.submit (sampleApplication 4 0))])
      (fun c => isWasted c sampleInvitation = true) (by decide +kernel)
  · exact exists_reaches exec Regular sampleGenesis (sampleApply 1 0 ++ [.proofOfInk (.judged 0 (.truth .true))])
      (fun c => isProven c 1 = true ∧ (ProofOfInk.dispatch c.ink.env c.ink.store (.signed (1 : UInt8))
        (ProofOfInk.registration false (6 : Nat) (1 : UInt8) (6 : Nat))).toOption.isNone = true) (by decide +kernel)

end Individuality.Reality
