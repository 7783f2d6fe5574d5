import Individuality.ProofOfInk.Types
import Individuality.Support.Prefixes
import Individuality.Support.References

/-! Proof of ink: its storage, its calls and its transaction extension.

The oracle hands out a fresh ticket for each case and calls a judgement back once, at any
time, also when the candidate has left or applied again. Beside what is stored it is
written down what was done with the credibility of candidates, latest last. `exec` runs a
chain with the pallet and the people pallet: other pallets use the latter too, but leave
the ids of candidates alone. -/
namespace Individuality.ProofOfInk
open Support
open MobRule (Judgement Truth)

inductive Error
  | inProgress
  | badContext
  | unexpectedJudgement
  | notApplied
  | notSelected
  | notProven
  | alreadyStarted
  | noMoreReferrals
  | tooEarly
  | designInvalid
  | designTaken
  | badParent
  | badFamily
  | wrongFamily
  | indexTooBig
  | busy
  | banned
  | improbable
  | noTicket
  | referredCandidate
  | notReferredCandidate
  | noRewardToRegister
  | rewardToRegister
  | noInvites
  | alreadyInvited
  | noReferrer
  | notPoiPerson
  | invalidProofOfOwnership
  | invalidReimbursementValues
  | badOrigin
  | people (e : People.Error)
  | deposit
  | oracle
  | storage
  | transfer
  deriving DecidableEq, Repr

variable (T : Config)

abbrev ReimbursementValues : Type := BoundedVec (Nat × Nat) T.maxReimbursementValues

/-- The storage of the pallet, the people pallet's, the open cases of the oracle, the services outside,
and of each account the sufficient references that this pallet has put on it, those that it took off
counted against them. -/
structure Store where
  candidates : StorageMap T.AccountId (Candidate T)
  people : StorageMap Nat (Person T)
  referralTickets : StorageMap Nat (BoundedVec T.Ticket T.maxActiveReferrals)
  designFamilies : StorageMap Nat Family
  committedDesigns : StorageMap (Nat × Nat) DesignStatus
  allocationCount : Nat
  configuration : ConfigRecord
  availableInvites : StorageMap T.AccountId Nat
  pendingInvites : StorageMap (T.AccountId × T.Ticket) Unit
  referrerReimbursementValues : Option (ReimbursementValues T)
  referredReimbursementValues : Option (ReimbursementValues T)
  registry : People.Store T.people
  nextCase : Nat
  cases : StorageMap Nat (Case T)
  world : T.World
  sufficients : T.AccountId → Int
  settlements : List (T.AccountId × Settlement T)

/-- What the pallet reads of the chain: what the people pallet reads, the entropy of the beacon for an
application, and whether the oracle takes cases. -/
structure Env where
  people : People.Env T.people
  random : T.AccountId → Entropy
  oracleAccepts : Bool

/-- The last three are given by the extension only. -/
inductive Origin
  | none
  | manager
  | invitations
  | person (id : Nat)
  | signed (who : T.AccountId)
  | authorizedApplyWithSig (who : T.AccountId)
  | referredCandidate (who : T.AccountId)
  | invitedCandidate (who : T.AccountId)

/-- `other` is a call of another pallet. -/
inductive Call
  | apply
  | submitEvidence (evidence : T.EvidenceHash)
  | registerReferred (key : T.Member) (destination : T.AccountId) (proofOfOwnership : T.KeySignature)
  | registerNonReferred (key : T.Member) (destination : T.AccountId) (proofOfOwnership : T.KeySignature)
  | reroll
  | commit (choice : InkChoice) (requireId : Option Nat)
  | allocateFull
  | timeout (account : T.AccountId)
  | flakeout
  | applyWithSignature (referrer : Nat) (signature : T.TicketSignature) (ticket : T.Ticket)
  | applyWithInvitation (inviter : T.AccountId) (ticket : T.Ticket) (signature : T.TicketSignature)
  | addDesignFamily (index : Nat) (kind : FamilyKind) (id : Vector UInt8 32)
  | setReferralTicket (ticket : T.Ticket)
  | cancelReferralTicket (ticket : T.Ticket)
  | registerSuccessfulReferralReward (destination : T.AccountId)
  | grantInvites (account : T.AccountId) (count : Nat)
  | removeAvailableAndPendingInvites (account : T.AccountId) (limit : Nat)
  | setInviteTicket (ticket : T.Ticket)
  | cancelInviteTicket (ticket : T.Ticket)
  | setConfiguration (config : ConfigRecord)
  | setReimbursementValues (referred referrer : ReimbursementValues T)
  | other

inductive AsProofOfInkParticipantInfo
  | asApplyWithSig (nonce : Nat)
  | asReferred (nonce : Nat)
  | asInvited (nonce : Nat)

structure Transaction where
  signer : Origin T
  asParticipant : Option (AsProofOfInkParticipantInfo)
  call : Call T

variable {T}

abbrev Env.now (env : Env T) : Nat := env.people.now

/-! ### Accounts, deposits and referrals -/

def incSufficients (s : Store T) (who : T.AccountId) : Store T :=
  { s with sufficients := References.inc s.sufficients who }

def decSufficients (s : Store T) (who : T.AccountId) : Store T :=
  { s with sufficients := References.dec s.sufficients who }

def burnDeposit (s : Store T) (ticket : T.Deposit) (account : T.AccountId) : Store T :=
  { s with
    world := T.burnDeposit s.world ticket account
    settlements := s.settlements ++ [(account, .depositBurned ticket)] }

/-- A deposit that cannot be returned is left as it is. -/
def returnDeposit (s : Store T) (ticket : T.Deposit) (account : T.AccountId) : Store T :=
  { s with
    world := (T.dropDeposit s.world ticket account).getD s.world
    settlements := s.settlements ++
      ((T.dropDeposit s.world ticket account).map fun _ => (account, Settlement.depositReturned ticket)).toList }

def closeInvitation (s : Store T) (account : T.AccountId) : Store T :=
  { decSufficients s account with settlements := s.settlements ++ [(account, .invitationClosed)] }

def Person.dropReferral (person : Person T) (target : T.AccountId) : Person T :=
  { person with activeReferrals := person.activeReferrals.retain fun x => x ≠ target }

/-- The reference of the target stays until it registers. -/
def referralOk (s : Store T) (referrer : Nat) (target : T.AccountId) : Store T :=
  { s with
    people := s.people.modify referrer fun person => { person.dropReferral target with
      successfulReferrals := U32.saturatingInc person.successfulReferrals
      pendingReferralRewards := U32.saturatingInc person.pendingReferralRewards
      allowedReferralTickets := if person.allowedReferralTickets < T.maxActiveReferrals then
        U32.saturatingInc person.allowedReferralTickets else person.allowedReferralTickets }
    settlements := s.settlements ++ [(target, .referralOk referrer)] }

def referralFlaked (s : Store T) (referrer : Nat) (target : T.AccountId) : Store T :=
  { decSufficients s target with
    people := s.people.modify referrer fun person => person.dropReferral target
    settlements := s.settlements ++ [(target, .referralFlaked referrer)] }

def referralBad (s : Store T) (referrer : Nat) (target : T.AccountId) : Store T :=
  { decSufficients s target with
    people := s.people.modify referrer fun person => { person.dropReferral target with
      badReferrals := U32.saturatingInc person.badReferrals }
    settlements := s.settlements ++ [(target, .referralBad referrer)] }

def referralContemptuous (s : Store T) (referrer : Nat) (target : T.AccountId) : Store T :=
  { decSufficients s target with
    people := s.people.modify referrer fun person => { person.dropReferral target with
      badReferrals := U32.saturatingInc person.badReferrals
      banned := true }
    settlements := s.settlements ++ [(target, .referralContemptuous referrer)] }

/-! ### Rewards -/

/-- The value of the next reward, and what is left of the rewards. -/
def nextReward (values : Option (ReimbursementValues T)) : Option (Nat × ReimbursementValues T) :=
  let values := values.getD default
  match values.toList.getLast? with
  | none | some (_, 0) => none
  | some (value, count + 1) =>
    let rest := values.remove (values.length - 1)
    some (value, if 0 < count then (rest.tryPush (value, count)).getD rest else rest)

/-- Without values there is no reward. -/
def registerReward (world : T.World) (values : Option (ReimbursementValues T)) (destination : T.AccountId) :
    Except Error (T.World × Option (ReimbursementValues T)) :=
  match nextReward values with
  | none => .ok (world, values)
  | some (value, rest) => do
    let world ← okOr (T.transfer world T.proofOfInkPotId destination value) .transfer
    return (world, some rest)

def registerReferredReward (s : Store T) (destination : T.AccountId) : Except Error (Store T) := do
  let (world, values) ← registerReward s.world s.referredReimbursementValues destination
  return { s with world := world, referredReimbursementValues := values }

def registerReferrerReward (s : Store T) (destination : T.AccountId) : Except Error (Store T) := do
  let (world, values) ← registerReward s.world s.referrerReimbursementValues destination
  return { s with world := world, referrerReimbursementValues := values }

/-! ### Designs -/

/-- Flip the bit `p` of a seed. -/
def flipBit (seed : ProceduralSeed) (p : Nat) : ProceduralSeed :=
  seed.setIfInBounds (p / 8) (seed.get (Fin.ofNat 4 (p / 8)) ^^^ UInt8.ofNat (1 <<< (p % 8)))

/-- Three different bits are flipped, which the entropy chooses. -/
def mutateSeed (seed : ProceduralSeed) (entropy : Entropy) : ProceduralSeed :=
  ((List.range 3).foldl (fun (acc : ProceduralSeed × List Nat) i =>
    let range := 32 - i
    let p := (entropy.get (Fin.ofNat 32 i)).toNat % range
    let p := if p ∈ acc.2 then range else p
    (flipBit acc.1 p, acc.2 ++ [p])) (seed, [])).1

/-- The bytes of the entropy that a variant takes from the ninth on, all different. -/
def seedIndices (variant : Nat) : List Nat :=
  ((List.range 4).foldl (fun (acc : List Nat × Nat) i =>
    let range := 32 - i
    let index := acc.1.foldl (fun index taken => if index ≥ taken then index + 1 else index) (acc.2 % range)
    (acc.1 ++ [index], acc.2 / range)) ([], variant)).1

def entropyToSeed (entropy : Entropy) (variant : Nat) : ProceduralSeed :=
  if variant < 8 then Vector.ofFn fun i => entropy.get (Fin.ofNat 32 (variant * 4 + i.val))
  else Vector.ofFn fun i => entropy.get (Fin.ofNat 32 ((seedIndices variant).getD i.val 0))

def familyKind (s : Store T) (family : Nat) : Except Error FamilyKind := do
  let family ← okOr (s.designFamilies.get family) .badFamily
  return family.kind

/-- The family and the seed of a person whose design can be derived from. -/
def proceduralOf (s : Store T) (parent : Nat) : Except Error (Nat × ProceduralSeed) := do
  let person ← okOr (s.people.get parent) .badParent
  match ← okOr person.design .badParent with
  | .procedural family seed => return (family, seed)
  | _ => .error .designInvalid

def bakeDesign (s : Store T) (choice : InkChoice) (entropy : Entropy) (account : T.AccountId) (id : Nat) :
    Except Error InkSpec :=
  match choice with
  | .designedElective family design => do
    ensure (s.committedDesigns.contains (family, design) = false) .designTaken
    match ← familyKind s family with
    | .designed count => do
      ensure (design < count) .indexTooBig
      return .designedElective family design
    | _ => .error .wrongFamily
  | .proceduralAccount family => do
    match ← familyKind s family with
    | .proceduralAccount => return .proceduralAccount family (T.accountBytes account)
    | _ => .error .wrongFamily
  | .proceduralPersonal family => do
    match ← familyKind s family with
    | .proceduralPersonal => return .proceduralPersonal family id
    | _ => .error .wrongFamily
  | .procedural family variant => do
    match ← familyKind s family with
    | .procedural range => do
      ensure (variant < range) .indexTooBig
      return .procedural family (entropyToSeed entropy variant)
    | _ => .error .wrongFamily
  | .proceduralDerivative parent secondary => do
    let (family, seed) ← proceduralOf s parent
    match secondary with
    | none => return .procedural family (mutateSeed seed entropy)
    | some parent2 => do
      let (_, seed2) ← proceduralOf s parent2
      return .procedural family (mutateSeed ((seed.set 2 seed2[2]).set 3 seed2[3]) entropy)

/-- An elective design has a status. -/
def markDesign (s : Store T) (design : InkSpec) (status : DesignStatus) : Store T :=
  { s with committedDesigns := match design.elective with
      | some key => s.committedDesigns.insert key status
      | none => s.committedDesigns }

/-- An elective design can be taken again. -/
def freeDesign (s : Store T) (design : InkSpec) : Store T :=
  { s with committedDesigns := match design.elective with
      | some key => s.committedDesigns.remove key
      | none => s.committedDesigns }

/-! ### Candidates -/

def putCandidate (s : Store T) (account : T.AccountId) (status : Candidate T) : Store T :=
  { s with candidates := s.candidates.insert account status }

def dropCandidate (s : Store T) (account : T.AccountId) : Store T :=
  { s with candidates := s.candidates.remove account }

def newApplication (env : Env T) (account : T.AccountId) (cred : Credibility T) : Candidate T :=
  .applied cred (env.random account) env.now

def apply (env : Env T) (s : Store T) (account : T.AccountId) : Except Error (Store T) := do
  ensure (s.candidates.contains account = false) .inProgress
  let (deposit, world) ← okOr (T.newDeposit s.world account) .deposit
  return putCandidate { s with world := world } account (newApplication env account (.deposit deposit))

def applyWithSignature (env : Env T) (s : Store T) (account : T.AccountId) (referrer : Nat)
    (signature : T.TicketSignature) (ticket : T.Ticket) : Except Error (Store T) := do
  let tickets ← okOr (s.referralTickets.get referrer) .noTicket
  let pos ← okOr (tickets.toList.findIdx? fun t => t = ticket && T.verifyTicket signature account t) .noTicket
  let tickets := tickets.remove pos
  let record ← okOr (s.people.get referrer) .noReferrer
  let active ← okOr (record.activeReferrals.tryPush account) .noMoreReferrals
  return putCandidate { incSufficients s account with
    referralTickets := if tickets.toList = [] then s.referralTickets.remove referrer
      else s.referralTickets.insert referrer tickets
    people := s.people.insert referrer { record with
      activeReferrals := active
      referrals := U32.saturatingInc record.referrals } } account (newApplication env account (.referred referrer))

def applyWithInvitation (env : Env T) (s : Store T) (account inviter : T.AccountId) (ticket : T.Ticket) :
    Except Error (Store T) := do
  ensure (s.pendingInvites.contains (inviter, ticket) = true) .noTicket
  return putCandidate { incSufficients s account with pendingInvites := s.pendingInvites.remove (inviter, ticket) }
    account (newApplication env account (.invited ticket))

def reroll (env : Env T) (s : Store T) (account : T.AccountId) : Except Error (Store T) := do
  let status ← okOr (s.candidates.get account) .notApplied
  let (cred, _, entropySince) ← okOr status.asApplied .notApplied
  let expiry := U32.saturatingAdd entropySince s.configuration.rerollTimeout
  ensure (expiry ≤ env.now) .tooEarly
  return putCandidate s account (.applied cred (env.random account) expiry)

/-- The id that is asked for, if it is free to reserve, or a new one. -/
def reserveId (registry : People.Store T.people) (requireId : Option Nat) :
    Except Error (Nat × People.Store T.people) :=
  match requireId with
  | some id => do
    let registry ← (People.renewIdReservation registry id).mapError .people
    return (id, registry)
  | none => .ok (People.reserveNewId registry)

def commit (env : Env T) (s : Store T) (account : T.AccountId) (choice : InkChoice) (requireId : Option Nat) :
    Except Error (Store T) := do
  let status ← okOr (s.candidates.get account) .notApplied
  let (cred, entropy, _) ← okOr status.asApplied .notApplied
  let config := s.configuration
  ensure (s.allocationCount < config.maximum) .busy
  let (id, registry) ← reserveId s.registry requireId
  let s := { s with registry := registry }
  let design ← bakeDesign s choice entropy account id
  let (allocation, len, count) := if s.allocationCount < config.fasttrackCount then
    (Allocation.full, config.fullAllocLen, config.fullAllocCount)
  else (Allocation.initial, config.initAllocLen, config.initAllocCount)
  let world ← okOr (T.allocateStorage s.world account len count) .storage
  let s := markDesign s design .reserved
  return putCandidate { s with
    world := world
    allocationCount := U32.saturatingInc s.allocationCount } account
    (.selected ⟨env.now, cred, id, entropy, design, allocation, none, 0⟩)

/-- The oracle takes a case, under a ticket of its own. -/
def judgeStatement (env : Env T) (s : Store T) (statement : Statement T) (context : T.AccountId) :
    Except Error (Nat × Store T) := do
  ensure (env.oracleAccepts = true) .oracle
  return (s.nextCase, { s with nextCase := s.nextCase + 1, cases := s.cases.insert s.nextCase ⟨statement, context⟩ })

def submitEvidence (env : Env T) (s : Store T) (account : T.AccountId) (evidence : T.EvidenceHash) :
    Except Error (Store T) := do
  let status ← okOr (s.candidates.get account) .notApplied
  let selection ← okOr status.asSelected .notSelected
  ensure (selection.judging = none) .alreadyStarted
  let (id, s) ← judgeStatement env s ⟨selection.design, evidence, selection.allocation = .initial⟩ account
  return putCandidate s account (.selected { selection with judging := some id })

def allocateFull (s : Store T) (account : T.AccountId) : Except Error (Store T) := do
  let status ← okOr (s.candidates.get account) .notApplied
  let selection ← okOr status.asSelected .badContext
  ensure (selection.allocation = .initDone) .improbable
  let config := s.configuration
  let len := config.fullAllocLen - config.initAllocLen
  let count := config.fullAllocCount - config.initAllocCount
  let world ← okOr (T.allocateStorage s.world account len count) .storage
  return putCandidate { s with world := world } account (.selected { selection with allocation := .full })

/-- The credibility of a candidate who has failed is forfeited. -/
def forfeit (referral : Store T → Nat → T.AccountId → Store T) (s : Store T) (account : T.AccountId) :
    Credibility T → Store T
  | .referred who => referral s who account
  | .deposit ticket => burnDeposit s ticket account
  | .invited _ => closeInvitation s account

/-- A selected candidate goes, with its id and its design. -/
def dismiss (s : Store T) (account : T.AccountId) (selection : Selection T) : Except Error (Store T) := do
  let registry ← (People.cancelIdReservation s.registry selection.reserved).mapError .people
  return freeDesign (dropCandidate { s with
    registry := registry
    allocationCount := s.allocationCount - 1 } account) selection.design

/-- The credibility of a candidate who has proven itself. An invited account keeps its reference until it
registers. -/
def honour (s : Store T) (account : T.AccountId) : Credibility T → Store T
  | .referred who => referralOk s who account
  | .deposit ticket => returnDeposit s ticket account
  | .invited _ => s

/-- The oracle calls back. -/
def judged (s : Store T) (ticket : Nat) (account : T.AccountId) (judgement : Judgement) : Except Error (Store T) := do
  let status ← okOr (s.candidates.get account) .badContext
  let selection ← okOr status.asSelected .badContext
  let id ← okOr selection.judging .badContext
  ensure (id = ticket) .unexpectedJudgement
  let selection := { selection with judging := none }
  match judgement, selection.allocation with
  | .contempt, _ => dismiss (forfeit referralContemptuous s account selection.cred) account selection
  | .truth .false, _ | .truth .true, .initDone => do
    let failed := U32.saturatingInc selection.failed
    if failed > T.maxRetryAttempts then dismiss (forfeit referralBad s account selection.cred) account selection
    else do
      let world ← okOr (T.refreshAllocation s.world account) .storage
      return putCandidate { s with world := world } account (.selected { selection with failed := failed })
  | .truth .true, .initial => return putCandidate s account (.selected { selection with allocation := .initDone })
  | .truth .true, .full =>
    let s := honour { s with allocationCount := s.allocationCount - 1 } account selection.cred
    return putCandidate (markDesign s selection.design .committed) account
      (.proven selection.design selection.reserved selection.cred.isReferred selection.cred.isInvited)

def timeout (env : Env T) (s : Store T) (account : T.AccountId) : Except Error (Store T) := do
  let status ← okOr (s.candidates.get account) .notApplied
  let selection ← okOr status.asSelected .badContext
  ensure (env.now > U32.wrappingAdd selection.since s.configuration.timeout) .tooEarly
  dismiss (forfeit referralBad s account selection.cred) account selection

/-- The credibility of a candidate who has not committed yet. -/
def release (s : Store T) (account : T.AccountId) : Credibility T → Store T
  | .referred who => referralFlaked s who account
  | .deposit ticket => returnDeposit s ticket account
  | .invited _ => closeInvitation s account

def flakeout (s : Store T) (account : T.AccountId) : Except Error (Store T) := do
  let status ← okOr (s.candidates.get account) .notApplied
  let (cred, _) ← okOr status.asApplied .badContext
  return dropCandidate (release s account cred) account

/-! ### Registering -/

def newPerson (design : InkSpec) : Person T :=
  ⟨some design, default, 1, 0, 0, 0, 0, false, 0⟩

def registerProvenCandidate (s : Store T) (account : T.AccountId) (id : Nat) (key : T.Member) (design : InkSpec)
    (destination : T.AccountId) (referrerReward : Bool) (proofOfOwnership : T.KeySignature) :
    Except Error (Store T) := do
  ensure (T.verifyOwnership proofOfOwnership account key = true) .invalidProofOfOwnership
  let s := dropCandidate s account
  let registry ← (People.recognizePersonhood s.registry id (some key)).mapError .people
  let s := { s with people := s.people.insert id (newPerson design), registry := registry }
  let s ← if referrerReward then registerReferrerReward s destination else .ok s
  registerReferredReward s destination

def registerReferred (s : Store T) (account : T.AccountId) (key : T.Member) (destination : T.AccountId)
    (proofOfOwnership : T.KeySignature) : Except Error (Store T) := do
  let status ← okOr (s.candidates.get account) .notApplied
  let (design, id, wasReferred, _) ← okOr status.asProven .notProven
  ensure (wasReferred = true) .notReferredCandidate
  let s ← registerProvenCandidate s account id key design destination false proofOfOwnership
  return decSufficients s account

def registerNonReferred (s : Store T) (account : T.AccountId) (key : T.Member) (destination : T.AccountId)
    (proofOfOwnership : T.KeySignature) : Except Error (Store T) := do
  let status ← okOr (s.candidates.get account) .notApplied
  let (design, id, wasReferred, wasInvited) ← okOr status.asProven .notProven
  ensure (wasReferred = false) .referredCandidate
  let s := if wasInvited then closeInvitation s account else s
  registerProvenCandidate s account id key design destination true proofOfOwnership

/-! ### Tickets, invitations and configuration -/

def setReferralTicket (s : Store T) (referrer : Nat) (ticket : T.Ticket) : Except Error (Store T) := do
  let record ← okOr (s.people.get referrer) .notPoiPerson
  ensure (record.banned = false) .banned
  ensure (record.pendingReferralRewards = 0) .rewardToRegister
  ensure (record.activeReferrals.length < T.maxActiveReferrals) .noMoreReferrals
  match s.referralTickets.get referrer with
  | some tickets => do
    ensure (record.allowedReferralTickets > tickets.length) .noMoreReferrals
    ensure (tickets.length + record.activeReferrals.length < T.maxActiveReferrals) .noMoreReferrals
    if ticket ∈ tickets.toList then return s
    else do
      let tickets ← okOr (tickets.tryPush ticket) .noMoreReferrals
      return { s with referralTickets := s.referralTickets.insert referrer tickets }
  | none => do
    let tickets ← okOr (BoundedVec.tryFrom [ticket]) .noMoreReferrals
    return { s with referralTickets := s.referralTickets.insert referrer tickets }

def cancelReferralTicket (s : Store T) (referrer : Nat) (ticket : T.Ticket) : Except Error (Store T) := do
  let record ← okOr (s.people.get referrer) .notPoiPerson
  ensure (record.banned = false) .banned
  let tickets ← okOr (s.referralTickets.get referrer) .noTicket
  ensure (ticket ∈ tickets.toList) .noTicket
  return { s with referralTickets := s.referralTickets.insert referrer (tickets.retain fun t => t ≠ ticket) }

def registerSuccessfulReferralReward (s : Store T) (referrer : Nat) (destination : T.AccountId) :
    Except Error (Store T) := do
  let record ← okOr (s.people.get referrer) .notPoiPerson
  ensure (record.banned = false) .banned
  ensure (1 ≤ record.pendingReferralRewards) .noRewardToRegister
  let s ← registerReferrerReward s destination
  return { s with people := s.people.insert referrer { record with
    pendingReferralRewards := record.pendingReferralRewards - 1 } }

def grantInvites (s : Store T) (account : T.AccountId) (count : Nat) : Store T :=
  { s with availableInvites :=
      s.availableInvites.insert account (U32.saturatingAdd ((s.availableInvites.get account).getD 0) count) }

def removeAvailableAndPendingInvites (s : Store T) (account : T.AccountId) (limit : Nat) : Store T :=
  { s with
    availableInvites := s.availableInvites.remove account
    pendingInvites := (s.pendingInvites.clearPrefix T.inviteRank account limit).1 }

def setInviteTicket (s : Store T) (inviter : T.AccountId) (ticket : T.Ticket) : Except Error (Store T) := do
  let available := (s.availableInvites.get inviter).getD 0
  ensure (1 ≤ available) .noInvites
  ensure (s.pendingInvites.contains (inviter, ticket) = false) .alreadyInvited
  return { s with
    pendingInvites := s.pendingInvites.insert (inviter, ticket) ()
    availableInvites := if 0 < available - 1 then s.availableInvites.insert inviter (available - 1)
      else s.availableInvites.remove inviter }

def cancelInviteTicket (s : Store T) (inviter : T.AccountId) (ticket : T.Ticket) : Except Error (Store T) := do
  ensure (s.pendingInvites.contains (inviter, ticket) = true) .noTicket
  return { s with
    pendingInvites := s.pendingInvites.remove (inviter, ticket)
    availableInvites :=
      s.availableInvites.insert inviter (U32.saturatingAdd ((s.availableInvites.get inviter).getD 0) 1) }

def setReimbursementValues (s : Store T) (referred referrer : ReimbursementValues T) : Except Error (Store T) := do
  ensure (referred.length = referrer.length) .invalidReimbursementValues
  ensure (∀ v ∈ referred.toList, v.1 > 0 ∧ v.2 > 0) .invalidReimbursementValues
  ensure (∀ v ∈ referrer.toList, v.1 > 0 ∧ v.2 > 0) .invalidReimbursementValues
  return { s with referredReimbursementValues := some referred, referrerReimbursementValues := some referrer }

/-! ### Dispatch -/

namespace Origin

def ensureSigned : Origin T → Except Error T.AccountId
  | .signed who => .ok who
  | _ => .error .badOrigin

def ensureSignedOrReferred : Origin T → Except Error T.AccountId
  | .signed who | .referredCandidate who => .ok who
  | _ => .error .badOrigin

def ensureSignedOrInvited : Origin T → Except Error T.AccountId
  | .signed who | .invitedCandidate who => .ok who
  | _ => .error .badOrigin

def ensureCredible : Origin T → Except Error T.AccountId
  | .signed who | .referredCandidate who | .invitedCandidate who => .ok who
  | _ => .error .badOrigin

def ensurePerson : Origin T → Except Error Nat
  | .person id => .ok id
  | _ => .error .badOrigin

def ensureManager : Origin T → Except Error Unit
  | .manager => .ok ()
  | _ => .error .badOrigin

def ensureInvitations : Origin T → Except Error Unit
  | .invitations => .ok ()
  | _ => .error .badOrigin

/-- Other extensions and pallets do not give the origins of this pallet. -/
def isOutside : Origin T → Bool
  | .authorizedApplyWithSig _ | .referredCandidate _ | .invitedCandidate _ => false
  | _ => true

end Origin

/-- A call under its origin. -/
def dispatch (env : Env T) (s : Store T) (origin : Origin T) (call : Call T) : Except Error (Store T) :=
  match call with
  | .apply => do apply env s (← origin.ensureSigned)
  | .submitEvidence evidence => do submitEvidence env s (← origin.ensureCredible) evidence
  | .registerReferred key destination proof => do
    registerReferred s (← origin.ensureSignedOrReferred) key destination proof
  | .registerNonReferred key destination proof => do
    registerNonReferred s (← origin.ensureSignedOrInvited) key destination proof
  | .reroll => do reroll env s (← origin.ensureCredible)
  | .commit choice requireId => do commit env s (← origin.ensureCredible) choice requireId
  | .allocateFull => do allocateFull s (← origin.ensureCredible)
  | .timeout account => do
    let _ ← origin.ensureSigned
    timeout env s account
  | .flakeout => do flakeout s (← origin.ensureCredible)
  | .applyWithSignature referrer signature ticket =>
    match origin with
    | .authorizedApplyWithSig account => applyWithSignature env s account referrer signature ticket
    | _ => .error .badOrigin
  | .applyWithInvitation inviter ticket _ =>
    match origin with
    | .invitedCandidate account => applyWithInvitation env s account inviter ticket
    | _ => .error .badOrigin
  | .addDesignFamily index kind id => do
    origin.ensureManager
    return { s with designFamilies := s.designFamilies.insert index ⟨kind, id⟩ }
  | .setReferralTicket ticket => do setReferralTicket s (← origin.ensurePerson) ticket
  | .cancelReferralTicket ticket => do cancelReferralTicket s (← origin.ensurePerson) ticket
  | .registerSuccessfulReferralReward destination => do
    registerSuccessfulReferralReward s (← origin.ensurePerson) destination
  | .grantInvites account count => do
    origin.ensureInvitations
    return grantInvites s account count
  | .removeAvailableAndPendingInvites account limit => do
    origin.ensureInvitations
    return removeAvailableAndPendingInvites s account limit
  | .setInviteTicket ticket => do setInviteTicket s (← origin.ensureSigned) ticket
  | .cancelInviteTicket ticket => do cancelInviteTicket s (← origin.ensureSigned) ticket
  | .setConfiguration config => do
    origin.ensureManager
    return { s with configuration := config }
  | .setReimbursementValues referred referrer => do
    origin.ensureManager
    setReimbursementValues s referred referrer
  | .other => .ok s

/-! ### The transaction extension -/

open People (InvalidTransaction)

def ensureSigner : Origin T → Except InvalidTransaction T.AccountId
  | .signed who => .ok who
  | _ => .error .call

/-- Any of the pallets gives the account a reference, or it exists without them. -/
def accountExists (env : Env T) (s : Store T) (who : T.AccountId) : Prop :=
  env.people.accountExists who = true ∨ 0 < s.registry.sufficients who ∨ 0 < s.sufficients who

instance (env : Env T) (s : Store T) (who : T.AccountId) : Decidable (accountExists env s who) :=
  inferInstanceAs (Decidable (_ ∨ _ ∨ _))

def ensureNotStale (s : Store T) (who : T.AccountId) (nonce : Nat) : Except InvalidTransaction Unit :=
  ensure (s.registry.nonces who ≤ nonce) .stale

def validateApplyWithSig (s : Store T) (who : T.AccountId) (nonce referrer : Nat) (signature : T.TicketSignature)
    (ticket : T.Ticket) : Except InvalidTransaction Unit := do
  ensure (s.candidates.contains who = false) .badSigner
  let record ← okOr (s.people.get referrer) .badProof
  ensure (record.banned = false) .badProof
  let tickets ← okOr (s.referralTickets.get referrer) .badProof
  ensure (ticket ∈ tickets.toList ∧ T.verifyTicket signature who ticket = true) .badProof
  -- A provider reference is taken for as long as the call runs: the account exists.
  ensureNotStale s who nonce

def validateApplyWithInvitation (s : Store T) (who : T.AccountId) (nonce : Nat) (inviter : T.AccountId)
    (signature : T.TicketSignature) (ticket : T.Ticket) : Except InvalidTransaction Unit := do
  ensure (s.candidates.contains who = false) .badSigner
  ensure (T.verifyTicket signature who ticket = true) .badSigner
  ensure (s.pendingInvites.contains (inviter, ticket) = true) .call
  ensureNotStale s who nonce

def Call.isProofOfInk : Call T → Bool
  | .other => false
  | _ => true

/-- The origin that the extension gives a transaction, and the account whose nonce it uses. -/
def validate (env : Env T) (s : Store T) (tx : Transaction T) :
    Except InvalidTransaction (Origin T × Option (T.AccountId × Nat)) :=
  match tx.asParticipant with
  | none => .ok (tx.signer, none)
  | some (.asApplyWithSig nonce) => do
    let who ← ensureSigner tx.signer
    match tx.call with
    | .applyWithSignature referrer signature ticket => do
      validateApplyWithSig s who nonce referrer signature ticket
      return (.authorizedApplyWithSig who, some (who, nonce))
    | _ => .error .call
  | some (.asReferred nonce) => do
    let who ← ensureSigner tx.signer
    let candidate ← okOr (s.candidates.get who) .call
    ensure (tx.call.isProofOfInk = true) .call
    ensure (candidate.isReferred = true) .call
    ensure (accountExists env s who) .payment
    ensureNotStale s who nonce
    return (.referredCandidate who, some (who, nonce))
  | some (.asInvited nonce) => do
    let who ← ensureSigner tx.signer
    match tx.call with
    | .applyWithInvitation inviter ticket signature => validateApplyWithInvitation s who nonce inviter signature ticket
    | call => do
      ensure (call.isProofOfInk = true) .call
      ensure ((s.candidates.get who).any Candidate.isInvited = true) .badSigner
      ensure (accountExists env s who) .payment
      ensureNotStale s who nonce
    return (.invitedCandidate who, some (who, nonce))

def prepare (s : Store T) : Option (T.AccountId × Nat) → Except InvalidTransaction (Store T)
  | none => .ok s
  | some (who, nonce) => do
    let registry ← People.prepareNonceForAccount s.registry who nonce
    return { s with registry := registry }

/-- The nonce stays used where the call fails. -/
def submit (env : Env T) (s : Store T) (tx : Transaction T) : Except InvalidTransaction (Store T) := do
  ensure (tx.signer.isOutside = true) .badSigner
  let (origin, val) ← validate env s tx
  let s ← prepare s val
  match dispatch env s origin tx.call with
  | .ok s => return s
  | .error _ => return s

/-! ### A chain with the pallet -/

variable (T)

structure Chain where
  store : Store T
  env : Env T

/-- `dispatch` is a call that another pallet dispatches, `people` what others do with the people pallet, and
`elsewhere` what the rest of the chain does to the services and to what the pallet reads. -/
inductive Action
  | submit (tx : Transaction T)
  | dispatch (origin : Origin T) (call : Call T)
  | judged (ticket : Nat) (judgement : Judgement)
  | people (action : People.Action T.people)
  | elsewhere (world : T.World) (env : Env T)

inductive Refusal
  | invalid (e : InvalidTransaction)
  | failed (e : Error)
  | people (e : People.Refusal)
  /-- There is no such case. -/
  | closed
  /-- The id is a candidate's. -/
  | foreign

variable {T}

/-- The id that is reserved for a candidate. -/
def Candidate.reserved : Candidate T → Option Nat
  | .applied _ _ _ => none
  | .selected selection => some selection.reserved
  | .proven _ reserved _ _ => some reserved

/-- The ids that are reserved for candidates. -/
def Store.reservedIds (s : Store T) : List Nat :=
  s.candidates.keys.filterMap fun account => (s.candidates.get account).bind Candidate.reserved

/-- A case is closed before its judgement is called back, and stays so if that fails. -/
def callBack (s : Store T) (ticket : Nat) (judgement : Judgement) : Except Refusal (Store T) := do
  let case ← okOr (s.cases.get ticket) .closed
  let s := { s with cases := s.cases.remove ticket }
  match judged s ticket case.context judgement with
  | .ok s => return s
  | .error _ => return s

def exec (c : Chain T) : Action T → Except Refusal (Chain T)
  | .submit tx => do
    let s ← (submit c.env c.store tx).mapError .invalid
    return { c with store := s }
  | .dispatch origin call => do
    ensure (origin.isOutside = true) (.failed .badOrigin)
    let s ← (dispatch c.env c.store origin call).mapError .failed
    return { c with store := s }
  | .judged ticket judgement => do
    let s ← callBack c.store ticket judgement
    return { c with store := s }
  | .people action => do
    ensure (∀ id ∈ action.taken, id ∉ c.store.reservedIds) .foreign
    let d ← (People.exec ⟨c.store.registry, c.env.people⟩ action).mapError .people
    return ⟨{ c.store with registry := d.store }, { c.env with people := d.env }⟩
  | .elsewhere world env => .ok ⟨{ c.store with world := world }, env⟩

/-- The chain before any candidate. -/
def genesis (members : T.people.memberService.World) (world : T.World) (env : Env T) : Chain T :=
  ⟨⟨∅, ∅, ∅, ∅, ∅, 0, { maximum_le := maximum_le_max, timeout_le := timeout_le_max }, ∅, ∅, none, none, (People.genesis members env.people).store, 0, ∅, world,
    fun _ => 0, []⟩, env⟩

end Individuality.ProofOfInk
