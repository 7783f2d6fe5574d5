import Individuality.ProofOfInk.Calls

/-! What the calls of proof of ink write.

`Effect` says what an accepted call does and `Judged` what an accepted judgement does: a
candidate applies, commits, submits evidence, is dismissed, proves itself or registers,
and everything else leaves candidates, people and designs as they are. `Step` says what
an action of the chain does by them. -/
namespace Individuality.ProofOfInk
open Support
open MobRule (Judgement Truth)
variable {T : Config} {s s' t : Store T} {c c' : Chain T} {a : Action T} {env : Env T} {account : T.AccountId}
  {call : Call T} {selection : Selection T}

/-! ### Judgements -/

/-- A selected candidate is gone, with its id and its design. -/
def dismissed (s : Store T) (account : T.AccountId) (selection : Selection T) (registry : People.Store T.people) :
    Store T :=
  freeDesign (dropCandidate { s with
    registry := registry
    allocationCount := s.allocationCount - 1 } account) selection.design

theorem dismiss_ok (hok : dismiss s account selection = .ok s') : ∃ registry,
    People.cancelIdReservation s.registry selection.reserved = .ok registry ∧ s' = dismissed s account selection registry := by
  simp only [dismiss, bind_eq_ok, mapError_eq_ok, pure_eq_ok] at hok
  obtain ⟨registry, hcancelled, rfl⟩ := hok
  exact ⟨registry, hcancelled, rfl⟩

@[simp] theorem forfeit_registry (account : T.AccountId) (cred : Credibility T) :
    (forfeit referralBad s account cred).registry = s.registry ∧
      (forfeit referralContemptuous s account cred).registry = s.registry := by
  cases cred <;> exact ⟨rfl, rfl⟩

/-- A judgement that counts as a failed attempt. -/
def unfavourable (judgement : Judgement) (allocation : Allocation) : Bool :=
  judgement = .truth .false ∨ judgement = .truth .true ∧ allocation = .initDone

/-- Whether an account is selected, and waits for the judgement of a case. -/
def Awaits (s : Store T) (account : T.AccountId) (ticket : Nat) (selection : Selection T) : Prop :=
  s.candidates.get account = some (.selected selection) ∧ selection.judging = some ticket

/-- What an accepted judgement writes. -/
inductive Judged (s : Store T) (ticket : Nat) (account : T.AccountId) (judgement : Judgement) : Store T → Prop
  | contempt {selection : Selection T} {registry : People.Store T.people} : Awaits s account ticket selection → judgement = .contempt →
    People.cancelIdReservation s.registry selection.reserved = .ok registry →
    Judged s ticket account judgement
      (dismissed (forfeit referralContemptuous s account selection.cred) account selection registry)
  | exhausted {selection : Selection T} {registry : People.Store T.people} : Awaits s account ticket selection →
    unfavourable judgement selection.allocation = true →
    U32.saturatingInc selection.failed > T.maxRetryAttempts →
    People.cancelIdReservation s.registry selection.reserved = .ok registry →
    Judged s ticket account judgement
      (dismissed (forfeit referralBad s account selection.cred) account selection registry)
  | retried {selection : Selection T} {world : T.World} : Awaits s account ticket selection →
    unfavourable judgement selection.allocation = true →
    U32.saturatingInc selection.failed ≤ T.maxRetryAttempts → T.refreshAllocation s.world account = some world →
    Judged s ticket account judgement (putCandidate { s with world := world } account
      (.selected { selection with judging := none, failed := U32.saturatingInc selection.failed }))
  | initDone {selection : Selection T} : Awaits s account ticket selection → judgement = .truth .true →
    selection.allocation = .initial →
    Judged s ticket account judgement (putCandidate s account
      (.selected { selection with judging := none, allocation := .initDone }))
  | proven {selection : Selection T} : Awaits s account ticket selection → judgement = .truth .true →
    selection.allocation = .full →
    Judged s ticket account judgement (putCandidate
      (markDesign (honour { s with allocationCount := s.allocationCount - 1 } account selection.cred)
        selection.design .committed) account
      (.proven selection.design selection.reserved selection.cred.isReferred selection.cred.isInvited))

theorem judged_ok {ticket : Nat} {judgement : Judgement} (hok : judged s ticket account judgement = .ok s') :
    Judged s ticket account judgement s' := by
  simp only [judged, bind_eq_ok, okOr_eq_ok, ensure_eq_ok, Candidate.asSelected_eq_some] at hok
  obtain ⟨status, hget, selection, rfl, id, hjudging, -, rfl, hok⟩ := hok
  have hawaits : Awaits s account id selection := ⟨hget, hjudging⟩
  have failure : ∀ {x : Store T}, unfavourable judgement selection.allocation = true →
      (if U32.saturatingInc selection.failed > T.maxRetryAttempts then
        dismiss (forfeit referralBad s account selection.cred) account { selection with judging := none }
      else do
        let world ← okOr (T.refreshAllocation s.world account) .storage
        return putCandidate { s with world := world } account
          (.selected { selection with judging := none, failed := U32.saturatingInc selection.failed })) = .ok x →
      Judged s id account judgement x := by
    intro x hunfavourable hok
    split at hok
    · rename_i hmany
      obtain ⟨registry, hcancelled, rfl⟩ := dismiss_ok hok
      rw [(forfeit_registry _ _).1] at hcancelled
      exact .exhausted hawaits hunfavourable hmany hcancelled
    · rename_i hfew
      simp only [bind_eq_ok, okOr_eq_ok, pure_eq_ok] at hok
      obtain ⟨world, hrefreshed, rfl⟩ := hok
      exact .retried hawaits hunfavourable (Nat.not_lt.mp hfew) hrefreshed
  split at hok
  · obtain ⟨registry, hcancelled, rfl⟩ := dismiss_ok hok
    rw [(forfeit_registry _ _).2] at hcancelled
    exact .contempt hawaits rfl hcancelled
  · exact failure (decide_eq_true (.inl rfl)) hok
  · rename_i hallocation
    exact failure (decide_eq_true (.inr ⟨rfl, hallocation⟩)) hok
  · rename_i hallocation
    cases hok
    exact .initDone hawaits rfl hallocation
  · rename_i hallocation
    cases hok
    exact .proven hawaits rfl hallocation

/-! ### Calls -/

/-- What storage and rewards make of the world: no deposit is touched. -/
inductive Served (world : T.World) : T.World → Prop
  | refl : Served world world
  | allocated {w w' : T.World} {account : T.AccountId} {len count : Nat} : Served world w →
    T.allocateStorage w account len count = some w' → Served world w'
  | refreshed {w w' : T.World} {account : T.AccountId} : Served world w →
    T.refreshAllocation w account = some w' → Served world w'
  | transferred {w w' : T.World} {source destination : T.AccountId} {value : Nat} : Served world w →
    T.transfer w source destination value = some w' → Served world w'

/-- What does not concern candidates, people, designs, ids or references. -/
structure Frame (s s' : Store T) : Prop where
  candidates : s'.candidates = s.candidates
  people : s'.people = s.people
  referralTickets : s'.referralTickets = s.referralTickets
  committedDesigns : s'.committedDesigns = s.committedDesigns
  allocationCount : s'.allocationCount = s.allocationCount
  registry : s'.registry = s.registry
  cases : s'.cases = s.cases
  nextCase : s'.nextCase = s.nextCase
  sufficients : s'.sufficients = s.sufficients
  settlements : s'.settlements = s.settlements
  served : Served s.world s'.world

theorem Frame.refl (s : Store T) : Frame s s := ⟨rfl, rfl, rfl, rfl, rfl, rfl, rfl, rfl, rfl, rfl, .refl⟩

/-- What an account that registers writes; the rest is as in a frame. -/
structure Registered (s : Store T) (account : T.AccountId) (design : InkSpec) (id : Nat)
    (wasReferred wasInvited : Bool) (s' : Store T) : Prop where
  proven : s.candidates.get account = some (.proven design id wasReferred wasInvited)
  candidates : s'.candidates = s.candidates.remove account
  people : s'.people = s.people.insert id (newPerson design)
  recognized : ∃ key, People.recognizePersonhood s.registry id (some key) = .ok s'.registry
  sufficients : s'.sufficients =
    if wasReferred || wasInvited then References.dec s.sufficients account else s.sufficients
  settlements : s'.settlements = s.settlements ++ if !wasReferred && wasInvited then [(account, .invitationClosed)] else []
  referralTickets : s'.referralTickets = s.referralTickets
  committedDesigns : s'.committedDesigns = s.committedDesigns
  allocationCount : s'.allocationCount = s.allocationCount
  cases : s'.cases = s.cases
  nextCase : s'.nextCase = s.nextCase
  served : Served s.world s'.world

theorem Served.trans {w w' w'' : T.World} (h : Served w w') (h' : Served w' w'') : Served w w'' := by
  induction h' with
  | refl => exact h
  | allocated _ hok ih => exact ih.allocated hok
  | refreshed _ hok ih => exact ih.refreshed hok
  | transferred _ hok ih => exact ih.transferred hok

theorem registerReward_ok {world world' : T.World} {values values' : Option (ReimbursementValues T)}
    {destination : T.AccountId} (hok : registerReward world values destination = .ok (world', values')) :
    Served world world' := by
  unfold registerReward at hok
  split at hok
  · cases hok
    exact .refl
  · simp only [bind_eq_ok, okOr_eq_ok, pure_eq_ok] at hok
    obtain ⟨_, htransferred, heq⟩ := hok
    cases heq
    exact Served.refl.transferred htransferred

theorem registerReferredReward_ok {destination : T.AccountId} (hok : registerReferredReward s destination = .ok s') :
    Frame s s' := by
  simp only [registerReferredReward, bind_eq_ok, pure_eq_ok] at hok
  obtain ⟨_, hrewarded, rfl⟩ := hok
  exact ⟨rfl, rfl, rfl, rfl, rfl, rfl, rfl, rfl, rfl, rfl, registerReward_ok hrewarded⟩

theorem registerReferrerReward_ok {destination : T.AccountId} (hok : registerReferrerReward s destination = .ok s') :
    Frame s s' := by
  simp only [registerReferrerReward, bind_eq_ok, pure_eq_ok] at hok
  obtain ⟨_, hrewarded, rfl⟩ := hok
  exact ⟨rfl, rfl, rfl, rfl, rfl, rfl, rfl, rfl, rfl, rfl, registerReward_ok hrewarded⟩

theorem Frame.trans {s s' s'' : Store T} (h : Frame s s') (h' : Frame s' s'') : Frame s s'' :=
  ⟨h'.candidates.trans h.candidates, h'.people.trans h.people, h'.referralTickets.trans h.referralTickets,
    h'.committedDesigns.trans h.committedDesigns, h'.allocationCount.trans h.allocationCount,
    h'.registry.trans h.registry, h'.cases.trans h.cases, h'.nextCase.trans h.nextCase,
    h'.sufficients.trans h.sufficients, h'.settlements.trans h.settlements, h.served.trans h'.served⟩

theorem registerProvenCandidate_ok {id : Nat} {key : T.Member} {design : InkSpec} {destination : T.AccountId}
    {referrerReward : Bool} {proof : T.KeySignature}
    (hok : registerProvenCandidate s account id key design destination referrerReward proof = .ok s') :
    ∃ registry, People.recognizePersonhood s.registry id (some key) = .ok registry ∧
      Frame { dropCandidate s account with people := s.people.insert id (newPerson design), registry := registry } s' := by
  simp only [registerProvenCandidate, bind_eq_ok, mapError_eq_ok] at hok
  obtain ⟨-, -, registry, hrecognized, hrewarded⟩ := hok
  refine ⟨registry, hrecognized, ?_⟩
  split at hrewarded
  · obtain ⟨t, hreferrer, hreferred⟩ := bind_eq_ok.mp hrewarded
    exact (registerReferrerReward_ok hreferrer).trans (registerReferredReward_ok hreferred)
  · obtain ⟨t, ht, hreferred⟩ := bind_eq_ok.mp hrewarded
    cases ht
    exact registerReferredReward_ok hreferred

theorem registerReferred_ok {key : T.Member} {destination : T.AccountId} {proof : T.KeySignature}
    (hok : registerReferred s account key destination proof = .ok s') :
    ∃ design id wasInvited, Registered s account design id true wasInvited s' := by
  simp only [registerReferred, bind_eq_ok, okOr_eq_ok, ensure_eq_ok, pure_eq_ok] at hok
  obtain ⟨status, hget, ⟨design, id, wasReferred, wasInvited⟩, hproven, -, hreferred, t, hregistered, rfl⟩ := hok
  cases hreferred
  cases Candidate.asProven_eq_some.mp hproven
  obtain ⟨registry, hrecognized, h⟩ := registerProvenCandidate_ok hregistered
  refine ⟨design, id, wasInvited, hget, h.candidates, h.people, ⟨key, ?_⟩, ?_, ?_, h.referralTickets,
    h.committedDesigns, h.allocationCount, h.cases, h.nextCase, h.served⟩
  · show _ = Except.ok t.registry
    rw [h.registry]
    exact hrecognized
  · show References.dec t.sufficients account = _
    rw [h.sufficients]
    rfl
  · show t.settlements = _
    rw [h.settlements]
    exact (List.append_nil _).symm

theorem registerNonReferred_ok {key : T.Member} {destination : T.AccountId} {proof : T.KeySignature}
    (hok : registerNonReferred s account key destination proof = .ok s') :
    ∃ design id wasInvited, Registered s account design id false wasInvited s' := by
  simp only [registerNonReferred, bind_eq_ok, okOr_eq_ok, ensure_eq_ok] at hok
  obtain ⟨status, hget, ⟨design, id, wasReferred, wasInvited⟩, hproven, -, hreferred, hregistered⟩ := hok
  cases hreferred
  cases Candidate.asProven_eq_some.mp hproven
  obtain ⟨registry, hrecognized, h⟩ := registerProvenCandidate_ok hregistered
  cases wasInvited with
  | true => exact ⟨design, id, true, hget, h.candidates, h.people, ⟨key, h.registry ▸ hrecognized⟩, h.sufficients,
      h.settlements, h.referralTickets, h.committedDesigns, h.allocationCount, h.cases, h.nextCase, h.served⟩
  | false => exact ⟨design, id, false, hget, h.candidates, h.people, ⟨key, h.registry ▸ hrecognized⟩, h.sufficients,
      h.settlements.trans (List.append_nil _).symm, h.referralTickets, h.committedDesigns, h.allocationCount, h.cases,
      h.nextCase, h.served⟩

/-- The new application of an account that is referred. -/
def refer (env : Env T) (s : Store T) (account : T.AccountId) (referrer : Nat) (record : Person T)
    (active : BoundedVec T.AccountId T.maxActiveReferrals)
    (referralTickets : StorageMap Nat (BoundedVec T.Ticket T.maxActiveReferrals)) : Store T :=
  putCandidate { incSufficients s account with
    referralTickets := referralTickets
    people := s.people.insert referrer { record with
      activeReferrals := active
      referrals := U32.saturatingInc record.referrals } } account (newApplication env account (.referred referrer))

/-- The new application of an account that is invited. -/
def invite (env : Env T) (s : Store T) (account inviter : T.AccountId) (ticket : T.Ticket) : Store T :=
  putCandidate { incSufficients s account with pendingInvites := s.pendingInvites.remove (inviter, ticket) }
    account (newApplication env account (.invited ticket))

/-- A candidate is selected. -/
def selected (s : Store T) (account : T.AccountId) (selection : Selection T) (registry : People.Store T.people)
    (world : T.World) : Store T :=
  putCandidate { markDesign { s with registry := registry } selection.design .reserved with
    world := world
    allocationCount := U32.saturatingInc s.allocationCount } account (.selected selection)

/-- What an accepted call of an account writes. -/
inductive Effect (env : Env T) (s : Store T) : Option T.AccountId → Call T → Store T → Prop
  | applied {account : T.AccountId} {deposit : T.Deposit} {world : T.World} : s.candidates.get account = none →
    T.newDeposit s.world account = some (deposit, world) →
    Effect env s (some account) .apply (putCandidate { s with world := world } account (newApplication env account (.deposit deposit)))
  | referred {account : T.AccountId} {referrer pos : Nat} {signature : T.TicketSignature} {ticket : T.Ticket}
      {record : Person T} {active : BoundedVec T.AccountId T.maxActiveReferrals}
      {tickets : BoundedVec T.Ticket T.maxActiveReferrals}
      {referralTickets : StorageMap Nat (BoundedVec T.Ticket T.maxActiveReferrals)} :
    s.candidates.get account = none → s.people.get referrer = some record →
    record.activeReferrals.tryPush account = some active → s.referralTickets.get referrer = some tickets →
    pos < tickets.length →
    referralTickets = (if (tickets.remove pos).toList = [] then s.referralTickets.remove referrer
      else s.referralTickets.insert referrer (tickets.remove pos)) →
    Effect env s (some account) (.applyWithSignature referrer signature ticket)
      (refer env s account referrer record active referralTickets)
  | invited {account inviter : T.AccountId} {signature : T.TicketSignature} {ticket : T.Ticket} :
    s.candidates.get account = none →
    Effect env s (some account) (.applyWithInvitation inviter ticket signature) (invite env s account inviter ticket)
  | rerolled {account : T.AccountId} {cred : Credibility T} {entropy entropy' : Entropy} {since since' : Nat} :
    s.candidates.get account = some (.applied cred entropy since) →
    Effect env s (some account) .reroll (putCandidate s account (.applied cred entropy' since'))
  | committed {account : T.AccountId} {choice : InkChoice} {requireId : Option Nat} {cred : Credibility T}
      {entropy : Entropy} {entropySince id : Nat} {registry : People.Store T.people} {design : InkSpec}
      {allocation : Allocation} {world : T.World} {len count : Nat} :
    s.candidates.get account = some (.applied cred entropy entropySince) →
    s.allocationCount < s.configuration.maximum → reserveId s.registry requireId = .ok (id, registry) →
    (∀ key, design.elective = some key → s.committedDesigns.get key = none) → allocation ≠ .initDone →
    T.allocateStorage s.world account len count = some world →
    Effect env s (some account) (.commit choice requireId) (selected s account
      ⟨env.now, cred, id, entropy, design, allocation, none, 0⟩ registry world)
  | submitted {account : T.AccountId} {evidence : T.EvidenceHash} {selection : Selection T} {case : Case T} :
    s.candidates.get account = some (.selected selection) → selection.judging = none → case.context = account →
    Effect env s (some account) (.submitEvidence evidence) (putCandidate { s with
      nextCase := s.nextCase + 1
      cases := s.cases.insert s.nextCase case } account (.selected { selection with judging := some s.nextCase }))
  | allocated {account : T.AccountId} {selection : Selection T} {world : T.World} {len count : Nat} :
    s.candidates.get account = some (.selected selection) → selection.allocation = .initDone →
    T.allocateStorage s.world account len count = some world →
    Effect env s (some account) .allocateFull (putCandidate { s with world := world } account
      (.selected { selection with allocation := .full }))
  | timedOut {who : Option T.AccountId} {account : T.AccountId} {selection : Selection T} {registry : People.Store T.people} :
    s.candidates.get account = some (.selected selection) →
    env.now > U32.wrappingAdd selection.since s.configuration.timeout →
    People.cancelIdReservation s.registry selection.reserved = .ok registry →
    Effect env s who (.timeout account)
      (dismissed (forfeit referralBad s account selection.cred) account selection registry)
  | flaked {account : T.AccountId} {cred : Credibility T} {entropy : Entropy} {entropySince : Nat} :
    s.candidates.get account = some (.applied cred entropy entropySince) →
    Effect env s (some account) .flakeout (dropCandidate (release s account cred) account)
  | registered {account : T.AccountId} {design : InkSpec} {id : Nat} {wasReferred wasInvited : Bool} {call : Call T}
      {s' : Store T} :
    Registered s account design id wasReferred wasInvited s' → Effect env s (some account) call s'
  | ticketSet {who : Option T.AccountId} {referrer : Nat} {ticket : T.Ticket} {record : Person T}
      {tickets : BoundedVec T.Ticket T.maxActiveReferrals} :
    s.people.get referrer = some record → record.activeReferrals.length + tickets.length ≤ T.maxActiveReferrals →
    Effect env s who (.setReferralTicket ticket)
      { s with referralTickets := s.referralTickets.insert referrer tickets }
  | ticketCancelled {who : Option T.AccountId} {referrer : Nat} {ticket : T.Ticket} {tickets : BoundedVec T.Ticket T.maxActiveReferrals} :
    s.referralTickets.get referrer = some tickets →
    Effect env s who (.cancelReferralTicket ticket)
      { s with referralTickets := s.referralTickets.insert referrer (tickets.retain fun t => t ≠ ticket) }
  | rewarded {who : Option T.AccountId} {referrer : Nat} {destination : T.AccountId} {record : Person T} {s' : Store T} :
    s.people.get referrer = some record → Frame s s' →
    Effect env s who (.registerSuccessfulReferralReward destination)
      { s' with people := s.people.insert referrer { record with
        pendingReferralRewards := record.pendingReferralRewards - 1 } }
  | frame {who : Option T.AccountId} {call : Call T} {s' : Store T} : Frame s s' → Effect env s who call s'

/-- No design is baked that is taken. -/
theorem bakeDesign_ok {choice : InkChoice} {entropy : Entropy} {id : Nat} {design : InkSpec} {key : Nat × Nat}
    (hok : bakeDesign s choice entropy account id = .ok design) (hkey : design.elective = some key) :
    s.committedDesigns.get key = none := by
  cases choice with
  | designedElective family index =>
    simp only [bakeDesign, bind_eq_ok, ensure_eq_ok, StorageMap.contains_eq_false] at hok
    obtain ⟨-, hfree, kind, -, hok⟩ := hok
    split at hok
    · simp only [bind_eq_ok, pure_eq_ok] at hok
      obtain ⟨-, -, rfl⟩ := hok
      cases hkey
      exact hfree
    · cases hok
  | proceduralAccount family =>
    simp only [bakeDesign, bind_eq_ok] at hok
    obtain ⟨kind, -, hok⟩ := hok
    split at hok
    · cases hok
      cases hkey
    · cases hok
  | proceduralPersonal family =>
    simp only [bakeDesign, bind_eq_ok] at hok
    obtain ⟨kind, -, hok⟩ := hok
    split at hok
    · cases hok
      cases hkey
    · cases hok
  | procedural family variant =>
    simp only [bakeDesign, bind_eq_ok] at hok
    obtain ⟨kind, -, hok⟩ := hok
    split at hok
    · simp only [bind_eq_ok, pure_eq_ok] at hok
      obtain ⟨-, -, rfl⟩ := hok
      cases hkey
    · cases hok
  | proceduralDerivative parent secondary =>
    simp only [bakeDesign, bind_eq_ok] at hok
    obtain ⟨_, -, hok⟩ := hok
    split at hok
    · cases hok
      cases hkey
    · simp only [bind_eq_ok, pure_eq_ok] at hok
      obtain ⟨_, -, rfl⟩ := hok
      cases hkey

theorem commit_ok {choice : InkChoice} {requireId : Option Nat} (hok : commit env s account choice requireId = .ok s') :
    Effect env s (some account) (.commit choice requireId) s' := by
  simp only [commit, bind_eq_ok, okOr_eq_ok, ensure_eq_ok, pure_eq_ok] at hok
  obtain ⟨status, hget, ⟨cred, entropy, entropySince⟩, happlied, -, hroom, ⟨id, registry⟩, hreserved, design, hbaked,
    world, hallocated, rfl⟩ := hok
  cases Candidate.asApplied_eq_some.mp happlied
  have hfree : ∀ key, design.elective = some key → s.committedDesigns.get key = none :=
    fun key hkey => bakeDesign_ok hbaked hkey
  by_cases hfast : s.allocationCount < s.configuration.fasttrackCount
  · rw [if_pos hfast] at hallocated ⊢
    exact .committed hget hroom hreserved hfree Allocation.noConfusion hallocated
  · rw [if_neg hfast] at hallocated ⊢
    exact .committed hget hroom hreserved hfree Allocation.noConfusion hallocated

/-- An account that the extension lets apply is not a candidate yet. -/
def Fresh (s : Store T) : Origin T → Call T → Prop
  | .authorizedApplyWithSig who, _ => s.candidates.get who = none
  | .invitedCandidate who, .applyWithInvitation _ _ _ => s.candidates.get who = none
  | _, _ => True

theorem setReferralTicket_ok {who : Option T.AccountId} {referrer : Nat} {ticket : T.Ticket}
    (hok : setReferralTicket s referrer ticket = .ok s') : Effect env s who (.setReferralTicket ticket) s' := by
  simp only [setReferralTicket, bind_eq_ok, okOr_eq_ok, ensure_eq_ok] at hok
  obtain ⟨record, hget, -, -, -, -, -, hactive, hok⟩ := hok
  split at hok
  · rename_i tickets htickets
    simp only [bind_eq_ok, ensure_eq_ok] at hok
    obtain ⟨-, -, -, hroom, hok⟩ := hok
    split at hok
    · cases hok
      exact .frame (Frame.refl s)
    · simp only [bind_eq_ok, okOr_eq_ok, pure_eq_ok] at hok
      obtain ⟨tickets', hpushed, rfl⟩ := hok
      have hlist := BoundedVec.tryPush_eq_some.mp hpushed
      refine .ticketSet hget ?_
      rw [BoundedVec.length, BoundedVec.length, hlist, List.length_append, List.length_singleton]
      rw [BoundedVec.length, BoundedVec.length] at hroom
      omega
  · simp only [bind_eq_ok, okOr_eq_ok, pure_eq_ok] at hok
    obtain ⟨tickets', hfrom, rfl⟩ := hok
    have hlist := BoundedVec.tryFrom_eq_some.mp hfrom
    refine .ticketSet hget ?_
    rw [BoundedVec.length, BoundedVec.length, hlist, List.length_singleton]
    rw [BoundedVec.length] at hactive
    omega

/-- The account that an origin stands for. -/
def Origin.who : Origin T → Option T.AccountId
  | .signed who | .authorizedApplyWithSig who | .referredCandidate who | .invitedCandidate who => some who
  | _ => Option.none

theorem ensureSigned_ok {origin : Origin T} (h : origin.ensureSigned = .ok account) : origin.who = some account := by
  cases origin with
  | signed who =>
    cases h
    rfl
  | _ => cases h

theorem ensureSignedOrReferred_ok {origin : Origin T} (h : origin.ensureSignedOrReferred = .ok account) :
    origin.who = some account := by
  cases origin with
  | signed who | referredCandidate who =>
    cases h
    rfl
  | _ => cases h

theorem ensureSignedOrInvited_ok {origin : Origin T} (h : origin.ensureSignedOrInvited = .ok account) :
    origin.who = some account := by
  cases origin with
  | signed who | invitedCandidate who =>
    cases h
    rfl
  | _ => cases h

theorem ensureCredible_ok {origin : Origin T} (h : origin.ensureCredible = .ok account) :
    origin.who = some account := by
  cases origin with
  | signed who | referredCandidate who | invitedCandidate who =>
    cases h
    rfl
  | _ => cases h

theorem dispatch_effect {origin : Origin T} (hfresh : Fresh s origin call) (hok : dispatch env s origin call = .ok s') :
    Effect env s origin.who call s' := by
  cases call with
  | apply =>
    simp only [dispatch, apply, bind_eq_ok, ensure_eq_ok, okOr_eq_ok, pure_eq_ok, StorageMap.contains_eq_false] at hok
    obtain ⟨account, hwho, -, hnone, ⟨deposit, world⟩, hnew, rfl⟩ := hok
    rw [ensureSigned_ok hwho]
    exact .applied hnone hnew
  | submitEvidence evidence =>
    simp only [dispatch, submitEvidence, judgeStatement, bind_eq_ok, ensure_eq_ok, okOr_eq_ok, pure_eq_ok,
      Candidate.asSelected_eq_some] at hok
    obtain ⟨account, hwho, status, hget, selection, rfl, -, hnone, _, ⟨-, -, rfl⟩, rfl⟩ := hok
    rw [ensureCredible_ok hwho]
    exact .submitted hget hnone rfl
  | registerReferred key destination proof =>
    simp only [dispatch, bind_eq_ok] at hok
    obtain ⟨account, hwho, hok⟩ := hok
    obtain ⟨design, id, wasInvited, h⟩ := registerReferred_ok hok
    rw [ensureSignedOrReferred_ok hwho]
    exact .registered h
  | registerNonReferred key destination proof =>
    simp only [dispatch, bind_eq_ok] at hok
    obtain ⟨account, hwho, hok⟩ := hok
    obtain ⟨design, id, wasInvited, h⟩ := registerNonReferred_ok hok
    rw [ensureSignedOrInvited_ok hwho]
    exact .registered h
  | reroll =>
    simp only [dispatch, reroll, bind_eq_ok, okOr_eq_ok, pure_eq_ok] at hok
    obtain ⟨account, hwho, status, hget, ⟨cred, entropy, since⟩, happlied, -, -, rfl⟩ := hok
    rw [ensureCredible_ok hwho]
    cases Candidate.asApplied_eq_some.mp happlied
    exact .rerolled hget
  | commit choice requireId =>
    simp only [dispatch, bind_eq_ok] at hok
    obtain ⟨account, hwho, hok⟩ := hok
    rw [ensureCredible_ok hwho]
    exact commit_ok hok
  | allocateFull =>
    simp only [dispatch, allocateFull, bind_eq_ok, ensure_eq_ok, okOr_eq_ok, pure_eq_ok,
      Candidate.asSelected_eq_some] at hok
    obtain ⟨account, hwho, status, hget, selection, rfl, -, hdone, world, hallocated, rfl⟩ := hok
    rw [ensureCredible_ok hwho]
    exact .allocated hget hdone hallocated
  | timeout account =>
    simp only [dispatch, timeout, bind_eq_ok, ensure_eq_ok, okOr_eq_ok, Candidate.asSelected_eq_some] at hok
    obtain ⟨-, -, status, hget, selection, rfl, -, hlate, hok⟩ := hok
    obtain ⟨registry, hcancelled, rfl⟩ := dismiss_ok hok
    rw [(forfeit_registry _ _).1] at hcancelled
    exact .timedOut hget hlate hcancelled
  | flakeout =>
    simp only [dispatch, flakeout, bind_eq_ok, okOr_eq_ok, pure_eq_ok] at hok
    obtain ⟨account, hwho, status, hget, ⟨cred, entropy, since⟩, happlied, rfl⟩ := hok
    rw [ensureCredible_ok hwho]
    cases Candidate.asApplied_eq_some.mp happlied
    exact .flaked hget
  | applyWithSignature referrer signature ticket =>
    cases origin with
    | authorizedApplyWithSig account =>
      simp only [dispatch, applyWithSignature, bind_eq_ok, okOr_eq_ok, pure_eq_ok] at hok
      obtain ⟨tickets, htickets, pos, hpos, record, hrecord, active, hpushed, rfl⟩ := hok
      obtain ⟨hlt, -⟩ := List.findIdx?_eq_some_iff_getElem.mp hpos
      exact .referred hfresh hrecord hpushed htickets hlt rfl
    | _ => cases hok
  | applyWithInvitation inviter ticket signature =>
    cases origin with
    | invitedCandidate account =>
      simp only [dispatch, applyWithInvitation, bind_eq_ok, pure_eq_ok] at hok
      obtain ⟨-, -, rfl⟩ := hok
      exact .invited hfresh
    | _ => cases hok
  | addDesignFamily index kind id =>
    simp only [dispatch, bind_eq_ok, pure_eq_ok] at hok
    obtain ⟨-, -, rfl⟩ := hok
    exact .frame ⟨rfl, rfl, rfl, rfl, rfl, rfl, rfl, rfl, rfl, rfl, .refl⟩
  | setReferralTicket ticket =>
    simp only [dispatch, bind_eq_ok] at hok
    obtain ⟨referrer, -, hok⟩ := hok
    exact setReferralTicket_ok hok
  | cancelReferralTicket ticket =>
    simp only [dispatch, cancelReferralTicket, bind_eq_ok, okOr_eq_ok, pure_eq_ok] at hok
    obtain ⟨referrer, -, record, -, -, -, tickets, htickets, -, -, rfl⟩ := hok
    exact .ticketCancelled htickets
  | registerSuccessfulReferralReward destination =>
    simp only [dispatch, registerSuccessfulReferralReward, bind_eq_ok, okOr_eq_ok, pure_eq_ok] at hok
    obtain ⟨referrer, -, record, hget, -, -, -, -, t, hrewarded, rfl⟩ := hok
    have hframe := registerReferrerReward_ok hrewarded
    rw [hframe.people]
    exact .rewarded hget hframe
  | grantInvites account count =>
    simp only [dispatch, bind_eq_ok, pure_eq_ok] at hok
    obtain ⟨-, -, rfl⟩ := hok
    exact .frame ⟨rfl, rfl, rfl, rfl, rfl, rfl, rfl, rfl, rfl, rfl, .refl⟩
  | removeAvailableAndPendingInvites account limit =>
    simp only [dispatch, bind_eq_ok, pure_eq_ok] at hok
    obtain ⟨-, -, rfl⟩ := hok
    exact .frame ⟨rfl, rfl, rfl, rfl, rfl, rfl, rfl, rfl, rfl, rfl, .refl⟩
  | setInviteTicket ticket =>
    simp only [dispatch, setInviteTicket, bind_eq_ok, pure_eq_ok] at hok
    obtain ⟨_, -, -, -, -, -, rfl⟩ := hok
    exact .frame ⟨rfl, rfl, rfl, rfl, rfl, rfl, rfl, rfl, rfl, rfl, .refl⟩
  | cancelInviteTicket ticket =>
    simp only [dispatch, cancelInviteTicket, bind_eq_ok, pure_eq_ok] at hok
    obtain ⟨_, -, -, -, rfl⟩ := hok
    exact .frame ⟨rfl, rfl, rfl, rfl, rfl, rfl, rfl, rfl, rfl, rfl, .refl⟩
  | setConfiguration config =>
    simp only [dispatch, bind_eq_ok, pure_eq_ok] at hok
    obtain ⟨-, -, rfl⟩ := hok
    exact .frame ⟨rfl, rfl, rfl, rfl, rfl, rfl, rfl, rfl, rfl, rfl, .refl⟩
  | setReimbursementValues referred referrer =>
    simp only [dispatch, setReimbursementValues, bind_eq_ok, pure_eq_ok] at hok
    obtain ⟨-, -, -, -, -, -, -, -, rfl⟩ := hok
    exact .frame ⟨rfl, rfl, rfl, rfl, rfl, rfl, rfl, rfl, rfl, rfl, .refl⟩
  | other =>
    cases hok
    exact .frame (Frame.refl s)

/-! ### Actions -/

theorem fresh_of_outside {origin : Origin T} (h : origin.isOutside = true) : Fresh s origin call := by
  cases origin with
  | authorizedApplyWithSig who => cases h
  | referredCandidate who => trivial
  | invitedCandidate who => cases h
  | _ => trivial

/-- An origin that the extension gives lets an account apply only if it is not a candidate yet. -/
theorem validate_fresh {tx : Transaction T} {origin : Origin T} {val : Option (T.AccountId × Nat)}
    (hsigner : tx.signer.isOutside = true) (hok : validate env s tx = .ok (origin, val)) :
    Fresh s origin tx.call := by
  unfold validate at hok
  split at hok
  · cases hok
    exact fresh_of_outside hsigner
  · simp only [bind_eq_ok] at hok
    obtain ⟨who, -, hok⟩ := hok
    split at hok
    · simp only [validateApplyWithSig, bind_eq_ok, ensure_eq_ok, StorageMap.contains_eq_false, pure_eq_ok] at hok
      obtain ⟨-, ⟨-, hnone, -⟩, heq⟩ := hok
      cases heq
      exact hnone
    · cases hok
  · simp only [bind_eq_ok, pure_eq_ok] at hok
    obtain ⟨who, -, _, -, -, -, -, -, -, -, -, -, heq⟩ := hok
    cases heq
    trivial
  · simp only [bind_eq_ok] at hok
    obtain ⟨who, -, hok⟩ := hok
    split at hok
    · rename_i hcall
      simp only [validateApplyWithInvitation, bind_eq_ok, ensure_eq_ok, StorageMap.contains_eq_false, pure_eq_ok] at hok
      obtain ⟨-, ⟨-, hnone, -⟩, heq⟩ := hok
      cases heq
      rw [hcall]
      exact hnone
    · rename_i hcall
      simp only [bind_eq_ok, pure_eq_ok] at hok
      obtain ⟨-, -, -, -, -, -, -, -, heq⟩ := hok
      cases heq
      unfold Fresh
      split
      · rename_i heq
        cases heq
      · rename_i hcall'
        exact absurd hcall' (hcall _ _ _)
      · trivial

theorem ensureSigner_ok {origin : Origin T} (h : ensureSigner origin = .ok account) : origin = .signed account := by
  cases origin with
  | signed who =>
    cases h
    rfl
  | _ => cases h

/-- The origin that a signer asks for. -/
def AsProofOfInkParticipantInfo.origin (who : T.AccountId) : AsProofOfInkParticipantInfo → Origin T
  | .asApplyWithSig _ => .authorizedApplyWithSig who
  | .asReferred _ => .referredCandidate who
  | .asInvited _ => .invitedCandidate who

theorem validate_asked {tx : Transaction T} {origin : Origin T} {val : Option (T.AccountId × Nat)}
    {info : AsProofOfInkParticipantInfo} (hinfo : tx.asParticipant = some info)
    (hok : validate env s tx = .ok (origin, val)) : ∃ who, tx.signer = .signed who ∧ origin = info.origin who := by
  unfold validate at hok
  rw [hinfo] at hok
  cases info with
  | asApplyWithSig nonce =>
    simp only [bind_eq_ok] at hok
    obtain ⟨who, hwho, hok⟩ := hok
    split at hok
    · simp only [bind_eq_ok, pure_eq_ok] at hok
      obtain ⟨-, -, heq⟩ := hok
      cases heq
      exact ⟨who, ensureSigner_ok hwho, rfl⟩
    · cases hok
  | asReferred nonce =>
    simp only [bind_eq_ok, pure_eq_ok] at hok
    obtain ⟨who, hwho, _, -, -, -, -, -, -, -, -, -, heq⟩ := hok
    cases heq
    exact ⟨who, ensureSigner_ok hwho, rfl⟩
  | asInvited nonce =>
    simp only [bind_eq_ok] at hok
    obtain ⟨who, hwho, hok⟩ := hok
    split at hok
    · simp only [bind_eq_ok, pure_eq_ok] at hok
      obtain ⟨-, -, heq⟩ := hok
      cases heq
      exact ⟨who, ensureSigner_ok hwho, rfl⟩
    · simp only [bind_eq_ok, pure_eq_ok] at hok
      obtain ⟨-, -, -, -, -, -, -, -, heq⟩ := hok
      cases heq
      exact ⟨who, ensureSigner_ok hwho, rfl⟩

/-- The extension does not change the account that a transaction is of. -/
theorem validate_account {tx : Transaction T} {origin : Origin T} {val : Option (T.AccountId × Nat)}
    (hok : validate env s tx = .ok (origin, val)) : origin.who = tx.signer.who := by
  cases hinfo : tx.asParticipant with
  | none =>
    unfold validate at hok
    rw [hinfo] at hok
    cases hok
    rfl
  | some info =>
    obtain ⟨who, hsigner, horigin⟩ := validate_asked hinfo hok
    rw [horigin, hsigner]
    cases info <;> rfl

/-- Ahead of the call, at most a nonce is used. -/
def Prepared (s t : Store T) : Prop := ∃ nonces, t = { s with registry := { s.registry with nonces := nonces } }

theorem Prepared.refl (s : Store T) : Prepared s s := ⟨s.registry.nonces, rfl⟩

theorem prepare_ok {val : Option (T.AccountId × Nat)} (hok : prepare s val = .ok t) : Prepared s t := by
  cases val with
  | none =>
    cases hok
    exact Prepared.refl s
  | some val =>
    simp only [prepare, People.prepareNonceForAccount, bind_eq_ok, pure_eq_ok] at hok
    obtain ⟨_, ⟨-, -, rfl⟩, rfl⟩ := hok
    exact ⟨_, rfl⟩

theorem Prepared.fresh {origin : Origin T} (h : Prepared s t) (hfresh : Fresh s origin call) : Fresh t origin call := by
  obtain ⟨nonces, rfl⟩ := h
  exact hfresh

/-- The call that an action makes of this pallet. -/
def Action.asCall : Action T → Option (Call T)
  | .submit tx => some tx.call
  | .dispatch _ call => some call
  | _ => none

/-- The account that an action's call is of. -/
def Action.caller : Action T → Option T.AccountId
  | .submit tx => tx.signer.who
  | .dispatch origin _ => origin.who
  | _ => none

/-- A case that is closed. -/
def closeCase (s : Store T) (ticket : Nat) : Store T := { s with cases := s.cases.remove ticket }

/-- What an action does. A call and a judgement may fail, and what was written ahead of them stays. -/
inductive Step (c : Chain T) : Action T → Chain T → Prop
  | call {a : Action T} {call : Call T} {t s' : Store T} : a.asCall = some call → Prepared c.store t →
    s' = t ∨ Effect c.env t a.caller call s' → Step c a { c with store := s' }
  | judged {ticket : Nat} {judgement : Judgement} {case : Case T} {s' : Store T} :
    c.store.cases.get ticket = some case →
    s' = closeCase c.store ticket ∨ Judged (closeCase c.store ticket) ticket case.context judgement s' →
    Step c (.judged ticket judgement) { c with store := s' }
  | people {action : People.Action T.people} {d : People.Chain T.people} :
    (∀ id ∈ action.taken, id ∉ c.store.reservedIds) →
    People.exec ⟨c.store.registry, c.env.people⟩ action = .ok d →
    Step c (.people action) ⟨{ c.store with registry := d.store }, { c.env with people := d.env }⟩
  | elsewhere {world : T.World} {env : Env T} : Step c (.elsewhere world env) ⟨{ c.store with world := world }, env⟩

theorem exec_step (hok : exec c a = .ok c') : Step c a c' := by
  cases a with
  | submit tx =>
    simp only [exec, submit, bind_eq_ok, mapError_eq_ok, ensure_eq_ok, pure_eq_ok] at hok
    obtain ⟨s', ⟨-, hsigner, ⟨origin, val⟩, hvalidated, t, hprepared, hdispatched⟩, rfl⟩ := hok
    have hready := prepare_ok hprepared
    refine .call rfl hready ?_
    split at hdispatched
    · rename_i hcall
      cases hdispatched
      have heffect := dispatch_effect (hready.fresh (validate_fresh hsigner hvalidated)) hcall
      rw [validate_account hvalidated] at heffect
      exact .inr heffect
    · cases hdispatched
      exact .inl rfl
  | dispatch origin call =>
    simp only [exec, bind_eq_ok, mapError_eq_ok, ensure_eq_ok, pure_eq_ok] at hok
    obtain ⟨-, hsigner, s', hcall, rfl⟩ := hok
    exact .call rfl (Prepared.refl _) (.inr (dispatch_effect (fresh_of_outside hsigner) hcall))
  | judged ticket judgement =>
    simp only [exec, callBack, bind_eq_ok, okOr_eq_ok, pure_eq_ok] at hok
    obtain ⟨s', ⟨case, hcase, hjudged⟩, rfl⟩ := hok
    refine .judged hcase ?_
    split at hjudged
    · rename_i hcall
      cases hjudged
      exact .inr (judged_ok hcall)
    · cases hjudged
      exact .inl rfl
  | people action =>
    simp only [exec, bind_eq_ok, mapError_eq_ok, ensure_eq_ok, pure_eq_ok] at hok
    obtain ⟨-, hspared, d, hexec, rfl⟩ := hok
    exact .people hspared hexec
  | elsewhere world env =>
    cases hok
    exact .elsewhere

theorem mem_reservedIds {id : Nat} : id ∈ s.reservedIds ↔
    ∃ account status, s.candidates.get account = some status ∧ status.reserved = some id := by
  rw [Store.reservedIds, List.mem_filterMap]
  constructor
  · rintro ⟨account, -, hreserved⟩
    obtain ⟨status, hget, hstatus⟩ := Option.bind_eq_some_iff.mp hreserved
    exact ⟨account, status, hget, hstatus⟩
  · rintro ⟨account, status, hget, hstatus⟩
    refine ⟨account, (StorageMap.mem_keys _ _).mpr ?_, Option.bind_eq_some_iff.mpr ⟨status, hget, hstatus⟩⟩
    rw [hget]
    rfl

end Individuality.ProofOfInk
