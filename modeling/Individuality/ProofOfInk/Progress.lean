import Individuality.ProofOfInk.Books

/-! Judgements, applications and registrations that succeed.

A judgement needs the id of its candidate reserved, at most; an application on a ticket
needs a place among the referrals of the person, which the books keep free for every
ticket (`Referrals.room`); and a registration needs what the people pallet asks of a new
person, and a pot that pays the rewards of the moment, one after the other (`Pays`). -/
namespace Individuality.ProofOfInk
open Support
open MobRule (Judgement)
variable {T : Config} {s t : Store T} {env : Env T} {account : T.AccountId} {selection : Selection T}

/-! ### Judgements -/

/-- Whatever comes before, the dismissal only asks for the id to be reserved. -/
theorem exists_dismiss (hreserved : s.registry.reservedPersonalId.get selection.reserved = some ()) :
    ∃ s', dismiss s account selection = .ok s' := by
  have hcontains : s.registry.reservedPersonalId.contains selection.reserved = true :=
    StorageMap.contains_eq_true.mpr ⟨(), hreserved⟩
  refine ⟨dismissed s account selection { s.registry with
    reservedPersonalId := s.registry.reservedPersonalId.remove selection.reserved }, ?_⟩
  unfold dismiss People.cancelIdReservation
  rw [ensure_pos hcontains]
  rfl

theorem exists_judged {ticket : Nat} (hawaits : Awaits s account ticket selection)
    (hreserved : s.registry.reservedPersonalId.get selection.reserved = some ())
    (hstorage : (T.refreshAllocation s.world account).isSome = true) (judgement : Judgement) :
    ∃ s', judged s ticket account judgement = .ok s' := by
  obtain ⟨world, hrefreshed⟩ := Option.isSome_iff_exists.mp hstorage
  have hdismissed : ∀ referral : Store T → Nat → T.AccountId → Store T,
      (forfeit referral s account selection.cred).registry = s.registry →
      ∃ s', dismiss (forfeit referral s account selection.cred) account { selection with judging := none } = .ok s' :=
    fun referral hregistry => exists_dismiss (by rw [hregistry]; exact hreserved)
  have hfailed : ∃ s', (if U32.saturatingInc selection.failed > T.maxRetryAttempts then
        dismiss (forfeit referralBad s account selection.cred) account { selection with judging := none }
      else do
        let world ← okOr (T.refreshAllocation s.world account) .storage
        return putCandidate { s with world := world } account
          (.selected { selection with judging := none, failed := U32.saturatingInc selection.failed })) = .ok s' := by
    split
    · exact hdismissed referralBad (forfeit_registry _ _).1
    · rw [hrefreshed]
      exact ⟨_, rfl⟩
  unfold judged
  rw [hawaits.1]
  simp only [okOr_some, ok_bind, Candidate.asSelected, hawaits.2, ensure_pos]
  split
  · exact hdismissed referralContemptuous (forfeit_registry _ _).2
  · exact hfailed
  · exact hfailed
  · exact ⟨_, rfl⟩
  · exact ⟨_, rfl⟩

/-- A contempt is not carried out once the id is not reserved any more. -/
theorem judged_refused {ticket : Nat} (hawaits : Awaits s account ticket selection)
    (hnone : s.registry.reservedPersonalId.get selection.reserved = none) :
    (judged s ticket account .contempt).toOption.isNone = true := by
  cases hok : judged s ticket account .contempt with
  | error e => rfl
  | ok s' =>
    cases judged_ok hok with
    | contempt hawaits' _ hcancelled =>
      cases hawaits.1.symm.trans hawaits'.1
      cases hnone.symm.trans (People.cancelIdReservation_ok hcancelled).1
    | exhausted _ hunfavourable _ _ => cases hunfavourable
    | retried _ hunfavourable _ _ => cases hunfavourable
    | initDone _ hjudgement _ => cases hjudgement
    | proven _ hjudgement _ => cases hjudgement

/-- A contempt for one of two candidates with the same id leaves the other one without it. -/
theorem shared_id {s' : Store T} {ticket ticket' : Nat} {other : T.AccountId} {selection' : Selection T}
    (hjudged : judged s ticket account .contempt = .ok s') (hawaits : Awaits s account ticket selection)
    (hother : Awaits s other ticket' selection') (hne : other ≠ account) (hid : selection'.reserved = selection.reserved) :
    Awaits s' other ticket' selection' ∧ s'.registry.reservedPersonalId.get selection'.reserved = none := by
  cases judged_ok hjudged with
  | @contempt selection₀ registry hawaits' _ hcancelled =>
    cases hawaits.1.symm.trans hawaits'.1
    obtain ⟨-, rfl⟩ := People.cancelIdReservation_ok hcancelled
    refine ⟨⟨?_, hother.2⟩, ?_⟩
    · have hcandidates : (forfeit referralContemptuous s account selection.cred).candidates = s.candidates := by
        cases selection.cred <;> rfl
      show ((forfeit referralContemptuous s account selection.cred).candidates.remove account).get other = _
      rw [hcandidates, StorageMap.get_remove, if_neg hne]
      exact hother.1
    · refine (StorageMap.get_remove _ _ _).trans ?_
      rw [if_pos hid]
  | exhausted _ hunfavourable _ _ => cases hunfavourable
  | retried _ hunfavourable _ _ => cases hunfavourable
  | initDone _ hjudgement _ => cases hjudgement
  | proven _ hjudgement _ => cases hjudgement

/-- What becomes of an open case, whether its judgement is carried out or not. -/
theorem callBack_eq {ticket : Nat} {case : Case T} (hcase : s.cases.get ticket = some case) (judgement : Judgement) :
    callBack s ticket judgement =
      .ok ((judged (closeCase s ticket) ticket case.context judgement).toOption.getD (closeCase s ticket)) := by
  unfold callBack
  rw [hcase, okOr_some, ok_bind]
  unfold closeCase
  dsimp only
  cases judged { s with cases := s.cases.remove ticket } ticket case.context judgement <;> rfl

/-! ### Applications -/

/-- Under the extension's origin for it, with the nonce. -/
def Transaction.applies (tx : Transaction T) : Prop :=
  match tx.asParticipant, tx.call with
  | some (.asApplyWithSig _), .applyWithSignature _ _ _ => True
  | some (.asInvited _), .applyWithInvitation _ _ _ => True
  | _, _ => False

theorem exists_applyWithSignature (env : Env T) (h : Books s) (hready : Prepared s t) {referrer : Nat} {signature : T.TicketSignature}
    {ticket : T.Ticket} {nonce : Nat} (hvalidated : validateApplyWithSig s account nonce referrer signature ticket = .ok ()) :
    ∃ s', applyWithSignature env t account referrer signature ticket = .ok s' := by
  obtain ⟨nonces, rfl⟩ := hready
  simp only [validateApplyWithSig, bind_eq_ok, okOr_eq_ok, ensure_eq_ok] at hvalidated
  obtain ⟨-, -, record, hrecord, -, -, tickets, htickets, -, ⟨hmem, hverified⟩, -⟩ := hvalidated
  obtain ⟨pos, hpos⟩ : ∃ pos, (tickets.toList.findIdx? fun t => t = ticket && T.verifyTicket signature account t) =
      some pos := by
    refine Option.isSome_iff_exists.mp ?_
    rw [List.findIdx?_isSome, List.any_eq_true]
    exact ⟨ticket, hmem, by simp [hverified]⟩
  -- The books leave a place for the ticket.
  have hroom : record.activeReferrals.length < T.maxActiveReferrals := by
    have hroom := h.room referrer
    rw [Store.active, Store.tickets, hrecord, htickets] at hroom
    have hsome : 0 < tickets.length := List.length_pos_of_mem hmem
    exact Nat.lt_of_lt_of_le (Nat.lt_add_of_pos_right hsome) hroom
  have hlength : (record.activeReferrals.toList ++ [account]).length ≤ T.maxActiveReferrals := by
    rw [List.length_append, List.length_singleton]
    exact hroom
  obtain ⟨active, hactive, -⟩ := BoundedVec.exists_tryFrom hlength
  have hactive : record.activeReferrals.tryPush account = some active := hactive
  unfold applyWithSignature
  rw [htickets, okOr_some, ok_bind, hpos, okOr_some, ok_bind, hrecord]
  simp only [okOr_some, ok_bind, hactive]
  exact ⟨_, rfl⟩

theorem exists_applyWithInvitation (env : Env T) (hready : Prepared s t) {inviter : T.AccountId}
    {signature : T.TicketSignature} {ticket : T.Ticket} {nonce : Nat}
    (hvalidated : validateApplyWithInvitation s account nonce inviter signature ticket = .ok ()) :
    ∃ s', applyWithInvitation env t account inviter ticket = .ok s' := by
  obtain ⟨nonces, rfl⟩ := hready
  simp only [validateApplyWithInvitation, bind_eq_ok, ensure_eq_ok] at hvalidated
  obtain ⟨-, -, -, -, -, hpending, -⟩ := hvalidated
  unfold applyWithInvitation
  rw [ensure_pos hpending]
  exact ⟨_, rfl⟩

theorem exists_prepare {who : T.AccountId} {nonce : Nat} (hnonce : nonce ≤ s.registry.nonces who) :
    ∃ t, prepare s (some (who, nonce)) = .ok t := by
  unfold prepare People.prepareNonceForAccount
  simp only [ensure_pos hnonce, ok_bind]
  exact ⟨_, rfl⟩

/-- An application that the extension lets through with a nonce of the account's own is carried out. -/
theorem exists_applies (h : Books s) {tx : Transaction T} (happlies : tx.applies) {origin : Origin T} {who : T.AccountId}
    {nonce : Nat} (hvalidated : validate env s tx = .ok (origin, some (who, nonce)))
    (hnonce : nonce ≤ s.registry.nonces who) :
    ∃ t s', prepare s (some (who, nonce)) = .ok t ∧ dispatch env t origin tx.call = .ok s' := by
  obtain ⟨t, hprepared⟩ := exists_prepare hnonce
  have hready := prepare_ok hprepared
  unfold Transaction.applies at happlies
  unfold validate at hvalidated
  split at happlies
  · rename_i hasked hcall
    rw [hasked, hcall] at hvalidated
    simp only [bind_eq_ok, pure_eq_ok] at hvalidated
    obtain ⟨_, -, _, hauthorized, heq⟩ := hvalidated
    cases heq
    obtain ⟨s', happlied⟩ := exists_applyWithSignature env h hready hauthorized
    exact ⟨t, s', hprepared, by rw [hcall]; exact happlied⟩
  · rename_i hasked hcall
    rw [hasked, hcall] at hvalidated
    simp only [bind_eq_ok, pure_eq_ok] at hvalidated
    obtain ⟨_, -, _, hauthorized, heq⟩ := hvalidated
    cases heq
    obtain ⟨s', happlied⟩ := exists_applyWithInvitation env hready hauthorized
    exact ⟨t, s', hprepared, by rw [hcall]; exact happlied⟩
  · cases happlies

/-! ### Registrations -/

/-- The rewards of the moment for a registration, first that of a referrer if it is due. -/
def rewardsDue (s : Store T) (referrerReward : Bool) : List Nat :=
  (if referrerReward then ((nextReward s.referrerReimbursementValues).map Prod.fst).toList else []) ++
    ((nextReward s.referredReimbursementValues).map Prod.fst).toList

/-- The pot pays the values to the account, one after the other. -/
def Pays (destination : T.AccountId) : T.World → List Nat → Prop
  | _, [] => True
  | world, value :: rest =>
    ∃ world', T.transfer world T.proofOfInkPotId destination value = some world' ∧ Pays destination world' rest

theorem exists_registerReward {world : T.World} {values : Option (ReimbursementValues T)} {destination : T.AccountId}
    {rest : List Nat} (hpays : Pays destination world (((nextReward values).map Prod.fst).toList ++ rest)) :
    ∃ rewarded, registerReward world values destination = .ok rewarded ∧ Pays destination rewarded.1 rest := by
  unfold registerReward
  cases hnext : nextReward values with
  | none =>
    rw [hnext] at hpays
    exact ⟨_, rfl, hpays⟩
  | some due =>
    rw [hnext] at hpays
    obtain ⟨world', htransferred, hrest⟩ := hpays
    refine ⟨(world', some due.2), ?_, hrest⟩
    simp only [htransferred, okOr_some, ok_bind]
    rfl

theorem exists_registerReferredReward {destination : T.AccountId}
    (hpays : Pays destination s.world ((nextReward s.referredReimbursementValues).map Prod.fst).toList) :
    ∃ s', registerReferredReward s destination = .ok s' := by
  rw [← List.append_nil (Option.toList _)] at hpays
  obtain ⟨rewarded, hrewarded, -⟩ := exists_registerReward hpays
  refine ⟨{ s with world := rewarded.1, referredReimbursementValues := rewarded.2 }, ?_⟩
  unfold registerReferredReward
  rw [hrewarded]
  rfl

theorem exists_registerReferrerReward {destination : T.AccountId} {rest : List Nat}
    (hpays : Pays destination s.world (((nextReward s.referrerReimbursementValues).map Prod.fst).toList ++ rest)) :
    ∃ s', registerReferrerReward s destination = .ok s' ∧
      s'.referredReimbursementValues = s.referredReimbursementValues ∧ Pays destination s'.world rest := by
  obtain ⟨rewarded, hrewarded, hrest⟩ := exists_registerReward hpays
  refine ⟨{ s with world := rewarded.1, referrerReimbursementValues := rewarded.2 }, ?_, rfl, hrest⟩
  unfold registerReferrerReward
  rw [hrewarded]
  rfl

/-- A person is registered under an id that is reserved, with a key that the people pallet takes. -/
theorem exists_registerProvenCandidate {id : Nat} {key : T.Member} (design : InkSpec) {destination : T.AccountId}
    {referrerReward : Bool} {proof : T.KeySignature} (hproof : T.verifyOwnership proof account key = true)
    (hkey : s.registry.keys.contains key = false) (hreserved : s.registry.reservedPersonalId.get id = some ())
    (hadded : (T.people.memberService.addMembers s.registry.members [key]).isSome = true)
    (hpays : Pays destination s.world (rewardsDue s referrerReward)) :
    ∃ s', registerProvenCandidate s account id key design destination referrerReward proof = .ok s' := by
  obtain ⟨registry, hrecognized⟩ : ∃ registry, People.recognizePersonhood s.registry id (some key) = .ok registry := by
    obtain ⟨members, hadded⟩ := Option.isSome_iff_exists.mp hadded
    unfold People.recognizePersonhood
    simp only [ensure_pos hkey, ensure_pos (StorageMap.contains_eq_true.mpr ⟨(), hreserved⟩), hadded, ok_bind, okOr_some]
    exact ⟨_, rfl⟩
  unfold registerProvenCandidate
  simp only [ensure_pos hproof, ok_bind, hrecognized, dropCandidate, Except.mapError]
  cases referrerReward with
  | false => exact exists_registerReferredReward hpays
  | true =>
    obtain ⟨t, hrewarded, hvalues, hrest⟩ := exists_registerReferrerReward
      (s := { dropCandidate s account with people := s.people.insert id (newPerson design), registry := registry }) hpays
    have hvalues : t.referredReimbursementValues = s.referredReimbursementValues := hvalues
    rw [← hvalues] at hrest
    obtain ⟨s', hreferred⟩ := exists_registerReferredReward hrest
    exact ⟨s', bind_eq_ok.mpr ⟨t, hrewarded, hreferred⟩⟩

/-- The call that a proven candidate registers with. -/
def registration (wasReferred : Bool) (key : T.Member) (destination : T.AccountId) (proof : T.KeySignature) : Call T :=
  if wasReferred then .registerReferred key destination proof else .registerNonReferred key destination proof

theorem exists_registered (env : Env T) {design : InkSpec} {id : Nat} {wasReferred wasInvited : Bool} {key : T.Member}
    {destination : T.AccountId} {proof : T.KeySignature}
    (hget : s.candidates.get account = some (.proven design id wasReferred wasInvited))
    (hproof : T.verifyOwnership proof account key = true) (hkey : s.registry.keys.contains key = false)
    (hreserved : s.registry.reservedPersonalId.get id = some ())
    (hadded : (T.people.memberService.addMembers s.registry.members [key]).isSome = true)
    (hpays : Pays destination s.world (rewardsDue s !wasReferred)) :
    ∃ s', dispatch env s (.signed account) (registration wasReferred key destination proof) = .ok s' := by
  cases wasReferred with
  | true =>
    obtain ⟨t, hregistered⟩ := exists_registerProvenCandidate design hproof hkey hreserved hadded hpays
    refine ⟨decSufficients t account, ?_⟩
    show registerReferred s account key destination proof = _
    unfold registerReferred
    simp only [hget, okOr_some, ok_bind, Candidate.asProven, ensure_pos]
    exact bind_eq_ok.mpr ⟨t, hregistered, rfl⟩
  | false =>
    show ∃ s', registerNonReferred s account key destination proof = _
    unfold registerNonReferred
    simp only [hget, okOr_some, ok_bind, Candidate.asProven, ensure_pos]
    cases wasInvited with
    | true => exact exists_registerProvenCandidate (s := closeInvitation s account) _ hproof hkey hreserved hadded hpays
    | false => exact exists_registerProvenCandidate _ hproof hkey hreserved hadded hpays

end Individuality.ProofOfInk
