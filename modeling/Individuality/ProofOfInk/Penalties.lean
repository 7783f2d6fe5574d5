import Individuality.ProofOfInk.Books
import Individuality.ProofOfInk.Deposits

/-! Penalties are justified and happen once.

A `Standing` is what an account is and what its candidacy has come to: nothing is settled
before it ends, and what is settled then follows from the way in which it ends. A deposit
is burned and a referrer blamed only for contempt, for too many failed attempts, or after
a timeout. -/
namespace Individuality.ProofOfInk
open Support
open MobRule (Judgement Truth)
variable {T : Config} {s s' t : Store T} {c c' : Chain T} {a : Action T} {env : Env T} {account : T.AccountId}
  {selection : Selection T} {cred : Credibility T} {k : Candidacy T} {j : Journal T}
  {Held : T.World → T.Deposit → T.AccountId → Prop}

/-! ### Grounds -/

namespace Candidacy

/-- A verdict on one of the candidacy's cases that counts as a failed attempt. -/
def isFailure (k : Candidacy T) (v : Verdict) : Bool :=
  unfavourable v.judgement v.allocation && decide (v.ticket ∈ k.cases.map Prod.fst)

/-- How many attempts have failed. -/
def failures (k : Candidacy T) : Nat := k.verdicts.countP k.isFailure

/-- One of the candidacy's cases has been judged with contempt. -/
def Contemned (k : Candidacy T) : Prop := ∃ v ∈ k.verdicts, v.judgement = .contempt ∧ v.ticket ∈ k.cases.map Prod.fst

/-- A timeout was executed, and more blocks than configured have passed since the candidate committed.
Nothing is said of a timeout that ends beyond the last block. -/
def Lapsed (k : Candidacy T) : Prop := ∃ now timeout since, k.timedOutAt = some (now, timeout) ∧
  k.committedAt = some since ∧ (since + timeout ≤ U32.max → timeout < now - since)

def Justified (k : Candidacy T) : Prop := k.Contemned ∨ T.maxRetryAttempts < k.failures ∨ k.Lapsed

end Candidacy

/-- A deposit is burned, or a referrer blamed. -/
def Settlement.isPenalty : Settlement T → Bool
  | .depositBurned _ | .referralBad _ | .referralContemptuous _ => true
  | _ => false

namespace Credibility

/-- What becomes of a credibility when the candidate flakes out. -/
def onFlakeout : Credibility T → Settlement T
  | .referred who => .referralFlaked who
  | .deposit ticket => .depositReturned ticket
  | .invited _ => .invitationClosed

/-- An invitation is closed only when the candidate registers. -/
def onProven : Credibility T → List (Settlement T)
  | .referred who => [.referralOk who]
  | .deposit ticket => [.depositReturned ticket]
  | .invited _ => []

def onRegistered (cred : Credibility T) : List (Settlement T) := if cred.isInvited then [.invitationClosed] else []

end Credibility

/-- What an account is, and what its last candidacy has come to. -/
inductive Standing : Option (Candidate T) → Candidacy T → Prop
  | applied {entropy : Entropy} {since : Nat} {k : Candidacy T} : k.ending = none → k.settled = [] →
    Standing (some (.applied k.cred entropy since)) k
  | selected {selection : Selection T} {k : Candidacy T} : selection.cred = k.cred → k.ending = none → k.settled = [] →
    k.committedAt = some selection.since → selection.failed ≤ k.failures →
    (∀ ticket, selection.judging = some ticket → ticket ∈ k.cases.map Prod.fst) →
    Standing (some (.selected selection)) k
  | proven {design : InkSpec} {id : Nat} {k : Candidacy T} : k.ending = some .proven → k.settled = k.cred.onProven →
    Standing (some (.proven design id k.cred.isReferred k.cred.isInvited)) k
  | registered {k : Candidacy T} : k.ending = some .proven → k.settled = k.cred.onProven ++ k.cred.onRegistered →
    Standing none k
  | flaked {k : Candidacy T} : k.ending = some .flakedOut → k.settled = [k.cred.onFlakeout] → Standing none k
  | dismissed {contempt : Bool} {k : Candidacy T} : k.ending = some .dismissed →
    k.settled = [k.cred.forfeited contempt] → k.Justified → (contempt = true → k.Contemned) → Standing none k

/-! ### What a note adds -/

namespace Candidacy

theorem mem_cases_note {ticket : Nat} (h : ticket ∈ k.cases.map Prod.fst) :
    ticket ∈ (k.note c a c' account).cases.map Prod.fst := by
  obtain ⟨case, hcase, rfl⟩ := List.mem_map.mp h
  exact List.mem_map.mpr ⟨case, List.mem_append_left _ hcase, rfl⟩

theorem isFailure_note {v : Verdict} (h : k.isFailure v = true) : (k.note c a c' account).isFailure v = true := by
  unfold isFailure at h ⊢
  rw [Bool.and_eq_true] at h ⊢
  exact ⟨h.1, decide_eq_true (mem_cases_note (of_decide_eq_true h.2))⟩

/-- Failed attempts are not forgotten. -/
theorem failures_note : k.failures + (verdictOn c account a).toList.countP (k.note c a c' account).isFailure ≤
    (k.note c a c' account).failures := by
  have hold : k.failures ≤ k.verdicts.countP (k.note c a c' account).isFailure :=
    List.countP_mono_left fun _ _ h => isFailure_note h
  unfold failures at hold ⊢
  rw [show (k.note c a c' account).verdicts = k.verdicts ++ (verdictOn c account a).toList from rfl, List.countP_append]
  omega

theorem failures_le : k.failures ≤ (k.note c a c' account).failures := le_trans (Nat.le_add_right _ _) failures_note

theorem note_absent (hnone : c.store.candidates.get account = none) (hnews : news c.store c'.store account = []) :
    k.note c a c' account = k := by
  have hverdict : verdictOn c account a = none := by
    unfold verdictOn
    split
    · split
      · rename_i hget
        cases hnone.symm.trans hget
      · rfl
    · rfl
  unfold note
  rw [hnone, hnews, hverdict]
  simp only [openedCase, committedIn, timedOutIn, endingOf, registeredId, Option.toList_none, List.append_nil,
    Option.none_or, List.length_nil, Nat.add_zero]

theorem note_ending {x y : Option (Candidate T)} (hbefore : c.store.candidates.get account = x)
    (hafter : c'.store.candidates.get account = y) : (k.note c a c' account).ending = (endingOf x y).or k.ending := by
  rw [← hbefore, ← hafter]
  rfl

theorem note_committedAt {x y : Option (Candidate T)} (hbefore : c.store.candidates.get account = x)
    (hafter : c'.store.candidates.get account = y) :
    (k.note c a c' account).committedAt = (committedIn c x y).or k.committedAt := by
  rw [← hbefore, ← hafter]
  rfl

theorem note_settled {l : List (Settlement T)} (hsettled : k.settled = []) (hnews : news c.store c'.store account = l) :
    (k.note c a c' account).settled = l := by
  rw [← hnews]
  show k.settled ++ _ = _
  rw [hsettled, List.nil_append]

end Candidacy

/-! ### Settlements -/

theorem returned_of_held (law : LawfulDeposits T Held) {world : T.World} {ticket : T.Deposit} (h : Held world ticket account) :
    Credibility.returned world account ticket = [.depositReturned ticket] := by
  obtain ⟨world', hdrop⟩ := law.drop h
  rw [Credibility.returned, hdrop]
  rfl

theorem Secured.released (law : LawfulDeposits T Held) (h : Secured Held s) {status : Candidate T}
    (hget : s.candidates.get account = some status) (hpledge : status.pledge = cred.pledge) :
    cred.released s.world account = [cred.onFlakeout] ∧ cred.honoured s.world account = cred.onProven := by
  cases cred with
  | deposit ticket =>
    have hreturned := returned_of_held law (h account status ticket hget hpledge)
    exact ⟨hreturned, hreturned⟩
  | referred _ | invited _ => exact ⟨rfl, rfl⟩

namespace Standing

/-- A candidate that is selected stays so. -/
theorem kept {after : Selection T} (h : Standing (some (.selected selection)) k)
    (hbefore : c.store.candidates.get account = some (.selected selection))
    (hafter : c'.store.candidates.get account = some (.selected after)) (hnews : news c.store c'.store account = [])
    (hcred : after.cred = selection.cred) (hsince : after.since = selection.since)
    (hfailed : after.failed ≤ (k.note c a c' account).failures)
    (hjudging : ∀ ticket, after.judging = some ticket → ticket ∈ (k.note c a c' account).cases.map Prod.fst) :
    Standing (some (.selected after)) (k.note c a c' account) := by
  cases h with
  | selected hcred' hending hsettled hcommitted _ _ =>
    refine .selected (hcred.trans hcred') ((Candidacy.note_ending hbefore hafter).trans hending)
      (Candidacy.note_settled hsettled hnews) ?_ hfailed hjudging
    rw [hsince]
    exact (Candidacy.note_committedAt hbefore hafter).trans hcommitted

theorem idle (h : Standing (c.store.candidates.get account) k)
    (hsame : c'.store.candidates.get account = c.store.candidates.get account)
    (hnews : news c.store c'.store account = []) : Standing (c'.store.candidates.get account) (k.note c a c' account) := by
  cases hbefore : c.store.candidates.get account with
  | none =>
    rw [Candidacy.note_absent hbefore hnews, hsame]
    exact h
  | some status =>
    rw [hbefore] at h hsame
    rw [hsame]
    cases h with
    | applied hending hsettled =>
      exact .applied ((Candidacy.note_ending hbefore hsame).trans hending) (Candidacy.note_settled hsettled hnews)
    | selected hcred hending hsettled hcommitted hfailed hjudging =>
      exact kept (.selected hcred hending hsettled hcommitted hfailed hjudging) hbefore hsame hnews rfl rfl
        (le_trans hfailed Candidacy.failures_le) fun ticket hticket => Candidacy.mem_cases_note (hjudging ticket hticket)
    | proven hending hsettled =>
      refine .proven ((Candidacy.note_ending hbefore hsame).trans hending) ?_
      show k.settled ++ _ = _
      rw [hnews, List.append_nil]
      exact hsettled

/-- A selected candidate is gone, for a reason. -/
theorem dismiss {contempt : Bool} (h : Standing (some (.selected selection)) k)
    (hbefore : c.store.candidates.get account = some (.selected selection))
    (hafter : c'.store.candidates.get account = none)
    (hnews : news c.store c'.store account = [selection.cred.forfeited contempt])
    (hjustified : (k.note c a c' account).Justified) (hcontempt : contempt = true → (k.note c a c' account).Contemned) :
    Standing none (k.note c a c' account) := by
  cases h with
  | selected hcred _ hsettled _ _ _ =>
    refine .dismissed (Candidacy.note_ending hbefore hafter) ?_ hjustified hcontempt
    rw [Candidacy.note_settled hsettled hnews, hcred]
    rfl

/-- The case that a candidate waits for is its own. -/
theorem own {ticket : Nat} (h : Standing (some (.selected selection)) k) (hjudging : selection.judging = some ticket) :
    ticket ∈ (k.note c a c' account).cases.map Prod.fst := by
  cases h with
  | selected _ _ _ _ _ hown => exact Candidacy.mem_cases_note (hown ticket hjudging)

/-- One more attempt has failed. -/
theorem failed {judgement : Judgement} {ticket : Nat} (h : Standing (some (.selected selection)) k)
    (hdelivered : Delivered c a account selection judgement ticket)
    (hunfavourable : unfavourable judgement selection.allocation = true) :
    U32.saturatingInc selection.failed ≤ (k.note c a c' account).failures := by
  have hown : ticket ∈ (k.note c a c' account).cases.map Prod.fst := h.own hdelivered.awaits.2
  have hfailures : k.failures + _ ≤ (k.note c a c' account).failures := Candidacy.failures_note
  have hone : (verdictOn c account a).toList.countP (k.note c a c' account).isFailure = 1 := by
    rw [hdelivered.verdict]
    refine List.countP_eq_length.mpr fun v hv => ?_
    cases List.mem_singleton.mp hv
    rw [Candidacy.isFailure, hunfavourable, Bool.true_and]
    exact decide_eq_true hown
  have hinc : U32.saturatingInc selection.failed ≤ selection.failed + 1 := min_le_left _ _
  cases h with
  | selected _ _ _ _ hfailed _ => omega

theorem contemned {ticket : Nat} (h : Standing (some (.selected selection)) k)
    (hdelivered : Delivered c a account selection .contempt ticket) : (k.note c a c' account).Contemned :=
  ⟨_, List.mem_append_right _ (Option.mem_toList.mpr hdelivered.verdict), rfl, h.own hdelivered.awaits.2⟩

theorem lapsed (h : Standing (some (.selected selection)) k)
    (hbefore : c.store.candidates.get account = some (.selected selection))
    (hafter : c'.store.candidates.get account = none) (hcall : a.asCall = some (.timeout account))
    (hlate : c.env.now > U32.wrappingAdd selection.since c.store.configuration.timeout) :
    (k.note c a c' account).Lapsed := by
  cases h with
  | selected _ _ _ hcommitted _ _ =>
    refine ⟨c.env.now, c.store.configuration.timeout, selection.since, ?_,
      (Candidacy.note_committedAt hbefore hafter).trans hcommitted, fun hfits => ?_⟩
    · show (timedOutIn c account (c.store.candidates.get account) (c'.store.candidates.get account) a.asCall).or _ = _
      rw [hbefore, hafter, hcall, timedOutIn, if_pos rfl]
      rfl
    · rw [U32.wrappingAdd_eq hfits] at hlate
      omega

theorem note (law : LawfulDeposits T Held) (hsecured : Secured Held c.store)
    (h : Standing (c.store.candidates.get account) k) (hturn : Turn c a c' account)
    (hbegin : beginning (c.store.candidates.get account) (c'.store.candidates.get account) = none) :
    Standing (c'.store.candidates.get account) (k.note c a c' account) := by
  cases hturn with
  | idle hsame hnews => exact h.idle hsame hnews
  | begun hbefore hafter _ =>
    rw [hbefore, hafter] at hbegin
    cases hbegin
  | rerolled hbefore hafter hnews =>
    rw [hbefore] at h
    rw [hafter]
    cases h with
    | applied hending hsettled =>
      exact .applied ((Candidacy.note_ending hbefore hafter).trans hending) (Candidacy.note_settled hsettled hnews)
  | @committed entropy since selection hbefore hafter hsince hjudging hfailed hnews =>
    rw [hbefore] at h
    rw [hafter]
    generalize hcred : selection.cred = cred at h hbefore
    cases h with
    | applied hending hsettled =>
      refine .selected hcred ((Candidacy.note_ending hbefore hafter).trans hending)
        (Candidacy.note_settled hsettled hnews) ?_ (by omega) fun ticket hticket => nomatch hjudging.symm.trans hticket
      rw [Candidacy.note_committedAt hbefore hafter, hsince]
      rfl
  | @submitted selection hbefore hnone hafter _ hnews =>
    rw [hbefore] at h
    rw [hafter]
    refine h.kept hbefore hafter hnews rfl rfl ?_ fun ticket hticket => ?_
    · cases h with
      | selected _ _ _ _ hfailed _ => exact le_trans hfailed Candidacy.failures_le
    · refine List.mem_map.mpr ⟨(ticket, selection.allocation), List.mem_append_right _ (Option.mem_toList.mpr ?_), rfl⟩
      rw [hbefore, hafter, openedCase, if_pos hnone]
      exact congrArg (Option.map (·, selection.allocation)) hticket
  | allocated _ _ hbefore _ hafter hnews =>
    rw [hbefore] at h
    rw [hafter]
    refine h.kept hbefore hafter hnews rfl rfl ?_ fun ticket hticket => h.own hticket
    cases h with
    | selected _ _ _ _ hfailed _ => exact le_trans hfailed Candidacy.failures_le
  | retried hdelivered hunfavourable hafter hnews =>
    rw [hdelivered.awaits.1] at h
    rw [hafter]
    exact h.kept hdelivered.awaits.1 hafter hnews rfl rfl (h.failed hdelivered hunfavourable) nofun
  | initDone hdelivered hafter hnews =>
    rw [hdelivered.awaits.1] at h
    rw [hafter]
    refine h.kept hdelivered.awaits.1 hafter hnews rfl rfl ?_ nofun
    cases h with
    | selected _ _ _ _ hfailed _ => exact le_trans hfailed Candidacy.failures_le
  | @proven selection ticket hdelivered hfull hafter hnews =>
    have hbefore := hdelivered.awaits.1
    rw [(hsecured.released law hbefore rfl).2] at hnews
    rw [hbefore] at h
    rw [hafter]
    cases h with
    | selected hcred hending hsettled _ _ _ =>
      rw [hcred] at hnews ⊢
      exact .proven (Candidacy.note_ending hbefore hafter) (Candidacy.note_settled hsettled hnews)
  | contempt hdelivered hafter hnews =>
    have hbefore := hdelivered.awaits.1
    rw [hbefore] at h
    rw [hafter]
    exact h.dismiss hbefore hafter hnews (.inl (h.contemned hdelivered)) fun _ => h.contemned hdelivered
  | exhausted hdelivered hunfavourable hmany hafter hnews =>
    have hbefore := hdelivered.awaits.1
    rw [hbefore] at h
    rw [hafter]
    exact h.dismiss hbefore hafter hnews (.inr (.inl (lt_of_lt_of_le hmany (h.failed hdelivered hunfavourable)))) nofun
  | timedOut hcall hbefore hlate hafter hnews =>
    rw [hbefore] at h
    rw [hafter]
    exact h.dismiss hbefore hafter hnews (.inr (.inr (h.lapsed hbefore hafter hcall hlate))) nofun
  | @flaked cred entropy since hbefore hafter hnews =>
    rw [(hsecured.released law hbefore rfl).1] at hnews
    rw [hbefore] at h
    rw [hafter]
    cases h with
    | applied hending hsettled =>
      exact .flaked (Candidacy.note_ending hbefore hafter) (Candidacy.note_settled hsettled hnews)
  | registered hbefore hafter _ hnews =>
    rw [hbefore] at h
    rw [hafter]
    cases h with
    | proven hending hsettled =>
      refine .registered ((Candidacy.note_ending hbefore hafter).trans hending) ?_
      show k.settled ++ _ = k.cred.onProven ++ k.cred.onRegistered
      rw [hnews, hsettled]
      cases k.cred <;> rfl

end Standing

/-! ### Blame -/

/-- A person has more bad referrals, or is banned, only by what the settlements say. -/
structure Blames (s s' : Store T) (referrer : Nat) (p p' : Person T) : Prop where
  bad : p.badReferrals < p'.badReferrals →
    ∃ account, .referralBad referrer ∈ news s s' account ∨ .referralContemptuous referrer ∈ news s s' account
  banned : p.banned = false → p'.banned = true → ∃ account, .referralContemptuous referrer ∈ news s s' account

variable {referrer : Nat} {p p' : Person T}

theorem Blames.of_eq (hbad : p'.badReferrals ≤ p.badReferrals) (hbanned : p'.banned = true → p.banned = true) :
    Blames s s' referrer p p' :=
  ⟨fun hmore => absurd hmore (Nat.not_lt.mpr hbad), fun hfree hset => nomatch hfree.symm.trans (hbanned hset)⟩

theorem Blames.of_people (hget : s.people.get referrer = some p) (hget' : s'.people.get referrer = some p')
    (h : s'.people = s.people) : Blames s s' referrer p p' := by
  rw [h, hget] at hget'
  cases hget'
  exact .of_eq le_rfl id

/-- A record is written that blames nobody. -/
theorem Blames.of_insert {who : Nat} {record : Person T} (hget : s.people.get referrer = some p)
    (hget' : s'.people.get referrer = some p') (h : s'.people = s.people.insert who record)
    (hrecord : referrer = who → record.badReferrals ≤ p.badReferrals ∧ (record.banned = true → p.banned = true)) :
    Blames s s' referrer p p' := by
  rw [h, StorageMap.get_insert] at hget'
  split at hget'
  · rename_i hid
    cases hget'
    exact .of_eq (hrecord hid).1 (hrecord hid).2
  · rw [hget] at hget'
    cases hget'
    exact .of_eq le_rfl id

theorem Blames.of_modify {who : Nat} {f : Person T → Person T} (hget : s.people.get referrer = some p)
    (hget' : s'.people.get referrer = some p') (h : s'.people = s.people.modify who f)
    (hself : referrer = who → Blames s s' referrer p (f p)) : Blames s s' referrer p p' := by
  rw [h, StorageMap.get_modify] at hget'
  split at hget'
  · rename_i hid
    rw [← hid, hget] at hget'
    cases hget'
    exact hself hid
  · rw [hget] at hget'
    cases hget'
    exact .of_eq le_rfl id

theorem blames_forfeit_bad (hget : s.people.get referrer = some p) (hget' : s'.people.get referrer = some p')
    (hpeople : s'.people = (forfeit referralBad s account cred).people)
    (hsettlements : s'.settlements = (forfeit referralBad s account cred).settlements) :
    Blames s s' referrer p p' := by
  have hnews := news_own (hsettlements.trans (settlements_forfeit_bad s account cred))
  cases cred with
  | deposit _ | invited _ => exact .of_people hget hget' hpeople
  | referred who =>
    refine .of_modify hget hget' hpeople fun hwho => ⟨fun _ => ⟨account, .inl ?_⟩, fun hfree hset => nomatch hfree.symm.trans hset⟩
    rw [hnews, hwho]
    exact List.mem_singleton_self _

theorem blames_forfeit_contemptuous (hget : s.people.get referrer = some p) (hget' : s'.people.get referrer = some p')
    (hpeople : s'.people = (forfeit referralContemptuous s account cred).people)
    (hsettlements : s'.settlements = (forfeit referralContemptuous s account cred).settlements) :
    Blames s s' referrer p p' := by
  have hnews := news_own (hsettlements.trans (settlements_forfeit_contemptuous s account cred))
  cases cred with
  | deposit _ | invited _ => exact .of_people hget hget' hpeople
  | referred who =>
    have hmem : referrer = who → .referralContemptuous referrer ∈ news s s' account := by
      intro hwho
      rw [hnews, hwho]
      exact List.mem_singleton_self _
    exact .of_modify hget hget' hpeople fun hwho => ⟨fun _ => ⟨account, .inr (hmem hwho)⟩, fun _ _ => ⟨account, hmem hwho⟩⟩

theorem Effect.blames {who : Option T.AccountId} {call : Call T} (h : Effect env s who call s')
    (hget : s.people.get referrer = some p) (hget' : s'.people.get referrer = some p') : Blames s s' referrer p p' := by
  cases h with
  | @referred _ r _ _ _ record _ _ _ _ hrecord _ _ _ _ =>
    refine .of_insert hget hget' rfl fun hid => ?_
    rw [hid, hrecord] at hget
    cases hget
    exact ⟨le_rfl, id⟩
  | timedOut _ _ _ => exact blames_forfeit_bad hget hget' rfl rfl
  | @flaked account cred _ _ _ =>
    cases cred with
    | deposit _ | invited _ => exact .of_people hget hget' rfl
    | referred r => exact .of_modify hget hget' rfl fun _ => .of_eq le_rfl id
  | registered hreg => exact .of_insert hget hget' hreg.people fun _ => ⟨Nat.zero_le _, nofun⟩
  | @rewarded _ r _ record _ hrecord _ =>
    refine .of_insert hget hget' rfl fun hid => ?_
    rw [hid, hrecord] at hget
    cases hget
    exact ⟨le_rfl, id⟩
  | frame hframe => exact .of_people hget hget' hframe.people
  | _ => exact .of_people hget hget' rfl

theorem Judged.blames {ticket : Nat} {judgement : Judgement} (h : Judged s ticket account judgement s')
    (hget : s.people.get referrer = some p) (hget' : s'.people.get referrer = some p') : Blames s s' referrer p p' := by
  cases h with
  | contempt _ _ _ => exact blames_forfeit_contemptuous hget hget' rfl rfl
  | exhausted _ _ _ _ => exact blames_forfeit_bad hget hget' rfl rfl
  | @proven selection _ _ _ =>
    cases hcred : selection.cred with
    | deposit _ | invited _ =>
      rw [hcred] at hget'
      exact .of_people hget hget' rfl
    | referred r =>
      rw [hcred] at hget'
      exact .of_modify hget hget' rfl fun _ => .of_eq le_rfl id
  | _ => exact .of_people hget hget' rfl

theorem step_blames (hstep : Step c a c') (hget : c.store.people.get referrer = some p)
    (hget' : c'.store.people.get referrer = some p') : Blames c.store c'.store referrer p p' := by
  cases hstep with
  | call _ hprepared heffect =>
    obtain ⟨nonces, rfl⟩ := hprepared
    rcases heffect with rfl | heffect
    · exact .of_people hget hget' rfl
    · exact ⟨(heffect.blames hget hget').bad, (heffect.blames hget hget').banned⟩
  | judged _ hjudged =>
    rcases hjudged with rfl | hjudged
    · exact .of_people hget hget' rfl
    · exact ⟨(hjudged.blames hget hget').bad, (hjudged.blames hget hget').banned⟩
  | people _ _ => exact .of_people hget hget' rfl
  | elsewhere => exact .of_people hget hget' rfl

/-! ### Runs -/

/-- The credibility of a candidate has not been settled yet. -/
def Candidate.isUnsettled : Candidate T → Bool
  | .applied _ _ _ | .selected _ => true
  | .proven _ _ _ wasInvited => wasInvited

namespace Standing

theorem settled_length {status : Option (Candidate T)} (h : Standing status k) :
    k.settled.length = if status.any Candidate.isUnsettled = true then 0 else 1 := by
  cases h with
  | applied _ hsettled | selected _ _ hsettled _ _ _ =>
    rw [hsettled]
    rfl
  | proven _ hsettled | registered _ hsettled =>
    rw [hsettled]
    cases k.cred <;> rfl
  | flaked _ hsettled | dismissed _ hsettled _ _ =>
    rw [hsettled]
    rfl

theorem isPenalty_onProven (cred : Credibility T) : ∀ x ∈ cred.onProven ++ cred.onRegistered, x.isPenalty = false := by
  cases cred <;> exact fun x hx => by
    cases List.mem_singleton.mp hx
    rfl

theorem isPenalty_onFlakeout (cred : Credibility T) : ∀ x ∈ [cred.onFlakeout], x.isPenalty = false := by
  cases cred <;> exact fun x hx => by
    cases List.mem_singleton.mp hx
    rfl

/-- A penalty is that of a candidate that was dismissed. -/
theorem penalty {status : Option (Candidate T)} (h : Standing status k) {x : Settlement T} (hx : x ∈ k.settled)
    (hpenalty : x.isPenalty = true) : ∃ contempt, k.ending = some .dismissed ∧ x = k.cred.forfeited contempt ∧
      k.Justified ∧ (contempt = true → k.Contemned) := by
  cases h with
  | applied _ hsettled | selected _ _ hsettled _ _ _ =>
    rw [hsettled] at hx
    cases hx
  | proven _ hsettled =>
    rw [hsettled] at hx
    cases hpenalty.symm.trans (isPenalty_onProven k.cred x (List.mem_append_left _ hx))
  | registered _ hsettled =>
    rw [hsettled] at hx
    cases hpenalty.symm.trans (isPenalty_onProven k.cred x hx)
  | flaked _ hsettled =>
    rw [hsettled] at hx
    cases hpenalty.symm.trans (isPenalty_onFlakeout k.cred x hx)
  | @dismissed contempt _ hending hsettled hjustified hcontempt =>
    rw [hsettled] at hx
    exact ⟨contempt, hending, List.mem_singleton.mp hx, hjustified, hcontempt⟩

theorem contemptuous {status : Option (Candidate T)} (h : Standing status k)
    (hx : .referralContemptuous referrer ∈ k.settled) : k.Contemned := by
  obtain ⟨contempt, -, hforfeited, -, hcontempt⟩ := h.penalty hx rfl
  cases contempt with
  | true => exact hcontempt rfl
  | false =>
    generalize k.cred = cred at hforfeited
    cases cred <;> cases hforfeited

/-- In every other ending a deposit is returned. -/
theorem deposit_returned {status : Option (Candidate T)} (h : Standing status k)
    (hending : k.ending = some .flakedOut ∨ k.ending = some .proven) {ticket : T.Deposit} (hcred : k.cred = .deposit ticket) :
    k.settled = [.depositReturned ticket] := by
  cases h with
  | applied hnone _ | selected _ hnone _ _ _ _ =>
    rw [hnone] at hending
    rcases hending with hending | hending <;> cases hending
  | proven _ hsettled | registered _ hsettled | flaked _ hsettled =>
    rw [hsettled, hcred]
    rfl
  | dismissed hdismissed _ _ _ =>
    rw [hdismissed] at hending
    rcases hending with hending | hending <;> cases hending

end Standing

/-- The deposits of candidates are held, and every candidacy has come to what its account is. -/
structure Settling (Held : T.World → T.Deposit → T.AccountId → Prop) (s : Store T) (j : Journal T) : Prop where
  secured : Secured Held s
  begun : Begun s j
  standing : ∀ account k, j.candidacies account = some k → Standing (s.candidates.get account) k

/-- An account that applies has a new candidacy. -/
theorem standing_begun {earlier : List Nat}
    (hbegin : beginning (c.store.candidates.get account) (c'.store.candidates.get account) = some cred) :
    Standing (c'.store.candidates.get account) { cred := cred, earlier := earlier } := by
  unfold beginning at hbegin
  split at hbegin
  · rename_i entropy since _ hafter
    cases hbegin
    rw [hafter]
    have hnew : Standing (some (.applied _ entropy since)) ({ cred := cred, earlier := earlier } : Candidacy T) :=
      .applied rfl rfl
    exact hnew
  · cases hbegin

namespace Settling

theorem note (law : LawfulDeposits T Held) (h : Settling Held c.store j) (hspares : Spares Held c a)
    (hstep : Step c a c') : Settling Held c'.store (note c a c' j) := by
  refine ⟨h.secured.step law hspares hstep, h.begun.note hstep, fun account k hk => ?_⟩
  cases hbegin : beginning (c.store.candidates.get account) (c'.store.candidates.get account) with
  | some cred =>
    cases (note_begun hbegin).symm.trans hk
    exact standing_begun hbegin
  | none =>
    obtain ⟨old, hold, rfl⟩ := Option.map_eq_some_iff.mp ((note_kept hbegin).symm.trans hk)
    exact (h.standing account old hold).note law h.secured (step_turn hstep account) hbegin

/-- What is done with a credibility is noted with the candidacy. -/
theorem mem_settled (h : Settling Held c.store j) (hstep : Step c a c') {x : Settlement T}
    (hx : x ∈ news c.store c'.store account) :
    ∃ k, (ProofOfInk.note c a c' j).candidacies account = some k ∧ x ∈ k.settled := by
  have hturn := step_turn hstep account
  cases hbefore : c.store.candidates.get account with
  | none =>
    have hnews : news c.store c'.store account = [] := by
      cases hturn with
      | idle _ hnews | begun _ _ hnews => exact hnews
      | rerolled hget _ _ | committed hget _ _ _ _ _ | submitted hget _ _ _ _ | allocated _ _ hget _ _ _
      | timedOut _ hget _ _ _ | flaked hget _ _ | registered hget _ _ _ => cases hbefore.symm.trans hget
      | retried hdelivered _ _ _ | initDone hdelivered _ _ | proven hdelivered _ _ _ | contempt hdelivered _ _
      | exhausted hdelivered _ _ _ _ => cases hbefore.symm.trans hdelivered.awaits.1
    rw [hnews] at hx
    cases hx
  | some status =>
    obtain ⟨k, hk⟩ := h.begun account status hbefore
    have hbegin : beginning (c.store.candidates.get account) (c'.store.candidates.get account) = none := by
      rw [hbefore]
      rfl
    refine ⟨_, (note_kept hbegin).trans (congrArg (Option.map _) hk), ?_⟩
    exact List.mem_append_right _ hx

end Settling

theorem settling_reached {members : T.people.memberService.World} {world : T.World} {w : Chain T × Journal T}
    (law : LawfulDeposits T Held) (h : Reaches (noting exec note) (fun w a => Spares Held w.1 a)
      (genesis members world env, Journal.empty) w) : Settling Held w.1.store w.2 := by
  refine Reaches.noted (G := fun c a => Spares Held c a) (I := fun c j => Settling Held c.store j) h ⟨nofun, nofun, nofun⟩ fun c j a c' hsettling hspares hexec => ?_
  exact hsettling.note law hspares (exec_step hexec)

/-- In every run: the credibility of each candidacy is settled once, no earlier than it ends; a penalty
has its grounds, and the contempt of a referrer a verdict of contempt; a candidate that flakes out or
proves itself brings none and has its deposit back; and a person has more bad referrals, or is
banned, only where a candidacy that it has referred is settled so. -/
theorem penalties_justified {members : T.people.memberService.World} {world : T.World} {w : Chain T × Journal T}
    (law : LawfulDeposits T Held) (h : Reaches (noting exec note) (fun w a => Spares Held w.1 a)
      (genesis members world env, Journal.empty) w) :
    (∀ account k, w.2.candidacies account = some k →
      (k.settled.length = if (w.1.store.candidates.get account).any Candidate.isUnsettled = true then 0 else 1) ∧
      (∀ x ∈ k.settled, x.isPenalty = true → k.Justified) ∧
      (∀ referrer, .referralContemptuous referrer ∈ k.settled → k.Contemned) ∧
      (k.ending = some .flakedOut ∨ k.ending = some .proven → (∀ x ∈ k.settled, x.isPenalty = false) ∧
        ∀ ticket, k.cred = .deposit ticket → k.settled = [.depositReturned ticket])) ∧
    (∀ account status, w.1.store.candidates.get account = some status → ∃ k, w.2.candidacies account = some k) ∧
    ∀ a w', noting exec note w a = .ok w' → Spares Held w.1 a →
      ∀ referrer p p', w.1.store.people.get referrer = some p → w'.1.store.people.get referrer = some p' →
        (p.badReferrals < p'.badReferrals → ∃ account k, w'.2.candidacies account = some k ∧ k.Justified ∧
          (.referralBad referrer ∈ k.settled ∨ .referralContemptuous referrer ∈ k.settled)) ∧
        (p.banned = false → p'.banned = true → ∃ account k, w'.2.candidacies account = some k ∧ k.Contemned ∧
          .referralContemptuous referrer ∈ k.settled) := by
  have hsettling := settling_reached law h
  refine ⟨fun account k hk => ?_, hsettling.begun, fun a w' hw' hspares referrer p p' hget hget' => ?_⟩
  · have hstanding := hsettling.standing account k hk
    refine ⟨hstanding.settled_length, fun x hx hpenalty => ?_, fun referrer hx => hstanding.contemptuous hx,
      fun hending => ⟨fun x hx => ?_, fun ticket hcred => hstanding.deposit_returned hending hcred⟩⟩
    · obtain ⟨_, -, -, hjustified, -⟩ := hstanding.penalty hx hpenalty
      exact hjustified
    · refine Bool.eq_false_iff.mpr fun hpenalty => ?_
      obtain ⟨_, hdismissed, -, -, -⟩ := hstanding.penalty hx hpenalty
      rw [hdismissed] at hending
      rcases hending with hending | hending <;> cases hending
  · obtain ⟨hexec, hnote⟩ := noting_eq_ok hw'
    have hstep := exec_step hexec
    have hafter := hsettling.note law hspares hstep
    rw [hnote]
    have hblames := step_blames hstep hget hget'
    refine ⟨fun hmore => ?_, fun hfree hset => ?_⟩
    · obtain ⟨account, hnews | hnews⟩ := hblames.bad hmore
      · obtain ⟨k, hk, hx⟩ := hsettling.mem_settled hstep hnews
        obtain ⟨_, -, -, hjustified, -⟩ := (hafter.standing account k hk).penalty hx rfl
        exact ⟨account, k, hk, hjustified, .inl hx⟩
      · obtain ⟨k, hk, hx⟩ := hsettling.mem_settled hstep hnews
        exact ⟨account, k, hk, .inl ((hafter.standing account k hk).contemptuous hx), .inr hx⟩
    · obtain ⟨account, hnews⟩ := hblames.banned hfree hset
      obtain ⟨k, hk, hx⟩ := hsettling.mem_settled hstep hnews
      exact ⟨account, k, hk, (hafter.standing account k hk).contemptuous hx, hx⟩

/-! ### Sample runs -/

def sampleHeld (world : List Nat) (_ : Unit) (who : Nat) : Prop := who ∈ world

theorem sample_served {w w' : sampleConfig.World} (h : Served (T := sampleConfig) w w') : w' = w := by
  induction h with
  | refl => rfl
  | allocated _ hok ih | refreshed _ hok ih | transferred _ hok ih =>
    cases hok
    exact ih

theorem sample_lawful : LawfulDeposits sampleConfig sampleHeld where
  new hnew := by
    cases hnew
    exact List.mem_cons_self
  new_other hnew _ hheld := by
    cases hnew
    exact List.mem_cons_of_mem _ hheld
  drop hheld := ⟨_, if_pos (List.elem_iff.mpr hheld)⟩
  drop_other {w w' _ _ who b} hdrop hb hheld := by
    have hdrop : (if @List.elem Nat _ who w then some (@List.erase Nat _ w who) else none) = some w' := hdrop
    split at hdrop
    · cases hdrop
      exact (List.mem_erase_of_ne hb).mpr hheld
    · cases hdrop
  burn_other hb hheld := (List.mem_erase_of_ne hb).mpr hheld
  served hserved hheld := by
    rw [sample_served hserved]
    exact hheld

/-- An action of the chain itself. -/
def Action.isInside : Action T → Bool
  | .elsewhere _ _ => false
  | _ => true

theorem spares_of_isInside (h : a.isInside = true) : Spares Held c a := by
  cases a with
  | elsewhere => cases h
  | _ => trivial

/-- One account is held in contempt; another one commits, and its evidence is judged untrue. -/
def sampleContempt : List (Action sampleConfig) :=
  sampleCommit 1 0 ++ [.dispatch (.signed (1 : Nat)) (.submitEvidence (0 : Nat)), .judged 0 .contempt] ++
    sampleCommit 2 0 ++ [.dispatch (.signed (2 : Nat)) (.submitEvidence (0 : Nat)), .judged 1 (.truth .false)]

theorem penalties_justified_sample : ∃ w, Reaches (noting exec note) (fun w a => Spares sampleHeld w.1 a)
    (sampleGenesis, Journal.empty) w ∧ ∃ k, w.2.candidacies (1 : Nat) = some k ∧ .depositBurned () ∈ k.settled ∧ k.Justified := by
  obtain ⟨w, hreach, hburned⟩ := exists_reaches (noting exec note) (fun _ a => a.isInside = true)
    (sampleGenesis, Journal.empty) sampleContempt
    (fun w => (w.2.candidacies (1 : Nat)).any (fun k => k.settled.any fun x => x matches .depositBurned ()) = true)
    (by decide +kernel)
  obtain ⟨k, hk, hsome⟩ := (Option.any_eq_true _ _).mp hburned
  obtain ⟨x, hx, hburn⟩ := List.any_eq_true.mp hsome
  have hpenalties := penalties_justified sample_lawful (hreach.mono fun _ _ => spares_of_isInside)
  split at hburn
  · exact ⟨w, hreach.mono fun _ _ => spares_of_isInside, k, hk, hx, (hpenalties.1 (1 : Nat) k hk).2.1 _ hx rfl⟩
  · cases hburn

/-- All evidence is judged true, but none of it is submitted with the full storage. -/
def sampleUnallocated : List (Action sampleConfig) :=
  [.dispatch .manager (.setConfiguration sampleSlow)] ++ sampleCommit 1 0 ++
    [.dispatch (.signed (1 : Nat)) (.submitEvidence (0 : Nat)), .judged 0 (.truth .true),
      .dispatch (.signed (1 : Nat)) (.submitEvidence (0 : Nat)), .judged 1 (.truth .true),
      .dispatch (.signed (1 : Nat)) (.submitEvidence (0 : Nat)), .judged 2 (.truth .true)]

/-- The timeout that is configured ends beyond the last block. -/
def sampleOverflow : List (Action sampleConfig) :=
  [.elsewhere ([] : List Nat) { sampleEnv with people := { sampleEnv.people with now := 10 } },
    .dispatch .manager (.setConfiguration { timeout := U32.max, maximum_le := maximum_le_max, timeout_le := le_rfl })] ++ sampleCommit 1 0 ++
    [.dispatch (.signed (2 : Nat)) (.timeout (1 : Nat))]

/-- A deposit is burned although every verdict was favourable and nothing timed out; and one is burned by
a timeout in the block in which its candidate has committed. -/
theorem penalties_unjustified :
    (∃ w, Reaches (noting exec note) (fun _ _ => True) (sampleGenesis, Journal.empty) w ∧
      (w.2.candidacies (1 : Nat)).any (fun k => (k.settled.any fun x => x matches .depositBurned ()) &&
        (k.verdicts.all fun v => v.judgement = .truth .true) && k.timedOutAt.isNone) = true) ∧
    ∃ w, Reaches (noting exec note) (fun _ _ => True) (sampleGenesis, Journal.empty) w ∧
      (w.2.candidacies (1 : Nat)).any (fun k => (k.settled.any fun x => x matches .depositBurned ()) &&
        k.verdicts.isEmpty && decide (k.committedAt = some 10 ∧ k.timedOutAt = some (10, U32.max))) = true :=
  ⟨exists_reaches (noting exec note) (fun _ _ => True) (sampleGenesis, Journal.empty) sampleUnallocated _ (by decide +kernel),
    exists_reaches (noting exec note) (fun _ _ => True) (sampleGenesis, Journal.empty) sampleOverflow _ (by decide +kernel)⟩

end Individuality.ProofOfInk
