import Individuality.ProofOfInk.Effects

/-! Candidacies.

A candidacy begins when an account applies and ends when it is no candidate any more; the
account may apply again. A `Journal` of a run notes of the last candidacy of each account
what no storage says: the cases that it opened and how much storage it had then, the
verdicts that it got, when it committed, how it ended and what was done with its
credibility. `Turn` says what one step does to one account. -/
namespace Individuality.ProofOfInk
open Support
open MobRule (Judgement Truth)
variable {T : Config} {s s' t : Store T} {c c' : Chain T} {a : Action T} {env : Env T} {account : T.AccountId}
  {selection : Selection T} {cred : Credibility T}

/-! ### Journals -/

/-- A judgement that the oracle has called back, and how far the candidate had got. -/
structure Verdict where
  ticket : Nat
  judgement : Judgement
  allocation : Allocation

inductive Ending
  | flakedOut
  | dismissed
  | proven
  deriving DecidableEq

variable (T) in
/-- `earlier` are the cases of earlier candidacies of the account. -/
structure Candidacy where
  cred : Credibility T
  earlier : List Nat := []
  cases : List (Nat × Allocation) := []
  verdicts : List Verdict := []
  committedAt : Option Nat := none
  /-- The block of a timeout that was executed, and the timeout that was configured then. -/
  timedOutAt : Option (Nat × Nat) := none
  ending : Option Ending := none
  settled : List (Settlement T) := []
  registrations : Nat := 0

variable (T) in
/-- The last candidacy of each account, and the ids that were registered. -/
structure Journal where
  candidacies : T.AccountId → Option (Candidacy T)
  registered : List Nat

def Journal.empty : Journal T := ⟨fun _ => none, []⟩

/-- The case that a candidate opens. -/
def openedCase : Option (Candidate T) → Option (Candidate T) → Option (Nat × Allocation)
  | some (.selected before), some (.selected after) =>
    if before.judging = none then after.judging.map (·, after.allocation) else none
  | _, _ => none

/-- The verdict that an action brings to a selected candidate. -/
def verdictOn (c : Chain T) (account : T.AccountId) : Action T → Option Verdict
  | .judged ticket judgement =>
    match c.store.cases.get ticket, c.store.candidates.get account with
    | some case, some (.selected selection) =>
      if case.context = account then some ⟨ticket, judgement, selection.allocation⟩ else none
    | _, _ => none
  | _ => none

def endingOf : Option (Candidate T) → Option (Candidate T) → Option Ending
  | some (.applied _ _ _), none => some .flakedOut
  | some (.selected _), none => some .dismissed
  | some (.selected _), some (.proven _ _ _ _) => some .proven
  | _, _ => none

/-- The block at which a candidate commits. -/
def committedIn (c : Chain T) : Option (Candidate T) → Option (Candidate T) → Option Nat
  | some (.applied _ _ _), some (.selected _) => some c.env.now
  | _, _ => none

def timedOutIn (c : Chain T) (account : T.AccountId) :
    Option (Candidate T) → Option (Candidate T) → Option (Call T) → Option (Nat × Nat)
  | some (.selected _), none, some (.timeout target) =>
    if target = account then some (c.env.now, c.store.configuration.timeout) else none
  | _, _, _ => none

/-- The id that a candidate has registered. -/
def registeredId : Option (Candidate T) → Option (Candidate T) → Option Nat
  | some (.proven _ id _ _), none => some id
  | _, _ => none

/-- What has been done with the credibility of an account since `s`. -/
def news (s s' : Store T) (account : T.AccountId) : List (Settlement T) :=
  ((s'.settlements.drop s.settlements.length).filter fun x => x.1 = account).map Prod.snd

def Candidacy.note (c : Chain T) (a : Action T) (c' : Chain T) (account : T.AccountId) (k : Candidacy T) : Candidacy T :=
  let before := c.store.candidates.get account
  let after := c'.store.candidates.get account
  { k with
    cases := k.cases ++ (openedCase before after).toList
    verdicts := k.verdicts ++ (verdictOn c account a).toList
    committedAt := (committedIn c before after).or k.committedAt
    timedOutAt := (timedOutIn c account before after a.asCall).or k.timedOutAt
    ending := (endingOf before after).or k.ending
    settled := k.settled ++ news c.store c'.store account
    registrations := k.registrations + (registeredId before after).toList.length }

/-- The cases that an account has opened so far. -/
def openedSoFar (k : Option (Candidacy T)) : List Nat :=
  match k with
  | none => []
  | some k => k.earlier ++ k.cases.map Prod.fst

/-- The credibility of an account that applies. -/
def beginning : Option (Candidate T) → Option (Candidate T) → Option (Credibility T)
  | none, some (.applied cred _ _) => some cred
  | _, _ => none

def note (c : Chain T) (a : Action T) (c' : Chain T) (j : Journal T) : Journal T where
  candidacies account :=
    match beginning (c.store.candidates.get account) (c'.store.candidates.get account) with
    | some cred => some { cred := cred, earlier := openedSoFar (j.candidacies account) }
    | none => (j.candidacies account).map (Candidacy.note c a c' account)
  registered := j.registered ++ c.store.candidates.keys.filterMap fun account =>
    registeredId (c.store.candidates.get account) (c'.store.candidates.get account)

theorem note_begun {j : Journal T}
    (h : beginning (c.store.candidates.get account) (c'.store.candidates.get account) = some cred) :
    (note c a c' j).candidacies account = some { cred := cred, earlier := openedSoFar (j.candidacies account) } := by
  simp only [note]
  rw [h]

theorem note_kept {j : Journal T}
    (h : beginning (c.store.candidates.get account) (c'.store.candidates.get account) = none) :
    (note c a c' j).candidacies account = (j.candidacies account).map (Candidacy.note c a c' account) := by
  simp only [note]
  rw [h]

/-! ### What is done with a credibility -/

namespace Credibility

/-- The candidate has failed. -/
def forfeited (contempt : Bool) : Credibility T → Settlement T
  | .referred who => if contempt then .referralContemptuous who else .referralBad who
  | .deposit ticket => .depositBurned ticket
  | .invited _ => .invitationClosed

/-- A deposit is returned, if that works. -/
def returned (world : T.World) (account : T.AccountId) (ticket : T.Deposit) : List (Settlement T) :=
  ((T.dropDeposit world ticket account).map fun _ => Settlement.depositReturned ticket).toList

/-- The candidate has flaked out. -/
def released (world : T.World) (account : T.AccountId) : Credibility T → List (Settlement T)
  | .referred who => [.referralFlaked who]
  | .deposit ticket => returned world account ticket
  | .invited _ => [.invitationClosed]

/-- The candidate has proven itself. -/
def honoured (world : T.World) (account : T.AccountId) : Credibility T → List (Settlement T)
  | .referred who => [.referralOk who]
  | .deposit ticket => returned world account ticket
  | .invited _ => []

end Credibility

theorem news_of_append {l : List (T.AccountId × Settlement T)} (h : s'.settlements = s.settlements ++ l)
    (account : T.AccountId) : news s s' account = (l.filter fun x => x.1 = account).map Prod.snd := by
  rw [news, h, List.drop_left]

theorem news_of_same (h : s'.settlements = s.settlements) (account : T.AccountId) : news s s' account = [] :=
  news_of_append (l := []) (by rw [h, List.append_nil]) account

/-- The news of an account are its own. -/
theorem news_own {l : List (Settlement T)} (h : s'.settlements = s.settlements ++ l.map fun x => (account, x)) :
    news s s' account = l := by
  rw [news_of_append h, List.filter_eq_self.mpr, List.map_map]
  · exact List.map_id _
  · intro x hx
    obtain ⟨_, -, rfl⟩ := List.mem_map.mp hx
    exact decide_eq_true rfl

theorem news_other {l : List (Settlement T)} {b : T.AccountId} (hb : b ≠ account)
    (h : s'.settlements = s.settlements ++ l.map fun x => (account, x)) : news s s' b = [] := by
  rw [news_of_append h, List.filter_eq_nil_iff.mpr]
  · rfl
  · intro x hx
    obtain ⟨_, -, rfl⟩ := List.mem_map.mp hx
    exact fun heq => hb (of_decide_eq_true heq).symm

theorem settlements_forfeit_bad (s : Store T) (account : T.AccountId) (cred : Credibility T) :
    (forfeit referralBad s account cred).settlements =
      s.settlements ++ [cred.forfeited false].map fun x => (account, x) := by
  cases cred <;> rfl

theorem settlements_forfeit_contemptuous (s : Store T) (account : T.AccountId) (cred : Credibility T) :
    (forfeit referralContemptuous s account cred).settlements =
      s.settlements ++ [cred.forfeited true].map fun x => (account, x) := by
  cases cred <;> rfl

theorem settlements_returnDeposit (s : Store T) (ticket : T.Deposit) (account : T.AccountId) :
    (returnDeposit s ticket account).settlements =
      s.settlements ++ (Credibility.returned s.world account ticket).map fun x => (account, x) := by
  unfold returnDeposit Credibility.returned
  cases T.dropDeposit s.world ticket account <;> rfl

theorem settlements_release (s : Store T) (account : T.AccountId) (cred : Credibility T) :
    (release s account cred).settlements =
      s.settlements ++ (cred.released s.world account).map fun x => (account, x) := by
  cases cred with
  | deposit ticket => exact settlements_returnDeposit s ticket account
  | _ => rfl

theorem settlements_honour (s : Store T) (account : T.AccountId) (cred : Credibility T) :
    (honour s account cred).settlements =
      s.settlements ++ (cred.honoured s.world account).map fun x => (account, x) := by
  cases cred with
  | deposit ticket => exact settlements_returnDeposit s ticket account
  | referred who => rfl
  | invited ticket => exact (List.append_nil _).symm

/-! ### Turns -/

/-- The oracle calls back the judgement of the case that a selected candidate waits for. -/
structure Delivered (c : Chain T) (a : Action T) (account : T.AccountId) (selection : Selection T)
    (judgement : Judgement) (ticket : Nat) : Prop where
  action : a = .judged ticket judgement
  case : ∃ case, c.store.cases.get ticket = some case ∧ case.context = account
  awaits : Awaits c.store account ticket selection

/-- What a step does to an account. -/
inductive Turn (c : Chain T) (a : Action T) (c' : Chain T) (account : T.AccountId) : Prop
  | idle : c'.store.candidates.get account = c.store.candidates.get account →
    news c.store c'.store account = [] → Turn c a c' account
  | begun {cred : Credibility T} {entropy : Entropy} {since : Nat} : c.store.candidates.get account = none →
    c'.store.candidates.get account = some (.applied cred entropy since) →
    news c.store c'.store account = [] → Turn c a c' account
  | rerolled {cred : Credibility T} {entropy entropy' : Entropy} {since since' : Nat} :
    c.store.candidates.get account = some (.applied cred entropy since) →
    c'.store.candidates.get account = some (.applied cred entropy' since') →
    news c.store c'.store account = [] → Turn c a c' account
  | committed {entropy : Entropy} {since : Nat} {selection : Selection T} :
    c.store.candidates.get account = some (.applied selection.cred entropy since) →
    c'.store.candidates.get account = some (.selected selection) → selection.since = c.env.now →
    selection.judging = none → selection.failed = 0 → news c.store c'.store account = [] → Turn c a c' account
  | submitted {selection : Selection T} : c.store.candidates.get account = some (.selected selection) →
    selection.judging = none →
    c'.store.candidates.get account = some (.selected { selection with judging := some c.store.nextCase }) →
    c'.store.nextCase = c.store.nextCase + 1 → news c.store c'.store account = [] → Turn c a c' account
  | allocated {selection : Selection T} : a.asCall = some .allocateFull → a.caller = some account →
    c.store.candidates.get account = some (.selected selection) → selection.allocation = .initDone →
    c'.store.candidates.get account = some (.selected { selection with allocation := .full }) →
    news c.store c'.store account = [] → Turn c a c' account
  | retried {selection : Selection T} {judgement : Judgement} {ticket : Nat} :
    Delivered c a account selection judgement ticket → unfavourable judgement selection.allocation = true →
    c'.store.candidates.get account = some (.selected { selection with
      judging := none, failed := U32.saturatingInc selection.failed }) →
    news c.store c'.store account = [] → Turn c a c' account
  | initDone {selection : Selection T} {ticket : Nat} : Delivered c a account selection (.truth .true) ticket →
    c'.store.candidates.get account = some (.selected { selection with judging := none, allocation := .initDone }) →
    news c.store c'.store account = [] → Turn c a c' account
  | proven {selection : Selection T} {ticket : Nat} : Delivered c a account selection (.truth .true) ticket →
    selection.allocation = .full →
    c'.store.candidates.get account = some (.proven selection.design selection.reserved selection.cred.isReferred
      selection.cred.isInvited) →
    news c.store c'.store account = selection.cred.honoured c.store.world account → Turn c a c' account
  | contempt {selection : Selection T} {ticket : Nat} : Delivered c a account selection .contempt ticket →
    c'.store.candidates.get account = none →
    news c.store c'.store account = [selection.cred.forfeited true] → Turn c a c' account
  | exhausted {selection : Selection T} {judgement : Judgement} {ticket : Nat} :
    Delivered c a account selection judgement ticket → unfavourable judgement selection.allocation = true →
    U32.saturatingInc selection.failed > T.maxRetryAttempts → c'.store.candidates.get account = none →
    news c.store c'.store account = [selection.cred.forfeited false] → Turn c a c' account
  | timedOut {selection : Selection T} : a.asCall = some (.timeout account) →
    c.store.candidates.get account = some (.selected selection) →
    c.env.now > U32.wrappingAdd selection.since c.store.configuration.timeout →
    c'.store.candidates.get account = none →
    news c.store c'.store account = [selection.cred.forfeited false] → Turn c a c' account
  | flaked {cred : Credibility T} {entropy : Entropy} {since : Nat} :
    c.store.candidates.get account = some (.applied cred entropy since) → c'.store.candidates.get account = none →
    news c.store c'.store account = cred.released c.store.world account → Turn c a c' account
  | registered {design : InkSpec} {id : Nat} {wasReferred wasInvited : Bool} :
    c.store.candidates.get account = some (.proven design id wasReferred wasInvited) →
    c'.store.candidates.get account = none → c'.store.people = c.store.people.insert id (newPerson design) →
    news c.store c'.store account = (if !wasReferred && wasInvited then [.invitationClosed] else []) →
    Turn c a c' account

/-- One account has its turn, and the others are idle. -/
theorem turns {new : Option (Candidate T)} {l : List (Settlement T)} (b : T.AccountId)
    (hget : ∀ b, c'.store.candidates.get b = if b = account then new else c.store.candidates.get b)
    (hnews : c'.store.settlements = c.store.settlements ++ l.map fun x => (account, x))
    (hself : c'.store.candidates.get account = new → news c.store c'.store account = l → Turn c a c' account) :
    Turn c a c' b := by
  by_cases hb : b = account
  · rw [hb]
    exact hself ((hget account).trans (if_pos rfl)) (news_own hnews)
  · exact .idle ((hget b).trans (if_neg hb)) (news_other hb hnews)

theorem turns_idle (b : T.AccountId) (hcandidates : c'.store.candidates = c.store.candidates)
    (hnews : c'.store.settlements = c.store.settlements) : Turn c a c' b :=
  .idle (by rw [hcandidates]) (news_of_same hnews b)

theorem no_news : s.settlements = s.settlements ++ ([] : List (Settlement T)).map fun x => (account, x) :=
  (List.append_nil _).symm

theorem get_dismissed (hcandidates : t.candidates = s.candidates) (registry : People.Store T.people) (b : T.AccountId) :
    (dismissed t account selection registry).candidates.get b = if b = account then none else s.candidates.get b := by
  show (t.candidates.remove account).get b = _
  rw [hcandidates]
  exact StorageMap.get_remove _ _ _

theorem candidates_forfeit_bad (s : Store T) (account : T.AccountId) (cred : Credibility T) :
    (forfeit referralBad s account cred).candidates = s.candidates := by
  cases cred <;> rfl

theorem candidates_forfeit_contemptuous (s : Store T) (account : T.AccountId) (cred : Credibility T) :
    (forfeit referralContemptuous s account cred).candidates = s.candidates := by
  cases cred <;> rfl

theorem candidates_release (s : Store T) (account : T.AccountId) (cred : Credibility T) :
    (release s account cred).candidates = s.candidates := by
  cases cred <;> rfl

theorem candidates_honour (s : Store T) (account : T.AccountId) (cred : Credibility T) :
    (honour s account cred).candidates = s.candidates := by
  cases cred <;> rfl

theorem turn_of_effect {call : Call T} (hcall : a.asCall = some call) (hprepared : Prepared c.store t)
    (heffect : Effect c.env t a.caller call s') (b : T.AccountId) : Turn c a { c with store := s' } b := by
  obtain ⟨nonces, rfl⟩ := hprepared
  generalize hcaller : a.caller = who at heffect
  cases heffect with
  | applied hnone _ =>
    exact turns b (fun _ => StorageMap.get_insert _ _ _ _) no_news (fun hget hnews => .begun hnone hget hnews)
  | referred hnone _ _ _ _ _ =>
    exact turns b (fun _ => StorageMap.get_insert _ _ _ _) no_news (fun hget hnews => .begun hnone hget hnews)
  | invited hnone =>
    exact turns b (fun _ => StorageMap.get_insert _ _ _ _) no_news (fun hget hnews => .begun hnone hget hnews)
  | rerolled hold =>
    exact turns b (fun _ => StorageMap.get_insert _ _ _ _) no_news (fun hget hnews => .rerolled hold hget hnews)
  | committed hold _ _ _ _ _ =>
    exact turns b (fun _ => StorageMap.get_insert _ _ _ _) no_news
      (fun hget hnews => .committed hold hget rfl rfl rfl hnews)
  | submitted hold hnone _ =>
    exact turns b (fun _ => StorageMap.get_insert _ _ _ _) no_news
      (fun hget hnews => .submitted hold hnone hget rfl hnews)
  | allocated hold hdone _ =>
    exact turns b (fun _ => StorageMap.get_insert _ _ _ _) no_news
      (fun hget hnews => .allocated hcall hcaller hold hdone hget hnews)
  | @timedOut _ account selection registry hold hlate _ =>
    exact turns b (get_dismissed (candidates_forfeit_bad _ account selection.cred) registry)
      (settlements_forfeit_bad _ account selection.cred) (fun hget hnews => .timedOut hcall hold hlate hget hnews)
  | @flaked account cred _ _ hold =>
    refine turns b (fun b => ?_) (settlements_release _ account cred) (fun hget hnews => .flaked hold hget hnews)
    show ((release _ account cred).candidates.remove account).get b = _
    rw [candidates_release]
    exact StorageMap.get_remove _ _ _
  | @registered account design id wasReferred wasInvited _ _ h =>
    refine turns (l := if !wasReferred && wasInvited then [.invitationClosed] else []) b (fun b => ?_) ?_
      (fun hget hnews => .registered h.proven hget h.people hnews)
    · show s'.candidates.get b = _
      rw [h.candidates]
      exact StorageMap.get_remove _ _ _
    · show s'.settlements = _
      rw [h.settlements]
      cases wasReferred <;> cases wasInvited <;> rfl
  | ticketSet _ _ => exact turns_idle b rfl rfl
  | ticketCancelled _ => exact turns_idle b rfl rfl
  | rewarded _ hframe => exact turns_idle b hframe.candidates hframe.settlements
  | frame hframe => exact turns_idle b hframe.candidates hframe.settlements

theorem turn_of_judged {ticket : Nat} {judgement : Judgement} {case : Case T}
    (hcase : c.store.cases.get ticket = some case)
    (hjudged : Judged (closeCase c.store ticket) ticket case.context judgement s') (b : T.AccountId) :
    Turn c (.judged ticket judgement) { c with store := s' } b := by
  have delivered : ∀ {selection : Selection T}, Awaits (closeCase c.store ticket) case.context ticket selection →
      Delivered c (.judged ticket judgement) case.context selection judgement ticket :=
    fun hawaits => ⟨rfl, ⟨case, hcase, rfl⟩, hawaits⟩
  cases hjudged with
  | @contempt selection registry hawaits hjudgement _ =>
    cases hjudgement
    exact turns b (get_dismissed (candidates_forfeit_contemptuous _ case.context selection.cred) registry)
      (settlements_forfeit_contemptuous _ case.context selection.cred)
      (fun hget hnews => .contempt (delivered hawaits) hget hnews)
  | @exhausted selection registry hawaits hunfavourable hmany _ =>
    exact turns b (get_dismissed (candidates_forfeit_bad _ case.context selection.cred) registry)
      (settlements_forfeit_bad _ case.context selection.cred)
      (fun hget hnews => .exhausted (delivered hawaits) hunfavourable hmany hget hnews)
  | retried hawaits hunfavourable _ _ =>
    exact turns b (fun _ => StorageMap.get_insert _ _ _ _) no_news
      (fun hget hnews => .retried (delivered hawaits) hunfavourable hget hnews)
  | initDone hawaits hjudgement _ =>
    cases hjudgement
    exact turns b (fun _ => StorageMap.get_insert _ _ _ _) no_news
      (fun hget hnews => .initDone (delivered hawaits) hget hnews)
  | @proven selection hawaits hjudgement hfull =>
    cases hjudgement
    refine turns b (fun b => ?_)
      (settlements_honour _ case.context selection.cred)
      (fun hget hnews => .proven (delivered hawaits) hfull hget hnews)
    show ((honour _ case.context selection.cred).candidates.insert case.context _).get b = _
    rw [candidates_honour]
    exact StorageMap.get_insert _ _ _ _

theorem step_turn (hstep : Step c a c') (b : T.AccountId) : Turn c a c' b := by
  cases hstep with
  | call hcall hprepared heffect =>
    rcases heffect with rfl | heffect
    · obtain ⟨nonces, rfl⟩ := hprepared
      exact turns_idle b rfl rfl
    · exact turn_of_effect hcall hprepared heffect b
  | judged hcase hjudged =>
    rcases hjudged with rfl | hjudged
    · exact turns_idle b rfl rfl
    · exact turn_of_judged hcase hjudged b
  | people _ _ => exact turns_idle b rfl rfl
  | elsewhere => exact turns_idle b rfl rfl

/-- The judgement that is called back is a verdict. -/
theorem Delivered.verdict {judgement : Judgement} {ticket : Nat} (h : Delivered c a account selection judgement ticket) :
    verdictOn c account a = some ⟨ticket, judgement, selection.allocation⟩ := by
  obtain ⟨rfl, ⟨case, hcase, hcontext⟩, hget, -⟩ := h
  simp only [verdictOn]
  rw [hcase, hget]
  exact if_pos hcontext

/-- An account that does not apply stays what it was without an application. -/
theorem Turn.absent (h : Turn c a c' account) (hnone : c.store.candidates.get account = none)
    (hbegin : beginning (c.store.candidates.get account) (c'.store.candidates.get account) = none) :
    c'.store.candidates.get account = none := by
  cases h with
  | idle hsame _ => exact hsame.trans hnone
  | begun _ hafter _ =>
    rw [hnone, hafter] at hbegin
    cases hbegin
  | rerolled hbefore _ _ | committed hbefore _ _ _ _ _ | submitted hbefore _ _ _ _ | allocated _ _ hbefore _ _ _
  | timedOut _ hbefore _ _ _ | flaked hbefore _ _ | registered hbefore _ _ _ => cases hnone.symm.trans hbefore
  | retried hdelivered _ _ _ | initDone hdelivered _ _ | proven hdelivered _ _ _ | contempt hdelivered _ _
  | exhausted hdelivered _ _ _ _ => cases hnone.symm.trans hdelivered.awaits.1

/-- The journal tells of every candidate. -/
def Begun (s : Store T) (j : Journal T) : Prop :=
  ∀ account status, s.candidates.get account = some status → ∃ k, j.candidacies account = some k

theorem Begun.note {j : Journal T} (h : Begun c.store j) (hstep : Step c a c') : Begun c'.store (note c a c' j) := by
  intro account status hget
  cases hbegin : beginning (c.store.candidates.get account) (c'.store.candidates.get account) with
  | some cred => exact ⟨_, note_begun hbegin⟩
  | none =>
    cases hbefore : c.store.candidates.get account with
    | none => cases ((step_turn hstep account).absent hbefore hbegin).symm.trans hget
    | some before =>
      obtain ⟨k, hk⟩ := h account before hbefore
      exact ⟨_, (note_kept hbegin).trans (congrArg (Option.map _) hk)⟩

end Individuality.ProofOfInk
