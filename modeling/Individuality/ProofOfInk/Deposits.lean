import Individuality.ProofOfInk.Candidacies

/-! The deposits of candidates are held until they are settled.

Deposits are kept outside. `LawfulDeposits` is what the pallet relies on: a deposit that is
taken is held, one that is held can be returned, and what is done with the deposit of one
account leaves those of the others held. -/
namespace Individuality.ProofOfInk
open Support
open MobRule (Judgement Truth)
variable {T : Config} {s s' t : Store T} {c c' : Chain T} {a : Action T} {env : Env T} {account : T.AccountId}
  {selection : Selection T} {cred : Credibility T} {ticket : T.Deposit} {Held : T.World → T.Deposit → T.AccountId → Prop}

/-- What deposits owe to the pallet. -/
structure LawfulDeposits (T : Config) (Held : T.World → T.Deposit → T.AccountId → Prop) : Prop where
  new {w w' : T.World} {ticket : T.Deposit} {who : T.AccountId} : T.newDeposit w who = some (ticket, w') →
    Held w' ticket who
  new_other {w w' : T.World} {ticket other : T.Deposit} {who b : T.AccountId} :
    T.newDeposit w who = some (ticket, w') → b ≠ who → Held w other b → Held w' other b
  drop {w : T.World} {ticket : T.Deposit} {who : T.AccountId} : Held w ticket who →
    ∃ w', T.dropDeposit w ticket who = some w'
  drop_other {w w' : T.World} {ticket other : T.Deposit} {who b : T.AccountId} :
    T.dropDeposit w ticket who = some w' → b ≠ who → Held w other b → Held w' other b
  burn_other {w : T.World} {ticket other : T.Deposit} {who b : T.AccountId} : b ≠ who → Held w other b →
    Held (T.burnDeposit w ticket who) other b
  served {w w' : T.World} {ticket : T.Deposit} {who : T.AccountId} : Served w w' → Held w ticket who → Held w' ticket who

def Credibility.pledge : Credibility T → Option T.Deposit
  | .deposit ticket => some ticket
  | _ => none

/-- The deposit of a candidate that has not been settled yet. -/
def Candidate.pledge : Candidate T → Option T.Deposit
  | .applied cred _ _ => cred.pledge
  | .selected selection => selection.cred.pledge
  | .proven _ _ _ _ => none

/-- The deposits of candidates are held in a world. -/
def HeldIn (Held : T.World → T.Deposit → T.AccountId → Prop) (s : Store T) (world : T.World) : Prop :=
  ∀ account status ticket, s.candidates.get account = some status → status.pledge = some ticket →
    Held world ticket account

def Secured (Held : T.World → T.Deposit → T.AccountId → Prop) (s : Store T) : Prop := HeldIn Held s s.world

/-- The rest of the chain leaves the deposits of candidates held. -/
def Spares (Held : T.World → T.Deposit → T.AccountId → Prop) (c : Chain T) : Action T → Prop
  | .elsewhere world _ => HeldIn Held c.store world
  | _ => True

/-! ### What is done with one deposit -/

theorem LawfulDeposits.returned (law : LawfulDeposits T Held) (s : Store T) (ticket : T.Deposit) (account : T.AccountId)
    {other : T.Deposit} {b : T.AccountId} (hb : b ≠ account) (h : Held s.world other b) :
    Held (returnDeposit s ticket account).world other b := by
  show Held ((T.dropDeposit s.world ticket account).getD s.world) other b
  cases hdrop : T.dropDeposit s.world ticket account with
  | none => exact h
  | some world => exact law.drop_other hdrop hb h

theorem LawfulDeposits.forfeited (law : LawfulDeposits T Held) (s : Store T) (cred : Credibility T)
    {other : T.Deposit} {b : T.AccountId} (hb : b ≠ account) (h : Held s.world other b) :
    Held (forfeit referralBad s account cred).world other b ∧
      Held (forfeit referralContemptuous s account cred).world other b := by
  cases cred with
  | deposit ticket => exact ⟨law.burn_other hb h, law.burn_other hb h⟩
  | referred _ | invited _ => exact ⟨h, h⟩

theorem LawfulDeposits.settled (law : LawfulDeposits T Held) (s : Store T) (cred : Credibility T)
    {other : T.Deposit} {b : T.AccountId} (hb : b ≠ account) (h : Held s.world other b) :
    Held (release s account cred).world other b ∧ Held (honour s account cred).world other b := by
  cases cred with
  | deposit ticket => exact ⟨law.returned s ticket account hb h, law.returned s ticket account hb h⟩
  | referred _ | invited _ => exact ⟨h, h⟩

/-! ### Steps -/

namespace Secured

/-- One account changes, and so do at most the deposits of that account. -/
theorem change {new : Option (Candidate T)} (h : Secured Held s)
    (hget : ∀ b, s'.candidates.get b = if b = account then new else s.candidates.get b)
    (hother : ∀ b ticket, b ≠ account → Held s.world ticket b → Held s'.world ticket b)
    (hself : ∀ status ticket, new = some status → status.pledge = some ticket → Held s'.world ticket account) :
    Secured Held s' := by
  intro b status ticket hstatus hpledge
  rw [hget] at hstatus
  split at hstatus
  · rename_i hb
    rw [hb]
    exact hself status ticket hstatus hpledge
  · rename_i hb
    exact hother b ticket hb (h b status ticket hstatus hpledge)

/-- Nothing is left to hold for an account that is gone or has been settled. -/
theorem settle (new : Option (Candidate T)) (h : Secured Held s)
    (hget : ∀ b, s'.candidates.get b = if b = account then new else s.candidates.get b)
    (hother : ∀ b ticket, b ≠ account → Held s.world ticket b → Held s'.world ticket b)
    (hnone : ∀ status, new = some status → status.pledge = none) : Secured Held s' :=
  h.change hget hother fun status _ hnew hpledge => nomatch (hnone status hnew).symm.trans hpledge

/-- A candidate keeps its deposit. -/
theorem keep (law : LawfulDeposits T Held) {old new : Candidate T} (h : Secured Held s)
    (hold : s.candidates.get account = some old)
    (hget : ∀ b, s'.candidates.get b = if b = account then some new else s.candidates.get b)
    (hpledge : new.pledge = old.pledge) (hserved : Served s.world s'.world) : Secured Held s' := by
  refine h.change hget (fun b ticket _ hheld => law.served hserved hheld) fun status ticket hnew hstatus => ?_
  cases hnew
  exact law.served hserved (h account old ticket hold (hpledge.symm.trans hstatus))

theorem frame (law : LawfulDeposits T Held) (h : Secured Held s) (hcandidates : s'.candidates = s.candidates)
    (hserved : Served s.world s'.world) : Secured Held s' := by
  intro b status ticket hstatus hpledge
  rw [hcandidates] at hstatus
  exact law.served hserved (h b status ticket hstatus hpledge)

/-- A selected candidate is gone, and its credibility forfeited. -/
theorem dismissed {registry : People.Store T.people} (h : Secured Held s) (hcandidates : t.candidates = s.candidates)
    (hother : ∀ b ticket, b ≠ account → Held s.world ticket b → Held t.world ticket b) :
    Secured Held (dismissed t account selection registry) :=
  h.settle none (get_dismissed hcandidates registry) hother nofun

theorem judged (law : LawfulDeposits T Held) {ticket : Nat} {judgement : Judgement} (h : Secured Held s)
    (hjudged : Judged s ticket account judgement s') : Secured Held s' := by
  cases hjudged with
  | contempt _ _ _ =>
    exact h.dismissed (candidates_forfeit_contemptuous s account _) fun _ _ hb hheld => (law.forfeited s _ hb hheld).2
  | exhausted _ _ _ _ =>
    exact h.dismissed (candidates_forfeit_bad s account _) fun _ _ hb hheld => (law.forfeited s _ hb hheld).1
  | retried hawaits _ _ hrefreshed =>
    exact h.keep law hawaits.1 (fun _ => StorageMap.get_insert _ _ _ _) rfl (Served.refl.refreshed hrefreshed)
  | initDone hawaits _ _ => exact h.keep law hawaits.1 (fun _ => StorageMap.get_insert _ _ _ _) rfl .refl
  | @proven selection hawaits _ _ =>
    refine h.settle (some (.proven selection.design selection.reserved selection.cred.isReferred selection.cred.isInvited))
      (fun b => (StorageMap.get_insert _ account b _).trans ?_) (fun b ticket hb hheld =>
        (law.settled { s with allocationCount := s.allocationCount - 1 } selection.cred hb hheld).2) fun status hstatus => ?_
    · show (if b = account then _ else (honour _ account selection.cred).candidates.get b) = _
      rw [candidates_honour]
    · cases hstatus
      rfl

theorem effect (law : LawfulDeposits T Held) {who : Option T.AccountId} {call : Call T} (h : Secured Held s)
    (heffect : Effect env s who call s') : Secured Held s' := by
  cases heffect with
  | applied _ hnew =>
    refine h.change (fun _ => StorageMap.get_insert _ _ _ _) (fun _ _ hb hheld => law.new_other hnew hb hheld) ?_
    intro status ticket hstatus hpledge
    cases hstatus
    cases hpledge
    exact law.new hnew
  | referred _ _ _ _ _ _ | invited _ =>
    refine h.settle (some _) (fun _ => StorageMap.get_insert _ _ _ _) (fun _ _ _ hheld => hheld) fun status hstatus => ?_
    cases hstatus
    rfl
  | rerolled hget => exact h.keep law hget (fun _ => StorageMap.get_insert _ _ _ _) rfl .refl
  | committed hget _ _ _ _ hallocated =>
    exact h.keep law hget (fun _ => StorageMap.get_insert _ _ _ _) rfl (Served.refl.allocated hallocated)
  | submitted hget _ _ => exact h.keep law hget (fun _ => StorageMap.get_insert _ _ _ _) rfl .refl
  | allocated hget _ hallocated =>
    exact h.keep law hget (fun _ => StorageMap.get_insert _ _ _ _) rfl (Served.refl.allocated hallocated)
  | timedOut _ _ _ => exact h.dismissed (candidates_forfeit_bad s _ _) fun _ _ hb hheld => (law.forfeited s _ hb hheld).1
  | @flaked account cred _ _ _ =>
    refine h.settle none (fun b => ?_) (fun _ _ hb hheld => (law.settled s cred hb hheld).1) nofun
    show ((release s account cred).candidates.remove account).get b = _
    rw [candidates_release]
    exact StorageMap.get_remove _ _ _
  | registered hreg =>
    have hget := congrArg StorageMap.get hreg.candidates
    exact h.settle none (fun b => (congrFun hget b).trans (StorageMap.get_remove _ _ _))
      (fun _ _ _ hheld => law.served hreg.served hheld) nofun
  | ticketSet _ _ | ticketCancelled _ => exact h.frame law rfl .refl
  | rewarded _ hframe | frame hframe => exact h.frame law hframe.candidates hframe.served

theorem step (law : LawfulDeposits T Held) (h : Secured Held c.store) (hspares : Spares Held c a) (hstep : Step c a c') :
    Secured Held c'.store := by
  cases hstep with
  | call _ hprepared heffect =>
    obtain ⟨nonces, rfl⟩ := hprepared
    rcases heffect with rfl | heffect
    · exact h.frame law rfl .refl
    · have hready : Secured Held { c.store with registry := { c.store.registry with nonces := nonces } } :=
        h.frame law rfl .refl
      exact hready.effect law heffect
  | @judged ticket judgement case s' _ hjudged =>
    have hclosed : Secured Held (closeCase c.store ticket) := h.frame law rfl .refl
    rcases hjudged with rfl | hjudged
    · exact hclosed
    · exact hclosed.judged law hjudged
  | people _ _ => exact h.frame law rfl .refl
  | elsewhere => exact hspares

end Secured

end Individuality.ProofOfInk
