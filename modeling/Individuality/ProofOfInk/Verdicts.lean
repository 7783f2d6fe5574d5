import Individuality.ProofOfInk.Books
import Individuality.ProofOfInk.Candidacies

/-! Nobody is recognized without a favourable verdict on full evidence.

What a candidacy has been told is noted with it (`Told`): the case that it waits for is one
that it opened with the storage that it still has, and once it is proven such a case has
been judged true. A candidate that takes the full storage while its case is pending is the
one thing that breaks this: the case was opened with less. -/
namespace Individuality.ProofOfInk
open Support
open MobRule (Judgement Truth)
variable {T : Config} {s s' t : Store T} {c c' : Chain T} {a : Action T} {env : Env T} {account : T.AccountId}
  {selection : Selection T} {k : Candidacy T} {j : Journal T}

/-- A case that the candidacy opened with the full storage has been judged true. -/
def Candidacy.Favoured (k : Candidacy T) : Prop :=
  ∃ v ∈ k.verdicts, v.judgement = .truth .true ∧ (v.ticket, Allocation.full) ∈ k.cases

instance (k : Candidacy T) : Decidable k.Favoured := inferInstanceAs (Decidable (∃ v ∈ k.verdicts, _ ∧ _))

/-- A candidate takes the full storage while a case is pending that it opened without. -/
def allocatesMidway (c : Chain T) (a : Action T) : Bool :=
  match a.asCall, a.caller.bind c.store.candidates.get with
  | some .allocateFull, some (.selected selection) =>
    selection.judging.isSome && decide (selection.allocation = .initDone)
  | _, _ => false

/-- Candidates take the full storage only between cases. -/
def Waits (c : Chain T) (a : Action T) : Prop := allocatesMidway c a = false

instance (c : Chain T) (a : Action T) : Decidable (Waits c a) := inferInstanceAs (Decidable (_ = _))

theorem Waits.judging (h : Waits c a) (hcall : a.asCall = some .allocateFull) (hcaller : a.caller = some account)
    (hget : c.store.candidates.get account = some (.selected selection)) (hdone : selection.allocation = .initDone) :
    selection.judging = none := by
  unfold Waits allocatesMidway at h
  rw [hcall, hcaller, Option.bind_some, hget] at h
  simp only [hdone, decide_true, Bool.and_true, Option.isSome_eq_false_iff, Option.isNone_iff_eq_none] at h
  exact h

/-- What a candidacy has opened and been told. -/
structure Told (s : Store T) (account : T.AccountId) (k : Candidacy T) : Prop where
  pending : ∀ selection ticket, s.candidates.get account = some (.selected selection) →
    selection.judging = some ticket → (ticket, selection.allocation) ∈ k.cases
  proven : ∀ design id wasReferred wasInvited,
    s.candidates.get account = some (.proven design id wasReferred wasInvited) → k.Favoured
  registered : 0 < k.registrations → k.Favoured ∧ s.candidates.get account = none
  once : k.registrations ≤ 1
  below : ∀ ticket ∈ openedSoFar (some k), ticket < s.nextCase
  apart : ∀ ticket ∈ k.earlier, ticket ∉ k.cases.map Prod.fst

/-! ### What a note adds -/

theorem Candidacy.Favoured.note (h : k.Favoured) : (k.note c a c' account).Favoured := by
  obtain ⟨v, hv, htrue, hcase⟩ := h
  exact ⟨v, List.mem_append_left _ hv, htrue, List.mem_append_left _ hcase⟩

theorem openedCase_eq_some {before after : Option (Candidate T)} {case : Nat × Allocation} :
    openedCase before after = some case ↔ ∃ x y : Selection T, before = some (.selected x) ∧
      after = some (.selected y) ∧ x.judging = none ∧ y.judging = some case.1 ∧ y.allocation = case.2 := by
  constructor
  · intro h
    unfold openedCase at h
    split at h
    · rename_i x y
      split at h
      · rename_i hnone
        obtain ⟨ticket, hticket, rfl⟩ := Option.map_eq_some_iff.mp h
        exact ⟨x, y, rfl, rfl, hnone, hticket, rfl⟩
      · cases h
    · cases h
  · rintro ⟨x, y, rfl, rfl, hnone, hticket, hallocation⟩
    rw [openedCase, if_pos hnone, hticket, hallocation]
    rfl

/-- A case that is opened is a new one. -/
theorem Turn.opened (h : Turn c a c' account) {case : Nat × Allocation}
    (hcase : openedCase (c.store.candidates.get account) (c'.store.candidates.get account) = some case) :
    case.1 = c.store.nextCase ∧ c'.store.nextCase = c.store.nextCase + 1 := by
  obtain ⟨x, y, hx, hy, hnone, hticket, -⟩ := openedCase_eq_some.mp hcase
  cases h with
  | idle hsame _ =>
    cases (hx.symm.trans hsame.symm).trans hy
    cases hnone.symm.trans hticket
  | begun hbefore _ _ => cases hbefore.symm.trans hx
  | rerolled hbefore _ _ | committed hbefore _ _ _ _ _ | flaked hbefore _ _ | registered hbefore _ _ _ =>
    cases hbefore.symm.trans hx
  | submitted _ _ hafter hnext _ =>
    cases hafter.symm.trans hy
    exact ⟨(Option.some.inj hticket).symm, hnext⟩
  | allocated _ _ hbefore _ hafter _ =>
    cases hbefore.symm.trans hx
    cases hafter.symm.trans hy
    cases hnone.symm.trans hticket
  | retried _ _ hafter _ | initDone _ hafter _ =>
    cases hafter.symm.trans hy
    cases hticket
  | proven _ _ hafter _ | contempt _ hafter _ | exhausted _ _ _ hafter _ | timedOut _ _ _ hafter _ =>
    cases hafter.symm.trans hy

theorem registeredId_eq_some {before after : Option (Candidate T)} {id : Nat} : registeredId before after = some id ↔
    ∃ design wasReferred wasInvited, before = some (.proven design id wasReferred wasInvited) ∧ after = none := by
  constructor
  · intro h
    unfold registeredId at h
    split at h
    · cases h
      exact ⟨_, _, _, rfl, rfl⟩
    · cases h
  · rintro ⟨design, wasReferred, wasInvited, rfl, rfl⟩
    rfl

theorem Turn.registers (h : Turn c a c' account) {id : Nat}
    (hid : registeredId (c.store.candidates.get account) (c'.store.candidates.get account) = some id) :
    ∃ design, c'.store.people = c.store.people.insert id (newPerson design) := by
  obtain ⟨design, wasReferred, wasInvited, hproven, hgone⟩ := registeredId_eq_some.mp hid
  cases h with
  | idle hsame _ => cases (hproven.symm.trans hsame.symm).trans hgone
  | registered hbefore _ hpeople _ =>
    cases hbefore.symm.trans hproven
    exact ⟨design, hpeople⟩
  | begun hbefore _ _ => cases hbefore.symm.trans hproven
  | rerolled hbefore _ _ | committed hbefore _ _ _ _ _ | submitted hbefore _ _ _ _ | allocated _ _ hbefore _ _ _
  | timedOut _ hbefore _ _ _ | flaked hbefore _ _ => cases hbefore.symm.trans hproven
  | retried hdelivered _ _ _ | initDone hdelivered _ _ | proven hdelivered _ _ _ | contempt hdelivered _ _
  | exhausted hdelivered _ _ _ _ => cases hdelivered.awaits.1.symm.trans hproven

theorem Delivered.mem_verdicts {judgement : Judgement} {ticket : Nat}
    (h : Delivered c a account selection judgement ticket) :
    ⟨ticket, judgement, selection.allocation⟩ ∈ (k.note c a c' account).verdicts :=
  List.mem_append_right _ (Option.mem_toList.mpr h.verdict)

/-! ### What a step keeps -/

theorem nextCase_forfeit (s : Store T) (account : T.AccountId) (cred : Credibility T) :
    (forfeit referralBad s account cred).nextCase = s.nextCase ∧
      (forfeit referralContemptuous s account cred).nextCase = s.nextCase := by
  cases cred <;> exact ⟨rfl, rfl⟩

theorem nextCase_settled (s : Store T) (account : T.AccountId) (cred : Credibility T) :
    (release s account cred).nextCase = s.nextCase ∧ (honour s account cred).nextCase = s.nextCase := by
  cases cred <;> exact ⟨rfl, rfl⟩

theorem Effect.nextCase {who : Option T.AccountId} {call : Call T} (h : Effect env s who call s') :
    s.nextCase ≤ s'.nextCase := by
  cases h with
  | submitted _ _ _ => exact Nat.le_succ _
  | timedOut _ _ _ => exact (nextCase_forfeit s _ _).1.ge
  | flaked _ => exact (nextCase_settled s _ _).1.ge
  | registered h => exact h.nextCase.ge
  | rewarded _ h | frame h => exact h.nextCase.ge
  | _ => exact le_rfl

theorem Judged.nextCase {ticket : Nat} {judgement : Judgement} (h : Judged s ticket account judgement s') :
    s'.nextCase = s.nextCase := by
  cases h with
  | contempt _ _ _ => exact (nextCase_forfeit s _ _).2
  | exhausted _ _ _ _ => exact (nextCase_forfeit s _ _).1
  | proven _ _ _ => exact (nextCase_settled { s with allocationCount := s.allocationCount - 1 } _ _).2
  | _ => rfl

/-- No ticket is handed out twice. -/
theorem step_nextCase (hstep : Step c a c') : c.store.nextCase ≤ c'.store.nextCase := by
  cases hstep with
  | call _ hprepared heffect =>
    obtain ⟨nonces, rfl⟩ := hprepared
    rcases heffect with rfl | heffect
    · exact le_rfl
    · exact heffect.nextCase
  | judged _ hjudged =>
    rcases hjudged with rfl | hjudged
    · exact le_rfl
    · exact hjudged.nextCase.ge
  | people _ _ => exact le_rfl
  | elsewhere => exact le_rfl

namespace Told

theorem pending_note (h : Told c.store account k) (hwaits : Waits c a) (hturn : Turn c a c' account) {ticket : Nat}
    (hget : c'.store.candidates.get account = some (.selected selection)) (hjudging : selection.judging = some ticket) :
    (ticket, selection.allocation) ∈ (k.note c a c' account).cases := by
  cases hturn with
  | idle hsame _ => exact List.mem_append_left _ (h.pending selection ticket (hsame.symm.trans hget) hjudging)
  | @submitted before hbefore hnone hafter _ _ =>
    cases hafter.symm.trans hget
    refine List.mem_append_right _ (Option.mem_toList.mpr (openedCase_eq_some.mpr ?_))
    exact ⟨before, _, hbefore, hafter, hnone, hjudging, rfl⟩
  | allocated hcall hcaller hbefore hdone hafter _ =>
    cases hafter.symm.trans hget
    cases (hwaits.judging hcall hcaller hbefore hdone).symm.trans hjudging
  | committed _ hafter _ hnone _ _ =>
    cases hafter.symm.trans hget
    cases hnone.symm.trans hjudging
  | retried _ _ hafter _ | initDone _ hafter _ =>
    cases hafter.symm.trans hget
    cases hjudging
  | begun _ hafter _ | rerolled _ hafter _ | proven _ _ hafter _ | contempt _ hafter _ | exhausted _ _ _ hafter _
  | timedOut _ _ _ hafter _ | flaked _ hafter _ | registered _ hafter _ _ => cases hafter.symm.trans hget

theorem proven_note (h : Told c.store account k) (hturn : Turn c a c' account) {design : InkSpec} {id : Nat}
    {wasReferred wasInvited : Bool}
    (hget : c'.store.candidates.get account = some (.proven design id wasReferred wasInvited)) :
    (k.note c a c' account).Favoured := by
  cases hturn with
  | idle hsame _ => exact (h.proven _ _ _ _ (hsame.symm.trans hget)).note
  | @proven selection ticket hdelivered hfull _ _ =>
    have hcase := h.pending selection ticket hdelivered.awaits.1 hdelivered.awaits.2
    rw [hfull] at hcase
    exact ⟨_, hdelivered.mem_verdicts, rfl, List.mem_append_left _ hcase⟩
  | begun _ hafter _ | rerolled _ hafter _ | committed _ hafter _ _ _ _ | submitted _ _ hafter _ _
  | allocated _ _ _ _ hafter _ | retried _ _ hafter _ | initDone _ hafter _ | contempt _ hafter _
  | exhausted _ _ _ hafter _ | timedOut _ _ _ hafter _ | flaked _ hafter _ | registered _ hafter _ _ =>
    cases hafter.symm.trans hget

theorem note (h : Told c.store account k) (hwaits : Waits c a) (hstep : Step c a c')
    (hbegin : beginning (c.store.candidates.get account) (c'.store.candidates.get account) = none) :
    Told c'.store account (k.note c a c' account) := by
  have hturn := step_turn hstep account
  -- A case that is opened has a ticket that none has had before.
  have hopened : ∀ ticket ∈ (openedCase (c.store.candidates.get account)
      (c'.store.candidates.get account)).toList.map Prod.fst,
      ticket = c.store.nextCase ∧ c'.store.nextCase = c.store.nextCase + 1 := by
    intro ticket hticket
    obtain ⟨case, hcase, rfl⟩ := List.mem_map.mp hticket
    exact hturn.opened (Option.mem_toList.mp hcase)
  refine ⟨fun _ _ => h.pending_note hwaits hturn, fun _ _ _ _ => h.proven_note hturn, fun hmany => ?_, ?_,
    fun ticket hticket => ?_, fun ticket hearlier hmem => ?_⟩
  · by_cases hbefore : 0 < k.registrations
    · obtain ⟨hfavoured, hnone⟩ := h.registered hbefore
      exact ⟨hfavoured.note, hturn.absent hnone hbegin⟩
    · cases hid : registeredId (c.store.candidates.get account) (c'.store.candidates.get account) with
      | none =>
        simp only [Candidacy.note, hid, Option.toList_none, List.length_nil, Nat.add_zero] at hmany
        exact absurd hmany hbefore
      | some id =>
        obtain ⟨design, wasReferred, wasInvited, hproven, hgone⟩ := registeredId_eq_some.mp hid
        exact ⟨(h.proven _ _ _ _ hproven).note, hgone⟩
  · show k.registrations + _ ≤ 1
    cases hid : registeredId (c.store.candidates.get account) (c'.store.candidates.get account) with
    | none => exact h.once
    | some id =>
      obtain ⟨_, _, _, hproven, -⟩ := registeredId_eq_some.mp hid
      have hfirst : ¬0 < k.registrations := fun hmany => by cases (h.registered hmany).2.symm.trans hproven
      show k.registrations + 1 ≤ 1
      omega
  · have hnext := step_nextCase hstep
    rw [openedSoFar, Candidacy.note, List.map_append, ← List.append_assoc, List.mem_append] at hticket
    rcases hticket with hold | hnew
    · exact lt_of_lt_of_le (h.below ticket hold) hnext
    · obtain ⟨rfl, hsucc⟩ := hopened ticket hnew
      rw [hsucc]
      exact Nat.lt_succ_self _
  · rw [Candidacy.note, List.map_append, List.mem_append] at hmem
    rcases hmem with hold | hnew
    · exact h.apart ticket hearlier hold
    · obtain ⟨rfl, -⟩ := hopened ticket hnew
      exact lt_irrefl _ (h.below _ (List.mem_append_left _ hearlier))

/-- A new candidacy has opened nothing. -/
theorem begin {cred : Credibility T} {earlier : List Nat}
    (hbegin : beginning (c.store.candidates.get account) (c'.store.candidates.get account) = some cred)
    (hbelow : ∀ ticket ∈ earlier, ticket < c'.store.nextCase) :
    Told c'.store account { cred := cred, earlier := earlier } := by
  unfold beginning at hbegin
  split at hbegin
  · rename_i hafter
    refine ⟨fun _ _ hget => ?_, fun _ _ _ _ hget => ?_, nofun, Nat.zero_le _, fun ticket hticket => ?_,
      fun _ _ => List.not_mem_nil⟩
    · cases hafter.symm.trans hget
    · cases hafter.symm.trans hget
    · rw [openedSoFar, List.map_nil, List.append_nil] at hticket
      exact hbelow ticket hticket
  · cases hbegin

end Told

/-! ### People -/

theorem contains_forfeit (s : Store T) (account : T.AccountId) (cred : Credibility T) (id : Nat) :
    (forfeit referralBad s account cred).people.contains id = s.people.contains id ∧
      (forfeit referralContemptuous s account cred).people.contains id = s.people.contains id := by
  cases cred with
  | referred who => exact ⟨StorageMap.contains_modify _ _ _ _, StorageMap.contains_modify _ _ _ _⟩
  | deposit _ | invited _ => exact ⟨rfl, rfl⟩

theorem contains_settled (s : Store T) (account : T.AccountId) (cred : Credibility T) (id : Nat) :
    (release s account cred).people.contains id = s.people.contains id ∧
      (honour s account cred).people.contains id = s.people.contains id := by
  cases cred with
  | referred who => exact ⟨StorageMap.contains_modify _ _ _ _, StorageMap.contains_modify _ _ _ _⟩
  | deposit _ | invited _ => exact ⟨rfl, rfl⟩

theorem Judged.people {ticket : Nat} {judgement : Judgement} (h : Judged s ticket account judgement s') (id : Nat) :
    s'.people.contains id = s.people.contains id := by
  cases h with
  | contempt _ _ _ => exact (contains_forfeit s _ _ id).2
  | exhausted _ _ _ _ => exact (contains_forfeit s _ _ id).1
  | proven _ _ _ => exact (contains_settled { s with allocationCount := s.allocationCount - 1 } _ _ id).2
  | _ => rfl

/-- Only a proven candidate becomes a person. -/
theorem Effect.people {who : Option T.AccountId} {call : Call T} (h : Effect env s who call s') :
    (∀ id, s'.people.contains id = s.people.contains id) ∨
      ∃ account design id wasReferred wasInvited, Registered s account design id wasReferred wasInvited s' := by
  cases h with
  | registered h => exact .inr ⟨_, _, _, _, _, h⟩
  | referred _ hget _ _ _ _ => exact .inl fun id => StorageMap.contains_insert_of_get hget id _
  | timedOut _ _ _ => exact .inl fun id => (contains_forfeit s _ _ id).1
  | flaked _ => exact .inl fun id => (contains_settled s _ _ id).1
  | rewarded hget _ => exact .inl fun id => StorageMap.contains_insert_of_get hget id _
  | frame h => exact .inl fun id => by rw [h.people]
  | _ => exact .inl fun _ => rfl

/-- The people are those that there were, and those who register. -/
theorem step_people (hstep : Step c a c') (id : Nat) : c'.store.people.contains id = true ↔
    c.store.people.contains id = true ∨ ∃ account,
      registeredId (c.store.candidates.get account) (c'.store.candidates.get account) = some id := by
  constructor
  · intro hknown
    cases hstep with
    | call _ hprepared heffect =>
      obtain ⟨nonces, rfl⟩ := hprepared
      rcases heffect with rfl | heffect
      · exact .inl hknown
      · rcases heffect.people with hsame | ⟨account, design, id', wasReferred, wasInvited, h⟩
        · exact .inl ((hsame id).symm.trans hknown)
        · rw [h.people, StorageMap.contains, StorageMap.get_insert] at hknown
          split at hknown
          · rename_i hid
            refine .inr ⟨account, registeredId_eq_some.mpr ⟨design, wasReferred, wasInvited, ?_, ?_⟩⟩
            · rw [hid]
              exact h.proven
            · rw [h.candidates, StorageMap.get_remove, if_pos rfl]
          · exact .inl hknown
    | judged _ hjudged =>
      rcases hjudged with rfl | hjudged
      · exact .inl hknown
      · exact .inl ((hjudged.people id).symm.trans hknown)
    | people _ _ => exact .inl hknown
    | elsewhere => exact .inl hknown
  · rintro (hknown | ⟨account, hid⟩)
    · cases hstep with
      | call _ hprepared heffect =>
        obtain ⟨nonces, rfl⟩ := hprepared
        rcases heffect with rfl | heffect
        · exact hknown
        · rcases heffect.people with hsame | ⟨account, design, id', wasReferred, wasInvited, h⟩
          · exact (hsame id).trans hknown
          · rw [h.people, StorageMap.contains, StorageMap.get_insert]
            split
            · rfl
            · exact hknown
      | judged _ hjudged =>
        rcases hjudged with rfl | hjudged
        · exact hknown
        · exact (hjudged.people id).trans hknown
      | people _ _ => exact hknown
      | elsewhere => exact hknown
    · obtain ⟨design, hpeople⟩ := (step_turn hstep account).registers hid
      rw [hpeople]
      exact StorageMap.contains_eq_true.mpr ⟨_, (StorageMap.get_insert _ _ _ _).trans (if_pos rfl)⟩

/-- Those who register in one step have ids of their own. -/
theorem Books.registering_nodup (h : Books c.store) : (c.store.candidates.keys.filterMap fun account =>
    registeredId (c.store.candidates.get account) (c'.store.candidates.get account)).Nodup := by
  refine (StorageMap.nodup_keys _).filterMap fun account b id hid hid' => ?_
  obtain ⟨_, _, _, hproven, -⟩ := registeredId_eq_some.mp hid
  obtain ⟨_, _, _, hproven', -⟩ := registeredId_eq_some.mp hid'
  exact h.distinct account b id (congrArg Profile.reserved (profile_of_get hproven))
    (congrArg Profile.reserved (profile_of_get hproven'))

/-! ### Runs -/

/-- The journal tells of every candidate, and of everyone who has registered. -/
structure Tracked (s : Store T) (j : Journal T) : Prop where
  begun : Begun s j
  told : ∀ account k, j.candidacies account = some k → Told s account k
  enrolled : ∀ id ∈ j.registered, s.people.contains id = true
  nodup : j.registered.Nodup

namespace Tracked

theorem told_note (h : Tracked c.store j) (hwaits : Waits c a) (hstep : Step c a c')
    (hk : (note c a c' j).candidacies account = some k) : Told c'.store account k := by
  cases hbegin : beginning (c.store.candidates.get account) (c'.store.candidates.get account) with
  | some cred =>
    cases (note_begun hbegin).symm.trans hk
    refine Told.begin hbegin fun ticket hticket => lt_of_lt_of_le ?_ (step_nextCase hstep)
    cases hold : j.candidacies account with
    | none =>
      rw [hold] at hticket
      cases hticket
    | some old =>
      rw [hold] at hticket
      exact (h.told account old hold).below ticket hticket
  | none =>
    obtain ⟨old, hold, rfl⟩ := Option.map_eq_some_iff.mp ((note_kept hbegin).symm.trans hk)
    exact (h.told account old hold).note hwaits hstep hbegin

theorem note (h : Tracked c.store j) (hbooks : Books c.store) (hwaits : Waits c a) (hstep : Step c a c') :
    Tracked c'.store (note c a c' j) := by
  refine ⟨h.begun.note hstep, fun account k hk => h.told_note hwaits hstep hk,
    fun id hid => (step_people hstep id).mpr ?_, h.nodup.append hbooks.registering_nodup ?_⟩
  · rcases List.mem_append.mp hid with hold | hnew
    · exact .inl (h.enrolled id hold)
    · obtain ⟨account, -, hregistered⟩ := List.mem_filterMap.mp hnew
      exact .inr ⟨account, hregistered⟩
  · -- The id of a candidate is reserved, and that of a person is not.
    intro id hold hnew
    obtain ⟨account, -, hregistered⟩ := List.mem_filterMap.mp hnew
    obtain ⟨_, _, _, hproven, -⟩ := registeredId_eq_some.mp hregistered
    have hunknown := hbooks.unknown (congrArg Profile.reserved (profile_of_get hproven))
    obtain ⟨person, hperson⟩ := StorageMap.contains_eq_true.mp (h.enrolled id hold)
    cases hunknown.symm.trans hperson

end Tracked

theorem tracked_reached {members : T.people.memberService.World} {world : T.World} {w : Chain T × Journal T}
    (h : Reaches (noting exec note) (fun w a => LeavesIds w.1 a ∧ Waits w.1 a)
      (genesis members world env, Journal.empty) w) : Books w.1.store ∧ Tracked w.1.store w.2 := by
  refine Reaches.noted (G := fun c a => LeavesIds c a ∧ Waits c a)
    (I := fun c j => Books c.store ∧ Tracked c.store j) h ?_ fun c j a c' ⟨hbooks, htracked⟩ ⟨hids, hwaits⟩ hexec => ?_
  · exact ⟨Books.genesis members world env, nofun, nofun, nofun, List.nodup_nil⟩
  · have hstep := exec_step hexec
    exact ⟨hbooks.step hids hstep, htracked.note hbooks hwaits hstep⟩

/-- A judgement moves the account only that it is called back with, and only while it waits for it. -/
theorem Judged.idle {ticket : Nat} {judgement : Judgement} {b : T.AccountId}
    (h : Judged s ticket account judgement s')
    (hb : b = account → ∀ selection, ¬Awaits s account ticket selection) :
    s'.candidates.get b = s.candidates.get b ∧ news s s' b = [] := by
  have hother : ∀ {selection : Selection T}, Awaits s account ticket selection → b ≠ account :=
    fun hawaits hself => hb hself _ hawaits
  cases h with
  | @contempt selection registry hawaits _ _ =>
    exact ⟨(get_dismissed (candidates_forfeit_contemptuous s account _) registry b).trans (if_neg (hother hawaits)),
      news_other (hother hawaits) (settlements_forfeit_contemptuous s account selection.cred)⟩
  | @exhausted selection registry hawaits _ _ _ =>
    exact ⟨(get_dismissed (candidates_forfeit_bad s account _) registry b).trans (if_neg (hother hawaits)),
      news_other (hother hawaits) (settlements_forfeit_bad s account selection.cred)⟩
  | retried hawaits _ _ _ => exact ⟨(StorageMap.get_insert _ _ _ _).trans (if_neg (hother hawaits)), news_of_same rfl b⟩
  | initDone hawaits _ _ => exact ⟨(StorageMap.get_insert _ _ _ _).trans (if_neg (hother hawaits)), news_of_same rfl b⟩
  | @proven selection hawaits _ _ =>
    refine ⟨(StorageMap.get_insert _ _ _ _).trans ((if_neg (hother hawaits)).trans ?_),
      news_other (hother hawaits) (settlements_honour _ account selection.cred)⟩
    show (honour _ account selection.cred).candidates.get b = _
    rw [candidates_honour]

/-- The verdict on a case of an earlier candidacy is without effect. -/
theorem Tracked.late (h : Tracked c.store j) {ticket : Nat} {judgement : Judgement}
    (hk : j.candidacies account = some k) (hearlier : ticket ∈ k.earlier)
    (hexec : exec c (.judged ticket judgement) = .ok c') :
    c'.store.candidates.get account = c.store.candidates.get account ∧ news c.store c'.store account = [] := by
  cases exec_step hexec with
  | call hcall _ _ => cases hcall
  | judged _ hjudged =>
    rcases hjudged with rfl | hjudged
    · exact ⟨rfl, news_of_same rfl account⟩
    · refine hjudged.idle fun hself selection hawaits => ?_
      have htold := h.told account k hk
      rw [← hself] at hawaits
      exact htold.apart ticket hearlier (List.mem_map.mpr ⟨_, htold.pending selection ticket hawaits.1 hawaits.2, rfl⟩)

/-- In every run in which there are ids to reserve and candidates take the full storage between cases
only: a new person is a candidate that leaves after a favourable verdict on full evidence; a candidacy
is registered once at most, and only after such a verdict; the verdict on a case of an earlier
candidacy is without effect on the account; and no id is registered twice. -/
theorem registered_favoured {members : T.people.memberService.World} {world : T.World} {w : Chain T × Journal T}
    (h : Reaches (noting exec note) (fun w a => LeavesIds w.1 a ∧ Waits w.1 a)
      (genesis members world env, Journal.empty) w) :
    (∀ a c' id, exec w.1 a = .ok c' → w.1.store.people.contains id = false → c'.store.people.contains id = true →
      ∃ account k, registeredId (w.1.store.candidates.get account) (c'.store.candidates.get account) = some id ∧
        w.2.candidacies account = some k ∧ k.Favoured) ∧
    (∀ account k, w.2.candidacies account = some k → k.registrations ≤ 1 ∧ (0 < k.registrations → k.Favoured)) ∧
    (∀ account k ticket judgement c', w.2.candidacies account = some k → ticket ∈ k.earlier →
      exec w.1 (.judged ticket judgement) = .ok c' →
      c'.store.candidates.get account = w.1.store.candidates.get account ∧ news w.1.store c'.store account = []) ∧
    w.2.registered.Nodup := by
  obtain ⟨-, htracked⟩ := tracked_reached h
  refine ⟨fun a c' id hexec hnew hknown => ?_, fun account k hk => ?_,
    fun account k ticket judgement c' hk hearlier hexec => htracked.late hk hearlier hexec, htracked.nodup⟩
  · rcases (step_people (exec_step hexec) id).mp hknown with hold | ⟨account, hid⟩
    · cases hold.symm.trans hnew
    · obtain ⟨design, wasReferred, wasInvited, hproven, -⟩ := registeredId_eq_some.mp hid
      obtain ⟨k, hk⟩ := htracked.begun account _ hproven
      exact ⟨account, k, hid, hk, (htracked.told account k hk).proven _ _ _ _ hproven⟩
  · have htold := htracked.told account k hk
    exact ⟨htold.once, fun hmany => (htold.registered hmany).1⟩

theorem registered_favoured_sample : ∃ w, Reaches (noting exec note) (fun w a => LeavesIds w.1 a ∧ Waits w.1 a)
    (sampleGenesis, Journal.empty) w ∧ w.2.registered = [0] ∧
    ∃ k, w.2.candidacies (1 : Nat) = some k ∧ 0 < k.registrations ∧ k.registrations ≤ 1 := by
  obtain ⟨w, hreach, hregistered, hsome⟩ := exists_reaches (noting exec note) (fun w a => LeavesIds w.1 a ∧ Waits w.1 a)
    (sampleGenesis, Journal.empty) (sampleCommit 1 0 ++ sampleRegister 1 5 0)
    (fun w => w.2.registered = [0] ∧ (w.2.candidacies (1 : Nat)).any (fun k => decide (0 < k.registrations)) = true)
    (by decide +kernel)
  obtain ⟨k, hk, hmany⟩ := (Option.any_eq_true _ _).mp hsome
  exact ⟨w, hreach, hregistered, k, hk, of_decide_eq_true hmany,
    ((registered_favoured (T := sampleConfig) hreach).2.1 (1 : Nat) k hk).1⟩

/-- The first evidence is judged true; more of it is submitted, the full storage is taken, and this is
judged true as well. -/
def sampleMidway : List (Action sampleConfig) :=
  [.dispatch .manager (.setConfiguration sampleSlow)] ++ sampleCommit 1 0 ++
    [.dispatch (.signed (1 : Nat)) (.submitEvidence (0 : Nat)), .judged 0 (.truth .true),
      .dispatch (.signed (1 : Nat)) (.submitEvidence (0 : Nat)), .dispatch (.signed (1 : Nat)) .allocateFull,
      .judged 1 (.truth .true), .dispatch (.signed (1 : Nat)) (.registerNonReferred (5 : Nat) (1 : Nat) (5 : Nat))]

/-- The account is recognized, though no case was opened with the full storage. -/
theorem registered_unfavoured : ∃ w, Reaches (noting exec note) (fun _ _ => True) (sampleGenesis, Journal.empty) w ∧
    (w.2.candidacies (1 : Nat)).any (fun k => decide (0 < k.registrations ∧ ¬k.Favoured)) = true :=
  exists_reaches (noting exec note) (fun _ _ => True) (sampleGenesis, Journal.empty) sampleMidway _ (by decide +kernel)

end Individuality.ProofOfInk
