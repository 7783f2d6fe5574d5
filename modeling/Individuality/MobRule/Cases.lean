import Individuality.MobRule.Calls

/-! Cases move forward, and each gets one verdict.

A case is unborn, then open to votes, then ripe, then done, then reaped; an
intervention takes it from open to done. `CaseView` is what the state holds of one
case, `CaseView.At` says what that is at each stage, and every call takes every case
onward (`Onward`): its callback is run on the way to done, and never again. -/
namespace Individuality.MobRule
open Support

/-! ### Stages -/

/-- How far a case has come. -/
inductive Stage
  | unborn
  | voting
  | ripe
  | done
  | reaped
  deriving DecidableEq, Repr

def Stage.rank : Stage → Nat
  | unborn => 0
  | voting => 1
  | ripe => 2
  | done => 3
  | reaped => 4

/-- The callback takes a case, a context and a judgement. -/
def Config.Accepts (T : Config) (callback : Callback) : Prop :=
  ∀ args, (T.curry callback args).isSome = true

/-- What the state holds of one case. -/
structure CaseView (T : Config) where
  born : Bool
  voting : Option (OpenCase T.Statement)
  ripe : Option (RipeCase T.Statement)
  done : Option DoneCase
  /-- The verdicts that its callback was given. -/
  verdicts : List Judgement

inductive CaseView.At {T : Config} : CaseView T → Stage → Prop
  | unborn : At ⟨false, none, none, none, []⟩ .unborn
  | voting (case : OpenCase T.Statement) (accepts : T.Accepts case.details.callback) :
      At ⟨true, some case, none, none, []⟩ .voting
  | ripe (case : RipeCase T.Statement) (accepts : T.Accepts case.details.callback) :
      At ⟨true, none, some case, none, []⟩ .ripe
  | done (case : DoneCase) : At ⟨true, none, none, some case, [case.verdict]⟩ .done
  | reaped (verdict : Judgement) : At ⟨true, none, none, none, [verdict]⟩ .reaped

namespace State
variable {T : Config}

/-- The verdicts that the callback of a case was given. -/
def verdictsOf (s : State T) (i : CaseIndex) : List Judgement :=
  (s.callbacks.filter fun c => c.1 == i).map Prod.snd

def caseView (s : State T) (i : CaseIndex) : CaseView T :=
  ⟨Nat.blt i s.caseCount, s.openCases.get i, s.ripeCases.get i, s.doneCases.get i, s.verdictsOf i⟩

/-- The stage of a case, as far as the storage tells. -/
def stage (s : State T) (i : CaseIndex) : Stage :=
  if s.caseCount ≤ i then .unborn
  else if s.openCases.contains i then .voting
  else if s.ripeCases.contains i then .ripe
  else if s.doneCases.contains i then .done
  else .reaped

variable {s s' s'' : State T} {i : CaseIndex} {stage : Stage}

theorem stage_eq (h : (s.caseView i).At stage) : s.stage i = stage := by
  unfold State.stage StorageMap.contains
  generalize hview : s.caseView i = view at h
  cases h <;>
  · simp only [caseView, CaseView.mk.injEq] at hview
    obtain ⟨hborn, hvoting, hripe, hdone, -⟩ := hview
    simp [← Nat.not_lt, ← Nat.blt_eq, hborn, hvoting, hripe, hdone]

/-! ### What the stage of a case follows from -/

theorem view_of_open {case : OpenCase T.Statement} (h : (s.caseView i).At stage)
    (hopen : s.openCases.get i = some case) :
    s.caseView i = ⟨true, some case, none, none, []⟩ ∧ T.Accepts case.details.callback ∧ stage = .voting := by
  have hvoting : (s.caseView i).voting = some case := hopen
  generalize s.caseView i = view at h hvoting
  cases h with
  | voting case' accepts =>
    cases hvoting
    exact ⟨rfl, accepts, rfl⟩
  | _ => cases hvoting

theorem view_of_ripe {case : RipeCase T.Statement} (h : (s.caseView i).At stage)
    (hripe : s.ripeCases.get i = some case) :
    s.caseView i = ⟨true, none, some case, none, []⟩ ∧ T.Accepts case.details.callback ∧ stage = .ripe := by
  have hview : (s.caseView i).ripe = some case := hripe
  generalize s.caseView i = view at h hview
  cases h with
  | ripe case' accepts =>
    cases hview
    exact ⟨rfl, accepts, rfl⟩
  | _ => cases hview

theorem view_of_done {case : DoneCase} (h : (s.caseView i).At stage) (hdone : s.doneCases.get i = some case) :
    s.caseView i = ⟨true, none, none, some case, [case.verdict]⟩ ∧ stage = .done := by
  have hview : (s.caseView i).done = some case := hdone
  generalize s.caseView i = view at h hview
  cases h with
  | done case' =>
    cases hview
    exact ⟨rfl, rfl⟩
  | _ => cases hview

theorem view_of_unborn (h : (s.caseView i).At stage) (hunborn : s.caseCount ≤ i) :
    s.caseView i = ⟨false, none, none, none, []⟩ ∧ stage = .unborn := by
  have hview : (s.caseView i).born = false := by
    rw [← Bool.not_eq_true]
    exact fun hborn => Nat.not_lt.mpr hunborn (Nat.blt_eq.mp hborn)
  generalize s.caseView i = view at h hview
  cases h with
  | unborn => exact ⟨rfl, rfl⟩
  | _ => cases hview

/-! ### Onward -/

/-- Every case that is at a stage stays there or comes to a later one, and keeps its verdicts. -/
def Onward (s s' : State T) : Prop :=
  ∀ i stage, (s.caseView i).At stage → ∃ stage', (s'.caseView i).At stage' ∧
    stage.rank ≤ stage'.rank ∧ s.verdictsOf i <+: s'.verdictsOf i

theorem Onward.refl (s : State T) : s.Onward s := fun _ stage h =>
  ⟨stage, h, Nat.le_refl _, List.prefix_rfl⟩

theorem Onward.trans (h : s.Onward s') (h' : s'.Onward s'') : s.Onward s'' := by
  intro i stage hat
  obtain ⟨stage', hat', hrank, hgrows⟩ := h i stage hat
  obtain ⟨stage'', hat'', hrank', hgrows'⟩ := h' i stage' hat'
  exact ⟨stage'', hat'', hrank.trans hrank', hgrows.trans hgrows'⟩

theorem Onward.of_view (h : ∀ i, s'.caseView i = s.caseView i) : s.Onward s' := by
  intro i stage hat
  refine ⟨stage, (h i).symm ▸ hat, Nat.le_refl _, ?_⟩
  have hverdicts : s'.verdictsOf i = s.verdictsOf i := congrArg CaseView.verdicts (h i)
  exact hverdicts.symm ▸ List.prefix_rfl

/-- Every case is at some stage. -/
def Coherent (s : State T) : Prop := ∀ i, ∃ stage, (s.caseView i).At stage

theorem Coherent.genesis (T : Config) (world : T.World) : (State.genesis T world).Coherent := fun _ =>
  ⟨.unborn, .unborn⟩

theorem Coherent.onward (h : s.Coherent) (h' : s.Onward s') : s'.Coherent := fun i => by
  obtain ⟨stage, hat⟩ := h i
  obtain ⟨stage', hat', -, -⟩ := h' i stage hat
  exact ⟨stage', hat'⟩

theorem Coherent.at_stage (h : s.Coherent) (i : CaseIndex) : (s.caseView i).At (s.stage i) := by
  obtain ⟨stage, hat⟩ := h i
  exact (stage_eq hat).symm ▸ hat

theorem Coherent.born_of_open (h : s.Coherent) {case : OpenCase T.Statement}
    (hopen : s.openCases.get i = some case) : i < s.caseCount := by
  have hborn := congrArg CaseView.born (view_of_open (h.at_stage i) hopen).1
  exact Nat.blt_eq.mp hborn

theorem Coherent.closed_of_done (h : s.Coherent) (hdone : s.doneCases.get i ≠ none) :
    s.openCases.get i = none := by
  obtain ⟨case, hcase⟩ := Option.ne_none_iff_exists'.mp hdone
  exact congrArg CaseView.voting (view_of_done (h.at_stage i) hcase).1

/-- A call that moves one case takes all onward if it takes that one. -/
theorem Onward.of_one (caseIndex : CaseIndex) (hothers : ∀ i, i ≠ caseIndex → s'.caseView i = s.caseView i)
    (hone : ∀ stage, (s.caseView caseIndex).At stage → ∃ stage', (s'.caseView caseIndex).At stage' ∧
      stage.rank ≤ stage'.rank ∧ s.verdictsOf caseIndex <+: s'.verdictsOf caseIndex) : s.Onward s' := by
  intro i stage hat
  by_cases hi : i = caseIndex
  · subst hi
    exact hone stage hat
  · refine ⟨stage, (hothers i hi).symm ▸ hat, Nat.le_refl _, ?_⟩
    have hverdicts : s'.verdictsOf i = s.verdictsOf i := congrArg CaseView.verdicts (hothers i hi)
    exact hverdicts.symm ▸ List.prefix_rfl

/-! ### What each operation does to a case -/

theorem Onward.judgeStatement (env : Env) (statement : T.Statement) (context : JudgementContext)
    {callback : Callback} (hcount : s.caseCount < U32.max) (haccepts : T.Accepts callback) :
    s.Onward (s.judgeStatement env statement context callback) := by
  have hinc : U32.saturatingInc s.caseCount = s.caseCount + 1 := U32.saturatingInc_eq hcount
  refine Onward.of_one s.caseCount (fun i hi => ?_) fun stage hat => ?_
  · have hborn : Nat.blt i (s.caseCount + 1) = Nat.blt i s.caseCount := by
      rw [Bool.eq_iff_iff, Nat.blt_eq, Nat.blt_eq]
      exact ⟨fun h => Nat.lt_of_le_of_ne (Nat.le_of_lt_succ h) hi, Nat.lt_succ_of_lt⟩
    simp [caseView, verdictsOf, State.judgeStatement, hinc, hi, hborn]
  · obtain ⟨hview, rfl⟩ := view_of_unborn hat (Nat.le_refl _)
    simp only [caseView, CaseView.mk.injEq] at hview
    obtain ⟨-, -, hripe, hdone, hverdicts⟩ := hview
    have hview' : (s.judgeStatement env statement context callback).caseView s.caseCount =
        ⟨true, some ⟨env.secs, ⟨statement, context, callback⟩, .zero⟩, none, none, []⟩ := by
      simp [caseView, State.judgeStatement, hinc, hripe, hdone, ← hverdicts, verdictsOf]
    exact ⟨.voting, hview' ▸ .voting _ haccepts, by decide, hverdicts ▸ List.nil_prefix⟩

variable {case case' : OpenCase T.Statement}

theorem Onward.ripen (hopen : s.openCases.get i = some case) (hdetails : case'.details = case.details) :
    s.Onward (s.ripen i case') := by
  refine Onward.of_one i (fun j hj => ?_) fun stage hat => ?_
  · simp [caseView, verdictsOf, State.ripen, hj]
  · obtain ⟨hview, haccepts, rfl⟩ := view_of_open hat hopen
    simp only [caseView, CaseView.mk.injEq] at hview
    obtain ⟨hborn, -, -, hdone, hverdicts⟩ := hview
    have hview' : (s.ripen i case').caseView i =
        ⟨true, none, some ⟨case'.details, (s.collapsed case'.tally).verdict⟩, none, []⟩ := by
      simpa [caseView, State.ripen, hdone, ← hverdicts, verdictsOf] using hborn
    exact ⟨.ripe, hview' ▸ .ripe _ (hdetails ▸ haccepts), by decide, hverdicts ▸ List.nil_prefix⟩

/-- A case that its votes do not decide stays open. -/
theorem Onward.stayOpen (hopen : s.openCases.get i = some case) (hdetails : case'.details = case.details) :
    s.Onward { s with openCases := s.openCases.insert i case' } := by
  refine Onward.of_one i (fun j hj => ?_) fun stage hat => ?_
  · simp [caseView, verdictsOf, hj]
  · obtain ⟨hview, haccepts, rfl⟩ := view_of_open hat hopen
    simp only [caseView, CaseView.mk.injEq] at hview
    obtain ⟨hborn, -, hripe, hdone, hverdicts⟩ := hview
    have hview' : ({ s with openCases := s.openCases.insert i case' } : State T).caseView i =
        ⟨true, some case', none, none, []⟩ := by
      simpa [caseView, hripe, hdone, ← hverdicts, verdictsOf] using hborn
    exact ⟨.voting, hview' ▸ .voting _ (hdetails ▸ haccepts), Nat.le_refl _, hverdicts ▸ List.nil_prefix⟩

theorem settle_eq (env : Env) (s : State T) (i : CaseIndex) (case : OpenCase T.Statement) :
    ∃ openCases ripeCases, s.settle env i case = { s with openCases := openCases, ripeCases := ripeCases } := by
  unfold State.settle
  split
  · exact ⟨_, _, rfl⟩
  · exact ⟨_, s.ripeCases, rfl⟩

theorem Onward.settle (env : Env) (hopen : s.openCases.get i = some case)
    (hdetails : case'.details = case.details) : s.Onward (s.settle env i case') := by
  unfold State.settle
  split
  · exact Onward.ripen hopen hdetails
  · exact Onward.stayOpen hopen hdetails

variable {details : CaseDetails T.Statement} {verdict : Judgement}

/-- A callback that takes its arguments is dispatched. -/
theorem runCallback_of_accepts (h : T.Accepts details.callback) :
    ∃ world, s.runCallback i details verdict =
      { s with world := world, callbacks := s.callbacks ++ [(i, verdict)] } := by
  obtain ⟨call, hcall⟩ := Option.isSome_iff_exists.mp (h (i, details.context, verdict))
  refine ⟨T.dispatch s.world call, ?_⟩
  simp only [runCallback, hcall]

theorem runCallback_eq (s : State T) (i : CaseIndex) (details : CaseDetails T.Statement) (verdict : Judgement) :
    ∃ world callbacks, s.runCallback i details verdict = { s with world := world, callbacks := callbacks } := by
  unfold runCallback
  split
  · exact ⟨s.world, s.callbacks, rfl⟩
  · exact ⟨_, _, rfl⟩

/-- A callback concerns its own case only. -/
theorem caseView_runCallback {j : CaseIndex} (hj : j ≠ i) :
    (s.runCallback i details verdict).caseView j = s.caseView j := by
  unfold runCallback
  split
  · rfl
  · simp [caseView, verdictsOf, hj.symm]

/-- A case that is taken from the open or the ripe ones is done once its callback has run. -/
theorem Onward.conclude (env : Env) {t : State T} (hothers : ∀ j, j ≠ i → t.caseView j = s.caseView j)
    (hone : ∀ stage, (s.caseView i).At stage → T.Accepts details.callback ∧
      t.caseView i = ⟨true, none, none, none, []⟩ ∧ s.verdictsOf i = [] ∧ stage.rank ≤ Stage.done.rank) :
    s.Onward ((t.runCallback i details verdict).finish env i verdict) := by
  refine Onward.of_one i (fun j hj => ?_) fun stage hat => ?_
  · rw [← hothers j hj, ← @caseView_runCallback T t i details verdict j hj]
    simp [caseView, verdictsOf, finish, hj]
  · obtain ⟨haccepts, ht, hverdicts, hrank⟩ := hone stage hat
    obtain ⟨world, hrun⟩ := @runCallback_of_accepts T t i details verdict haccepts
    simp only [caseView, CaseView.mk.injEq] at ht
    obtain ⟨hborn, hopen, hripe, -, hnone⟩ := ht
    have hview' : ((t.runCallback i details verdict).finish env i verdict).caseView i =
        ⟨true, none, none, some ⟨env.secs, verdict⟩, [verdict]⟩ := by
      unfold verdictsOf at hnone
      simp [hrun, caseView, verdictsOf, finish, hopen, hripe, List.filter_append, hnone, hborn]
    exact ⟨.done, hview' ▸ .done ⟨env.secs, verdict⟩, hrank, hverdicts ▸ List.nil_prefix⟩

/-! ### Votes that are claimed -/

/-- What the claim of some votes has taken out of the votes stored. -/
structure Taken (s : State T) (voter : Alias) (caseIndices : List CaseIndex)
    (votes : StorageMap (CaseIndex × Alias) Judgement) : Prop where
  keys : s.votes.keys.Perm (caseIndices.map (·, voter) ++ votes.keys)
  done : ∀ i ∈ caseIndices, s.doneCases.get i ≠ none
  get : ∀ key, s.doneCases.get key.1 = none → votes.get key = s.votes.get key

/-- The votes and the penalties of the state are as given, and all else as it was. -/
def withVotes (s : State T) (votes : StorageMap (CaseIndex × Alias) Judgement)
    (penalties : StorageMap Alias Nat) : State T :=
  { s with votes := votes, votingPenalties := penalties }

theorem takeVote_eq_ok {env : Env} {voter : Alias} {w w' : State T × Nat}
    (h : takeVote env voter w i = .ok w') :
    ∃ vote case penalties, w.1.votes.get (i, voter) = some vote ∧ w.1.doneCases.get i = some case ∧
      w'.1 = w.1.withVotes (w.1.votes.remove (i, voter)) penalties ∧
      w'.2 = if case.verdict.isCorrect vote then U32.saturatingInc w.2 else w.2 := by
  obtain ⟨t, n⟩ := w
  simp only [takeVote, bind_eq_ok, okOr_eq_ok] at h
  obtain ⟨vote, hvote, case, hcase, h⟩ := h
  split at h
  · rename_i hcorrect
    cases h
    exact ⟨vote, case, t.votingPenalties, hvote, hcase, rfl, (if_pos hcorrect).symm⟩
  · rename_i hwrong
    split at h <;> cases h
    · exact ⟨vote, case, t.votingPenalties.insert voter env.blockNumber, hvote, hcase, rfl,
        (if_neg hwrong).symm⟩
    · exact ⟨vote, case, t.votingPenalties, hvote, hcase, rfl, (if_neg hwrong).symm⟩

theorem Taken.take {voter : Alias} {caseIndices : List CaseIndex}
    {votes : StorageMap (CaseIndex × Alias) Judgement} {vote : Judgement}
    (h : s.Taken voter caseIndices votes) (hvote : votes.get (i, voter) = some vote)
    (hdone : s.doneCases.get i ≠ none) : s.Taken voter (caseIndices ++ [i]) (votes.remove (i, voter)) where
  keys := by
    rw [List.map_append, List.append_assoc]
    exact h.keys.trans (List.Perm.append_left _ (StorageMap.perm_keys_remove hvote))
  done := fun j hj => (List.mem_append.mp hj).elim (h.done j) fun hi => List.mem_singleton.mp hi ▸ hdone
  get := fun key hkey => by
    have hne : key ≠ (i, voter) := by
      rintro rfl
      exact hdone hkey
    rw [StorageMap.get_remove, if_neg hne]
    exact h.get key hkey

/-- A claim takes the votes on the cases claimed, which are done. -/
theorem foldlM_takeVote {env : Env} {voter : Alias} {caseIndices : List CaseIndex} {w : State T × Nat}
    (h : caseIndices.foldlM (takeVote env voter) (s, 0) = .ok w) :
    ∃ votes penalties, w.1 = s.withVotes votes penalties ∧ s.Taken voter caseIndices votes := by
  refine foldlM_ok_induction (fun done (w : State T × Nat) =>
    ∃ votes penalties, w.1 = s.withVotes votes penalties ∧ s.Taken voter done votes) h ?_ ?_
  · exact ⟨s.votes, s.votingPenalties, rfl, List.Perm.refl _, nofun, fun _ _ => rfl⟩
  · rintro done i ⟨t, n⟩ w' - ⟨votes, penalties, ht, htaken⟩ hstep
    dsimp only at ht
    subst ht
    obtain ⟨vote, case, penalties', hvote, hcase, hw', -⟩ := takeVote_eq_ok hstep
    have hdone : s.doneCases.get i ≠ none := fun hnone => Option.some_ne_none case (hcase.symm.trans hnone)
    exact ⟨_, penalties', hw', htaken.take hvote hdone⟩

/-! ### What each call does to the cases -/

/-- The votes stored on a case of one opinion. -/
def votesOn (s : State T) (i : CaseIndex) (opinion : Judgement) : Nat :=
  s.votes.countOf fun key vote => key.1 == i && vote == opinion

/-- There are fewer cases than case indices, callbacks take what they are given, and the votes of
one opinion on a case can be counted. -/
def Fits (s : State T) : Action T → Prop
  | (_, .judgeStatement _ _ callback) => s.caseCount < U32.max ∧ T.Accepts callback
  | (_, .vote voter caseIndex opinion) =>
    ({ s with votes := s.votes.insert (caseIndex, voter) opinion } : State T).votesOn caseIndex opinion ≤
      U32.max
  | _ => True

/-- What the case maps and the callbacks were before, they are still. -/
theorem Onward.of_eq (hcount : s'.caseCount = s.caseCount) (hopen : s'.openCases = s.openCases)
    (hripe : s'.ripeCases = s.ripeCases) (hdone : s'.doneCases = s.doneCases)
    (hcallbacks : s'.callbacks = s.callbacks) : s.Onward s' := by
  refine Onward.of_view fun i => ?_
  simp only [caseView, verdictsOf, hcount, hopen, hripe, hdone, hcallbacks]

variable {env : Env}

theorem Onward.vote {voter : Alias} {opinion : Judgement} (h : s.vote env voter i opinion = .ok s') :
    s.Onward s' := by
  simp only [State.vote, bind_eq_ok, ensure_eq_ok, okOr_eq_ok, exists_const, Except.ok.injEq] at h
  obtain ⟨-, case, hopen, rfl⟩ := h
  have hvote : s.Onward { s with votes := s.votes.insert (i, voter) opinion } :=
    Onward.of_eq rfl rfl rfl rfl rfl
  refine hvote.trans (Onward.trans (Onward.settle env hopen ?_) (Onward.of_eq rfl rfl rfl rfl rfl))
  split <;> rfl

theorem Onward.forceRipenCase (h : s.forceRipenCase env i = .ok s') : s.Onward s' := by
  simp only [State.forceRipenCase, bind_eq_ok, okOr_eq_ok, ensure_eq_ok, exists_const, Except.ok.injEq] at h
  obtain ⟨case, hopen, since, -, -, rfl⟩ := h
  exact Onward.ripen hopen rfl

theorem Onward.touchCase (h : s.touchCase env i = .ok s') : s.Onward s' := by
  simp only [State.touchCase, bind_eq_ok, okOr_eq_ok, Except.ok.injEq] at h
  obtain ⟨case, hopen, rfl⟩ := h
  exact Onward.settle env hopen rfl

theorem Onward.closeCase (h : s.closeCase env i = .ok s') : s.Onward s' := by
  simp only [State.closeCase, bind_eq_ok, okOr_eq_ok, Except.ok.injEq] at h
  obtain ⟨case, hripe, rfl⟩ := h
  refine Onward.conclude env (fun j hj => ?_) fun stage hat => ?_
  · simp [caseView, verdictsOf, hj]
  · obtain ⟨hview, haccepts, rfl⟩ := view_of_ripe hat hripe
    simp only [caseView, CaseView.mk.injEq] at hview
    obtain ⟨hborn, hopen, -, hdone, hverdicts⟩ := hview
    refine ⟨haccepts, ?_, hverdicts, by decide⟩
    unfold verdictsOf at hverdicts
    simp [caseView, verdictsOf, hborn, hopen, hdone, hverdicts]

theorem Onward.intervene {verdict : Judgement} (h : s.intervene env i verdict = .ok s') : s.Onward s' := by
  simp only [State.intervene, bind_eq_ok, okOr_eq_ok, Except.ok.injEq] at h
  obtain ⟨case, hopen, rfl⟩ := h
  refine Onward.conclude env (fun j hj => ?_) fun stage hat => ?_
  · simp [caseView, verdictsOf, hj]
  · obtain ⟨hview, haccepts, rfl⟩ := view_of_open hat hopen
    simp only [caseView, CaseView.mk.injEq] at hview
    obtain ⟨hborn, -, hripe, hdone, hverdicts⟩ := hview
    refine ⟨haccepts, ?_, hverdicts, by decide⟩
    unfold verdictsOf at hverdicts
    simp [caseView, verdictsOf, hborn, hripe, hdone, hverdicts]

theorem Onward.reapCase (h : s.reapCase env i = .ok s') : s.Onward s' := by
  simp only [State.reapCase, bind_eq_ok, okOr_eq_ok, ensure_eq_ok, exists_const, Except.ok.injEq] at h
  obtain ⟨case, hdone, -, rfl⟩ := h
  refine Onward.of_one i (fun j hj => ?_) fun stage hat => ?_
  · simp [caseView, verdictsOf, hj]
  · obtain ⟨hview, rfl⟩ := view_of_done hat hdone
    simp only [caseView, CaseView.mk.injEq] at hview
    obtain ⟨hborn, hopen, hripe, -, hverdicts⟩ := hview
    have hview' : ({ s with doneCases := s.doneCases.remove i } : State T).caseView i =
        ⟨true, none, none, none, [case.verdict]⟩ := by
      unfold verdictsOf at hverdicts
      simp [caseView, verdictsOf, hborn, hopen, hripe, hverdicts]
    exact ⟨.reaped, hview' ▸ .reaped case.verdict, by decide, List.prefix_rfl⟩

theorem Onward.claimVotes {voter : Alias} {caseIndices : List CaseIndex}
    (h : s.claimVotes env voter caseIndices = .ok s') : s.Onward s' := by
  simp only [State.claimVotes, bind_eq_ok, ensure_eq_ok, exists_const, Except.ok.injEq] at h
  obtain ⟨-, ⟨t, n⟩, hloop, rfl⟩ := h
  obtain ⟨votes, penalties, ht, -⟩ := foldlM_takeVote hloop
  dsimp only at ht
  subst ht
  exact Onward.of_eq rfl rfl rfl rfl rfl

theorem Onward.cleanVote {voter : Alias} (h : s.cleanVote env i voter = .ok s') : s.Onward s' := by
  simp only [State.cleanVote, bind_eq_ok] at h
  obtain ⟨vote, -, h⟩ := h
  split at h
  · split at h
    · cases h
      exact Onward.of_eq rfl rfl rfl rfl rfl
    · split at h <;> cases h <;> exact Onward.of_eq rfl rfl rfl rfl rfl
  · cases h
    exact Onward.of_eq rfl rfl rfl rfl rfl

/-! ### The calls that move neither a case nor a vote -/

/-- The cases and the votes are as before, and so is how many votes each voter cast and cleaned. -/
structure SameCases (s s' : State T) : Prop where
  caseCount : s'.caseCount = s.caseCount
  openCases : s'.openCases = s.openCases
  ripeCases : s'.ripeCases = s.ripeCases
  doneCases : s'.doneCases = s.doneCases
  callbacks : s'.callbacks = s.callbacks
  votes : s'.votes = s.votes
  voted : ∀ voter, (s'.creditOf voter).voted = (s.creditOf voter).voted
  cleaned : ∀ voter, (s'.creditOf voter).cleaned = (s.creditOf voter).cleaned

theorem SameCases.onward (h : s.SameCases s') : s.Onward s' :=
  Onward.of_eq h.caseCount h.openCases h.ripeCases h.doneCases h.callbacks

theorem SameCases.of_credits (hcount : s'.caseCount = s.caseCount) (hopen : s'.openCases = s.openCases)
    (hripe : s'.ripeCases = s.ripeCases) (hdone : s'.doneCases = s.doneCases)
    (hcallbacks : s'.callbacks = s.callbacks) (hvotes : s'.votes = s.votes)
    (hcredits : s'.credits = s.credits) : s.SameCases s' where
  caseCount := hcount
  openCases := hopen
  ripeCases := hripe
  doneCases := hdone
  callbacks := hcallbacks
  votes := hvotes
  voted := fun voter => by rw [creditOf, creditOf, hcredits]
  cleaned := fun voter => by rw [creditOf, creditOf, hcredits]

theorem SameCases.refl (s : State T) : s.SameCases s := .of_credits rfl rfl rfl rfl rfl rfl rfl

theorem SameCases.trans (h : s.SameCases s') (h' : s'.SameCases s'') : s.SameCases s'' where
  caseCount := h'.caseCount.trans h.caseCount
  openCases := h'.openCases.trans h.openCases
  ripeCases := h'.ripeCases.trans h.ripeCases
  doneCases := h'.doneCases.trans h.doneCases
  callbacks := h'.callbacks.trans h.callbacks
  votes := h'.votes.trans h.votes
  voted := fun voter => (h'.voted voter).trans (h.voted voter)
  cleaned := fun voter => (h'.cleaned voter).trans (h.cleaned voter)

theorem creditOf_putCredit (s : State T) (voter other : Alias) (credit : MobCredit) :
    (s.putCredit voter credit).creditOf other = if other = voter then credit else s.creditOf other := by
  rw [creditOf, putCredit, StorageMap.get_insert]
  split <;> rfl

/-- What a voter is owed is another matter. -/
theorem SameCases.putCredit (s : State T) {voter : Alias} {credit : MobCredit}
    (hvoted : credit.voted = (s.creditOf voter).voted)
    (hcleaned : credit.cleaned = (s.creditOf voter).cleaned) : s.SameCases (s.putCredit voter credit) where
  caseCount := rfl
  openCases := rfl
  ripeCases := rfl
  doneCases := rfl
  callbacks := rfl
  votes := rfl
  voted := fun other => by
    rw [creditOf_putCredit]
    split
    · subst other
      exact hvoted
    · rfl
  cleaned := fun other => by
    rw [creditOf_putCredit]
    split
    · subst other
      exact hcleaned
    · rfl

theorem hold_eq_some {reason : HoldReason} {amount : Nat} (h : s.hold reason amount = some s') :
    ∃ pot, s.pot.hold reason amount = some pot ∧ s' = { s with pot := pot } := by
  obtain ⟨pot, hpot, rfl⟩ := Option.map_eq_some_iff.mp h
  exact ⟨pot, Currency.hold_of_eq_some hpot, rfl⟩

theorem release_eq_some {reason : HoldReason} {amount released : Nat} {precision : Precision}
    (h : s.release reason amount precision = some (s', released)) :
    ∃ pot, s.pot.release reason amount precision = some (pot, released) ∧ s' = { s with pot := pot } := by
  obtain ⟨⟨pot, released⟩, hpot, heq⟩ := Option.map_eq_some_iff.mp h
  cases heq
  exact ⟨pot, Currency.release_of_eq_some hpot, rfl⟩

theorem payFromPot_eq_some {destination : T.AccountId} {amount : Nat}
    (h : s.payFromPot destination amount = some s') :
    ∃ world pot, (∀ reason, pot.onHold reason = s.pot.onHold reason) ∧
      s' = { s with world := world, pot := pot } := by
  obtain ⟨⟨world, pot⟩, hpay, rfl⟩ := Option.map_eq_some_iff.mp h
  exact ⟨world, pot, Currency.onHold_pay hpay, rfl⟩

/-- What is left of the last round is released as far as it is on hold. -/
theorem recycle_eq_ok (h : s.recycle = .ok s') : ∃ pot, s' = { s with pot := pot } ∧
    pot.onHold .credit = s.pot.onHold .credit ∧
    pot.onHold .payout = s.pot.onHold .payout - (s.payoutDistribution.map fun d => d.remainingBalance).getD 0 := by
  unfold recycle at h
  split at h
  · rename_i hnone
    cases h
    refine ⟨s.pot, rfl, rfl, ?_⟩
    rw [hnone]
    rfl
  · rename_i d hd
    simp only [bind_eq_ok, okOr_eq_ok, Except.ok.injEq] at h
    obtain ⟨⟨t, released⟩, hrelease, rfl⟩ := h
    obtain ⟨pot, hpot, rfl⟩ := release_eq_some hrelease
    obtain ⟨hreleased, -, hpayout, hothers⟩ := Pot.onHold_release hpot
    refine ⟨pot, rfl, hothers .credit (by decide), ?_⟩
    rw [hd, Option.map_some, Option.getD_some]
    omega

theorem SameCases.claimCredit {voter : Alias} (h : s.claimCredit voter = .ok s') : s.SameCases s' := by
  simp only [State.claimCredit, bind_eq_ok, okOr_eq_ok, ensure_eq_ok, exists_const, Except.ok.injEq] at h
  obtain ⟨d, -, -, ⟨t, released⟩, hrelease, t', hhold, -, rfl⟩ := h
  obtain ⟨pot, -, rfl⟩ := release_eq_some hrelease
  obtain ⟨pot', -, rfl⟩ := hold_eq_some hhold
  have hheld : s.SameCases { (s.putPoints d.round ((s.votingPoints d.round).remove voter)) with pot := pot' } :=
    .of_credits rfl rfl rfl rfl rfl rfl rfl
  refine (hheld.trans (SameCases.putCredit _ ?_ ?_)).trans (.of_credits rfl rfl rfl rfl rfl rfl rfl) <;> rfl

theorem SameCases.payoutRewards {voter : Alias} {destination : T.AccountId}
    (h : s.payoutRewards voter destination = .ok s') : s.SameCases s' := by
  simp only [State.payoutRewards, bind_eq_ok, okOr_eq_ok, ensure_eq_ok, exists_const, Except.ok.injEq] at h
  obtain ⟨-, ⟨t, released⟩, hrelease, t', hpay, rfl⟩ := h
  obtain ⟨pot, -, rfl⟩ := release_eq_some hrelease
  obtain ⟨world, pot', -, rfl⟩ := payFromPot_eq_some hpay
  have hpaid : s.SameCases { s with world := world, pot := pot' } := .of_credits rfl rfl rfl rfl rfl rfl rfl
  exact hpaid.trans (SameCases.putCredit _ rfl rfl)

/-- The calls about penalties and rewards, and the rest of the chain. -/
def MovesNoVote : Call T → Prop
  | .clearVotingPenalty _ | .schedulePayoutRounds _ _ _ | .removePayoutSchedule _ | .startPayoutRound
  | .claimCredit _ | .payoutRewards _ _ | .cleanPoints _ _ | .onPoll _ | .elsewhere _ _ => True
  | _ => False

theorem SameCases.exec {call : Call T} (hcall : MovesNoVote call) (h : s.exec env call = .ok s') :
    s.SameCases s' := by
  cases call with
  | claimCredit voter => exact .claimCredit h
  | payoutRewards voter destination => exact .payoutRewards h
  | clearVotingPenalty voter =>
    simp only [State.exec, clearVotingPenalty, bind_eq_ok, Except.ok.injEq] at h
    obtain ⟨start, -, -, -, rfl⟩ := h
    exact .of_credits rfl rfl rfl rfl rfl rfl rfl
  | schedulePayoutRounds amount count period =>
    simp only [State.exec, schedulePayoutRounds, bind_eq_ok, okOr_eq_ok, Except.ok.injEq] at h
    obtain ⟨t, hhold, schedules, -, rfl⟩ := h
    obtain ⟨pot, -, rfl⟩ := hold_eq_some hhold
    exact .of_credits rfl rfl rfl rfl rfl rfl rfl
  | removePayoutSchedule index =>
    simp only [State.exec, removePayoutSchedule, bind_eq_ok, okOr_eq_ok, Except.ok.injEq] at h
    obtain ⟨schedule, -, ⟨t, released⟩, hrelease, rfl⟩ := h
    obtain ⟨pot, -, rfl⟩ := release_eq_some hrelease
    exact .of_credits rfl rfl rfl rfl rfl rfl rfl
  | startPayoutRound =>
    simp only [State.exec, startPayoutRound, bind_eq_ok, okOr_eq_ok, Except.ok.injEq] at h
    obtain ⟨-, -, schedule, -, -, -, t, hrecycle, rfl⟩ := h
    obtain ⟨pot, rfl, -⟩ := recycle_eq_ok hrecycle
    exact .of_credits rfl rfl rfl rfl rfl rfl rfl
  | cleanPoints round voter =>
    simp only [State.exec, cleanPoints, bind_eq_ok, Except.ok.injEq] at h
    obtain ⟨d, -, -, -, -, -, rfl⟩ := h
    exact .of_credits rfl rfl rfl rfl rfl rfl rfl
  | onPoll remaining =>
    cases h
    unfold onPoll
    split
    · exact .refl s
    · dsimp only
      split
      · split <;> exact .of_credits rfl rfl rfl rfl rfl rfl rfl
      · split <;> exact .of_credits rfl rfl rfl rfl rfl rfl rfl
      · exact .refl s
  | elsewhere world pot =>
    simp only [State.exec, elsewhere, bind_eq_ok, Except.ok.injEq] at h
    obtain ⟨-, -, rfl⟩ := h
    exact .of_credits rfl rfl rfl rfl rfl rfl rfl
  | _ => exact hcall.elim

/-- Every call that fits takes every case onward. -/
theorem exec_onward {a : Action T} (hG : s.Fits a) (h : s.execAction a = .ok s') : s.Onward s' := by
  obtain ⟨env, call⟩ := a
  cases call with
  | judgeStatement statement context callback =>
    cases h
    exact Onward.judgeStatement env statement context hG.1 hG.2
  | vote voter caseIndex opinion => exact Onward.vote h
  | touchCase caseIndex => exact Onward.touchCase h
  | forceRipenCase caseIndex => exact Onward.forceRipenCase h
  | closeCase caseIndex => exact Onward.closeCase h
  | intervene caseIndex verdict => exact Onward.intervene h
  | reapCase caseIndex => exact Onward.reapCase h
  | cleanVote caseIndex voter => exact Onward.cleanVote h
  | claimVotes voter caseIndices => exact Onward.claimVotes h
  | _ =>
    refine (SameCases.exec ?_ h).onward
    trivial

end State
end Individuality.MobRule
