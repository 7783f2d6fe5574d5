import Individuality.MobRule.Cases
import Mathlib.Data.List.Perm.Subperm

/-! Tallies count the votes, and every vote is accounted for.

`History` notes which votes were cast for the first time, and which were claimed or
cleaned. A vote that was cast is stored, or was claimed, or was cleaned, and only one
of these (`Accounted`); the credit of a voter counts them, and the tally of an open
case counts the votes on it. A tally has 32 bits and saturates, so it miscounts a case
on which more people agree than fit: `Fits` excludes that, and nothing else but what
callers promise. -/
namespace Individuality.MobRule
open Support

/-! ### Tallies -/

namespace VoteTally
variable (t : VoteTally) (opinion other : Judgement)

theorem votes_zero : VoteTally.zero.votes opinion = 0 := by
  cases opinion with
  | truth truth => cases truth <;> rfl
  | contempt => rfl

theorem votes_discount :
    (t.discount opinion).votes other = t.votes other - if other = opinion then 1 else 0 := by
  cases opinion with
  | truth truth => cases truth <;> cases other with
    | truth truth => cases truth <;> rfl
    | contempt => rfl
  | contempt => cases other with
    | truth truth => cases truth <;> rfl
    | contempt => rfl

theorem votes_count :
    (t.count opinion).votes other =
      if other = opinion then U32.saturatingInc (t.votes other) else t.votes other := by
  cases opinion with
  | truth truth => cases truth <;> cases other with
    | truth truth => cases truth <;> rfl
    | contempt => rfl
  | contempt => cases other with
    | truth truth => cases truth <;> rfl
    | contempt => rfl

end VoteTally

/-! ### The history of the votes -/

/-- Which votes were cast for the first time, which were claimed, and which were cleaned. -/
structure History where
  cast : List (CaseIndex × Alias)
  claimed : List (CaseIndex × Alias)
  cleaned : List (CaseIndex × Alias)

namespace History

def empty : History := ⟨[], [], []⟩

/-- The votes that were claimed or cleaned. -/
def consumed (h : History) : List (CaseIndex × Alias) := h.claimed ++ h.cleaned

end History

/-- One voter has at most one vote on each case. -/
theorem countP_le_of_nodup {votes : List (CaseIndex × Alias)} {n : Nat} (hnodup : votes.Nodup)
    (hborn : ∀ key ∈ votes, key.1 < n) (voter : Alias) : votes.countP (fun key => key.2 == voter) ≤ n := by
  have hnodup' : ((votes.filter fun key => key.2 == voter).map Prod.fst).Nodup := by
    refine List.Nodup.map_on ?_ (hnodup.filter _)
    rintro ⟨i, a⟩ ha ⟨j, b⟩ hb rfl
    have ha' : a = voter := beq_iff_eq.mp (List.mem_filter.mp ha).2
    have hb' : b = voter := beq_iff_eq.mp (List.mem_filter.mp hb).2
    rw [ha', hb']
  have hsubset : (votes.filter fun key => key.2 == voter).map Prod.fst ⊆ List.range n := by
    intro i hi
    obtain ⟨key, hkey, rfl⟩ := List.mem_map.mp hi
    exact List.mem_range.mpr (hborn key (List.mem_filter.mp hkey).1)
  have hlength := (List.subperm_of_subset hnodup' hsubset).length_le
  rwa [List.length_map, List.length_range, ← List.countP_eq_length_filter] at hlength

namespace State
variable {T : Config}

def note (s : State T) (a : Action T) (_ : State T) (h : History) : History :=
  match a.2 with
  | .vote voter caseIndex _ =>
    if s.votes.contains (caseIndex, voter) then h else { h with cast := (caseIndex, voter) :: h.cast }
  | .claimVotes voter caseIndices => { h with claimed := caseIndices.map (·, voter) ++ h.claimed }
  | .cleanVote caseIndex voter => { h with cleaned := (caseIndex, voter) :: h.cleaned }
  | _ => h

/-- The votes stored of a voter. -/
def votesBy (s : State T) (voter : Alias) : Nat := s.votes.countOf fun key _ => key.2 == voter

/-- Tallies and credits count the votes, each of which is stored or was consumed. -/
structure Accounted (s : State T) (h : History) : Prop where
  tally : ∀ i case, s.openCases.get i = some case → ∀ opinion, case.tally.votes opinion = s.votesOn i opinion
  caseCount_le : s.caseCount ≤ U32.max
  born : ∀ key ∈ h.cast, key.1 < s.caseCount
  nodup : h.cast.Nodup
  perm : h.cast.Perm (s.votes.keys ++ h.consumed)
  closed : ∀ key ∈ h.consumed, s.openCases.get key.1 = none
  voted : ∀ voter, (s.creditOf voter).voted = h.cast.countP fun key => key.2 == voter
  cleaned : ∀ voter, (s.creditOf voter).cleaned = h.consumed.countP fun key => key.2 == voter

namespace Accounted
variable {s s' : State T} {h h' : History}

theorem genesis (T : Config) (world : T.World) : (State.genesis T world).Accounted .empty where
  tally := fun _ _ hopen => by cases hopen
  caseCount_le := Nat.zero_le _
  born := nofun
  nodup := List.nodup_nil
  perm := List.Perm.refl _
  closed := nofun
  voted := fun _ => rfl
  cleaned := fun _ => rfl

theorem mem_cast (ha : s.Accounted h) {key : CaseIndex × Alias} {vote : Judgement}
    (hvote : s.votes.get key = some vote) : key ∈ h.cast := by
  refine ha.perm.mem_iff.mpr (List.mem_append_left _ ?_)
  rw [StorageMap.mem_keys, hvote]
  rfl

theorem mem_cast_of_consumed (ha : s.Accounted h) {key : CaseIndex × Alias} (hkey : key ∈ h.consumed) :
    key ∈ h.cast := ha.perm.mem_iff.mpr (List.mem_append_right _ hkey)

theorem votesBy_add_cleaned (ha : s.Accounted h) (voter : Alias) :
    (s.creditOf voter).voted = s.votesBy voter + (s.creditOf voter).cleaned := by
  rw [ha.voted, ha.cleaned, ha.perm.countP_eq, List.countP_append, StorageMap.countP_keys]
  rfl

/-- Cases that are closed or stay as they are leave all accounts as they are. -/
theorem frame (ha : s.Accounted h) (hcount : s'.caseCount = s.caseCount) (hvotes : s'.votes = s.votes)
    (hopen : ∀ i case, s'.openCases.get i = some case → s.openCases.get i = some case)
    (hvoted : ∀ voter, (s'.creditOf voter).voted = (s.creditOf voter).voted)
    (hcleaned : ∀ voter, (s'.creditOf voter).cleaned = (s.creditOf voter).cleaned) : s'.Accounted h where
  tally := fun i case hcase opinion => by
    rw [ha.tally i case (hopen i case hcase) opinion, votesOn, votesOn, hvotes]
  caseCount_le := hcount ▸ ha.caseCount_le
  born := hcount ▸ ha.born
  nodup := ha.nodup
  perm := hvotes ▸ ha.perm
  closed := fun key hkey => by
    have hnone := ha.closed key hkey
    cases hget : s'.openCases.get key.1 with
    | none => rfl
    | some case => exact absurd (hopen key.1 case hget) (by rw [hnone]; exact nofun)
  voted := fun voter => (hvoted voter).trans (ha.voted voter)
  cleaned := fun voter => (hcleaned voter).trans (ha.cleaned voter)

theorem judgeStatement (ha : s.Accounted h) (env : Env) (statement : T.Statement)
    (context : JudgementContext) (callback : Callback) (hcount : s.caseCount < U32.max) :
    (s.judgeStatement env statement context callback).Accounted h := by
  have hinc : U32.saturatingInc s.caseCount = s.caseCount + 1 := U32.saturatingInc_eq hcount
  have hcount' : (s.judgeStatement env statement context callback).caseCount = s.caseCount + 1 := hinc
  refine ⟨fun i case hcase opinion => ?_, ?_, fun key hkey => ?_, ha.nodup, ha.perm, fun key hkey => ?_,
    ha.voted, ha.cleaned⟩
  · simp only [State.judgeStatement, StorageMap.get_insert] at hcase
    split at hcase
    · rename_i hi
      cases hcase
      rw [VoteTally.votes_zero]
      refine (StorageMap.countOf_eq_zero_iff.mpr fun key vote hvote => ?_).symm
      have hne : key.1 ≠ i := by
        rw [hi]
        exact Nat.ne_of_lt (ha.born key (ha.mem_cast hvote))
      rw [beq_false_of_ne hne, Bool.false_and]
    · exact ha.tally i case hcase opinion
  · rw [hcount']
    exact hcount
  · rw [hcount']
    exact Nat.lt_succ_of_lt (ha.born key hkey)
  · have hne : key.1 ≠ s.caseCount := Nat.ne_of_lt (ha.born key (ha.mem_cast_of_consumed hkey))
    simp only [State.judgeStatement, StorageMap.get_insert, if_neg hne]
    exact ha.closed key hkey

/-! ### A vote -/

/-- The votes on a case after one more, or one changed. -/
theorem votesOn_vote (s : State T) (i j : CaseIndex) (voter : Alias) (opinion other : Judgement) :
    ({ s with votes := s.votes.insert (i, voter) opinion } : State T).votesOn j other +
        (if j = i ∧ s.votes.get (i, voter) = some other then 1 else 0) =
      s.votesOn j other + if j = i ∧ other = opinion then 1 else 0 := by
  have hinsert := s.votes.countOf_insert (fun key vote => key.1 == j && vote == other) (i, voter) opinion
  have hold : s.votes.countAt (fun key vote => key.1 == j && vote == other) (i, voter) =
      if j = i ∧ s.votes.get (i, voter) = some other then 1 else 0 := by
    rw [StorageMap.countAt]
    refine if_congr ?_ rfl rfl
    cases s.votes.get (i, voter) with
    | none => simp
    | some old =>
      simp only [Option.any_some, Bool.and_eq_true, beq_iff_eq, Option.some.injEq]
      exact and_congr_left' eq_comm
  have hnew : (if ((i == j && opinion == other) = true) then 1 else 0) =
      if j = i ∧ other = opinion then 1 else 0 := by
    refine if_congr ?_ rfl rfl
    rw [Bool.and_eq_true, beq_iff_eq, beq_iff_eq]
    exact and_congr eq_comm eq_comm
  rw [hold, hnew] at hinsert
  exact hinsert

/-- The tally of a case after a vote counts the votes on it, where they can be counted. -/
theorem votes_of_vote {i : CaseIndex} {voter : Alias} {opinion : Judgement} {t : VoteTally}
    (ht : ∀ other, t.votes other = s.votesOn i other)
    (hfits : ({ s with votes := s.votes.insert (i, voter) opinion } : State T).votesOn i opinion ≤ U32.max)
    (other : Judgement) :
    ((match s.votes.get (i, voter) with
      | some old => t.discount old
      | none => t).count opinion).votes other =
      ({ s with votes := s.votes.insert (i, voter) opinion } : State T).votesOn i other := by
  have hvote := votesOn_vote s i i voter opinion other
  generalize hafter : ({ s with votes := s.votes.insert (i, voter) opinion } : State T).votesOn i other = after
    at hvote ⊢
  have hdiscount : (match s.votes.get (i, voter) with
      | some old => t.discount old
      | none => t).votes other = s.votesOn i other - if s.votes.get (i, voter) = some other then 1 else 0 := by
    cases hget : s.votes.get (i, voter) with
    | none => exact ht other
    | some old => simp only [VoteTally.votes_discount, ht, Option.some.injEq, eq_comm]
  have hstored : s.votes.get (i, voter) = some other → 0 < s.votesOn i other := by
    intro hget
    refine Nat.pos_of_ne_zero fun hzero => ?_
    have hnone := StorageMap.countOf_eq_zero_iff.mp hzero (i, voter) other hget
    simp at hnone
  rw [VoteTally.votes_count, hdiscount]
  simp only [true_and] at hvote
  by_cases hother : other = opinion
  · subst hother
    rw [hafter] at hfits
    rw [if_pos rfl] at hvote ⊢
    rw [U32.saturatingInc_eq] <;> split at hvote <;> rename_i hget
    · have := hstored hget
      rw [if_pos hget]
      omega
    · rw [if_neg hget]
      omega
    · have := hstored hget
      rw [if_pos hget]
      omega
    · rw [if_neg hget]
      omega
  · rw [if_neg hother] at hvote ⊢
    split at hvote <;> rename_i hget
    · rw [if_pos hget]
      omega
    · rw [if_neg hget]
      omega

/-- A case that is settled is open with the tally given, or not at all; the others are as before. -/
theorem settle_spec (env : Env) (s : State T) (i : CaseIndex) (case : OpenCase T.Statement) :
    (s.settle env i case).votes = s.votes ∧ (s.settle env i case).caseCount = s.caseCount ∧
      (s.settle env i case).credits = s.credits ∧
      ∀ j case', (s.settle env i case).openCases.get j = some case' →
        j = i ∧ case' = case ∨ j ≠ i ∧ s.openCases.get j = some case' := by
  unfold settle
  split
  · refine ⟨rfl, rfl, rfl, fun j case' hopen => ?_⟩
    simp only [ripen, StorageMap.get_remove] at hopen
    split at hopen
    · cases hopen
    · exact .inr ⟨‹_›, hopen⟩
  · refine ⟨rfl, rfl, rfl, fun j case' hopen => ?_⟩
    simp only [StorageMap.get_insert] at hopen
    split at hopen
    · exact .inl ⟨‹_›, (Option.some.inj hopen).symm⟩
    · exact .inr ⟨‹_›, hopen⟩

variable {env : Env} {i : CaseIndex} {voter : Alias}

/-- A first vote on an open case is new. -/
theorem not_mem_cast (ha : s.Accounted h) {case : OpenCase T.Statement} (hopen : s.openCases.get i = some case)
    (hnone : s.votes.get (i, voter) = none) : (i, voter) ∉ h.cast := by
  intro hmem
  rcases List.mem_append.mp (ha.perm.mem_iff.mp hmem) with hkey | hkey
  · have hsome := (StorageMap.mem_keys _ _).mp hkey
    rw [hnone] at hsome
    cases hsome
  · rw [ha.closed _ hkey] at hopen
    cases hopen

/-- A vote keeps the accounts if it is noted and counted. -/
theorem of_vote {opinion : Judgement} (ha : s.Accounted h) {case : OpenCase T.Statement}
    (hopen : s.openCases.get i ≠ none) {credit : MobCredit}
    (htally : ∀ other, case.tally.votes other =
      ({ s with votes := s.votes.insert (i, voter) opinion } : State T).votesOn i other)
    (hborn : ∀ key ∈ h'.cast, key.1 < s.caseCount) (hnodup : h'.cast.Nodup)
    (hperm : h'.cast.Perm ((s.votes.insert (i, voter) opinion).keys ++ h.consumed))
    (hconsumed : h'.consumed = h.consumed)
    (hvoted : ∀ other, (if other = voter then credit else s.creditOf other).voted =
      h'.cast.countP fun key => key.2 == other)
    (hcleaned : credit.cleaned = (s.creditOf voter).cleaned) :
    ((State.settle env ({ s with votes := s.votes.insert (i, voter) opinion } : State T) i case).putCredit
      voter credit).Accounted h' := by
  obtain ⟨hvotes, hcount, hcredits, hcases⟩ := settle_spec env
    ({ s with votes := s.votes.insert (i, voter) opinion } : State T) i case
  have hcreditOf : ∀ other, ((State.settle env ({ s with votes := s.votes.insert (i, voter) opinion } : State T)
      i case).putCredit voter credit).creditOf other = if other = voter then credit else s.creditOf other := by
    intro other
    rw [creditOf_putCredit]
    refine if_congr Iff.rfl rfl ?_
    rw [creditOf, hcredits]
    rfl
  refine ⟨fun j case' hcase other => ?_, ?_, ?_, hnodup, ?_, fun key hkey => ?_, fun other => ?_,
    fun other => ?_⟩
  · show case'.tally.votes other = (State.settle env _ i case).votesOn j other
    rw [votesOn, hvotes]
    rcases hcases j case' hcase with ⟨rfl, rfl⟩ | ⟨hj, hcase⟩
    · exact htally other
    · have hothers := votesOn_vote s i j voter opinion other
      simp only [hj, false_and, if_false, Nat.add_zero] at hothers
      exact (ha.tally j case' hcase other).trans hothers.symm
  · exact hcount.symm ▸ ha.caseCount_le
  · exact hcount.symm ▸ hborn
  · show h'.cast.Perm ((State.settle env _ i case).votes.keys ++ h'.consumed)
    rw [hvotes, hconsumed]
    exact hperm
  · have hnone := ha.closed key (hconsumed ▸ hkey)
    have hne : key.1 ≠ i := by
      rintro rfl
      exact hopen hnone
    cases hget : (State.settle env ({ s with votes := s.votes.insert (i, voter) opinion } : State T)
        i case).openCases.get key.1 with
    | none => exact hget
    | some case' =>
      rcases hcases key.1 case' hget with ⟨hi, -⟩ | ⟨-, hcase⟩
      · exact absurd hi hne
      · exact absurd (hcase.symm.trans hnone) (Option.some_ne_none case')
  · rw [hcreditOf]
    exact hvoted other
  · rw [hcreditOf, hconsumed, ← ha.cleaned other]
    split
    · subst other
      exact hcleaned
    · rfl

theorem vote {opinion : Judgement} (ha : s.Accounted h) (hborn : i < s.caseCount)
    (hfits : s.Fits (env, .vote voter i opinion)) (hvote : s.vote env voter i opinion = .ok s') :
    s'.Accounted (s.note (env, .vote voter i opinion) s' h) := by
  simp only [State.vote, bind_eq_ok, ensure_eq_ok, okOr_eq_ok, exists_const, Except.ok.injEq] at hvote
  obtain ⟨-, case, hopen, rfl⟩ := hvote
  have htally := votes_of_vote (ha.tally i case hopen) hfits
  have hopen' : s.openCases.get i ≠ none := fun hnone => Option.some_ne_none case (hopen.symm.trans hnone)
  cases hget : s.votes.get (i, voter) with
  | some old =>
    have hnote : ∀ t, s.note (env, .vote voter i opinion) t h = h := fun t => by
      simp only [note, StorageMap.contains, hget, Option.isSome_some, if_true]
    rw [hnote]
    simp only [hget] at htally ⊢
    refine ha.of_vote hopen' htally ha.born ha.nodup ?_ rfl (fun other => ?_) rfl
    · refine ha.perm.trans (List.Perm.append_right _ ?_)
      rw [StorageMap.keys_insert]
      exact StorageMap.perm_keys_remove hget
    · rw [← ha.voted other]
      split
      · subst other
        rfl
      · rfl
  | none =>
    have hnote : ∀ t, s.note (env, .vote voter i opinion) t h = { h with cast := (i, voter) :: h.cast } :=
      fun t => by simp only [note, StorageMap.contains, hget, Option.isSome_none, Bool.false_eq_true, if_false]
    rw [hnote]
    simp only [hget] at htally ⊢
    have hborn' : ∀ key ∈ (i, voter) :: h.cast, key.1 < s.caseCount :=
      List.forall_mem_cons.mpr ⟨hborn, ha.born⟩
    have hnodup : ((i, voter) :: h.cast).Nodup := List.nodup_cons.mpr ⟨ha.not_mem_cast hopen hget, ha.nodup⟩
    refine ha.of_vote hopen' htally hborn' hnodup ?_ rfl (fun other => ?_) rfl
    · rw [StorageMap.keys_insert, StorageMap.keys_remove_of_none hget]
      exact ha.perm.cons _
    · rw [List.countP_cons]
      split
      · subst other
        have hle := countP_le_of_nodup hnodup hborn' voter
        rw [List.countP_cons, if_pos (beq_self_eq_true voter), ← ha.voted voter] at hle
        rw [if_pos (beq_self_eq_true voter), ← ha.voted voter]
        exact U32.saturatingInc_eq (Nat.lt_of_succ_le (hle.trans ha.caseCount_le))
      · rename_i hne
        rw [if_neg (by simpa using Ne.symm hne)]
        exact ha.voted other

/-! ### Claims and cleanings -/

/-- What a voter has had cleaned can be counted with what is about to be. -/
theorem cleaned_add_le (ha : s.Accounted h) {removed rest : List (CaseIndex × Alias)}
    (hkeys : s.votes.keys.Perm (removed ++ rest)) (voter : Alias) :
    (s.creditOf voter).cleaned + removed.countP (fun key => key.2 == voter) ≤ U32.max := by
  have hle := (countP_le_of_nodup ha.nodup ha.born voter).trans ha.caseCount_le
  rw [ha.perm.countP_eq, List.countP_append, hkeys.countP_eq, List.countP_append] at hle
  rw [ha.cleaned]
  omega

/-- Votes on closed cases that are removed, and noted as consumed, keep the accounts. -/
theorem consume (ha : s.Accounted h) {removed : List (CaseIndex × Alias)}
    (hcount : s'.caseCount = s.caseCount) (hopen : s'.openCases = s.openCases)
    (hkeys : s.votes.keys.Perm (removed ++ s'.votes.keys))
    (hget : ∀ key, s.openCases.get key.1 ≠ none → s'.votes.get key = s.votes.get key)
    (hclosed : ∀ key ∈ removed, s.openCases.get key.1 = none)
    (hcast : h'.cast = h.cast) (hconsumed : h'.consumed.Perm (removed ++ h.consumed))
    (hvoted : ∀ voter, (s'.creditOf voter).voted = (s.creditOf voter).voted)
    (hcleaned : ∀ voter, (s'.creditOf voter).cleaned =
      (s.creditOf voter).cleaned + removed.countP fun key => key.2 == voter) : s'.Accounted h' where
  tally := fun i case hcase opinion => by
    rw [hopen] at hcase
    rw [ha.tally i case hcase opinion]
    refine StorageMap.countOf_eq_of_get fun key vote hvote => ?_
    have hi : key.1 = i := beq_iff_eq.mp (Bool.and_eq_true_iff.mp hvote).1
    rw [hget key]
    rw [hi, hcase]
    exact Option.some_ne_none case
  caseCount_le := hcount ▸ ha.caseCount_le
  born := by
    rw [hcast, hcount]
    exact ha.born
  nodup := hcast ▸ ha.nodup
  perm := by
    rw [hcast]
    refine ha.perm.trans ((hkeys.append_right _).trans ?_)
    rw [List.append_assoc]
    refine List.perm_append_comm.trans ?_
    rw [List.append_assoc]
    exact List.Perm.append_left _ (List.perm_append_comm.trans hconsumed.symm)
  closed := fun key hkey => by
    rw [hopen]
    rcases List.mem_append.mp (hconsumed.mem_iff.mp hkey) with hmem | hmem
    · exact hclosed key hmem
    · exact ha.closed key hmem
  voted := fun voter => by rw [hvoted, hcast, ha.voted]
  cleaned := fun voter => by
    rw [hcleaned, hconsumed.countP_eq, List.countP_append, ha.cleaned, Nat.add_comm]

theorem countP_map_voter (caseIndices : List CaseIndex) (voter other : Alias) :
    (caseIndices.map (·, voter)).countP (fun key => key.2 == other) =
      if other = voter then caseIndices.length else 0 := by
  rw [List.countP_map]
  split
  · subst other
    exact List.countP_eq_length.mpr fun i _ => beq_self_eq_true voter
  · rename_i hne
    refine List.countP_eq_zero.mpr fun i _ => ?_
    simpa using Ne.symm hne

theorem claimVotes {caseIndices : List CaseIndex} (ha : s.Accounted h)
    (hdone : ∀ i, s.doneCases.get i ≠ none → s.openCases.get i = none)
    (hclaim : s.claimVotes env voter caseIndices = .ok s') :
    s'.Accounted (s.note (env, .claimVotes voter caseIndices) s' h) := by
  simp only [State.claimVotes, bind_eq_ok, ensure_eq_ok, exists_const, Except.ok.injEq] at hclaim
  obtain ⟨-, ⟨t, n⟩, hloop, rfl⟩ := hclaim
  obtain ⟨votes, penalties, ht, htaken⟩ := foldlM_takeVote hloop
  dsimp only at ht
  subst ht
  have hle := ha.cleaned_add_le htaken.keys voter
  rw [countP_map_voter, if_pos rfl] at hle
  refine ha.consume rfl rfl htaken.keys (fun key hkey => htaken.get key ?_) (fun key hkey => ?_) rfl ?_
    (fun other => ?_) (fun other => ?_)
  · by_contra hne
    exact hkey (hdone key.1 hne)
  · obtain ⟨i, hi, rfl⟩ := List.mem_map.mp hkey
    exact hdone i (htaken.done i hi)
  · exact List.Perm.of_eq (List.append_assoc _ _ _)
  · rw [creditOf_putCredit]
    split
    · subst other
      rfl
    · rfl
  · rw [creditOf_putCredit, countP_map_voter]
    split
    · subst other
      exact U32.saturatingAdd_eq hle
    · rfl

/-- A vote that is cleaned was stored on a case that is not open, and no other vote changes. -/
theorem cleanVote_spec (hclean : s.cleanVote env i voter = .ok s') :
    ∃ vote, s.votes.get (i, voter) = some vote ∧ s.openCases.get i = none ∧
      s'.caseCount = s.caseCount ∧ s'.openCases = s.openCases ∧ s'.votes = s.votes.remove (i, voter) ∧
      ∃ credit, s'.credits = s.credits.insert voter credit ∧ credit.voted = (s.creditOf voter).voted ∧
        credit.cleaned = U32.saturatingInc (s.creditOf voter).cleaned := by
  simp only [State.cleanVote, validateCleanVote, bind_eq_ok, ensure_eq_ok, exists_const, okOr_eq_ok] at hclean
  obtain ⟨vote, ⟨⟨hopen, -⟩, -, hvote⟩, hclean⟩ := hclean
  have hnone : s.openCases.get i = none := by
    rwa [StorageMap.contains, Option.isSome_eq_false_iff, Option.isNone_iff_eq_none] at hopen
  refine ⟨vote, hvote, hnone, ?_⟩
  split at hclean
  · split at hclean
    · cases hclean
      exact ⟨rfl, rfl, rfl, _, rfl, rfl, rfl⟩
    · split at hclean <;> cases hclean <;> exact ⟨rfl, rfl, rfl, _, rfl, rfl, rfl⟩
  · cases hclean
    exact ⟨rfl, rfl, rfl, _, rfl, rfl, rfl⟩

theorem cleanVote (ha : s.Accounted h) (hclean : s.cleanVote env i voter = .ok s') :
    s'.Accounted (s.note (env, .cleanVote i voter) s' h) := by
  obtain ⟨vote, hvote, hclosed, hcount, hopen, hvotes, credit, hcredits, hvoted, hcleaned⟩ :=
    cleanVote_spec hclean
  have hcreditOf : ∀ other, s'.creditOf other = if other = voter then credit else s.creditOf other := by
    intro other
    rw [← creditOf_putCredit, creditOf, hcredits]
    rfl
  have hkeys : s.votes.keys.Perm ([(i, voter)] ++ s'.votes.keys) :=
    hvotes ▸ StorageMap.perm_keys_remove hvote
  have hle := ha.cleaned_add_le hkeys voter
  rw [List.countP_singleton, if_pos (beq_self_eq_true voter)] at hle
  refine ha.consume hcount hopen hkeys (fun key hkey => ?_) (fun key hkey => ?_) rfl ?_ (fun other => ?_)
    (fun other => ?_)
  · have hne : key ≠ (i, voter) := by
      rintro rfl
      exact hkey hclosed
    rw [hvotes, StorageMap.get_remove, if_neg hne]
  · rw [List.mem_singleton.mp hkey]
    exact hclosed
  · exact List.perm_middle
  · rw [hcreditOf]
    split
    · subst other
      exact hvoted
    · rfl
  · rw [hcreditOf, List.countP_singleton]
    split
    · subst other
      rw [if_pos (beq_self_eq_true voter), hcleaned]
      exact U32.saturatingAdd_eq hle
    · rename_i hne
      rw [if_neg (by simpa using Ne.symm hne), Nat.add_zero]

end Accounted

/-! ### Every call -/

variable {s s' : State T} {h : History} {a : Action T}

/-- Every call that fits keeps the accounts. -/
theorem exec_accounted (hcoherent : s.Coherent) (ha : s.Accounted h) (hG : s.Fits a)
    (hexec : s.execAction a = .ok s') : s'.Accounted (s.note a s' h) := by
  obtain ⟨env, call⟩ := a
  cases call with
  | judgeStatement statement context callback =>
    cases hexec
    exact ha.judgeStatement env statement context callback hG.1
  | vote voter caseIndex opinion =>
    have hborn : caseIndex < s.caseCount := by
      have hvote := hexec
      simp only [execAction, exec, vote, bind_eq_ok, okOr_eq_ok] at hvote
      obtain ⟨-, -, case, hopen, -⟩ := hvote
      exact hcoherent.born_of_open hopen
    exact ha.vote hborn hG hexec
  | touchCase caseIndex =>
    simp only [execAction, exec, touchCase, bind_eq_ok, okOr_eq_ok, Except.ok.injEq] at hexec
    obtain ⟨case, hopen, rfl⟩ := hexec
    obtain ⟨hvotes, hcount, hcredits, hcases⟩ := Accounted.settle_spec env s caseIndex case
    refine ha.frame hcount hvotes (fun i case' hcase => ?_) (fun voter => ?_) (fun voter => ?_)
    · rcases hcases i case' hcase with ⟨rfl, rfl⟩ | ⟨-, hcase⟩
      · exact hopen
      · exact hcase
    · rw [creditOf, creditOf, hcredits]
    · rw [creditOf, creditOf, hcredits]
  | forceRipenCase caseIndex =>
    simp only [execAction, exec, forceRipenCase, bind_eq_ok, okOr_eq_ok, Except.ok.injEq] at hexec
    obtain ⟨case, hopen, since, -, -, -, rfl⟩ := hexec
    exact ha.frame rfl rfl (fun _ _ => StorageMap.get_of_get_remove) (fun _ => rfl) fun _ => rfl
  | closeCase caseIndex =>
    simp only [execAction, exec, closeCase, bind_eq_ok, okOr_eq_ok, Except.ok.injEq] at hexec
    obtain ⟨case, hripe, rfl⟩ := hexec
    obtain ⟨world, callbacks, hrun⟩ := runCallback_eq
      { s with ripeCases := s.ripeCases.remove caseIndex } caseIndex case.details case.verdict
    rw [hrun]
    exact ha.frame rfl rfl (fun _ _ => id) (fun _ => rfl) fun _ => rfl
  | intervene caseIndex verdict =>
    simp only [execAction, exec, intervene, bind_eq_ok, okOr_eq_ok, Except.ok.injEq] at hexec
    obtain ⟨case, hopen, rfl⟩ := hexec
    obtain ⟨world, callbacks, hrun⟩ := runCallback_eq
      { s with openCases := s.openCases.remove caseIndex } caseIndex case.details verdict
    rw [hrun]
    exact ha.frame rfl rfl (fun _ _ => StorageMap.get_of_get_remove) (fun _ => rfl) fun _ => rfl
  | reapCase caseIndex =>
    simp only [execAction, exec, reapCase, bind_eq_ok, Except.ok.injEq] at hexec
    obtain ⟨case, -, -, -, rfl⟩ := hexec
    exact ha.frame rfl rfl (fun _ _ => id) (fun _ => rfl) fun _ => rfl
  | cleanVote caseIndex voter => exact ha.cleanVote hexec
  | claimVotes voter caseIndices =>
    exact ha.claimVotes (fun i hdone => hcoherent.closed_of_done hdone) hexec
  | _ =>
    have hsame := SameCases.exec (by trivial) hexec
    refine ha.frame hsame.caseCount hsame.votes (fun i case hcase => ?_) hsame.voted hsame.cleaned
    rwa [hsame.openCases] at hcase

/-! ### Whole runs -/

/-- Every case has at most one verdict, which it was given on the way to where it is. -/
structure Orderly (s : State T) : Prop where
  alone : ∀ i, (s.openCases.contains i).toNat + (s.ripeCases.contains i).toNat +
    (s.doneCases.contains i).toNat ≤ 1
  verdicts : ∀ i, (s.verdictsOf i).length = if s.stage i = .done ∨ s.stage i = .reaped then 1 else 0
  recorded : ∀ i case, s.doneCases.get i = some case → s.verdictsOf i = [case.verdict]

theorem Coherent.orderly (hs : s.Coherent) : s.Orderly where
  alone := fun i => by
    have hat := hs.at_stage i
    have hopen : (s.caseView i).voting = s.openCases.get i := rfl
    have hripe : (s.caseView i).ripe = s.ripeCases.get i := rfl
    have hdone : (s.caseView i).done = s.doneCases.get i := rfl
    unfold StorageMap.contains
    rw [← hopen, ← hripe, ← hdone]
    generalize s.caseView i = view at hat ⊢
    generalize s.stage i = stage at hat
    cases hat <;> simp
  verdicts := fun i => by
    have hat := hs.at_stage i
    show (s.caseView i).verdicts.length = _
    generalize s.caseView i = view at hat ⊢
    generalize s.stage i = stage at hat ⊢
    cases hat <;> rfl
  recorded := fun i case hdone => congrArg CaseView.verdicts (view_of_done (hs.at_stage i) hdone).1

/-- The tally of an open case counts the votes on it. -/
def TalliesHonest (s : State T) : Prop :=
  ∀ i case, s.openCases.get i = some case → ∀ opinion, case.tally.votes opinion = s.votesOn i opinion

/-- A vote that was cast is stored or was consumed once, and credits count those stored. -/
structure VotesKept (s : State T) (h : History) : Prop where
  nodup : h.cast.Nodup
  perm : h.cast.Perm (s.votes.keys ++ (h.claimed ++ h.cleaned))
  stored : ∀ voter, (s.creditOf voter).voted - (s.creditOf voter).cleaned = s.votesBy voter ∧
    (s.creditOf voter).cleaned ≤ (s.creditOf voter).voted

end State

/-- In every run in which there are fewer cases than indices, callbacks take what they are given
and no opinion on a case is held by more people than can be counted, each case is in one place, only
moves onward and gets one verdict, tallies are honest and no vote is lost or used twice. -/
theorem one_verdict_per_case {T : Config} {world : T.World} {w w' : State T × History}
    (hrun : Reaches (noting State.execAction State.note) (fun w a => w.1.Fits a)
      (State.genesis T world, .empty) w)
    (hnext : Reaches (noting State.execAction State.note) (fun w a => w.1.Fits a) w w') :
    w'.1.Orderly ∧ w'.1.TalliesHonest ∧ w'.1.VotesKept w'.2 ∧
      ∀ i, (w.1.stage i).rank ≤ (w'.1.stage i).rank ∧
        ∀ case, w.1.doneCases.get i = some case → w'.1.verdictsOf i = [case.verdict] := by
  have honward : ∀ {v v' : State T × History},
      Reaches (noting State.execAction State.note) (fun w a => w.1.Fits a) v v' → v.1.Onward v'.1 := by
    intro v v' hreach
    refine hreach.invariant (I := fun v'' => v.1.Onward v''.1) (State.Onward.refl v.1) fun t a t' ht hG hexec => ?_
    exact ht.trans (State.exec_onward hG (noting_eq_ok hexec).1)
  have hcoherent := (State.Coherent.genesis T world).onward (honward hrun)
  have hcoherent' := hcoherent.onward (honward hnext)
  have haccounted : w'.1.Coherent ∧ w'.1.Accounted w'.2 := by
    refine (hrun.trans hnext).noted (I := fun s h => s.Coherent ∧ s.Accounted h)
      ⟨State.Coherent.genesis T world, State.Accounted.genesis T world⟩ ?_
    intro s h a s' ⟨hs, ha⟩ hG hexec
    exact ⟨hs.onward (State.exec_onward hG hexec), State.exec_accounted hs ha hG hexec⟩
  obtain ⟨-, ha⟩ := haccounted
  refine ⟨hcoherent'.orderly, ha.tally, ⟨ha.nodup, ha.perm, fun voter => ?_⟩, fun i => ?_⟩
  · have hvoted := ha.votesBy_add_cleaned voter
    omega
  · obtain ⟨stage', hat', hrank, hgrows⟩ := honward hnext i _ (hcoherent.at_stage i)
    refine ⟨State.stage_eq hat' ▸ hrank, fun case hdone => ?_⟩
    have hbefore := hcoherent.orderly.recorded i case hdone
    rw [hbefore] at hgrows
    have hlength := hcoherent'.orderly.verdicts i
    refine (hgrows.eq_of_length_le ?_).symm
    rw [hlength]
    split
    · exact Nat.le_refl 1
    · exact Nat.zero_le 1

instance (callback : Callback) : Decidable (sampleConfig.Accepts callback) := isTrue fun _ => rfl

instance (s : State sampleConfig) (a : State.Action sampleConfig) : Decidable (s.Fits a) := by
  obtain ⟨env, call⟩ := a
  cases call <;> unfold State.Fits <;> infer_instance

def sampleVotes : List (State.Action sampleConfig) :=
  [(⟨0, 0⟩, .judgeStatement () default ⟨1, 1⟩), (⟨0, 0⟩, .vote (sampleAlias 1) 0 .contempt),
    (⟨0, 0⟩, .vote (sampleAlias 2) 0 (.truth .true)), (⟨0, 0⟩, .vote (sampleAlias 1) 0 (.truth .true))]

def sampleClosing : List (State.Action sampleConfig) :=
  [(⟨11, 0⟩, .touchCase 0), (⟨12, 0⟩, .closeCase 0), (⟨12, 0⟩, .claimVotes (sampleAlias 1) [0]),
    (⟨113, 0⟩, .cleanVote 0 (sampleAlias 2)), (⟨113, 0⟩, .reapCase 0)]

/-- Two people vote, one of them twice, and the case is closed; one vote is claimed and the other is
cleaned, and the case is reaped. -/
theorem one_verdict_per_case_sample : ∃ w w' : State sampleConfig × History,
    w.1.stage 0 = .voting ∧ w'.1.stage 0 = .reaped ∧ w'.1.Orderly ∧ w'.1.VotesKept w'.2 := by
  obtain ⟨w, hrun, hvoting, hclosing⟩ := exists_reaches (noting State.execAction State.note)
    (fun w a => w.1.Fits a) (State.genesis sampleConfig (), .empty) sampleVotes
    (fun w => w.1.stage 0 = .voting ∧
      (sampleClosing.foldlM (fun (w : State sampleConfig × History) a => if w.1.Fits a then
          (noting State.execAction State.note w a).toOption else none) w).any
        (fun w' : State sampleConfig × History => decide (w'.1.stage 0 = .reaped)) = true) (by decide +kernel)
  obtain ⟨w', hnext, hreaped⟩ := exists_reaches (noting State.execAction State.note)
    (fun w a => w.1.Fits a) w sampleClosing (fun w' => w'.1.stage 0 = .reaped) hclosing
  obtain ⟨horderly, -, hkept, -⟩ := one_verdict_per_case hrun hnext
  exact ⟨w, w', hvoting, hreaped, horderly, hkept⟩

/-! ### More votes than a tally counts -/

/-- As `Fits`, without a bound on the votes. -/
def State.FewCases {T : Config} (s : State T) : State.Action T → Prop
  | (_, .judgeStatement _ _ callback) => s.caseCount < U32.max ∧ T.Accepts callback
  | _ => True

theorem sampleAlias_injective {j k : Nat} (hj : j < 1099511627776) (hk : k < 1099511627776)
    (h : sampleAlias j = sampleAlias k) : j = k := by
  have hbyte : ∀ i (hi : i < 32), j / 256 ^ i % 256 = k / 256 ^ i % 256 := by
    intro i hi
    have hget : (sampleAlias j)[i] = (sampleAlias k)[i] := by rw [h]
    simp only [sampleAlias, Vector.getElem_ofFn] at hget
    simpa using congrArg UInt8.toNat hget
  have h₀ := hbyte 0 (by decide)
  have h₁ := hbyte 1 (by decide)
  have h₂ := hbyte 2 (by decide)
  have h₃ := hbyte 3 (by decide)
  have h₄ := hbyte 4 (by decide)
  omega

/-- A young case is not decided. -/
theorem State.isDecided_of_young {T : Config} {env : Env} {s : State T} {case : OpenCase T.Statement}
    (h : env.secs - case.since ≤ T.minCaseDuration) : s.isDecided env case = false := by
  simp [State.isDecided, Nat.not_lt.mpr h]

/-- So many people agree on the first case, right after it was opened. -/
structure Crowd (s : State sampleConfig) (n : Nat) : Prop where
  run : Reaches State.execAction State.FewCases (State.genesis sampleConfig ()) s
  counted : s.openCases.get 0 = some ⟨0, ⟨(), default, ⟨1, 1⟩⟩, ⟨min n U32.max, 0, 0⟩⟩
  votes : s.votesOn 0 (.truth .true) = n
  others : ∀ k, n ≤ k → k < 1099511627776 → s.votes.get (0, sampleAlias k) = none

theorem crowd (n : Nat) (hn : n < 1099511627776) : ∃ s, Crowd s n := by
  induction n with
  | zero =>
    refine ⟨(State.genesis sampleConfig ()).judgeStatement ⟨0, 0⟩ () default ⟨1, 1⟩, ?_, rfl, rfl, ?_⟩
    · exact (Reaches.refl _).tail (i := (⟨0, 0⟩, .judgeStatement () default ⟨1, 1⟩)) ⟨by decide, fun _ => rfl⟩ rfl
    · exact fun _ _ _ => rfl
  | succ n ih =>
    obtain ⟨s, hrun, hcounted, hvotes, hothers⟩ := ih (by omega)
    have hnone := hothers n (Nat.le_refl n) (by omega)
    have hexec : s.execAction (⟨0, 0⟩, .vote (sampleAlias n) 0 (.truth .true)) =
        .ok (State.putCredit { s with
          votes := s.votes.insert (0, sampleAlias n) (.truth .true)
          openCases := s.openCases.insert 0 ⟨0, ⟨(), default, ⟨1, 1⟩⟩, ⟨min (n + 1) U32.max, 0, 0⟩⟩ }
          (sampleAlias n) { s.creditOf (sampleAlias n) with
            voted := U32.saturatingInc (s.creditOf (sampleAlias n)).voted }) := by
      have hcount : U32.saturatingInc (min n U32.max) = min (n + 1) U32.max := by
        unfold U32.saturatingInc U32.saturatingAdd
        omega
      show s.vote _ _ _ _ = _
      unfold State.vote
      rw [ensure_pos (Or.inl (by decide)), ok_bind, hcounted, okOr_some, ok_bind]
      simp only [hnone, State.settle, VoteTally.count, hcount]
      rw [State.isDecided_of_young (Nat.zero_le _)]
      rfl
    refine ⟨_, hrun.tail (i := (⟨0, 0⟩, .vote (sampleAlias n) 0 (.truth .true))) trivial hexec, ?_, ?_, fun k hk hk' => ?_⟩
    · simp [State.putCredit]
    · have hvote := State.Accounted.votesOn_vote s 0 0 (sampleAlias n) (.truth .true) (.truth .true)
      rw [hnone, if_neg (by simp), if_pos ⟨rfl, rfl⟩, hvotes] at hvote
      exact hvote
    · have hne : (0, sampleAlias k) ≠ ((0, sampleAlias n) : CaseIndex × Alias) := by
        intro heq
        have := sampleAlias_injective hk' (by omega) (Prod.mk.inj heq).2
        omega
      simp only [State.putCredit, StorageMap.get_insert, if_neg hne]
      exact hothers k (by omega) hk'

/-- The vote after the last that a tally counts is stored and not counted. -/
theorem one_verdict_per_case_fails : ∃ s : State sampleConfig,
    Reaches State.execAction State.FewCases (State.genesis sampleConfig ()) s ∧ ¬ s.TalliesHonest := by
  obtain ⟨s, hcrowd⟩ := crowd (U32.max + 1) (by decide)
  refine ⟨s, hcrowd.run, fun hhonest => ?_⟩
  have htally := hhonest 0 _ hcrowd.counted (.truth .true)
  rw [hcrowd.votes] at htally
  exact absurd htally (by decide)

end Individuality.MobRule
