import Individuality.MobRule.Votes

/-! When a verdict is final.

A case is decided early when those who have not voted can no longer change which side
has more weight. They may still change what the losing verdict is called: contempt
weighs as much as a rejection, so it takes no margin to turn the one into the other.
`definitive_lasts_iff` says for which tallies a definitive verdict lasts, and that a
vote that is passing is never anything but an approval. -/
namespace Individuality.MobRule
open Support

namespace VoteTally
variable {percent : Nat → Nat → Nat} {t : VoteTally} {activeVoters : Nat} {opinion : Judgement}
  {opinions : List Judgement}

/-- The votes that were cast. -/
def cast (t : VoteTally) : Nat := t.aye + t.nay + t.contempt

/-- The tally once more votes have come in. -/
def countAll (t : VoteTally) (opinions : List Judgement) : VoteTally := opinions.foldl count t

theorem cast_eq (t : VoteTally) :
    t.cast = t.votes (.truth .true) + t.votes (.truth .false) + t.votes .contempt := rfl

/-- A vote is counted once, for one opinion. -/
theorem cast_count (hroom : t.cast < U32.max) : (t.count opinion).cast = t.cast + 1 := by
  unfold cast at hroom ⊢
  cases opinion with
  | truth truth =>
    cases truth with
    | true =>
      show U32.saturatingInc t.aye + t.nay + t.contempt = _
      rw [U32.saturatingInc_eq (by omega)]
      omega
    | false =>
      show t.aye + U32.saturatingInc t.nay + t.contempt = _
      rw [U32.saturatingInc_eq (by omega)]
      omega
  | contempt =>
    show t.aye + t.nay + U32.saturatingInc t.contempt = _
    rw [U32.saturatingInc_eq (by omega)]
    omega

theorem votes_le_cast : t.votes opinion ≤ t.cast := by
  unfold cast
  cases opinion with
  | truth truth =>
    cases truth with
    | true => exact (Nat.le_add_right t.aye t.nay).trans (Nat.le_add_right _ _)
    | false => exact (Nat.le_add_left t.nay t.aye).trans (Nat.le_add_right _ _)
  | contempt => exact Nat.le_add_left t.contempt _

theorem votes_countAll (opinion : Judgement) (hroom : t.cast + opinions.length ≤ U32.max) :
    (t.countAll opinions).votes opinion = t.votes opinion + opinions.count opinion := by
  induction opinions generalizing t with
  | nil => rfl
  | cons o opinions ih =>
    rw [List.length_cons] at hroom
    have hcast : (t.count o).cast = t.cast + 1 := cast_count (by omega)
    have hle : t.votes opinion ≤ t.cast := votes_le_cast
    have hcount : (t.countAll (o :: opinions)) = (t.count o).countAll opinions := rfl
    rw [hcount, ih (by omega), votes_count, List.count_cons]
    by_cases heq : opinion = o
    · subst heq
      rw [if_pos rfl, U32.saturatingInc_eq (by omega), if_pos (beq_self_eq_true opinion)]
      omega
    · have hne : (o == opinion) = false := beq_false_of_ne fun h => heq h.symm
      rw [if_neg heq, hne, if_neg Bool.false_ne_true]
      rfl

/-- There are no other opinions. -/
theorem count_opinions (opinions : List Judgement) :
    opinions.count (.truth .true) + opinions.count (.truth .false) + opinions.count .contempt = opinions.length := by
  induction opinions with
  | nil => rfl
  | cons o opinions ih =>
    rw [List.count_cons, List.count_cons, List.count_cons, List.length_cons, ← ih]
    cases o with
    | truth truth =>
      cases truth with
      | true =>
        simp only [beq_self_eq_true, if_true, Judgement.truth.injEq, reduceCtorEq, beq_iff_eq, if_false]
        omega
      | false =>
        simp only [beq_self_eq_true, if_true, Judgement.truth.injEq, reduceCtorEq, beq_iff_eq, if_false]
        omega
    | contempt =>
      simp only [beq_self_eq_true, if_true, reduceCtorEq, beq_iff_eq, if_false]
      omega

theorem cast_countAll (hroom : t.cast + opinions.length ≤ U32.max) :
    (t.countAll opinions).cast = t.cast + opinions.length := by
  rw [cast_eq, cast_eq, votes_countAll _ hroom, votes_countAll _ hroom, votes_countAll _ hroom,
    ← count_opinions opinions]
  omega

/-- The verdict of a tally whose sums fit. -/
def verdictOf (aye nay contempt : Nat) : Judgement :=
  if nay + contempt < aye then .truth .true else if nay ≤ contempt then .contempt else .truth .false

/-- The margin of a tally whose sums fit. -/
def marginOf (aye nayWeight : Nat) : Nat := if nayWeight < aye then aye - nayWeight else nayWeight - aye

theorem collapsed_eq (hpos : 0 < t.cast) (hfits : t.cast ≤ U32.max) :
    t.collapsed percent activeVoters =
      ⟨verdictOf t.aye t.nay t.contempt, t.aye, t.nay + t.contempt, percent t.cast activeVoters, t.cast,
        activeVoters - t.cast == 0 ||
          decide (activeVoters - t.cast < marginOf t.aye (t.nay + t.contempt))⟩ := by
  unfold cast at hpos hfits ⊢
  have hcount : U32.saturatingAdd (U32.saturatingAdd t.aye t.nay) t.contempt = t.aye + t.nay + t.contempt := by
    unfold U32.saturatingAdd
    omega
  have hweight : U32.saturatingAdd t.nay t.contempt = t.nay + t.contempt := by
    unfold U32.saturatingAdd
    omega
  unfold collapsed verdictOf marginOf
  rw [hcount, hweight, if_neg (by omega)]
  by_cases haye : t.nay + t.contempt < t.aye
  · simp only [if_pos haye]
  · simp only [if_neg haye]

theorem collapsed_of_cast_eq_zero (h : t.cast = 0) : t.collapsed percent activeVoters = .empty := by
  unfold cast at h
  unfold collapsed U32.saturatingAdd
  rw [if_pos (by omega)]

theorem verdict_collapsed (hpos : 0 < t.cast) (hfits : t.cast ≤ U32.max) :
    (t.collapsed percent activeVoters).verdict = verdictOf t.aye t.nay t.contempt := by
  rw [collapsed_eq hpos hfits]

/-- What is decided is which side has the weight, by more than the votes that are left. -/
theorem definitive_collapsed (hfits : t.cast ≤ U32.max) :
    (t.collapsed percent activeVoters).definitive = true ↔
      0 < t.cast ∧ (activeVoters - t.cast = 0 ∨ activeVoters - t.cast + (t.nay + t.contempt) < t.aye ∨
        activeVoters - t.cast + t.aye < t.nay + t.contempt) := by
  rcases Nat.eq_zero_or_pos t.cast with hzero | hpos
  · rw [collapsed_of_cast_eq_zero hzero]
    exact iff_of_false Bool.false_ne_true fun h => h.1.ne' hzero
  · rw [collapsed_eq hpos hfits, Bool.or_eq_true, beq_iff_eq, decide_eq_true_iff, marginOf]
    split <;> omega

/-- No way in which those who are left may vote changes a verdict that is said to be definitive. -/
def DefinitiveLasts (percent : Nat → Nat → Nat) (t : VoteTally) (activeVoters : Nat) : Prop :=
  (t.collapsed percent activeVoters).definitive = true →
    ∀ opinions : List Judgement, opinions.length ≤ activeVoters - t.cast →
      ((t.countAll opinions).collapsed percent activeVoters).verdict = (t.collapsed percent activeVoters).verdict

/-- The votes that are left could still bring the weights level, or they cannot bring contempt and
rejection level. -/
def GapHolds (t : VoteTally) (activeVoters : Nat) : Prop :=
  t.nay + t.contempt ≤ t.aye + (activeVoters - t.cast) ∨ t.nay + (activeVoters - t.cast) ≤ t.contempt ∨
    t.contempt + (activeVoters - t.cast) < t.nay

instance (t : VoteTally) (activeVoters : Nat) : Decidable (t.GapHolds activeVoters) := by
  unfold GapHolds
  infer_instance

theorem verdict_countAll (hcast : t.cast ≤ activeVoters) (hactive : activeVoters ≤ U32.max) (hpos : 0 < t.cast)
    (hleft : opinions.length ≤ activeVoters - t.cast) :
    ((t.countAll opinions).collapsed percent activeVoters).verdict =
      verdictOf (t.aye + opinions.count (.truth .true)) (t.nay + opinions.count (.truth .false))
        (t.contempt + opinions.count .contempt) := by
  have hroom : t.cast + opinions.length ≤ U32.max := by omega
  have hsum := cast_countAll hroom
  rw [verdict_collapsed (by omega) (by omega)]
  have haye : (t.countAll opinions).aye = t.aye + opinions.count (.truth .true) :=
    votes_countAll (.truth .true) hroom
  have hnay : (t.countAll opinions).nay = t.nay + opinions.count (.truth .false) :=
    votes_countAll (.truth .false) hroom
  have hcontempt : (t.countAll opinions).contempt = t.contempt + opinions.count .contempt :=
    votes_countAll .contempt hroom
  exact congr (congr (congrArg verdictOf haye) hnay) hcontempt

theorem definitiveLasts_of_gapHolds (hcast : t.cast ≤ activeVoters) (hactive : activeVoters ≤ U32.max)
    (h : t.GapHolds activeVoters) : t.DefinitiveLasts percent activeVoters := by
  intro hdefinitive opinions hleft
  obtain ⟨hpos, hmargin⟩ := (definitive_collapsed (hcast.trans hactive)).mp hdefinitive
  have hsum := count_opinions opinions
  rw [verdict_countAll hcast hactive hpos hleft, verdict_collapsed hpos (hcast.trans hactive)]
  unfold GapHolds at h
  unfold verdictOf
  by_cases haye : t.nay + t.contempt < t.aye
  · rw [if_pos (by omega), if_pos haye]
  · by_cases hgap : t.nay ≤ t.contempt
    · rw [if_neg (by omega), if_pos (by omega), if_neg haye, if_pos hgap]
    · rw [if_neg (by omega), if_neg (by omega), if_neg haye, if_neg hgap]

/-- Where the rejections outweigh for good and the gap does not hold, just as many votes as the gap is wide
turn contempt into a rejection or the other way round. -/
theorem not_definitiveLasts (hcast : t.cast ≤ activeVoters) (hactive : activeVoters ≤ U32.max)
    (h : ¬t.GapHolds activeVoters) : ¬t.DefinitiveLasts percent activeVoters := by
  intro hlasts
  unfold GapHolds at h
  have hpos : 0 < t.cast := by
    unfold cast
    omega
  have hdefinitive : (t.collapsed percent activeVoters).definitive = true :=
    (definitive_collapsed (hcast.trans hactive)).mpr ⟨hpos, .inr (.inr (by omega))⟩
  by_cases hgap : t.nay ≤ t.contempt
  · have hleft : (List.replicate (t.contempt - t.nay + 1) (Judgement.truth .false)).length ≤
        activeVoters - t.cast := by
      rw [List.length_replicate]
      omega
    have hsame := hlasts hdefinitive _ hleft
    rw [verdict_countAll hcast hactive hpos hleft, verdict_collapsed hpos (hcast.trans hactive),
      List.count_replicate_self, List.count_replicate, List.count_replicate] at hsame
    simp only [Judgement.truth.injEq, reduceCtorEq, beq_iff_eq, if_false, Nat.add_zero] at hsame
    unfold verdictOf at hsame
    rw [if_neg (by omega), if_neg (by omega), if_neg (by omega), if_pos hgap] at hsame
    cases hsame
  · have hleft : (List.replicate (t.nay - t.contempt) Judgement.contempt).length ≤ activeVoters - t.cast := by
      rw [List.length_replicate]
      omega
    have hsame := hlasts hdefinitive _ hleft
    rw [verdict_countAll hcast hactive hpos hleft, verdict_collapsed hpos (hcast.trans hactive),
      List.count_replicate_self, List.count_replicate, List.count_replicate] at hsame
    simp only [reduceCtorEq, beq_iff_eq, if_false, Nat.add_zero] at hsame
    unfold verdictOf at hsame
    rw [if_neg (by omega), if_pos (by omega), if_neg (by omega), if_neg hgap] at hsame
    cases hsame

/-- More than half of the weight is for it, however high the threshold still is. -/
theorem verdict_of_isPassing (hcast : t.cast ≤ U32.max) {maxDuration elapsed : Nat} (hduration : maxDuration ≤ U64.max)
    (h : (t.collapsed percent activeVoters).isPassing maxDuration elapsed = true) :
    (t.collapsed percent activeVoters).verdict = .truth .true := by
  rcases Nat.eq_zero_or_pos t.cast with hzero | hpos
  · rw [collapsed_of_cast_eq_zero hzero, VoteCountResult.isPassing, decide_eq_true_iff] at h
    simp [VoteCountResult.empty, U64.saturatingMul] at h
  · rw [collapsed_eq hpos hcast, VoteCountResult.isPassing, decide_eq_true_iff] at h
    rw [verdict_collapsed hpos hcast, verdictOf, if_pos]
    unfold cast at hcast
    have hweight : U32.saturatingAdd t.aye (t.nay + t.contempt) = t.aye + (t.nay + t.contempt) := by
      unfold U32.saturatingAdd
      omega
    simp only [hweight] at h
    -- Neither side can be cut off where the inequality is strict, so it holds of the exact products.
    have hthreshold : maxDuration ≤ U64.saturatingAdd maxDuration (maxDuration - elapsed) := by
      unfold U64.saturatingAdd
      omega
    have hexact : maxDuration * (t.aye + (t.nay + t.contempt)) < maxDuration * t.aye * 2 := by
      have hle := Nat.mul_le_mul_right (t.aye + (t.nay + t.contempt)) hthreshold
      unfold U64.saturatingMul at h
      generalize U64.saturatingAdd maxDuration (maxDuration - elapsed) * (t.aye + (t.nay + t.contempt)) = required at *
      generalize maxDuration * t.aye = approval at *
      omega
    rw [Nat.mul_assoc] at hexact
    have hmore := Nat.lt_of_mul_lt_mul_left hexact
    omega

/-- A definitive verdict lasts exactly where the gap between contempt and rejection holds, or those who are
left could still bring the sides level; and what is passing is approved. -/
theorem definitive_lasts_iff (percent : Nat → Nat → Nat) (t : VoteTally) (activeVoters : Nat)
    (hcast : t.cast ≤ activeVoters) (hactive : activeVoters ≤ U32.max) :
    (t.DefinitiveLasts percent activeVoters ∧
      ∀ maxDuration elapsed, maxDuration ≤ U64.max →
        (t.collapsed percent activeVoters).isPassing maxDuration elapsed = true →
          (t.collapsed percent activeVoters).verdict = .truth .true) ↔
      t.GapHolds activeVoters := by
  constructor
  · rintro ⟨hlasts, -⟩
    by_contra hgap
    exact not_definitiveLasts hcast hactive hgap hlasts
  · exact fun hgap => ⟨definitiveLasts_of_gapHolds hcast hactive hgap,
      fun _ _ hduration hpassing => verdict_of_isPassing (hcast.trans hactive) hduration hpassing⟩

/-- Two votes of eight are for contempt, three against, and three people have not voted. -/
def sampleTally : VoteTally := ⟨0, 3, 2⟩

theorem definitive_lasts_iff_sample :
    (⟨4, 1, 0⟩ : VoteTally).DefinitiveLasts sampleConfig.percentFromRational 6 ∧ ¬sampleTally.GapHolds 8 := by
  have hlasts := (definitive_lasts_iff sampleConfig.percentFromRational ⟨4, 1, 0⟩ 6 (by decide) (by decide)).mpr (by decide)
  exact ⟨hlasts.1, by decide⟩

/-- The rejection is definitive, and a single vote turns it into contempt. -/
theorem definitive_verdict_flips :
    (sampleTally.collapsed sampleConfig.percentFromRational 8).definitive = true ∧
    (sampleTally.collapsed sampleConfig.percentFromRational 8).verdict = .truth .false ∧
    ((sampleTally.countAll [.contempt]).collapsed sampleConfig.percentFromRational 8).verdict = .contempt := by
  decide

end VoteTally

end Individuality.MobRule
