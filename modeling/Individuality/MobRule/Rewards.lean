import Individuality.MobRule.Cases

/-! Rewards are backed, and never exceed the round.

What the pot has on hold for payouts is what the schedules still have to pay and what
the running round has left; what it has on hold for credit is what voters are owed
(`Backed`). Points that are earned now count for the next round, and the points of
the running round were counted when it started. A share is rounded down twice, so
the shares of a round's points together do not exceed its balance (`Covers`), and a
claim releases all of its share.

That fails where a schedule is for no round at all and its amount was never put on
hold, and where a number does not fit: the amount of a schedule, the index of a round
or the points of a voter or of a round. `Funded` excludes those steps, and
`rewards_backed` is the claim for the runs without them. -/
namespace Individuality.MobRule
open Support

/-- What a schedule still has to pay. -/
def PayoutSchedule.total (schedule : PayoutSchedule) : Nat :=
  schedule.remaining * schedule.amountPerRound

namespace CreditDistribution

/-- The share of some points in parts per billion and then in funds, each rounded down. -/
def fairShare (d : CreditDistribution) (points : Nat) : Nat :=
  d.initialBalance * (points * 1000000000 / d.totalPoints) / 1000000000

/-- A round can still pay for so many points. -/
structure Covers (d : CreditDistribution) (points : Nat) : Prop where
  points_le : points ≤ d.totalPoints
  share_le : d.fairShare points ≤ d.remainingBalance

variable {d : CreditDistribution} {points n : Nat}

/-- No share is more than fair. -/
theorem share_le_fairShare (T : Config) (hpos : 0 < d.totalPoints) (points : Nat) :
    T.share points d.totalPoints d.initialBalance ≤ d.fairShare points := by
  refine Nat.div_le_div_right (Nat.mul_le_mul_left _ ?_)
  exact (Nat.le_div_iff_mul_le hpos).mpr (T.perbillFromRational_le points d.totalPoints)

/-- Shares that are rounded down leave enough for the other points. -/
theorem fairShare_add_le (d : CreditDistribution) (m n : Nat) :
    d.fairShare m + d.fairShare n ≤ d.fairShare (m + n) := by
  have hparts : m * 1000000000 / d.totalPoints + n * 1000000000 / d.totalPoints ≤
      (m + n) * 1000000000 / d.totalPoints := by
    rw [Nat.add_mul]
    exact Nat.div_add_div_le_add_div
  calc d.fairShare m + d.fairShare n
      ≤ (d.initialBalance * (m * 1000000000 / d.totalPoints) +
          d.initialBalance * (n * 1000000000 / d.totalPoints)) / 1000000000 := Nat.div_add_div_le_add_div
    _ ≤ d.fairShare (m + n) := by
        refine Nat.div_le_div_right ?_
        rw [← Nat.mul_add]
        exact Nat.mul_le_mul_left _ hparts

/-- The points of a round are worth its balance. -/
theorem fairShare_total (hpos : 0 < d.totalPoints) : d.fairShare d.totalPoints = d.initialBalance := by
  rw [fairShare, Nat.mul_div_cancel_left _ hpos]
  exact Nat.mul_div_cancel _ (by decide)

/-- A claim of some of the points can be paid, and leaves enough for the others. -/
theorem Covers.claim {T : Config} (h : d.Covers points) (hpos : 0 < n) (hn : n ≤ points) :
    T.share n d.totalPoints d.initialBalance ≤ d.remainingBalance ∧
      ({ d with remainingBalance := d.remainingBalance - T.share n d.totalPoints d.initialBalance } :
        CreditDistribution).Covers (points - n) := by
  have hshare := share_le_fairShare T ((Nat.lt_of_lt_of_le hpos hn).trans_le h.points_le) n
  have hadd := d.fairShare_add_le n (points - n)
  rw [Nat.add_sub_cancel' hn] at hadd
  have hle := h.share_le
  refine ⟨by omega, (Nat.sub_le _ _).trans h.points_le, ?_⟩
  show d.fairShare (points - n) ≤ d.remainingBalance - T.share n d.totalPoints d.initialBalance
  omega

end CreditDistribution

namespace State
variable {T : Config}

/-! ### The books -/

/-- What the schedules still have to pay. -/
def scheduled (s : State T) : Nat := (s.roundSchedules.toList.map PayoutSchedule.total).sum

/-- What the running round has left. -/
def distributing (s : State T) : Nat := (s.payoutDistribution.map fun d => d.remainingBalance).getD 0

/-- What voters are owed. -/
def owed (s : State T) : Nat := s.credits.sumOf MobCredit.credit

/-- The points of a round. -/
def points (s : State T) (round : RoundIndex) : Nat := (s.votingPoints round).sumOf id

/-- What is on hold is what is promised. -/
structure Backed (s : State T) : Prop where
  payout : s.pot.onHold .payout = s.scheduled + s.distributing
  credit : s.pot.onHold .credit = s.owed

/-- The books balance, the points of the next round are counted, and the running round can pay
for its points. -/
structure Sound (s : State T) : Prop extends Backed s where
  accumulated : s.accumulatedPoints = s.points s.nextRound
  later : ∀ round, s.nextRound < round → s.points round = 0
  covers : ∀ d, s.payoutDistribution = some d → d.round < U32.max ∧ d.Covers (s.points d.round)

variable {s s' : State T}

theorem nextRound_of_running {d : CreditDistribution} (hd : s.payoutDistribution = some d)
    (hround : d.round < U32.max) : s.nextRound = d.round + 1 := by
  rw [nextRound, hd]
  exact U32.saturatingAdd_eq hround

theorem points_putPoints (s : State T) (round : RoundIndex) (points : StorageMap Alias Nat) :
    (s.putPoints round points).points round = points.sumOf id := by
  simp only [State.points, putPoints, Function.update_self]

theorem points_putPoints_of_ne (s : State T) {round other : RoundIndex} (h : other ≠ round)
    (points : StorageMap Alias Nat) : (s.putPoints round points).points other = s.points other := by
  simp only [State.points, putPoints, Function.update_of_ne h]

theorem owed_putCredit (s : State T) (voter : Alias) (credit : MobCredit) :
    (s.putCredit voter credit).owed + (s.creditOf voter).credit = s.owed + credit.credit := by
  have hsum := s.credits.sumOf_insert MobCredit.credit voter credit
  have hat : s.credits.measureAt MobCredit.credit voter = (s.creditOf voter).credit := by
    rw [StorageMap.measureAt, creditOf]
    cases s.credits.get voter <;> rfl
  rwa [hat] at hsum

/-- The points of a voter are among those of the round. -/
theorem pointsOf_le (s : State T) (round : RoundIndex) (voter : Alias) :
    s.pointsOf round voter ≤ s.points round := by
  have hle := (s.votingPoints round).measureAt_le_sumOf id voter
  rwa [StorageMap.measureAt, Option.map_id_fun, id_eq] at hle

/-- Taking the points of a voter away leaves the others'. -/
theorem points_take (s : State T) (round : RoundIndex) (voter : Alias) :
    (s.putPoints round ((s.votingPoints round).remove voter)).points round + s.pointsOf round voter =
      s.points round := by
  have hsum := (s.votingPoints round).sumOf_remove id voter
  rw [points_putPoints]
  rwa [StorageMap.measureAt, Option.map_id_fun, id_eq] at hsum

/-! ### The calls that are about cases and votes -/

/-- Rewards are as before. -/
structure SameRewards (s s' : State T) : Prop where
  onHold : ∀ reason, s'.pot.onHold reason = s.pot.onHold reason
  roundSchedules : s'.roundSchedules = s.roundSchedules
  payoutDistribution : s'.payoutDistribution = s.payoutDistribution
  accumulatedPoints : s'.accumulatedPoints = s.accumulatedPoints
  votingPoints : s'.votingPoints = s.votingPoints
  owed : s'.owed = s.owed

theorem SameRewards.of_eq (hpot : s'.pot = s.pot) (hschedules : s'.roundSchedules = s.roundSchedules)
    (hdistribution : s'.payoutDistribution = s.payoutDistribution)
    (haccumulated : s'.accumulatedPoints = s.accumulatedPoints)
    (hpoints : s'.votingPoints = s.votingPoints) (hcredits : s'.credits = s.credits) : s.SameRewards s' where
  onHold := fun reason => by rw [hpot]
  roundSchedules := hschedules
  payoutDistribution := hdistribution
  accumulatedPoints := haccumulated
  votingPoints := hpoints
  owed := by rw [State.owed, hcredits, State.owed]

theorem SameRewards.putCredit (h : s.SameRewards s') {voter : Alias} {credit : MobCredit}
    (hcredit : credit.credit = (s'.creditOf voter).credit) : s.SameRewards (s'.putCredit voter credit) where
  onHold := h.onHold
  roundSchedules := h.roundSchedules
  payoutDistribution := h.payoutDistribution
  accumulatedPoints := h.accumulatedPoints
  votingPoints := h.votingPoints
  owed := by
    have howed := s'.owed_putCredit voter credit
    rw [hcredit] at howed
    exact (Nat.add_right_cancel howed).trans h.owed

theorem SameRewards.settle (h : s.SameRewards s') {env : Env} {i : CaseIndex} {case : OpenCase T.Statement} :
    s.SameRewards (s'.settle env i case) := by
  obtain ⟨openCases, ripeCases, hsettle⟩ := settle_eq env s' i case
  rw [hsettle]
  exact ⟨h.onHold, h.roundSchedules, h.payoutDistribution, h.accumulatedPoints, h.votingPoints, h.owed⟩

theorem creditOf_settle (env : Env) (s : State T) (i : CaseIndex) (case : OpenCase T.Statement)
    (voter : Alias) : (s.settle env i case).creditOf voter = s.creditOf voter := by
  obtain ⟨openCases, ripeCases, hsettle⟩ := settle_eq env s i case
  rw [hsettle]
  rfl

theorem Sound.frame (hs : Sound s) (h : s.SameRewards s') : Sound s' := by
  have hround : s'.nextRound = s.nextRound := by rw [nextRound, nextRound, h.payoutDistribution]
  have hpoints : s'.points = s.points := by
    funext round
    rw [points, points, h.votingPoints]
  refine ⟨⟨?_, ?_⟩, ?_, ?_, fun d hd => ?_⟩
  · rw [h.onHold, scheduled, distributing, h.roundSchedules, h.payoutDistribution]
    exact hs.payout
  · rw [h.onHold, h.owed]
    exact hs.credit
  · rw [h.accumulatedPoints, hround, hpoints]
    exact hs.accumulated
  · rw [hround, hpoints]
    exact hs.later
  · rw [hpoints]
    exact hs.covers d (h.payoutDistribution ▸ hd)

/-- The calls that earn no points and pay nothing. -/
def MovesNoReward : Call T → Prop
  | .claimVotes _ _ | .schedulePayoutRounds _ _ _ | .removePayoutSchedule _ | .startPayoutRound
  | .claimCredit _ | .payoutRewards _ _ | .cleanPoints _ _ => False
  | _ => True

theorem SameRewards.cleanVote {env : Env} {i : CaseIndex} {voter : Alias}
    (h : s.cleanVote env i voter = .ok s') : s.SameRewards s' := by
  simp only [State.cleanVote, bind_eq_ok] at h
  obtain ⟨vote, -, h⟩ := h
  have hvotes : s.SameRewards { s with votes := s.votes.remove (i, voter) } := .of_eq rfl rfl rfl rfl rfl rfl
  split at h
  · split at h
    · cases h
      exact hvotes.putCredit rfl
    · split at h <;> cases h
      · have hpenalized : s.SameRewards (State.penalize env { s with votes := s.votes.remove (i, voter) } voter) :=
          .of_eq rfl rfl rfl rfl rfl rfl
        exact hpenalized.putCredit rfl
      · exact hvotes.putCredit rfl
  · cases h
    exact hvotes.putCredit rfl

theorem SameRewards.exec {env : Env} {call : Call T} (hcall : MovesNoReward call)
    (h : s.exec env call = .ok s') : s.SameRewards s' := by
  cases call with
  | judgeStatement statement context callback =>
    cases h
    exact .of_eq rfl rfl rfl rfl rfl rfl
  | vote voter i opinion =>
    simp only [State.exec, vote, bind_eq_ok, okOr_eq_ok, Except.ok.injEq] at h
    obtain ⟨-, -, case, -, rfl⟩ := h
    have hvotes : s.SameRewards { s with votes := s.votes.insert (i, voter) opinion } :=
      .of_eq rfl rfl rfl rfl rfl rfl
    refine hvotes.settle.putCredit ?_
    rw [creditOf_settle]
    split <;> rfl
  | touchCase i =>
    simp only [State.exec, touchCase, bind_eq_ok, Except.ok.injEq] at h
    obtain ⟨case, -, rfl⟩ := h
    exact SameRewards.settle (.of_eq rfl rfl rfl rfl rfl rfl)
  | forceRipenCase i =>
    simp only [State.exec, forceRipenCase, bind_eq_ok, Except.ok.injEq] at h
    obtain ⟨case, -, since, -, -, -, rfl⟩ := h
    exact .of_eq rfl rfl rfl rfl rfl rfl
  | closeCase i =>
    simp only [State.exec, closeCase, bind_eq_ok, Except.ok.injEq] at h
    obtain ⟨case, -, rfl⟩ := h
    obtain ⟨world, callbacks, hrun⟩ := runCallback_eq { s with ripeCases := s.ripeCases.remove i } i
      case.details case.verdict
    rw [hrun]
    exact .of_eq rfl rfl rfl rfl rfl rfl
  | intervene i verdict =>
    simp only [State.exec, intervene, bind_eq_ok, Except.ok.injEq] at h
    obtain ⟨case, -, rfl⟩ := h
    obtain ⟨world, callbacks, hrun⟩ := runCallback_eq { s with openCases := s.openCases.remove i } i
      case.details verdict
    rw [hrun]
    exact .of_eq rfl rfl rfl rfl rfl rfl
  | reapCase i =>
    simp only [State.exec, reapCase, bind_eq_ok, Except.ok.injEq] at h
    obtain ⟨case, -, -, -, rfl⟩ := h
    exact .of_eq rfl rfl rfl rfl rfl rfl
  | cleanVote i voter => exact .cleanVote h
  | clearVotingPenalty voter =>
    simp only [State.exec, clearVotingPenalty, bind_eq_ok, Except.ok.injEq] at h
    obtain ⟨start, -, -, -, rfl⟩ := h
    exact .of_eq rfl rfl rfl rfl rfl rfl
  | onPoll remaining =>
    cases h
    unfold onPoll
    split
    · exact .of_eq rfl rfl rfl rfl rfl rfl
    · dsimp only
      split
      · split <;> exact .of_eq rfl rfl rfl rfl rfl rfl
      · split <;> exact .of_eq rfl rfl rfl rfl rfl rfl
      · exact .of_eq rfl rfl rfl rfl rfl rfl
  | elsewhere world pot =>
    simp only [State.exec, elsewhere, bind_eq_ok, ensure_eq_ok, exists_const, Except.ok.injEq] at h
    obtain ⟨⟨hpayout, hcredit⟩, rfl⟩ := h
    refine ⟨fun reason => ?_, rfl, rfl, rfl, rfl, rfl⟩
    cases reason
    · exact hpayout
    · exact hcredit
  | _ => exact hcall.elim

/-! ### Schedules -/

theorem Sound.onHold_le (h : Sound s) : s.scheduled + s.distributing + s.owed ≤ U128.max := by
  have hpot := s.pot.onHold_le
  rw [h.payout, h.credit] at hpot
  exact hpot

theorem Sound.schedulePayoutRounds (h : Sound s) {amount count period : Nat}
    (hfits : amount * count ≤ U128.max) (hcall : s.schedulePayoutRounds amount count period = .ok s') :
    Sound s' := by
  simp only [State.schedulePayoutRounds, bind_eq_ok, okOr_eq_ok, Except.ok.injEq] at hcall
  obtain ⟨t, hhold, schedules, hpush, rfl⟩ := hcall
  obtain ⟨pot, hpot, rfl⟩ := hold_eq_some hhold
  obtain ⟨hpayout, hcredit⟩ := Pot.onHold_hold hpot
  rw [U128.saturatingMul_eq hfits] at hpayout
  rw [BoundedVec.tryPush_eq_some] at hpush
  refine ⟨⟨?_, (hcredit .credit (by decide)).trans h.credit⟩, h.accumulated, h.later, h.covers⟩
  have hscheduled : (schedules.toList.map PayoutSchedule.total).sum = s.scheduled + amount * count := by
    rw [hpush, List.map_append, List.sum_append, Nat.mul_comm amount]
    rfl
  have hbacked := h.payout
  show pot.onHold .payout = (schedules.toList.map PayoutSchedule.total).sum + s.distributing
  omega

theorem Sound.removePayoutSchedule (h : Sound s) {index : Nat}
    (hcall : s.removePayoutSchedule index = .ok s') : Sound s' := by
  simp only [State.removePayoutSchedule, bind_eq_ok, okOr_eq_ok, Except.ok.injEq] at hcall
  obtain ⟨schedule, hget, ⟨t, released⟩, hrelease, rfl⟩ := hcall
  obtain ⟨pot, hpot, rfl⟩ := release_eq_some hrelease
  obtain ⟨hreleased, -, hpayout, hcredit⟩ := Pot.onHold_release hpot
  refine ⟨⟨?_, (hcredit .credit (by decide)).trans h.credit⟩, h.accumulated, h.later, h.covers⟩
  have hsum := BoundedVec.sum_map_remove hget PayoutSchedule.total
  rw [PayoutSchedule.total, Nat.mul_comm] at hsum
  have hbacked := h.payout
  have hmax := h.onHold_le
  have hscheduled : s.scheduled = (s.roundSchedules.toList.map PayoutSchedule.total).sum := rfl
  rw [U128.saturatingMul_eq (by omega)] at hreleased
  show pot.onHold .payout = ((s.roundSchedules.remove index).toList.map _).sum + s.distributing
  omega

/-! ### Rounds -/

/-- The next round is one that the first schedule has funds for, and has an index after it. -/
def StartsFunded (s : State T) : Prop :=
  (∀ first ∈ s.roundSchedules.toList.head?, first.remaining ≠ 0 ∨ first.amountPerRound = 0) ∧
    s.nextRound < U32.max

/-- What the first schedule no longer has to pay is what a round is given. -/
theorem scheduled_first {first : PayoutSchedule} (hhead : s.roundSchedules.toList.head? = some first)
    (hfirst : first.remaining ≠ 0 ∨ first.amountPerRound = 0) :
    ((if first.remaining - 1 = 0 then s.roundSchedules.remove 0
      else s.roundSchedules.set 0 { first with remaining := first.remaining - 1 }).toList.map
        PayoutSchedule.total).sum + first.amountPerRound = s.scheduled := by
  have hget : s.roundSchedules.toList[0]? = some first := List.head?_eq_getElem?.symm.trans hhead
  have hscheduled : s.scheduled = (s.roundSchedules.toList.map PayoutSchedule.total).sum := rfl
  have hone : (first.remaining - 1) * first.amountPerRound + first.amountPerRound = first.total := by
    rcases hfirst with hne | hzero
    · rw [← Nat.succ_mul, Nat.succ_eq_add_one, Nat.sub_add_cancel (Nat.pos_of_ne_zero hne)]
      rfl
    · rw [PayoutSchedule.total, hzero]
      rfl
  split
  · rename_i hzero
    have hsum := BoundedVec.sum_map_remove hget PayoutSchedule.total
    rw [hzero] at hone
    omega
  · have hsum := BoundedVec.sum_map_set hget { first with remaining := first.remaining - 1 } PayoutSchedule.total
    simp only [PayoutSchedule.total] at hsum hone ⊢
    omega

theorem Sound.startPayoutRound {env : Env} (h : Sound s) (hfunded : s.StartsFunded)
    (hcall : s.startPayoutRound env = .ok s') :
    Sound s' ∧ ∀ d, s'.payoutDistribution = some d → d.remainingBalance = d.initialBalance := by
  simp only [State.startPayoutRound, bind_eq_ok, okOr_eq_ok, ensure_eq_ok, exists_const, Except.ok.injEq]
    at hcall
  obtain ⟨hpoints, first, hhead, -, t, hrecycle, rfl⟩ := hcall
  obtain ⟨pot, rfl, hcredit, hpayout⟩ := recycle_eq_ok hrecycle
  obtain ⟨hfirst, hround⟩ := hfunded
  have hnext : U32.saturatingAdd s.nextRound 1 = s.nextRound + 1 := U32.saturatingAdd_eq hround
  refine ⟨⟨⟨?_, hcredit.trans h.credit⟩, ?_, fun round hlater => ?_, fun d hd => ?_⟩, fun d hd => ?_⟩
  · have hscheduled := scheduled_first hhead (hfirst first hhead)
    have hbacked := h.payout
    have hdistributing : s.distributing = (s.payoutDistribution.map fun d => d.remainingBalance).getD 0 := rfl
    show pot.onHold .payout = _ + first.amountPerRound
    rw [State.scheduled]
    dsimp only
    omega
  · show 0 = s.points (U32.saturatingAdd s.nextRound 1)
    rw [hnext]
    exact (h.later _ (Nat.lt_succ_self _)).symm
  · have hlater' : U32.saturatingAdd s.nextRound 1 < round := hlater
    rw [hnext] at hlater'
    exact h.later round (Nat.lt_of_succ_lt hlater')
  · cases hd
    refine ⟨hround, ?_⟩
    have hcount : s.points s.nextRound = s.accumulatedPoints := h.accumulated.symm
    show CreditDistribution.Covers _ (s.points s.nextRound)
    rw [hcount]
    exact ⟨Nat.le_refl _, (CreditDistribution.fairShare_total hpoints).le⟩
  · cases hd
    rfl

/-- What the points of a voter are worth in a round. -/
def shareOf (s : State T) (d : CreditDistribution) (voter : Alias) : Nat :=
  T.share (s.pointsOf d.round voter) d.totalPoints d.initialBalance

/-- A claim moves exactly a voter's share from one hold to the other, out of what the round has left. -/
def PaysShare (s s' : State T) (voter : Alias) : Prop :=
  ∃ d, s.payoutDistribution = some d ∧ s.shareOf d voter ≤ d.remainingBalance ∧
    s'.pot.onHold .payout + s.shareOf d voter = s.pot.onHold .payout ∧
    s'.pot.onHold .credit = s.pot.onHold .credit + s.shareOf d voter ∧
    s'.payoutDistribution = some { d with remainingBalance := d.remainingBalance - s.shareOf d voter }

theorem Sound.claimCredit {voter : Alias} (h : Sound s) (hcall : s.claimCredit voter = .ok s') :
    Sound s' ∧ s.PaysShare s' voter := by
  simp only [State.claimCredit, bind_eq_ok, okOr_eq_ok, ensure_eq_ok, exists_const, Except.ok.injEq] at hcall
  obtain ⟨d, hd, hpos, ⟨t, released⟩, hrelease, t', hhold, -, rfl⟩ := hcall
  obtain ⟨pot, hpot, rfl⟩ := release_eq_some hrelease
  obtain ⟨pot', hpot', rfl⟩ := hold_eq_some hhold
  obtain ⟨hreleased, -, hpayout, hcredit⟩ := Pot.onHold_release hpot
  obtain ⟨hcredit', hpayout'⟩ := Pot.onHold_hold hpot'
  have hpayout : pot.onHold .payout + released = s.pot.onHold .payout := hpayout
  have hcredit : pot.onHold .credit = s.pot.onHold .credit := hcredit .credit (by decide)
  have hcredit' : pot'.onHold .credit = pot.onHold .credit + released := hcredit'
  have hpayout' : pot'.onHold .payout = pot.onHold .payout := hpayout' .payout (by decide)
  obtain ⟨hround, hcovers⟩ := h.covers d hd
  have htake := points_take s d.round voter
  obtain ⟨hshare, hrest⟩ := hcovers.claim (T := T) hpos (s.pointsOf_le d.round voter)
  have hbacked := h.payout
  have hdistributing : s.distributing = d.remainingBalance := by rw [distributing, hd]; rfl
  have hall : released = s.shareOf d voter := by
    have hmin : released = min (s.shareOf d voter) (s.pot.onHold .payout) := hreleased
    have hle : s.shareOf d voter ≤ d.remainingBalance := hshare
    omega
  subst hall
  have hshare : s.shareOf d voter ≤ d.remainingBalance := hshare
  have hnext : s.nextRound = d.round + 1 := nextRound_of_running hd hround
  have hothers : ∀ round, round ≠ d.round →
      (s.putPoints d.round ((s.votingPoints d.round).remove voter)).points round = s.points round :=
    fun round hne => points_putPoints_of_ne s hne _
  have howed : (s.putCredit voter
      { s.creditOf voter with credit := (s.creditOf voter).credit + s.shareOf d voter }).owed =
        s.owed + s.shareOf d voter := by
    have hput := s.owed_putCredit voter
      { s.creditOf voter with credit := (s.creditOf voter).credit + s.shareOf d voter }
    dsimp only at hput ⊢
    omega
  have hbackedCredit := h.credit
  refine ⟨⟨⟨?_, ?_⟩, ?_, fun round hlater => ?_, fun d' hd' => ?_⟩, d, hd, hshare, ?_, ?_, rfl⟩
  · show pot'.onHold .payout = s.scheduled + (d.remainingBalance - s.shareOf d voter)
    omega
  · have hheld : pot'.onHold .credit = s.owed + s.shareOf d voter := by omega
    exact hheld.trans howed.symm
  · show s.accumulatedPoints =
      (s.putPoints d.round ((s.votingPoints d.round).remove voter)).points (U32.saturatingAdd d.round 1)
    rw [U32.saturatingAdd_eq hround, hothers (d.round + 1) (Nat.succ_ne_self _), ← hnext]
    exact h.accumulated
  · have hlater' : U32.saturatingAdd d.round 1 < round := hlater
    rw [U32.saturatingAdd_eq hround] at hlater'
    refine (hothers round ?_).trans (h.later round (hnext ▸ hlater'))
    exact Nat.ne_of_gt (Nat.lt_of_succ_lt hlater')
  · cases hd'
    refine ⟨hround, ?_⟩
    have hleft : (s.putPoints d.round ((s.votingPoints d.round).remove voter)).points d.round =
        s.points d.round - s.pointsOf d.round voter := by omega
    show CreditDistribution.Covers _
      ((s.putPoints d.round ((s.votingPoints d.round).remove voter)).points d.round)
    rw [hleft]
    exact hrest
  · show pot'.onHold .payout + s.shareOf d voter = s.pot.onHold .payout
    omega
  · show pot'.onHold .credit = s.pot.onHold .credit + s.shareOf d voter
    omega

theorem Sound.payoutRewards {voter : Alias} {destination : T.AccountId} (h : Sound s)
    (hcall : s.payoutRewards voter destination = .ok s') : Sound s' := by
  simp only [State.payoutRewards, bind_eq_ok, okOr_eq_ok, ensure_eq_ok, exists_const, Except.ok.injEq] at hcall
  obtain ⟨-, ⟨t, released⟩, hrelease, t', hpay, rfl⟩ := hcall
  obtain ⟨pot, hpot, rfl⟩ := release_eq_some hrelease
  obtain ⟨world, pot', hpot', rfl⟩ := payFromPot_eq_some hpay
  obtain ⟨-, hall, hcredit, hpayout⟩ := Pot.onHold_release hpot
  have howed : (s.putCredit voter { s.creditOf voter with credit := 0 }).owed + (s.creditOf voter).credit =
      s.owed := s.owed_putCredit voter { s.creditOf voter with credit := 0 }
  have hreleased := hall rfl
  have hbacked := h.credit
  refine ⟨⟨?_, ?_⟩, h.accumulated, h.later, h.covers⟩
  · exact ((hpot' .payout).trans (hpayout .payout (by decide))).trans h.payout
  · have hheld : pot'.onHold .credit + (s.creditOf voter).credit = s.owed := by
      have hworld := hpot' .credit
      dsimp only at hworld
      omega
    exact Nat.add_right_cancel (hheld.trans howed.symm)

/-- Points of a round that is over are worth nothing. -/
theorem Sound.cleanPoints {round : RoundIndex} {voter : Alias} (h : Sound s)
    (hcall : s.cleanPoints round voter = .ok s') : Sound s' := by
  simp only [State.cleanPoints, bind_eq_ok, okOr_eq_ok, ensure_eq_ok, exists_const, Except.ok.injEq] at hcall
  obtain ⟨d, hd, hover, -, rfl⟩ := hcall
  have hround := (h.covers d hd).1
  have hnext : s.nextRound = d.round + 1 := nextRound_of_running hd hround
  have hothers : ∀ other, d.round ≤ other →
      (s.putPoints round ((s.votingPoints round).remove voter)).points other = s.points other :=
    fun other hle => points_putPoints_of_ne s (Nat.ne_of_gt (Nat.lt_of_lt_of_le hover hle)) _
  refine ⟨⟨h.payout, h.credit⟩, ?_, fun other hlater => ?_, fun d' hd' => ?_⟩
  · show s.accumulatedPoints = (s.putPoints round _).points s.nextRound
    rw [hothers _ (hnext ▸ Nat.le_succ d.round)]
    exact h.accumulated
  · have hlater' : s.nextRound < other := hlater
    have hrunning : d.round + 1 < other := hnext ▸ hlater'
    rw [hothers other (Nat.le_of_lt (Nat.lt_of_succ_lt hrunning))]
    exact h.later other hlater'
  · cases hd.symm.trans hd'
    rw [hothers d.round (Nat.le_refl _)]
    exact h.covers d hd

/-! ### Points -/

/-- How many of the cases a voter was right about. -/
def correctVotes (s : State T) (voter : Alias) (caseIndices : List CaseIndex) : Nat :=
  caseIndices.countP fun i => match s.votes.get (i, voter), s.doneCases.get i with
    | some vote, some case => case.verdict.isCorrect vote
    | _, _ => false

/-- A claim counts the votes that were right, as far as they can be counted. -/
theorem foldlM_takeVote_correct {env : Env} {voter : Alias} {caseIndices : List CaseIndex} {w : State T × Nat}
    (h : caseIndices.foldlM (takeVote env voter) (s, 0) = .ok w) :
    w.2 = min (s.correctVotes voter caseIndices) U32.max := by
  have hloop := foldlM_ok_induction (fun done (w : State T × Nat) => w.1.doneCases = s.doneCases ∧
    (∀ key vote, w.1.votes.get key = some vote → s.votes.get key = some vote) ∧
    w.2 = min (s.correctVotes voter done) U32.max) h ⟨rfl, fun _ _ => id, rfl⟩ ?_
  · exact hloop.2.2
  · rintro done i ⟨t, n⟩ ⟨t', n'⟩ - ⟨hdone, hvotes, hcount⟩ hstep
    obtain ⟨vote, case, penalties, hvote, hcase, rfl, hn'⟩ := takeVote_eq_ok hstep
    refine ⟨hdone, fun key vote' hget => hvotes key vote' (StorageMap.get_of_get_remove hget), ?_⟩
    have hone : s.correctVotes voter (done ++ [i]) =
        s.correctVotes voter done + if case.verdict.isCorrect vote then 1 else 0 := by
      rw [correctVotes, correctVotes, List.countP_append, List.countP_singleton, hvotes _ _ hvote, ← hdone, hcase]
    dsimp only at hcount hn'
    rw [hn', hone, hcount]
    unfold U32.saturatingInc U32.saturatingAdd
    split <;> omega

/-- The points that a claim earns fit in what counts them. -/
def EarnsFit (s : State T) (voter : Alias) (caseIndices : List CaseIndex) : Prop :=
  s.pointsOf s.nextRound voter + s.correctVotes voter caseIndices ≤ U32.max ∧
    s.accumulatedPoints + s.correctVotes voter caseIndices ≤ U64.max

theorem Sound.claimVotes {env : Env} {voter : Alias} {caseIndices : List CaseIndex} (h : Sound s)
    (hfits : s.EarnsFit voter caseIndices) (hcall : s.claimVotes env voter caseIndices = .ok s') :
    Sound s' := by
  simp only [State.claimVotes, bind_eq_ok, ensure_eq_ok, exists_const, Except.ok.injEq] at hcall
  obtain ⟨-, ⟨t, n⟩, hloop, rfl⟩ := hcall
  have hn := foldlM_takeVote_correct hloop
  obtain ⟨votes, penalties, ht, -⟩ := foldlM_takeVote hloop
  obtain ⟨hpoints, hall⟩ := hfits
  dsimp only at ht hn
  subst ht
  rw [Nat.min_eq_left ((Nat.le_add_left _ _).trans hpoints)] at hn
  subst hn
  generalize s.correctVotes voter caseIndices = earned at hpoints hall
  -- The points of the next round and their count grow by as much.
  have hnew : ((s.votingPoints s.nextRound).insert voter
      (U32.saturatingAdd (s.pointsOf s.nextRound voter) earned)).sumOf id = s.points s.nextRound + earned := by
    have hsum := (s.votingPoints s.nextRound).sumOf_insert id voter (s.pointsOf s.nextRound voter + earned)
    rw [StorageMap.measureAt, Option.map_id_fun, id_eq, id_eq] at hsum
    rw [U32.saturatingAdd_eq hpoints]
    have hpointsOf : ((s.votingPoints s.nextRound).get voter).getD 0 = s.pointsOf s.nextRound voter := rfl
    have hround : (s.votingPoints s.nextRound).sumOf id = s.points s.nextRound := rfl
    omega
  have hpaid : Sound ({ s.putPoints s.nextRound ((s.votingPoints s.nextRound).insert voter
      (U32.saturatingAdd (s.pointsOf s.nextRound voter) earned)) with
        accumulatedPoints := U64.saturatingAdd s.accumulatedPoints earned } : State T) := by
    refine ⟨⟨h.payout, h.credit⟩, ?_, fun round hlater => ?_, fun d hd => ?_⟩
    · have hcounted : s.accumulatedPoints + earned = s.points s.nextRound + earned :=
        congrArg (· + earned) h.accumulated
      exact (U64.saturatingAdd_eq hall).trans
        (hcounted.trans (hnew.symm.trans (points_putPoints s s.nextRound _).symm))
    · have hlater' : s.nextRound < round := hlater
      exact (points_putPoints_of_ne s (Nat.ne_of_gt hlater') _).trans (h.later round hlater')
    · obtain ⟨hround, hcovers⟩ := h.covers d hd
      have hnext : s.nextRound = d.round + 1 := nextRound_of_running (s := s) hd hround
      have hne : d.round ≠ s.nextRound := hnext ▸ (Nat.succ_ne_self d.round).symm
      exact ⟨hround, (points_putPoints_of_ne s hne _).symm ▸ hcovers⟩
  have hsame : SameRewards ({ s.putPoints s.nextRound ((s.votingPoints s.nextRound).insert voter
      (U32.saturatingAdd (s.pointsOf s.nextRound voter) earned)) with
        accumulatedPoints := U64.saturatingAdd s.accumulatedPoints earned } : State T)
      { (s.withVotes votes penalties).putPoints s.nextRound ((s.votingPoints s.nextRound).insert voter
          (U32.saturatingAdd (s.pointsOf s.nextRound voter) earned)) with
        accumulatedPoints := U64.saturatingAdd s.accumulatedPoints earned } :=
    .of_eq rfl rfl rfl rfl rfl rfl
  exact hpaid.frame (hsame.putCredit rfl)

/-! ### Runs -/

/-- The calls after which the books balance: a schedule whose amount does not overflow, a round that
starts funded, and a claim of votes whose points fit. -/
def Funded (s : State T) : Action T → Prop
  | (_, .schedulePayoutRounds amount count _) => amount * count ≤ U128.max
  | (_, .startPayoutRound) => s.StartsFunded
  | (_, .claimVotes voter caseIndices) => s.EarnsFit voter caseIndices
  | _ => True

instance (s : State T) (a : Action T) : Decidable (s.Funded a) := by
  obtain ⟨env, call⟩ := a
  cases call <;> unfold Funded <;> (try unfold StartsFunded) <;> (try unfold EarnsFit) <;> infer_instance

/-- What was claimed of the running round so far. -/
def noteClaim (s : State T) (a : Action T) (s' : State T) (claimed : Nat) : Nat :=
  match a.2 with
  | .startPayoutRound => 0
  | .claimCredit _ => claimed + (s.pot.onHold .payout - s'.pot.onHold .payout)
  | _ => claimed

/-- What was claimed of the running round is what it no longer has. -/
def Settled (s : State T) (claimed : Nat) : Prop :=
  ∀ d, s.payoutDistribution = some d → claimed + d.remainingBalance = d.initialBalance

theorem Sound.exec {a : Action T} {claimed : Nat} (h : Sound s) (hsettled : s.Settled claimed)
    (hG : s.Funded a) (hcall : s.execAction a = .ok s') :
    Sound s' ∧ s'.Settled (s.noteClaim a s' claimed) := by
  have hframe : s.SameRewards s' → Sound s' ∧ s'.Settled claimed := fun hsame =>
    ⟨h.frame hsame, fun d hd => hsettled d (hsame.payoutDistribution ▸ hd)⟩
  obtain ⟨env, call⟩ := a
  cases call with
  | schedulePayoutRounds amount count period =>
    refine ⟨h.schedulePayoutRounds hG hcall, ?_⟩
    simp only [execAction, State.exec, State.schedulePayoutRounds, bind_eq_ok, okOr_eq_ok, Except.ok.injEq] at hcall
    obtain ⟨t, hhold, schedules, -, rfl⟩ := hcall
    obtain ⟨pot, -, rfl⟩ := hold_eq_some hhold
    exact hsettled
  | removePayoutSchedule index =>
    refine ⟨h.removePayoutSchedule hcall, ?_⟩
    simp only [execAction, State.exec, State.removePayoutSchedule, bind_eq_ok, okOr_eq_ok, Except.ok.injEq] at hcall
    obtain ⟨schedule, -, ⟨t, released⟩, hrelease, rfl⟩ := hcall
    obtain ⟨pot, -, rfl⟩ := release_eq_some hrelease
    exact hsettled
  | startPayoutRound =>
    obtain ⟨hsound, hfull⟩ := h.startPayoutRound hG hcall
    refine ⟨hsound, fun d hd => ?_⟩
    exact (Nat.zero_add _).trans (hfull d hd)
  | claimCredit voter =>
    obtain ⟨hsound, d, hd, hle, hpayout, -, hd'⟩ := h.claimCredit hcall
    refine ⟨hsound, fun d' hd'' => ?_⟩
    cases hd'.symm.trans hd''
    have hbefore := hsettled d hd
    show claimed + (s.pot.onHold .payout - s'.pot.onHold .payout) +
      (d.remainingBalance - s.shareOf d voter) = d.initialBalance
    omega
  | claimVotes voter caseIndices =>
    refine ⟨h.claimVotes hG hcall, ?_⟩
    simp only [execAction, State.exec, State.claimVotes, bind_eq_ok, Except.ok.injEq] at hcall
    obtain ⟨-, -, ⟨t, n⟩, hloop, rfl⟩ := hcall
    obtain ⟨votes, penalties, ht, -⟩ := foldlM_takeVote hloop
    dsimp only at ht
    subst ht
    exact hsettled
  | payoutRewards voter destination =>
    refine ⟨h.payoutRewards hcall, ?_⟩
    simp only [execAction, State.exec, State.payoutRewards, bind_eq_ok, okOr_eq_ok, Except.ok.injEq] at hcall
    obtain ⟨-, -, ⟨t, released⟩, hrelease, t', hpay, rfl⟩ := hcall
    obtain ⟨pot, -, rfl⟩ := release_eq_some hrelease
    obtain ⟨world, pot', -, rfl⟩ := payFromPot_eq_some hpay
    exact hsettled
  | cleanPoints round voter =>
    refine ⟨h.cleanPoints hcall, ?_⟩
    simp only [execAction, State.exec, State.cleanPoints, bind_eq_ok, Except.ok.injEq] at hcall
    obtain ⟨d, -, -, -, -, -, rfl⟩ := hcall
    exact hsettled
  | _ =>
    refine hframe (SameRewards.exec ?_ hcall)
    trivial

theorem sound_genesis (T : Config) (world : T.World) : Sound (genesis T world) where
  payout := rfl
  credit := rfl
  accumulated := rfl
  later := fun _ _ => rfl
  covers := fun _ h => by cases h

end State

/-- In every run of such calls what is on hold is what schedules, the running round and voters have
to get, the points of the next round are counted and those of the running one were, every claim
moves exactly its share, and the claims of a round are within its balance. -/
theorem rewards_backed {T : Config} {world : T.World} {w : State T × Nat}
    (hrun : Reaches (noting State.execAction State.noteClaim) (fun w a => w.1.Funded a)
      (State.genesis T world, 0) w) :
    w.1.Backed ∧ w.1.accumulatedPoints = w.1.points w.1.nextRound ∧
      (∀ d, w.1.payoutDistribution = some d →
        w.1.points d.round ≤ d.totalPoints ∧ w.2 ≤ d.initialBalance) ∧
      ∀ env voter s', w.1.execAction (env, .claimCredit voter) = .ok s' → w.1.PaysShare s' voter := by
  have hsound : w.1.Sound ∧ w.1.Settled w.2 := by
    refine hrun.noted (I := fun s claimed => s.Sound ∧ s.Settled claimed)
      ⟨State.sound_genesis T world, fun d hd => by cases hd⟩ ?_
    exact fun s claimed a s' ⟨hs, hsettled⟩ hG hcall => hs.exec hsettled hG hcall
  obtain ⟨hs, hsettled⟩ := hsound
  refine ⟨hs.toBacked, hs.accumulated, fun d hd => ?_, fun env voter s' hcall => (hs.claimCredit hcall).2⟩
  exact ⟨(hs.covers d hd).2.points_le, Nat.le.intro (hsettled d hd)⟩

/-- A voter is right about two cases and claims a point for each, the second while the first round runs. -/
def sampleRounds (amount count amount' count' : Nat) : List (State.Action sampleConfig) :=
  [(⟨0, 0⟩, sampleFunds), (⟨0, 0⟩, .schedulePayoutRounds amount count 5),
    (⟨0, 0⟩, .schedulePayoutRounds amount' count' 5), (⟨0, 0⟩, .judgeStatement () default ⟨1, 1⟩),
    (⟨0, 0⟩, .judgeStatement () default ⟨1, 1⟩), (⟨0, 0⟩, .vote (sampleAlias 1) 0 (.truth .true)),
    (⟨0, 0⟩, .vote (sampleAlias 2) 0 (.truth .true)), (⟨0, 0⟩, .vote (sampleAlias 1) 1 (.truth .true)),
    (⟨0, 0⟩, .intervene 0 (.truth .true)), (⟨0, 0⟩, .intervene 1 (.truth .true)),
    (⟨0, 0⟩, .claimVotes (sampleAlias 1) [0]), (⟨0, 0⟩, .claimVotes (sampleAlias 2) [0]),
    (⟨0, 0⟩, .startPayoutRound), (⟨1, 1⟩, .claimVotes (sampleAlias 1) [1])]

/-- Two voters share a round of seven, and one of them is paid its half, rounded down. -/
theorem rewards_backed_sample : ∃ w : State sampleConfig × Nat, w.1.Backed ∧
    w.1.pot.onHold .payout = 11 ∧ w.1.pot.onHold .credit = 3 ∧ w.1.accumulatedPoints = 1 := by
  obtain ⟨w, hrun, hheld⟩ := exists_reaches (noting State.execAction State.noteClaim)
    (fun w a => w.1.Funded a) (State.genesis sampleConfig (), 0)
    (sampleRounds 7 1 7 1 ++ [(⟨1, 1⟩, .claimCredit (sampleAlias 1))])
    (fun w => w.1.pot.onHold .payout = 11 ∧ w.1.pot.onHold .credit = 3 ∧ w.1.accumulatedPoints = 1)
    (by decide +kernel)
  exact ⟨w, (rewards_backed hrun).1, hheld⟩

/-- A schedule for no round starts a round all the same, with nothing on hold for it. -/
theorem rewards_backed_fails : ∃ s : State sampleConfig,
    Reaches State.execAction (fun _ _ => True) (State.genesis sampleConfig ()) s ∧
      s.pot.onHold .payout ≠ s.scheduled + s.distributing :=
  exists_reaches State.execAction (fun _ _ => True) (State.genesis sampleConfig ())
    (sampleRounds 10 1 3 0 ++ [(⟨5, 5⟩, .startPayoutRound)]) _ (by decide +kernel)

end Individuality.MobRule
