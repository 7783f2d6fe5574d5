import Individuality.Score.Calls

/-! Every payout and every credit is backed by the pot.

What the pot has on hold for payouts is what the schedules still have to pay, what
the current round is planned to pay and what the rounds being paid out have left;
what it has on hold for credit is what participants are owed (`Backed`). Rewards
are rounded down, so a round keeps enough for the points that it has not drained
yet (`Covers`), and that carries the books through a payout.

They do not always balance. A schedule may be for no round at all, and its amount
is planned without having been put on hold; an amount may overflow and be held
only in part; a participant that is offboarded leaves its credit on hold; and a
round whose payout fails is given up with its funds still on hold. `Balancing`
excludes those steps, and `pot_backed` is the claim for the runs without them. -/
namespace Individuality.Score
open Support

/-- What a schedule still has to pay. -/
def PayoutSchedule.total (schedule : PayoutSchedule) : Nat :=
  schedule.remaining * schedule.amountPerRound

/-! ### What a round has left -/

/-- A round being paid out can still pay for `points`, having `balance` left. -/
structure RoundPayout.Covers (round : RoundPayout) (balance points : Nat) : Prop where
  points_le : points ≤ round.totalPoints
  total_le : round.totalPoints ≤ U32.max
  remainder_le : points ≠ 0 → round.remainder ≤ round.totalPoints
  balance_le : round.pointPrice * points + round.remainder * points / round.totalPoints ≤ balance

namespace RoundPayout
variable {round : RoundPayout} {balance points : Nat}

/-- A round that has just ended covers all its points. -/
theorem covers_ofRound {credit : Nat} (hcredit : credit ≤ U128.max) (hpoints : points ≤ U32.max) :
    (ofRound credit points).Covers credit points := by
  have hprice : credit / points * points ≤ credit := Nat.div_mul_le_self credit points
  have hmul : U128.saturatingMul (credit / points) points = credit / points * points :=
    U128.saturatingMul_eq (hprice.trans hcredit)
  have hremainder : (ofRound credit points).remainder = credit - credit / points * points :=
    congrArg (credit - ·) hmul
  refine ⟨Nat.le_refl _, hpoints, fun hne => ?_, ?_⟩
  · have hmod := Nat.mod_lt credit (Nat.pos_of_ne_zero hne)
    have hdiv := Nat.div_add_mod' credit points
    rw [hremainder]
    show credit - credit / points * points ≤ points
    omega
  · rw [hremainder]
    show credit / points * points + (credit - credit / points * points) * points / points ≤ credit
    rcases Nat.eq_zero_or_pos points with rfl | hpos
    · simp
    · rw [Nat.mul_div_cancel _ hpos]
      omega

/-- The reward of some of the points, where nothing overflows. -/
theorem Covers.reward_eq (h : round.Covers balance points) (hbalance : balance ≤ U128.max) {n : Nat}
    (hn : n ≤ points) :
    round.reward n = round.pointPrice * n + round.remainder * n / round.totalPoints := by
  have hprice : round.pointPrice * n ≤ round.pointPrice * points := Nat.mul_le_mul_left _ hn
  have hshare : round.remainder * n / round.totalPoints ≤
      round.remainder * points / round.totalPoints :=
    Nat.div_le_div_right (Nat.mul_le_mul_left _ hn)
  have hle := h.balance_le
  have hremainder : round.remainder * n ≤ U128.max := by
    rcases Nat.eq_zero_or_pos n with rfl | hpos
    · exact Nat.zero_le _
    · calc round.remainder * n
          ≤ round.totalPoints * round.totalPoints :=
            Nat.mul_le_mul (h.remainder_le (by omega)) (hn.trans h.points_le)
        _ ≤ U32.max * U32.max := Nat.mul_le_mul h.total_le h.total_le
        _ ≤ U128.max := by decide
  have hmax := hle.trans hbalance
  have hmul : round.pointPrice * n ≤ U128.max := hprice.trans ((Nat.le_add_right _ _).trans hmax)
  rw [reward, U128.saturatingMul_eq hmul, U128.saturatingMul_eq hremainder]
  exact U128.saturatingAdd_eq ((Nat.add_le_add hprice hshare).trans hmax)

/-- Paying for some of the points leaves enough for the others. -/
theorem Covers.pay (h : round.Covers balance points) (hbalance : balance ≤ U128.max) {n : Nat}
    (hn : n ≤ points) :
    round.reward n ≤ balance ∧ round.Covers (balance - round.reward n) (points - n) := by
  have hsplit : n + (points - n) = points := by omega
  have hfloor : round.remainder * n / round.totalPoints +
      round.remainder * (points - n) / round.totalPoints ≤ round.remainder * points / round.totalPoints := by
    conv_rhs => rw [← hsplit, Nat.mul_add]
    exact Nat.div_add_div_le_add_div
  have hprice : round.pointPrice * n + round.pointPrice * (points - n) = round.pointPrice * points := by
    rw [← Nat.mul_add, hsplit]
  have hle := h.balance_le
  have hreward := h.reward_eq hbalance hn
  generalize round.remainder * n / round.totalPoints = share at hfloor hreward
  generalize hrest : round.remainder * (points - n) / round.totalPoints = rest at hfloor
  refine ⟨by omega, (Nat.sub_le _ _).trans h.points_le, h.total_le, ?_, ?_⟩
  · exact fun hne => h.remainder_le (by omega)
  · rw [hrest]
    omega

/-- Points that are not paid for leave more than enough. -/
theorem Covers.drop (h : round.Covers balance points) {n : Nat} (hn : n ≤ points) :
    round.Covers balance n := by
  refine ⟨hn.trans h.points_le, h.total_le, fun hne => h.remainder_le (by omega), ?_⟩
  exact (Nat.add_le_add (Nat.mul_le_mul_left _ hn)
    (Nat.div_le_div_right (Nat.mul_le_mul_left _ hn))).trans h.balance_le

end RoundPayout

namespace State
variable {T : Config}

/-! ### The books -/

/-- What the schedules still have to pay. -/
def scheduled (s : State T) : Nat := (s.roundSchedules.toList.map PayoutSchedule.total).sum

/-- What the current round is planned to pay. -/
def planned (s : State T) : Nat := (s.roundPlanning.map RoundInfo.credit).getD 0

/-- What the rounds being paid out have left. -/
def payingOut (s : State T) : Nat := s.roundPayouts.sumOf RoundPayout.remainingBalance

/-- What participants are owed. -/
def owed (s : State T) : Nat := s.store.participants.sumOf Participant.credit

/-- The points of a round that are not paid out. -/
def points (s : State T) (roundIndex : RoundIndex) : Nat :=
  (s.roundsPointsForParticipant roundIndex).sumOf id

/-- What is on hold is what is promised. -/
structure Backed (s : State T) : Prop where
  payout : s.pot.onHold .payout = s.scheduled + s.planned + s.payingOut
  credit : s.pot.onHold .credit = s.owed

/-- The books balance, and every round can pay for its points. -/
structure Sound (s : State T) : Prop extends Backed s where
  currentPoints : s.points s.currentRoundIndex = s.currentRoundPoints
  currentPoints_le : s.currentRoundPoints ≤ U32.max
  notPaying : s.roundPayouts.get s.currentRoundIndex = none
  covers : ∀ r round, s.roundPayouts.get r = some round →
    round.Covers round.remainingBalance (s.points r)

/-! ### Draining a round -/

/-- Nothing differs but the participants and the points of a round. -/
def SameButDrained (s : State T) (r : RoundIndex) (t : State T) : Prop :=
  ∃ participants points, t = { s with
    store := { s.store with participants := participants }
    roundsPointsForParticipant := Function.update s.roundsPointsForParticipant r points }

theorem SameButDrained.putPoints {s t : State T} {r : RoundIndex} (h : SameButDrained s r t)
    (points : StorageMap T.Who Nat) : SameButDrained s r (t.putPoints r points) := by
  obtain ⟨participants, -, rfl⟩ := h
  exact ⟨participants, points, by simp only [State.putPoints, Function.update_idem]⟩

theorem SameButDrained.putParticipant {s t : State T} {r : RoundIndex} (h : SameButDrained s r t)
    (who : T.Who) (participant : Participant) : SameButDrained s r (t.putParticipant who participant) := by
  obtain ⟨participants, points, rfl⟩ := h
  exact ⟨participants.insert who participant, points, rfl⟩

/-- A call has drained some of a round's points and credited `w.2` for them. -/
structure Draining (s : State T) (r : RoundIndex) (round : RoundPayout) (w : State T × Nat) : Prop where
  rest : SameButDrained s r w.1
  owed : w.1.owed = s.owed + w.2
  credited_le : w.2 ≤ round.remainingBalance
  covers : round.Covers (round.remainingBalance - w.2) (w.1.points r)

theorem points_putPoints (s : State T) (r : RoundIndex) (points : StorageMap T.Who Nat) :
    (s.putPoints r points).points r = points.sumOf id := by
  simp only [State.points, putPoints, Function.update_self]

theorem points_putPoints_of_ne (s : State T) {r r' : RoundIndex} (h : r' ≠ r)
    (points : StorageMap T.Who Nat) : (s.putPoints r points).points r' = s.points r' := by
  simp only [State.points, putPoints, Function.update_of_ne h]

theorem owed_putParticipant (s : State T) (who : T.Who) (participant : Participant) :
    (s.putParticipant who participant).owed + s.store.participants.measureAt Participant.credit who =
      s.owed + participant.credit :=
  s.store.participants.sumOf_insert Participant.credit who participant

/-- Taking a participant's points away leaves the others'. -/
theorem points_take (s : State T) (r : RoundIndex) (who : T.Who) :
    (s.putPoints r ((s.roundsPointsForParticipant r).remove who)).points r +
      ((s.roundsPointsForParticipant r).get who).getD 0 = s.points r := by
  rw [points_putPoints]
  have h := (s.roundsPointsForParticipant r).sumOf_remove id who
  rwa [StorageMap.measureAt, Option.map_id_fun, id_eq] at h

theorem Draining.drainPoints {s : State T} {r : RoundIndex} {round : RoundPayout} {w : State T × Nat}
    (h : Draining s r round w) (hmax : s.owed + round.remainingBalance ≤ U128.max) (who : T.Who) :
    Draining s r round (drainPoints r round w who) := by
  obtain ⟨t, credited⟩ := w
  obtain ⟨hrest, howed, hcredited, hcovers⟩ := h
  dsimp only at hrest howed hcredited hcovers
  have hrest' := hrest.putPoints ((t.roundsPointsForParticipant r).remove who)
  have hpoints := points_take t r who
  have howed' : (t.putPoints r ((t.roundsPointsForParticipant r).remove who)).owed = t.owed := rfl
  simp only [State.drainPoints]
  generalize t.putPoints r ((t.roundsPointsForParticipant r).remove who) = u at *
  generalize ((t.roundsPointsForParticipant r).get who).getD 0 = n at *
  have hle : n ≤ t.points r := (Nat.le_add_left _ _).trans hpoints.le
  have hleft : u.points r = t.points r - n := by omega
  cases hp : u.store.participants.get who with
  | none =>
    refine ⟨hrest', howed'.trans howed, hcredited, ?_⟩
    show round.Covers (round.remainingBalance - credited) (u.points r)
    rw [hleft]
    exact hcovers.drop (Nat.sub_le _ _)
  | some participant =>
    obtain ⟨hreward, hcovers'⟩ := hcovers.pay (by omega) hle
    -- The participant's credit is part of what is owed, so nothing overflows.
    have hcredit : participant.credit ≤ u.owed := by
      have := u.store.participants.measureAt_le_sumOf Participant.credit who
      rwa [StorageMap.measureAt, hp] at this
    have hnew : U128.saturatingAdd participant.credit (round.reward n) =
        participant.credit + round.reward n := U128.saturatingAdd_eq (by omega)
    have hacc : U128.saturatingAdd credited (round.reward n) = credited + round.reward n :=
      U128.saturatingAdd_eq (by omega)
    have howe := owed_putParticipant u who { participant with
      credit := participant.credit + round.reward n }
    rw [StorageMap.measureAt, hp] at howe
    simp only [Option.map_some, Option.getD_some] at howe
    simp only [hnew, hacc]
    refine ⟨hrest'.putParticipant who _, by dsimp only; omega, by dsimp only; omega, ?_⟩
    show round.Covers (round.remainingBalance - (credited + round.reward n)) (u.points r)
    rw [hleft, ← Nat.sub_sub]
    exact hcovers'

/-- The loop: whoever a call drains, it can pay. -/
theorem draining_foldl {s : State T} {r : RoundIndex} {round : RoundPayout}
    (hmax : s.owed + round.remainingBalance ≤ U128.max)
    (hcovers : round.Covers round.remainingBalance (s.points r)) (drained : List T.Who) :
    Draining s r round (drained.foldl (State.drainPoints r round) (s, 0)) := by
  have hstart : Draining s r round (s, 0) := by
    refine ⟨⟨s.store.participants, s.roundsPointsForParticipant r, ?_⟩, rfl, Nat.zero_le _, hcovers⟩
    rw [Function.update_eq_self]
  induction drained using List.reverseRecOn with
  | nil => exact hstart
  | append_singleton done who ih =>
    rw [List.foldl_append, List.foldl_cons, List.foldl_nil]
    exact ih.drainPoints hmax who

/-! ### Paying a round out -/

/-- What a payout that succeeds leaves: credit is moved from one hold to the other, and what is left
at the end is released. -/
structure Paid (s : State T) (r : RoundIndex) (round : RoundPayout) (s' : State T) : Prop where
  rest : ∃ t pot roundPayouts, SameButDrained s r t ∧
    s' = { t with pot := pot, roundPayouts := roundPayouts }
  credit : s'.pot.onHold .credit + s.owed = s.pot.onHold .credit + s'.owed
  payout : s'.pot.onHold .payout + s.payingOut = s.pot.onHold .payout + s'.payingOut
  others : ∀ r', r' ≠ r → s'.roundPayouts.get r' = s.roundPayouts.get r'
  covers : ∀ round', s'.roundPayouts.get r = some round' →
    round'.Covers round'.remainingBalance (s'.points r)

theorem payRound_spec {s s' : State T} {r : RoundIndex} {round : RoundPayout} {limit : Nat}
    (hget : s.roundPayouts.get r = some round)
    (hmax : s.owed + round.remainingBalance ≤ U128.max)
    (hcovers : round.Covers round.remainingBalance (s.points r))
    (h : s.payRound r round limit = some s') : Paid s r round s' := by
  have hdrain := draining_foldl hmax hcovers (s.drained r limit)
  unfold payRound at h
  generalize (s.drained r limit).foldl (State.drainPoints r round) (s, 0) = w at h hdrain
  obtain ⟨t, credited⟩ := w
  obtain ⟨hrest, howed, hle, hcovers'⟩ := hdrain
  dsimp only at hrest howed hle hcovers' h
  simp only [bind, Option.bind_eq_some_iff] at h
  obtain ⟨⟨t₁, released⟩, hrelease, t₂, hhold, h⟩ := h
  obtain ⟨pot₁, hpot₁, rfl⟩ := release_eq_some hrelease
  obtain ⟨pot₂, hpot₂, rfl⟩ := hold_eq_some hhold
  obtain ⟨-, hall, hpayout₁, hcredit₁⟩ := Pot.onHold_release hpot₁
  obtain ⟨hcredit₂, hpayout₂⟩ := Pot.onHold_hold hpot₂
  have hpot : t.pot = s.pot := by
    obtain ⟨_, _, rfl⟩ := hrest
    rfl
  have hpayouts : t.roundPayouts = s.roundPayouts := by
    obtain ⟨_, _, rfl⟩ := hrest
    rfl
  have hreleased := hall rfl
  have hcredit := hcredit₁ .credit (by decide)
  have hpayout := hpayout₂ .payout (by decide)
  rw [hpot] at hpayout₁ hcredit
  dsimp only at hcredit₂ hpayout h
  have hmeasure : s.roundPayouts.measureAt RoundPayout.remainingBalance r = round.remainingBalance := by
    rw [StorageMap.measureAt, hget]
    rfl
  split at h
  · obtain ⟨⟨t₃, recycled⟩, hrecycle, h⟩ := Option.bind_eq_some_iff.mp h
    cases h
    obtain ⟨pot₃, hpot₃, rfl⟩ := release_eq_some hrecycle
    obtain ⟨-, hall₃, hpayout₃, hcredit₃⟩ := Pot.onHold_release hpot₃
    have hrecycled := hall₃ rfl
    have hcredit' := hcredit₃ .credit (by decide)
    have hsum := s.roundPayouts.sumOf_remove RoundPayout.remainingBalance r
    dsimp only at hpayout₃ hcredit'
    refine ⟨⟨t, pot₃, t.roundPayouts.remove r, hrest, rfl⟩, ?_, ?_, ?_, ?_⟩
    · show pot₃.onHold .credit + s.owed = s.pot.onHold .credit + t.owed
      omega
    · show pot₃.onHold .payout + s.roundPayouts.sumOf _ =
        s.pot.onHold .payout + (t.roundPayouts.remove r).sumOf _
      rw [hpayouts]
      omega
    · intro r' hr'
      show (t.roundPayouts.remove r).get r' = _
      rw [hpayouts, StorageMap.get_remove, if_neg hr']
    · intro round' hround'
      rw [show (_ : State T).roundPayouts.get r = (t.roundPayouts.remove r).get r from rfl,
        StorageMap.get_remove, if_pos rfl] at hround'
      cases hround'
  · cases h
    have hsum := s.roundPayouts.sumOf_insert RoundPayout.remainingBalance r
      { round with remainingBalance := round.remainingBalance - credited }
    dsimp only at hsum
    refine ⟨⟨t, pot₂, _, hrest, rfl⟩, ?_, ?_, ?_, ?_⟩
    · show pot₂.onHold .credit + s.owed = s.pot.onHold .credit + t.owed
      omega
    · show pot₂.onHold .payout + s.roundPayouts.sumOf _ =
        s.pot.onHold .payout + (t.roundPayouts.insert r _).sumOf _
      rw [hpayouts]
      omega
    · intro r' hr'
      show (t.roundPayouts.insert r _).get r' = _
      rw [hpayouts, StorageMap.get_insert, if_neg hr']
    · intro round' hround'
      rw [show (_ : State T).roundPayouts.get r = (t.roundPayouts.insert r _).get r from rfl,
        StorageMap.get_insert, if_pos rfl] at hround'
      cases hround'
      exact ⟨hcovers'.points_le, hcovers'.total_le, hcovers'.remainder_le, hcovers'.balance_le⟩

/-! ### What each call keeps -/

section Calls
variable {s s' : State T}

theorem Sound.payout_le (h : Sound s) : s.scheduled + s.planned + s.payingOut + s.owed ≤ U128.max := by
  have hpot := s.pot.onHold_le
  rw [h.payout, h.credit] at hpot
  exact hpot

/-- Where participants are owed as much and as much is on hold, the books stay as they are. -/
theorem Sound.sameBooks (h : Sound s) {store : Store T.AccountId} {pot : Pot} (world : T.World)
    (howed : store.participants.sumOf Participant.credit = s.owed)
    (hpot : ∀ reason, pot.onHold reason = s.pot.onHold reason) :
    Sound { s with store := store, pot := pot, world := world } where
  payout := (hpot .payout).trans h.payout
  credit := ((hpot .credit).trans h.credit).trans howed.symm
  currentPoints := h.currentPoints
  currentPoints_le := h.currentPoints_le
  notPaying := h.notPaying
  covers := h.covers

theorem Sound.schedulePayoutRounds (h : Sound s) {amount count duration : Nat}
    (hfits : amount * count ≤ U128.max) (hcall : s.schedulePayoutRounds amount count duration = .ok s') :
    Sound s' := by
  simp only [State.schedulePayoutRounds, bind_eq_ok, okOr_eq_ok, Except.ok.injEq] at hcall
  obtain ⟨t, hhold, schedules, hpush, rfl⟩ := hcall
  obtain ⟨pot, hpot, rfl⟩ := hold_eq_some hhold
  obtain ⟨hpayout, hcredit⟩ := Pot.onHold_hold hpot
  rw [U128.saturatingMul_eq hfits] at hpayout
  rw [BoundedVec.tryPush_eq_some] at hpush
  refine ⟨⟨?_, (hcredit .credit (by decide)).trans h.credit⟩, h.currentPoints, h.currentPoints_le,
    h.notPaying, h.covers⟩
  have hscheduled : (schedules.toList.map PayoutSchedule.total).sum = s.scheduled + amount * count := by
    rw [hpush, List.map_append, List.sum_append, Nat.mul_comm amount]
    rfl
  show pot.onHold .payout = _ + s.planned + s.payingOut
  have := h.payout
  rw [State.scheduled, hscheduled]
  omega

theorem Sound.removePayoutSchedule (h : Sound s) {index : Nat}
    (hcall : s.removePayoutSchedule index = .ok s') : Sound s' := by
  simp only [State.removePayoutSchedule, bind_eq_ok, okOr_eq_ok, Except.ok.injEq] at hcall
  obtain ⟨schedule, hget, ⟨t, released⟩, hrelease, rfl⟩ := hcall
  obtain ⟨pot, hpot, rfl⟩ := release_eq_some hrelease
  obtain ⟨hreleased, -, hpayout, hcredit⟩ := Pot.onHold_release hpot
  refine ⟨⟨?_, (hcredit .credit (by decide)).trans h.credit⟩, h.currentPoints, h.currentPoints_le,
    h.notPaying, h.covers⟩
  have hsum := BoundedVec.sum_map_remove hget PayoutSchedule.total
  rw [PayoutSchedule.total, Nat.mul_comm] at hsum
  have hpaid := h.payout
  have hmax := h.payout_le
  have hscheduled : s.scheduled = (s.roundSchedules.toList.map PayoutSchedule.total).sum := rfl
  rw [U128.saturatingMul_eq (by omega)] at hreleased
  show pot.onHold .payout = ((s.roundSchedules.remove index).toList.map _).sum + s.planned + s.payingOut
  omega

/-! The next round. -/

theorem Sound.finishRound (h : Sound s)
    (hnext : s.roundPlanning.isSome = true →
      s.roundPayouts.get s.nextRoundIndex = none ∧ s.points s.nextRoundIndex = 0)
    (hne : s.nextRoundIndex ≠ s.currentRoundIndex) : Sound s.finishRound := by
  unfold State.finishRound
  cases hplan : s.roundPlanning with
  | none => exact h
  | some round =>
    obtain ⟨hfree, hempty⟩ := hnext (by rw [hplan]; rfl)
    have hmax := h.payout_le
    have hplanned : s.planned = round.credit := by rw [State.planned, hplan]; rfl
    have hsum := s.roundPayouts.sumOf_insert RoundPayout.remainingBalance s.currentRoundIndex
      (.ofRound round.credit s.currentRoundPoints)
    rw [StorageMap.measureAt, h.notPaying] at hsum
    refine ⟨⟨?_, h.credit⟩, hempty, Nat.zero_le _, ?_, ?_⟩
    · have hpayout := h.payout
      have hbalance : (RoundPayout.ofRound round.credit s.currentRoundPoints).remainingBalance =
        round.credit := rfl
      have hpaying : s.payingOut = s.roundPayouts.sumOf RoundPayout.remainingBalance := rfl
      show s.pot.onHold .payout = s.scheduled + 0 + (s.roundPayouts.insert _ _).sumOf _
      simp only [Option.map_none, Option.getD_none] at hsum
      omega
    · show (s.roundPayouts.insert _ _).get s.nextRoundIndex = none
      rw [StorageMap.get_insert, if_neg hne]
      exact hfree
    · intro r round' hround'
      dsimp only at hround'
      rw [StorageMap.get_insert] at hround'
      split at hround'
      · rename_i hr
        cases hround'
        show (RoundPayout.ofRound round.credit s.currentRoundPoints).Covers round.credit (s.points r)
        rw [hr, h.currentPoints]
        exact RoundPayout.covers_ofRound (by omega) h.currentPoints_le
      · exact h.covers r round' hround'

theorem Sound.planRound (h : Sound s) (hplan : s.planned = 0) (block : Nat)
    (hfirst : ∀ first ∈ s.roundSchedules.toList.head?,
      first.remaining ≠ 0 ∨ first.amountPerRound = 0) : Sound (s.planRound block) := by
  unfold State.planRound
  cases hhead : s.roundSchedules.toList.head? with
  | none => exact h
  | some first =>
    have hget : s.roundSchedules.toList[0]? = some first := List.head?_eq_getElem?.symm.trans hhead
    refine ⟨⟨?_, h.credit⟩, h.currentPoints, h.currentPoints_le, h.notPaying, h.covers⟩
    have hpayout := h.payout
    have hscheduled : s.scheduled = (s.roundSchedules.toList.map PayoutSchedule.total).sum := rfl
    -- What is planned is what the schedule no longer has to pay.
    have hone : (first.remaining - 1) * first.amountPerRound + first.amountPerRound = first.total := by
      rcases hfirst first hhead with hne | hzero
      · rw [← Nat.succ_mul, Nat.succ_eq_add_one, Nat.sub_add_cancel (Nat.pos_of_ne_zero hne)]
        rfl
      · rw [PayoutSchedule.total, hzero]
        rfl
    show s.pot.onHold .payout = (BoundedVec.toList (if first.remaining - 1 = 0 then s.roundSchedules.remove 0
      else s.roundSchedules.set 0 { first with remaining := first.remaining - 1 }) |>.map
        PayoutSchedule.total).sum + first.amountPerRound + s.payingOut
    split
    · rename_i hzero
      have := BoundedVec.sum_map_remove hget PayoutSchedule.total
      rw [hzero] at hone
      omega
    · have := BoundedVec.sum_map_set hget { first with remaining := first.remaining - 1 }
        PayoutSchedule.total
      simp only [PayoutSchedule.total] at this hone ⊢
      omega

theorem succ_mod_ne (n : Nat) : (n + 1) % (U32.max + 1) ≠ n := by
  unfold U32.max
  omega

theorem nextRoundIndex_ne (s : State T) : s.nextRoundIndex ≠ s.currentRoundIndex :=
  succ_mod_ne s.currentRoundIndex

/-- The step from one round to the next keeps the books unless the first schedule is for no round,
or the index of the next round is in use still. -/
def StartsClean (s : State T) : Prop :=
  (∀ first ∈ s.roundSchedules.toList.head?, first.remaining ≠ 0 ∨ first.amountPerRound = 0) ∧
    s.roundPayouts.get s.nextRoundIndex = none ∧
    (s.roundsPointsForParticipant s.nextRoundIndex).isEmpty = true

theorem Sound.transitionRound (h : Sound s) {block : Nat} {roundIndex : RoundIndex}
    (hclean : s.roundPlanning.isSome = true → s.StartsClean)
    (hcall : s.transitionRound block roundIndex = .ok s') : Sound s' := by
  simp only [State.transitionRound, bind_eq_ok, ensure_eq_ok, exists_const, Except.ok.injEq] at hcall
  obtain ⟨hvalid, rfl⟩ := hcall
  have hfinished : Sound s.finishRound := by
    refine h.finishRound (fun hplan => ?_) s.nextRoundIndex_ne
    obtain ⟨-, hfree, hempty⟩ := hclean hplan
    exact ⟨hfree, StorageMap.sumOf_of_get_none ((StorageMap.isEmpty_iff _).mp hempty) id⟩
  cases hplan : s.roundPlanning with
  | none =>
    have heq : s.finishRound = s := by simp only [State.finishRound, hplan]
    rw [heq]
    refine h.planRound (by rw [State.planned, hplan]; rfl) block fun first hfirst => .inl ?_
    simp only [State.validateTransitionRound, hplan, Bool.and_eq_true] at hvalid
    rw [Option.mem_def.mp hfirst, Option.any_some] at hvalid
    exact Nat.pos_iff_ne_zero.mp (of_decide_eq_true hvalid.2)
  | some round =>
    have heq : s.finishRound.roundPlanning = none ∧ s.finishRound.roundSchedules = s.roundSchedules := by
      simp only [State.finishRound, hplan, and_self]
    refine hfinished.planRound (by rw [State.planned, heq.1]; rfl) block ?_
    rw [heq.2]
    exact (hclean (by rw [hplan]; rfl)).1

/-! Paying out. -/

theorem Sound.of_paid (h : Sound s) {r : RoundIndex} {round : RoundPayout}
    (hget : s.roundPayouts.get r = some round) (hpaid : Paid s r round s') : Sound s' := by
  have hr : r ≠ s.currentRoundIndex := by
    rintro rfl
    rw [h.notPaying] at hget
    cases hget
  obtain ⟨⟨t, pot, roundPayouts, ⟨participants, points, rfl⟩, rfl⟩, hcredit, hpayout, hothers, hcovers⟩ :=
    hpaid
  have hpoints : ∀ r', r' ≠ r → Function.update s.roundsPointsForParticipant r points r' =
      s.roundsPointsForParticipant r' := fun r' hr' => by rw [Function.update_of_ne hr']
  have hcredit' : pot.onHold .credit + s.owed =
    s.pot.onHold .credit + participants.sumOf Participant.credit := hcredit
  have hpayout' : pot.onHold .payout + s.payingOut =
    s.pot.onHold .payout + roundPayouts.sumOf RoundPayout.remainingBalance := hpayout
  have hbacked := h.payout
  have howed := h.credit
  refine ⟨⟨?_, ?_⟩, ?_, h.currentPoints_le, ?_, ?_⟩
  · show pot.onHold .payout = s.scheduled + s.planned + roundPayouts.sumOf RoundPayout.remainingBalance
    omega
  · show pot.onHold .credit = participants.sumOf Participant.credit
    omega
  · show (Function.update s.roundsPointsForParticipant r points s.currentRoundIndex).sumOf id = _
    rw [hpoints _ hr.symm]
    exact h.currentPoints
  · exact (hothers s.currentRoundIndex hr.symm).trans h.notPaying
  · intro r' round' hround'
    by_cases hr' : r' = r
    · rw [hr'] at hround' ⊢
      exact hcovers round' hround'
    · show round'.Covers _ ((Function.update s.roundsPointsForParticipant r points r').sumOf id)
      rw [hpoints r' hr']
      exact h.covers r' round' ((hothers r' hr').symm.trans hround')

theorem Sound.operatePayoutRound (h : Sound s) {r : RoundIndex} {limit : Nat}
    (hpays : ∀ round ∈ s.roundPayouts.get r, round.remainingBalance ≠ 0 →
      (s.payRound r round limit).isSome = true)
    (hcall : s.operatePayoutRound r limit = .ok s') : Sound s' := by
  simp only [State.operatePayoutRound, bind_eq_ok, okOr_eq_ok, Except.ok.injEq] at hcall
  obtain ⟨round, hget, rfl⟩ := hcall
  have hsum := s.roundPayouts.sumOf_remove RoundPayout.remainingBalance r
  rw [StorageMap.measureAt, hget, Option.map_some, Option.getD_some] at hsum
  have hmax := h.payout_le
  cases hpay : s.payRound r round limit with
  | some s' =>
    rw [Option.getD_some]
    refine h.of_paid hget (payRound_spec hget ?_ (h.covers r round hget) hpay)
    have hpaying : s.payingOut = s.roundPayouts.sumOf RoundPayout.remainingBalance := rfl
    omega
  | none =>
    have hzero : round.remainingBalance = 0 := by
      by_contra hne
      have := hpays round hget hne
      rw [hpay] at this
      cases this
    rw [hzero] at hsum
    rw [Option.getD_none]
    refine ⟨⟨?_, h.credit⟩, h.currentPoints, h.currentPoints_le, ?_, ?_⟩
    · exact h.payout.trans (congrArg (s.scheduled + s.planned + ·) hsum.symm)
    · show (s.roundPayouts.remove r).get _ = none
      rw [StorageMap.get_remove, h.notPaying, ite_self]
    · intro r' round' hround'
      dsimp only at hround'
      rw [StorageMap.get_remove] at hround'
      split at hround'
      · cases hround'
      · exact h.covers r' round' hround'

/-! Points and credit. -/

theorem Sound.awardParticipantPayoutPoints (h : Sound s) (who : T.Who) (points : Nat) :
    Sound (s.awardParticipantPayoutPoints who points) := by
  unfold State.awardParticipantPayoutPoints
  split
  · exact h
  split
  · rename_i hfits
    have hcurrent : (s.roundsPointsForParticipant s.currentRoundIndex).sumOf id = s.currentRoundPoints :=
      h.currentPoints
    have hsum := (s.roundsPointsForParticipant s.currentRoundIndex).sumOf_insert id who
      (((s.roundsPointsForParticipant s.currentRoundIndex).get who).getD 0 + points)
    have hle := (s.roundsPointsForParticipant s.currentRoundIndex).measureAt_le_sumOf id who
    rw [StorageMap.measureAt, Option.map_id_fun, id_eq] at hle hsum
    dsimp only
    rw [U32.saturatingAdd_eq (by omega)]
    have hnew : ((s.roundsPointsForParticipant s.currentRoundIndex).insert who
        (((s.roundsPointsForParticipant s.currentRoundIndex).get who).getD 0 + points)).sumOf id =
          s.currentRoundPoints + points := by
      rw [id_eq] at hsum
      omega
    refine ⟨⟨h.payout, h.credit⟩, (points_putPoints s _ _).trans hnew, hfits, h.notPaying, ?_⟩
    · intro r round hround
      have hr : r ≠ s.currentRoundIndex := by
        rintro rfl
        exact absurd (hround.symm.trans h.notPaying) (by simp)
      have hcovers := h.covers r round hround
      rwa [← points_putPoints_of_ne s hr] at hcovers
  · exact h

/-- What is owed to a participant whose record changes but for its credit is the same. -/
theorem sumOf_credit_insert {participants : StorageMap T.Who Participant} {who : T.Who}
    {p p' : Participant} (hget : participants.get who = some p) (hcredit : p'.credit = p.credit) :
    (participants.insert who p').sumOf Participant.credit = participants.sumOf Participant.credit := by
  have h := participants.sumOf_insert Participant.credit who p'
  rw [StorageMap.measureAt, hget, Option.map_some, Option.getD_some, hcredit] at h
  exact Nat.add_right_cancel h

theorem Sound.cashOut (h : Sound s) {who : T.AccountId} (hcall : s.cashOut who = .ok s') : Sound s' := by
  simp only [State.cashOut, bind_eq_ok, okOr_eq_ok, ensure_eq_ok, exists_const, Except.ok.injEq] at hcall
  obtain ⟨p, hget, -, -, rfl⟩ := hcall
  have hsound := h.awardParticipantPayoutPoints (.account who) (U32.saturatingAdd p.score 1 / 2)
  have hstore : (s.awardParticipantPayoutPoints (.account who) (U32.saturatingAdd p.score 1 / 2)).store =
      s.store := by
    unfold State.awardParticipantPayoutPoints
    split
    · rfl
    · split <;> rfl
  generalize s.awardParticipantPayoutPoints (.account who) (U32.saturatingAdd p.score 1 / 2) = t at *
  rw [← hstore] at hget
  exact hsound.sameBooks t.world (sumOf_credit_insert hget rfl) fun _ => rfl

theorem Sound.redeemCredit (h : Sound s) {who : T.Who} {destination : T.AccountId}
    (hcall : s.redeemCredit who destination = .ok s') : Sound s' := by
  simp only [State.redeemCredit, bind_eq_ok, okOr_eq_ok, ensure_eq_ok, exists_const, Except.ok.injEq]
    at hcall
  obtain ⟨p, hget, -, ⟨t, released⟩, hrelease, u, hpay, rfl⟩ := hcall
  obtain ⟨pot, hpot, rfl⟩ := release_eq_some hrelease
  obtain ⟨pot', world, hpot', rfl⟩ := payFromPot_eq_some hpay
  obtain ⟨-, hall, hcredit, hothers⟩ := Pot.onHold_release hpot
  have howed := owed_putParticipant s who { p with credit := 0 }
  rw [StorageMap.measureAt, hget, Option.map_some, Option.getD_some] at howed
  have hreleased := hall rfl
  refine ⟨⟨?_, ?_⟩, h.currentPoints, h.currentPoints_le, h.notPaying, h.covers⟩
  · exact ((hpot' .payout).trans (hothers .payout (by decide))).trans h.payout
  · have hheld := hpot' .credit
    have hcovered := h.credit
    dsimp only at hheld howed
    show pot'.onHold .credit = (s.putParticipant who { p with credit := 0 }).owed
    omega

/-! Participants. -/

theorem Sound.register (h : Sound s) {who : T.AccountId} {key : Option (T.Member × T.Signature)}
    (hcall : s.register who key = .ok s') : Sound s' := by
  simp only [State.register, bind_eq_ok, okOr_eq_ok, ensure_eq_ok, exists_const, Except.ok.injEq] at hcall
  obtain ⟨p, hget, -, ⟨world, id⟩, -, rfl⟩ := hcall
  exact h.sameBooks world (sumOf_credit_insert hget rfl) fun _ => rfl

theorem Sound.setAttendance (h : Sound s) {who : T.Who} {attended : Bool} {gameIndex : Nat}
    (hcall : s.setAttendance who attended gameIndex = .ok s') : Sound s' := by
  unfold State.setAttendance at hcall
  split at hcall
  · rename_i store world p' hset
    cases hcall
    obtain ⟨p, hget, rfl, rfl, -⟩ := Store.setAttendance_eq_ok hset
    exact h.sameBooks world (sumOf_credit_insert hget Store.credit_afterAttendance) fun _ => rfl
  · cases hcall

/-- A participant that is new is owed nothing. -/
theorem sumOf_credit_insert_new {participants : StorageMap T.Who Participant} {who : T.Who}
    {p : Participant} (hnew : participants.contains who = false) (hcredit : p.credit = 0) :
    (participants.insert who p).sumOf Participant.credit = participants.sumOf Participant.credit := by
  have h := participants.sumOf_insert Participant.credit who p
  rw [StorageMap.contains, Option.isSome_eq_false_iff, Option.isNone_iff_eq_none] at hnew
  rw [StorageMap.measureAt, hnew, hcredit] at h
  exact Nat.add_right_cancel h

theorem Sound.onboardForRecognition (h : Sound s) {who : T.AccountId}
    (hcall : s.onboardForRecognition who = .ok s') : Sound s' := by
  unfold State.onboardForRecognition at hcall
  split at hcall
  · rename_i store world hon
    cases hcall
    simp only [Store.onboardForRecognition, bind_eq_ok, ensure_eq_ok, exists_const, Except.ok.injEq] at hon
    obtain ⟨hnew, heq⟩ := hon
    cases heq
    exact h.sameBooks _ (sumOf_credit_insert_new hnew rfl) fun _ => rfl
  · cases hcall

theorem Sound.onboardExternallyRecognized (h : Sound s) {who : Alias}
    (hcall : s.onboardExternallyRecognized who = .ok s') : Sound s' := by
  unfold State.onboardExternallyRecognized at hcall
  split at hcall
  · rename_i store hon
    cases hcall
    simp only [Store.onboardExternallyRecognized, bind_eq_ok, ensure_eq_ok, exists_const, Except.ok.injEq]
      at hon
    obtain ⟨hnew, rfl⟩ := hon
    exact h.sameBooks s.world (sumOf_credit_insert_new hnew rfl) fun _ => rfl
  · cases hcall

theorem Sound.offboard (h : Sound s) {who : T.Who}
    (hcredit : ∀ p ∈ s.store.participants.get who, p.credit = 0) : Sound (s.offboard who) := by
  refine h.sameBooks _ ?_ fun _ => rfl
  have hsum := s.store.participants.sumOf_remove Participant.credit who
  have hzero : s.store.participants.measureAt Participant.credit who = 0 := by
    rw [StorageMap.measureAt]
    cases hget : s.store.participants.get who with
    | none => rfl
    | some p => exact hcredit p hget
  rw [hzero] at hsum
  exact hsum

end Calls

/-! ### Runs -/

/-- The calls after which the books balance: a schedule whose amount does not overflow; a step to
the next round that finds its index unused and a schedule with a round left; a payout that does not
fail with a balance left; and leaving without credit. -/
def Balancing (s : State T) : Action T → Prop
  | (_, .schedulePayoutRounds amount count _) => amount * count ≤ U128.max
  | (_, .transitionRound _) => s.roundPlanning.isSome = true → s.StartsClean
  | (_, .operatePayoutRound r limit) => ∀ round ∈ s.roundPayouts.get r,
      round.remainingBalance ≠ 0 → (s.payRound r round limit).isSome = true
  | (_, .offboard who) => ∀ p ∈ s.store.participants.get who, p.credit = 0
  | _ => True

instance (s : State T) (a : Action T) : Decidable (s.Balancing a) := by
  obtain ⟨block, call⟩ := a
  apply Call.casesOn (motive := fun call => Decidable (s.Balancing (block, call))) call <;> intros <;>
    dsimp only [Balancing, StartsClean] <;> infer_instance

theorem Sound.exec {s s' : State T} (h : Sound s) {a : Action T} (hG : s.Balancing a)
    (hcall : s.execAction a = .ok s') : Sound s' := by
  obtain ⟨block, call⟩ := a
  cases call with
  | schedulePayoutRounds amount count duration => exact h.schedulePayoutRounds hG hcall
  | removePayoutSchedule index => exact h.removePayoutSchedule hcall
  | transitionRound roundIndex => exact h.transitionRound hG hcall
  | operatePayoutRound r limit => exact h.operatePayoutRound hG hcall
  | cashOut who => exact h.cashOut hcall
  | redeemCredit who destination => exact h.redeemCredit hcall
  | register who key => exact h.register hcall
  | setAbsenceGraceSchedule schedule =>
    simp only [execAction, State.exec, State.setAbsenceGraceSchedule, bind_eq_ok, Except.ok.injEq] at hcall
    obtain ⟨-, -, rfl⟩ := hcall
    exact h.sameBooks s.world rfl fun _ => rfl
  | setPersonhoodThresholdSchedule schedule =>
    simp only [execAction, State.exec, State.setPersonhoodThresholdSchedule, bind_eq_ok, Except.ok.injEq]
      at hcall
    obtain ⟨-, -, rfl⟩ := hcall
    exact h.sameBooks s.world rfl fun _ => rfl
  | onboardForRecognition who => exact h.onboardForRecognition hcall
  | onboardExternallyRecognized who => exact h.onboardExternallyRecognized hcall
  | offboard who =>
    cases hcall
    exact h.offboard hG
  | startAttendanceReportSession =>
    cases hcall
    exact h.sameBooks _ rfl fun _ => rfl
  | endAttendanceReportSession =>
    cases hcall
    exact h.sameBooks _ rfl fun _ => rfl
  | setAttendance who attended gameIndex => exact h.setAttendance hcall
  | elsewhere world pot =>
    simp only [execAction, State.exec, State.elsewhere, bind_eq_ok, ensure_eq_ok, exists_const,
      Except.ok.injEq] at hcall
    obtain ⟨⟨hpayout, hcredit⟩, rfl⟩ := hcall
    refine h.sameBooks world rfl fun reason => ?_
    cases reason
    · exact hpayout
    · exact hcredit

theorem sound_genesis (T : Config) (world : T.World) : Sound (genesis T world) where
  payout := rfl
  credit := rfl
  currentPoints := rfl
  currentPoints_le := Nat.zero_le _
  notPaying := rfl
  covers := fun _ _ h => by cases h

end State

end Individuality.Score
