import Individuality.Score.Changes
import Individuality.Score.Backing
import Individuality.Support.Shares

/-! A payout round distributes exactly and fairly.

`RoundLog` is what a round was worth when it ended, to whom, and what each has been
credited since, as the calls that pay it out are seen to change the participants.
Whoever is drained is credited its `share`, whatever the calls before drained
(`Kept`), so the parts in which a round is paid out do not matter. The pot has at least
what is promised (`Funded`), and so no call fails to move the funds, as long as
the ledger refuses nothing that the balances allow (`Grants`).

A schedule for no round is planned all the same, with nothing on hold for it, and the
payout of its round fails for want of funds. `Provided` excludes the steps that
plan one, and `payouts_fair` is the claim for the runs without them. -/
namespace Individuality.Score
open Support

/-! ### What is noted of a round -/

/-- What a round was planned to pay, the points it ended with, and, for whoever is settled, what was
credited, unless it had left. -/
structure RoundLog (T : Config) where
  credit : Nat
  awarded : StorageMap T.Who Nat
  settled : T.Who → Option (Option Nat)

namespace RoundLog
variable {T : Config} (log : RoundLog T)

def totalPoints : Nat := log.awarded.sumOf id

/-- What so many of the points are worth. -/
def worth (points : Nat) : Nat := share log.credit log.totalPoints points

/-- What was credited so far. -/
def credited (who : T.Who) : Nat := (log.settled who).join.getD 0

def totalCredited : Nat := (log.awarded.keys.map log.credited).sum

/-- Whoever was settled was present, and all were settled. -/
def AllPresent : Prop := ∀ who, (log.awarded.get who).isSome = true → ∃ x, log.settled who = some (some x)

/-- Whoever is settled was credited what its points are worth, unless it had left. -/
structure Fair : Prop where
  awarded : ∀ who, (log.settled who).isSome = true → (log.awarded.get who).isSome = true
  paid : ∀ who x, log.settled who = some (some x) →
    ∃ points, log.awarded.get who = some points ∧ x = log.worth points

variable {log}

theorem sum_awarded (log : RoundLog T) :
    (log.awarded.keys.map fun who => (log.awarded.get who).getD 0).sum = log.totalPoints := by
  refine Eq.trans (congrArg List.sum (List.map_congr_left fun who _ => ?_)) (log.awarded.sum_keys id)
  rw [StorageMap.measureAt, Option.map_id_fun, id_eq]

theorem Fair.credited_le (h : log.Fair) (who : T.Who) :
    log.credited who ≤ log.worth ((log.awarded.get who).getD 0) := by
  rw [credited]
  cases hs : log.settled who with
  | none => exact Nat.zero_le _
  | some o =>
    cases o with
    | none => exact Nat.zero_le _
    | some x =>
      obtain ⟨points, hget, rfl⟩ := h.paid who x hs
      rw [hget]
      exact Nat.le_refl _

/-- No more is credited than the round was planned to pay. -/
theorem Fair.totalCredited_le (h : log.Fair) : log.totalCredited ≤ log.credit := by
  have hsum := log.sum_awarded
  refine le_trans ?_ (sum_share_le_amount log.credit hsum)
  rw [List.map_map]
  exact List.sum_le_sum fun who _ => h.credited_le who

/-- Where all were present, what is not credited is less than one for each. -/
theorem Fair.le_totalCredited (h : log.Fair) (hpos : 0 < log.totalPoints) (hall : log.AllPresent) :
    log.credit ≤ log.totalCredited + log.awarded.size := by
  have hsum := log.sum_awarded
  have hle := amount_le_sum_share log.credit hpos hsum
  have heq : (log.awarded.keys.map fun who => (log.awarded.get who).getD 0).map
      (share log.credit log.totalPoints) = log.awarded.keys.map log.credited := by
    rw [List.map_map]
    refine List.map_congr_left fun who hwho => ?_
    obtain ⟨x, hx⟩ := hall who ((StorageMap.mem_keys _ _).mp hwho)
    obtain ⟨points, hget, rfl⟩ := h.paid who x hx
    rw [Function.comp_apply, hget, credited, hx]
    rfl
  rw [heq, List.length_map] at hle
  rwa [StorageMap.length_keys] at hle

end RoundLog

namespace State
variable {T : Config}

/-! ### Draining, participant by participant -/

/-- The points that a participant has of a round. -/
def pointsOf (s : State T) (r : RoundIndex) (who : T.Who) : Nat := ((s.roundsPointsForParticipant r).get who).getD 0

/-- What a participant is to be credited for its points, unless it has left. -/
def due (s : State T) (r : RoundIndex) (round : RoundPayout) (who : T.Who) : Nat :=
  if s.store.participants.contains who then round.reward (s.pointsOf r who) else 0

/-- A record with some more credit. -/
def credit (amount : Nat) (p : Participant) : Participant := { p with credit := p.credit + amount }

/-- What draining has come to, with those in `done` drained. -/
structure Drained (s : State T) (r : RoundIndex) (round : RoundPayout) (done : List T.Who)
    (w : State T × Nat) : Prop where
  participants : ∀ who, w.1.store.participants.get who =
    (s.store.participants.get who).map (credit (if who ∈ done then s.due r round who else 0))
  points : ∀ who, (w.1.roundsPointsForParticipant r).get who =
    if who ∈ done then none else (s.roundsPointsForParticipant r).get who
  credited : w.2 = (done.map (s.due r round)).sum

/-- Where the round can pay for the points left, nothing that a turn adds overflows. -/
theorem Draining.drainPoints_eq {s : State T} {r : RoundIndex} {round : RoundPayout} {w : State T × Nat}
    (h : Draining s r round w) (hmax : s.owed + round.remainingBalance ≤ U128.max) (who : T.Who) :
    State.drainPoints r round w who =
      match w.1.store.participants.get who with
      | none => (w.1.putPoints r ((w.1.roundsPointsForParticipant r).remove who), w.2)
      | some p => ((w.1.putPoints r ((w.1.roundsPointsForParticipant r).remove who)).putParticipant who
          (credit (round.reward (w.1.pointsOf r who)) p), w.2 + round.reward (w.1.pointsOf r who)) := by
  obtain ⟨t, credited⟩ := w
  obtain ⟨-, howed, hcredited, hcovers⟩ := h
  dsimp only at howed hcredited hcovers
  have hpoints := points_take t r who
  have hle : t.pointsOf r who ≤ t.points r := (Nat.le_add_left _ _).trans hpoints.le
  obtain ⟨hreward, -⟩ := hcovers.pay (by omega) hle
  simp only [State.drainPoints]
  show (match t.store.participants.get who with | none => _ | some p => _) = _
  cases hp : t.store.participants.get who with
  | none => rfl
  | some p =>
    have hcredit : p.credit ≤ t.owed := by
      have := t.store.participants.measureAt_le_sumOf Participant.credit who
      rwa [StorageMap.measureAt, hp] at this
    have hnew : U128.saturatingAdd p.credit (round.reward (t.pointsOf r who)) =
        p.credit + round.reward (t.pointsOf r who) := U128.saturatingAdd_eq (by omega)
    have hacc : U128.saturatingAdd credited (round.reward (t.pointsOf r who)) =
        credited + round.reward (t.pointsOf r who) := U128.saturatingAdd_eq (by omega)
    show ((t.putPoints r _).putParticipant who
      { p with credit := U128.saturatingAdd p.credit (round.reward (t.pointsOf r who)) },
      U128.saturatingAdd credited (round.reward (t.pointsOf r who))) = _
    rw [hnew, hacc]
    rfl

theorem Drained.nil (s : State T) (r : RoundIndex) (round : RoundPayout) : Drained s r round [] (s, 0) where
  participants := fun who => by
    rw [if_neg List.not_mem_nil]
    exact Option.map_id'.symm
  points := fun who => (if_neg List.not_mem_nil).symm
  credited := rfl

theorem Drained.snoc {s : State T} {r : RoundIndex} {round : RoundPayout} {w : State T × Nat} {done : List T.Who}
    (h : Drained s r round done w) (hdraining : Draining s r round w)
    (hmax : s.owed + round.remainingBalance ≤ U128.max) {who : T.Who} (hwho : who ∉ done) :
    Drained s r round (done ++ [who]) (State.drainPoints r round w who) := by
  have hpoints : w.1.pointsOf r who = s.pointsOf r who := by
    rw [pointsOf, pointsOf, h.points who, if_neg hwho]
  have hget : w.1.store.participants.get who = s.store.participants.get who := by
    rw [h.participants who, if_neg hwho]
    exact Option.map_id'
  have hsum : ((done ++ [who]).map (s.due r round)).sum = w.2 + s.due r round who := by
    rw [List.map_append, List.sum_append, ← h.credited]
    rfl
  have htaken (other : T.Who) : ((w.1.roundsPointsForParticipant r).remove who).get other =
      if other ∈ done ++ [who] then none else (s.roundsPointsForParticipant r).get other := by
    simp only [StorageMap.get_remove, h.points other, List.mem_append, List.mem_singleton]
    by_cases hdone : other ∈ done <;> by_cases heq : other = who <;> simp [hdone, heq]
  rw [hdraining.drainPoints_eq hmax who, hget, hpoints]
  cases hp : s.store.participants.get who with
  | none =>
    have hdue : s.due r round who = 0 := by
      rw [due, if_neg]
      rw [StorageMap.contains, hp]
      decide
    refine ⟨fun other => ?_, fun other => ?_, by rw [hsum, hdue]; rfl⟩
    · refine (h.participants other).trans ?_
      by_cases heq : other = who
      · rw [heq, hp]
        rfl
      · simp only [List.mem_append, List.mem_singleton, heq, or_false]
    · simp only [State.putPoints, Function.update_self]
      exact htaken other
  | some p =>
    have hdue : s.due r round who = round.reward (s.pointsOf r who) := by
      rw [due, if_pos]
      rw [StorageMap.contains, hp]
      rfl
    refine ⟨fun other => ?_, fun other => ?_, by rw [hsum, hdue]⟩
    · show (w.1.store.participants.insert who _).get other = _
      rw [StorageMap.get_insert]
      by_cases heq : other = who
      · rw [if_pos heq, heq, hp, if_pos (by simp), hdue]
        rfl
      · rw [if_neg heq, h.participants other]
        simp only [List.mem_append, List.mem_singleton, heq, or_false]
    · show (Function.update w.1.roundsPointsForParticipant r _ r).get other = _
      rw [Function.update_self]
      exact htaken other

/-- A call drains the participants it takes, each once. -/
theorem drained_foldl {s : State T} {r : RoundIndex} {round : RoundPayout}
    (hmax : s.owed + round.remainingBalance ≤ U128.max)
    (hcovers : round.Covers round.remainingBalance (s.points r)) {drained : List T.Who} (hnodup : drained.Nodup) :
    Drained s r round drained (drained.foldl (State.drainPoints r round) (s, 0)) := by
  induction drained using List.reverseRecOn with
  | nil => exact .nil s r round
  | append_singleton done who ih =>
    rw [List.nodup_append] at hnodup
    obtain ⟨hdone, -, hdisjoint⟩ := hnodup
    rw [List.foldl_append, List.foldl_cons, List.foldl_nil]
    refine (ih hdone).snoc (draining_foldl hmax hcovers done) hmax fun hmem => ?_
    exact hdisjoint who hmem who (List.mem_singleton_self who) rfl

/-! ### What a payout leaves -/

/-- A payout drains, moves what it credits, and recycles what is left where there are no more points. -/
theorem payRound_eq_some {s s' : State T} {r : RoundIndex} {round : RoundPayout} {limit : Nat}
    (h : s.payRound r round limit = some s') :
    ∃ pot, s.pot.free ≤ pot.free ∧ pot.total = s.pot.total ∧
      s' = { ((s.drained r limit).foldl (State.drainPoints r round) (s, 0)).1 with
        pot := pot
        roundPayouts := if s.noMorePoints r limit then s.roundPayouts.remove r else
          s.roundPayouts.insert r { round with remainingBalance := round.remainingBalance -
            ((s.drained r limit).foldl (State.drainPoints r round) (s, 0)).2 } } := by
  have hsame : ((s.drained r limit).foldl (State.drainPoints r round) (s, 0)).1.pot = s.pot ∧
      ((s.drained r limit).foldl (State.drainPoints r round) (s, 0)).1.roundPayouts = s.roundPayouts := by
    generalize s.drained r limit = drained
    induction drained using List.reverseRecOn with
    | nil => exact ⟨rfl, rfl⟩
    | append_singleton done who ih =>
      rw [List.foldl_append, List.foldl_cons, List.foldl_nil]
      generalize done.foldl (State.drainPoints r round) (s, 0) = w at ih ⊢
      unfold State.drainPoints
      dsimp only
      split <;> exact ih
  unfold payRound at h
  generalize (s.drained r limit).foldl (State.drainPoints r round) (s, 0) = w at h hsame ⊢
  obtain ⟨t, credited⟩ := w
  obtain ⟨hpot, hpayouts⟩ := hsame
  dsimp only at hpot hpayouts h ⊢
  simp only [bind, Option.bind_eq_some_iff] at h
  obtain ⟨⟨t₁, released⟩, hrelease, t₂, hhold, h⟩ := h
  obtain ⟨pot₁, hpot₁, rfl⟩ := release_eq_some hrelease
  obtain ⟨pot₂, hpot₂, rfl⟩ := hold_eq_some hhold
  have hfree₁ := Pot.free_release hpot₁
  have hfree₂ := Pot.free_hold hpot₂
  have htotal₁ := Pot.total_release hpot₁
  have htotal₂ := Pot.total_hold hpot₂
  rw [hpot] at hfree₁ htotal₁
  dsimp only at hfree₂ htotal₂ h
  split at h
  · rename_i hmore
    obtain ⟨⟨t₃, recycled⟩, hrecycle, h⟩ := Option.bind_eq_some_iff.mp h
    cases h
    obtain ⟨pot₃, hpot₃, rfl⟩ := release_eq_some hrecycle
    have hfree₃ := Pot.free_release hpot₃
    have htotal₃ := Pot.total_release hpot₃
    dsimp only at hfree₃ htotal₃
    refine ⟨pot₃, by omega, htotal₃.trans (htotal₂.trans htotal₁), ?_⟩
    rw [if_pos hmore, ← hpayouts]
  · rename_i hmore
    cases h
    refine ⟨pot₂, by omega, htotal₂.trans htotal₁, ?_⟩
    rw [if_neg hmore, ← hpayouts]

/-! ### The funds -/

end State

/-- A ledger that holds what the pot has to spare above a minimum, and releases what is on hold. -/
structure Config.Grants (T : Config) (minBalance : Nat) : Prop where
  hold_iff : ∀ w p reason amount,
    (T.currency.hold w p reason amount).isSome = true ↔ amount = 0 ∨ amount + minBalance ≤ p.free
  release_of_le : ∀ w p reason amount precision, amount ≤ p.onHold reason →
    (T.currency.release w p reason amount precision).isSome = true

namespace State
variable {T : Config}

/-- What schedules, the current round and the rounds being paid out still have to pay. -/
def promised (s : State T) : Nat := s.scheduled + s.planned + s.payingOut

/-- On hold is at least what is promised, and what is on hold for payouts leaves the minimum. -/
structure Funded (minBalance : Nat) (s : State T) : Prop where
  payout : s.promised ≤ s.pot.onHold .payout
  credit : s.owed ≤ s.pot.onHold .credit
  total_lt : s.pot.total < 2 ^ 96
  minimum : 0 < s.pot.onHold .payout → minBalance ≤ s.pot.free

variable {minBalance : Nat} {s s' : State T}

theorem Funded.remainingBalance_le (h : Funded minBalance s) {r : RoundIndex} {round : RoundPayout}
    (hget : s.roundPayouts.get r = some round) : round.remainingBalance ≤ s.pot.onHold .payout := by
  have hle := s.roundPayouts.measureAt_le_sumOf RoundPayout.remainingBalance r
  rw [StorageMap.measureAt, hget, Option.map_some, Option.getD_some] at hle
  refine hle.trans (le_trans ?_ h.payout)
  exact Nat.le_add_left _ _

theorem Funded.max (h : Funded minBalance s) {r : RoundIndex} {round : RoundPayout}
    (hget : s.roundPayouts.get r = some round) : s.owed + round.remainingBalance ≤ U128.max := by
  have hround := h.remainingBalance_le hget
  have hcredit := h.credit
  have hpot := s.pot.onHold_le
  omega

/-- A payout that credits no more than the round has left finds the funds. -/
theorem Funded.payRound_isSome (h : Funded minBalance s) (hgrants : T.Grants minBalance) {r : RoundIndex}
    {round : RoundPayout} (hget : s.roundPayouts.get r = some round)
    (hcovers : round.Covers round.remainingBalance (s.points r)) (limit : Nat) :
    (s.payRound r round limit).isSome = true := by
  obtain ⟨hrest, -, hcredited, -⟩ := draining_foldl (h.max hget) hcovers (s.drained r limit)
  have hround := h.remainingBalance_le hget
  unfold payRound
  generalize (s.drained r limit).foldl (State.drainPoints r round) (s, 0) = w at hrest hcredited
  obtain ⟨t, credited⟩ := w
  obtain ⟨participants, points, rfl⟩ := hrest
  dsimp only at hcredited ⊢
  obtain ⟨⟨pot₁, released⟩, hrelease⟩ := Option.isSome_iff_exists.mp
    (hgrants.release_of_le s.world s.pot .payout credited .exact (hcredited.trans hround))
  obtain ⟨-, hall, hpayout, -⟩ := Pot.onHold_release (Currency.release_of_eq_some hrelease)
  have hfree := Pot.free_release (Currency.release_of_eq_some hrelease)
  have hreleased := hall rfl
  have hspare : released = 0 ∨ released + minBalance ≤ pot₁.free := by
    by_cases hzero : released = 0
    · exact .inl hzero
    · have := h.minimum (by omega)
      exact .inr (by omega)
  obtain ⟨pot₂, hhold⟩ := Option.isSome_iff_exists.mp ((hgrants.hold_iff s.world pot₁ .credit released).mpr hspare)
  obtain ⟨-, hothers⟩ := Pot.onHold_hold (Currency.hold_of_eq_some hhold)
  have hheld := hothers .payout (by decide)
  obtain ⟨⟨pot₃, recycled⟩, hrecycle⟩ := Option.isSome_iff_exists.mp
    (hgrants.release_of_le s.world pot₂ .payout (round.remainingBalance - credited) .exact (by omega))
  simp only [State.release, State.hold, hrelease, hhold, Option.map_some, Option.bind_eq_bind, Option.bind_some]
  split
  · simp only [hrecycle, Option.map_some, Option.bind_some, Option.isSome_some]
  · rfl

/-! ### The logs -/

/-- Whether a call drains a participant's points. -/
def drains (s s' : State T) (r : RoundIndex) (who : T.Who) : Bool :=
  ((s.roundsPointsForParticipant r).get who).isSome && ((s'.roundsPointsForParticipant r).get who).isNone

/-- What a call credits to a participant, unless it has left. -/
def gain (s s' : State T) (who : T.Who) : Option Nat :=
  match s.store.participants.get who, s'.store.participants.get who with
  | some p, some p' => some (p'.credit - p.credit)
  | _, _ => none

/-- The log of a round that ends is opened, and a payout settles those that it drains. -/
def noteRounds (s : State T) (a : Action T) (s' : State T) (logs : RoundIndex → Option (RoundLog T)) :
    RoundIndex → Option (RoundLog T) :=
  match a.2 with
  | .transitionRound _ =>
    match s.roundPlanning with
    | some round => Function.update logs s.currentRoundIndex
        (some ⟨round.credit, s.roundsPointsForParticipant s.currentRoundIndex, fun _ => none⟩)
    | none => logs
  | .operatePayoutRound r _ =>
    Function.update logs r ((logs r).map fun log =>
      { log with settled := fun who => if s.drains s' r who then some (s.gain s' who) else log.settled who })
  | _ => logs

/-- A round being paid out is worth what its log says, and has left what was not credited and the
points that are not settled. -/
structure Paying (s : State T) (r : RoundIndex) (log : RoundLog T) (round : RoundPayout) : Prop where
  pointPrice : round.pointPrice = log.credit / log.totalPoints
  remainder : round.remainder = log.credit % log.totalPoints
  totalPoints : round.totalPoints = log.totalPoints
  balance : round.remainingBalance + log.totalCredited = log.credit
  left : ∀ who, (s.roundsPointsForParticipant r).get who =
    if (log.settled who).isSome = true then none else log.awarded.get who

/-- A log agrees with what is stored of its round; once nothing is, all are settled. -/
structure Kept (s : State T) (r : RoundIndex) (log : RoundLog T) : Prop where
  fair : log.Fair
  paying : ∀ round, s.roundPayouts.get r = some round → Paying s r log round
  emptied : s.roundPayouts.get r = none → ∀ who, (log.awarded.get who).isSome = true → (log.settled who).isSome = true

variable {r : RoundIndex} {log : RoundLog T} {round : RoundPayout}

/-- Rewards are shares. -/
theorem Paying.reward_eq (h : Paying s r log round) {balance points n : Nat} (hcovers : round.Covers balance points)
    (hmax : balance ≤ U128.max) (hn : n ≤ points) : round.reward n = log.worth n := by
  rw [hcovers.reward_eq hmax hn, h.pointPrice, h.remainder, h.totalPoints]
  rfl

theorem Kept.frame (h : Kept s r log) (hpayouts : s'.roundPayouts.get r = s.roundPayouts.get r)
    (hpoints : (s.roundPayouts.get r).isSome = true →
      s'.roundsPointsForParticipant r = s.roundsPointsForParticipant r) : Kept s' r log where
  fair := h.fair
  paying := fun round hget => by
    rw [hpayouts] at hget
    obtain ⟨hprice, hremainder, htotal, hbalance, hleft⟩ := h.paying round hget
    refine ⟨hprice, hremainder, htotal, hbalance, ?_⟩
    rw [hpoints (by rw [hget]; rfl)]
    exact hleft
  emptied := fun hnone => h.emptied (hpayouts ▸ hnone)

/-- A round that has just ended owes all that it was planned to pay. -/
theorem kept_ofRound {credit : Nat} (hcredit : credit ≤ U128.max)
    (hget : s'.roundPayouts.get r = some (.ofRound credit (s.points r)))
    (hpoints : s'.roundsPointsForParticipant r = s.roundsPointsForParticipant r) :
    Kept s' r ⟨credit, s.roundsPointsForParticipant r, fun _ => none⟩ where
  fair := ⟨(fun who h => by cases h), (fun who x h => by cases h)⟩
  paying := fun round hround => by
    cases hround.symm.trans hget
    have hdiv := Nat.div_mul_le_self credit (s.points r)
    have hzero : RoundLog.totalCredited ⟨credit, s.roundsPointsForParticipant r, fun _ => none⟩ = 0 :=
      List.sum_eq_zero fun x hx => by
        obtain ⟨who, -, rfl⟩ := List.mem_map.mp hx
        rfl
    refine ⟨rfl, ?_, rfl, by rw [hzero]; rfl, fun who => ?_⟩
    · show credit - U128.saturatingMul (credit / s.points r) (s.points r) = credit % s.points r
      rw [U128.saturatingMul_eq (hdiv.trans hcredit)]
      have hmod := Nat.div_add_mod' credit (s.points r)
      omega
    · rw [hpoints]
      exact (if_neg Bool.false_ne_true).symm
  emptied := fun hnone => by rw [hget] at hnone; cases hnone

/-! ### A payout and its log -/

theorem mem_drained {limit : Nat} {who : T.Who} (h : who ∈ s.drained r limit) :
    ((s.roundsPointsForParticipant r).get who).isSome = true :=
  StorageMap.mem_keysInOrder.mp (List.mem_of_mem_take h)

theorem nodup_drained (s : State T) (r : RoundIndex) (limit : Nat) : (s.drained r limit).Nodup :=
  List.Nodup.sublist (List.take_sublist _ _)
    ((List.perm_insertionSort _ _).nodup_iff.mpr (s.roundsPointsForParticipant r).nodup_keys)

/-- A call that finds no more points has drained all. -/
theorem mem_drained_of_noMorePoints {limit : Nat} (h : s.noMorePoints r limit = true) {who : T.Who}
    (hwho : ((s.roundsPointsForParticipant r).get who).isSome = true) : who ∈ s.drained r limit := by
  have hlength : ((s.roundsPointsForParticipant r).keysInOrder T.participantKey).length ≤ limit := by
    rw [StorageMap.keysInOrder, List.length_insertionSort]
    exact (of_decide_eq_true h).le
  rw [drained, List.take_of_length_le hlength]
  exact StorageMap.mem_keysInOrder.mpr hwho

/-- What a payout does, participant by participant. -/
structure Settles (s : State T) (r : RoundIndex) (round : RoundPayout) (done : List T.Who) (s' : State T) :
    Prop where
  nodup : done.Nodup
  had : ∀ who ∈ done, ((s.roundsPointsForParticipant r).get who).isSome = true
  participants : ∀ who, s'.store.participants.get who =
    (s.store.participants.get who).map (credit (if who ∈ done then s.due r round who else 0))
  points : ∀ who, (s'.roundsPointsForParticipant r).get who =
    if who ∈ done then none else (s.roundsPointsForParticipant r).get who
  payouts : (s'.roundPayouts = s.roundPayouts.remove r ∧
      ∀ who, ((s.roundsPointsForParticipant r).get who).isSome = true → who ∈ done) ∨
    s'.roundPayouts = s.roundPayouts.insert r { round with
      remainingBalance := round.remainingBalance - (done.map (s.due r round)).sum }
  credited_le : (done.map (s.due r round)).sum ≤ round.remainingBalance

theorem settles_payRound {limit : Nat} (hmax : s.owed + round.remainingBalance ≤ U128.max)
    (hcovers : round.Covers round.remainingBalance (s.points r)) (hpay : s.payRound r round limit = some s') :
    Settles s r round (s.drained r limit) s' := by
  have hdrained := drained_foldl hmax hcovers (s.nodup_drained r limit)
  have hdraining := draining_foldl hmax hcovers (s.drained r limit)
  obtain ⟨pot, -, -, rfl⟩ := payRound_eq_some hpay
  refine ⟨s.nodup_drained r limit, fun who => mem_drained, hdrained.participants, hdrained.points, ?_, ?_⟩
  · by_cases hmore : s.noMorePoints r limit = true
    · exact .inl ⟨if_pos hmore, fun who hwho => mem_drained_of_noMorePoints hmore hwho⟩
    · refine .inr ((if_neg hmore).trans ?_)
      rw [hdrained.credited]
  · rw [← hdrained.credited]
    exact hdraining.credited_le

theorem Settles.drains_iff {done : List T.Who} (h : Settles s r round done s') (who : T.Who) :
    s.drains s' r who = true ↔ who ∈ done := by
  rw [drains, Bool.and_eq_true, h.points who]
  constructor
  · rintro ⟨hsome, hnone⟩
    by_contra hwho
    rw [if_neg hwho, Option.isNone_iff_eq_none] at hnone
    rw [hnone] at hsome
    cases hsome
  · intro hwho
    exact ⟨h.had who hwho, by rw [if_pos hwho]; rfl⟩

/-- Whoever is drained gains what it is due, unless it has left. -/
theorem Settles.gain_eq {done : List T.Who} (h : Settles s r round done s') {who : T.Who} (hwho : who ∈ done) :
    s.gain s' who = if s.store.participants.contains who then some (s.due r round who) else none := by
  have hget := h.participants who
  rw [if_pos hwho] at hget
  rw [gain, hget, StorageMap.contains]
  cases s.store.participants.get who with
  | none => rfl
  | some p =>
    show some (p.credit + s.due r round who - p.credit) = some (s.due r round who)
    rw [Nat.add_sub_cancel_left]

/-- The log of a round, after a payout that settles `done`. -/
theorem Kept.settle {done : List T.Who} (h : Kept s r log) (hget : s.roundPayouts.get r = some round)
    (hmax : s.owed + round.remainingBalance ≤ U128.max)
    (hcovers : round.Covers round.remainingBalance (s.points r)) (hsettles : Settles s r round done s') :
    Kept s' r { log with settled := fun who => if s.drains s' r who then some (s.gain s' who) else log.settled who } := by
  have hpaying := h.paying round hget
  have hopen : ∀ who ∈ done, log.settled who = none ∧ log.awarded.get who = some (s.pointsOf r who) := by
    intro who hwho
    have hsome := hsettles.had who hwho
    have hleft := hpaying.left who
    by_cases hsettled : (log.settled who).isSome = true
    · rw [hleft, if_pos hsettled] at hsome
      cases hsome
    · rw [if_neg hsettled] at hleft
      obtain ⟨points, hpoints⟩ := Option.isSome_iff_exists.mp hsome
      refine ⟨Option.not_isSome_iff_eq_none.mp hsettled, ?_⟩
      rw [← hleft, pointsOf, hpoints]
      rfl
  have hworth : ∀ who ∈ done, s.store.participants.contains who = true →
      s.due r round who = log.worth (s.pointsOf r who) := by
    intro who hwho hpresent
    rw [due, if_pos hpresent]
    refine hpaying.reward_eq hcovers (by omega) ?_
    exact (Nat.le_add_left _ _).trans (points_take s r who).le
  have hsettled (who : T.Who) : (if s.drains s' r who = true then some (s.gain s' who) else log.settled who) =
      if who ∈ done then some (s.gain s' who) else log.settled who := by
    by_cases hwho : who ∈ done
    · rw [if_pos ((hsettles.drains_iff who).mpr hwho), if_pos hwho]
    · rw [if_neg (fun hd => hwho ((hsettles.drains_iff who).mp hd)), if_neg hwho]
  simp only [hsettled]
  refine ⟨⟨fun who hsome => ?_, fun who x hx => ?_⟩, fun round' hround' => ?_, fun hnone who hwho => ?_⟩
  · by_cases hwho : who ∈ done
    · rw [(hopen who hwho).2]
      rfl
    · exact h.fair.awarded who (by simpa only [if_neg hwho] using hsome)
  · dsimp only at hx
    by_cases hwho : who ∈ done
    · rw [if_pos hwho, hsettles.gain_eq hwho] at hx
      split at hx
      · rename_i hpresent
        cases hx
        exact ⟨_, (hopen who hwho).2, hworth who hwho hpresent⟩
      · cases hx
    · exact h.fair.paid who x (by simpa only [if_neg hwho] using hx)
  · rcases hsettles.payouts with ⟨hpayouts, -⟩ | hpayouts
    · rw [hpayouts, StorageMap.get_remove, if_pos rfl] at hround'
      cases hround'
    · rw [hpayouts, StorageMap.get_insert, if_pos rfl] at hround'
      cases hround'
      refine ⟨hpaying.pointPrice, hpaying.remainder, hpaying.totalPoints, ?_, fun who => ?_⟩
      · -- The ones settled now were credited nothing before.
        have hzero : ∀ who ∈ done, log.credited who = 0 := fun who hwho => by
          rw [RoundLog.credited, (hopen who hwho).1]
          rfl
        have hmem : ∀ who ∈ done, who ∈ log.awarded.keys := fun who hwho =>
          (StorageMap.mem_keys _ _).mpr (by rw [(hopen who hwho).2]; rfl)
        have hsum := sum_map_replace (f := s.due r round) log.awarded.nodup_keys hsettles.nodup hmem hzero
        have heq : RoundLog.totalCredited { log with
            settled := fun who => if who ∈ done then some (s.gain s' who) else log.settled who } =
              (log.awarded.keys.map fun who => if who ∈ done then s.due r round who else log.credited who).sum := by
          refine congrArg List.sum (List.map_congr_left fun who _ => ?_)
          by_cases hwho : who ∈ done
          · simp only [RoundLog.credited, if_pos hwho, hsettles.gain_eq hwho]
            cases hpresent : s.store.participants.contains who with
            | true => rfl
            | false => rw [due, hpresent]; rfl
          · simp only [RoundLog.credited, if_neg hwho]
        have hbalance := hpaying.balance
        have hle := hsettles.credited_le
        have htotal : (log.awarded.keys.map log.credited).sum = log.totalCredited := rfl
        dsimp only at heq ⊢
        omega
      · rw [hsettles.points who, hpaying.left who]
        by_cases hwho : who ∈ done <;> simp [hwho]
  · dsimp only at hwho ⊢
    by_cases hdone : who ∈ done
    · rw [if_pos hdone]
      rfl
    · rw [if_neg hdone]
      rcases hsettles.payouts with ⟨-, hall⟩ | hpayouts
      · by_contra hopen'
        have hleft := hpaying.left who
        rw [if_neg hopen'] at hleft
        exact hdone (hall who (hleft ▸ hwho))
      · rw [hpayouts, StorageMap.get_insert, if_pos rfl] at hnone
        cases hnone

/-! ### What every call keeps -/

/-- The funds are there, the books balance on paper, with a pot that has just what is promised, and
every round that is being paid out has a log. -/
structure Provident (minBalance : Nat) (s : State T) (logs : RoundIndex → Option (RoundLog T)) : Prop extends
    Funded minBalance s where
  sound : ∃ pot, Sound { s with pot := pot }
  logged : ∀ r, (s.roundPayouts.get r).isSome = true → (logs r).isSome = true
  kept : ∀ r log, logs r = some log → Kept s r log

variable {logs : RoundIndex → Option (RoundLog T)}

/-- Points and rounds are as before. -/
structure SameRounds (s s' : State T) : Prop where
  points : s'.roundsPointsForParticipant = s.roundsPointsForParticipant
  currentRoundPoints : s'.currentRoundPoints = s.currentRoundPoints
  currentRoundIndex : s'.currentRoundIndex = s.currentRoundIndex
  roundPayouts : s'.roundPayouts = s.roundPayouts

/-- On paper the books balance wherever points and rounds are as before. -/
theorem SameRounds.exists_sound (hsame : s.SameRounds s') (h : ∃ pot, Sound { s with pot := pot })
    (hmax : s'.promised + s'.owed ≤ U128.max) : ∃ pot, Sound { s' with pot := pot } := by
  obtain ⟨pot, hs⟩ := h
  have hpoints (r : RoundIndex) : s'.points r = s.points r := by rw [State.points, State.points, hsame.points]
  refine ⟨⟨0, s'.promised, s'.owed, by omega⟩, ⟨rfl, rfl⟩, ?_, ?_, ?_, fun r round hget => ?_⟩
  · show s'.points s'.currentRoundIndex = s'.currentRoundPoints
    rw [hpoints, hsame.currentRoundIndex, hsame.currentRoundPoints]
    exact hs.currentPoints
  · show s'.currentRoundPoints ≤ U32.max
    rw [hsame.currentRoundPoints]
    exact hs.currentPoints_le
  · show s'.roundPayouts.get s'.currentRoundIndex = none
    rw [hsame.roundPayouts, hsame.currentRoundIndex]
    exact hs.notPaying
  · show round.Covers round.remainingBalance (s'.points r)
    rw [hpoints]
    exact hs.covers r round (hsame.roundPayouts ▸ hget)

theorem Funded.promised_le (h : Funded minBalance s) : s.promised + s.owed ≤ U128.max :=
  (Nat.add_le_add h.payout h.credit).trans s.pot.onHold_le

/-- A call that has nothing to do with points and rounds. -/
theorem Provident.frame (h : Provident minBalance s logs) (hsame : s.SameRounds s')
    (hfunded : Funded minBalance s') : Provident minBalance s' logs where
  toFunded := hfunded
  sound := hsame.exists_sound h.sound hfunded.promised_le
  logged := fun r hr => h.logged r (hsame.roundPayouts ▸ hr)
  kept := fun r log hlog => (h.kept r log hlog).frame (by rw [hsame.roundPayouts]) fun _ => by rw [hsame.points]

/-- A call that moves no funds and promises as much, to participants that are owed no more. -/
theorem Funded.frame (h : Funded minBalance s) (hpot : s'.pot = s.pot) (hpromised : s'.promised = s.promised)
    (howed : s'.owed ≤ s.owed) : Funded minBalance s' := by
  refine ⟨?_, ?_, ?_, ?_⟩
  · rw [hpot, hpromised]
    exact h.payout
  · rw [hpot]
    exact howed.trans h.credit
  · rw [hpot]
    exact h.total_lt
  · rw [hpot]
    exact h.minimum

theorem Provident.sameStore (h : Provident minBalance s logs) {store : Store T.AccountId} (world : T.World)
    (howed : store.participants.sumOf Participant.credit ≤ s.owed) :
    Provident minBalance { s with store := store, world := world } logs :=
  h.frame ⟨rfl, rfl, rfl, rfl⟩ (h.toFunded.frame rfl rfl howed)

theorem Provident.covers (h : Provident minBalance s logs) {round : RoundPayout}
    (hget : s.roundPayouts.get r = some round) : round.Covers round.remainingBalance (s.points r) := by
  obtain ⟨pot, hs⟩ := h.sound
  exact hs.covers r round hget

theorem Provident.schedulePayoutRounds (h : Provident minBalance s logs) (hgrants : T.Grants minBalance)
    {amount count duration : Nat} (hcall : s.schedulePayoutRounds amount count duration = .ok s') :
    Provident minBalance s' logs := by
  simp only [State.schedulePayoutRounds, bind_eq_ok, okOr_eq_ok, Except.ok.injEq] at hcall
  obtain ⟨t, hhold, schedules, hpush, rfl⟩ := hcall
  obtain ⟨pot, hpot, rfl⟩ := Option.map_eq_some_iff.mp hhold
  have hspare := (hgrants.hold_iff _ _ _ _).mp (Option.isSome_iff_exists.mpr ⟨pot, hpot⟩)
  have hpot' := Currency.hold_of_eq_some hpot
  obtain ⟨hpayout, hothers⟩ := Pot.onHold_hold hpot'
  have hcredit := hothers .credit (by decide)
  have hfree := Pot.free_hold hpot'
  have htotal := Pot.total_hold hpot'
  have hlt := h.total_lt
  -- What was free is below the bound, so the product did not saturate.
  have hfits : U128.saturatingMul amount count = amount * count := by
    have hle : U128.saturatingMul amount count < 2 ^ 96 := by
      unfold Pot.total at hlt
      omega
    unfold U128.saturatingMul at hle ⊢
    unfold U128.max at hle ⊢
    omega
  rw [hfits] at hpayout hspare hfree
  rw [BoundedVec.tryPush_eq_some] at hpush
  have hscheduled : (schedules.toList.map PayoutSchedule.total).sum = s.scheduled + amount * count := by
    rw [hpush, List.map_append, List.sum_append, Nat.mul_comm amount]
    rfl
  have hbacked := h.payout
  refine h.frame ⟨rfl, rfl, rfl, rfl⟩ ⟨?_, ?_, ?_, ?_⟩
  · show (schedules.toList.map PayoutSchedule.total).sum + s.planned + s.payingOut ≤ pot.onHold .payout
    unfold promised at hbacked
    omega
  · exact h.credit.trans_eq hcredit.symm
  · exact htotal.trans_lt hlt
  · intro hheld
    have hmin := h.minimum
    show minBalance ≤ pot.free
    have hheld' : 0 < pot.onHold .payout := hheld
    rcases hspare with hzero | hle <;> omega

theorem Provident.removePayoutSchedule (h : Provident minBalance s logs) {index : Nat}
    (hcall : s.removePayoutSchedule index = .ok s') : Provident minBalance s' logs := by
  simp only [State.removePayoutSchedule, bind_eq_ok, okOr_eq_ok, Except.ok.injEq] at hcall
  obtain ⟨schedule, hget, ⟨t, released⟩, hrelease, rfl⟩ := hcall
  obtain ⟨pot, hpot, rfl⟩ := release_eq_some hrelease
  obtain ⟨hreleased, -, hpayout, hothers⟩ := Pot.onHold_release hpot
  have hcredit := hothers .credit (by decide)
  have hfree := Pot.free_release hpot
  have hsum := BoundedVec.sum_map_remove hget PayoutSchedule.total
  rw [PayoutSchedule.total, Nat.mul_comm] at hsum
  have hbacked := h.payout
  have hmax := h.promised_le
  have hscheduled : s.scheduled = (s.roundSchedules.toList.map PayoutSchedule.total).sum := rfl
  unfold promised at hbacked hmax
  rw [U128.saturatingMul_eq (by omega)] at hreleased
  refine h.frame ⟨rfl, rfl, rfl, rfl⟩ ⟨?_, ?_, ?_, ?_⟩
  · show ((s.roundSchedules.remove index).toList.map _).sum + s.planned + s.payingOut ≤ pot.onHold .payout
    omega
  · exact h.credit.trans_eq hcredit.symm
  · exact (Pot.total_release hpot).trans_lt h.total_lt
  · intro hheld
    have hmin := h.minimum
    have hheld' : 0 < pot.onHold .payout := hheld
    show minBalance ≤ pot.free
    omega

theorem Provident.redeemCredit (h : Provident minBalance s logs) {who : T.Who} {destination : T.AccountId}
    (hcall : s.redeemCredit who destination = .ok s') : Provident minBalance s' logs := by
  simp only [State.redeemCredit, bind_eq_ok, okOr_eq_ok, ensure_eq_ok, exists_const, Except.ok.injEq]
    at hcall
  obtain ⟨p, hget, -, ⟨t, released⟩, hrelease, u, hpay, rfl⟩ := hcall
  obtain ⟨pot, hpot, rfl⟩ := release_eq_some hrelease
  obtain ⟨⟨world, pot'⟩, hpot', rfl⟩ := Option.map_eq_some_iff.mp hpay
  obtain ⟨-, hall, hcredit, hothers⟩ := Pot.onHold_release hpot
  have hpayout := hothers .payout (by decide)
  have hfree := Pot.free_release hpot
  have htotal := Pot.total_release hpot
  obtain ⟨hfree', hfree''⟩ := Currency.free_pay hpot'
  have hcredit' := Currency.onHold_pay hpot' .credit
  have hpayout' := Currency.onHold_pay hpot' .payout
  have howed := owed_putParticipant s who { p with credit := 0 }
  rw [StorageMap.measureAt, hget, Option.map_some, Option.getD_some] at howed
  have hreleased := hall rfl
  have hbacked := h.payout
  have hcovered := h.credit
  have hlt := h.total_lt
  dsimp only at hfree' hfree'' hcredit' hpayout' howed
  refine h.frame ⟨rfl, rfl, rfl, rfl⟩ ⟨?_, ?_, ?_, ?_⟩
  · show s.promised ≤ pot'.onHold .payout
    omega
  · show (s.putParticipant who { p with credit := 0 }).owed ≤ pot'.onHold .credit
    omega
  · show pot'.total < 2 ^ 96
    unfold Pot.total at htotal hlt ⊢
    omega
  · intro hheld
    have hmin := h.minimum
    have hheld' : 0 < pot'.onHold .payout := hheld
    show minBalance ≤ pot'.free
    omega

/-! The next round. -/

/-- What the pot has does not matter to the next round. -/
theorem transitionRound_withPot {block : Nat} {roundIndex : RoundIndex} (pot : Pot)
    (hcall : s.transitionRound block roundIndex = .ok s') :
    ({ s with pot := pot } : State T).transitionRound block roundIndex = .ok { s' with pot := pot } := by
  have hnext (t : State T) : ({ t with pot := pot } : State T).finishRound.planRound block =
      { t.finishRound.planRound block with pot := pot } := by
    have hfinish : ({ t with pot := pot } : State T).finishRound = { t.finishRound with pot := pot } := by
      obtain ⟨_, _, _, _, _, planning, _, _, _⟩ := t
      cases planning <;> rfl
    rw [hfinish]
    generalize t.finishRound = u
    unfold planRound
    dsimp only
    cases u.roundSchedules.toList.head? <;> rfl
  simp only [State.transitionRound, bind_eq_ok, ensure_eq_ok, exists_const, Except.ok.injEq] at hcall ⊢
  obtain ⟨hvalid, rfl⟩ := hcall
  exact ⟨hvalid, hnext s⟩

/-- What a step to the next round leaves alone, and what it makes of the round that ends. -/
theorem transitionRound_eq_ok {block : Nat} {roundIndex : RoundIndex}
    (hcall : s.transitionRound block roundIndex = .ok s') :
    s'.pot = s.pot ∧ s'.store = s.store ∧ s'.roundsPointsForParticipant = s.roundsPointsForParticipant ∧
      s'.roundPayouts = match s.roundPlanning with
        | none => s.roundPayouts
        | some round => s.roundPayouts.insert s.currentRoundIndex (.ofRound round.credit s.currentRoundPoints) := by
  simp only [State.transitionRound, bind_eq_ok, ensure_eq_ok, exists_const, Except.ok.injEq] at hcall
  obtain ⟨-, rfl⟩ := hcall
  have hplan (t : State T) : (t.planRound block).pot = t.pot ∧ (t.planRound block).store = t.store ∧
      (t.planRound block).roundsPointsForParticipant = t.roundsPointsForParticipant ∧
      (t.planRound block).roundPayouts = t.roundPayouts := by
    unfold planRound
    cases t.roundSchedules.toList.head? <;> exact ⟨rfl, rfl, rfl, rfl⟩
  obtain ⟨hpot, hstore, hpoints, hpayouts⟩ := hplan s.finishRound
  rw [hpot, hstore, hpoints, hpayouts]
  unfold finishRound
  cases s.roundPlanning <;> exact ⟨rfl, rfl, rfl, rfl⟩

theorem Provident.transitionRound (h : Provident minBalance s logs) {block : Nat} {roundIndex : RoundIndex}
    (hclean : s.roundPlanning.isSome = true → s.StartsClean)
    (hcall : s.transitionRound block roundIndex = .ok s') :
    Provident minBalance s' (s.noteRounds (block, .transitionRound roundIndex) s' logs) := by
  obtain ⟨pot, hs⟩ := h.sound
  have hs' : Sound { s' with pot := pot } := hs.transitionRound hclean (transitionRound_withPot pot hcall)
  obtain ⟨hpot, hstore, hpoints, hpayouts⟩ := transitionRound_eq_ok hcall
  have hpromised : s'.promised = s.promised := hs'.payout.symm.trans hs.payout
  have hfunded : Funded minBalance s' := h.toFunded.frame hpot hpromised (by rw [owed, hstore, owed])
  unfold noteRounds
  dsimp only
  cases hplan : s.roundPlanning with
  | none =>
    rw [hplan] at hpayouts
    dsimp only at hpayouts ⊢
    refine ⟨hfunded, ⟨pot, hs'⟩, fun r hr => h.logged r (hpayouts ▸ hr), fun r log hlog => ?_⟩
    exact (h.kept r log hlog).frame (by rw [hpayouts]) fun _ => by rw [hpoints]
  | some round =>
    rw [hplan] at hpayouts
    dsimp only at hpayouts ⊢
    have hcurrent : s.points s.currentRoundIndex = s.currentRoundPoints := hs.currentPoints
    refine ⟨hfunded, ⟨pot, hs'⟩, fun r hr => ?_, fun r log hlog => ?_⟩
    · rw [Function.update_apply]
      split
      · rfl
      · rename_i hne
        rw [hpayouts, StorageMap.get_insert, if_neg hne] at hr
        exact h.logged r hr
    · rw [Function.update_apply] at hlog
      split at hlog
      · rename_i heq
        cases hlog
        subst heq
        refine kept_ofRound ?_ ?_ (by rw [hpoints])
        · have hplanned : s.planned = round.credit := by rw [planned, hplan]; rfl
          have hmax := h.promised_le
          unfold promised at hmax
          omega
        · rw [hpayouts, StorageMap.get_insert, if_pos rfl, hcurrent]
      · rename_i hne
        refine (h.kept r log hlog).frame ?_ fun _ => by rw [hpoints]
        rw [hpayouts, StorageMap.get_insert, if_neg hne]

/-! Paying out. -/

/-- What a payout leaves does not depend on what else is on hold. -/
theorem Paid.withPots (h : Paid s r round s') {pot pot' : Pot}
    (hcredit : pot'.onHold .credit + s.owed = pot.onHold .credit + s'.owed)
    (hpayout : pot'.onHold .payout + s.payingOut = pot.onHold .payout + s'.payingOut) :
    Paid { s with pot := pot } r round { s' with pot := pot' } := by
  obtain ⟨⟨t, tpot, rounds, ⟨participants, points, rfl⟩, rfl⟩, -, -, hothers, hcovers⟩ := h
  exact ⟨⟨_, pot', rounds, ⟨participants, points, rfl⟩, rfl⟩, hcredit, hpayout, hothers, hcovers⟩

/-- A payout of a round that is stored does what it is to do. -/
theorem Provident.operatePayoutRound_eq (h : Provident minBalance s logs) (hgrants : T.Grants minBalance)
    (hget : s.roundPayouts.get r = some round) (limit : Nat) :
    ∃ s', s.payRound r round limit = some s' ∧ s.operatePayoutRound r limit = .ok s' := by
  obtain ⟨s', hpay⟩ := Option.isSome_iff_exists.mp (h.payRound_isSome hgrants hget (h.covers hget) limit)
  refine ⟨s', hpay, ?_⟩
  rw [State.operatePayoutRound, hget]
  simp only [okOr_some, ok_bind, hpay, Option.getD_some]

theorem Provident.operatePayoutRound (h : Provident minBalance s logs) (hgrants : T.Grants minBalance)
    (block : Nat) {limit : Nat} (hcall : s.operatePayoutRound r limit = .ok s') :
    Provident minBalance s' (s.noteRounds (block, .operatePayoutRound r limit) s' logs) := by
  obtain ⟨round, hget⟩ : ∃ round, s.roundPayouts.get r = some round := by
    simp only [State.operatePayoutRound, bind_eq_ok, okOr_eq_ok] at hcall
    obtain ⟨round, hget, -⟩ := hcall
    exact ⟨round, hget⟩
  obtain ⟨_, hpay, hok⟩ := h.operatePayoutRound_eq hgrants hget limit
  cases hok.symm.trans hcall
  have hmax := h.max hget
  have hcovers := h.covers hget
  have hpaid := payRound_spec hget hmax hcovers hpay
  have hsettles := settles_payRound hmax hcovers hpay
  obtain ⟨pot', hfree, htotal, heq⟩ := payRound_eq_some hpay
  have hpot' : s'.pot = pot' := by rw [heq]
  rw [← hpot'] at hfree htotal
  obtain ⟨⟨t, tpot, rounds, hrest, hs'⟩, hcredit, hpayout, hothers, -⟩ := id hpaid
  have hpromised : s'.scheduled = s.scheduled ∧ s'.planned = s.planned := by
    obtain ⟨participants, points, rfl⟩ := hrest
    rw [hs']
    exact ⟨rfl, rfl⟩
  have hfunded : Funded minBalance s' := by
    have hbacked := h.payout
    have hcovered := h.credit
    unfold promised at hbacked
    refine ⟨?_, by omega, htotal.trans_lt h.total_lt, fun hheld => ?_⟩
    · unfold promised
      omega
    · -- The two holds together are no more than before, and the one for credit is no less.
      have howed : s.owed ≤ s'.owed := by
        have hdraining := (draining_foldl hmax hcovers (s.drained r limit)).owed
        have hstore : s'.owed = ((s.drained r limit).foldl (State.drainPoints r round) (s, 0)).1.owed := by rw [heq]; rfl
        omega
      refine (h.minimum ?_).trans hfree
      unfold Pot.total at htotal
      omega
  refine ⟨hfunded, ?_, fun r' hr' => ?_, fun r' log hlog => ?_⟩
  · obtain ⟨pot, hs⟩ := h.sound
    have hle := hfunded.promised_le
    refine ⟨⟨0, s'.promised, s'.owed, by omega⟩, hs.of_paid hget (hpaid.withPots ?_ ?_)⟩
    · show s'.owed + s.owed = pot.onHold .credit + s'.owed
      have hcredit : pot.onHold .credit = s.owed := hs.credit
      omega
    · show s'.promised + s.payingOut = pot.onHold .payout + s'.payingOut
      have hpayout : pot.onHold .payout = s.promised := hs.payout
      unfold promised at hpayout ⊢
      omega
  · show (Function.update logs r _ r').isSome = true
    rw [Function.update_apply]
    split
    · rename_i heq'
      rw [Option.isSome_map]
      exact h.logged r (by rw [hget]; rfl)
    · rename_i hne
      exact h.logged r' (hothers r' hne ▸ hr')
  · have hlog' : Function.update logs r _ r' = some log := hlog
    rw [Function.update_apply] at hlog'
    split at hlog'
    · rename_i heq'
      obtain ⟨before, hbefore, rfl⟩ := Option.map_eq_some_iff.mp hlog'
      rw [heq']
      exact (h.kept r before hbefore).settle hget hmax hcovers hsettles
    · rename_i hne
      refine (h.kept r' log hlog').frame (hothers r' hne) fun _ => ?_
      obtain ⟨participants, points, rfl⟩ := hrest
      rw [hs']
      exact Function.update_of_ne hne _ _

/-! Points. -/

/-- What an award changes. -/
theorem awardParticipantPayoutPoints_eq (s : State T) (who : T.Who) (points : Nat) :
    ∃ roundPoints current, s.awardParticipantPayoutPoints who points =
        { s.putPoints s.currentRoundIndex roundPoints with currentRoundPoints := current } ∧
      ∀ pot, ({ s with pot := pot } : State T).awardParticipantPayoutPoints who points =
        { s.awardParticipantPayoutPoints who points with pot := pot } := by
  unfold State.awardParticipantPayoutPoints
  have hsame : s = { s.putPoints s.currentRoundIndex (s.roundsPointsForParticipant s.currentRoundIndex) with
      currentRoundPoints := s.currentRoundPoints } := by
    simp only [putPoints, Function.update_eq_self]
  split
  · exact ⟨_, _, hsame, fun _ => rfl⟩
  · split
    · exact ⟨_, _, rfl, fun _ => rfl⟩
    · exact ⟨_, _, hsame, fun _ => rfl⟩

theorem Provident.award (h : Provident minBalance s logs) (who : T.Who) (points : Nat) :
    Provident minBalance (s.awardParticipantPayoutPoints who points) logs := by
  obtain ⟨pot, hs⟩ := h.sound
  have hs' := hs.awardParticipantPayoutPoints who points
  obtain ⟨roundPoints, current, heq, hpots⟩ := s.awardParticipantPayoutPoints_eq who points
  rw [hpots pot] at hs'
  rw [heq] at hs' ⊢
  refine ⟨h.toFunded.frame rfl rfl (Nat.le_refl _), ⟨pot, hs'⟩, h.logged, fun r log hlog => ?_⟩
  refine (h.kept r log hlog).frame rfl fun hstored => Function.update_of_ne ?_ _ _
  rintro rfl
  rw [show s.roundPayouts.get s.currentRoundIndex = none from hs.notPaying] at hstored
  cases hstored

theorem Provident.cashOut (h : Provident minBalance s logs) {who : T.AccountId} (hcall : s.cashOut who = .ok s') :
    Provident minBalance s' logs := by
  simp only [State.cashOut, bind_eq_ok, okOr_eq_ok, ensure_eq_ok, exists_const, Except.ok.injEq] at hcall
  obtain ⟨p, hget, -, -, rfl⟩ := hcall
  have haward := h.award (.account who) (U32.saturatingAdd p.score 1 / 2)
  have hstore : (s.awardParticipantPayoutPoints (.account who) (U32.saturatingAdd p.score 1 / 2)).store =
      s.store := by
    obtain ⟨roundPoints, current, heq, -⟩ :=
      s.awardParticipantPayoutPoints_eq (.account who) (U32.saturatingAdd p.score 1 / 2)
    rw [heq]
    rfl
  generalize s.awardParticipantPayoutPoints (.account who) (U32.saturatingAdd p.score 1 / 2) = t at *
  rw [← hstore] at hget
  exact haward.sameStore t.world (sumOf_credit_insert hget rfl).le

/-! Participants. -/

/-- Leaving takes what is owed along. -/
theorem owed_offboard_le (s : State T) (who : T.Who) : (s.offboard who).owed ≤ s.owed := by
  have hsum := s.store.participants.sumOf_remove Participant.credit who
  show (s.store.participants.remove who).sumOf Participant.credit ≤ s.store.participants.sumOf Participant.credit
  omega

theorem Provident.setAttendance (h : Provident minBalance s logs) {who : T.Who} {attended : Bool} {gameIndex : Nat}
    (hcall : s.setAttendance who attended gameIndex = .ok s') : Provident minBalance s' logs := by
  unfold State.setAttendance at hcall
  split at hcall
  · rename_i store world p' hset
    cases hcall
    obtain ⟨p, hget, rfl, rfl, -⟩ := Store.setAttendance_eq_ok hset
    exact h.sameStore world (sumOf_credit_insert hget Store.credit_afterAttendance).le
  · cases hcall

theorem Provident.onboardForRecognition (h : Provident minBalance s logs) {who : T.AccountId}
    (hcall : s.onboardForRecognition who = .ok s') : Provident minBalance s' logs := by
  unfold State.onboardForRecognition at hcall
  split at hcall
  · rename_i store world hon
    cases hcall
    simp only [Store.onboardForRecognition, bind_eq_ok, ensure_eq_ok, exists_const, Except.ok.injEq] at hon
    obtain ⟨hnew, heq⟩ := hon
    cases heq
    exact h.sameStore _ (sumOf_credit_insert_new hnew rfl).le
  · cases hcall

theorem Provident.onboardExternallyRecognized (h : Provident minBalance s logs) {who : Alias}
    (hcall : s.onboardExternallyRecognized who = .ok s') : Provident minBalance s' logs := by
  unfold State.onboardExternallyRecognized at hcall
  split at hcall
  · rename_i store hon
    cases hcall
    simp only [Store.onboardExternallyRecognized, bind_eq_ok, ensure_eq_ok, exists_const, Except.ok.injEq]
      at hon
    obtain ⟨hnew, rfl⟩ := hon
    exact h.sameStore s.world (sumOf_credit_insert_new hnew rfl).le
  · cases hcall

/-! ### Runs -/

/-- The steps after which rounds are paid out fairly: a step to the next round that finds its index
unused and a schedule with a round left; and, of what happens elsewhere, what only adds to what the pot
can spend, up to what any account may have. -/
def Provided (s : State T) : Action T → Prop
  | (_, .transitionRound _) => s.roundPlanning.isSome = true → s.StartsClean
  | (_, .elsewhere _ pot) => s.pot.free ≤ pot.free ∧ pot.total < 2 ^ 96
  | _ => True

instance (s : State T) (a : Action T) : Decidable (s.Provided a) := by
  obtain ⟨block, call⟩ := a
  apply Call.casesOn (motive := fun call => Decidable (s.Provided (block, call))) call <;> intros <;>
    dsimp only [Provided, StartsClean] <;> infer_instance

theorem Provident.exec (h : Provident minBalance s logs) (hgrants : T.Grants minBalance) {a : Action T}
    (hG : s.Provided a) (hcall : s.execAction a = .ok s') :
    Provident minBalance s' (s.noteRounds a s' logs) := by
  obtain ⟨block, call⟩ := a
  cases call with
  | schedulePayoutRounds amount count duration => exact h.schedulePayoutRounds hgrants hcall
  | removePayoutSchedule index => exact h.removePayoutSchedule hcall
  | transitionRound roundIndex => exact h.transitionRound hG hcall
  | operatePayoutRound r limit => exact h.operatePayoutRound hgrants _ hcall
  | cashOut who => exact h.cashOut hcall
  | redeemCredit who destination => exact h.redeemCredit hcall
  | register who key =>
    simp only [execAction, State.exec, State.register, bind_eq_ok, okOr_eq_ok, ensure_eq_ok, exists_const,
      Except.ok.injEq] at hcall
    obtain ⟨p, hget, -, ⟨world, id⟩, -, rfl⟩ := hcall
    exact h.sameStore world (sumOf_credit_insert hget rfl).le
  | setAbsenceGraceSchedule schedule =>
    simp only [execAction, State.exec, State.setAbsenceGraceSchedule, bind_eq_ok, Except.ok.injEq] at hcall
    obtain ⟨-, -, rfl⟩ := hcall
    exact h.sameStore s.world (Nat.le_refl _)
  | setPersonhoodThresholdSchedule schedule =>
    simp only [execAction, State.exec, State.setPersonhoodThresholdSchedule, bind_eq_ok, Except.ok.injEq]
      at hcall
    obtain ⟨-, -, rfl⟩ := hcall
    exact h.sameStore s.world (Nat.le_refl _)
  | onboardForRecognition who => exact h.onboardForRecognition hcall
  | onboardExternallyRecognized who => exact h.onboardExternallyRecognized hcall
  | offboard who =>
    cases hcall
    exact h.sameStore _ (s.owed_offboard_le who)
  | startAttendanceReportSession =>
    cases hcall
    exact h.sameStore _ (Nat.le_refl _)
  | endAttendanceReportSession =>
    cases hcall
    exact h.sameStore _ (Nat.le_refl _)
  | setAttendance who attended gameIndex => exact h.setAttendance hcall
  | elsewhere world pot =>
    simp only [execAction, State.exec, State.elsewhere, bind_eq_ok, ensure_eq_ok, exists_const,
      Except.ok.injEq] at hcall
    obtain ⟨⟨hpayout, hcredit⟩, rfl⟩ := hcall
    obtain ⟨hfree, htotal⟩ := hG
    refine h.frame ⟨rfl, rfl, rfl, rfl⟩ ⟨?_, ?_, htotal, fun hheld => ?_⟩
    · exact h.payout.trans_eq hpayout.symm
    · exact h.credit.trans_eq hcredit.symm
    · have hheld' : 0 < pot.payout := hheld
      exact (h.minimum (hheld'.trans_eq hpayout)).trans hfree

theorem provident_genesis (T : Config) (minBalance : Nat) (world : T.World) :
    Provident minBalance (genesis T world) (fun _ => none) where
  payout := Nat.le_refl 0
  credit := Nat.le_refl 0
  total_lt := show Pot.total .empty < 2 ^ 96 by decide
  minimum := fun h => absurd h (Nat.lt_irrefl 0)
  sound := ⟨.empty, sound_genesis T world⟩
  logged := fun _ h => by cases h
  kept := fun _ _ h => by cases h

/-! ### A whole payout, in any parts -/

/-- Calls that pay a round out, one after the other. -/
def payOut (s : State T) (r : RoundIndex) (limits : List Nat) : Except CallError (State T) :=
  limits.foldlM (fun s limit => s.operatePayoutRound r limit) s

/-- A round has been paid out: whoever had points of it is credited what it was due, in whatever order,
and what was left is free. -/
structure PaidOut (s : State T) (r : RoundIndex) (round : RoundPayout) (s' : State T) : Prop where
  participants : ∀ who, s'.store.participants.get who = (s.store.participants.get who).map (credit (s.due r round who))
  points : ∀ who, (s'.roundsPointsForParticipant r).get who = none
  others : ∀ r', r' ≠ r → s'.roundsPointsForParticipant r' = s.roundsPointsForParticipant r'
  payouts : ∀ r', s'.roundPayouts.get r' = if r' = r then none else s.roundPayouts.get r'
  credit : s'.pot.onHold .credit + s.owed = s.pot.onHold .credit + s'.owed
  payout : s'.pot.onHold .payout + s.payingOut = s.pot.onHold .payout + s'.payingOut
  total : s'.pot.total = s.pot.total
  rest : s' = { s with
    store := { s.store with participants := s'.store.participants }
    roundsPointsForParticipant := s'.roundsPointsForParticipant
    roundPayouts := s'.roundPayouts
    pot := s'.pot }

/-- No points are worth nothing. -/
theorem due_of_get_none (round : RoundPayout) {who : T.Who} (h : (s.roundsPointsForParticipant r).get who = none) :
    s.due r round who = 0 := by
  rw [due, pointsOf, h, Option.getD_none]
  split
  · simp [RoundPayout.reward, U128.saturatingAdd, U128.saturatingMul]
  · rfl

theorem credit_credit (a b : Nat) (p : Participant) : credit a (credit b p) = credit (b + a) p := by
  rw [credit, credit, credit, Nat.add_assoc]

/-- One call of a payout keeps the points of other rounds, and all that is no matter of rounds. -/
theorem Paid.same (h : Paid s r round s') :
    (∀ r', r' ≠ r → s'.roundsPointsForParticipant r' = s.roundsPointsForParticipant r') ∧
      s' = { s with
        store := { s.store with participants := s'.store.participants }
        roundsPointsForParticipant := s'.roundsPointsForParticipant
        roundPayouts := s'.roundPayouts
        pot := s'.pot } := by
  obtain ⟨⟨t, tpot, rounds, ⟨participants, points, rfl⟩, rfl⟩, -⟩ := h
  exact ⟨fun r' hr' => Function.update_of_ne hr' _ _, rfl⟩

/-- The call that finds no more points ends the payout. -/
theorem Settles.paidOut {done : List T.Who} (h : Settles s r round done s') (hpaid : Paid s r round s')
    (htotal : s'.pot.total = s.pot.total) (hremoved : s'.roundPayouts = s.roundPayouts.remove r)
    (hall : ∀ who, ((s.roundsPointsForParticipant r).get who).isSome = true → who ∈ done) : PaidOut s r round s' where
  participants := fun who => by
    rw [h.participants who]
    by_cases hwho : who ∈ done
    · rw [if_pos hwho]
    · rw [if_neg hwho, due_of_get_none round (Option.not_isSome_iff_eq_none.mp (mt (hall who) hwho))]
  points := fun who => by
    rw [h.points who]
    by_cases hwho : who ∈ done
    · rw [if_pos hwho]
    · rw [if_neg hwho]
      exact Option.not_isSome_iff_eq_none.mp (mt (hall who) hwho)
  others := hpaid.same.1
  payouts := fun r' => by rw [hremoved, StorageMap.get_remove]
  credit := hpaid.credit
  payout := hpaid.payout
  total := htotal
  rest := hpaid.same.2

/-- A call that leaves points comes before the rest of the payout. -/
theorem PaidOut.cons {done : List T.Who} {t : State T} {left : Nat}
    (h : PaidOut t r { round with remainingBalance := left } s') (hsettles : Settles s r round done t)
    (hpaid : Paid s r round t) (htotal : t.pot.total = s.pot.total)
    (hcontinued : t.roundPayouts = s.roundPayouts.insert r { round with remainingBalance := left }) :
    PaidOut s r round s' where
  participants := fun who => by
    have hdue : t.due r { round with remainingBalance := left } who =
        if who ∈ done then 0 else s.due r round who := by
      by_cases hwho : who ∈ done
      · rw [if_pos hwho]
        exact due_of_get_none _ (by rw [hsettles.points who, if_pos hwho])
      · have hcontains : t.store.participants.contains who = s.store.participants.contains who := by
          rw [StorageMap.contains, StorageMap.contains, hsettles.participants who, Option.isSome_map]
        rw [if_neg hwho, due, due, pointsOf, pointsOf, hsettles.points who, if_neg hwho, hcontains]
        rfl
    rw [h.participants who, hsettles.participants who, Option.map_map, hdue]
    refine congrArg (fun f => (s.store.participants.get who).map f) (funext fun p => ?_)
    rw [Function.comp_apply, credit_credit]
    by_cases hwho : who ∈ done
    · rw [if_pos hwho, if_pos hwho, Nat.add_zero]
    · rw [if_neg hwho, if_neg hwho, Nat.zero_add]
  points := h.points
  others := fun r' hr' => (h.others r' hr').trans (hpaid.same.1 r' hr')
  payouts := fun r' => by
    rw [h.payouts r', hcontinued, StorageMap.get_insert]
    by_cases hr' : r' = r
    · rw [if_pos hr', if_pos hr']
    · rw [if_neg hr', if_neg hr', if_neg hr']
  credit := by
    have hfirst := hpaid.credit
    have hthen := h.credit
    omega
  payout := by
    have hfirst := hpaid.payout
    have hthen := h.payout
    omega
  total := h.total.trans htotal
  rest := by
    rw [h.rest, hpaid.same.2]

/-- A round that is paid out, in any parts, is paid out. -/
theorem Provident.paidOut (hgrants : T.Grants minBalance) {limits : List Nat} (h : Provident minBalance s logs)
    (hget : s.roundPayouts.get r = some round)
    (hrun : s.payOut r limits = .ok s') (hgone : s'.roundPayouts.get r = none) : PaidOut s r round s' := by
  unfold payOut at hrun
  induction limits generalizing s round logs with
  | nil =>
    cases hrun
    rw [hget] at hgone
    cases hgone
  | cons limit rest ih =>
    rw [List.foldlM_cons, bind_eq_ok] at hrun
    obtain ⟨t, hstep, hrun⟩ := hrun
    obtain ⟨_, hpay, hok⟩ := h.operatePayoutRound_eq hgrants hget limit
    cases hok.symm.trans hstep
    have hmax := h.max hget
    have hcovers := h.covers hget
    have hpaid := payRound_spec hget hmax hcovers hpay
    have hsettles := settles_payRound hmax hcovers hpay
    have htotal : t.pot.total = s.pot.total := by
      obtain ⟨pot, -, htotal, heq⟩ := payRound_eq_some hpay
      rw [heq]
      exact htotal
    rcases hsettles.payouts with ⟨hremoved, hall⟩ | hcontinued
    · have hnone : t.roundPayouts.get r = none := by rw [hremoved, StorageMap.get_remove, if_pos rfl]
      cases rest with
      | nil =>
        cases hrun
        exact hsettles.paidOut hpaid htotal hremoved hall
      | cons limit' rest =>
        -- There is nothing left to pay out.
        rw [List.foldlM_cons, State.operatePayoutRound, hnone] at hrun
        cases hrun
    · have hget' : t.roundPayouts.get r = some { round with
          remainingBalance := round.remainingBalance - ((s.drained r limit).map (s.due r round)).sum } := by
        rw [hcontinued, StorageMap.get_insert, if_pos rfl]
      exact (ih (h.operatePayoutRound hgrants 0 hstep) hget' hrun).cons hsettles hpaid htotal hcontinued

/-- Whatever can be looked up is the same. -/
structure SameRecords (s s' : State T) : Prop where
  participants : ∀ who, s'.store.participants.get who = s.store.participants.get who
  points : ∀ r who, (s'.roundsPointsForParticipant r).get who = (s.roundsPointsForParticipant r).get who
  payouts : ∀ r, s'.roundPayouts.get r = s.roundPayouts.get r
  rest : s' = { s with
    store := { s.store with participants := s'.store.participants }
    roundsPointsForParticipant := s'.roundsPointsForParticipant
    roundPayouts := s'.roundPayouts }

theorem PaidOut.sameRecords {t : State T} (h : PaidOut s r round s') (h' : PaidOut s r round t) : SameRecords s' t := by
  have hparticipants (who : T.Who) : t.store.participants.get who = s'.store.participants.get who :=
    (h'.participants who).trans (h.participants who).symm
  have hpayouts (r' : RoundIndex) : t.roundPayouts.get r' = s'.roundPayouts.get r' :=
    (h'.payouts r').trans (h.payouts r').symm
  refine ⟨hparticipants, fun r' who => ?_, hpayouts, ?_⟩
  · by_cases hr' : r' = r
    · rw [hr', h.points who, h'.points who]
    · rw [h.others r' hr', h'.others r' hr']
  · have howed : t.owed = s'.owed := StorageMap.sumOf_eq_of_get hparticipants _
    have hpaying : t.payingOut = s'.payingOut := StorageMap.sumOf_eq_of_get hpayouts _
    have hpot : t.pot = s'.pot := by
      have hcredit := h.credit
      have hcredit' := h'.credit
      have hpayout := h.payout
      have hpayout' := h'.payout
      exact Pot.eq_of_onHold (by omega) (by omega) (h'.total.trans h.total.symm)
    rw [h'.rest, h.rest, hpot]

end State

/-- In every run of such steps the points of the current round are counted; whoever is drained is credited
its share of what the round was planned to pay, unless it has left; what a round credits is no more than
that and, where all were present, less by at most one each; every call that pays a round out finds
the funds, and credits no more than the round has left; and in whatever parts a round is paid
out, the result is the same. -/
theorem payouts_fair {T : Config} {minBalance : Nat} (hgrants : T.Grants minBalance) {world : T.World}
    {w : State T × (RoundIndex → Option (RoundLog T))}
    (hrun : Reaches (noting State.execAction State.noteRounds) (fun w a => w.1.Provided a)
      (State.genesis T world, fun _ => none) w) :
    w.1.points w.1.currentRoundIndex = w.1.currentRoundPoints ∧
      (∀ r log, w.2 r = some log → log.Fair ∧ log.totalCredited ≤ log.credit ∧
        (0 < log.totalPoints → log.AllPresent → log.credit ≤ log.totalCredited + log.awarded.size) ∧
        (w.1.roundPayouts.get r = none →
          ∀ who, (log.awarded.get who).isSome = true → (log.settled who).isSome = true)) ∧
      ∀ r round, w.1.roundPayouts.get r = some round →
        (∃ log, w.2 r = some log ∧ round.remainingBalance + log.totalCredited = log.credit) ∧
        (∀ limit, ∃ s', w.1.payRound r round limit = some s' ∧ w.1.operatePayoutRound r limit = .ok s' ∧
          ((w.1.drained r limit).foldl (State.drainPoints r round) (w.1, 0)).2 ≤ round.remainingBalance) ∧
        ∀ limits limits' s s', w.1.payOut r limits = .ok s → s.roundPayouts.get r = none →
          w.1.payOut r limits' = .ok s' → s'.roundPayouts.get r = none →
          w.1.PaidOut r round s ∧ s.SameRecords s' := by
  have h : w.1.Provident minBalance w.2 :=
    hrun.noted (I := fun s logs => State.Provident minBalance s logs)
      (State.provident_genesis T minBalance world) fun s logs a s' hs hG hcall => hs.exec hgrants hG hcall
  refine ⟨?_, fun r log hlog => ?_, fun r round hget => ⟨?_, fun limit => ?_, ?_⟩⟩
  · obtain ⟨pot, hs⟩ := h.sound
    exact hs.currentPoints
  · have hkept := h.kept r log hlog
    exact ⟨hkept.fair, hkept.fair.totalCredited_le, hkept.fair.le_totalCredited, hkept.emptied⟩
  · obtain ⟨log, hlog⟩ := Option.isSome_iff_exists.mp (h.logged r (by rw [hget]; rfl))
    exact ⟨log, hlog, ((h.kept r log hlog).paying round hget).balance⟩
  · obtain ⟨s', hpay, hok⟩ := h.operatePayoutRound_eq hgrants hget limit
    exact ⟨s', hpay, hok, (State.draining_foldl (h.max hget) (h.covers hget) (w.1.drained r limit)).credited_le⟩
  · intro limits limits' s s' hs hgone hs' hgone'
    have hpaid := h.paidOut hgrants hget hs hgone
    exact ⟨hpaid, hpaid.sameRecords (h.paidOut hgrants hget hs' hgone')⟩

/-! ### Two rounds -/

theorem sampleConfig_grants : sampleConfig.Grants 0 where
  hold_iff := fun w p reason amount => by
    have hhold : sampleConfig.currency.hold w p reason amount = p.hold reason amount := rfl
    rw [hhold, Pot.hold]
    split
    · cases reason <;> simp only [Option.isSome_some, true_iff] <;> omega
    · simp only [Option.isSome_none, Bool.false_eq_true, false_iff]
      omega
  release_of_le := fun w p reason amount precision hle => by
    have hrelease : sampleConfig.currency.release w p reason amount precision = p.release reason amount precision := rfl
    rw [hrelease]
    unfold Pot.release
    rw [if_neg fun h => absurd hle (Nat.not_le_of_lt h.2)]
    cases reason <;> rfl

/-- A participant cashes out in either of two rounds, the second of which is of a schedule for `count` rounds. -/
def sampleRounds (count : Nat) : List (State.Action sampleConfig) :=
  [(0, sampleFunds), (0, .schedulePayoutRounds 10 1 5), (0, .schedulePayoutRounds 7 count 5),
    (0, .onboardForRecognition (sampleAccount 1)), (0, .startAttendanceReportSession),
    (0, .setAttendance (sampleWho 1) true 1), (0, .setAttendance (sampleWho 1) true 2),
    (0, .transitionRound 0), (0, .cashOut (sampleAccount 1)), (5, .transitionRound 0),
    (5, .operatePayoutRound 0 7), (5, .setAttendance (sampleWho 1) true 3), (5, .cashOut (sampleAccount 1)),
    (10, .transitionRound 1)]

/-- The first round has credited all it was planned to pay, and the second is to be paid out. -/
theorem payouts_fair_sample : ∃ w : State sampleConfig × (RoundIndex → Option (RoundLog sampleConfig)),
    w.1.points w.1.currentRoundIndex = w.1.currentRoundPoints ∧
      (w.2 0).any (fun log => decide (log.credit = 10 ∧ log.totalCredited = 10)) = true ∧
      (w.1.roundPayouts.get 1).any (fun round => (w.1.payRound 1 round 7).isSome) = true := by
  obtain ⟨w, hrun, hlogs⟩ := exists_reaches (noting State.execAction State.noteRounds) (fun w a => w.1.Provided a)
    (State.genesis sampleConfig (), fun _ => none) (sampleRounds 1)
    (fun w => (w.2 0).any (fun log => decide (log.credit = 10 ∧ log.totalCredited = 10)) = true ∧
      (w.1.roundPayouts.get 1).any (fun round => (w.1.payRound 1 round 7).isSome) = true) (by decide +kernel)
  exact ⟨w, (payouts_fair sampleConfig_grants hrun).1, hlogs⟩

/-- The second round is planned by a schedule for no round: the payout fails, and a participant that is
present is not credited for its point. -/
theorem payouts_fair_fails : ∃ s : State sampleConfig,
    Reaches State.execAction (fun _ _ => True) (State.genesis sampleConfig ()) s ∧
      (s.roundPayouts.get 1).any (fun round => decide (round.remainingBalance = 7 ∧ round.totalPoints = 1 ∧
        (s.payRound 1 round 7).isNone = true)) = true ∧
      s.pointsOf 1 (sampleWho 1) = 1 ∧ ((s.store.participants.get (sampleWho 1)).map Participant.credit) = some 10 ∧
      (s.operatePayoutRound 1 7).toOption.any (fun s' => decide ((s'.roundPayouts.get 1).isNone = true ∧
        (s'.store.participants.get (sampleWho 1)).map Participant.credit = some 10)) = true :=
  exists_reaches State.execAction (fun _ _ => True) (State.genesis sampleConfig ()) (sampleRounds 0) _
    (by decide +kernel)

end Individuality.Score
