import Individuality.StorageInitialization.OnPoll

/-! Pots are funded once, and schedules are backed: just where nothing is retried.

Each state of the initialization is left once, so its effects come once, but a block
that funds some of the pots and then fails is followed by one that funds those pots
again; and the two schedules are written where the pallets keep theirs, without the
funds being put on hold that the pallets' own calls put on hold. A step is `Accounted`
where it does neither, and a run is made of such steps just where no block tries to
fund the pots after one that got a transfer through, and none writes a schedule
(`funded_once_iff`). -/
namespace Individuality.StorageInitialization
open Support

/-! ### Amounts -/

section Amounts
variable {A : Type} [DecidableEq A]

/-- What transfers move to an account. -/
def movedTo (account : A) (transfers : List (A × Nat)) : Nat :=
  (transfers.map fun t => if t.1 = account then t.2 else 0).sum

theorem movedTo_append (account : A) (transfers more : List (A × Nat)) :
    movedTo account (transfers ++ more) = movedTo account transfers + movedTo account more := by
  rw [movedTo, List.map_append, List.sum_append]
  rfl

theorem movedTo_le_of_prefix {account : A} {transfers more : List (A × Nat)} (h : transfers <+: more) :
    movedTo account transfers ≤ movedTo account more := by
  obtain ⟨rest, rfl⟩ := h
  rw [movedTo_append]
  exact Nat.le_add_right _ _

end Amounts

/-! ### Funding -/

section Funding
variable {T : Config}

/-- Transfers are made in order, and all of them just if none fails. -/
theorem fundPots_spec (world : T.World) (pots : List (T.AccountId × Nat)) :
    (fundPots world pots).2.1 <+: pots ∧
      ((fundPots world pots).2.2 = true ↔ (fundPots world pots).2.1 = pots) := by
  induction pots generalizing world with
  | nil => exact ⟨List.nil_prefix, by simp [fundPots]⟩
  | cons pot rest ih =>
    obtain ⟨account, amount⟩ := pot
    unfold fundPots
    cases T.transfer world T.assetsDestAccount account amount with
    | none => exact ⟨List.nil_prefix, by simp⟩
    | some world =>
      obtain ⟨hfirsts, hall⟩ := ih world
      exact ⟨(List.prefix_cons_inj _).mpr hfirsts, by simp [hall]⟩

/-- Some transfer is made just if the first is. -/
theorem fundPots_ne_nil (world : T.World) : (fundPots world T.potFundingConfiguration).2.1 ≠ [] ↔
    (T.transfer world T.assetsDestAccount T.proofOfInkPot 1000000).isSome = true := by
  unfold Config.potFundingConfiguration fundPots
  cases T.transfer world T.assetsDestAccount T.proofOfInkPot 1000000 <;> simp

/-- The first pot gets its funds with the first transfer. -/
theorem movedTo_proofOfInkPot (T : Config) {transfers : List (T.AccountId × Nat)}
    (hfirsts : transfers <+: T.potFundingConfiguration) (hne : transfers ≠ []) :
    movedTo T.proofOfInkPot transfers = 1000000 := by
  have hnodup := T.pots_nodup
  simp only [List.nodup_cons, List.mem_cons, List.not_mem_nil, or_false, not_or] at hnodup
  obtain ⟨⟨hmobRule, hscore⟩, -⟩ := hnodup
  have hall : movedTo T.proofOfInkPot T.potFundingConfiguration = 1000000 := by
    simp [movedTo, Config.potFundingConfiguration, Ne.symm hmobRule, Ne.symm hscore]
  obtain ⟨first, rest, rfl⟩ := List.exists_cons_of_ne_nil hne
  obtain ⟨hfirst, -⟩ := List.cons_prefix_cons.mp hfirsts
  refine le_antisymm (hall ▸ movedTo_le_of_prefix hfirsts) ?_
  rw [hfirst]
  simp [movedTo]

end Funding

namespace State
variable {T : Config} {s s' : State T}

/-! ### The claim -/

/-- The states from which the pots have been funded. -/
def Funded (s : State T) : Prop :=
  match s.onPollStatus with
  | .inactive | .creatingAsset | .xcmFundsTransfer | .verifyingFunds | .fundingPots => False
  | _ => True

instance (s : State T) : Decidable s.Funded := by
  unfold Funded
  cases s.onPollStatus <;> infer_instance

/-- What is on hold in either pot grows by what the schedules still have to pay. -/
def RaisesHolds (s s' : State T) : Prop :=
  s'.mobRule.pot.onHold .payout + s.mobRule.scheduled = s.mobRule.pot.onHold .payout + s'.mobRule.scheduled ∧
    s'.score.pot.onHold .payout + s.score.scheduled = s.score.pot.onHold .payout + s'.score.scheduled

/-- What a step leaves: no pot has been moved more than it is to be funded with, each has been moved just
that once they are said to be, a schedule that the hook writes is put on hold for, and in the end both
pallets' books balance. -/
structure Accounted (w : State T × List (T.AccountId × Nat)) (a : Step T)
    (w' : State T × List (T.AccountId × Nat)) : Prop where
  moved_le : ∀ pot ∈ T.potFundingConfiguration, movedTo pot.1 w'.2 ≤ movedTo pot.1 T.potFundingConfiguration
  moved_eq : w'.1.Funded → ∀ pot ∈ T.potFundingConfiguration,
    movedTo pot.1 w'.2 = movedTo pot.1 T.potFundingConfiguration
  holds : a.isOnPoll = true → w.1.RaisesHolds w'.1
  backed : w'.1.onPollStatus = .done → w'.1.mobRule.Backed ∧ w'.1.score.Backed

/-- Neither does a block fund the first pot after some transfer was made, nor does it write a schedule. -/
def FundsOnce (s : State T) (moved : List (T.AccountId × Nat)) : Step T → Prop
  | .onPoll _ weight =>
    s.canStep weight = true →
    match s.onPollStatus with
    | .fundingPots =>
      (T.transfer s.world T.assetsDestAccount T.proofOfInkPot 1000000).isSome = true → moved = []
    | .schedulingMobRulePayouts => s.mobRule.roundSchedules.toList.length = T.mobRule.maxPayoutRoundSchedules
    | .schedulingScorePayouts => s.score.roundSchedules.toList.length = T.score.maxPayoutRoundSchedules
    | _ => True
  | _ => True

instance (s : State T) (moved : List (T.AccountId × Nat)) (a : Step T) : Decidable (s.FundsOnce moved a) := by
  unfold FundsOnce
  cases a <;> (try cases s.onPollStatus) <;> infer_instance

instance (s s' : State T) : Decidable (s.RaisesHolds s') := by
  unfold RaisesHolds
  infer_instance

instance (w w' : State T × List (T.AccountId × Nat)) (a : Step T) : Decidable (Accounted w a w') :=
  decidable_of_iff
    ((∀ pot ∈ T.potFundingConfiguration, movedTo pot.1 w'.2 ≤ movedTo pot.1 T.potFundingConfiguration) ∧
      (w'.1.Funded → ∀ pot ∈ T.potFundingConfiguration,
        movedTo pot.1 w'.2 = movedTo pot.1 T.potFundingConfiguration) ∧
      (a.isOnPoll = true → w.1.RaisesHolds w'.1) ∧
      (w'.1.onPollStatus = .done →
        (w'.1.mobRule.pot.onHold .payout = w'.1.mobRule.scheduled + w'.1.mobRule.distributing ∧
          w'.1.mobRule.pot.onHold .credit = w'.1.mobRule.owed) ∧
        w'.1.score.pot.onHold .payout = w'.1.score.scheduled + w'.1.score.planned + w'.1.score.payingOut ∧
          w'.1.score.pot.onHold .credit = w'.1.score.owed))
    ⟨fun ⟨hle, heq, hholds, hbacked⟩ =>
        ⟨hle, heq, hholds, fun hdone =>
          ⟨⟨(hbacked hdone).1.1, (hbacked hdone).1.2⟩, ⟨(hbacked hdone).2.1, (hbacked hdone).2.2⟩⟩⟩,
      fun h => ⟨h.moved_le, h.moved_eq, h.holds, fun hdone =>
        ⟨⟨(h.backed hdone).1.payout, (h.backed hdone).1.credit⟩,
          (h.backed hdone).2.payout, (h.backed hdone).2.credit⟩⟩⟩

/-- The transfers made so far. -/
def noteTransfers (s : State T) (a : Step T) (_ : State T) (moved : List (T.AccountId × Nat)) :
    List (T.AccountId × Nat) := moved ++ s.transfersMade a

/-! ### What such steps keep -/

/-- Nothing was moved before the pots are funded, some of it while they are, and all of it afterwards;
and no schedule is written. -/
def Once (s : State T) (moved : List (T.AccountId × Nat)) : Prop :=
  match s.onPollStatus with
  | .inactive | .creatingAsset | .xcmFundsTransfer | .verifyingFunds => moved = []
  | .fundingPots => moved <+: T.potFundingConfiguration
  | .settingPeopleLiteAttestationAllowances | .schedulingMobRulePayouts => moved = T.potFundingConfiguration
  | .schedulingScorePayouts | .done => False

variable {moved : List (T.AccountId × Nat)}

theorem Once.moved_le (h : Once s moved) (account : T.AccountId) :
    movedTo account moved ≤ movedTo account T.potFundingConfiguration := by
  refine movedTo_le_of_prefix ?_
  unfold Once at h
  split at h
  · exact h ▸ List.nil_prefix
  · exact h ▸ List.nil_prefix
  · exact h ▸ List.nil_prefix
  · exact h ▸ List.nil_prefix
  · exact h
  · exact h ▸ List.prefix_rfl
  · exact h ▸ List.prefix_rfl
  · exact h.elim
  · exact h.elim

theorem Once.moved_eq (h : Once s moved) (hfunded : s.Funded) : moved = T.potFundingConfiguration := by
  unfold Once at h
  unfold Funded at hfunded
  split at h
  all_goals first | exact h | exact h.elim | simp_all

theorem Once.not_done (h : Once s moved) : s.onPollStatus ≠ .done := by
  intro hdone
  unfold Once at h
  rw [hdone] at h
  exact h

/-- A step that leaves what is on hold and what is scheduled alone is accounted for. -/
theorem Once.accounted {a : Step T} {moved' : List (T.AccountId × Nat)} (h : Once s' moved')
    (hholds : a.isOnPoll = true → s.RaisesHolds s') :
    Accounted (s, moved) a (s', moved') where
  moved_le := fun pot _ => h.moved_le pot.1
  moved_eq := fun hfunded pot _ => by rw [h.moved_eq hfunded]
  holds := hholds
  backed := fun hdone => absurd hdone h.not_done

theorem raisesHolds_of_eq (hmobRule : s'.mobRule = s.mobRule) (hscore : s'.score = s.score) :
    s.RaisesHolds s' := by
  rw [RaisesHolds, hmobRule, hscore]
  exact ⟨rfl, rfl⟩

/-! ### One block -/

/-- A step that writes no schedule, and its transfers. -/
structure Keeps (s : State T) (moved : List (T.AccountId × Nat)) (s' : State T)
    (moved' : List (T.AccountId × Nat)) : Prop where
  mobRule : s'.mobRule = s.mobRule
  score : s'.score = s.score
  once : Once s' moved'

/-- Before the pots are funded nothing is moved. -/
theorem Keeps.of_status (hmoved : moved = []) (hmobRule : s'.mobRule = s.mobRule) (hscore : s'.score = s.score)
    (hstatus : s'.onPollStatus = .creatingAsset ∨ s'.onPollStatus = .xcmFundsTransfer ∨
      s'.onPollStatus = .verifyingFunds ∨ s'.onPollStatus = .fundingPots) : Keeps s moved s' moved := by
  refine ⟨hmobRule, hscore, ?_⟩
  unfold Once
  rcases hstatus with h | h | h | h <;> rw [h]
  · exact hmoved
  · exact hmoved
  · exact hmoved
  · exact hmoved ▸ List.nil_prefix

theorem keeps_creatingAsset (h : moved = []) (hstatus : s.onPollStatus = .creatingAsset) :
    Keeps s moved s.creatingAsset moved := by
  unfold State.creatingAsset
  dsimp only
  split
  · exact .of_status h rfl rfl (.inl hstatus)
  · split
    · exact .of_status h rfl rfl (.inr (.inl rfl))
    · exact .of_status h rfl rfl (.inl hstatus)

theorem keeps_xcmFundsTransfer (h : moved = []) (hstatus : s.onPollStatus = .xcmFundsTransfer) (block : Nat) :
    Keeps s moved (s.xcmFundsTransfer block) moved := by
  unfold State.xcmFundsTransfer
  split
  · exact .of_status h rfl rfl (.inr (.inr (.inl rfl)))
  · exact .of_status h rfl rfl (.inr (.inl hstatus))

theorem keeps_verifyingFunds (h : moved = []) (hstatus : s.onPollStatus = .verifyingFunds) (block : Nat) :
    Keeps s moved (s.verifyingFunds block) moved := by
  unfold State.verifyingFunds
  split
  · exact .of_status h rfl rfl (.inr (.inr (.inr rfl)))
  · split
    · split
      · exact .of_status h rfl rfl (.inr (.inl rfl))
      · exact .of_status h rfl rfl (.inr (.inr (.inl hstatus)))
    · exact .of_status h rfl rfl (.inr (.inl rfl))

theorem keeps_settingAllowances (h : moved = T.potFundingConfiguration)
    (hstatus : s.onPollStatus = .settingPeopleLiteAttestationAllowances) :
    Keeps s moved s.settingAllowances moved := by
  refine ⟨rfl, rfl, ?_⟩
  unfold State.settingAllowances Once
  dsimp only
  cases (setAllowances s.attestationAllowance T.peopleLiteAttestationAllowances).2
  · rw [if_neg Bool.false_ne_true, hstatus]
    exact h
  · exact h

/-- A block that funds the pots either makes no transfer, or is the first that does. -/
theorem keeps_fundingPots (h : moved <+: T.potFundingConfiguration) (hstatus : s.onPollStatus = .fundingPots)
    (honce : (fundPots s.world T.potFundingConfiguration).2.1 ≠ [] → moved = []) :
    Keeps s moved s.fundingPots (moved ++ (fundPots s.world T.potFundingConfiguration).2.1) := by
  refine ⟨rfl, rfl, ?_⟩
  obtain ⟨hfirsts, hall⟩ := fundPots_spec s.world T.potFundingConfiguration
  unfold State.fundingPots Once
  dsimp only
  generalize (fundPots s.world T.potFundingConfiguration).2.1 = made at *
  by_cases hmade : made = []
  · -- Nothing was transferred, so the list of pots was not gone through.
    have hnot : (fundPots s.world T.potFundingConfiguration).2.2 = false := by
      rw [Bool.eq_false_iff]
      intro htrue
      rw [hall.mp htrue] at hmade
      exact List.cons_ne_nil _ _ hmade
    rw [hnot, if_neg Bool.false_ne_true, hstatus, hmade, List.append_nil]
    exact h
  · rw [honce hmade, List.nil_append]
    cases hdone : (fundPots s.world T.potFundingConfiguration).2.2 with
    | false =>
      rw [if_neg Bool.false_ne_true, hstatus]
      exact hfirsts
    | true =>
      rw [if_pos rfl]
      exact hall.mp hdone

/-- A second block that gets a transfer through funds the first pot again. -/
theorem not_accounted_of_again {a : Step T} (h : moved <+: T.potFundingConfiguration) (hmoved : moved ≠ [])
    (hmade : (fundPots s.world T.potFundingConfiguration).2.1 ≠ []) :
    ¬Accounted (s, moved) a (s', moved ++ (fundPots s.world T.potFundingConfiguration).2.1) := by
  intro haccounted
  have hle := haccounted.moved_le (T.proofOfInkPot, 1000000) List.mem_cons_self
  have hfirsts := (fundPots_spec s.world T.potFundingConfiguration).1
  have htwice : movedTo T.proofOfInkPot (moved ++ (fundPots s.world T.potFundingConfiguration).2.1) =
      1000000 + 1000000 := by
    rw [movedTo_append, movedTo_proofOfInkPot T h hmoved, movedTo_proofOfInkPot T hfirsts hmade]
  have honce := movedTo_proofOfInkPot T List.prefix_rfl (List.cons_ne_nil _ _)
  dsimp only at hle
  omega

/-- A schedule that is written without a hold is not accounted for. -/
theorem not_raisesHolds {schedules : BoundedVec MobRule.PayoutSchedule T.mobRule.maxPayoutRoundSchedules}
    (hpush : s.mobRule.roundSchedules.tryPush Config.initialMobRulePayoutRounds = some schedules)
    (hmobRule : s'.mobRule = { s.mobRule with roundSchedules := schedules }) : ¬s.RaisesHolds s' := by
  rintro ⟨hholds, -⟩
  rw [BoundedVec.tryPush_eq_some] at hpush
  have hscheduled : s'.mobRule.scheduled = s.mobRule.scheduled + 10 * 1000 := by
    rw [hmobRule, MobRule.State.scheduled, hpush, List.map_append, List.sum_append]
    rfl
  have hpot : s'.mobRule.pot = s.mobRule.pot := by rw [hmobRule]
  rw [hpot, hscheduled] at hholds
  omega

/-! ### Runs -/

theorem Once.of_status (h : Once s moved) (hstatus : s'.onPollStatus = s.onPollStatus) : Once s' moved := by
  unfold Once at *
  rw [hstatus]
  exact h

/-- A step that funds no pot again and writes no schedule is accounted for. -/
theorem Keeps.accounted {a : Step T} {moved' : List (T.AccountId × Nat)} (h : Keeps s moved s' moved')
    (hfunds : s.FundsOnce moved a) :
    (Accounted (s, moved) a (s', moved') ↔ s.FundsOnce moved a) ∧ (s.FundsOnce moved a → Once s' moved') :=
  ⟨⟨fun _ => hfunds, fun _ => h.once.accounted fun _ => raisesHolds_of_eq h.mobRule h.score⟩, fun _ => h.once⟩

/-- One block that has the weight for its state. -/
theorem Once.advance (h : Once s moved) {block : Nat} {weight : Weight} (hcan : s.canStep weight = true) :
    (Accounted (s, moved) (.onPoll block weight) (s.advance block, moved ++ s.transfersMade (.onPoll block weight)) ↔
        s.FundsOnce moved (.onPoll block weight)) ∧
      (s.FundsOnce moved (.onPoll block weight) →
        Once (s.advance block) (moved ++ s.transfersMade (.onPoll block weight))) := by
  have h' := h
  unfold Once at h'
  simp only [State.advance, transfersMade, hcan, and_true]
  have hany {P : Prop} (hP : P) : s.canStep weight = true → P := fun _ => hP
  cases hstatus : s.onPollStatus <;> rw [hstatus] at h' <;> dsimp only at h' <;>
    simp only [reduceCtorEq, if_false, if_true, List.append_nil]
  case inactive => exact Keeps.accounted ⟨rfl, rfl, h⟩ (by unfold FundsOnce; rw [hstatus]; exact hany trivial)
  case creatingAsset =>
    exact (keeps_creatingAsset h' hstatus).accounted (by unfold FundsOnce; rw [hstatus]; exact hany trivial)
  case xcmFundsTransfer =>
    exact (keeps_xcmFundsTransfer h' hstatus block).accounted (by unfold FundsOnce; rw [hstatus]; exact hany trivial)
  case verifyingFunds =>
    exact (keeps_verifyingFunds h' hstatus block).accounted (by unfold FundsOnce; rw [hstatus]; exact hany trivial)
  case fundingPots =>
    have hfunds : s.FundsOnce moved (.onPoll block weight) ↔
        ((fundPots s.world T.potFundingConfiguration).2.1 ≠ [] → moved = []) := by
      rw [fundPots_ne_nil]
      unfold FundsOnce
      rw [hstatus]
      exact ⟨fun honce => honce hcan, hany⟩
    rw [hfunds]
    refine ⟨⟨fun haccounted hmade => ?_, fun honce => ?_⟩, fun honce => (keeps_fundingPots h' hstatus honce).once⟩
    · by_contra hmoved
      exact not_accounted_of_again h' hmoved hmade haccounted
    · exact ((keeps_fundingPots h' hstatus honce).accounted (hfunds.mpr honce)).1.mpr (hfunds.mpr honce)
  case settingPeopleLiteAttestationAllowances =>
    exact (keeps_settingAllowances h' hstatus).accounted (by unfold FundsOnce; rw [hstatus]; exact hany trivial)
  case schedulingMobRulePayouts =>
    have hfunds : s.FundsOnce moved (.onPoll block weight) ↔
        s.mobRule.roundSchedules.toList.length = T.mobRule.maxPayoutRoundSchedules := by
      unfold FundsOnce
      rw [hstatus]
      exact ⟨fun hfull => hfull hcan, hany⟩
    unfold State.schedulingMobRulePayouts
    cases hpush : s.mobRule.roundSchedules.tryPush Config.initialMobRulePayoutRounds with
    | none =>
      have hfull := BoundedVec.tryPush_eq_none.mp hpush
      exact Keeps.accounted ⟨rfl, rfl, h⟩ (hfunds.mpr (le_antisymm s.mobRule.roundSchedules.length_le hfull))
    | some schedules =>
      have hroom : ¬s.FundsOnce moved (.onPoll block weight) := by
        intro hfull
        rw [BoundedVec.tryPush_eq_none.mpr (hfunds.mp hfull).ge] at hpush
        cases hpush
      refine ⟨⟨fun haccounted => ?_, fun hfull => absurd hfull hroom⟩, fun hfull => absurd hfull hroom⟩
      exact absurd (haccounted.holds rfl) (not_raisesHolds hpush rfl)

/-- One step, from a state whose pots were funded at most once: it is accounted for just if it funds no
pot again and writes no schedule, and then the pots are still funded at most once. -/
theorem Once.exec {a : Step T} (h : Once s moved) (hexec : s.exec a = .ok s') :
    (Accounted (s, moved) a (s', moved ++ s.transfersMade a) ↔ s.FundsOnce moved a) ∧
      (s.FundsOnce moved a → Once s' (moved ++ s.transfersMade a)) := by
  have helsewhere (hstatus : s'.onPollStatus = s.onPollStatus) (ha : a.isOnPoll = false)
      (hfunds : s.FundsOnce moved a) :
      (Accounted (s, moved) a (s', moved ++ []) ↔ s.FundsOnce moved a) ∧
        (s.FundsOnce moved a → Once s' (moved ++ [])) := by
    rw [List.append_nil]
    have honce := h.of_status hstatus
    exact ⟨⟨fun _ => hfunds, fun _ => honce.accounted fun hpoll => by rw [ha] at hpoll; cases hpoll⟩,
      fun _ => honce⟩
  cases a with
  | onPoll block weight =>
    cases hexec
    unfold State.onPoll
    by_cases hcan : s.canStep weight = true
    · rw [if_pos hcan]
      exact h.advance hcan
    · have hnone : s.transfersMade (.onPoll block weight) = [] := by
        rw [transfersMade, if_neg fun hboth => hcan hboth.2]
      rw [if_neg hcan, hnone, List.append_nil]
      exact Keeps.accounted ⟨rfl, rfl, h⟩ fun hcan' => absurd hcan' hcan
  | mobRule call =>
    simp only [State.exec] at hexec
    split at hexec <;> cases hexec
    exact helsewhere rfl rfl trivial
  | score call =>
    simp only [State.exec] at hexec
    split at hexec <;> cases hexec
    exact helsewhere rfl rfl trivial
  | elsewhere world =>
    cases hexec
    exact helsewhere rfl rfl trivial

/-- Nothing was moved in a state from before the pots were funded. -/
theorem once_start (h : ¬s.Funded) : Once s [] := by
  unfold Once
  unfold Funded at h
  split
  · rfl
  · rfl
  · rfl
  · rfl
  · exact List.nil_prefix
  all_goals simp_all

end State

/-- In every run from a state in which the pots have not been funded, of blocks with any weight and of
anything else that may happen between them, every step is accounted for just if no block funds the
first pot after a block got a transfer through, and none writes a schedule. -/
theorem funded_once_iff {T : Config} {s : State T} (h : ¬s.Funded) (steps : List (Step T)) :
    Along (noting State.exec State.noteTransfers) State.Accounted (s, []) steps ↔
      Along (noting State.exec State.noteTransfers) (fun w a _ => w.1.FundsOnce w.2 a) (s, []) steps := by
  refine along_iff (I := fun w : State T × List (T.AccountId × Nat) => State.Once w.1 w.2) ?_
    (State.once_start h) steps
  rintro ⟨s, moved⟩ a ⟨s', moved'⟩ honce hexec
  obtain ⟨hexec, hnote⟩ := noting_eq_ok hexec
  dsimp only at hnote
  rw [hnote]
  exact honce.exec hexec

/-! ### A small chain -/

/-- A ledger that refuses transfers to the mob-rule pot until it is told otherwise. -/
def sampleConfig : Config where
  AccountId := Nat
  World := Bool
  mobRule := MobRule.sampleConfig
  score := Score.sampleConfig
  accountDecEq := inferInstance
  weights := ⟨⟨1, 1⟩, ⟨1, 1⟩, ⟨1, 1⟩, ⟨1, 1⟩, ⟨1, 1⟩, ⟨1, 1⟩, ⟨1, 1⟩, ⟨1, 1⟩⟩
  create world _ _ _ := some world
  assetExists _ := true
  setReserves world _ := some world
  balance _ _ := 5000000
  transfer world _ pot _ := if pot = 11 ∧ world = false then none else some world
  executeXcmTransfer world _ _ := some world
  assetsDestAccount := 9
  assetHubTransferAmount := 5000000
  xcmTimeout := 100
  proofOfInkPot := (10 : Nat)
  mobRulePot := (11 : Nat)
  scorePot := (12 : Nat)
  accountOf n := n
  rootManagesAllowances := true
  pots_nodup := by decide
  funding_le := by decide

def sampleState (world : Bool) : State sampleConfig := .genesis sampleConfig () () world

/-- Blocks with enough weight. -/
def sampleBlocks (count : Nat) : List (Step sampleConfig) := List.replicate count (.onPoll 1 ⟨4, 4⟩)

/-- The ledger begins to allow the transfers to the mob-rule pot when one has failed. -/
def sampleRetry (count : Nat) : List (Step sampleConfig) :=
  sampleBlocks 4 ++ .elsewhere true :: sampleBlocks count

/-- Where every transfer succeeds, five blocks fund the pots and set the allowances. -/
theorem funded_once_sample :
    Along (noting State.exec State.noteTransfers) State.Accounted (sampleState true, []) (sampleBlocks 5) ∧
      ((sampleBlocks 5).foldlM (noting State.exec State.noteTransfers) (sampleState true, [])).toOption.any
        (fun w => decide (w.1.Funded ∧ w.2 = sampleConfig.potFundingConfiguration)) = true :=
  ⟨(funded_once_iff (by decide) _).mpr (by decide), by decide⟩

/-- The first pot is funded, the second is not, and the next block funds both; then ten thousand are
scheduled with nothing on hold. -/
theorem pots_funded_twice :
    ¬Along (noting State.exec State.noteTransfers) State.Accounted (sampleState false, [])
        (sampleRetry 1) ∧
      ¬Along (noting State.exec State.noteTransfers) State.Accounted (sampleState true, []) (sampleBlocks 7) ∧
      ((sampleRetry 4).foldlM (noting State.exec State.noteTransfers) (sampleState false, [])).toOption.any
        (fun w => decide (w.1.onPollStatus = .done ∧ movedTo sampleConfig.proofOfInkPot w.2 = 2000000 ∧
          w.1.mobRule.scheduled = 10000 ∧ w.1.mobRule.pot.onHold .payout = 0 ∧
          w.1.score.scheduled = 2500 ∧ w.1.score.pot.onHold .payout = 0)) = true := by
  refine ⟨?_, ?_, ?_⟩ <;> decide

end Individuality.StorageInitialization
