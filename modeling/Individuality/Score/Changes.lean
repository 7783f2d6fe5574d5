import Individuality.Score.Calls

/-! What a call does to one participant.

`Change` lists everything that can happen to the record of a participant in one
call, with what the call had checked: most calls leave it alone, a payout only adds
to its credit, and the few others are an attendance, a cash-out, a registration,
leaving and joining. Whatever is true of one participant over a run is proved by
cases on it (`exec_change`). -/
namespace Individuality.Score
open Support

/-- A participant that has just joined for recognition. -/
def Participant.joined : Participant :=
  ⟨0, 0, .attended 0, .initial, .notRecognized, false, false, false, none⟩

/-- A person that has just joined. -/
def Participant.joinedExternally (personhoodThreshold : Nat) : Participant :=
  ⟨personhoodThreshold, 0, .attended 0, .initial, .externallyRecognized, false, true, true, none⟩

/-- A participant that has registered. -/
def Participant.registered (p : Participant) (id : Nat) : Participant :=
  { p with recognition := .recognized id, reachedPersonhood := true, hasEverReachedPersonhood := true }

/-- A participant that has cashed out. -/
def Participant.afterCashOut (p : Participant) : Participant :=
  { p with
    score := p.score - U32.saturatingAdd p.score 1 / 2
    streak := p.streak.resetAttendance
    cashedOut := true }

namespace State
variable {T : Config}

/-- What a call makes of the record of `who`. -/
inductive Change (s : State T) (call : Call T) (who : T.Who) :
    Option Participant → Option Participant → Prop
  | kept (record : Option Participant) : Change s call who record record
  | credited (record : Option Participant) (credit : Participant → Nat) :
      Change s call who record (record.map fun p => { p with credit := credit p })
  | attended (p : Participant) (attended : Bool) (gameIndex : Nat)
      (hcall : call = .setAttendance who attended gameIndex) :
      Change s call who (some p) (some (s.store.afterAttendance p attended gameIndex))
  | cashedOut (p : Participant) (account : T.AccountId) (hwho : who = .account account)
      (hcall : call = .cashOut account) (hnever : p.hasEverReachedPersonhood = false) :
      Change s call who (some p) (some p.afterCashOut)
  | registered (p : Participant) (account : T.AccountId) (key : Option (T.Member × T.Signature))
      (world : T.World) (id : Nat) (hwho : who = .account account) (hcall : call = .register account key)
      (hreached : p.reachedPersonhood = true ∨ s.store.personhoodThreshold ≤ p.score)
      (hid : s.recognizeParticipant account p.recognition key = .ok (world, id)) :
      Change s call who (some p) (some (p.registered id))
  | joined (account : T.AccountId) (hwho : who = .account account)
      (hcall : call = .onboardForRecognition account) : Change s call who none (some .joined)
  | joinedExternally (id : Alias) (hwho : who = .person id)
      (hcall : call = .onboardExternallyRecognized id) :
      Change s call who none (some (.joinedExternally s.store.personhoodThreshold))
  | left (record : Option Participant) (hcall : call = .offboard who) : Change s call who record none

section Drained

/-- Draining points changes nothing of a participant but its credit. -/
theorem get_drainPoints (r : RoundIndex) (round : RoundPayout) (w : State T × Nat) (drained who : T.Who) :
    ∃ credit : Participant → Nat, (drainPoints r round w drained).1.store.participants.get who =
      (w.1.store.participants.get who).map fun p => { p with credit := credit p } := by
  obtain ⟨t, credited⟩ := w
  have hid : t.store.participants.get who =
      (t.store.participants.get who).map fun p => { p with credit := p.credit } := Option.map_id'.symm
  simp only [drainPoints]
  cases hp : (t.putPoints r ((t.roundsPointsForParticipant r).remove drained)).store.participants.get
      drained with
  | none => exact ⟨Participant.credit, hid⟩
  | some p =>
    by_cases hwho : who = drained
    · refine ⟨fun _ => U128.saturatingAdd p.credit
        (round.reward (((t.roundsPointsForParticipant r).get drained).getD 0)), ?_⟩
      show (t.store.participants.insert drained _).get who = _
      have hget : t.store.participants.get drained = some p := hp
      rw [StorageMap.get_insert, if_pos hwho, hwho, hget]
      rfl
    · refine ⟨Participant.credit, ?_⟩
      show (t.store.participants.insert drained _).get who = _
      rw [StorageMap.get_insert, if_neg hwho]
      exact hid

theorem get_foldl_drainPoints (r : RoundIndex) (round : RoundPayout) (s : State T) (drained : List T.Who)
    (who : T.Who) : ∃ credit : Participant → Nat,
      (drained.foldl (drainPoints r round) (s, 0)).1.store.participants.get who =
        (s.store.participants.get who).map fun p => { p with credit := credit p } := by
  induction drained using List.reverseRecOn with
  | nil => exact ⟨Participant.credit, Option.map_id'.symm⟩
  | append_singleton done other ih =>
    obtain ⟨credit, ih⟩ := ih
    rw [List.foldl_append, List.foldl_cons, List.foldl_nil]
    obtain ⟨credit', hstep⟩ := get_drainPoints r round (done.foldl (drainPoints r round) (s, 0)) other who
    refine ⟨fun p => credit' { p with credit := credit p }, ?_⟩
    rw [hstep, ih, Option.map_map]
    rfl

theorem store_payRound {s s' : State T} {r : RoundIndex} {round : RoundPayout} {limit : Nat}
    (h : s.payRound r round limit = some s') :
    s'.store = ((s.drained r limit).foldl (drainPoints r round) (s, 0)).1.store := by
  unfold payRound at h
  generalize (s.drained r limit).foldl (drainPoints r round) (s, 0) = w at h
  obtain ⟨t, credited⟩ := w
  simp only [bind, Option.bind_eq_some_iff] at h
  obtain ⟨⟨t₁, released⟩, hrelease, t₂, hhold, h⟩ := h
  obtain ⟨pot₁, -, rfl⟩ := release_eq_some hrelease
  obtain ⟨pot₂, -, rfl⟩ := hold_eq_some hhold
  split at h
  · obtain ⟨⟨t₃, recycled⟩, hrecycle, h⟩ := Option.bind_eq_some_iff.mp h
    cases h
    obtain ⟨pot₃, -, rfl⟩ := release_eq_some hrecycle
    rfl
  · cases h
    rfl

theorem world_foldl_drainPoints (r : RoundIndex) (round : RoundPayout) (s : State T)
    (drained : List T.Who) : (drained.foldl (drainPoints r round) (s, 0)).1.world = s.world := by
  induction drained using List.reverseRecOn with
  | nil => rfl
  | append_singleton done other ih =>
    rw [List.foldl_append, List.foldl_cons, List.foldl_nil, ← ih]
    generalize done.foldl (drainPoints r round) (s, 0) = w
    obtain ⟨t, credited⟩ := w
    simp only [drainPoints]
    split <;> rfl

theorem world_payRound {s s' : State T} {r : RoundIndex} {round : RoundPayout} {limit : Nat}
    (h : s.payRound r round limit = some s') : s'.world = s.world := by
  have hdrained := world_foldl_drainPoints r round s (s.drained r limit)
  unfold payRound at h
  generalize (s.drained r limit).foldl (drainPoints r round) (s, 0) = w at h hdrained
  obtain ⟨t, credited⟩ := w
  simp only [bind, Option.bind_eq_some_iff] at h
  obtain ⟨⟨t₁, released⟩, hrelease, t₂, hhold, h⟩ := h
  obtain ⟨pot₁, -, rfl⟩ := release_eq_some hrelease
  obtain ⟨pot₂, -, rfl⟩ := hold_eq_some hhold
  split at h
  · obtain ⟨⟨t₃, recycled⟩, hrecycle, h⟩ := Option.bind_eq_some_iff.mp h
    cases h
    obtain ⟨pot₃, -, rfl⟩ := release_eq_some hrecycle
    exact hdrained
  · cases h
    exact hdrained

end Drained

section Exec
variable {s s' : State T} {who : T.Who}

/-- The record of `who` once the record of `other` was replaced. -/
theorem get_putParticipant (s : State T) (other who : T.Who) (p : Participant) :
    (s.putParticipant other p).store.participants.get who =
      if who = other then some p else s.store.participants.get who :=
  s.store.participants.get_insert other who p

theorem store_awardParticipantPayoutPoints (s : State T) (who : T.Who) (points : Nat) :
    (s.awardParticipantPayoutPoints who points).store = s.store := by
  unfold awardParticipantPayoutPoints
  split
  · rfl
  · split <;> rfl

theorem world_awardParticipantPayoutPoints (s : State T) (who : T.Who) (points : Nat) :
    (s.awardParticipantPayoutPoints who points).world = s.world := by
  unfold awardParticipantPayoutPoints
  split
  · rfl
  · split <;> rfl

theorem change_operatePayoutRound {call : Call T} {r : RoundIndex} {limit : Nat}
    (h : s.operatePayoutRound r limit = .ok s') :
    Change s call who (s.store.participants.get who) (s'.store.participants.get who) := by
  simp only [operatePayoutRound, bind_eq_ok, okOr_eq_ok, Except.ok.injEq] at h
  obtain ⟨round, -, rfl⟩ := h
  cases hpay : s.payRound r round limit with
  | none => exact .kept _
  | some s' =>
    rw [Option.getD_some, store_payRound hpay]
    obtain ⟨credit, hget⟩ := get_foldl_drainPoints r round s (s.drained r limit) who
    rw [hget]
    exact .credited _ credit

theorem change_redeemCredit {call : Call T} {other : T.Who} {destination : T.AccountId}
    (h : s.redeemCredit other destination = .ok s') :
    Change s call who (s.store.participants.get who) (s'.store.participants.get who) := by
  simp only [redeemCredit, bind_eq_ok, okOr_eq_ok, ensure_eq_ok, exists_const, Except.ok.injEq] at h
  obtain ⟨p, hget, -, ⟨t, released⟩, hrelease, u, hpay, rfl⟩ := h
  obtain ⟨pot, -, rfl⟩ := release_eq_some hrelease
  obtain ⟨pot', world, -, rfl⟩ := payFromPot_eq_some hpay
  rw [get_putParticipant]
  split
  · rename_i hwho
    rw [hwho, hget]
    exact .credited (some p) fun _ => 0
  · exact .kept _

theorem change_cashOut {account : T.AccountId} (h : s.cashOut account = .ok s') :
    Change s (.cashOut account) who (s.store.participants.get who) (s'.store.participants.get who) := by
  simp only [cashOut, bind_eq_ok, okOr_eq_ok, ensure_eq_ok, exists_const, Except.ok.injEq] at h
  obtain ⟨p, hget, hnever, -, rfl⟩ := h
  rw [get_putParticipant]
  split
  · rename_i hwho
    rw [hwho, hget]
    exact .cashedOut p account rfl rfl hnever
  · rw [store_awardParticipantPayoutPoints]
    exact .kept _

theorem change_register {account : T.AccountId} {key : Option (T.Member × T.Signature)}
    (h : s.register account key = .ok s') :
    Change s (.register account key) who (s.store.participants.get who) (s'.store.participants.get who) := by
  simp only [register, bind_eq_ok, okOr_eq_ok, ensure_eq_ok, exists_const, Except.ok.injEq] at h
  obtain ⟨p, hget, hreached, ⟨world, id⟩, hid, rfl⟩ := h
  rw [get_putParticipant]
  split
  · rename_i hwho
    rw [hwho, hget]
    exact .registered p account key world id rfl rfl hreached hid
  · exact .kept _

theorem change_setAttendance {other : T.Who} {attended : Bool} {gameIndex : Nat}
    (h : s.setAttendance other attended gameIndex = .ok s') :
    Change s (.setAttendance other attended gameIndex) who (s.store.participants.get who)
      (s'.store.participants.get who) := by
  unfold setAttendance at h
  split at h
  · rename_i store world p' hset
    cases h
    obtain ⟨p, hget, rfl, rfl, -⟩ := Store.setAttendance_eq_ok hset
    dsimp only
    rw [StorageMap.get_insert]
    split
    · rename_i hwho
      rw [hwho, hget]
      exact .attended p attended gameIndex rfl
    · exact .kept _
  · cases h

theorem change_onboardForRecognition {account : T.AccountId}
    (h : s.onboardForRecognition account = .ok s') :
    Change s (.onboardForRecognition account) who (s.store.participants.get who)
      (s'.store.participants.get who) := by
  unfold onboardForRecognition at h
  split at h
  · rename_i store world hon
    cases h
    simp only [Store.onboardForRecognition, bind_eq_ok, ensure_eq_ok, exists_const, Except.ok.injEq] at hon
    obtain ⟨hnew, heq⟩ := hon
    cases heq
    dsimp only
    rw [StorageMap.get_insert]
    split
    · rename_i hwho
      rw [StorageMap.contains, Option.isSome_eq_false_iff, Option.isNone_iff_eq_none, ← hwho] at hnew
      rw [hnew]
      exact .joined account hwho rfl
    · exact .kept _
  · cases h

theorem change_onboardExternallyRecognized {id : Alias} (h : s.onboardExternallyRecognized id = .ok s') :
    Change s (.onboardExternallyRecognized id) who (s.store.participants.get who)
      (s'.store.participants.get who) := by
  unfold onboardExternallyRecognized at h
  split at h
  · rename_i store hon
    cases h
    simp only [Store.onboardExternallyRecognized, bind_eq_ok, ensure_eq_ok, exists_const, Except.ok.injEq]
      at hon
    obtain ⟨hnew, rfl⟩ := hon
    dsimp only
    rw [StorageMap.get_insert]
    split
    · rename_i hwho
      rw [StorageMap.contains, Option.isSome_eq_false_iff, Option.isNone_iff_eq_none, ← hwho] at hnew
      rw [hnew]
      exact .joinedExternally id hwho rfl
    · exact .kept _
  · cases h

theorem change_offboard (s : State T) (other who : T.Who) :
    Change s (.offboard other) who (s.store.participants.get who)
      ((s.offboard other).store.participants.get who) := by
  show Change s (.offboard other) who _ ((s.store.participants.remove other).get who)
  rw [StorageMap.get_remove]
  split
  · rename_i hwho
    rw [hwho]
    exact .left _ rfl
  · exact .kept _

/-- What a call does to a participant is one of the changes. -/
theorem exec_change {a : Action T} (h : s.execAction a = .ok s') (who : T.Who) :
    Change s a.2 who (s.store.participants.get who) (s'.store.participants.get who) := by
  obtain ⟨block, call⟩ := a
  cases call with
  | schedulePayoutRounds amount count duration =>
    simp only [execAction, exec, schedulePayoutRounds, bind_eq_ok, okOr_eq_ok, Except.ok.injEq] at h
    obtain ⟨t, hhold, schedules, -, rfl⟩ := h
    obtain ⟨pot, -, rfl⟩ := hold_eq_some hhold
    exact .kept _
  | removePayoutSchedule index =>
    simp only [execAction, exec, removePayoutSchedule, bind_eq_ok, okOr_eq_ok, Except.ok.injEq] at h
    obtain ⟨schedule, -, ⟨t, released⟩, hrelease, rfl⟩ := h
    obtain ⟨pot, -, rfl⟩ := release_eq_some hrelease
    exact .kept _
  | transitionRound roundIndex =>
    simp only [execAction, exec, transitionRound, bind_eq_ok, ensure_eq_ok, exists_const,
      Except.ok.injEq] at h
    obtain ⟨-, rfl⟩ := h
    have hstore : ∀ t : State T, t.finishRound.store = t.store ∧ (t.planRound block).store = t.store := by
      intro t
      unfold finishRound planRound
      constructor <;> split <;> rfl
    rw [(hstore _).2, (hstore s).1]
    exact .kept _
  | operatePayoutRound r limit => exact change_operatePayoutRound h
  | cashOut account => exact change_cashOut h
  | redeemCredit other destination => exact change_redeemCredit h
  | register account key => exact change_register h
  | setAbsenceGraceSchedule schedule =>
    simp only [execAction, exec, setAbsenceGraceSchedule, bind_eq_ok, Except.ok.injEq] at h
    obtain ⟨-, -, rfl⟩ := h
    exact .kept _
  | setPersonhoodThresholdSchedule schedule =>
    simp only [execAction, exec, setPersonhoodThresholdSchedule, bind_eq_ok, Except.ok.injEq] at h
    obtain ⟨-, -, rfl⟩ := h
    exact .kept _
  | onboardForRecognition account => exact change_onboardForRecognition h
  | onboardExternallyRecognized id => exact change_onboardExternallyRecognized h
  | offboard other =>
    cases h
    exact change_offboard s other who
  | startAttendanceReportSession =>
    cases h
    exact .kept _
  | endAttendanceReportSession =>
    cases h
    exact .kept _
  | setAttendance other attended gameIndex => exact change_setAttendance h
  | elsewhere world pot =>
    simp only [execAction, exec, elsewhere, bind_eq_ok, ensure_eq_ok, exists_const, Except.ok.injEq] at h
    obtain ⟨-, rfl⟩ := h
    exact .kept _

end Exec
end State
end Individuality.Score
