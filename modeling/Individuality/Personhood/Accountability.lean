import Individuality.Game.Scoring
import Individuality.Personhood.People
import Individuality.Score.Changes

/-! Personhood stays accountable.

Each id that the score pallet reserved stays with the participant it was reserved
for, recognized in both pallets or suspended in both (`Kept`): attendance and a
registration move the two together, and nothing else touches either. Leaving drops
the participant's record but leaves the people pallet alone; where the record had an
id, nobody answers for the id any more, and its holder may register for another.
`Steady` calls take no such record away, and find an id left to reserve. -/
namespace Individuality.Personhood
open Support
open Score (AccountOrPerson Recognition Participant)
variable {T : Config}

/-- What the score pallet and the people pallet have of the ids reserved so far. -/
structure Kept (obtained : List (T.AccountId × Nat)) (o : Game.Outside T.gamePallet) : Prop where
  holders : ∀ who id, (∃ p, o.1.participants.get who = some p ∧
      (p.recognition = .recognized id ∨ p.recognition = .suspended id)) ↔
    ∃ account, who = .account account ∧ (account, id) ∈ obtained
  recognized : ∀ who p id, o.1.participants.get who = some p → p.recognition = .recognized id →
    o.2.1.people.get id = some .recognized
  suspended : ∀ who p id, o.1.participants.get who = some p → p.recognition = .suspended id →
    o.2.1.people.get id = some .suspended
  accounts : (obtained.map Prod.fst).Nodup
  ids : (obtained.map Prod.snd).Nodup
  below : ∀ x ∈ obtained, x.2 < o.2.1.nextPersonalId

namespace Kept
variable {obtained : List (T.AccountId × Nat)} {o o' : Game.Outside T.gamePallet}

/-- An id is with one participant only. -/
theorem eq_of_id (h : Kept obtained o) {who who' : AccountOrPerson T.AccountId} {p p' : Participant}
    {id : Nat} (hp : o.1.participants.get who = some p)
    (hid : p.recognition = .recognized id ∨ p.recognition = .suspended id)
    (hp' : o.1.participants.get who' = some p')
    (hid' : p'.recognition = .recognized id ∨ p'.recognition = .suspended id) : who = who' := by
  obtain ⟨account, rfl, hmem⟩ := (h.holders who id).mp ⟨p, hp, hid⟩
  obtain ⟨account', rfl, hmem'⟩ := (h.holders who' id).mp ⟨p', hp', hid'⟩
  have heq := List.inj_on_of_nodup_map h.ids hmem hmem' rfl
  rw [(Prod.mk.inj heq).1]

/-- Records that keep their recognitions, and people that stay as they are, keep the ids. -/
theorem of_recognition (h : Kept obtained o)
    (hrecognition : ∀ who, (o'.1.participants.get who).map Participant.recognition =
      (o.1.participants.get who).map Participant.recognition)
    (hpeople : ∀ x ∈ obtained, o'.2.1.people.get x.2 = o.2.1.people.get x.2)
    (hnext : o.2.1.nextPersonalId ≤ o'.2.1.nextPersonalId) : Kept obtained o' := by
  have hback : ∀ who p', o'.1.participants.get who = some p' →
      ∃ p, o.1.participants.get who = some p ∧ p.recognition = p'.recognition := by
    intro who p' hp'
    have hmap := hrecognition who
    rw [hp'] at hmap
    exact Option.map_eq_some_iff.mp hmap.symm
  have hforth : ∀ who p, o.1.participants.get who = some p →
      ∃ p', o'.1.participants.get who = some p' ∧ p'.recognition = p.recognition := by
    intro who p hp
    have hmap := hrecognition who
    rw [hp] at hmap
    exact Option.map_eq_some_iff.mp hmap
  have hkeeps : ∀ who p id, o.1.participants.get who = some p →
      (p.recognition = .recognized id ∨ p.recognition = .suspended id) →
      o'.2.1.people.get id = o.2.1.people.get id := by
    intro who p id hp hid
    obtain ⟨account, -, hmem⟩ := (h.holders who id).mp ⟨p, hp, hid⟩
    exact hpeople _ hmem
  refine ⟨fun who id => ?_, ?_, ?_, h.accounts, h.ids, fun x hx => (h.below x hx).trans_le hnext⟩
  · rw [← h.holders who id]
    constructor
    · rintro ⟨p', hp', hid⟩
      obtain ⟨p, hp, heq⟩ := hback who p' hp'
      exact ⟨p, hp, heq ▸ hid⟩
    · rintro ⟨p, hp, hid⟩
      obtain ⟨p', hp', heq⟩ := hforth who p hp
      exact ⟨p', hp', heq ▸ hid⟩
  · intro who p' id hp' hid
    obtain ⟨p, hp, heq⟩ := hback who p' hp'
    rw [hkeeps who p id hp (.inl (heq.trans hid))]
    exact h.recognized who p id hp (heq.trans hid)
  · intro who p' id hp' hid
    obtain ⟨p, hp, heq⟩ := hback who p' hp'
    rw [hkeeps who p id hp (.inr (heq.trans hid))]
    exact h.suspended who p id hp (heq.trans hid)

/-- A record that has no id may change for another that has none. -/
theorem of_idless (h : Kept obtained o) (who : AccountOrPerson T.AccountId)
    (hwho : ∀ p id, o.1.participants.get who = some p →
      p.recognition ≠ .recognized id ∧ p.recognition ≠ .suspended id)
    (hwho' : ∀ p id, o'.1.participants.get who = some p →
      p.recognition ≠ .recognized id ∧ p.recognition ≠ .suspended id)
    (hothers : ∀ other, other ≠ who → o'.1.participants.get other = o.1.participants.get other)
    (hpeople : o'.2.1 = o.2.1) : Kept obtained o' := by
  have hsame : ∀ other p, (∃ id, p.recognition = .recognized id ∨ p.recognition = .suspended id) →
      (o'.1.participants.get other = some p ↔ o.1.participants.get other = some p) := by
    rintro other p ⟨id, hid⟩
    by_cases heq : other = who
    · subst heq
      exact ⟨fun hp => absurd hid (not_or.mpr (hwho' p id hp)),
        fun hp => absurd hid (not_or.mpr (hwho p id hp))⟩
    · rw [hothers other heq]
  refine ⟨fun other id => ?_, ?_, ?_, h.accounts, h.ids, hpeople ▸ h.below⟩
  · rw [← h.holders other id]
    exact exists_congr fun p => and_congr_left fun hid => hsame other p ⟨id, hid⟩
  · intro other p id hp hid
    rw [hpeople]
    exact h.recognized other p id ((hsame other p ⟨id, .inl hid⟩).mp hp) hid
  · intro other p id hp hid
    rw [hpeople]
    exact h.suspended other p id ((hsame other p ⟨id, .inr hid⟩).mp hp) hid

/-- Where the record of an id's holder is replaced, both pallets move together. -/
theorem of_moved (h : Kept obtained o) {who : AccountOrPerson T.AccountId} {p p' : Participant} {id : Nat}
    (status : Status) (hp : o.1.participants.get who = some p)
    (hid : p.recognition = .recognized id ∨ p.recognition = .suspended id)
    (hp' : o'.1.participants.get who = some p')
    (hmoved : p'.recognition = .recognized id ∧ status = .recognized ∨
      p'.recognition = .suspended id ∧ status = .suspended)
    (hothers : ∀ other, other ≠ who → o'.1.participants.get other = o.1.participants.get other)
    (hpeople : o'.2.1 = { o.2.1 with people := o.2.1.people.insert id status }) : Kept obtained o' := by
  have hid' : p'.recognition = .recognized id ∨ p'.recognition = .suspended id :=
    hmoved.imp And.left And.left
  -- The id of another participant is another id.
  have hother : ∀ other q id', o'.1.participants.get other = some q → other ≠ who →
      (q.recognition = .recognized id' ∨ q.recognition = .suspended id') →
      o.1.participants.get other = some q ∧ o'.2.1.people.get id' = o.2.1.people.get id' := by
    intro other q id' hq hne hq'
    rw [hothers other hne] at hq
    refine ⟨hq, ?_⟩
    rw [hpeople]
    show (o.2.1.people.insert id status).get id' = _
    rw [StorageMap.get_insert, if_neg]
    rintro rfl
    exact hne (h.eq_of_id hq hq' hp hid)
  have hsame : ∀ q id', o'.1.participants.get who = some q →
      (q.recognition = .recognized id' ∨ q.recognition = .suspended id') → q = p' ∧ id' = id := by
    intro q id' hq hq'
    cases hp'.symm.trans hq
    refine ⟨rfl, ?_⟩
    rcases hid' with hid' | hid' <;> rcases hq' with hq' | hq' <;> rw [hid'] at hq' <;> cases hq' <;> rfl
  have hget : o'.2.1.people.get id = some status := by
    rw [hpeople]
    exact (StorageMap.get_insert _ _ _ _).trans (if_pos rfl)
  refine ⟨fun other id' => ?_, ?_, ?_, h.accounts, h.ids, fun x hx => by rw [hpeople]; exact h.below x hx⟩
  · rw [← h.holders other id']
    by_cases hne : other = who
    · subst hne
      constructor
      · rintro ⟨q, hq, hq'⟩
        obtain ⟨-, rfl⟩ := hsame q id' hq hq'
        exact ⟨p, hp, hid⟩
      · rintro ⟨q, hq, hq'⟩
        cases hp.symm.trans hq
        have heq : id' = id := by
          rcases hid with hid | hid <;> rcases hq' with hq' | hq' <;> rw [hid] at hq' <;> cases hq' <;> rfl
        exact heq ▸ ⟨p', hp', hid'⟩
    · rw [hothers other hne]
  · intro other q id' hq hq'
    by_cases hne : other = who
    · subst hne
      obtain ⟨rfl, rfl⟩ := hsame q id' hq (.inl hq')
      rcases hmoved with ⟨-, rfl⟩ | ⟨hsuspended, -⟩
      · exact hget
      · rw [hsuspended] at hq'
        cases hq'
    · obtain ⟨hq₀, heq⟩ := hother other q id' hq hne (.inl hq')
      exact heq.trans (h.recognized other q id' hq₀ hq')
  · intro other q id' hq hq'
    by_cases hne : other = who
    · subst hne
      obtain ⟨rfl, rfl⟩ := hsame q id' hq (.inr hq')
      rcases hmoved with ⟨hrecognized, -⟩ | ⟨-, rfl⟩
      · rw [hrecognized] at hq'
        cases hq'
      · exact hget
    · obtain ⟨hq₀, heq⟩ := hother other q id' hq hne (.inr hq')
      exact heq.trans (h.suspended other q id' hq₀ hq')

/-- A participant without an id obtains a new one. -/
theorem of_obtained (h : Kept obtained o) {account : T.AccountId} {p : Participant}
    (hwho : ∀ q id, o.1.participants.get (.account account) = some q →
      q.recognition ≠ .recognized id ∧ q.recognition ≠ .suspended id)
    (hp : o'.1.participants.get (.account account) = some p)
    (hid : p.recognition = .recognized o.2.1.nextPersonalId)
    (hothers : ∀ other, other ≠ .account account →
      o'.1.participants.get other = o.1.participants.get other)
    (hget : ∀ id, o'.2.1.people.get id =
      if id = o.2.1.nextPersonalId then some .recognized else o.2.1.people.get id)
    (hnext : o.2.1.nextPersonalId < o'.2.1.nextPersonalId) :
    Kept ((account, o.2.1.nextPersonalId) :: obtained) o' := by
  have hfresh : ∀ x ∈ obtained, x.2 ≠ o.2.1.nextPersonalId := fun x hx => (h.below x hx).ne
  have hnone : ∀ id, (account, id) ∉ obtained := by
    intro id hmem
    obtain ⟨q, hq, hq'⟩ := (h.holders (.account account) id).mpr ⟨account, rfl, hmem⟩
    exact not_or.mpr (hwho q id hq) hq'
  have hothers' : ∀ other q id, o'.1.participants.get other = some q → other ≠ .account account →
      (q.recognition = .recognized id ∨ q.recognition = .suspended id) →
      o.1.participants.get other = some q ∧ o'.2.1.people.get id = o.2.1.people.get id := by
    intro other q id hq hne hq'
    rw [hothers other hne] at hq
    refine ⟨hq, ?_⟩
    obtain ⟨account', -, hmem⟩ := (h.holders other id).mp ⟨q, hq, hq'⟩
    rw [hget, if_neg (hfresh _ hmem)]
  refine ⟨fun other id => ?_, ?_, ?_, ?_, ?_, ?_⟩
  · by_cases hne : other = .account account
    · subst hne
      constructor
      · rintro ⟨q, hq, hq'⟩
        cases hp.symm.trans hq
        rw [hid] at hq'
        rcases hq' with hq' | hq' <;> cases hq'
        exact ⟨account, rfl, List.mem_cons_self⟩
      · rintro ⟨account', heq, hmem⟩
        cases heq
        rcases List.mem_cons.mp hmem with heq | hmem
        · cases heq
          exact ⟨p, hp, .inl hid⟩
        · exact absurd hmem (hnone id)
    · rw [hothers other hne, h.holders other id]
      refine exists_congr fun account' => and_congr_right fun heq => ?_
      refine ⟨List.mem_cons_of_mem _, fun hmem => ?_⟩
      rcases List.mem_cons.mp hmem with heq' | hmem
      · cases heq'
        exact absurd heq hne
      · exact hmem
  · intro other q id hq hq'
    by_cases hne : other = .account account
    · subst hne
      cases hp.symm.trans hq
      rw [hid] at hq'
      cases hq'
      rw [hget, if_pos rfl]
    · obtain ⟨hq₀, heq⟩ := hothers' other q id hq hne (.inl hq')
      exact heq.trans (h.recognized other q id hq₀ hq')
  · intro other q id hq hq'
    by_cases hne : other = .account account
    · subst hne
      cases hp.symm.trans hq
      rw [hid] at hq'
      cases hq'
    · obtain ⟨hq₀, heq⟩ := hothers' other q id hq hne (.inr hq')
      exact heq.trans (h.suspended other q id hq₀ hq')
  · refine List.nodup_cons.mpr ⟨fun hmem => ?_, h.accounts⟩
    obtain ⟨⟨account', id⟩, hx, rfl⟩ := List.mem_map.mp hmem
    exact hnone id hx
  · refine List.nodup_cons.mpr ⟨fun hmem => ?_, h.ids⟩
    obtain ⟨x, hx, heq⟩ := List.mem_map.mp hmem
    exact hfresh x hx heq
  · intro x hx
    rcases List.mem_cons.mp hx with rfl | hx
    · exact hnext
    · exact (h.below x hx).trans hnext

end Kept
/-! ### What the game pallet does -/

section Game
variable {obtained : List (T.AccountId × Nat)} {o o' : Game.Outside T.gamePallet}

/-- The services a game asks for leave the people alone. -/
theorem people_of_serves {w w' : T.gamePallet.World} (h : Game.Serves T.gamePallet w w') : w'.1 = w.1 := by
  cases h with
  | sessionStarted _ h | sessionEnded _ h | depositDropped _ _ _ h | airdropScheduled _ _ _ _ _ _ h
  | participatedWithAccount _ _ _ _ h | participatedWithAlias _ _ _ _ _ _ h =>
    obtain ⟨r, -, rfl⟩ := Option.map_eq_some_iff.mp h
    rfl
  | depositTaken _ _ _ _ h =>
    obtain ⟨⟨ticket, r⟩, -, heq⟩ := Option.map_eq_some_iff.mp h
    cases heq
    rfl
  | _ => rfl

/-- An attendance leaves a participant's id where it was, or suspends the person in both pallets. -/
theorem Kept.attended (h : Kept obtained o) {who : AccountOrPerson T.AccountId} {attended : Bool}
    {gameIndex : Nat} {participant : Participant} {score : Score.Store T.AccountId} {w : T.World}
    (hset : o.1.setAttendance T.services.toServices o.2 who attended gameIndex =
      .ok (score, w, participant)) : Kept obtained (score, w) := by
  obtain ⟨p, hp, rfl, rfl, rfl⟩ := Score.Store.setAttendance_eq_ok hset
  have hget : ∀ other, (o.1.participants.insert who (o.1.afterAttendance p attended gameIndex)).get other =
      if other = who then some (o.1.afterAttendance p attended gameIndex)
      else o.1.participants.get other := fun other => StorageMap.get_insert _ _ _ _
  have hkept : ∀ w : T.World, w.1 = o.2.1 →
      (o.1.afterAttendance p attended gameIndex).recognition = p.recognition →
      Kept obtained (⟨o.1.participants.insert who (o.1.afterAttendance p attended gameIndex),
        o.1.personhoodThreshold, o.1.personhoodThresholdSchedule, o.1.absenceGraceSchedule,
        o.1.absenceGraceRatio⟩, w) := by
    intro w hw hrecognition
    refine h.of_recognition (fun other => ?_) (fun x _ => by rw [hw]) (by rw [hw])
    rw [hget]
    split
    · rename_i heq
      rw [heq, hp, Option.map_some, Option.map_some, hrecognition]
    · rfl
  cases hr : p.recognition with
  | recognized id =>
    cases hlost : o.1.losesPersonhood p attended gameIndex with
    | true =>
      have hpeople : o.2.1.people.contains id = true := by
        rw [StorageMap.contains, h.recognized who p id hp hr]
        rfl
      refine h.of_moved .suspended hp (.inl hr) ((hget who).trans (if_pos rfl))
        (.inr ⟨?_, rfl⟩) (fun other hne => (hget other).trans (if_neg hne)) ?_
      · simp only [Score.Store.afterAttendance, hlost, Score.Store.recognition_attend, hr]
      · simp only [Score.Store.worldAfterAttendance, hr, hlost]
        show o.2.1.suspendPersonhood id = _
        rw [People.suspendPersonhood, if_pos hpeople]
    | false =>
      refine hkept _ ?_ ?_
      · simp only [Score.Store.worldAfterAttendance, hr, hlost]
      · simp only [Score.Store.afterAttendance, hlost, Score.Store.recognition_attend, hr]
  | _ =>
    refine hkept _ ?_ ?_
    · simp only [Score.Store.worldAfterAttendance, hr]
    · simp only [Score.Store.afterAttendance, Score.Store.recognition_attend, hr]

theorem Kept.scoring (h : Kept obtained o) (hstep : Game.Scoring T.gamePallet o o') : Kept obtained o' := by
  cases hstep with
  | served hserves =>
    have hpeople := people_of_serves hserves
    exact h.of_recognition (fun _ => rfl) (fun x _ => by rw [hpeople]) (by rw [hpeople])
  | onboarded who hon =>
    simp only [Score.Store.onboardForRecognition, bind_eq_ok, ensure_eq_ok, exists_const,
      Except.ok.injEq] at hon
    obtain ⟨hnew, rfl⟩ := hon
    rw [StorageMap.contains, Option.isSome_eq_false_iff, Option.isNone_iff_eq_none] at hnew
    refine h.of_idless (.account who) (fun p id hp => ?_) (fun p id hp => ?_)
      (fun other hne => ?_) rfl
    · cases hnew.symm.trans hp
    · cases ((StorageMap.get_insert _ _ _ _).trans (if_pos rfl)).symm.trans hp
      exact ⟨Recognition.noConfusion, Recognition.noConfusion⟩
    · exact (StorageMap.get_insert _ _ _ _).trans (if_neg hne)
  | onboardedExternally who hon =>
    simp only [Score.Store.onboardExternallyRecognized, bind_eq_ok, ensure_eq_ok, exists_const,
      Except.ok.injEq] at hon
    obtain ⟨hnew, rfl⟩ := hon
    rw [StorageMap.contains, Option.isSome_eq_false_iff, Option.isNone_iff_eq_none] at hnew
    refine h.of_idless (.person who) (fun p id hp => ?_) (fun p id hp => ?_)
      (fun other hne => ?_) rfl
    · cases hnew.symm.trans hp
    · cases ((StorageMap.get_insert _ _ _ _).trans (if_pos rfl)).symm.trans hp
      exact ⟨Recognition.noConfusion, Recognition.noConfusion⟩
    · exact (StorageMap.get_insert _ _ _ _).trans (if_neg hne)
  | attended who attended gameIndex participant hset => exact h.attended hset
  | thresholds => exact h.of_recognition (fun _ => rfl) (fun _ _ => rfl) (Nat.le_refl _)

theorem Kept.scored (h : Kept obtained o) (hrun : Game.Scored T.gamePallet o o') : Kept obtained o' := by
  induction hrun with
  | refl => exact h
  | tail _ hstep ih => exact ih.scoring hstep

/-- A participant that has no id may leave. -/
theorem Kept.left (h : Kept obtained o) {who : AccountOrPerson T.AccountId}
    (hwho : ∀ p id, o.1.participants.get who = some p →
      p.recognition ≠ .recognized id ∧ p.recognition ≠ .suspended id) :
    Kept obtained (o.1.offboard T.services.toServices o.2 who) := by
  refine h.of_idless who hwho (fun p id hp => ?_) (fun other hne => ?_) ?_
  · have hnone : (o.1.participants.remove who).get who = none :=
      (StorageMap.get_remove _ _ _).trans (if_pos rfl)
    cases hnone.symm.trans hp
  · exact (StorageMap.get_remove _ _ _).trans (if_neg hne)
  · cases who <;> rfl

end Game
/-! ### What the score pallet does -/

section Score
variable {obtained : List (T.AccountId × Nat)} {s s' : Score.State T.scorePallet}

/-- A payment out of the pot leaves the people alone. -/
theorem people_of_payFromPot {destination : T.AccountId} {amount : Nat}
    (h : s.payFromPot destination amount = some s') : s'.world.1 = s.world.1 := by
  obtain ⟨⟨world, pot⟩, hpay, rfl⟩ := Option.map_eq_some_iff.mp h
  unfold Currency.pay at hpay
  split at hpay
  · rename_i world' pot' htransfer hspend
    cases hpay
    obtain ⟨r, -, rfl⟩ := Option.map_eq_some_iff.mp htransfer
    rfl
  · cases hpay

/-- Of the score pallet's calls only a registration changes the people. -/
theorem people_of_exec {block : Nat} {call : Score.Call T.scorePallet} (h : s.exec block call = .ok s')
    (hcall : isScoreCall call = true) (hregister : ∀ who key, call ≠ .register who key) :
    s'.world.1 = s.world.1 := by
  cases call with
  | schedulePayoutRounds amount count duration =>
    simp only [Score.State.exec, Score.State.schedulePayoutRounds, bind_eq_ok, okOr_eq_ok,
      Except.ok.injEq] at h
    obtain ⟨t, hhold, schedules, -, rfl⟩ := h
    obtain ⟨pot, -, rfl⟩ := Score.State.hold_eq_some hhold
    rfl
  | removePayoutSchedule index =>
    simp only [Score.State.exec, Score.State.removePayoutSchedule, bind_eq_ok, okOr_eq_ok,
      Except.ok.injEq] at h
    obtain ⟨schedule, -, ⟨t, released⟩, hrelease, rfl⟩ := h
    obtain ⟨pot, -, rfl⟩ := Score.State.release_eq_some hrelease
    rfl
  | transitionRound roundIndex =>
    simp only [Score.State.exec, Score.State.transitionRound, bind_eq_ok, ensure_eq_ok, exists_const,
      Except.ok.injEq] at h
    obtain ⟨-, rfl⟩ := h
    have hworld : ∀ t : Score.State T.scorePallet,
        t.finishRound.world = t.world ∧ (t.planRound block).world = t.world := by
      intro t
      unfold Score.State.finishRound Score.State.planRound
      constructor <;> split <;> rfl
    rw [(hworld _).2, (hworld s).1]
  | operatePayoutRound r limit =>
    simp only [Score.State.exec, Score.State.operatePayoutRound, bind_eq_ok, okOr_eq_ok,
      Except.ok.injEq] at h
    obtain ⟨round, -, rfl⟩ := h
    cases hpay : s.payRound r round limit with
    | none => rfl
    | some t => rw [Option.getD_some, Score.State.world_payRound hpay]
  | cashOut who =>
    simp only [Score.State.exec, Score.State.cashOut, bind_eq_ok, okOr_eq_ok, Except.ok.injEq] at h
    obtain ⟨p, -, -, -, -, -, rfl⟩ := h
    show (s.awardParticipantPayoutPoints (.account who) _).world.1 = s.world.1
    rw [Score.State.world_awardParticipantPayoutPoints]
  | redeemCredit who destination =>
    simp only [Score.State.exec, Score.State.redeemCredit, bind_eq_ok, okOr_eq_ok, Except.ok.injEq] at h
    obtain ⟨p, -, -, -, ⟨t, released⟩, hrelease, u, hpay, rfl⟩ := h
    obtain ⟨pot, -, rfl⟩ := Score.State.release_eq_some hrelease
    have hpaid : u.world.1 = ({ s with pot := pot } : Score.State _).world.1 := people_of_payFromPot hpay
    exact hpaid
  | register who key => exact absurd rfl (hregister who key)
  | setAbsenceGraceSchedule schedule =>
    simp only [Score.State.exec, Score.State.setAbsenceGraceSchedule, bind_eq_ok, Except.ok.injEq] at h
    obtain ⟨-, -, rfl⟩ := h
    rfl
  | setPersonhoodThresholdSchedule schedule =>
    simp only [Score.State.exec, Score.State.setPersonhoodThresholdSchedule, bind_eq_ok,
      Except.ok.injEq] at h
    obtain ⟨-, -, rfl⟩ := h
    rfl
  | _ => cases hcall

/-- Nor does any other call change what the score pallet has of a participant's personhood. -/
theorem recognition_of_exec {block : Nat} {call : Score.Call T.scorePallet}
    (h : s.exec block call = .ok s') (hcall : isScoreCall call = true)
    (hregister : ∀ who key, call ≠ .register who key) (who : AccountOrPerson T.AccountId) :
    (s'.store.participants.get who).map Participant.recognition =
      (s.store.participants.get who).map Participant.recognition := by
  have hchange := Score.State.exec_change (a := (block, call)) h who
  generalize s.store.participants.get who = record at hchange ⊢
  generalize s'.store.participants.get who = record' at hchange ⊢
  cases hchange with
  | kept => rfl
  | credited _ credit => rw [Option.map_map]; rfl
  | cashedOut p account hwho ha hnever => rfl
  | registered p account key world id hwho ha hreached hid => exact absurd ha (hregister account key)
  | attended p attended gameIndex ha | joined account hwho ha | joinedExternally id hwho ha | left _ ha =>
    dsimp only at ha
    subst ha
    cases hcall

/-- A registration brings a suspended person back in both pallets, or makes a person of an id
reserved for it. -/
theorem Kept.register (h : Kept obtained (s.store, s.world)) {who : T.AccountId}
    {key : Option (T.Member × T.Signature)} (hcall : s.register who key = .ok s')
    (hroom : key.isSome = true → s.world.1.nextPersonalId < U64.max) (game : Game.Store T.gamePallet) :
    Kept ((⟨game, s', obtained⟩ : State T).reservedBy (.register who key) ++ obtained)
      (s'.store, s'.world) := by
  simp only [Score.State.register, bind_eq_ok, okOr_eq_ok, ensure_eq_ok, exists_const,
    Except.ok.injEq] at hcall
  obtain ⟨p, hp, -, ⟨world, id⟩, hid, rfl⟩ := hcall
  have hothers : ∀ other, other ≠ .account who → (s.store.participants.insert (.account who)
      (p.registered id)).get other = s.store.participants.get other :=
    fun other hne => (StorageMap.get_insert _ _ _ _).trans (if_neg hne)
  have hself : (s.store.participants.insert (.account who) (p.registered id)).get (.account who) =
      some (p.registered id) := (StorageMap.get_insert _ _ _ _).trans (if_pos rfl)
  cases hr : p.recognition with
  | externallyRecognized | recognized id' =>
    simp only [Score.State.recognizeParticipant, hr, reduceCtorEq] at hid
  | suspended id' =>
    cases key with
    | some key => simp only [Score.State.recognizeParticipant, hr, reduceCtorEq] at hid
    | none =>
      simp only [Score.State.recognizeParticipant, hr, bind_eq_ok, okOr_eq_ok, Except.ok.injEq,
        Prod.mk.injEq] at hid
      obtain ⟨world', hworld, rfl, rfl⟩ := hid
      split at hworld
      · obtain ⟨people, hpeople, rfl⟩ := Option.map_eq_some_iff.mp hworld
        simp only [People.recognizePersonhood, Option.isSome_none, h.suspended (.account who) p id' hp hr,
          Option.some.injEq] at hpeople
        exact h.of_moved .recognized hp (.inr hr) hself (.inl ⟨rfl, rfl⟩) hothers hpeople.symm
      · cases hworld
  | notRecognized =>
    cases key with
    | none => simp only [Score.State.recognizeParticipant, hr, reduceCtorEq] at hid
    | some key =>
      simp only [Score.State.recognizeParticipant, hr, bind_eq_ok, okOr_eq_ok, ensure_eq_ok,
        exists_const, Except.ok.injEq, Prod.mk.injEq] at hid
      obtain ⟨-, world', hworld, rfl, rfl⟩ := hid
      split at hworld
      · obtain ⟨people, hpeople, rfl⟩ := Option.map_eq_some_iff.mp hworld
        simp only [People.recognizePersonhood, Option.isSome_some, Option.some.injEq] at hpeople
        have hnext : s.world.1.nextPersonalId < people.nextPersonalId := by
          rw [← hpeople]
          show _ < U64.saturatingAdd _ 1
          rw [U64.saturatingAdd_eq (hroom rfl)]
          exact Nat.lt_succ_self _
        let s' : State T := ⟨game, { s with world := (people, s.world.2) }.putParticipant (.account who)
          (p.registered s.world.1.nextPersonalId), obtained⟩
        have hrecognition : s'.recognition (.account who) = some (.recognized s.world.1.nextPersonalId) :=
          congrArg (Option.map Participant.recognition) hself
        have hreserved := State.reservedBy_register key hrecognition
        refine (congrArg (fun new => Kept (new ++ obtained) _) hreserved).mpr ?_
        refine h.of_obtained (fun q id hq => ?_) hself rfl hothers (fun id => ?_) hnext
        · cases hp.symm.trans hq
          rw [hr]
          exact ⟨Recognition.noConfusion, Recognition.noConfusion⟩
        · rw [← hpeople]
          exact StorageMap.get_insert _ _ _ _
      · cases hworld

end Score
/-! ### Runs -/

namespace State

/-- Whether a participant has an id, recognized or suspended. -/
def hasId (s : State T) (who : AccountOrPerson T.AccountId) : Bool :=
  match s.recognition who with
  | some (.recognized _) | some (.suspended _) => true
  | _ => false

/-- Nobody leaves who has an id, and a registration that reserves an id finds one left. -/
def Steady (s : State T) : Call T → Prop
  | .game _ (.offboard who) => s.hasId who = false
  | .game _ (.kickout player) => s.hasId (.account player) = false
  | .score _ (.register _ (some _)) => s.people.nextPersonalId < U64.max
  | _ => True

instance (s : State T) (call : Call T) : Decidable (s.Steady call) := by
  unfold Steady
  split <;> infer_instance

/-- Each id that the score pallet reserved and the people pallet recognizes is that of exactly one
recognized participant, what the score pallet has suspended is suspended, and no account obtains
two ids. -/
structure Accountable (s : State T) : Prop where
  recognized : ∀ id ∈ s.obtained.map Prod.snd, s.people.people.get id = some .recognized →
    ∃! who, s.recognition who = some (.recognized id)
  suspended : ∀ who id, s.recognition who = some (.suspended id) →
    s.people.people.get id = some .suspended
  once : (s.obtained.map Prod.fst).Nodup

variable {s s' : State T}

theorem recognition_eq_some {who : AccountOrPerson T.AccountId} {recognition : Recognition} :
    s.recognition who = some recognition ↔
      ∃ p, s.score.store.participants.get who = some p ∧ p.recognition = recognition :=
  Option.map_eq_some_iff

theorem idless_of_hasId {who : AccountOrPerson T.AccountId} (h : s.hasId who = false) (p : Participant)
    (id : Nat) (hp : s.score.store.participants.get who = some p) :
    p.recognition ≠ .recognized id ∧ p.recognition ≠ .suspended id := by
  constructor <;> intro hr <;> rw [hasId, recognition_eq_some.mpr ⟨p, hp, hr⟩] at h <;> cases h

theorem accountable_of_kept (h : Kept s.obtained (s.score.store, s.score.world)) : s.Accountable := by
  refine ⟨fun id hmem hrecognized => ?_, fun who id hsuspended => ?_, h.accounts⟩
  · obtain ⟨⟨account, _⟩, hx, rfl⟩ := List.mem_map.mp hmem
    obtain ⟨p, hp, hid⟩ := (h.holders (.account account) _).mpr ⟨account, rfl, hx⟩
    rcases hid with hid | hid
    · refine ⟨.account account, recognition_eq_some.mpr ⟨p, hp, hid⟩, fun other hother => ?_⟩
      obtain ⟨q, hq, hq'⟩ := recognition_eq_some.mp hother
      exact h.eq_of_id hq (.inl hq') hp (.inl hid)
    · have hget : s.people.people.get _ = some .suspended := h.suspended _ p _ hp hid
      rw [hrecognized] at hget
      cases hget
  · obtain ⟨p, hp, hid⟩ := recognition_eq_some.mp hsuspended
    exact h.suspended who p id hp hid

theorem kept_execGame {env : Game.Env T.gamePallet} {call : Game.Call T.gamePallet}
    (h : Kept s.obtained (s.score.store, s.score.world)) (hG : s.Steady (.game env call))
    (hexec : s.execGame env call = .ok s') : Kept s'.obtained (s'.score.store, s'.score.world) := by
  simp only [execGame, bind_eq_ok, ensure_eq_ok, exists_const, Except.ok.injEq] at hexec
  obtain ⟨hcall, game, hgame, rfl⟩ := hexec
  replace hgame := mapError_eq_ok.mp hgame
  cases call with
  | offboard who =>
    obtain ⟨w, hserved, houtside⟩ := Game.Store.offboard_outside hgame
    have hleft := (h.scored hserved).left (idless_of_hasId hG)
    rw [← houtside] at hleft
    exact hleft
  | kickout player =>
    have hleft := h.left (idless_of_hasId hG)
    have houtside := Game.Store.kickout_outside env hgame
    rw [← show game.outside = s.score.store.offboard _ _ _ from houtside] at hleft
    exact hleft
  | score score => cases hcall
  | elsewhere world => cases hcall
  | _ =>
    refine h.scored (Game.Store.exec_scored env hgame ?_ ?_ ?_ ?_)
    all_goals
      intro _ heq
      cases heq

theorem kept_execScore {block : Nat} {call : Score.Call T.scorePallet}
    (h : Kept s.obtained (s.score.store, s.score.world)) (hG : s.Steady (.score block call))
    (hexec : s.execScore block call = .ok s') : Kept s'.obtained (s'.score.store, s'.score.world) := by
  simp only [execScore, bind_eq_ok, ensure_eq_ok, exists_const, Except.ok.injEq] at hexec
  obtain ⟨hcall, score, hscore, rfl⟩ := hexec
  replace hscore := mapError_eq_ok.mp hscore
  by_cases hregister : ∃ who key, call = .register who key
  · obtain ⟨who, key, rfl⟩ := hregister
    refine h.register hscore (fun hkey => ?_) s.game
    obtain ⟨key, rfl⟩ := Option.isSome_iff_exists.mp hkey
    exact hG
  · have hnot : ∀ who key, call ≠ .register who key := fun who key heq => hregister ⟨who, key, heq⟩
    have hpeople := people_of_exec hscore hcall hnot
    have hnone : ∀ t : State T, t.reservedBy call = [] := by
      intro t
      unfold reservedBy
      split
      · exact absurd rfl (hnot _ _)
      · rfl
    show Kept (reservedBy _ call ++ s.obtained) (score.store, score.world)
    rw [hnone]
    exact h.of_recognition (fun who => recognition_of_exec hscore hcall hnot who)
      (fun x _ => by rw [hpeople]) (by rw [hpeople])

end State

/-- Where nobody leaves with an id and there is always an id left to reserve, every id reserved and
recognized is that of exactly one participant, the suspended are suspended in both pallets, and no
account obtains a second id. -/
theorem personhood_accountable {people : People} {rest : T.game.World} {s : State T}
    (hrun : Reaches State.exec (fun s call => s.Steady call) (State.genesis T people rest) s) :
    s.Accountable := by
  refine State.accountable_of_kept (hrun.invariant
    (I := fun s => Kept s.obtained (s.score.store, s.score.world)) ?_ ?_)
  · refine ⟨fun who id => ?_, ?_, ?_, List.nodup_nil, List.nodup_nil, ?_⟩
    · constructor
      · rintro ⟨p, hp, -⟩
        cases hp
      · rintro ⟨account, -, hmem⟩
        cases hmem
    · intro who p id hp
      cases hp
    · intro who p id hp
      cases hp
    · intro x hx
      cases hx
  · intro s call s' h hG hexec
    cases call with
    | game env call => exact State.kept_execGame h hG hexec
    | score block call => exact State.kept_execScore h hG hexec
    | elsewhere people rest pot =>
      simp only [State.exec, State.elsewhere, bind_eq_ok, ensure_eq_ok, exists_const,
        Except.ok.injEq] at hexec
      obtain ⟨⟨hnext, hpeople⟩, score, hscore, rfl⟩ := hexec
      replace hscore := mapError_eq_ok.mp hscore
      simp only [Score.State.elsewhere, bind_eq_ok, ensure_eq_ok, exists_const, Except.ok.injEq] at hscore
      obtain ⟨-, rfl⟩ := hscore
      exact h.of_recognition (fun _ => rfl) hpeople hnext

/-- An account signs up and registers. -/
theorem personhood_accountable_sample : ∃ s : State sampleConfig,
    s.obtained = [(sampleAccount 0, 0)] ∧ s.Accountable := by
  obtain ⟨s, hrun, hobtained⟩ := exists_reaches State.exec (fun s call => s.Steady call)
    (State.genesis sampleConfig ⟨0, ∅⟩ ()) (sampleJoins 100 0)
    (fun s => s.obtained = [(sampleAccount 0, 0)]) (by decide +kernel)
  exact ⟨s, hobtained, personhood_accountable hrun⟩

/-- A recognized person leaves once its game was killed: its id stays recognized with nobody to
answer for it, and the account registers again for another. -/
theorem personhood_accountable_fails : ∃ s : State sampleConfig,
    Reaches State.exec (fun _ _ => True) (State.genesis sampleConfig ⟨0, ∅⟩ ()) s ∧
    s.obtained = [(sampleAccount 0, 1), (sampleAccount 0, 0)] ∧
    s.people.people.get 0 = some .recognized ∧ (∀ who, s.recognition who ≠ some (.recognized 0)) ∧
    ¬ s.Accountable := by
  obtain ⟨s, hrun, hobtained, hrecognized, hnobody⟩ := exists_reaches State.exec (fun _ _ => True)
    (State.genesis sampleConfig ⟨0, ∅⟩ ())
    (sampleJoins 100 0 ++ [sampleCall 50 .killCurrentGame,
      sampleCall 50 (.offboard (.account (sampleAccount 0)))] ++ sampleJoins 200 0)
    (fun s => s.obtained = [(sampleAccount 0, 1), (sampleAccount 0, 0)] ∧
      s.people.people.get 0 = some .recognized ∧
      ∀ who ∈ s.score.store.participants.keys, s.recognition who ≠ some (.recognized 0))
    (by decide +kernel)
  refine ⟨s, hrun, hobtained, hrecognized, fun who hwho => ?_, fun h => ?_⟩
  · obtain ⟨p, hp, -⟩ := State.recognition_eq_some.mp hwho
    exact hnobody who ((StorageMap.mem_keys _ _).mpr (by rw [hp]; rfl)) hwho
  · have honce := h.once
    rw [hobtained] at honce
    exact absurd honce (by decide)

end Individuality.Personhood
