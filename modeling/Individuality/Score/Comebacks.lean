import Individuality.Score.Changes

/-! Personhood that was lost by an absence, and how it comes back.

An absence that breaks the allowance suspends a person, whatever its score; to come
back it is to attend again and reach the threshold. But `register` tests the score,
and an absence too may find that the score has reached the threshold: where the
score that the absences leave is at the threshold already, or the threshold falls to
it, neither asks for an attendance. `StaysOut` is the condition that this does not
happen, and `no_comeback` is the claim for the runs under it. -/
namespace Individuality.Score
open Support

namespace Store
variable {A W : Type} [DecidableEq A] {s : Store A} {p : Participant} {attended : Bool} {gameIndex : Nat}

omit [DecidableEq A] in
/-- The score after an absence, where absences cost. -/
theorem score_attend_absent (h : p.recognition ≠ .externallyRecognized) :
    (s.attend p false gameIndex).score = p.score - (p.streak.addAbsence 1).absence := by
  have hexternal : p.recognition.isExternallyRecognized = false := by
    cases hr : p.recognition <;> first | rfl | exact absurd hr h
  simp [attend, hexternal]

omit [DecidableEq A] in
/-- A person that loses its personhood is neither recognized nor credited with it. -/
theorem afterAttendance_of_loses (h : s.losesPersonhood p attended gameIndex = true) :
    (s.afterAttendance p attended gameIndex).reachedPersonhood = false ∧
      (s.afterAttendance p attended gameIndex).recognition ≠ .externallyRecognized ∧
      ∀ id, (s.afterAttendance p attended gameIndex).recognition ≠ .recognized id := by
  have hsuspends : s.suspends (s.attend p attended gameIndex) = true :=
    (Bool.and_eq_true_iff.mp h).2
  simp only [suspends, recognition_attend, reachedPersonhood_attend, Bool.and_eq_true] at hsuspends
  obtain ⟨hreached, hrecognition⟩ := hsuspends
  simp only [afterAttendance, h, recognition_attend, reachedPersonhood_attend, hreached, Bool.not_true,
    Bool.false_and, Bool.false_eq_true, if_false, if_true]
  refine ⟨trivial, ?_⟩
  cases hr : p.recognition with
  | externallyRecognized => rw [hr] at hrecognition; cases hrecognition
  | notRecognized => simp
  | suspended id => simp
  | recognized id => simp

omit [DecidableEq A] in
/-- Only losing it suspends a person or takes back that it has reached personhood. -/
theorem loses_of_afterAttendance
    (h : (∃ id, (s.afterAttendance p attended gameIndex).recognition = .suspended id ∧
        p.recognition ≠ .suspended id) ∨
      p.reachedPersonhood = true ∧ (s.afterAttendance p attended gameIndex).reachedPersonhood = false) :
    s.losesPersonhood p attended gameIndex = true := by
  by_contra hkeeps
  rw [Bool.not_eq_true] at hkeeps
  simp only [afterAttendance, hkeeps, recognition_attend, reachedPersonhood_attend, Bool.false_eq_true,
    if_false] at h
  rcases h with ⟨id, hsuspended, hnot⟩ | ⟨hreached, hlost⟩
  · cases hr : p.recognition with
    | suspended id' =>
      rw [hr] at hsuspended hnot
      exact hnot hsuspended
    | externallyRecognized => rw [hr] at hsuspended; cases hsuspended
    | notRecognized => rw [hr] at hsuspended; cases hsuspended
    | recognized id' => rw [hr] at hsuspended; cases hsuspended
  · rw [hreached] at hlost
    simp at hlost

end Store

namespace State
variable {T : Config}

/-- A participant that neither is a person nor has the score of one on record. -/
def IsOut (s : State T) (who : T.Who) : Prop :=
  ∃ p, s.store.participants.get who = some p ∧ p.reachedPersonhood = false ∧
    p.recognition ≠ .externallyRecognized ∧ ∀ id, p.recognition ≠ .recognized id

/-- The calls that leave a participant out: it does not attend, and neither an absence nor a
registration finds its score at the threshold. -/
def StaysOut (who : T.Who) (s : State T) : Action T → Prop
  | (_, .setAttendance other attended _) => other = who → attended = false ∧
      ∀ p ∈ s.store.participants.get who,
        p.score - (p.streak.addAbsence 1).absence < s.store.personhoodThreshold
  | (_, .register account _) => .account account = who →
      ∀ p ∈ s.store.participants.get who, p.score < s.store.personhoodThreshold
  | (_, .offboard other) => other ≠ who
  | _ => True

instance (who : T.Who) (s : State T) (a : Action T) : Decidable (s.StaysOut who a) := by
  obtain ⟨block, call⟩ := a
  apply Call.casesOn (motive := fun call => Decidable (s.StaysOut who (block, call))) call <;> intros <;>
    dsimp only [StaysOut] <;> infer_instance

variable {s s' : State T} {who : T.Who} {a : Action T}

/-- A participant that is out cannot register. -/
theorem IsOut.register_fails (h : s.IsOut who) (hG : s.StaysOut who a) (hcall : s.execAction a = .ok s')
    {account : T.AccountId} {key : Option (T.Member × T.Signature)} (ha : a.2 = .register account key) :
    .account account ≠ who := by
  obtain ⟨block, call⟩ := a
  cases ha
  rintro rfl
  obtain ⟨p, hget, hreached, -⟩ := h
  have hbelow : p.score < s.store.personhoodThreshold := hG rfl p hget
  simp only [execAction, exec, register, hget, bind_eq_ok, okOr_eq_ok, Option.some.injEq, ensure_eq_ok,
    exists_const, exists_eq_left'] at hcall
  obtain ⟨hor, -⟩ := hcall
  rcases hor with htrue | hle
  · rw [hreached] at htrue
    cases htrue
  · exact absurd hle (Nat.not_le_of_lt hbelow)

theorem IsOut.step (h : s.IsOut who) (hG : s.StaysOut who a) (hcall : s.execAction a = .ok s') :
    s'.IsOut who := by
  have hchange := exec_change hcall who
  have hregister : ∀ account key, a.2 = .register account key → .account account ≠ who :=
    fun account key => h.register_fails hG hcall
  obtain ⟨p, hget, hreached, hexternal, hrecognized⟩ := h
  rw [hget] at hchange
  obtain ⟨block, call⟩ := a
  dsimp only at hchange
  generalize hget' : s'.store.participants.get who = record' at hchange
  cases hchange with
  | kept => exact ⟨p, hget', hreached, hexternal, hrecognized⟩
  | credited _ credit => exact ⟨_, hget', hreached, hexternal, hrecognized⟩
  | attended _ attended gameIndex ha =>
    subst ha
    obtain ⟨rfl, hbelow⟩ := hG rfl
    have hscore : (s.store.attend p false gameIndex).score < s.store.personhoodThreshold := by
      rw [Store.score_attend_absent hexternal]
      exact hbelow p hget
    refine ⟨_, hget', ?_, ?_, ?_⟩
    · simp only [Store.afterAttendance, Store.reachedPersonhood_attend, hreached,
        decide_eq_false (Nat.not_le_of_lt hscore), Bool.and_false, Bool.false_eq_true, if_false, ite_self]
    · cases hr : p.recognition <;> simp_all [Store.afterAttendance]
    · cases hr : p.recognition <;> simp_all [Store.afterAttendance]
  | cashedOut _ account hwho ha hnever => exact ⟨_, hget', hreached, hexternal, hrecognized⟩
  | registered _ account key world id hwho ha hor hid => exact absurd hwho.symm (hregister account key ha)
  | left _ ha =>
    subst ha
    exact absurd rfl hG

end State

/-- Once an absence has suspended a participant, or taken back that it reached personhood, neither
comes back while it does not attend, as long as no registration and no absence finds its score at
the threshold. -/
theorem no_comeback {T : Config} {s s₁ s₂ : State T} {who : T.Who} {gameIndex : Nat} {p p₁ : Participant}
    (hp : s.store.participants.get who = some p) (hset : s.setAttendance who false gameIndex = .ok s₁)
    (hp₁ : s₁.store.participants.get who = some p₁)
    (hlost : (∃ id, p₁.recognition = .suspended id ∧ p.recognition ≠ .suspended id) ∨
      p.reachedPersonhood = true ∧ p₁.reachedPersonhood = false)
    (hrun : Reaches State.execAction (fun s a => s.StaysOut who a) s₁ s₂) :
    (∃ p₂, s₂.store.participants.get who = some p₂ ∧ p₂.reachedPersonhood = false) ∧
      ∀ a s₃, s₂.StaysOut who a → s₂.execAction a = .ok s₃ →
        ∀ account key, a.2 = .register account key → .account account ≠ who := by
  have hout : s₁.IsOut who := by
    unfold State.setAttendance at hset
    split at hset
    · rename_i store world p' hset'
      cases hset
      obtain ⟨q, hq, rfl, rfl, -⟩ := Store.setAttendance_eq_ok hset'
      cases hp.symm.trans hq
      have hget : (s.store.participants.insert who (s.store.afterAttendance p false gameIndex)).get who =
          some (s.store.afterAttendance p false gameIndex) := by
        rw [StorageMap.get_insert, if_pos rfl]
      cases hget.symm.trans hp₁
      exact ⟨_, hp₁, Store.afterAttendance_of_loses (Store.loses_of_afterAttendance hlost)⟩
    · cases hset
  have hout₂ : s₂.IsOut who :=
    hrun.invariant (I := fun s => s.IsOut who) hout fun _ _ _ hs hG hcall => hs.step hG hcall
  obtain ⟨p₂, hp₂, hreached, -⟩ := id hout₂
  exact ⟨⟨p₂, hp₂, hreached⟩, fun a s₃ hG hcall account key ha => hout₂.register_fails hG hcall ha⟩

/-- A person that attended four games, registered, attended two more and missed the last two. -/
def samplePerson (more : Nat) : List (State.Action sampleConfig) :=
  [(0, .setAbsenceGraceSchedule ⟨defaultAbsenceGraceTiers, by decide⟩),
    (0, .setPersonhoodThresholdSchedule ⟨defaultPersonhoodThresholdTiers, by decide⟩),
    (0, .onboardForRecognition (sampleAccount 1)), (0, .startAttendanceReportSession),
    (0, .setAttendance (sampleWho 1) true 1), (0, .setAttendance (sampleWho 1) true 2),
    (0, .setAttendance (sampleWho 1) true 3), (0, .setAttendance (sampleWho 1) true 4),
    (0, .register (sampleAccount 1) (some ((), ())))] ++
  List.replicate more (0, .setAttendance (sampleWho 1) true 5) ++
  [(0, .setAttendance (sampleWho 1) false 6), (0, .setAttendance (sampleWho 1) false 7)]

/-- A third absence suspends a person with a score of four, and a fourth changes nothing. -/
theorem no_comeback_sample : ∃ s₂ : State sampleConfig, ∃ p₂,
    s₂.store.participants.get (sampleWho 1) = some p₂ ∧ p₂.reachedPersonhood = false := by
  obtain ⟨s, -, hs⟩ := exists_reaches State.execAction (fun _ _ => True) (State.genesis sampleConfig ())
    (samplePerson 0)
    (fun s => ((s.store.participants.get (sampleWho 1)).any fun p => decide (p.recognition = .recognized 0)) &&
      (s.setAttendance (sampleWho 1) false 8).toOption.any fun s₁ =>
        ((s₁.store.participants.get (sampleWho 1)).any fun p => decide (p.recognition = .suspended 0)) &&
        decide (s₁.StaysOut (sampleWho 1) (0, .setAttendance (sampleWho 1) false 9)) &&
        (s₁.execAction (0, .setAttendance (sampleWho 1) false 9)).toOption.isSome)
    (by decide +kernel)
  simp only [Bool.and_eq_true, Option.any_eq_true, decide_eq_true_eq, Option.isSome_iff_exists,
    toOption_eq_some] at hs
  obtain ⟨⟨p, hp, hrecognized⟩, s₁, hset, ⟨⟨p₁, hp₁, hsuspended⟩, hout⟩, s₂, hnext⟩ := hs
  refine ⟨s₂, (no_comeback hp hset hp₁ (.inl ⟨0, hsuspended, ?_⟩) ((Reaches.refl s₁).tail hout hnext)).1⟩
  rw [hrecognized]
  exact Recognition.noConfusion

/-- A third absence suspends a person with a score of fifteen where ten is enough: it registers at
once, and another absence makes it reach personhood. -/
theorem no_comeback_fails : ∃ s s₁ : State sampleConfig,
    Reaches State.execAction (fun _ _ => True) (State.genesis sampleConfig ()) s ∧
    s.setAttendance (sampleWho 1) false 8 = .ok s₁ ∧
    ((s.store.participants.get (sampleWho 1)).map Participant.recognition = some (.recognized 0) ∧
      (s₁.store.participants.get (sampleWho 1)).map Participant.recognition = some (.suspended 0)) ∧
    (∃ s₂, s₁.register (sampleAccount 1) none = .ok s₂) ∧
    ∃ s₂, s₁.setAttendance (sampleWho 1) false 9 = .ok s₂ ∧
      (s₂.store.participants.get (sampleWho 1)).map Participant.reachedPersonhood = some true := by
  obtain ⟨s, hrun, hs⟩ := exists_reaches State.execAction (fun _ _ => True)
    (State.genesis sampleConfig ()) (samplePerson 2)
    (fun s => (s.setAttendance (sampleWho 1) false 8).toOption.any fun s₁ =>
      decide ((s.store.participants.get (sampleWho 1)).map Participant.recognition = some (.recognized 0) ∧
        (s₁.store.participants.get (sampleWho 1)).map Participant.recognition = some (.suspended 0)) &&
      (s₁.register (sampleAccount 1) none).toOption.isSome &&
      (s₁.setAttendance (sampleWho 1) false 9).toOption.any fun s₂ =>
        decide ((s₂.store.participants.get (sampleWho 1)).map Participant.reachedPersonhood = some true))
    (by decide +kernel)
  simp only [Bool.and_eq_true, Option.any_eq_true, decide_eq_true_eq, Option.isSome_iff_exists,
    toOption_eq_some] at hs
  obtain ⟨s₁, hset, ⟨hsuspended, hregister⟩, habsent⟩ := hs
  exact ⟨s, s₁, hrun, hset, hsuspended, hregister, habsent⟩

end Individuality.Score
