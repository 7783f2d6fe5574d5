import Individuality.Honour.Votes

/-! A vote is bestowed once.

Nothing numbers the transactions of a voter. While the point of an accepted vote
stays with its subject, the subject is marked for the voter; the point can be moved
only when it is no longer frozen, and moved back only a freeze later. By then the
call has died, since it lives for two freezes at most (`Spent`). -/
namespace Individuality.Honour
open Support
open Members (IdealProver)
variable {T : Config}

/-- The votes that were accepted, each with the time of its acceptance. -/
def accepted (c : Chain T) (a : Action T) (_ : Chain T) (log : List (Transaction T × Nat)) :
    List (Transaction T × Nat) :=
  match a with
  | .submit tx =>
    match tx.call with
    | .bestow _ _ => (tx, c.now) :: log
    | .other => log
  | _ => log

/-- The same call under the same proof. -/
def SameBestow (tx tx' : Transaction T) : Prop :=
  tx.call = tx'.call ∧ tx.voterAuth.map VoterAuthData.proof = tx'.voterAuth.map VoterAuthData.proof

/-- The point of a vote is still with its subject, or has been moved after the freeze. -/
structure Spent (V : IdealProver T.memberService) (s : Store T) (tx : Transaction T) (time : Nat)
    (auth : VoterAuthData T) (vote : VoteData) (callValidFrom : Nat) (info : PointInfo T) : Prop where
  auth_eq : tx.voterAuth = some auth
  call_eq : tx.call = .bestow vote callValidFrom
  valid_from : callValidFrom ≤ time
  point : s.points.get (pointAlias V (V.prover auth.proof) vote.point) = some info
  used : time ≤ info.lastUsedAt
  subject : info.subjectAlias = subjectAlias V (V.prover auth.proof) vote.subject ∨
    time + T.pointFreezeDuration ≤ info.lastUsedAt

def AllSpent (V : IdealProver T.memberService) (s : Store T) (log : List (Transaction T × Nat)) : Prop :=
  ∀ e ∈ log, ∃ auth vote callValidFrom info, Spent V s e.1 e.2 auth vote callValidFrom info

section Step
variable {V : IdealProver T.memberService} {c : Chain T} {tx tx' : Transaction T} {s' : Store T}
  {auth auth' : VoterAuthData T} {vote vote' : VoteData} {callValidFrom callValidFrom' time : Nat}
  {info : PointInfo T}

/-- The clock has not run out where a call is still alive, so no freeze is cut short. -/
theorem Bestowed.freeze_over (h : Bestowed V c tx s' auth vote callValidFrom)
    (hinfo : c.store.points.get (pointAlias V (V.prover auth.proof) vote.point) = some info) :
    info.lastUsedAt + T.pointFreezeDuration ≤ c.now := by
  have hto := h.valid_to
  have hfrozen := h.unfrozen
  simp only [isPointFrozen, hinfo, decide_eq_false_iff_not] at hfrozen
  simp only [U64.saturatingAdd] at hto hfrozen
  omega

/-- A call lives for two freezes at most. -/
theorem Bestowed.alive (h : Bestowed V c tx s' auth vote callValidFrom) :
    c.now < callValidFrom + 2 * T.pointFreezeDuration := by
  have hto := h.valid_to
  have hmortality := T.callMortality_le
  simp only [U64.saturatingAdd, U64.saturatingMul] at hto hmortality
  omega

theorem Spent.bestowed (hs : Spent V c.store tx' time auth' vote' callValidFrom' info)
    (h : Bestowed V c tx s' auth vote callValidFrom) :
    ∃ info', Spent V s' tx' time auth' vote' callValidFrom' info' := by
  by_cases hpoint : pointAlias V (V.prover auth'.proof) vote'.point =
      pointAlias V (V.prover auth.proof) vote.point
  · have hover := h.freeze_over (hpoint ▸ hs.point)
    have hused := hs.used
    refine ⟨voteInfo V (V.prover auth.proof) vote c.now, hs.auth_eq, hs.call_eq, hs.valid_from, ?_, ?_,
      .inr ?_⟩
    · rw [h.get_points, if_pos hpoint]
    · show time ≤ c.now
      omega
    · show time + T.pointFreezeDuration ≤ c.now
      omega
  · refine ⟨info, hs.auth_eq, hs.call_eq, hs.valid_from, ?_, hs.used, hs.subject⟩
    rw [h.get_points, if_neg hpoint, hs.point]

theorem Bestowed.spent (h : Bestowed V c tx s' auth vote callValidFrom) :
    ∃ info, Spent V s' tx c.now auth vote callValidFrom info := by
  refine ⟨voteInfo V (V.prover auth.proof) vote c.now, h.auth_eq, h.call_eq, h.valid_from, ?_, le_rfl, .inl rfl⟩
  rw [h.get_points, if_pos rfl]

/-- A spent vote is not accepted once more. -/
theorem Spent.not_same (hs : Spent V c.store tx' time auth' vote' callValidFrom' info)
    (hm : Marked c.store) (h : Bestowed V c tx s' auth vote callValidFrom) : ¬SameBestow tx tx' := by
  rintro ⟨hcall, hproof⟩
  rw [h.call_eq, hs.call_eq, Call.bestow.injEq] at hcall
  rw [h.auth_eq, hs.auth_eq, Option.map_some, Option.map_some, Option.some.injEq] at hproof
  obtain ⟨rfl, rfl⟩ := hcall
  have hpoint := hs.point
  have hsubject := hs.subject
  rw [← hproof] at hpoint hsubject
  rcases hsubject with hsubject | hlater
  · have hmarked := (hm.votes _).mpr ⟨_, info, hpoint, hsubject⟩
    rw [h.fresh] at hmarked
    cases hmarked
  · have hover := h.freeze_over hpoint
    have halive := h.alive
    have hfrom := hs.valid_from
    omega

end Step

/-- What is kept of a run's votes. -/
structure Journal (V : IdealProver T.memberService) (s : Store T) (log : List (Transaction T × Nat)) : Prop where
  marked : Marked s
  spent : AllSpent V s log
  distinct : log.Pairwise fun e e' => ¬SameBestow e.1 e'.1

theorem Journal.bestowed {V : IdealProver T.memberService} {c : Chain T} {log : List (Transaction T × Nat)}
    {tx : Transaction T} {s' : Store T} {auth : VoterAuthData T} {vote : VoteData} {callValidFrom : Nat}
    (hj : Journal V c.store log) (h : Bestowed V c tx s' auth vote callValidFrom) :
    Journal V s' ((tx, c.now) :: log) := by
  refine ⟨h.marked hj.marked, ?_, List.pairwise_cons.mpr ⟨?_, hj.distinct⟩⟩
  · intro e he
    rcases List.mem_cons.mp he with rfl | he
    · obtain ⟨info, hspent⟩ := h.spent
      exact ⟨auth, vote, callValidFrom, info, hspent⟩
    · obtain ⟨auth', vote', callValidFrom', info, hspent⟩ := hj.spent e he
      obtain ⟨info', hspent'⟩ := hspent.bestowed h
      exact ⟨auth', vote', callValidFrom', info', hspent'⟩
  · intro e he
    obtain ⟨auth', vote', callValidFrom', info, hspent⟩ := hj.spent e he
    exact hspent.not_same hj.marked h

theorem Journal.exec {V : IdealProver T.memberService} {c c' : Chain T} {a : Action T}
    {log : List (Transaction T × Nat)} (hj : Journal V c.store log) (h : Honour.exec c a = .ok c') :
    Journal V c'.store (accepted c a c' log) := by
  rcases exec_ok h with ⟨heq, hother⟩ | ⟨tx, rfl, hsubmit⟩
  · rw [heq]
    cases a with
    | submit tx => exact absurd rfl (hother tx)
    | elapse now => exact hj
    | elsewhere members => exact hj
  · rcases submit_ok V hsubmit with ⟨heq, hcall⟩ | ⟨auth, vote, callValidFrom, hbestowed⟩
    · rw [heq, accepted, hcall]
      exact hj
    · rw [accepted, hbestowed.call_eq]
      exact hj.bestowed hbestowed

/-- In every run, no two accepted votes are the same call under the same proof; and a vote that the
extension lets pass is bestowed by the call, in the state it was checked in. -/
theorem bestowed_once (V : IdealProver T.memberService) {now : Nat} {w : T.memberService.World}
    {r : Chain T × List (Transaction T × Nat)}
    (h : Reaches (noting exec accepted) (fun _ _ => True) (genesis now w, []) r) :
    (r.2.Pairwise fun e e' => ¬SameBestow e.1 e'.1) ∧
    ∀ (c : Chain T) (tx : Transaction T) auth origin, tx.voterAuth = some auth →
      validate c.members c.now c.store tx = .ok origin →
      ∃ s, dispatch origin c.now tx.call c.store = (.ok (), s) := by
  have hj : Journal V r.1.store r.2 := by
    refine Reaches.noted (G := fun _ _ => True) (I := fun c log => Journal V c.store log) h ?_
      fun c log a c' hj _ hexec => hj.exec hexec
    exact ⟨run_marked V (Reaches.refl (genesis now w)), nofun, List.Pairwise.nil⟩
  refine ⟨hj.distinct, fun c tx auth origin hauth hvalid => ?_⟩
  obtain ⟨vote, callValidFrom, aliases, hcall, -, -, -, -, hfresh, rfl⟩ := validate_ok hvalid hauth
  rw [hcall]
  exact ⟨_, bestow_fresh c.now vote callValidFrom hfresh⟩

theorem bestowed_once_sample : ∃ r, Reaches (noting exec accepted) (fun _ _ => True) (sampleGenesis, []) r ∧
    r.2.length = 3 ∧ r.2.Pairwise fun e e' => ¬SameBestow e.1 e'.1 := by
  obtain ⟨r, hreach, hlength⟩ := exists_reaches (noting exec accepted) (fun _ _ => True) (sampleGenesis, [])
    sampleActions (fun r => r.2.length = 3) (by decide +kernel)
  exact ⟨r, hreach, hlength, (bestowed_once Members.sampleIdeal hreach).1⟩

end Individuality.Honour
