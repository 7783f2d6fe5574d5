import Individuality.Honour.Calls

/-! The scores are the live votes.

A tally is the sum of the directions of the points that are directed to a subject
(`Tallied`), and the votes are the subject aliases of those points, each of one
point (`Marked`). A redirected point leaves both as if it had never been used, and
is then placed anew. A subject alias is one voter's (`Owned`), so no voter has two
points with one subject. -/
namespace Individuality.Honour
open Support
open Members (ContextualAlias IdealProver peopleIdentifier)
variable {T : Config} {s s' : Store T}

/-! ### What is kept -/

/-- The sum of the directions of the points directed to a subject. -/
def votesFor (s : Store T) (subject : SubjectId) : Int :=
  s.points.totalOf fun _ info => if info.subject = subject then info.direction.score else 0

/-- A subject whose votes add up to none has no tally. -/
def Tallied (s : Store T) : Prop :=
  ∀ subject, s.tally.get subject =
    if votesFor s subject = 0 then none else some (subjectDefaultScore + votesFor s subject)

/-- The votes are the subject aliases of the points. -/
structure Marked (s : Store T) : Prop where
  votes : ∀ a, s.votes.contains a = true ↔ ∃ p info, s.points.get p = some info ∧ info.subjectAlias = a
  once : ∀ p p' info info', s.points.get p = some info → s.points.get p' = some info' →
    info.subjectAlias = info'.subjectAlias → p = p'

/-- The two aliases of a point are one voter's. -/
def Owned (V : IdealProver T.memberService) (s : Store T) : Prop :=
  ∀ p info, s.points.get p = some info →
    ∃ m point, p = pointAlias V m point ∧ info.subjectAlias = subjectAlias V m info.subject

theorem abs_votesFor_le (s : Store T) (subject : SubjectId) : |votesFor s subject| ≤ s.points.size := by
  refine s.points.abs_totalOf_le_size fun _ info => ?_
  split
  · exact (Direction.abs_score _).le
  · exact abs_zero.le.trans zero_le_one

theorem I32.saturatingAdd_eq {a b : Int} (hlow : -2147483648 ≤ a + b) (hhigh : a + b ≤ 2147483647) :
    I32.saturatingAdd a b = a + b := by
  rw [I32.saturatingAdd]
  omega

/-! ### Tallies -/

@[simp] theorem points_tally (s : Store T) (subject : SubjectId) (d : Direction) :
    (tally s subject d).points = s.points := by
  unfold tally
  dsimp only
  split <;> rfl

@[simp] theorem votes_tally (s : Store T) (subject : SubjectId) (d : Direction) :
    (tally s subject d).votes = s.votes := by
  unfold tally
  dsimp only
  split <;> rfl

theorem get_tally (s : Store T) (subject x : SubjectId) (d : Direction) :
    (tally s subject d).tally.get x =
      if x = subject then
        if I32.saturatingAdd (read s subject) d.score = subjectDefaultScore then none
        else some (I32.saturatingAdd (read s subject) d.score)
      else s.tally.get x := by
  unfold tally
  dsimp only
  split
  · rename_i hdefault
    rw [StorageMap.get_remove]
    split
    · exact (if_pos hdefault).symm
    · rfl
  · rename_i hdefault
    rw [StorageMap.get_insert]
    split
    · exact (if_neg hdefault).symm
    · rfl

theorem Tallied.read_eq (h : Tallied s) (subject : SubjectId) :
    read s subject = subjectDefaultScore + votesFor s subject := by
  rw [read, h subject]
  split
  · rename_i hzero
    rw [hzero]
    rfl
  · rfl

/-- One vote more, or one less, moves the tally of its subject with it. -/
theorem Tallied.tally (h : Tallied s) {subject : SubjectId} {d : Direction}
    (htally : s'.tally = s.tally)
    (hvotes : ∀ x, votesFor s' x = votesFor s x + if x = subject then d.score else 0)
    (hfew : s'.points.size < 2147483648) : Tallied (tally s' subject d) := by
  have hread : Honour.read s' subject = subjectDefaultScore + votesFor s subject := by
    rw [Honour.read, htally]
    exact h.read_eq subject
  obtain ⟨hlow, hhigh⟩ := abs_le.mp (abs_votesFor_le s' subject)
  have hnew : subjectDefaultScore + votesFor s subject + d.score =
      subjectDefaultScore + votesFor s' subject := by
    rw [hvotes subject, if_pos rfl, add_assoc]
  intro x
  have hsame : votesFor (Honour.tally s' subject d) x = votesFor s' x := by
    rw [votesFor, points_tally]
    rfl
  rw [get_tally, hsame, hread, I32.saturatingAdd_eq, hnew]
  · split
    · rename_i hx
      subst hx
      exact if_congr ⟨fun hx => by omega, fun hx => by omega⟩ rfl rfl
    · rename_i hx
      rw [htally, h x, hvotes x, if_neg hx, add_zero]
  · rw [hnew, subjectDefaultScore]
    omega
  · rw [hnew, subjectDefaultScore]
    omega

/-! ### Taking and placing a point -/

theorem points_takePoint (s : Store T) (point : T.memberService.Alias) :
    (takePoint s point).points = s.points.remove point := by
  unfold takePoint
  split
  · rw [points_tally]
  · rename_i hget
    exact (StorageMap.remove_of_get_none hget).symm

@[simp] theorem points_placePoint (s : Store T) (now : Nat) (vote : VoteData) (aliases : VoteAliases T) :
    (placePoint s now vote aliases).points = s.points.insert aliases.pointAlias
      { subject := vote.subject, subjectAlias := aliases.subjectAlias, direction := vote.direction,
        lastUsedAt := now } := points_tally _ _ _

@[simp] theorem votes_placePoint (s : Store T) (now : Nat) (vote : VoteData) (aliases : VoteAliases T) :
    (placePoint s now vote aliases).votes = s.votes.insert aliases.subjectAlias () := votes_tally _ _ _

theorem Tallied.takePoint (h : Tallied s) (hfew : s.points.size < 2147483648)
    (point : T.memberService.Alias) : Tallied (takePoint s point) := by
  unfold Honour.takePoint
  split
  · rename_i old hget
    refine h.tally rfl (fun x => ?_) ((StorageMap.size_remove_le _ _).trans_lt hfew)
    show (s.points.remove point).totalOf _ = _
    rw [StorageMap.totalOf_remove, StorageMap.shareOf_some hget, votesFor, Direction.score_opposite,
      sub_eq_add_neg]
    congr 1
    by_cases hx : old.subject = x
    · rw [if_pos hx, if_pos hx.symm]
    · rw [if_neg hx, if_neg (Ne.symm hx), neg_zero]
  · exact h

theorem Tallied.placePoint (h : Tallied s) {now : Nat} {vote : VoteData} {aliases : VoteAliases T}
    (hnone : s.points.get aliases.pointAlias = none)
    (hfew : (placePoint s now vote aliases).points.size < 2147483648) :
    Tallied (placePoint s now vote aliases) := by
  rw [points_placePoint] at hfew
  refine h.tally rfl (fun x => ?_) hfew
  show (s.points.insert aliases.pointAlias _).totalOf _ = _
  rw [StorageMap.totalOf_insert, StorageMap.shareOf_none hnone, sub_zero]
  exact congrArg (votesFor s x + ·) (if_congr eq_comm rfl rfl)

theorem Marked.takePoint (h : Marked s) (point : T.memberService.Alias) : Marked (takePoint s point) := by
  refine ⟨fun a => ?_, ?_⟩
  · rw [points_takePoint]
    unfold Honour.takePoint
    split
    · rename_i old hget
      rw [votes_tally]
      simp only [StorageMap.contains, StorageMap.get_remove]
      constructor
      · intro ha
        split at ha
        · cases ha
        · rename_i hne
          obtain ⟨p, info, hp, hinfo⟩ := (h.votes a).mp ha
          refine ⟨p, info, ?_, hinfo⟩
          rw [if_neg, hp]
          rintro rfl
          cases hget.symm.trans hp
          exact hne hinfo.symm
      · rintro ⟨p, info, hp, rfl⟩
        split at hp
        · cases hp
        · rename_i hne
          rw [if_neg]
          · exact (h.votes _).mpr ⟨p, info, hp, rfl⟩
          · exact fun heq => hne (h.once p point info old hp hget heq)
    · rename_i hget
      rw [StorageMap.remove_of_get_none hget]
      exact h.votes a
  · rw [points_takePoint]
    intro p p' info info' hp hp' heq
    exact h.once p p' info info' (StorageMap.get_of_get_remove hp) (StorageMap.get_of_get_remove hp') heq

theorem Marked.placePoint (h : Marked s) {now : Nat} {vote : VoteData} {aliases : VoteAliases T}
    (hnone : s.points.get aliases.pointAlias = none)
    (hfresh : s.votes.contains aliases.subjectAlias = false) :
    Marked (placePoint s now vote aliases) := by
  -- No other point has the alias that is placed.
  have hother : ∀ p info, s.points.get p = some info → info.subjectAlias ≠ aliases.subjectAlias := by
    intro p info hp heq
    rw [(h.votes _).mpr ⟨p, info, hp, heq⟩] at hfresh
    cases hfresh
  refine ⟨fun a => ?_, ?_⟩
  · rw [votes_placePoint, points_placePoint]
    simp only [StorageMap.contains, StorageMap.get_insert]
    constructor
    · intro ha
      split at ha
      · rename_i heq
        exact ⟨aliases.pointAlias, _, if_pos rfl, heq.symm⟩
      · obtain ⟨p, info, hp, hinfo⟩ := (h.votes a).mp ha
        refine ⟨p, info, ?_, hinfo⟩
        rw [if_neg, hp]
        rintro rfl
        cases hnone.symm.trans hp
    · rintro ⟨p, info, hp, rfl⟩
      split at hp
      · cases hp
        rw [if_pos rfl]
        rfl
      · split
        · rfl
        · exact (h.votes _).mpr ⟨p, info, hp, rfl⟩
  · rw [points_placePoint]
    intro p p' info info' hp hp' heq
    rw [StorageMap.get_insert] at hp hp'
    split at hp <;> split at hp'
    · rename_i hp₁ hp₂
      rw [hp₁, hp₂]
    · cases hp
      exact absurd heq.symm (hother p' info' hp')
    · cases hp'
      exact absurd heq (hother p info hp)
    · exact h.once p p' info info' hp hp' heq

/-! ### Accepted votes -/

/-- The aliases that an ideal proof gives of its voter. -/
def voteAliases (V : IdealProver T.memberService) (m : V.Member) (vote : VoteData) : VoteAliases T :=
  ⟨subjectAlias V m vote.subject, pointAlias V m vote.point⟩

/-- The record of a voter's point. -/
def voteInfo (V : IdealProver T.memberService) (m : V.Member) (vote : VoteData) (now : Nat) : PointInfo T :=
  ⟨vote.subject, subjectAlias V m vote.subject, vote.direction, now⟩

theorem validateVoteProof_ok (V : IdealProver T.memberService) {w : T.memberService.World}
    {vote : VoteData} {message : T.memberService.Message} {auth : VoterAuthData T} {aliases : VoteAliases T}
    (h : validateVoteProof w vote message auth = .ok aliases) :
    aliases = voteAliases V (V.prover auth.proof) vote := by
  simp only [validateVoteProof, bind_eq_ok, okOr_eq_ok] at h
  obtain ⟨found, hfound, h⟩ := h
  obtain ⟨rfl, -⟩ := V.sound_multi hfound
  simp only [VoteData.getContexts, List.map_cons, List.map_nil, ne_eq, not_true_eq_false, if_false,
    Except.ok.injEq] at h
  exact h.symm

/-- What a transaction that bestows a vote has passed, and what it leaves. -/
structure Bestowed (V : IdealProver T.memberService) (c : Chain T) (tx : Transaction T) (s' : Store T)
    (auth : VoterAuthData T) (vote : VoteData) (callValidFrom : Nat) : Prop where
  auth_eq : tx.voterAuth = some auth
  call_eq : tx.call = .bestow vote callValidFrom
  valid_from : callValidFrom ≤ c.now
  valid_to : c.now < U64.saturatingAdd callValidFrom T.callMortality
  unfrozen : isPointFrozen c.store (pointAlias V (V.prover auth.proof) vote.point) c.now = false
  fresh : c.store.votes.contains (subjectAlias V (V.prover auth.proof) vote.subject) = false
  result : s' = placePoint (takePoint c.store (pointAlias V (V.prover auth.proof) vote.point)) c.now vote
    (voteAliases V (V.prover auth.proof) vote)

/-- Taking a point back marks no subject. -/
theorem contains_takePoint {a : T.memberService.Alias} (h : s.votes.contains a = false)
    (point : T.memberService.Alias) : (takePoint s point).votes.contains a = false := by
  unfold takePoint
  split
  · rw [votes_tally]
    simp only [StorageMap.contains, StorageMap.get_remove] at h ⊢
    split
    · rfl
    · exact h
  · exact h

/-- The subject of an accepted vote is unmarked, so the vote is placed. -/
theorem doBestow_fresh (now : Nat) (vote : VoteData) {aliases : VoteAliases T}
    (h : s.votes.contains aliases.subjectAlias = false) :
    doBestow now vote aliases s = (.ok (), placePoint (takePoint s aliases.pointAlias) now vote aliases) := by
  rw [doBestow, if_neg]
  rw [contains_takePoint h]
  exact Bool.false_ne_true

theorem bestow_fresh (now : Nat) (vote : VoteData) (callValidFrom : Nat) {aliases : VoteAliases T}
    (h : s.votes.contains aliases.subjectAlias = false) :
    bestow (.voter aliases) now vote callValidFrom s =
      (.ok (), placePoint (takePoint s aliases.pointAlias) now vote aliases) :=
  withStorageLayer_ok.mpr (doBestow_fresh now vote h)

theorem validate_ok {c : Chain T} {tx : Transaction T} {origin : Origin T}
    (h : validate c.members c.now c.store tx = .ok origin) {auth : VoterAuthData T}
    (hauth : tx.voterAuth = some auth) :
    ∃ vote callValidFrom aliases, tx.call = .bestow vote callValidFrom ∧ callValidFrom ≤ c.now ∧
      c.now < U64.saturatingAdd callValidFrom T.callMortality ∧
      validateVoteProof c.members vote tx.message auth = .ok aliases ∧
      isPointFrozen c.store aliases.pointAlias c.now = false ∧
      c.store.votes.contains aliases.subjectAlias = false ∧ origin = .voter aliases := by
  unfold validate at h
  rw [hauth] at h
  simp only [bind_eq_ok, ensure_eq_ok] at h
  obtain ⟨-, -, h⟩ := h
  split at h
  · cases h
  · rename_i vote callValidFrom hcall
    simp only [bind_eq_ok, ensure_eq_ok, mapError_eq_ok, Except.ok.injEq] at h
    obtain ⟨-, hfrom, -, hto, aliases, haliases, -, hfrozen, -, hfresh, rfl⟩ := h
    exact ⟨vote, callValidFrom, aliases, hcall, hfrom, hto, haliases, hfrozen, hfresh, rfl⟩

/-- A transaction bestows a vote, or does not touch the pallet. -/
theorem submit_ok (V : IdealProver T.memberService) {c : Chain T} {tx : Transaction T}
    (h : submit c tx = .ok s') :
    s' = c.store ∧ tx.call = .other ∨
      ∃ auth vote callValidFrom, Bestowed V c tx s' auth vote callValidFrom := by
  simp only [submit, bind_eq_ok, mapError_eq_ok] at h
  obtain ⟨origin, horigin, h⟩ := h
  cases hauth : tx.voterAuth with
  | none =>
    cases hcall : tx.call with
    | other =>
      rw [hcall] at h
      cases h
      exact .inl ⟨rfl, rfl⟩
    | bestow vote callValidFrom =>
      rw [validate, hauth] at horigin
      cases horigin
      rw [hcall] at h
      cases hauthorized : tx.authorized <;> rw [hauthorized] at h <;> cases h
  | some auth =>
    obtain ⟨vote, callValidFrom, aliases, hcall, hfrom, hto, haliases, hfrozen, hfresh, rfl⟩ :=
      validate_ok horigin hauth
    rw [hcall, dispatch, bestow_fresh _ _ _ hfresh] at h
    cases h
    obtain rfl := validateVoteProof_ok V haliases
    exact .inr ⟨auth, vote, callValidFrom, hauth, hcall, hfrom, hto, hfrozen, hfresh, rfl⟩

/-! ### Runs -/

section Invariants
variable {V : IdealProver T.memberService} {c : Chain T} {tx : Transaction T} {auth : VoterAuthData T}
  {vote : VoteData} {callValidFrom : Nat}

theorem Bestowed.points (h : Bestowed V c tx s' auth vote callValidFrom) :
    s'.points = (c.store.points.remove (pointAlias V (V.prover auth.proof) vote.point)).insert
      (pointAlias V (V.prover auth.proof) vote.point) (voteInfo V (V.prover auth.proof) vote c.now) := by
  rw [h.result, points_placePoint, points_takePoint]
  rfl

theorem Bestowed.get_points (h : Bestowed V c tx s' auth vote callValidFrom) (p : T.memberService.Alias) :
    s'.points.get p = if p = pointAlias V (V.prover auth.proof) vote.point then
      some (voteInfo V (V.prover auth.proof) vote c.now) else c.store.points.get p := by
  rw [h.points, StorageMap.get_insert, StorageMap.get_remove]
  split <;> rfl

theorem Bestowed.size_le (h : Bestowed V c tx s' auth vote callValidFrom) :
    c.store.points.size ≤ s'.points.size := by
  refine StorageMap.size_le_size fun p hp => ?_
  rw [h.get_points]
  split
  · rfl
  · exact hp

theorem Bestowed.get_taken (_ : Bestowed V c tx s' auth vote callValidFrom) :
    (takePoint c.store (pointAlias V (V.prover auth.proof) vote.point)).points.get
      (voteAliases V (V.prover auth.proof) vote).pointAlias = none := by
  rw [points_takePoint, StorageMap.get_remove]
  exact if_pos rfl

theorem Bestowed.marked (h : Bestowed V c tx s' auth vote callValidFrom) (hm : Marked c.store) :
    Marked s' := by
  rw [h.result]
  exact (hm.takePoint _).placePoint h.get_taken (contains_takePoint h.fresh _)

theorem Bestowed.tallied (h : Bestowed V c tx s' auth vote callValidFrom) (ht : Tallied c.store)
    (hfew : s'.points.size < 2147483648) : Tallied s' := by
  have hbefore := h.size_le.trans_lt hfew
  rw [h.result] at hfew ⊢
  exact (ht.takePoint hbefore _).placePoint h.get_taken hfew

theorem Bestowed.owned (h : Bestowed V c tx s' auth vote callValidFrom) (ho : Owned V c.store) :
    Owned V s' := by
  intro p info hp
  rw [h.get_points] at hp
  split at hp
  · rename_i heq
    cases hp
    exact ⟨_, vote.point, heq, rfl⟩
  · exact ho p info hp

end Invariants

/-- An action submits a transaction, or leaves the pallet alone. -/
theorem exec_ok {c c' : Chain T} {a : Action T} (h : exec c a = .ok c') :
    (c'.store = c.store ∧ ∀ tx, a ≠ .submit tx) ∨ ∃ tx, a = .submit tx ∧ submit c tx = .ok c'.store := by
  cases a with
  | elapse now =>
    simp only [exec, bind_eq_ok, pure_eq_ok] at h
    obtain ⟨-, -, rfl⟩ := h
    exact .inl ⟨rfl, fun _ heq => by cases heq⟩
  | elsewhere members =>
    cases h
    exact .inl ⟨rfl, fun _ heq => by cases heq⟩
  | submit tx =>
    simp only [exec, bind_eq_ok, pure_eq_ok] at h
    obtain ⟨s, hs, rfl⟩ := h
    exact .inr ⟨tx, rfl, hs⟩

/-- What a bestowed vote carries, a run carries. -/
theorem run_invariant (V : IdealProver T.memberService) {I : Store T → Prop} {c c' : Chain T}
    (h : Reaches exec (fun _ _ => True) c c') (h₀ : I c.store)
    (step : ∀ d tx s' auth vote callValidFrom, I d.store →
      Bestowed V d tx s' auth vote callValidFrom → I s') : I c'.store := by
  refine h.invariant (I := fun d => I d.store) h₀ fun d a d' hd _ hexec => ?_
  rcases exec_ok hexec with ⟨heq, -⟩ | ⟨tx, -, hsubmit⟩
  · rw [heq]
    exact hd
  · rcases submit_ok V hsubmit with ⟨heq, -⟩ | ⟨auth, vote, callValidFrom, hbestowed⟩
    · rw [heq]
      exact hd
    · exact step d tx _ auth vote callValidFrom hd hbestowed

theorem run_marked (V : IdealProver T.memberService) {now : Nat} {w : T.memberService.World} {c : Chain T}
    (h : Reaches exec (fun _ _ => True) (genesis now w) c) : Marked c.store :=
  run_invariant V h ⟨fun _ => ⟨nofun, fun ⟨_, _, hp, _⟩ => by cases hp⟩, nofun⟩
    fun _ _ _ _ _ _ hm hbestowed => hbestowed.marked hm

theorem run_owned (V : IdealProver T.memberService) {now : Nat} {w : T.memberService.World} {c : Chain T}
    (h : Reaches exec (fun _ _ => True) (genesis now w) c) : Owned V c.store :=
  run_invariant V h nofun fun _ _ _ _ _ _ ho hbestowed => hbestowed.owned ho

/-- Points are never given up, so few at the end are few all along. -/
theorem run_tallied (V : IdealProver T.memberService) {now : Nat} {w : T.memberService.World} {c : Chain T}
    (h : Reaches exec (fun _ _ => True) (genesis now w) c) (hfew : c.store.points.size < 2147483648) :
    Tallied c.store :=
  run_invariant V (I := fun s => s.points.size < 2147483648 → Tallied s) h (fun _ _ => rfl)
    (fun _ _ _ _ _ _ ht hbestowed hsize =>
      hbestowed.tallied (ht (hbestowed.size_le.trans_lt hsize)) hsize) hfew

/-- A voter has one point with a subject at most. -/
theorem Marked.one_vote {V : IdealProver T.memberService} (hm : Marked s) (ho : Owned V s) (hV : OneVoter V)
    {m : V.Member} {p p' : PointId} {info info' : PointInfo T}
    (hp : s.points.get (pointAlias V m p) = some info)
    (hp' : s.points.get (pointAlias V m p') = some info') (hsubject : info.subject = info'.subject) :
    p = p' := by
  obtain ⟨n, q, hn, hinfo⟩ := ho _ _ hp
  obtain ⟨n', q', hn', hinfo'⟩ := ho _ _ hp'
  obtain ⟨rfl, -⟩ := hV.point hn
  obtain ⟨rfl, -⟩ := hV.point hn'
  have halias : info.subjectAlias = info'.subjectAlias := by rw [hinfo, hinfo', hsubject]
  exact (hV.point (hm.once _ _ _ _ hp hp' halias)).2

/-- In every state reached, with fewer than 2^31 points: the score of a subject is the default plus
the directions of the points that are with it, and has an entry where it is not the default; the
votes are the subject aliases of the points, each of one point, and no voter has two points with
one subject. A call that fails leaves everything as it was. -/
theorem scores_are_live_votes (V : IdealProver T.memberService) (hV : OneVoter V) {now : Nat}
    {w : T.memberService.World} {c : Chain T} (h : Reaches exec (fun _ _ => True) (genesis now w) c)
    (hfew : c.store.points.size < 2147483648) :
    (∀ subject, read c.store subject = -1 + c.store.points.totalOf fun _ info =>
      if info.subject = subject then info.direction.score else 0) ∧
    (∀ subject, c.store.tally.contains subject = true ↔ read c.store subject ≠ -1) ∧
    (∀ a, c.store.votes.contains a = true ↔
      ∃ p info, c.store.points.get p = some info ∧ info.subjectAlias = a) ∧
    (∀ p p' info info', c.store.points.get p = some info → c.store.points.get p' = some info' →
      info.subjectAlias = info'.subjectAlias → p = p') ∧
    (∀ m p p' info info', c.store.points.get (pointAlias V m p) = some info →
      c.store.points.get (pointAlias V m p') = some info' → info.subject = info'.subject → p = p') ∧
    (∀ origin time vote callValidFrom e s', bestow origin time vote callValidFrom c.store = (.error e, s') →
      s' = c.store) := by
  have hmarked := run_marked V h
  have htallied := run_tallied V h hfew
  refine ⟨htallied.read_eq, fun subject => ?_, hmarked.votes, hmarked.once,
    fun m p p' info info' hp hp' => hmarked.one_vote (run_owned V h) hV hp hp', ?_⟩
  · rw [htallied.read_eq subject, StorageMap.contains, htallied subject, subjectDefaultScore]
    split
    · rename_i hzero
      rw [hzero]
      exact ⟨fun hfalse => (by cases hfalse), fun hne => absurd rfl hne⟩
    · rename_i hne
      exact ⟨fun _ heq => hne (by omega), fun _ => rfl⟩
  · intro origin time vote callValidFrom e s' hfail
    cases origin with
    | voter aliases => exact withStorageLayer_error hfail
    | none => cases hfail; rfl
    | other => cases hfail; rfl

/-! ### A sample run -/

/-- A day's freeze and five minutes' mortality, over a hash that keeps the last bytes. -/
def sampleConfig : Config where
  memberService := Members.sampleProver
  twox256 bytes := padded 32 0 (bytes.drop (bytes.length - 32))
  pointFreezeDuration := 86400
  callMortality := 300
  callMortality_le := by decide

theorem sample_oneVoter : OneVoter (T := sampleConfig) Members.sampleIdeal := by
  constructor
  · intro m m' p p' h
    obtain ⟨hm, hc⟩ := Members.sampleIdeal_injective _ _ _ _ h
    refine ⟨hm, ?_⟩
    have hbytes := padded_injective (by simp [context.pointContextPrefix, ascii]) (by simp) hc
    simpa [context.pointContextPrefix, ascii] using hbytes
  · intro m m' x x' h
    obtain ⟨hm, hc⟩ := Members.sampleIdeal_injective _ _ _ _ h
    refine ⟨hm, ?_⟩
    have hbytes := padded_injective (by simp [context.subjectContextPrefix, ascii]) (by simp) hc
    simpa [context.subjectContextPrefix, ascii, Vector.toList_inj] using hbytes

def sampleSubject (n : Nat) : SubjectId := Vector.replicate 32 n.toUInt8

/-- The transaction of a member that directs a point of its own. -/
def sampleVote (member point subject callValidFrom : Nat) (direction : Direction) :
    Transaction sampleConfig where
  authorized := false
  voterAuth := some ⟨(member, 0), 0, 0⟩
  call := .bestow ⟨sampleSubject subject, point.toUInt8, direction⟩ callValidFrom
  message := (0 : Nat)

/-- Two members vote for a subject, and one of them moves its point to another a day later. -/
def sampleActions : List (Action sampleConfig) :=
  [.submit (sampleVote 1 0 5 0 .honourable), .submit (sampleVote 2 3 5 0 .honourable),
    .elapse 86400, .submit (sampleVote 1 0 6 86400 .dishonourable)]

def sampleGenesis : Chain sampleConfig := genesis 0 fun _ => [1, 2]

theorem scores_are_live_votes_sample : ∃ c, Reaches exec (fun _ _ => True) sampleGenesis c ∧
    read c.store (sampleSubject 6) = -2 ∧
    ∀ subject, read c.store subject = -1 + c.store.points.totalOf fun _ info =>
      if info.subject = subject then info.direction.score else 0 := by
  obtain ⟨c, hreach, hfew, hread⟩ := exists_reaches exec (fun _ _ => True) sampleGenesis sampleActions
    (fun c => c.store.points.size < 2147483648 ∧ read c.store (sampleSubject 6) = -2) (by decide +kernel)
  exact ⟨c, hreach, hread, (scores_are_live_votes Members.sampleIdeal sample_oneVoter hreach hfew).1⟩

end Individuality.Honour
