import Individuality.Game.Steps

/-! Staging: the first step of the shuffle.

While players are staged, those that the walk is through with stand under one hash
in each round, among the recognized or among the others as they were found, and
nobody else stands anywhere (`Staging`). The count of what is staged is the same in
all rounds, which is what lets the retrieval take one player from each. -/
namespace Individuality.Game
open Support
variable {T : Config}

namespace Config

/-- No two players have one hash in a round. -/
def CollisionFree (T : Config) : Prop :=
  ∀ round hash hash' p p', T.shuffleHash hash p round = T.shuffleHash hash' p' round → p = p'

end Config

namespace Core
variable {c : Core T}

/-- How many are staged for a round. -/
def stagedCount (c : Core T) (b : Bool) (round : RoundIndex) : Nat :=
  (c.staged b).countOf fun key _ => key.1 = round

theorem isRegistered_putPlayer (c : Core T) (who playerId : T.PlayerId) (player : Player T.PlayDeposit) :
    (c.putPlayer who player).isRegistered playerId =
      if playerId = who then player.registered else c.isRegistered playerId := by
  unfold isRegistered putPlayer
  rw [StorageMap.get_insert]
  split <;> rfl

/-- Writing a record that is registered as before changes no registration. -/
theorem isRegistered_putPlayer_same {who : T.PlayerId} {player : Player T.PlayDeposit}
    (h : player.registered = c.isRegistered who) (playerId : T.PlayerId) :
    (c.putPlayer who player).isRegistered playerId = c.isRegistered playerId := by
  rw [isRegistered_putPlayer]
  split
  · rename_i heq
    rw [heq, h]
  · rfl

/-- The players that are registered and pass `p`. -/
def countWhere (c : Core T) (p : T.PlayerId → Bool) : Nat :=
  c.players.countOf fun playerId player => player.registered && p playerId

theorem countWhere_eq_registeredCount {p : T.PlayerId → Bool}
    (h : ∀ playerId, c.isRegistered playerId = true → p playerId = true) :
    c.countWhere p = c.registeredCount := by
  refine StorageMap.countOf_congr fun playerId player hget => ?_
  cases hr : player.registered with
  | false => rfl
  | true => rw [h playerId (c.isRegistered_iff.mpr ⟨player, hget, hr⟩)]; rfl

/-- Two cores whose players are registered alike count the same. -/
theorem countWhere_congr {c' : Core T} {p q : T.PlayerId → Bool}
    (hplayers : ∀ playerId, c'.isRegistered playerId = c.isRegistered playerId)
    (h : ∀ playerId, c.isRegistered playerId = true → p playerId = q playerId) :
    c'.countWhere p = c.countWhere q := by
  have hany : ∀ (d : Core T) (f : T.PlayerId → Bool) (playerId : T.PlayerId),
      (d.players.get playerId).any (fun player => player.registered && f playerId) =
        (d.isRegistered playerId && f playerId) := by
    intro d f playerId
    unfold isRegistered
    cases d.players.get playerId <;> rfl
  refine StorageMap.countOf_eq_of_any fun playerId => ?_
  rw [hany, hany, hplayers]
  cases hr : c.isRegistered playerId with
  | false => rfl
  | true => rw [h playerId hr]

theorem registeredCount_congr {c' : Core T}
    (h : ∀ playerId, c'.isRegistered playerId = c.isRegistered playerId) :
    c'.registeredCount = c.registeredCount :=
  StorageMap.countOf_eq_of_any h

theorem countWhere_false (c : Core T) : c.countWhere (fun _ => false) = 0 :=
  StorageMap.countOf_eq_zero_iff.mpr fun _ player _ => Bool.and_false player.registered

/-- One more player passes. -/
theorem countWhere_or {pass : T.PlayerId → Bool} {who : T.PlayerId} (hpass : pass who = false) :
    c.countWhere (fun playerId => pass playerId || playerId == who) =
      c.countWhere pass + if c.isRegistered who then 1 else 0 := by
  have h := StorageMap.countOf_update (m := c.players) (k := who)
    (p := fun playerId (player : Player T.PlayDeposit) =>
      player.registered && (pass playerId || playerId == who))
    (q := fun playerId player => player.registered && pass playerId)
    fun playerId player hne => by rw [beq_eq_false_iff_ne.mpr hne, Bool.or_false]
  unfold countWhere isRegistered
  unfold StorageMap.countAt at h
  cases hp : c.players.get who with
  | none =>
    rw [hp] at h
    simpa using h
  | some player =>
    rw [hp] at h
    cases hr : player.registered <;> simp [hr, hpass] at h ⊢ <;> omega

end Core

/-! ### The staged players -/

/-- Those that the walk is through with are staged, once in each round, among the recognized if
noted so; nobody else is. -/
structure Staging (c : Core T) (pass note : T.PlayerId → Bool) (rounds : Nat) : Prop where
  entry : ∀ b r h p, (c.staged b).get (r, h) = some p → r < rounds ∧ c.isRegistered p = true ∧
    pass p = true ∧ note p = b ∧ ∃ parentHash, h = T.shuffleHash parentHash p r
  unique : ∀ b r h h' p, (c.staged b).get (r, h) = some p → (c.staged b).get (r, h') = some p → h = h'
  complete : ∀ p r, c.isRegistered p = true → pass p = true → r < rounds →
    ∃ h, (c.staged (note p)).get (r, h) = some p
  count : ∃ total : Bool → Nat, (∀ b r, r < rounds → c.stagedCount b r = total b) ∧
    total true + total false = c.countWhere pass

namespace Staging
variable {c c' : Core T} {pass note : T.PlayerId → Bool} {rounds : Nat}

/-- Nobody is staged before the walk. -/
theorem start (h : c.Clear) (note : T.PlayerId → Bool) (rounds : Nat) :
    Staging c (fun _ => false) note rounds where
  entry b r k p hget := by
    rw [h.staged] at hget
    cases hget
  unique b r k k' p hget := by
    rw [h.staged] at hget
    cases hget
  complete p r _ hpass := Bool.noConfusion hpass
  count := by
    refine ⟨fun _ => 0, fun b r _ => ?_, c.countWhere_false.symm⟩
    refine StorageMap.countOf_eq_zero_iff.mpr fun k p hget => ?_
    rw [h.staged] at hget
    cases hget

/-- What a staging says depends on the registrations and on who is passed, among the registered. -/
theorem congr {pass' note' : T.PlayerId → Bool} (h : Staging c pass note rounds)
    (hstaged : c'.staged = c.staged) (hplayers : ∀ p, c'.isRegistered p = c.isRegistered p)
    (hpass : ∀ p, c.isRegistered p = true → pass' p = pass p)
    (hnote : ∀ p, c.isRegistered p = true → pass p = true → note' p = note p) :
    Staging c' pass' note' rounds where
  entry b r k p hget := by
    rw [hstaged] at hget
    obtain ⟨hr, hreg, hp, hn, hhash⟩ := h.entry b r k p hget
    exact ⟨hr, (hplayers p).trans hreg, (hpass p hreg).trans hp, (hnote p hreg hp).trans hn, hhash⟩
  unique b r k k' p := by
    rw [hstaged]
    exact h.unique b r k k' p
  complete p r hreg hp hr := by
    rw [hplayers] at hreg
    rw [hpass p hreg] at hp
    rw [hstaged, hnote p hreg hp]
    exact h.complete p r hreg hp hr
  count := by
    obtain ⟨total, htotal, hsum⟩ := h.count
    refine ⟨total, fun b r hr => ?_, ?_⟩
    · unfold Core.stagedCount
      rw [hstaged]
      exact htotal b r hr
    · rw [hsum]
      exact (Core.countWhere_congr hplayers fun p hreg => hpass p hreg).symm

/-- One player was staged, under one key in each round. -/
structure Added (c c' : Core T) (who : T.PlayerId) (b : Bool) (key : RoundIndex → Nat) (rounds : Nat) :
    Prop where
  other : c'.staged (!b) = c.staged (!b)
  get : ∀ r h, (c'.staged b).get (r, h) =
    if r < rounds ∧ h = key r then some who else (c.staged b).get (r, h)
  count : (∀ r, r < rounds → (c.staged b).get (r, key r) = none) →
    ∀ r, c'.stagedCount b r = c.stagedCount b r + if r < rounds then 1 else 0

/-- The walk stages a registered player that it was not through with. -/
theorem stage {who : T.PlayerId} {parentHash : T.Hash} (h : Staging c pass note rounds)
    (hfree : T.CollisionFree) (hplayers : ∀ p, c'.isRegistered p = c.isRegistered p)
    (hreg : c.isRegistered who = true) (hnew : pass who = false)
    (hadded : Added c c' who (note who) (T.shuffleHash parentHash who) rounds) :
    Staging c' (fun p => pass p || p == who) note rounds := by
  have hfresh : ∀ r, (c.staged (note who)).get (r, T.shuffleHash parentHash who r) = none := by
    intro r
    cases hget : (c.staged (note who)).get (r, T.shuffleHash parentHash who r) with
    | none => rfl
    | some p =>
      obtain ⟨-, -, hp, -, hash, hhash⟩ := h.entry _ _ _ _ hget
      rw [← hfree _ _ _ _ _ hhash, hnew] at hp
      cases hp
  -- An entry afterwards is one of the new ones, or was there before.
  have hcases : ∀ b r k p, (c'.staged b).get (r, k) = some p →
      (p = who ∧ b = note who ∧ r < rounds ∧ k = T.shuffleHash parentHash who r) ∨
        (c.staged b).get (r, k) = some p := by
    intro b r k p hget
    by_cases hb : b = note who
    · rw [hb] at hget ⊢
      rw [hadded.get] at hget
      split at hget
      · rename_i hkey
        exact .inl ⟨(Option.some.inj hget).symm, rfl, hkey.1, hkey.2⟩
      · exact .inr hget
    · rw [Bool.eq_not_of_ne hb, hadded.other] at hget
      rw [Bool.eq_not_of_ne hb]
      exact .inr hget
  have hold : ∀ b r k p, (c.staged b).get (r, k) = some p → p ≠ who := by
    rintro b r k p hget rfl
    rw [(h.entry b r k p hget).2.2.1] at hnew
    cases hnew
  refine ⟨?_, ?_, ?_, ?_⟩
  · intro b r k p hget
    rcases hcases b r k p hget with ⟨rfl, rfl, hr, hk⟩ | hget
    · exact ⟨hr, (hplayers p).trans hreg, by rw [beq_self_eq_true, Bool.or_true], rfl, parentHash, hk⟩
    · obtain ⟨hr, hp, hpass, hn, hhash⟩ := h.entry b r k p hget
      exact ⟨hr, (hplayers p).trans hp, by rw [hpass, Bool.true_or], hn, hhash⟩
  · intro b r k k' p hget hget'
    rcases hcases b r k p hget with ⟨rfl, -, -, hk⟩ | hget
    · rcases hcases b r k' p hget' with ⟨-, -, -, hk'⟩ | hget'
      · rw [hk, hk']
      · exact absurd rfl (hold b r k' p hget')
    · rcases hcases b r k' p hget' with ⟨rfl, -⟩ | hget'
      · exact absurd rfl (hold b r k p hget)
      · exact h.unique b r k k' p hget hget'
  · intro p r hp hpass hr
    by_cases heq : p = who
    · refine ⟨T.shuffleHash parentHash who r, ?_⟩
      rw [heq, hadded.get, if_pos ⟨hr, rfl⟩]
    · rw [beq_eq_false_iff_ne.mpr heq, Bool.or_false] at hpass
      obtain ⟨k, hk⟩ := h.complete p r ((hplayers p).symm.trans hp) hpass hr
      refine ⟨k, ?_⟩
      by_cases hb : note p = note who
      · rw [hb] at hk ⊢
        rw [hadded.get, if_neg, hk]
        rintro ⟨-, rfl⟩
        rw [hfresh] at hk
        cases hk
      · rw [Bool.eq_not_of_ne hb] at hk ⊢
        rw [hadded.other, hk]
  · obtain ⟨total, htotal, hsum⟩ := h.count
    refine ⟨fun b => if b = note who then total b + 1 else total b, fun b r hr => ?_, ?_⟩
    · by_cases hb : b = note who
      · simp only [if_pos hb]
        rw [hb, hadded.count (fun r _ => hfresh r) r, if_pos hr, htotal _ r hr]
      · simp only [if_neg hb]
        rw [← htotal b r hr, Bool.eq_not_of_ne hb]
        unfold Core.stagedCount
        rw [hadded.other]
    · have hcount : c'.countWhere (fun p => pass p || p == who) = c.countWhere pass + 1 := by
        rw [Core.countWhere_congr hplayers fun _ _ => rfl, Core.countWhere_or hnew, if_pos hreg]
      rw [hcount, ← hsum]
      cases note who <;> simp <;> omega

end Staging

namespace Store
variable {env : Env T} {s : Store T}

/-- Staging a player in a range of rounds adds its entries and touches nothing else. -/
theorem foldl_stagePlayer_spec (env : Env T) (s : Store T) (b : Bool) (who : T.PlayerId) (rounds : Nat) :
    Staging.Added s.core ((List.range rounds).foldl (fun s r => s.stagePlayer env b who r) s).core
        who b (T.shuffleHash env.parentHash who) rounds ∧
      ((List.range rounds).foldl (fun s r => s.stagePlayer env b who r) s).core =
        { s.core with
          staged := ((List.range rounds).foldl (fun s r => s.stagePlayer env b who r) s).core.staged } ∧
      ((List.range rounds).foldl (fun s r => s.stagePlayer env b who r) s).score = s.score := by
  induction rounds with
  | zero =>
    refine ⟨⟨rfl, fun r h => ?_, fun _ r => by rw [if_neg (Nat.not_lt_zero r)]; rfl⟩, rfl, rfl⟩
    rw [if_neg fun hr => Nat.not_lt_zero r hr.1]
    rfl
  | succ rounds ih =>
    rw [List.range_succ, List.foldl_append, List.foldl_cons, List.foldl_nil]
    generalize (List.range rounds).foldl (fun s r => s.stagePlayer env b who r) s = t at ih
    obtain ⟨hadded, hcore, hscore⟩ := ih
    have hstaged : (t.stagePlayer env b who rounds).core.staged b =
        (t.core.staged b).insert (rounds, T.shuffleHash env.parentHash who rounds) who := by
      cases b <;> rfl
    have hother : (t.stagePlayer env b who rounds).core.staged (!b) = t.core.staged (!b) := by
      cases b <;> rfl
    have hrest : (t.stagePlayer env b who rounds).core =
        { t.core with staged := (t.stagePlayer env b who rounds).core.staged } := by
      cases b <;> rfl
    refine ⟨⟨hother.trans hadded.other, fun r h => ?_, fun hfresh r => ?_⟩, ?_, ?_⟩
    · rw [hstaged, StorageMap.get_insert, hadded.get]
      by_cases hkey : (r, h) = (rounds, T.shuffleHash env.parentHash who rounds)
      · cases hkey
        rw [if_pos rfl, if_pos ⟨Nat.lt_succ_self _, rfl⟩]
      · rw [if_neg hkey]
        refine if_congr ⟨fun hr => ⟨Nat.lt_succ_of_lt hr.1, hr.2⟩, fun hr => ⟨?_, hr.2⟩⟩ rfl rfl
        refine lt_of_le_of_ne (Nat.le_of_lt_succ hr.1) ?_
        rintro rfl
        exact hkey (Prod.ext rfl hr.2)
    · have hbefore := hadded.count (fun r hr => hfresh r (Nat.lt_succ_of_lt hr)) r
      have hinsert := (t.core.staged b).countOf_insert (fun key _ => key.1 = r)
        (rounds, T.shuffleHash env.parentHash who rounds) who
      have hnone : (t.core.staged b).get (rounds, T.shuffleHash env.parentHash who rounds) = none := by
        rw [hadded.get, if_neg fun hr => Nat.lt_irrefl _ hr.1]
        exact hfresh rounds (Nat.lt_succ_self rounds)
      rw [← hstaged, StorageMap.countAt, hnone, Option.any_none, if_neg Bool.false_ne_true] at hinsert
      unfold Core.stagedCount at hbefore ⊢
      rw [hbefore] at hinsert
      refine hinsert.trans ?_
      rcases Nat.lt_trichotomy r rounds with hlt | heq | hgt
      · simp [hlt, Nat.lt_succ_of_lt hlt, hlt.ne']
      · simp [heq]
      · simp [hgt.ne, Nat.not_lt_of_lt hgt, Nat.not_lt_of_le hgt]
    · rw [hrest, hcore]
    · cases b <;> exact hscore

end Store
end Individuality.Game
