import Individuality.Game.Rosters
import Mathlib.Algebra.Group.Action.Defs
import Mathlib.Algebra.Order.BigOperators.Group.List

/-! Early and late attendance agree.

Of the votes that the other members of a player's groups can give it, the shuffle
computes the weight together, and a report counts each member's at most once: while
a game is in its reporting, a player's tallies hold exactly the weights of those that
have reported (`Tallied`), never more than the weight expected. So what is decided on
partial tallies is what the final ones give. -/
namespace Individuality.Game
open Support
variable {T : Config}

namespace Core
variable {c c' : Core T} {f g : Player T.PlayDeposit → Nat} {r : RoundIndex} {i : PlayerIndex}

/-- What `f` measures of the player at an index. -/
def measureAt (c : Core T) (f : Player T.PlayDeposit → Nat) (r : RoundIndex) (i : PlayerIndex) : Nat :=
  ((c.indexToPlayer.get (r, i)).bind c.players.get).elim 0 f

/-- What `f` measures of the other members of a player's groups, together. -/
def sumOthers (c : Core T) (f : Player T.PlayDeposit → Nat) (game : GameInfo T.PlayerId) (n : Nat)
    (indices : List PlayerIndex) : Nat :=
  ((List.range game.rounds).map fun r =>
    ((Store.othersIn game n indices r).map (c.measureAt f r)).sum).sum

variable {game game' : GameInfo T.PlayerId} {n : Nat} {indices : List PlayerIndex}

theorem othersIn_congr (hgroup : game'.maxGroupSize = game.maxGroupSize) :
    Store.othersIn game' n indices r = Store.othersIn game n indices r := by
  unfold Store.othersIn
  rw [hgroup]

theorem sumOthers_congr (h : ∀ r i, c'.measureAt g r i = c.measureAt f r i)
    (hrounds : game'.rounds = game.rounds) (hgroup : game'.maxGroupSize = game.maxGroupSize) :
    c'.sumOthers g game' n indices = c.sumOthers f game n indices := by
  unfold sumOthers
  rw [hrounds]
  refine congrArg List.sum (List.map_congr_left fun r _ => ?_)
  rw [othersIn_congr hgroup]
  exact congrArg List.sum (List.map_congr_left fun i _ => h r i)

theorem sumOthers_mono (h : ∀ r i, c.measureAt f r i ≤ c.measureAt g r i) :
    c.sumOthers f game n indices ≤ c.sumOthers g game n indices := by
  refine List.sum_le_sum fun r _ => ?_
  exact List.sum_le_sum fun i _ => h r i

/-- No more than the largest measure for each other member of each group. -/
theorem sumOthers_le {w : Nat} (hn : n ≤ U32.max) (h : ∀ r i, c.measureAt f r i ≤ w)
    (hindices : ∀ (r : RoundIndex) (i : PlayerIndex), indices[r]? = some i → i < n) :
    c.sumOthers f game n indices ≤ game.rounds * ((game.maxGroupSize - 1) * w) := by
  have hround : ∀ r ∈ (List.range game.rounds).map fun r =>
      ((Store.othersIn game n indices r).map (c.measureAt f r)).sum,
      r ≤ (game.maxGroupSize - 1) * w := by
    intro x hx
    obtain ⟨r, -, rfl⟩ := List.mem_map.mp hx
    unfold Store.othersIn
    split
    · rename_i i hi
      have hlength := GroupsSetting.length_otherMembers (g := ⟨game.maxGroupSize, n⟩) hn
        (hindices r i hi)
      have hsum := List.sum_le_card_nsmul (((GroupsSetting.otherMembers
        ⟨game.maxGroupSize, n⟩ i)).map (c.measureAt f r)) w fun x hx => by
          obtain ⟨j, -, rfl⟩ := List.mem_map.mp hx
          exact h r j
      rw [List.length_map, smul_eq_mul] at hsum
      exact hsum.trans (Nat.mul_le_mul_right w hlength)
    · exact Nat.zero_le _
  have hsum := List.sum_le_card_nsmul _ _ hround
  rwa [List.length_map, List.length_range, smul_eq_mul] at hsum

/-- More of one player's measure counts once for each of its indices among the others'. -/
theorem sumOthers_add {who : T.PlayerId} {w : Nat}
    (h : ∀ r i, c'.measureAt g r i =
      c.measureAt f r i + if c.indexToPlayer.get (r, i) = some who then w else 0) :
    c'.sumOthers g game n indices = c.sumOthers f game n indices +
      w * Store.votesIn c game n indices (List.range game.rounds) who := by
  have hgroup : ∀ r (l : List PlayerIndex), (l.map (c'.measureAt g r)).sum =
      (l.map (c.measureAt f r)).sum +
        w * l.countP fun i => c.indexToPlayer.get (r, i) = some who := by
    intro r l
    induction l with
    | nil => rfl
    | cons i l ih =>
      rw [List.map_cons, List.sum_cons, List.map_cons, List.sum_cons, List.countP_cons, ih, h]
      by_cases hi : c.indexToPlayer.get (r, i) = some who
      · simp only [hi, if_true, decide_true, Nat.mul_add]
        omega
      · simp only [hi, if_false, decide_false, Bool.false_eq_true, Nat.add_zero]
        omega
  unfold sumOthers Store.votesIn
  generalize List.range game.rounds = rounds
  induction rounds with
  | nil => rfl
  | cons r rounds ih =>
    simp only [List.map_cons, List.sum_cons, Nat.mul_add]
    rw [ih, hgroup]
    omega

end Core

/-! ### Votes go both ways -/

namespace Shuffled
variable {c : Core T} {note : T.PlayerId → Bool} {rounds n : Nat} {p q : T.PlayerId}
  {indices indices' : BoundedVec PlayerIndex T.maxRounds}

theorem length_eq (h : Shuffled c note rounds n) (hp : c.playerToIndex.get p = some indices) :
    indices.length = rounds := by
  cases hreg : c.isRegistered p with
  | true =>
    obtain ⟨indices', hindices', hlength⟩ := (h.registered p).mp hreg
    cases hp.symm.trans hindices'
    exact hlength
  | false =>
    rw [h.indices p hreg] at hp
    cases hp

theorem get_index_iff (h : Shuffled c note rounds n) (hp : c.playerToIndex.get p = some indices)
    {r : RoundIndex} {i : PlayerIndex} :
    c.indexToPlayer.get (r, i) = some p ↔ indices.toList[r]? = some i := by
  rw [h.inverse]
  constructor
  · rintro ⟨v, hv, hi⟩
    cases hp.symm.trans hv
    exact hi
  · intro hi
    exact ⟨indices, hp, hi⟩

theorem index_lt (h : Shuffled c note rounds n) (hp : c.playerToIndex.get p = some indices)
    {r : RoundIndex} {i : PlayerIndex} (hi : indices.toList[r]? = some i) : i < n := by
  have hindex := (h.get_index_iff hp).mpr hi
  exact ((h.index_isSome r i).mp (by rw [hindex]; rfl)).2

/-- A player at an index is registered. -/
theorem registered_of_index (h : Shuffled c note rounds n) {r : RoundIndex} {i : PlayerIndex}
    (hi : c.indexToPlayer.get (r, i) = some p) : c.isRegistered p = true := by
  obtain ⟨indices, hindices, -⟩ := (h.inverse r i p).mp hi
  cases hreg : c.isRegistered p with
  | true => rfl
  | false =>
    rw [h.indices p hreg] at hindices
    cases hindices

/-- A player stands among the others of a group once, or not at all. -/
theorem countP_otherMembers (h : Shuffled c note rounds n) (hn : n ≤ U32.max)
    (hp : c.playerToIndex.get p = some indices) {r : RoundIndex} {i j g : Nat} (hj : j < n)
    (hi : indices.toList[r]? = some i) :
    ((GroupsSetting.otherMembers ⟨g, n⟩ j).countP fun k => c.indexToPlayer.get (r, k) = some p) =
      if i ∈ GroupsSetting.otherMembers ⟨g, n⟩ j then 1 else 0 := by
  have hcount : ((GroupsSetting.otherMembers ⟨g, n⟩ j).countP fun k =>
      c.indexToPlayer.get (r, k) = some p) = (GroupsSetting.otherMembers ⟨g, n⟩ j).count i := by
    unfold List.count
    refine List.countP_congr fun k _ => ?_
    rw [decide_eq_true_iff, beq_iff_eq, h.get_index_iff hp, hi, Option.some.injEq, eq_comm]
  rw [hcount]
  split
  · rename_i hmem
    exact List.count_eq_one_of_mem (GroupsSetting.nodup_otherMembers hn hj) hmem
  · rename_i hmem
    exact List.count_eq_zero_of_not_mem hmem

/-- A player gives another as many votes as it would get from it. -/
theorem votesIn_comm {game : GameInfo T.PlayerId} (h : Shuffled c note game.rounds n)
    (hn : n ≤ U32.max) (hp : c.playerToIndex.get p = some indices)
    (hq : c.playerToIndex.get q = some indices') :
    Store.votesIn c game n indices.toList (List.range game.rounds) q =
      Store.votesIn c game n indices'.toList (List.range game.rounds) p := by
  unfold Store.votesIn
  refine congrArg List.sum (List.map_congr_left fun r hr => ?_)
  have hr : r < game.rounds := List.mem_range.mp hr
  have hlt : r < indices.toList.length := lt_of_lt_of_eq hr (Eq.symm (h.length_eq hp))
  have hlt' : r < indices'.toList.length := lt_of_lt_of_eq hr (Eq.symm (h.length_eq hq))
  obtain ⟨i, hi⟩ : ∃ i, indices.toList[r]? = some i := ⟨_, List.getElem?_eq_getElem hlt⟩
  obtain ⟨j, hj⟩ : ∃ j, indices'.toList[r]? = some j := ⟨_, List.getElem?_eq_getElem hlt'⟩
  have hothers : Store.othersIn game n indices.toList r =
      GroupsSetting.otherMembers ⟨game.maxGroupSize, n⟩ i := by
    unfold Store.othersIn
    rw [hi]
  have hothers' : Store.othersIn game n indices'.toList r =
      GroupsSetting.otherMembers ⟨game.maxGroupSize, n⟩ j := by
    unfold Store.othersIn
    rw [hj]
  rw [hothers, hothers', h.countP_otherMembers hn hq (h.index_lt hp hi) hj,
    h.countP_otherMembers hn hp (h.index_lt hq hj) hi]
  exact if_congr (GroupsSetting.otherMembers_comm hn (h.index_lt hp hi) (h.index_lt hq hj)) rfl rfl

end Shuffled

/-! ### What the tallies hold -/

/-- Nothing was reported by a player, nor about it. -/
structure Player.Blank {D : Type} (player : Player D) : Prop where
  sentReport : player.sentReport = false
  yesPerson : player.yesPerson = 0
  noNotPerson : player.noNotPerson = 0

/-- The weight that a player has voted with. -/
def Player.weightCast {D : Type} (player : Player D) : Nat :=
  if player.sentReport then player.voteWeight else 0

namespace Config

def maxVoteWeight (T : Config) : Nat := max T.peopleVoteWeight T.candidateVoteWeight

theorem voteWeight_le (recognized : Bool) : T.voteWeight recognized ≤ T.maxVoteWeight := by
  unfold voteWeight maxVoteWeight
  split
  · exact le_max_left _ _
  · exact le_max_right _ _

/-- All votes that a game allows about a player fit a tally. -/
theorem maxVotes {game : GameInfo T.PlayerId} (h : game.Sized) :
    game.rounds * ((game.maxGroupSize - 1) * T.maxVoteWeight) ≤ U8.max := by
  have hvotes : (T.maxGroupSize * T.maxRounds - 1) * T.maxVoteWeight ≤ U8.max := by
    unfold maxVoteWeight
    rcases Nat.le_total T.peopleVoteWeight T.candidateVoteWeight with hle | hle
    · rw [max_eq_right hle]
      exact T.candidateVotes_le
    · rw [max_eq_left hle]
      exact T.peopleVotes_le
  refine le_trans ?_ hvotes
  rw [← Nat.mul_assoc]
  refine Nat.mul_le_mul_right _ ?_
  have hgroups : game.rounds * (game.maxGroupSize - 1) ≤ T.maxRounds * (T.maxGroupSize - 1) :=
    Nat.mul_le_mul h.rounds_le (Nat.sub_le_sub_right h.maxGroupSize_le 1)
  have hpos := h.rounds_pos.trans_le h.rounds_le
  refine hgroups.trans ?_
  rw [Nat.mul_sub, Nat.mul_one, Nat.mul_comm T.maxRounds]
  omega

end Config

namespace Core
variable {c c' : Core T} {game game' : GameInfo T.PlayerId} {n : Nat} {p : T.PlayerId}
  {player : Player T.PlayDeposit}

/-- The weight expected of a player's groups is what their votes weigh. -/
def Weighed (c : Core T) (game : GameInfo T.PlayerId) (n : Nat) (p : T.PlayerId)
    (player : Player T.PlayDeposit) : Prop :=
  ∀ indices, c.playerToIndex.get p = some indices →
    player.expectedMaxVoteWeight = c.sumOthers Player.voteWeight game n indices.toList

/-- The tallies of a player hold what its groups have voted with. -/
def Counted (c : Core T) (game : GameInfo T.PlayerId) (n : Nat) (p : T.PlayerId)
    (player : Player T.PlayDeposit) : Prop :=
  ∀ indices, c.playerToIndex.get p = some indices →
    player.yesPerson + player.noNotPerson = c.sumOthers Player.weightCast game n indices.toList

/-- What holds of every registered player. -/
def ForRegistered (c : Core T) (P : T.PlayerId → Player T.PlayDeposit → Prop) : Prop :=
  ∀ p player, c.players.get p = some player → player.registered = true → P p player

/-- What is known of the votes in each state of a game. -/
def Tallied (c : Core T) (game : GameInfo T.PlayerId) : Prop :=
  match game.state with
  | .registration _ => c.ForRegistered fun _ player => player.Blank
  | .shuffle (.insert last) => c.ForRegistered fun p player =>
    player.Blank ∧ (passed T.playerKey last p = true → player.voteWeight ≤ T.maxVoteWeight)
  | .shuffle (.retrieve _ _) => c.ForRegistered fun _ player =>
    player.Blank ∧ player.voteWeight ≤ T.maxVoteWeight
  | .shuffle (.computeWeights last n) => n ≤ U32.max ∧ c.ForRegistered fun p player =>
    player.Blank ∧ player.voteWeight ≤ T.maxVoteWeight ∧
      (passed T.playerKey last p = true → c.Weighed game n p player)
  | .shuffle (.awaitSession n) => n ≤ U32.max ∧ c.ForRegistered fun p player =>
    player.Blank ∧ player.voteWeight ≤ T.maxVoteWeight ∧ c.Weighed game n p player
  | .reporting n => n ≤ U32.max ∧ c.ForRegistered fun p player =>
    player.voteWeight ≤ T.maxVoteWeight ∧ c.Weighed game n p player ∧ c.Counted game n p player
  | _ => True

theorem ForRegistered.mono {P Q : T.PlayerId → Player T.PlayDeposit → Prop} (h : c.ForRegistered P)
    (hPQ : ∀ p player, c.players.get p = some player → player.registered = true →
      P p player → Q p player) : c.ForRegistered Q :=
  fun p player hp hreg => hPQ p player hp hreg (h p player hp hreg)

/-- A measure of players that did not change. -/
theorem measureAt_congr {f g : Player T.PlayDeposit → Nat} (hindex : c'.indexToPlayer = c.indexToPlayer)
    (h : ∀ p, (c'.players.get p).elim 0 g = (c.players.get p).elim 0 f) (r : RoundIndex)
    (i : PlayerIndex) : c'.measureAt g r i = c.measureAt f r i := by
  unfold measureAt
  rw [hindex]
  cases c.indexToPlayer.get (r, i) with
  | none => rfl
  | some p => exact h p

variable {note : T.PlayerId → Bool}

/-- What is measured at indices is measured of registered players. -/
theorem measureAt_le {f : Player T.PlayDeposit → Nat} {w : Nat} (h : Shuffled c note game.rounds n)
    (hf : c.ForRegistered fun _ player => f player ≤ w) (r : RoundIndex) (i : PlayerIndex) :
    c.measureAt f r i ≤ w := by
  unfold measureAt
  cases hi : c.indexToPlayer.get (r, i) with
  | none => exact Nat.zero_le w
  | some p =>
    obtain ⟨player, hplayer, hreg⟩ := c.isRegistered_iff.mp (h.registered_of_index hi)
    rw [Option.bind_some, hplayer]
    exact hf p player hplayer hreg

/-- The weight of all the votes about a player fits a tally. -/
theorem sumOthers_le_max {f : Player T.PlayDeposit → Nat} {indices : BoundedVec PlayerIndex T.maxRounds}
    (hsized : game.Sized) (h : Shuffled c note game.rounds n) (hn : n ≤ U32.max)
    (hf : c.ForRegistered fun _ player => f player ≤ T.maxVoteWeight)
    (hp : c.playerToIndex.get p = some indices) :
    c.sumOthers f game n indices.toList ≤ U8.max :=
  (sumOthers_le hn (measureAt_le h hf) fun _ _ hi => h.index_lt hp hi).trans (Config.maxVotes hsized)

theorem weightCast_le {w : Nat} (h : player.voteWeight ≤ w) : player.weightCast ≤ w := by
  unfold Player.weightCast
  split
  · exact h
  · exact Nat.zero_le w

end Core

namespace Store
variable {env : Env T} {s t : Store T} {game game' : GameInfo T.PlayerId} {n : Nat}
  {note : T.PlayerId → Bool}

open Core (Phase)

/-- The weight computed for a player is the exact sum, as it fits. -/
theorem weightAt_eq (s : Store T) (r : RoundIndex) (i : PlayerIndex) :
    s.weightAt r i = s.core.measureAt Player.voteWeight r i := by
  unfold weightAt Core.measureAt
  rw [core_indexToPlayer, core_players]
  cases (s.indexToPlayer.get (r, i)).bind s.players.get <;> rfl

/-- A round's weights, added to those of the rounds before. -/
theorem addWeights_eq {indices : List PlayerIndex} (r : RoundIndex) (total : Nat)
    (hmax : total + ((othersIn game n indices r).map
      (s.core.measureAt Player.voteWeight r)).sum ≤ U32.max) :
    (match indices[r]? with
      | none => total
      | some index => (GroupsSetting.otherMembers ⟨game.maxGroupSize, n⟩ index).foldl
          (fun total i => U32.saturatingAdd total (s.weightAt r i)) total) =
      total + ((othersIn game n indices r).map (s.core.measureAt Player.voteWeight r)).sum := by
  unfold othersIn at hmax ⊢
  cases hi : indices[r]? with
  | none => rfl
  | some i =>
    rw [hi] at hmax
    simp only [weightAt_eq]
    exact U32.foldl_saturatingAdd_eq hmax

theorem foldl_addWeights_eq {indices : List PlayerIndex} (l : List RoundIndex) (total : Nat)
    (hmax : total + (l.map fun r => ((othersIn game n indices r).map
      (s.core.measureAt Player.voteWeight r)).sum).sum ≤ U32.max) :
    l.foldl (fun total round => match indices[round]? with
      | none => total
      | some index => (GroupsSetting.otherMembers ⟨game.maxGroupSize, n⟩ index).foldl
          (fun total i => U32.saturatingAdd total (s.weightAt round i)) total) total =
      total + (l.map fun r => ((othersIn game n indices r).map
        (s.core.measureAt Player.voteWeight r)).sum).sum := by
  induction l generalizing total with
  | nil => rfl
  | cons r l ih =>
    rw [List.map_cons, List.sum_cons, ← Nat.add_assoc] at hmax ⊢
    rw [List.foldl_cons, addWeights_eq r total ((Nat.le_add_right _ _).trans hmax), ih _ hmax]

theorem totalWeight_eq {indices : List PlayerIndex}
    (h : s.core.sumOthers Player.voteWeight game n indices ≤ U32.max) :
    s.totalWeight ⟨game.maxGroupSize, n⟩ game.rounds indices =
      s.core.sumOthers Player.voteWeight game n indices := by
  unfold totalWeight
  unfold Core.sumOthers at h ⊢
  exact (foldl_addWeights_eq _ 0 (by rwa [Nat.zero_add])).trans (Nat.zero_add _)

/-! ### A move of the shuffle -/

theorem get_mutatePlayer (s : Store T) (who p : T.PlayerId)
    (f : Player T.PlayDeposit → Player T.PlayDeposit) :
    (s.mutatePlayer who f).players.get p =
      if p = who then (s.players.get p).map f else s.players.get p := by
  unfold mutatePlayer
  cases hwho : s.players.get who with
  | none =>
    simp only
    split
    · rename_i heq
      rw [heq, hwho]
      rfl
    · rfl
  | some player =>
    show (s.players.insert who (f player)).get p = _
    rw [StorageMap.get_insert]
    split
    · rename_i heq
      rw [heq, hwho]
      rfl
    · rfl

theorem Move.tallied (hsized : game.Sized) (hphase : Phase s.core note game)
    (h : s.core.Tallied game) (hmove : Move env s game t game') : t.core.Tallied game' := by
  unfold Phase at hphase
  unfold Core.Tallied at h
  cases hmove with
  | skipped last who hstate hnext hnot =>
    rw [hstate] at h
    refine h.mono fun p player hp hreg hseen => ⟨hseen.1, fun hpass => hseen.2 ?_⟩
    have hregistered := s.core.isRegistered_iff.mpr ⟨player, hp, hreg⟩
    rw [passed_next hnext hregistered] at hpass
    cases hwho : p == who with
    | false => rwa [hwho, Bool.or_false] at hpass
    | true =>
      rw [eq_of_beq hwho, hnot] at hregistered
      cases hregistered
  | staged last who player t pendingAttendance hstate hnext hplayer hreg hcore hadded hscore =>
    rw [hstate] at h
    intro p other hp hother
    rw [hcore] at hp
    have hp : (s.players.insert who { player with
        voteWeight := T.voteWeight (s.score.reachedPersonhood who) }).get p = some other := hp
    rw [StorageMap.get_insert] at hp
    split at hp
    · cases hp
      obtain ⟨hblank, -⟩ := h who player hplayer hreg
      exact ⟨⟨hblank.1, hblank.2, hblank.3⟩, fun _ => T.voteWeight_le _⟩
    · rename_i hne
      obtain ⟨hblank, hvote⟩ := h p other hp hother
      refine ⟨hblank, fun hpass => hvote ?_⟩
      have hpass : passed T.playerKey (some who) p = true := hpass
      rwa [passed_next hnext (s.core.isRegistered_iff.mpr ⟨other, hp, hother⟩),
        beq_eq_false_iff_ne.mpr hne, Bool.or_false] at hpass
  | allStaged last hstate hnone =>
    rw [hstate] at h
    exact h.mono fun p player hp _ hseen =>
      ⟨hseen.1, hseen.2 (StorageMap.nextKey_eq_none.mp hnone p (by rw [← core_players, hp]; rfl))⟩
  | retrieved next next' finished finished' t hstate hout =>
    rw [hstate] at h hphase
    obtain ⟨hplayers, -⟩ :=
      shuffleStepRetrieve_spec hsized.rounds_le hsized.rounds_pos hphase.1 hphase.2 hout
    intro p player hp hreg
    rw [core_players, hplayers] at hp
    exact h p player hp hreg
  | allRetrieved next finished t hstate hout =>
    rw [hstate] at h hphase
    obtain ⟨hplayers, -, -, hnone⟩ :=
      shuffleStepRetrieve_spec hsized.rounds_le hsized.rounds_pos hphase.1 hphase.2 hout
    refine ⟨?_, fun p player hp hreg => ?_⟩
    · have hcount : t.core.registeredCount = s.core.registeredCount := by
        unfold Core.registeredCount
        rw [core_players, core_players, hplayers]
      rw [(hnone rfl).1.count, hcount]
      exact hphase.1
    · rw [core_players, hplayers] at hp
      obtain ⟨hblank, hvote⟩ := h p player hp hreg
      exact ⟨hblank, hvote, fun hpass => by cases hpass⟩
  | weighed last n who indices hstate hnext hindices =>
    rw [hstate] at h hphase
    obtain ⟨hn, h⟩ := h
    have hcoreIndices : s.core.playerToIndex.get who = some indices := hindices
    let f : Player T.PlayDeposit → Player T.PlayDeposit := fun player =>
      { player with
        expectedMaxVoteWeight :=
          U16.saturatedFrom (s.totalWeight ⟨game.maxGroupSize, n⟩ game.rounds indices.toList) }
    have hsame : (s.mutatePlayer who f).core =
        { s.core with players := (s.mutatePlayer who f).players } := by
      unfold mutatePlayer
      split <;> rfl
    have hget := get_mutatePlayer s who (f := f)
    have hmeasure : ∀ r i, (s.mutatePlayer who f).core.measureAt Player.voteWeight r i =
        s.core.measureAt Player.voteWeight r i := by
      refine Core.measureAt_congr (by rw [hsame]) fun p => ?_
      rw [core_players, hget]
      split
      · rw [core_players]
        cases s.players.get p <;> rfl
      · rfl
    have hsum : ∀ v, (s.mutatePlayer who f).core.sumOthers Player.voteWeight
        { game with state := .shuffle (.computeWeights (some who) n) } n v =
          s.core.sumOthers Player.voteWeight game n v :=
      fun v => Core.sumOthers_congr hmeasure rfl rfl
    refine ⟨hn, fun p player hp hreg => ?_⟩
    rw [core_players, hget] at hp
    have hptoi : (s.mutatePlayer who f).core.playerToIndex = s.core.playerToIndex := by rw [hsame]
    by_cases heq : p = who
    · rw [if_pos heq] at hp
      obtain ⟨old, hold, rfl⟩ := Option.map_eq_some_iff.mp hp
      obtain ⟨hblank, hvote, -⟩ := h p old hold hreg
      refine ⟨⟨hblank.1, hblank.2, hblank.3⟩, hvote, fun _ v hv => ?_⟩
      rw [hptoi, heq, hcoreIndices] at hv
      cases hv
      have hle := Core.sumOthers_le_max hsized hphase.1 hn
        (fun p player hp hreg => (h p player hp hreg).2.1) hcoreIndices
      have h8 : U8.max ≤ U16.max := by decide
      have h16 : U16.max ≤ U32.max := by decide
      rw [hsum]
      show U16.saturatedFrom (s.totalWeight ⟨game.maxGroupSize, n⟩ game.rounds indices.toList) = _
      rw [totalWeight_eq (hle.trans (h8.trans h16)), U16.saturatedFrom_eq (hle.trans h8)]
    · rw [if_neg heq] at hp
      obtain ⟨hblank, hvote, hweighed⟩ := h p player hp hreg
      refine ⟨hblank, hvote, fun hpass v hv => ?_⟩
      rw [hptoi] at hv
      rw [hsum]
      refine hweighed ?_ v hv
      have hsome : (s.playerToIndex.get p).isSome = true := by rw [← core_playerToIndex, hv]; rfl
      rcases (StorageMap.passed_of_next T.playerKey_injective hnext hsome).mp hpass with hlast | hwho
      · exact hlast
      · exact absurd hwho heq
  | allWeighed last n hstate hnone =>
    rw [hstate] at h
    refine ⟨h.1, h.2.mono fun p player _ _ hseen => ⟨hseen.1, hseen.2.1, fun v hv => ?_⟩⟩
    exact hseen.2.2 (StorageMap.nextKey_eq_none.mp hnone p (by rw [← core_playerToIndex, hv]; rfl)) v hv
  | awaited n t hstate hcore =>
    rw [hcore]
    exact h
  | opened n t hstate hcore =>
    rw [hstate] at h hphase
    rw [hcore]
    refine ⟨h.1, h.2.mono fun p player _ _ hseen => ⟨hseen.2.1, hseen.2.2, fun v hv => ?_⟩⟩
    have hzero : s.core.sumOthers Player.weightCast game n v.toList ≤ game.rounds *
        ((game.maxGroupSize - 1) * 0) := by
      refine Core.sumOthers_le h.1 (Core.measureAt_le hphase.1 fun p player hp hreg => ?_)
        fun _ _ hi => hphase.1.index_lt hv hi
      obtain ⟨hblank, -⟩ := h.2 p player hp hreg
      unfold Player.weightCast
      rw [hblank.sentReport]
      exact Nat.le_refl 0
    rw [Nat.mul_zero, Nat.mul_zero] at hzero
    rw [hseen.1.yesPerson, hseen.1.noNotPerson]
    exact (Nat.le_zero.mp hzero).symm

/-! ### A report -/

section Reported
variable {s' : Store T} {who : T.PlayerId} {player : Player T.PlayDeposit}
  {indices : BoundedVec PlayerIndex T.maxRounds}
  {players : StorageMap T.PlayerId (Player T.PlayDeposit)}

theorem Reported.measureAt_voteWeight (h : Reported s s' who game n player indices players)
    (r : RoundIndex) (i : PlayerIndex) :
    s'.core.measureAt Player.voteWeight r i = s.core.measureAt Player.voteWeight r i := by
  have hindex : s'.core.indexToPlayer = s.core.indexToPlayer := h.enacted.indexToPlayer
  refine Core.measureAt_congr hindex (fun p => ?_) r i
  rw [core_players, core_players]
  cases hp : s.players.get p with
  | none => rw [h.get_none hp]
  | some other =>
    obtain ⟨other', yes, no, hother', hballot, -⟩ := h.get_some hp
    rw [hother']
    have hweight : other'.ballot.voteWeight = other.voteWeight := by rw [hballot]; rfl
    exact hweight

/-- The reporter's weight is cast, wherever it stands. -/
theorem Reported.measureAt_weightCast (h : Reported s s' who game n player indices players)
    (r : RoundIndex) (i : PlayerIndex) :
    s'.core.measureAt Player.weightCast r i = s.core.measureAt Player.weightCast r i +
      if s.core.indexToPlayer.get (r, i) = some who then player.voteWeight else 0 := by
  unfold Core.measureAt
  rw [show s'.core.indexToPlayer = s.core.indexToPlayer from h.enacted.indexToPlayer]
  cases hi : s.core.indexToPlayer.get (r, i) with
  | none => rfl
  | some p =>
    rw [Option.bind_some, Option.bind_some, core_players, core_players]
    cases hp : s.players.get p with
    | none =>
      have hne : some p ≠ some who := by
        rintro ⟨rfl⟩
        rw [h.player_eq] at hp
        cases hp
      rw [h.get_none hp, if_neg hne]
      rfl
    | some other =>
      obtain ⟨other', yes, no, hother', hballot, -⟩ := h.get_some hp
      rw [hother']
      have hsent : other'.ballot.sentReport = (other.sentReport || p == who) := by rw [hballot]
      have hweight : other'.ballot.voteWeight = other.voteWeight := by rw [hballot]; rfl
      have hcast : other'.weightCast = if other.sentReport || p == who then other.voteWeight else 0 := by
        unfold Player.weightCast
        rw [show other'.sentReport = _ from hsent, show other'.voteWeight = _ from hweight]
      rw [Option.elim_some, Option.elim_some, hcast]
      by_cases heq : p = who
      · rw [heq] at hp
        cases h.player_eq.symm.trans hp
        unfold Player.weightCast
        rw [h.sentReport_eq, heq, beq_self_eq_true, Bool.false_or, if_pos rfl, if_pos rfl,
          if_neg Bool.false_ne_true, Nat.zero_add]
      · rw [beq_eq_false_iff_ne.mpr heq, Bool.or_false,
          if_neg fun hsome => heq (Option.some.inj hsome), Nat.add_zero]
        rfl

end Reported

/-- A player's record, and its record later in the same reporting. -/
structure Later (player player' : Player T.PlayDeposit) : Prop where
  registered : player'.registered = player.registered
  sentReport : player.sentReport = true → player'.sentReport = true
  yesPerson : player.yesPerson ≤ player'.yesPerson
  noNotPerson : player.noNotPerson ≤ player'.noNotPerson
  expectedMaxVoteWeight : player'.expectedMaxVoteWeight = player.expectedMaxVoteWeight

/-- What is known of the votes while a game is in its reporting. -/
structure Reporting (s : Store T) (game : GameInfo T.PlayerId) (n : Nat) : Prop where
  sized : game.Sized
  shuffled : ∃ note, Shuffled s.core note game.rounds n
  count : n ≤ U32.max
  tallied : s.core.ForRegistered fun p player => player.voteWeight ≤ T.maxVoteWeight ∧
    s.core.Weighed game n p player ∧ s.core.Counted game n p player

namespace Reporting
variable {s' : Store T} {p : T.PlayerId} {player : Player T.PlayDeposit}

/-- A registered player's tallies hold what was cast about it, within what was expected. -/
theorem tallies (h : Reporting s game n) (hp : s.players.get p = some player)
    (hreg : player.registered = true) :
    ∃ indices, s.playerToIndex.get p = some indices ∧
      player.yesPerson + player.noNotPerson =
        s.core.sumOthers Player.weightCast game n indices.toList ∧
      player.expectedMaxVoteWeight = s.core.sumOthers Player.voteWeight game n indices.toList ∧
      player.yesPerson + player.noNotPerson ≤ player.expectedMaxVoteWeight ∧
      player.expectedMaxVoteWeight ≤ U8.max := by
  obtain ⟨note, hshuffled⟩ := h.shuffled
  obtain ⟨indices, hindices, -⟩ := (hshuffled.registered p).mp
    (s.core.isRegistered_iff.mpr ⟨player, hp, hreg⟩)
  obtain ⟨-, hweighed, hcounted⟩ := h.tallied p player hp hreg
  refine ⟨indices, hindices, hcounted indices hindices, hweighed indices hindices, ?_, ?_⟩
  · rw [hcounted indices hindices, hweighed indices hindices]
    refine Core.sumOthers_mono fun r i => ?_
    unfold Core.measureAt
    cases (s.core.indexToPlayer.get (r, i)).bind s.core.players.get with
    | none => exact Nat.le_refl 0
    | some other => exact Core.weightCast_le (Nat.le_refl _)
  · rw [hweighed indices hindices]
    exact Core.sumOthers_le_max h.sized hshuffled h.count
      (h.tallied.mono fun _ _ _ _ hvote => hvote.1) hindices

/-- A report adds its votes to the tallies and leaves the rest. -/
theorem report {who : T.PlayerId} {reporter : Player T.PlayDeposit}
    {indices : BoundedVec PlayerIndex T.maxRounds}
    {players : StorageMap T.PlayerId (Player T.PlayDeposit)} (h : Reporting s game n)
    (hreported : Reported s s' who game n reporter indices players)
    (hsetting : game'.setting = game.setting) :
    Reporting s' game' n ∧ ∀ p player, s.players.get p = some player →
      ∃ player', s'.players.get p = some player' ∧
        player'.registered = player.registered ∧
        player'.expectedMaxVoteWeight = player.expectedMaxVoteWeight ∧
        (player.sentReport = true → player'.sentReport = true) ∧
        (player.registered = true → Later player player') := by
  obtain ⟨-, hrounds, hgroup⟩ := GameInfo.eq_of_setting_eq hsetting
  obtain ⟨note, hshuffled⟩ := h.shuffled
  have halike := hreported.alike
  have hptoi : s'.core.playerToIndex = s.core.playerToIndex := halike.playerToIndex
  have hvotes : ∀ p v, s.core.playerToIndex.get p = some v →
      s'.core.sumOthers Player.weightCast game' n v.toList =
        s.core.sumOthers Player.weightCast game n v.toList + reporter.voteWeight *
          votesIn s.core game n indices.toList (List.range game.rounds) p := by
    intro p v hv
    rw [hshuffled.votesIn_comm h.count hreported.indices_eq hv]
    refine (Core.sumOthers_congr (fun _ _ => rfl) hrounds hgroup).trans ?_
    exact Core.sumOthers_add hreported.measureAt_weightCast
  have hweights : ∀ v : List PlayerIndex, s'.core.sumOthers Player.voteWeight game' n v =
      s.core.sumOthers Player.voteWeight game n v :=
    fun v => Core.sumOthers_congr hreported.measureAt_voteWeight hrounds hgroup
  -- Together the votes about a player stay within what is expected, so no tally saturates.
  have hfits : ∀ p player, s.players.get p = some player → player.registered = true →
      player.yesPerson + player.noNotPerson + reporter.voteWeight *
        votesIn s.core game n indices.toList (List.range game.rounds) p ≤ U8.max := by
    intro p player hp hreg
    obtain ⟨v, hv, hcounted, hweighed, -, hmax⟩ := h.tallies hp hreg
    rw [hcounted, ← hvotes p v hv]
    refine le_trans ?_ hmax
    rw [hweighed, ← hweights]
    refine Core.sumOthers_mono fun r i => ?_
    unfold Core.measureAt
    cases (s'.core.indexToPlayer.get (r, i)).bind s'.core.players.get with
    | none => exact Nat.le_refl 0
    | some other => exact Core.weightCast_le (Nat.le_refl _)
  refine ⟨⟨⟨hrounds ▸ h.sized.1, hrounds ▸ h.sized.2, hgroup ▸ h.sized.3⟩,
    ⟨note, hrounds ▸ halike.shuffled hshuffled⟩, h.count, fun p player' hp' hreg' => ?_⟩,
    fun p player hp => ?_⟩
  · cases hp : s.players.get p with
    | none =>
      rw [core_players, hreported.get_none hp] at hp'
      cases hp'
    | some player =>
      obtain ⟨other', yes, no, hother', hballot, hsum⟩ := hreported.get_some hp
      cases hp'.symm.trans hother'
      have hreg : player'.ballot.registered = player.registered := by rw [hballot]; rfl
      have hweight : player'.ballot.voteWeight = player.voteWeight := by rw [hballot]; rfl
      have hexpected : player'.ballot.expectedMaxVoteWeight = player.expectedMaxVoteWeight := by
        rw [hballot]
        rfl
      have hyes : player'.ballot.yesPerson = yes := by rw [hballot]
      have hno : player'.ballot.noNotPerson = no := by rw [hballot]
      have hregistered : player.registered = true := hreg.symm.trans hreg'
      obtain ⟨hvote, hweighed, hcounted⟩ := h.tallied p player hp hregistered
      obtain ⟨-, -, hsum⟩ := hsum (hfits p player hp hregistered)
      refine ⟨hweight.le.trans hvote, fun v hv => ?_, fun v hv => ?_⟩
      · rw [hptoi] at hv
        rw [hweights, ← hweighed v hv]
        exact hexpected
      · rw [hptoi] at hv
        rw [hvotes p v hv, ← hcounted v hv, ← hsum]
        exact congrArg₂ (· + ·) hyes hno
  · obtain ⟨player', yes, no, hplayer', hballot, hsum⟩ := hreported.get_some hp
    have hreg : player'.ballot.registered = player.registered := by rw [hballot]; rfl
    have hexpected : player'.ballot.expectedMaxVoteWeight = player.expectedMaxVoteWeight := by
      rw [hballot]
      rfl
    have hsent : player'.ballot.sentReport = (player.sentReport || p == who) := by rw [hballot]
    have hyes : player'.ballot.yesPerson = yes := by rw [hballot]
    have hno : player'.ballot.noNotPerson = no := by rw [hballot]
    have hkept : player.sentReport = true → player'.sentReport = true := by
      intro htrue
      refine hsent.trans ?_
      rw [htrue, Bool.true_or]
    refine ⟨player', hplayer', hreg, hexpected, hkept, fun hregistered => ?_⟩
    obtain ⟨hyesle, hnole, -⟩ := hsum (hfits p player hp hregistered)
    exact ⟨hreg, hkept, hyes ▸ hyesle, hno ▸ hnole, hexpected⟩

end Reporting
/-! ### Runs -/

/-- A step keeps what is known of the votes. -/
theorem Step.tallied {s' : Store T} (hfree : T.CollisionFree) (hrostered : s.core.Rostered note)
    (h : ∀ game, s.game = some game → s.core.Tallied game) (hstep : Step env s s') {game : GameInfo T.PlayerId}
    (hgame' : s'.game = some game) : s'.core.Tallied game := by
  unfold Core.Rostered at hrostered
  cases hstep with
  | quiet hcore =>
    rw [hcore]
    exact h game ((congrArg Core.game hcore).symm.trans hgame')
  | signedUp old next who firstGame credibility hgame hstate hroom hnew hcore =>
    have hput : s'.game = some { old with state := .registration (U32.saturatingInc next) } :=
      congrArg Core.game hcore
    cases hgame'.symm.trans hput
    have hold := h old hgame
    unfold Core.Tallied at hold
    rw [hstate] at hold
    intro p player hp hreg
    rw [hcore] at hp
    have hp : (s.players.insert who (.fresh true firstGame credibility)).get p = some player := hp
    rw [StorageMap.get_insert] at hp
    split at hp
    · cases hp
      exact ⟨rfl, rfl, rfl⟩
    · exact hold p player hp hreg
  | offboarded who hgame hnot hcore =>
    have hsame : s.game = some game := (congrArg Core.game hcore).symm.trans hgame'
    have hold := h game hsame
    have hregistration := hgame game hsame
    unfold Core.Tallied at hold ⊢
    cases hs : game.state with
    | registration next =>
      rw [hs] at hold
      intro p player hp hreg
      rw [hcore] at hp
      have hp : (s.players.remove who).get p = some player := hp
      rw [StorageMap.get_remove] at hp
      split at hp
      · cases hp
      · exact hold p player hp hreg
    | _ =>
      rw [hs] at hregistration
      cases hregistration
  | reported who old n player indices players hreported =>
    obtain ⟨new, hnew, hsetting⟩ := hreported.exists_game
    cases hgame'.symm.trans hnew
    have hold := h old hreported.game_eq
    rw [core_game, hreported.game_eq] at hrostered
    obtain ⟨hsized, hphase⟩ := hrostered
    unfold Core.Phase at hphase
    unfold Core.Tallied at hold ⊢
    rw [hreported.state_eq] at hold hphase
    rw [(GameInfo.eq_of_setting_eq hsetting).1, hreported.state_eq]
    have hreporting : Reporting s old n := ⟨hsized, ⟨note, hphase.1⟩, hold.1, hold.2⟩
    exact ⟨hold.1, (hreporting.report hreported hsetting).1.tallied⟩
  | killed hclear hgame hplayers =>
    rw [hgame] at hgame'
    cases hgame'
  | started new hnone hstate hrounds hmax hgroup hcore =>
    cases hgame'.symm.trans (congrArg Core.game hcore)
    rw [core_game, hnone] at hrostered
    unfold Core.Tallied
    rw [hstate]
    intro p player hp hreg
    rw [hcore] at hp
    have hregistered : s.core.isRegistered p = true := s.core.isRegistered_iff.mpr ⟨player, hp, hreg⟩
    rw [hrostered.2 p] at hregistered
    cases hregistered
  | shuffleStarted old next registrationEnds hgame hstate hcore =>
    cases hgame'.symm.trans (congrArg Core.game hcore)
    have hold := h old hgame
    unfold Core.Tallied at hold
    rw [hstate] at hold
    rw [hcore]
    intro p player hp hreg
    exact ⟨hold p player hp hreg, fun hpass => by cases hpass⟩
  | cancelled old hgame hstate hcore =>
    cases hgame'.symm.trans (congrArg Core.game hcore)
    exact trivial
  | shuffled old step meter out hgame hstate hloop hcore =>
    cases hgame'.symm.trans (congrArg Core.game hcore)
    rw [core_game, hgame] at hrostered
    obtain ⟨hsized, hphase⟩ := hrostered
    have hout := shuffles_induction env meter
      (P := fun t g => (Phase t.core (s.aheadNote old note) g ∧ g.Sized ∧
        NotedAhead t g (s.aheadNote old note)) ∧ t.core.Tallied g)
      ⟨⟨phase_aheadNote hphase, hsized, notedAhead_aheadNote s old note⟩, h old hgame⟩
      (fun t g t' g' hw hmove =>
        ⟨hmove.phase hfree hw.1.2.1 hw.1.1 hw.1.2.2, hmove.tallied hw.1.2.1 hw.1.1 hw.2⟩) opUpperBound
    rw [hloop] at hout
    rw [hcore]
    exact hout.2
  | reportingEnded old n reportEnds shuffleDeadline gameDate hgame hstate hcore =>
    cases hgame'.symm.trans (congrArg Core.game hcore)
    exact trivial
  | processed old last n meter out hgame hstate hloop hcore =>
    rcases hcore with ⟨-, hcore⟩ | hcore
    · cases hgame'.symm.trans (congrArg Core.game hcore)
      exact trivial
    · cases hgame'.symm.trans (congrArg Core.game hcore)
      exact trivial
  | cleared old hgame hstate indexToPlayer playerToIndex hcore =>
    rcases hcore with hcore | ⟨-, -, hcore⟩
    · cases hgame'.symm.trans ((congrArg Core.game hcore).trans hgame)
      unfold Core.Tallied
      rw [hstate]
      exact trivial
    · cases hgame'.symm.trans (congrArg Core.game hcore)
  | cancelling old last meter out hgame hstate hloop hcore =>
    rcases hcore with ⟨-, hcore⟩ | hcore
    · cases hgame'.symm.trans (congrArg Core.game hcore)
    · cases hgame'.symm.trans (congrArg Core.game hcore)
      exact trivial

/-- Whether a game is in its reporting. -/
def isReporting (s : Store T) : Bool :=
  s.game.any fun game =>
    match game.state with
    | .reporting _ => true
    | _ => false

theorem isReporting_iff : s.isReporting = true ↔ ∃ game n, s.game = some game ∧ game.state = .reporting n := by
  unfold isReporting
  cases s.game with
  | none => simp
  | some game => cases hs : game.state <;> simp [hs]

/-- No call is out of order while a game is in its reporting. -/
theorem orderly_of_reporting (h : s.isReporting = true) (a : Action T) : s.Orderly a := by
  obtain ⟨game, n, hgame, hstate⟩ := isReporting_iff.mp h
  obtain ⟨env, call⟩ := a
  have hnotFull : s.isFull = false := by
    unfold isFull
    simp only [hgame, hstate]
  have hnotMissed : ∀ remaining, s.missesDeadline env remaining = false := by
    intro remaining
    unfold missesDeadline
    simp only [hgame, hstate]
  cases call with
  | signUp args => exact hnotFull
  | onPoll remaining =>
    intro hmissed
    rw [hnotMissed] at hmissed
    cases hmissed
  | onIdle remaining =>
    intro hmissed
    rw [hnotMissed] at hmissed
    cases hmissed
  | _ => exact trivial

/-- What holds of every state that orderly calls reach. -/
structure Sound (s : Store T) : Prop where
  rostered : ∃ note, s.core.Rostered note
  tallied : ∀ game, s.game = some game → s.core.Tallied game

theorem sound_genesis (world : T.World) : Sound (genesis T world) := by
  refine ⟨⟨fun _ => false, ⟨fun _ => rfl, fun _ => rfl, fun b _ => ?_⟩, fun _ => rfl⟩, nofun⟩
  cases b <;> rfl

theorem Sound.exec {a : Action T} {s' : Store T} (hfree : T.CollisionFree) (h : Sound s)
    (hG : s.Orderly a) (hexec : s.execAction a = .ok s') : Sound s' := by
  obtain ⟨note, hrostered⟩ := h.rostered
  have hstep := exec_step hG hexec
  exact ⟨⟨_, hstep.rostered (a := a) hfree hrostered⟩,
    fun game hgame => hstep.tallied hfree hrostered h.tallied hgame⟩

theorem run_sound (hfree : T.CollisionFree) {world : T.World}
    (h : Reaches execAction (fun s a => s.Orderly a) (genesis T world) s) : Sound s :=
  h.invariant (sound_genesis world) fun _ _ _ hs hG hexec => hs.exec hfree hG hexec

theorem Sound.reporting (h : Sound s) (hgame : s.game = some game) (hstate : game.state = .reporting n) :
    Reporting s game n := by
  obtain ⟨note, hrostered⟩ := h.rostered
  have htallied := h.tallied game hgame
  unfold Core.Rostered at hrostered
  rw [core_game, hgame] at hrostered
  obtain ⟨hsized, hphase⟩ := hrostered
  unfold Core.Phase at hphase
  unfold Core.Tallied at htallied
  rw [hstate] at hphase htallied
  exact ⟨hsized, ⟨note, hphase.1⟩, htallied.1, htallied.2⟩

/-! ### The rest of a reporting -/

/-- What a step does to a game in its reporting. -/
theorem Step.of_reporting {s' : Store T} (hstep : Step env s s') (hgame : s.game = some game)
    (hstate : game.state = .reporting n) :
    s'.core = s.core ∨
      (∃ who player indices players, Reported s s' who game n player indices players) ∨
      s'.game = none ∨
      ∃ game', s'.core = s.core.putGame game' ∧ game'.rounds = game.rounds ∧
        game'.maxGroupSize = game.maxGroupSize ∧
        game'.state = .playerProcess (.processPlayers none n) := by
  cases hstep with
  | quiet hcore => exact .inl hcore
  | signedUp old next who firstGame credibility hold hregistration =>
    cases hgame.symm.trans hold
    rw [hstate] at hregistration
    cases hregistration
  | offboarded who hregistration =>
    have h := hregistration game hgame
    rw [hstate] at h
    cases h
  | reported who old m player indices players hreported =>
    cases hgame.symm.trans hreported.game_eq
    cases hstate.symm.trans hreported.state_eq
    exact .inr (.inl ⟨who, player, indices, players, hreported⟩)
  | killed hclear hnone => exact .inr (.inr (.inl hnone))
  | started new hnone =>
    rw [hnone] at hgame
    cases hgame
  | shuffleStarted old next registrationEnds hold hregistration =>
    cases hgame.symm.trans hold
    rw [hstate] at hregistration
    cases hregistration
  | cancelled old hold hcancel =>
    cases hgame.symm.trans hold
    rw [hstate] at hcancel
    rcases hcancel with hregistration | ⟨⟨step, hshuffle⟩, -⟩
    · cases hregistration
    · cases hshuffle
  | shuffled old step meter out hold hshuffle =>
    cases hgame.symm.trans hold
    rw [hstate] at hshuffle
    cases hshuffle
  | reportingEnded old m reportEnds shuffleDeadline gameDate hold hreporting hcore =>
    cases hgame.symm.trans hold
    cases hstate.symm.trans hreporting
    exact .inr (.inr (.inr ⟨_, hcore, rfl, rfl, rfl⟩))
  | processed old last m meter out hold hprocess =>
    cases hgame.symm.trans hold
    rw [hstate] at hprocess
    cases hprocess
  | cleared old hold hclear =>
    cases hgame.symm.trans hold
    rw [hstate] at hclear
    cases hclear
  | cancelling old last meter out hold hcancelling =>
    cases hgame.symm.trans hold
    rw [hstate] at hcancelling
    cases hcancelling

/-- `t` is later in the reporting that `s` is in, or where it has just ended. -/
structure Continues (s t : Store T) (game' : GameInfo T.PlayerId) (n : Nat) : Prop where
  game : t.game = some game'
  reporting : Reporting t game' n
  state : game'.state = .reporting n ∨ game'.state = .playerProcess (.processPlayers none n)
  players : ∀ p player, s.players.get p = some player → ∃ player', t.players.get p = some player' ∧
    player'.registered = player.registered ∧ (player.registered = true → Later player player')

/-- A reporting goes on until it ends or the game is killed. -/
theorem run_continues (hfree : T.CollisionFree) {s' : Store T} (hsound : Sound s)
    (hgame : s.game = some game) (hstate : game.state = .reporting n)
    (h : Reaches execAction (fun s _ => s.isReporting = true) s s') :
    s'.game = none ∨ ∃ game', Continues s s' game' n ∧ (game'.state = .reporting n → Sound s') := by
  refine h.invariant (I := fun t => t.game = none ∨ ∃ game', Continues s t game' n ∧
    (game'.state = .reporting n → Sound t)) (.inr ⟨game, ⟨hgame, hsound.reporting hgame hstate,
      .inl hstate, fun p player hp => ⟨player, hp, rfl, fun _ =>
        ⟨rfl, id, Nat.le_refl _, Nat.le_refl _, rfl⟩⟩⟩, fun _ => hsound⟩) ?_
  intro t a t' ht hreporting hexec
  obtain ⟨g, m, hg, hm⟩ := isReporting_iff.mp hreporting
  rcases ht with hnone | ⟨game₁, hcontinues, hsound₁⟩
  · rw [hnone] at hg
    cases hg
  · cases hg.symm.trans hcontinues.game
    rcases hcontinues.state with hstate₁ | hstate₁
    · have hsound := hsound₁ hstate₁
      have hG := orderly_of_reporting hreporting a
      have hstep := exec_step hG hexec
      rcases hstep.of_reporting hg hstate₁ with hcore | ⟨who, reporter, indices, players, hreported⟩ |
        hnone | ⟨game', hcore, hrounds, hgroup, hended⟩
      · have hgame' : t'.game = some g := (congrArg Core.game hcore).trans hg
        have hplayers : t'.players = t.players := congrArg Core.players hcore
        refine .inr ⟨g, ⟨hgame', ?_, hcontinues.state, ?_⟩, fun _ => hsound.exec hfree hG hexec⟩
        · exact (hsound.exec hfree hG hexec).reporting hgame' hstate₁
        · rw [hplayers]
          exact hcontinues.players
      · obtain ⟨game', hgame', hsetting⟩ := hreported.exists_game
        obtain ⟨hreporting', hlater⟩ := hcontinues.reporting.report hreported hsetting
        refine .inr ⟨game', ⟨hgame', hreporting', ?_, fun p player hp => ?_⟩,
          fun _ => hsound.exec hfree hG hexec⟩
        · exact .inl ((GameInfo.eq_of_setting_eq hsetting).1.trans hstate₁)
        · obtain ⟨player₁, hp₁, hreg₁, hlater₁⟩ := hcontinues.players p player hp
          obtain ⟨player₂, hp₂, hreg₂, -, -, hlater₂⟩ := hlater p player₁ hp₁
          refine ⟨player₂, hp₂, hreg₂.trans hreg₁, fun hreg => ?_⟩
          have h₁ := hlater₁ hreg
          have h₂ := hlater₂ (hreg₁.trans hreg)
          exact ⟨h₂.1.trans h₁.1, fun hsent => h₂.2 (h₁.2 hsent), h₁.3.trans h₂.3, h₁.4.trans h₂.4,
            h₂.5.trans h₁.5⟩
      · exact .inl hnone
      · have hplayers : t'.players = t.players := congrArg Core.players hcore
        refine .inr ⟨game', ⟨congrArg Core.game hcore, ?_, .inr hended, ?_⟩, fun hstate' => ?_⟩
        · obtain ⟨hsized, ⟨note, hshuffled⟩, hcount, htallied⟩ := hcontinues.reporting
          have halike : Core.Alike t.core t'.core := by
            rw [hcore]
            exact Core.Alike.putGame t.core game'
          refine ⟨⟨hrounds ▸ hsized.1, hrounds ▸ hsized.2, hgroup ▸ hsized.3⟩,
            ⟨note, hrounds ▸ halike.shuffled hshuffled⟩, hcount, fun p player hp hreg => ?_⟩
          rw [core_players, hplayers] at hp
          obtain ⟨hvote, hweighed, hcounted⟩ := htallied p player hp hreg
          have hsum : ∀ (f : Player T.PlayDeposit → Nat) v,
              t'.core.sumOthers f game' n v = t.core.sumOthers f g n v := by
            intro f v
            refine Core.sumOthers_congr (fun r i => ?_) hrounds hgroup
            rw [hcore]
            rfl
          refine ⟨hvote, fun v hv => ?_, fun v hv => ?_⟩
          · rw [hsum]
            exact hweighed v (by rw [← halike.playerToIndex, hv])
          · rw [hsum]
            exact hcounted v (by rw [← halike.playerToIndex, hv])
        · rw [hplayers]
          exact hcontinues.players
        · rw [hended] at hstate'
          cases hstate'
    · rw [hm] at hstate₁
      cases hstate₁

end Store

/-! ### Attendance -/

section Attendance
variable {player player' : Player T.PlayDeposit}

/-- What is decided for a player on partial tallies, its final tallies give. -/
theorem finalAttendance_of_attended (h : determineAttendance player = .attended)
    (hlater : Store.Later player player')
    (hle : player.yesPerson + player.noNotPerson ≤ player.expectedMaxVoteWeight)
    (hle' : player'.yesPerson + player'.noNotPerson ≤ player'.expectedMaxVoteWeight) :
    finalAttendance player' = true := by
  unfold determineAttendance at h
  split at h
  · cases h
  · rename_i hreg
    have hreg : player.registered = true := Bool.not_eq_false _ ▸ hreg
    simp only at h
    split at h
    · cases h
    · split at h
      · rename_i hattended
        have hno : player'.noNotPerson ≤ player'.yesPerson - 1 := by
          have := hlater.yesPerson
          have := hlater.expectedMaxVoteWeight
          omega
        unfold finalAttendance
        rw [hlater.registered, hreg, hlater.sentReport hattended.1, decide_eq_true hno]
        rfl
      · cases h

theorem finalAttendance_of_notAttended (h : determineAttendance player = .notAttended)
    (hreg' : player'.registered = player.registered)
    (hlater : player.registered = true → Store.Later player player')
    (hle : player.registered = true →
      player.yesPerson + player.noNotPerson ≤ player.expectedMaxVoteWeight)
    (hle' : player'.registered = true →
      player'.yesPerson + player'.noNotPerson ≤ player'.expectedMaxVoteWeight) :
    finalAttendance player' = false := by
  unfold determineAttendance at h
  split at h
  · rename_i hreg
    unfold finalAttendance
    rw [hreg', hreg]
    rfl
  · rename_i hreg
    have hreg : player.registered = true := Bool.not_eq_false _ ▸ hreg
    simp only at h
    split at h
    · rename_i hnot
      have hno : ¬ player'.noNotPerson ≤ player'.yesPerson - 1 := by
        have := (hlater hreg).noNotPerson
        have := (hlater hreg).expectedMaxVoteWeight
        have := hle hreg
        have := hle' (hreg'.trans hreg)
        omega
      unfold finalAttendance
      rw [decide_eq_false hno, Bool.and_false]
    · split at h <;> cases h

end Attendance

/-- In a game that orderly calls brought to its reporting: whatever is decided for a player at some
moment of it, the final tallies give; and in all of it the tallies of a registered player are
the exact weight it received, at most the weight expected. -/
theorem attendance_agrees (hfree : T.CollisionFree) (world : T.World) {s s' : Store T}
    (h : Reaches Store.execAction (fun s a => s.Orderly a) (Store.genesis T world) s)
    (h' : Reaches Store.execAction (fun s _ => s.isReporting = true) s s')
    {game game' : GameInfo T.PlayerId} {n : Nat} (hgame : s.game = some game)
    (hstate : game.state = .reporting n) (hgame' : s'.game = some game') {p : T.PlayerId}
    {player : Player T.PlayDeposit} (hp : s.players.get p = some player) :
    ∃ player', s'.players.get p = some player' ∧
      (determineAttendance player = .attended → finalAttendance player' = true) ∧
      (determineAttendance player = .notAttended → finalAttendance player' = false) ∧
      (player.registered = true → ∃ indices, s'.playerToIndex.get p = some indices ∧
        player'.yesPerson + player'.noNotPerson =
          s'.core.sumOthers Player.weightCast game' n indices.toList ∧
        player'.yesPerson + player'.noNotPerson ≤ player'.expectedMaxVoteWeight ∧
        player'.expectedMaxVoteWeight ≤ U8.max) := by
  have hsound := Store.run_sound hfree h
  have hreporting := hsound.reporting hgame hstate
  rcases Store.run_continues hfree hsound hgame hstate h' with hnone | ⟨game₁, hcontinues, -⟩
  · rw [hnone] at hgame'
    cases hgame'
  · cases hgame'.symm.trans hcontinues.game
    obtain ⟨player', hp', hreg', hlater⟩ := hcontinues.players p player hp
    have hle : player.registered = true →
        player.yesPerson + player.noNotPerson ≤ player.expectedMaxVoteWeight := by
      intro hreg
      obtain ⟨-, -, -, -, hle, -⟩ := hreporting.tallies hp hreg
      exact hle
    have hle' : player'.registered = true →
        player'.yesPerson + player'.noNotPerson ≤ player'.expectedMaxVoteWeight := by
      intro hreg
      obtain ⟨-, -, -, -, hle, -⟩ := hcontinues.reporting.tallies hp' hreg
      exact hle
    refine ⟨player', hp', fun hattended => ?_, fun hnot => ?_, fun hreg => ?_⟩
    · have hreg : player.registered = true := by
        cases hreg : player.registered with
        | true => rfl
        | false =>
          unfold determineAttendance at hattended
          rw [if_pos hreg] at hattended
          cases hattended
      exact finalAttendance_of_attended hattended (hlater hreg) (hle hreg) (hle' (hreg'.trans hreg))
    · exact finalAttendance_of_notAttended hnot hreg' hlater hle hle'
    · obtain ⟨indices, hindices, hsum, -, hle, hmax⟩ :=
        hcontinues.reporting.tallies hp' (hreg'.trans hreg)
      exact ⟨indices, hindices, hsum, hle, hmax⟩

/-- Two accounts vouch for each other; the game's next hook ends its reporting. -/
theorem attendance_agrees_sample : ∃ s s' : Store sampleConfig, ∃ player player',
    s.players.get (samplePlayer 0) = some player ∧ s'.players.get (samplePlayer 0) = some player' ∧
      determineAttendance player = .attended ∧ finalAttendance player' = true := by
  obtain ⟨s, hs, hplayer, hstate, hnext⟩ := exists_reaches Store.execAction (fun s a => s.Orderly a)
    (Store.genesis sampleConfig ())
    [(sampleEnv 0 1, .scheduleGames [sampleSchedule 100]), (sampleEnv 50 1, .onPoll ⟨100, 0⟩),
      (sampleEnv 50 1, .signUp (sampleSignUp 0)), (sampleEnv 50 1, .signUp (sampleSignUp 1)),
      (sampleEnv 90 1, .onPoll ⟨100, 0⟩), (sampleEnv 90 1, .onPoll ⟨100, 0⟩),
      (sampleEnv 100 1, .report (samplePlayer 0) [[.person]]),
      (sampleEnv 100 1, .report (samplePlayer 1) [[.person]])]
    (fun s => ((s.players.get (samplePlayer 0)).map fun player => determineAttendance player) =
        some .attended ∧
      s.game.map GameInfo.state = some (.reporting 2) ∧
      ((s.execAction (sampleEnv 100 1, .onPoll ⟨100, 0⟩)).toOption.any fun s' => s'.game.isSome) = true)
    (by decide +kernel)
  obtain ⟨player, hp, hattended⟩ := Option.map_eq_some_iff.mp hplayer
  obtain ⟨game, hgame, hreporting⟩ := Option.map_eq_some_iff.mp hstate
  cases hexec : s.execAction (sampleEnv 100 1, .onPoll ⟨100, 0⟩) with
  | error e =>
    rw [hexec] at hnext
    cases hnext
  | ok s' =>
    rw [hexec] at hnext
    obtain ⟨game', hgame'⟩ := Option.isSome_iff_exists.mp hnext
    have hrun : Reaches Store.execAction (fun s _ => s.isReporting = true) s s' :=
      (Reaches.refl s).tail (Store.isReporting_iff.mpr ⟨game, 2, hgame, hreporting⟩) hexec
    obtain ⟨player', hp', hfinal, -⟩ :=
      attendance_agrees sample_collisionFree () hs hrun hgame hreporting hgame' hp
    exact ⟨s, s', player, player', hp, hp', hattended, hfinal hattended⟩

/-- After a shuffle that missed its deadline, a player stands in two groups and gets more weight
than expected: it attends by the votes so far, and not by all. -/
theorem attendance_agrees_fails : sampleConfig.CollisionFree ∧ ∃ s s' : Store sampleConfig,
    Reaches Store.execAction (fun _ _ => True) (Store.genesis sampleConfig ()) s ∧
    Reaches Store.execAction (fun s _ => s.isReporting = true) s s' ∧
    s'.game.map GameInfo.state = some (.reporting 4) ∧ ∃ player player',
      s.players.get (samplePlayer 0) = some player ∧ s'.players.get (samplePlayer 0) = some player' ∧
      determineAttendance player = .attended ∧ finalAttendance player' = false ∧
      player'.expectedMaxVoteWeight < player'.yesPerson + player'.noNotPerson := by
  refine ⟨sample_collisionFree, ?_⟩
  obtain ⟨s, hs, hplayer, hreporting, hnext⟩ := exists_reaches Store.execAction (fun _ _ => True)
    (Store.genesis sampleConfig ())
    [(sampleEnv 0 1, .scheduleGames [sampleSchedule 100, sampleSchedule 200]),
      (sampleEnv 50 1, .onPoll ⟨100, 0⟩), (sampleEnv 50 1, .signUp (sampleSignUp 0)),
      (sampleEnv 90 1, .onPoll ⟨100, 0⟩), (sampleEnv 90 1, .onPoll ⟨8, 0⟩),
      (sampleEnv 100 1, .onPoll ⟨100, 0⟩), (sampleEnv 100 1, .onPoll ⟨100, 0⟩),
      (sampleEnv 150 2, .onPoll ⟨100, 0⟩), (sampleEnv 150 2, .signUp (sampleSignUp 0)),
      (sampleEnv 150 2, .signUp (sampleSignUp 1)), (sampleEnv 150 2, .signUp (sampleSignUp 2)),
      (sampleEnv 190 2, .onPoll ⟨100, 0⟩), (sampleEnv 190 2, .onPoll ⟨100, 0⟩),
      (sampleEnv 200 2, .report (samplePlayer 0) [[.person]]),
      (sampleEnv 200 2, .report (samplePlayer 2) [[.person]])]
    (fun s => ((s.players.get (samplePlayer 0)).map fun player => determineAttendance player) =
        some .attended ∧ s.isReporting = true ∧
      ((s.execAction (sampleEnv 200 2, .report (samplePlayer 1) [[.notPerson]])).toOption.any fun s' =>
        decide (s'.game.map GameInfo.state = some (.reporting 4)) &&
        (s'.players.get (samplePlayer 0)).any fun player => !finalAttendance player &&
          decide (player.expectedMaxVoteWeight < player.yesPerson + player.noNotPerson)) = true)
    (by decide +kernel)
  obtain ⟨player, hp, hattended⟩ := Option.map_eq_some_iff.mp hplayer
  cases hexec : s.execAction (sampleEnv 200 2, .report (samplePlayer 1) [[.notPerson]]) with
  | error e =>
    rw [hexec] at hnext
    cases hnext
  | ok s' =>
    rw [hexec] at hnext
    obtain ⟨hstate, hafter⟩ := Bool.and_eq_true_iff.mp hnext
    obtain ⟨player', hp', hfinal⟩ := (Option.any_eq_true _ _).mp hafter
    obtain ⟨hfinal, hmore⟩ := Bool.and_eq_true_iff.mp hfinal
    exact ⟨s, s', hs, (Reaches.refl s).tail hreporting hexec, of_decide_eq_true hstate, player, player',
      hp, hp', hattended, Bool.not_eq_true' _ ▸ hfinal, of_decide_eq_true hmore⟩

end Individuality.Game
