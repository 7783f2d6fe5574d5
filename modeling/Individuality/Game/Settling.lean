import Individuality.Game.Logging
import Individuality.Game.Tallies

/-! Each player is settled exactly once.

The count of pending attendances is built while players are staged, and moves with
each attendance that is applied, early or when the players are processed. `Settling`
is what holds of it, of the players and of the log in each state of a game: while
players register and are shuffled nobody is settled; from the opening of the reporting
on, whoever the walk of the processing is not through with is settled if and only if
its record has an attendance enacted early, and whoever it is through with is settled;
and what is pending is what was counted less the registered players settled. The count
saturates, so it is the number of registered players unless there are too many. -/
namespace Individuality.Game
open Support
variable {T : Config}

namespace Store

/-- Nobody's attendance is enacted. -/
def AllFresh (s : Store T) : Prop :=
  ∀ p player, s.players.get p = some player → player.earlyAttendanceEnactment = none

/-- Nobody is settled in the game that goes on. -/
def Unsettled (s : Store T) : Prop := s.AllFresh ∧ s.settlements = [] ∧ s.attendees = []

/-- How many of the settled players were registered when the reporting opened. -/
def settledCount (s : Store T) : Nat :=
  s.settled.countP fun p => (s.roster.get p).any fun player => player.registered

/-- The registered players when the reporting opened. -/
def rosterCount (s : Store T) : Nat := s.roster.countOf fun _ player => player.registered

/-- What the log tells of the settlements of a game: each is of a player of the roster, none is
made twice, and the attendances noted are those of the players that attended. -/
structure Logged (s : Store T) (gameIndex : Nat) : Prop where
  inRoster : ∀ p ∈ s.settled, (s.roster.get p).isSome = true
  once : s.settled.Nodup
  index : ∀ e ∈ s.settlements, e.2.2 = gameIndex
  noted : s.attendees = (s.settlements.filter fun e => e.2.1).map fun e => (e.1, e.2.2)

/-- What holds of the players, of the roster and of the settlements, once a walk has processed the
players up to `last`. -/
structure Settles (s : Store T) (game : GameInfo T.PlayerId) (last : Option T.PlayerId) : Prop where
  logged : s.Logged game.index
  ahead : ∀ p player, s.players.get p = some player → passed T.playerKey last p = false →
    ∃ player₀, s.roster.get p = some player₀ ∧ player.registered = player₀.registered ∧
      (player.earlyAttendanceEnactment.isSome = true ↔ p ∈ s.settled)
  exists_ahead : ∀ p, (s.roster.get p).isSome = true → passed T.playerKey last p = false →
    (s.players.get p).isSome = true
  behind : ∀ p player, s.players.get p = some player → passed T.playerKey last p = true →
    player.registered = false ∧ player.earlyAttendanceEnactment = none ∧ (s.roster.get p).isSome = true
  settled_behind : ∀ p, (s.roster.get p).isSome = true → passed T.playerKey last p = true → p ∈ s.settled
  pending : game.pendingAttendance = min s.rosterCount U32.max - s.settledCount

/-- What holds in each state of a game. -/
def Settling (s : Store T) : Prop :=
  match s.game with
  | none => s.AllFresh
  | some game =>
    match game.state with
    | .registration _ => s.Unsettled ∧ game.pendingAttendance = 0
    | .shuffle (.insert last) => s.Unsettled ∧ game.pendingAttendance =
        min (s.core.countWhere (passed T.playerKey last)) U32.max
    | .shuffle _ => s.Unsettled ∧ game.pendingAttendance = min s.core.registeredCount U32.max
    | .reporting _ => s.Settles game none
    | .playerProcess (.processPlayers last _) => s.Settles game last
    | .playerProcess .clearIndices =>
      s.AllFresh ∧ s.Logged game.index ∧ ∀ p, (s.roster.get p).isSome = true → p ∈ s.settled
    | .cancelling last => ∀ p player, s.players.get p = some player →
        passed T.playerKey last p = true → player.earlyAttendanceEnactment = none

variable {s t : Store T} {game game' : GameInfo T.PlayerId} {last : Option T.PlayerId}

/-! ### What a settling does not depend on -/

theorem Unsettled.fresh (h : s.Unsettled) : s.AllFresh := h.1

theorem Unsettled.congr (h : s.Unsettled) (hfresh : t.AllFresh) (hlog : t.log = s.log) : t.Unsettled :=
  ⟨hfresh, (congrArg settlementsOf hlog).trans h.2.1, (congrArg attendeesOf hlog).trans h.2.2⟩

theorem Logged.congr {i : Nat} (h : s.Logged i) (hsettlements : t.settlements = s.settlements)
    (hattendees : t.attendees = s.attendees) (hroster : t.roster = s.roster) : t.Logged i := by
  have hsettled : t.settled = s.settled := congrArg (List.map Prod.fst) hsettlements
  refine ⟨?_, ?_, ?_, ?_⟩
  · rw [hsettled, hroster]
    exact h.inRoster
  · rw [hsettled]
    exact h.once
  · rw [hsettlements]
    exact h.index
  · rw [hattendees, hsettlements]
    exact h.noted

/-- Two stores with the same players and the same settlements settle alike. -/
theorem Settles.congr (h : s.Settles game last)
    (hplayers : ∀ p player, t.players.get p = some player → ∃ player₀, s.players.get p = some player₀ ∧
      player.registered = player₀.registered ∧
      player.earlyAttendanceEnactment = player₀.earlyAttendanceEnactment)
    (hexists : ∀ p, (s.players.get p).isSome = true → (t.players.get p).isSome = true)
    (hsettlements : t.settlements = s.settlements) (hattendees : t.attendees = s.attendees)
    (hroster : t.roster = s.roster) (hindex : game'.index = game.index)
    (hpending : game'.pendingAttendance = game.pendingAttendance) : t.Settles game' last := by
  have hsettled : t.settled = s.settled := congrArg (List.map Prod.fst) hsettlements
  refine ⟨hindex ▸ h.logged.congr hsettlements hattendees hroster, fun p player hp hlast => ?_,
    fun p hp hlast => ?_, fun p player hp hlast => ?_, fun p hp hlast => ?_, ?_⟩
  · obtain ⟨player₁, hplayer₁, hregistered, hearly⟩ := hplayers p player hp
    rw [hroster, hsettled, hregistered, hearly]
    exact h.ahead p player₁ hplayer₁ hlast
  · rw [hroster] at hp
    exact hexists p (h.exists_ahead p hp hlast)
  · obtain ⟨player₁, hplayer₁, hregistered, hearly⟩ := hplayers p player hp
    rw [hroster, hregistered, hearly]
    exact h.behind p player₁ hplayer₁ hlast
  · rw [hroster] at hp
    rw [hsettled]
    exact h.settled_behind p hp hlast
  · rw [hpending, h.pending, rosterCount, rosterCount, settledCount, settledCount, hsettled, hroster]

/-- Two stores with the same players and the same log settle alike. -/
theorem Settles.same (h : s.Settles game last) (hplayers : t.players = s.players) (hlog : t.log = s.log)
    (hindex : game'.index = game.index) (hpending : game'.pendingAttendance = game.pendingAttendance) :
    t.Settles game' last :=
  h.congr (fun _ player hp => ⟨player, hplayers ▸ hp, rfl, rfl⟩) (fun _ hp => hplayers ▸ hp)
    (congrArg settlementsOf hlog) (congrArg attendeesOf hlog) (congrArg rosterOf hlog) hindex hpending

/-- A settling does not depend on what a player's record has beside its registration and its
enactment. -/
theorem Settles.revise (h : s.Settles game last) {who : T.PlayerId} {player player' : Player T.PlayDeposit}
    (hplayer : s.players.get who = some player)
    (hplayers : t.players = s.players.insert who player')
    (hregistered : player'.registered = player.registered)
    (hearly : player'.earlyAttendanceEnactment = player.earlyAttendanceEnactment)
    (hsettlements : t.settlements = s.settlements) (hattendees : t.attendees = s.attendees)
    (hroster : t.roster = s.roster) : t.Settles game last := by
  refine h.congr (fun p q hq => ?_) (fun p hp => ?_) hsettlements hattendees hroster rfl rfl
  · rw [hplayers, StorageMap.get_insert] at hq
    split at hq
    · rename_i heq
      cases hq
      exact ⟨player, heq ▸ hplayer, hregistered, hearly⟩
    · exact ⟨q, hq, rfl, rfl⟩
  · rw [hplayers, StorageMap.get_insert]
    split
    · rfl
    · exact hp

theorem Settling.congr (h : s.Settling) (hgame : t.game = s.game) (hplayers : t.players = s.players)
    (hlog : t.log = s.log) : t.Settling := by
  have hfresh : s.AllFresh → t.AllFresh := fun hs p player hp => hs p player (hplayers ▸ hp)
  have hcount : ∀ p, t.core.countWhere p = s.core.countWhere p := fun p =>
    congrArg (fun m => StorageMap.countOf m _) hplayers
  have hregistered : t.core.registeredCount = s.core.registeredCount :=
    congrArg (fun m => StorageMap.countOf m _) hplayers
  unfold Settling at h ⊢
  rw [hgame]
  cases hg : s.game with
  | none =>
    rw [hg] at h
    exact hfresh h
  | some game =>
    rw [hg] at h
    dsimp only at h ⊢
    split at h
    · exact ⟨h.1.congr (hfresh h.1.fresh) hlog, h.2⟩
    · rw [hcount]
      exact ⟨h.1.congr (hfresh h.1.fresh) hlog, h.2⟩
    · rw [hregistered]
      exact ⟨h.1.congr (hfresh h.1.fresh) hlog, h.2⟩
    · exact h.same hplayers hlog rfl rfl
    · exact h.same hplayers hlog rfl rfl
    · obtain ⟨hs, hlogged, hall⟩ := h
      have hroster : t.roster = s.roster := congrArg rosterOf hlog
      have hsettlements : t.settlements = s.settlements := congrArg settlementsOf hlog
      refine ⟨hfresh hs, hlogged.congr hsettlements (congrArg attendeesOf hlog) hroster, ?_⟩
      rw [hroster, settled, hsettlements]
      exact hall
    · rw [hplayers]
      exact h

/-! ### One settlement -/

/-- Applying the attendance of a player that is not settled settles it. -/
theorem Settles.enact (h : s.Settles game last) {who : T.PlayerId} {player : Player T.PlayDeposit}
    {attendance : Bool} {result : EarlyAttendanceEnactment}
    (hplayer : s.players.get who = some player) (hahead : passed T.playerKey last who = false)
    (hnone : player.earlyAttendanceEnactment = none)
    (hlog : t.log = attendanceEvents who attendance game.index ++ s.log)
    (hplayers : ∀ p, t.players.get p =
      if p = who then some { player with earlyAttendanceEnactment := some result } else s.players.get p)
    (hindex : game'.index = game.index)
    (hpending : game'.pendingAttendance =
      if player.registered then game.pendingAttendance - 1 else game.pendingAttendance) :
    t.Settles game' last := by
  have hroster : t.roster = s.roster :=
    (congrArg rosterOf hlog).trans (rosterOf_attendanceEvents who attendance game.index s.log)
  have hsettlements : t.settlements = (who, attendance, game.index) :: s.settlements :=
    (congrArg settlementsOf hlog).trans (settlementsOf_attendanceEvents who attendance game.index s.log)
  have hsettled : t.settled = who :: s.settled := congrArg (List.map Prod.fst) hsettlements
  have hattendees : t.attendees =
      if attendance then (who, game.index) :: s.attendees else s.attendees :=
    (congrArg attendeesOf hlog).trans (attendeesOf_attendanceEvents who attendance game.index s.log)
  obtain ⟨player₀, hplayer₀, hregistered, hiff⟩ := h.ahead who player hplayer hahead
  have hnot : who ∉ s.settled := by
    rw [← hiff, hnone]
    exact Bool.false_ne_true
  refine ⟨⟨fun p hp => ?_, ?_, fun e he => ?_, ?_⟩, fun p q hq hp => ?_, fun p hp hlast => ?_,
    fun p q hq hp => ?_, fun p hp hlast => ?_, ?_⟩
  · rw [hroster]
    rw [hsettled] at hp
    rcases List.mem_cons.mp hp with rfl | hp
    · rw [hplayer₀]
      rfl
    · exact h.logged.inRoster p hp
  · rw [hsettled]
    exact List.nodup_cons.mpr ⟨hnot, h.logged.once⟩
  · rw [hindex]
    rw [hsettlements] at he
    rcases List.mem_cons.mp he with rfl | he
    · rfl
    · exact h.logged.index e he
  · rw [hattendees, hsettlements, h.logged.noted]
    cases attendance <;> rfl
  · rw [hroster, hsettled, List.mem_cons]
    rw [hplayers] at hq
    split at hq
    · rename_i heq
      cases hq
      exact ⟨player₀, heq ▸ hplayer₀, hregistered, ⟨fun _ => .inl heq, fun _ => rfl⟩⟩
    · rename_i hne
      obtain ⟨q₀, hq₀, hreg, hiff'⟩ := h.ahead p q hq hp
      exact ⟨q₀, hq₀, hreg, hiff'.trans (or_iff_right hne).symm⟩
  · rw [hplayers]
    split
    · rfl
    · rw [hroster] at hp
      exact h.exists_ahead p hp hlast
  · rw [hplayers] at hq
    split at hq
    · rename_i heq
      rw [heq, hahead] at hp
      cases hp
    · rw [hroster]
      exact h.behind p q hq hp
  · rw [hroster] at hp
    rw [hsettled]
    exact List.mem_cons_of_mem _ (h.settled_behind p hp hlast)
  · have hcount : t.settledCount = s.settledCount + if player.registered then 1 else 0 := by
      simp only [settledCount, hsettled, hroster, List.countP_cons, hplayer₀, Option.any_some, hregistered]
    rw [hpending, hcount, rosterCount, hroster, h.pending, rosterCount]
    split <;> omega

/-- A walk is through with a player that is settled, and kept unregistered or removed. -/
theorem Settles.pass (h : s.Settles game last) {who : T.PlayerId} {player : Player T.PlayDeposit}
    {m : StorageMap T.PlayerId (Player T.PlayDeposit)}
    (hnext : m.nextKey T.playerKey last = some who)
    (hm : ∀ p, (s.players.get p).isSome = true → (m.get p).isSome = true) (hplayer : s.players.get who = some player)
    (hsettled : player.earlyAttendanceEnactment.isSome = true) (hlog : t.log = s.log)
    (hothers : ∀ p, p ≠ who → t.players.get p = s.players.get p)
    (hwho : ∀ q, t.players.get who = some q →
      q.registered = false ∧ q.earlyAttendanceEnactment = none)
    (hindex : game'.index = game.index)
    (hpending : game'.pendingAttendance = game.pendingAttendance) : t.Settles game' (some who) := by
  have hroster : t.roster = s.roster := congrArg rosterOf hlog
  have hsettlements : t.settlements = s.settlements := congrArg settlementsOf hlog
  have hmem : t.settled = s.settled := congrArg (List.map Prod.fst) hsettlements
  obtain ⟨hlogged, h₁, h₂, h₃, h₄, h₅⟩ := h
  have hahead : passed T.playerKey last who = false := (StorageMap.nextKey_mem hnext).2
  have hpassed : ∀ p, (s.players.get p).isSome = true → p ≠ who →
      (passed T.playerKey (some who) p = true ↔ passed T.playerKey last p = true) := by
    intro p hp hne
    rw [StorageMap.passed_of_next T.playerKey_injective hnext (hm p hp), or_iff_left hne]
  have hmono : ∀ p, passed T.playerKey (some who) p = false → passed T.playerKey last p = false := by
    intro p hp
    cases hlast : passed T.playerKey last p with
    | false => rfl
    | true =>
      rw [StorageMap.passed_mono hnext hlast] at hp
      cases hp
  have hself : passed T.playerKey (some who) who = true := by
    rw [StorageMap.passed_some]
    exact decide_eq_true (Nat.le_refl _)
  obtain ⟨player₀, hplayer₀, -, hiff⟩ := h₁ who player hplayer hahead
  refine ⟨⟨?_, ?_, ?_, ?_⟩, fun p q hq hp => ?_, fun p hp hnot => ?_, fun p q hq hp => ?_,
    fun p hp hall => ?_, ?_⟩
  · rw [hmem, hroster]
    exact hlogged.inRoster
  · rw [hmem]
    exact hlogged.once
  · rw [hsettlements, hindex]
    exact hlogged.index
  · rw [attendees, hlog, hsettlements]
    exact hlogged.noted
  · rw [hroster, hmem]
    by_cases heq : p = who
    · rw [heq, hself] at hp
      cases hp
    · rw [hothers p heq] at hq
      exact h₁ p q hq (hmono p hp)
  · rw [hroster] at hp
    by_cases heq : p = who
    · rw [heq, hself] at hnot
      cases hnot
    · rw [hothers p heq]
      exact h₂ p hp (hmono p hnot)
  · rw [hroster]
    by_cases heq : p = who
    · subst heq
      exact ⟨(hwho q hq).1, (hwho q hq).2, by rw [hplayer₀]; rfl⟩
    · rw [hothers p heq] at hq
      exact h₃ p q hq ((hpassed p (by rw [hq]; rfl) heq).mp hp)
  · rw [hroster] at hp
    rw [hmem]
    by_cases heq : p = who
    · rw [heq]
      exact hiff.mp hsettled
    · cases hlast : passed T.playerKey last p with
      | true => exact h₄ p hp hlast
      | false =>
        rw [(hpassed p (h₂ p hp hlast) heq).mp hall] at hlast
        cases hlast
  · rw [hpending, h₅, rosterCount, rosterCount, settledCount, settledCount, hroster, hmem]

/-- What is pending is the number of registered players not settled, where none was left out. -/
theorem Settles.pending_eq (h : s.Settles game last) (hfits : s.rosterCount ≤ U32.max) :
    game.pendingAttendance = s.players.countOf fun p player => player.registered && !decide (p ∈ s.settled) := by
  have hsettled : s.settledCount =
      s.roster.countOf fun p player => player.registered && decide (p ∈ s.settled) := by
    have hperm : (s.settled.filter fun p => (s.roster.get p).any fun player => player.registered).Perm
        (s.roster.keys.filter fun p => (s.roster.get p).any fun player =>
          player.registered && decide (p ∈ s.settled)) := by
      refine (List.perm_ext_iff_of_nodup (h.logged.once.filter _) (s.roster.nodup_keys.filter _)).mpr ?_
      intro p
      rw [List.mem_filter, List.mem_filter, StorageMap.mem_keys]
      cases hp : s.roster.get p with
      | none => simp
      | some player => simp [and_comm]
    rw [settledCount, List.countP_eq_length_filter, hperm.length_eq, StorageMap.countOf_eq_length]
  have hunsettled : (s.players.countOf fun p player => player.registered && !decide (p ∈ s.settled)) =
      s.roster.countOf fun p player => player.registered && !decide (p ∈ s.settled) := by
    refine StorageMap.countOf_eq_of_any fun p => ?_
    by_cases hmem : p ∈ s.settled
    · cases s.players.get p <;> cases s.roster.get p <;> simp [hmem]
    · cases hlast : passed T.playerKey last p with
      | true =>
        have hroster : s.roster.get p = none := by
          cases hp : s.roster.get p with
          | none => rfl
          | some player => exact absurd (h.settled_behind p (by rw [hp]; rfl) hlast) hmem
        cases hq : s.players.get p with
        | none => rw [hroster]
        | some player =>
          have hin := (h.behind p player hq hlast).2.2
          rw [hroster] at hin
          cases hin
      | false =>
        cases hq : s.players.get p with
        | none =>
          cases hp : s.roster.get p with
          | none => rfl
          | some player =>
            have hin := h.exists_ahead p (by rw [hp]; rfl) hlast
            rw [hq] at hin
            cases hin
        | some player =>
          obtain ⟨player₀, hplayer₀, hreg, -⟩ := h.ahead p player hq hlast
          rw [hplayer₀, Option.any_some, Option.any_some, hreg]
  have hsplit : s.rosterCount =
      (s.roster.countOf fun p player => player.registered && decide (p ∈ s.settled)) +
        s.roster.countOf fun p player => player.registered && !decide (p ∈ s.settled) := by
    rw [rosterCount, StorageMap.countOf_and_add_countOf_and_not]
  rw [h.pending, Nat.min_eq_left hfits, hsettled, hunsettled]
  omega

/-! ### What the operations do to players and log -/

/-- An early enactment settles a player that is not settled, or does nothing. -/
theorem tryEarly_eq (env : Env T) (s : Store T) (who : T.PlayerId) :
    s.tryEarlyAttendanceEnactment env who = s ∨
      ∃ game n player attendance result, s.game = some game ∧ game.state = .reporting n ∧
        s.players.get who = some player ∧ player.earlyAttendanceEnactment = none ∧
        (s.tryEarlyAttendanceEnactment env who).game = some { game with
          pendingAttendance :=
            if player.registered then game.pendingAttendance - 1 else game.pendingAttendance } ∧
        (s.tryEarlyAttendanceEnactment env who).players = s.players.insert who
          { player with earlyAttendanceEnactment := some result } ∧
        (s.tryEarlyAttendanceEnactment env who).log =
          attendanceEvents who attendance game.index ++ s.log := by
  unfold tryEarlyAttendanceEnactment
  split
  · rename_i player game hplayer hgame
    split
    · exact .inl rfl
    · rename_i hnone
      rw [Bool.not_eq_true, Option.isSome_eq_false_iff, Option.isNone_iff_eq_none] at hnone
      have henact : ∀ attendance, s.enactEarly env game who player attendance = s ∨
          ∃ n result, game.state = .reporting n ∧
            (s.enactEarly env game who player attendance).game = some { game with
              pendingAttendance :=
                if player.registered then game.pendingAttendance - 1 else game.pendingAttendance } ∧
            (s.enactEarly env game who player attendance).players = s.players.insert who
              { player with earlyAttendanceEnactment := some result } ∧
            (s.enactEarly env game who player attendance).log =
              attendanceEvents who attendance game.index ++ s.log := by
        intro attendance
        have hlog := s.log_applyAttendance who attendance player.registered game.index
          game.pendingAttendance
        have hcore := s.core_applyAttendance who attendance player.registered game.index
          game.pendingAttendance
        have hpending := s.pending_applyAttendance who attendance player.registered game.index
          game.pendingAttendance
        unfold enactEarly
        split
        · rename_i n hstate
          refine .inr ⟨n, ?_⟩
          generalize s.applyAttendance who attendance player.registered game.index
            game.pendingAttendance = r at hlog hcore hpending
          obtain ⟨u, pending, result⟩ := r
          dsimp only at hlog hcore hpending ⊢
          have hnfts := u.core_applyAttendanceToNfts game.index game.rounds game.maxGroupSize n who
            attendance env.now.asSecs
          have hplayer' : ((u.applyAttendanceToNfts game.index game.rounds game.maxGroupSize n who attendance
              env.now.asSecs).putGame { game with pendingAttendance := pending }).players.get who =
                some player := by
            have hplayers := congrArg Core.players (hnfts.trans hcore)
            exact (congrArg (fun m => StorageMap.get m who) hplayers).trans hplayer
          have hput := core_mutatePlayer _ hplayer'
            fun player => { player with earlyAttendanceEnactment := some result }
          refine ⟨result, hstate, ?_, ?_, ?_⟩
          · rw [← hpending]
            exact congrArg Core.game hput
          · refine (congrArg Core.players hput).trans ?_
            exact congrArg (fun m => StorageMap.insert m who _) (congrArg Core.players (hnfts.trans hcore))
          · rw [log_mutatePlayer, log_putGame, log_applyAttendanceToNfts, hlog]
        · exact .inl rfl
      split
      · rcases henact true with heq | ⟨n, result, hstate, hgame', hplayers, hlog⟩
        · exact .inl heq
        · exact .inr ⟨game, n, player, true, result, hgame, hstate, hplayer, hnone, hgame', hplayers, hlog⟩
      · rcases henact false with heq | ⟨n, result, hstate, hgame', hplayers, hlog⟩
        · exact .inl heq
        · exact .inr ⟨game, n, player, false, result, hgame, hstate, hplayer, hnone, hgame', hplayers,
            hlog⟩
      · exact .inl rfl
  · exact .inl rfl

/-- Processing a player settles it, unless it is, and removes it or keeps it unregistered. -/
theorem processPlayerAttendanceOutcome_eq (env : Env T) (s : Store T) (game : GameInfo T.PlayerId) (n : Nat)
    (who : T.PlayerId) (player : Player T.PlayDeposit) :
    (∀ q, (s.processPlayerAttendanceOutcome env game n who player).1.players.get who = some q →
      q.registered = false ∧ q.earlyAttendanceEnactment = none) ∧
    ((player.earlyAttendanceEnactment.isSome = true ∧
        (s.processPlayerAttendanceOutcome env game n who player).1.log = s.log ∧
        (s.processPlayerAttendanceOutcome env game n who player).2 = game.pendingAttendance) ∨
      player.earlyAttendanceEnactment = none ∧ ∃ attendance,
        (s.processPlayerAttendanceOutcome env game n who player).1.log =
          attendanceEvents who attendance game.index ++ s.log ∧
        (s.processPlayerAttendanceOutcome env game n who player).2 =
          if player.registered then game.pendingAttendance - 1 else game.pendingAttendance) := by
  have hput : ∀ (t : Store T) (kept : Player T.PlayDeposit), kept.registered = false →
      kept.earlyAttendanceEnactment = none → ∀ q, (t.putPlayer who kept).players.get who = some q →
        q.registered = false ∧ q.earlyAttendanceEnactment = none := by
    intro t kept hreg hearly q hq
    cases ((StorageMap.get_insert t.players who who kept).trans (if_pos rfl)).symm.trans hq
    exact ⟨hreg, hearly⟩
  have hkeep : ∀ (t : Store T) q, (t.keep who player).players.get who = some q →
      q.registered = false ∧ q.earlyAttendanceEnactment = none := by
    intro t
    unfold keep
    split
    · split
      · exact hput { t with world := _ } _ rfl rfl
      · exact hput t _ rfl rfl
    · exact hput t _ rfl rfl
  have harchive : ∀ (t : Store T) archived q, (t.archive who player archived).players.get who = some q →
      q.registered = false ∧ q.earlyAttendanceEnactment = none := by
    intro t archived q hq
    have hnone : ∀ m : StorageMap T.PlayerId (Player T.PlayDeposit), (m.remove who).get who = none :=
      fun m => (StorageMap.get_remove m who who).trans (if_pos rfl)
    cases (hnone _).symm.trans hq
  constructor
  · unfold processPlayerAttendanceOutcome
    dsimp only
    split
    · exact harchive _ _
    · exact harchive _ _
    · exact hkeep _
  · have hlog : (s.processPlayerAttendanceOutcome env game n who player).1.log =
        (s.enactAttendance env game n who player).1.log := by
      unfold processPlayerAttendanceOutcome
      dsimp only
      split
      · exact log_archive ..
      · exact log_archive ..
      · exact log_keep ..
    have hpending : (s.processPlayerAttendanceOutcome env game n who player).2 =
        (s.enactAttendance env game n who player).2.1 := rfl
    rw [hlog, hpending]
    unfold enactAttendance
    cases hearly : player.earlyAttendanceEnactment with
    | some cached => exact .inl ⟨rfl, rfl, rfl⟩
    | none =>
      refine .inr ⟨rfl, finalAttendance player, ?_, rfl⟩
      dsimp only
      rw [log_applyAttendanceToNfts, log_applyAttendance]

/-! ### The shuffle -/

/-- A record changed only in its weights is as fresh as before. -/
theorem AllFresh.mutatePlayer (h : s.AllFresh) (who : T.PlayerId)
    {f : Player T.PlayDeposit → Player T.PlayDeposit}
    (hf : ∀ player, (f player).earlyAttendanceEnactment = player.earlyAttendanceEnactment) :
    (s.mutatePlayer who f).AllFresh := by
  intro p player hp
  rw [get_mutatePlayer] at hp
  split at hp
  · obtain ⟨player₀, hplayer₀, rfl⟩ := Option.map_eq_some_iff.mp hp
    rw [hf]
    exact h p player₀ hplayer₀
  · exact h p player hp

/-- Staging a player counts it, if it is registered. -/
theorem shuffleStepInsert_settling (env : Env T) {who : T.PlayerId} (hunsettled : s.Unsettled)
    (hpending : game.pendingAttendance = min (s.core.countWhere (passed T.playerKey last)) U32.max)
    (h : s.shuffleStepInsert env last game = some (t, who, game')) :
    t.Unsettled ∧
      game'.pendingAttendance = min (t.core.countWhere (passed T.playerKey (some who))) U32.max := by
  obtain ⟨⟨playerId, player⟩, hentry, heq⟩ := Option.map_eq_some_iff.mp h
  obtain ⟨hnext, hplayer⟩ := StorageMap.nextEntry_eq_some.mp hentry
  have hcount : ∀ u : Store T, (∀ p, u.core.isRegistered p = s.core.isRegistered p) →
      u.core.countWhere (passed T.playerKey (some playerId)) =
        s.core.countWhere (passed T.playerKey last) + if player.registered then 1 else 0 := by
    intro u hu
    rw [Core.countWhere_congr hu (fun p hp => passed_next hnext hp),
      Core.countWhere_or (StorageMap.nextKey_mem hnext).2, Core.isRegistered, core_players, hplayer]
    rfl
  dsimp only at heq
  split at heq
  · rename_i hreg
    obtain ⟨rfl, rfl, rfl⟩ := heq
    have hstaged := (foldl_stagePlayer_frame env (s.mutatePlayer who fun player =>
      { player with voteWeight := T.voteWeight (s.score.reachedPersonhood who) })
      (s.score.reachedPersonhood who) who (List.range game.rounds))
    refine ⟨hunsettled.congr (fun p q hq => ?_) (hstaged.log.trans (log_mutatePlayer ..)), ?_⟩
    · rw [hstaged.players] at hq
      exact hunsettled.fresh.mutatePlayer who (by exact fun _ => rfl) p q hq
    · rw [hcount _ fun p => ?_, if_pos hreg]
      · show min (game.pendingAttendance + 1) U32.max = _
        omega
      · refine Eq.trans ?_ ((mutatePlayer_alike s who (f := fun player =>
          { player with voteWeight := T.voteWeight (s.score.reachedPersonhood who) })
          fun _ => rfl).registered p)
        exact congrArg (fun m => (StorageMap.get m p).any _) hstaged.players
  · rename_i hreg
    cases heq
    rw [hcount s fun _ => rfl, if_neg hreg]
    exact ⟨hunsettled, hpending⟩

/-- Once the reporting opens, nobody is settled and everyone registered is pending. -/
theorem Unsettled.opened (h : s.Unsettled)
    (hpending : game.pendingAttendance = min s.core.registeredCount U32.max) {n : Nat}
    (hplayers : t.players = s.players)
    (hlog : t.log = .reportingOpened game n s.players s.indexToPlayer :: s.log)
    (hpending' : game'.pendingAttendance = game.pendingAttendance) : t.Settles game' none := by
  have hsettlements : t.settlements = [] := (congrArg settlementsOf hlog).trans h.2.1
  have hattendees : t.attendees = [] := (congrArg attendeesOf hlog).trans h.2.2
  have hroster : t.roster = s.players := congrArg rosterOf hlog
  have hsettled : t.settled = [] := congrArg (List.map Prod.fst) hsettlements
  refine ⟨⟨?_, ?_, ?_, ?_⟩, fun p player hp _ => ?_, fun p hp _ => ?_, fun p player _ hp => ?_,
    fun p _ hp => ?_, ?_⟩
  · rw [hsettled]
    exact fun p hp => absurd hp List.not_mem_nil
  · rw [hsettled]
    exact List.nodup_nil
  · rw [hsettlements]
    exact fun e he => absurd he List.not_mem_nil
  · rw [hattendees, hsettlements]
    rfl
  · rw [hplayers] at hp
    rw [hroster, hsettled, h.fresh p player hp]
    exact ⟨player, hp, rfl, nofun, nofun⟩
  · rw [hroster] at hp
    rw [hplayers]
    exact hp
  · cases hp
  · cases hp
  · rw [hpending', hpending, rosterCount, settledCount, hroster, hsettled]
    rfl

/-- A move of the shuffle keeps what settles. -/
theorem shuffleMove_settling (env : Env T) {step : ShuffleStep T.PlayerId}
    (hstate : game.state = .shuffle step) (h : (s.putGame game).Settling) :
    ((s.shuffleMove env game step).1.putGame (s.shuffleMove env game step).2.1).Settling := by
  unfold Settling at h
  simp only [show (s.putGame game).game = some game from rfl, hstate] at h
  cases step with
  | insert last =>
    have hunsettled : s.Unsettled := h.1
    have hpending : game.pendingAttendance = min (s.core.countWhere (passed T.playerKey last)) U32.max := h.2
    unfold shuffleMove
    dsimp only
    split
    · rename_i t who game' hinsert
      have hnext := shuffleStepInsert_settling env hunsettled hpending hinsert
      exact hnext
    · rename_i hinsert
      have hnone := StorageMap.nextEntry_eq_none.mp (Option.map_eq_none_iff.mp hinsert)
      refine ⟨hunsettled, hpending.trans (congrArg (min · U32.max) ?_)⟩
      refine Core.countWhere_eq_registeredCount fun p hp => StorageMap.nextKey_eq_none.mp hnone p ?_
      obtain ⟨player, hplayer, -⟩ := s.core.isRegistered_iff.mp hp
      exact Option.isSome_iff_exists.mpr ⟨player, hplayer⟩
  | retrieve next finished =>
    have hunsettled : s.Unsettled := h.1
    have hpending : game.pendingAttendance = min s.core.registeredCount U32.max := h.2
    have hretrieved := s.shuffleStepRetrieve_frame next finished game.rounds
    have hkept : ∀ (t : Store T), IndicesOnly s t →
        t.Unsettled ∧ game.pendingAttendance = min t.core.registeredCount U32.max := by
      intro t ht
      refine ⟨hunsettled.congr (fun p player hp => hunsettled.fresh p player (ht.players ▸ hp)) ht.log,
        hpending.trans ?_⟩
      rw [Core.registeredCount, Core.registeredCount, core_players, core_players, ht.players]
    unfold shuffleMove
    dsimp only
    split
    all_goals
      rename_i heq
      rw [heq] at hretrieved
      have hnext := hkept _ hretrieved
      exact hnext
  | computeWeights last n =>
    have hunsettled : s.Unsettled := h.1
    have hpending : game.pendingAttendance = min s.core.registeredCount U32.max := h.2
    unfold shuffleMove
    dsimp only
    split
    · rename_i t who hweigh
      obtain ⟨⟨playerId, indices⟩, -, heq⟩ := Option.map_eq_some_iff.mp hweigh
      obtain ⟨rfl, rfl⟩ := heq
      refine ⟨hunsettled.congr (hunsettled.fresh.mutatePlayer who (by exact fun _ => rfl)) (log_mutatePlayer ..),
        hpending.trans (congrArg (min · U32.max) ?_)⟩
      refine (Core.registeredCount_congr ?_).symm
      exact (mutatePlayer_alike s who (by exact fun _ => rfl)).registered
    · exact ⟨hunsettled, hpending⟩
  | awaitSession n =>
    have hunsettled : s.Unsettled := h.1
    have hpending : game.pendingAttendance = min s.core.registeredCount U32.max := h.2
    have hkept : (s.putGame game).Settling := by
      unfold Settling
      simp only [show (s.putGame game).game = some game from rfl, hstate]
      exact h
    unfold shuffleMove startSession
    dsimp only
    split
    · split
      · rename_i score world _
        exact hunsettled.opened hpending rfl rfl rfl
      · exact hkept.congr rfl rfl rfl
    · exact hkept

end Store
end Individuality.Game
