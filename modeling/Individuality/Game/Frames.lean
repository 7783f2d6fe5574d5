import Individuality.Game.Calls

/-! What the operations of a game leave alone.

Each lemma names the fields that an operation writes: its result is the store it
started from with these fields as the result has them. What is true of any other field
is read off by `congrArg`. -/
namespace Individuality.Game
open Support
variable {T : Config}

namespace Store
variable (env : Env T) (s : Store T)

/-- A loop whose turns keep a relation that composes keeps it. -/
theorem foldl_frame {β : Type} {F : Store T → Store T → Prop} (refl : ∀ s, F s s)
    (trans : ∀ {s t u}, F s t → F t u → F s u) (f : Store T → β → Store T) (h : ∀ s b, F s (f s b))
    (l : List β) : F s (l.foldl f s) := by
  induction l generalizing s with
  | nil => exact refl s
  | cons b l ih => exact trans (h s b) (ih (f s b))

/-! ### The shuffle -/

/-- Only the players staged differ. -/
def StagedOnly (s t : Store T) : Prop := t = { s with
  shuffleRecognized := t.shuffleRecognized
  shuffleNotRecognized := t.shuffleNotRecognized }

theorem StagedOnly.trans {s t u : Store T} (h : StagedOnly s t) (h' : StagedOnly t u) : StagedOnly s u := by
  unfold StagedOnly at h h'
  rw [h] at h'
  exact h'

theorem StagedOnly.log {s t : Store T} (h : StagedOnly s t) : t.log = s.log := (congrArg Store.log h).trans rfl

theorem StagedOnly.players {s t : Store T} (h : StagedOnly s t) : t.players = s.players :=
  (congrArg Store.players h).trans rfl

theorem foldl_stagePlayer_frame (recognized : Bool) (playerId : T.PlayerId) (rounds : List RoundIndex) :
    StagedOnly s (rounds.foldl (fun s round => s.stagePlayer env recognized playerId round) s) := by
  refine foldl_frame (F := StagedOnly) s (fun _ => rfl) StagedOnly.trans _ (fun s round => ?_) rounds
  unfold stagePlayer
  dsimp only
  split <;> rfl

/-- Only the players staged and the indices differ. -/
def IndicesOnly (s t : Store T) : Prop := t = { s with
  shuffleRecognized := t.shuffleRecognized
  shuffleNotRecognized := t.shuffleNotRecognized
  indexToPlayer := t.indexToPlayer
  playerToIndex := t.playerToIndex }

theorem IndicesOnly.trans {s t u : Store T} (h : IndicesOnly s t) (h' : IndicesOnly t u) :
    IndicesOnly s u := by
  unfold IndicesOnly at h h'
  rw [h] at h'
  exact h'

theorem IndicesOnly.log {s t : Store T} (h : IndicesOnly s t) : t.log = s.log :=
  (congrArg Store.log h).trans rfl

theorem IndicesOnly.players {s t : Store T} (h : IndicesOnly s t) : t.players = s.players :=
  (congrArg Store.players h).trans rfl

theorem drainStaged_frame {recognizedFinished : Bool} {round : RoundIndex} {t : Store T}
    {playerId : T.PlayerId} (h : s.drainStaged recognizedFinished round = some (t, playerId)) :
    IndicesOnly s t := by
  unfold drainStaged at h
  split at h
  all_goals
    obtain ⟨⟨key, id⟩, -, heq⟩ := Option.map_eq_some_iff.mp h
    cases heq
    rfl

theorem retrieveRounds_frame (recognizedFinished : Bool) (rounds index : Nat) (left : List RoundIndex) :
    IndicesOnly s (retrieveRounds recognizedFinished rounds index s left).1 := by
  induction left generalizing s with
  | nil => rfl
  | cons round rest ih =>
    unfold retrieveRounds
    split
    · rfl
    · rename_i t playerId hdrain
      have hassign : IndicesOnly t (t.assignIndex rounds round index playerId) := rfl
      exact ((s.drainStaged_frame hdrain).trans hassign).trans (ih _)

theorem shuffleStepRetrieve_frame (nextPlayerIndex : Nat) (recognizedFinished : Bool) (rounds : Nat) :
    IndicesOnly s (s.shuffleStepRetrieve nextPlayerIndex recognizedFinished rounds).1 := by
  have h := s.retrieveRounds_frame recognizedFinished rounds nextPlayerIndex (List.range rounds)
  unfold shuffleStepRetrieve
  split
  all_goals
    rename_i t heq
    rw [heq] at h
    exact h

end Store
end Individuality.Game
