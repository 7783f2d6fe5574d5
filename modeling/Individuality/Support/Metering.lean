import Mathlib.Logic.Function.Iterate

/-! Work within a weight limit.

A block leaves a hook some weight, in computation and in proof size. A loop pays
for each turn before it makes it and stops where it cannot, so how far it gets is
the block's choice; `repeatUpTo` is such a loop, with a bound on its turns besides,
and what every turn carries holds wherever it stops. A loop whose turns are steps of a
system, as long as it can pay for them, makes some number of steps (`repeatUpTo_steps`). -/
namespace Individuality.Support

structure Weight where
  refTime : Nat
  proofSize : Nat
  deriving DecidableEq, Repr

namespace Weight

instance : Add Weight := ⟨fun v w => ⟨v.refTime + w.refTime, v.proofSize + w.proofSize⟩⟩

def half (w : Weight) : Weight := ⟨w.refTime / 2, w.proofSize / 2⟩

def max (v w : Weight) : Weight :=
  ⟨Nat.max v.refTime w.refTime, Nat.max v.proofSize w.proofSize⟩

/-- What is left of a limit after paying `w`, where it can be paid. -/
def tryConsume (limit w : Weight) : Option Weight :=
  if w.refTime ≤ limit.refTime ∧ w.proofSize ≤ limit.proofSize then
    some ⟨limit.refTime - w.refTime, limit.proofSize - w.proofSize⟩
  else none

end Weight

universe u v
variable {σ : Type u}

/-- Make turns until one says to stop, at most `bound` of them. -/
def repeatUpTo (turn : σ → σ × Bool) : Nat → σ → σ
  | 0, s => s
  | bound + 1, s =>
    match turn s with
    | (s', true) => repeatUpTo turn bound s'
    | (s', false) => s'

/-- What holds before the loop and is carried by each turn holds after it. -/
theorem repeatUpTo_induction {turn : σ → σ × Bool} {P : σ → Prop} {s : σ} (h₀ : P s)
    (step : ∀ t, P t → P (turn t).1) (bound : Nat) : P (repeatUpTo turn bound s) := by
  induction bound generalizing s with
  | zero => exact h₀
  | succ bound ih =>
    unfold repeatUpTo
    have hs := step s h₀
    split
    · rename_i s' hturn
      rw [hturn] at hs
      exact ih hs
    · rename_i s' hturn
      rw [hturn] at hs
      exact hs

/-- A turn makes a step, or else it changes nothing and the loop stops: so many steps are made, at least
one if the first turn makes one. -/
theorem repeatUpTo_steps {τ : Type v} {turn : σ → σ × Bool} {step : τ → τ} (view : σ → τ)
    (hturn : ∀ s, view (turn s).1 = step (view s) ∨ view (turn s).1 = view s ∧ (turn s).2 = false)
    (bound : Nat) (s : σ) :
    ∃ n ≤ bound, view (repeatUpTo turn bound s) = step^[n] (view s) ∧
      (0 < bound → view (turn s).1 = step (view s) → 0 < n) := by
  induction bound generalizing s with
  | zero => exact ⟨0, Nat.le_refl _, rfl, fun h => absurd h (Nat.lt_irrefl 0)⟩
  | succ bound ih =>
    unfold repeatUpTo
    have hs := hturn s
    split
    · rename_i s' heq
      rw [heq] at hs ⊢
      rcases hs with hstep | ⟨-, hstop⟩
      · obtain ⟨n, hn, hview, -⟩ := ih s'
        exact ⟨n + 1, Nat.succ_le_succ hn, by rw [hview, Function.iterate_succ_apply, ← hstep],
          fun _ _ => Nat.succ_pos n⟩
      · cases hstop
    · rename_i s' heq
      rw [heq] at hs ⊢
      by_cases hstep : view s' = step (view s)
      · exact ⟨1, Nat.succ_le_succ (Nat.zero_le _), hstep, fun _ _ => Nat.one_pos⟩
      · exact ⟨0, Nat.zero_le _, (hs.resolve_left hstep).1, fun _ hne => absurd hne hstep⟩

end Individuality.Support
