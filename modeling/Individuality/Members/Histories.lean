import Individuality.Members.Calls
import Individuality.Members.Ideal

/-! Histories: what is noted of a run beside the storage.

Some statements are about more than a state holds: which notification a ring's
subscribers got last, or in which life of a ring a root was archived. An
`Observer` keeps such a note for each collection, and sees every accepted call
with the store before and after it; it never influences the run
(`Reachable.state`). What each call carries of a store and its note, a run
carries (`reachable_invariant`). -/
namespace Individuality.Members
open Support
variable {T : Config}

structure Observer (T : Config) (H : Type) where
  start : H
  observe : Env T → Store T → Call T → Store T → H → H

namespace Observer
variable {H : Type} (O : Observer T H)

/-- The pallet with the notes kept of its collections. -/
abbrev World (T : Config) (H : Type) : Type := State T × (Identifier → H)

def exec (w : World T H) (a : Action T) : Except Error (World T H) := do
  let s ← w.1.exec a
  match a with
  | .call id c =>
    .ok (s, Function.update w.2 id
      (O.observe w.1.env (w.1.store id) c (s.store id) (w.2 id)))
  | _ => .ok (s, w.2)

def Reachable (G : Env T → Store T → Call T → Prop) (w : World T H) : Prop :=
  Reaches O.exec (fun w a => State.OnCalls G w.1 a) (State.genesis T, fun _ => O.start) w

variable {O}

theorem exec_call {w w' : World T H} {id : Identifier} {c : Call T}
    (h : O.exec w (.call id c) = .ok w') :
    (w.1.store id).exec w.1.env c = .ok (w'.1.store id) ∧ w'.1.env = w.1.env ∧
      w'.2 id = O.observe w.1.env (w.1.store id) c (w'.1.store id) (w.2 id) ∧
      ∀ id', id' ≠ id → w'.1.store id' = w.1.store id' ∧ w'.2 id' = w.2 id' := by
  simp only [exec, bind_eq_ok] at h
  obtain ⟨s, hs, h⟩ := h
  cases h
  obtain ⟨hstore, henv, hother⟩ := State.exec_call hs
  refine ⟨hstore, henv, Function.update_self _ _ _, ?_⟩
  intro id' hne
  exact ⟨hother id' hne, Function.update_of_ne hne _ _⟩

/-- What every call carries of the store it runs on and of its note, and the passing of
time and new chunks leave alone, holds of every collection in every state reached. -/
theorem reachable_invariant {I : Env T → Store T → H → Prop}
    {G : Env T → Store T → Call T → Prop} {w : World T H} (h : O.Reachable G w)
    (h₀ : ∀ env, I env (Store.empty T) O.start)
    (step : ∀ env t c t' n, I env t n → G env t c → t.exec env c = .ok t' →
      I env t' (O.observe env t c t' n))
    (outside : ∀ env env' t n, I env t n → env.now ≤ env'.now → I env' t n)
    (id : Identifier) : I w.1.env (w.1.store id) (w.2 id) := by
  refine Reaches.invariant (I := fun w : World T H => ∀ id, I w.1.env (w.1.store id) (w.2 id)) h
    (fun _ => h₀ _) ?_ id
  intro w a w' hw hG hexec id'
  cases a with
  | call id c =>
    obtain ⟨hstore, henv, hnote, hother⟩ := exec_call hexec
    rw [henv]
    by_cases hid : id' = id
    · rw [hid, hnote]
      exact step _ _ c _ _ (hw id) hG hstore
    · rw [(hother id' hid).1, (hother id' hid).2]
      exact hw id'
  | advance seconds =>
    cases hexec
    exact outside _ _ _ _ (hw id') (Nat.le_add_right _ _)
  | provideChunks chunks =>
    cases hexec
    exact outside _ _ _ _ (hw id') (Nat.le_refl _)

/-! ### Runs of the sample collection -/

/-- Calls on the sample collection from the start of the pallet, each of which meets `G`. -/
def sampleRun (O : Observer sampleConfig H)
    (G : Env sampleConfig → Store sampleConfig → Call sampleConfig → Bool)
    (calls : List (Call sampleConfig)) : Except Error (World sampleConfig H) :=
  calls.foldlM (fun w c => do
    ensure (G w.1.env (w.1.store sampleId) c = true) .stale
    O.exec w (.call sampleId c)) (State.genesis sampleConfig, fun _ => O.start)

/-- Calls that are accepted one after the other are a run, and what they leave is read off. -/
theorem exists_sampleRun {O : Observer sampleConfig H}
    {G : Env sampleConfig → Store sampleConfig → Call sampleConfig → Bool}
    (calls : List (Call sampleConfig)) (P : World sampleConfig H → Prop) [DecidablePred P]
    (h : (O.sampleRun G calls).toOption.any (fun w => decide (P w)) = true) :
    ∃ w, O.sampleRun G calls = .ok w ∧ O.Reachable (fun env s c => G env s c = true) w ∧ P w := by
  cases hrun : O.sampleRun G calls with
  | error e =>
    rw [hrun] at h
    cases h
  | ok w =>
    rw [hrun] at h
    refine ⟨w, rfl, ?_, of_decide_eq_true h⟩
    refine foldlM_ok_induction (fun _ w => O.Reachable (fun env s c => G env s c = true) w) hrun
      (Reaches.refl _) ?_
    intro done c w w' _ hw hstep
    simp only [bind_eq_ok, ensure_eq_ok] at hstep
    obtain ⟨-, hG, hexec⟩ := hstep
    exact hw.tail (i := .call sampleId c) hG hexec

end Observer
end Individuality.Members
