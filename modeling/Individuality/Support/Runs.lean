import Mathlib.Logic.Relation

/-! Runs of a system of fallible calls.

A system is a function that executes a call on a state and may refuse it; a
refused call changes nothing, so a run is a sequence of accepted ones. `Steps`
also takes a condition on the state and the call, so that a run can be confined
to some calls (`Reaches`); whatever one such step carries, a run carries.
`Along` speaks of every step of a run, and `noting` keeps a note of a run beside
the state, for what a state does not hold. -/

namespace Individuality.Support

universe u v w
variable {ε : Type u} {σ : Type v} {ι : Type w}

/-- One accepted call that meets `G`. -/
def Steps (exec : σ → ι → Except ε σ) (G : σ → ι → Prop) (s s' : σ) : Prop :=
  ∃ i, G s i ∧ exec s i = .ok s'

/-- A run of accepted calls that meet `G`. -/
def Reaches (exec : σ → ι → Except ε σ) (G : σ → ι → Prop) : σ → σ → Prop :=
  Relation.ReflTransGen (Steps exec G)

namespace Reaches
variable {exec : σ → ι → Except ε σ} {G : σ → ι → Prop} {s s' s'' : σ}

theorem refl (s : σ) : Reaches exec G s s := Relation.ReflTransGen.refl

theorem tail {i : ι} (h : Reaches exec G s s') (hG : G s' i) (hi : exec s' i = .ok s'') :
    Reaches exec G s s'' := Relation.ReflTransGen.tail h ⟨i, hG, hi⟩

theorem trans (h : Reaches exec G s s') (h' : Reaches exec G s' s'') : Reaches exec G s s'' :=
  Relation.ReflTransGen.trans h h'

/-- What holds at the start and is carried by every step holds in every state reached. -/
theorem invariant {I : σ → Prop} (h : Reaches exec G s s') (h₀ : I s)
    (step : ∀ t i t', I t → G t i → exec t i = .ok t' → I t') : I s' := by
  induction h with
  | refl => exact h₀
  | tail _ hst ih =>
    obtain ⟨i, hG, hi⟩ := hst
    exact step _ i _ ih hG hi

/-- A run under a condition is a run under a weaker one. -/
theorem mono {G' : σ → ι → Prop} (h : Reaches exec G s s') (hG : ∀ t i, G t i → G' t i) :
    Reaches exec G' s s' := by
  induction h with
  | refl => exact refl s
  | tail _ hst ih =>
    obtain ⟨i, hg, hi⟩ := hst
    exact ih.tail (hG _ i hg) hi

/-- What holds at the start of a run and not at its end is lost in a step. -/
theorem exists_loss {P : σ → Prop} (h : Reaches exec G s s') (hs : P s) (hs' : ¬P s') :
    ∃ t i t', Reaches exec G s t ∧ G t i ∧ exec t i = .ok t' ∧ Reaches exec G t' s' ∧ P t ∧ ¬P t' := by
  induction h with
  | refl => exact absurd hs hs'
  | @tail t t' hrun hstep ih =>
    by_cases ht : P t
    · obtain ⟨i, hG, hi⟩ := hstep
      exact ⟨t, i, t', hrun, hG, hi, refl t', ht, hs'⟩
    · obtain ⟨u, i, u', hbefore, hG, hi, hafter, hu, hu'⟩ := ih ht
      exact ⟨u, i, u', hbefore, hG, hi, hafter.trans (Relation.ReflTransGen.single hstep), hu, hu'⟩

/-- A list of calls executed in order is a run. -/
theorem of_foldlM {calls : List ι} (h : calls.foldlM exec s = .ok s')
    (hG : ∀ t i, i ∈ calls → G t i) : Reaches exec G s s' := by
  induction calls generalizing s with
  | nil =>
    simp only [List.foldlM_nil, pure, Except.pure, Except.ok.injEq] at h
    rw [h]
    exact refl s'
  | cons i rest ih =>
    cases hi : exec s i with
    | error e => simp [List.foldlM_cons, bind, Except.bind, hi] at h
    | ok t =>
      simp only [List.foldlM_cons, bind, Except.bind, hi] at h
      have hrest := ih h fun t j hj => hG t j (List.mem_cons_of_mem i hj)
      exact trans (tail (refl s) (hG s i List.mem_cons_self) hi) hrest

end Reaches

/-- Calls that meet `G` and are accepted one after the other are a run, whose end is computed. -/
theorem exists_reaches (exec : σ → ι → Except ε σ) (G : σ → ι → Prop) [∀ s i, Decidable (G s i)]
    (s : σ) (calls : List ι) (P : σ → Prop) [DecidablePred P]
    (h : (calls.foldlM (fun s i => if G s i then (exec s i).toOption else none) s).any
      (fun s' => decide (P s')) = true) : ∃ s', Reaches exec G s s' ∧ P s' := by
  induction calls generalizing s with
  | nil => exact ⟨s, Reaches.refl s, of_decide_eq_true h⟩
  | cons i rest ih =>
    rw [List.foldlM_cons] at h
    split at h
    · rename_i hG
      cases hi : exec s i with
      | error e =>
        rw [hi] at h
        cases h
      | ok t =>
        rw [hi] at h
        obtain ⟨s', hrest, hP⟩ := ih t h
        exact ⟨s', ((Reaches.refl s).tail hG hi).trans hrest, hP⟩
    · cases h

/-! ### Every step of a run -/

section Along
variable {exec : σ → ι → Except ε σ}

/-- `P` holds of every accepted call, with the state before it and the state after. -/
def Along (exec : σ → ι → Except ε σ) (P : σ → ι → σ → Prop) : σ → List ι → Prop
  | _, [] => True
  | s, i :: rest =>
    match exec s i with
    | .ok s' => P s i s' ∧ Along exec P s' rest
    | .error _ => Along exec P s rest

/-- Two properties of steps that agree wherever a run has not left an invariant, which a step with the
one property keeps, hold along the same runs. -/
theorem along_iff {P Q : σ → ι → σ → Prop} {I : σ → Prop}
    (step : ∀ t i t', I t → exec t i = .ok t' → (P t i t' ↔ Q t i t') ∧ (Q t i t' → I t'))
    {s : σ} (h₀ : I s) (calls : List ι) : Along exec P s calls ↔ Along exec Q s calls := by
  induction calls generalizing s with
  | nil => exact Iff.rfl
  | cons i rest ih =>
    unfold Along
    cases hi : exec s i with
    | error e => exact ih h₀
    | ok s' =>
      obtain ⟨hiff, hkeeps⟩ := step s i s' h₀ hi
      constructor
      · rintro ⟨hP, hrest⟩
        have hQ := hiff.mp hP
        exact ⟨hQ, (ih (hkeeps hQ)).mp hrest⟩
      · rintro ⟨hQ, hrest⟩
        exact ⟨hiff.mpr hQ, (ih (hkeeps hQ)).mpr hrest⟩

instance decidableAlong (P : σ → ι → σ → Prop) [∀ s i s', Decidable (P s i s')] :
    (s : σ) → (calls : List ι) → Decidable (Along exec P s calls)
  | _, [] => isTrue trivial
  | s, i :: rest => by
    unfold Along
    cases exec s i with
    | error e => exact decidableAlong P s rest
    | ok s' =>
      have := decidableAlong P s' rest
      exact inferInstanceAs (Decidable (_ ∧ _))

end Along

/-! ### Notes of a run -/

section Noting
universe x
variable {η : Type x}

/-- The system with a note beside its state. The note sees each accepted call with the state
before and after it, and influences nothing. -/
def noting (exec : σ → ι → Except ε σ) (note : σ → ι → σ → η → η) (w : σ × η) (i : ι) :
    Except ε (σ × η) :=
  match exec w.1 i with
  | .ok s => .ok (s, note w.1 i s w.2)
  | .error e => .error e

variable {exec : σ → ι → Except ε σ} {note : σ → ι → σ → η → η}

theorem noting_eq_ok {w w' : σ × η} {i : ι} (h : noting exec note w i = .ok w') :
    exec w.1 i = .ok w'.1 ∧ w'.2 = note w.1 i w'.1 w.2 := by
  unfold noting at h
  split at h
  · rename_i s hs
    cases h
    exact ⟨hs, rfl⟩
  · cases h

/-- What holds of the start and is carried with the note holds of every state reached with it. -/
theorem Reaches.noted {G : σ → ι → Prop} {I : σ → η → Prop} {w w' : σ × η}
    (h : Reaches (noting exec note) (fun w i => G w.1 i) w w') (h₀ : I w.1 w.2)
    (step : ∀ s n i s', I s n → G s i → exec s i = .ok s' → I s' (note s i s' n)) :
    I w'.1 w'.2 := by
  refine h.invariant (I := fun w : σ × η => I w.1 w.2) h₀ ?_
  intro t i t' ht hG hi
  obtain ⟨hexec, hnote⟩ := noting_eq_ok hi
  rw [hnote]
  exact step t.1 t.2 i t'.1 ht hG hexec

end Noting
end Individuality.Support
