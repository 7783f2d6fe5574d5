import Mathlib.Data.List.Basic

/-! Fallible operations.

An operation that may fail returns `Except ε α`; a failed one changes nothing.
`ensure` and `okOr` are the two ways an operation checks, and the lemmas here
turn "it succeeded" into the checks that passed and what followed, so that no
proof unfolds a `do` block by hand. `foldlM_ok_induction` is the loop rule. -/
namespace Individuality.Support

universe u v w
variable {ε : Type u} {α : Type v} {β : Type v} {σ : Type v}

/-- Fail with `e` unless `p` holds. -/
def ensure (p : Prop) [Decidable p] (e : ε) : Except ε PUnit.{v + 1} :=
  if p then .ok ⟨⟩ else .error e

/-- The value of an option, or the failure `e`. -/
def okOr (o : Option α) (e : ε) : Except ε α :=
  match o with
  | some a => .ok a
  | none => .error e

@[simp] theorem bind_eq_ok {x : Except ε α} {f : α → Except ε β} {b : β} :
    (x >>= f) = .ok b ↔ ∃ a, x = .ok a ∧ f a = .ok b := by
  cases x with
  | error e => simp [bind, Except.bind]
  | ok a => simp [bind, Except.bind]

@[simp] theorem pure_eq_ok {a b : α} : (pure a : Except ε α) = .ok b ↔ a = b := by
  simp [pure, Except.pure]

@[simp] theorem ensure_eq_ok {p : Prop} [Decidable p] {e : ε} {a : PUnit.{v + 1}} :
    ensure p e = .ok a ↔ p := by
  unfold ensure
  split <;> simp_all

@[simp] theorem okOr_eq_ok {o : Option α} {e : ε} {a : α} : okOr o e = .ok a ↔ o = some a := by
  cases o <;> simp [okOr]

@[simp] theorem mapError_eq_ok {ε' : Type w} {f : ε → ε'} {x : Except ε α} {a : α} :
    x.mapError f = .ok a ↔ x = .ok a := by
  cases x <;> simp [Except.mapError]

/-- The outcome, when it is the only value that passes a test. -/
theorem eq_ok_of_any {x : Except ε α} {p : α → Bool} {a : α} (hp : ∀ b, p b = true → b = a)
    (h : x.toOption.any p = true) : x = .ok a := by
  cases x with
  | error e => cases h
  | ok b => exact congrArg Except.ok (hp b h)

theorem toOption_eq_some {x : Except ε α} {a : α} : x.toOption = some a ↔ x = .ok a := by
  cases x with
  | error e => exact ⟨nofun, nofun⟩
  | ok b => exact ⟨fun h => congrArg Except.ok (Option.some.inj h), fun h => by cases h; rfl⟩

theorem ok_bind (a : α) (f : α → Except ε β) : ((.ok a : Except ε α) >>= f) = f a := rfl

theorem ensure_pos {p : Prop} [Decidable p] (h : p) (e : ε) :
    (ensure p e : Except ε PUnit.{v + 1}) = .ok ⟨⟩ := if_pos h

@[simp] theorem okOr_some (a : α) (e : ε) : okOr (some a) e = .ok a := rfl

/-- The loop rule: what holds before the loop and is carried by each turn, given the
elements already consumed, holds after it. -/
theorem foldlM_ok_induction {f : σ → α → Except ε σ} (P : List α → σ → Prop) {l : List α}
    {s s' : σ} (h : l.foldlM f s = .ok s') (h₀ : P [] s)
    (step : ∀ done a t t', done ++ [a] <+: l → P done t → f t a = .ok t' → P (done ++ [a]) t') :
    P l s' := by
  have general : ∀ (rest done : List α) (t : σ), done ++ rest = l → P done t →
      rest.foldlM f t = .ok s' → P l s' := by
    intro rest
    induction rest with
    | nil =>
      intro done t hl hP ht
      simp only [List.foldlM_nil, pure_eq_ok] at ht
      rw [List.append_nil] at hl
      rw [← ht, ← hl]
      exact hP
    | cons a rest ih =>
      intro done t hl hP ht
      simp only [List.foldlM_cons, bind_eq_ok] at ht
      obtain ⟨t₁, hstep, hrest⟩ := ht
      have hcat : done ++ [a] ++ rest = l := by simpa using hl
      have hP₁ := step done a t t₁ ⟨rest, hcat⟩ hP hstep
      exact ih (done ++ [a]) t₁ hcat hP₁ hrest
  exact general l [] s rfl h₀ h

/-- The loop succeeds when each turn does, by what the earlier turns carried to it. -/
theorem exists_foldlM_ok {f : σ → α → Except ε σ} (P : List α → σ → Prop) {l : List α} {s : σ}
    (h₀ : P [] s)
    (step : ∀ done a t, done ++ [a] <+: l → P done t → ∃ t', f t a = .ok t' ∧ P (done ++ [a]) t') :
    ∃ s', l.foldlM f s = .ok s' ∧ P l s' := by
  have general : ∀ (rest done : List α) (t : σ), done ++ rest = l → P done t →
      ∃ s', rest.foldlM f t = .ok s' ∧ P l s' := by
    intro rest
    induction rest with
    | nil =>
      intro done t hl hP
      rw [List.append_nil] at hl
      exact ⟨t, rfl, hl ▸ hP⟩
    | cons a rest ih =>
      intro done t hl hP
      have hcat : done ++ [a] ++ rest = l := by simpa using hl
      obtain ⟨t', hstep, hP'⟩ := step done a t ⟨rest, hcat⟩ hP
      obtain ⟨s', hrest, hs'⟩ := ih (done ++ [a]) t' hcat hP'
      refine ⟨s', ?_, hs'⟩
      rw [List.foldlM_cons, hstep]
      exact hrest
  exact general l [] s rfl h₀

end Individuality.Support
