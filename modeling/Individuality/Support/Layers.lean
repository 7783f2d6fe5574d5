import Individuality.Support.Outcome

/-! Writes that do not outlive a failure.

A function that writes before it can fail leaves, beside its result, the storage it
has written. A call runs such a function in a storage layer of its own: the layer is
kept when the function succeeds, and dropped with every write in it when it fails. -/
namespace Individuality.Support

universe u v w
variable {ε : Type u} {σ : Type v} {α : Type w}

/-- Keep the writes of `f` where it succeeds only. -/
def withStorageLayer (f : σ → Except ε α × σ) (s : σ) : Except ε α × σ :=
  match (f s).1 with
  | .ok a => (.ok a, (f s).2)
  | .error e => (.error e, s)

variable {f : σ → Except ε α × σ} {s s' : σ}

theorem withStorageLayer_ok {a : α} :
    withStorageLayer f s = (.ok a, s') ↔ f s = (.ok a, s') := by
  unfold withStorageLayer
  split
  · rename_i b hb
    constructor
    · intro h
      rw [← h, ← hb]
    · intro h
      rw [h] at hb ⊢
      cases hb
      rfl
  · rename_i e he
    refine ⟨nofun, fun h => ?_⟩
    rw [h] at he
    cases he

/-- A failure leaves the storage as it was. -/
theorem withStorageLayer_error {e : ε} (h : withStorageLayer f s = (.error e, s')) : s' = s := by
  unfold withStorageLayer at h
  split at h
  · cases h
  · cases h
    rfl

/-! ### Functions that write as they go -/

/-- Either outcome comes with the storage as it was written up to there. -/
def Writing (σ ε α : Type) : Type := σ → Except ε α × σ

namespace Writing
variable {σ ε α β : Type}

instance : Monad (Writing σ ε) where
  pure a s := (.ok a, s)
  bind x f s :=
    match x s with
    | (.ok a, t) => f a t
    | (.error e, t) => (.error e, t)

/-- The storage as it is. -/
def read : Writing σ ε σ := fun s => (.ok s, s)

def update (f : σ → σ) : Writing σ ε Unit := fun s => (.ok (), f s)

/-- A check, or any other step that writes nothing. -/
def lift (x : Except ε α) : Writing σ ε α := fun s => (x, s)

theorem bind_ok {x : Writing σ ε α} {f : α → Writing σ ε β} {s s' : σ} {b : β} :
    (x >>= f) s = (.ok b, s') ↔ ∃ a t, x s = (.ok a, t) ∧ f a t = (.ok b, s') := by
  show (match x s with
    | (.ok a, t) => f a t
    | (.error e, t) => (.error e, t)) = _ ↔ _
  split
  · rename_i a t hx
    constructor
    · exact fun h => ⟨a, t, hx, h⟩
    · rintro ⟨a', t', hx', h⟩
      cases hx.symm.trans hx'
      exact h
  · rename_i e t hx
    refine ⟨nofun, ?_⟩
    rintro ⟨a', t', hx', -⟩
    cases hx.symm.trans hx'

theorem pure_ok {a b : α} {s s' : σ} :
    (pure a : Writing σ ε α) s = (.ok b, s') ↔ a = b ∧ s = s' := by
  show (Except.ok a, s) = _ ↔ _
  rw [Prod.mk.injEq, Except.ok.injEq]

theorem read_ok {t s s' : σ} : (read : Writing σ ε σ) s = (.ok t, s') ↔ s = t ∧ s = s' := by
  rw [read, Prod.mk.injEq, Except.ok.injEq]

theorem update_ok {f : σ → σ} {u : Unit} {s s' : σ} :
    (update f : Writing σ ε Unit) s = (.ok u, s') ↔ f s = s' := by
  rw [update, Prod.mk.injEq]
  exact and_iff_right rfl

theorem lift_ok {x : Except ε α} {a : α} {s s' : σ} :
    (lift x : Writing σ ε α) s = (.ok a, s') ↔ x = .ok a ∧ s = s' := by
  rw [lift, Prod.mk.injEq]

end Writing
end Individuality.Support
