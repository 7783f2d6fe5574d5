import Mathlib.Algebra.Group.Int.Defs
import Mathlib.Logic.Function.Basic

/-! Counted references.

A ledger counts references on accounts, which a component takes and gives back.
`Counts refs held` says that the component's own count is one on the accounts that
it holds and zero on the others; taking a reference with an account that becomes
held, and giving one back with one that is let go, keeps it. -/
namespace Individuality.Support

universe u
variable {α : Type u} [DecidableEq α]

namespace References

def inc (refs : α → Int) (a : α) : α → Int := Function.update refs a (refs a + 1)

def dec (refs : α → Int) (a : α) : α → Int := Function.update refs a (refs a - 1)

theorem inc_apply (refs : α → Int) (a b : α) : inc refs a b = if b = a then refs a + 1 else refs b :=
  Function.update_apply _ _ _ _

theorem dec_apply (refs : α → Int) (a b : α) : dec refs a b = if b = a then refs a - 1 else refs b :=
  Function.update_apply _ _ _ _

end References

/-- One reference on each account that is held, and none on the others. -/
def Counts (refs : α → Int) (held : α → Prop) : Prop := ∀ a, (held a → refs a = 1) ∧ (¬held a → refs a = 0)

namespace Counts
variable {refs : α → Int} {held held' : α → Prop} {a : α}

omit [DecidableEq α] in
theorem congr (h : Counts refs held) (hheld : ∀ b, held' b ↔ held b) : Counts refs held' :=
  fun b => ⟨fun hb => (h b).1 ((hheld b).mp hb), fun hb => (h b).2 fun hb' => hb ((hheld b).mpr hb')⟩

/-- An account becomes held. -/
theorem inc (h : Counts refs held) (hfree : ¬held a) (hnow : held' a) (hother : ∀ b, b ≠ a → (held' b ↔ held b)) :
    Counts (References.inc refs a) held' := by
  intro b
  rw [References.inc_apply]
  by_cases hb : b = a
  · rw [if_pos hb, (h a).2 hfree]
    exact ⟨fun _ => rfl, fun hnot => absurd (hb ▸ hnow) hnot⟩
  · rw [if_neg hb]
    exact ⟨fun hb' => (h b).1 ((hother b hb).mp hb'), fun hb' => (h b).2 fun hheld => hb' ((hother b hb).mpr hheld)⟩

/-- An account is let go. -/
theorem dec (h : Counts refs held) (hheld : held a) (hnow : ¬held' a) (hother : ∀ b, b ≠ a → (held' b ↔ held b)) :
    Counts (References.dec refs a) held' := by
  intro b
  rw [References.dec_apply]
  by_cases hb : b = a
  · rw [if_pos hb, (h a).1 hheld]
    exact ⟨fun hb' => absurd (hb ▸ hb') hnow, fun _ => rfl⟩
  · rw [if_neg hb]
    exact ⟨fun hb' => (h b).1 ((hother b hb).mp hb'), fun hb' => (h b).2 fun hheld => hb' ((hother b hb).mpr hheld)⟩

end Counts
end Individuality.Support
