import Mathlib.Order.Lattice
import Mathlib.Data.List.Rotate
import Mathlib.Order.Basic

/-! Walking a sorted list cyclically.

A walk starts with the first element above a point, goes up to the end and then from the
start up to the point. It is a rotation of the list (`walk_eq_rotate`), so a walk that
goes on from one of its elements is the same walk, rotated further (`walk_of_getElem?`);
and what comes first of all after the point followed by the whole list is the walk, up to
the length of the list (`take_above_append`). -/
namespace Individuality.Support.Cyclic

universe u v
variable {α : Type u} {β : Type v} [LinearOrder β] (key : α → β)

/-- The elements above the point. -/
def above (t : β) (l : List α) : List α := l.filter fun a => t < key a

/-- The elements in cyclic order from above the point on; one at the point comes last. -/
def walk (t : β) (l : List α) : List α := above key t l ++ l.filter fun a => key a ≤ t

variable {key} {t : β} {l : List α} {n k : Nat} {a : α}

/-- A walk leaves nothing out. -/
theorem walk_perm (t : β) (l : List α) : (walk key t l).Perm l := by
  have hnot : (fun a => decide (key a ≤ t)) = fun a => !decide (t < key a) := by
    funext a
    rw [← decide_not]
    exact decide_eq_decide.mpr not_lt.symm
  rw [walk, above, hnot]
  exact List.filter_append_perm _ l

/-- The elements up to the point come first. -/
theorem filter_le_append_above (h : l.Pairwise fun a b => key a < key b) :
    (l.filter fun a => key a ≤ t) ++ above key t l = l := by
  induction l with
  | nil => rfl
  | cons a l ih =>
    obtain ⟨hhead, htail⟩ := List.pairwise_cons.mp h
    unfold above at ih ⊢
    by_cases hle : key a ≤ t
    · rw [List.filter_cons, if_pos (decide_eq_true hle), List.filter_cons, if_neg (by simpa using hle),
        List.cons_append, ih htail]
    · have hlt : t < key a := not_le.mp hle
      have hnone : (l.filter fun b => decide (key b ≤ t)) = [] :=
        List.filter_eq_nil_iff.mpr fun b hb => by simpa using hlt.trans (hhead b hb)
      have hall : (l.filter fun b => decide (t < key b)) = l :=
        List.filter_eq_self.mpr fun b hb => decide_eq_true (hlt.trans (hhead b hb))
      rw [List.filter_cons, if_neg (by simpa using hle), List.filter_cons, if_pos (decide_eq_true hlt), hnone, hall]
      rfl

theorem walk_eq_rotate (h : l.Pairwise fun a b => key a < key b) :
    walk key t l = l.rotate (l.countP fun a => key a ≤ t) := by
  have hsplit := filter_le_append_above (t := t) h
  have hrotate := List.rotate_append_length_eq (l.filter fun a => decide (key a ≤ t)) (above key t l)
  rw [hsplit, ← List.countP_eq_length_filter] at hrotate
  exact hrotate.symm

theorem length_walk : (walk key t l).length = l.length := (walk_perm t l).length_eq

theorem mem_walk : a ∈ walk key t l ↔ a ∈ l := (walk_perm t l).mem_iff

/-- In a sorted list, as many elements stand before one as are below it. -/
theorem countP_le_getElem (h : l.Pairwise fun a b => key a < key b) (hn : n < l.length) :
    l.countP (fun a => key a ≤ key l[n]) = n + 1 := by
  have hbefore : (l.take (n + 1)).countP (fun a => key a ≤ key l[n]) = n + 1 := by
    rw [List.countP_eq_length.mpr, List.length_take_of_le hn]
    intro a ha
    obtain ⟨i, hi, rfl⟩ := List.getElem_of_mem ha
    rw [List.length_take] at hi
    rw [List.getElem_take, decide_eq_true_iff]
    rcases Nat.lt_or_ge i n with hlt | hge
    · exact (List.pairwise_iff_getElem.mp h i n (by omega) hn hlt).le
    · have heq : i = n := by omega
      subst heq
      exact le_rfl
  have hafter : (l.drop (n + 1)).countP (fun a => key a ≤ key l[n]) = 0 := by
    rw [List.countP_eq_zero]
    intro a ha
    obtain ⟨i, hi, rfl⟩ := List.getElem_of_mem ha
    rw [List.length_drop] at hi
    rw [List.getElem_drop, decide_eq_true_iff, not_le]
    exact List.pairwise_iff_getElem.mp h n (n + 1 + i) hn (by omega) (by omega)
  calc l.countP (fun a => key a ≤ key l[n])
      = (l.take (n + 1) ++ l.drop (n + 1)).countP fun a => key a ≤ key l[n] := by rw [List.take_append_drop]
    _ = n + 1 := by rw [List.countP_append, hbefore, hafter]

/-- A walk that goes on from one of its elements is the rest of the walk, and then its beginning. -/
theorem walk_of_getElem? (h : l.Pairwise fun a b => key a < key b) (ha : (walk key t l)[n]? = some a) :
    walk key (key a) l = (walk key t l).rotate (n + 1) := by
  obtain ⟨hn, rfl⟩ := List.getElem?_eq_some_iff.mp ha
  have hlength : n < l.length := by rwa [show (walk key t l).length = l.length from length_walk] at hn
  have hpos : 0 < l.length := (Nat.zero_le n).trans_lt hlength
  simp only [walk_eq_rotate h] at hn ⊢
  rw [List.getElem_rotate, countP_le_getElem h, List.rotate_rotate, ← List.rotate_mod l (_ + (n + 1))]
  rw [← List.rotate_mod l (_ + 1)]
  congr 1
  rw [Nat.mod_add_mod, Nat.add_comm n, Nat.add_assoc]

/-- What is above the point and then everything begins like the walk. -/
theorem take_above_append (h : l.Pairwise fun a b => key a < key b) (hk : k ≤ l.length) :
    (above key t l ++ l).take k = (walk key t l).take k := by
  have hsplit := filter_le_append_above (t := t) h
  have hmore : above key t l ++ l = walk key t l ++ above key t l := by
    conv_lhs => rw [← hsplit]
    rw [walk, List.append_assoc, hsplit]
  have hlength : (walk key t l).length = l.length := length_walk
  rw [hmore, List.take_append_of_le_length (hlength.symm ▸ hk)]

/-- A walk goes by the keys only. -/
theorem walk_map {γ : Type u} (f : γ → α) (t : β) (l : List γ) :
    walk key t (l.map f) = (walk (fun c => key (f c)) t l).map f := by
  rw [walk, walk, above, above, List.filter_map, List.filter_map, List.map_append]
  rfl

end Individuality.Support.Cyclic
