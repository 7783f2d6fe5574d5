import Mathlib.Algebra.BigOperators.Group.List.Basic
import Mathlib.Algebra.Order.BigOperators.Group.List
import Mathlib.Data.Nat.Basic
import Mathlib.Tactic.Ring

/-! An amount shared out in proportion to points.

A point is worth the amount over the total, rounded down, and what the division leaves is
shared out in proportion, rounded down again. Both roundings together are one: a share
is the amount times the points, over the total (`share_eq`). So the shares of all points do
not exceed the amount, and fall short of it by less than one for each share. -/
namespace Individuality.Support

/-- What some of a total of points are worth of an amount. -/
def share (amount total points : Nat) : Nat :=
  amount / total * points + amount % total * points / total

variable {amount total points : Nat}

theorem share_eq (amount total points : Nat) : share amount total points = amount * points / total := by
  rcases Nat.eq_zero_or_pos total with rfl | hpos
  · simp [share]
  · have hsplit : amount * points = amount % total * points + total * (amount / total * points) := by
      calc amount * points
          = (amount % total + total * (amount / total)) * points := by rw [Nat.mod_add_div]
        _ = amount % total * points + total * (amount / total * points) := by ring
    rw [share, hsplit, Nat.add_mul_div_left _ _ hpos, Nat.add_comm]

@[simp] theorem share_zero (amount total : Nat) : share amount total 0 = 0 := by
  rw [share_eq, Nat.mul_zero, Nat.zero_div]

/-- Shares rounded down are no more than the share of all their points. -/
theorem sum_share_le (amount total : Nat) (l : List Nat) :
    (l.map (share amount total)).sum ≤ share amount total l.sum := by
  induction l with
  | nil => simp
  | cons points rest ih =>
    rw [List.map_cons, List.sum_cons, List.sum_cons]
    refine (Nat.add_le_add_left ih _).trans ?_
    rw [share_eq, share_eq, share_eq, Nat.mul_add]
    exact Nat.div_add_div_le_add_div

/-- All shares together are no more than the amount. -/
theorem sum_share_le_amount (amount : Nat) {l : List Nat} (hsum : l.sum = total) :
    (l.map (share amount total)).sum ≤ amount := by
  refine (sum_share_le amount total l).trans ?_
  rw [hsum, share_eq]
  exact Nat.div_le_of_le_mul (Nat.mul_comm amount total).le

/-- Each share is rounded down by less than one. -/
theorem amount_mul_sum_le (amount : Nat) (hpos : 0 < total) (l : List Nat) :
    amount * l.sum ≤ ((l.map (share amount total)).sum + l.length) * total := by
  induction l with
  | nil => simp
  | cons points rest ih =>
    have hone : amount * points ≤ (share amount total points + 1) * total := by
      rw [share_eq, Nat.mul_comm _ total]
      exact (Nat.lt_mul_div_succ _ hpos).le
    calc amount * (points :: rest).sum
        = amount * points + amount * rest.sum := by rw [List.sum_cons, Nat.mul_add]
      _ ≤ (share amount total points + 1) * total +
            ((rest.map (share amount total)).sum + rest.length) * total := Nat.add_le_add hone ih
      _ = (((points :: rest).map (share amount total)).sum + (points :: rest).length) * total := by
          rw [List.map_cons, List.sum_cons, List.length_cons]
          ring

/-- All shares together fall short of the amount by at most one each. -/
theorem amount_le_sum_share (amount : Nat) {l : List Nat} (hpos : 0 < total) (hsum : l.sum = total) :
    amount ≤ (l.map (share amount total)).sum + l.length := by
  have hall := amount_mul_sum_le amount hpos l
  rw [hsum] at hall
  exact Nat.le_of_mul_le_mul_right hall hpos

/-! ### Sums over some of the keys -/

section Keys
variable {α : Type*} [DecidableEq α] {keys done : List α}

omit [DecidableEq α] in
theorem sum_map_filter (f : α → Nat) (p : α → Bool) (keys : List α) :
    (keys.map fun a => if p a then f a else 0).sum = ((keys.filter p).map f).sum := by
  induction keys with
  | nil => rfl
  | cons a rest ih =>
    rw [List.map_cons, List.sum_cons, ih, List.filter_cons]
    split
    · rw [List.map_cons, List.sum_cons]
    · exact Nat.zero_add _

/-- What some of the keys are given in place of nothing adds up with the rest. -/
theorem sum_map_replace {f g : α → Nat} (hkeys : keys.Nodup) (hdone : done.Nodup)
    (hsub : ∀ a ∈ done, a ∈ keys) (hg : ∀ a ∈ done, g a = 0) :
    (keys.map fun a => if a ∈ done then f a else g a).sum = (keys.map g).sum + (done.map f).sum := by
  have hperm : (keys.filter fun a => decide (a ∈ done)).Perm done := by
    refine (List.perm_ext_iff_of_nodup (hkeys.filter _) hdone).mpr fun a => ?_
    rw [List.mem_filter, decide_eq_true_iff]
    exact ⟨fun h => h.2, fun h => ⟨hsub a h, h⟩⟩
  have hsplit : (keys.map fun a => if a ∈ done then f a else g a) =
      keys.map fun a => g a + if decide (a ∈ done) = true then f a else 0 := by
    refine List.map_congr_left fun a _ => ?_
    by_cases hmem : a ∈ done
    · simp only [hmem, if_true, hg a hmem, decide_true, Nat.zero_add]
    · simp [hmem]
  rw [hsplit, List.sum_map_add, sum_map_filter, (hperm.map f).sum_eq]

end Keys

end Individuality.Support
