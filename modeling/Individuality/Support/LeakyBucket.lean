import Mathlib.Algebra.GroupWithZero.Nat
import Mathlib.Data.List.Basic
import Mathlib.Algebra.Order.Group.Nat
import Mathlib.Algebra.Order.BigOperators.Group.List

/-! Leaky buckets.

What is charged fills a bucket that drains at a rate. As long as no charge leaves more
than a peak in it, what is charged within a window of time is at most the peak and what
the bucket drains meanwhile (`Metered.window`): what has been charged since a moment is
still in the bucket, or has drained since. -/
namespace Individuality.Support

/-- What the charges come to, each with its time, from a moment on. -/
def chargedSince (start : Nat) (charges : List (Nat × Nat)) : Nat :=
  ((charges.filter fun c => start ≤ c.1).map Prod.snd).sum

/-- What they come to in the `n` units of time from a moment on. -/
def chargedWithin (start n : Nat) (charges : List (Nat × Nat)) : Nat :=
  ((charges.filter fun c => start ≤ c.1 ∧ c.1 < start + n).map Prod.snd).sum

section Charges
variable {start n now amount : Nat} {charges : List (Nat × Nat)}

theorem chargedSince_cons :
    chargedSince start ((now, amount) :: charges) =
      (if start ≤ now then amount else 0) + chargedSince start charges := by
  unfold chargedSince
  rw [List.filter_cons]
  split <;> simp_all

theorem chargedWithin_cons :
    chargedWithin start n ((now, amount) :: charges) =
      (if start ≤ now ∧ now < start + n then amount else 0) + chargedWithin start n charges := by
  unfold chargedWithin
  rw [List.filter_cons]
  split <;> simp_all

/-- Before the window has passed, all that has been charged since its start was charged within it. -/
theorem chargedWithin_eq (hpast : ∀ c ∈ charges, c.1 ≤ now) (hnow : now < start + n) :
    chargedWithin start n charges = chargedSince start charges := by
  unfold chargedWithin chargedSince
  congr 2
  refine List.filter_congr fun c hc => ?_
  have hlt : c.1 < start + n := (hpast c hc).trans_lt hnow
  simp [hlt]

theorem chargedWithin_le {charges' : List (Nat × Nat)} (h : charges.Sublist charges') :
    chargedWithin start n charges ≤ chargedWithin start n charges' :=
  ((h.filter _).map _).sum_le_sum fun _ _ => Nat.zero_le _

end Charges

/-- The charges so far, at a time and with a level in the bucket. -/
structure Metered (rate peak : Nat) (charges : List (Nat × Nat)) (now level : Nat) : Prop where
  past : ∀ c ∈ charges, c.1 ≤ now
  since : ∀ start ≤ now, chargedSince start charges ≤ level + rate * (now - start)
  window : ∀ start n, chargedWithin start n charges ≤ peak + n * rate

namespace Metered
variable {rate peak now now' level level' amount : Nat} {charges : List (Nat × Nat)}

theorem empty : Metered rate peak [] now level :=
  ⟨nofun, fun _ _ => Nat.zero_le _, fun _ _ => Nat.zero_le _⟩

/-- Time passes, and the bucket drains no faster than its rate. -/
theorem pass (h : Metered rate peak charges now level) (hnow : now ≤ now')
    (hlevel : level ≤ level' + rate * (now' - now)) : Metered rate peak charges now' level' := by
  refine ⟨fun c hc => (h.past c hc).trans hnow, fun start hstart => ?_, h.window⟩
  rcases Nat.lt_or_ge now start with hlater | hearlier
  · -- Nothing has been charged yet since a moment that is still to come.
    have hnone : chargedSince start charges = 0 := by
      unfold chargedSince
      rw [List.filter_eq_nil_iff.mpr fun c hc => by
        have hpast := h.past c hc
        simp only [decide_eq_true_eq]
        omega]
      rfl
    omega
  · have hsplit : rate * (now' - start) = rate * (now - start) + rate * (now' - now) := by
      rw [← Nat.mul_add]
      congr 1
      omega
    have hsince := h.since start hearlier
    omega

/-- A charge fills the bucket, to the peak at most. -/
theorem charge (h : Metered rate peak charges now level) (hfills : level + amount ≤ level') (hpeak : level' ≤ peak) :
    Metered rate peak ((now, amount) :: charges) now level' := by
  have hsince : ∀ start ≤ now, chargedSince start ((now, amount) :: charges) ≤ level' + rate * (now - start) := by
    intro start hstart
    rw [chargedSince_cons, if_pos hstart]
    have hbefore := h.since start hstart
    omega
  have hpast : ∀ c ∈ (now, amount) :: charges, c.1 ≤ now := by
    intro c hc
    rcases List.mem_cons.mp hc with rfl | hc
    · exact le_rfl
    · exact h.past c hc
  refine ⟨hpast, hsince, fun start n => ?_⟩
  by_cases hwithin : start ≤ now ∧ now < start + n
  · rw [chargedWithin_eq hpast hwithin.2]
    have hdrained : rate * (now - start) ≤ n * rate := by
      rw [Nat.mul_comm]
      exact Nat.mul_le_mul_right rate (by omega)
    have hcharged := hsince start hwithin.1
    omega
  · rw [chargedWithin_cons, if_neg hwithin, Nat.zero_add]
    exact h.window start n

end Metered

end Individuality.Support
