import Mathlib.Data.BitVec

/-! Arcs of a circle of machine words.

A queue of pages whose numbers wrap around lives on the arc from its head to its
tail, walking upwards modulo `2 ^ w`. Distances from the head make the arc an
initial segment: a word lies on it when its distance is at most the tail's. -/
namespace Individuality.Support

variable {w : Nat}

/-- `q` lies on the arc that goes up from `head` to `tail`. -/
def InArc (head tail q : BitVec w) : Prop := q - head ≤ tail - head

instance (head tail q : BitVec w) : Decidable (InArc head tail q) :=
  inferInstanceAs (Decidable (_ ≤ _))

theorem inArc_head (head tail : BitVec w) : InArc head tail head := by
  simp only [InArc, BitVec.le_def, BitVec.sub_self, BitVec.toNat_ofNat, Nat.zero_mod]
  exact Nat.zero_le _

theorem inArc_tail (head tail : BitVec w) : InArc head tail tail := BitVec.le_refl _

theorem inArc_self_iff {head q : BitVec w} : InArc head head q ↔ q = head := by
  simp only [InArc, BitVec.le_def, BitVec.sub_self, BitVec.toNat_ofNat, Nat.zero_mod,
    Nat.le_zero]
  constructor
  · intro h
    have : q - head = 0#w := BitVec.eq_of_toNat_eq (by simpa using h)
    exact sub_eq_zero.mp this
  · rintro rfl
    simp

/-- The distance one step further on, unless the step comes back to the head. -/
theorem toNat_add_one_sub {head q : BitVec w} (h : q + 1#w ≠ head) :
    (q + 1#w - head).toNat = (q - head).toNat + 1 := by
  have hd : q + 1#w - head = (q - head) + 1#w := add_sub_right_comm q 1#w head
  have hne : (q - head) + 1#w ≠ 0#w := by
    rw [← hd]
    exact fun h0 => h (sub_eq_zero.mp h0)
  rw [hd]
  generalize q - head = d at hne
  have hlt := d.isLt
  rcases Nat.eq_zero_or_pos w with rfl | hw
  · exact absurd (Subsingleton.elim _ _) hne
  have h1 : (1 : Nat) % 2 ^ w = 1 := Nat.mod_eq_of_lt (Nat.one_lt_two_pow (by omega))
  have hnat : (d + 1#w).toNat = (d.toNat + 1) % 2 ^ w := by
    rw [BitVec.toNat_add, BitVec.toNat_ofNat, h1]
  rcases Nat.lt_or_ge (d.toNat + 1) (2 ^ w) with hd | hd
  · rw [hnat, Nat.mod_eq_of_lt hd]
  · exfalso
    apply hne
    apply BitVec.eq_of_toNat_eq
    rw [hnat, show d.toNat + 1 = 2 ^ w by omega]
    simp

/-- Moving the tail up keeps what was on the arc, unless the arc would close. -/
theorem InArc.extend {head tail q : BitVec w} (h : InArc head tail q) (ht : tail + 1#w ≠ head) :
    InArc head (tail + 1#w) q := by
  simp only [InArc, BitVec.le_def] at h ⊢
  rw [toNat_add_one_sub ht]
  exact Nat.le_succ_of_le h

/-- The word past the tail is not on the arc. -/
theorem not_inArc_succ {head tail : BitVec w} (ht : tail + 1#w ≠ head) :
    ¬ InArc head tail (tail + 1#w) := by
  simp only [InArc, BitVec.le_def]
  rw [toNat_add_one_sub ht]
  omega

/-- A word other than the head is one step closer to the next head. -/
theorem toNat_sub_head {head q : BitVec w} (hq : q ≠ head) :
    (q - head).toNat = (q - (head + 1#w)).toNat + 1 := by
  have hback : q - (head + 1#w) + 1#w = q - head := by
    rw [sub_add_eq_sub_sub, sub_add_cancel]
  have hstep : q - (head + 1#w) + 1#w ≠ 0#w := by
    rw [hback]
    exact fun h0 => hq (sub_eq_zero.mp h0)
  have := toNat_add_one_sub hstep
  rw [BitVec.sub_zero, BitVec.sub_zero] at this
  rw [← this, hback]

/-- Moving the head up takes only the head off the arc. -/
theorem InArc.advance {head tail q : BitVec w} (h : InArc head tail q) (hne : head ≠ tail)
    (hq : q ≠ head) : InArc (head + 1#w) tail q := by
  simp only [InArc, BitVec.le_def] at h ⊢
  have h₁ := toNat_sub_head hq
  have h₂ := toNat_sub_head (Ne.symm hne)
  omega

/-! ### Words as numbers modulo `2 ^ w` -/

/-- A word is the head's number and its distance from the head, taken together. -/
theorem ofNat_add_sub {head q : BitVec w} {n : Nat} (hn : head = BitVec.ofNat w n) :
    BitVec.ofNat w (n + (q - head).toNat) = q := by
  rw [BitVec.ofNat_add, ← hn, BitVec.ofNat_toNat, BitVec.setWidth_eq, add_comm, sub_add_cancel]

/-- Numbers less than a turn apart are different words. -/
theorem ofNat_ne {n m : Nat} (h : n < m) (hm : m < n + 2 ^ w) :
    BitVec.ofNat w m ≠ BitVec.ofNat w n := by
  intro heq
  have hmod := congrArg BitVec.toNat heq
  rw [BitVec.toNat_ofNat, BitVec.toNat_ofNat] at hmod
  have hdvd : 2 ^ w ∣ m - n := (Nat.modEq_iff_dvd' h.le).mp hmod.symm
  exact absurd (Nat.le_of_dvd (by omega) hdvd) (by omega)

end Individuality.Support
