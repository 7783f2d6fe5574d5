import Mathlib.Algebra.Order.Ring.Nat
import Mathlib.Data.Nat.Basic

/-! Checked arithmetic of fixed width.

A sum or a product that does not fit `w` bits is none. A shift by less than the width always has
a value: to the left it drops the bits that do not fit, to the right those below the
point. Shifting back gives the number again just if no bit was dropped. -/
namespace Individuality.Support

def checkedAdd (w a b : Nat) : Option Nat := if a + b < 2 ^ w then some (a + b) else none

def checkedMul (w a b : Nat) : Option Nat := if a * b < 2 ^ w then some (a * b) else none

def checkedShl (w a shift : Nat) : Option Nat := if shift < w then some (a <<< shift % 2 ^ w) else none

def checkedShr (w a shift : Nat) : Option Nat := if shift < w then some (a >>> shift) else none

variable {w a b c shift : Nat}

@[simp] theorem checkedAdd_eq_some : checkedAdd w a b = some c ↔ a + b < 2 ^ w ∧ a + b = c := by
  simp [checkedAdd]

@[simp] theorem checkedMul_eq_some : checkedMul w a b = some c ↔ a * b < 2 ^ w ∧ a * b = c := by
  simp [checkedMul]

@[simp] theorem checkedShl_eq_some : checkedShl w a shift = some c ↔ shift < w ∧ a * 2 ^ shift % 2 ^ w = c := by
  simp [checkedShl, Nat.shiftLeft_eq]

@[simp] theorem checkedShr_eq_some : checkedShr w a shift = some c ↔ shift < w ∧ a / 2 ^ shift = c := by
  simp [checkedShr, Nat.shiftRight_eq_div_pow]

/-- A shift to the left that can be undone lost no bit. -/
theorem eq_mul_of_checkedShl (h : checkedShl w a shift = some c) (hback : checkedShr w c shift = some a) :
    c = a * 2 ^ shift := by
  obtain ⟨-, rfl⟩ := checkedShl_eq_some.mp h
  obtain ⟨-, hback⟩ := checkedShr_eq_some.mp hback
  refine le_antisymm (Nat.mod_le _ _) ?_
  calc a * 2 ^ shift = a * 2 ^ shift % 2 ^ w / 2 ^ shift * 2 ^ shift := by rw [hback]
    _ ≤ a * 2 ^ shift % 2 ^ w := Nat.div_mul_le_self _ _

/-- A shift to the right that can be undone lost no bit. -/
theorem eq_mul_of_checkedShr (h : checkedShr w a shift = some c) (hback : checkedShl w c shift = some a) :
    a = c * 2 ^ shift := by
  obtain ⟨-, rfl⟩ := checkedShr_eq_some.mp h
  obtain ⟨-, hback⟩ := checkedShl_eq_some.mp hback
  refine le_antisymm ?_ (Nat.div_mul_le_self _ _)
  exact hback.symm.le.trans (Nat.mod_le _ _)

/-- One, shifted within the width. -/
theorem checkedShl_one (h : shift < w) : checkedShl w 1 shift = some (2 ^ shift) := by
  rw [checkedShl_eq_some, one_mul]
  exact ⟨h, Nat.mod_eq_of_lt (Nat.pow_lt_pow_right Nat.one_lt_two h)⟩

end Individuality.Support
