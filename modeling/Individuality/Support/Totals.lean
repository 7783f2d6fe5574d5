import Individuality.Support.StorageMap
import Mathlib.Algebra.BigOperators.Group.List.Basic
import Mathlib.Algebra.Order.Group.Abs
import Mathlib.Algebra.Order.Group.Unbundled.Int

/-! Totals that can go down as well as up.

`totalOf` adds up a measure of the entries of a storage map, in a group: a write
moves the total by what it adds less the share of what it replaces. -/
namespace Individuality.Support.StorageMap

universe u v w
variable {κ : Type u} {ν : Type v} {M : Type w} [DecidableEq κ] [AddCommGroup M]

/-- The total of `f` over the entries. -/
def totalOf (m : StorageMap κ ν) (f : κ → ν → M) : M := (m.entries.map fun e => f e.1 e.2).sum

/-- What the entry at `k` adds to a total. -/
def shareOf (m : StorageMap κ ν) (f : κ → ν → M) (k : κ) : M := ((m.get k).map (f k)).getD 0

omit [DecidableEq κ] in
@[simp] theorem totalOf_empty (f : κ → ν → M) : (∅ : StorageMap κ ν).totalOf f = 0 := rfl

theorem shareOf_none {m : StorageMap κ ν} {k : κ} (h : m.get k = none) (f : κ → ν → M) :
    m.shareOf f k = 0 := by
  rw [shareOf, h]
  rfl

theorem shareOf_some {m : StorageMap κ ν} {k : κ} {v : ν} (h : m.get k = some v) (f : κ → ν → M) :
    m.shareOf f k = f k v := by
  rw [shareOf, h]
  rfl

theorem totalOf_remove (m : StorageMap κ ν) (f : κ → ν → M) (k : κ) :
    (m.remove k).totalOf f = m.totalOf f - m.shareOf f k := by
  cases h : m.get k with
  | none => rw [shareOf_none h, remove_of_get_none h, sub_zero]
  | some v =>
    have hsum := ((perm_cons_erase h).map fun e => f e.1 e.2).sum_eq
    rw [List.map_cons, List.sum_cons] at hsum
    rw [shareOf_some h, totalOf, totalOf, hsum, add_sub_cancel_left]

theorem totalOf_insert (m : StorageMap κ ν) (f : κ → ν → M) (k : κ) (v : ν) :
    (m.insert k v).totalOf f = m.totalOf f - m.shareOf f k + f k v := by
  have hentries : (m.insert k v).entries = ⟨k, v⟩ :: (m.remove k).entries := rfl
  rw [totalOf, hentries, List.map_cons, List.sum_cons, add_comm, ← totalOf_remove]
  rfl

theorem shareOf_insert (m : StorageMap κ ν) (f : κ → ν → M) (k k' : κ) (v : ν) :
    (m.insert k v).shareOf f k' = if k' = k then f k v else m.shareOf f k' := by
  rw [shareOf, get_insert]
  split
  · rename_i heq
    rw [heq]
    rfl
  · rfl

theorem shareOf_remove (m : StorageMap κ ν) (f : κ → ν → M) (k k' : κ) :
    (m.remove k).shareOf f k' = if k' = k then 0 else m.shareOf f k' := by
  rw [shareOf, get_remove]
  split
  · rfl
  · rfl

omit [DecidableEq κ] in
/-- The same amount for every entry that passes a test. -/
theorem totalOf_ite (m : StorageMap κ ν) (p : κ → ν → Bool) (x : M) :
    m.totalOf (fun k v => if p k v = true then x else 0) = m.countOf p • x := by
  have general : ∀ l : List (Sigma fun _ : κ => ν),
      (l.map fun e => if p e.1 e.2 = true then x else 0).sum = (l.countP fun e => p e.1 e.2) • x := by
    intro l
    induction l with
    | nil => exact (zero_nsmul x).symm
    | cons e rest ih =>
      rw [List.map_cons, List.sum_cons, List.countP_cons, ih]
      split
      · rw [add_comm, succ_nsmul]
      · rw [zero_add, add_zero]
  exact general m.entries

omit [DecidableEq κ] in
/-- A measure of at most one in size adds up to at most the number of entries. -/
theorem abs_totalOf_le_size (m : StorageMap κ ν) {f : κ → ν → ℤ} (h : ∀ k v, |f k v| ≤ 1) :
    |m.totalOf f| ≤ m.size := by
  have general : ∀ l : List (Sigma fun _ : κ => ν),
      |(l.map fun e => f e.1 e.2).sum| ≤ (l.countP fun _ => true : Nat) := by
    intro l
    induction l with
    | nil => simp
    | cons e rest ih =>
      rw [List.map_cons, List.sum_cons, List.countP_cons, if_pos rfl]
      have habs := abs_add_le (f e.1 e.2) (rest.map fun e => f e.1 e.2).sum
      have hone := h e.1 e.2
      omega
  exact general m.entries

end Individuality.Support.StorageMap
