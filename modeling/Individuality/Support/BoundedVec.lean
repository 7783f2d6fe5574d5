import Mathlib.Algebra.GroupWithZero.Nat
import Mathlib.Data.List.Basic
import Mathlib.Data.List.InsertIdx
import Mathlib.Data.List.Perm.Basic
import Mathlib.Data.List.TakeWhile
import Mathlib.Algebra.BigOperators.Group.List.Basic

/-! Bounded vectors and saturating counters.

A `BoundedVec α n` is a list of at most `n` elements, so no operation on one has
to re-prove that it still fits: each that could outgrow the bound returns an
option. Counters saturate at the top of their width; the lengths of bounded
vectors stay far below it, so only sums of counters need the saturation. -/
namespace Individuality.Support

universe u
variable {α : Type u} {n : Nat}

/-- At most `n` elements. -/
@[ext] structure BoundedVec (α : Type u) (n : Nat) where
  toList : List α
  length_le : toList.length ≤ n

namespace BoundedVec

instance [DecidableEq α] : DecidableEq (BoundedVec α n) := fun v w =>
  decidable_of_iff (v.toList = w.toList) BoundedVec.ext_iff.symm

def nil : BoundedVec α n := ⟨[], Nat.zero_le n⟩

instance : Inhabited (BoundedVec α n) := ⟨nil⟩

@[simp] theorem toList_nil : (nil : BoundedVec α n).toList = [] := rfl

@[simp] theorem toList_default : (default : BoundedVec α n).toList = [] := rfl

def length (v : BoundedVec α n) : Nat := v.toList.length

/-- The list as a bounded vector, where it fits. -/
def tryFrom (l : List α) : Option (BoundedVec α n) :=
  if h : l.length ≤ n then some ⟨l, h⟩ else none

def tryPush (v : BoundedVec α n) (a : α) : Option (BoundedVec α n) := tryFrom (v.toList ++ [a])

def tryInsert (v : BoundedVec α n) (i : Nat) (a : α) : Option (BoundedVec α n) :=
  tryFrom (v.toList.insertIdx i a)

def tryExtend (v w : BoundedVec α n) : Option (BoundedVec α n) := tryFrom (v.toList ++ w.toList)

/-- The vector without the element at `i`. -/
def remove (v : BoundedVec α n) (i : Nat) : BoundedVec α n :=
  ⟨v.toList.eraseIdx i, (List.length_eraseIdx_le v.toList i).trans v.length_le⟩

/-- The vector with another element at `i`. -/
def set (v : BoundedVec α n) (i : Nat) (a : α) : BoundedVec α n :=
  ⟨v.toList.set i a, (List.length_set ..).le.trans v.length_le⟩

/-- The vector's elements that pass `p`, in order. -/
def retain (v : BoundedVec α n) (p : α → Bool) : BoundedVec α n :=
  ⟨v.toList.filter p, (List.length_filter_le p v.toList).trans v.length_le⟩

@[simp] theorem toList_remove (v : BoundedVec α n) (i : Nat) :
    (v.remove i).toList = v.toList.eraseIdx i := rfl

@[simp] theorem tryFrom_eq_some {l : List α} {v : BoundedVec α n} :
    tryFrom l = some v ↔ v.toList = l := by
  unfold tryFrom
  constructor
  · intro h
    split at h
    · cases h
      rfl
    · cases h
  · intro h
    have hl : l.length ≤ n := h ▸ v.length_le
    rw [dif_pos hl]
    exact congrArg some (BoundedVec.ext h.symm)

@[simp] theorem tryFrom_eq_none {l : List α} : (tryFrom l : Option (BoundedVec α n)) = none ↔ n < l.length := by
  unfold tryFrom
  split <;> simp_all

@[simp] theorem tryPush_eq_some {v w : BoundedVec α n} {a : α} :
    v.tryPush a = some w ↔ w.toList = v.toList ++ [a] := tryFrom_eq_some

@[simp] theorem tryPush_eq_none {v : BoundedVec α n} {a : α} : v.tryPush a = none ↔ n ≤ v.length := by
  simp only [tryPush, tryFrom_eq_none, List.length_append, List.length_singleton, length]
  omega

@[simp] theorem tryInsert_eq_some {v w : BoundedVec α n} {i : Nat} {a : α} :
    v.tryInsert i a = some w ↔ w.toList = v.toList.insertIdx i a := tryFrom_eq_some

@[simp] theorem tryExtend_eq_some {u v w : BoundedVec α n} :
    u.tryExtend v = some w ↔ w.toList = u.toList ++ v.toList := tryFrom_eq_some

@[simp] theorem toList_set (v : BoundedVec α n) (i : Nat) (a : α) :
    (v.set i a).toList = v.toList.set i a := rfl

/-- Removing an element takes what it contributes away from a total. -/
theorem sum_map_remove {v : BoundedVec α n} {i : Nat} {a : α} (h : v.toList[i]? = some a)
    (f : α → Nat) : ((v.remove i).toList.map f).sum + f a = (v.toList.map f).sum := by
  obtain ⟨hi, ha⟩ := List.getElem?_eq_some_iff.mp h
  have hsum := ((List.getElem_cons_eraseIdx_perm hi).map f).sum_eq
  rw [ha, List.map_cons, List.sum_cons] at hsum
  rw [toList_remove]
  omega

theorem sum_map_set {v : BoundedVec α n} {i : Nat} {a : α} (h : v.toList[i]? = some a) (b : α)
    (f : α → Nat) : ((v.set i b).toList.map f).sum + f a = (v.toList.map f).sum + f b := by
  obtain ⟨hi, ha⟩ := List.getElem?_eq_some_iff.mp h
  have hset := ((List.set_perm_cons_eraseIdx hi b).map f).sum_eq
  have hsum := ((List.getElem_cons_eraseIdx_perm hi).map f).sum_eq
  rw [ha, List.map_cons, List.sum_cons] at hsum
  rw [List.map_cons, List.sum_cons] at hset
  rw [toList_set]
  omega

theorem exists_tryFrom {l : List α} (h : l.length ≤ n) :
    ∃ v : BoundedVec α n, tryFrom l = some v ∧ v.toList = l := ⟨⟨l, h⟩, dif_pos h, rfl⟩

end BoundedVec

/-! ### Searching a sorted list of numbers -/

/-- Where `x` sits in a sorted list (`inl`), or where inserting it keeps the list sorted
(`inr`). -/
def binarySearch (l : List Nat) (x : Nat) : Nat ⊕ Nat :=
  let i := (l.takeWhile (· < x)).length
  if l[i]? = some x then .inl i else .inr i

theorem insertIdx_length_append (l₁ l₂ : List Nat) (x : Nat) :
    (l₁ ++ l₂).insertIdx l₁.length x = l₁ ++ x :: l₂ := by
  induction l₁ with
  | nil => rfl
  | cons a l₁ ih => exact congrArg (a :: ·) ih

theorem insertIdx_takeWhile (l : List Nat) (x : Nat) :
    l.insertIdx (l.takeWhile (· < x)).length x =
      l.takeWhile (· < x) ++ x :: l.dropWhile (· < x) := by
  have h := insertIdx_length_append (l.takeWhile (· < x)) (l.dropWhile (· < x)) x
  rwa [List.takeWhile_append_dropWhile] at h

/-- A search that fails says where the missing number goes: inserted there, the list stays
strictly increasing. -/
theorem binarySearch_inr {l : List Nat} {x i : Nat} (hl : l.Pairwise (· < ·))
    (h : binarySearch l x = .inr i) : x ∉ l ∧ (l.insertIdx i x).Pairwise (· < ·) := by
  unfold binarySearch at h
  simp only at h
  split at h
  · cases h
  · rename_i hne
    cases h
    have hsplit := List.takeWhile_append_dropWhile (p := (· < x)) (l := l)
    have hget : l[(l.takeWhile (· < x)).length]? = (l.dropWhile (· < x))[0]? := by
      conv_lhs => rw [← hsplit]
      rw [List.getElem?_append_right (by simp)]
      simp
    have hlow : ∀ a ∈ l.takeWhile (· < x), a < x := by
      intro a ha
      simpa using List.mem_takeWhile_imp ha
    have hhigh : ∀ b ∈ l.dropWhile (· < x), x < b := by
      cases hd : l.dropWhile (· < x) with
      | nil => simp
      | cons d rest =>
        have hdx : ¬ d < x := by
          have := List.head_dropWhile_not (p := (· < x)) (l := l) (by simp [hd])
          simpa [hd] using this
        have hdne : d ≠ x := by
          intro hdx
          apply hne
          rw [hget, hd, hdx]
          rfl
        have hxd : x < d := by omega
        rw [← hsplit, hd] at hl
        have hrest := (List.pairwise_append.mp hl).2.1
        rw [List.pairwise_cons] at hrest
        intro b hb
        rcases List.mem_cons.mp hb with rfl | hb
        · exact hxd
        · exact hxd.trans (hrest.1 b hb)
    constructor
    · intro hx
      rw [← hsplit, List.mem_append] at hx
      rcases hx with hx | hx
      · exact absurd (hlow x hx) (lt_irrefl x)
      · exact absurd (hhigh x hx) (lt_irrefl x)
    · rw [insertIdx_takeWhile]
      rw [← hsplit] at hl
      obtain ⟨hl₁, hl₂, -⟩ := List.pairwise_append.mp hl
      rw [List.pairwise_append, List.pairwise_cons]
      refine ⟨hl₁, ⟨hhigh, hl₂⟩, ?_⟩
      intro a ha b hb
      rcases List.mem_cons.mp hb with rfl | hb
      · exact hlow a ha
      · exact (hlow a ha).trans (hhigh b hb)

/-- A search that fails answers with an index into the list or its end. -/
theorem binarySearch_inr_le {l : List Nat} {x i : Nat} (h : binarySearch l x = .inr i) :
    i ≤ l.length := by
  unfold binarySearch at h
  simp only at h
  split at h
  · cases h
  · cases h
    exact (List.takeWhile_sublist _).length_le

/-! ### Counters -/

namespace U8

/-- The largest 8-bit number. -/
def max : Nat := 255

def saturatingAdd (a b : Nat) : Nat := min (a + b) max

theorem saturatingAdd_eq {a b : Nat} (h : a + b ≤ max) : saturatingAdd a b = a + b :=
  Nat.min_eq_left h

end U8

namespace U16

/-- The largest 16-bit number. -/
def max : Nat := 65535

/-- A number as 16 bits, the largest where it does not fit. -/
def saturatedFrom (a : Nat) : Nat := min a max

theorem saturatedFrom_eq {a : Nat} (h : a ≤ max) : saturatedFrom a = a := Nat.min_eq_left h

end U16

namespace U32

/-- The largest 32-bit number. -/
def max : Nat := 4294967295

def saturatingAdd (a b : Nat) : Nat := min (a + b) max

def saturatingMul (a b : Nat) : Nat := min (a * b) max

def wrappingAdd (a b : Nat) : Nat := (a + b) % (max + 1)

def saturatingInc (a : Nat) : Nat := saturatingAdd a 1

/-- A number as 32 bits, the largest where it does not fit. -/
def saturatedFrom (a : Nat) : Nat := min a max

theorem saturatingAdd_eq {a b : Nat} (h : a + b ≤ max) : saturatingAdd a b = a + b :=
  Nat.min_eq_left h

theorem wrappingAdd_eq {a b : Nat} (h : a + b ≤ max) : wrappingAdd a b = a + b :=
  Nat.mod_eq_of_lt (Nat.lt_succ_of_le h)

theorem saturatingInc_eq {a : Nat} (h : a < max) : saturatingInc a = a + 1 :=
  saturatingAdd_eq h

theorem saturatingAdd_le (a b : Nat) : saturatingAdd a b ≤ max := Nat.min_le_right _ _

/-- A sum added up with saturation is exact if it fits. -/
theorem foldl_saturatingAdd_eq {β : Type u} {f : β → Nat} {l : List β} {a : Nat}
    (h : a + (l.map f).sum ≤ max) :
    l.foldl (fun total b => saturatingAdd total (f b)) a = a + (l.map f).sum := by
  induction l generalizing a with
  | nil => rfl
  | cons b l ih =>
    rw [List.map_cons, List.sum_cons, ← Nat.add_assoc] at h ⊢
    rw [List.foldl_cons, saturatingAdd_eq ((Nat.le_add_right _ _).trans h), ih h]

theorem saturatedFrom_eq {a : Nat} (h : a ≤ max) : saturatedFrom a = a := Nat.min_eq_left h

theorem saturatedFrom_le (a : Nat) : saturatedFrom a ≤ a := Nat.min_le_left _ _

end U32

namespace U64

/-- The largest 64-bit number. -/
def max : Nat := 18446744073709551615

def saturatingAdd (a b : Nat) : Nat := min (a + b) max

def saturatingMul (a b : Nat) : Nat := min (a * b) max

theorem saturatingAdd_eq {a b : Nat} (h : a + b ≤ max) : saturatingAdd a b = a + b :=
  Nat.min_eq_left h

theorem saturatingAdd_mono {a a' b : Nat} (h : a ≤ a') : saturatingAdd a b ≤ saturatingAdd a' b := by
  unfold saturatingAdd
  omega

/-- A sum is passed by a number that is not the largest only if it is passed without saturation. -/
theorem saturatingAdd_le_iff {a b c : Nat} (h : c < max) : saturatingAdd a b ≤ c ↔ a + b ≤ c := by
  unfold saturatingAdd
  omega

end U64

namespace U128

/-- The largest 128-bit number. -/
def max : Nat := 340282366920938463463374607431768211455

def saturatingAdd (a b : Nat) : Nat := min (a + b) max

def saturatingMul (a b : Nat) : Nat := min (a * b) max

theorem saturatingAdd_eq {a b : Nat} (h : a + b ≤ max) : saturatingAdd a b = a + b :=
  Nat.min_eq_left h

theorem saturatingMul_eq {a b : Nat} (h : a * b ≤ max) : saturatingMul a b = a * b :=
  Nat.min_eq_left h

end U128

end Individuality.Support
