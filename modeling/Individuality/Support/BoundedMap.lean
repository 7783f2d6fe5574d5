import Individuality.Support.StorageMap

/-! Maps with a bound on their size.

An insertion under a new key may fail; a map that is full stays as it is. -/
namespace Individuality.Support

universe u v

/-- At most `n` entries. -/
structure BoundedMap (κ : Type u) (ν : Type v) [DecidableEq κ] (n : Nat) where
  toMap : StorageMap κ ν
  size_le : toMap.size ≤ n

namespace BoundedMap
variable {κ : Type u} {ν : Type v} [DecidableEq κ] {n : Nat}

def empty : BoundedMap κ ν n := ⟨∅, Nat.zero_le n⟩

instance : Inhabited (BoundedMap κ ν n) := ⟨empty⟩

def get (m : BoundedMap κ ν n) (k : κ) : Option ν := m.toMap.get k

def contains (m : BoundedMap κ ν n) (k : κ) : Bool := m.toMap.contains k

def length (m : BoundedMap κ ν n) : Nat := m.toMap.size

def isEmpty (m : BoundedMap κ ν n) : Bool := m.toMap.isEmpty

def remove (m : BoundedMap κ ν n) (k : κ) : BoundedMap κ ν n :=
  ⟨m.toMap.remove k, (m.toMap.size_remove_le k).trans m.size_le⟩

/-- The map with an entry under `k`, where there is one already or room for one. -/
def tryInsert (m : BoundedMap κ ν n) (k : κ) (v : ν) : Option (BoundedMap κ ν n) :=
  if h : (m.toMap.insert k v).size ≤ n then some ⟨m.toMap.insert k v, h⟩ else none

/-- The map with the entry under `k` replaced. -/
def set (m : BoundedMap κ ν n) (k : κ) (v : ν) : BoundedMap κ ν n := (m.tryInsert k v).getD m

@[simp] theorem get_empty (k : κ) : (empty : BoundedMap κ ν n).get k = none := rfl

@[simp] theorem get_default (k : κ) : (default : BoundedMap κ ν n).get k = none := rfl

@[simp] theorem get_remove (m : BoundedMap κ ν n) (k k' : κ) :
    (m.remove k).get k' = if k' = k then none else m.get k' := m.toMap.get_remove k k'

theorem tryInsert_eq_some {m m' : BoundedMap κ ν n} {k : κ} {v : ν} (h : m.tryInsert k v = some m') :
    m'.toMap = m.toMap.insert k v := by
  unfold tryInsert at h
  split at h
  · cases h
    rfl
  · cases h

theorem get_tryInsert {m m' : BoundedMap κ ν n} {k : κ} {v : ν} (h : m.tryInsert k v = some m')
    (k' : κ) : m'.get k' = if k' = k then some v else m.get k' := by
  rw [get, tryInsert_eq_some h]
  exact m.toMap.get_insert k k' v

/-- Only a new key can be refused, and only by a map that is full. -/
theorem tryInsert_eq_none {m : BoundedMap κ ν n} {k : κ} {v : ν} (h : m.tryInsert k v = none) :
    m.get k = none ∧ m.length = n := by
  have hcount := m.toMap.countOf_insert (fun _ _ => true) k v
  have hle := m.size_le
  unfold tryInsert at h
  split at h
  · cases h
  rename_i hfull
  rw [if_pos rfl] at hcount
  simp only [StorageMap.size] at hle hfull
  have hnone : m.toMap.get k = none := by
    cases hget : m.toMap.get k with
    | none => rfl
    | some v' =>
      simp only [StorageMap.countAt, hget, Option.any_some, if_true] at hcount
      omega
  refine ⟨hnone, ?_⟩
  simp only [StorageMap.countAt, hnone, Option.any_none, Bool.false_eq_true, if_false] at hcount
  simp only [length, StorageMap.size]
  omega

theorem get_set (m : BoundedMap κ ν n) {k : κ} (v : ν) (h : (m.get k).isSome = true) (k' : κ) :
    (m.set k v).get k' = if k' = k then some v else m.get k' := by
  unfold set
  cases hins : m.tryInsert k v with
  | none =>
    rw [(tryInsert_eq_none hins).1] at h
    cases h
  | some m' => exact get_tryInsert hins k'

/-- A replacement is refused only where the key is new and the map full. -/
theorem get_set_iff (m : BoundedMap κ ν n) (k : κ) (v : ν) (k' : κ) :
    (m.set k v).get k' = if k' = k ∧ ((m.get k).isSome = true ∨ m.length < n) then some v else m.get k' := by
  by_cases hroom : (m.get k).isSome = true ∨ m.length < n
  · have hins : ∃ m', m.tryInsert k v = some m' := by
      refine Option.ne_none_iff_exists'.mp fun hnone => ?_
      obtain ⟨hnew, hfull⟩ := tryInsert_eq_none hnone
      rw [hnew] at hroom
      rcases hroom with h | h
      · cases h
      · omega
    obtain ⟨m', hins⟩ := hins
    rw [set, hins, Option.getD_some, get_tryInsert hins]
    simp only [hroom, and_true]
  · have hnone : m.tryInsert k v = none := by
      unfold tryInsert
      rw [not_or, Bool.not_eq_true, Option.isSome_eq_false_iff, Option.isNone_iff_eq_none] at hroom
      have hcount := m.toMap.countOf_insert (fun _ _ => true) k v
      have hget : m.toMap.get k = none := hroom.1
      have hlen : n ≤ m.toMap.countOf fun _ _ => true := Nat.le_of_not_lt hroom.2
      rw [StorageMap.countAt, hget, Option.any_none, if_neg Bool.false_ne_true, if_pos rfl] at hcount
      rw [dif_neg]
      show ¬ (m.toMap.insert k v).countOf _ ≤ n
      omega
    rw [set, hnone, Option.getD_none, if_neg fun h => hroom h.2]

end BoundedMap
end Individuality.Support
