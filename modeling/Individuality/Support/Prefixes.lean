import Individuality.Support.Iteration

/-! Maps under two keys.

The entries under one first key are walked, and cleared a bounded number at a time,
in the order of their ranks. -/
namespace Individuality.Support.StorageMap

universe u v w
variable {α : Type u} {β : Type v} {ν : Type w} [DecidableEq α] [DecidableEq β] (rank : α × β → Nat)

/-- The keys that start with `a`, in order. -/
def prefixKeys (m : StorageMap (α × β) ν) (a : α) : List (α × β) :=
  (m.keysInOrder rank).filter fun k => k.1 = a

/-- Remove the first entries under the keys that start with `a`, at most `limit` of them; also how
many they were. -/
def clearPrefix (m : StorageMap (α × β) ν) (a : α) (limit : Nat) : StorageMap (α × β) ν × Nat :=
  let keys := (m.prefixKeys rank a).take limit
  (m.removeAll keys, keys.length)

variable {rank} {m : StorageMap (α × β) ν} {a : α} {k : α × β} {limit : Nat}

theorem mem_prefixKeys : k ∈ m.prefixKeys rank a ↔ (m.get k).isSome = true ∧ k.1 = a := by
  rw [prefixKeys, List.mem_filter, mem_keysInOrder, decide_eq_true_iff]

/-- A bounded clear keeps what does not start with the key, and adds nothing. -/
theorem get_clearPrefix_of_ne (h : k.1 ≠ a) : (m.clearPrefix rank a limit).1.get k = m.get k := by
  rw [clearPrefix, get_removeAll, if_neg]
  exact fun hmem => h (mem_prefixKeys.mp (List.mem_of_mem_take hmem)).2

theorem get_of_get_clearPrefix {v : ν} (h : (m.clearPrefix rank a limit).1.get k = some v) :
    m.get k = some v := by
  rw [clearPrefix, get_removeAll] at h
  split at h
  · cases h
  · exact h

/-- A clear of all that there is leaves nothing. -/
theorem get_clearPrefix_of_length_le (hlength : (m.prefixKeys rank a).length ≤ limit) (hk : k.1 = a) :
    (m.clearPrefix rank a limit).1.get k = none := by
  rw [clearPrefix, List.take_of_length_le hlength, get_removeAll]
  split
  · rfl
  · rename_i hmem
    rw [mem_prefixKeys] at hmem
    exact Option.not_isSome_iff_eq_none.mp fun hsome => hmem ⟨hsome, hk⟩

/-- What does not start with the key counts as before. -/
theorem countOf_clearPrefix_of_ne {b : α} (h : b ≠ a) :
    ((m.clearPrefix rank a limit).1.countOf fun k _ => k.1 = b) = m.countOf fun k _ => k.1 = b := by
  refine countOf_eq_of_get fun k v hk => ?_
  rw [get_clearPrefix_of_ne fun heq => h ((of_decide_eq_true hk).symm.trans heq)]

theorem countOf_clearPrefix_le (p : α × β → ν → Bool) :
    (m.clearPrefix rank a limit).1.countOf p ≤ m.countOf p := by
  rw [clearPrefix]
  generalize (m.prefixKeys rank a).take limit = ks
  induction ks generalizing m with
  | nil => exact le_rfl
  | cons k ks ih =>
    have hremove := m.countOf_remove p k
    exact (ih (m := m.remove k)).trans (by omega)

theorem countOf_clearPrefix_eq_zero (hlength : (m.prefixKeys rank a).length ≤ limit) :
    ((m.clearPrefix rank a limit).1.countOf fun k _ => k.1 = a) = 0 := by
  refine countOf_eq_zero_iff.mpr fun k v hget => decide_eq_false fun hk => ?_
  rw [get_clearPrefix_of_length_le hlength hk] at hget
  cases hget

end Individuality.Support.StorageMap
