import Mathlib.Algebra.GroupWithZero.Nat
import Mathlib.Data.List.AList
import Mathlib.Algebra.BigOperators.Group.List.Basic
import Mathlib.Algebra.Order.BigOperators.Group.List

/-! Finite key-value storage.

A storage map is a finite set of entries, at most one per key. Everything a
program can observe of it is a lookup, the presence of a key, the keys in some
order, and a total over its entries, so those are the only ways in: `get` after
each write is a simp lemma, and `sumOf` (the total of a measure over the stored
values) moves by exactly the measure of what a write replaces. -/
namespace Individuality.Support

universe u v

/-- A map from keys to at most one value each, holding finitely many entries. -/
def StorageMap (κ : Type u) (ν : Type v) : Type (max u v) := AList (fun _ : κ => ν)

namespace StorageMap
variable {κ : Type u} {ν : Type v} [DecidableEq κ]

instance [DecidableEq ν] : DecidableEq (StorageMap κ ν) :=
  inferInstanceAs (DecidableEq (AList (fun _ : κ => ν)))

def empty : StorageMap κ ν := (∅ : AList (fun _ : κ => ν))

instance : EmptyCollection (StorageMap κ ν) := ⟨empty⟩
instance : Inhabited (StorageMap κ ν) := ⟨empty⟩

def get (m : StorageMap κ ν) (k : κ) : Option ν := AList.lookup k m

def insert (m : StorageMap κ ν) (k : κ) (v : ν) : StorageMap κ ν := AList.insert k v m

def remove (m : StorageMap κ ν) (k : κ) : StorageMap κ ν := AList.erase k m

def contains (m : StorageMap κ ν) (k : κ) : Bool := (m.get k).isSome

/-- Change the value under a key, where there is one. -/
def modify (m : StorageMap κ ν) (k : κ) (f : ν → ν) : StorageMap κ ν :=
  match m.get k with
  | none => m
  | some v => m.insert k (f v)

def keys (m : StorageMap κ ν) : List κ := AList.keys m

def isEmpty (m : StorageMap κ ν) : Bool := m.keys.isEmpty

/-- The total of `f` over the stored values. -/
def sumOf (m : StorageMap κ ν) (f : ν → Nat) : Nat := (m.entries.map fun e => f e.2).sum

/-! ### Lookups after a write -/

@[simp] theorem get_empty (k : κ) : (∅ : StorageMap κ ν).get k = none := rfl

@[simp] theorem get_insert (m : StorageMap κ ν) (k k' : κ) (v : ν) :
    (m.insert k v).get k' = if k' = k then some v else m.get k' := by
  by_cases h : k' = k
  · subst h
    simp only [if_true]
    exact AList.lookup_insert m
  · rw [if_neg h]
    exact AList.lookup_insert_ne h

@[simp] theorem get_remove (m : StorageMap κ ν) (k k' : κ) :
    (m.remove k).get k' = if k' = k then none else m.get k' := by
  by_cases h : k' = k
  · subst h
    simp only [if_true]
    exact AList.lookup_erase k' m
  · rw [if_neg h]
    exact AList.lookup_erase_ne h

theorem get_modify (m : StorageMap κ ν) (k k' : κ) (f : ν → ν) :
    (m.modify k f).get k' = if k' = k then (m.get k).map f else m.get k' := by
  unfold modify
  split
  · rename_i h
    rw [h]
    split
    · rename_i heq
      rw [heq]
      exact h
    · rfl
  · rename_i v h
    rw [h]
    exact get_insert m k k' (f v)

theorem get_of_get_remove {m : StorageMap κ ν} {k k' : κ} {v : ν} (h : (m.remove k).get k' = some v) :
    m.get k' = some v := by
  rw [get_remove] at h
  split at h
  · cases h
  · exact h

theorem contains_eq_false {m : StorageMap κ ν} {k : κ} : m.contains k = false ↔ m.get k = none :=
  Option.isSome_eq_false_iff.trans Option.isNone_iff_eq_none

theorem contains_eq_true {m : StorageMap κ ν} {k : κ} : m.contains k = true ↔ ∃ v, m.get k = some v :=
  Option.isSome_iff_exists

theorem contains_modify (m : StorageMap κ ν) (k k' : κ) (f : ν → ν) : (m.modify k f).contains k' = m.contains k' := by
  rw [contains, contains, get_modify]
  split
  · rename_i h
    rw [h, Option.isSome_map]
  · rfl

/-- A value is written over another one. -/
theorem contains_insert_of_get {m : StorageMap κ ν} {k : κ} {v : ν} (h : m.get k = some v) (k' : κ) (v' : ν) :
    (m.insert k v').contains k' = m.contains k' := by
  rw [contains, contains, get_insert]
  split
  · rename_i heq
    rw [heq, h]
    rfl
  · rfl

theorem mem_keys (m : StorageMap κ ν) (k : κ) : k ∈ m.keys ↔ (m.get k).isSome = true :=
  AList.mem_keys.symm.trans AList.lookup_isSome.symm

theorem isEmpty_iff (m : StorageMap κ ν) : m.isEmpty = true ↔ ∀ k, m.get k = none := by
  rw [isEmpty, List.isEmpty_iff, List.eq_nil_iff_forall_not_mem]
  simp only [mem_keys, Bool.not_eq_true, Option.isSome_eq_false_iff, Option.isNone_iff_eq_none]

/-! ### Other values under the same keys -/

/-- The map with a function applied to what it holds. -/
def mapValues {μ : Type v} (m : StorageMap κ ν) (f : ν → μ) : StorageMap κ μ :=
  ⟨m.entries.map fun e => ⟨e.1, f e.2⟩, by
    have hkeys : (m.entries.map fun e => (⟨e.1, f e.2⟩ : Sigma fun _ : κ => μ)).keys = m.entries.keys := by
      rw [List.keys, List.map_map]
      rfl
    rw [List.NodupKeys, hkeys]
    exact m.nodupKeys⟩

omit [DecidableEq κ] in
theorem keys_mapValues {μ : Type v} (m : StorageMap κ ν) (f : ν → μ) : (m.mapValues f).keys = m.keys := by
  show (List.map _ _).map _ = _
  rw [List.map_map]
  rfl

theorem get_mapValues {μ : Type v} (m : StorageMap κ ν) (f : ν → μ) (k : κ) :
    (m.mapValues f).get k = (m.get k).map f := by
  refine Option.ext fun v => ?_
  have hmem : v ∈ (m.mapValues f).get k ↔ ⟨k, v⟩ ∈ (m.mapValues f).entries := AList.mem_lookup_iff
  refine hmem.trans ?_
  rw [mapValues, List.mem_map, Option.map_eq_some_iff]
  constructor
  · rintro ⟨⟨k', v'⟩, he, heq⟩
    cases heq
    exact ⟨v', AList.mem_lookup_iff.mpr he, rfl⟩
  · rintro ⟨v', hv', rfl⟩
    exact ⟨⟨k, v'⟩, AList.mem_lookup_iff.mp hv', rfl⟩

theorem mapValues_insert {μ : Type v} (m : StorageMap κ ν) (f : ν → μ) (k : κ) (v : ν) :
    (m.insert k v).mapValues f = (m.mapValues f).insert k (f v) := by
  apply AList.ext
  show _ :: List.map _ (List.kerase k m.entries) = _ :: List.kerase k (List.map _ m.entries)
  rw [List.kerase, List.kerase, List.eraseP_map]
  rfl

/-! ### Totals -/

omit [DecidableEq κ] in
@[simp] theorem sumOf_empty (f : ν → Nat) : (∅ : StorageMap κ ν).sumOf f = 0 := rfl

/-- A total to which no entry contributes. -/
theorem sumOf_eq_zero {m : StorageMap κ ν} {f : ν → Nat}
    (h : ∀ k v, m.get k = some v → f v = 0) : m.sumOf f = 0 := by
  refine List.sum_eq_zero fun n hn => ?_
  obtain ⟨⟨k, v⟩, hmem, rfl⟩ := List.mem_map.mp hn
  exact h k v (AList.mem_lookup_iff.mpr hmem)

theorem sumOf_of_get_none {m : StorageMap κ ν} (h : ∀ k, m.get k = none) (f : ν → Nat) :
    m.sumOf f = 0 := sumOf_eq_zero fun k v hget => by
  rw [h k] at hget
  cases hget

/-- What the entry at `k` contributes to a total. -/
def measureAt (m : StorageMap κ ν) (f : ν → Nat) (k : κ) : Nat := ((m.get k).map f).getD 0

theorem perm_cons_erase {m : StorageMap κ ν} {k : κ} {v : ν} (h : m.get k = some v) :
    List.Perm m.entries (⟨k, v⟩ :: (m.remove k).entries) := by
  have hmem : (⟨k, v⟩ : Sigma fun _ : κ => ν) ∈ m.entries :=
    AList.mem_lookup_iff.mp h
  obtain ⟨l₁, l₂, hl⟩ := List.append_of_mem hmem
  have hnodup := m.nodupKeys
  rw [hl] at hnodup
  have hkeys : k ∉ l₁.keys := by
    intro hk
    have := List.nodup_append.mp (by simpa [List.NodupKeys, List.keys] using hnodup)
    exact this.2.2 k (by simpa [List.keys] using hk) k (by simp) rfl
  have herase : (m.remove k).entries = l₁ ++ l₂ := by
    show List.kerase k m.entries = l₁ ++ l₂
    rw [hl, List.kerase_append_right hkeys]
    exact congrArg (l₁ ++ ·) (List.kerase_cons_eq rfl)
  rw [herase, hl]
  exact List.perm_middle

theorem remove_of_get_none {m : StorageMap κ ν} {k : κ} (h : m.get k = none) :
    m.remove k = m := by
  apply AList.ext
  exact List.kerase_of_notMem_keys (AList.lookup_eq_none.mp h)

theorem insert_insert (m : StorageMap κ ν) (k : κ) (v v' : ν) : (m.insert k v).insert k v' = m.insert k v' :=
  AList.insert_insert m

/-- What is written over need not be removed first. -/
theorem insert_remove (m : StorageMap κ ν) (k : κ) (v : ν) : (m.remove k).insert k v = m.insert k v := by
  apply AList.ext
  have hgone : k ∉ (m.remove k).entries.keys := List.notMem_keys_kerase k m.nodupKeys
  exact congrArg (⟨k, v⟩ :: ·) (List.kerase_of_notMem_keys hgone)

/-- Removing an entry takes what it contributed away from the total. -/
theorem sumOf_remove (m : StorageMap κ ν) (f : ν → Nat) (k : κ) :
    (m.remove k).sumOf f + m.measureAt f k = m.sumOf f := by
  cases h : m.get k with
  | none => simp [measureAt, h, remove_of_get_none h]
  | some v =>
    have hp := ((perm_cons_erase h).map fun e => f e.2).sum_eq
    simp only [List.map_cons, List.sum_cons] at hp
    simp only [sumOf, measureAt, h, Option.map_some, Option.getD_some]
    omega

theorem sumOf_insert (m : StorageMap κ ν) (f : ν → Nat) (k : κ) (v : ν) :
    (m.insert k v).sumOf f + m.measureAt f k = m.sumOf f + f v := by
  have hentries : (m.insert k v).entries = ⟨k, v⟩ :: (m.remove k).entries := rfl
  have hsum : (m.insert k v).sumOf f = f v + (m.remove k).sumOf f := by
    simp only [sumOf, hentries, List.map_cons, List.sum_cons]
  have := m.sumOf_remove f k
  omega

theorem measureAt_le_sumOf (m : StorageMap κ ν) (f : ν → Nat) (k : κ) :
    m.measureAt f k ≤ m.sumOf f := by
  have := m.sumOf_remove f k
  omega

/-! ### Counts -/

/-- The number of entries that pass `p`. -/
def countOf (m : StorageMap κ ν) (p : κ → ν → Bool) : Nat := m.entries.countP fun e => p e.1 e.2

/-- The number of entries. -/
def size (m : StorageMap κ ν) : Nat := m.countOf fun _ _ => true

/-- What the entry at `k` contributes to a count. -/
def countAt (m : StorageMap κ ν) (p : κ → ν → Bool) (k : κ) : Nat :=
  if (m.get k).any (p k) then 1 else 0

omit [DecidableEq κ] in
@[simp] theorem countOf_empty (p : κ → ν → Bool) : (∅ : StorageMap κ ν).countOf p = 0 := rfl

omit [DecidableEq κ] in
@[simp] theorem size_empty : (∅ : StorageMap κ ν).size = 0 := rfl

theorem countOf_congr {m : StorageMap κ ν} {p q : κ → ν → Bool}
    (h : ∀ k v, m.get k = some v → p k v = q k v) : m.countOf p = m.countOf q := by
  refine List.countP_congr fun e he => ?_
  rw [h e.1 e.2 (AList.mem_lookup_iff.mpr he)]

theorem countOf_eq_zero_iff {m : StorageMap κ ν} {p : κ → ν → Bool} :
    m.countOf p = 0 ↔ ∀ k v, m.get k = some v → p k v = false := by
  rw [countOf, List.countP_eq_zero]
  constructor
  · intro h k v hget
    exact Bool.not_eq_true _ ▸ h ⟨k, v⟩ (AList.mem_lookup_iff.mp hget)
  · intro h e he
    rw [h e.1 e.2 (AList.mem_lookup_iff.mpr he)]
    exact Bool.false_ne_true

theorem countOf_remove (m : StorageMap κ ν) (p : κ → ν → Bool) (k : κ) :
    (m.remove k).countOf p + m.countAt p k = m.countOf p := by
  cases h : m.get k with
  | none => simp [countAt, h, remove_of_get_none h]
  | some v =>
    have hp := (perm_cons_erase h).countP_eq fun e => p e.1 e.2
    rw [List.countP_cons] at hp
    simp only [countAt, countOf, h, Option.any_some]
    exact hp.symm

theorem countOf_insert (m : StorageMap κ ν) (p : κ → ν → Bool) (k : κ) (v : ν) :
    (m.insert k v).countOf p + m.countAt p k = m.countOf p + if p k v = true then 1 else 0 := by
  have hentries : (m.insert k v).entries = ⟨k, v⟩ :: (m.remove k).entries := rfl
  have hcount : (m.insert k v).countOf p =
      (m.remove k).countOf p + if p k v = true then 1 else 0 := by
    simp only [countOf, hentries, List.countP_cons]
  have := m.countOf_remove p k
  omega

omit [DecidableEq κ] in
/-- The entries that pass a test are those that pass another test too, and those that do not. -/
theorem countOf_and_add_countOf_and_not (m : StorageMap κ ν) (p q : κ → ν → Bool) :
    (m.countOf fun k v => p k v && q k v) + (m.countOf fun k v => p k v && !q k v) = m.countOf p := by
  have h := List.countP_eq_countP_filter_add m.entries (fun e => p e.1 e.2) fun e => q e.1 e.2
  simp only [List.countP_filter] at h
  exact h.symm

/-! ### The keys after a write -/

omit [DecidableEq κ] in
theorem nodup_keys (m : StorageMap κ ν) : m.keys.Nodup := AList.keys_nodup m

theorem keys_insert (m : StorageMap κ ν) (k : κ) (v : ν) :
    (m.insert k v).keys = k :: (m.remove k).keys := rfl

theorem keys_remove_of_none {m : StorageMap κ ν} {k : κ} (h : m.get k = none) :
    (m.remove k).keys = m.keys := by
  rw [remove_of_get_none h]

theorem perm_keys_remove {m : StorageMap κ ν} {k : κ} {v : ν} (h : m.get k = some v) :
    m.keys.Perm (k :: (m.remove k).keys) :=
  (perm_cons_erase h).map Sigma.fst

/-- Two maps with the same entries among those that pass `p` count as many. -/
theorem countOf_eq_of_get {m n : StorageMap κ ν} {p : κ → ν → Bool}
    (h : ∀ k v, p k v = true → (m.get k = some v ↔ n.get k = some v)) : m.countOf p = n.countOf p := by
  have hnodup : ∀ l : StorageMap κ ν, (l.entries.filter fun e => p e.1 e.2).Nodup :=
    fun l => (List.NodupKeys.nodup l.nodupKeys).filter _
  have hperm := (List.perm_ext_iff_of_nodup (hnodup m) (hnodup n)).mpr ?_
  · rw [countOf, countOf, List.countP_eq_length_filter, List.countP_eq_length_filter]
    exact hperm.length_eq
  · rintro ⟨k, v⟩
    rw [List.mem_filter, List.mem_filter]
    refine and_congr_left fun hp => ?_
    exact AList.mem_lookup_iff.symm.trans ((h k v hp).trans AList.mem_lookup_iff)

theorem countOf_eq_length (m : StorageMap κ ν) (p : κ → ν → Bool) :
    m.countOf p = (m.keys.filter fun k => (m.get k).any (p k)).length := by
  show m.entries.countP _ = ((List.keys m.entries).filter _).length
  rw [List.keys, ← List.countP_eq_length_filter, List.countP_map]
  refine List.countP_congr fun e he => ?_
  have hget : m.get e.1 = some e.2 := AList.mem_lookup_iff.mpr he
  rw [Function.comp_apply, hget]
  rfl

/-- Two maps, possibly of different values, in which the same keys pass count as many. -/
theorem countOf_eq_of_any {μ : Type v} {m : StorageMap κ ν} {n : StorageMap κ μ}
    {p : κ → ν → Bool} {q : κ → μ → Bool}
    (h : ∀ k, (m.get k).any (p k) = (n.get k).any (q k)) : m.countOf p = n.countOf q := by
  have hmem : ∀ {ρ : Type v} (l : StorageMap κ ρ) (f : κ → ρ → Bool) (k : κ),
      k ∈ l.keys.filter (fun k => (l.get k).any (f k)) ↔ (l.get k).any (f k) = true := by
    intro ρ l f k
    rw [List.mem_filter, mem_keys, and_iff_right_iff_imp]
    intro hany
    cases hk : l.get k with
    | none => rw [hk] at hany; cases hany
    | some v => rfl
  rw [countOf_eq_length, countOf_eq_length]
  have hnodup : ∀ {ρ : Type v} (l : StorageMap κ ρ), l.keys.Nodup := fun l => AList.keys_nodup l
  refine ((List.perm_ext_iff_of_nodup ((hnodup m).filter _) ((hnodup n).filter _)).mpr ?_).length_eq
  intro k
  rw [hmem, hmem, h]

/-- The count under a test that differs at one key only. -/
theorem countOf_update {m : StorageMap κ ν} {p q : κ → ν → Bool} {k : κ}
    (h : ∀ k' v, k' ≠ k → p k' v = q k' v) :
    m.countOf p + m.countAt q k = m.countOf q + m.countAt p k := by
  have hrest : (m.remove k).countOf p = (m.remove k).countOf q := by
    refine countOf_congr fun k' v hget => h k' v ?_
    rintro rfl
    rw [get_remove, if_pos rfl] at hget
    cases hget
  have hp := m.countOf_remove p k
  have hq := m.countOf_remove q k
  omega

theorem size_insert_le (m : StorageMap κ ν) (k : κ) (v : ν) : (m.insert k v).size ≤ m.size + 1 := by
  have h := m.countOf_insert (fun _ _ => true) k v
  rw [if_pos rfl] at h
  exact (Nat.le_add_right _ _).trans h.le

theorem size_remove_le (m : StorageMap κ ν) (k : κ) : (m.remove k).size ≤ m.size :=
  (Nat.le_add_right _ _).trans (m.countOf_remove (fun _ _ => true) k).le

theorem size_eq_zero_iff {m : StorageMap κ ν} : m.size = 0 ↔ ∀ k, m.get k = none := by
  rw [size, countOf_eq_zero_iff]
  constructor
  · intro h k
    cases hget : m.get k with
    | none => rfl
    | some v => exact absurd (h k v hget) Bool.noConfusion
  · intro h k v hget
    rw [h k] at hget
    cases hget

omit [DecidableEq κ] in
theorem length_filter_keys (m : StorageMap κ ν) (p : κ → Bool) :
    (m.keys.filter p).length = m.countOf fun k _ => p k := by
  show ((List.keys m.entries).filter p).length = _
  rw [List.keys, ← List.countP_eq_length_filter, List.countP_map]
  rfl

omit [DecidableEq κ] in
theorem countP_keys (m : StorageMap κ ν) (p : κ → Bool) : m.keys.countP p = m.countOf fun k _ => p k := by
  rw [List.countP_eq_length_filter, length_filter_keys]

/-- A total, key by key. -/
theorem sum_keys (m : StorageMap κ ν) (f : ν → Nat) : (m.keys.map (m.measureAt f)).sum = m.sumOf f := by
  show ((m.entries.map Sigma.fst).map _).sum = (m.entries.map fun e => f e.2).sum
  rw [List.map_map]
  refine congrArg List.sum (List.map_congr_left fun e he => ?_)
  have hget : m.get e.1 = some e.2 := AList.mem_lookup_iff.mpr he
  rw [Function.comp_apply, measureAt, hget]
  rfl

omit [DecidableEq κ] in
theorem length_keys (m : StorageMap κ ν) : m.keys.length = m.size := by
  have h := m.countP_keys fun _ => true
  rwa [List.countP_eq_length.mpr fun _ _ => rfl] at h

/-- Maps with the same entries have the same total. -/
theorem sumOf_eq_of_get {m n : StorageMap κ ν} (h : ∀ k, m.get k = n.get k) (f : ν → Nat) :
    m.sumOf f = n.sumOf f := by
  have hperm : m.entries.Perm n.entries := by
    refine (List.perm_ext_iff_of_nodup (List.NodupKeys.nodup m.nodupKeys)
      (List.NodupKeys.nodup n.nodupKeys)).mpr ?_
    rintro ⟨k, v⟩
    have hget : m.get k = some v ↔ n.get k = some v := by rw [h k]
    exact AList.mem_lookup_iff.symm.trans (hget.trans AList.mem_lookup_iff)
  exact (hperm.map fun e => f e.2).sum_eq

/-- A map none of whose keys is new is no larger. -/
theorem size_le_size {μ : Type v} {m : StorageMap κ ν} {n : StorageMap κ μ}
    (h : ∀ k, (m.get k).isSome = true → (n.get k).isSome = true) : m.size ≤ n.size := by
  have hlength : ∀ {ρ : Type v} (l : StorageMap κ ρ), l.size = l.keys.length := fun l => by
    have := l.length_filter_keys fun _ => true
    rw [List.filter_true] at this
    exact this.symm
  rw [hlength, hlength]
  have hnodup : m.keys.Nodup := AList.keys_nodup m
  refine (List.subperm_of_subset hnodup fun k hk => ?_).length_le
  exact (n.mem_keys k).mpr (h k ((m.mem_keys k).mp hk))

/-! ### Bounded clears -/

/-- Remove the entries under the keys of a list. -/
def removeAll (m : StorageMap κ ν) (ks : List κ) : StorageMap κ ν := ks.foldl remove m

/-- Remove entries under the keys that pass `p`, at most `limit` of them. -/
def clear (m : StorageMap κ ν) (p : κ → Bool) (limit : Nat) : StorageMap κ ν :=
  m.removeAll ((m.keys.filter p).take limit)

theorem get_removeAll (m : StorageMap κ ν) (ks : List κ) (k : κ) :
    (m.removeAll ks).get k = if k ∈ ks then none else m.get k := by
  unfold removeAll
  induction ks generalizing m with
  | nil => simp
  | cons a ks ih =>
    rw [List.foldl_cons, ih, get_remove]
    by_cases h : k = a <;> simp [h]

/-- A clear changes no entry that it leaves. -/
theorem get_of_get_clear {m : StorageMap κ ν} {p : κ → Bool} {limit : Nat} {k : κ} {v : ν}
    (h : (m.clear p limit).get k = some v) : m.get k = some v := by
  rw [clear, get_removeAll] at h
  split at h
  · cases h
  · exact h

/-- A clear whose limit is not exceeded removes all it is asked to. -/
theorem get_clear {m : StorageMap κ ν} {p : κ → Bool} {limit : Nat}
    (h : m.countOf (fun k _ => p k) ≤ limit) (k : κ) :
    (m.clear p limit).get k = if p k = true then none else m.get k := by
  rw [← m.length_filter_keys p] at h
  rw [clear, List.take_of_length_le h, get_removeAll]
  by_cases hp : p k = true
  · rw [if_pos hp]
    cases hget : m.get k with
    | none => exact ite_self _
    | some v =>
      have hmem : k ∈ m.keys.filter p :=
        List.mem_filter.mpr ⟨(m.mem_keys k).mpr (by rw [hget]; rfl), hp⟩
      rw [if_pos hmem]
  · rw [if_neg hp, if_neg fun hk => hp (List.mem_filter.mp hk).2]

end StorageMap
end Individuality.Support
