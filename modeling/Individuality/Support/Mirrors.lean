import Individuality.Support.StorageMap

/-! A map and its reverse index.

The values of a map may name a key of another map, which holds where it is named:
`Mirrors index m name`. A value that is written, replaced or removed takes the
entry of the name that it had, and brings the one of the name that it has. -/
namespace Individuality.Support

universe u v w
variable {κ : Type u} {ι : Type v} {ν : Type w} [DecidableEq κ] [DecidableEq ι]

/-- `index` says exactly where each name stands in `m`. -/
def Mirrors (index : StorageMap κ ι) (m : StorageMap ι ν) (name : ν → Option κ) : Prop :=
  ∀ k i, index.get k = some i ↔ ∃ v, m.get i = some v ∧ name v = some k

namespace Mirrors
variable {index : StorageMap κ ι} {m : StorageMap ι ν} {name : ν → Option κ} {k : κ} {i : ι} {v v₀ : ν}

theorem empty : Mirrors (∅ : StorageMap κ ι) (∅ : StorageMap ι ν) name :=
  fun _ _ => ⟨nofun, fun ⟨_, hnone, _⟩ => by cases hnone⟩

theorem congr {index' : StorageMap κ ι} (h : Mirrors index m name) (hget : ∀ k, index'.get k = index.get k) :
    Mirrors index' m name := fun k i => by rw [hget k, h k i]

theorem get (h : Mirrors index m name) (hget : m.get i = some v) (hname : name v = some k) :
    index.get k = some i := (h k i).mpr ⟨v, hget, hname⟩

/-- A name stands at one key. -/
theorem unique (h : Mirrors index m name) {i' : ι} {v' : ν} (hget : m.get i = some v) (hname : name v = some k)
    (hget' : m.get i' = some v') (hname' : name v' = some k) : i = i' :=
  Option.some.inj ((h.get hget hname).symm.trans (h.get hget' hname'))

/-- A value is replaced by one of the same name. -/
theorem insert_same (h : Mirrors index m name) (hget : m.get i = some v₀) (hname : name v = name v₀) :
    Mirrors index (m.insert i v) name := by
  intro k' i'
  rw [StorageMap.get_insert]
  split
  · rename_i hi
    rw [h k' i', hi]
    constructor
    · rintro ⟨v', hget', hname'⟩
      cases hget.symm.trans hget'
      exact ⟨v, rfl, hname.trans hname'⟩
    · rintro ⟨v', hv', hname'⟩
      cases hv'
      exact ⟨v₀, hget, hname.symm.trans hname'⟩
  · exact h k' i'

/-- A value without a name takes none. -/
theorem insert_unnamed (h : Mirrors index m name) (hget : m.get i = none) (hname : name v = none) :
    Mirrors index (m.insert i v) name := by
  intro k' i'
  rw [StorageMap.get_insert]
  split
  · rename_i hi
    rw [h k' i', hi, hget]
    constructor
    · rintro ⟨_, hnone, _⟩
      cases hnone
    · rintro ⟨v', hv', hname'⟩
      cases hv'
      cases hname.symm.trans hname'
  · exact h k' i'

/-- A name that stands nowhere is taken, where no name stood. -/
theorem insert_named (h : Mirrors index m name) (hold : ∀ v₀, m.get i = some v₀ → name v₀ = none)
    (hname : name v = some k) (hfree : index.get k = none) :
    Mirrors (index.insert k i) (m.insert i v) name := by
  intro k' i'
  rw [StorageMap.get_insert, StorageMap.get_insert]
  by_cases hi : i' = i
  · rw [if_pos hi]
    split
    · rename_i hk
      rw [hi, hk]
      exact ⟨fun _ => ⟨v, rfl, hname⟩, fun _ => rfl⟩
    · rename_i hk
      rw [h k' i', hi]
      constructor
      · rintro ⟨v', hget', hname'⟩
        cases (hold v' hget').symm.trans hname'
      · rintro ⟨v', hv', hname'⟩
        cases hv'
        exact absurd (Option.some.inj (hname.symm.trans hname')).symm hk
  · rw [if_neg hi]
    split
    · rename_i hk
      constructor
      · intro heq
        exact absurd (Option.some.inj heq).symm hi
      · rintro ⟨v', hget', hname'⟩
        rw [hk] at hname'
        cases hfree.symm.trans (h.get hget' hname')
    · exact h k' i'

/-- A name is given up, and its value replaced by one without. -/
theorem clear (h : Mirrors index m name) (hget : m.get i = some v₀) (hname₀ : name v₀ = some k)
    (hname : name v = none) : Mirrors (index.remove k) (m.insert i v) name := by
  intro k' i'
  rw [StorageMap.get_insert, StorageMap.get_remove]
  by_cases hi : i' = i
  · rw [if_pos hi]
    constructor
    · intro hindex
      split at hindex
      · cases hindex
      · rename_i hk
        obtain ⟨v', hget', hname'⟩ := (h k' i').mp hindex
        rw [hi] at hget'
        cases hget.symm.trans hget'
        exact absurd (Option.some.inj (hname₀.symm.trans hname')).symm hk
    · rintro ⟨v', hv', hname'⟩
      cases hv'
      cases hname.symm.trans hname'
  · rw [if_neg hi]
    split
    · rename_i hk
      refine ⟨fun hnone => (by cases hnone), ?_⟩
      rintro ⟨v', hget', hname'⟩
      rw [hk] at hname'
      exact absurd (h.unique hget' hname' hget hname₀) hi
    · exact h k' i'

/-- A value is removed with its name. -/
theorem remove (h : Mirrors index m name) (hget : m.get i = some v) (hname : name v = some k) :
    Mirrors (index.remove k) (m.remove i) name := by
  intro k' i'
  rw [StorageMap.get_remove, StorageMap.get_remove]
  by_cases hi : i' = i
  · rw [if_pos hi]
    constructor
    · intro hindex
      split at hindex
      · cases hindex
      · rename_i hk
        obtain ⟨v', hget', hname'⟩ := (h k' i').mp hindex
        rw [hi] at hget'
        cases hget.symm.trans hget'
        exact absurd (Option.some.inj (hname.symm.trans hname')).symm hk
    · rintro ⟨_, hnone, _⟩
      cases hnone
  · rw [if_neg hi]
    split
    · rename_i hk
      refine ⟨fun hnone => (by cases hnone), ?_⟩
      rintro ⟨v', hget', hname'⟩
      rw [hk] at hname'
      exact absurd (h.unique hget' hname' hget hname) hi
    · exact h k' i'

end Mirrors
end Individuality.Support
