import Individuality.Support.StorageMap
import Mathlib.Data.List.Perm.Subperm
import Mathlib.Data.List.Range

/-! Things that are used once.

A use leaves a record, and a record may be removed once what it stands for can no
longer be used (`dead`). Where only what is neither recorded nor dead is used, nothing
is used twice, however records come and go (`Once`). Uses that are told apart by a
slot below a bound are no more than the bound (`countP_le_of_slots`). -/
namespace Individuality.Support

universe u v
variable {σ : Type u} {κ : Type v}

/-- Of the uses so far no two are the same, and each is on record or dead. -/
structure Once (recorded dead : σ → κ → Prop) (s : σ) (used : List κ) : Prop where
  nodup : used.Nodup
  settled : ∀ k ∈ used, recorded s k ∨ dead s k

namespace Once
variable {recorded dead : σ → κ → Prop} {s s' : σ} {used : List κ} {k : κ}

theorem nil (s : σ) : Once recorded dead s [] := ⟨List.nodup_nil, nofun⟩

/-- A record is kept, or what it stands for is dead; what is dead stays dead. -/
theorem keep (h : Once recorded dead s used) (hrecorded : ∀ k, recorded s k → recorded s' k ∨ dead s' k)
    (hdead : ∀ k, dead s k → dead s' k) : Once recorded dead s' used :=
  ⟨h.nodup, fun k hk => (h.settled k hk).elim (hrecorded k) fun hd => .inr (hdead k hd)⟩

/-- What is neither on record nor dead has not been used. -/
theorem notMem (h : Once recorded dead s used) (hfresh : ¬recorded s k) (halive : ¬dead s k) : k ∉ used :=
  fun hk => (h.settled k hk).elim hfresh halive

/-- A use of what is neither on record nor dead, which leaves a record. -/
theorem use (h : Once recorded dead s used) (hfresh : ¬recorded s k) (halive : ¬dead s k)
    (hrecord : recorded s' k) (hrecorded : ∀ k, recorded s k → recorded s' k ∨ dead s' k)
    (hdead : ∀ k, dead s k → dead s' k) : Once recorded dead s' (k :: used) := by
  refine ⟨List.nodup_cons.mpr ⟨h.notMem hfresh halive, h.nodup⟩, fun k' hk' => ?_⟩
  rcases List.mem_cons.mp hk' with rfl | hk'
  · exact .inl hrecord
  · exact (h.keep hrecorded hdead).settled k' hk'

end Once

/-- Elements that are told apart by a slot below `n` are at most `n`. -/
theorem countP_le_of_slots {l : List κ} {p : κ → Bool} (slot : κ → Nat) {n : Nat}
    (hlt : ∀ k ∈ l, p k = true → slot k < n)
    (hdistinct : l.Pairwise fun k k' => p k = true → p k' = true → slot k ≠ slot k') : l.countP p ≤ n := by
  have hnodup : ((l.filter p).map slot).Nodup := by
    refine List.pairwise_map.mpr ((hdistinct.filter p).imp_of_mem fun hk hk' hne => ?_)
    exact hne (List.mem_filter.mp hk).2 (List.mem_filter.mp hk').2
  have hsub : (l.filter p).map slot ⊆ List.range n := by
    intro i hi
    obtain ⟨k, hk, rfl⟩ := List.mem_map.mp hi
    obtain ⟨hmem, hp⟩ := List.mem_filter.mp hk
    exact List.mem_range.mpr (hlt k hmem hp)
  have hlength := (List.subperm_of_subset hnodup hsub).length_le
  rw [List.length_map, List.length_range] at hlength
  rw [List.countP_eq_length_filter]
  exact hlength

/-- Entries of a map that are told apart by a slot below `n` are at most `n`. -/
theorem StorageMap.countOf_le_of_slots {ν : Type v} [DecidableEq κ] {m : StorageMap κ ν}
    {p : κ → ν → Bool} (slot : κ → ν → Nat) {n : Nat}
    (hlt : ∀ k v, m.get k = some v → p k v = true → slot k v < n)
    (hdistinct : ∀ k k' v v', m.get k = some v → m.get k' = some v' → p k v = true → p k' v' = true →
      slot k v = slot k' v' → k = k') : m.countOf p ≤ n := by
  refine countP_le_of_slots (fun e => slot e.1 e.2) (fun e he hp => ?_) ?_
  · exact hlt e.1 e.2 (AList.mem_lookup_iff.mpr he) hp
  · refine (List.pairwise_map.mp m.nodupKeys).imp_of_mem fun {e e'} he he' hne hp hp' hslot => ?_
    exact hne (hdistinct e.1 e'.1 e.2 e'.2 (AList.mem_lookup_iff.mpr he) (AList.mem_lookup_iff.mpr he')
      hp hp' hslot)

end Individuality.Support
