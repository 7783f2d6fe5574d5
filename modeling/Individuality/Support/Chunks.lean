import Mathlib.Data.List.Basic

/-! A list cut into chunks: all of the same length but the last. -/
namespace Individuality.Support

universe u
variable {α : Type u}

/-- The first `fuel` chunks of `n` elements. -/
def chunksOf (n : Nat) : (fuel : Nat) → List α → List (List α)
  | 0, _ => []
  | fuel + 1, l => if l = [] then [] else l.take n :: chunksOf n fuel (l.drop n)

/-- The chunks of `n` elements, the last one shorter where `n` does not divide the length. -/
def chunks (n : Nat) (l : List α) : List (List α) := chunksOf n l.length l

theorem chunksOf_flatten {n : Nat} (hn : 0 < n) (fuel : Nat) {l : List α} (h : l.length ≤ fuel) :
    (chunksOf n fuel l).flatten = l := by
  induction fuel generalizing l with
  | zero => exact (List.length_eq_zero_iff.mp (Nat.le_zero.mp h)).symm
  | succ fuel ih =>
    unfold chunksOf
    split
    · rename_i hnil
      exact hnil.symm
    · have hdrop : (l.drop n).length ≤ fuel := by
        rw [List.length_drop]
        omega
      rw [List.flatten_cons, ih hdrop, List.take_append_drop]

/-- The chunks make up the list. -/
theorem flatten_chunks {n : Nat} (hn : 0 < n) (l : List α) : (chunks n l).flatten = l :=
  chunksOf_flatten hn l.length (Nat.le_refl _)

theorem length_le_of_mem_chunksOf {n fuel : Nat} {l c : List α} (h : c ∈ chunksOf n fuel l) :
    c.length ≤ n := by
  induction fuel generalizing l with
  | zero => cases h
  | succ fuel ih =>
    unfold chunksOf at h
    split at h
    · cases h
    · rcases List.mem_cons.mp h with rfl | hc
      · exact List.length_take_le n l
      · exact ih hc

theorem length_le_of_mem_chunks {n : Nat} {l c : List α} (h : c ∈ chunks n l) : c.length ≤ n :=
  length_le_of_mem_chunksOf h

theorem mem_chunksOf {n fuel : Nat} {l c : List α} (hn : 0 < n) (h : c ∈ chunksOf n fuel l) :
    c ≠ [] ∧ c.Sublist l := by
  induction fuel generalizing l with
  | zero => cases h
  | succ fuel ih =>
    unfold chunksOf at h
    split at h
    · cases h
    · rename_i hne
      rcases List.mem_cons.mp h with rfl | hc
      · exact ⟨fun hnil => (List.take_eq_nil_iff.mp hnil).elim (Nat.ne_of_gt hn) hne,
          List.take_sublist n l⟩
      · obtain ⟨hc, hsub⟩ := ih hc
        exact ⟨hc, hsub.trans (List.drop_sublist n l)⟩

/-- A chunk is a part of the list, and not an empty one. -/
theorem mem_chunks {n : Nat} {l c : List α} (hn : 0 < n) (h : c ∈ chunks n l) : c ≠ [] ∧ c.Sublist l :=
  mem_chunksOf hn h

theorem getElem?_chunksOf {n : Nat} (hn : 0 < n) (fuel : Nat) {l : List α} (h : l.length ≤ fuel) (k : Nat) :
    (chunksOf n fuel l)[k]? = if k * n < l.length then some ((l.drop (k * n)).take n) else none := by
  induction fuel generalizing l k with
  | zero =>
    rw [if_neg (by omega)]
    rfl
  | succ fuel ih =>
    unfold chunksOf
    split
    · rename_i hnil
      rw [hnil, if_neg (by rw [List.length_nil]; omega)]
      rfl
    · rename_i hne
      have hpos : 0 < l.length := List.length_pos_iff.mpr hne
      cases k with
      | zero =>
        rw [List.getElem?_cons_zero, Nat.zero_mul, if_pos hpos]
        rfl
      | succ k =>
        rw [List.getElem?_cons_succ, ih (by rw [List.length_drop]; omega), List.drop_drop, List.length_drop,
          Nat.succ_mul, Nat.add_comm n]
        by_cases hk : k * n + n < l.length
        · rw [if_pos hk, if_pos (by omega)]
        · rw [if_neg hk, if_neg (by omega)]

/-- The `k`-th chunk starts at the `k * n`-th element. -/
theorem getElem?_chunks {n : Nat} (hn : 0 < n) (l : List α) (k : Nat) :
    (chunks n l)[k]? = if k * n < l.length then some ((l.drop (k * n)).take n) else none :=
  getElem?_chunksOf hn l.length (Nat.le_refl _) k

end Individuality.Support
