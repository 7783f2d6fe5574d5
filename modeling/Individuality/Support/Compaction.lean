import Mathlib.Data.List.Basic
import Mathlib.Data.List.NodupEquivFin

/-! Compacting a list.

Removing the elements at a strictly increasing list of indices with one walk over
the list and a second cursor over the indices: what is left is exactly the
elements at the other indices, in their order. -/
namespace Individuality.Support

universe u
variable {α : Type u}

/-- The walk, `i` the index of the list's head and `js` the indices not yet met. -/
def compact : (i : Nat) → (js : List Nat) → List α → List α
  | _, _, [] => []
  | i, js, a :: as =>
    if js.head? = some i then compact (i + 1) js.tail as else a :: compact (i + 1) js as

/-- The elements at the indices that are not in `js`. -/
def without (js : List Nat) (as : List α) : List α :=
  ((as.zipIdx).filter fun e => e.2 ∉ js).map Prod.fst

theorem compact_sublist (i : Nat) (js : List Nat) (as : List α) : (compact i js as).Sublist as := by
  induction as generalizing i js with
  | nil => exact List.Sublist.slnil
  | cons a as ih =>
    unfold compact
    split
    · exact (ih _ _).cons _
    · exact (ih _ _).cons_cons _

/-- For increasing indices the walk leaves the elements at the other indices. -/
theorem compact_eq {i : Nat} {js : List Nat} {as : List α} (hjs : js.Pairwise (· < ·))
    (hi : ∀ j ∈ js, i ≤ j) :
    compact i js as = ((as.zipIdx i).filter fun e => e.2 ∉ js).map Prod.fst := by
  induction as generalizing i js with
  | nil => rfl
  | cons a as ih =>
    rw [List.zipIdx_cons]
    unfold compact
    cases js with
    | nil =>
      simp only [List.head?_nil, reduceCtorEq, if_false]
      rw [ih (by simp) (by simp)]
      simp
    | cons j js =>
      rw [List.pairwise_cons] at hjs
      have hij : i ≤ j := hi j (by simp)
      by_cases hj : j = i
      · subst hj
        have hnext : ∀ x ∈ js, j + 1 ≤ x := fun x hx => hjs.1 x hx
        simp only [List.head?_cons, if_true, List.tail_cons]
        rw [ih hjs.2 hnext, List.filter_cons_of_neg (by simp)]
        congr 1
        apply List.filter_congr
        intro e he
        have : j + 1 ≤ e.2 := by
          have := List.le_snd_of_mem_zipIdx he
          omega
        simp only [List.mem_cons, decide_eq_decide, not_or]
        exact ⟨fun h => ⟨by omega, h⟩, fun h => h.2⟩
      · have hlt : i < j := by omega
        simp only [List.head?_cons, Option.some.injEq, hj, if_false]
        have hnext : ∀ x ∈ j :: js, i + 1 ≤ x := by
          intro x hx
          rcases List.mem_cons.mp hx with rfl | hx
          · exact hlt
          · have := hjs.1 x hx
            omega
        rw [ih (List.pairwise_cons.mpr hjs) hnext, List.filter_cons_of_pos]
        · rfl
        · have : i ∉ j :: js := fun h => absurd (hnext i h) (by omega)
          simpa using this

theorem compact_zero_eq_without {js : List Nat} {as : List α} (hjs : js.Pairwise (· < ·)) :
    compact 0 js as = without js as := compact_eq hjs fun _ _ => Nat.zero_le _

/-- What is left stood at the other indices. -/
theorem mem_compact {js : List Nat} {as : List α} (hjs : js.Pairwise (· < ·)) {a : α} :
    a ∈ compact 0 js as ↔ ∃ i, as[i]? = some a ∧ i ∉ js := by
  rw [compact_zero_eq_without hjs, without, List.mem_map]
  constructor
  · rintro ⟨⟨x, i⟩, hin, rfl⟩
    obtain ⟨hzip, hi⟩ := List.mem_filter.mp hin
    exact ⟨i, List.mk_mem_zipIdx_iff_getElem?.mp hzip, by simpa using hi⟩
  · rintro ⟨i, hget, hi⟩
    exact ⟨(a, i), List.mem_filter.mpr ⟨List.mk_mem_zipIdx_iff_getElem?.mpr hget, by simpa using hi⟩,
      rfl⟩

/-- What is left has no duplicates, when none stand at the other indices. -/
theorem nodup_compact {js : List Nat} {as : List α} (hjs : js.Pairwise (· < ·))
    (h : ∀ i j a, as[i]? = some a → as[j]? = some a → i ∉ js → j ∉ js → i = j) :
    (compact 0 js as).Nodup := by
  rw [compact_zero_eq_without hjs, without]
  have hzip : as.zipIdx.Nodup := by
    apply List.Nodup.of_map Prod.snd
    rw [List.zipIdx_map_snd]
    exact List.nodup_range'
  refine List.Nodup.map_on ?_ (hzip.filter _)
  rintro ⟨a, i⟩ hi ⟨b, j⟩ hj rfl
  obtain ⟨hia, hi⟩ := List.mem_filter.mp hi
  obtain ⟨hja, hj⟩ := List.mem_filter.mp hj
  rw [h i j a (List.mk_mem_zipIdx_iff_getElem?.mp hia) (List.mk_mem_zipIdx_iff_getElem?.mp hja)
    (by simpa using hi) (by simpa using hj)]

theorem compact_nil (i : Nat) (as : List α) : compact i [] as = as := by
  induction as generalizing i with
  | nil => rfl
  | cons a as ih => simp [compact, ih]

/-- Every index inside the list takes one element. -/
theorem length_compact {i : Nat} {js : List Nat} {as : List α} (hjs : js.Pairwise (· < ·))
    (hi : ∀ j ∈ js, i ≤ j ∧ j < i + as.length) :
    (compact i js as).length + js.length = as.length := by
  induction as generalizing i js with
  | nil =>
    cases js with
    | nil => rfl
    | cons j js =>
      have := hi j (by simp)
      simp only [List.length_nil] at this
      omega
  | cons a as ih =>
    rw [List.length_cons] at hi
    unfold compact
    cases js with
    | nil =>
      have := ih (i := i + 1) List.Pairwise.nil (by simp)
      simp only [List.head?_nil, reduceCtorEq, if_false, List.tail_nil, List.length_cons] at this ⊢
      omega
    | cons j js =>
      rw [List.pairwise_cons] at hjs
      have hj := hi j (by simp)
      by_cases hhead : j = i
      · subst hhead
        have := ih (i := j + 1) hjs.2 fun x hx => by
          have := hjs.1 x hx
          have := hi x (by simp [hx])
          omega
        simp only [List.head?_cons, if_true, List.tail_cons, List.length_cons]
        omega
      · have := ih (i := i + 1) (List.pairwise_cons.mpr hjs) fun x hx => by
          have := hi x hx
          rcases List.mem_cons.mp hx with rfl | hx
          · omega
          · have := hjs.1 x hx
            omega
        simp only [List.head?_cons, Option.some.injEq, hhead, if_false, List.length_cons] at this ⊢
        omega

/-- When the indices are those of the elements in `xs`, what is left is the elements not in
`xs`. -/
theorem compact_zero_eq_filter [DecidableEq α] {js : List Nat} {as xs : List α}
    (hjs : js.Pairwise (· < ·)) (h : ∀ i a, as[i]? = some a → (i ∈ js ↔ a ∈ xs)) :
    compact 0 js as = as.filter (· ∉ xs) := by
  rw [compact_zero_eq_without hjs, without]
  have hfilter : as.zipIdx.filter (fun e => e.2 ∉ js) = as.zipIdx.filter fun e => e.1 ∉ xs := by
    apply List.filter_congr
    intro e he
    have hget := List.mk_mem_zipIdx_iff_getElem?.mp he
    simp only [h e.2 e.1 hget]
  have hmap : (as.zipIdx.filter fun e => e.1 ∉ xs).map Prod.fst =
      (as.zipIdx.map Prod.fst).filter (· ∉ xs) := by
    rw [List.filter_map]
    rfl
  rw [hfilter, hmap, List.zipIdx_map_fst]

/-- Removing one index. -/
theorem compact_singleton {i j : Nat} (h : i ≤ j) (as : List α) :
    compact i [j] as = as.eraseIdx (j - i) := by
  induction as generalizing i with
  | nil => rfl
  | cons a as ih =>
    unfold compact
    by_cases hj : j = i
    · subst hj
      simp [compact_nil]
    · have hsub : j - i = j - (i + 1) + 1 := by omega
      simp only [List.head?_cons, Option.some.injEq, hj, if_false]
      rw [ih (by omega), hsub, List.eraseIdx_cons_succ]

end Individuality.Support
