import Mathlib.Data.List.Basic
import Mathlib.Data.List.Nodup
import Mathlib.Data.List.Range
import Mathlib.Logic.Function.Basic

/-! Lists kept in pages.

A long list is stored as pages of at most `size` elements, the pages numbered
from zero and almost all of them empty. `concat pages n` is the list the first
`n` pages hold. Two disciplines matter: `Covers` (the first `total` slots are
filled, whatever follows) is enough to read a prefix across page boundaries, and
`Packed` (nothing else is stored) makes the total length of the pages `total`. -/
namespace Individuality.Support.Paging

universe u
variable {α : Type u}

/-- The elements of the first `n` pages, in page order. -/
def concat (pages : Nat → List α) (n : Nat) : List α := (List.range n).flatMap pages

@[simp] theorem concat_zero (pages : Nat → List α) : concat pages 0 = [] := rfl

theorem concat_succ (pages : Nat → List α) (n : Nat) :
    concat pages (n + 1) = concat pages n ++ pages n := by
  simp [concat, List.range_succ]

theorem concat_congr {pages pages' : Nat → List α} {n : Nat} (h : ∀ p < n, pages p = pages' p) :
    concat pages n = concat pages' n := by
  induction n with
  | zero => rfl
  | succ n ih =>
    rw [concat_succ, concat_succ, ih fun p hp => h p (Nat.lt_succ_of_lt hp), h n n.lt_succ_self]

theorem mem_concat {pages : Nat → List α} {n : Nat} {a : α} :
    a ∈ concat pages n ↔ ∃ p < n, a ∈ pages p := by
  simp [concat]

theorem concat_prefix (pages : Nat → List α) {m n : Nat} (h : m ≤ n) :
    concat pages m <+: concat pages n := by
  induction n with
  | zero =>
    obtain rfl : m = 0 := by omega
    exact List.prefix_refl _
  | succ n ih =>
    rcases Nat.lt_or_ge m (n + 1) with hm | hm
    · rw [concat_succ]
      exact (ih (by omega)).trans (List.prefix_append _ _)
    · obtain rfl : m = n + 1 := by omega
      exact List.prefix_refl _

/-- Pages past the last one with elements add nothing. -/
theorem concat_of_empty {pages : Nat → List α} {m n : Nat} (h : m ≤ n)
    (he : ∀ p, m ≤ p → pages p = []) : concat pages n = concat pages m := by
  induction n with
  | zero =>
    obtain rfl : m = 0 := by omega
    rfl
  | succ n ih =>
    rcases Nat.lt_or_ge m (n + 1) with hm | hm
    · rw [concat_succ, ih (by omega), he n (by omega), List.append_nil]
    · obtain rfl : m = n + 1 := by omega
      rfl

/-- Reading within the first pages does not see the later ones. -/
theorem take_concat {pages : Nat → List α} {k m n : Nat} (h : m ≤ n)
    (hk : k ≤ (concat pages m).length) : (concat pages n).take k = (concat pages m).take k := by
  obtain ⟨rest, hrest⟩ := concat_prefix pages h
  rw [← hrest, List.take_append_of_le_length hk]

/-- Slots that tell their elements apart hold no duplicates. -/
theorem nodup_concat {pages : Nat → List α} {n : Nat}
    (h : ∀ (p i p' i' : Nat) (a : α), (pages p)[i]? = some a → (pages p')[i']? = some a →
      p = p' ∧ i = i') : (concat pages n).Nodup := by
  induction n with
  | zero => exact List.nodup_nil
  | succ n ih =>
    rw [concat_succ, List.nodup_append]
    refine ⟨ih, List.nodup_iff_getElem?_ne_getElem?.mpr fun i j hij hj heq => ?_, ?_⟩
    · rw [List.getElem?_eq_getElem hj] at heq
      exact absurd (h n i n j _ heq (List.getElem?_eq_getElem hj)).2 (Nat.ne_of_lt hij)
    · rintro a ha b hb rfl
      obtain ⟨p, hp, hmem⟩ := mem_concat.mp ha
      obtain ⟨i, hi⟩ := List.getElem?_of_mem hmem
      obtain ⟨j, hj⟩ := List.getElem?_of_mem hb
      exact absurd (h p i n j a hi hj).1 (Nat.ne_of_lt hp)

/-- In a list without repetitions an element has one slot. -/
theorem eq_of_nodup_concat {pages : Nat → List α} {n p q i j : Nat} {a : α}
    (h : (concat pages n).Nodup) (hp : p < n) (hq : q < n) (hi : (pages p)[i]? = some a)
    (hj : (pages q)[j]? = some a) : p = q ∧ i = j := by
  have hflat := List.nodup_flatMap.mp h
  have hpages := hflat.2
  rw [List.pairwise_iff_getElem] at hpages
  have hdisjoint : ∀ {p q : Nat}, p < q → q < n → a ∈ pages p → a ∈ pages q → False := by
    intro p q hlt hq hap haq
    have := hpages p q (by simpa using hlt.trans hq) (by simpa using hq) hlt
    simp only [List.getElem_range] at this
    exact this hap haq
  have hip := List.mem_of_getElem? hi
  have hjq := List.mem_of_getElem? hj
  rcases Nat.lt_trichotomy p q with hlt | rfl | hlt
  · exact (hdisjoint hlt hq hip hjq).elim
  · refine ⟨rfl, ?_⟩
    have hnodup := hflat.1 p (by simpa using hp)
    exact (List.getElem?_inj (List.getElem?_eq_some_iff.mp hi).1 hnodup).mp (hi.trans hj.symm)
  · exact (hdisjoint hlt hp hjq hip).elim

/-! ### Pages of one size -/

section Sized
variable (size total : Nat) (pages : Nat → List α)

/-- The first `total` slots are filled. -/
def Covers : Prop := ∀ p, min size (total - p * size) ≤ (pages p).length

/-- Exactly the first `total` slots are filled. -/
def Packed : Prop := ∀ p, (pages p).length = min size (total - p * size)

variable {size total pages}

theorem Packed.covers (h : Packed size total pages) : Covers size total pages :=
  fun p => (h p).ge

theorem Covers.mono {total' : Nat} (h : Covers size total pages) (hle : total' ≤ total) :
    Covers size total' pages := by
  intro p
  refine le_trans ?_ (h p)
  omega

/-- Pages below the one a prefix ends in are full. -/
theorem Covers.full {k p : Nat} (h : Covers size total pages) (hk : k ≤ total)
    (hp : p < k / size) : size ≤ (pages p).length := by
  have hle := h p
  have hsize : 0 < size := Nat.pos_of_ne_zero fun h0 => by simp [h0] at hp
  have hmul : (p + 1) * size ≤ k := by
    calc (p + 1) * size ≤ k / size * size := Nat.mul_le_mul_right _ hp
      _ ≤ k := Nat.div_mul_le_self k size
  rw [Nat.add_mul, Nat.one_mul] at hmul
  omega

theorem length_concat_of_full {n : Nat} (h : ∀ p < n, (pages p).length = size) :
    (concat pages n).length = n * size := by
  induction n with
  | zero => simp
  | succ n ih =>
    rw [concat_succ, List.length_append, ih fun p hp => h p (by omega), h n (by omega),
      Nat.add_mul, Nat.one_mul]

/-- A prefix that ends inside a page: the pages below it, and the rest of the prefix from
that page. -/
theorem Covers.take_concat_eq {k n : Nat} (h : Covers size total pages)
    (hcap : ∀ p, (pages p).length ≤ size) (hk : k ≤ total) (hsize : 0 < size) (hn : k / size < n) :
    (concat pages n).take k = concat pages (k / size) ++ (pages (k / size)).take (k % size) := by
  have hfull : ∀ p < k / size, (pages p).length = size :=
    fun p hp => le_antisymm (hcap p) (h.full hk hp)
  have hlen := length_concat_of_full hfull
  have hk' := Nat.div_add_mod' k size
  have hmod := Nat.mod_lt k hsize
  have hpage := h (k / size)
  have hin : k ≤ (concat pages (k / size + 1)).length := by
    rw [concat_succ, List.length_append, hlen]
    omega
  rw [take_concat (by omega) hin, concat_succ, List.take_append, hlen]
  rw [List.take_of_length_le (by omega)]
  congr 2
  omega

/-- Resuming a prefix inside a page: the next elements of that page are the next elements of
the list. -/
theorem Covers.take_add {k m n : Nat} (h : Covers size total pages)
    (hcap : ∀ p, (pages p).length ≤ size) (hk : k + m ≤ total) (hsize : 0 < size)
    (hm : m ≤ size - k % size) (hn : k / size < n) :
    (concat pages n).take (k + m) =
      (concat pages n).take k ++ ((pages (k / size)).drop (k % size)).take m := by
  have hk' := Nat.div_add_mod' k size
  have hmod := Nat.mod_lt k hsize
  have hpage := h (k / size)
  have hfull : ∀ p < k / size, (pages p).length = size :=
    fun p hp => le_antisymm (hcap p) (h.full (by omega) hp)
  have hlen := length_concat_of_full hfull
  have hin : k + m ≤ (concat pages (k / size + 1)).length := by
    rw [concat_succ, List.length_append, hlen]
    omega
  rw [take_concat (by omega) hin, h.take_concat_eq hcap (by omega) hsize hn, concat_succ,
    List.take_append, hlen, List.take_of_length_le (by omega), List.append_assoc,
    show k + m - k / size * size = k % size + m by omega]
  rw [List.take_add]

theorem Packed.length_concat_eq_min {n : Nat} (h : Packed size total pages) :
    (concat pages n).length = min (n * size) total := by
  induction n with
  | zero => simp
  | succ n ih =>
    rw [concat_succ, List.length_append, ih, h n, Nat.add_mul, Nat.one_mul]
    omega

/-- Packed pages hold `total` elements altogether. -/
theorem Packed.length_concat {n : Nat} (h : Packed size total pages) (hn : total ≤ n * size) :
    (concat pages n).length = total := by
  rw [Packed.length_concat_eq_min h]
  exact Nat.min_eq_right hn

/-- Packed pages past the total are empty. -/
theorem Packed.eq_nil {p : Nat} (h : Packed size total pages) (hp : total ≤ p * size) :
    pages p = [] := by
  have := h p
  rw [← List.length_eq_zero_iff]
  omega

theorem packed_zero (h : ∀ p, pages p = []) : Packed size 0 pages := by
  intro p
  simp [h p]

end Sized
/-! ### Appending at a cursor -/

/-- Pages with the number of the page that takes the next element. -/
structure Cursor (α : Type u) where
  pages : Nat → List α
  at_ : Nat

namespace Cursor

/-- Append one element and move to the next page when this one is full. -/
def push (size : Nat) (c : Cursor α) (a : α) : Cursor α :=
  let pages := Function.update c.pages c.at_ (c.pages c.at_ ++ [a])
  ⟨pages, if size ≤ (pages c.at_).length then c.at_ + 1 else c.at_⟩

variable {size total : Nat} {c : Cursor α} {a : α}

/-- The pages below the cursor are full, and `total` slots are filled. -/
structure Fills (size total : Nat) (c : Cursor α) : Prop where
  full : ∀ p < c.at_, (c.pages p).length = size
  total_le : total ≤ c.at_ * size + (c.pages c.at_).length
  le_size : ∀ p, (c.pages p).length ≤ size

/-- The same, with nothing else stored. -/
structure Packs (size total : Nat) (c : Cursor α) : Prop where
  full : ∀ p < c.at_, (c.pages p).length = size
  total_eq : total = c.at_ * size + (c.pages c.at_).length
  empty : ∀ p, c.at_ < p → c.pages p = []
  lt_size : (c.pages c.at_).length < size

theorem pages_push_self (size : Nat) (c : Cursor α) (a : α) :
    (c.push size a).pages c.at_ = c.pages c.at_ ++ [a] := Function.update_self _ _ _

theorem pages_push_of_ne {p : Nat} (h : p ≠ c.at_) : (c.push size a).pages p = c.pages p :=
  Function.update_of_ne h _ _

theorem le_at_push (size : Nat) (c : Cursor α) (a : α) : c.at_ ≤ (c.push size a).at_ := by
  simp only [push]
  split
  · exact Nat.le_succ _
  · exact le_rfl

/-- A push moves the cursor by one page at most. -/
theorem at_push_le (size : Nat) (c : Cursor α) (a : α) : (c.push size a).at_ ≤ c.at_ + 1 := by
  simp only [push]
  split
  · exact le_rfl
  · exact Nat.le_succ _

theorem Fills.covers (h : Fills size total c) : Covers size total c.pages := by
  intro p
  rcases Nat.lt_trichotomy p c.at_ with hp | rfl | hp
  · rw [h.full p hp]
    exact Nat.min_le_left _ _
  · have := h.total_le
    omega
  · have hmul : (c.at_ + 1) * size ≤ p * size := Nat.mul_le_mul_right size hp
    have := h.total_le
    have := h.le_size c.at_
    rw [Nat.add_mul, Nat.one_mul] at hmul
    omega

/-- Covered pages are filled up to the page their total ends in. -/
theorem fills_of_covers {pages : Nat → List α} (h : Covers size total pages)
    (hcap : ∀ p, (pages p).length ≤ size) (hsize : 0 < size) :
    Fills size total ⟨pages, total / size⟩ where
  full p hp := le_antisymm (hcap p) (h.full le_rfl hp)
  total_le := by
    have hdiv := Nat.div_add_mod' total size
    have hmod := Nat.mod_lt total hsize
    have hpage := h (total / size)
    show total ≤ total / size * size + (pages (total / size)).length
    omega
  le_size := hcap

theorem Fills.push (h : Fills size total c) (hroom : (c.pages c.at_).length < size) :
    Fills size (total + 1) (c.push size a) := by
  have hself := pages_push_self size c a
  have hlen : ((c.push size a).pages c.at_).length = (c.pages c.at_).length + 1 := by
    rw [hself, List.length_append, List.length_singleton]
  have hle : ∀ p, ((c.push size a).pages p).length ≤ size := by
    intro p
    by_cases hp : p = c.at_
    · rw [hp, hlen]
      exact hroom
    · rw [pages_push_of_ne hp]
      exact h.le_size p
  have htotal := h.total_le
  by_cases hfull : size ≤ ((c.push size a).pages c.at_).length
  · -- The page is full now: the cursor stands on the next one.
    have hat : (c.push size a).at_ = c.at_ + 1 := if_pos hfull
    refine ⟨fun p hp => ?_, ?_, hle⟩
    · rw [hat] at hp
      by_cases hpe : p = c.at_
      · rw [hpe]
        exact le_antisymm (hle c.at_) hfull
      · rw [pages_push_of_ne hpe]
        exact h.full p (by omega)
    · rw [hat, Nat.add_mul, Nat.one_mul]
      omega
  · have hat : (c.push size a).at_ = c.at_ := if_neg hfull
    refine ⟨fun p hp => ?_, ?_, hle⟩
    · rw [hat] at hp
      rw [pages_push_of_ne (by omega)]
      exact h.full p hp
    · rw [hat, hlen]
      omega

theorem packs_of_packed {pages : Nat → List α} (h : Packed size total pages) (hsize : 0 < size) :
    Packs size total ⟨pages, total / size⟩ := by
  have hdiv := Nat.div_add_mod' total size
  have hmod := Nat.mod_lt total hsize
  have hpage := h (total / size)
  refine ⟨fun p hp => ?_, ?_, fun p hp => ?_, ?_⟩
  · have hfull := h.covers.full le_rfl hp
    have hlen := h p
    show (pages p).length = size
    omega
  · show total = total / size * size + (pages (total / size)).length
    omega
  · have hmul : (total / size + 1) * size ≤ p * size := Nat.mul_le_mul_right size hp
    rw [Nat.add_mul, Nat.one_mul] at hmul
    exact h.eq_nil (by omega)
  · show (pages (total / size)).length < size
    omega

theorem Packs.packed (h : Packs size total c) : Packed size total c.pages := by
  intro p
  have htotal := h.total_eq
  have hlt := h.lt_size
  rcases Nat.lt_trichotomy p c.at_ with hp | rfl | hp
  · have hmul : (p + 1) * size ≤ c.at_ * size := Nat.mul_le_mul_right size hp
    rw [Nat.add_mul, Nat.one_mul] at hmul
    rw [h.full p hp]
    omega
  · omega
  · have hmul : (c.at_ + 1) * size ≤ p * size := Nat.mul_le_mul_right size hp
    rw [Nat.add_mul, Nat.one_mul] at hmul
    rw [h.empty p hp, List.length_nil]
    omega

theorem Packs.push (h : Packs size total c) (hsize : 0 < size) :
    Packs size (total + 1) (c.push size a) := by
  have hself := pages_push_self size c a
  have hlen : ((c.push size a).pages c.at_).length = (c.pages c.at_).length + 1 := by
    rw [hself, List.length_append, List.length_singleton]
  have htotal := h.total_eq
  have hlt := h.lt_size
  by_cases hfull : size ≤ ((c.push size a).pages c.at_).length
  · have hat : (c.push size a).at_ = c.at_ + 1 := if_pos hfull
    have hnext : (c.push size a).pages (c.at_ + 1) = [] := by
      rw [pages_push_of_ne (by omega)]
      exact h.empty _ (by omega)
    refine ⟨fun p hp => ?_, ?_, fun p hp => ?_, ?_⟩
    · rw [hat] at hp
      by_cases hpe : p = c.at_
      · rw [hpe]
        omega
      · rw [pages_push_of_ne hpe]
        exact h.full p (by omega)
    · rw [hat, hnext, Nat.add_mul, Nat.one_mul, List.length_nil]
      omega
    · rw [hat] at hp
      rw [pages_push_of_ne (by omega)]
      exact h.empty p (by omega)
    · rw [hat, hnext, List.length_nil]
      exact hsize
  · have hat : (c.push size a).at_ = c.at_ := if_neg hfull
    refine ⟨fun p hp => ?_, ?_, fun p hp => ?_, ?_⟩
    · rw [hat] at hp
      rw [pages_push_of_ne (by omega)]
      exact h.full p hp
    · rw [hat, hlen]
      omega
    · rw [hat] at hp
      rw [pages_push_of_ne (by omega)]
      exact h.empty p hp
    · rw [hat]
      omega

/-- Behind packed pages a push appends to the list they hold. -/
theorem Packs.concat_push {n : Nat} (h : Packs size total c) (hn : c.at_ < n) :
    concat (c.push size a).pages n = concat c.pages n ++ [a] := by
  have hself := pages_push_self size c a
  have hbelow : concat (c.push size a).pages c.at_ = concat c.pages c.at_ :=
    concat_congr fun p hp => pages_push_of_ne (by omega)
  rw [concat_of_empty hn fun p hp => h.empty p hp, concat_of_empty hn fun p hp => by
    rw [pages_push_of_ne (by omega), h.empty p hp], concat_succ, concat_succ, hbelow, hself,
    List.append_assoc]

/-- A push keeps everything before the slot it fills. -/
theorem Fills.take_push {k n : Nat} (h : Fills size total c) (hk : k ≤ total) :
    (concat (c.push size a).pages n).take k = (concat c.pages n).take k := by
  rcases Nat.lt_or_ge c.at_ n with hn | hn
  · have hbelow : concat (c.push size a).pages c.at_ = concat c.pages c.at_ :=
      concat_congr fun p hp => pages_push_of_ne (by omega)
    have hlen := length_concat_of_full h.full
    have hin : k ≤ (concat c.pages (c.at_ + 1)).length := by
      rw [concat_succ, List.length_append, hlen]
      exact hk.trans h.total_le
    have hext : concat (c.push size a).pages (c.at_ + 1) = concat c.pages (c.at_ + 1) ++ [a] := by
      rw [concat_succ, concat_succ, hbelow, pages_push_self, List.append_assoc]
    rw [take_concat hn hin, take_concat hn (by rw [hext, List.length_append]; omega), hext,
      List.take_append_of_le_length hin]
  · rw [concat_congr fun p hp => pages_push_of_ne (by omega)]

theorem prefix_push (size : Nat) (c : Cursor α) (a : α) (p : Nat) :
    c.pages p <+: (c.push size a).pages p := by
  by_cases hp : p = c.at_
  · rw [hp, pages_push_self]
    exact List.prefix_append _ _
  · exact (pages_push_of_ne hp).symm ▸ List.prefix_refl _

/-- What is stored stays in its slot. -/
theorem getElem?_push {x : α} {p i : Nat} (h : (c.pages p)[i]? = some x) :
    ((c.push size a).pages p)[i]? = some x := by
  obtain ⟨rest, hrest⟩ := prefix_push size c a p
  rw [← hrest, List.getElem?_append_left (List.getElem?_eq_some_iff.mp h).1, h]

end Cursor
end Individuality.Support.Paging
