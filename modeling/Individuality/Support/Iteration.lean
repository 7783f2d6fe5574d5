import Individuality.Support.StorageMap
import Mathlib.Data.List.Sort
import Mathlib.Logic.Function.Iterate

/-! Walking a map in the order of its keys, across calls.

A map's keys stand in the order of their ranks. A walk remembers the last key it
handled; what comes next is the least key above that one, whatever was written
or removed in between (`nextKey`), so a walk can stop after any element and
resume later. `passed` is the set of keys a walk is through with: a turn adds
exactly the key it handles (`passed_of_next`), and a walk that finds nothing has
passed every key of the map (`passed_of_none`). `keysAfter` is what is left to a walk,
and a system that handles the next key in each step handles just these (`iterate_walk`).
`clearFrom` removes keys in the same order, a bounded number at a time. -/
namespace Individuality.Support

universe u v

/-- Whether a walk that last handled `last` is through with `k`. -/
def passed {κ : Type u} (rank : κ → Nat) (last : Option κ) (k : κ) : Bool :=
  last.any fun l => rank k ≤ rank l

namespace StorageMap
variable {κ : Type u} {ν : Type v} [DecidableEq κ] (rank : κ → Nat)

/-- The keys in the order of their ranks. -/
def keysInOrder (m : StorageMap κ ν) : List κ := m.keys.insertionSort fun a b => rank a ≤ rank b

/-- The first key that a walk is not through with. -/
def nextKey (m : StorageMap κ ν) (last : Option κ) : Option κ :=
  (m.keysInOrder rank).find? fun k => !passed rank last k

/-- The first entry that a walk is not through with. -/
def nextEntry (m : StorageMap κ ν) (last : Option κ) : Option (κ × ν) :=
  (m.nextKey rank last).bind fun k => (m.get k).map fun v => (k, v)

/-- Remove at most `limit` entries from `cursor` on; what is left starts at the new cursor. -/
def clearFrom (m : StorageMap κ ν) (limit : Nat) (cursor : Option κ) :
    StorageMap κ ν × Option κ :=
  let keys := (m.keysInOrder rank).filter fun k => cursor.all fun c => rank c ≤ rank k
  (m.removeAll (keys.take limit), keys[limit]?)

variable {rank} {m : StorageMap κ ν} {last : Option κ} {k : κ}

theorem mem_keysInOrder : k ∈ m.keysInOrder rank ↔ (m.get k).isSome = true := by
  rw [keysInOrder, List.mem_insertionSort, mem_keys]

omit [DecidableEq κ] in
theorem pairwise_keysInOrder (m : StorageMap κ ν) :
    (m.keysInOrder rank).Pairwise fun a b => rank a ≤ rank b := by
  have : Std.Total fun a b : κ => rank a ≤ rank b := ⟨fun a b => Nat.le_total _ _⟩
  have : IsTrans κ fun a b => rank a ≤ rank b := ⟨fun a b c => Nat.le_trans⟩
  exact List.pairwise_insertionSort (fun a b => rank a ≤ rank b) m.keys

/-! ### What comes next -/

theorem nextKey_mem (h : m.nextKey rank last = some k) :
    (m.get k).isSome = true ∧ passed rank last k = false := by
  refine ⟨mem_keysInOrder.mp (List.mem_of_find?_eq_some h), ?_⟩
  simpa using List.find?_some h

/-- The next key is the least one that the walk is not through with. -/
theorem nextKey_le (h : m.nextKey rank last = some k) {k' : κ} (hk' : (m.get k').isSome = true)
    (hlast : passed rank last k' = false) : rank k ≤ rank k' := by
  obtain ⟨-, before, after, hkeys, hbefore⟩ := List.find?_eq_some_iff_append.mp h
  have hmem : k' ∈ before ++ k :: after := hkeys ▸ mem_keysInOrder.mpr hk'
  have hsorted : (before ++ k :: after).Pairwise fun a b => rank a ≤ rank b :=
    hkeys ▸ pairwise_keysInOrder m
  rcases List.mem_append.mp hmem with hb | ha
  · have := hbefore k' hb
    rw [hlast] at this
    cases this
  · rcases List.mem_cons.mp ha with rfl | ha
    · exact Nat.le_refl _
    · exact List.rel_of_pairwise_cons (List.pairwise_append.mp hsorted).2.1 ha

theorem nextKey_eq_none : m.nextKey rank last = none ↔
    ∀ k, (m.get k).isSome = true → passed rank last k = true := by
  rw [nextKey, List.find?_eq_none]
  simp only [mem_keysInOrder, Bool.not_eq_true', Bool.not_eq_false]

theorem nextEntry_eq_some {v : ν} : m.nextEntry rank last = some (k, v) ↔
    m.nextKey rank last = some k ∧ m.get k = some v := by
  rw [nextEntry, Option.bind_eq_some_iff]
  constructor
  · rintro ⟨k', hk', hv⟩
    obtain ⟨v', hv', heq⟩ := Option.map_eq_some_iff.mp hv
    cases heq
    exact ⟨hk', hv'⟩
  · rintro ⟨hk, hv⟩
    exact ⟨k, hk, by rw [hv]; rfl⟩

theorem nextEntry_eq_none : m.nextEntry rank last = none ↔ m.nextKey rank last = none := by
  constructor
  · intro h
    cases hk : m.nextKey rank last with
    | none => rfl
    | some k =>
      obtain ⟨v, hv⟩ := Option.isSome_iff_exists.mp (nextKey_mem hk).1
      rw [nextEntry_eq_some.mpr ⟨hk, hv⟩] at h
      cases h
  · intro h
    rw [nextEntry, h]
    rfl

omit [DecidableEq κ] in
@[simp] theorem passed_none (k : κ) : passed rank none k = false := rfl

omit [DecidableEq κ] in
@[simp] theorem passed_some (l : κ) : passed rank (some l) k = decide (rank k ≤ rank l) := rfl

/-- A turn passes the key it handles and no other key of the map. -/
theorem passed_of_next (hrank : Function.Injective rank) (h : m.nextKey rank last = some k)
    {k' : κ} (hk' : (m.get k').isSome = true) :
    passed rank (some k) k' = true ↔ passed rank last k' = true ∨ k' = k := by
  obtain ⟨-, hlast⟩ := nextKey_mem h
  rw [passed_some, decide_eq_true_iff]
  constructor
  · intro hle
    cases hp : passed rank last k' with
    | true => exact .inl rfl
    | false => exact .inr (hrank (Nat.le_antisymm hle (nextKey_le h hk' hp)))
  · rintro (hp | rfl)
    · cases last with
      | none => cases hp
      | some l =>
        rw [passed_some, decide_eq_true_iff] at hp
        rw [passed_some, decide_eq_false_iff_not, Nat.not_le] at hlast
        exact (hp.trans_lt hlast).le
    · exact Nat.le_refl _

/-- What was passed stays passed. -/
theorem passed_mono (h : m.nextKey rank last = some k) {k' : κ} (hp : passed rank last k' = true) :
    passed rank (some k) k' = true := by
  obtain ⟨-, hlast⟩ := nextKey_mem h
  cases last with
  | none => cases hp
  | some l =>
    rw [passed_some, decide_eq_true_iff] at hp ⊢
    rw [passed_some, decide_eq_false_iff_not, Nat.not_le] at hlast
    exact (hp.trans_lt hlast).le

/-! ### What is left -/

variable (rank) in
/-- The keys that a walk is not through with, in order. -/
def keysAfter (m : StorageMap κ ν) (last : Option κ) : List κ :=
  (m.keysInOrder rank).filter fun k => !passed rank last k

theorem mem_keysAfter : k ∈ m.keysAfter rank last ↔ (m.get k).isSome = true ∧ passed rank last k = false := by
  rw [keysAfter, List.mem_filter, mem_keysInOrder, Bool.not_eq_true']

omit [DecidableEq κ] in
variable (rank) in
theorem nodup_keysAfter (m : StorageMap κ ν) (last : Option κ) : (m.keysAfter rank last).Nodup :=
  (List.Perm.nodup_iff (List.perm_insertionSort _ _)).mpr m.nodup_keys |>.filter _

omit [DecidableEq κ] in
theorem nextKey_eq_head (m : StorageMap κ ν) (last : Option κ) :
    m.nextKey rank last = (m.keysAfter rank last).head? :=
  (List.head?_filter ..).symm

/-- A turn takes the first of the keys that are left, whether it is then still in the map or not. -/
theorem keysAfter_of_next (hrank : Function.Injective rank) {m' : StorageMap κ ν}
    (h : m.nextKey rank last = some k) (hkeys : ∀ k', k' ≠ k → (m'.get k').isSome = (m.get k').isSome) :
    m.keysAfter rank last = k :: m'.keysAfter rank (some k) := by
  obtain ⟨hmem, hlast⟩ := nextKey_mem h
  have hafter : ∀ k', k' ∈ m'.keysAfter rank (some k) ↔ k' ∈ m.keysAfter rank last ∧ k' ≠ k := by
    intro k'
    rw [mem_keysAfter, mem_keysAfter]
    by_cases hk : k' = k
    · subst hk
      simp
    · rw [hkeys k' hk]
      constructor
      · rintro ⟨hsome, hnot⟩
        refine ⟨⟨hsome, ?_⟩, hk⟩
        cases hp : passed rank last k' with
        | false => rfl
        | true =>
          rw [passed_mono h hp] at hnot
          cases hnot
      · rintro ⟨⟨hsome, hnot⟩, -⟩
        refine ⟨hsome, ?_⟩
        cases hp : passed rank (some k) k' with
        | false => rfl
        | true =>
          rcases (passed_of_next hrank h hsome).mp hp with hpassed | heq
          · rw [hpassed] at hnot
            cases hnot
          · exact absurd heq hk
  have hnotin : k ∉ m'.keysAfter rank (some k) := fun hk => ((hafter k).mp hk).2 rfl
  refine List.Perm.eq_of_pairwise
    (fun a b _ _ hab hba => hrank (Nat.le_antisymm hab hba))
    ((pairwise_keysInOrder m).filter _) ?_ ?_
  · refine List.pairwise_cons.mpr ⟨fun k' hk' => ?_, (pairwise_keysInOrder m').filter _⟩
    obtain ⟨hk, -⟩ := (hafter k').mp hk'
    obtain ⟨hsome, hnot⟩ := mem_keysAfter.mp hk
    exact nextKey_le h hsome hnot
  · refine (List.perm_ext_iff_of_nodup (m.nodup_keysAfter rank last)
      (List.nodup_cons.mpr ⟨hnotin, m'.nodup_keysAfter rank _⟩)).mpr fun k' => ?_
    rw [List.mem_cons, hafter]
    by_cases hk : k' = k
    · subst hk
      exact ⟨fun _ => .inl rfl, fun _ => mem_keysAfter.mpr ⟨hmem, hlast⟩⟩
    · exact ⟨fun hin => .inr ⟨hin, hk⟩, fun hor => (hor.resolve_left hk).1⟩

/-- A system that handles the next key in each step, and is done when there is none, handles the keys
that are left one after the other, each of them once. -/
theorem iterate_walk {σ τ : Type*} (hrank : Function.Injective rank) (map : σ → StorageMap κ ν) {step : τ → τ}
    {walk : σ → Option κ → τ} {done : σ → τ} {handle : σ → κ → σ}
    (hstep : ∀ s last k, (map s).nextKey rank last = some k → step (walk s last) = walk (handle s k) (some k))
    (hdone : ∀ s last, (map s).nextKey rank last = none → step (walk s last) = done s)
    (hkeys : ∀ s k k', ((map (handle s k)).get k').isSome = ((map s).get k').isSome) (s : σ) (last : Option κ) :
    step^[((map s).keysAfter rank last).length + 1] (walk s last) =
      done (((map s).keysAfter rank last).foldl handle s) := by
  generalize hleft : (map s).keysAfter rank last = left
  induction left generalizing s last with
  | nil => exact hdone s last (by rw [nextKey_eq_head, hleft]; rfl)
  | cons k left ih =>
    have hnext : (map s).nextKey rank last = some k := by rw [nextKey_eq_head, hleft]; rfl
    have hrest := keysAfter_of_next hrank hnext fun k' _ => hkeys s k k'
    rw [hleft, List.cons.injEq] at hrest
    rw [List.length_cons, Function.iterate_succ_apply, hstep s last k hnext]
    exact ih (handle s k) (some k) hrest.2.symm

/-! ### Clearing in order -/

/-- Nothing is stored before the cursor of a clearing, and nothing at all once it is done. -/
theorem clearFrom_spec (limit : Nat) {cursor : Option κ}
    (h : ∀ k, (m.get k).isSome = true → ∀ c ∈ cursor, rank c ≤ rank k) :
    (∀ k, ((m.clearFrom rank limit cursor).1.get k).isSome = true →
      (m.get k).isSome = true ∧ ∃ c, (m.clearFrom rank limit cursor).2 = some c ∧ rank c ≤ rank k) := by
  have hkeys : (m.keysInOrder rank).filter
      (fun k => cursor.all fun c => decide (rank c ≤ rank k)) = m.keysInOrder rank := by
    refine List.filter_eq_self.mpr fun k hk => ?_
    have := h k (mem_keysInOrder.mp hk)
    cases cursor with
    | none => rfl
    | some c => exact decide_eq_true (this c rfl)
  intro k hk
  simp only [clearFrom, hkeys, get_removeAll] at hk ⊢
  split at hk
  · cases hk
  · rename_i hnot
    have hmem : k ∈ m.keysInOrder rank := mem_keysInOrder.mpr hk
    rw [← List.take_append_drop limit (m.keysInOrder rank)] at hmem
    have hdrop := (List.mem_append.mp hmem).resolve_left hnot
    have hsorted := (@pairwise_keysInOrder κ ν rank m).sublist (List.drop_sublist limit _)
    refine ⟨hk, ?_⟩
    cases hd : (m.keysInOrder rank).drop limit with
    | nil => rw [hd] at hdrop; cases hdrop
    | cons c rest =>
      rw [hd] at hdrop hsorted
      refine ⟨c, ?_, ?_⟩
      · rw [← List.head?_drop, hd]
        rfl
      · rcases List.mem_cons.mp hdrop with rfl | hr
        · exact Nat.le_refl _
        · exact List.rel_of_pairwise_cons hsorted hr

end StorageMap
end Individuality.Support
