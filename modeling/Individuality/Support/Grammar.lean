import Mathlib.Computability.Language

/-! Languages over classes of symbols.

A word is in the repetition of a class when all its symbols are in the class
(`mem_kstar_ofClass`), and a word with a separator that none of its parts contains falls
apart in one way only (`append_cons_inj`). -/
namespace Individuality.Support.Grammar

universe u
variable {α : Type u}

/-- The words of one symbol of the class. -/
def ofClass (p : α → Bool) : Language α := {w | ∃ a, p a = true ∧ w = [a]}

/-- `n` symbols of the class at least. -/
def atLeast (n : Nat) (p : α → Bool) : Language α := ofClass p ^ n * KStar.kstar (ofClass p)

/-- Symbols of the inner class between two of the outer one, or just one of the outer. -/
def bracketed (outer inner : α → Bool) : Language α :=
  ofClass outer * (1 + KStar.kstar (ofClass inner) * ofClass outer)

variable {p q outer inner : α → Bool} {w stem stem' rest rest' : List α} {n : Nat} {a : α}

theorem mem_kstar_ofClass : w ∈ KStar.kstar (ofClass p) ↔ ∀ a ∈ w, p a = true := by
  rw [Language.mem_kstar]
  constructor
  · rintro ⟨words, rfl, hwords⟩ a ha
    obtain ⟨word, hword, ha⟩ := List.mem_flatten.mp ha
    obtain ⟨b, hb, rfl⟩ := hwords word hword
    rwa [List.mem_singleton.mp ha]
  · intro h
    refine ⟨w.map fun a => [a], ?_, ?_⟩
    · induction w with
      | nil => rfl
      | cons a w ih =>
        rw [List.map_cons, List.flatten_cons, ← ih fun b hb => h b (List.mem_cons_of_mem a hb)]
        rfl
    · intro word hword
      obtain ⟨a, ha, rfl⟩ := List.mem_map.mp hword
      exact ⟨a, h a ha, rfl⟩

theorem mem_pow_ofClass : w ∈ ofClass p ^ n ↔ w.length = n ∧ ∀ a ∈ w, p a = true := by
  induction n generalizing w with
  | zero =>
    rw [pow_zero, Language.mem_one]
    constructor
    · rintro rfl
      exact ⟨rfl, nofun⟩
    · exact fun h => List.length_eq_zero_iff.mp h.1
  | succ n ih =>
    rw [pow_succ', Language.mem_mul]
    constructor
    · rintro ⟨_, ⟨a, ha, rfl⟩, tail, htail, rfl⟩
      obtain ⟨hlength, hall⟩ := ih.mp htail
      refine ⟨by rw [List.singleton_append, List.length_cons, hlength], fun b hb => ?_⟩
      rcases List.mem_cons.mp hb with rfl | hb
      · exact ha
      · exact hall b hb
    · rintro ⟨hlength, hall⟩
      cases w with
      | nil => cases hlength
      | cons a tail =>
        have htail : tail ∈ ofClass p ^ n :=
          ih.mpr ⟨Nat.succ.inj hlength, fun b hb => hall b (List.mem_cons_of_mem a hb)⟩
        exact ⟨[a], ⟨a, hall a List.mem_cons_self, rfl⟩, tail, htail, rfl⟩

theorem mem_atLeast : w ∈ atLeast n p ↔ n ≤ w.length ∧ ∀ a ∈ w, p a = true := by
  rw [atLeast, Language.mem_mul]
  constructor
  · rintro ⟨first, hfirst, others, hothers, rfl⟩
    obtain ⟨hlength, hfirst⟩ := mem_pow_ofClass.mp hfirst
    refine ⟨by rw [List.length_append, hlength]; exact Nat.le_add_right n _, fun a ha => ?_⟩
    rcases List.mem_append.mp ha with ha | ha
    · exact hfirst a ha
    · exact mem_kstar_ofClass.mp hothers a ha
  · rintro ⟨hlength, hall⟩
    have hfirst : w.take n ∈ ofClass p ^ n :=
      mem_pow_ofClass.mpr ⟨List.length_take_of_le hlength, fun a ha => hall a (List.mem_of_mem_take ha)⟩
    have hothers : w.drop n ∈ KStar.kstar (ofClass p) :=
      mem_kstar_ofClass.mpr fun a ha => hall a (List.mem_of_mem_drop ha)
    exact ⟨w.take n, hfirst, w.drop n, hothers, List.take_append_drop n w⟩

/-- Both ends are of the outer class, and what is between them of the inner. -/
theorem mem_bracketed (hsub : ∀ a, outer a = true → inner a = true) :
    w ∈ bracketed outer inner ↔
      (∃ a, w.head? = some a ∧ outer a = true) ∧ (∃ a, w.getLast? = some a ∧ outer a = true) ∧
        ∀ a ∈ w, inner a = true := by
  rw [bracketed, Language.mem_mul]
  constructor
  · rintro ⟨_, ⟨first, hfirst, rfl⟩, tail, htail, rfl⟩
    refine ⟨⟨first, rfl, hfirst⟩, ?_⟩
    rcases (Language.mem_add _ _ _).mp htail with hnil | hmore
    · rw [(Language.mem_one _).mp hnil]
      exact ⟨⟨first, rfl, hfirst⟩, fun a ha => by rw [List.mem_singleton.mp ha]; exact hsub first hfirst⟩
    · obtain ⟨middle, hmiddle, _, ⟨last, hlast, rfl⟩, rfl⟩ := Language.mem_mul.mp hmore
      refine ⟨⟨last, ?_, hlast⟩, fun a ha => ?_⟩
      · rw [← List.append_assoc, List.getLast?_append]
        rfl
      · rcases List.mem_append.mp ha with ha | ha
        · rw [List.mem_singleton.mp ha]
          exact hsub first hfirst
        · rcases List.mem_append.mp ha with ha | ha
          · exact mem_kstar_ofClass.mp hmiddle a ha
          · rw [List.mem_singleton.mp ha]
            exact hsub last hlast
  · rintro ⟨⟨first, hhead, hfirst⟩, ⟨last, hgetLast, hlast⟩, hall⟩
    obtain ⟨tail, rfl⟩ : ∃ tail, w = first :: tail := ⟨w.tail, (List.cons_head?_tail hhead).symm⟩
    refine ⟨[first], ⟨first, hfirst, rfl⟩, tail, (Language.mem_add _ _ _).mpr ?_, rfl⟩
    rcases List.eq_nil_or_concat' tail with rfl | ⟨middle, last', rfl⟩
    · exact .inl rfl
    · have heq : last' = last := by
        rw [← List.cons_append, List.getLast?_append] at hgetLast
        exact Option.some.inj hgetLast
      rw [heq]
      have hmiddle : middle ∈ KStar.kstar (ofClass inner) :=
        mem_kstar_ofClass.mpr fun a ha =>
          hall a (List.mem_cons_of_mem first (List.mem_append_left [last'] ha))
      exact .inr (Language.mem_mul.mpr ⟨middle, hmiddle, [last], ⟨last, hlast, rfl⟩, rfl⟩)

/-- A word of each language, and the separator between them. -/
theorem mem_mul_singleton_mul {l m : Language α} :
    w ∈ l * {[a]} * m ↔ ∃ stem ∈ l, ∃ rest ∈ m, w = stem ++ a :: rest := by
  rw [Language.mem_mul]
  constructor
  · rintro ⟨_, hfirst, rest, hrest, rfl⟩
    obtain ⟨stem, hstem, _, rfl, rfl⟩ := Language.mem_mul.mp hfirst
    exact ⟨stem, hstem, rest, hrest, List.append_assoc stem [a] rest⟩
  · rintro ⟨stem, hstem, rest, hrest, rfl⟩
    have hfirst : stem ++ [a] ∈ l * {[a]} := Language.append_mem_mul hstem (Set.mem_singleton [a])
    exact ⟨stem ++ [a], hfirst, rest, hrest, List.append_assoc stem [a] rest⟩

/-- What stands before the first separator is determined, and so is what follows it. -/
theorem append_cons_inj (hstem : a ∉ stem) (hstem' : a ∉ stem')
    (h : stem ++ a :: rest = stem' ++ a :: rest') : stem = stem' ∧ rest = rest' := by
  induction stem generalizing stem' with
  | nil =>
    cases stem' with
    | nil => exact ⟨rfl, (List.cons.inj h).2⟩
    | cons b stem' =>
      have hb : a = b := (List.cons.inj h).1
      exact absurd (hb ▸ List.mem_cons_self) hstem'
  | cons b stem ih =>
    cases stem' with
    | nil =>
      have hb : b = a := (List.cons.inj h).1
      exact absurd (hb ▸ List.mem_cons_self) hstem
    | cons b' stem' =>
      obtain ⟨rfl, htail⟩ := List.cons.inj h
      obtain ⟨rfl, rfl⟩ := ih (fun hmem => hstem (List.mem_cons_of_mem b hmem))
        (fun hmem => hstem' (List.mem_cons_of_mem b hmem)) htail
      exact ⟨rfl, rfl⟩

end Individuality.Support.Grammar
