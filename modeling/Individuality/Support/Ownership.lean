import Individuality.Support.StorageMap

/-! Things that belong to one holder each.

Every holder claims at most one key. `Exclusive` says that no key is claimed twice, and
`Owned index claim` also that an index says exactly which keys are claimed, and in which
state. A free key may be taken; a key may change its state, be passed on, or be
released. -/
namespace Individuality.Support

universe u v w
variable {η : Type u} {κ : Type v} {σ : Type w}

/-- No key is claimed by two holders. -/
def Exclusive (claim : η → Option κ) : Prop := ∀ h h' k, claim h = some k → claim h' = some k → h = h'

namespace Exclusive
variable {claim claim' : η → Option κ} {h : η} {k : κ}

theorem congr (hclaim : Exclusive claim) (hsame : ∀ h, claim' h = claim h) : Exclusive claim' := by
  intro a b k ha hb
  rw [hsame] at ha hb
  exact hclaim a b k ha hb

/-- A holder claims less. -/
theorem release (hclaim : Exclusive claim) (hnow : claim' h = none) (hother : ∀ a, a ≠ h → claim' a = claim a) :
    Exclusive claim' := by
  have hheld : ∀ a k, claim' a = some k → claim a = some k := by
    intro a k ha
    rw [← hother a ?_]
    · exact ha
    · rintro rfl
      cases hnow.symm.trans ha
  intro a b k ha hb
  exact hclaim a b k (hheld a k ha) (hheld b k hb)

/-- A holder claims a key that nobody claims. -/
theorem take (hclaim : Exclusive claim) (hnow : claim' h = some k) (hfree : ∀ a, claim a ≠ some k)
    (hother : ∀ a, a ≠ h → claim' a = claim a) : Exclusive claim' := by
  intro a b k' ha hb
  by_cases hah : a = h
  · rw [hah, hnow] at ha
    cases ha
    by_cases hbh : b = h
    · rw [hah, hbh]
    · rw [hother b hbh] at hb
      exact absurd hb (hfree b)
  · rw [hother a hah] at ha
    by_cases hbh : b = h
    · rw [hbh, hnow] at hb
      cases hb
      exact absurd ha (hfree a)
    · rw [hother b hbh] at hb
      exact hclaim a b k' ha hb

end Exclusive

variable [DecidableEq κ]

/-- The keys that are claimed are those of the index, in their states, and each has one holder. -/
structure Owned (index : StorageMap κ σ) (claim : η → Option (κ × σ)) : Prop where
  stored : ∀ k x, index.get k = some x ↔ ∃ h, claim h = some (k, x)
  exclusive : Exclusive fun h => (claim h).map Prod.fst

namespace Owned
variable {index : StorageMap κ σ} {claim claim' : η → Option (κ × σ)} {h h' : η} {k : κ} {x y : σ}

theorem empty (hnone : ∀ h, claim h = none) : Owned (∅ : StorageMap κ σ) claim where
  stored k x := ⟨nofun, fun ⟨h, hh⟩ => by cases (hnone h).symm.trans hh⟩
  exclusive a b k ha hb := by cases (congrArg (Option.map Prod.fst) (hnone a)).symm.trans ha

theorem congr (hclaim : Owned index claim) (hsame : ∀ h, claim' h = claim h) : Owned index claim' where
  stored k x := by simp only [hclaim.stored k x, hsame]
  exclusive := hclaim.exclusive.congr fun h => congrArg (Option.map Prod.fst) (hsame h)

/-- A key has one holder. -/
theorem unique (hclaim : Owned index claim) (ha : claim h = some (k, x)) (hb : claim h' = some (k, y)) : h = h' :=
  hclaim.exclusive h h' k (congrArg (Option.map Prod.fst) ha) (congrArg (Option.map Prod.fst) hb)

theorem existsUnique (hclaim : Owned index claim) : index.get k = some x ↔ ∃! h, claim h = some (k, x) := by
  rw [hclaim.stored]
  exact ⟨fun ⟨h, hh⟩ => ⟨h, hh, fun h' hh' => hclaim.unique hh' hh⟩, fun ⟨h, hh, _⟩ => ⟨h, hh⟩⟩

/-- A key that is not in the index is claimed by nobody. -/
theorem free (hclaim : Owned index claim) (hnone : index.get k = none) (h : η) : (claim h).map Prod.fst ≠ some k := by
  intro hmap
  obtain ⟨⟨k', x⟩, hh, rfl⟩ := Option.map_eq_some_iff.mp hmap
  cases hnone.symm.trans ((hclaim.stored k' x).mpr ⟨h, hh⟩)

/-- A holder without a key takes one that is free. -/
theorem take (hclaim : Owned index claim) (hold : claim h = none) (hnow : claim' h = some (k, x))
    (hother : ∀ a, a ≠ h → claim' a = claim a) (hfree : index.get k = none) : Owned (index.insert k x) claim' where
  stored k' y := by
    rw [StorageMap.get_insert]
    split
    · rename_i hk
      rw [hk]
      constructor
      · intro hxy
        cases hxy
        exact ⟨h, hnow⟩
      · rintro ⟨a, ha⟩
        by_cases hah : a = h
        · rw [hah, hnow] at ha
          cases ha
          rfl
        · rw [hother a hah] at ha
          exact absurd (by rw [ha]; rfl) (hclaim.free hfree a)
    · rename_i hk
      rw [hclaim.stored]
      constructor
      · rintro ⟨a, ha⟩
        refine ⟨a, (hother a ?_).trans ha⟩
        rintro rfl
        cases hold.symm.trans ha
      · rintro ⟨a, ha⟩
        by_cases hah : a = h
        · rw [hah, hnow] at ha
          cases ha
          exact absurd rfl hk
        · exact ⟨a, (hother a hah).symm.trans ha⟩
  exclusive := hclaim.exclusive.take (h := h) (k := k) (congrArg (Option.map Prod.fst) hnow) (hclaim.free hfree)
    fun a ha => congrArg (Option.map Prod.fst) (hother a ha)

/-- A holder gives up its key. -/
theorem release (hclaim : Owned index claim) (hold : claim h = some (k, x)) (hnow : claim' h = none)
    (hother : ∀ a, a ≠ h → claim' a = claim a) : Owned (index.remove k) claim' where
  stored k' y := by
    rw [StorageMap.get_remove]
    split
    · rename_i hk
      refine ⟨fun hnone => (by cases hnone), ?_⟩
      rintro ⟨a, ha⟩
      by_cases hah : a = h
      · rw [hah, hnow] at ha
        cases ha
      · rw [hother a hah, hk] at ha
        exact absurd (hclaim.unique ha hold) hah
    · rename_i hk
      rw [hclaim.stored]
      constructor
      · rintro ⟨a, ha⟩
        refine ⟨a, (hother a ?_).trans ha⟩
        rintro rfl
        cases hold.symm.trans ha
        exact hk rfl
      · rintro ⟨a, ha⟩
        by_cases hah : a = h
        · rw [hah, hnow] at ha
          cases ha
        · exact ⟨a, (hother a hah).symm.trans ha⟩
  exclusive := hclaim.exclusive.release (h := h) (congrArg (Option.map Prod.fst) hnow)
    fun a ha => congrArg (Option.map Prod.fst) (hother a ha)

/-- A key changes its state. -/
theorem change (hclaim : Owned index claim) (hold : claim h = some (k, x)) (hnow : claim' h = some (k, y))
    (hother : ∀ a, a ≠ h → claim' a = claim a) : Owned (index.insert k y) claim' := by
  have hkeys : ∀ a, (claim' a).map Prod.fst = (claim a).map Prod.fst := by
    intro a
    by_cases hah : a = h
    · rw [hah, hnow, hold]
      rfl
    · rw [hother a hah]
  refine ⟨fun k' z => ?_, hclaim.exclusive.congr hkeys⟩
  rw [StorageMap.get_insert]
  split
  · rename_i hk
    rw [hk]
    constructor
    · intro hyz
      cases hyz
      exact ⟨h, hnow⟩
    · rintro ⟨a, ha⟩
      have hah : a = h := hclaim.exclusive a h k ((hkeys a).symm.trans (congrArg (Option.map Prod.fst) ha))
        (congrArg (Option.map Prod.fst) hold)
      rw [hah, hnow] at ha
      cases ha
      rfl
  · rename_i hk
    rw [hclaim.stored]
    constructor
    · rintro ⟨a, ha⟩
      refine ⟨a, (hother a ?_).trans ha⟩
      rintro rfl
      cases hold.symm.trans ha
      exact hk rfl
    · rintro ⟨a, ha⟩
      by_cases hah : a = h
      · rw [hah, hnow] at ha
        cases ha
        exact absurd rfl hk
      · exact ⟨a, (hother a hah).symm.trans ha⟩

/-- A key, with its state, goes from one holder to another one, which had none. -/
theorem pass (hclaim : Owned index claim) (hold : claim h = some (k, x)) (hnow : claim' h = none)
    (hold' : claim h' = none) (hnow' : claim' h' = some (k, x))
    (hother : ∀ a, a ≠ h → a ≠ h' → claim' a = claim a) : Owned index claim' := by
  have hforth : ∀ a, a ≠ h' → ∀ y, claim' a = some y → claim a = some y := by
    intro a ha' y ha
    rw [← hother a ?_ ha']
    · exact ha
    · rintro rfl
      cases hnow.symm.trans ha
  refine ⟨fun k' y => ?_, fun a b k' ha hb => ?_⟩
  · rw [hclaim.stored]
    constructor
    · rintro ⟨a, ha⟩
      by_cases hah : a = h
      · rw [hah, hold] at ha
        cases ha
        exact ⟨h', hnow'⟩
      · refine ⟨a, (hother a hah ?_).trans ha⟩
        rintro rfl
        cases hold'.symm.trans ha
    · rintro ⟨a, ha⟩
      by_cases hah' : a = h'
      · rw [hah', hnow'] at ha
        cases ha
        exact ⟨h, hold⟩
      · exact ⟨a, hforth a hah' _ ha⟩
  · obtain ⟨⟨_, x₁⟩, hka, rfl⟩ := Option.map_eq_some_iff.mp ha
    obtain ⟨⟨_, x₂⟩, hkb, heq⟩ := Option.map_eq_some_iff.mp hb
    cases heq
    have hnobody : ∀ c y, c ≠ h' → claim' c = some (k, y) → False := by
      intro c y hc hk
      have hch : c = h := hclaim.unique (hforth c hc _ hk) hold
      rw [hch, hnow] at hk
      cases hk
    by_cases hah' : a = h'
    · by_cases hbh' : b = h'
      · rw [hah', hbh']
      · rw [hah', hnow'] at hka
        cases hka
        exact (hnobody b x₂ hbh' hkb).elim
    · by_cases hbh' : b = h'
      · rw [hbh', hnow'] at hkb
        cases hkb
        exact (hnobody a x₁ hah' hka).elim
      · exact hclaim.unique (hforth a hah' _ hka) (hforth b hbh' _ hkb)

end Owned
end Individuality.Support
