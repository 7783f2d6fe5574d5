import Individuality.Members.Paged

/-! What the pallet answers to other pallets about a ring. -/
namespace Individuality.Members
open Support
namespace Store
variable {T : Config}

/-- `max_pages_per_ring`: the number of pages that a full ring takes. -/
def maxPagesPerRing (T : Config) (ringSize : RingExponent) : Nat :=
  ringSize.ringCapacity / T.flexibleRingCapacity +
    if ringSize.ringCapacity % T.flexibleRingCapacity = 0 then 0 else 1

def ringStatus (s : Store T) (r : Nat) : Option RingStatus :=
  if s.collections.isNone then none else some (s.ringStatusAt r)

theorem ringStatusAt_of_ringStatus {s : Store T} {r : Nat} {status : RingStatus} (h : s.ringStatus r = some status) :
    status = s.ringStatusAt r := by
  unfold ringStatus at h
  split at h
  · cases h
  · exact (Option.some.inj h).symm

/-- The loop of `ring_members` from page `p` on, over `fuel` pages at most, with the keys read so far. -/
def readPages (s : Store T) (r total : Nat) : (fuel p : Nat) → List T.Member → List T.Member
  | 0, _, members => members
  | fuel + 1, p, members =>
    if total ≤ members.length then members else s.readPages r total fuel (p + 1) (members ++ s.page r p)

def ringMembers (s : Store T) (r : Nat) : List T.Member :=
  match s.collections with
  | none => []
  | some info => s.readPages r (s.ringStatusAt r).total (maxPagesPerRing T info.ringSize + 1) 0 []

/-- The loop stops early only where no page is left to add keys. -/
theorem readPages_eq {s : Store T} {r total : Nat} (h : Paging.Packed T.flexibleRingCapacity total (s.page r))
    (fuel p : Nat) :
    s.readPages r total fuel p (Paging.concat (s.page r) p) = Paging.concat (s.page r) (p + fuel) := by
  induction fuel generalizing p with
  | zero => rfl
  | succ fuel ih =>
    rw [readPages]
    split
    · rename_i hall
      rw [h.length_concat_eq_min] at hall
      refine (Paging.concat_of_empty (Nat.le_add_right p _) fun q hq => h.eq_nil ?_).symm
      exact (le_min_iff.mp hall).1.trans (Nat.mul_le_mul_right _ hq)
    · rw [← Paging.concat_succ, ih, Nat.add_right_comm, Nat.add_assoc]

theorem ringCapacity_le_maxPagesPerRing (ringSize : RingExponent) :
    ringSize.ringCapacity ≤ maxPagesPerRing T ringSize * T.flexibleRingCapacity := by
  have hdiv := Nat.div_add_mod' ringSize.ringCapacity T.flexibleRingCapacity
  have hmod := Nat.mod_lt ringSize.ringCapacity T.flexibleRingCapacity_pos
  rw [maxPagesPerRing, Nat.add_mul]
  split <;> omega

/-- All keys of a ring that lives on its pages are found. -/
theorem mem_ringMembers {s : Store T} {r : Nat} {info : CollectionInfo T} {key : T.Member}
    (hinfo : s.collections = some info)
    (hpacked : Paging.Packed T.flexibleRingCapacity (s.ringStatusAt r).total (s.page r))
    (htotal : (s.ringStatusAt r).total ≤ info.ringSize.ringCapacity) :
    key ∈ s.ringMembers r ↔ ∃ p, key ∈ s.page r p := by
  have hread := readPages_eq hpacked (maxPagesPerRing T info.ringSize + 1) 0
  rw [Paging.concat_zero, Nat.zero_add] at hread
  simp only [ringMembers, hinfo]
  rw [hread, Paging.mem_concat]
  constructor
  · rintro ⟨p, -, hmem⟩
    exact ⟨p, hmem⟩
  · rintro ⟨p, hmem⟩
    refine ⟨p, ?_, hmem⟩
    by_contra hp
    have hnil : s.page r p = [] := by
      refine hpacked.eq_nil (htotal.trans ((ringCapacity_le_maxPagesPerRing (T := T) info.ringSize).trans ?_))
      exact Nat.mul_le_mul_right _ (by omega)
    rw [hnil] at hmem
    cases hmem

end Store
end Individuality.Members
