import Individuality.Game.Types

/-! How players are grouped.

The groups are the residues of the players' indices by the number of groups. The
list of a group's members is computed with saturating arithmetic, which is exact on
every index there is, so a group holds at most `maxPerGroup` players, each once, and
of two players each is among the other's others or neither is. -/
namespace Individuality.Game.GroupsSetting
open Support
variable {g : GroupsSetting} {i j : Nat}

theorem numberOfGroup_eq (hcount : g.playerCount ≤ U32.max) (hpos : 0 < g.maxPerGroup) :
    g.numberOfGroup = g.playerCount / g.maxPerGroup +
      if 0 < g.playerCount % g.maxPerGroup then 1 else 0 := by
  unfold numberOfGroup
  rw [if_neg hpos.ne', if_neg hpos.ne']
  simp only
  split
  · rename_i hmod
    refine U32.saturatingAdd_eq (le_trans ?_ hcount)
    have := Nat.div_add_mod g.playerCount g.maxPerGroup
    have := Nat.le_mul_of_pos_left (g.playerCount / g.maxPerGroup) hpos
    omega
  · rfl

/-- The groups have room for all players. -/
theorem playerCount_le (hcount : g.playerCount ≤ U32.max) (hpos : 0 < g.maxPerGroup) :
    g.playerCount ≤ g.maxPerGroup * g.numberOfGroup := by
  have hdiv := Nat.div_add_mod g.playerCount g.maxPerGroup
  have hmod := Nat.mod_lt g.playerCount hpos
  rw [numberOfGroup_eq hcount hpos, Nat.mul_add]
  split <;> omega

theorem numberOfGroup_pos (hcount : g.playerCount ≤ U32.max) (hpos : 0 < g.maxPerGroup)
    (hi : i < g.playerCount) : 0 < g.numberOfGroup := by
  have := playerCount_le hcount hpos
  rcases Nat.eq_zero_or_pos g.numberOfGroup with h | h
  · rw [h] at this
    omega
  · exact h

/-- No index there is was reached by saturation. -/
theorem eq_of_saturating {k n x : Nat} (hcount : g.playerCount ≤ U32.max) (hx : x < g.playerCount)
    (h : U32.saturatingAdd k (U32.saturatingMul n g.numberOfGroup) = x) :
    x = k + n * g.numberOfGroup := by
  unfold U32.saturatingAdd U32.saturatingMul at h
  omega

theorem mem_groupMembers (hcount : g.playerCount ≤ U32.max) (hpos : 0 < g.maxPerGroup)
    (hi : i < g.playerCount) :
    j ∈ g.groupMembers (g.groupIndexFromPlayerIndex i) ↔
      j < g.playerCount ∧ j % g.numberOfGroup = i % g.numberOfGroup := by
  have hgroups := numberOfGroup_pos hcount hpos hi
  rw [groupMembers, groupIndexFromPlayerIndex, if_neg hgroups.ne', List.mem_filter, List.mem_map,
    decide_eq_true_iff]
  constructor
  · rintro ⟨⟨n, -, hn⟩, hj⟩
    refine ⟨hj, ?_⟩
    rw [eq_of_saturating hcount hj hn, Nat.add_mul_mod_self_right, Nat.mod_mod]
  · rintro ⟨hj, hmod⟩
    have hdiv := Nat.mod_add_div j g.numberOfGroup
    rw [hmod, Nat.mul_comm] at hdiv
    refine ⟨⟨j / g.numberOfGroup, List.mem_range.mpr ?_, ?_⟩, hj⟩
    · have := playerCount_le hcount hpos
      rw [Nat.div_lt_iff_lt_mul hgroups]
      omega
    · unfold U32.saturatingAdd U32.saturatingMul
      omega

/-- The others of a player's group. -/
theorem mem_otherMembers (hcount : g.playerCount ≤ U32.max) (hpos : 0 < g.maxPerGroup)
    (hi : i < g.playerCount) :
    j ∈ g.otherMembers i ↔
      (j < g.playerCount ∧ j % g.numberOfGroup = i % g.numberOfGroup) ∧ j ≠ i := by
  rw [otherMembers, List.mem_filter, mem_groupMembers hcount hpos hi, decide_eq_true_iff]

theorem otherMembers_of_zero (hzero : g.maxPerGroup = 0) : g.otherMembers i = [] := by
  rw [otherMembers, groupMembers, hzero]
  rfl

/-- Being grouped together goes both ways. -/
theorem otherMembers_comm (hcount : g.playerCount ≤ U32.max) (hi : i < g.playerCount)
    (hj : j < g.playerCount) : j ∈ g.otherMembers i ↔ i ∈ g.otherMembers j := by
  rcases Nat.eq_zero_or_pos g.maxPerGroup with hzero | hpos
  · rw [otherMembers_of_zero hzero, otherMembers_of_zero hzero]
    exact iff_of_false List.not_mem_nil List.not_mem_nil
  · rw [mem_otherMembers hcount hpos hi, mem_otherMembers hcount hpos hj]
    constructor
    · rintro ⟨⟨-, hmod⟩, hne⟩
      exact ⟨⟨hi, hmod.symm⟩, hne.symm⟩
    · rintro ⟨⟨-, hmod⟩, hne⟩
      exact ⟨⟨hj, hmod.symm⟩, hne.symm⟩

theorem nodup_otherMembers (hcount : g.playerCount ≤ U32.max) (hi : i < g.playerCount) :
    (g.otherMembers i).Nodup := by
  rcases Nat.eq_zero_or_pos g.maxPerGroup with hzero | hpos
  · rw [otherMembers_of_zero hzero]
    exact List.nodup_nil
  · have hgroups := numberOfGroup_pos hcount hpos hi
    unfold otherMembers groupMembers
    rw [List.filter_map]
    refine (List.Nodup.map_on ?_ (List.nodup_range.filter _)).filter _
    intro n hn n' hn' heq
    have hlt := of_decide_eq_true (List.mem_filter.mp hn).2
    have hx := eq_of_saturating hcount hlt rfl
    have hx' := eq_of_saturating hcount hlt heq.symm
    exact Nat.eq_of_mul_eq_mul_right hgroups (Nat.add_left_cancel (hx.symm.trans hx'))

theorem length_otherMembers (hcount : g.playerCount ≤ U32.max) (hi : i < g.playerCount) :
    (g.otherMembers i).length ≤ g.maxPerGroup - 1 := by
  rcases Nat.eq_zero_or_pos g.maxPerGroup with hzero | hpos
  · rw [otherMembers_of_zero hzero, hzero]
    exact Nat.le_refl 0
  · have hmem := (mem_groupMembers hcount hpos hi (j := i)).mpr ⟨hi, rfl⟩
    have hlt : (g.otherMembers i).length < (g.groupMembers (g.groupIndexFromPlayerIndex i)).length :=
      List.length_filter_lt_length_iff_exists.mpr ⟨i, hmem, by simp⟩
    have hle : (g.groupMembers (g.groupIndexFromPlayerIndex i)).length ≤ g.maxPerGroup := by
      refine (List.length_filter_le _ _).trans ?_
      rw [List.length_map, List.length_range]
    omega

/-! ### The partition -/

/-- The members of a group are as many indices in steps of the number of groups as there are players for. -/
theorem groupMembers_eq (hcount : g.playerCount ≤ U32.max) (hpos : 0 < g.maxPerGroup) {a : Nat}
    (ha : a < g.numberOfGroup) :
    g.groupMembers a =
      (List.range ((g.playerCount - a + g.numberOfGroup - 1) / g.numberOfGroup)).map fun i =>
        a + i * g.numberOfGroup := by
  have hgroups : 0 < g.numberOfGroup := (Nat.zero_le a).trans_lt ha
  have hroom := playerCount_le hcount hpos
  set size := (g.playerCount - a + g.numberOfGroup - 1) / g.numberOfGroup with hsize
  have hlt : ∀ i, a + i * g.numberOfGroup < g.playerCount ↔ i < size := fun i => by
    rw [hsize, Nat.lt_div_iff_mul_lt hgroups]
    omega
  have hfits : size ≤ g.maxPerGroup := by
    rw [hsize, Nat.div_le_iff_le_mul hgroups]
    omega
  -- An index is below the count exactly when the one computed without saturation is.
  have hsaturated : ∀ i, U32.saturatingAdd a (U32.saturatingMul i g.numberOfGroup) < g.playerCount ↔ i < size := by
    intro i
    rw [← hlt i]
    unfold U32.saturatingAdd U32.saturatingMul
    omega
  obtain ⟨extra, hextra⟩ := Nat.exists_eq_add_of_le hfits
  have hkept : (List.range g.maxPerGroup).filter
      (fun i => decide (U32.saturatingAdd a (U32.saturatingMul i g.numberOfGroup) < g.playerCount)) =
        List.range size := by
    rw [hextra, List.range_add, List.filter_append, List.filter_eq_self.mpr, List.filter_eq_nil_iff.mpr,
      List.append_nil]
    · intro i hi
      obtain ⟨j, -, rfl⟩ := List.mem_map.mp hi
      rw [decide_eq_true_iff, hsaturated]
      omega
    · intro i hi
      rw [decide_eq_true_iff, hsaturated]
      exact List.mem_range.mp hi
  rw [groupMembers, List.filter_map]
  refine (congrArg (List.map _) hkept).trans (List.map_congr_left fun i hi => ?_)
  have hi : a + i * g.numberOfGroup < g.playerCount := (hlt i).mpr (List.mem_range.mp hi)
  show U32.saturatingAdd a (U32.saturatingMul i g.numberOfGroup) = _
  unfold U32.saturatingAdd U32.saturatingMul
  omega

theorem length_groupMembers (hcount : g.playerCount ≤ U32.max) (hpos : 0 < g.maxPerGroup) {a : Nat}
    (ha : a < g.numberOfGroup) :
    (g.groupMembers a).length = (g.playerCount - a + g.numberOfGroup - 1) / g.numberOfGroup := by
  rw [groupMembers_eq hcount hpos ha, List.length_map, List.length_range]

theorem nodup_groupMembers (hcount : g.playerCount ≤ U32.max) (hpos : 0 < g.maxPerGroup) {a : Nat}
    (ha : a < g.numberOfGroup) : (g.groupMembers a).Nodup := by
  have hgroups : 0 < g.numberOfGroup := (Nat.zero_le a).trans_lt ha
  rw [groupMembers_eq hcount hpos ha]
  exact List.nodup_range.map fun i j heq => Nat.eq_of_mul_eq_mul_right hgroups (Nat.add_left_cancel heq)

/-- The members of a group are the players that have it as theirs. -/
theorem mem_groupMembers_iff (hcount : g.playerCount ≤ U32.max) (hpos : 0 < g.maxPerGroup) {a : Nat}
    (ha : a < g.numberOfGroup) :
    i ∈ g.groupMembers a ↔ i < g.playerCount ∧ g.groupIndexFromPlayerIndex i = a := by
  have hgroups : 0 < g.numberOfGroup := (Nat.zero_le a).trans_lt ha
  have hindex : g.groupIndexFromPlayerIndex i = i % g.numberOfGroup := by
    rw [groupIndexFromPlayerIndex, if_neg hgroups.ne']
  rw [groupMembers_eq hcount hpos ha, List.mem_map, hindex]
  constructor
  · rintro ⟨n, hn, rfl⟩
    have hlt := List.mem_range.mp hn
    rw [Nat.lt_div_iff_mul_lt hgroups] at hlt
    exact ⟨by omega, by rw [Nat.add_mul_mod_self_right, Nat.mod_eq_of_lt ha]⟩
  · rintro ⟨hi, rfl⟩
    have hdiv := Nat.mod_add_div i g.numberOfGroup
    rw [Nat.mul_comm] at hdiv
    refine ⟨i / g.numberOfGroup, List.mem_range.mpr ?_, hdiv⟩
    rw [Nat.lt_div_iff_mul_lt hgroups]
    omega

/-- Groups of the largest size, but for some that lack a player. -/
def Fillable (g : GroupsSetting) : Prop := (g.maxPerGroup - 1) * g.numberOfGroup ≤ g.playerCount

theorem length_of_fillable (hcount : g.playerCount ≤ U32.max) (hpos : 0 < g.maxPerGroup) (h : g.Fillable) {a : Nat}
    (ha : a < g.numberOfGroup) :
    (g.groupMembers a).length = g.maxPerGroup - 1 ∨ (g.groupMembers a).length = g.maxPerGroup := by
  have hgroups : 0 < g.numberOfGroup := (Nat.zero_le a).trans_lt ha
  have hroom := playerCount_le hcount hpos
  rw [length_groupMembers hcount hpos ha]
  have hle : (g.playerCount - a + g.numberOfGroup - 1) / g.numberOfGroup ≤ g.maxPerGroup := by
    rw [Nat.div_le_iff_le_mul hgroups]
    omega
  have hge : g.maxPerGroup - 1 ≤ (g.playerCount - a + g.numberOfGroup - 1) / g.numberOfGroup := by
    rw [Nat.le_div_iff_mul_le hgroups]
    unfold Fillable at h
    omega
  omega

/-- Players for groups that lack one each, for a single group or for a full square are enough whatever
the remainder. -/
theorem mul_le_of_filled {m q r : Nat} (hr : r < m + 3)
    (h : (m + 3) * q + r = m + 3 ∨ (m + 3) * q + r + 1 = m + 3 ∨ (m + 2) * (m + 1) ≤ (m + 3) * q + r) :
    (m + 2) * (q + if 0 < r then 1 else 0) ≤ (m + 3) * q + r := by
  have hexpand : (m + 3) * q = (m + 2) * q + q := by rw [← Nat.succ_mul]
  rcases Nat.eq_zero_or_pos r with rfl | hpos
  · simp only [Nat.lt_irrefl, if_false, Nat.add_zero]
    omega
  · rw [if_pos hpos, Nat.mul_add, Nat.mul_one]
    suffices hlacking : m + 2 ≤ q + r by omega
    rcases h with hfull | hone | hsquare
    · rcases q with _ | q
      · omega
      · rw [Nat.mul_succ] at hfull
        omega
    · rcases q with _ | q
      · omega
      · rw [Nat.mul_succ] at hone
        omega
    · refine Nat.le_of_not_lt fun hlt => ?_
      have hq : q + 1 ≤ m + 1 := by omega
      have hbelow : (m + 2) * (q + 1) ≤ (m + 2) * (m + 1) := Nat.mul_le_mul_left (m + 2) hq
      rw [Nat.mul_succ] at hbelow
      omega

theorem asked_of_acceptablePlayerCount (hmax : 3 ≤ g.maxPerGroup) (h : g.acceptablePlayerCount false = true) :
    g.playerCount = g.maxPerGroup ∨ g.playerCount + 1 = g.maxPerGroup ∨
      U32.saturatingMul (g.maxPerGroup - 1) (g.maxPerGroup - 2) ≤ g.playerCount := by
  unfold acceptablePlayerCount at h
  split at h
  · omega
  · omega
  · omega
  · simp only [Bool.false_eq_true, if_false] at h
    split at h
    · rename_i hone
      rcases hone with hone | hone
      · exact .inl hone
      · exact .inr (.inl hone)
    · exact .inr (.inr (of_decide_eq_true h))

/-- The count that is asked for is enough to fill the groups, as long as it was not cut off. -/
theorem fillable_of_acceptablePlayerCount (hmax : 3 ≤ g.maxPerGroup) (hcount : g.playerCount ≤ U32.max)
    (hwhole : g.playerCount < U32.max ∨ (g.maxPerGroup - 1) * (g.maxPerGroup - 2) ≤ U32.max)
    (h : g.acceptablePlayerCount false = true) : g.Fillable := by
  have hcases : g.playerCount = g.maxPerGroup ∨ g.playerCount + 1 = g.maxPerGroup ∨
      (g.maxPerGroup - 1) * (g.maxPerGroup - 2) ≤ g.playerCount := by
    have hasked := asked_of_acceptablePlayerCount hmax h
    unfold U32.saturatingMul at hasked
    omega
  have hdiv := Nat.div_add_mod g.playerCount g.maxPerGroup
  have hmod := Nat.mod_lt g.playerCount (Nat.lt_of_lt_of_le (by decide) hmax)
  unfold Fillable
  rw [numberOfGroup_eq hcount (Nat.lt_of_lt_of_le (by decide) hmax)]
  obtain ⟨m, hm⟩ : ∃ m, g.maxPerGroup = m + 3 := ⟨g.maxPerGroup - 3, by omega⟩
  have hone : g.maxPerGroup - 1 = m + 2 := by omega
  have htwo : g.maxPerGroup - 2 = m + 1 := by omega
  rw [hone, htwo, ← hdiv, hm] at hcases
  rw [hm] at hmod
  have hfilled := mul_le_of_filled hmod hcases
  rwa [← hm, hdiv, ← hone] at hfilled

/-- No operation on the numbers of this setting leaves its width, or is cut off at it. -/
structure Exact (g : GroupsSetting) : Prop where
  next : g.playerCount + 1 ≤ U32.max
  threshold : g.playerCount = g.maxPerGroup ∨ g.playerCount + 1 = g.maxPerGroup ∨
    (g.maxPerGroup - 1) * (g.maxPerGroup - 2) ≤ U32.max
  groups : g.playerCount / g.maxPerGroup + 1 ≤ U32.max
  indices : ∀ a < g.numberOfGroup, ∀ i < g.maxPerGroup,
    i * g.numberOfGroup ≤ U32.max ∧ a + i * g.numberOfGroup ≤ U32.max

theorem exact_of_add_le (hmax : 3 ≤ g.maxPerGroup) (hroom : g.playerCount + g.maxPerGroup ≤ U32.max + 2)
    (h : g.acceptablePlayerCount false = true) : g.Exact := by
  have hpos : 0 < g.maxPerGroup := by omega
  have hcount : g.playerCount < U32.max := by omega
  have hgroups := numberOfGroup_eq hcount.le hpos
  have hdiv := Nat.div_add_mod g.playerCount g.maxPerGroup
  have hshrinks : g.playerCount / g.maxPerGroup ≤ g.playerCount := Nat.div_le_self _ _
  have hall : g.maxPerGroup * g.numberOfGroup ≤ g.playerCount + g.maxPerGroup - 1 := by
    rw [hgroups, Nat.mul_add]
    split <;> omega
  refine ⟨hcount, ?_, by omega, fun a ha i hi => ?_⟩
  · have hasked := asked_of_acceptablePlayerCount hmax h
    unfold U32.saturatingMul at hasked
    omega
  · have hstep : (i + 1) * g.numberOfGroup ≤ g.maxPerGroup * g.numberOfGroup := Nat.mul_le_mul_right _ hi
    rw [Nat.succ_mul] at hstep
    omega

/-- The groups share out the players. -/
structure Partition (g : GroupsSetting) : Prop where
  disjoint : ∀ a < g.numberOfGroup, ∀ b < g.numberOfGroup, a ≠ b → (g.groupMembers a).Disjoint (g.groupMembers b)
  nodup : ∀ a < g.numberOfGroup, (g.groupMembers a).Nodup
  cover : ∀ i, (∃ a < g.numberOfGroup, i ∈ g.groupMembers a) ↔ i < g.playerCount
  size : ∀ a < g.numberOfGroup,
    (g.groupMembers a).length = g.maxPerGroup - 1 ∨ (g.groupMembers a).length = g.maxPerGroup
  index : ∀ i < g.playerCount, ∀ a < g.numberOfGroup,
    i ∈ g.groupMembers a ↔ g.groupIndexFromPlayerIndex i = a

theorem partition_of_fillable (hcount : g.playerCount ≤ U32.max) (hpos : 0 < g.maxPerGroup) (h : g.Fillable) :
    g.Partition where
  disjoint a ha b hb hne i hia hib := by
    rw [mem_groupMembers_iff hcount hpos ha] at hia
    rw [mem_groupMembers_iff hcount hpos hb] at hib
    exact hne (hia.2.symm.trans hib.2)
  nodup _ ha := nodup_groupMembers hcount hpos ha
  cover i := by
    constructor
    · rintro ⟨a, ha, hi⟩
      exact ((mem_groupMembers_iff hcount hpos ha).mp hi).1
    · intro hi
      have hgroups := numberOfGroup_pos hcount hpos hi
      have hindex : g.groupIndexFromPlayerIndex i < g.numberOfGroup := by
        rw [groupIndexFromPlayerIndex, if_neg hgroups.ne']
        exact Nat.mod_lt i hgroups
      exact ⟨_, hindex, (mem_groupMembers_iff hcount hpos hindex).mpr ⟨hi, rfl⟩⟩
  size _ ha := length_of_fillable hcount hpos h ha
  index i hi a ha := by
    rw [mem_groupMembers_iff hcount hpos ha]
    exact and_iff_right hi

/-- Whatever count is accepted, the groups share the players out evenly, and nothing is cut off while the
count leaves room for one more group. The largest count there is passes for a square that does not fit. -/
theorem groups_partition (g : GroupsSetting) (hmax : 3 ≤ g.maxPerGroup) (hcount : g.playerCount ≤ U32.max)
    (haccept : g.acceptablePlayerCount false = true)
    (hwhole : g.playerCount < U32.max ∨ (g.maxPerGroup - 1) * (g.maxPerGroup - 2) ≤ U32.max) :
    g.Partition ∧ (g.playerCount + g.maxPerGroup ≤ U32.max + 2 → g.Exact) :=
  ⟨partition_of_fillable hcount (by omega) (fillable_of_acceptablePlayerCount hmax hcount hwhole haccept),
    fun hroom => exact_of_add_le hmax hroom haccept⟩

theorem groups_partition_sample : (GroupsSetting.mk 6 20).Partition ∧ (GroupsSetting.mk 6 20).Exact := by
  obtain ⟨hpartition, hexact⟩ := groups_partition ⟨6, 20⟩ (by decide) (by decide) (by decide) (.inl (by decide))
  exact ⟨hpartition, hexact (by decide)⟩

/-- At the top of the width, a count is accepted that leaves the groups half empty, and an index is cut
off where the groups are right. -/
theorem groups_unbalanced :
    ((GroupsSetting.mk 3000000000 U32.max).acceptablePlayerCount false = true ∧
      ¬(GroupsSetting.mk 3000000000 U32.max).Partition) ∧
    (GroupsSetting.mk 6 (U32.max - 2)).acceptablePlayerCount false = true ∧
      ¬(GroupsSetting.mk 6 (U32.max - 2)).Exact := by
  refine ⟨⟨by decide, fun h => ?_⟩, by decide, fun h => ?_⟩
  · have hgroups : (GroupsSetting.mk 3000000000 U32.max).numberOfGroup = 2 := by decide
    have hsize := h.size 0 (by rw [hgroups]; decide)
    rw [length_groupMembers (by decide) (by decide) (by rw [hgroups]; decide), hgroups] at hsize
    revert hsize
    decide
  · have hlast := h.indices 715827882 (by decide) 5 (by decide)
    revert hlast
    decide

end Individuality.Game.GroupsSetting
