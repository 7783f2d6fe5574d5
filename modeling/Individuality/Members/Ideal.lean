import Individuality.Members.Types

/-! The ideal ring-VRF: a root is the list of its keys.

A proof names its member, and is valid for a root that lists the member; the
alias is the member in its context. It stands in for the pallet's ring-VRF where
a run has to be exhibited, over numbered keys and a sample configuration. -/
namespace Individuality.Members
open Support

def idealVrf : GenerateVerifiable where
  Member := Nat
  RingMembers := List Nat
  Intermediate := List Nat
  Capacity := RingExponent
  StaticChunk := Unit
  Proof := Nat × Nat
  Context := Nat
  Message := Nat
  Alias := Nat × Nat
  memberDecEq := inferInstance
  ringMembersDecEq := inferInstance
  intermediateDecEq := inferInstance
  startMembers _ := []
  pushMember i k := i ++ [k]
  pushMembers i ks _ := some (i ++ ks)
  finishMembers i := i
  isMemberValid _ := true
  validate _ proof root context msg :=
    if proof.1 ∈ root ∧ proof.2 = msg then some (proof.1, context) else none
  pushMembers_eq i ks _ j h := by
    cases h
    induction ks generalizing i with
    | nil => simp
    | cons k ks ih =>
      rw [List.foldl_cons, ← ih]
      simp

/-- Pages of 255 keys, and a queue page that takes a larger ring at once. -/
def sampleConfig : Config where
  crypto := idealVrf
  Location := Nat
  AccountId := Nat
  locationDecEq := inferInstance
  accountDecEq := inferInstance
  capacity e := some e
  maxCollections := 8
  onboardingQueuePageSize := 1024
  maxFlexibleRingExponent := .r2e9
  ringBuildingMemberLimit := 20
  oldRootRetentionDuration := 100
  onboardingQueuePageSize_le := by decide
  onboardingQueuePageSize_pos := by decide
  ringBuildingMemberLimit_le := by decide
  capacity_isSome _ := rfl

/-- The identifier of the sample collection. -/
def sampleId : Identifier := Vector.replicate 32 0

/-- `n` keys from `a` on. -/
def sampleKeys (a n : Nat) : List sampleConfig.Member := List.range' a n

theorem sampleKeys_nodup (a n : Nat) : (sampleKeys a n).Nodup := List.nodup_range'

theorem length_sampleKeys (a n : Nat) : (sampleKeys a n).length = n := List.length_range'

theorem mem_sampleKeys {a n k : Nat} (ha : a ≤ k) (hn : k < a + n) :
    (k : sampleConfig.Member) ∈ sampleKeys a n := List.mem_range'_1.mpr ⟨ha, hn⟩

/-- Later keys are not among the earlier ones. -/
theorem notMem_sampleKeys {a b n m : Nat} (h : a + n ≤ b) (k : sampleConfig.Member)
    (hk : k ∈ sampleKeys b m) : k ∉ sampleKeys a n := fun hn => by
  have hb := List.mem_range'_1.mp hk
  have ha := List.mem_range'_1.mp hn
  omega

theorem sampleKeys_ne_nil {a n : Nat} (h : 0 < n) : sampleKeys a n ≠ [] := by
  intro hnil
  have := length_sampleKeys a n
  rw [hnil, List.length_nil] at this
  omega

/-- Pushing keys one by one appends them. -/
theorem foldl_pushMember (i ks : List Nat) : List.foldl idealVrf.pushMember i ks = i ++ ks :=
  (idealVrf.pushMembers_eq i ks (fun _ _ => none) (i ++ ks) rfl).symm

end Individuality.Members
