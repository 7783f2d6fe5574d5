import Mathlib.Data.FinEnum
import Mathlib.Data.List.Sort
import Individuality.Coinage.Types

/-! What coins are worth.

A coin is worth a number of the underlying asset, and a number of units, where a unit is the
least coin: the asset amounts are computed by shifts in the width of a balance, the units by
a shift in 32 bits. Both are exact, and a coin is worth as many least coins as it has units
(`coinValueToAssetAmount_eq_mul`), so a split that is right in units is right in the asset. -/
namespace Individuality.Coinage
open Support

/-! ### The two representations -/

namespace Parameters
variable {P : Parameters} {value : CoinValue}

/-- An amount is the unit shifted by the exponent, whichever its sign. -/
theorem mul_eq_of_coinValueToAssetAmount {amount : Nat} (h : P.coinValueToAssetAmount value = .ok amount) :
    amount * 2 ^ (-value.toInt).toNat = P.underlyingAssetUnit * 2 ^ value.toInt.toNat := by
  unfold coinValueToAssetAmount at h
  split at h
  · cases h
  · split at h
    · rename_i hneg
      have hneg : value.toInt < 0 := by simpa [Int8.lt_iff_toInt_lt] using hneg
      simp only [bind_eq_ok, okOr_eq_ok, ensure_eq_ok] at h
      obtain ⟨shifted, hshift, -, hback, h⟩ := h
      cases h
      rw [show (-value.toInt).toNat = value.toInt.natAbs by omega, show value.toInt.toNat = 0 by omega, pow_zero,
        mul_one]
      exact (eq_mul_of_checkedShr hshift hback).symm
    · rename_i hneg
      have hneg : 0 ≤ value.toInt := by simpa [Int8.lt_iff_toInt_lt] using hneg
      simp only [bind_eq_ok, okOr_eq_ok, ensure_eq_ok] at h
      obtain ⟨shifted, hshift, -, hback, h⟩ := h
      cases h
      rw [show (-value.toInt).toNat = 0 by omega, pow_zero, mul_one]
      exact eq_mul_of_checkedShl hshift hback

theorem lt_of_coinValueToAssetAmount {amount : Nat} (h : P.coinValueToAssetAmount value = .ok amount) :
    amount < 2 ^ P.balanceBits := by
  unfold coinValueToAssetAmount at h
  split at h
  · cases h
  · split at h
    · simp only [bind_eq_ok, okOr_eq_ok, ensure_eq_ok, checkedShr_eq_some] at h
      obtain ⟨shifted, ⟨-, rfl⟩, -, -, h⟩ := h
      cases h
      exact (Nat.div_le_self _ _).trans_lt P.underlyingAssetUnit_lt
    · simp only [bind_eq_ok, okOr_eq_ok, ensure_eq_ok, checkedShl_eq_some] at h
      obtain ⟨shifted, ⟨-, rfl⟩, -, -, h⟩ := h
      cases h
      exact Nat.mod_lt _ (Nat.two_pow_pos _)

theorem exponentOffset_eq_some {low high : CoinValue} {n : Nat} :
    exponentOffset low high = some n ↔ high.toInt - low.toInt = n := by
  unfold exponentOffset
  split
  · rw [Option.some.injEq]
    omega
  · simp only [reduceCtorEq, false_iff]
    omega

/-- How many least coins a coin is worth, unless the value is out of bounds. -/
def coinValueToUnit (P : Parameters) (value : CoinValue) : Option Nat := do
  let offset ← exponentOffset P.minimumExponent value
  checkedShl 32 1 offset

end Parameters

namespace Config
variable {T : Config} {value : CoinValue}

/-- The values that coins may have. -/
def InRange (T : Config) (value : CoinValue) : Prop := T.minimumExponent ≤ value ∧ value ≤ T.maximumExponent

instance (value : CoinValue) : Decidable (T.InRange value) := by
  unfold InRange
  infer_instance

theorem inRange_minimumExponent (T : Config) : T.InRange T.minimumExponent :=
  ⟨Int8.le_refl _, T.integrity.minimumExponent_le⟩

/-- The exponents of coins lie within 32 of each other. -/
theorem InRange.exists_offset (h : T.InRange value) :
    ∃ n, value.toInt - T.minimumExponent.toInt = (n : Nat) ∧ n < 32 := by
  have hmax := T.integrity.maximumCoin
  obtain ⟨unit, hunit⟩ := Option.isSome_iff_exists.mp hmax
  obtain ⟨n, hn, hshift⟩ := Option.bind_eq_some_iff.mp hunit
  have hn := Parameters.exponentOffset_eq_some.mp hn
  have hlt := (checkedShl_eq_some.mp hshift).1
  have hlow := Int8.le_iff_toInt_le.mp h.1
  have hhigh := Int8.le_iff_toInt_le.mp h.2
  exact ⟨(value.toInt - T.minimumExponent.toInt).toNat, by omega, by omega⟩

theorem coinValueToUnit_eq {n : Nat} (h : value.toInt - T.minimumExponent.toInt = n) (hn : n < 32) :
    T.coinValueToUnit value = some (2 ^ n) := by
  rw [Parameters.coinValueToUnit, Parameters.exponentOffset_eq_some.mpr h]
  exact checkedShl_one hn

/-- A coin's amount is a whole number of the underlying asset. -/
theorem InRange.exists_amount (h : T.InRange value) : ∃ amount, T.coinValueToAssetAmount value = .ok amount := by
  have hok := T.integrity.coinValueToAssetAmount_isOk value h.1 h.2
  cases hamount : T.coinValueToAssetAmount value with
  | error e =>
    rw [hamount] at hok
    cases hok
  | ok amount => exact ⟨amount, rfl⟩

/-- Amounts of two values differ by the power of two between them. -/
theorem amount_eq_mul_of_offset {low high : CoinValue} {n a b : Nat} (h : high.toInt - low.toInt = n)
    (ha : T.coinValueToAssetAmount low = .ok a) (hb : T.coinValueToAssetAmount high = .ok b) : b = 2 ^ n * a := by
  have hlow := Parameters.mul_eq_of_coinValueToAssetAmount ha
  have hhigh := Parameters.mul_eq_of_coinValueToAssetAmount hb
  have hexp : (-low.toInt).toNat + high.toInt.toNat = n + ((-high.toInt).toNat + low.toInt.toNat) := by omega
  refine Nat.eq_of_mul_eq_mul_right (Nat.two_pow_pos ((-high.toInt).toNat + low.toInt.toNat)) ?_
  calc b * 2 ^ ((-high.toInt).toNat + low.toInt.toNat)
      = b * 2 ^ (-high.toInt).toNat * 2 ^ low.toInt.toNat := by rw [pow_add, mul_assoc]
    _ = T.underlyingAssetUnit * 2 ^ high.toInt.toNat * 2 ^ low.toInt.toNat := by rw [hhigh]
    _ = T.underlyingAssetUnit * 2 ^ low.toInt.toNat * 2 ^ high.toInt.toNat := by rw [mul_right_comm]
    _ = a * 2 ^ (-low.toInt).toNat * 2 ^ high.toInt.toNat := by rw [hlow]
    _ = a * 2 ^ ((-low.toInt).toNat + high.toInt.toNat) := by rw [pow_add, mul_assoc]
    _ = 2 ^ n * a * 2 ^ ((-high.toInt).toNat + low.toInt.toNat) := by rw [hexp, pow_add, ← mul_assoc, mul_comm a]

/-- A coin is worth as many least coins as it has units. -/
theorem coinValueToAssetAmount_eq_mul {unit a b : Nat} (hunit : T.coinValueToUnit value = some unit)
    (ha : T.coinValueToAssetAmount T.minimumExponent = .ok a) (hb : T.coinValueToAssetAmount value = .ok b) :
    b = unit * a := by
  obtain ⟨n, hn, hshift⟩ := Option.bind_eq_some_iff.mp hunit
  have hoffset := Parameters.exponentOffset_eq_some.mp hn
  rw [checkedShl_one (checkedShl_eq_some.mp hshift).1, Option.some.injEq] at hshift
  rw [← hshift]
  exact amount_eq_mul_of_offset hoffset ha hb

/-- How many of the underlying asset a coin is worth, zero for a value that no coin has. -/
def amount (T : Config) (value : CoinValue) : Nat := (T.coinValueToAssetAmount value).toOption.getD 0

/-- How many least coins a coin is worth, zero for a value below all coins'. -/
def units (T : Config) (value : CoinValue) : Nat := (T.coinValueToUnit value).getD 0

theorem InRange.coinValueToAssetAmount (h : T.InRange value) : T.coinValueToAssetAmount value = .ok (T.amount value) := by
  obtain ⟨amount, hamount⟩ := h.exists_amount
  rw [Config.amount, hamount]
  rfl

theorem InRange.amount_eq_mul (h : T.InRange value) {unit : Nat} (hunit : T.coinValueToUnit value = some unit) :
    T.amount value = unit * T.amount T.minimumExponent :=
  coinValueToAssetAmount_eq_mul hunit T.inRange_minimumExponent.coinValueToAssetAmount h.coinValueToAssetAmount

end Config

/-! ### Splits -/

/-- What the loop over the groups of a split has seen. -/
structure SplitProgress where
  previousCoinValue : Option CoinValue
  splitOutputCount : Nat
  totalUnit : Nat

/-- The destinations of the coins of one value in a split. -/
abbrev SplitGroup (T : Config) : Type := CoinValue × BoundedVec T.AccountId T.maxSplitOutputs

namespace Store
variable {T : Config} (s : Store T)

def validateSplitGroup (p : SplitProgress) (group : SplitGroup T) : Except CustomInvalidity SplitProgress := do
  let (value, dest) := group
  ensure (dest.toList ≠ []) .emptySplit
  ensure (T.minimumExponent ≤ value) .splitExponentTooSmall
  ensure (value ≤ T.maximumExponent) .splitExponentTooBig
  ensure (∀ previousCoinValue ∈ p.previousCoinValue, previousCoinValue < value) .splitIntoNotSorted
  -- A length within 32 bits, as the bound of the vector is.
  let splitOutputCountForValue := dest.length
  let splitOutputCount ← okOr (checkedAdd 32 p.splitOutputCount splitOutputCountForValue) .tooManySplits
  ensure (splitOutputCount ≤ T.maxSplitOutputs) .tooManySplits
  ensure (dest.toList.all (fun d => !s.coinsByOwner.contains d) = true) .addressAlreadyHasCoin
  let valueUnit ← okOr (T.coinValueToUnit value) .internalError
  let additionalUnitForValue ← okOr (checkedMul 32 splitOutputCountForValue valueUnit) .invalidSplit
  let totalUnit ← okOr (checkedAdd 32 p.totalUnit additionalUnitForValue) .invalidSplit
  .ok ⟨some value, splitOutputCount, totalUnit⟩

/-- Whether two neighbours of a list are the same. -/
def adjacentDuplicates {α : Type} [DecidableEq α] (l : List α) : Bool := (l.zip l.tail).any fun w => w.1 = w.2

def validateSplitParams (expectedTotalUnits : Nat) (splitInto : List (SplitGroup T)) :
    Except CustomInvalidity PUnit := do
  let p ← splitInto.foldlM s.validateSplitGroup ⟨none, 0, 0⟩
  ensure (p.splitOutputCount ≤ T.maxSplitOutputs) .tooManySplits
  ensure (p.totalUnit = expectedTotalUnits) .invalidSplit
  let allDests := (splitInto.flatMap fun group => group.2.toList).insertionSort (· ≤ ·)
  ensure (adjacentDuplicates allDests = false) .duplicateDestinationsInSplit

def validateSplit (coin : Coin) (splitInto : List (SplitGroup T)) : Except CustomInvalidity PUnit := do
  ensure (coin.age < T.maximumAge) .coinTooOld
  let expectedTotal ← okOr (T.coinValueToUnit coin.value) .internalError
  s.validateSplitParams expectedTotal splitInto

/-! ### What a valid split is worth -/

/-- In a sorted list without equal neighbours, the elements ascend. -/
theorem pairwise_lt_of_adjacentDuplicates {α : Type} [LinearOrder α] {l : List α} (hsorted : l.Pairwise (· ≤ ·))
    (h : adjacentDuplicates l = false) : l.Pairwise (· < ·) := by
  induction l with
  | nil => exact List.Pairwise.nil
  | cons a l ih =>
    cases l with
    | nil => exact List.pairwise_singleton _ _
    | cons b rest =>
      rw [List.pairwise_cons] at hsorted
      simp only [adjacentDuplicates, List.tail_cons, List.zip_cons_cons, List.any_cons, Bool.or_eq_false_iff,
        decide_eq_false_iff_not] at h
      have hrest := ih hsorted.2 (by simpa only [adjacentDuplicates, List.tail_cons] using h.2)
      have hab : a < b := lt_of_le_of_ne (hsorted.1 b List.mem_cons_self) h.1
      refine List.pairwise_cons.mpr ⟨fun c hc => ?_, hrest⟩
      rcases List.mem_cons.mp hc with rfl | hc
      · exact hab
      · exact hab.trans ((List.pairwise_cons.mp hrest).1 c hc)

theorem nodup_of_adjacentDuplicates {α : Type} [LinearOrder α] {l : List α}
    (h : adjacentDuplicates (l.insertionSort (· ≤ ·)) = false) : l.Nodup := by
  have hsorted := List.pairwise_insertionSort (· ≤ ·) l
  have hnodup : (l.insertionSort (· ≤ ·)).Nodup := (pairwise_lt_of_adjacentDuplicates hsorted h).imp ne_of_lt
  exact (List.perm_insertionSort (· ≤ ·) l).nodup_iff.mp hnodup

/-- A group of a split that has been looked at. -/
structure GroupValid (group : SplitGroup T) : Prop where
  inRange : T.InRange group.1
  ne_nil : group.2.toList ≠ []
  coinless : ∀ d ∈ group.2.toList, s.coinsByOwner.get d = none

/-- The units counted so far are those of the groups seen so far, and are worth what these are. -/
structure Accounts (done : List (SplitGroup T)) (p : SplitProgress) : Prop where
  groups : ∀ group ∈ done, s.GroupValid group
  units : (done.map fun group => group.2.length * T.units group.1).sum = p.totalUnit
  amount : (done.map fun group => group.2.length * T.amount group.1).sum = p.totalUnit * T.amount T.minimumExponent

theorem Accounts.step {done : List (SplitGroup T)} {p p' : SplitProgress} {group : SplitGroup T}
    (h : s.Accounts done p) (hstep : s.validateSplitGroup p group = .ok p') : s.Accounts (done ++ [group]) p' := by
  obtain ⟨value, dest⟩ := group
  simp only [validateSplitGroup, bind_eq_ok, ensure_eq_ok, okOr_eq_ok, checkedAdd_eq_some, checkedMul_eq_some] at hstep
  obtain ⟨-, hne, -, hlow, -, hhigh, -, -, count, -, -, -, -, hcoinless, unit, hunit, units, ⟨-, rfl⟩, total,
    ⟨-, rfl⟩, hstep⟩ := hstep
  cases hstep
  refine ⟨fun group hgroup => ?_, ?_, ?_⟩
  · rcases List.mem_append.mp hgroup with hdone | hlast
    · exact h.groups group hdone
    · rw [List.mem_singleton] at hlast
      subst hlast
      refine ⟨⟨hlow, hhigh⟩, hne, fun d hd => ?_⟩
      have := List.all_eq_true.mp hcoinless d hd
      simpa only [Bool.not_eq_true', StorageMap.contains_eq_false] using this
  · rw [List.map_append, List.sum_append, h.units, List.map_singleton, List.sum_singleton, Config.units, hunit]
    rfl
  · rw [List.map_append, List.sum_append, h.amount, List.map_singleton, List.sum_singleton,
      Config.InRange.amount_eq_mul ⟨hlow, hhigh⟩ hunit, Nat.add_mul, Nat.mul_assoc]

/-- A split that is accepted is worth as much as the units it was to be, and its outputs go to
distinct accounts that have no coin. -/
theorem validateSplitParams_spec {expectedTotalUnits : Nat} {splitInto : List (SplitGroup T)} {u : PUnit}
    (h : s.validateSplitParams expectedTotalUnits splitInto = .ok u) :
    (∀ group ∈ splitInto, s.GroupValid group) ∧
    (splitInto.map fun group => group.2.length * T.units group.1).sum = expectedTotalUnits ∧
    (splitInto.map fun group => group.2.length * T.amount group.1).sum =
      expectedTotalUnits * T.amount T.minimumExponent ∧
    (splitInto.flatMap fun group => group.2.toList).Nodup := by
  simp only [validateSplitParams, bind_eq_ok, ensure_eq_ok] at h
  obtain ⟨p, hfold, -, -, -, rfl, hdup⟩ := h
  have haccounts : s.Accounts splitInto p := foldlM_ok_induction (fun done p => s.Accounts done p) hfold
    ⟨fun _ hmem => absurd hmem List.not_mem_nil, rfl, (Nat.zero_mul _).symm⟩
    fun _ _ _ _ _ ht hstep => ht.step s hstep
  exact ⟨haccounts.groups, haccounts.units, haccounts.amount, nodup_of_adjacentDuplicates hdup⟩

end Store
end Individuality.Coinage
