import Individuality.Coinage.Types
import Individuality.Members.Ideal

/-! A sample configuration: a unit of a million that is split into 64ths, and rings of four pages. -/
namespace Individuality.Coinage
open Support

def sampleParameters : Parameters where
  balanceBits := 128
  underlyingAssetUnit := 1000000
  minimumExponent := -6
  maximumExponent := 14
  minimumExponentForOutputUnloadFee := -2
  maximumAge := 10
  maxSplitOutputs := 16
  maxConsolidation := 16
  underlyingAssetUnit_lt := by decide
  maxSplitOutputs_le := by decide
  maxConsolidation_le := by decide

theorem sampleParameters_isOk {value : CoinValue} (hlow : (-6 : CoinValue) ≤ value) (hhigh : value ≤ 14) :
    (sampleParameters.coinValueToAssetAmount value).isOk = true := by
  have hall : ∀ n ∈ List.range 21, (sampleParameters.coinValueToAssetAmount (Int8.ofInt (n - 6))).isOk = true := by
    decide
  have hlow : -6 ≤ value.toInt := Int8.le_iff_toInt_le.mp hlow
  have hhigh : value.toInt ≤ 14 := Int8.le_iff_toInt_le.mp hhigh
  have hvalue := hall (value.toInt + 6).toNat (List.mem_range.mpr (by omega))
  rwa [show ((value.toInt + 6).toNat : Int) - 6 = value.toInt by omega, Int8.ofInt_toInt] at hvalue

theorem sampleParameters_integrity : sampleParameters.IntegrityTest where
  underlyingAssetUnit_ne := by decide
  minimumExponent_le := by decide
  maximumCoin := by decide
  le_minimumExponentForOutputUnloadFee := by decide
  minimumExponentForOutputUnloadFee_le := by decide
  coinValueToAssetAmount_isOk _ hlow hhigh := sampleParameters_isOk hlow hhigh
  maxConsolidation_pos := by decide
  maxSplitOutputs_ge := by decide

/-- Over the ideal ring-VRF, every account's signatures are accepted. -/
def sampleConfig : Config where
  toParameters := sampleParameters
  members := Members.sampleConfig
  AccountId := Nat
  Signature := Unit
  accountOrder := inferInstance
  aliasDecEq := inferInstanceAs (DecidableEq (Nat × Nat))
  verifySignature _ _ _ := true
  batchValidate capacity root items := items.mapM fun item => Members.idealVrf.validate capacity item.1 root item.2.1 item.2.2
  unloadingRecyclerContext := (7 : Nat)
  collectionOwner := (0 : Nat)
  recyclerRingExponent := .r2e10
  paidUnloadTokenRingExponent := .r2e10
  recyclerExpirationTime := 1000
  paidUnloadTokenRingExpirationTime := 50
  paidUnloadTokenTimePeriod := 100
  recyclerExpirationTime_le := by decide
  paidUnloadTokenRingExpirationTime_le := by decide
  paidUnloadTokenTimePeriod_le := by decide
  integrity := sampleParameters_integrity

end Individuality.Coinage
