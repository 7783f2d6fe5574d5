import Individuality.Coinage.Ideal
import Individuality.Coinage.Recyclers

/-! Value is conserved by whatever converts coins: amounts and units agree, a split pays out what it takes in,
and a consolidation is worth its vouchers. -/
namespace Individuality.Coinage
open Support

/-- In every configuration that passes the integrity test: a coin's units and its amount are exact and agree; a
split is accepted only if its outputs make up the units it takes in, and go to distinct accounts without a coin;
and vouchers of a value are consolidated into a coin that is worth as much. -/
theorem denominations_exact (T : Config) :
    (∀ value, T.InRange value → ∃ unit amount least, T.coinValueToUnit value = some unit ∧
      T.coinValueToAssetAmount value = .ok amount ∧ T.coinValueToAssetAmount T.minimumExponent = .ok least ∧
      amount = unit * least ∧ unit < 2 ^ 32 ∧ amount < 2 ^ T.balanceBits ∧
      amount * 2 ^ (-value.toInt).toNat = T.underlyingAssetUnit * 2 ^ value.toInt.toNat) ∧
    (∀ (s : Store T) expectedTotalUnits splitInto u, s.validateSplitParams expectedTotalUnits splitInto = .ok u →
      (splitInto.map fun group => group.2.length * T.units group.1).sum = expectedTotalUnits ∧
      (splitInto.map fun group => group.2.length * T.amount group.1).sum =
        expectedTotalUnits * T.amount T.minimumExponent ∧
      (splitInto.flatMap fun group => group.2.toList).Nodup ∧
      ∀ group ∈ splitInto, T.InRange group.1 ∧ ∀ d ∈ group.2.toList, s.coinsByOwner.get d = none) ∧
    ∀ (s s' : State T) origin aliases value index revision dest, T.InRange value →
      s.unloadRecyclerIntoCoin origin aliases value index revision dest = .ok s' →
      ∃ (k : Nat) (newValue : CoinValue), aliases.length = 2 ^ k ∧ newValue.toInt = value.toInt + k ∧
        T.InRange newValue ∧ s'.coinage.coinsByOwner.get dest = some ⟨newValue, 0⟩ ∧
        aliases.length * T.amount value = T.amount newValue := by
  refine ⟨fun value hvalue => ?_, fun s expectedTotalUnits splitInto u h => ?_, ?_⟩
  · obtain ⟨n, hn, hlt⟩ := hvalue.exists_offset
    have hunit := T.coinValueToUnit_eq hn hlt
    have hamount := hvalue.coinValueToAssetAmount
    refine ⟨2 ^ n, T.amount value, T.amount T.minimumExponent, hunit, hamount,
      T.inRange_minimumExponent.coinValueToAssetAmount, hvalue.amount_eq_mul hunit, ?_, ?_, ?_⟩
    · exact Nat.pow_lt_pow_right Nat.one_lt_two hlt
    · exact Parameters.lt_of_coinValueToAssetAmount hamount
    · exact Parameters.mul_eq_of_coinValueToAssetAmount hamount
  · obtain ⟨hgroups, hunits, hamount, hnodup⟩ := s.validateSplitParams_spec h
    exact ⟨hunits, hamount, hnodup, fun group hgroup => ⟨(hgroups group hgroup).inRange, (hgroups group hgroup).coinless⟩⟩
  · intro s s' origin aliases value index revision dest hvalue h
    exact State.unloadRecyclerIntoCoin_spec h hvalue

/-- A coin of a million splits into two halves. -/
theorem denominations_exact_sample :
    sampleConfig.amount (-1) + sampleConfig.amount (-1) = sampleConfig.amount 0 ∧ sampleConfig.amount 0 = 1000000 := by
  let s : Store sampleConfig := ⟨∅, ∅, ∅, ∅, ∅, ∅, ∅, ∅, ∅, ∅, ∅⟩
  have hsplit : s.validateSplit ⟨0, 0⟩ [(-1, ⟨([4, 3] : List Nat), by decide⟩)] = .ok ⟨⟩ := by decide +kernel
  simp only [Store.validateSplit, bind_eq_ok, ensure_eq_ok, okOr_eq_ok] at hsplit
  obtain ⟨-, -, units, hunits, hsplit⟩ := hsplit
  obtain ⟨-, hamount, -, -⟩ := (denominations_exact sampleConfig).2.1 s units _ _ hsplit
  refine ⟨?_, by decide⟩
  have hrange : sampleConfig.InRange 0 := by decide
  have hzero := hrange.amount_eq_mul hunits
  rw [hzero, ← hamount]
  exact (Nat.two_mul _).symm

end Individuality.Coinage
