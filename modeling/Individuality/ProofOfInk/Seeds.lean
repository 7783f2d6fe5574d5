import Individuality.ProofOfInk.Books
import Mathlib.Data.Finset.Card
import Mathlib.Data.Finset.Range

/-! Procedural seeds.

A derived seed has three bits of its parent's flipped, and the seed of a variant takes
four bytes of the entropy. Both draw without replacement from a range that shrinks, and
replace what has been drawn before by a rule of their own. The replacement may have been
drawn as well: a bit is then flipped twice, and a byte taken twice. `seeds_drawn` says
for which entropy and which variants that happens, and what holds of every draw: some bit
is always flipped, and no two variants take the same bytes. -/
namespace Individuality.ProofOfInk
open Support

/-! ### Bits -/

def bitAt (seed : ProceduralSeed) (p : Nat) : Bool := ((seed[p / 8]?).getD 0).toNat.testBit (p % 8)

/-- The bits in which two seeds differ. -/
def changedBits (a b : ProceduralSeed) : Finset Nat := (Finset.range 32).filter fun p => bitAt a p ≠ bitAt b p

section Bits
variable {seed a b : ProceduralSeed} {p q : Nat}

theorem toNat_ofNat_shift {k : Nat} (hk : k < 8) : (UInt8.ofNat (1 <<< k)).toNat = 2 ^ k := by
  rw [Nat.one_shiftLeft, UInt8.toNat_ofNat_of_lt']
  exact Nat.pow_lt_pow_right Nat.one_lt_two hk

/-- Flipping a bit changes that one. -/
theorem bitAt_flipBit (hp : p < 32) : bitAt (flipBit seed p) q = (bitAt seed q ^^ decide (p = q)) := by
  have hbyte : p / 8 < 4 := by omega
  have hget : seed.get (Fin.ofNat 4 (p / 8)) = seed[p / 8] := by
    show seed[p / 8 % 4] = seed[p / 8]
    simp only [Nat.mod_eq_of_lt hbyte]
  unfold bitAt flipBit
  rw [hget, Vector.getElem?_setIfInBounds]
  by_cases hsame : p / 8 = q / 8
  · rw [if_pos hsame, if_pos hbyte, ← hsame, Vector.getElem?_eq_getElem hbyte, Option.getD_some, Option.getD_some,
      UInt8.toNat_xor, Nat.testBit_xor, toNat_ofNat_shift (Nat.mod_lt p (by decide)), Nat.testBit_two_pow]
    have hiff : p % 8 = q % 8 ↔ p = q := by omega
    rw [decide_eq_decide.mpr hiff]
  · have hne : p ≠ q := fun heq => hsame (by rw [heq])
    rw [if_neg hsame, decide_eq_false hne, Bool.xor_false]

/-- A seed is its bits. -/
theorem eq_of_bitAt (h : ∀ p < 32, bitAt a p = bitAt b p) : a = b := by
  refine Vector.ext fun i hi => UInt8.toNat_inj.mp (Nat.eq_of_testBit_eq fun k => ?_)
  by_cases hk : k < 8
  · have hbit := h (8 * i + k) (by omega)
    have hdiv : (8 * i + k) / 8 = i := by omega
    have hmod : (8 * i + k) % 8 = k := by omega
    unfold bitAt at hbit
    rwa [hdiv, hmod, Vector.getElem?_eq_getElem hi, Vector.getElem?_eq_getElem hi] at hbit
  · have hwide : 2 ^ 8 ≤ 2 ^ k := Nat.pow_le_pow_right Nat.two_pos (by omega)
    rw [Nat.testBit_lt_two_pow ((UInt8.toNat_lt _).trans_le hwide),
      Nat.testBit_lt_two_pow ((UInt8.toNat_lt _).trans_le hwide)]

theorem mem_changedBits : p ∈ changedBits a b ↔ p < 32 ∧ bitAt a p ≠ bitAt b p := by
  rw [changedBits, Finset.mem_filter, Finset.mem_range]

end Bits

/-! ### Derived seeds -/

/-- What the entropy draws for the turn `i`, out of what is then left of the range. -/
theorem neZero_length : NeZero 32 := ⟨by decide⟩

def drawn (entropy : Entropy) (i : Nat) : Nat :=
  (entropy.get (@Fin.ofNat 32 neZero_length i)).toNat % (32 - i)

def firstBit (entropy : Entropy) : Nat := drawn entropy 0

def secondBit (entropy : Entropy) : Nat := if drawn entropy 1 = firstBit entropy then 31 else drawn entropy 1

def thirdBit (entropy : Entropy) : Nat :=
  if drawn entropy 2 = firstBit entropy ∨ drawn entropy 2 = secondBit entropy then 30 else drawn entropy 2

/-- The third draw repeats an earlier one and is replaced by 30, which has been drawn as well. -/
def RepeatsBit (entropy : Entropy) : Prop :=
  drawn entropy 0 = 30 ∧ drawn entropy 1 = drawn entropy 2 ∨ drawn entropy 1 = 30 ∧ drawn entropy 0 = drawn entropy 2

instance (entropy : Entropy) : Decidable (RepeatsBit entropy) := by
  unfold RepeatsBit
  infer_instance

section Derived
variable {seed parent : ProceduralSeed} {entropy : Entropy} {p : Nat}

theorem mutateSeed_eq (seed : ProceduralSeed) (entropy : Entropy) :
    mutateSeed seed entropy =
      flipBit (flipBit (flipBit seed (firstBit entropy)) (secondBit entropy)) (thirdBit entropy) := by
  simp only [mutateSeed, List.range_succ, List.range_zero, List.nil_append, List.foldl_append, List.foldl_cons,
    List.foldl_nil, List.not_mem_nil, if_false, List.mem_append, List.mem_singleton]
  rfl

theorem drawn_lt {i : Nat} (hi : i < 32) : drawn entropy i < 32 - i := Nat.mod_lt _ (by omega)

/-- The first two draws never meet, and the third meets one of them just in the case above. -/
theorem bits_drawn (entropy : Entropy) :
    firstBit entropy < 32 ∧ secondBit entropy < 32 ∧ thirdBit entropy < 32 ∧
    firstBit entropy ≠ secondBit entropy ∧
    (thirdBit entropy = firstBit entropy ∨ thirdBit entropy = secondBit entropy ↔ RepeatsBit entropy) := by
  have h₀ : drawn entropy 0 < 32 - 0 := drawn_lt (by decide)
  have h₁ : drawn entropy 1 < 32 - 1 := drawn_lt (by decide)
  have h₂ : drawn entropy 2 < 32 - 2 := drawn_lt (by decide)
  unfold thirdBit secondBit firstBit RepeatsBit
  generalize drawn entropy 0 = e₀ at *
  generalize drawn entropy 1 = e₁ at *
  generalize drawn entropy 2 = e₂ at *
  split <;> split <;> omega

theorem bitAt_mutateSeed :
    bitAt (mutateSeed seed entropy) p =
      (bitAt seed p ^^ decide (firstBit entropy = p) ^^ decide (secondBit entropy = p) ^^
        decide (thirdBit entropy = p)) := by
  obtain ⟨h₀, h₁, h₂, -, -⟩ := bits_drawn entropy
  rw [mutateSeed_eq, bitAt_flipBit h₂, bitAt_flipBit h₁, bitAt_flipBit h₀]

/-- The bits that come out flipped. -/
def Flipped (entropy : Entropy) (p : Nat) : Bool :=
  decide (firstBit entropy = p) ^^ decide (secondBit entropy = p) ^^ decide (thirdBit entropy = p)

variable (seed) in
theorem bitAt_mutateSeed_ne : bitAt seed p ≠ bitAt (mutateSeed seed entropy) p ↔ Flipped entropy p = true := by
  rw [bitAt_mutateSeed, Flipped]
  cases bitAt seed p <;> cases decide (firstBit entropy = p) <;> cases decide (secondBit entropy = p) <;>
    cases decide (thirdBit entropy = p) <;> decide

/-- Where no draw is repeated, three bits are flipped. -/
theorem changedBits_of_distinct (h : ¬RepeatsBit entropy) :
    changedBits seed (mutateSeed seed entropy) = {firstBit entropy, secondBit entropy, thirdBit entropy} := by
  obtain ⟨h₀, h₁, h₂, hne, hrepeats⟩ := bits_drawn entropy
  rw [← hrepeats, not_or] at h
  ext p
  rw [mem_changedBits, bitAt_mutateSeed_ne, Flipped, Finset.mem_insert, Finset.mem_insert, Finset.mem_singleton]
  by_cases hfirst : firstBit entropy = p
  · subst hfirst
    simp [h₀, hne.symm, h.1]
  · by_cases hsecond : secondBit entropy = p
    · subst hsecond
      simp [h₁, hne, h.2]
    · by_cases hthird : thirdBit entropy = p
      · subst hthird
        simp [h₂, Ne.symm h.1, Ne.symm h.2]
      · simp [hfirst, hsecond, hthird, Ne.symm hfirst, Ne.symm hsecond, Ne.symm hthird]

/-- Where one is, the bit is flipped back, and a single bit stays flipped. -/
theorem changedBits_of_repeats (seed : ProceduralSeed) (h : RepeatsBit entropy) :
    ∃ p < 32, changedBits seed (mutateSeed seed entropy) = {p} := by
  obtain ⟨h₀, h₁, -, hne, hrepeats⟩ := bits_drawn entropy
  rcases hrepeats.mpr h with hthird | hthird
  · refine ⟨secondBit entropy, h₁, ?_⟩
    ext p
    rw [mem_changedBits, bitAt_mutateSeed_ne, Flipped, hthird, Finset.mem_singleton]
    by_cases hsecond : secondBit entropy = p
    · subst hsecond
      simp [h₁, hne]
    · simp [hsecond, Ne.symm hsecond]
  · refine ⟨firstBit entropy, h₀, ?_⟩
    ext p
    rw [mem_changedBits, bitAt_mutateSeed_ne, Flipped, hthird, Finset.mem_singleton]
    by_cases hfirst : firstBit entropy = p
    · subst hfirst
      simp [h₀, hne.symm]
    · simp [hfirst, Ne.symm hfirst]

theorem card_changedBits : (changedBits seed (mutateSeed seed entropy)).card = 3 ↔ ¬RepeatsBit entropy := by
  constructor
  · intro hcard hrepeats
    obtain ⟨p, -, hone⟩ := changedBits_of_repeats seed hrepeats
    rw [hone, Finset.card_singleton] at hcard
    cases hcard
  · intro h
    obtain ⟨-, -, -, hne, hrepeats⟩ := bits_drawn entropy
    rw [← hrepeats, not_or] at h
    rw [changedBits_of_distinct (mt hrepeats.mpr (not_or.mpr h)), Finset.card_eq_three]
    exact ⟨_, _, _, hne, Ne.symm h.1, Ne.symm h.2, rfl⟩

/-- One bit or three, but never none. -/
theorem mutateSeed_ne (seed : ProceduralSeed) (entropy : Entropy) : mutateSeed seed entropy ≠ seed := by
  intro heq
  have hnone : changedBits seed (mutateSeed seed entropy) = ∅ := by
    rw [heq]
    exact Finset.filter_eq_empty_iff.mpr fun _ _ hne => hne rfl
  by_cases h : RepeatsBit entropy
  · obtain ⟨p, -, hone⟩ := changedBits_of_repeats seed h
    rw [hone] at hnone
    exact Finset.singleton_ne_empty p hnone
  · rw [changedBits_of_distinct h] at hnone
    exact Finset.insert_ne_empty _ _ hnone

/-- A seed is mutated to another exactly where the other differs in the bits that are flipped. -/
theorem mutateSeed_eq_iff :
    mutateSeed seed entropy = parent ↔ ∀ p < 32, bitAt parent p ≠ bitAt seed p ↔ Flipped entropy p = true := by
  constructor
  · rintro rfl p -
    rw [← bitAt_mutateSeed_ne seed]
    exact ne_comm
  · intro h
    refine eq_of_bitAt fun p hp => ?_
    have hflipped : bitAt seed p ≠ bitAt (mutateSeed seed entropy) p ↔ Flipped entropy p = true :=
      bitAt_mutateSeed_ne seed
    rw [← h p hp] at hflipped
    revert hflipped
    cases bitAt seed p <;> cases bitAt (mutateSeed seed entropy) p <;> cases bitAt parent p <;> decide

end Derived

/-! ### Variants -/

/-- The places in the entropy that a variant takes its bytes from. -/
def placesOf (variant : Nat) : List Nat :=
  if variant < 8 then [variant * 4, variant * 4 + 1, variant * 4 + 2, variant * 4 + 3] else seedIndices variant

/-- The variants with a byte that is taken twice. -/
def RepeatsByte (variant : Nat) : Prop := 32 ≤ variant ∧ variant < 64 ∨ 64 ≤ variant ∧ variant % 32 = 1

instance (variant : Nat) : Decidable (RepeatsByte variant) := by
  unfold RepeatsByte
  infer_instance

/-- The variant that the places are those of. -/
def variantOf : List Nat → Nat
  | [w, x, y, z] =>
    if w % 4 = 0 ∧ x = w + 1 ∧ y = w + 2 ∧ z = w + 3 then w / 4 else w + 32 * if w < x then x - 1 else x
  | _ => 0

theorem places_of_variants : ∀ v < 256, (placesOf v).length = 4 ∧ (∀ i ∈ placesOf v, i < 32) ∧
    ((placesOf v).Nodup ↔ ¬RepeatsByte v) ∧ variantOf (placesOf v) = v := by decide +kernel

section Variants
variable {entropy : Entropy} {v v' : Nat}

theorem entropyToSeed_eq (entropy : Entropy) (hv : v < 256) :
    (entropyToSeed entropy v).toList = (placesOf v).map fun i => entropy.get (Fin.ofNat 32 i) := by
  obtain ⟨hlength, -, -, -⟩ := places_of_variants v hv
  unfold entropyToSeed placesOf at *
  split
  · rfl
  · rename_i hlarge
    rw [if_neg hlarge] at hlength
    obtain ⟨w, x, y, z, hplaces⟩ : ∃ w x y z, seedIndices v = [w, x, y, z] := by
      match seedIndices v, hlength with
      | [w, x, y, z], _ => exact ⟨w, x, y, z, rfl⟩
    rw [hplaces]
    rfl

/-- Different places hold different bytes. -/
theorem get_inj (hnodup : entropy.toList.Nodup) {i j : Nat} (hi : i < 32) (hj : j < 32)
    (h : entropy.get (Fin.ofNat 32 i) = entropy.get (Fin.ofNat 32 j)) : i = j := by
  have hlen : entropy.toList.length = 32 := Vector.length_toList
  have hget : ∀ {k} (hk : k < entropy.toList.length), entropy.get (Fin.ofNat 32 k) = entropy.toList[k] := by
    intro k hk
    show entropy[k % 32] = _
    simp only [Nat.mod_eq_of_lt (hlen ▸ hk), Vector.getElem_toList]
  rw [← hlen] at hi hj
  rw [hget hi, hget hj] at h
  exact (List.Nodup.getElem_inj_iff hnodup).mp h

theorem nodup_entropyToSeed (hnodup : entropy.toList.Nodup) (hv : v < 256) :
    (entropyToSeed entropy v).toList.Nodup ↔ ¬RepeatsByte v := by
  obtain ⟨-, hbounds, hplaces, -⟩ := places_of_variants v hv
  rw [entropyToSeed_eq entropy hv, ← hplaces]
  exact ⟨fun h => h.of_map, fun h => h.map_on fun i hi j hj heq => get_inj hnodup (hbounds i hi) (hbounds j hj) heq⟩

theorem mem_entropyToSeed (hv : v < 256) {b : UInt8} (hb : b ∈ (entropyToSeed entropy v).toList) :
    b ∈ entropy.toList := by
  rw [entropyToSeed_eq entropy hv] at hb
  obtain ⟨i, -, rfl⟩ := List.mem_map.mp hb
  show entropy[i % 32] ∈ _
  exact Vector.mem_toList_iff.mpr (Vector.getElem_mem _)

theorem eq_of_map_eq {l l' : List Nat} (hl : ∀ i ∈ l, i < 32) (hl' : ∀ i ∈ l', i < 32) (hnodup : entropy.toList.Nodup)
    (h : (l.map fun i => entropy.get (Fin.ofNat 32 i)) = l'.map fun i => entropy.get (Fin.ofNat 32 i)) : l = l' := by
  induction l generalizing l' with
  | nil => exact (List.map_eq_nil_iff.mp h.symm).symm
  | cons i l ih =>
    cases l' with
    | nil => cases h
    | cons j l' =>
      obtain ⟨hhead, htail⟩ := List.cons.inj h
      rw [get_inj hnodup (hl i List.mem_cons_self) (hl' j List.mem_cons_self) hhead,
        ih (fun k hk => hl k (List.mem_cons_of_mem i hk)) (fun k hk => hl' k (List.mem_cons_of_mem j hk)) htail]

/-- From the bytes of a seed one can tell the variant. -/
theorem entropyToSeed_inj (hnodup : entropy.toList.Nodup) (hv : v < 256) (hv' : v' < 256)
    (h : entropyToSeed entropy v = entropyToSeed entropy v') : v = v' := by
  obtain ⟨-, hbounds, -, hvariant⟩ := places_of_variants v hv
  obtain ⟨-, hbounds', -, hvariant'⟩ := places_of_variants v' hv'
  have hlists := congrArg Vector.toList h
  rw [entropyToSeed_eq entropy hv, entropyToSeed_eq entropy hv'] at hlists
  rw [← hvariant, ← hvariant', eq_of_map_eq hbounds hbounds' hnodup hlists]

end Variants

/-! ### The draws together -/

theorem two_lt_length : 2 < 4 := by decide

theorem three_lt_length : 3 < 4 := by decide

/-- The parent's seed with the last two bytes of the second parent's. -/
def crossed (seed seed2 : ProceduralSeed) : ProceduralSeed :=
  (seed.set 2 (getElem seed2 2 two_lt_length) two_lt_length).set 3 (getElem seed2 3 three_lt_length) three_lt_length

section Designs
variable {T : Config} {s : Store T} {parent parent2 family family2 id : Nat} {seed seed2 : ProceduralSeed}
  {account : T.AccountId}

theorem bakeDesign_derivative (hparent : proceduralOf s parent = .ok (family, seed)) (entropy : Entropy) :
    bakeDesign s (.proceduralDerivative parent none) entropy account id =
      .ok (.procedural family (mutateSeed seed entropy)) := by
  rw [bakeDesign, hparent]
  rfl

theorem bakeDesign_crossed (hparent : proceduralOf s parent = .ok (family, seed))
    (hparent2 : proceduralOf s parent2 = .ok (family2, seed2)) (entropy : Entropy) :
    bakeDesign s (.proceduralDerivative parent (some parent2)) entropy account id =
      .ok (.procedural family (mutateSeed (crossed seed seed2) entropy)) := by
  rw [bakeDesign, hparent]
  simp only [ok_bind, hparent2]
  rfl

end Designs

/-- Three different bits are flipped unless the third draw falls back on one that was drawn; the four
bytes of a variant are different unless its first two draws fall foul of each other, and no two variants have
the same bytes; and a derived design is another one than its parent's, unless a second parent's bytes make up
for the bits that are flipped. -/
theorem seeds_drawn (T : Config) :
    (∀ seed entropy, (changedBits seed (mutateSeed seed entropy)).card = 3 ↔ ¬RepeatsBit entropy) ∧
    (∀ entropy : Entropy, entropy.toList.Nodup → ∀ variant < 256,
      (∀ i ∈ placesOf variant, i < 32) ∧
      (∀ b ∈ (entropyToSeed entropy variant).toList, b ∈ entropy.toList) ∧
      ((entropyToSeed entropy variant).toList.Nodup ↔ ¬RepeatsByte variant) ∧
      ∀ variant' < 256, variant ≠ variant' → entropyToSeed entropy variant ≠ entropyToSeed entropy variant') ∧
    ∀ (s : Store T) (parent family id : Nat) (seed : ProceduralSeed) (entropy : Entropy) (account : T.AccountId),
      proceduralOf s parent = .ok (family, seed) →
      bakeDesign s (.proceduralDerivative parent none) entropy account id ≠ .ok (.procedural family seed) ∧
      ∀ (parent2 family2 : Nat) (seed2 : ProceduralSeed), proceduralOf s parent2 = .ok (family2, seed2) →
        (bakeDesign s (.proceduralDerivative parent (some parent2)) entropy account id ≠
            .ok (.procedural family seed) ↔
          ¬∀ p < 32, bitAt seed p ≠ bitAt (crossed seed seed2) p ↔ Flipped entropy p = true) := by
  refine ⟨fun seed entropy => card_changedBits, fun entropy hnodup variant hvariant =>
    ⟨(places_of_variants variant hvariant).2.1, fun b hb => mem_entropyToSeed hvariant hb,
      nodup_entropyToSeed hnodup hvariant,
      fun variant' hvariant' hne heq => hne (entropyToSeed_inj hnodup hvariant hvariant' heq)⟩,
    fun s parent family id seed entropy account hparent => ⟨?_, fun parent2 family2 seed2 hparent2 => ?_⟩⟩
  · rw [bakeDesign_derivative hparent]
    intro heq
    rw [Except.ok.injEq, InkSpec.procedural.injEq] at heq
    exact mutateSeed_ne seed entropy heq.2
  · rw [bakeDesign_crossed hparent hparent2, ← mutateSeed_eq_iff]
    simp only [ne_eq, Except.ok.injEq, InkSpec.procedural.injEq, true_and]

/-- Every byte is its own place. -/
def sampleBytes : Entropy := Vector.ofFn fun i => UInt8.ofNat i.val

theorem seeds_drawn_sample : (entropyToSeed sampleBytes 200).toList.Nodup := by
  obtain ⟨-, hvariants, -⟩ := seeds_drawn sampleConfig
  exact (hvariants sampleBytes (by decide +kernel) 200 (by decide)).2.2.1.mpr (by decide)

/-- The bit 30 is drawn first, and again in place of a bit that was drawn second; and the 33rd variant takes
the third byte twice. -/
theorem seeds_repeated :
    (changedBits #v[0, 0, 0, 0] (mutateSeed #v[0, 0, 0, 0] (sampleBytes.set 0 30 |>.set 1 5 |>.set 2 35))).card = 1 ∧
    entropyToSeed sampleBytes 32 = #v[0, 2, 1, 2] := by
  decide +kernel


end Individuality.ProofOfInk
