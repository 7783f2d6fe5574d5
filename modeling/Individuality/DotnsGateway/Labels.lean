import Individuality.Support.Grammar
import Individuality.Resources.Calls

/-! The grammar of names.

A label is checked byte by byte: for the label of a lite person, a loop looks for the
only dot, a second one checks the stem before it and a third one the digits after it.
`label_grammar`: the loops accept exactly the regular languages they are meant to,
the resources pallet accepts a part of them, and what it accepts for either kind of
person the gateway accepts for that kind and no other. -/
namespace Individuality.DotnsGateway
open Support Support.Grammar
open Resources (Config Username validateUsername isAsciiLowercase isAsciiDigit dot hyphen minLiteUsernameDigits)

/-! ### The validators -/

def isPersonLabel (bytes : List UInt8) : Bool := !bytes.isEmpty && bytes.all isAsciiLowercase

/-- Where the dot stands among the bytes that are left, the first of them at `i`. The length stands for
a dot that has not been found; nothing comes out when there is a second one. -/
def findDot (length : Nat) : List UInt8 → Nat → Nat → Option Nat
  | [], _, dotIndex => some dotIndex
  | b :: bytes, i, dotIndex =>
    if b = dot then
      if dotIndex ≠ length then none else findDot length bytes (i + 1) i
    else findDot length bytes (i + 1) dotIndex

def isLabelByte (b : UInt8) : Bool := isAsciiLowercase b || isAsciiDigit b || b == hyphen

def isDnsLabelRange (bytes : List UInt8) (start stop : Nat) : Bool :=
  if stop ≤ start then false
  else if bytes[start]? = some hyphen ∨ bytes[stop - 1]? = some hyphen then false
  else ((bytes.take stop).drop start).all isLabelByte

def isLitePersonLabel (bytes : List UInt8) : Bool :=
  let length := bytes.length
  if length < minLiteUsernameDigits + 2 then false
  else
    match findDot length bytes 0 length with
    | none => false
    | some dotIndex =>
      if dotIndex = length then false
      else if isDnsLabelRange bytes 0 dotIndex = false then false
      else
        let suffixStart := dotIndex + 1
        if length - suffixStart < minLiteUsernameDigits then false
        else (bytes.drop suffixStart).all isAsciiDigit

/-- The bytes before the first dot. -/
def beforeDot (bytes : List UInt8) : List UInt8 :=
  match bytes.findIdx? (· == dot) with
  | some index => bytes.take index
  | none => bytes

/-- A label that is forwarded to the contracts. -/
structure BaseLabel where
  bytes : BoundedVec UInt8 32
  deriving DecidableEq

namespace BaseLabel

def asSlice (label : BaseLabel) : List UInt8 := label.bytes.toList
def isValidLite (label : BaseLabel) : Bool := isLitePersonLabel label.asSlice
def isValidPerson (label : BaseLabel) : Bool := isPersonLabel label.asSlice
def liteBase (label : BaseLabel) : List UInt8 := beforeDot label.asSlice

end BaseLabel

/-! ### The languages -/

def isAlphanumeric (b : UInt8) : Bool := isAsciiLowercase b || isAsciiDigit b

/-- `[a-z0-9]([a-z0-9-]*[a-z0-9])?` -/
def dnsLabels : Language UInt8 := bracketed isAlphanumeric isLabelByte

/-- `[0-9]{2,}` -/
def digitSuffixes : Language UInt8 := atLeast minLiteUsernameDigits isAsciiDigit

def litePersonLabels : Language UInt8 := dnsLabels * {[dot]} * digitSuffixes

/-- `[a-z]{n,}` -/
def letters (n : Nat) : Language UInt8 := atLeast n isAsciiLowercase

section Classes
variable {b : UInt8} {stem rest : List UInt8}

theorem isLabelByte_of_isAlphanumeric (h : isAlphanumeric b = true) : isLabelByte b = true := by
  rw [isLabelByte, Bool.or_eq_true]
  exact .inl h

theorem isAlphanumeric_iff : isAlphanumeric b = true ↔ isLabelByte b = true ∧ b ≠ hyphen := by
  constructor
  · intro h
    refine ⟨isLabelByte_of_isAlphanumeric h, ?_⟩
    rintro rfl
    exact absurd h (by decide)
  · rintro ⟨hlabel, hne⟩
    rw [isLabelByte, Bool.or_eq_true, beq_iff_eq] at hlabel
    exact hlabel.resolve_right hne

theorem isLabelByte_dot : isLabelByte dot = false := by decide

theorem dot_notMem_of_dnsLabels (h : stem ∈ dnsLabels) : dot ∉ stem := by
  intro hmem
  have hall := ((mem_bracketed fun _ => isLabelByte_of_isAlphanumeric).mp h).2.2
  exact absurd (hall dot hmem) (by rw [isLabelByte_dot]; exact Bool.false_ne_true)

theorem dot_notMem_of_digitSuffixes (h : rest ∈ digitSuffixes) : dot ∉ rest := by
  intro hmem
  exact absurd ((mem_atLeast.mp h).2 dot hmem) (by decide)

theorem dot_notMem_of_letters {n : Nat} (h : stem ∈ letters n) : dot ∉ stem := by
  intro hmem
  exact absurd ((mem_atLeast.mp h).2 dot hmem) (by decide)

/-- The stem's ends are not hyphens. -/
theorem mem_dnsLabels :
    stem ∈ dnsLabels ↔
      stem ≠ [] ∧ stem.head? ≠ some hyphen ∧ stem.getLast? ≠ some hyphen ∧ ∀ b ∈ stem, isLabelByte b = true := by
  rw [dnsLabels, mem_bracketed fun _ => isLabelByte_of_isAlphanumeric]
  constructor
  · rintro ⟨⟨first, hhead, hfirst⟩, ⟨last, hgetLast, hlast⟩, hall⟩
    refine ⟨?_, ?_, ?_, hall⟩
    · rintro rfl
      cases hhead
    · rw [hhead]
      exact fun heq => (isAlphanumeric_iff.mp hfirst).2 (Option.some.inj heq)
    · rw [hgetLast]
      exact fun heq => (isAlphanumeric_iff.mp hlast).2 (Option.some.inj heq)
  · rintro ⟨hne, hhead, hgetLast, hall⟩
    have hends : ∀ {b}, b ∈ stem → b ≠ hyphen → isAlphanumeric b = true := fun hmem hne =>
      isAlphanumeric_iff.mpr ⟨hall _ hmem, hne⟩
    refine ⟨⟨stem.head hne, List.head?_eq_some_head hne, hends (List.head_mem hne) ?_⟩,
      ⟨stem.getLast hne, List.getLast?_eq_some_getLast hne, hends (List.getLast_mem hne) ?_⟩, hall⟩
    · intro heq
      exact hhead (by rw [List.head?_eq_some_head hne, heq])
    · intro heq
      exact hgetLast (by rw [List.getLast?_eq_some_getLast hne, heq])

end Classes

/-! ### The loops -/

section Loops
variable {length i dotIndex : Nat} {stem rest bytes : List UInt8}

theorem findDot_of_notMem (h : dot ∉ bytes) : findDot length bytes i dotIndex = some dotIndex := by
  induction bytes generalizing i with
  | nil => rfl
  | cons b bytes ih =>
    obtain ⟨hne, hmem⟩ := List.ne_and_not_mem_of_not_mem_cons h
    rw [findDot, if_neg hne.symm, ih hmem]

/-- The first dot is taken, and a second one is not borne. -/
theorem findDot_append (hstem : dot ∉ stem) (hi : i + stem.length < length) :
    findDot length (stem ++ dot :: rest) i length =
      if dot ∈ rest then none else some (i + stem.length) := by
  induction stem generalizing i with
  | nil =>
    rw [List.length_nil] at hi ⊢
    rw [List.nil_append, findDot, if_pos rfl, if_neg (not_not.mpr rfl), Nat.add_zero]
    split
    · rename_i hmem
      obtain ⟨before, after, rfl, hbefore⟩ := List.eq_append_cons_of_mem hmem
      have hskip : ∀ {l j}, dot ∉ l → findDot length (l ++ dot :: after) j i = none := by
        intro l
        induction l with
        | nil => exact fun _ => by rw [List.nil_append, findDot, if_pos rfl, if_pos (by omega)]
        | cons b l ih =>
          intro j hl
          obtain ⟨hne, hl⟩ := List.ne_and_not_mem_of_not_mem_cons hl
          rw [List.cons_append, findDot, if_neg hne.symm, ih hl]
      exact hskip hbefore
    · rename_i hmem
      exact findDot_of_notMem hmem
  | cons b stem ih =>
    obtain ⟨hne, hstem⟩ := List.ne_and_not_mem_of_not_mem_cons hstem
    rw [List.length_cons] at hi ⊢
    rw [List.cons_append, findDot, if_neg hne.symm, ih hstem (by omega), Nat.add_right_comm, Nat.add_assoc]

theorem isDnsLabelRange_append :
    isDnsLabelRange (stem ++ dot :: rest) 0 stem.length = true ↔ stem ∈ dnsLabels := by
  rw [mem_dnsLabels, isDnsLabelRange]
  cases stem with
  | nil => simp
  | cons b stem =>
    have hlast : (b :: stem ++ dot :: rest)[(b :: stem).length - 1]? = (b :: stem).getLast? := by
      rw [List.getElem?_append_left (by rw [List.length_cons]; omega), List.getLast?_eq_getElem?]
    rw [hlast, List.take_left, List.drop_zero, if_neg (by rw [List.length_cons]; omega)]
    simp only [List.cons_append, List.getElem?_cons_zero, List.head?_cons, ne_eq, reduceCtorEq, not_false_eq_true,
      true_and]
    split
    · rename_i h
      simp only [Bool.false_eq_true, false_iff]
      tauto
    · rename_i h
      rw [List.all_eq_true]
      tauto

theorem isLitePersonLabel_of_notMem (h : dot ∉ bytes) : isLitePersonLabel bytes = false := by
  rw [isLitePersonLabel]
  split
  · rfl
  · rw [findDot_of_notMem h]
    exact if_pos rfl

/-- A label with a dot is taken apart at the first. -/
theorem isLitePersonLabel_append (hstem : dot ∉ stem) :
    isLitePersonLabel (stem ++ dot :: rest) = true ↔ stem ∈ dnsLabels ∧ rest ∈ digitSuffixes := by
  have hlength : (stem ++ dot :: rest).length = stem.length + rest.length + 1 := by
    rw [List.length_append, List.length_cons, Nat.add_assoc]
  have hdrop : (stem ++ dot :: rest).drop (stem.length + 1) = rest := by
    rw [List.drop_append, List.drop_of_length_le (Nat.le_succ _), Nat.add_sub_cancel_left]
    rfl
  rw [isLitePersonLabel, hlength, findDot_append hstem (by omega), Nat.zero_add]
  constructor
  · intro h
    split at h
    · cases h
    · split at h
      · cases h
      · rename_i index hindex
        split at hindex
        · cases hindex
        · obtain rfl : stem.length = index := Option.some.inj hindex
          rw [if_neg (by omega)] at h
          split at h
          · cases h
          · rename_i hdns
            dsimp only at h
            split at h
            · cases h
            · rename_i hdigits
              rw [hdrop, List.all_eq_true] at h
              exact ⟨isDnsLabelRange_append.mp (Bool.of_not_eq_false hdns), mem_atLeast.mpr ⟨by omega, h⟩⟩
  · rintro ⟨hdns, hdigits⟩
    obtain ⟨hcount, hall⟩ := mem_atLeast.mp hdigits
    have hne : stem ≠ [] := (mem_dnsLabels.mp hdns).1
    have hpos : 0 < stem.length := List.length_pos_iff.mpr hne
    rw [if_neg (by omega), if_neg (dot_notMem_of_digitSuffixes hdigits)]
    simp only
    rw [if_neg (by omega), isDnsLabelRange_append.mpr hdns, if_neg (Bool.false_ne_true ∘ Eq.symm), if_neg (by omega),
      hdrop]
    exact List.all_eq_true.mpr hall

/-- The dot is found wherever it is looked for, and the stem is what stands before it. -/
theorem beforeDot_append (hstem : dot ∉ stem) : beforeDot (stem ++ dot :: rest) = stem := by
  have hindex : (stem ++ dot :: rest).findIdx? (· == dot) = some stem.length := by
    have hnone : stem.findIdx? (· == dot) = none :=
      List.findIdx?_eq_none_iff.mpr fun b hb => by
        rw [beq_eq_false_iff_ne]
        rintro rfl
        exact hstem hb
    rw [List.findIdx?_append, hnone, List.findIdx?_cons]
    simp
  rw [beforeDot, hindex]
  exact List.take_left

/-- A label is in the language exactly when the loops accept it. -/
theorem isLitePersonLabel_iff : isLitePersonLabel bytes = true ↔ bytes ∈ litePersonLabels := by
  rw [litePersonLabels, mem_mul_singleton_mul]
  constructor
  · intro h
    by_cases hmem : dot ∈ bytes
    · obtain ⟨stem, rest, rfl, hstem⟩ := List.eq_append_cons_of_mem hmem
      obtain ⟨hdns, hdigits⟩ := (isLitePersonLabel_append hstem).mp h
      exact ⟨stem, hdns, rest, hdigits, rfl⟩
    · rw [isLitePersonLabel_of_notMem hmem] at h
      cases h
  · rintro ⟨stem, hdns, rest, hdigits, rfl⟩
    exact (isLitePersonLabel_append (dot_notMem_of_dnsLabels hdns)).mpr ⟨hdns, hdigits⟩

theorem isPersonLabel_iff : isPersonLabel bytes = true ↔ bytes ∈ letters 1 := by
  rw [isPersonLabel, letters, mem_atLeast, Bool.and_eq_true, List.all_eq_true, Bool.not_eq_true',
    List.isEmpty_eq_false_iff, Nat.one_le_iff_ne_zero, ne_eq, ne_eq, List.length_eq_zero_iff]

end Loops

/-! ### Usernames -/

section Usernames
variable {T : Config} {stem rest bytes : List UInt8} {n : Nat} {username : Username} {label : BaseLabel}

theorem dnsLabels_of_letters (hn : 1 ≤ n) (h : stem ∈ letters n) : stem ∈ dnsLabels := by
  obtain ⟨hlength, hall⟩ := mem_atLeast.mp h
  have hne : stem ≠ [] := by
    rintro rfl
    exact absurd (hn.trans hlength) (by decide)
  have hbyte : ∀ b, isAsciiLowercase b = true → isLabelByte b = true ∧ b ≠ hyphen := by
    intro b hb
    refine isAlphanumeric_iff.mp ?_
    rw [isAlphanumeric, hb, Bool.true_or]
  refine mem_dnsLabels.mpr ⟨hne, ?_, ?_, fun b hb => (hbyte b (hall b hb)).1⟩
  · rw [List.head?_eq_some_head hne]
    exact fun heq => (hbyte _ (hall _ (List.head_mem hne))).2 (Option.some.inj heq)
  · rw [List.getLast?_eq_some_getLast hne]
    exact fun heq => (hbyte _ (hall _ (List.getLast_mem hne))).2 (Option.some.inj heq)

/-- The pallet finds the dot that the loop finds. -/
theorem findIdx_append (hstem : dot ∉ stem) : (stem ++ dot :: rest).findIdx (· == dot) = stem.length := by
  rw [List.findIdx_append, if_neg, List.findIdx_cons, beq_self_eq_true]
  · exact Nat.zero_add _
  · rw [List.findIdx_lt_length]
    rintro ⟨b, hb, heq⟩
    rw [beq_iff_eq.mp heq] at hb
    exact hstem hb

/-- Counting the dots and looking for the only one are the same check. -/
theorem isLitePersonLabel_eq : Resources.isLitePersonLabel bytes = isLitePersonLabel bytes := by
  by_cases hmem : dot ∈ bytes
  · obtain ⟨stem, rest, rfl, hstem⟩ := List.eq_append_cons_of_mem hmem
    have hdrop : (stem ++ dot :: rest).drop (stem.length + 1) = rest := by
      rw [List.drop_append, List.drop_of_length_le (Nat.le_succ _), Nat.add_sub_cancel_left]
      rfl
    have hcount : (stem ++ dot :: rest).countP (· == dot) = 1 ↔ dot ∉ rest := by
      have hcount : (stem ++ dot :: rest).count dot = rest.count dot + 1 := by
        rw [List.count_append, List.count_eq_zero.mpr hstem, Nat.zero_add, List.count_cons_self]
      rw [show (stem ++ dot :: rest).countP (· == dot) = _ from hcount]
      exact Nat.succ_inj.trans List.count_eq_zero
    have hdns : Resources.isDnsLabelRange stem = true ↔ stem ∈ dnsLabels := by
      rw [mem_dnsLabels, Resources.isDnsLabelRange]
      simp only [Bool.and_eq_true, Bool.not_eq_true', List.isEmpty_eq_false_iff, bne_iff_ne, List.all_eq_true,
        and_assoc]
      rfl
    rw [Bool.eq_iff_iff, isLitePersonLabel_append hstem, Resources.isLitePersonLabel]
    simp only [findIdx_append hstem, List.take_left, hdrop, ne_eq, hcount]
    constructor
    · intro h
      split at h
      · cases h
      · split at h
        · cases h
        · split at h
          · cases h
          · rename_i hlabel
            split at h
            · cases h
            · rename_i hlength
              rw [List.all_eq_true] at h
              exact ⟨hdns.mp (Bool.of_not_eq_false hlabel), mem_atLeast.mpr ⟨by omega, h⟩⟩
    · rintro ⟨hlabel, hdigits⟩
      obtain ⟨hlength, hall⟩ := mem_atLeast.mp hdigits
      have hpos : 0 < stem.length := List.length_pos_iff.mpr (mem_dnsLabels.mp hlabel).1
      rw [if_neg (by rw [List.length_append, List.length_cons]; omega),
        if_neg (not_not.mpr (dot_notMem_of_digitSuffixes hdigits)), hdns.mpr hlabel,
        if_neg (Bool.false_ne_true ∘ Eq.symm), if_neg (by omega)]
      exact List.all_eq_true.mpr hall
  · have hcount : bytes.countP (· == dot) = 0 := List.count_eq_zero.mpr hmem
    rw [isLitePersonLabel_of_notMem hmem, Resources.isLitePersonLabel, hcount]
    simp

theorem validateUsername_person :
    validateUsername T username true = true ↔ username.toList ∈ letters T.minUsernameLength := by
  rw [validateUsername, if_pos rfl, letters, mem_atLeast, Bool.and_eq_true, decide_eq_true_iff, List.all_eq_true]
  rfl

theorem validateUsername_lite (hmin : 1 ≤ T.minUsernameLength) :
    validateUsername T username false = true ↔
      username.toList ∈ letters T.minUsernameLength * {[dot]} * digitSuffixes := by
  rw [mem_mul_singleton_mul]
  simp only [validateUsername, Bool.false_eq_true, if_false, Bool.and_eq_true, decide_eq_true_iff,
    isLitePersonLabel_eq, List.all_eq_true]
  constructor
  · rintro ⟨⟨hlabel, hlength⟩, hall⟩
    obtain ⟨stem, hdns, rest, hdigits, heq⟩ := mem_mul_singleton_mul.mp (isLitePersonLabel_iff.mp hlabel)
    rw [heq, findIdx_append (dot_notMem_of_dnsLabels hdns)] at hlength hall
    rw [List.take_left] at hall
    exact ⟨stem, mem_atLeast.mpr ⟨hlength, hall⟩, rest, hdigits, heq⟩
  · rintro ⟨stem, hstem, rest, hdigits, heq⟩
    obtain ⟨hlength, hall⟩ := mem_atLeast.mp hstem
    have hnot := dot_notMem_of_letters hstem
    rw [heq, findIdx_append hnot, List.take_left, isLitePersonLabel_append hnot]
    exact ⟨⟨⟨dnsLabels_of_letters hmin hstem, hdigits⟩, hlength⟩, hall⟩

/-- The label of a person has no dot. -/
theorem not_isPersonLabel (h : isLitePersonLabel bytes = true) : isPersonLabel bytes = false := by
  obtain ⟨stem, -, rest, -, rfl⟩ := mem_mul_singleton_mul.mp (isLitePersonLabel_iff.mp h)
  refine Bool.eq_false_iff.mpr fun hperson => ?_
  exact dot_notMem_of_letters (isPersonLabel_iff.mp hperson) (List.mem_append_right stem List.mem_cons_self)

/-- What the pallet takes for a username of one kind, the gateway takes for a label of that kind. -/
theorem isValid_of_validateUsername (hmin : 1 ≤ T.minUsernameLength) (hlabel : label.asSlice = username.toList)
    {person : Bool} (h : validateUsername T username person = true) :
    label.isValidPerson = person ∧ label.isValidLite = !person := by
  rw [BaseLabel.isValidPerson, BaseLabel.isValidLite, hlabel]
  cases person with
  | true =>
    obtain ⟨hlength, hall⟩ := mem_atLeast.mp (validateUsername_person.mp h)
    have hperson : isPersonLabel username.toList = true :=
      isPersonLabel_iff.mpr (mem_atLeast.mpr ⟨hmin.trans hlength, hall⟩)
    refine ⟨hperson, Bool.eq_false_iff.mpr fun hlite => ?_⟩
    rw [not_isPersonLabel hlite] at hperson
    cases hperson
  | false =>
    obtain ⟨stem, hstem, rest, hdigits, heq⟩ := mem_mul_singleton_mul.mp ((validateUsername_lite hmin).mp h)
    have hlite : isLitePersonLabel username.toList = true :=
      isLitePersonLabel_iff.mpr
        (mem_mul_singleton_mul.mpr ⟨stem, dnsLabels_of_letters hmin hstem, rest, hdigits, heq⟩)
    exact ⟨not_isPersonLabel hlite, hlite⟩

end Usernames

/-- The validators of the three files describe one language: the loop over a lite person's label accepts
the words of a stem, a dot and digits, which are then determined; no label is of both kinds; and the
usernames are the labels of their kind that have enough letters. -/
theorem label_grammar (T : Config) (hmin : 1 ≤ T.minUsernameLength) :
    (∀ s, isLitePersonLabel s = true ↔ s ∈ litePersonLabels) ∧
    (∀ stem digits, stem ∈ dnsLabels → digits ∈ digitSuffixes →
      (∀ stem' digits', stem' ∈ dnsLabels → digits' ∈ digitSuffixes →
        stem ++ dot :: digits = stem' ++ dot :: digits' → stem = stem' ∧ digits = digits') ∧
      beforeDot (stem ++ dot :: digits) = stem ∧
      ∀ label : BaseLabel, label.asSlice = stem ++ dot :: digits → label.liteBase = stem) ∧
    (∀ s, ¬(isLitePersonLabel s = true ∧ isPersonLabel s = true)) ∧
    (∀ u, validateUsername T u true = true ↔ u.toList ∈ letters T.minUsernameLength) ∧
    (∀ u, validateUsername T u false = true ↔
      u.toList ∈ letters T.minUsernameLength * {[dot]} * digitSuffixes) ∧
    ∀ (u : Username) (label : BaseLabel) (person : Bool), label.asSlice = u.toList →
      validateUsername T u person = true → label.isValidPerson = person ∧ label.isValidLite = !person := by
  refine ⟨fun _ => isLitePersonLabel_iff, fun stem digits hstem _ => ⟨?_, ?_, ?_⟩, ?_,
    fun _ => validateUsername_person, fun _ => validateUsername_lite hmin,
    fun _ _ _ hlabel h => isValid_of_validateUsername hmin hlabel h⟩
  · intro stem' digits' hstem' _ heq
    exact append_cons_inj (dot_notMem_of_dnsLabels hstem) (dot_notMem_of_dnsLabels hstem') heq
  · exact beforeDot_append (dot_notMem_of_dnsLabels hstem)
  · intro label hlabel
    rw [BaseLabel.liteBase, hlabel, beforeDot_append (dot_notMem_of_dnsLabels hstem)]
  · rintro s ⟨hlite, hperson⟩
    rw [not_isPersonLabel hlite] at hperson
    cases hperson

/-- A lite person's username. -/
def sampleLabel : BaseLabel := ⟨(BoundedVec.tryFrom (ascii "alice.42")).getD BoundedVec.nil⟩

theorem label_grammar_sample : sampleLabel.isValidPerson = false ∧ sampleLabel.isValidLite = true := by
  obtain ⟨-, -, -, -, -, hvalid⟩ := label_grammar Resources.sampleConfig (by decide)
  exact hvalid sampleLabel.bytes sampleLabel false rfl (by decide)

end Individuality.DotnsGateway
