import Mathlib.Data.List.Basic
import Mathlib.Data.Nat.Log
import Mathlib.Tactic.Ring

/-! Fixed-width encodings.

A number is written in a fixed number of bytes, lowest byte first or last, and a list
of bytes is padded to a fixed length. Over the numbers that fit, and over the lists of
one length, both can be read back. -/
namespace Individuality.Support

def ascii (s : String) : List UInt8 := s.toList.map fun c => c.toNat.toUInt8

/-- The lowest `w` bytes of a number, lowest first. -/
def leBytes : Nat → Nat → List UInt8
  | 0, _ => []
  | w + 1, n => (n % 256).toUInt8 :: leBytes w (n / 256)

/-- The lowest `w` bytes of a number, lowest last. -/
def beBytes (w n : Nat) : List UInt8 := (leBytes w n).reverse

@[simp] theorem length_leBytes (w n : Nat) : (leBytes w n).length = w := by
  induction w generalizing n with
  | zero => rfl
  | succ w ih => rw [leBytes, List.length_cons, ih]

@[simp] theorem length_beBytes (w n : Nat) : (beBytes w n).length = w := by
  rw [beBytes, List.length_reverse, length_leBytes]

theorem leBytes_injective {w n m : Nat} (hn : n < 256 ^ w) (hm : m < 256 ^ w)
    (h : leBytes w n = leBytes w m) : n = m := by
  induction w generalizing n m with
  | zero => simp only [pow_zero, Nat.lt_one_iff] at hn hm; rw [hn, hm]
  | succ w ih =>
    rw [leBytes, leBytes, List.cons.injEq] at h
    have hlow : n % 256 = m % 256 := by
      have := congrArg UInt8.toNat h.1
      simpa using this
    have hhigh := ih (by rw [pow_succ] at hn; omega) (by rw [pow_succ] at hm; omega) h.2
    rw [← Nat.div_add_mod n 256, ← Nat.div_add_mod m 256, hlow, hhigh]

theorem beBytes_injective {w n m : Nat} (hn : n < 256 ^ w) (hm : m < 256 ^ w)
    (h : beBytes w n = beBytes w m) : n = m :=
  leBytes_injective hn hm (List.reverse_injective h)

/-- A list of bytes, padded or cut to a fixed length. -/
def padded (k : Nat) (pad : UInt8) (bytes : List UInt8) : Vector UInt8 k :=
  Vector.ofFn fun i => bytes.getD i pad

theorem getElem_padded {k : Nat} (pad : UInt8) (bytes : List UInt8) {i : Nat} (hi : i < k) :
    (padded k pad bytes)[i] = bytes.getD i pad := by
  rw [padded, Vector.getElem_ofFn]

/-- The bytes that come first are not padded over. -/
theorem take_padded {k : Nat} (pad : UInt8) (l bytes : List UInt8) (hl : (l ++ bytes).length ≤ k) :
    (padded k pad (l ++ bytes)).toList.take l.length = l := by
  refine List.ext_getElem ?_ fun i hi hi' => ?_
  · rw [List.length_take, Vector.length_toList]
    rw [List.length_append] at hl
    omega
  · rw [List.getElem_take, Vector.getElem_toList, getElem_padded, List.getD_eq_getElem?_getD,
      List.getElem?_append_left hi', List.getElem?_eq_getElem hi', Option.getD_some]

/-- Two lists of one length that fits are told apart by any of their bytes. -/
theorem padded_injective {k : Nat} {pad pad' : UInt8} {l l' : List UInt8} (hl : l.length ≤ k)
    (hlength : l.length = l'.length) (h : padded k pad l = padded k pad' l') : l = l' := by
  refine List.ext_getElem hlength fun i hi hi' => ?_
  have hget : (padded k pad l)[i] = (padded k pad' l')[i] := by simp only [h]
  simpa only [getElem_padded, List.getD_eq_getElem?_getD, List.getElem?_eq_getElem hi,
    List.getElem?_eq_getElem hi', Option.getD_some] using hget

end Individuality.Support
