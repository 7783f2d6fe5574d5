import Individuality.Support.Encoding

/-! The lengths of compact numbers.

A compact number takes one, two or four bytes while it is below 2^6, 2^14 or 2^30, and from
there on a byte and as many as it has itself. It precedes every vector of bytes or elements; the
longer the vector, the longer its prefix may be. -/
namespace Individuality.Support

/-- A number in as few bytes as its size allows, lowest byte first; the lowest two bits tell how many. -/
def encodeCompact (n : Nat) : List UInt8 :=
  if n < 2 ^ 6 then leBytes 1 (4 * n)
  else if n < 2 ^ 14 then leBytes 2 (4 * n + 1)
  else if n < 2 ^ 30 then leBytes 4 (4 * n + 2)
  else leBytes 1 (4 * (Nat.log 256 n + 1 - 4) + 3) ++ leBytes (Nat.log 256 n + 1) n

/-- The number of bytes of a compact number. -/
def compactLength (n : Nat) : Nat :=
  if n < 2 ^ 6 then 1 else if n < 2 ^ 14 then 2 else if n < 2 ^ 30 then 4 else Nat.log 256 n + 2

/-- A vector of bytes, preceded by its length. -/
def prefixed (bytes : List UInt8) : List UInt8 := encodeCompact bytes.length ++ bytes

@[simp] theorem length_encodeCompact (n : Nat) : (encodeCompact n).length = compactLength n := by
  unfold encodeCompact compactLength
  split
  · simp
  · split
    · simp
    · split
      · simp
      · rw [List.length_append, length_leBytes, length_leBytes, Nat.add_comm]

theorem compactLength_pos (n : Nat) : 0 < compactLength n := by
  unfold compactLength
  split
  · exact Nat.one_pos
  · split
    · decide
    · split
      · decide
      · exact Nat.succ_pos _

/-- Four bytes from 2^30 on at least. -/
theorem three_le_log {n : Nat} (h : 2 ^ 30 ≤ n) : 3 ≤ Nat.log 256 n :=
  Nat.le_log_of_pow_le (by decide) ((by decide : 256 ^ 3 ≤ 2 ^ 30).trans h)

theorem compactLength_mono {n m : Nat} (h : n ≤ m) : compactLength n ≤ compactLength m := by
  have hlog : Nat.log 256 n ≤ Nat.log 256 m := Nat.log_mono_right h
  unfold compactLength
  by_cases hm : 2 ^ 30 ≤ m
  · have := three_le_log hm
    rw [if_neg (by omega : ¬ m < 2 ^ 6), if_neg (by omega : ¬ m < 2 ^ 14), if_neg (by omega : ¬ m < 2 ^ 30)]
    split
    · omega
    · split
      · omega
      · split <;> omega
  · split
    · split
      · exact le_rfl
      · split <;> [decide; split <;> [decide; omega]]
    · split
      · rw [if_neg (by omega : ¬ m < 2 ^ 6)]
        split <;> [decide; split <;> [decide; omega]]
      · rw [if_neg (by omega : ¬ m < 2 ^ 6), if_neg (by omega : ¬ m < 2 ^ 14), if_pos (by omega : m < 2 ^ 30),
          if_pos (by omega : n < 2 ^ 30)]

@[simp] theorem length_prefixed (bytes : List UInt8) :
    (prefixed bytes).length = compactLength bytes.length + bytes.length := by
  rw [prefixed, List.length_append, length_encodeCompact]

end Individuality.Support
