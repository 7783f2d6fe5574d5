import Individuality.Members.Types
import Individuality.Support.Checked
import Individuality.Support.Chunks
import Individuality.Support.StorageMap

/-! The chunks manager: reading a flat table that is kept in pages.

A single read finds the page of a chunk with a mask over the number of pages; a read of a
range goes page by page. `Failure` also has what must not happen: an operation that
panics, and a loop that does not come to an end. `chunks_read`: the two reads agree on
whatever pages there are, neither of them fails but with an error, and as long as the
number of pages comes out as a power of two the chunks of a ring are where they were
put. -/
namespace Individuality.ChunksManager
open Support
open Members (RingExponent)

abbrev PageIndex := Nat

/-- The maximum number of chunks in a page. -/
def maxPageSize : Nat := 1 <<< 16

/-- What the pallet is generic over, with the facts that the integrity test asserts. -/
structure Config where
  Chunk : Type
  pageSize : Nat
  pageSize_pos : 0 < pageSize
  pageSize_le : pageSize ≤ maxPageSize

inductive Error
  | chunkNotFound
  | invalidChunkRange
  deriving DecidableEq, Repr

/-- How a read may end without a result. -/
inductive Failure
  | error (e : Error)
  | panic
  /-- The loop has taken more turns than it was given. -/
  | unfinished
  deriving DecidableEq, Repr

variable (T : Config)

/-- The pages of chunks. -/
abbrev Pages := StorageMap (RingExponent × PageIndex) (BoundedVec T.Chunk T.pageSize)

/-! ### Operations that panic -/

def addU32 (a b : Nat) : Except Failure Nat := okOr (checkedAdd 32 a b) .panic

def divU32 (a b : Nat) : Except Failure Nat := if b = 0 then .error .panic else .ok (a / b)

def slice {α : Type} (l : List α) (start stop : Nat) : Except Failure (List α) :=
  if start ≤ stop ∧ stop ≤ l.length then .ok ((l.take stop).drop start) else .error .panic

/-! ### Reads -/

variable {T}

/-- The location of a chunk: its page, and its position there. -/
def getLocation (T : Config) (ringExponent : RingExponent) (chunkIndex : Nat) : Except Failure (PageIndex × Nat) := do
  let ringSize ← okOr (checkedShl 32 1 ringExponent.exponent) .panic
  -- If the ring is smaller than a page, it still occupies one page.
  let totalPages := max 1 (← divU32 ringSize T.pageSize)
  let pageMask := totalPages - 1
  let absolutePageIdx ← divU32 chunkIndex T.pageSize
  return (absolutePageIdx &&& pageMask, chunkIndex % T.pageSize)

def getChunk (pages : Pages T) (ringExponent : RingExponent) (chunkIndex : Nat) : Except Failure T.Chunk := do
  let (pageIdx, position) ← getLocation T ringExponent chunkIndex
  okOr ((pages.get (ringExponent, pageIdx)).bind fun page => page.toList[position]?) (.error .chunkNotFound)

/-- The turns of the loop over the pages that a range is on. -/
def readPages (pages : Pages T) (ringExponent : RingExponent) (stop : Nat) :
    Nat → Nat → List T.Chunk → Except Failure (List T.Chunk)
  | 0, chunkIndex, result => if chunkIndex < stop then .error .unfinished else .ok result
  | turns + 1, chunkIndex, result =>
    if chunkIndex < stop then do
      let (pageIdx, position) ← getLocation T ringExponent chunkIndex
      let page ← okOr (pages.get (ringExponent, pageIdx)) (.error .chunkNotFound)
      let count := min (T.pageSize - position) (stop - chunkIndex)
      let last ← addU32 position count
      -- Check that the chunks actually exist in the page.
      ensure (last ≤ page.length) (.error .chunkNotFound)
      let part ← slice page.toList position last
      let next ← addU32 chunkIndex count
      readPages pages ringExponent stop turns next (result ++ part)
    else .ok result

/-- The chunks from `start` up to `stop`; every turn reads one of them at least. -/
def getChunks (pages : Pages T) (ringExponent : RingExponent) (start stop : Nat) :
    Except Failure (List T.Chunk) := do
  ensure (start < stop) (.error .invalidChunkRange)
  readPages pages ringExponent stop (stop - start) start []

/-! ### Where a chunk is -/

/-- The number of pages of a ring. -/
def totalPages (T : Config) (e : RingExponent) : Nat := max 1 (2 ^ e.exponent / T.pageSize)

def pageOf (T : Config) (e : RingExponent) (i : Nat) : PageIndex := i / T.pageSize &&& (totalPages T e - 1)

/-- The chunk that a single read finds. -/
def chunkAt (pages : Pages T) (e : RingExponent) (i : Nat) : Option T.Chunk :=
  (pages.get (e, pageOf T e i)).bind fun page => page.toList[i % T.pageSize]?

section Location
variable {pages : Pages T} {e : RingExponent} {i k stop turns : Nat}

theorem exponent_lt (e : RingExponent) : e.exponent < 32 := by cases e <;> decide

theorem getLocation_eq (T : Config) (e : RingExponent) (i : Nat) :
    getLocation T e i = .ok (pageOf T e i, i % T.pageSize) := by
  have hdiv : ∀ a, divU32 a T.pageSize = .ok (a / T.pageSize) := fun a => if_neg T.pageSize_pos.ne'
  rw [getLocation, checkedShl_one (exponent_lt e)]
  simp only [hdiv, okOr_some, ok_bind]
  rfl

theorem getChunk_eq (pages : Pages T) (e : RingExponent) (i : Nat) :
    getChunk pages e i = okOr (chunkAt pages e i) (.error .chunkNotFound) := by
  rw [getChunk, getLocation_eq]
  rfl

theorem mod_lt_pageSize : i % T.pageSize < T.pageSize := Nat.mod_lt i T.pageSize_pos

/-- The chunks that follow on the same page. -/
theorem chunkAt_add (hk : i % T.pageSize + k < T.pageSize) :
    chunkAt pages e (i + k) =
      (pages.get (e, pageOf T e i)).bind fun page => page.toList[i % T.pageSize + k]? := by
  have hdiv : (i + k) / T.pageSize = i / T.pageSize := by
    have := Nat.div_add_mod i T.pageSize
    refine Nat.div_eq_of_lt_le ?_ ?_
    · rw [Nat.mul_comm]
      omega
    · rw [Nat.succ_mul, Nat.mul_comm]
      omega
  have hmod : (i + k) % T.pageSize = i % T.pageSize + k := by
    have := Nat.div_add_mod i T.pageSize
    have := Nat.div_add_mod (i + k) T.pageSize
    rw [hdiv] at this
    omega
  unfold chunkAt pageOf
  rw [hdiv, hmod]

/-- The part of a page that a turn reads is what single reads find. -/
theorem map_chunkAt {page : BoundedVec T.Chunk T.pageSize} {count : Nat}
    (hpage : pages.get (e, pageOf T e i) = some page) (hcount : i % T.pageSize + count ≤ page.length) :
    (List.range' i count).map (chunkAt pages e) =
      ((page.toList.take (i % T.pageSize + count)).drop (i % T.pageSize)).map some := by
  have hlength : page.toList.length ≤ T.pageSize := page.length_le
  have hcount : i % T.pageSize + count ≤ page.toList.length := hcount
  refine List.ext_getElem ?_ fun n hn hn' => ?_
  · rw [List.length_map, List.length_map, List.length_range', List.length_drop, List.length_take]
    omega
  · rw [List.length_map, List.length_range'] at hn
    rw [List.getElem_map, List.getElem_map, List.getElem_range', Nat.one_mul, chunkAt_add (by omega), hpage,
      List.getElem_drop, List.getElem_take]
    exact List.getElem?_eq_getElem (by omega)

/-- A loop with enough turns reads what single reads find, or stops where one finds nothing. -/
theorem readPages_spec (result : List T.Chunk) (hstart : i ≤ stop) (hstop : stop ≤ U32.max) (hturns : stop - i ≤ turns) :
    (∃ chunks, readPages pages e stop turns i result = .ok (result ++ chunks) ∧
      (List.range' i (stop - i)).map (chunkAt pages e) = chunks.map some) ∨
    readPages pages e stop turns i result = .error (.error .chunkNotFound) ∧
      ∃ j, i ≤ j ∧ j < stop ∧ chunkAt pages e j = none := by
  induction turns generalizing i result with
  | zero =>
    refine .inl ⟨[], ?_, ?_⟩
    · rw [readPages, if_neg (by omega), List.append_nil]
    · rw [Nat.le_zero.mp hturns]
      rfl
  | succ turns ih =>
    rw [readPages]
    by_cases hlt : i < stop
    · have hposition : i % T.pageSize < T.pageSize := mod_lt_pageSize
      have hsize : T.pageSize ≤ 65536 := T.pageSize_le
      rw [if_pos hlt, getLocation_eq]
      simp only [ok_bind]
      cases hpage : pages.get (e, pageOf T e i) with
      | none =>
        refine .inr ⟨rfl, i, Nat.le_refl i, hlt, ?_⟩
        rw [chunkAt, hpage]
        rfl
      | some page =>
        have hlength : page.length ≤ T.pageSize := page.length_le
        have hcount : 0 < min (T.pageSize - i % T.pageSize) (stop - i) := by omega
        have hwithin : i % T.pageSize + min (T.pageSize - i % T.pageSize) (stop - i) ≤ T.pageSize := by omega
        have hnext : i + min (T.pageSize - i % T.pageSize) (stop - i) ≤ stop := by omega
        generalize min (T.pageSize - i % T.pageSize) (stop - i) = count at *
        have hwidth : U32.max < 2 ^ 32 := by decide
        have haddLast : addU32 (i % T.pageSize) count = .ok (i % T.pageSize + count) := by
          rw [addU32, checkedAdd, if_pos (by omega)]
          rfl
        have haddNext : addU32 i count = .ok (i + count) := by
          rw [addU32, checkedAdd, if_pos (by omega)]
          rfl
        simp only [okOr_some, haddLast, haddNext, ok_bind]
        by_cases hfull : i % T.pageSize + count ≤ page.length
        · obtain ⟨part, hpart⟩ :
              ∃ part, part = (page.toList.take (i % T.pageSize + count)).drop (i % T.pageSize) := ⟨_, rfl⟩
          have hslice : slice page.toList (i % T.pageSize) (i % T.pageSize + count) = .ok part := by
            rw [slice, if_pos ⟨Nat.le_add_right _ _, hfull⟩, hpart]
          simp only [ensure_pos hfull, hslice, ok_bind]
          have hrange : List.range' i (stop - i) =
              List.range' i count ++ List.range' (i + count) (stop - (i + count)) := by
            rw [List.range'_append_1, show count + (stop - (i + count)) = stop - i by omega]
          rcases ih (result ++ part) hnext (by omega) with ⟨chunks, hread, hchunks⟩ | ⟨hread, j, hj, hjstop, hnone⟩
          · refine .inl ⟨part ++ chunks, ?_, ?_⟩
            · rw [hread, List.append_assoc]
            · rw [hrange, List.map_append, List.map_append, map_chunkAt hpage hfull, hchunks, hpart]
          · exact .inr ⟨hread, j, by omega, hjstop, hnone⟩
        · -- The chunk after the last one of the page is missing, and it is in the range.
          have hensure : (ensure (i % T.pageSize + count ≤ page.length) (Failure.error .chunkNotFound) :
              Except Failure PUnit) = .error (.error .chunkNotFound) := if_neg hfull
          refine .inr ⟨by rw [hensure]; rfl, i + (page.length - i % T.pageSize), by omega, by omega, ?_⟩
          rw [chunkAt_add (by omega), hpage]
          exact List.getElem?_eq_none (by show page.length ≤ _; omega)
    · refine .inl ⟨[], ?_, ?_⟩
      · rw [if_neg hlt, List.append_nil]
      · rw [show stop - i = 0 by omega]
        rfl

end Location

/-! ### The flat table -/

/-- A flat table, split into consecutive pages. -/
def Split (pages : Pages T) (e : RingExponent) (table : List T.Chunk) : Prop :=
  ∀ k, (pages.get (e, k)).map BoundedVec.toList = (chunks T.pageSize table)[k]?

section Table
variable {pages : Pages T} {e : RingExponent} {table : List T.Chunk} {i n : Nat}

/-- Page and position of a chunk together are its index. -/
theorem chunkAt_of_split (h : Split pages e table) (hpage : pageOf T e i = i / T.pageSize) :
    chunkAt pages e i = table[i]? := by
  have hpages := h (i / T.pageSize)
  have hindex := Nat.div_add_mod' i T.pageSize
  rw [getElem?_chunks T.pageSize_pos] at hpages
  rw [chunkAt, hpage]
  have hmod : i % T.pageSize < T.pageSize := mod_lt_pageSize
  by_cases hlt : i / T.pageSize * T.pageSize < table.length
  · rw [if_pos hlt] at hpages
    obtain ⟨page, hget, hlist⟩ := Option.map_eq_some_iff.mp hpages
    rw [hget, Option.bind_some, hlist, List.getElem?_take, if_pos hmod, List.getElem?_drop, hindex]
  · rw [if_neg hlt, Option.map_eq_none_iff] at hpages
    rw [hpages, Option.bind_none, List.getElem?_eq_none (by omega)]

/-- A mask of ones keeps every page below the power of two. -/
theorem pageOf_eq (htotal : totalPages T e = 2 ^ n) (hlt : i / T.pageSize < 2 ^ n) :
    pageOf T e i = i / T.pageSize := by
  rw [pageOf, htotal, Nat.and_two_pow_sub_one_of_lt_two_pow hlt]

/-- The page sizes for which the number of pages is a power of two, and the pages hold the ring. -/
theorem pageOf_of_pageSize (hsize : (∃ k, T.pageSize = 2 ^ k) ∨ T.pageSize = 255)
    (hi : i < 2 ^ e.exponent - 257) : pageOf T e i = i / T.pageSize := by
  rcases hsize with ⟨k, hk⟩ | hsize
  · have hlt : i < 2 ^ e.exponent := by omega
    rcases Nat.le_total k e.exponent with hle | hle
    · have hdiv : 2 ^ e.exponent / T.pageSize = 2 ^ (e.exponent - k) := by
        rw [hk, Nat.pow_div hle Nat.two_pos]
      refine pageOf_eq (n := e.exponent - k) ?_ ?_
      · rw [totalPages, hdiv, Nat.max_eq_right Nat.one_le_two_pow]
      · rw [hk, Nat.div_lt_iff_lt_mul (Nat.two_pow_pos k), ← Nat.pow_add, Nat.sub_add_cancel hle]
        exact hlt
    · have hring : 2 ^ e.exponent ≤ T.pageSize := hk ▸ Nat.pow_le_pow_right Nat.two_pos hle
      have hfew : 2 ^ e.exponent / T.pageSize ≤ 1 := Nat.div_le_of_le_mul (by omega)
      refine pageOf_eq (n := 0) (Nat.max_eq_left hfew) ?_
      rw [Nat.div_eq_of_lt (by omega)]
      exact Nat.one_pos
  · cases e with
    | r2e9 =>
      refine pageOf_eq (n := 1) (by rw [totalPages, hsize]; decide) ?_
      rw [hsize]
      simp only [RingExponent.exponent] at hi
      omega
    | r2e10 =>
      refine pageOf_eq (n := 2) (by rw [totalPages, hsize]; decide) ?_
      rw [hsize]
      simp only [RingExponent.exponent] at hi
      omega
    | r2e14 =>
      refine pageOf_eq (n := 6) (by rw [totalPages, hsize]; decide) ?_
      rw [hsize]
      simp only [RingExponent.exponent] at hi
      omega

end Table

/-- A range read succeeds exactly where every single read of the range does, and is then their
concatenation; neither panics or goes on for ever; and single reads find the elements of a table
that was split into pages of a documented size, or of the size that the runtime has. -/
theorem chunks_read (T : Config) :
    (∀ (pages : Pages T) (e : RingExponent) (start stop : Nat), start < stop → stop ≤ U32.max →
      ((∃ read, getChunks pages e start stop = .ok read) ↔
        ∀ i, start ≤ i → i < stop → ∃ chunk, getChunk pages e i = .ok chunk) ∧
      (∀ read, getChunks pages e start stop = .ok read →
        (List.range' start (stop - start)).map (getChunk pages e) = read.map .ok) ∧
      ∀ failure, getChunks pages e start stop = .error failure → failure = .error .chunkNotFound) ∧
    (∀ (pages : Pages T) (e : RingExponent) (i : Nat) (failure : Failure),
      getChunk pages e i = .error failure → failure = .error .chunkNotFound) ∧
    ((∃ k, T.pageSize = 2 ^ k) ∨ T.pageSize = 255 →
      ∀ (pages : Pages T) (e : RingExponent) (table : List T.Chunk), Split pages e table →
        ∀ i < 2 ^ e.exponent - 257, getChunk pages e i = okOr table[i]? (.error .chunkNotFound)) := by
  refine ⟨fun pages e start stop hlt hstop => ?_, fun pages e i failure h => ?_,
    fun hsize pages e table hsplit i hi => ?_⟩
  · rcases readPages_spec [] hlt.le hstop (Nat.le_refl _) with ⟨read, hread, hchunks⟩ | ⟨hread, j, hj, hjstop, hnone⟩
    · have hget : getChunks pages e start stop = .ok read := by
        rw [getChunks, ensure_pos hlt]
        exact hread
      refine ⟨⟨fun _ i hi histop => ?_, fun _ => ⟨read, hget⟩⟩, fun other hother => ?_, fun failure hfailure => ?_⟩
      · have hmem : chunkAt pages e i ∈ read.map some := by
          rw [← hchunks]
          exact List.mem_map_of_mem (List.mem_range'_1.mpr ⟨hi, by omega⟩)
        obtain ⟨chunk, -, hchunk⟩ := List.mem_map.mp hmem
        exact ⟨chunk, by rw [getChunk_eq, ← hchunk]; rfl⟩
      · obtain rfl : read = other := Except.ok.inj (hget.symm.trans hother)
        have hmap := congrArg (List.map fun o => okOr o (Failure.error .chunkNotFound)) hchunks
        rw [List.map_map, List.map_map] at hmap
        rw [← show (fun o => okOr o (Failure.error .chunkNotFound)) ∘ chunkAt pages e = getChunk pages e from
          funext fun i => (getChunk_eq pages e i).symm, hmap]
        rfl
      · rw [hget] at hfailure
        cases hfailure
    · have hget : getChunks pages e start stop = .error (.error .chunkNotFound) := by
        rw [getChunks, ensure_pos hlt]
        exact hread
      refine ⟨⟨fun ⟨read, hok⟩ => ?_, fun hall => ?_⟩, fun read hok => ?_, fun failure hfailure => ?_⟩
      · rw [hget] at hok
        cases hok
      · obtain ⟨chunk, hchunk⟩ := hall j hj hjstop
        rw [getChunk_eq, hnone] at hchunk
        cases hchunk
      · rw [hget] at hok
        cases hok
      · exact (Except.error.inj (hget.symm.trans hfailure)).symm
  · rw [getChunk_eq] at h
    cases hchunk : chunkAt pages e i with
    | none =>
      rw [hchunk] at h
      exact (Except.error.inj h).symm
    | some chunk =>
      rw [hchunk] at h
      cases h
  · rw [getChunk_eq, chunkAt_of_split hsplit (pageOf_of_pageSize hsize hi)]

/-- Pages of two chunks. -/
def sampleConfig : Config := ⟨Nat, 2, by decide, by decide⟩

def samplePages : Pages sampleConfig :=
  (StorageMap.empty.insert (.r2e9, 0) ⟨[(10 : Nat), (11 : Nat)], by decide⟩).insert (.r2e9, 1) ⟨[(12 : Nat)], by decide⟩

theorem chunks_read_sample : ∀ i, 1 ≤ i → i < 3 → ∃ chunk, getChunk samplePages .r2e9 i = .ok chunk :=
  ((chunks_read sampleConfig).1 samplePages .r2e9 1 3 (by decide) (by decide)).1.mp
    ⟨[(11 : Nat), (12 : Nat)], by rfl⟩

end Individuality.ChunksManager
