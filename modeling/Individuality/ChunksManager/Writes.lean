import Individuality.ChunksManager.Reads
import Individuality.Support.Runs

/-! The chunks manager: writing.

The manager sets the hash that each page of a ring is to have; anyone may then add the
page, once. So a chunk that can be read stays, and it is the one that was meant. -/
namespace Individuality.ChunksManager
open Support
open Members (RingExponent)

/-- How a page is hashed, and decoded with its chunks validated. -/
structure Codec (T : Config) where
  ChunkPageHash : Type
  hashDecEq : DecidableEq ChunkPageHash
  blake2 : List UInt8 → ChunkPageHash
  decode : List UInt8 → Option (BoundedVec T.Chunk T.pageSize)

attribute [instance] Codec.hashDecEq

variable {T : Config} (K : Codec T)

structure Store where
  chunks : Pages T
  chunkPageHashes : StorageMap (RingExponent × PageIndex) K.ChunkPageHash

inductive Call
  | addChunks (ringExponent : RingExponent) (pageIndex : PageIndex) (encodedChunks : List UInt8)
  | setChunkPageHashes (isManager : Bool) (ringExponent : RingExponent) (pageHashes : List K.ChunkPageHash)

inductive WriteError
  | invalidTransaction
  | invalidChunks
  | badOrigin

variable {K} (s : Store K)

def authorizeAddChunks (ringExponent : RingExponent) (pageIndex : PageIndex) (encodedChunks : List UInt8) :
    Except WriteError Unit := do
  ensure (s.chunks.contains (ringExponent, pageIndex) = false) .invalidTransaction
  ensure (s.chunkPageHashes.get (ringExponent, pageIndex) = some (K.blake2 encodedChunks)) .invalidTransaction

def addChunkPageHashes (ringExponent : RingExponent) (pageHashes : List K.ChunkPageHash) : Store K :=
  let hashes := pageHashes.zipIdx.foldl (fun hashes entry => hashes.insert (ringExponent, entry.2) entry.1)
    s.chunkPageHashes
  { s with chunkPageHashes := hashes }

/-- The store with the hashes of a genesis, whose exponents are valid. -/
def genesis (encodedChunkPageHashes : List (RingExponent × List K.ChunkPageHash)) : Store K :=
  encodedChunkPageHashes.foldl (fun s entry => addChunkPageHashes s entry.1 entry.2) ⟨∅, ∅⟩

def exec : Call K → Except WriteError (Store K)
  | .addChunks ringExponent pageIndex encodedChunks => do
    authorizeAddChunks s ringExponent pageIndex encodedChunks
    let page ← okOr (K.decode encodedChunks) .invalidChunks
    return { s with chunks := s.chunks.insert (ringExponent, pageIndex) page }
  | .setChunkPageHashes isManager ringExponent pageHashes => do
    ensure (isManager = true) .badOrigin
    return addChunkPageHashes s ringExponent pageHashes

variable {s} {s' : Store K} {call : Call K} {e : RingExponent} {encoded : List (List UInt8)} {table : List T.Chunk}

/-- What is kept of a ring: the hashes on record and the pages added are those of the table. -/
structure Meant (e : RingExponent) (encoded : List (List UInt8)) (table : List T.Chunk) (s : Store K) : Prop where
  hashes : ∀ k hash, s.chunkPageHashes.get (e, k) = some hash → (encoded.map K.blake2)[k]? = some hash
  pages : ∀ k page, s.chunks.get (e, k) = some page → (chunks T.pageSize table)[k]? = some page.toList

theorem Meant.addChunkPageHashes (h : Meant e encoded table s) {e' : RingExponent} {hashes : List K.ChunkPageHash}
    (hset : e' = e → hashes = encoded.map K.blake2) : Meant e encoded table (addChunkPageHashes s e' hashes) := by
  refine ⟨?_, h.pages⟩
  have hmeant : ∀ entry ∈ hashes.zipIdx, e' = e → (encoded.map K.blake2)[entry.2]? = some entry.1 :=
    fun entry hentry heq => hset heq ▸ List.mk_mem_zipIdx_iff_getElem?.mp hentry
  have hold := h.hashes
  unfold ChunksManager.addChunkPageHashes
  generalize hashes.zipIdx = l, s.chunkPageHashes = m at hmeant hold ⊢
  induction l generalizing m with
  | nil => exact hold
  | cons entry l ih =>
    refine ih _ (fun other hother => hmeant other (List.mem_cons_of_mem _ hother)) fun k hash hget => ?_
    rw [StorageMap.get_insert] at hget
    split at hget
    · rename_i heq
      cases heq
      cases hget
      exact hmeant entry List.mem_cons_self rfl
    · exact hold k hash hget

theorem Meant.exec (h : Meant e encoded table s)
    (hfree : ∀ bytes ∈ encoded, ∀ other, K.blake2 other = K.blake2 bytes → other = bytes)
    (hencoded : encoded.map (fun bytes => (K.decode bytes).map BoundedVec.toList) = (chunks T.pageSize table).map some)
    (hcall : ∀ hashes, call = .setChunkPageHashes true e hashes → hashes = encoded.map K.blake2)
    (hexec : exec s call = .ok s') : Meant e encoded table s' := by
  cases call with
  | addChunks e' k' bytes =>
    simp only [ChunksManager.exec, authorizeAddChunks, bind_eq_ok, ensure_eq_ok, okOr_eq_ok, pure_eq_ok] at hexec
    obtain ⟨-, ⟨-, -, hhash⟩, added, hdecode, rfl⟩ := hexec
    refine ⟨h.hashes, fun k page hget => ?_⟩
    rw [StorageMap.get_insert] at hget
    split at hget
    · rename_i heq
      cases heq
      cases hget
      have hpage := congrArg (·[k']?) hencoded
      have hmeant := h.hashes k' _ hhash
      rw [List.getElem?_map, Option.map_eq_some_iff] at hmeant
      obtain ⟨meant, hmeant, heq⟩ := hmeant
      cases hfree meant (List.mem_of_getElem? hmeant) bytes heq.symm
      simp only [List.getElem?_map, hmeant, hdecode, Option.map_some] at hpage
      exact Option.map_injective (Option.some_injective _) hpage.symm
    · exact h.pages k page hget
  | setChunkPageHashes isManager e' hashes =>
    simp only [ChunksManager.exec, bind_eq_ok, ensure_eq_ok, pure_eq_ok] at hexec
    obtain ⟨-, rfl, rfl⟩ := hexec
    exact h.addChunkPageHashes fun heq => hcall hashes (heq ▸ rfl)

theorem Meant.genesis {hashes : List (RingExponent × List K.ChunkPageHash)}
    (h : ∀ entry ∈ hashes, entry.1 = e → entry.2 = encoded.map K.blake2) :
    Meant e encoded table (genesis (T := T) hashes) :=
  List.foldlRecOn hashes _ ⟨fun _ _ hget => (by cases hget), fun _ _ hget => (by cases hget)⟩
    fun _ ht entry hentry => ht.addChunkPageHashes (h entry hentry)

/-- As long as the genesis and the manager set for a ring the hashes of a table's pages only, with no other bytes of
these hashes: whoever adds pages in whatever order, a chunk whose page has been added reads as in the table, and no
other reads. -/
theorem chunks_as_meant
    (hfree : ∀ bytes ∈ encoded, ∀ other, K.blake2 other = K.blake2 bytes → other = bytes)
    (hencoded : encoded.map (fun bytes => (K.decode bytes).map BoundedVec.toList) = (chunks T.pageSize table).map some)
    (hsize : (∃ k, T.pageSize = 2 ^ k) ∨ T.pageSize = 255) {initial : List (RingExponent × List K.ChunkPageHash)}
    (hinitial : ∀ entry ∈ initial, entry.1 = e → entry.2 = encoded.map K.blake2)
    (h : Reaches exec (fun _ call => ∀ hashes, call = .setChunkPageHashes true e hashes →
      hashes = encoded.map K.blake2) (genesis initial) s) {i : Nat} (hi : i < 2 ^ e.exponent - 257) :
    getChunk s.chunks e i = if s.chunks.contains (e, i / T.pageSize) then okOr table[i]? (.error .chunkNotFound)
      else .error (.error .chunkNotFound) := by
  have hmeant := h.invariant (I := Meant e encoded table) (.genesis hinitial) fun _ _ _ ht hcall hexec =>
    ht.exec hfree hencoded hcall hexec
  rw [getChunk_eq, chunkAt, pageOf_of_pageSize hsize hi, StorageMap.contains]
  cases hget : s.chunks.get (e, i / T.pageSize) with
  | none => rfl
  | some page =>
    have hpage := hmeant.pages _ page hget
    rw [getElem?_chunks T.pageSize_pos] at hpage
    split at hpage
    · simp only [Option.bind_some, ← Option.some.inj hpage, List.getElem?_take, if_pos mod_lt_pageSize,
        List.getElem?_drop, Nat.div_add_mod', Option.isSome_some, if_true]
    · cases hpage

/-- Bytes are their own hash. -/
def sampleCodec : Codec sampleConfig :=
  ⟨List UInt8, inferInstance, id, fun bytes => BoundedVec.tryFrom (bytes.map UInt8.toNat)⟩

theorem chunks_as_meant_sample : ∃ s : Store sampleCodec, getChunk s.chunks .r2e9 1 = .ok (11 : Nat) := by
  have hencoded : [[10, 11]].map (fun bytes => (sampleCodec.decode bytes).map BoundedVec.toList) =
    (chunks sampleConfig.pageSize [(10 : Nat), (11 : Nat)]).map some := rfl
  cases hadd : exec (genesis [(.r2e9, [[10, 11]])] : Store sampleCodec) (.addChunks .r2e9 0 [10, 11]) with
  | error => cases hadd
  | ok s =>
    have hreach : Reaches exec (fun _ call => ∀ hashes, call = .setChunkPageHashes true .r2e9 hashes →
        hashes = [[10, 11]].map sampleCodec.blake2) (genesis [(.r2e9, [[10, 11]])]) s :=
      (Reaches.refl _).tail (fun _ heq => (by cases heq)) hadd
    refine ⟨s, (chunks_as_meant (fun _ _ _ heq => heq) hencoded (.inl ⟨1, rfl⟩) (fun _ hentry _ => ?_) hreach
      (i := 1) (by decide)).trans ?_⟩
    · cases List.mem_singleton.mp hentry
      rfl
    · cases hadd
      rfl

end Individuality.ChunksManager
