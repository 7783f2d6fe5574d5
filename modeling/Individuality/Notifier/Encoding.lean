import Individuality.Notifier.Calls
import Individuality.Support.Scale

/-! What the notifier's messages look like on the wire, and how long they are.

A message wraps an encoded call: the subscriber pallet's index, the call's own index, and its
arguments. How many updates go into one message is found by a division: the channel's limit, less
the length of a message without updates, over the length of the longest update. That division knows
nothing of the prefixes that grow with the updates, nor of the ring exponent that an initialization
carries; it is right when what it leaves over is enough for them (`messages_fit_iff`). -/
namespace Individuality.Notifier
open Support Replication
open Members (Identifier RingExponent)
variable {R : Type} {T : Config R}

/-! ### Encoding -/

/-- What is encoded elsewhere: the ring roots, and the program around an encoded call. -/
structure Encoders (R : Type) where
  encodeRoot : R → List UInt8
  rootMaxEncodedLen : Nat
  length_encodeRoot_le : ∀ root, (encodeRoot root).length ≤ rootMaxEncodedLen
  exists_longest_root : ∃ root, (encodeRoot root).length = rootMaxEncodedLen
  beforeCall : List UInt8
  afterCall : List UInt8

namespace Encoders
variable (E : Encoders R)

def encodeOp : RingRootOp R → List UInt8
  | .built revision root => leBytes 1 0 ++ leBytes 4 revision ++ E.encodeRoot root
  | .deleted => leBytes 1 1

def encodeUpdate (update : RingRootUpdate R) : List UInt8 :=
  leBytes 4 update.ringIndex ++ E.encodeOp update.op

/-- `RingRootUpdate::max_encoded_len`. -/
def updateMaxEncodedLen : Nat := 4 + (1 + (4 + E.rootMaxEncodedLen))

def encodeBatch {n : Nat} (batch : RingRootUpdatesBatch R n) : List UInt8 :=
  batch.identifier.toList ++ leBytes 8 batch.sequence ++ leBytes 8 batch.sourceTime ++
    (encodeCompact batch.updates.length ++ batch.updates.toList.flatMap E.encodeUpdate) ++
    leBytes 4 batch.nextRingIndex

def encodeCall {n : Nat} : SubscriberCall R n → List UInt8
  | .initializeRingRoots ringExponent roots =>
    leBytes 1 0 ++ leBytes 1 ringExponent.exponent ++ E.encodeBatch roots
  | .updateRingRoots updates => leBytes 1 1 ++ E.encodeBatch updates
  | .terminateSubscription => leBytes 1 2

/-- `build_xcm_message`, encoded: the call goes in as a vector of bytes. -/
def encodeMessage {n : Nat} (palletIndex : Nat) (call : SubscriberCall R n) : List UInt8 :=
  E.beforeCall ++ prefixed (leBytes 1 palletIndex ++ E.encodeCall call) ++ E.afterCall

def emptyBatch (n : Nat) : RingRootUpdatesBatch R n := ⟨Vector.replicate 32 0, 0, 0, .nil, 0⟩

/-- `xcm_overhead`. -/
def xcmOverhead (n : Nat) : Nat := (E.encodeMessage U8.max (.updateRingRoots (emptyBatch n))).length

end Encoders

/-- The encodings behind the lengths of a configuration. -/
structure Codec {R : Type} (T : Config R) extends Encoders R where
  xcmOverhead_eq : T.xcmOverhead = toEncoders.xcmOverhead T.maxUpdatesPerBatch
  updateMaxEncodedLen_eq : T.updateMaxEncodedLen = toEncoders.updateMaxEncodedLen

/-! ### Lengths -/

/-- The updates a message carries. -/
def Message.updates : Message T → List (RingRootUpdate R)
  | .initializeRingRoots _ roots => roots.updates.toList
  | .updateRingRoots updates => updates.updates.toList
  | .terminateSubscription => []

namespace Encoders
variable (E : Encoders R)

theorem length_encodeUpdate_le (update : RingRootUpdate R) :
    (E.encodeUpdate update).length ≤ E.updateMaxEncodedLen := by
  unfold encodeUpdate updateMaxEncodedLen
  rw [List.length_append, length_leBytes]
  cases update.op with
  | built revision root =>
    have hroot := E.length_encodeRoot_le root
    simp only [encodeOp, List.length_append, length_leBytes]
    omega
  | deleted =>
    simp only [encodeOp, length_leBytes]
    omega

theorem exists_longest_update (ringIndex revision : Nat) :
    ∃ root, (E.encodeUpdate ⟨ringIndex, .built revision root⟩).length = E.updateMaxEncodedLen := by
  obtain ⟨root, hroot⟩ := E.exists_longest_root
  refine ⟨root, ?_⟩
  simp only [encodeUpdate, encodeOp, updateMaxEncodedLen, List.length_append, length_leBytes, hroot]
  omega

theorem length_encodeUpdates_le (updates : List (RingRootUpdate R)) :
    (updates.flatMap E.encodeUpdate).length ≤ updates.length * E.updateMaxEncodedLen := by
  induction updates with
  | nil => exact Nat.zero_le _
  | cons update rest ih =>
    have hupdate := E.length_encodeUpdate_le update
    rw [List.flatMap_cons, List.length_append, List.length_cons, Nat.succ_mul]
    omega

theorem length_encodeUpdates_eq {updates : List (RingRootUpdate R)}
    (h : ∀ update ∈ updates, (E.encodeUpdate update).length = E.updateMaxEncodedLen) :
    (updates.flatMap E.encodeUpdate).length = updates.length * E.updateMaxEncodedLen := by
  induction updates with
  | nil => exact (Nat.zero_mul _).symm
  | cons update rest ih =>
    have hupdate := h update List.mem_cons_self
    have hrest := ih fun u hu => h u (List.mem_cons_of_mem _ hu)
    rw [List.flatMap_cons, List.length_append, List.length_cons, Nat.succ_mul, hupdate, hrest, Nat.add_comm]

@[simp] theorem length_encodeBatch {n : Nat} (batch : RingRootUpdatesBatch R n) :
    (E.encodeBatch batch).length = 52 + (compactLength batch.updates.length +
      (batch.updates.toList.flatMap E.encodeUpdate).length) := by
  simp only [encodeBatch, List.length_append, length_leBytes, length_encodeCompact, Vector.length_toList]
  omega

/-- The length of the longest encoded call with `count` updates: an initialization. -/
def callLength (count : Nat) : Nat := 55 + (compactLength count + count * E.updateMaxEncodedLen)

/-- The length of a message around a call. -/
def messageLength (callLength : Nat) : Nat :=
  E.beforeCall.length + (compactLength callLength + callLength) + E.afterCall.length

theorem length_encodeMessage {n : Nat} (palletIndex : Nat) (call : SubscriberCall R n) :
    (E.encodeMessage palletIndex call).length = E.messageLength (1 + (E.encodeCall call).length) := by
  simp only [encodeMessage, messageLength, List.length_append, length_prefixed, length_leBytes]

theorem messageLength_mono {a b : Nat} (h : a ≤ b) : E.messageLength a ≤ E.messageLength b := by
  have hcompact := compactLength_mono h
  unfold messageLength
  omega

theorem length_encodeCall_le {count : Nat} (call : Message T) (h : call.updates.length ≤ count) :
    1 + (E.encodeCall call).length ≤ E.callLength count := by
  have hbatch : ∀ batch : RingRootUpdatesBatch R T.maxUpdatesPerBatch,
      batch.updates.toList.length ≤ count →
      (E.encodeBatch batch).length ≤ 52 + (compactLength count + count * E.updateMaxEncodedLen) := by
    intro batch hcount
    have hfirsts := compactLength_mono hcount
    have hupdates := (E.length_encodeUpdates_le batch.updates.toList).trans (Nat.mul_le_mul_right _ hcount)
    rw [length_encodeBatch, BoundedVec.length]
    omega
  unfold callLength
  cases call with
  | initializeRingRoots ringExponent roots =>
    have := hbatch roots h
    simp only [encodeCall, List.length_append, length_leBytes]
    omega
  | updateRingRoots updates =>
    have := hbatch updates h
    simp only [encodeCall, List.length_append, length_leBytes]
    omega
  | terminateSubscription =>
    simp only [encodeCall, length_leBytes]
    omega

/-- A message with at most `count` updates is at most as long as the longest one. -/
theorem length_encodeMessage_le {count : Nat} (palletIndex : Nat) (message : Message T)
    (h : message.updates.length ≤ count) :
    (E.encodeMessage palletIndex message).length ≤ E.messageLength (E.callLength count) := by
  rw [length_encodeMessage]
  exact E.messageLength_mono (E.length_encodeCall_le message h)

/-- An initialization with `count` of the longest updates is that long. -/
theorem length_encodeMessage_eq {n count : Nat} (palletIndex : Nat) (ringExponent : RingExponent)
    {roots : RingRootUpdatesBatch R n} (hcount : roots.updates.length = count)
    (hlong : ∀ update ∈ roots.updates.toList,
      (E.encodeUpdate update).length = E.updateMaxEncodedLen) :
    (E.encodeMessage palletIndex (.initializeRingRoots ringExponent roots)).length =
      E.messageLength (E.callLength count) := by
  have hupdates := E.length_encodeUpdates_eq hlong
  rw [length_encodeMessage]
  congr 1
  simp only [encodeCall, callLength, List.length_append, length_leBytes, length_encodeBatch, hupdates,
    hcount]
  rw [← hcount, BoundedVec.length]
  omega

theorem xcmOverhead_eq (n : Nat) : E.xcmOverhead n = E.messageLength 55 := by
  unfold xcmOverhead
  rw [length_encodeMessage]
  rfl

/-- What the updates add to the prefixes, with the ring exponent of an initialization. -/
def growth (count : Nat) : Nat := compactLength (E.callLength count) - 1 + compactLength count

theorem messageLength_callLength (n count : Nat) :
    E.messageLength (E.callLength count) =
      E.xcmOverhead n + count * E.updateMaxEncodedLen + E.growth count := by
  have hpos := compactLength_pos (E.callLength count)
  have h55 : compactLength 55 = 1 := by decide
  rw [xcmOverhead_eq]
  unfold messageLength growth
  rw [h55]
  have hcall : E.callLength count = 55 + (compactLength count + count * E.updateMaxEncodedLen) := rfl
  omega

end Encoders
end Individuality.Notifier
