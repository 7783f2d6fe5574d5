import Individuality.Notifier.Distinct
import Individuality.Replication.Channel
import Individuality.Subscriber.Redelivery

/-! Batches that are delivered more than once.

A batch that partly failed to be sent is sent again as a whole, anybody may ask for a replay, and an initialization may
bring what a batch brought. The subscriber pushes what it gets, whatever it holds: a second delivery repeats a root in
its window, and in a full window the oldest root makes room for the repetition. -/
namespace Individuality.Replication
open Support
open Members (Identifier RingExponent)
variable {R : Type} {C : Subscriber.Config R}

/-- The calls that messages of the notifier become. -/
def FromNotifier (T : Notifier.Config R) (call : Subscriber.Call C) : Prop :=
  ∃ (paraId : ParaId) (message : Notifier.Message T), Notifier.Produced paraId message ∧
    message.received C = some call

variable {T : Notifier.Config R} {call : Subscriber.Call C}

/-- A batch of the notifier names each ring once. -/
theorem FromNotifier.nodup (h : FromNotifier T call) (batch : Subscriber.Batch C)
    (hcall : call = .processRingUpdates batch ∨ ∃ e, call = .initializeRingRoots e batch) :
    (Subscriber.ringIndices batch).Nodup := by
  obtain ⟨paraId, message, hproduced, hreceived⟩ := h
  have hnodup := hproduced.nodup
  have hdecode : ∀ b : RingRootUpdatesBatch R T.maxUpdatesPerBatch, b.decode C.maxUpdatesPerBatch = some batch →
      batch.updates.toList = b.updates.toList := by
    intro b hb
    obtain ⟨updates, hupdates, rfl⟩ := Option.map_eq_some_iff.mp hb
    exact BoundedVec.tryFrom_eq_some.mp hupdates
  cases message with
  | initializeRingRoots e roots =>
    obtain ⟨b, hb, rfl⟩ := Option.map_eq_some_iff.mp hreceived
    rcases hcall with hcall | ⟨e', hcall⟩
    · cases hcall
    · cases hcall
      rw [Subscriber.ringIndices, hdecode roots hb]
      exact hnodup
  | updateRingRoots updates =>
    obtain ⟨b, hb, rfl⟩ := Option.map_eq_some_iff.mp hreceived
    rcases hcall with hcall | ⟨e', hcall⟩
    · cases hcall
      rw [Subscriber.ringIndices, hdecode updates hb]
      exact hnodup
    · cases hcall
  | terminateSubscription =>
    cases hreceived
    rcases hcall with hcall | ⟨e', hcall⟩
    · cases hcall
    · cases hcall

/-- The batches of a run are the notifier's. -/
def Delivers (T : Notifier.Config R) (_ : Subscriber.Store C) (a : Subscriber.Action C) : Prop :=
  (∃ batch, a.2 = .processRingUpdates batch ∨ ∃ e, a.2 = .initializeRingRoots e batch) → FromNotifier T a.2

/-- A chain whose collections have `n` rings, each built once. -/
def sampleChain (n : Nat) : Notifier.Env Notifier.sampleConfig :=
  { Notifier.sampleEnv with
    provider := ⟨fun _ => (List.range n).foldl (fun roots ring => roots.insert ring ⟨(), 1⟩) ∅, fun _ => n⟩ }

/-- A page of its initialization. -/
def samplePage (n : Nat) (rings : BoundedVec Nat 2) : RingRootUpdatesBatch Unit 2 where
  identifier := Notifier.sampleId 0
  sequence := 0
  sourceTime := 1
  updates := ⟨rings.toList.map fun ring => ⟨ring, .built 1 ()⟩, (List.length_map _).le.trans rings.length_le⟩
  nextRingIndex := n

def sampleInit (n : Nat) (rings : BoundedVec Nat 2) : Subscriber.Call Subscriber.sampleConfig :=
  .initializeRingRoots .r2e9 (samplePage n rings)

theorem sampleInit_of_produced {n : Nat} {rings : BoundedVec Nat 2} (paraId : ParaId)
    (h : Notifier.Produced (T := Notifier.sampleConfig) paraId (.initializeRingRoots .r2e9 (samplePage n rings))) :
    FromNotifier Notifier.sampleConfig (sampleInit n rings) := by
  refine ⟨paraId, _, h, ?_⟩
  have hfrom : (BoundedVec.tryFrom (samplePage n rings).updates.toList : Option (BoundedVec _ 2)) =
      some (samplePage n rings).updates := dif_pos (samplePage n rings).updates.length_le
  have hdecode : (samplePage n rings).decode 2 = some (samplePage n rings) := by
    unfold RingRootUpdatesBatch.decode
    rw [hfrom]
    rfl
  exact congrArg (fun b : Option (Subscriber.Batch Subscriber.sampleConfig) =>
    b.map (Subscriber.Call.initializeRingRoots .r2e9)) hdecode

end Individuality.Replication
