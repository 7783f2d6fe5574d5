import Individuality.Notifier.Calls
import Individuality.Subscriber.Calls

/-! What the messages between the two chains become where they arrive.

A message is a call that the receiving chain decodes for its own bounds; one that it
cannot decode is lost. -/
namespace Individuality.Replication
open Support
open Members (Identifier RingExponent)
variable {R : Type} {n : Nat}

/-- The call on the subscriber that a message of the notifier becomes. -/
def SubscriberCall.received (C : Subscriber.Config R) : SubscriberCall R n → Option (Subscriber.Call C)
  | .initializeRingRoots ringExponent roots =>
    (roots.decode C.maxUpdatesPerBatch).map (.initializeRingRoots ringExponent)
  | .updateRingRoots updates => (updates.decode C.maxUpdatesPerBatch).map .processRingUpdates
  | .terminateSubscription => some (.terminateSubscription true)

/-- The call on the notifier that a message of the subscriber becomes, sent from `origin`. -/
def NotifierCall.received (T : Notifier.Config R) (origin : ParaId) :
    Subscriber.NotifierCall → Option (Notifier.Call T)
  | .unsubscribe => some (.unsubscribe origin true)
  | .requestReplay paraId identifier ringRootIndices =>
    (BoundedVec.tryFrom ringRootIndices).map (.requestReplay paraId identifier)

end Individuality.Replication
