import Individuality.Members.Queue
import Individuality.Members.Removal
import Individuality.Support.Runs

/-! The pallet as a system of calls.

`State` is the pallet's whole storage with the clock and the chunks it reads;
`Call` is everything that reaches a collection: the traits other pallets use, the
signed calls, and the authorized ones behind their own checks. A call names its
collection and touches no other, so a property that every call keeps for the one
store it runs on holds of every collection in every state reached
(`reaches_invariant`). -/
namespace Individuality.Members
open Support
variable {T : Config}

inductive Call (T : Config)
  | createCollection (owner : T.Location) (onboardingSize : Nat) (mode : RingMode)
      (ringSize : RingExponent) (selfInclusionDelay : Option Nat)
  | addMembers (members : List T.Member)
  | setOnboardingSize (onboardingSize : Nat)
  | onboardMembers (mustBuild : Bool)
  | selfInclude (member : T.Member)
  | mergeQueuePages
  | buildRing (r : Nat) (toInclude : Nat)
  | mergeRings (base target : Nat)
  | startRemovalSession
  | endRemovalSession
  | removeMembers (suspensions : List T.Member)
  | removeSuspendedKeys (r : Nat)
  | removeRing (r : Nat)
  | deleteRingPage (r : Nat) (p : Nat)
  | deleteCollection (owner : T.Location)
  | enqueueRingDeletion (r : Nat)
  | deleteOnboardingQueuePage (q : QueuePageIndex)
  | finalizeCollectionDeletion
  | markRingStale (r : Nat)
  | cleanUpOldRoots (r : Nat) (limit : Nat)

namespace Store

def createCollection (s : Store T) (owner : T.Location) (onboardingSize : Nat) (mode : RingMode)
    (ringSize : RingExponent) (selfInclusionDelay : Option Nat) : Except Error (Store T) := do
  ensure (s.collections.isNone = true ∧ s.suspendedCollections.isNone = true)
    .collectionAlreadyExists
  ensure (mode = .flexible → ringSize.exponent ≤ T.maxFlexibleRingExponent.exponent ∧
    ringSize.ringCapacity ≤ T.maxFlexibleRingExponent.ringCapacity) .invalidRingSizeForFlexible
  ensure (onboardingSize ≤ ringSize.ringCapacity) .invalidOnboardingSize
  .ok { s with
    collections := some ⟨.external owner, mode, ringSize, selfInclusionDelay⟩
    onboardingSize := onboardingSize
    ringsState := default }

def setOnboardingSize (s : Store T) (onboardingSize : Nat) : Except Error (Store T) := do
  let info ← okOr s.collections .collectionNotFound
  ensure (onboardingSize ≤ info.ringSize.ringCapacity) .invalidOnboardingSize
  .ok { s with onboardingSize := onboardingSize }

/-- What a call does to the storage of the collection it names. -/
def exec (env : Env T) (s : Store T) : Call T → Except Error (Store T)
  | .createCollection owner n mode size delay => s.createCollection owner n mode size delay
  | .addMembers members => s.addMembers env members
  | .setOnboardingSize n => s.setOnboardingSize n
  | .onboardMembers mustBuild => Except.map Prod.fst (s.onboardMembers mustBuild)
  | .selfInclude member => s.doSelfInclude member
  | .mergeQueuePages => s.mergeFrontQueuePages
  | .buildRing r toInclude => s.buildRing env r toInclude
  | .mergeRings base target => s.mergeRings env base target
  | .startRemovalSession => s.startRemovalSession
  | .endRemovalSession => s.endRemovalSession
  | .removeMembers suspensions => s.removeMembers suspensions
  | .removeSuspendedKeys r => s.removeSuspendedKeysAuthorized env r
  | .removeRing r => s.removeRing env r
  | .deleteRingPage r p => s.deleteRingPageAuthorized r p
  | .deleteCollection owner => s.deleteCollection owner
  | .enqueueRingDeletion r => s.enqueueRingDeletionAuthorized env r
  | .deleteOnboardingQueuePage q => s.deleteOnboardingQueuePageAuthorized q
  | .finalizeCollectionDeletion => s.finalizeCollectionDeletionAuthorized
  | .markRingStale r => s.markRingStaleAuthorized r
  | .cleanUpOldRoots r limit => s.cleanUpOldRootsAuthorized env r limit

end Store

structure State (T : Config) where
  env : Env T
  identifiersOf : StorageMap (CollectionOwner T) (BoundedVec Identifier T.maxCollections)
  store : Identifier → Store T

/-- A call on a collection, or the world outside moving on. -/
inductive Action (T : Config)
  | call (id : Identifier) (c : Call T)
  | advance (seconds : Nat)
  | provideChunks (chunks : RingExponent → Nat → Nat → Option (List T.crypto.StaticChunk))

namespace State

/-- The state before any collection was created. -/
def genesis (T : Config) : State T := ⟨⟨0, fun _ _ _ => none⟩, ∅, fun _ => Store.empty T⟩

/-- The bookkeeping of owners: creation registers the identifier, finalization removes it. -/
def register (s : State T) (id : Identifier) : Call T →
    Except Error (StorageMap (CollectionOwner T) (BoundedVec Identifier T.maxCollections))
  | .createCollection owner _ _ _ _ => do
    let identifiers := (s.identifiersOf.get (.external owner)).getD default
    let identifiers ← okOr (identifiers.tryPush id) .tooManyCollections
    .ok (s.identifiersOf.insert (.external owner) identifiers)
  | .finalizeCollectionDeletion =>
    match (s.store id).suspendedCollections with
    | none => .ok s.identifiersOf
    | some info =>
      match s.identifiersOf.get info.owner with
      | none => .ok s.identifiersOf
      | some identifiers =>
        .ok (s.identifiersOf.insert info.owner (identifiers.retain fun i => i ≠ id))
  | _ => .ok s.identifiersOf

def exec (s : State T) : Action T → Except Error (State T)
  | .call id c => do
    let store ← (s.store id).exec s.env c
    let identifiersOf ← s.register id c
    .ok { s with identifiersOf := identifiersOf, store := Function.update s.store id store }
  | .advance seconds => .ok { s with env := { s.env with now := s.env.now + seconds } }
  | .provideChunks chunks => .ok { s with env := { s.env with chunks := chunks } }

/-- A state that runs of the pallet under `G` reach. -/
def Reachable (G : State T → Action T → Prop) (s : State T) : Prop :=
  Reaches exec G (genesis T) s

/-- A condition on the calls of a run, given the store each runs on. -/
def OnCalls (G : Env T → Store T → Call T → Prop) (s : State T) : Action T → Prop
  | .call id c => G s.env (s.store id) c
  | _ => True

/-- A condition on the calls on one collection. -/
def OnCallsTo (id : Identifier) (G : Env T → Store T → Call T → Prop) (s : State T) :
    Action T → Prop
  | .call id' c => id' = id → G s.env (s.store id) c
  | _ => True

/-- A condition met by all calls is met by those on one collection. -/
theorem Reachable.onCallsTo {G : Env T → Store T → Call T → Prop} {s : State T}
    (h : Reachable (OnCalls G) s) (id : Identifier) : Reachable (OnCallsTo id G) s :=
  h.mono fun _ a ha => by
    cases a with
    | call id' c => exact fun hid => hid ▸ ha
    | advance _ => trivial
    | provideChunks _ => trivial

theorem exec_call {s s' : State T} {id : Identifier} {c : Call T}
    (h : s.exec (.call id c) = .ok s') :
    (s.store id).exec s.env c = .ok (s'.store id) ∧ s'.env = s.env ∧
      ∀ id', id' ≠ id → s'.store id' = s.store id' := by
  simp only [exec, bind_eq_ok] at h
  obtain ⟨store, hstore, identifiersOf, -, hs⟩ := h
  cases hs
  refine ⟨by simpa using hstore, rfl, ?_⟩
  intro id' hne
  exact Function.update_of_ne hne _ _

/-- Whether a call creates a collection. -/
def creates : Call T → Bool
  | .createCollection .. => true
  | _ => false

/-- Only a creation can be refused for its owner's sake. -/
theorem exists_register (s : State T) (id : Identifier) {c : Call T} (hc : creates c = false) :
    ∃ identifiersOf, s.register id c = .ok identifiersOf := by
  cases c with
  | createCollection owner n mode size delay => cases hc
  | finalizeCollectionDeletion =>
    simp only [register]
    split
    · exact ⟨_, rfl⟩
    · split <;> exact ⟨_, rfl⟩
  | _ => exact ⟨_, rfl⟩

/-- A call that its collection accepts, and that is not refused for its owner's sake. -/
theorem exists_exec_call {s : State T} {id : Identifier} {c : Call T} {t : Store T}
    (hexec : (s.store id).exec s.env c = .ok t) (hregister : ∃ identifiersOf, s.register id c = .ok identifiersOf) :
    ∃ s', s.exec (.call id c) = .ok s' ∧ s'.store id = t ∧ s'.env = s.env := by
  obtain ⟨identifiersOf, hregister⟩ := hregister
  refine ⟨{ s with identifiersOf := identifiersOf, store := Function.update s.store id t }, ?_,
    Function.update_self _ _ _, rfl⟩
  simp only [exec, hexec, hregister, ok_bind]

/-- A call that a collection's store accepts extends the run. -/
theorem Reachable.call {G : State T → Action T → Prop} {s : State T} (h : Reachable G s)
    (id : Identifier) (c : Call T) {t : Store T} (hexec : (s.store id).exec s.env c = .ok t)
    (hregister : ∃ identifiersOf, s.register id c = .ok identifiersOf) (hG : G s (.call id c)) :
    ∃ s', Reachable G s' ∧ s'.store id = t ∧ s'.env = s.env := by
  obtain ⟨s', hs', hstore, henv⟩ := exists_exec_call hexec hregister
  exact ⟨s', h.tail hG hs', hstore, henv⟩

/-- A run of calls on one collection that has been created. -/
def Run (env : Env T) (G : Env T → Store T → Call T → Prop) : Store T → Store T → Prop :=
  Reaches (Store.exec env) fun s c => G env s c ∧ creates c = false

/-- A collection's run extends the pallet's. -/
theorem Reachable.run {G : Env T → Store T → Call T → Prop} {s : State T} {id : Identifier}
    {t : Store T} (h : Reachable (OnCalls G) s) (hrun : Run s.env G (s.store id) t) :
    ∃ s', Reachable (OnCalls G) s' ∧ s'.store id = t ∧ s'.env = s.env := by
  refine Reaches.invariant (I := fun t => ∃ s', Reachable (OnCalls G) s' ∧ s'.store id = t ∧
    s'.env = s.env) hrun ⟨s, h, rfl, rfl⟩ ?_
  rintro t c t' ⟨u, hu, rfl, henv⟩ ⟨hG, hc⟩ hexec
  rw [← henv] at hexec hG
  obtain ⟨u', hu', hstore, henv'⟩ := hu.call _ _ hexec (u.exists_register id hc) hG
  exact ⟨u', hu', hstore, henv'.trans henv⟩

/-- What one call carries for the store it runs on, a run carries for every collection. -/
theorem reaches_invariant {I : Store T → Prop} {G : Env T → Store T → Call T → Prop}
    {s s' : State T} (h : Reaches exec (OnCalls G) s s') (h₀ : ∀ id, I (s.store id))
    (step : ∀ env t c t', I t → G env t c → t.exec env c = .ok t' → I t') :
    ∀ id, I (s'.store id) := by
  refine Reaches.invariant (I := fun s => ∀ id, I (s.store id)) h h₀ ?_
  intro t a t' ht hG hexec id'
  cases a with
  | call id c =>
    obtain ⟨hstore, -, hother⟩ := exec_call hexec
    by_cases hid : id' = id
    · rw [hid]
      exact step _ _ c _ (ht id) hG hstore
    · rw [hother id' hid]
      exact ht id'
  | advance seconds =>
    cases hexec
    exact ht id'
  | provideChunks chunks =>
    cases hexec
    exact ht id'

/-- What the calls on one collection carry for its store, a run carries for it. -/
theorem reaches_invariant_of {id : Identifier} {I : Store T → Prop}
    {G : Env T → Store T → Call T → Prop} {s s' : State T}
    (h : Reaches exec (OnCallsTo id G) s s') (h₀ : I (s.store id))
    (step : ∀ env t c t', I t → G env t c → t.exec env c = .ok t' → I t') : I (s'.store id) := by
  refine Reaches.invariant (I := fun s => I (s.store id)) h h₀ ?_
  intro t a t' ht hG hexec
  cases a with
  | call id' c =>
    obtain ⟨hstore, -, hother⟩ := exec_call hexec
    by_cases hid : id = id'
    · subst hid
      exact step _ _ c _ ht (hG rfl) hstore
    · rw [hother id hid]
      exact ht
  | advance seconds =>
    cases hexec
    exact ht
  | provideChunks chunks =>
    cases hexec
    exact ht

/-- What one call carries holds of every collection in every state reached from the start. -/
theorem reachable_invariant {I : Store T → Prop} {G : Env T → Store T → Call T → Prop}
    {s : State T} (h : Reachable (OnCalls G) s) (h₀ : I (Store.empty T))
    (step : ∀ env t c t', I t → G env t c → t.exec env c = .ok t' → I t') (id : Identifier) :
    I (s.store id) := reaches_invariant h (fun _ => h₀) step id

/-- What one call carries of a store at the time it runs, and the passing of time leaves alone,
holds of every collection in every state reached from the start. -/
theorem reachable_invariant_at {I : Env T → Store T → Prop} {G : Env T → Store T → Call T → Prop}
    {s : State T} (h : Reachable (OnCalls G) s) (h₀ : ∀ env, I env (Store.empty T))
    (step : ∀ env t c t', I env t → G env t c → t.exec env c = .ok t' → I env t')
    (outside : ∀ env env' t, I env t → env.now ≤ env'.now → I env' t) (id : Identifier) : I s.env (s.store id) := by
  refine Reaches.invariant (I := fun s => ∀ id, I s.env (s.store id)) h (fun _ => h₀ _) ?_ id
  intro t a t' ht hG hexec id'
  cases a with
  | call id c =>
    obtain ⟨hstore, henv, hother⟩ := exec_call hexec
    rw [henv]
    by_cases hid : id' = id
    · rw [hid]
      exact step _ _ c _ (ht id) hG hstore
    · rw [hother id' hid]
      exact ht id'
  | advance seconds =>
    cases hexec
    exact outside _ _ _ (ht id') (Nat.le_add_right _ _)
  | provideChunks chunks =>
    cases hexec
    exact outside _ _ _ (ht id') le_rfl

end State
end Individuality.Members
