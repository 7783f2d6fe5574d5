import Individuality.People.Rings

/-! The dummy DIM pallet: its storage and its calls.

Root, or an origin like it, reserves personal ids in the people pallet, gives them up or
recognizes people under them, and suspends and resumes people, all without evidence. A
call that fails changes nothing. The members are those of the people collection. -/
namespace Individuality.DummyDim
open Support
open People (RingConfig)

inductive Error
  | notPerson
  | notSuspended
  | notReserved
  | tooManyPeople
  | badOrigin
  | people (e : People.Error)
  | members (e : Members.Error)

structure Config where
  ring : RingConfig
  maxPersonBatchSize : Nat

variable (T : Config)

namespace Config

abbrev Member : Type := T.ring.pallet.Member
abbrev Registry : Type := People.Store T.ring.people

end Config

structure Record where
  key : T.Member
  suspended : Bool

/-- The ids that are reserved by people who are not proven yet, and the people that are tracked. -/
structure Store where
  reservedIds : StorageMap Nat Unit
  people : StorageMap Nat (Record T)

/-- The storage of this pallet and that of the people pallet. -/
abbrev State : Type := Store T × T.Registry

/-- `update` may command personhood updates; root always does. -/
inductive Origin
  | update
  | other

inductive Call
  | reserveIds (count : Nat)
  | renewIdReservation (id : Nat)
  | cancelIdReservation (id : Nat)
  | recognizePersonhood (idsAndKeys : BoundedVec (Nat × T.Member) T.maxPersonBatchSize)
  | suspendPersonhood (ids : BoundedVec Nat T.maxPersonBatchSize)
  | resumePersonhood (id : Nat)
  | startMutationSession
  | endMutationSession

variable {T}

def reserveNewId (s : State T) : State T :=
  let (id, registry) := People.reserveNewId s.2
  ({ s.1 with reservedIds := s.1.reservedIds.insert id () }, registry)

def reserveIds (s : State T) (count : Nat) : Except Error (State T) := do
  ensure (count ≤ T.maxPersonBatchSize) .tooManyPeople
  return reserveNewId^[count] s

def renewIdReservation (s : State T) (id : Nat) : Except Error (State T) := do
  let registry ← (People.renewIdReservation s.2 id).mapError .people
  return ({ s.1 with reservedIds := s.1.reservedIds.insert id () }, registry)

/-- Nothing asks who has reserved the id. -/
def cancelIdReservation (s : State T) (id : Nat) : Except Error (State T) := do
  let registry ← (People.cancelIdReservation s.2 id).mapError .people
  return ({ s.1 with reservedIds := s.1.reservedIds.remove id }, registry)

def recognizeOne (s : State T) (entry : Nat × T.Member) : Except Error (State T) := do
  ensure (s.1.reservedIds.contains entry.1 = true) .notReserved
  let registry ← (People.recognizePersonhood s.2 entry.1 (some entry.2)).mapError .people
  return (⟨s.1.reservedIds.remove entry.1, s.1.people.insert entry.1 ⟨entry.2, false⟩⟩, registry)

def recognizePersonhood (s : State T) (idsAndKeys : BoundedVec (Nat × T.Member) T.maxPersonBatchSize) :
    Except Error (State T) :=
  idsAndKeys.toList.foldlM recognizeOne s

def noteSuspended (people : StorageMap Nat (Record T)) (id : Nat) : Except Error (StorageMap Nat (Record T)) := do
  let record ← okOr (people.get id) .notPerson
  return people.insert id { record with suspended := true }

def suspendPersonhood (s : State T) (ids : BoundedVec Nat T.maxPersonBatchSize) : Except Error (State T) := do
  let (registry, outcome) := People.suspendPersonhood s.2 ids.toList
  outcome.mapError .people
  let people ← ids.toList.foldlM noteSuspended s.1.people
  return ({ s.1 with people := people }, registry)

def resumePersonhood (s : State T) (id : Nat) : Except Error (State T) := do
  let record ← okOr (s.1.people.get id) .notPerson
  ensure (record.suspended = true) .notSuspended
  let registry ← (People.recognizePersonhood s.2 id none).mapError .people
  return ({ s.1 with people := s.1.people.insert id { record with suspended := false } }, registry)

/-- A mutation session of the people is a removal session of their collection. -/
def session (s : State T) (call : Members.Call T.ring.pallet) : Except Error (State T) := do
  let rings ← (s.2.rings.exec s.2.members.1 call).mapError .members
  return (s.1, { s.2 with members := (s.2.members.1, rings) })

def dispatch (s : State T) : Origin → Call T → Except Error (State T)
  | .update, .reserveIds count => reserveIds s count
  | .update, .renewIdReservation id => renewIdReservation s id
  | .update, .cancelIdReservation id => cancelIdReservation s id
  | .update, .recognizePersonhood idsAndKeys => recognizePersonhood s idsAndKeys
  | .update, .suspendPersonhood ids => suspendPersonhood s ids
  | .update, .resumePersonhood id => resumePersonhood s id
  | .update, .startMutationSession => session s .startRemovalSession
  | .update, .endMutationSession => session s .endRemovalSession
  | .other, _ => .error .badOrigin

/-- How many new ids a call reserves. -/
def Call.reserved : Call T → Nat
  | .reserveIds count => count
  | _ => 0

def genesis : Store T := ⟨∅, ∅⟩

end Individuality.DummyDim
