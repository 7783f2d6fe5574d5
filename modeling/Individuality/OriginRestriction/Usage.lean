import Individuality.Support.BoundedVec
import Individuality.Support.LeakyBucket
import Individuality.Support.Outcome
import Individuality.Support.Runs
import Individuality.Support.StorageMap

/-! The origin-restriction pallet: the usage of restricted entities.

A transaction of a restricted entity pays its fee out of an allowance that recovers with
every block (`RestrictOrigin.validate`), and is refunded once it is known what its
dispatch cost (`RestrictOrigin.postDispatch`). `exec` runs a chain with the pallet:
transactions, calls of `clean_usage` by anyone, which a dispatch may make as well, and
the passing of blocks. -/
namespace Individuality.OriginRestriction
open Support

/-- The maximum usage, and what of it is recovered with each block. -/
structure Allowance where
  max : Nat
  recoveryPerBlock : Nat
  deriving DecidableEq, Repr

structure Config where
  Entity : Type
  entityDecEq : DecidableEq Entity
  OriginCaller : Type
  RuntimeCall : Type
  Weight : Type
  restrictedEntity : OriginCaller → Option Entity
  allowance : Entity → Allowance
  operationAllowedOneTimeExcess : Entity → RuntimeCall → Bool
  weightToFee : Weight → Nat
  lengthToFee : Nat → Nat

attribute [instance] Config.entityDecEq

structure Usage where
  used : Nat
  atBlock : Nat
  deriving DecidableEq, Repr

inductive Error
  | badOrigin
  | noUsage
  | notZero
  deriving DecidableEq, Repr

inductive InvalidTransaction
  | call
  | payment
  deriving DecidableEq, Repr

inductive Pays
  | yes
  | no
  deriving DecidableEq, Repr

variable (T : Config)

structure Store where
  usages : StorageMap T.Entity Usage
  blockNumber : Nat

structure PostDispatchInfo where
  actualWeight : Option T.Weight
  paysFee : Pays

/-- A transaction as `RestrictOrigin` sees it: `enabled` is the extension's own field, `origin` the one
that the extensions before it leave, and `weight` what the call and the extensions are declared to weigh. -/
structure Transaction where
  enabled : Bool
  origin : T.OriginCaller
  call : T.RuntimeCall
  weight : T.Weight
  len : Nat

/-- What `validate` hands on: a fee charged to an entity, or none. -/
inductive Val
  | charge (fee : Nat) (entity : T.Entity)
  | noCharge

variable {T}

def extrinsicFee (T : Config) (weight : T.Weight) (length : Nat) : Nat :=
  U128.saturatingAdd (T.weightToFee weight) (T.lengthToFee length)

/-- What is left at a block of a usage, after the recovery since its last update. -/
def recover (a : Allowance) (usage : Usage) (now : Nat) : Nat :=
  usage.used - U128.saturatingMul a.recoveryPerBlock (U32.saturatedFrom (now - usage.atBlock))

/-! ### What has been used -/

/-- What the entity has used by a block to come, if it uses no more. -/
def usedAt (s : Store T) (entity : T.Entity) (t : Nat) : Nat :=
  match s.usages.get entity with
  | some usage => recover (T.allowance entity) usage t
  | none => 0

def usedNow (s : Store T) (entity : T.Entity) : Nat := usedAt s entity s.blockNumber

/-! ### Calls -/

/-- Anyone may remove a usage that has recovered to zero; `isNone` says that the call has no origin. -/
def cleanUsage (s : Store T) (isNone : Bool) (entity : T.Entity) : Except Error (Store T) := do
  ensure (isNone = false) .badOrigin
  let usage ← okOr (s.usages.get entity) .noUsage
  ensure (recover (T.allowance entity) usage s.blockNumber = 0) .notZero
  return { s with usages := s.usages.remove entity }

/-! ### The transaction extension -/

namespace RestrictOrigin

def validate (s : Store T) (tx : Transaction T) : Except InvalidTransaction (Store T × Val T) :=
  match T.restrictedEntity tx.origin with
  | none => .ok (s, .noCharge)
  | some entity => do
    let allowance := T.allowance entity
    ensure (tx.enabled = true) .call
    let used := usedNow s entity
    let fee := extrinsicFee T tx.weight tx.len
    let usage : Usage := ⟨U128.saturatingAdd used fee, s.blockNumber⟩
    let s := { s with usages := s.usages.insert entity usage }
    ensure (usage.used ≤ allowance.max ∨ (used = 0 ∧ T.operationAllowedOneTimeExcess entity tx.call = true)) .payment
    return (s, .charge fee entity)

/-- What a dispatched transaction gets back of its fee. -/
def refund (T : Config) (fee : Nat) (info : PostDispatchInfo T) (len : Nat) : Nat :=
  match info.paysFee, info.actualWeight with
  | .no, _ => fee
  | .yes, some actualWeight => fee - extrinsicFee T actualWeight len
  | .yes, none => 0

def postDispatch (s : Store T) (val : Val T) (info : PostDispatchInfo T) (len : Nat) : Store T :=
  match val with
  | .noCharge => s
  | .charge fee entity =>
    match s.usages.get entity with
    | none => s
    | some usage =>
      let used := usage.used - refund T fee info len
      if used = 0 then { s with usages := s.usages.remove entity }
      else { s with usages := s.usages.insert entity { usage with used := used } }

end RestrictOrigin

/-! ### A chain with the pallet -/

variable (T)

/-- `cleaned` are the calls of `clean_usage` that the dispatch of the transaction makes. -/
inductive Action
  | transaction (tx : Transaction T) (cleaned : List T.Entity) (info : PostDispatchInfo T)
  | cleanUsage (isNone : Bool) (entity : T.Entity)
  | advance (blocks : Nat)

inductive Refusal
  | invalid (e : InvalidTransaction)
  | failed (e : Error)
  deriving DecidableEq, Repr

variable {T}

/-- A failed call changes nothing. -/
def tryClean (s : Store T) (entity : T.Entity) : Store T := ((cleanUsage s false entity).toOption).getD s

def exec (s : Store T) : Action T → Except Refusal (Store T)
  | .transaction tx cleaned info => do
    let (s, val) ← (RestrictOrigin.validate s tx).mapError .invalid
    return RestrictOrigin.postDispatch (cleaned.foldl tryClean s) val info tx.len
  | .cleanUsage isNone entity => (cleanUsage s isNone entity).mapError .failed
  | .advance blocks => .ok { s with blockNumber := s.blockNumber + blocks }

def genesis (T : Config) (blockNumber : Nat) : Store T := ⟨∅, blockNumber⟩

end Individuality.OriginRestriction
