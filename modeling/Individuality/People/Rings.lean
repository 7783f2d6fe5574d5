import Individuality.Members.Flexible
import Individuality.People.Bindings

/-! The people pallet over the members pallet.

The people are the members of one flexible collection, whose storage and clock are the
state of the service that the people pallet uses (`RingConfig.people`). `move` runs the
two pallets: the people pallet acts, others call the members pallet on the collection,
and a call of another pallet may dispatch calls under the personal origin it has been
given (`batch`). `noteCleaned` notes the suspended people whose keys a removal has taken
out of a ring, until they are recognized again. -/
namespace Individuality.People
open Support

/-- The pallets' configuration, and the collection of the people. -/
structure RingConfig where
  pallet : Members.Config
  contextDecEq : DecidableEq pallet.crypto.Context
  aliasDecEq : DecidableEq pallet.crypto.Alias
  collectionOwner : pallet.Location
  peopleOnboardingSize : Nat
  ringExponent : Members.RingExponent
  selfInclusionDelay : Nat
  AccountId : Type
  accountDecEq : DecidableEq AccountId
  Signature : Type
  verifySignature : Signature → pallet.crypto.Message → pallet.Member → Bool
  reviseMessage : pallet.crypto.Message → AccountId → Nat → pallet.crypto.Message

attribute [instance] RingConfig.contextDecEq RingConfig.aliasDecEq RingConfig.accountDecEq

/-- Suspend members one after the other; what was written ahead of a failure stays. -/
def suspendEach {M : Members.Config} (s : Members.Store M) : List M.Member → Members.Store M × Bool
  | [] => (s, true)
  | key :: rest =>
    match s.queueMemberSuspension key with
    | .ok s' => suspendEach s' rest
    | .error _ => (s, false)

namespace RingConfig
variable (R : RingConfig)

abbrev memberService : MemberService where
  World := Members.Env R.pallet × Members.Store R.pallet
  Member := R.pallet.Member
  Proof := R.pallet.crypto.Proof
  Message := R.pallet.crypto.Message
  Context := R.pallet.crypto.Context
  Alias := R.pallet.crypto.Alias
  memberDecEq := inferInstance
  contextDecEq := R.contextDecEq
  aliasDecEq := R.aliasDecEq
  createCollection w := (w.2.createCollection R.collectionOwner R.peopleOnboardingSize .flexible R.ringExponent
    (some R.selfInclusionDelay)).toOption.map (w.1, ·)
  addMembers w keys := (w.2.addMembers w.1 keys).toOption.map (w.1, ·)
  removeMembers w keys :=
    if w.2.ringsState.mutating = true then
      let (s, done) := suspendEach w.2 keys
      ((w.1, s), done)
    else (w, false)
  ringRevision w r := w.2.ringRevision r
  verifyMembership w proof r context message := (w.2.verifyMembership proof r context message).toOption

abbrev people : Config where
  memberService := R.memberService
  AccountId := R.AccountId
  accountDecEq := R.accountDecEq
  Signature := R.Signature
  verifySignature := R.verifySignature
  reviseMessage := R.reviseMessage

end RingConfig

variable {R : RingConfig}

def Store.rings (s : Store R.people) : Members.Store R.pallet := s.members.2

def Origin.isPersonal {T : Config} : Origin T → Bool
  | .personalIdentity _ | .personalAlias _ => true
  | _ => false

def Call.isOther {T : Config} : Call T → Bool
  | .other => true
  | _ => false

/-- A call of another pallet that dispatches calls under its own personal origin. -/
def batch {T : Config} (env : Env T) (s : Store T) (tx : Transaction T) (calls : List (Call T)) :
    Except InvalidTransaction (Store T) := do
  let (origin, val) ← validate env s tx
  ensure (tx.call.isOther = true ∧ origin.isPersonal = true) .call
  let s ← prepare s val
  return calls.foldl (fun s call =>
    match dispatch env s origin call with
    | .ok (s', _) => s'
    | .error _ => s) s

/-! ### The chain -/

/-- An action that others cannot take apart: personal origins are given to transactions only, and the
collection is changed by the two pallets only. -/
def Action.isOwn {T : Config} : Action T → Bool
  | .dispatch origin _ => !origin.isPersonal
  | .elsewhere _ _ => false
  | _ => true

/-- What the people pallet does of its own, and nobody else asks of it. -/
def Action.isInternal {T : Config} : Action T → Bool
  | .submit _ | .dispatch _ _ | .cleanUpAlias _ => true
  | _ => false

/-- `outside` is what the two pallets read of the chain. -/
inductive Move (R : RingConfig)
  | people (a : Action R.people)
  | batch (tx : Transaction R.people) (calls : List (Call R.people))
  | rings (call : Members.Call R.pallet)
  | outside (clock : Members.Env R.pallet) (env : Env R.people)

def move (c : Chain R.people) : Move R → Except Refusal (Chain R.people)
  | .people a => do
    ensure (a.isOwn = true) (.failed .badOrigin)
    exec c a
  | .batch tx calls => do
    let s ← (batch c.env c.store tx calls).mapError .invalid
    return { c with store := s }
  | .rings call => do
    ensure (Members.tends call = true) (.failed .badOrigin)
    let rings ← (c.store.rings.exec c.store.members.1 call).mapError fun _ => .failed .members
    return { c with store := { c.store with members := (c.store.members.1, rings) } }
  | .outside clock env => .ok ⟨{ c.store with members := (clock, c.store.rings) }, env⟩

/-- The key of the person is suspended. -/
def Suspended (s : Store R.people) (id : Nat) : Prop :=
  ∃ record, s.people.get id = some record ∧ s.rings.members.get record.key = some .suspended

/-- Suspended people whose keys a ring that is cleaned holds. -/
def heldIn (s : Store R.people) (r : Nat) : Set Nat :=
  {id | ∃ record, s.people.get id = some record ∧ s.rings.members.get record.key = some .suspended ∧
    record.key ∈ s.rings.keysInOrder r}

/-- Suspended people whose keys have been taken out of a ring, until they are recognized again. -/
def noteCleaned (c : Chain R.people) (m : Move R) (_ : Chain R.people) (cleaned : Set Nat) : Set Nat :=
  match m with
  | .rings (.removeSuspendedKeys r) => cleaned ∪ heldIn c.store r
  | .people (.recognizePersonhood who none) => cleaned \ {who}
  | _ => cleaned

def ringGenesis (clock : Members.Env R.pallet) (env : Env R.people) : Chain R.people :=
  genesis (T := R.people) (clock, Members.Store.empty R.pallet) env

/-! ### Regular runs -/

/-- A suspended person does not ask for the personal identity by a signature. -/
def InGoodStanding (s : Store R.people) (tx : Transaction R.people) : Prop :=
  ∀ signature id, tx.asPerson = some (.asPersonalIdentityWithProof signature id) → ¬Suspended s id

/-- A ring is not given a revision that the alias of an account was shown with already. -/
def RevisesAnew (s : Store R.people) (call : Members.Call R.pallet) : Prop :=
  ∀ account revCa, s.accountToAlias.get account = some revCa →
    s.rings.nextRevision call revCa.ring ≠ some revCa.revision

/-- A ring that is cleaned is the only one with the keys of its suspended people. -/
def CleansWhole (s : Store R.people) : Members.Call R.pallet → Prop
  | .removeSuspendedKeys r => ∀ id record, s.people.get id = some record →
      s.rings.members.get record.key = some .suspended → record.key ∈ s.rings.keysInOrder r →
      ∀ r', r' ≠ r → record.key ∉ s.rings.keysInOrder r'
  | _ => True

def Regular (c : Chain R.people) : Move R → Prop
  | .people (.submit tx) => LeavesIds c (.submit tx) ∧ InGoodStanding c.store tx
  | .people a => LeavesIds c a
  | .batch tx _ => c.store.nextPersonalId ≤ U64.max ∧ InGoodStanding c.store tx
  | .rings call => RevisesAnew c.store call ∧ CleansWhole c.store call
  | .outside _ _ => True

end Individuality.People
