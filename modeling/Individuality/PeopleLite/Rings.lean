import Individuality.Members.Records
import Individuality.PeopleLite.Effects

/-! The people-lite pallet over the members pallet.

The lite people are the members of one append-only collection, whose storage and clock
are the state of the service that the pallet uses (`RingConfig.lite`). `move` runs the
two pallets: the people-lite pallet acts, and others call the members pallet on the
collection; nobody else adds members to it, or removes any. -/
namespace Individuality.PeopleLite
open Support
open Resources (Username)

/-- The pallets' configuration, and the collection of the lite people. -/
structure RingConfig where
  pallet : Members.Config
  contextDecEq : DecidableEq pallet.crypto.Context
  aliasDecEq : DecidableEq pallet.crypto.Alias
  collectionOwner : pallet.Location
  liteOnboardingSize : Nat
  liteRingExponent : Members.RingExponent
  AccountId : Type
  accountDecEq : DecidableEq AccountId
  Signature : Type
  AttestationSignature : Type
  Registrar : Type
  verifySignature : Signature → pallet.crypto.Message → pallet.Member → Bool
  verifyAttestation : AttestationSignature → pallet.crypto.Message → AccountId → Bool
  registerConsumer : Registrar → AccountId → Vector UInt8 65 → Username → Option Username → Option Registrar
  litePeopleAuthContext : pallet.crypto.Context
  attestMessage : AccountId → pallet.Member → pallet.crypto.Message
  signingPayload : AccountId → AccountId → Vector UInt8 65 → List UInt8 → Option Username → pallet.crypto.Message
  reviseMessage : pallet.crypto.Message → AccountId → Nat → pallet.crypto.Message

attribute [instance] RingConfig.contextDecEq RingConfig.aliasDecEq RingConfig.accountDecEq

namespace RingConfig
variable (R : RingConfig)

abbrev memberService : MemberService where
  World := Members.Env R.pallet × Members.Store R.pallet
  Member := R.pallet.Member
  Proof := R.pallet.crypto.Proof
  Message := R.pallet.crypto.Message
  Context := R.pallet.crypto.Context
  Alias := R.pallet.crypto.Alias
  memberDecEq := inferInstance
  contextDecEq := R.contextDecEq
  aliasDecEq := R.aliasDecEq
  createCollection w := (w.2.createCollection R.collectionOwner R.liteOnboardingSize .appendOnly R.liteRingExponent
    none).toOption.map (w.1, ·)
  addMembers w keys := (w.2.addMembers w.1 keys).toOption.map (w.1, ·)
  removeMembers w _ := (w, false)
  ringRevision w r := w.2.ringRevision r
  verifyMembership w proof r context message := (w.2.verifyMembership proof r context message).toOption
  memberStatus w key := (w.2.members.get key).isSome

abbrev lite : Config where
  memberService := R.memberService
  AccountId := R.AccountId
  accountDecEq := R.accountDecEq
  Signature := R.Signature
  AttestationSignature := R.AttestationSignature
  Registrar := R.Registrar
  verifySignature := R.verifySignature
  verifyAttestation := R.verifyAttestation
  registerConsumer := R.registerConsumer
  litePeopleAuthContext := R.litePeopleAuthContext
  attestMessage := R.attestMessage
  signingPayload := R.signingPayload
  reviseMessage := R.reviseMessage

end RingConfig

variable {R : RingConfig}

def Store.rings (s : Store R.lite) : Members.Store R.pallet := s.members.2

/-- The collection is changed by the two pallets only. -/
def Action.isOwn {T : Config} : Action T → Bool
  | .elsewhere _ _ _ => false
  | _ => true

/-- `outside` is what becomes of the registrar, and what the two pallets read of the chain. -/
inductive Move (R : RingConfig)
  | lite (a : Action R.lite)
  | rings (call : Members.Call R.pallet)
  | outside (clock : Members.Env R.pallet) (registrar : R.Registrar) (env : Env R.lite)

def move (c : Chain R.lite) : Move R → Except Refusal (Chain R.lite)
  | .lite a => do
    ensure (a.isOwn = true) (.failed .badOrigin)
    exec c a
  | .rings call => do
    ensure (Members.tends call = true) (.failed .badOrigin)
    let rings ← (c.store.rings.exec c.store.members.1 call).mapError fun _ => .failed .members
    return { c with store := { c.store with members := (c.store.members.1, rings) } }
  | .outside clock registrar env =>
    .ok ⟨{ c.store with members := (clock, c.store.rings), registrar := registrar }, env⟩

def ringGenesis (clock : Members.Env R.pallet) (registrar : R.Registrar) (env : Env R.lite) : Chain R.lite :=
  genesis (T := R.lite) (clock, Members.Store.empty R.pallet) registrar env

end Individuality.PeopleLite
