import Individuality.Members.Types
import Individuality.Support.Encoding

/-! Membership proofs as other pallets use them.

Another pallet asks the members pallet, in the state it is in, whether a proof made
at a revision of a ring holds in a context, and is given the alias of the member in
that context. `IdealProver` is what an ideal ring-VRF promises: a proof speaks for
one member of the collection, and the alias is the member's own in the context. -/
namespace Individuality.Members
open Support

abbrev Context := Vector UInt8 32

def peopleIdentifier : Identifier := padded 32 0 (ascii "pop:polkadot.network/people     ")
def peopleLiteIdentifier : Identifier := padded 32 0 (ascii "pop:polkadot.network/people-lite")

structure ContextualAlias (Alias : Type) where
  context : Context
  ringAlias : Alias
  deriving DecidableEq, Repr

/-- An alias, and the ring and the revision that it was verified against. -/
structure RevisedContextualAlias (Alias : Type) where
  revision : Nat
  ring : Nat
  ca : ContextualAlias Alias
  deriving DecidableEq, Repr

/-- The members pallet as a service. `World` is its state. -/
structure MembershipProver where
  World : Type
  Proof : Type
  Message : Type
  Alias : Type
  aliasDecEq : DecidableEq Alias
  verifyMembership : World → Identifier → Proof → (ringIndex : Nat) → Context → Message →
    Option (RevisedContextualAlias Alias)
  verifyMembershipAtRev : World → Identifier → Proof → (ringIndex revision : Nat) →
    Context → Message → Option (ContextualAlias Alias)
  verifyMembershipMultiContextAtRev : World → Identifier → Proof → (ringIndex revision : Nat) →
    List Context → Message → Option (List (ContextualAlias Alias))

attribute [instance] MembershipProver.aliasDecEq

/-- An ideal ring-VRF behind the service. A member is enrolled in a collection when a root of the
collection has ever included it. -/
structure IdealProver (P : MembershipProver) where
  Member : Type
  prover : P.Proof → Member
  aliasIn : Member → Context → P.Alias
  Enrolled : Identifier → Member → Prop
  sound_current : ∀ {w id proof ring context message found},
    P.verifyMembership w id proof ring context message = some found →
      found.ca = ⟨context, aliasIn (prover proof) context⟩ ∧ Enrolled id (prover proof)
  sound : ∀ {w id proof ring revision context message found},
    P.verifyMembershipAtRev w id proof ring revision context message = some found →
      found = ⟨context, aliasIn (prover proof) context⟩ ∧ Enrolled id (prover proof)
  sound_multi : ∀ {w id proof ring revision contexts message found},
    P.verifyMembershipMultiContextAtRev w id proof ring revision contexts message = some found →
      found = contexts.map (fun c => ⟨c, aliasIn (prover proof) c⟩) ∧ Enrolled id (prover proof)

/-- No two members, and no two contexts, share an alias. -/
def IdealProver.Injective {P : MembershipProver} (V : IdealProver P) : Prop :=
  ∀ m m' c c', V.aliasIn m c = V.aliasIn m' c' → m = m' ∧ c = c'

/-! ### A sample service

A proof names its member and its message; the state lists the members of each collection. -/

def sampleProver : MembershipProver where
  World := Identifier → List Nat
  Proof := Nat × Nat
  Message := Nat
  Alias := Nat × Context
  aliasDecEq := inferInstance
  verifyMembership w id proof ring context message :=
    if proof.1 ∈ w id ∧ proof.2 = message then some ⟨0, ring, context, proof.1, context⟩ else none
  verifyMembershipAtRev w id proof _ _ context message :=
    if proof.1 ∈ w id ∧ proof.2 = message then some ⟨context, proof.1, context⟩ else none
  verifyMembershipMultiContextAtRev w id proof _ _ contexts message :=
    if proof.1 ∈ w id ∧ proof.2 = message then
      some (contexts.map fun c => ⟨c, proof.1, c⟩) else none

def sampleIdeal : IdealProver sampleProver where
  Member := Nat
  prover := Prod.fst
  aliasIn m c := (m, c)
  Enrolled _ _ := True
  sound_current h := by
    obtain ⟨-, heq⟩ := Option.ite_none_right_eq_some.mp h
    cases heq
    exact ⟨rfl, trivial⟩
  sound h := by
    obtain ⟨-, heq⟩ := Option.ite_none_right_eq_some.mp h
    exact ⟨(Option.some.inj heq).symm, trivial⟩
  sound_multi h := by
    obtain ⟨-, heq⟩ := Option.ite_none_right_eq_some.mp h
    exact ⟨(Option.some.inj heq).symm, trivial⟩

instance : DecidableEq sampleIdeal.Member := inferInstanceAs (DecidableEq Nat)

theorem sampleIdeal_injective : sampleIdeal.Injective := fun _ _ _ _ h => Prod.mk.inj h

end Individuality.Members
