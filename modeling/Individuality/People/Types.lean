import Individuality.Support.Mirrors
import Individuality.Support.Outcome

/-! The people pallet: its types and its configuration.

A person has a key, which is a member of the people collection of the members
pallet, and may have an account. An alias of a key in a context may have an account
too, together with the ring and the revision of the proof that it was shown with.
Personal ids, rings and revisions are plain numbers. The members pallet is a service,
whose state is kept outside. -/
namespace Individuality.People
open Support

/-- The members pallet, as far as the people collection goes. A removal that fails may have suspended
some of the members. An alias is shown in the context that it was asked for. -/
structure MemberService where
  World : Type
  Member : Type
  Proof : Type
  Message : Type
  Context : Type
  Alias : Type
  memberDecEq : DecidableEq Member
  contextDecEq : DecidableEq Context
  aliasDecEq : DecidableEq Alias
  createCollection : World → Option World
  addMembers : World → List Member → Option World
  removeMembers : World → List Member → World × Bool
  ringRevision : World → (ring : Nat) → Option Nat
  /-- The revision of the ring, and the alias of the member. -/
  verifyMembership : World → Proof → (ring : Nat) → Context → Message → Option (Nat × Alias)

attribute [instance] MemberService.memberDecEq MemberService.contextDecEq MemberService.aliasDecEq

@[ext] structure ContextualAlias (Context Alias : Type) where
  context : Context
  ringAlias : Alias
  deriving DecidableEq, Repr

structure RevisedContextualAlias (Context Alias : Type) where
  revision : Nat
  ring : Nat
  ca : ContextualAlias Context Alias
  deriving DecidableEq, Repr

/-- What the pallet is generic over. -/
structure Config where
  memberService : MemberService
  AccountId : Type
  accountDecEq : DecidableEq AccountId
  Signature : Type
  verifySignature : Signature → memberService.Message → memberService.Member → Bool
  /-- What is signed to revise the alias of an account: the implication, the account and its nonce. -/
  reviseMessage : memberService.Message → AccountId → Nat → memberService.Message

attribute [instance] Config.accountDecEq

namespace Config
variable (T : Config)

abbrev Member : Type := T.memberService.Member
abbrev Context : Type := T.memberService.Context
abbrev Alias : Type := T.memberService.Alias
abbrev Message : Type := T.memberService.Message
abbrev Ca : Type := ContextualAlias T.Context T.Alias
abbrev RevCa : Type := RevisedContextualAlias T.Context T.Alias

end Config

structure PersonRecord (T : Config) where
  key : T.Member
  account : Option T.AccountId

def accountSetupTimeTolerance : Nat := 600

/-- At most as many stale aliases are cleaned up in a call. -/
def maxBulkCleanup : Nat := 100

end Individuality.People
