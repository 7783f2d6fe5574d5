import Individuality.Members.Provers
import Individuality.Support.Totals

/-! The honour pallet: its types and its configuration.

A voter directs each of its points to a subject, in one of two directions. What
the chain sees of the voter is two ring aliases, one for the point and one for the
subject, in contexts derived from either. `Config` has the ring prover and the two
durations, with what the integrity test asserts of them; `OneVoter` says that an
alias tells its voter apart from all others, and the point or the subject from the
voter's others. -/
namespace Individuality.Honour
open Support
open Members (Context ContextualAlias MembershipProver IdealProver)

abbrev SubjectId := Vector UInt8 32
/-- Each voter can direct up to 256 points at once. -/
abbrev PointId := UInt8

inductive Direction
  | honourable
  | dishonourable
  deriving DecidableEq, Repr

namespace Direction

def score : Direction → Int
  | honourable => 1
  | dishonourable => -1

def opposite : Direction → Direction
  | honourable => dishonourable
  | dishonourable => honourable

@[simp] theorem score_opposite (d : Direction) : d.opposite.score = -d.score := by cases d <;> rfl

theorem abs_score (d : Direction) : |d.score| = 1 := by cases d <;> rfl

end Direction

/-- Direct a point to a subject. -/
structure VoteData where
  subject : SubjectId
  point : PointId
  direction : Direction
  deriving DecidableEq, Repr

/-- What the pallet is generic over. `twox256` hashes the bytes of a context. -/
structure Config where
  memberService : MembershipProver
  twox256 : List UInt8 → Context
  pointFreezeDuration : Nat
  callMortality : Nat
  callMortality_le : callMortality ≤ U64.saturatingMul pointFreezeDuration 2

variable (T : Config)

/-- A point that has been used, and what for. -/
structure PointInfo where
  subject : SubjectId
  subjectAlias : T.memberService.Alias
  direction : Direction
  /-- In seconds since the epoch. -/
  lastUsedAt : Nat

structure VoteAliases where
  subjectAlias : T.memberService.Alias
  pointAlias : T.memberService.Alias

/-! ### Contexts -/

namespace context

def pointContextPrefix : List UInt8 := ascii "pop:polkadot.network/honour/point:"
def subjectContextPrefix : List UInt8 := ascii "pop:polkadot.network/honour/subject:"

def point (point : PointId) : Context := T.twox256 (pointContextPrefix ++ [point])

def subject (subject : SubjectId) : Context := T.twox256 (subjectContextPrefix ++ subject.toList)

end context

def VoteData.getContexts (vote : VoteData) : List Context :=
  [context.subject T vote.subject, context.point T vote.point]

/-! ### The ideal ring-VRF -/

variable {T}

/-- The alias of a voter's point. -/
def pointAlias (V : IdealProver T.memberService) (m : V.Member) (point : PointId) : T.memberService.Alias :=
  V.aliasIn m (context.point T point)

/-- The alias of a subject for a voter. -/
def subjectAlias (V : IdealProver T.memberService) (m : V.Member) (subject : SubjectId) :
    T.memberService.Alias :=
  V.aliasIn m (context.subject T subject)

/-- An alias is one voter's, for one point or for one subject. -/
structure OneVoter (V : IdealProver T.memberService) : Prop where
  point : ∀ {m m' p p'}, pointAlias V m p = pointAlias V m' p' → m = m' ∧ p = p'
  subject : ∀ {m m' s s'}, subjectAlias V m s = subjectAlias V m' s' → m = m' ∧ s = s'

end Individuality.Honour
