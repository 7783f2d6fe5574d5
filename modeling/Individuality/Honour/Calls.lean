import Individuality.Honour.Types
import Individuality.Support.Layers
import Individuality.Support.Runs

/-! The honour pallet: bestowing a vote.

`doBestow` writes before it can fail, so the call runs it in a storage layer. The
`VoterAuth` extension checks a transaction before the call is dispatched, and is the
only source of the origin that the call accepts. `exec` runs a chain with the pallet:
the clock moves on, the members pallet changes in any way, and transactions are
applied. -/
namespace Individuality.Honour
open Support
open Members (ContextualAlias peopleIdentifier)

inductive Error
  | subjectAlreadyVoted
  | invalidProof
  | badOrigin
  deriving DecidableEq, Repr

inductive InvalidTransaction
  | badSigner
  | call
  | future
  | stale
  | badProof
  deriving DecidableEq, Repr

/-- The score that a subject starts out with; it offsets a vote for oneself. -/
def subjectDefaultScore : Int := -1

/-- Signed numbers of 32 bits. -/
def I32.saturatingAdd (a b : Int) : Int := max (-2147483648) (min (a + b) 2147483647)

variable (T : Config)

structure Store where
  points : StorageMap T.memberService.Alias (PointInfo T)
  votes : StorageMap T.memberService.Alias Unit
  tally : StorageMap SubjectId Int

instance : Inhabited (Store T) := ⟨⟨∅, ∅, ∅⟩⟩

variable {T}

/-! ### Votes -/

/-- Amend the tally of a subject, whether it has one or not. -/
def tally (s : Store T) (subject : SubjectId) (direction : Direction) : Store T :=
  let oldValue := (s.tally.get subject).getD subjectDefaultScore
  let newValue := I32.saturatingAdd oldValue direction.score
  if newValue = subjectDefaultScore then { s with tally := s.tally.remove subject }
  else { s with tally := s.tally.insert subject newValue }

/-- Take a point back from where it was directed. -/
def takePoint (s : Store T) (point : T.memberService.Alias) : Store T :=
  match s.points.get point with
  | some old =>
    tally { s with points := s.points.remove point, votes := s.votes.remove old.subjectAlias }
      old.subject old.direction.opposite
  | none => s

/-- Direct a point that is directed nowhere. -/
def placePoint (s : Store T) (now : Nat) (vote : VoteData) (aliases : VoteAliases T) : Store T :=
  tally { s with
    votes := s.votes.insert aliases.subjectAlias ()
    points := s.points.insert aliases.pointAlias
      { subject := vote.subject, subjectAlias := aliases.subjectAlias, direction := vote.direction,
        lastUsedAt := now } } vote.subject vote.direction

def doBestow (now : Nat) (vote : VoteData) (aliases : VoteAliases T) (s : Store T) :
    Except Error Unit × Store T :=
  let taken := takePoint s aliases.pointAlias
  if taken.votes.contains aliases.subjectAlias = true then (.error .subjectAlreadyVoted, taken)
  else (.ok (), placePoint taken now vote aliases)

def isPointFrozen (s : Store T) (point : T.memberService.Alias) (now : Nat) : Bool :=
  match s.points.get point with
  | some info => now < U64.saturatingAdd info.lastUsedAt T.pointFreezeDuration
  | none => false

/-- The honour score of a subject. -/
def read (s : Store T) (subject : SubjectId) : Int := (s.tally.get subject).getD subjectDefaultScore

/-! ### Transactions -/

variable (T)

/-- Who a call comes from: nobody, an account or another authority, or a voter. -/
inductive Origin
  | none
  | other
  | voter (aliases : VoteAliases T)

structure VoterAuthData where
  proof : T.memberService.Proof
  ringIndex : Nat
  revision : Nat

inductive Call
  | bestow (vote : VoteData) (callValidFrom : Nat)
  | other
  deriving DecidableEq

/-- `authorized` when another extension has provided an origin before; `message` is the hash of
what the proof is to cover. -/
structure Transaction where
  authorized : Bool
  voterAuth : Option (VoterAuthData T)
  call : Call
  message : T.memberService.Message

variable {T}

def bestow (origin : Origin T) (now : Nat) (vote : VoteData) (_callValidFrom : Nat) (s : Store T) :
    Except Error Unit × Store T :=
  match origin with
  | .voter aliases => withStorageLayer (doBestow now vote aliases) s
  | _ => (.error .badOrigin, s)

def validateVoteProof (w : T.memberService.World) (vote : VoteData) (message : T.memberService.Message)
    (auth : VoterAuthData T) : Except Error (VoteAliases T) := do
  let contexts := vote.getContexts T
  let aliases ← okOr (T.memberService.verifyMembershipMultiContextAtRev w peopleIdentifier auth.proof
    auth.ringIndex auth.revision contexts message) .invalidProof
  match aliases with
  | [subject, point] =>
    if [subject.context, point.context] ≠ contexts then .error .invalidProof
    else .ok ⟨subject.ringAlias, point.ringAlias⟩
  | _ => .error .invalidProof

/-- The origin that the call is to be dispatched with. -/
def validate (w : T.memberService.World) (now : Nat) (s : Store T) (tx : Transaction T) :
    Except InvalidTransaction (Origin T) :=
  match tx.voterAuth with
  | none => .ok (if tx.authorized then .other else .none)
  | some auth => do
    ensure (tx.authorized = false) .badSigner
    match tx.call with
    | .other => .error .call
    | .bestow vote callValidFrom =>
      ensure (callValidFrom ≤ now) .future
      ensure (now < U64.saturatingAdd callValidFrom T.callMortality) .stale
      let aliases ← (validateVoteProof w vote tx.message auth).mapError fun _ => .badProof
      ensure (isPointFrozen s aliases.pointAlias now = false) .future
      ensure (s.votes.contains aliases.subjectAlias = false) .stale
      .ok (.voter aliases)

/-! ### A chain with the pallet -/

variable (T)

/-- The pallet's storage, the clock, and the members pallet. -/
structure Chain where
  store : Store T
  now : Nat
  members : T.memberService.World

inductive Action
  | elapse (now : Nat)
  | elsewhere (members : T.memberService.World)
  | submit (tx : Transaction T)

/-- Why an action did not take place. -/
inductive Refusal
  | clock
  | invalid (e : InvalidTransaction)
  | failed (e : Error)
  deriving DecidableEq

variable {T}

/-- Dispatch a call with the origin that was given to it. Other calls do not touch the pallet. -/
def dispatch (origin : Origin T) (now : Nat) (call : Call) (s : Store T) : Except Error Unit × Store T :=
  match call with
  | .bestow vote callValidFrom => bestow origin now vote callValidFrom s
  | .other => (.ok (), s)

def submit (c : Chain T) (tx : Transaction T) : Except Refusal (Store T) := do
  let origin ← (validate c.members c.now c.store tx).mapError .invalid
  match dispatch origin c.now tx.call c.store with
  | (.ok (), s) => .ok s
  | (.error e, _) => .error (.failed e)

/-- The clock counts seconds in 64 bits and does not go back. -/
def exec (c : Chain T) : Action T → Except Refusal (Chain T)
  | .elapse now => do
    ensure (c.now ≤ now ∧ now ≤ U64.max) .clock
    return { c with now := now }
  | .elsewhere members => .ok { c with members := members }
  | .submit tx => do
    let s ← submit c tx
    return { c with store := s }

/-- The chain before any vote. -/
def genesis (now : Nat) (members : T.memberService.World) : Chain T := ⟨default, now, members⟩

end Individuality.Honour
