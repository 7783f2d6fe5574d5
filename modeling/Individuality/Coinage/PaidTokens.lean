import Individuality.Coinage.Recyclers

/-! The paid unload tokens: `PaidTknManager`.

Whoever pays for a token puts a key into the collection of the current period. Once a period has
expired, the rings of its collection are cleaned one by one, and then the collection is deleted. -/
namespace Individuality.Coinage
open Support

/-- The onboarding size of the paid tokens' collections. -/
def paidUnloadTokenOnboardingSize : Nat := 1

/-- The time from which on the tokens of a period are worth nothing. -/
def periodExpirationTime (T : Config) (period : Period) : Nat :=
  U32.saturatingAdd (U32.saturatingMul (U32.wrappingAdd period 1) T.paidUnloadTokenTimePeriod)
    T.paidUnloadTokenRingExpirationTime

namespace State
variable {T : Config}

/-- The collection of the paid tokens of a period. -/
def paidToken (s : State T) (period : Period) : Members.Store T.members :=
  s.members.store (paidTokenCollectionIdentifier period)

/-- The period of the clock's time; a length of zero makes it the first one. -/
def currentPeriod (s : State T) : Period := s.nowU32 / T.paidUnloadTokenTimePeriod

/-- `PaidTknManager::ensure_collection_exists`, with whether it had to be created. -/
def ensurePaidCollectionExists (s : State T) (period : Period) : Except Error (State T × Bool) :=
  if s.coinage.paidTokenCollectionsCreated.contains period then .ok (s, false)
  else do
    let s ← s.memberCall (paidTokenCollectionIdentifier period) (.createCollection T.collectionOwner
      paidUnloadTokenOnboardingSize .appendOnly T.paidUnloadTokenRingExponent none)
    .ok ({ s with coinage := { s.coinage with
      paidTokenCollectionsCreated := s.coinage.paidTokenCollectionsCreated.insert period () } }, true)

/-- Register a member key for a token of the current period. -/
def addMember (s : State T) (caller : T.AccountId) (member : T.Member) (proofOfOwnership : T.Signature) :
    Except Error (State T) := do
  ensure (T.verifySignature proofOfOwnership caller member = true) .invalidProofOfOwnership
  ensure (s.coinage.paidUnloadTokenMembers.contains member = false) .memberKeyAlreadyUsed
  ensure (T.members.crypto.isMemberValid member = true) .invalidMemberKey
  let period := s.currentPeriod
  let (s, _) ← s.ensurePaidCollectionExists period
  let s ← s.memberCall (paidTokenCollectionIdentifier period) (.addMembers [member])
  .ok { s with coinage := { s.coinage with
    paidUnloadTokenMembers := s.coinage.paidUnloadTokenMembers.insert member () } }

/-- The next ring of a period to be cleaned. -/
def nextPaidRing (s : State T) (period : Period) : Nat :=
  (s.coinage.paidUnloadTokenNextRingToClean.get period).getD 0

/-- Whether the members pallet counts members in a ring of a period. -/
def paidRingPopulated (s : State T) (period : Period) (ringIndex : Nat) : Bool :=
  ((s.paidToken period).ringStatus ringIndex).any fun status => 0 < status.total

def ensureCanCleanRing (s : State T) (period : Period) (ringIndex : Nat) : Except CustomInvalidity Unit := do
  ensure (s.coinage.paidTokenCollectionsCreated.contains period = true) .nothingToBuild
  ensure (periodExpirationTime T period ≤ s.nowU32) .future
  ensure (ringIndex = s.nextPaidRing period) .stale
  ensure (s.paidRingPopulated period ringIndex = true) .stale

/-- Forget the members of a ring; how many they were. -/
def cleanRingUnchecked (s : State T) (period : Period) (ringIndex : Nat) : State T × Nat :=
  let members := (s.paidToken period).ringMembers ringIndex
  ({ s with coinage := { s.coinage with
    paidUnloadTokenMembers := s.coinage.paidUnloadTokenMembers.removeAll members
    paidUnloadTokenNextRingToClean :=
      s.coinage.paidUnloadTokenNextRingToClean.insert period (U32.wrappingAdd ringIndex 1) } }, members.length)

def ensureCanDeleteCollection (s : State T) (period : Period) : Except CustomInvalidity Unit := do
  ensure (s.coinage.paidTokenCollectionsCreated.contains period = true) .nothingToBuild
  ensure (periodExpirationTime T period ≤ s.nowU32) .future
  ensure (s.paidRingPopulated period (s.nextPaidRing period) = false) .stale

/-- Delete the collection of a period, and note the tokens that were consumed. -/
def deleteCollectionUnchecked (s : State T) (period : Period) : Except Error (State T) := do
  let s ← s.memberCall (paidTokenCollectionIdentifier period) (.deleteCollection T.collectionOwner)
  .ok { s with coinage := { s.coinage with
    paidTokenCollectionsCreated := s.coinage.paidTokenCollectionsCreated.remove period
    paidUnloadTokenNextRingToClean := s.coinage.paidUnloadTokenNextRingToClean.remove period
    paidUnloadTokenDusting :=
      if (s.coinage.paidUnloadTokenConsumed.countOf fun k _ => k.1 = period) = 0 then s.coinage.paidUnloadTokenDusting
      else s.coinage.paidUnloadTokenDusting.insert period () } }

def markTokenConsumed (s : State T) (period : Period) (ringIndex : Nat) (token : T.Alias) : State T :=
  { s with coinage := { s.coinage with
    paidUnloadTokenConsumed := s.coinage.paidUnloadTokenConsumed.insert (period, ringIndex, token) () } }

/-- Clean paid unload token dust, of the first period that has any. -/
def cleanPaidTokenDust (s : State T) : State T :=
  match s.coinage.paidUnloadTokenDusting.keys.head? with
  | none => s
  | some period =>
    let consumed := s.coinage.paidUnloadTokenConsumed.clear (fun k => k.1 = period) dustCleanupBatchSize
    { s with coinage := { s.coinage with
      paidUnloadTokenConsumed := consumed
      paidUnloadTokenDusting := if (consumed.countOf fun k _ => k.1 = period) = 0 then
        s.coinage.paidUnloadTokenDusting.remove period else s.coinage.paidUnloadTokenDusting } }

end State
end Individuality.Coinage
