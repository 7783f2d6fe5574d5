import Individuality.Airdrop.Types
import Individuality.Support.Outcome
import Individuality.Support.Runs

/-! The airdrop pallet: its storage, its calls, and what it offers to other pallets.

Events are scheduled by the manager or by another pallet, which brings the prizes.
Their lifecycle is moved on by calls that anyone may submit locally and that are
checked ahead of their dispatch. Participation, claims and cancellations come from
other pallets. A function that fails does so ahead of its writes, or in a storage
layer with them. `exec` runs a chain with the pallet: the clock and the randomness
move on, and the members pallet and the ledger change. -/
namespace Individuality.Airdrop
open Support
open Members (MembershipProver peopleIdentifier)

inductive Error
  | prizeBelowMinBalance
  | noWinnersConfigured
  | tooManyWinners
  | invalidEventTimes
  | duplicateEventId
  | noScheduledEvent
  | unknownEvent
  | wrongStatus
  | notAcceptingRegistrations
  | notClaiming
  | claimingWindowClosed
  | entropySlotTaken
  | invalidVrfProof
  | unsupportedAccountKey
  | invalidMembershipProof
  | noSuchWinner
  | participantOverflow
  | prizeAllocationOverflow
  | assetNotEnabled
  | assetAlreadyEnabled
  | fungibles
  | badOrigin
  deriving DecidableEq, Repr

inductive AuthorizeInvalidity
  | transactionNotLocal
  | unknownEvent
  | wrongStatus
  | notYetDue
  deriving DecidableEq, Repr

inductive TransactionSource
  | inBlock
  | local
  | external
  deriving DecidableEq, Repr

variable (T : Config)

/-- The storage of the pallet, and the ledger. -/
structure Store where
  events : StorageMap EventId (ActiveEvent T)
  actionSchedule : StorageMap (Nat × EventId) Unit
  registrations : StorageMap (EventId × Nat) (Entry T)
  winners : StorageMap (EventId × Entry T) Nat
  eventEntropy : StorageMap EventId Nat
  supportedAssets : StorageMap T.fungibles.AssetId Nat
  assets : T.fungibles.Ledger

inductive Origin
  | none
  | manager
  | other
  | authorized

/-- Who a transaction comes from, ahead of the checks. -/
inductive Signer
  | none
  | manager
  | other

inductive Call
  | scheduleEvent (id : EventId) (info : EventInfo T)
  | removeScheduledEvent (id : EventId)
  | enableAsset (assetId : T.fungibles.AssetId) (source : T.fungibles.AccountId)
  | disableAsset (assetId : T.fungibles.AssetId) (beneficiary : T.fungibles.AccountId)
  | startRegistrationAuthorized (id : EventId)
  | closeRegistrationAuthorized (id : EventId)
  | drawWinnersAuthorized (id : EventId)
  | closeDrawingAuthorized (id : EventId)
  | closeClaimingAuthorized (id : EventId)
  | cleanUpRegistrationsAuthorized (id : EventId)
  | cleanUpWinnersAuthorized (id : EventId)
  | finalizeAuthorized (id : EventId)

structure Transaction where
  source : TransactionSource
  signer : Signer
  call : Call T

variable {T}

def maxWinners : Nat := 10000

/-! ### Transitions -/

/-- The event in another status, and the schedule of actions with it. -/
def transition (s : Store T) (id : EventId) (event : ActiveEvent T) (newStatus : Status) : Store T :=
  let oldTimestamp := nextActionScheduledAt event.info event.status
  let newTimestamp := nextActionScheduledAt event.info newStatus
  let schedule :=
    if oldTimestamp ≠ newTimestamp then
      (s.actionSchedule.remove (oldTimestamp, event.id)).insert (newTimestamp, event.id) ()
    else s.actionSchedule
  { s with actionSchedule := schedule, events := s.events.insert id { event with status := newStatus } }

def saturatingMul (T : Config) (amount count : Nat) : Nat := min (amount * count) T.balanceMax

/-- Release what the prizes of some winners hold, as far as it is there. -/
def releaseRemainingPrizes (s : Store T) (prize : AirdropPrize T) (count : Nat) : Store T :=
  if count = 0 then s
  else
    match T.fungibles.release s.assets prize.assetId T.airdropPotId (saturatingMul T prize.assetAmount count)
      .bestEffort with
    | some (_, assets) => { s with assets := assets }
    | none => s

/-- Release all that the event holds, and drop it. -/
def refundAndDropEvent (s : Store T) (event : ActiveEvent T) : Store T :=
  let s := releaseRemainingPrizes s event.info.prize event.info.prize.maxWinners
  { s with
    actionSchedule := s.actionSchedule.remove (nextActionScheduledAt event.info event.status, event.id)
    events := s.events.remove event.id }

/-! ### Scheduling -/

/-- The whole prize of an event, if it fits. -/
def checkedMul (T : Config) (prize : AirdropPrize T) : Except Error Nat := do
  ensure (prize.assetAmount * prize.maxWinners ≤ T.balanceMax) .prizeAllocationOverflow
  return prize.assetAmount * prize.maxWinners

def doSchedule (s : Store T) (id : EventId) (info : EventInfo T) : Except Error (Store T) := do
  ensure (info.prize.maxWinners > 0) .noWinnersConfigured
  ensure (info.prize.maxWinners ≤ maxWinners) .tooManyWinners
  ensure (info.registrationStarts < info.drawTime ∧ info.drawTime < info.endTime) .invalidEventTimes
  ensure (s.supportedAssets.contains info.prize.assetId = true) .assetNotEnabled
  ensure (info.prize.assetAmount ≥ T.fungibles.minimumBalance s.assets info.prize.assetId) .prizeBelowMinBalance
  ensure (s.events.contains id = false) .duplicateEventId
  let toHold ← checkedMul T info.prize
  let assets ← okOr (T.fungibles.hold s.assets info.prize.assetId T.airdropPotId toHold) .fungibles
  return { s with
    assets := assets
    events := s.events.insert id { id := id, info := info, status := .scheduled }
    actionSchedule := s.actionSchedule.insert (info.registrationStarts, id) () }

/-- What another pallet schedules: the prizes are transferred ahead. -/
def schedule (s : Store T) (source : T.fungibles.AccountId) (id : EventId) (info : EventInfo T) :
    Except Error (Store T) := do
  let toTransfer ← checkedMul T info.prize
  let assets ← okOr (T.fungibles.transfer s.assets info.prize.assetId source T.airdropPotId toTransfer)
    .fungibles
  doSchedule { s with assets := assets } id info

def doRemoveScheduled (s : Store T) (id : EventId) : Except Error (Store T) := do
  let event ← okOr (s.events.get id) .noScheduledEvent
  ensure (event.status = .scheduled) .wrongStatus
  return refundAndDropEvent s event

def doCancel (s : Store T) (id : EventId) : Store T :=
  match s.events.get id with
  | none => s
  | some event =>
    match event.status with
    | .scheduled => refundAndDropEvent s event
    | .clearingRegistrations .. | .clearingWinners .. | .finalizing .. => s
    | .registering totalParticipants =>
      transition (releaseRemainingPrizes s event.info.prize event.info.prize.maxWinners) id event
        (.clearingRegistrations totalParticipants 0 0 0)
    | .drawWinners totalParticipants effectiveWinners _ _ =>
      transition s id event (.clearingRegistrations totalParticipants effectiveWinners 0 0)
    | .claiming totalParticipants effectiveWinners claimed =>
      transition s id event (.clearingRegistrations totalParticipants effectiveWinners claimed 0)

def enableAsset (s : Store T) (assetId : T.fungibles.AssetId) (source : T.fungibles.AccountId) :
    Except Error (Store T) := do
  ensure (s.supportedAssets.contains assetId = false) .assetAlreadyEnabled
  let minBalance := T.fungibles.minimumBalance s.assets assetId
  let assets ← okOr (T.fungibles.transfer s.assets assetId source T.airdropPotId minBalance) .fungibles
  return { s with assets := assets, supportedAssets := s.supportedAssets.insert assetId minBalance }

def disableAsset (s : Store T) (assetId : T.fungibles.AssetId) (beneficiary : T.fungibles.AccountId) :
    Except Error (Store T) := do
  let funded ← okOr (s.supportedAssets.get assetId) .assetNotEnabled
  let assets ← okOr (T.fungibles.transfer s.assets assetId T.airdropPotId beneficiary funded) .fungibles
  return { s with assets := assets, supportedAssets := s.supportedAssets.remove assetId }

/-! ### The lifecycle -/

def startRegistrationAuthorized (s : Store T) (id : EventId) : Except Error (Store T) := do
  let event ← okOr (s.events.get id) .unknownEvent
  return transition s id event (.registering 0)

/-- The most winners that there may be. -/
def effectiveWinners (prize : AirdropPrize T) (totalParticipants : Nat) : Nat :=
  max (min prize.maxWinners (prize.winnerCap.mulFloor totalParticipants)) 1

/-- The draw begins where the randomness points; without randomness the event waits. -/
def closeRegistrationAuthorized (randomness : Option Nat) (s : Store T) (id : EventId) :
    Except Error (Store T) := do
  let event ← okOr (s.events.get id) .unknownEvent
  match event.status with
  | .registering totalParticipants =>
    if totalParticipants = 0 then return refundAndDropEvent s event
    else
      match randomness with
      | none => return s
      | some target =>
        let effective := effectiveWinners event.info.prize totalParticipants
        let unusedWinnerSlots := event.info.prize.maxWinners - effective
        let s :=
          if unusedWinnerSlots > 0 then releaseRemainingPrizes s event.info.prize unusedWinnerSlots else s
        let s := { s with eventEntropy := s.eventEntropy.insert id target }
        return transition s id event (.drawWinners totalParticipants effective 0 target)
  | _ => .error .wrongStatus

/-- Where the registrations of an event stand: in the order of their tickets. -/
def ticketKey (k : EventId × Nat) : Nat := k.2

/-- The registrations of an event after a ticket, and then all of them. -/
def drawOrder (s : Store T) (id : EventId) (fromWinnerKey : Nat) : List (EventId × Nat) :=
  ((s.registrations.prefixKeys ticketKey id).filter fun k => fromWinnerKey < k.2) ++
    s.registrations.prefixKeys ticketKey id

/-- Make the registration under a ticket a winner. -/
def addWinner (s : Store T) (id : EventId) (winners : StorageMap (EventId × Entry T) Nat) (k : EventId × Nat) :
    StorageMap (EventId × Entry T) Nat :=
  match s.registrations.get k with
  | some registration => winners.insert (id, registration) k.2
  | none => winners

def drawWinnersAuthorized (s : Store T) (id : EventId) : Except Error (Store T) := do
  let event ← okOr (s.events.get id) .unknownEvent
  match event.status with
  | .drawWinners totalParticipants effective winnersAdded fromWinnerKey =>
    let remaining := effective - winnersAdded
    let drawn := (drawOrder s id fromWinnerKey).take (min remaining T.drawLimit)
    let status := .drawWinners totalParticipants effective (U32.saturatingAdd winnersAdded drawn.length)
      ((drawn.getLast?.map Prod.snd).getD fromWinnerKey)
    return { s with
      winners := drawn.foldl (addWinner s id) s.winners
      events := s.events.insert id { event with status := status } }
  | _ => .error .wrongStatus

def closeDrawingAuthorized (s : Store T) (id : EventId) : Except Error (Store T) := do
  let event ← okOr (s.events.get id) .unknownEvent
  match event.status with
  | .drawWinners totalParticipants effective _ _ =>
    return transition s id event (.claiming totalParticipants effective 0)
  | _ => .error .wrongStatus

def closeClaimingAuthorized (s : Store T) (id : EventId) : Except Error (Store T) := do
  let event ← okOr (s.events.get id) .unknownEvent
  match event.status with
  | .claiming totalParticipants effective claimed =>
    return transition s id event (.clearingRegistrations totalParticipants effective claimed 0)
  | _ => .error .wrongStatus

def cleanUpRegistrationsAuthorized (s : Store T) (id : EventId) : Except Error (Store T) := do
  let event ← okOr (s.events.get id) .unknownEvent
  match event.status with
  | .clearingRegistrations totalParticipants effective claimed cleaned =>
    let res := s.registrations.clearPrefix ticketKey id T.clearLimit
    let s' := { s with registrations := res.1 }
    if (s.registrations.prefixKeys ticketKey id).length ≤ T.clearLimit then
      return transition s' id event (.clearingWinners totalParticipants effective claimed 0)
    else
      return { s' with events := s.events.insert id { event with
        status := .clearingRegistrations totalParticipants effective claimed (U32.saturatingAdd cleaned res.2) } }
  | _ => .error .wrongStatus

/-- Where the winners of an event stand. -/
def winnerRank (k : EventId × Entry T) : Nat := T.winnerKey k.2

def cleanUpWinnersAuthorized (s : Store T) (id : EventId) : Except Error (Store T) := do
  let event ← okOr (s.events.get id) .unknownEvent
  match event.status with
  | .clearingWinners totalParticipants effective claimed cleaned =>
    let res := s.winners.clearPrefix winnerRank id T.clearLimit
    let s' := { s with winners := res.1 }
    if (s.winners.prefixKeys winnerRank id).length ≤ T.clearLimit then
      return transition s' id event (.finalizing effective claimed)
    else
      return { s' with events := s.events.insert id { event with
        status := .clearingWinners totalParticipants effective claimed (U32.saturatingAdd cleaned res.2) } }
  | _ => .error .wrongStatus

def finalizeAuthorized (s : Store T) (id : EventId) : Except Error (Store T) := do
  let event ← okOr (s.events.get id) .unknownEvent
  match event.status with
  | .finalizing effective claimed =>
    let unclaimed := effective - claimed
    let s := if unclaimed > 0 then releaseRemainingPrizes s event.info.prize unclaimed else s
    return { s with
      actionSchedule := s.actionSchedule.remove (nextActionScheduledAt event.info event.status, id)
      eventEntropy := s.eventEntropy.remove id
      events := s.events.remove id }
  | _ => .error .wrongStatus

/-! ### Participants -/

def registerSlot (s : Store T) (id : EventId) (slot : Nat) (entry : Entry T) : Except Error (Store T) := do
  let event ← okOr (s.events.get id) .unknownEvent
  match event.status with
  | .registering totalParticipants =>
    ensure (s.registrations.contains (id, slot) = false) .entropySlotTaken
    ensure (totalParticipants + 1 ≤ U32.max) .participantOverflow
    return { s with
      registrations := s.registrations.insert (id, slot) entry
      events := s.events.insert id { event with status := .registering (totalParticipants + 1) } }
  | _ => .error .notAcceptingRegistrations

def doParticipateWithAlias (w : T.memberService.World) (s : Store T) (id : EventId)
    (participantOrigin : Entry T) (proof : T.memberService.Proof) (ringIndex revision : Nat) :
    Except Error (Store T) := do
  let eventAlias ← okOr (T.memberService.verifyMembershipAtRev w peopleIdentifier proof ringIndex revision
    (T.contextForEvent id) (T.encode participantOrigin)) .invalidMembershipProof
  registerSlot s id (T.slotOf eventAlias.ringAlias) participantOrigin

def doParticipateWithAccount (s : Store T) (accountId : T.fungibles.AccountId) (id : EventId)
    (signature : T.VrfSignature) : Except Error (Store T) := do
  let pub ← okOr (T.accountIdToPublic accountId) .unsupportedAccountKey
  let entropy ← okOr (T.verifyAndExtractEntropy pub id signature) .invalidVrfProof
  registerSlot s id entropy (.account accountId)

/-- The prize is released and transferred in a storage layer of its own. -/
def doClaim (now : Nat) (s : Store T) (id : EventId) (registrant : Entry T)
    (beneficiary : T.fungibles.AccountId) : Except Error (Store T) := do
  let event ← okOr (s.events.get id) .unknownEvent
  match event.status with
  | .claiming totalParticipants effective claimed =>
    ensure (now < event.info.endTime) .claimingWindowClosed
    ensure (s.supportedAssets.contains event.info.prize.assetId = true) .assetNotEnabled
    let _slot ← okOr (s.winners.get (id, registrant)) .noSuchWinner
    let released ← okOr (T.fungibles.release s.assets event.info.prize.assetId T.airdropPotId
      event.info.prize.assetAmount .exact) .fungibles
    let assets ← okOr (T.fungibles.transfer released.2 event.info.prize.assetId T.airdropPotId beneficiary
      event.info.prize.assetAmount) .fungibles
    return { s with
      assets := assets
      winners := s.winners.remove (id, registrant)
      events := s.events.insert id { event with
        status := .claiming totalParticipants effective (U32.saturatingAdd claimed 1) } }
  | _ => .error .notClaiming

/-! ### Calls that anyone may submit -/

def ensureLocal (source : TransactionSource) : Except AuthorizeInvalidity Unit :=
  ensure (source = .inBlock ∨ source = .local) .transactionNotLocal

/-- The next action of an event is due. -/
def ensureDue (now : Nat) (event : ActiveEvent T) : Except AuthorizeInvalidity Unit :=
  ensure (¬now < nextActionScheduledAt event.info event.status) .notYetDue

/-- The status that a call is for, and whether it waits for its time. -/
def authorizeStatus (now : Nat) (event : ActiveEvent T) : Call T → Except AuthorizeInvalidity Unit
  | .startRegistrationAuthorized _ =>
    match event.status with
    | .scheduled => ensureDue now event
    | _ => .error .wrongStatus
  | .closeRegistrationAuthorized _ =>
    match event.status with
    | .registering _ => ensureDue now event
    | _ => .error .wrongStatus
  | .drawWinnersAuthorized _ =>
    match event.status with
    | .drawWinners .. => .ok ()
    | _ => .error .wrongStatus
  | .closeDrawingAuthorized _ =>
    match event.status with
    | .drawWinners _ effective winnersAdded _ => ensure (winnersAdded = effective) .wrongStatus
    | _ => .error .wrongStatus
  | .closeClaimingAuthorized _ =>
    match event.status with
    | .claiming .. => ensureDue now event
    | _ => .error .wrongStatus
  | .cleanUpRegistrationsAuthorized _ =>
    match event.status with
    | .clearingRegistrations .. => .ok ()
    | _ => .error .wrongStatus
  | .cleanUpWinnersAuthorized _ =>
    match event.status with
    | .clearingWinners .. => .ok ()
    | _ => .error .wrongStatus
  | .finalizeAuthorized _ =>
    match event.status with
    | .finalizing .. => .ok ()
    | _ => .error .wrongStatus
  | _ => .ok ()

/-- The event of a call that anyone may submit; other calls have no check. -/
def Call.authorizedEvent? : Call T → Option EventId
  | .startRegistrationAuthorized id | .closeRegistrationAuthorized id | .drawWinnersAuthorized id
  | .closeDrawingAuthorized id | .closeClaimingAuthorized id | .cleanUpRegistrationsAuthorized id
  | .cleanUpWinnersAuthorized id | .finalizeAuthorized id => some id
  | _ => none

def authorize (now : Nat) (s : Store T) (source : TransactionSource) (call : Call T) (id : EventId) :
    Except AuthorizeInvalidity Unit := do
  ensureLocal source
  let event ← okOr (s.events.get id) .unknownEvent
  authorizeStatus now event call

def authorizeCall (now : Nat) (s : Store T) (tx : Transaction T) : Except AuthorizeInvalidity Origin :=
  match tx.signer, tx.call.authorizedEvent? with
  | .none, some id => (authorize now s tx.source tx.call id).map fun _ => .authorized
  | .none, none => .ok .none
  | .manager, _ => .ok .manager
  | .other, _ => .ok .other

/-- A call under its origin. -/
def dispatch (randomness : Option Nat) (s : Store T) (origin : Origin) (call : Call T) : Except Error (Store T) :=
  match origin, call with
  | .manager, .scheduleEvent id info => doSchedule s id info
  | .manager, .removeScheduledEvent id => doRemoveScheduled s id
  | .manager, .enableAsset assetId source => enableAsset s assetId source
  | .manager, .disableAsset assetId beneficiary => disableAsset s assetId beneficiary
  | .authorized, .startRegistrationAuthorized id => startRegistrationAuthorized s id
  | .authorized, .closeRegistrationAuthorized id => closeRegistrationAuthorized randomness s id
  | .authorized, .drawWinnersAuthorized id => drawWinnersAuthorized s id
  | .authorized, .closeDrawingAuthorized id => closeDrawingAuthorized s id
  | .authorized, .closeClaimingAuthorized id => closeClaimingAuthorized s id
  | .authorized, .cleanUpRegistrationsAuthorized id => cleanUpRegistrationsAuthorized s id
  | .authorized, .cleanUpWinnersAuthorized id => cleanUpWinnersAuthorized s id
  | .authorized, .finalizeAuthorized id => finalizeAuthorized s id
  | _, _ => .error .badOrigin

/-! ### A chain with the pallet -/

variable (T)

structure Chain where
  store : Store T
  now : Nat
  randomness : Option Nat
  members : T.memberService.World

inductive Action
  | elapse (now : Nat) (randomness : Option Nat)
  | elsewhere (members : T.memberService.World) (assets : T.fungibles.Ledger)
  | submit (tx : Transaction T)
  | schedule (source : T.fungibles.AccountId) (id : EventId) (info : EventInfo T)
  | removeScheduled (id : EventId)
  | cancel (id : EventId)
  | participateWithAlias (id : EventId) (participantOrigin : Entry T) (proof : T.memberService.Proof)
      (ringIndex revision : Nat)
  | participateWithAccount (accountId : T.fungibles.AccountId) (id : EventId) (signature : T.VrfSignature)
  | claim (id : EventId) (registrant : Entry T) (beneficiary : T.fungibles.AccountId)

inductive Refusal
  | clock
  | invalid (e : AuthorizeInvalidity)
  | failed (e : Error)
  deriving DecidableEq

variable {T}

def submit (c : Chain T) (tx : Transaction T) : Except Refusal (Store T) := do
  let origin ← (authorizeCall c.now c.store tx).mapError .invalid
  (dispatch c.randomness c.store origin tx.call).mapError .failed

/-- What an action makes of the storage. -/
def apply (c : Chain T) : Action T → Except Refusal (Store T)
  | .elapse now _ => do
    ensure (c.now ≤ now) .clock
    return c.store
  | .elsewhere _ assets => .ok { c.store with assets := assets }
  | .submit tx => submit c tx
  | .schedule source id info => (schedule c.store source id info).mapError .failed
  | .removeScheduled id => (doRemoveScheduled c.store id).mapError .failed
  | .cancel id => .ok (doCancel c.store id)
  | .participateWithAlias id participantOrigin proof ringIndex revision =>
    (doParticipateWithAlias c.members c.store id participantOrigin proof ringIndex revision).mapError .failed
  | .participateWithAccount accountId id signature =>
    (doParticipateWithAccount c.store accountId id signature).mapError .failed
  | .claim id registrant beneficiary => (doClaim c.now c.store id registrant beneficiary).mapError .failed

def exec (c : Chain T) (a : Action T) : Except Refusal (Chain T) := do
  let s ← apply c a
  match a with
  | .elapse now randomness => return { c with store := s, now := now, randomness := randomness }
  | .elsewhere members _ => return { c with store := s, members := members }
  | _ => return { c with store := s }

/-- The chain before any event. -/
def genesis (now : Nat) (w : T.memberService.World) (assets : T.fungibles.Ledger) : Chain T :=
  ⟨⟨∅, ∅, ∅, ∅, ∅, ∅, assets⟩, now, none, w⟩

end Individuality.Airdrop
