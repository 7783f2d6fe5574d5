import Individuality.Members.Provers
import Individuality.Support.BoundedVec
import Mathlib.Algebra.Group.Prod
import Mathlib.Algebra.Group.Int.Defs

/-! The resources pallet: its types, its configuration, its periods and contexts.

Consumers have usernames and a share of the statement store; members claim further
slots anonymously, for a period each. When a period is accepted, and when what is left
of it may be cleared, are separate formulas over the clock; a proof's context names
the resource, the period and the slot. `Config` has the constants, with the facts that
the integrity test asserts of them. -/
namespace Individuality.Resources
open Support
open Members (Context Identifier MembershipProver IdealProver peopleIdentifier peopleLiteIdentifier)

abbrev Username := BoundedVec UInt8 32

/-- A share of the statement store. -/
structure StatementAllowance where
  maxCount : Nat
  maxSize : Nat
  deriving DecidableEq, Repr

namespace StatementAllowance

def saturatingSub (a b : StatementAllowance) : StatementAllowance :=
  ⟨a.maxCount - b.maxCount, a.maxSize - b.maxSize⟩

/-- As an amount that can be granted or taken back. -/
def net (a : StatementAllowance) : Int × Int := (a.maxCount, a.maxSize)

/-- Where one share contains the other, nothing is cut off from the difference. -/
theorem net_saturatingSub {a b : StatementAllowance} (hcount : b.maxCount ≤ a.maxCount)
    (hsize : b.maxSize ≤ a.maxSize) : (a.saturatingSub b).net = a.net - b.net :=
  Prod.ext (Int.ofNat_sub hcount) (Int.ofNat_sub hsize)

end StatementAllowance

/-- The collection that a proof is verified against. -/
inductive MembershipCollection
  | people
  | litePeople
  deriving DecidableEq, Repr

def MembershipCollection.identifier : MembershipCollection → Identifier
  | people => peopleIdentifier
  | litePeople => peopleLiteIdentifier

def secondsPerDay : Nat := 86400

/-- What the pallet is generic over. `verify` checks a signature of the bytes of an alias. -/
structure Config where
  memberService : MembershipProver
  AccountId : Type
  Signature : Type
  accountDecEq : DecidableEq AccountId
  verify : Signature → memberService.Alias → AccountId → Bool
  minUsernameLength : Nat
  personAuthDuration : Nat
  minPersonAuthUpdateInterval : Nat
  maxReservationQueueLength : Nat
  accountsApiAllowance : StatementAllowance
  stmtStoreSlotsPerPeriod : Nat
  liteStmtStoreSlotsPerPeriod : Nat
  stmtStoreCleanupLimit : Nat
  stmtStoreReplacementCooldown : Nat
  stmtStoreGraceWindow : Nat
  friendRequestAllowance : StatementAllowance
  friendRequestSlotsPerPeriod : Nat
  liteFriendRequestSlotsPerPeriod : Nat
  friendRequestPeriodDuration : Nat
  friendRequestGraceWindow : Nat
  friendRequestRetentionDuration : Nat
  litePersonStatementLimit : StatementAllowance
  personStatementLimit : StatementAllowance
  longTermStoragePeriodDuration : Nat
  longTermStorageClaimsPerPeriod : Nat
  longTermStorageGraceWindow : Nat
  longTermStorageCleanupLimit : Nat
  /-- Where the entries of the maps under a period and an alias stand in the storage. -/
  periodKey : Nat × memberService.Alias → Nat
  friendRequestSlotsPerPeriod_pos : 0 < friendRequestSlotsPerPeriod
  liteFriendRequestSlotsPerPeriod_pos : 0 < liteFriendRequestSlotsPerPeriod
  liteFriendRequestSlotsPerPeriod_le : liteFriendRequestSlotsPerPeriod ≤ friendRequestSlotsPerPeriod
  friendRequestPeriodDuration_pos : 0 < friendRequestPeriodDuration
  friendRequestGraceWindow_lt : friendRequestGraceWindow < friendRequestPeriodDuration
  stmtStoreSlotsPerPeriod_pos : 0 < stmtStoreSlotsPerPeriod
  stmtStoreSlotsPerPeriod_le : stmtStoreSlotsPerPeriod ≤ U32.max
  liteStmtStoreSlotsPerPeriod_pos : 0 < liteStmtStoreSlotsPerPeriod
  liteStmtStoreSlotsPerPeriod_le : liteStmtStoreSlotsPerPeriod ≤ stmtStoreSlotsPerPeriod
  stmtStoreCleanupLimit_pos : 0 < stmtStoreCleanupLimit
  stmtStoreReplacementCooldown_pos : 0 < stmtStoreReplacementCooldown
  stmtStoreReplacementCooldown_le : stmtStoreReplacementCooldown ≤ secondsPerDay
  stmtStoreGraceWindow_pos : 0 < stmtStoreGraceWindow
  longTermStoragePeriodDuration_pos : 0 < longTermStoragePeriodDuration
  longTermStorageGraceWindow_lt : longTermStorageGraceWindow < longTermStoragePeriodDuration
  longTermStorageClaimsPerPeriod_pos : 0 < longTermStorageClaimsPerPeriod
  longTermStorageCleanupLimit_pos : 0 < longTermStorageCleanupLimit

attribute [instance] Config.accountDecEq

variable (T : Config)

/-! ### Records -/

/-- How far a consumer is trusted. -/
inductive Credibility
  | lite
  | person (personAlias : T.memberService.Alias) (lastUpdate : Nat) (demoted : Bool)

structure ConsumerInfo where
  identifierKey : Vector UInt8 65
  fullUsername : Option Username
  liteUsername : Username
  credibility : Credibility T

structure StmtStoreAllowanceEntry where
  accountId : T.AccountId
  seq : Nat
  /-- When the entry was last set. -/
  since : Nat

structure FriendRequestReference where
  period : Nat
  seq : Nat
  deriving DecidableEq, Repr

structure FriendRequestRegistration where
  accountId : T.AccountId
  reference : FriendRequestReference

structure ReservationQueueEntry where
  account : T.AccountId
  joinedAt : Nat

inductive PersonalUsernameChoice
  | standalone (username : Username)
  | reservation (username : Username)

/-! ### Usernames -/

def isAsciiLowercase (b : UInt8) : Bool := 97 ≤ b && b ≤ 122
def isAsciiDigit (b : UInt8) : Bool := 48 ≤ b && b ≤ 57
def dot : UInt8 := 46
def hyphen : UInt8 := 45
def minLiteUsernameDigits : Nat := 2

/-- Lowercase letters, digits and hyphens, with no hyphen at either end. -/
def isDnsLabelRange (bytes : List UInt8) : Bool :=
  !bytes.isEmpty && bytes.head? != some hyphen && bytes.getLast? != some hyphen &&
    bytes.all fun b => isAsciiLowercase b || isAsciiDigit b || b == hyphen

/-- A label, one dot, and some digits. -/
def isLitePersonLabel (bytes : List UInt8) : Bool :=
  if bytes.length < minLiteUsernameDigits + 2 then false
  else if bytes.countP (· == dot) ≠ 1 then false
  else
    let dotIndex := bytes.findIdx (· == dot)
    if isDnsLabelRange (bytes.take dotIndex) = false then false
    else if (bytes.drop (dotIndex + 1)).length < minLiteUsernameDigits then false
    else (bytes.drop (dotIndex + 1)).all isAsciiDigit

def validateUsername (username : Username) (person : Bool) : Bool :=
  if person = true then
    T.minUsernameLength ≤ username.length && username.toList.all isAsciiLowercase
  else
    let separatorIndex := username.toList.findIdx (· == dot)
    isLitePersonLabel username.toList && T.minUsernameLength ≤ separatorIndex &&
      (username.toList.take separatorIndex).all isAsciiLowercase

/-- A person's username has letters only, and a lite person's has a dot. -/
theorem validateUsername_ne {u v : Username} (hu : validateUsername T u true = true)
    (hv : validateUsername T v false = true) : u ≠ v := by
  rintro rfl
  simp only [validateUsername, if_true, Bool.and_eq_true] at hu
  have hlabel : isLitePersonLabel u.toList = true := by
    simp only [validateUsername, Bool.false_eq_true, if_false, Bool.and_eq_true] at hv
    exact hv.1.1
  have hdots : u.toList.countP (· == dot) = 1 := by
    unfold isLitePersonLabel at hlabel
    split at hlabel
    · cases hlabel
    · split at hlabel
      · cases hlabel
      · rename_i hcount
        exact not_not.mp hcount
  have hpos : 0 < u.toList.countP (· == dot) := by omega
  obtain ⟨b, hb, hdot⟩ := List.countP_pos_iff.mp hpos
  have hletter := List.all_eq_true.mp hu.2 b hb
  rw [beq_iff_eq.mp hdot] at hletter
  exact absurd hletter (by decide)

/-! ### Periods -/

def friendRequestPeriodFromTimestamp (now : Nat) : Nat :=
  U32.saturatedFrom (now / max T.friendRequestPeriodDuration 1)

def friendRequestExpirationTime (period : Nat) : Nat :=
  U64.saturatingAdd
    (U64.saturatingMul (U32.saturatingAdd period 1) (max T.friendRequestPeriodDuration 1))
    T.friendRequestRetentionDuration

/-- The current period, and within the grace window the one before. -/
def isAcceptedFriendRequestPeriod (now period : Nat) : Bool :=
  period = friendRequestPeriodFromTimestamp T now ||
    period = friendRequestPeriodFromTimestamp T (now - T.friendRequestGraceWindow)

def stmtStorePeriodFromTimestamp (now : Nat) : Nat := U32.saturatedFrom (now / secondsPerDay)

def isStmtStorePeriodClearable (now period : Nat) : Bool :=
  U64.saturatingAdd (U64.saturatingMul (U32.saturatingAdd period 1) secondsPerDay) T.stmtStoreGraceWindow < now

/-- Cut to 32 bits. -/
def longTermStoragePeriodFromTimestamp (now : Nat) : Nat :=
  now / T.longTermStoragePeriodDuration % 4294967296

def isAcceptedLongTermStoragePeriod (now period : Nat) : Bool :=
  period = longTermStoragePeriodFromTimestamp T now ||
    period = longTermStoragePeriodFromTimestamp T (now - T.longTermStorageGraceWindow)

def isLongTermStoragePeriodClearable (now period : Nat) : Bool :=
  U64.saturatingAdd (U64.saturatingMul (period + 1) T.longTermStoragePeriodDuration)
    T.longTermStorageGraceWindow < now

/-! ### Contexts -/

def space : UInt8 := 32
def friendRequestContextPrefix : List UInt8 := ascii "FRND_REQ:"
def stmtStoreSlotContextPrefix : List UInt8 := ascii "SSS_SLOT:"
def longTermStorageContextBase : List UInt8 := ascii "pop:polkadot.net/rsc-lts"

def friendRequestContext (reference : FriendRequestReference) : Context :=
  padded 32 space (friendRequestContextPrefix ++ beBytes 4 reference.period ++ beBytes 1 reference.seq)

def stmtStoreSlotContext (period seq : Nat) : Context :=
  padded 32 space (stmtStoreSlotContextPrefix ++ beBytes 4 period ++ beBytes 4 seq)

def longTermStorageContext (period counter : Nat) : Context :=
  padded 32 0 (longTermStorageContextBase ++ beBytes 4 period ++ beBytes 1 counter)

/-! ### Slots -/

def friendRequestSlots : MembershipCollection → Nat
  | .people => T.friendRequestSlotsPerPeriod
  | .litePeople => T.liteFriendRequestSlotsPerPeriod

def stmtStoreSlots : MembershipCollection → Nat
  | .people => T.stmtStoreSlotsPerPeriod
  | .litePeople => T.liteStmtStoreSlotsPerPeriod

end Individuality.Resources
