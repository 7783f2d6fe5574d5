import Individuality.Resources.Calls

/-! What an accepted action does.

`Effect` says it once for each kind of action: the checks that passed, what an ideal
proof tells of its member, and the storage that results. The laws of the pallet are
carried over its cases. -/
namespace Individuality.Resources
open Support
open Members (Context IdealProver)
variable {T : Config}

/-! ### Results -/

namespace Store

/-- A place in a queue is given up. -/
def dequeue (s : Store T) (username : Username)
    (queue : BoundedVec (ReservationQueueEntry T) T.maxReservationQueueLength) (pos : Nat)
    (entry : ReservationQueueEntry T) : Store T :=
  { s with
    reservationOf := s.reservationOf.remove entry.account
    usernameReservationQueue :=
      if (queue.remove pos).toList.isEmpty = true then s.usernameReservationQueue.remove username
      else s.usernameReservationQueue.insert username (queue.remove pos) }

/-- A place in a queue is taken. -/
def enqueue (s : Store T) (account : T.AccountId) (username : Username)
    (queue : BoundedVec (ReservationQueueEntry T) T.maxReservationQueueLength) : Store T :=
  { s with
    usernameReservationQueue := s.usernameReservationQueue.insert username queue
    reservationOf := s.reservationOf.insert account username }

/-- A queue is consumed. -/
def consume (s : Store T) (username : Username)
    (queue : BoundedVec (ReservationQueueEntry T) T.maxReservationQueueLength) : Store T :=
  { s with
    reservationOf := s.reservationOf.removeAll (queue.toList.map ReservationQueueEntry.account)
    usernameReservationQueue := s.usernameReservationQueue.remove username }

def enrol (s : Store T) (account : T.AccountId) (key : Vector UInt8 65) (username : Username) : Store T :=
  increaseAllowanceBy { s with
    usernameOwnerOf := s.usernameOwnerOf.insert username account
    consumers := s.consumers.insert account
      { identifierKey := key, fullUsername := none, liteUsername := username, credibility := .lite } }
    account T.litePersonStatementLimit

def upgrade (s : Store T) (now : Nat) (personAlias : T.memberService.Alias) (linked : T.AccountId)
    (username : Username) (info : ConsumerInfo T) : Store T :=
  increaseAllowanceBy { s with
    usernameOwnerOf := s.usernameOwnerOf.insert username linked
    accountOfAlias := s.accountOfAlias.insert personAlias linked
    consumers := s.consumers.insert linked { info with
      fullUsername := some username, credibility := .person personAlias now false } }
    linked (remainingAllowance T)

def setInfo (s : Store T) (account : T.AccountId) (info : ConsumerInfo T) : Store T :=
  { s with consumers := s.consumers.insert account info }

def request (s : Store T) (requester : T.memberService.Alias) (reference : FriendRequestReference)
    (account : T.AccountId) : Store T :=
  { increaseAllowanceBy s account T.friendRequestAllowance with
    friendRequestRegistrationByAlias := s.friendRequestRegistrationByAlias.insert requester
      { accountId := account, reference := reference }
    friendRequestAliasByAccount := s.friendRequestAliasByAccount.insert account requester }

def clearRequest (s : Store T) (requester : T.memberService.Alias) (account : T.AccountId) : Store T :=
  decreaseAllowanceBy { s with
    friendRequestRegistrationByAlias := s.friendRequestRegistrationByAlias.remove requester
    friendRequestAliasByAccount := s.friendRequestAliasByAccount.remove account }
    account T.friendRequestAllowance

def setSlot (s : Store T) (now period seq : Nat) (claimant : T.memberService.Alias) (target : T.AccountId) :
    Store T :=
  { increaseAllowanceBy s target T.accountsApiAllowance with
    statementStoreAllowances := s.statementStoreAllowances.insert (period, claimant)
      { accountId := target, seq := seq, since := now }
    stmtStoreAllowanceByAccount := s.stmtStoreAllowanceByAccount.insert (target, period, seq, claimant) () }

end Store

/-- What a registration does with a reservation. -/
inductive Queued (now : Nat) (s : Store T) (account : T.AccountId) (username : Username) :
    Option Username → Store T → Prop
  | unreserved : Queued now s account username none s
  | reserved {reserved : Username}
      {queue : BoundedVec (ReservationQueueEntry T) T.maxReservationQueueLength} (hne : reserved ≠ username)
      (howner : s.usernameOwnerOf.get reserved = none) (hnone : s.reservationOf.get account = none)
      (hvalid : validateUsername T reserved true = true)
      (hqueue : queue.toList =
        ((s.usernameReservationQueue.get reserved).getD BoundedVec.nil).toList ++ [⟨account, now⟩]) :
      Queued now s account username (some reserved) (s.enqueue account reserved queue)

/-- How the username of an upgrade is free for its owner. -/
inductive Freed (s : Store T) (linked : T.AccountId) (username : Username) : Store T → Prop
  | standalone (howner : s.usernameOwnerOf.get username = none)
      (hqueue : s.usernameReservationQueue.get username = none)
      (hvalid : validateUsername T username true = true) (hnone : s.reservationOf.get linked = none) :
      Freed s linked username s
  | leaving {reserved : Username} {pos : Nat} {entry : ReservationQueueEntry T}
      {queue : BoundedVec (ReservationQueueEntry T) T.maxReservationQueueLength}
      (howner : s.usernameOwnerOf.get username = none)
      (hqueue : s.usernameReservationQueue.get username = none)
      (hvalid : validateUsername T username true = true) (hres : s.reservationOf.get linked = some reserved)
      (hleft : s.usernameReservationQueue.get reserved = some queue) (hentry : queue.toList[pos]? = some entry)
      (haccount : entry.account = linked) :
      Freed s linked username (s.dequeue reserved queue pos entry)
  | reservation {queue : BoundedVec (ReservationQueueEntry T) T.maxReservationQueueLength}
      {front : ReservationQueueEntry T} (hqueue : s.usernameReservationQueue.get username = some queue)
      (hfront : queue.toList.head? = some front) (haccount : front.account = linked) :
      Freed s linked username (s.consume username queue)

/-- A registration's reservation touches nothing but reservations. -/
theorem Queued.eq {now : Nat} {s s' : Store T} {account : T.AccountId} {username : Username}
    {reserved : Option Username} (h : Queued now s account username reserved s') :
    ∃ queues reservations,
      s' = { s with usernameReservationQueue := queues, reservationOf := reservations } := by
  cases h with
  | unreserved => exact ⟨_, _, rfl⟩
  | reserved => exact ⟨_, _, rfl⟩

theorem Freed.eq {s s' : Store T} {linked : T.AccountId} {username : Username}
    (h : Freed s linked username s') : ∃ queues reservations,
      s' = { s with usernameReservationQueue := queues, reservationOf := reservations } := by
  cases h with
  | standalone => exact ⟨_, _, rfl⟩
  | leaving => exact ⟨_, _, rfl⟩
  | reservation => exact ⟨_, _, rfl⟩

/-- Draining touches nothing but the slots and what they granted. -/
theorem foldl_drainEntry_eq (l : List (Nat × T.memberService.Alias)) (s : Store T) :
    ∃ entries reverse granted, l.foldl drainEntry s = { s with
      statementStoreAllowances := entries
      stmtStoreAllowanceByAccount := reverse
      granted := granted } := by
  induction l generalizing s with
  | nil => exact ⟨_, _, _, rfl⟩
  | cons k l ih =>
    obtain ⟨entries, reverse, granted, heq⟩ := ih (drainEntry s k)
    rw [List.foldl_cons, heq]
    unfold drainEntry
    split
    · exact ⟨entries, reverse, granted, rfl⟩
    · exact ⟨entries, reverse, granted, rfl⟩

/-- The proof of a friend request, and its collection. -/
def AsResourcesInfo.friendRequest? : AsResourcesInfo T → Option (T.memberService.Proof × MembershipCollection)
  | .registerFriendRequestWithProof proof _ => some (proof, .people)
  | .registerFriendRequestForCollection proof _ collection => some (proof, collection)
  | _ => none

/-- The members pallet shows an alias for a proof in a context. -/
def Shown (w : T.memberService.World) (collection : MembershipCollection) (proof : T.memberService.Proof)
    (context : Context) (x : T.memberService.Alias) : Prop :=
  ∃ ringIndex message found, T.memberService.verifyMembership w collection.identifier proof ringIndex context
    message = some found ∧ found.ca.ringAlias = x

/-- The members pallet shows an alias for a proof made at a revision. -/
def ShownAtRev (w : T.memberService.World) (collection : MembershipCollection) (proof : T.memberService.Proof)
    (context : Context) (x : T.memberService.Alias) : Prop :=
  ∃ ringIndex revision message found, T.memberService.verifyMembershipAtRev w collection.identifier proof
    ringIndex revision context message = some found ∧ found.ringAlias = x

/-- It is the alias of the member who made the proof. -/
theorem Shown.sound {w : T.memberService.World} {collection : MembershipCollection}
    {proof : T.memberService.Proof} {context : Context} {x : T.memberService.Alias}
    (V : IdealProver T.memberService) (h : Shown w collection proof context x) :
    x = V.aliasIn (V.prover proof) context ∧ V.Enrolled collection.identifier (V.prover proof) := by
  obtain ⟨_, _, found, hfound, rfl⟩ := h
  obtain ⟨hca, henrolled⟩ := V.sound_current hfound
  exact ⟨by rw [hca], henrolled⟩

theorem ShownAtRev.sound {w : T.memberService.World} {collection : MembershipCollection}
    {proof : T.memberService.Proof} {context : Context} {x : T.memberService.Alias}
    (V : IdealProver T.memberService) (h : ShownAtRev w collection proof context x) :
    x = V.aliasIn (V.prover proof) context := by
  obtain ⟨_, _, _, found, hfound, rfl⟩ := h
  rw [(V.sound hfound).1]

/-- What an accepted action has passed, and the storage that it leaves. -/
inductive Effect (c : Chain T) : Action T → Store T → Prop
  | enrolled {a : Action T} {account : T.AccountId} {key : Vector UInt8 65} {username : Username}
      {reserved : Option Username} {s : Store T}
      (hcall : a = .registrar account key username reserved ∨
        ∃ tx, a = .submit tx ∧ tx.call = .registerLitePerson key username reserved)
      (hnew : c.store.consumers.get account = none) (howner : c.store.usernameOwnerOf.get username = none)
      (hvalid : validateUsername T username false = true)
      (hqueued : Queued c.now c.store account username reserved s) :
      Effect c a (s.enrol account key username)
  | upgraded {tx : Transaction T} {linked : T.AccountId} {proof : T.Signature} {choice : PersonalUsernameChoice}
      {personAlias : T.memberService.Alias} {username : Username} {info : ConsumerInfo T} {s : Store T}
      (hcall : tx.call = .registerPerson linked proof choice)
      (halias : c.store.accountOfAlias.get personAlias = none)
      (hinfo : c.store.consumers.get linked = some info) (hfull : info.fullUsername = none)
      (hfreed : Freed c.store linked username s) :
      Effect c (.submit tx) (s.upgrade c.now personAlias linked username info)
  | touched {tx : Transaction T} {personAlias old : T.memberService.Alias} {account : T.AccountId}
      {info : ConsumerInfo T} {lastUpdate : Nat} {demoted : Bool} (hcall : tx.call = .touchPersonAuthorization)
      (haccount : c.store.accountOfAlias.get personAlias = some account)
      (hinfo : c.store.consumers.get account = some info)
      (hcredibility : info.credibility = .person old lastUpdate demoted) :
      Effect c (.submit tx)
        (if demoted = true then
          increaseAllowanceBy
            (c.store.setInfo account { info with credibility := .person personAlias c.now false }) account
            (remainingAllowance T)
        else c.store.setInfo account { info with credibility := .person personAlias c.now false })
  | demoted {tx : Transaction T} {account : T.AccountId} {info : ConsumerInfo T}
      {personAlias : T.memberService.Alias} {lastUpdate : Nat} (hcall : tx.call = .demoteAuthExpired account)
      (hinfo : c.store.consumers.get account = some info)
      (hcredibility : info.credibility = .person personAlias lastUpdate false) :
      Effect c (.submit tx)
        ((decreaseAllowanceBy c.store account (remainingAllowance T)).setInfo account
          { info with credibility := .person personAlias lastUpdate true })
  | unreserved {tx : Transaction T} {username : Username} {account : T.AccountId} {pos : Nat}
      {queue : BoundedVec (ReservationQueueEntry T) T.maxReservationQueueLength}
      {entry : ReservationQueueEntry T} (hcall : tx.call = .removeExpiredUsernameReservation username account)
      (hqueue : c.store.usernameReservationQueue.get username = some queue)
      (hentry : queue.toList[pos]? = some entry) :
      Effect c (.submit tx) (c.store.dequeue username queue pos entry)
  | keyed {tx : Transaction T} {key : Vector UInt8 65} {who : T.AccountId} {info : ConsumerInfo T}
      (hcall : tx.call = .updateIdentifierKey key) (hinfo : c.store.consumers.get who = some info) :
      Effect c (.submit tx) (c.store.setInfo who { info with identifierKey := key })
  | timed {tx : Transaction T} {duration : Nat} (hcall : tx.call = .setUsernameReservationDuration duration) :
      Effect c (.submit tx) { c.store with usernameReservationDuration := duration }
  | requested {tx : Transaction T} {info : AsResourcesInfo T} {proof : T.memberService.Proof}
      {collection : MembershipCollection} {reference : FriendRequestReference} {account : T.AccountId}
      (hcall : tx.call = .setFriendRequestStatementAccountForSequence reference account)
      (hinfo : tx.asResources = some info) (hproof : info.friendRequest? = some (proof, collection))
      (hperiod : isAcceptedFriendRequestPeriod T c.now reference.period = true)
      (hseq : reference.seq ≤ friendRequestSlots T collection)
      {x : T.memberService.Alias} (hshown : Shown c.members collection proof (friendRequestContext reference) x)
      (hfresh : c.store.friendRequestRegistrationByAlias.get x = none)
      (hunused : c.store.friendRequestAliasByAccount.get account = none) :
      Effect c (.submit tx) (c.store.request x reference account)
  | requestCleared {tx : Transaction T} {account : T.AccountId} {seq : Nat}
      {requester : T.memberService.Alias} {registration : FriendRequestRegistration T}
      (hcall : tx.call = .clearExpiredFriendRequestSequence account seq)
      (halias : c.store.friendRequestAliasByAccount.get account = some requester)
      (hregistration : c.store.friendRequestRegistrationByAlias.get requester = some registration)
      (haccount : registration.accountId = account)
      (hexpired : friendRequestExpirationTime T registration.reference.period < c.now) :
      Effect c (.submit tx) (c.store.clearRequest requester account)
  | slotSet {tx : Transaction T} {proof : T.memberService.Proof} {ringIndex period seq : Nat}
      {collection : MembershipCollection} {target : T.AccountId} {s : Store T}
      (hcall : tx.call = .setStatementStoreAccount period seq target)
      (hinfo : tx.asResources = some (.registerStatementStoreAllowance proof ringIndex collection))
      (hperiod : period = stmtStorePeriodFromTimestamp c.now) (hseq : seq < stmtStoreSlots T collection)
      {x : T.memberService.Alias} (hshown : Shown c.members collection proof (stmtStoreSlotContext period seq) x)
      (hrevoked : (c.store.statementStoreAllowances.get (period, x) = none ∧ s = c.store) ∨
        ∃ entry, c.store.statementStoreAllowances.get (period, x) = some entry ∧
          U64.saturatingAdd entry.since T.stmtStoreReplacementCooldown < c.now ∧
          s = revokeEntry c.store period x entry) :
      Effect c (.submit tx) (s.setSlot c.now period seq x target)
  | slotsCleared {tx : Transaction T} {period : Nat} {first : T.memberService.Alias}
      (hcall : tx.call = .clearExpiredStmtStoreAllowances period first)
      (hclearable : isStmtStorePeriodClearable T c.now period = true) :
      Effect c (.submit tx)
        (((c.store.statementStoreAllowances.prefixKeys T.periodKey period).take
          T.stmtStoreCleanupLimit).foldl drainEntry c.store)
  | storageClaimed {tx : Transaction T} {proof : T.memberService.Proof}
      {ringIndex revision period counter : Nat} {collection : MembershipCollection} {account : T.AccountId}
      (hcall : tx.call = .claimLongTermStorage period counter account)
      (hinfo : tx.asResources = some (.claimLongTermStorage proof ringIndex revision collection))
      (hperiod : isAcceptedLongTermStoragePeriod T c.now period = true)
      (hcounter : counter < T.longTermStorageClaimsPerPeriod) {x : T.memberService.Alias}
      (hshown : ShownAtRev c.members collection proof (longTermStorageContext period counter) x)
      (hfresh : c.store.spentLongTermStorageAliases.get (period, x) = none) :
      Effect c (.submit tx) { c.store with
        spentLongTermStorageAliases := c.store.spentLongTermStorageAliases.insert (period, x) () }
  | storageCleared {tx : Transaction T} {period limit : Nat}
      (hcall : tx.call = .clearExpiredLongTermStorageAliases period limit)
      (hclearable : isLongTermStoragePeriodClearable T c.now period = true) :
      Effect c (.submit tx) { c.store with
        spentLongTermStorageAliases :=
          (c.store.spentLongTermStorageAliases.clearPrefix T.periodKey period limit).1 }
  | nothing {tx : Transaction T} (hcall : tx.call = .other) : Effect c (.submit tx) c.store

/-! ### Origins -/

/-- What the extension has verified of a call, and the origin that it gives for it. -/
inductive Verified (w : T.memberService.World) (now : Nat) (s : Store T) :
    AsResourcesInfo T → Call T → Origin T → Prop
  | friendRequest {info : AsResourcesInfo T} {proof : T.memberService.Proof}
      {collection : MembershipCollection} {reference : FriendRequestReference} {account : T.AccountId}
      (hproof : info.friendRequest? = some (proof, collection))
      (hseq : reference.seq ≤ friendRequestSlots T collection)
      {x : T.memberService.Alias} (hshown : Shown w collection proof (friendRequestContext reference) x) :
      Verified w now s info (.setFriendRequestStatementAccountForSequence reference account)
        (.friendRequestAlias x)
  | stmtStoreSlot {proof : T.memberService.Proof} {ringIndex period seq : Nat}
      {collection : MembershipCollection} {target : T.AccountId}
      (hperiod : period = stmtStorePeriodFromTimestamp now) (hseq : seq < stmtStoreSlots T collection)
      {x : T.memberService.Alias} (hshown : Shown w collection proof (stmtStoreSlotContext period seq) x) :
      Verified w now s (.registerStatementStoreAllowance proof ringIndex collection)
        (.setStatementStoreAccount period seq target) (.stmtStoreAlias x)
  | longTermStorage {proof : T.memberService.Proof} {ringIndex revision period counter : Nat}
      {collection : MembershipCollection} {account : T.AccountId}
      (hperiod : isAcceptedLongTermStoragePeriod T now period = true)
      (hcounter : counter < T.longTermStorageClaimsPerPeriod) {x : T.memberService.Alias}
      (hshown : ShownAtRev w collection proof (longTermStorageContext period counter) x)
      (hfresh : s.spentLongTermStorageAliases.get (period, x) = none) :
      Verified w now s (.claimLongTermStorage proof ringIndex revision collection)
        (.claimLongTermStorage period counter account) (.longTermStorageClaim x collection)

section Origins
variable {w : T.memberService.World} {now : Nat} {s : Store T}
  {tx : Transaction T} {origin : Origin T}

theorem validateFriendRequest_ok {info : AsResourcesInfo T} {call : Call T} {message : T.memberService.Message}
    {proof : T.memberService.Proof} {ringIndex : Nat} {collection : MembershipCollection} {ahead : Origin T}
    (hproof : info.friendRequest? = some (proof, collection))
    (h : validateFriendRequest w now s ahead call message proof ringIndex collection = .ok origin) :
    Verified w now s info call origin := by
  unfold validateFriendRequest at h
  split at h
  · rename_i reference account
    simp only [bind_eq_ok, ensure_eq_ok, mapError_eq_ok, okOr_eq_ok, pure_eq_ok] at h
    obtain ⟨-, -, _, hseq, found, hfound, -, -, rfl⟩ := h
    refine .friendRequest hproof ?_ ⟨_, _, found, hfound, rfl⟩
    cases collection with
    | people => exact ensure_eq_ok.mp hseq
    | litePeople => exact ensure_eq_ok.mp hseq
  · cases h
  · cases h

theorem validateStmtStoreSlot_ok {call : Call T} {message : T.memberService.Message}
    {proof : T.memberService.Proof} {ringIndex : Nat} {collection : MembershipCollection} {ahead : Origin T}
    (h : validateStmtStoreSlot w now s ahead call message proof ringIndex collection = .ok origin) :
    Verified w now s (.registerStatementStoreAllowance proof ringIndex collection) call origin := by
  unfold validateStmtStoreSlot at h
  split at h
  · rename_i period seq target
    simp only [bind_eq_ok, ensure_eq_ok, okOr_eq_ok] at h
    obtain ⟨-, hperiod, -, hseq, found, hfound, h⟩ := h
    have horigin : origin = .stmtStoreAlias found.ca.ringAlias := by
      split at h
      · simp only [bind_eq_ok, ensure_eq_ok, pure_eq_ok] at h
        obtain ⟨-, -, rfl⟩ := h
        rfl
      · cases h
        rfl
    rw [horigin]
    exact .stmtStoreSlot hperiod hseq ⟨_, _, found, hfound, rfl⟩
  · cases h
  · cases h

theorem validateLongTermStorageClaim_ok {call : Call T} {message : T.memberService.Message}
    {proof : T.memberService.Proof} {ringIndex revision : Nat} {collection : MembershipCollection}
    {ahead : Origin T}
    (h : validateLongTermStorageClaim w now s ahead call message proof ringIndex revision collection =
      .ok origin) :
    Verified w now s (.claimLongTermStorage proof ringIndex revision collection) call origin := by
  unfold validateLongTermStorageClaim at h
  split at h
  · rename_i period counter account
    simp only [bind_eq_ok, ensure_eq_ok, okOr_eq_ok, pure_eq_ok] at h
    obtain ⟨-, hperiod, -, hcounter, found, hfound, -, hfresh, rfl⟩ := h
    exact .longTermStorage hperiod hcounter ⟨_, _, _, found, hfound, rfl⟩
      (StorageMap.contains_eq_false.mp hfresh)
  · cases h
  · cases h

theorem validateInfo_ok {info : AsResourcesInfo T} {call : Call T} {message : T.memberService.Message}
    {ahead : Origin T}
    (h : validateInfo w now s ahead call message info = .ok origin) : Verified w now s info call origin := by
  cases info with
  | registerFriendRequestWithProof proof ringIndex => exact validateFriendRequest_ok rfl h
  | registerFriendRequestForCollection proof ringIndex collection => exact validateFriendRequest_ok rfl h
  | registerStatementStoreAllowance proof ringIndex collection => exact validateStmtStoreSlot_ok h
  | claimLongTermStorage proof ringIndex revision collection => exact validateLongTermStorageClaim_ok h

theorem validate_ok (h : validate w now s tx = .ok origin) :
    authorizeCall now s tx = .ok origin ∨
      ∃ info, tx.asResources = some info ∧ Verified w now s info tx.call origin := by
  simp only [validate, bind_eq_ok] at h
  obtain ⟨ahead, hahead, h⟩ := h
  split at h
  · rename_i info hinfo
    exact .inr ⟨info, hinfo, validateInfo_ok h⟩
  · cases h
    exact .inl hahead

/-- Ahead of the extension the origin is what came with the transaction, or a passed check. -/
theorem authorizeCall_ok (h : authorizeCall now s tx = .ok origin) :
    (origin = .authorized ∧ authorize now s tx.source tx.call = some (.ok ())) ∨
      (origin ≠ .authorized ∧ (∀ x, origin ≠ .friendRequestAlias x) ∧ (∀ x, origin ≠ .stmtStoreAlias x) ∧
        ∀ x y, origin ≠ .longTermStorageClaim x y) := by
  unfold authorizeCall at h
  split at h
  · split at h
    · rename_i check hcheck
      cases check with
      | ok u =>
        cases h
        exact .inl ⟨rfl, hcheck⟩
      | error e => cases h
    · cases h
      exact .inr ⟨nofun, nofun, nofun, nofun⟩
  all_goals
    cases h
    exact .inr ⟨nofun, nofun, nofun, nofun⟩

/-- Only a checked call that anyone may submit is dispatched as authorized. -/
theorem validate_authorized (h : validate w now s tx = .ok .authorized) :
    authorize now s tx.source tx.call = some (.ok ()) := by
  rcases validate_ok h with h | ⟨info, -, h⟩
  · rcases authorizeCall_ok h with ⟨-, hcheck⟩ | ⟨hne, -⟩
    · exact hcheck
    · exact absurd rfl hne
  · exfalso
    generalize tx.call = call at h
    cases h

/-- An anonymous origin is the extension's. -/
theorem validate_verified (h : validate w now s tx = .ok origin)
    (hanonymous : (∃ x, origin = .friendRequestAlias x) ∨ (∃ x, origin = .stmtStoreAlias x) ∨
      ∃ x y, origin = .longTermStorageClaim x y) :
    ∃ info, tx.asResources = some info ∧ Verified w now s info tx.call origin := by
  rcases validate_ok h with h | h
  · rcases authorizeCall_ok h with ⟨rfl, -⟩ | ⟨-, hrequest, hslot, hstorage⟩
    · rcases hanonymous with ⟨x, hx⟩ | ⟨x, hx⟩ | ⟨x, y, hx⟩ <;> cases hx
    · rcases hanonymous with ⟨x, hx⟩ | ⟨x, hx⟩ | ⟨x, y, hx⟩
      · exact absurd hx (hrequest x)
      · exact absurd hx (hslot x)
      · exact absurd hx (hstorage x y)
  · exact h

end Origins

/-! ### Calls -/

section Calls
variable {c c' : Chain T} {tx : Transaction T} {s s' : Store T}
  {origin : Origin T}

theorem removeUsernameReservation_ok {username : Username} {pos : Nat}
    (h : removeUsernameReservation s username pos = .ok s') :
    ∃ queue entry, s.usernameReservationQueue.get username = some queue ∧
      queue.toList[pos]? = some entry ∧ s' = s.dequeue username queue pos entry := by
  simp only [removeUsernameReservation, bind_eq_ok, okOr_eq_ok, pure_eq_ok] at h
  obtain ⟨queue, hqueue, entry, hentry, rfl⟩ := h
  exact ⟨queue, entry, hqueue, hentry, rfl⟩

theorem pushUsernameReservation_ok {now : Nat} {account : T.AccountId} {username : Username}
    (h : pushUsernameReservation now s account username = .ok s') :
    ∃ queue : BoundedVec (ReservationQueueEntry T) T.maxReservationQueueLength, queue.toList =
        ((s.usernameReservationQueue.get username).getD BoundedVec.nil).toList ++ [⟨account, now⟩] ∧
      s' = s.enqueue account username queue := by
  simp only [pushUsernameReservation, bind_eq_ok, okOr_eq_ok, pure_eq_ok, BoundedVec.tryPush_eq_some] at h
  obtain ⟨queue, hqueue, rfl⟩ := h
  exact ⟨queue, hqueue, rfl⟩

theorem registerLiteConsumerInner_ok {account : T.AccountId} {key : Vector UInt8 65} {username : Username}
    {reserved : Option Username}
    (h : registerLiteConsumerInner c.now c.store account key username reserved = .ok s') :
    ∃ s, c.store.consumers.get account = none ∧ c.store.usernameOwnerOf.get username = none ∧
      validateUsername T username false = true ∧ Queued c.now c.store account username reserved s ∧
      s' = s.enrol account key username := by
  unfold registerLiteConsumerInner at h
  cases reserved with
  | none =>
    simp only [bind_eq_ok, ensure_eq_ok, StorageMap.contains_eq_false] at h
    obtain ⟨-, hnew, -, howner, -, hvalid, _, hs, h⟩ := h
    cases hs
    cases h
    exact ⟨c.store, hnew, howner, hvalid, .unreserved, rfl⟩
  | some reservedUsername =>
    simp only [bind_eq_ok, ensure_eq_ok, StorageMap.contains_eq_false] at h
    obtain ⟨-, hnew, -, howner, -, hvalid, -, hne, -, hreserved, -, hnone, -, hperson, s, hpush, h⟩ := h
    cases h
    obtain ⟨queue, hqueue, rfl⟩ := pushUsernameReservation_ok hpush
    exact ⟨_, hnew, howner, hvalid, .reserved hne hreserved hnone hperson hqueue, rfl⟩

theorem registerPersonInner_ok {now : Nat} {personAlias : T.memberService.Alias} {linked : T.AccountId}
    {proof : T.Signature} {username : Username} {u : Unit}
    (h : registerPersonInner now personAlias linked proof username s = (.ok u, s')) :
    ∃ info, s.consumers.get linked = some info ∧ info.fullUsername = none ∧
      s' = s.upgrade now personAlias linked username info := by
  simp only [registerPersonInner, Writing.bind_ok, Writing.lift_ok, Writing.read_ok, Writing.update_ok,
    okOr_eq_ok, ensure_eq_ok] at h
  obtain ⟨-, _, ⟨-, rfl⟩, _, _, ⟨rfl, rfl⟩, info, _, ⟨hinfo, rfl⟩, -, _, ⟨hfull, rfl⟩, rfl⟩ := h
  exact ⟨info, hinfo, hfull, rfl⟩

theorem positionOf_some {queue : BoundedVec (ReservationQueueEntry T) T.maxReservationQueueLength}
    {account : T.AccountId} {pos : Nat} (h : positionOf queue account = some pos) :
    ∃ entry, queue.toList[pos]? = some entry ∧ entry.account = account := by
  obtain ⟨hlt, hentry, -⟩ := List.findIdx?_eq_some_iff_getElem.mp h
  exact ⟨_, List.getElem?_eq_getElem hlt, of_decide_eq_true hentry⟩

theorem leaveQueue_ok {linked : T.AccountId} {u : Unit} (h : leaveQueue linked s = (.ok u, s')) :
    (s.reservationOf.get linked = none ∧ s' = s) ∨
      ∃ reserved queue pos entry, s.reservationOf.get linked = some reserved ∧
        s.usernameReservationQueue.get reserved = some queue ∧ queue.toList[pos]? = some entry ∧
        entry.account = linked ∧ s' = s.dequeue reserved queue pos entry := by
  simp only [leaveQueue, Writing.bind_ok, Writing.read_ok] at h
  obtain ⟨_, _, ⟨rfl, rfl⟩, h⟩ := h
  cases hreserved : s.reservationOf.get linked with
  | some reserved =>
    rw [hreserved] at h
    simp only [Writing.bind_ok, Writing.lift_ok, Writing.update_ok, okOr_eq_ok] at h
    obtain ⟨queue, _, ⟨hqueue, rfl⟩, pos, _, ⟨hpos, rfl⟩, t, _, ⟨hremove, rfl⟩, rfl⟩ := h
    obtain ⟨queue', entry, hqueue', hentry, rfl⟩ := removeUsernameReservation_ok hremove
    cases hqueue.symm.trans hqueue'
    obtain ⟨entry', hentry', haccount⟩ := positionOf_some hpos
    cases hentry.symm.trans hentry'
    exact .inr ⟨reserved, queue, pos, entry, rfl, hqueue, hentry, haccount, rfl⟩
  | none =>
    rw [hreserved] at h
    obtain ⟨-, rfl⟩ := Writing.pure_ok.mp h
    exact .inl ⟨rfl, rfl⟩

theorem registerPerson_ok {linked : T.AccountId} {proof : T.Signature} {choice : PersonalUsernameChoice}
    {u : Unit} (h : registerPerson origin c.now linked proof choice c.store = (.ok u, s')) :
    ∃ personAlias username info s, c.store.accountOfAlias.get personAlias = none ∧
      c.store.consumers.get linked = some info ∧ info.fullUsername = none ∧
      Freed c.store linked username s ∧ s' = s.upgrade c.now personAlias linked username info := by
  cases choice with
  | standalone username =>
    simp only [registerPerson, registerPersonStandalone] at h
    split at h
    · rename_i personAlias
      simp only [Writing.bind_ok, Writing.lift_ok, Writing.read_ok, ensure_eq_ok,
        StorageMap.contains_eq_false] at h
      obtain ⟨_, _, ⟨rfl, rfl⟩, -, _, ⟨halias, rfl⟩, -, _, ⟨howner, rfl⟩, -, _, ⟨hqueue, rfl⟩, _, t, hleft,
        -, _, ⟨hvalid, rfl⟩, hinner⟩ := h
      obtain ⟨info, hinfo, hfull, rfl⟩ := registerPersonInner_ok hinner
      rcases leaveQueue_ok hleft with ⟨hnone, rfl⟩ | ⟨reserved, queue, pos, entry, hres, hget, hentry, haccount, rfl⟩
      · exact ⟨personAlias, username, info, _, halias, hinfo, hfull, .standalone howner hqueue hvalid hnone, rfl⟩
      · exact ⟨personAlias, username, info, _, halias, hinfo, hfull,
          .leaving howner hqueue hvalid hres hget hentry haccount, rfl⟩
    · cases h
  | reservation username =>
    simp only [registerPerson, registerPersonReservation] at h
    split at h
    · rename_i personAlias
      simp only [Writing.bind_ok, Writing.lift_ok, Writing.read_ok, Writing.update_ok, ensure_eq_ok, okOr_eq_ok,
        StorageMap.contains_eq_false] at h
      obtain ⟨_, _, ⟨rfl, rfl⟩, -, _, ⟨halias, rfl⟩, queue, _, ⟨hqueue, rfl⟩, front, _, ⟨hfront, rfl⟩,
        -, _, ⟨haccount, rfl⟩, -, _, rfl, hinner⟩ := h
      obtain ⟨info, hinfo, hfull, rfl⟩ := registerPersonInner_ok hinner
      exact ⟨personAlias, username, info, _, halias, hinfo, hfull, .reservation hqueue hfront haccount, rfl⟩
    · cases h

theorem validateDemotion_ok {now : Nat} {account : T.AccountId} {info : ConsumerInfo T}
    (h : validateDemotion now s account = .ok info) :
    s.consumers.get account = some info ∧
      ∃ personAlias lastUpdate, info.credibility = .person personAlias lastUpdate false := by
  simp only [validateDemotion, bind_eq_ok, okOr_eq_ok] at h
  obtain ⟨info', hinfo, h⟩ := h
  split at h
  · rename_i personAlias lastUpdate demoted hcredibility
    simp only [bind_eq_ok, ensure_eq_ok, pure_eq_ok] at h
    obtain ⟨-, -, -, rfl, rfl⟩ := h
    exact ⟨hinfo, personAlias, lastUpdate, hcredibility⟩
  · cases h

theorem validateClearFriendRequestSequence_ok {now : Nat} {account : T.AccountId} {seq : Nat}
    {requester : T.memberService.Alias}
    (h : validateClearFriendRequestSequence now s account seq = .ok requester) :
    s.friendRequestAliasByAccount.get account = some requester ∧
      ∃ registration, s.friendRequestRegistrationByAlias.get requester = some registration ∧
        registration.accountId = account ∧
        friendRequestExpirationTime T registration.reference.period < now := by
  simp only [validateClearFriendRequestSequence, friendRequestAliasForAccount, bind_eq_ok, okOr_eq_ok,
    ensure_eq_ok, pure_eq_ok] at h
  obtain ⟨requester', halias, registration, hregistration, -, haccount, -, -, -, hexpired, rfl⟩ := h
  exact ⟨halias, registration, hregistration, haccount, hexpired⟩

theorem setStatementStoreAccount_ok {now period seq : Nat} {target : T.AccountId}
    (h : setStatementStoreAccount origin now s period seq target = .ok s') :
    ∃ claimant t, origin = .stmtStoreAlias claimant ∧
      ((s.statementStoreAllowances.get (period, claimant) = none ∧ t = s) ∨
        ∃ entry, s.statementStoreAllowances.get (period, claimant) = some entry ∧
          U64.saturatingAdd entry.since T.stmtStoreReplacementCooldown < now ∧
          t = revokeEntry s period claimant entry) ∧
      s' = t.setSlot now period seq claimant target := by
  unfold setStatementStoreAccount at h
  split at h
  · rename_i claimant
    cases hentry : s.statementStoreAllowances.get (period, claimant) with
    | none =>
      rw [hentry] at h
      cases h
      exact ⟨claimant, s, rfl, .inl ⟨hentry, rfl⟩, rfl⟩
    | some entry =>
      rw [hentry] at h
      simp only [bind_eq_ok, ensure_eq_ok, pure_eq_ok] at h
      obtain ⟨-, hcooldown, -, rfl, rfl⟩ := h
      exact ⟨claimant, _, rfl, .inr ⟨entry, hentry, hcooldown, rfl⟩, rfl⟩
  · cases h

theorem wrap_ok {x : Except Error (Store T)} (h : dispatch.wrap s x = (.ok (), s')) : x = .ok s' := by
  unfold dispatch.wrap at h
  split at h
  · cases h
    rfl
  · cases h

/-- The effect of an accepted transaction. -/
theorem submit_effect (h : submit c tx = .ok s') :
    Effect c (.submit tx) s' := by
  simp only [submit, bind_eq_ok, mapError_eq_ok] at h
  obtain ⟨origin, horigin, h⟩ := h
  have hdispatch : dispatch origin c.now c.store tx.call = (.ok (), s') := by
    split at h
    · rename_i heq
      cases h
      exact heq
    · cases h
  clear h
  cases hcall : tx.call with
  | registerLitePerson key username reserved =>
    rw [hcall] at hdispatch
    have h := wrap_ok hdispatch
    unfold registerLitePerson at h
    split at h
    · obtain ⟨s, hnew, howner, hvalid, hqueued, rfl⟩ := registerLiteConsumerInner_ok h
      exact .enrolled (.inr ⟨tx, rfl, hcall⟩) hnew howner hvalid hqueued
    · cases h
  | registerPerson linked proof choice =>
    rw [hcall] at hdispatch
    obtain ⟨personAlias, username, info, s, halias, hinfo, hfull, hfreed, rfl⟩ :=
      registerPerson_ok (withStorageLayer_ok.mp hdispatch)
    exact .upgraded hcall halias hinfo hfull hfreed
  | touchPersonAuthorization =>
    rw [hcall] at hdispatch
    have h := wrap_ok hdispatch
    unfold touchPersonAuthorization at h
    split at h
    · rename_i personAlias
      simp only [bind_eq_ok, okOr_eq_ok] at h
      obtain ⟨account, haccount, info, hinfo, h⟩ := h
      split at h
      · rename_i old lastUpdate demoted hcredibility
        simp only [bind_eq_ok, ensure_eq_ok, pure_eq_ok] at h
        obtain ⟨-, -, rfl⟩ := h
        exact .touched hcall haccount hinfo hcredibility
      · cases h
    · cases h
  | removeExpiredUsernameReservation username account =>
    rw [hcall] at hdispatch
    have h := wrap_ok hdispatch
    unfold removeExpiredUsernameReservation at h
    split at h
    · simp only [bind_eq_ok, okOr_eq_ok] at h
      obtain ⟨-, -, pos, -, h⟩ := h
      obtain ⟨queue, entry, hqueue, hentry, rfl⟩ := removeUsernameReservation_ok h
      exact .unreserved hcall hqueue hentry
    · cases h
  | updateIdentifierKey key =>
    rw [hcall] at hdispatch
    have h := wrap_ok hdispatch
    unfold updateIdentifierKey at h
    split at h
    · simp only [bind_eq_ok, okOr_eq_ok, pure_eq_ok] at h
      obtain ⟨info, hinfo, rfl⟩ := h
      exact .keyed hcall hinfo
    · cases h
  | setUsernameReservationDuration duration =>
    rw [hcall] at hdispatch
    have h := wrap_ok hdispatch
    unfold setUsernameReservationDuration at h
    split at h
    · cases h
      exact .timed hcall
    · cases h
  | demoteAuthExpired account =>
    rw [hcall] at hdispatch
    have h := wrap_ok hdispatch
    unfold demoteAuthExpired at h
    split at h
    · simp only [bind_eq_ok] at h
      obtain ⟨info, hinfo, h⟩ := h
      obtain ⟨hget, personAlias, lastUpdate, hcredibility⟩ := validateDemotion_ok hinfo
      rw [hcredibility] at h
      cases h
      exact .demoted hcall hget hcredibility
    · cases h
  | setFriendRequestStatementAccountForSequence reference account =>
    rw [hcall] at hdispatch
    have h := wrap_ok hdispatch
    unfold setFriendRequestStatementAccountForSequence at h
    split at h
    · rename_i requester
      simp only [validateFriendRequestRegistration, bind_eq_ok, ensure_eq_ok, pure_eq_ok,
        StorageMap.contains_eq_false] at h
      obtain ⟨-, hperiod, -, -, -, ⟨-, hfresh, hunused⟩, rfl⟩ := h
      obtain ⟨info, hinfo, hverified⟩ := validate_verified horigin (.inl ⟨requester, rfl⟩)
      rw [hcall] at hverified
      cases hverified with
      | friendRequest hproof hseq hshown =>
        exact .requested hcall hinfo hproof hperiod hseq hshown hfresh hunused
    · cases h
  | clearExpiredFriendRequestSequence account seq =>
    rw [hcall] at hdispatch
    have h := wrap_ok hdispatch
    unfold clearExpiredFriendRequestSequence at h
    split at h
    · simp only [friendRequestAliasForAccount, bind_eq_ok, okOr_eq_ok, pure_eq_ok] at h
      obtain ⟨requester, halias, rfl⟩ := h
      have hcheck := validate_authorized horigin
      simp only [authorize, hcall, Option.some.injEq, bind_eq_ok, mapError_eq_ok] at hcheck
      obtain ⟨-, -, requester', hvalid, -⟩ := hcheck
      obtain ⟨halias', registration, hregistration, haccount, hexpired⟩ :=
        validateClearFriendRequestSequence_ok hvalid
      cases halias.symm.trans halias'
      exact .requestCleared hcall halias hregistration haccount hexpired
    · cases h
  | setStatementStoreAccount period seq target =>
    rw [hcall] at hdispatch
    obtain ⟨claimant, t, rfl, hrevoked, rfl⟩ := setStatementStoreAccount_ok (wrap_ok hdispatch)
    obtain ⟨info, hinfo, hverified⟩ := validate_verified horigin (.inr (.inl ⟨claimant, rfl⟩))
    rw [hcall] at hverified
    cases hverified with
    | stmtStoreSlot hperiod hseq hshown => exact .slotSet hcall hinfo hperiod hseq hshown hrevoked
  | clearExpiredStmtStoreAllowances period first =>
    rw [hcall] at hdispatch
    have h := wrap_ok hdispatch
    unfold clearExpiredStmtStoreAllowances at h
    split at h
    · cases h
      have hcheck := validate_authorized horigin
      simp only [authorize, hcall, Option.some.injEq, authorizeClearExpiredStmtStoreAllowances, bind_eq_ok,
        ensure_eq_ok] at hcheck
      obtain ⟨-, -, -, hclearable, -⟩ := hcheck
      exact .slotsCleared hcall hclearable
    · cases h
  | claimLongTermStorage period counter account =>
    rw [hcall] at hdispatch
    have h := wrap_ok hdispatch
    unfold claimLongTermStorage at h
    split at h
    · rename_i claimant collection
      cases h
      obtain ⟨info, hinfo, hverified⟩ := validate_verified horigin (.inr (.inr ⟨claimant, collection, rfl⟩))
      rw [hcall] at hverified
      cases hverified with
      | longTermStorage hperiod hcounter hshown hfresh =>
        exact .storageClaimed hcall hinfo hperiod hcounter hshown hfresh
    · cases h
  | clearExpiredLongTermStorageAliases period limit =>
    rw [hcall] at hdispatch
    have h := wrap_ok hdispatch
    unfold clearExpiredLongTermStorageAliases at h
    split at h
    · simp only [bind_eq_ok, ensure_eq_ok, pure_eq_ok] at h
      obtain ⟨-, -, rfl⟩ := h
      have hcheck := validate_authorized horigin
      simp only [authorize, hcall, Option.some.injEq, authorizeClearLongTermStorageAliases, bind_eq_ok,
        ensure_eq_ok] at hcheck
      obtain ⟨-, hclearable, -⟩ := hcheck
      exact .storageCleared hcall hclearable
    · cases h
  | other =>
    rw [hcall] at hdispatch
    cases hdispatch
    exact .nothing hcall

/-- An action has its effect, or leaves the storage alone. -/
theorem exec_effect {a : Action T} (h : exec c a = .ok c') :
    (c'.store = c.store ∧ c.now ≤ c'.now ∧ (∀ tx, a ≠ .submit tx)) ∨
      (c'.now = c.now ∧ Effect c a c'.store) := by
  cases a with
  | elapse now =>
    simp only [exec, bind_eq_ok, ensure_eq_ok, pure_eq_ok] at h
    obtain ⟨-, ⟨hnow, -⟩, rfl⟩ := h
    exact .inl ⟨rfl, hnow, fun _ heq => by cases heq⟩
  | elsewhere members =>
    cases h
    exact .inl ⟨rfl, le_rfl, fun _ heq => by cases heq⟩
  | registrar account key username reserved =>
    simp only [exec, bind_eq_ok, mapError_eq_ok, pure_eq_ok] at h
    obtain ⟨s', hs, rfl⟩ := h
    obtain ⟨s, hnew, howner, hvalid, hqueued, rfl⟩ := registerLiteConsumerInner_ok hs
    exact .inr ⟨rfl, .enrolled (.inl rfl) hnew howner hvalid hqueued⟩
  | submit tx =>
    simp only [exec, bind_eq_ok, pure_eq_ok] at h
    obtain ⟨s', hs, rfl⟩ := h
    exact .inr ⟨rfl, submit_effect hs⟩

end Calls

end Individuality.Resources
