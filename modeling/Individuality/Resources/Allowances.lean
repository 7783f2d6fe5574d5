import Individuality.Resources.Slots
import Individuality.Support.Totals
import Mathlib.Tactic.Abel

/-! Shares of the statement store.

The pallet grants and takes back shares as amounts. What an account has been granted on
balance is what it is owed (`owed`): for the consumer that it is, for the friend
request that it receives, and for the slots that name it. Each action changes both
sides by as much (`Balanced`). -/
namespace Individuality.Resources
open Support
variable {T : Config}

/-! ### What an account is owed -/

/-- The share of a consumer. -/
def credibilityShare : Credibility T → Int × Int
  | .lite => T.litePersonStatementLimit.net
  | .person _ _ true => T.litePersonStatementLimit.net
  | .person _ _ false => T.personStatementLimit.net

def consumerShare (_ : T.AccountId) (info : ConsumerInfo T) : Int × Int := credibilityShare info.credibility

def requestShare (_ : T.AccountId) (_ : T.memberService.Alias) : Int × Int := T.friendRequestAllowance.net

def names (who : T.AccountId) (_ : Nat × T.memberService.Alias) (entry : StmtStoreAllowanceEntry T) : Bool :=
  who = entry.accountId

def slotShare (who : T.AccountId) (k : Nat × T.memberService.Alias) (entry : StmtStoreAllowanceEntry T) :
    Int × Int := if names who k entry = true then T.accountsApiAllowance.net else 0

/-- What an account is owed by the three maps together. -/
def owed (consumers : StorageMap T.AccountId (ConsumerInfo T))
    (requests : StorageMap T.AccountId T.memberService.Alias)
    (slots : StorageMap (Nat × T.memberService.Alias) (StmtStoreAllowanceEntry T)) (who : T.AccountId) :
    Int × Int :=
  consumers.shareOf consumerShare who + requests.shareOf requestShare who + slots.totalOf (slotShare who)

def Store.owed (s : Store T) (who : T.AccountId) : Int × Int :=
  Resources.owed s.consumers s.friendRequestAliasByAccount s.statementStoreAllowances who

/-- A person's share contains a lite person's. -/
def Nested (T : Config) : Prop :=
  T.litePersonStatementLimit.maxCount ≤ T.personStatementLimit.maxCount ∧
    T.litePersonStatementLimit.maxSize ≤ T.personStatementLimit.maxSize

theorem remainingAllowance_net (h : Nested T) :
    (remainingAllowance T).net = T.personStatementLimit.net - T.litePersonStatementLimit.net :=
  StatementAllowance.net_saturatingSub h.1 h.2

/-! ### The invariant -/

structure Balanced (s : Store T) : Prop where
  granted : ∀ who, s.grantedTo who = s.owed who
  /-- A consumer that is no person yet is a lite person. -/
  lite : ∀ who info, s.consumers.get who = some info → info.fullUsername = none → info.credibility = .lite
  requests : ∀ who x, s.friendRequestAliasByAccount.get who = some x ↔
    ∃ registration, s.friendRequestRegistrationByAlias.get x = some registration ∧ registration.accountId = who
  slots : ∀ who period seq x, s.stmtStoreAllowanceByAccount.get (who, period, seq, x) = some () ↔
    ∃ entry, s.statementStoreAllowances.get (period, x) = some entry ∧ entry.accountId = who ∧ entry.seq = seq

section Steps
variable {s s' : Store T} {account : T.AccountId}

theorem grantedTo_increaseAllowanceBy (s : Store T) (who other : T.AccountId) (share : StatementAllowance) :
    (increaseAllowanceBy s who share).grantedTo other =
      s.grantedTo other + if other = who then share.net else 0 := by
  rw [Store.grantedTo, increaseAllowanceBy, StorageMap.get_insert]
  split
  · rename_i heq
    rw [heq]
    rfl
  · rw [add_zero]
    rfl

theorem grantedTo_decreaseAllowanceBy (s : Store T) (who other : T.AccountId) (share : StatementAllowance) :
    (decreaseAllowanceBy s who share).grantedTo other =
      s.grantedTo other - if other = who then share.net else 0 := by
  rw [Store.grantedTo, decreaseAllowanceBy, StorageMap.get_insert]
  split
  · rename_i heq
    rw [heq]
    rfl
  · rw [sub_zero]
    rfl

section Owed
variable {consumers : StorageMap T.AccountId (ConsumerInfo T)}
  {requests : StorageMap T.AccountId T.memberService.Alias}
  {slots : StorageMap (Nat × T.memberService.Alias) (StmtStoreAllowanceEntry T)} {who : T.AccountId}

theorem owed_insert_consumer (account : T.AccountId) (info : ConsumerInfo T) :
    owed (consumers.insert account info) requests slots who = owed consumers requests slots who +
      if who = account then credibilityShare info.credibility - consumers.shareOf consumerShare account
      else 0 := by
  rw [owed, owed, StorageMap.shareOf_insert]
  split
  · rename_i heq
    rw [heq, consumerShare]
    abel
  · rw [add_zero]

theorem owed_insert_request {account : T.AccountId} (x : T.memberService.Alias)
    (hunused : requests.get account = none) :
    owed consumers (requests.insert account x) slots who = owed consumers requests slots who +
      if who = account then T.friendRequestAllowance.net else 0 := by
  rw [owed, owed, StorageMap.shareOf_insert]
  split
  · rename_i heq
    rw [heq, StorageMap.shareOf_none hunused, requestShare]
    abel
  · rw [add_zero]

theorem owed_remove_request {account : T.AccountId} {x : T.memberService.Alias}
    (hused : requests.get account = some x) :
    owed consumers (requests.remove account) slots who = owed consumers requests slots who -
      if who = account then T.friendRequestAllowance.net else 0 := by
  rw [owed, owed, StorageMap.shareOf_remove]
  split
  · rename_i heq
    rw [heq, StorageMap.shareOf_some hused, requestShare]
    abel
  · rw [sub_zero]

theorem owed_insert_slot {k : Nat × T.memberService.Alias} (entry : StmtStoreAllowanceEntry T)
    (hfree : slots.get k = none) :
    owed consumers requests (slots.insert k entry) who = owed consumers requests slots who +
      if who = entry.accountId then T.accountsApiAllowance.net else 0 := by
  rw [owed, owed, StorageMap.totalOf_insert, StorageMap.shareOf_none hfree, sub_zero, ← add_assoc, slotShare,
    names]
  simp only [decide_eq_true_iff]

theorem owed_remove_slot {k : Nat × T.memberService.Alias} {entry : StmtStoreAllowanceEntry T}
    (hheld : slots.get k = some entry) :
    owed consumers requests (slots.remove k) who = owed consumers requests slots who -
      if who = entry.accountId then T.accountsApiAllowance.net else 0 := by
  rw [owed, owed, StorageMap.totalOf_remove, StorageMap.shareOf_some hheld, ← add_sub_assoc, slotShare, names]
  simp only [decide_eq_true_iff]

end Owed

/-- The consumers are written, and what depends on them is granted or taken back. -/
theorem Balanced.consumer (h : Balanced s) {info : ConsumerInfo T}
    (hconsumers : s'.consumers = s.consumers.insert account info)
    (hlite : info.fullUsername = none → info.credibility = .lite)
    (hrequests : s'.friendRequestAliasByAccount = s.friendRequestAliasByAccount)
    (hregistrations : s'.friendRequestRegistrationByAlias = s.friendRequestRegistrationByAlias)
    (hslots : s'.statementStoreAllowances = s.statementStoreAllowances)
    (hreverse : s'.stmtStoreAllowanceByAccount = s.stmtStoreAllowanceByAccount)
    (hgranted : ∀ who, s'.grantedTo who = s.grantedTo who +
      if who = account then credibilityShare info.credibility - s.consumers.shareOf consumerShare account
      else 0) : Balanced s' := by
  refine ⟨fun who => ?_, fun who info' hinfo' => ?_, ?_, ?_⟩
  · rw [Store.owed, hconsumers, hrequests, hslots, owed_insert_consumer, hgranted, h.granted, Store.owed]
  · rw [hconsumers, StorageMap.get_insert] at hinfo'
    split at hinfo'
    · cases hinfo'
      exact hlite
    · exact h.lite who info' hinfo'
  · rw [hrequests, hregistrations]
    exact h.requests
  · rw [hslots, hreverse]
    exact h.slots

/-- What a balance does not depend on is written. -/
theorem Balanced.of_eq (h : Balanced s) (hconsumers : s'.consumers = s.consumers)
    (hrequests : s'.friendRequestAliasByAccount = s.friendRequestAliasByAccount)
    (hregistrations : s'.friendRequestRegistrationByAlias = s.friendRequestRegistrationByAlias)
    (hslots : s'.statementStoreAllowances = s.statementStoreAllowances)
    (hreverse : s'.stmtStoreAllowanceByAccount = s.stmtStoreAllowanceByAccount)
    (hgranted : s'.granted = s.granted) : Balanced s' := by
  refine ⟨fun who => ?_, ?_, ?_, ?_⟩
  · rw [Store.owed, Store.grantedTo, hconsumers, hrequests, hslots, hgranted]
    exact h.granted who
  · rw [hconsumers]
    exact h.lite
  · rw [hrequests, hregistrations]
    exact h.requests
  · rw [hslots, hreverse]
    exact h.slots

theorem Balanced.request (h : Balanced s) {requester : T.memberService.Alias} (reference : FriendRequestReference)
    (hfresh : s.friendRequestRegistrationByAlias.get requester = none)
    (hunused : s.friendRequestAliasByAccount.get account = none) :
    Balanced (s.request requester reference account) := by
  refine ⟨fun who => ?_, h.lite, fun who x => ?_, h.slots⟩
  · show (increaseAllowanceBy s account T.friendRequestAllowance).grantedTo who =
      owed s.consumers (s.friendRequestAliasByAccount.insert account requester) s.statementStoreAllowances who
    rw [grantedTo_increaseAllowanceBy, h.granted, owed_insert_request requester hunused, Store.owed]
  · show (s.friendRequestAliasByAccount.insert account requester).get who = some x ↔
      ∃ registration, (s.friendRequestRegistrationByAlias.insert requester ⟨account, reference⟩).get x =
        some registration ∧ registration.accountId = who
    rw [StorageMap.get_insert, StorageMap.get_insert]
    by_cases hwho : who = account
    · rw [if_pos hwho, hwho]
      constructor
      · intro heq
        cases heq
        exact ⟨_, if_pos rfl, rfl⟩
      · rintro ⟨registration, hregistration, haccount⟩
        split at hregistration
        · rename_i hx
          rw [hx]
        · have hused := (h.requests account x).mpr ⟨registration, hregistration, haccount⟩
          cases hunused.symm.trans hused
    · rw [if_neg hwho, h.requests]
      constructor
      · rintro ⟨registration, hregistration, haccount⟩
        refine ⟨registration, ?_, haccount⟩
        rw [if_neg, hregistration]
        intro hx
        rw [hx, hfresh] at hregistration
        cases hregistration
      · rintro ⟨registration, hregistration, haccount⟩
        split at hregistration
        · cases hregistration
          exact absurd haccount.symm hwho
        · exact ⟨registration, hregistration, haccount⟩

theorem Balanced.clearRequest (h : Balanced s) {requester : T.memberService.Alias}
    (halias : s.friendRequestAliasByAccount.get account = some requester) :
    Balanced (s.clearRequest requester account) := by
  obtain ⟨registration, hregistration, haccount⟩ := (h.requests account requester).mp halias
  refine ⟨fun who => ?_, h.lite, fun who x => ?_, h.slots⟩
  · show (decreaseAllowanceBy s account T.friendRequestAllowance).grantedTo who =
      owed s.consumers (s.friendRequestAliasByAccount.remove account) s.statementStoreAllowances who
    rw [grantedTo_decreaseAllowanceBy, h.granted, owed_remove_request halias, Store.owed]
  · show (s.friendRequestAliasByAccount.remove account).get who = some x ↔
      ∃ registration, (s.friendRequestRegistrationByAlias.remove requester).get x =
        some registration ∧ registration.accountId = who
    rw [StorageMap.get_remove, StorageMap.get_remove]
    by_cases hx : x = requester
    · rw [if_pos hx]
      constructor
      · intro heq
        split at heq
        · cases heq
        · rename_i hwho
          rw [hx] at heq
          obtain ⟨registration', hregistration', haccount'⟩ := (h.requests who requester).mp heq
          cases hregistration.symm.trans hregistration'
          exact absurd (haccount'.symm.trans haccount) hwho
      · rintro ⟨_, hnone, -⟩
        cases hnone
    · rw [if_neg hx, ← h.requests]
      split
      · rename_i hwho
        rw [hwho, halias]
        exact ⟨fun heq => (by cases heq), fun heq => absurd (Option.some.inj heq).symm hx⟩
      · exact Iff.rfl

theorem Balanced.drainEntry (h : Balanced s) (k : Nat × T.memberService.Alias) :
    Balanced (Resources.drainEntry s k) := by
  unfold Resources.drainEntry
  split
  · rename_i entry hentry
    refine ⟨fun who => ?_, h.lite, h.requests, fun who period seq x => ?_⟩
    · show (decreaseAllowanceBy s entry.accountId T.accountsApiAllowance).grantedTo who =
        owed s.consumers s.friendRequestAliasByAccount (s.statementStoreAllowances.remove k) who
      rw [grantedTo_decreaseAllowanceBy, h.granted, owed_remove_slot hentry, Store.owed]
    · show (s.stmtStoreAllowanceByAccount.remove (entry.accountId, k.1, entry.seq, k.2)).get
        (who, period, seq, x) = some () ↔ ∃ e, (s.statementStoreAllowances.remove k).get (period, x) =
          some e ∧ e.accountId = who ∧ e.seq = seq
      rw [StorageMap.get_remove, StorageMap.get_remove]
      by_cases hk : (period, x) = k
      · rw [if_pos hk]
        constructor
        · intro heq
          split at heq
          · cases heq
          · rename_i hne
            obtain ⟨entry', hentry', haccount, hseq⟩ := (h.slots who period seq x).mp heq
            rw [hk] at hentry'
            cases hentry.symm.trans hentry'
            exact absurd (by rw [← hk, haccount, hseq]) hne
        · rintro ⟨_, hnone, -⟩
          cases hnone
      · rw [if_neg hk, if_neg, h.slots]
        intro heq
        cases heq
        exact hk rfl
  · exact h

theorem Balanced.foldl_drainEntry (h : Balanced s) (l : List (Nat × T.memberService.Alias)) :
    Balanced (l.foldl Resources.drainEntry s) := by
  induction l generalizing s with
  | nil => exact h
  | cons k l ih => exact ih (h.drainEntry k)

theorem Balanced.setSlot (h : Balanced s) (now : Nat) {period : Nat} (seq : Nat)
    {claimant : T.memberService.Alias} (target : T.AccountId)
    (hfree : s.statementStoreAllowances.get (period, claimant) = none) :
    Balanced (s.setSlot now period seq claimant target) := by
  refine ⟨fun who => ?_, h.lite, h.requests, fun who period' seq' x => ?_⟩
  · show (increaseAllowanceBy s target T.accountsApiAllowance).grantedTo who =
      owed s.consumers s.friendRequestAliasByAccount
        (s.statementStoreAllowances.insert (period, claimant) ⟨target, seq, now⟩) who
    rw [grantedTo_increaseAllowanceBy, h.granted, owed_insert_slot _ hfree, Store.owed]
  · show (s.stmtStoreAllowanceByAccount.insert (target, period, seq, claimant) ()).get
      (who, period', seq', x) = some () ↔ ∃ e, (s.statementStoreAllowances.insert (period, claimant)
        ⟨target, seq, now⟩).get (period', x) = some e ∧ e.accountId = who ∧ e.seq = seq'
    rw [StorageMap.get_insert, StorageMap.get_insert]
    by_cases hk : (period', x) = (period, claimant)
    · rw [if_pos hk]
      cases hk
      constructor
      · intro heq
        split at heq
        · rename_i hkey
          cases hkey
          exact ⟨_, rfl, rfl, rfl⟩
        · obtain ⟨entry, hentry, -⟩ := (h.slots who period seq' claimant).mp heq
          cases hfree.symm.trans hentry
      · rintro ⟨entry, heq, haccount, hseq⟩
        cases heq
        rw [← haccount, ← hseq]
        exact if_pos rfl
    · rw [if_neg hk, if_neg, h.slots]
      intro heq
      cases heq
      exact hk rfl

/-- A slot whose entry is revoked is set as one whose entry is drained. -/
theorem setSlot_revokeEntry {now period seq : Nat} {claimant : T.memberService.Alias} {target : T.AccountId}
    {entry : StmtStoreAllowanceEntry T}
    (hentry : s.statementStoreAllowances.get (period, claimant) = some entry) :
    (revokeEntry s period claimant entry).setSlot now period seq claimant target =
      (Resources.drainEntry s (period, claimant)).setSlot now period seq claimant target := by
  rw [Resources.drainEntry, hentry]
  simp only [Store.setSlot, revokeEntry, increaseAllowanceBy, decreaseAllowanceBy, StorageMap.insert_remove]
  rfl

theorem Balanced.replaceSlot (h : Balanced s) (now : Nat) {period : Nat} (seq : Nat)
    {claimant : T.memberService.Alias} (target : T.AccountId) {entry : StmtStoreAllowanceEntry T}
    (hentry : s.statementStoreAllowances.get (period, claimant) = some entry) :
    Balanced ((revokeEntry s period claimant entry).setSlot now period seq claimant target) := by
  rw [setSlot_revokeEntry hentry]
  refine (h.drainEntry (period, claimant)).setSlot now seq target ?_
  rw [get_drainEntry, if_pos rfl]

end Steps

/-! ### Runs -/

section Run
variable {c c' : Chain T} {a : Action T} {s' : Store T}

theorem Balanced.effect (hnested : Nested T) (h : Balanced c.store) (heffect : Effect c a s') :
    Balanced s' := by
  have hremaining := remainingAllowance_net hnested
  cases heffect with
  | enrolled hcall hnew howner hvalid hqueued =>
    obtain ⟨queues, reservations, rfl⟩ := hqueued.eq
    refine h.consumer rfl (fun _ => rfl) rfl rfl rfl rfl fun who => ?_
    rw [Store.enrol, grantedTo_increaseAllowanceBy, StorageMap.shareOf_none hnew, sub_zero]
    rfl
  | upgraded hcall halias hinfo hfull hfreed =>
    obtain ⟨queues, reservations, rfl⟩ := hfreed.eq
    refine h.consumer rfl nofun rfl rfl rfl rfl fun who => ?_
    rw [Store.upgrade, grantedTo_increaseAllowanceBy, StorageMap.shareOf_some hinfo, consumerShare,
      h.lite _ _ hinfo hfull, hremaining]
    rfl
  | @touched _ _ _ _ _ _ demoted hcall haccount hinfo hcredibility =>
    cases demoted with
    | false =>
      refine h.consumer rfl (fun hnone => ?_) rfl rfl rfl rfl fun who => ?_
      · cases hcredibility.symm.trans (h.lite _ _ hinfo hnone)
      · rw [StorageMap.shareOf_some hinfo, consumerShare, hcredibility, credibilityShare, credibilityShare,
          sub_self, ite_self, add_zero]
        rfl
    | true =>
      refine h.consumer rfl (fun hnone => ?_) rfl rfl rfl rfl fun who => ?_
      · cases hcredibility.symm.trans (h.lite _ _ hinfo hnone)
      · rw [if_pos rfl, grantedTo_increaseAllowanceBy, StorageMap.shareOf_some hinfo, consumerShare,
          hcredibility, hremaining]
        rfl
  | demoted hcall hinfo hcredibility =>
    refine h.consumer rfl (fun hnone => ?_) rfl rfl rfl rfl fun who => ?_
    · cases hcredibility.symm.trans (h.lite _ _ hinfo hnone)
    · rw [StorageMap.shareOf_some hinfo, consumerShare, hcredibility]
      show (decreaseAllowanceBy c.store _ _).grantedTo who = _
      rw [grantedTo_decreaseAllowanceBy, hremaining, credibilityShare, credibilityShare]
      split
      · abel
      · rw [sub_zero, add_zero]
  | keyed hcall hinfo =>
    have hlite := h.lite _ _ hinfo
    refine h.consumer rfl hlite rfl rfl rfl rfl fun who => ?_
    rw [StorageMap.shareOf_some hinfo, consumerShare, sub_self, ite_self, add_zero]
    rfl
  | requested hcall hinfo hproof hperiod hseq hshown hfresh hunused => exact h.request _ hfresh hunused
  | requestCleared hcall halias hregistration haccount hexpired => exact h.clearRequest halias
  | slotSet hcall hinfo hperiod hseq hshown hrevoked =>
    rcases hrevoked with ⟨hfree, rfl⟩ | ⟨entry, hentry, -, rfl⟩
    · exact h.setSlot _ _ _ hfree
    · exact h.replaceSlot _ _ _ hentry
  | slotsCleared hcall hclearable => exact h.foldl_drainEntry _
  | unreserved | timed | storageClaimed | storageCleared | nothing => exact h.of_eq rfl rfl rfl rfl rfl rfl

theorem Balanced.exec (hnested : Nested T) (h : Balanced c.store) (hexec : Resources.exec c a = .ok c') :
    Balanced c'.store := by
  rcases exec_effect hexec with ⟨hstore, -, -⟩ | ⟨-, heffect⟩
  · rw [hstore]
    exact h
  · exact h.effect hnested heffect

theorem balanced_default : Balanced (default : Store T) := by
  refine ⟨fun _ => ?_, nofun, fun _ _ => ?_, fun _ _ _ _ => ?_⟩
  · rfl
  · exact ⟨nofun, fun ⟨_, hnone, _⟩ => by cases hnone⟩
  · exact ⟨nofun, fun ⟨_, hnone, _⟩ => by cases hnone⟩

end Run

/-- In every state reached, the net share that has been granted to an account is a lite person's for
a lite or demoted consumer and a person's for an active person, with a friend request's if it has a
registration and that of one slot for each entry that names it; and the reverse indexes are exact. -/
theorem allowances_balance (hnested : Nested T) {now : Nat} {w : T.memberService.World} {c : Chain T}
    (h : Reaches exec (fun _ _ => True) (genesis now w) c) :
    (∀ who, c.store.grantedTo who =
      ((c.store.consumers.get who).map fun info => credibilityShare info.credibility).getD 0 +
      (if c.store.friendRequestAliasByAccount.contains who = true then T.friendRequestAllowance.net else 0) +
      c.store.statementStoreAllowances.countOf (names who) • T.accountsApiAllowance.net) ∧
    (∀ who period seq x, c.store.stmtStoreAllowanceByAccount.get (who, period, seq, x) = some () ↔
      ∃ entry, c.store.statementStoreAllowances.get (period, x) = some entry ∧ entry.accountId = who ∧
        entry.seq = seq) ∧
    ∀ who x, c.store.friendRequestAliasByAccount.get who = some x ↔
      ∃ registration, c.store.friendRequestRegistrationByAlias.get x = some registration ∧
        registration.accountId = who := by
  have hb : Balanced c.store := h.invariant (I := fun c => Balanced c.store) balanced_default
    fun t a t' ht _ hexec => ht.exec hnested hexec
  refine ⟨fun who => ?_, hb.slots, hb.requests⟩
  have hrequest : c.store.friendRequestAliasByAccount.shareOf requestShare who =
      if c.store.friendRequestAliasByAccount.contains who = true then T.friendRequestAllowance.net else 0 := by
    rw [StorageMap.contains]
    cases hget : c.store.friendRequestAliasByAccount.get who with
    | none => exact StorageMap.shareOf_none hget _
    | some x => exact StorageMap.shareOf_some hget _
  rw [hb.granted, Store.owed, owed, hrequest, ← StorageMap.totalOf_ite]
  rfl

/-- A lite person receives a friend request and a slot, becomes a person, is demoted, and touches
its authorization. -/
def sampleShares : List (Action sampleConfig) :=
  [.registrar (7 : Nat) (Vector.replicate 65 0) (sampleUsername "a.12") none,
    sampleRequest 0 (7 : Nat),
    .submit (sampleTransaction (some (.registerStatementStoreAllowance (1, 0) 0 .people))
      (.setStatementStoreAccount 0 0 (7 : Nat))),
    sampleAs (.registerPerson (7 : Nat) (7 : Nat) (.standalone (sampleUsername "a"))), .elapse 2000,
    .submit (sampleTransaction none (.demoteAuthExpired (7 : Nat))), sampleAs .touchPersonAuthorization]
where
  sampleUsername (s : String) : Username := (BoundedVec.tryFrom (ascii s)).getD BoundedVec.nil
  sampleAs (call : Call sampleConfig) : Action sampleConfig :=
    .submit ⟨.external, .person ((1 : Nat), peopleContext), none, call, (0 : Nat)⟩
  peopleContext : Members.Context := Vector.replicate 32 0

theorem allowances_balance_sample : ∃ c, Reaches exec (fun _ _ => True) sampleGenesis c ∧
    c.store.grantedTo (7 : Nat) = (10, 100) ∧ c.store.grantedTo (7 : Nat) =
      ((c.store.consumers.get (7 : Nat)).map fun info => credibilityShare info.credibility).getD 0 +
      (if c.store.friendRequestAliasByAccount.contains (7 : Nat) = true then
        sampleConfig.friendRequestAllowance.net else 0) +
      c.store.statementStoreAllowances.countOf (names (7 : Nat)) • sampleConfig.accountsApiAllowance.net := by
  obtain ⟨c, hreach, hgranted⟩ := exists_reaches exec (fun _ _ => True) sampleGenesis sampleShares
    (fun c => c.store.grantedTo (7 : Nat) = (10, 100)) (by decide +kernel)
  obtain ⟨hbalance, -⟩ := allowances_balance (T := sampleConfig) ⟨by decide, by decide⟩ hreach
  exact ⟨c, hreach, hgranted, hbalance (7 : Nat)⟩

end Individuality.Resources
