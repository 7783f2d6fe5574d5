import Individuality.AliasAccounts.Bindings
import Individuality.Members.Merging
import Individuality.Members.Validity

/-! Aliases whose revision is past.

The pallet keeps the ring and the revision that an alias was proven against, and asks the
members pallet at each use whether the revision still stands. `move` runs the two pallets
with one clock. A mapping that has been rejected stays rejected until its account proves
the alias again (`lapsed_stays`), unless a call of the members pallet brings a revision
back that a rejected mapping names (`Regular`); and only rejected mappings are cleaned up. -/
namespace Individuality.AliasAccounts
open Support
open Members (Identifier RingExponent peopleIdentifier peopleLiteIdentifier sampleKeys)

/-- The pallets' configuration. -/
structure RingConfig where
  pallet : Members.Config
  contextDecEq : DecidableEq pallet.crypto.Context
  aliasDecEq : DecidableEq pallet.crypto.Alias
  AccountId : Type
  accountDecEq : DecidableEq AccountId
  proofValidityWindow : Nat
  cleanupGracePeriod : Nat
  peopleLiteRingExponent : RingExponent
  peopleRingExponent : RingExponent
  Ledger : Type
  burnFrom : Ledger → AccountId → Nat → Option Ledger
  proofMessage : AccountId → Nat → pallet.crypto.Message

attribute [instance] RingConfig.contextDecEq RingConfig.aliasDecEq RingConfig.accountDecEq

namespace RingConfig
variable (R : RingConfig)

abbrev memberService : MemberService where
  World := Members.State R.pallet
  Proof := R.pallet.crypto.Proof
  Message := R.pallet.crypto.Message
  Context := R.pallet.crypto.Context
  Alias := R.pallet.crypto.Alias
  contextDecEq := R.contextDecEq
  aliasDecEq := R.aliasDecEq
  verifyMembershipAtRev w id proof ring revision context message :=
    ((w.store id).verifyMembershipAtRev w.env proof ring revision context message).toOption
  isRevisionValid w id ring revision := (w.store id).isRevisionValid w.env ring revision
  ringRevision w id ring := (w.store id).ringRevision ring
  revisionSourceTime w id ring revision := ((w.store id).oldRoots.get (ring, revision)).map Members.OldRoot.archivedAt
  unixTime w := w.env.now

abbrev aliasAccounts : Config where
  memberService := R.memberService
  AccountId := R.AccountId
  accountDecEq := R.accountDecEq
  proofValidityWindow := R.proofValidityWindow
  cleanupGracePeriod := R.cleanupGracePeriod
  peopleLiteRingExponent := R.peopleLiteRingExponent
  peopleRingExponent := R.peopleRingExponent
  Ledger := R.Ledger
  burnFrom := R.burnFrom
  proofMessage := R.proofMessage

end RingConfig

variable {R : RingConfig} {s s' : Store R.aliasAccounts} {c c' : Chain R.aliasAccounts} {account : R.AccountId}

/-! ### The two pallets -/

/-- `own` is an action of the alias-accounts pallet, and `outside` what becomes of the asset ledger and
of the accounts. -/
inductive Move (R : RingConfig)
  | own (a : Action R.aliasAccounts)
  | members (a : Members.Action R.pallet)
  | outside (assets : R.Ledger) (accountExists : R.AccountId → Bool)

/-- The members pallet changes by its own calls only. -/
def Action.isOwn {T : Config} : Action T → Bool
  | .elsewhere .. => false
  | _ => true

def move (c : Chain R.aliasAccounts) : Move R → Except (Refusal ⊕ Members.Error) (Chain R.aliasAccounts)
  | .own a => do
    ensure (a.isOwn = true) (.inl (.failed .inconsistentState))
    (exec c a).mapError .inl
  | .members a => do
    let members ← (c.store.members.exec a).mapError .inr
    return { c with store := { c.store with members := members } }
  | .outside assets accountExists => .ok ⟨{ c.store with assets := assets }, accountExists⟩

def ringGenesis (assets : R.Ledger) (accountExists : R.AccountId → Bool) : Chain R.aliasAccounts :=
  genesis (T := R.aliasAccounts) (Members.State.genesis R.pallet) assets accountExists

def Call.proves {T : Config} : Call T → Bool
  | .setAliasAccount .. => true
  | .reproveAliasAccount .. => true
  | _ => false

/-- The account signs a call that proves its alias. -/
def renews (account : R.AccountId) : Move R → Prop
  | .own (.dispatch who call) => call.proves = true ∧ who = account
  | _ => False

/-- No revision is brought back that the mapping of an account names while it is out of grace. -/
def Regular (c : Chain R.aliasAccounts) : Move R → Prop
  | .members (.call id call) => ∀ account info, c.store.accountToAlias.get account = some info → info.collection = id →
      isRevisionInGrace (T := R.aliasAccounts) c.store.members id info.ring info.revision = false →
      ¬(c.store.members.store id).Revives c.store.members.env R.cleanupGracePeriod call info.ring info.revision
  | _ => True

/-! ### Revisions in grace -/

theorem inGrace_iff_stands {w : Members.State R.pallet} {id : Identifier} {ring revision : Nat} :
    isRevisionInGrace (T := R.aliasAccounts) w id ring revision = true ↔
      (w.store id).Stands w.env R.cleanupGracePeriod ring revision := by
  have hvalid : (w.store id).isRevisionValid w.env ring revision = true ↔ _ := Members.Store.isRevisionValid_iff
  rw [isRevisionInGrace_iff]
  constructor
  · rintro ⟨hrevision, hgrace⟩
    obtain ⟨hcollections, root, hroot, hold⟩ := hvalid.mp hrevision
    refine ⟨hcollections, root, hroot, ?_⟩
    rcases hgrace with hcurrent | ⟨sourceTime, htime, hnow⟩
    · have hsame : some root.revision = some revision := by
        rw [← hcurrent]
        show _ = (w.store id).ringRevision ring
        rw [Members.Store.ringRevision, hroot]
        rfl
      exact .inl (Option.some.inj hsame)
    · refine hold.imp_right ?_
      rintro ⟨oldRoot, hget, hretained⟩
      refine ⟨oldRoot, hget, hretained, ?_⟩
      obtain ⟨oldRoot', hget', hsame⟩ := Option.map_eq_some_iff.mp htime
      cases hget.symm.trans hget'
      rw [hsame]
      exact hnow
  · rintro ⟨hcollections, root, hroot, hstands⟩
    refine ⟨hvalid.mpr ⟨hcollections, root, hroot, hstands.imp_right ?_⟩, ?_⟩
    · rintro ⟨oldRoot, hget, hretained, -⟩
      exact ⟨oldRoot, hget, hretained⟩
    · rcases hstands with hcurrent | ⟨oldRoot, hget, -, hnow⟩
      · refine .inl ?_
        show (w.store id).ringRevision ring = some revision
        rw [Members.Store.ringRevision, hroot, ← hcurrent]
        rfl
      · exact .inr ⟨oldRoot.archivedAt, Option.map_eq_some_iff.mpr ⟨oldRoot, hget, rfl⟩, hnow⟩

theorem notInGrace_iff {w : Members.State R.pallet} {id : Identifier} {ring revision : Nat} :
    isRevisionInGrace (T := R.aliasAccounts) w id ring revision = false ↔
      ¬(w.store id).Stands w.env R.cleanupGracePeriod ring revision := by
  rw [← inGrace_iff_stands, Bool.not_eq_true]

/-! ### Rejected mappings -/

/-- The account has no alias, or the revision of its proof is out of grace. -/
def Lapsed (s : Store R.aliasAccounts) (account : R.AccountId) : Prop :=
  ∀ info, s.accountToAlias.get account = some info →
    isRevisionInGrace (T := R.aliasAccounts) s.members info.collection info.ring info.revision = false

/-- The extension and the lookup accept the account. -/
def Accepted (s : Store R.aliasAccounts) (account : R.AccountId) : Prop :=
  (∃ accountExists nonce found,
    AsRingAlias.validate (T := R.aliasAccounts) s accountExists (some account) nonce = .ok found) ∨
  ∃ context found, personhoodInfo (T := R.aliasAccounts) s account context = some found

/-- The extension or the lookup rejects the mapping of the account for its revision. -/
def Rejected (s : Store R.aliasAccounts) (account : R.AccountId) : Prop :=
  (∃ accountExists nonce,
    AsRingAlias.validate (T := R.aliasAccounts) s accountExists (some account) nonce = .error .staleRevision) ∨
  ∃ info, s.accountToAlias.get account = some info ∧
    personhoodInfo (T := R.aliasAccounts) s account info.ca.context = none

theorem not_accepted (h : Lapsed s account) : ¬Accepted s account := by
  rintro (⟨accountExists, nonce, found, hok⟩ | ⟨context, found, hfound⟩)
  · simp only [AsRingAlias.validate, bind_eq_ok, okOr_eq_ok, ensure_eq_ok] at hok
    obtain ⟨_, heq, info, hinfo, -, hgrace, -⟩ := hok
    cases heq
    rw [h info hinfo] at hgrace
    cases hgrace
  · unfold personhoodInfo at hfound
    split at hfound
    · cases hfound
    · rename_i info hinfo
      rw [if_pos (h info hinfo)] at hfound
      split at hfound <;> cases hfound

/-! ### A step -/

theorem lapsed_of_rejected (h : Rejected s account) : Lapsed s account := by
  rcases h with ⟨accountExists, nonce, herror⟩ | ⟨info, hinfo, hnone⟩
  · intro info hinfo
    by_contra hgrace
    rw [Bool.not_eq_false] at hgrace
    simp only [AsRingAlias.validate, okOr_some, ok_bind, hinfo, hgrace, validateNonceForAccount, ensure, if_true] at herror
    split_ifs at herror <;> cases herror
  · intro info' hinfo'
    cases hinfo.symm.trans hinfo'
    by_contra hgrace
    rw [personhoodInfo, hinfo] at hnone
    simp only [ne_eq, not_true_eq_false, if_false, hgrace] at hnone
    cases hnone

/-- A call that does not prove the alias of an account leaves its mapping, or removes it. -/
theorem dispatch_keeps {T : Config} {s s' : Store T} {who : T.AccountId} {call : Call T}
    (hok : dispatch s who call = .ok s') :
    s'.members = s.members ∧ ∀ account info, ¬(call.proves = true ∧ who = account) →
      s'.accountToAlias.get account = some info → s.accountToAlias.get account = some info := by
  have insert_other {m : StorageMap T.AccountId (AliasAccountInfo T)} {account : T.AccountId}
      {info found : AliasAccountInfo T} (hproves : ¬(true = true ∧ who = account))
      (hget : (m.insert who info).get account = some found) : m.get account = some found := by
    rw [StorageMap.get_insert, if_neg fun heq => hproves ⟨rfl, heq.symm⟩] at hget
    exact hget
  cases call with
  | unsetAliasAccount =>
    simp only [dispatch, unsetAliasAccount, bind_eq_ok, okOr_eq_ok, pure_eq_ok] at hok
    obtain ⟨_, -, rfl⟩ := hok
    exact ⟨rfl, fun _ _ _ hget => StorageMap.get_of_get_remove hget⟩
  | setAliasAccount proof collection ring revision context proofValidAt =>
    cases setAliasAccount_ok hok with
    | set => exact ⟨rfl, fun _ _ hproves hget => insert_other hproves hget⟩
    | takenOver => exact ⟨rfl, fun _ _ hproves hget => StorageMap.get_of_get_remove (insert_other hproves hget)⟩
    | again => exact ⟨rfl, fun _ _ hproves hget => insert_other hproves hget⟩
  | reproveAliasAccount proof ring revision proofValidAt =>
    simp only [dispatch, reproveAliasAccount, bind_eq_ok, ensure_eq_ok, okOr_eq_ok, pure_eq_ok] at hok
    obtain ⟨-, -, _, -, _, -, -, -, -, -, rfl⟩ := hok
    exact ⟨rfl, fun _ _ hproves hget => insert_other hproves hget⟩
  | cleanUpStaleAlias collection ca =>
    simp only [dispatch, cleanUpStaleAlias, bind_eq_ok, okOr_eq_ok, ensure_eq_ok, pure_eq_ok] at hok
    obtain ⟨_, -, _, -, -, -, _, -, rfl⟩ := hok
    exact ⟨rfl, fun _ _ _ hget => StorageMap.get_of_get_remove hget⟩

theorem exec_keeps {a : Action R.aliasAccounts} (hown : a.isOwn = true) (hexec : exec c a = .ok c') :
    c'.store.members = c.store.members ∧ ∀ account info, ¬renews account (.own a) →
      c'.store.accountToAlias.get account = some info → c.store.accountToAlias.get account = some info := by
  cases a with
  | dispatch who call =>
    simp only [exec, bind_eq_ok, mapError_eq_ok, pure_eq_ok] at hexec
    obtain ⟨t, ht, rfl⟩ := hexec
    exact dispatch_keeps ht
  | setAliasFee fee =>
    cases hexec
    exact ⟨rfl, fun _ _ _ hget => hget⟩
  | asRingAlias signer nonce =>
    simp only [exec, prepareNonceForAccount, bind_eq_ok, mapError_eq_ok, ensure_eq_ok, pure_eq_ok] at hexec
    obtain ⟨_, -, _, ⟨-, -, rfl⟩, rfl⟩ := hexec
    exact ⟨rfl, fun _ _ _ hget => hget⟩
  | elsewhere => cases hown

def AllUnborn (w : Members.State R.pallet) : Prop := ∀ id, (w.store id).Unborn

theorem AllUnborn.exec {w w' : Members.State R.pallet} {a : Members.Action R.pallet} (h : AllUnborn w)
    (hexec : w.exec a = .ok w') : AllUnborn w' := by
  cases a with
  | call id call =>
    obtain ⟨hcall, -, hother⟩ := Members.State.exec_call hexec
    intro id'
    by_cases hid : id' = id
    · rw [hid]
      exact (h id).step hcall
    · rw [hother id' hid]
      exact h id'
  | advance n =>
    cases hexec
    exact h
  | provideChunks c =>
    cases hexec
    exact h

/-- Time, and the calls that do not revive them, leave past revisions past. -/
theorem notInGrace_exec {w w' : Members.State R.pallet} {a : Members.Action R.pallet} {id : Identifier}
    {ring revision : Nat} (h : AllUnborn w) (hexec : w.exec a = .ok w')
    (hpast : isRevisionInGrace (T := R.aliasAccounts) w id ring revision = false)
    (hrevives : ∀ call, a = .call id call →
      ¬(w.store id).Revives w.env R.cleanupGracePeriod call ring revision) :
    isRevisionInGrace (T := R.aliasAccounts) w' id ring revision = false := by
  rw [notInGrace_iff] at hpast ⊢
  cases a with
  | call id' call =>
    obtain ⟨hcall, henv, hother⟩ := Members.State.exec_call hexec
    rw [henv]
    by_cases hid : id = id'
    · subst hid
      exact Members.not_stands_step (h id) hcall hpast (hrevives call rfl)
    · rw [hother id hid]
      exact hpast
  | advance n =>
    cases hexec
    exact fun hstands => hpast (hstands.earlier (Nat.le_add_right _ _))
  | provideChunks c =>
    cases hexec
    exact hpast

theorem AllUnborn.move {m : Move R} (h : AllUnborn c.store.members) (hmove : move c m = .ok c') :
    AllUnborn c'.store.members := by
  cases m with
  | own a =>
    simp only [AliasAccounts.move, bind_eq_ok, ensure_eq_ok, mapError_eq_ok] at hmove
    obtain ⟨-, hown, hexec⟩ := hmove
    rw [(exec_keeps hown hexec).1]
    exact h
  | members a =>
    simp only [AliasAccounts.move, bind_eq_ok, mapError_eq_ok, pure_eq_ok] at hmove
    obtain ⟨w, hexec, rfl⟩ := hmove
    exact h.exec hexec
  | outside assets accountExists =>
    cases hmove
    exact h

theorem Lapsed.move {m : Move R} (h : Lapsed c.store account) (hunborn : AllUnborn c.store.members)
    (hregular : Regular c m) (hrenews : ¬renews account m) (hmove : move c m = .ok c') :
    Lapsed c'.store account := by
  cases m with
  | own a =>
    simp only [AliasAccounts.move, bind_eq_ok, ensure_eq_ok, mapError_eq_ok] at hmove
    obtain ⟨-, hown, hexec⟩ := hmove
    obtain ⟨hmembers, hget⟩ := exec_keeps hown hexec
    intro info hinfo
    rw [hmembers]
    exact h info (hget account info hrenews hinfo)
  | members a =>
    simp only [AliasAccounts.move, bind_eq_ok, mapError_eq_ok, pure_eq_ok] at hmove
    obtain ⟨w, hexec, rfl⟩ := hmove
    intro info hinfo
    refine notInGrace_exec hunborn hexec (h info hinfo) fun call ha => ?_
    rw [ha] at hregular
    exact hregular account info hinfo rfl (h info hinfo)
  | outside assets accountExists =>
    cases hmove
    exact h

/-- A clean-up removes no mapping but one that is lapsed. -/
theorem lapsed_of_cleaned {collection : Identifier} {ca : R.aliasAccounts.Ca}
    (hok : cleanUpStaleAlias s collection ca = .ok s')
    (hremoved : s'.accountToAlias.get account ≠ s.accountToAlias.get account ∨
      s.aliasToAccount.get (collection, ca) = some account) : Lapsed s account := by
  simp only [cleanUpStaleAlias, ensureAliasIsStale, bind_eq_ok, okOr_eq_ok, ensure_eq_ok, pure_eq_ok] at hok
  obtain ⟨cleaned, hcleaned, info, hinfo, -, -, -, ⟨-, hgrace, -⟩, rfl⟩ := hok
  have hsame : account = cleaned := by
    rcases hremoved with hne | hget
    · by_contra haccount
      refine hne ?_
      show (s.accountToAlias.remove cleaned).get account = _
      rw [StorageMap.get_remove, if_neg haccount]
    · exact Option.some.inj (hget.symm.trans hcleaned)
  intro info' hinfo'
  rw [hsame, hinfo] at hinfo'
  cases hinfo'
  exact hgrace

/-- While no call of the members pallet revives them, a mapping that was rejected is not accepted again
before its account proves the alias, and a clean-up removes no mapping that is accepted. -/
theorem lapsed_stays {assets : R.Ledger} {accountExists : R.AccountId → Bool}
    (h : Reaches move Regular (ringGenesis assets accountExists) c) :
    (∀ account, Rejected c.store account → ∀ c',
      Reaches move (fun c m => Regular c m ∧ ¬renews account m) c c' → ¬Accepted c'.store account) ∧
    ∀ collection ca s', cleanUpStaleAlias c.store collection ca = .ok s' → ∀ account,
      s'.accountToAlias.get account ≠ c.store.accountToAlias.get account ∨
        c.store.aliasToAccount.get (collection, ca) = some account → ¬Accepted c.store account := by
  refine ⟨fun account hrejected c' hrun => ?_, fun collection ca s' hok account hremoved =>
    not_accepted (lapsed_of_cleaned hok hremoved)⟩
  have hunborn : AllUnborn c.store.members := h.invariant (I := fun c => AllUnborn c.store.members)
    (fun id => Members.Store.Unborn.empty) fun _ _ _ ht _ hmove => ht.move hmove
  refine not_accepted (hrun.invariant (I := fun c => AllUnborn c.store.members ∧ Lapsed c.store account)
    ⟨hunborn, lapsed_of_rejected hrejected⟩ fun t m t' ht hG hmove => ?_).2
  exact ⟨ht.1.move hmove, ht.2.move ht.1 hG.1 hG.2 hmove⟩

/-! ### A sample run, and a revision that comes back -/

/-- A proof is of a key for an account, and the alias names the key. -/
def sampleRings : RingConfig where
  pallet := Members.sampleConfig
  contextDecEq := inferInstanceAs (DecidableEq Nat)
  aliasDecEq := inferInstanceAs (DecidableEq (Nat × Nat))
  AccountId := Bool
  accountDecEq := inferInstance
  proofValidityWindow := 60
  cleanupGracePeriod := 60
  peopleLiteRingExponent := .r2e10
  peopleRingExponent := .r2e9
  Ledger := Unit
  burnFrom ledger _ _ := some ledger
  proofMessage account _ := (account.toNat : Nat)

def sampleRingGenesis : Chain sampleRings.aliasAccounts := ringGenesis () fun _ => true

/-- The alias of the first key. -/
def setSample : Move sampleRings :=
  .own (.dispatch true (.setAliasAccount ((0, 1) : Nat × Nat) peopleLiteIdentifier 0 0 (5 : Nat) 0))

def sampleMembers (c : Members.Call Members.sampleConfig) : Move sampleRings := .members (.call peopleLiteIdentifier c)

/-- The ring is built again, and the first revision passes. -/
def sampleMoves : List (Move sampleRings) :=
  [sampleMembers (.createCollection (0 : Nat) 1 .appendOnly .r2e10 none),
    sampleMembers (.addMembers (sampleKeys 0 3)), sampleMembers (.onboardMembers false),
    sampleMembers (.buildRing 0 1), .own (.setAliasFee 3), setSample, sampleMembers (.buildRing 0 1),
    .members (.advance 61)]

def noneLapsed (c : Chain sampleRings.aliasAccounts) : Bool :=
  [true, false].all fun account => (c.store.accountToAlias.get account).all fun info =>
    isRevisionInGrace c.store.members info.collection info.ring info.revision

theorem regular_of_noneLapsed {c : Chain sampleRings.aliasAccounts} (h : noneLapsed c = true) (m : Move sampleRings) :
    Regular c m := by
  cases m with
  | members a =>
    cases a with
    | call id call =>
      intro account info hinfo hid hgrace
      have hall := List.all_eq_true.mp h account (by cases account <;> decide)
      rw [hinfo, Option.all_some, hid, hgrace] at hall
      cases hall
    | _ => trivial
  | _ => trivial

theorem lapsed_stays_sample : ∃ c, Reaches move Regular sampleRingGenesis c ∧ Rejected c.store true ∧
    (∃ info, c.store.accountToAlias.get true = some info) ∧
    ∃ c', Reaches move (fun c m => Regular c m ∧ ¬renews true m) c c' ∧ ¬Accepted c'.store true := by
  obtain ⟨c, hreach, hrejected, hbound⟩ := exists_reaches move (fun c _ => noneLapsed c = true) sampleRingGenesis
    sampleMoves (fun c => AsRingAlias.validate (T := sampleRings.aliasAccounts) c.store (fun _ => true) (some true) 0 =
      .error .staleRevision ∧ c.store.accountToAlias.contains true = true)
    (by decide +kernel)
  have hregular : Reaches move Regular sampleRingGenesis c := hreach.mono fun _ m hnone => regular_of_noneLapsed hnone m
  have hrejected' : Rejected c.store true := .inl ⟨_, _, hrejected⟩
  have hlater : Reaches move (fun c m => Regular c m ∧ ¬renews true m) c
      { c with store := { c.store with members := { c.store.members with
        env := { c.store.members.env with now := c.store.members.env.now + 1 } } } } :=
    (Reaches.refl c).tail (i := .members (.advance 1)) ⟨trivial, id⟩ rfl
  exact ⟨c, hregular, hrejected', StorageMap.contains_eq_true.mp hbound, _, hlater,
    (lapsed_stays (R := sampleRings) hregular).1 true hrejected' _ hlater⟩

theorem reaches_members {G : Members.State R.pallet → Members.Action R.pallet → Prop} {w : Members.State R.pallet}
    (c : Chain R.aliasAccounts) (h : Reaches Members.State.exec G c.store.members w) (account : R.AccountId) :
    Reaches move (fun _ m => ¬renews account m) c { c with store := { c.store with members := w } } := by
  refine h.invariant (I := fun w => Reaches move (fun _ m => ¬renews account m) c
    { c with store := { c.store with members := w } }) (Reaches.refl c) fun w a w' hw _ hexec => ?_
  refine hw.tail (i := .members a) id ?_
  simp only [move, hexec, Except.mapError, ok_bind]
  rfl

/-- The alias of a key is set for an account. -/
theorem exists_set {c : Chain sampleRings.aliasAccounts} {root : Members.RingRoot Members.sampleConfig}
    {keys : List Nat} {k : Nat} (hfee : c.store.aliasFee.isSome = true) (haccount : c.store.accountToAlias = ∅)
    (halias : c.store.aliasToAccount = ∅) (hnow : c.store.members.env.now = 0)
    (hcollections : (c.store.members.store peopleLiteIdentifier).collections.isSome = true)
    (hroot : (c.store.members.store peopleLiteIdentifier).root.get 0 = some root) (hrevision : root.revision = 0)
    (hkeys : root.root = keys) (hk : k ∈ keys) :
    ∃ c' info, move c (.own (.dispatch true
        (.setAliasAccount ((k, 1) : Nat × Nat) peopleLiteIdentifier 0 0 (5 : Nat) 0))) = .ok c' ∧
      c'.store.members = c.store.members ∧ c'.store.nonces = c.store.nonces ∧
      c'.store.accountToAlias.get true = some info ∧
      info.collection = peopleLiteIdentifier ∧ info.ring = 0 ∧ info.revision = 0 := by
  obtain ⟨fee, hfee⟩ := Option.isSome_iff_exists.mp hfee
  obtain ⟨collection, hcollection⟩ := Option.isSome_iff_exists.mp hcollections
  have hgrace : isRevisionInGrace (T := sampleRings.aliasAccounts) c.store.members peopleLiteIdentifier 0 0 = true :=
    inGrace_iff_stands.mpr ⟨hcollections, root, hroot, .inl hrevision⟩
  have hverify : sampleRings.memberService.verifyMembershipAtRev c.store.members peopleLiteIdentifier
      ((k, 1) : Nat × Nat) 0 0 (5 : Nat) (1 : Nat) = some ((k, 5) : Nat × Nat) := by
    have hvalid : Members.idealVrf.validate collection.ringSize ((k, 1) : Nat × Nat) root.root (5 : Nat) (1 : Nat) =
        some ((k, 5) : Nat × Nat) := by
      rw [hkeys]
      exact if_pos ⟨hk, rfl⟩
    simp only [RingConfig.memberService, Members.Store.verifyMembershipAtRev, Members.Store.getRootAtRevision,
      hcollection, hroot, hrevision, okOr_some, ok_bind, if_true]
    exact congrArg (fun found => (okOr found Members.Error.invalidProof).toOption) hvalid
  have hvalidNow : validNow sampleRings.aliasAccounts c.store.members.env.now 0 := by
    rw [hnow]
    decide
  let info : AliasAccountInfo sampleRings.aliasAccounts := ⟨peopleLiteIdentifier, 0, 0, ⟨(5 : Nat), ((k, 5) : Nat × Nat)⟩⟩
  have hproved : verifyProof c.store ((k, 1) : Nat × Nat) peopleLiteIdentifier 0 0 (5 : Nat)
      (sampleRings.aliasAccounts.proofMessage true 0) = .ok ⟨0, 0, (5 : Nat), ((k, 5) : Nat × Nat)⟩ := by
    unfold verifyProof
    rw [ensure_pos hgrace]
    have hfound := congrArg (fun found => okOr found Error.badProof) hverify
    exact congrArg (fun found => found.map fun found => (⟨0, 0, (5 : Nat), found⟩ : sampleRings.aliasAccounts.RevCa)) hfound
  obtain ⟨t, ht, hframe, hget⟩ : ∃ t, setAliasAccount (T := sampleRings.aliasAccounts) c.store true ((k, 1) : Nat × Nat)
      peopleLiteIdentifier 0 0 (5 : Nat) 0 = .ok t ∧ (t.members = c.store.members ∧ t.nonces = c.store.nonces) ∧
      t.accountToAlias.get true = some info := by
    simp only [setAliasAccount, hfee, okOr_some, ok_bind, hproved]
    rw [ensure_pos hvalidNow, haccount, halias]
    exact ⟨_, rfl, ⟨rfl, rfl⟩, rfl⟩
  refine ⟨{ c with store := t }, info, ?_, hframe.1, hframe.2, hget, rfl, rfl, rfl⟩
  simp only [move, exec, dispatch, ht, Except.mapError, ok_bind]
  rfl

/-- Two merges take a ring apart and put it together again: its next root has the revision of the first
one, and the mapping that was rejected is accepted without a proof. -/
theorem lapsed_stays_fails : ∃ c c' : Chain sampleRings.aliasAccounts,
    Reaches move (fun _ _ => True) sampleRingGenesis c ∧ Rejected c.store true ∧
    Reaches move (fun _ m => ¬renews true m) c c' ∧ Accepted c'.store true := by
  obtain ⟨w, hreach, henv, hcohort⟩ := Members.State.exists_first_cohort (T := Members.sampleConfig)
    (G := fun _ _ _ => True) peopleLiteIdentifier (0 : Nat) .r2e10 (sampleKeys 0 767)
    (Members.sampleKeys_ne_nil (by decide)) (Members.sampleKeys_nodup 0 767) (fun _ _ => rfl)
    (by rw [Members.length_sampleKeys]; exact le_rfl) (by rw [Members.length_sampleKeys]; decide) (by decide)
    (fun _ _ => trivial) (fun _ _ => trivial) (fun _ _ _ _ _ => trivial)
  obtain ⟨s₁, s₂, s₃, s₄, hs₁, hs₂, hs₃, hs₄, hsome₁, hsome₄, hgone, ⟨root₄, hroot₄, hrevision₄⟩, root₁, hroot₁,
    hrevision₁, hnonempty⟩ := Members.Store.exists_revived w.env hcohort
  obtain ⟨w₁, hw₁, rfl, henv₁⟩ := Members.State.exists_exec_call hs₁ (w.exists_register _ rfl)
  rw [← henv₁] at hs₂
  obtain ⟨w₂, hw₂, rfl, henv₂⟩ := Members.State.exists_exec_call hs₂ (w₁.exists_register _ rfl)
  rw [← henv₁, ← henv₂] at hs₃
  obtain ⟨w₃, hw₃, rfl, henv₃⟩ := Members.State.exists_exec_call hs₃ (w₂.exists_register _ rfl)
  rw [← henv₁, ← henv₂, ← henv₃] at hs₄
  obtain ⟨w₄, hw₄, rfl, henv₄⟩ := Members.State.exists_exec_call hs₄ (w₃.exists_register _ rfl)
  obtain ⟨k, keys, hkeys⟩ := List.exists_cons_of_ne_nil hnonempty
  have hreach₁ : Reaches Members.State.exec (fun _ _ => True) (Members.State.genesis Members.sampleConfig) w₁ :=
    (hreach.mono fun _ _ _ => trivial).tail trivial hw₁
  have hlater : Reaches Members.State.exec (fun _ _ => True) w₂ w₄ :=
    ((Reaches.refl w₂).tail trivial hw₃).tail trivial hw₄
  have hstart := reaches_members (R := sampleRings) sampleRingGenesis hreach₁ true
  obtain ⟨c, info, hset, hmembers, hnonces, hinfo, hcollection, hring, hrevision⟩ := exists_set (k := k)
    (c := { sampleRingGenesis with store := { sampleRingGenesis.store with members := w₁, aliasFee := some 3 } })
    rfl rfl rfl (henv₁.trans henv ▸ rfl) hsome₁ hroot₁ hrevision₁ hkeys List.mem_cons_self
  have hset' : Reaches move (fun _ _ => True) sampleRingGenesis c :=
    ((hstart.mono fun _ _ _ => trivial).tail (i := .own (.setAliasFee 3)) trivial rfl).tail trivial hset
  have hgone' : isRevisionInGrace (T := sampleRings.aliasAccounts) w₂ info.collection info.ring info.revision = false := by
    rw [hcollection, hring]
    refine (notInGrace_iff (R := sampleRings)).mpr ?_
    rintro ⟨-, root, hroot, -⟩
    cases hgone.symm.trans hroot
  have hback : isRevisionInGrace (T := sampleRings.aliasAccounts) w₄ info.collection info.ring info.revision = true := by
    rw [hcollection, hring, hrevision]
    exact (inGrace_iff_stands (R := sampleRings)).mpr ⟨hsome₄, root₄, hroot₄, .inl hrevision₄⟩
  refine ⟨{ c with store := { c.store with members := w₂ } }, { c with store := { c.store with members := w₄ } },
    hset'.trans ?_, .inr ⟨info, hinfo, ?_⟩, ?_, .inr ⟨info.ca.context, (info.collection, info.ca.ringAlias), ?_⟩⟩
  · refine (reaches_members (R := sampleRings) c (w := w₂) (G := fun _ _ => True) ?_ true).mono fun _ _ _ => trivial
    rw [hmembers]
    exact (Reaches.refl w₁).tail trivial hw₂
  · simp only [personhoodInfo, hinfo, ne_eq, not_true_eq_false, if_false, hgone', if_true]
  · exact reaches_members (R := sampleRings) { c with store := { c.store with members := w₂ } } hlater true
  · simp only [personhoodInfo, hinfo, ne_eq, not_true_eq_false, if_false, hback, Bool.true_eq_false]

end Individuality.AliasAccounts
