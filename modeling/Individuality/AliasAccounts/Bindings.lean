import Individuality.AliasAccounts.Calls
import Individuality.Support.Mirrors

/-! Accounts and their aliases.

An accepted call pairs an account with an alias, revises the alias of an account, or
takes the two apart (`Dispatched`). So the two maps mirror each other, the pallet's
references are on the accounts that are bound, and whoever is bound has signed a
transaction with a valid proof for the alias (`Balanced`): `noteProofs` notes what the
proofs of the accepted transactions show. -/
namespace Individuality.AliasAccounts
open Support
open Members (Identifier peopleIdentifier)
variable {T : Config} {s s' : Store T} {c c' : Chain T} {who account : T.AccountId}
  {info : AliasAccountInfo T} {collection : Identifier} {ca : T.Ca}

def AliasAccountInfo.key (info : AliasAccountInfo T) : Identifier × T.Ca := (info.collection, info.ca)

def Store.Bound (s : Store T) (account : T.AccountId) : Prop := ∃ info, s.accountToAlias.get account = some info

/-! ### What a call writes -/

/-- Take an account and its alias apart. -/
def unpair (s : Store T) (info : AliasAccountInfo T) (account : T.AccountId) : Store T :=
  decSufficients { s with
    aliasToAccount := s.aliasToAccount.remove info.key
    accountToAlias := s.accountToAlias.remove account } account

theorem unpair_congr {info' : AliasAccountInfo T} (hkey : info.key = info'.key) :
    unpair s info account = unpair s info' account := by
  rw [unpair, unpair, hkey]

/-- Give an alias an account, with a reference. -/
def pair (s : Store T) (info : AliasAccountInfo T) (account : T.AccountId) : Store T :=
  incSufficients { s with
    accountToAlias := s.accountToAlias.insert account info
    aliasToAccount := s.aliasToAccount.insert info.key account } account

/-- Write the alias of an account again. -/
def revise (s : Store T) (info : AliasAccountInfo T) (account : T.AccountId) : Store T :=
  { s with
    accountToAlias := s.accountToAlias.insert account info
    aliasToAccount := s.aliasToAccount.insert info.key account }

/-- The proof is for the alias, signed for the account, and holds at the revision. -/
def ProvenFor (s : Store T) (who : T.AccountId) (proof : T.Proof) (proofValidAt : Nat)
    (info : AliasAccountInfo T) : Prop :=
  T.memberService.verifyMembershipAtRev s.members info.collection proof info.ring info.revision info.ca.context
    (T.proofMessage who proofValidAt) = some info.ca.ringAlias

/-- What an accepted call leaves, but for the assets that it burns. -/
inductive Dispatched (s : Store T) (who : T.AccountId) : Call T → Store T → Prop
  | unset {info : AliasAccountInfo T} : s.accountToAlias.get who = some info →
    Dispatched s who .unsetAliasAccount (unpair s info who)
  | set {proof : T.Proof} {proofValidAt : Nat} (info : AliasAccountInfo T) {assets : T.Ledger} :
    ProvenFor s who proof proofValidAt info →
    isRevisionInGrace s.members info.collection info.ring info.revision = true →
    s.aliasToAccount.get info.key = none → s.accountToAlias.get who = none →
    Dispatched s who (.setAliasAccount proof info.collection info.ring info.revision info.ca.context proofValidAt)
      (pair { s with assets := assets } info who)
  | takenOver {proof : T.Proof} {proofValidAt : Nat} (info : AliasAccountInfo T) {assets : T.Ledger}
      {old : T.AccountId} :
    ProvenFor s who proof proofValidAt info →
    isRevisionInGrace s.members info.collection info.ring info.revision = true →
    s.aliasToAccount.get info.key = some old → old ≠ who → s.accountToAlias.get who = none →
    Dispatched s who (.setAliasAccount proof info.collection info.ring info.revision info.ca.context proofValidAt)
      (pair (unpair { s with assets := assets } info old) info who)
  | again {proof : T.Proof} {proofValidAt : Nat} (info : AliasAccountInfo T) {assets : T.Ledger} :
    ProvenFor s who proof proofValidAt info →
    isRevisionInGrace s.members info.collection info.ring info.revision = true →
    s.aliasToAccount.get info.key = some who →
    Dispatched s who (.setAliasAccount proof info.collection info.ring info.revision info.ca.context proofValidAt)
      (revise { s with assets := assets } info who)
  | reproven {proof : T.Proof} {proofValidAt : Nat} {old : AliasAccountInfo T} (info : AliasAccountInfo T) :
    ProvenFor s who proof proofValidAt info →
    isRevisionInGrace s.members info.collection info.ring info.revision = true →
    s.accountToAlias.get who = some old → info.key = old.key →
    Dispatched s who (.reproveAliasAccount proof info.ring info.revision proofValidAt)
      { s with accountToAlias := s.accountToAlias.insert who info }
  | cleaned {info : AliasAccountInfo T} {account : T.AccountId} :
    s.aliasToAccount.get info.key = some account → s.accountToAlias.get account = some info →
    isRevisionInGrace s.members info.collection info.ring info.revision = false →
    Dispatched s who (.cleanUpStaleAlias info.collection info.ca) (unpair s info account)

theorem verifyProof_ok {proof : T.Proof} {ring revision : Nat} {context : T.Context}
    {message : T.memberService.Message} {revCa : T.RevCa}
    (hok : verifyProof s proof collection ring revision context message = .ok revCa) :
    ∃ found, T.memberService.verifyMembershipAtRev s.members collection proof ring revision context message = some found ∧
      isRevisionInGrace s.members collection ring revision = true ∧ revCa = ⟨revision, ring, context, found⟩ := by
  simp only [verifyProof, bind_eq_ok, ensure_eq_ok, okOr_eq_ok, pure_eq_ok] at hok
  obtain ⟨-, -, -, hgrace, found, hfound, heq⟩ := hok
  exact ⟨found, hfound, hgrace, heq.symm⟩

theorem isRevisionInGrace_iff {w : T.memberService.World} {ring revision : Nat} :
    isRevisionInGrace w collection ring revision = true ↔
      T.memberService.isRevisionValid w collection ring revision = true ∧
      (T.memberService.ringRevision w collection ring = some revision ∨
        ∃ sourceTime, T.memberService.revisionSourceTime w collection ring revision = some sourceTime ∧
          T.memberService.unixTime w ≤ U64.saturatingAdd sourceTime T.cleanupGracePeriod) := by
  unfold isRevisionInGrace
  cases T.memberService.isRevisionValid w collection ring revision with
  | false => simp
  | true =>
    by_cases hcurrent : T.memberService.ringRevision w collection ring = some revision
    · simp [hcurrent]
    · cases T.memberService.revisionSourceTime w collection ring revision <;> simp [hcurrent]

def Paired (s : Store T) : Prop := Mirrors s.aliasToAccount s.accountToAlias fun info => some info.key

theorem setAliasAccount_ok {proof : T.Proof} {ring revision : Nat} {context : T.Context} {proofValidAt : Nat}
    (hok : setAliasAccount s who proof collection ring revision context proofValidAt = .ok s') :
    Dispatched s who (.setAliasAccount proof collection ring revision context proofValidAt) s' := by
  simp only [setAliasAccount, bind_eq_ok, ensure_eq_ok, okOr_eq_ok, pure_eq_ok, decide_eq_true_eq] at hok
  obtain ⟨fee, -, -, -, revCa, hverify, -, -, -, hfree, assets, -, heq⟩ := hok
  obtain ⟨found, hfound, hgrace, rfl⟩ := verifyProof_ok hverify
  have hproven : ProvenFor s who proof proofValidAt ⟨collection, revision, ring, context, found⟩ := hfound
  cases hold : s.aliasToAccount.get (collection, ⟨context, found⟩) with
  | none =>
    have hnew : ¬(none : Option T.AccountId) = some who := fun heq => by cases heq
    simp only [AliasAccountInfo.fromValidated, hold, ne_eq, hnew, not_false_eq_true, if_true, takeOver] at heq hfree
    rw [← heq]
    exact .set ⟨collection, revision, ring, context, found⟩ hproven hgrace hold
      (StorageMap.contains_eq_false.mp (hfree trivial))
  | some old =>
    by_cases hsame : old = who
    · simp only [AliasAccountInfo.fromValidated, hold, hsame, ne_eq, not_true_eq_false, if_false] at heq
      have hrevise : revise { s with assets := assets } ⟨collection, revision, ring, context, found⟩ who = s' := heq
      rw [← hrevise]
      exact .again ⟨collection, revision, ring, context, found⟩ hproven hgrace (hsame ▸ hold)
    · have hnew : ¬some old = some who := fun heq => hsame (Option.some.inj heq)
      simp only [AliasAccountInfo.fromValidated, hold, ne_eq, hnew, not_false_eq_true, if_true, takeOver] at heq hfree
      have hpair : pair (unpair { s with assets := assets } ⟨collection, revision, ring, context, found⟩ old)
          ⟨collection, revision, ring, context, found⟩ who = s' := by
        rw [← heq, pair, unpair]
        simp only [decSufficients, incSufficients, StorageMap.insert_remove, AliasAccountInfo.key]
      rw [← hpair]
      exact .takenOver ⟨collection, revision, ring, context, found⟩ hproven hgrace hold hsame
        (StorageMap.contains_eq_false.mp (hfree trivial))

theorem dispatch_ok {call : Call T} (h : Paired s) (hok : dispatch s who call = .ok s') :
    Dispatched s who call s' := by
  cases call with
  | unsetAliasAccount =>
    simp only [dispatch, unsetAliasAccount, bind_eq_ok, okOr_eq_ok, pure_eq_ok] at hok
    obtain ⟨info, hget, rfl⟩ := hok
    exact .unset hget
  | setAliasAccount proof collection ring revision context proofValidAt => exact setAliasAccount_ok hok
  | reproveAliasAccount proof ring revision proofValidAt =>
    simp only [dispatch, reproveAliasAccount, bind_eq_ok, ensure_eq_ok, okOr_eq_ok, pure_eq_ok] at hok
    obtain ⟨-, -, old, hold, revCa, hverify, -, halias, -, -, rfl⟩ := hok
    obtain ⟨found, hfound, hgrace, rfl⟩ := verifyProof_ok hverify
    refine .reproven ⟨old.collection, revision, ring, old.ca⟩ ?_ hgrace hold rfl
    rw [ProvenFor, ← halias]
    exact hfound
  | cleanUpStaleAlias collection ca =>
    simp only [dispatch, cleanUpStaleAlias, bind_eq_ok, ensure_eq_ok, okOr_eq_ok, pure_eq_ok] at hok
    obtain ⟨account, haccount, info, hget, -, -, _, hstale, rfl⟩ := hok
    simp only [ensureAliasIsStale, bind_eq_ok, ensure_eq_ok] at hstale
    obtain ⟨-, hgrace, -⟩ := hstale
    obtain ⟨info', hget', hkey⟩ := (h _ _).mp haccount
    cases hget.symm.trans hget'
    obtain ⟨rfl, rfl⟩ := Prod.mk.inj (Option.some.inj hkey)
    exact .cleaned haccount hget hgrace

/-! ### Pairs -/

namespace Paired

theorem unpair (h : Paired s) (hget : s.accountToAlias.get account = some info) :
    Paired (AliasAccounts.unpair s info account) := h.remove hget rfl

theorem pair (h : Paired s) (hnone : s.aliasToAccount.get info.key = none)
    (hfree : s.accountToAlias.get account = none) : Paired (AliasAccounts.pair s info account) :=
  h.insert_named (fun _ hold => by cases hfree.symm.trans hold) rfl hnone

/-- The account keeps its alias. -/
theorem insert (h : Paired s) {old : AliasAccountInfo T} (hget : s.accountToAlias.get account = some old)
    (hkey : info.key = old.key) : Paired { s with accountToAlias := s.accountToAlias.insert account info } :=
  h.insert_same hget (congrArg some hkey)

theorem revise (h : Paired s) (hget : s.aliasToAccount.get info.key = some account) :
    Paired (AliasAccounts.revise s info account) := by
  obtain ⟨old, hold, hkey⟩ := (h _ _).mp hget
  refine (h.insert hold (Option.some.inj hkey).symm).congr fun k => ?_
  refine (StorageMap.get_insert _ _ _ _).trans ?_
  split
  · rename_i hk
    rw [hk]
    exact hget.symm
  · rfl

/-- The alias that is taken from its account is free. -/
theorem unpair_free {old : T.AccountId} :
    (AliasAccounts.unpair s info old).aliasToAccount.get info.key = none :=
  (StorageMap.get_remove _ _ _).trans (if_pos rfl)

end Paired

/-! ### References -/

/-- The pallet's references are on the bound accounts. -/
def Counted (s : Store T) : Prop := Counts s.sufficients s.Bound

namespace Counted

theorem unpair (h : Counted s) (hget : s.accountToAlias.get account = some info) :
    Counted (AliasAccounts.unpair s info account) := by
  refine Counts.dec h ⟨info, hget⟩ (fun ⟨i, hi⟩ => ?_) fun a ha => ?_
  · cases ((StorageMap.get_remove _ _ _).trans (if_pos rfl)).symm.trans hi
  · show (∃ i, (s.accountToAlias.remove account).get a = some i) ↔ _
    rw [StorageMap.get_remove, if_neg ha]
    rfl

theorem pair (h : Counted s) (hfree : s.accountToAlias.get account = none) :
    Counted (AliasAccounts.pair s info account) := by
  refine Counts.inc h (fun ⟨i, hi⟩ => ?_) ⟨info, (StorageMap.get_insert _ _ _ _).trans (if_pos rfl)⟩ fun a ha => ?_
  · cases hfree.symm.trans hi
  · show (∃ i, (s.accountToAlias.insert account info).get a = some i) ↔ _
    rw [StorageMap.get_insert, if_neg ha]
    rfl

/-- A bound account stays bound. -/
theorem insert (h : Counted s) (hbound : s.Bound account) (hmap : s'.accountToAlias = s.accountToAlias.insert account info)
    (hsufficients : s'.sufficients = s.sufficients) : Counted s' := by
  have h' : Counts s'.sufficients s.Bound := by
    rw [hsufficients]
    exact h
  refine h'.congr fun a => ?_
  show (∃ i, s'.accountToAlias.get a = some i) ↔ _
  rw [hmap, StorageMap.get_insert]
  split
  · rename_i ha
    rw [ha]
    exact ⟨fun _ => hbound, fun _ => ⟨info, rfl⟩⟩
  · rfl

end Counted

/-! ### Proofs -/

/-- Whose proof of which alias a call carries. -/
def provenIn (s : Store T) (who : T.AccountId) : Call T → Set (T.AccountId × Identifier × T.Ca)
  | .setAliasAccount proof collection ring revision context proofValidAt =>
    {p | p.1 = who ∧ p.2.1 = collection ∧ p.2.2.context = context ∧
      T.memberService.verifyMembershipAtRev s.members collection proof ring revision context
        (T.proofMessage who proofValidAt) = some p.2.2.ringAlias}
  | .reproveAliasAccount proof ring revision proofValidAt =>
    {p | p.1 = who ∧ T.memberService.verifyMembershipAtRev s.members p.2.1 proof ring revision p.2.2.context
      (T.proofMessage who proofValidAt) = some p.2.2.ringAlias}
  | _ => ∅

/-- Note what the proofs of the calls show that are accepted. -/
def noteProofs (c : Chain T) (a : Action T) (_ : Chain T) (proven : Set (T.AccountId × Identifier × T.Ca)) :
    Set (T.AccountId × Identifier × T.Ca) :=
  match a with
  | .dispatch who call => proven ∪ provenIn c.store who call
  | _ => proven

structure Balanced (s : Store T) (proven : Set (T.AccountId × Identifier × T.Ca)) : Prop where
  paired : Paired s
  counted : Counted s
  proven : ∀ a info, s.accountToAlias.get a = some info → (a, info.key) ∈ proven

namespace Balanced
variable {proven proven' : Set (T.AccountId × Identifier × T.Ca)}

theorem unpair (h : Balanced s proven) (hget : s.accountToAlias.get account = some info) :
    Balanced (AliasAccounts.unpair s info account) proven :=
  ⟨h.paired.unpair hget, h.counted.unpair hget, fun a i hi => h.proven a i (StorageMap.get_of_get_remove hi)⟩

theorem pair (h : Balanced s proven) (hnone : s.aliasToAccount.get info.key = none)
    (hfree : s.accountToAlias.get account = none) (hsub : proven ⊆ proven') (hproven : (account, info.key) ∈ proven') :
    Balanced (AliasAccounts.pair s info account) proven' := by
  refine ⟨h.paired.pair hnone hfree, h.counted.pair hfree, fun a i hi => ?_⟩
  have hi' := (StorageMap.get_insert _ _ _ _).symm.trans hi
  split at hi'
  · rename_i ha
    cases hi'
    exact ha ▸ hproven
  · exact hsub (h.proven a i hi')

theorem insert (h : Balanced s proven) (hpaired : Paired s') (hbound : s.Bound account)
    (hmap : s'.accountToAlias = s.accountToAlias.insert account info) (hsufficients : s'.sufficients = s.sufficients)
    (hsub : proven ⊆ proven') (hproven : (account, info.key) ∈ proven') : Balanced s' proven' := by
  refine ⟨hpaired, h.counted.insert hbound hmap hsufficients, fun a i hi => ?_⟩
  rw [hmap, StorageMap.get_insert] at hi
  split at hi
  · rename_i ha
    cases hi
    exact ha ▸ hproven
  · exact hsub (h.proven a i hi)

theorem burn (h : Balanced s proven) (assets : T.Ledger) : Balanced { s with assets := assets } proven :=
  ⟨h.paired, h.counted, h.proven⟩

/-- The proof of an accepted call is among those that it carries. -/
theorem mem_provenIn {proof : T.Proof} {proofValidAt : Nat} (hproof : ProvenFor s who proof proofValidAt info) :
    (who, info.key) ∈ provenIn s who
      (.setAliasAccount proof info.collection info.ring info.revision info.ca.context proofValidAt) :=
  ⟨rfl, rfl, rfl, hproof⟩

theorem dispatched {call : Call T} (h : Balanced s proven) (hd : Dispatched s who call s') :
    Balanced s' (proven ∪ provenIn s who call) := by
  have hsub : proven ⊆ proven ∪ provenIn s who call := Set.subset_union_left
  have weaken {t : Store T} (ht : Balanced t proven) : Balanced t (proven ∪ provenIn s who call) :=
    ⟨ht.paired, ht.counted, fun a i hi => hsub (ht.proven a i hi)⟩
  cases hd with
  | unset hget => exact weaken (h.unpair hget)
  | cleaned _ hget _ => exact weaken (h.unpair hget)
  | set info hproof _ hnone hfree => exact (h.burn _).pair hnone hfree hsub (.inr (mem_provenIn hproof))
  | @takenOver _ _ info assets _ hproof _ hold hne hfree =>
    obtain ⟨oldInfo, holdInfo, hkey⟩ := (h.paired _ _).mp hold
    have hunpaired := unpair_congr (Option.some.inj hkey) ▸ (h.burn assets).unpair holdInfo
    refine hunpaired.pair Paired.unpair_free ?_ hsub (.inr (mem_provenIn hproof))
    exact (StorageMap.get_remove _ _ _).trans ((if_neg (Ne.symm hne)).trans hfree)
  | again info hproof _ hget =>
    obtain ⟨old, hold, -⟩ := (h.paired _ _).mp hget
    exact (h.burn _).insert ((h.burn _).paired.revise hget) ⟨old, hold⟩ rfl rfl hsub (.inr (mem_provenIn hproof))
  | reproven info hproof _ hget hkey =>
    exact h.insert (h.paired.insert hget hkey) ⟨_, hget⟩ rfl rfl hsub (.inr ⟨rfl, hproof⟩)

theorem exec {a : Action T} (h : Balanced c.store proven) (hexec : exec c a = .ok c') :
    Balanced c'.store (noteProofs c a c' proven) := by
  cases a with
  | dispatch who call =>
    simp only [AliasAccounts.exec, bind_eq_ok, mapError_eq_ok, pure_eq_ok] at hexec
    obtain ⟨s, hs, rfl⟩ := hexec
    exact h.dispatched (dispatch_ok h.paired hs)
  | setAliasFee fee =>
    cases hexec
    exact ⟨h.paired, h.counted, h.proven⟩
  | asRingAlias signer nonce =>
    simp only [AliasAccounts.exec, prepareNonceForAccount, bind_eq_ok, mapError_eq_ok, ensure_eq_ok, pure_eq_ok] at hexec
    obtain ⟨_, -, _, ⟨-, -, rfl⟩, rfl⟩ := hexec
    exact ⟨h.paired, h.counted, h.proven⟩
  | elsewhere members assets accountExists =>
    cases hexec
    exact ⟨h.paired, h.counted, h.proven⟩

end Balanced

/-- In every state reached the two maps mirror each other, the pallet's references are on the bound
accounts, and a bound account has signed a transaction with a valid proof of its alias. -/
theorem alias_bindings_balance {members : T.memberService.World} {assets : T.Ledger} {accountExists : T.AccountId → Bool}
    {w : Chain T × Set (T.AccountId × Identifier × T.Ca)}
    (h : Reaches (noting exec noteProofs) (fun _ _ => True) (genesis members assets accountExists, ∅) w) :
    (∀ collection ca account, w.1.store.aliasToAccount.get (collection, ca) = some account ↔
      ∃ info, w.1.store.accountToAlias.get account = some info ∧ info.collection = collection ∧ info.ca = ca) ∧
    (∀ account, w.1.store.sufficients account =
      if w.1.store.accountToAlias.contains account = true then 1 else 0) ∧
    ∀ account info, w.1.store.accountToAlias.get account = some info → (account, info.collection, info.ca) ∈ w.2 := by
  have hbalanced : Balanced w.1.store w.2 := by
    refine Reaches.noted (I := fun c proven => Balanced c.store proven) (G := fun _ _ => True) h ?_ ?_
    · exact ⟨Mirrors.empty, fun a => ⟨fun ⟨info, hnone⟩ => (by cases hnone), fun _ => rfl⟩, nofun⟩
    · exact fun c proven a c' hc _ hexec => hc.exec hexec
  refine ⟨fun collection ca account => ?_, fun account => ?_, hbalanced.proven⟩
  · rw [hbalanced.paired]
    simp only [AliasAccountInfo.key, Option.some.injEq, Prod.mk.injEq]
  · split
    · rename_i hbound
      exact (hbalanced.counted account).1 (StorageMap.contains_eq_true.mp hbound)
    · rename_i hfree
      exact (hbalanced.counted account).2 fun hbound => hfree (StorageMap.contains_eq_true.mpr hbound)

/-! ### A sample run -/

/-- A proof names its alias and what it signs; the state is the revision of every ring. -/
def sampleService : MemberService where
  World := Nat
  Proof := Nat × Nat × Nat
  Message := Nat × Nat
  Context := Nat
  Alias := Nat
  contextDecEq := inferInstance
  aliasDecEq := inferInstance
  verifyMembershipAtRev _ _ proof _ _ _ message := if proof.2 = message then some proof.1 else none
  isRevisionValid w _ _ revision := revision = w
  ringRevision w _ _ := some w
  revisionSourceTime _ _ _ _ := none
  unixTime _ := 100

def sampleConfig : Config where
  memberService := sampleService
  AccountId := Nat
  accountDecEq := inferInstance
  proofValidityWindow := 60
  cleanupGracePeriod := 60
  peopleLiteRingExponent := .r2e9
  peopleRingExponent := .r2e9
  Ledger := Nat
  burnFrom ledger _ amount := if amount ≤ ledger then some (ledger - amount) else none
  proofMessage account proofValidAt := (account, proofValidAt)

def sampleGenesis : Chain sampleConfig := genesis (T := sampleConfig) (0 : Nat) (10 : Nat) fun _ => true

/-- An account takes over the alias of another one, and proves it again. -/
def sampleActions : List (Action sampleConfig) :=
  [.setAliasFee 3,
    .dispatch (1 : Nat) (.setAliasAccount ((7, 1, 90) : Nat × Nat × Nat) peopleIdentifier 0 0 (5 : Nat) 90),
    .dispatch (2 : Nat) (.setAliasAccount ((7, 2, 90) : Nat × Nat × Nat) peopleIdentifier 0 0 (5 : Nat) 90),
    .elsewhere (1 : Nat) (4 : Nat) fun _ => true,
    .dispatch (2 : Nat) (.reproveAliasAccount ((7, 2, 95) : Nat × Nat × Nat) 0 1 95)]

theorem alias_bindings_balance_sample : ∃ w, Reaches (noting exec noteProofs) (fun _ _ => True) (sampleGenesis, ∅) w ∧
    (w.1.store.sufficients (1 : Nat) = 0 ∧ w.1.store.sufficients (2 : Nat) = 1) ∧
    ∃ collection ca, w.1.store.aliasToAccount.get (collection, ca) = some (2 : Nat) ∧ ((2 : Nat), collection, ca) ∈ w.2 := by
  obtain ⟨w, hreach, hfree, hbound⟩ := exists_reaches (noting exec noteProofs) (fun _ _ => True) (sampleGenesis, ∅)
    sampleActions
    (fun w => w.1.store.accountToAlias.contains (1 : Nat) = false ∧ w.1.store.accountToAlias.contains (2 : Nat) = true)
    (by decide +kernel)
  obtain ⟨hpairs, hcounts, hproven⟩ := alias_bindings_balance (T := sampleConfig) hreach
  obtain ⟨info, hinfo⟩ := StorageMap.contains_eq_true.mp hbound
  exact ⟨w, hreach, ⟨(hcounts (1 : Nat)).trans (if_neg (Bool.eq_false_iff.mp hfree)),
    (hcounts (2 : Nat)).trans (if_pos hbound)⟩, info.collection, info.ca,
    (hpairs _ _ _).mpr ⟨info, hinfo, rfl, rfl⟩, hproven _ info hinfo⟩

end Individuality.AliasAccounts
