import Individuality.Pgas.Calls
import Individuality.Support.SingleUse

/-! The daily limit on claims.

A claim is known by its member, its day and its slot; its record stands under the
alias of the member in their context. Records are removed for days before the grace
day only, and no claim is accepted for such a day any more, so no slot is claimed
twice (`Once`) and the slots of a day are the limit. -/
namespace Individuality.Pgas
open Support
open Members (ContextualAlias IdealProver)
variable {T : Config}

/-! ### Days -/

theorem graceDay_le_currentDay (now : Nat) : graceDay now ≤ currentDay now := by
  have hdays : (now - pgasDayGraceWindow) / secsPerDay ≤ now / secsPerDay :=
    Nat.div_le_div_right (Nat.sub_le _ _)
  rw [graceDay, currentDay, U32.saturatedFrom, U32.saturatedFrom]
  omega

theorem graceDay_mono {now now' : Nat} (h : now ≤ now') : graceDay now ≤ graceDay now' := by
  have hdays : (now - pgasDayGraceWindow) / secsPerDay ≤ (now' - pgasDayGraceWindow) / secsPerDay :=
    Nat.div_le_div_right (Nat.sub_le_sub_right h _)
  rw [graceDay, graceDay, U32.saturatedFrom, U32.saturatedFrom]
  omega

/-! ### Accepted claims -/

/-- A claim, by its member. -/
structure Claim (M : Type) where
  member : M
  collection : PgasCollection
  day : Nat
  slot : Nat

/-- What tells a claim apart from others. -/
def Claim.key {M : Type} (e : Claim M) : M × Nat × Nat := (e.member, e.day, e.slot)

section Accepted
variable {V : IdealProver T.membershipProver} {c c' : Chain T} {a : Action T} {tx : Transaction T}
  {s' : Store T} {info : AsPgasInfo T} {slot : Nat} {target : T.fungibles.AccountId}

/-- Where the record of a claim stands. -/
def recordOf (V : IdealProver T.membershipProver) (k : V.Member × Nat × Nat) : Nat × T.membershipProver.Alias :=
  (k.2.1, V.aliasIn k.1 (buildGasContext k.2.1 k.2.2))

/-- What an accepted claim has passed, and what it leaves. -/
structure Claimed (V : IdealProver T.membershipProver) (c : Chain T) (tx : Transaction T) (s' : Store T)
    (info : AsPgasInfo T) (slot : Nat) (target : T.fungibles.AccountId) : Prop where
  asPgas_eq : tx.asPgas = some info
  call_eq : tx.call = .claimPgas slot target
  slot_lt : slot < maxClaimsFor T info.collection
  day_eq : info.day = currentDay c.now ∨ info.day = graceDay c.now
  enrolled : V.Enrolled info.collection.identifier (V.prover info.proof)
  fresh : c.store.claimedGasAliases.contains (recordOf V (V.prover info.proof, info.day, slot)) = false
  minted : T.fungibles.mintInto c.store.assets T.pgasAssetId target T.pgasClaimAmount = some s'.assets
  record : s'.claimedGasAliases =
    c.store.claimedGasAliases.insert (recordOf V (V.prover info.proof, info.day, slot)) ()

theorem authorizeCall_claim {now : Nat} {s : Store T} {origin : Origin T}
    (h : authorizeCall now s tx = .ok origin) (hcall : tx.call = .claimPgas slot target) :
    origin = .other ∨ origin = .none := by
  unfold authorizeCall at h
  split at h
  · cases h
    exact .inl rfl
  · rw [hcall] at h
    cases h
    exact .inr rfl

theorem validateClaim_ok {w : T.membershipProver.World} {now : Nat} {s : Store T} {origin origin' : Origin T}
    {call : Call T} {message : T.membershipProver.Message}
    (h : validateClaim w now s origin call message info = .ok origin') :
    ∃ slot target found, call = .claimPgas slot target ∧ slot < maxClaimsFor T info.collection ∧
      (info.day = currentDay now ∨ info.day = graceDay now) ∧
      T.membershipProver.verifyMembershipAtRev w info.collection.identifier info.proof info.ringIndex
        info.revision (buildGasContext info.day slot) message = some found ∧
      origin' = .claimAlias found.ringAlias info.day info.collection := by
  unfold validateClaim at h
  split at h
  · rename_i slot target
    simp only [bind_eq_ok, ensure_eq_ok, okOr_eq_ok, pure_eq_ok] at h
    obtain ⟨-, hslot, -, -, -, hday, found, hfound, -, -, rfl⟩ := h
    exact ⟨slot, target, found, rfl, hslot, hday, hfound, rfl⟩
  · cases h
  · cases h

theorem claimPgas_ok {origin : Origin T} {s : Store T} (h : claimPgas origin slot target s = .ok s') :
    ∃ claimant day collection, origin = .claimAlias claimant day collection ∧
      s.claimedGasAliases.contains (day, claimant) = false ∧
      T.fungibles.mintInto s.assets T.pgasAssetId target T.pgasClaimAmount = some s'.assets ∧
      s'.claimedGasAliases = s.claimedGasAliases.insert (day, claimant) () := by
  unfold claimPgas at h
  split at h
  · rename_i claimant day collection
    simp only [bind_eq_ok, ensure_eq_ok, okOr_eq_ok, pure_eq_ok] at h
    obtain ⟨-, hfresh, assets, hminted, rfl⟩ := h
    exact ⟨claimant, day, collection, rfl, hfresh, hminted, rfl⟩
  · cases h

theorem submit_claim (V : IdealProver T.membershipProver) (h : submit c tx = .ok s')
    (hcall : tx.call = .claimPgas slot target) : ∃ info, Claimed V c tx s' info slot target := by
  simp only [submit, bind_eq_ok, mapError_eq_ok, validate, hcall, dispatch] at h
  obtain ⟨origin, ⟨ahead, hahead, horigin⟩, hclaim⟩ := h
  obtain ⟨claimant, day, collection, rfl, hfresh, hminted, hrecord⟩ := claimPgas_ok hclaim
  cases hinfo : tx.asPgas with
  | none =>
    rw [hinfo] at horigin
    cases horigin
    rcases authorizeCall_claim hahead hcall with heq | heq <;> cases heq
  | some info =>
    rw [hinfo] at horigin
    obtain ⟨slot', target', found, heq, hslot, hday, hfound, horigin'⟩ := validateClaim_ok horigin
    cases heq
    cases horigin'
    obtain ⟨rfl, henrolled⟩ := V.sound hfound
    exact ⟨info, hinfo, hcall, hslot, hday, henrolled, hfresh, hminted, hrecord⟩

/-! ### What other actions leave -/

/-- Time does not go back, and what is taken off the records is past the grace day. -/
structure Kept (c c' : Chain T) : Prop where
  now_le : c.now ≤ c'.now
  records : ∀ k, c.store.claimedGasAliases.contains k = true →
    c'.store.claimedGasAliases.contains k = true ∨ k.1 < graceDay c'.now

theorem cleanPgasClaimRecords_ok {origin : Origin T} {s : Store T} {day : Nat}
    {first : T.membershipProver.Alias} (h : cleanPgasClaimRecords origin day first s = .ok s') :
    origin = .authorized ∧ s'.claimedGasAliases =
      (s.claimedGasAliases.clearPrefix T.recordKey day T.maxPgasClaimRecordCleanupPerCall).1 := by
  unfold cleanPgasClaimRecords at h
  split at h
  · simp only [bind_eq_ok, ensure_eq_ok, okOr_eq_ok, pure_eq_ok] at h
    obtain ⟨-, -, -, -, rfl⟩ := h
    exact ⟨rfl, rfl⟩
  · cases h

/-- Records are cleaned for days before the grace day only. -/
theorem submit_clean {day : Nat} {first : T.membershipProver.Alias} (h : submit c tx = .ok s')
    (hcall : tx.call = .cleanPgasClaimRecords day first) : day < graceDay c.now ∧ s'.claimedGasAliases =
      (c.store.claimedGasAliases.clearPrefix T.recordKey day T.maxPgasClaimRecordCleanupPerCall).1 := by
  simp only [submit, bind_eq_ok, mapError_eq_ok, validate, hcall, dispatch] at h
  obtain ⟨origin, ⟨ahead, hahead, horigin⟩, hclean⟩ := h
  obtain ⟨rfl, hcleared⟩ := cleanPgasClaimRecords_ok hclean
  refine ⟨?_, hcleared⟩
  have hauthorized : ahead = .authorized := by
    cases hinfo : tx.asPgas with
    | none =>
      rw [hinfo] at horigin
      cases horigin
      rfl
    | some info =>
      rw [hinfo] at horigin
      obtain ⟨_, _, _, heq, -⟩ := validateClaim_ok horigin
      cases heq
  subst hauthorized
  unfold authorizeCall at hahead
  split at hahead
  · cases hahead
  · rw [hcall] at hahead
    simp only [authorizeCleanPgasClaimRecords, bind_eq_ok, ensure_eq_ok] at hahead
    obtain ⟨-, ⟨-, -, -, hday, -⟩, -⟩ := hahead
    exact hday

theorem submit_kept (h : submit c tx = .ok s') (hother : ∀ slot target, tx.call ≠ .claimPgas slot target) :
    Kept c { c with store := s' } := by
  cases hcall : tx.call with
  | claimPgas slot target => exact absurd hcall (hother slot target)
  | cleanPgasClaimRecords day first =>
    obtain ⟨hday, hcleared⟩ := submit_clean h hcall
    refine ⟨le_rfl, fun k hk => ?_⟩
    by_cases hk' : k.1 = day
    · exact .inr (hk' ▸ hday)
    · refine .inl ?_
      rw [hcleared, StorageMap.contains, StorageMap.get_clearPrefix_of_ne hk']
      exact hk
  | createPgasAsset =>
    simp only [submit, bind_eq_ok, mapError_eq_ok, hcall, dispatch] at h
    obtain ⟨origin, -, hcreate⟩ := h
    unfold createPgasAsset at hcreate
    split at hcreate
    · simp only [bind_eq_ok, okOr_eq_ok, pure_eq_ok] at hcreate
      obtain ⟨assets, -, rfl⟩ := hcreate
      exact ⟨le_rfl, fun k hk => .inl hk⟩
    · cases hcreate
  | other =>
    simp only [submit, bind_eq_ok, mapError_eq_ok, hcall, dispatch] at h
    obtain ⟨origin, -, heq⟩ := h
    cases heq
    exact ⟨le_rfl, fun k hk => .inl hk⟩

/-! ### The claims of a run -/

/-- The claims that were accepted. -/
def claims (V : IdealProver T.membershipProver) (_ : Chain T) (a : Action T) (_ : Chain T)
    (log : List (Claim V.Member)) : List (Claim V.Member) :=
  match a with
  | .submit tx =>
    match tx.asPgas, tx.call with
    | some info, .claimPgas slot _ => ⟨V.prover info.proof, info.collection, info.day, slot⟩ :: log
    | _, _ => log
  | _ => log

/-- An action claims, or keeps the records that matter. -/
theorem exec_ok (V : IdealProver T.membershipProver) (h : exec c a = .ok c') :
    (Kept c c' ∧ ∀ log, claims V c a c' log = log) ∨
      ∃ tx info slot target, a = .submit tx ∧ c'.now = c.now ∧ Claimed V c tx c'.store info slot target := by
  cases a with
  | elapse now =>
    simp only [exec, bind_eq_ok, ensure_eq_ok, pure_eq_ok] at h
    obtain ⟨-, hnow, rfl⟩ := h
    exact .inl ⟨⟨hnow, fun k hk => .inl hk⟩, fun _ => rfl⟩
  | elsewhere members assets =>
    cases h
    exact .inl ⟨⟨le_rfl, fun k hk => .inl hk⟩, fun _ => rfl⟩
  | submit tx =>
    simp only [exec, bind_eq_ok, pure_eq_ok] at h
    obtain ⟨s', hsubmit, rfl⟩ := h
    by_cases hcall : ∃ slot target, tx.call = .claimPgas slot target
    · obtain ⟨slot, target, hcall⟩ := hcall
      obtain ⟨info, hclaimed⟩ := submit_claim V hsubmit hcall
      exact .inr ⟨tx, info, slot, target, rfl, rfl, hclaimed⟩
    · push Not at hcall
      refine .inl ⟨submit_kept hsubmit hcall, fun log => ?_⟩
      rw [claims]
      split
      · rename_i slot target _ heq
        exact absurd heq (hcall slot target)
      · rfl

end Accepted

/-! ### The invariant -/

section Run
variable {V : IdealProver T.membershipProver} {c c' : Chain T} {a : Action T} {log : List (Claim V.Member)}

def Recorded (V : IdealProver T.membershipProver) (c : Chain T) (k : V.Member × Nat × Nat) : Prop :=
  c.store.claimedGasAliases.contains (recordOf V k) = true

/-- No claim is accepted for a day before the grace day. -/
def Past (V : IdealProver T.membershipProver) (c : Chain T) (k : V.Member × Nat × Nat) : Prop :=
  k.2.1 < graceDay c.now

/-- What is kept of a run's claims. -/
structure Journal (V : IdealProver T.membershipProver) (c : Chain T) (log : List (Claim V.Member)) : Prop where
  once : Once (Recorded V) (Past V) c (log.map Claim.key)
  limited : ∀ e ∈ log, e.slot < maxClaimsFor T e.collection ∧ V.Enrolled e.collection.identifier e.member

theorem Journal.kept (h : Journal V c log) (hkept : Kept c c') : Journal V c' log := by
  refine ⟨h.once.keep (fun k hk => hkept.records _ hk) fun k hk => ?_, h.limited⟩
  exact Nat.lt_of_lt_of_le hk (graceDay_mono hkept.now_le)

theorem Journal.claimed (h : Journal V c log) {tx : Transaction T} {info : AsPgasInfo T} {slot : Nat}
    {target : T.fungibles.AccountId} (hclaimed : Claimed V c tx c'.store info slot target)
    (hnow : c'.now = c.now) :
    Journal V c' (⟨V.prover info.proof, info.collection, info.day, slot⟩ :: log) := by
  have hrecords : ∀ k, Recorded V c' k ↔
      recordOf V k = recordOf V (V.prover info.proof, info.day, slot) ∨ Recorded V c k := by
    intro k
    rw [Recorded, Recorded, hclaimed.record, StorageMap.contains, StorageMap.get_insert]
    split
    · rename_i heq
      exact ⟨fun _ => .inl heq, fun _ => rfl⟩
    · rename_i hne
      exact ⟨.inr, fun hor => hor.resolve_left hne⟩
  refine ⟨?_, ?_⟩
  · refine h.once.use ?_ ?_ ((hrecords _).mpr (.inl rfl)) (fun k hk => .inl ((hrecords k).mpr (.inr hk))) ?_
    · intro hrecorded
      cases hrecorded.symm.trans hclaimed.fresh
    · have hgrace := graceDay_le_currentDay c.now
      have hday := hclaimed.day_eq
      show ¬info.day < graceDay c.now
      omega
    · intro k hk
      rw [Past, hnow]
      exact hk
  · intro e he
    rcases List.mem_cons.mp he with rfl | he
    · exact ⟨hclaimed.slot_lt, hclaimed.enrolled⟩
    · exact h.limited e he

theorem Journal.exec (h : Journal V c log) (hexec : Pgas.exec c a = .ok c') :
    Journal V c' (claims V c a c' log) := by
  rcases exec_ok V hexec with ⟨hkept, hlog⟩ | ⟨tx, info, slot, target, rfl, hnow, hclaimed⟩
  · rw [hlog]
    exact h.kept hkept
  · have hlog : claims V c (.submit tx) c' log =
        ⟨V.prover info.proof, info.collection, info.day, slot⟩ :: log := by
      simp only [claims, hclaimed.asPgas_eq, hclaimed.call_eq]
    rw [hlog]
    exact h.claimed hclaimed hnow

theorem run_journal {now : Nat} {w : T.membershipProver.World} {assets : T.fungibles.Ledger}
    {r : Chain T × List (Claim V.Member)}
    (h : Reaches (noting exec (claims V)) (fun _ _ => True) (genesis now w assets, []) r) :
    Journal V r.1 r.2 :=
  Reaches.noted (G := fun _ _ => True) (I := fun c log => Journal V c log) h ⟨Once.nil _, nofun⟩
    fun _ _ _ _ hj _ hexec => hj.exec hexec

/-- The claims of one member for one day, if all of them are below `n`. -/
theorem Journal.count_le [DecidableEq V.Member] (h : Journal V c log) (m : V.Member) (day : Nat) {n : Nat}
    (hn : ∀ e ∈ log, e.member = m → maxClaimsFor T e.collection ≤ n) :
    log.countP (fun e => e.member = m ∧ e.day = day) ≤ n := by
  refine countP_le_of_slots Claim.slot (fun e he hp => ?_) ?_
  · exact (h.limited e he).1.trans_le (hn e he (of_decide_eq_true hp).1)
  · refine (List.pairwise_map.mp h.once.nodup).imp fun {e e'} hne hp hp' hslot => hne ?_
    obtain ⟨hm, hd⟩ := of_decide_eq_true hp
    obtain ⟨hm', hd'⟩ := of_decide_eq_true hp'
    rw [Claim.key, Claim.key, hm, hm', hd, hd', hslot]

end Run

/-- In every run, the claims accepted for one day from one member are at most the limit of the
collection that the member is in, and at most the larger limit if it is in both. A claim mints
exactly its amount, for the target, and adds exactly one record. -/
theorem daily_limit (V : IdealProver T.membershipProver) [DecidableEq V.Member]
    (F : LawfulFungibles T.fungibles) {now : Nat} {w : T.membershipProver.World} {assets : T.fungibles.Ledger}
    {r : Chain T × List (Claim V.Member)}
    (h : Reaches (noting exec (claims V)) (fun _ _ => True) (genesis now w assets, []) r) :
    (∀ m day collection, (∀ other, V.Enrolled other.identifier m → other = collection) →
      r.2.countP (fun e => e.member = m ∧ e.day = day) ≤ maxClaimsFor T collection) ∧
    (∀ m day, r.2.countP (fun e => e.member = m ∧ e.day = day) ≤
      max (maxClaimsFor T .people) (maxClaimsFor T .litePeople)) ∧
    ∀ (c : Chain T) tx s' slot target, submit c tx = .ok s' → tx.call = .claimPgas slot target →
      F.balance s'.assets T.pgasAssetId target =
        F.balance c.store.assets T.pgasAssetId target + T.pgasClaimAmount ∧
      F.totalIssuance s'.assets T.pgasAssetId =
        F.totalIssuance c.store.assets T.pgasAssetId + T.pgasClaimAmount ∧
      (∀ other, other ≠ target → F.balance s'.assets T.pgasAssetId other =
        F.balance c.store.assets T.pgasAssetId other) ∧
      ∃ k, c.store.claimedGasAliases.get k = none ∧
        ∀ k', s'.claimedGasAliases.get k' = if k' = k then some () else c.store.claimedGasAliases.get k' := by
  have hj := run_journal h
  refine ⟨fun m day collection honly => hj.count_le m day fun e he hm => ?_,
    fun m day => hj.count_le m day fun e _ _ => ?_, ?_⟩
  · rw [honly e.collection (hm ▸ (hj.limited e he).2)]
  · cases e.collection with
    | people => exact le_max_left _ _
    | litePeople => exact le_max_right _ _
  · intro c tx s' slot target hsubmit hcall
    obtain ⟨info, hclaimed⟩ := submit_claim V hsubmit hcall
    obtain ⟨hbalance, hissuance, hothers⟩ := F.minted hclaimed.minted
    refine ⟨hbalance, hissuance, hothers, recordOf V (V.prover info.proof, info.day, slot), ?_, fun k' => ?_⟩
    · exact Option.isNone_iff_eq_none.mp (Option.isSome_eq_false_iff.mp hclaimed.fresh)
    · rw [hclaimed.record, StorageMap.get_insert]

/-! ### A sample run -/

/-- A ledger of one asset, which exists once it has been created. -/
def sampleFungibles : Fungibles where
  Ledger := Option (StorageMap Nat Nat)
  AssetId := Unit
  AccountId := Nat
  assetExists l _ := l.isSome
  create l _ _ _ _ := if l.isSome then none else some (some ∅)
  mintInto l _ who amount := l.map fun m => some (m.insert who ((m.get who).getD 0 + amount))

def sampleBalance (l : Option (StorageMap Nat Nat)) (who : Nat) : Nat := (l.bind fun m => m.get who).getD 0

def sampleIssuance (l : Option (StorageMap Nat Nat)) : Nat := l.elim 0 fun m => m.sumOf id

theorem sampleFungibles_minted {l l' : Option (StorageMap Nat Nat)} {asset : Unit} {who amount : Nat}
    (h : sampleFungibles.mintInto l asset who amount = some l') :
    sampleBalance l' who = sampleBalance l who + amount ∧ sampleIssuance l' = sampleIssuance l + amount ∧
      ∀ other, other ≠ who → sampleBalance l' other = sampleBalance l other := by
  obtain ⟨m, rfl, rfl⟩ := Option.map_eq_some_iff.mp h
  refine ⟨?_, ?_, fun other hother => ?_⟩
  · exact congrArg (·.getD 0) ((StorageMap.get_insert m who who _).trans (if_pos rfl))
  · have hsum := m.sumOf_insert id who ((m.get who).getD 0 + amount)
    simp only [StorageMap.measureAt, Option.map_id, id_eq] at hsum
    show (m.insert who _).sumOf id = m.sumOf id + amount
    omega
  · exact congrArg (·.getD 0) ((StorageMap.get_insert m who other _).trans (if_neg hother))

def sampleLedger : LawfulFungibles sampleFungibles where
  balance l _ who := sampleBalance l who
  totalIssuance l _ := sampleIssuance l
  minted := @sampleFungibles_minted

def sampleConfig : Config where
  membershipProver := Members.sampleProver
  fungibles := sampleFungibles
  pgasAssetId := ()
  pgasAdmin := (0 : Nat)
  pgasClaimAmount := 10
  pgasMinBalance := 1
  maxClaimsPerPeriodPerPerson := 2
  maxClaimsPerPeriodPerLitePerson := 1
  maxPgasClaimRecordCleanupPerCall := 5
  recordKey k := k.1
  pgasMinBalance_le := by decide
  maxClaims_le := by decide

/-- The claim of a member of the people. -/
def sampleClaim (member day slot : Nat) : Transaction sampleConfig where
  source := .external
  authorized := false
  asPgas := some ⟨(member, 0), 0, 0, .people, day⟩
  call := .claimPgas slot (7 : Nat)
  message := (0 : Nat)

/-- The asset is created, both slots of a day are claimed, and one of the next day. -/
def sampleActions : List (Action sampleConfig) :=
  [.submit ⟨.external, false, none, .createPgasAsset, (0 : Nat)⟩, .submit (sampleClaim 1 0 0),
    .submit (sampleClaim 1 0 1), .elapse 86400, .submit (sampleClaim 1 1 0)]

def sampleGenesis : Chain sampleConfig := genesis 0 (fun _ => [1]) none

theorem daily_limit_sample : ∃ r, Reaches (noting exec (claims Members.sampleIdeal)) (fun _ _ => True)
    (sampleGenesis, []) r ∧ r.2.length = 3 ∧
      ∀ m day, r.2.countP (fun e => e.member = m ∧ e.day = day) ≤ 2 := by
  obtain ⟨r, hreach, hlength⟩ := exists_reaches (noting exec (claims Members.sampleIdeal)) (fun _ _ => True)
    (sampleGenesis, []) sampleActions (fun r => r.2.length = 3) (by decide +kernel)
  have hlimit := (daily_limit (T := sampleConfig) Members.sampleIdeal sampleLedger hreach).2.1
  exact ⟨r, hreach, hlength, hlimit⟩

end Individuality.Pgas
