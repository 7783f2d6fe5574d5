import Individuality.Resources.FriendRequests

/-! Slots of the statement store, and claims of long-term storage.

A claim of long-term storage is known by its member, its period and its counter, and
its record is cleared when its period is past every acceptance, so no claim is made
twice (`Once`). An entry of the statement store is held under the alias of a member,
a period and a slot; it changes hands after a cooldown only, and is cleared when its
period is past. The clock stays in the range of the periods (`Ranged`). -/
namespace Individuality.Resources
open Support
open Members (IdealProver)
variable {T : Config}

/-! ### Contexts -/

theorem padded_fields {pad : UInt8} {start : List UInt8} {v w x x' y y' : Nat}
    (hlength : start.length + v + w ≤ 32) (hx : x < 256 ^ v) (hx' : x' < 256 ^ v) (hy : y < 256 ^ w)
    (hy' : y' < 256 ^ w)
    (h : (padded 32 pad (start ++ beBytes v x ++ beBytes w y) : Members.Context) =
      padded 32 pad (start ++ beBytes v x' ++ beBytes w y')) : x = x' ∧ y = y' := by
  have hbytes := padded_injective
    (by rw [List.length_append, List.length_append, length_beBytes, length_beBytes]; exact hlength)
    (by simp only [List.length_append, length_beBytes]) h
  obtain ⟨hstart, hcounter⟩ := List.append_inj hbytes
    (by simp only [List.length_append, length_beBytes])
  exact ⟨beBytes_injective hx hx' (List.append_cancel_left hstart), beBytes_injective hy hy' hcounter⟩

theorem zero_lt_length : 0 < 32 := by decide

theorem friendRequestContext_zero (reference : FriendRequestReference) :
    getElem (friendRequestContext reference) 0 zero_lt_length = 70 := getElem_padded _ _ _

theorem stmtStoreSlotContext_zero (period seq : Nat) :
    getElem (stmtStoreSlotContext period seq) 0 zero_lt_length = 83 := getElem_padded _ _ _

theorem longTermStorageContext_zero (period counter : Nat) :
    getElem (longTermStorageContext period counter) 0 zero_lt_length = 112 := getElem_padded _ _ _

theorem friendRequestContext_injective {p p' s s' : Nat} (hp : p ≤ U32.max) (hp' : p' ≤ U32.max)
    (hs : s < 256) (hs' : s' < 256) (h : friendRequestContext ⟨p, s⟩ = friendRequestContext ⟨p', s'⟩) :
    p = p' ∧ s = s' :=
  padded_fields (by decide) (Nat.lt_succ_of_le hp) (Nat.lt_succ_of_le hp') hs hs' h

theorem stmtStoreSlotContext_injective {p p' s s' : Nat} (hp : p ≤ U32.max) (hp' : p' ≤ U32.max)
    (hs : s ≤ U32.max) (hs' : s' ≤ U32.max) (h : stmtStoreSlotContext p s = stmtStoreSlotContext p' s') :
    p = p' ∧ s = s' :=
  padded_fields (by decide) (Nat.lt_succ_of_le hp) (Nat.lt_succ_of_le hp') (Nat.lt_succ_of_le hs)
    (Nat.lt_succ_of_le hs') h

theorem longTermStorageContext_injective {p p' s s' : Nat} (hp : p ≤ U32.max) (hp' : p' ≤ U32.max)
    (hs : s < 256) (hs' : s' < 256) (h : longTermStorageContext p s = longTermStorageContext p' s') :
    p = p' ∧ s = s' :=
  padded_fields (by decide) (Nat.lt_succ_of_le hp) (Nat.lt_succ_of_le hp') hs hs' h

theorem friendRequestContext_ne_stmtStoreSlotContext (reference : FriendRequestReference) (p s : Nat) :
    friendRequestContext reference ≠ stmtStoreSlotContext p s := by
  intro h
  have hzero := friendRequestContext_zero reference
  rw [h, stmtStoreSlotContext_zero] at hzero
  exact absurd hzero (by decide)

theorem friendRequestContext_ne_longTermStorageContext (reference : FriendRequestReference) (p s : Nat) :
    friendRequestContext reference ≠ longTermStorageContext p s := by
  intro h
  have hzero := friendRequestContext_zero reference
  rw [h, longTermStorageContext_zero] at hzero
  exact absurd hzero (by decide)

theorem stmtStoreSlotContext_ne_longTermStorageContext (p s p' s' : Nat) :
    stmtStoreSlotContext p s ≠ longTermStorageContext p' s' := by
  intro h
  have hzero := stmtStoreSlotContext_zero p s
  rw [h, longTermStorageContext_zero] at hzero
  exact absurd hzero (by decide)

/-! ### The clock -/

/-- The periods of the two resources fit in 32 bits. -/
def InRange (T : Config) (now : Nat) : Prop :=
  now / secondsPerDay < U32.max ∧ now / T.longTermStoragePeriodDuration < U32.max

instance (T : Config) (now : Nat) : Decidable (InRange T now) := inferInstanceAs (Decidable (_ ∧ _))

def Ranged : Action T → Prop
  | .elapse now => InRange T now
  | _ => True

instance : (a : Action T) → Decidable (Ranged a)
  | .elapse now => inferInstanceAs (Decidable (InRange T now))
  | .elsewhere _ => .isTrue trivial
  | .registrar .. => .isTrue trivial
  | .submit _ => .isTrue trivial

section Clock
variable {now now' : Nat}

theorem InRange.of_le (h : InRange T now') (hle : now ≤ now') : InRange T now :=
  ⟨(Nat.div_le_div_right hle).trans_lt h.1, (Nat.div_le_div_right hle).trans_lt h.2⟩

theorem InRange.le_max (h : InRange T now) : now ≤ U64.max := by
  have hday := h.1
  rw [secondsPerDay, U32.max, Nat.div_lt_iff_lt_mul (by decide)] at hday
  rw [U64.max]
  omega

theorem InRange.longTermStoragePeriod_eq (h : InRange T now) :
    longTermStoragePeriodFromTimestamp T now = now / T.longTermStoragePeriodDuration :=
  Nat.mod_eq_of_lt (h.2.trans (by decide))

theorem InRange.stmtStorePeriod_eq (h : InRange T now) :
    stmtStorePeriodFromTimestamp now = now / secondsPerDay := Nat.min_eq_left h.1.le

/-- The oldest period in which long-term storage is claimed. -/
def oldestLongTermStoragePeriod (T : Config) (now : Nat) : Nat :=
  (now - T.longTermStorageGraceWindow) / T.longTermStoragePeriodDuration

theorem oldestLongTermStoragePeriod_mono (h : now ≤ now') :
    oldestLongTermStoragePeriod T now ≤ oldestLongTermStoragePeriod T now' :=
  Nat.div_le_div_right (Nat.sub_le_sub_right h _)

theorem oldest_le_of_acceptedLongTermStoragePeriod {period : Nat} (hrange : InRange T now)
    (h : isAcceptedLongTermStoragePeriod T now period = true) :
    oldestLongTermStoragePeriod T now ≤ period := by
  rw [isAcceptedLongTermStoragePeriod, Bool.or_eq_true, decide_eq_true_iff, decide_eq_true_iff,
    hrange.longTermStoragePeriod_eq, (hrange.of_le (Nat.sub_le _ _)).longTermStoragePeriod_eq] at h
  rcases h with rfl | rfl
  · exact Nat.div_le_div_right (Nat.sub_le _ _)
  · exact le_rfl

/-- A sum that is passed before the end of the clock has not been cut off. -/
theorem lt_of_saturating_lt {a b d : Nat} (hnow : now ≤ U64.max)
    (h : U64.saturatingAdd (U64.saturatingMul a b) d < now) : a * b + d < now := by
  rw [U64.saturatingAdd, U64.saturatingMul] at h
  omega

/-- The records of a period are cleared when no claim in it is accepted any more. -/
theorem lt_oldest_of_clearable {period : Nat} (hrange : InRange T now)
    (h : isLongTermStoragePeriodClearable T now period = true) :
    period < oldestLongTermStoragePeriod T now := by
  have hend := lt_of_saturating_lt hrange.le_max (of_decide_eq_true h)
  have hperiods : period + 1 ≤ (now - T.longTermStorageGraceWindow) / T.longTermStoragePeriodDuration := by
    rw [Nat.le_div_iff_mul_le T.longTermStoragePeriodDuration_pos]
    omega
  exact hperiods

/-- The slots of a period are cleared when the period is over. -/
theorem lt_of_stmtStorePeriodClearable {period : Nat} (hrange : InRange T now)
    (h : isStmtStorePeriodClearable T now period = true) : period < stmtStorePeriodFromTimestamp now := by
  have hend := lt_of_saturating_lt hrange.le_max (of_decide_eq_true h)
  have hday := hrange.1
  rw [hrange.stmtStorePeriod_eq]
  rw [U32.saturatingAdd, secondsPerDay] at hend
  rw [secondsPerDay] at hday ⊢
  omega

end Clock

/-! ### Claims of long-term storage -/

/-- The claims that were accepted. -/
def storageClaims (V : IdealProver T.memberService) (a : Action T) (log : List (SlotUse V.Member)) :
    List (SlotUse V.Member) :=
  match a with
  | .submit tx =>
    match tx.call, tx.asResources with
    | .claimLongTermStorage period counter _, some (.claimLongTermStorage proof _ _ collection) =>
      ⟨V.prover proof, collection, period, counter⟩ :: log
    | _, _ => log
  | _ => log

/-- Where the record of a claim stands. -/
def spentKey (V : IdealProver T.memberService) (k : V.Member × Nat × Nat) : Nat × T.memberService.Alias :=
  (k.2.1, V.aliasIn k.1 (longTermStorageContext k.2.1 k.2.2))

section Claims
variable {V : IdealProver T.memberService} {c c' : Chain T} {a : Action T} {s' : Store T}
  {log : List (SlotUse V.Member)}

/-- What an action does to the spent aliases. -/
inductive Spending (V : IdealProver T.memberService) (c : Chain T) (a : Action T) (s' : Store T) : Prop
  | claim (e : SlotUse V.Member) (hlog : ∀ log, storageClaims V a log = e :: log)
      (hperiod : isAcceptedLongTermStoragePeriod T c.now e.period = true)
      (hcounter : e.seq < T.longTermStorageClaimsPerPeriod)
      (hfresh : c.store.spentLongTermStorageAliases.get (spentKey V e.key) = none)
      (hspent : s'.spentLongTermStorageAliases =
        c.store.spentLongTermStorageAliases.insert (spentKey V e.key) ())
  | clear (period limit : Nat) (hlog : ∀ log, storageClaims V a log = log)
      (hclearable : isLongTermStoragePeriodClearable T c.now period = true)
      (hspent : s'.spentLongTermStorageAliases =
        (c.store.spentLongTermStorageAliases.clearPrefix T.periodKey period limit).1)
  | nothing (hlog : ∀ log, storageClaims V a log = log)
      (hspent : s'.spentLongTermStorageAliases = c.store.spentLongTermStorageAliases)

/-- An action that is no claim adds none. -/
theorem storageClaims_of_call {tx : Transaction T}
    (h : ∀ period counter account, tx.call ≠ .claimLongTermStorage period counter account)
    (log : List (SlotUse V.Member)) : storageClaims V (.submit tx) log = log := by
  rw [storageClaims]
  split
  · rename_i hcall _
    exact absurd hcall (h _ _ _)
  · rfl

theorem Effect.spending (h : Effect c a s') : Spending V c a s' := by
  cases h with
  | enrolled hcall hnew howner hvalid hqueued =>
    obtain ⟨queues, reservations, rfl⟩ := hqueued.eq
    refine .nothing ?_ rfl
    rcases hcall with rfl | ⟨tx, rfl, hcall⟩
    · exact fun _ => rfl
    · exact storageClaims_of_call (by rw [hcall]; exact fun _ _ _ => nofun)
  | upgraded hcall halias hinfo hfull hfreed =>
    obtain ⟨queues, reservations, rfl⟩ := hfreed.eq
    exact .nothing (storageClaims_of_call (by rw [hcall]; exact fun _ _ _ => nofun)) rfl
  | @touched _ _ _ _ _ _ demoted hcall haccount hinfo hcredibility =>
    refine .nothing (storageClaims_of_call (by rw [hcall]; exact fun _ _ _ => nofun)) ?_
    cases demoted <;> rfl
  | slotSet hcall hinfo hperiod hseq hshown hrevoked =>
    refine .nothing (storageClaims_of_call (by rw [hcall]; exact fun _ _ _ => nofun)) ?_
    rcases hrevoked with ⟨-, rfl⟩ | ⟨entry, -, -, rfl⟩ <;> rfl
  | slotsCleared hcall hclearable =>
    refine .nothing (storageClaims_of_call (by rw [hcall]; exact fun _ _ _ => nofun)) ?_
    obtain ⟨entries, reverse, granted, heq⟩ := foldl_drainEntry_eq _ c.store
    rw [heq]
  | @storageClaimed _ proof _ _ period counter collection _ hcall hinfo hperiod hcounter _ hshown hfresh =>
    obtain rfl := hshown.sound V
    refine .claim ⟨V.prover proof, collection, period, counter⟩ (fun log => ?_) hperiod hcounter hfresh rfl
    simp only [storageClaims, hcall, hinfo]
  | storageCleared hcall hclearable =>
    exact .clear _ _ (storageClaims_of_call (by rw [hcall]; exact fun _ _ _ => nofun)) hclearable rfl
  | demoted hcall | unreserved hcall | keyed hcall | timed hcall | requested hcall | requestCleared hcall
  | nothing hcall =>
    exact .nothing (storageClaims_of_call (by rw [hcall]; exact fun _ _ _ => nofun)) rfl

def Spent (V : IdealProver T.memberService) (c : Chain T) (k : V.Member × Nat × Nat) : Prop :=
  c.store.spentLongTermStorageAliases.get (spentKey V k) = some ()

def Closed (V : IdealProver T.memberService) (c : Chain T) (k : V.Member × Nat × Nat) : Prop :=
  k.2.1 < oldestLongTermStoragePeriod T c.now

/-- What is kept of a run's claims. -/
structure StorageJournal (V : IdealProver T.memberService) (c : Chain T) (log : List (SlotUse V.Member)) :
    Prop where
  once : Once (Spent V) (Closed V) c (log.map SlotUse.key)
  limited : ∀ e ∈ log, e.seq < T.longTermStorageClaimsPerPeriod

theorem Closed.mono {k : V.Member × Nat × Nat} (h : Closed V c k) (hnow : c.now ≤ c'.now) : Closed V c' k :=
  Nat.lt_of_lt_of_le h (oldestLongTermStoragePeriod_mono hnow)

theorem StorageJournal.of_eq (h : StorageJournal V c log) (hnow : c.now ≤ c'.now)
    (heq : c'.store.spentLongTermStorageAliases = c.store.spentLongTermStorageAliases) :
    StorageJournal V c' log := by
  refine ⟨h.once.keep (fun k hk => .inl ?_) fun k hk => hk.mono hnow, h.limited⟩
  rw [Spent, heq]
  exact hk

theorem StorageJournal.spending (h : StorageJournal V c log) (hrange : InRange T c.now)
    (hnow : c'.now = c.now) (hspending : Spending V c a c'.store) :
    StorageJournal V c' (storageClaims V a log) := by
  cases hspending with
  | claim e hlog hperiod hcounter hfresh hspent =>
    rw [hlog]
    refine ⟨h.once.use (k := e.key) ?_ ?_ ?_ ?_ fun k hk => hk.mono hnow.ge, ?_⟩
    · exact fun hspent => by cases hfresh.symm.trans hspent
    · exact Nat.not_lt.mpr (oldest_le_of_acceptedLongTermStoragePeriod hrange hperiod)
    · rw [Spent, hspent]
      exact (StorageMap.get_insert _ _ _ _).trans (if_pos rfl)
    · intro k hk
      refine .inl ?_
      rw [Spent, hspent, StorageMap.get_insert]
      split
      · rfl
      · exact hk
    · intro e' he'
      rcases List.mem_cons.mp he' with rfl | he'
      · exact hcounter
      · exact h.limited e' he'
  | clear period limit hlog hclearable hspent =>
    rw [hlog]
    refine ⟨h.once.keep (fun k hk => ?_) fun k hk => hk.mono hnow.ge, h.limited⟩
    by_cases hk' : k.2.1 = period
    · refine .inr ?_
      rw [Closed, hnow, hk']
      exact lt_oldest_of_clearable hrange hclearable
    · refine .inl ?_
      rw [Spent, hspent, StorageMap.get_clearPrefix_of_ne (k := spentKey V k) hk']
      exact hk
  | nothing hlog hspent =>
    rw [hlog]
    exact h.of_eq hnow.ge hspent

end Claims

/-! ### Slots of the statement store -/

/-- A slot that was set, and when. -/
structure SlotSet (M : Type) extends SlotUse M where
  time : Nat

/-- The slots that were set. -/
def slotSets (V : IdealProver T.memberService) (c : Chain T) (a : Action T) (log : List (SlotSet V.Member)) :
    List (SlotSet V.Member) :=
  match a with
  | .submit tx =>
    match tx.call, tx.asResources with
    | .setStatementStoreAccount period seq _, some (.registerStatementStoreAllowance proof _ collection) =>
      ⟨⟨V.prover proof, collection, period, seq⟩, c.now⟩ :: log
    | _, _ => log
  | _ => log

/-- Where the entry of a slot stands. -/
def slotKey (V : IdealProver T.memberService) (k : V.Member × Nat × Nat) : Nat × T.memberService.Alias :=
  (k.2.1, V.aliasIn k.1 (stmtStoreSlotContext k.2.1 k.2.2))

section Sets
variable {V : IdealProver T.memberService} {c c' : Chain T} {a : Action T} {s' : Store T}
  {log : List (SlotSet V.Member)}

/-- What an action does to the entries of the statement store. -/
inductive Slotting (V : IdealProver T.memberService) (c : Chain T) (a : Action T) (s' : Store T) : Prop
  | set (e : SlotUse V.Member) (target : T.AccountId) (hlog : ∀ log, slotSets V c a log = ⟨e, c.now⟩ :: log)
      (hperiod : e.period = stmtStorePeriodFromTimestamp c.now) (hseq : e.seq < stmtStoreSlots T e.collection)
      (henrolled : V.Enrolled e.collection.identifier e.member)
      (hcooldown : ∀ entry, c.store.statementStoreAllowances.get (slotKey V e.key) = some entry →
        U64.saturatingAdd entry.since T.stmtStoreReplacementCooldown < c.now)
      (hset : s'.statementStoreAllowances =
        c.store.statementStoreAllowances.insert (slotKey V e.key) ⟨target, e.seq, c.now⟩)
  | clear (period : Nat) (hlog : ∀ log, slotSets V c a log = log)
      (hclearable : isStmtStorePeriodClearable T c.now period = true)
      (hkept : ∀ k entry, s'.statementStoreAllowances.get k = some entry →
        c.store.statementStoreAllowances.get k = some entry)
      (hother : ∀ k, k.1 ≠ period →
        s'.statementStoreAllowances.get k = c.store.statementStoreAllowances.get k)
  | nothing (hlog : ∀ log, slotSets V c a log = log)
      (heq : s'.statementStoreAllowances = c.store.statementStoreAllowances)

theorem get_drainEntry (s : Store T) (k k' : Nat × T.memberService.Alias) :
    (drainEntry s k).statementStoreAllowances.get k' =
      if k' = k then none else s.statementStoreAllowances.get k' := by
  unfold drainEntry
  split
  · exact StorageMap.get_remove _ _ _
  · rename_i hnone
    split
    · rename_i heq
      rw [heq, hnone]
    · rfl

theorem get_foldl_drainEntry (l : List (Nat × T.memberService.Alias)) (s : Store T)
    (k : Nat × T.memberService.Alias) :
    (l.foldl drainEntry s).statementStoreAllowances.get k =
      if k ∈ l then none else s.statementStoreAllowances.get k := by
  induction l generalizing s with
  | nil => exact (if_neg List.not_mem_nil).symm
  | cons k' l ih =>
    rw [List.foldl_cons, ih, get_drainEntry]
    by_cases hk : k = k'
    · rw [if_pos hk, ite_self, if_pos (List.mem_cons.mpr (.inl hk))]
    · rw [if_neg hk]
      simp only [List.mem_cons, hk, false_or]

/-- An action that sets no slot adds none. -/
theorem slotSets_of_call {tx : Transaction T}
    (h : ∀ period seq target, tx.call ≠ .setStatementStoreAccount period seq target)
    (log : List (SlotSet V.Member)) : slotSets V c (.submit tx) log = log := by
  rw [slotSets]
  split
  · rename_i hcall _
    exact absurd hcall (h _ _ _)
  · rfl

theorem Effect.slotting (h : Effect c a s') : Slotting V c a s' := by
  cases h with
  | enrolled hcall hnew howner hvalid hqueued =>
    obtain ⟨queues, reservations, rfl⟩ := hqueued.eq
    refine .nothing ?_ rfl
    rcases hcall with rfl | ⟨tx, rfl, hcall⟩
    · exact fun _ => rfl
    · exact slotSets_of_call (by rw [hcall]; exact fun _ _ _ h => (by cases h))
  | upgraded hcall halias hinfo hfull hfreed =>
    obtain ⟨queues, reservations, rfl⟩ := hfreed.eq
    exact .nothing (slotSets_of_call (by rw [hcall]; exact fun _ _ _ h => (by cases h))) rfl
  | @touched _ _ _ _ _ _ demoted hcall haccount hinfo hcredibility =>
    refine .nothing (slotSets_of_call (by rw [hcall]; exact fun _ _ _ h => (by cases h))) ?_
    cases demoted <;> rfl
  | @slotSet _ proof _ period seq collection target _ hcall hinfo hperiod hseq _ hshown hrevoked =>
    obtain ⟨rfl, henrolled⟩ := hshown.sound V
    refine .set ⟨V.prover proof, collection, period, seq⟩ target (fun log => ?_) hperiod hseq henrolled ?_ ?_
    · simp only [slotSets, hcall, hinfo]
    · intro entry hentry
      rcases hrevoked with ⟨hnone, -⟩ | ⟨entry', hentry', hcooldown, -⟩
      · cases hnone.symm.trans hentry
      · cases hentry'.symm.trans hentry
        exact hcooldown
    · rcases hrevoked with ⟨-, rfl⟩ | ⟨entry, -, -, rfl⟩ <;> rfl
  | @slotsCleared _ period _ hcall hclearable =>
    refine .clear period (slotSets_of_call (by rw [hcall]; exact fun _ _ _ h => (by cases h))) hclearable
      (fun k entry hk => ?_) fun k hk => ?_
    · rw [get_foldl_drainEntry] at hk
      split at hk
      · cases hk
      · exact hk
    · rw [get_foldl_drainEntry, if_neg]
      exact fun hmem => hk (StorageMap.mem_prefixKeys.mp (List.mem_of_mem_take hmem)).2
  | demoted hcall | unreserved hcall | keyed hcall | timed hcall | requested hcall | requestCleared hcall
  | storageClaimed hcall | storageCleared hcall | nothing hcall =>
    exact .nothing (slotSets_of_call (by rw [hcall]; exact fun _ _ _ h => (by cases h))) rfl

/-- An entry is held by an enrolled member, in a slot of its collection. -/
def Held (V : IdealProver T.memberService) (k : Nat × T.memberService.Alias) (entry : StmtStoreAllowanceEntry T) :
    Prop :=
  ∃ m collection, k = slotKey V (m, k.1, entry.seq) ∧ entry.seq < stmtStoreSlots T collection ∧
    V.Enrolled collection.identifier m

/-- A slot that was set has an entry since then, or its period is over. -/
def Standing (V : IdealProver T.memberService) (c : Chain T) (e : SlotSet V.Member) : Prop :=
  (∃ entry, c.store.statementStoreAllowances.get (slotKey V e.key) = some entry ∧ e.time ≤ entry.since) ∨
    e.period < stmtStorePeriodFromTimestamp c.now

/-- What is kept of a run's slots. -/
structure SlotJournal (V : IdealProver T.memberService) (c : Chain T) (log : List (SlotSet V.Member)) :
    Prop where
  held : ∀ k entry, c.store.statementStoreAllowances.get k = some entry → Held V k entry
  standing : ∀ e ∈ log, Standing V c e ∧ e.time ≤ c.now
  cooled : log.Pairwise fun later earlier => later.key = earlier.key →
    earlier.time + T.stmtStoreReplacementCooldown < later.time

theorem stmtStorePeriodFromTimestamp_mono {now now' : Nat} (h : now ≤ now') :
    stmtStorePeriodFromTimestamp now ≤ stmtStorePeriodFromTimestamp now' := by
  have hdays := Nat.div_le_div_right (c := secondsPerDay) h
  rw [stmtStorePeriodFromTimestamp, stmtStorePeriodFromTimestamp, U32.saturatedFrom, U32.saturatedFrom]
  omega

theorem Standing.mono {e : SlotSet V.Member} (h : Standing V c e) (hnow : c.now ≤ c'.now)
    (hkept : ∀ entry, c.store.statementStoreAllowances.get (slotKey V e.key) = some entry →
      (∃ entry', c'.store.statementStoreAllowances.get (slotKey V e.key) = some entry' ∧
        entry.since ≤ entry'.since) ∨ e.period < stmtStorePeriodFromTimestamp c'.now) : Standing V c' e := by
  rcases h with ⟨entry, hentry, htime⟩ | hover
  · rcases hkept entry hentry with ⟨entry', hentry', hsince⟩ | hover
    · exact .inl ⟨entry', hentry', htime.trans hsince⟩
    · exact .inr hover
  · exact .inr (hover.trans_le (stmtStorePeriodFromTimestamp_mono hnow))

theorem SlotJournal.of_eq (h : SlotJournal V c log) (hnow : c.now ≤ c'.now)
    (heq : c'.store.statementStoreAllowances = c.store.statementStoreAllowances) : SlotJournal V c' log := by
  refine ⟨?_, fun e he => ⟨(h.standing e he).1.mono hnow fun entry hentry => .inl ⟨entry, ?_, le_rfl⟩,
    (h.standing e he).2.trans hnow⟩, h.cooled⟩
  · rw [heq]
    exact h.held
  · rw [heq]
    exact hentry

theorem SlotJournal.set (h : SlotJournal V c log) (hrange : InRange T c.now) (hnow : c'.now = c.now)
    (e : SlotUse V.Member) (target : T.AccountId) (hperiod : e.period = stmtStorePeriodFromTimestamp c.now)
    (hseq : e.seq < stmtStoreSlots T e.collection) (henrolled : V.Enrolled e.collection.identifier e.member)
    (hcooldown : ∀ entry, c.store.statementStoreAllowances.get (slotKey V e.key) = some entry →
      U64.saturatingAdd entry.since T.stmtStoreReplacementCooldown < c.now)
    (hset : c'.store.statementStoreAllowances =
      c.store.statementStoreAllowances.insert (slotKey V e.key) ⟨target, e.seq, c.now⟩) :
    SlotJournal V c' (⟨e, c.now⟩ :: log) := by
  have hmax := hrange.le_max
  have hget : ∀ k, c'.store.statementStoreAllowances.get k =
      if k = slotKey V e.key then some ⟨target, e.seq, c.now⟩ else c.store.statementStoreAllowances.get k := by
    intro k
    rw [hset]
    exact StorageMap.get_insert _ _ _ _
  have hself : c'.store.statementStoreAllowances.get (slotKey V e.key) = some ⟨target, e.seq, c.now⟩ :=
    (hget _).trans (if_pos rfl)
  refine ⟨fun k entry hk => ?_, fun e' he' => ?_, ?_⟩
  · rw [hget] at hk
    split at hk
    · rename_i heq
      cases hk
      exact ⟨e.member, e.collection, by rw [heq]; rfl, hseq, henrolled⟩
    · exact h.held k entry hk
  · rcases List.mem_cons.mp he' with rfl | he'
    · exact ⟨.inl ⟨_, hself, le_rfl⟩, hnow.ge⟩
    · obtain ⟨hstanding, htime⟩ := h.standing e' he'
      refine ⟨?_, htime.trans hnow.ge⟩
      by_cases hkey : slotKey V e'.key = slotKey V e.key
      · exact .inl ⟨_, by rw [hkey]; exact hself, htime⟩
      · refine hstanding.mono hnow.ge fun entry hentry => .inl ⟨entry, ?_, le_rfl⟩
        rw [hget, if_neg hkey]
        exact hentry
  · refine List.pairwise_cons.mpr ⟨fun e' he' hkey => ?_, h.cooled⟩
    -- the earlier entry is still there, since its period is the current one
    have hsame : e'.key = e.key := hkey.symm
    have hperiods : e'.period = e.period := congrArg (fun k => k.2.1) hsame
    rcases (h.standing e' he').1 with ⟨entry, hentry, htime⟩ | hover
    · rw [hsame] at hentry
      have hcooled := hcooldown entry hentry
      rw [U64.saturatingAdd] at hcooled
      show e'.time + T.stmtStoreReplacementCooldown < c.now
      omega
    · omega

theorem SlotJournal.cleared (h : SlotJournal V c log) (hrange : InRange T c.now) (hnow : c'.now = c.now)
    {period : Nat} (hclearable : isStmtStorePeriodClearable T c.now period = true)
    (hkept : ∀ k entry, c'.store.statementStoreAllowances.get k = some entry →
      c.store.statementStoreAllowances.get k = some entry)
    (hother : ∀ k, k.1 ≠ period →
      c'.store.statementStoreAllowances.get k = c.store.statementStoreAllowances.get k) :
    SlotJournal V c' log := by
  have hover := lt_of_stmtStorePeriodClearable hrange hclearable
  refine ⟨fun k entry hk => h.held k entry (hkept k entry hk), fun e he =>
    ⟨(h.standing e he).1.mono hnow.ge fun entry hentry => ?_, (h.standing e he).2.trans hnow.ge⟩, h.cooled⟩
  by_cases hk : e.period = period
  · refine .inr ?_
    rw [hnow, hk]
    exact hover
  · refine .inl ⟨entry, ?_, le_rfl⟩
    rw [hother _ hk]
    exact hentry

theorem SlotJournal.slotting (h : SlotJournal V c log) (hrange : InRange T c.now) (hnow : c'.now = c.now)
    (hslotting : Slotting V c a c'.store) : SlotJournal V c' (slotSets V c a log) := by
  cases hslotting with
  | set e target hlog hperiod hseq henrolled hcooldown hset =>
    rw [hlog]
    exact h.set hrange hnow e target hperiod hseq henrolled hcooldown hset
  | clear period hlog hclearable hkept hother =>
    rw [hlog]
    exact h.cleared hrange hnow hclearable hkept hother
  | nothing hlog heq =>
    rw [hlog]
    exact h.of_eq hnow.ge heq

/-- The entries that one member holds in a period. -/
def heldBy (V : IdealProver T.memberService) (m : V.Member) (period : Nat) (k : Nat × T.memberService.Alias)
    (entry : StmtStoreAllowanceEntry T) : Bool := k = slotKey V (m, period, entry.seq)

/-- A member's entries in a period are in different slots. -/
theorem SlotJournal.countOf_le (h : SlotJournal V c log) (hV : V.Injective) (m : V.Member) (period : Nat)
    {n : Nat} (hn : ∀ collection, V.Enrolled collection.identifier m → stmtStoreSlots T collection ≤ n) :
    c.store.statementStoreAllowances.countOf (heldBy V m period) ≤ n := by
  refine StorageMap.countOf_le_of_slots (fun _ entry => entry.seq) (fun k entry hk hp => ?_) ?_
  · obtain ⟨m', collection, heq, hseq, henrolled⟩ := h.held k entry hk
    have halias := congrArg Prod.snd (heq.symm.trans (of_decide_eq_true hp))
    obtain ⟨rfl, -⟩ := hV _ _ _ _ halias
    exact hseq.trans_le (hn collection henrolled)
  · intro k k' entry entry' _ _ hp hp' hseq
    rw [of_decide_eq_true hp, of_decide_eq_true hp', hseq]

end Sets

/-! ### Runs -/

/-- The claims and the slots of a run. -/
def slotUses (V : IdealProver T.memberService) (c : Chain T) (a : Action T) (_ : Chain T)
    (log : List (SlotUse V.Member) × List (SlotSet V.Member)) :
    List (SlotUse V.Member) × List (SlotSet V.Member) :=
  (storageClaims V a log.1, slotSets V c a log.2)

section Run
variable {V : IdealProver T.memberService} {c c' : Chain T} {a : Action T}
  {log : List (SlotUse V.Member) × List (SlotSet V.Member)}

structure SlotJournals (V : IdealProver T.memberService) (c : Chain T)
    (log : List (SlotUse V.Member) × List (SlotSet V.Member)) : Prop where
  inRange : InRange T c.now
  storage : StorageJournal V c log.1
  slots : SlotJournal V c log.2

theorem exec_inRange (h : InRange T c.now) (hranged : Ranged a) (hexec : exec c a = .ok c') :
    InRange T c'.now := by
  cases a with
  | elapse now =>
    simp only [exec, bind_eq_ok, ensure_eq_ok, pure_eq_ok] at hexec
    obtain ⟨-, -, rfl⟩ := hexec
    exact hranged
  | elsewhere members =>
    cases hexec
    exact h
  | registrar account key username reserved =>
    simp only [exec, bind_eq_ok, pure_eq_ok] at hexec
    obtain ⟨s', -, rfl⟩ := hexec
    exact h
  | submit tx =>
    simp only [exec, bind_eq_ok, pure_eq_ok] at hexec
    obtain ⟨s', -, rfl⟩ := hexec
    exact h

theorem SlotJournals.exec (h : SlotJournals V c log) (hranged : Ranged a)
    (hexec : Resources.exec c a = .ok c') : SlotJournals V c' (slotUses V c a c' log) := by
  refine ⟨exec_inRange h.inRange hranged hexec, ?_, ?_⟩
  · rcases exec_effect hexec with ⟨hstore, hnow, hother⟩ | ⟨hnow, heffect⟩
    · have hlog : storageClaims V a log.1 = log.1 := by
        cases a with
        | submit tx => exact absurd rfl (hother tx)
        | _ => rfl
      rw [slotUses, hlog]
      exact h.storage.of_eq hnow (congrArg Store.spentLongTermStorageAliases hstore)
    · exact h.storage.spending h.inRange hnow heffect.spending
  · rcases exec_effect hexec with ⟨hstore, hnow, hother⟩ | ⟨hnow, heffect⟩
    · have hlog : slotSets V c a log.2 = log.2 := by
        cases a with
        | submit tx => exact absurd rfl (hother tx)
        | _ => rfl
      rw [slotUses, hlog]
      exact h.slots.of_eq hnow (congrArg Store.statementStoreAllowances hstore)
    · exact h.slots.slotting h.inRange hnow heffect.slotting

theorem run_slots {now : Nat} {w : T.memberService.World}
    {r : Chain T × List (SlotUse V.Member) × List (SlotSet V.Member)} (hnow : InRange T now)
    (h : Reaches (noting exec (slotUses V)) (fun _ a => Ranged a) (genesis now w, [], []) r) :
    SlotJournals V r.1 r.2 :=
  Reaches.noted (G := fun _ a => Ranged a) (I := fun c log => SlotJournals V c log) h
    ⟨hnow, ⟨Once.nil _, nofun⟩, ⟨nofun, nofun, .nil⟩⟩ fun _ _ _ _ hj hranged hexec => hj.exec hranged hexec

end Run

/-- No two resources share a context, and no two slots of one resource. -/
structure DistinctContexts : Prop where
  friendRequest : ∀ p s p' s', p ≤ U32.max → p' ≤ U32.max → s < 256 → s' < 256 →
    friendRequestContext ⟨p, s⟩ = friendRequestContext ⟨p', s'⟩ → p = p' ∧ s = s'
  stmtStoreSlot : ∀ p s p' s', p ≤ U32.max → p' ≤ U32.max → s ≤ U32.max → s' ≤ U32.max →
    stmtStoreSlotContext p s = stmtStoreSlotContext p' s' → p = p' ∧ s = s'
  longTermStorage : ∀ p s p' s', p ≤ U32.max → p' ≤ U32.max → s < 256 → s' < 256 →
    longTermStorageContext p s = longTermStorageContext p' s' → p = p' ∧ s = s'
  across : ∀ reference p s p' s', friendRequestContext reference ≠ stmtStoreSlotContext p s ∧
    friendRequestContext reference ≠ longTermStorageContext p s ∧
    stmtStoreSlotContext p s ≠ longTermStorageContext p' s'

/-- In every run within the range of the periods, a member makes at most the claims of long-term
storage that a period has, cleared ones included; the entries that it holds in a period are at most
the slots of its collection, and every entry is held by a member in a slot of its own; a slot is set
again only after the cooldown; and the contexts are all different. -/
theorem slots_bounded (V : IdealProver T.memberService) (hV : V.Injective) [DecidableEq V.Member] {now : Nat}
    {w : T.memberService.World} {r : Chain T × List (SlotUse V.Member) × List (SlotSet V.Member)}
    (hnow : InRange T now)
    (h : Reaches (noting exec (slotUses V)) (fun _ a => Ranged a) (genesis now w, [], []) r) :
    (∀ m period, r.2.1.countP (fun e => e.member = m ∧ e.period = period) ≤
      T.longTermStorageClaimsPerPeriod) ∧
    (∀ k entry, r.1.store.statementStoreAllowances.get k = some entry → Held V k entry) ∧
    (∀ m period collection, (∀ other, V.Enrolled other.identifier m → other = collection) →
      r.1.store.statementStoreAllowances.countOf (heldBy V m period) ≤ stmtStoreSlots T collection) ∧
    (∀ m period,
      r.1.store.statementStoreAllowances.countOf (heldBy V m period) ≤ T.stmtStoreSlotsPerPeriod) ∧
    r.2.2.Pairwise (fun later earlier => later.key = earlier.key →
      earlier.time + T.stmtStoreReplacementCooldown < later.time) ∧
    DistinctContexts := by
  have hj := run_slots hnow h
  refine ⟨fun m period => ?_, hj.slots.held, fun m period collection honly => ?_, fun m period => ?_,
    hj.slots.cooled, ?_⟩
  · refine countP_le_of_slots SlotUse.seq (fun e he _ => hj.storage.limited e he) ?_
    refine (List.pairwise_map.mp hj.storage.once.nodup).imp fun {e e'} hne hp hp' hseq => hne ?_
    obtain ⟨hm, hperiod⟩ := of_decide_eq_true hp
    obtain ⟨hm', hperiod'⟩ := of_decide_eq_true hp'
    rw [SlotUse.key, SlotUse.key, hm, hm', hperiod, hperiod', hseq]
  · exact hj.slots.countOf_le hV m period fun other henrolled => by rw [honly other henrolled]
  · refine hj.slots.countOf_le hV m period fun collection _ => ?_
    cases collection with
    | people => exact le_rfl
    | litePeople => exact T.liteStmtStoreSlotsPerPeriod_le
  · exact ⟨fun _ _ _ _ => friendRequestContext_injective, fun _ _ _ _ => stmtStoreSlotContext_injective,
      fun _ _ _ _ => longTermStorageContext_injective, fun reference p s p' s' =>
        ⟨friendRequestContext_ne_stmtStoreSlotContext reference p s,
          friendRequestContext_ne_longTermStorageContext reference p s,
          stmtStoreSlotContext_ne_longTermStorageContext p s p' s'⟩⟩

/-- A slot is set, replaced after the cooldown, and cleared; storage is claimed and cleared. -/
def sampleSlotUses : List (Action sampleConfig) :=
  [sampleSet 0 (7 : Nat), sampleSet 1 (7 : Nat), .elapse 20, sampleSet 0 (8 : Nat), sampleClaim 0, sampleClaim 1,
    .elapse 86406, .submit (sampleTransaction none (.clearExpiredLongTermStorageAliases 0 5))]
where
  sampleSet (seq account : Nat) : Action sampleConfig :=
    .submit (sampleTransaction (some (.registerStatementStoreAllowance (1, 0) 0 .people))
      (.setStatementStoreAccount 0 seq account))
  sampleClaim (counter : Nat) : Action sampleConfig :=
    .submit (sampleTransaction (some (.claimLongTermStorage (1, 0) 0 0 .people))
      (.claimLongTermStorage 0 counter (7 : Nat)))

theorem slots_bounded_sample : ∃ r, Reaches (noting exec (slotUses Members.sampleIdeal))
    (fun _ a => Ranged a) (sampleGenesis, [], []) r ∧ (r.2.1.length = 2 ∧ r.2.2.length = 3) ∧
      (∀ m period, r.2.1.countP (fun e => e.member = m ∧ e.period = period) ≤ 2) ∧
      ∀ m period, r.1.store.statementStoreAllowances.countOf (heldBy Members.sampleIdeal m period) ≤ 2 := by
  obtain ⟨r, hreach, hlength⟩ := exists_reaches (noting exec (slotUses Members.sampleIdeal))
    (fun _ a => Ranged a) (sampleGenesis, [], []) sampleSlotUses
    (fun r => r.2.1.length = 2 ∧ r.2.2.length = 3) (by decide +kernel)
  obtain ⟨hclaims, -, -, hslots, -⟩ := slots_bounded (T := sampleConfig) Members.sampleIdeal
    Members.sampleIdeal_injective (by decide) hreach
  exact ⟨r, hreach, hlength, hclaims, hslots⟩

end Individuality.Resources
