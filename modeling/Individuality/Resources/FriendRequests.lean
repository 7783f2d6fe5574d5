import Individuality.Resources.Effects
import Individuality.Support.SingleUse

/-! How many friend requests a member registers.

A registration is known by its member, its period and its sequence number. Its record
may be cleared when the retention is over, which need not be after the period has
stopped being accepted; and a sequence number may be as large as the number of slots.
Where requests stay below the slots and records outlive their periods (`Slotted`), no
registration is made twice, and a member makes as many as there are slots. -/
namespace Individuality.Resources
open Support
open Members (IdealProver)
variable {T : Config}

/-! ### Periods -/

theorem friendRequestPeriodFromTimestamp_mono (T : Config) {now now' : Nat} (h : now ≤ now') :
    friendRequestPeriodFromTimestamp T now ≤ friendRequestPeriodFromTimestamp T now' := by
  have hperiods := Nat.div_le_div_right (c := max T.friendRequestPeriodDuration 1) h
  rw [friendRequestPeriodFromTimestamp, friendRequestPeriodFromTimestamp, U32.saturatedFrom,
    U32.saturatedFrom]
  omega

/-- The oldest period that is accepted. -/
def oldestFriendRequestPeriod (T : Config) (now : Nat) : Nat :=
  friendRequestPeriodFromTimestamp T (now - T.friendRequestGraceWindow)

theorem oldestFriendRequestPeriod_mono (T : Config) {now now' : Nat} (h : now ≤ now') :
    oldestFriendRequestPeriod T now ≤ oldestFriendRequestPeriod T now' :=
  friendRequestPeriodFromTimestamp_mono T (Nat.sub_le_sub_right h _)

/-- The grace window is shorter than a period, so at most two periods are accepted. -/
theorem friendRequestPeriodFromTimestamp_le (T : Config) (now : Nat) :
    friendRequestPeriodFromTimestamp T now ≤ oldestFriendRequestPeriod T now + 1 := by
  have hgrace := T.friendRequestGraceWindow_lt
  have hpos := T.friendRequestPeriodDuration_pos
  have hduration : max T.friendRequestPeriodDuration 1 = T.friendRequestPeriodDuration := by omega
  have hperiods : now / T.friendRequestPeriodDuration ≤
      (now - T.friendRequestGraceWindow) / T.friendRequestPeriodDuration + 1 := by
    rw [← Nat.add_div_right _ hpos]
    exact Nat.div_le_div_right (by omega)
  rw [oldestFriendRequestPeriod, friendRequestPeriodFromTimestamp, friendRequestPeriodFromTimestamp, hduration,
    U32.saturatedFrom, U32.saturatedFrom]
  omega

theorem oldest_le_of_accepted {now period : Nat} (h : isAcceptedFriendRequestPeriod T now period = true) :
    oldestFriendRequestPeriod T now ≤ period ∧ period ≤ friendRequestPeriodFromTimestamp T now := by
  have hmono := friendRequestPeriodFromTimestamp_mono T (Nat.sub_le now T.friendRequestGraceWindow)
  rw [isAcceptedFriendRequestPeriod, Bool.or_eq_true, decide_eq_true_iff, decide_eq_true_iff] at h
  rcases h with rfl | rfl
  · exact ⟨hmono, le_rfl⟩
  · exact ⟨le_rfl, hmono⟩

/-- A period that has begun and is not accepted is past. -/
theorem lt_oldest_of_not_accepted {now period : Nat} (hbegun : period ≤ friendRequestPeriodFromTimestamp T now)
    (h : isAcceptedFriendRequestPeriod T now period = false) : period < oldestFriendRequestPeriod T now := by
  have hle := friendRequestPeriodFromTimestamp_le T now
  rw [isAcceptedFriendRequestPeriod, Bool.or_eq_false_iff, decide_eq_false_iff_not,
    decide_eq_false_iff_not] at h
  have hne : period ≠ oldestFriendRequestPeriod T now := h.2
  have hne' := h.1
  omega

/-! ### The registrations of a run -/

/-- A use of a slot, by its member. -/
structure SlotUse (M : Type) where
  member : M
  collection : MembershipCollection
  period : Nat
  seq : Nat

/-- What tells a use apart from others. -/
def SlotUse.key {M : Type} (e : SlotUse M) : M × Nat × Nat := (e.member, e.period, e.seq)

/-- The registrations that were accepted. -/
def friendRequests (V : IdealProver T.memberService) (_ : Chain T) (a : Action T) (_ : Chain T)
    (log : List (SlotUse V.Member)) : List (SlotUse V.Member) :=
  match a with
  | .submit tx =>
    match tx.call, tx.asResources.bind AsResourcesInfo.friendRequest? with
    | .setFriendRequestStatementAccountForSequence reference _, some (proof, collection) =>
      ⟨V.prover proof, collection, reference.period, reference.seq⟩ :: log
    | _, _ => log
  | _ => log

/-- A request is for one of the slots of its collection. -/
def withinSlots : Action T → Bool
  | .submit tx =>
    match tx.call, tx.asResources.bind AsResourcesInfo.friendRequest? with
    | .setFriendRequestStatementAccountForSequence reference _, some (_, collection) =>
      reference.seq < friendRequestSlots T collection
    | _, _ => true
  | _ => true

/-- A record is cleared when its period is no longer accepted. -/
def clearsLate (c : Chain T) : Action T → Bool
  | .submit tx =>
    match tx.call with
    | .clearExpiredFriendRequestSequence account _ =>
      (c.store.friendRequestAliasByAccount.get account).all fun requester =>
        (c.store.friendRequestRegistrationByAlias.get requester).all fun registration =>
          !isAcceptedFriendRequestPeriod T c.now registration.reference.period
    | _ => true
  | _ => true

def Slotted (c : Chain T) (a : Action T) : Prop := withinSlots a = true ∧ clearsLate c a = true

instance (c : Chain T) (a : Action T) : Decidable (Slotted c a) := inferInstanceAs (Decidable (_ ∧ _))

section Run
variable {V : IdealProver T.memberService} {c c' : Chain T} {a : Action T} {log : List (SlotUse V.Member)}

/-- The registration stands under the alias of its member in its context. -/
def Registered (V : IdealProver T.memberService) (c : Chain T) (k : V.Member × Nat × Nat) : Prop :=
  ∃ registration, c.store.friendRequestRegistrationByAlias.get
      (V.aliasIn k.1 (friendRequestContext ⟨k.2.1, k.2.2⟩)) = some registration ∧
    registration.reference = ⟨k.2.1, k.2.2⟩

def Lapsed (V : IdealProver T.memberService) (c : Chain T) (k : V.Member × Nat × Nat) : Prop :=
  k.2.1 < oldestFriendRequestPeriod T c.now

/-- What is kept of a run's registrations. -/
structure RequestJournal (V : IdealProver T.memberService) (c : Chain T) (log : List (SlotUse V.Member)) :
    Prop where
  once : Once (Registered V) (Lapsed V) c (log.map SlotUse.key)
  limited : ∀ e ∈ log, e.seq < friendRequestSlots T e.collection ∧ V.Enrolled e.collection.identifier e.member
  begun : ∀ x registration, c.store.friendRequestRegistrationByAlias.get x = some registration →
    registration.reference.period ≤ friendRequestPeriodFromTimestamp T c.now

theorem Lapsed.mono {k : V.Member × Nat × Nat} (h : Lapsed V c k) (hnow : c.now ≤ c'.now) : Lapsed V c' k :=
  Nat.lt_of_lt_of_le h (oldestFriendRequestPeriod_mono T hnow)

/-- Where the registrations stay as they are, so does the journal. -/
theorem RequestJournal.of_eq (h : RequestJournal V c log) (hnow : c.now ≤ c'.now)
    (heq : c'.store.friendRequestRegistrationByAlias = c.store.friendRequestRegistrationByAlias) :
    RequestJournal V c' log := by
  refine ⟨h.once.keep (fun k hk => .inl ?_) fun k hk => hk.mono hnow, h.limited, fun x registration hx => ?_⟩
  · rw [Registered, heq]
    exact hk
  · rw [heq] at hx
    exact (h.begun x registration hx).trans (friendRequestPeriodFromTimestamp_mono T hnow)

theorem RequestJournal.requested (h : RequestJournal V c log) (hnow : c'.now = c.now) {m : V.Member}
    {collection : MembershipCollection} {reference : FriendRequestReference} (account : T.AccountId)
    (hperiod : isAcceptedFriendRequestPeriod T c.now reference.period = true)
    (hseq : reference.seq < friendRequestSlots T collection) (henrolled : V.Enrolled collection.identifier m)
    (hfresh : c.store.friendRequestRegistrationByAlias.get
      (V.aliasIn m (friendRequestContext reference)) = none)
    (hstore : c'.store = c.store.request (V.aliasIn m (friendRequestContext reference)) reference account) :
    RequestJournal V c' (⟨m, collection, reference.period, reference.seq⟩ :: log) := by
  obtain ⟨holdest, hcurrent⟩ := oldest_le_of_accepted hperiod
  have hget : ∀ x, c'.store.friendRequestRegistrationByAlias.get x =
      if x = V.aliasIn m (friendRequestContext reference) then some ⟨account, reference⟩
      else c.store.friendRequestRegistrationByAlias.get x := by
    intro x
    rw [hstore]
    exact StorageMap.get_insert _ _ _ _
  refine ⟨?_, ?_, ?_⟩
  · refine h.once.use ?_ (Nat.not_lt.mpr holdest) ⟨⟨account, reference⟩, ?_, rfl⟩ ?_ fun k hk => hk.mono hnow.ge
    · rintro ⟨registration, hregistration, -⟩
      cases hfresh.symm.trans hregistration
    · rw [hget]
      exact if_pos rfl
    · rintro k ⟨registration, hregistration, href⟩
      refine .inl ⟨registration, ?_, href⟩
      rw [hget, if_neg, hregistration]
      intro heq
      rw [heq, hfresh] at hregistration
      cases hregistration
  · intro e he
    rcases List.mem_cons.mp he with rfl | he
    · exact ⟨hseq, henrolled⟩
    · exact h.limited e he
  · intro x registration hx
    rw [hnow]
    rw [hget] at hx
    split at hx
    · cases hx
      exact hcurrent
    · exact h.begun x registration hx

theorem RequestJournal.requestCleared (h : RequestJournal V c log) (hnow : c'.now = c.now)
    {account : T.AccountId} {requester : T.memberService.Alias} {registration : FriendRequestRegistration T}
    (hregistration : c.store.friendRequestRegistrationByAlias.get requester = some registration)
    (hover : isAcceptedFriendRequestPeriod T c.now registration.reference.period = false)
    (hstore : c'.store = c.store.clearRequest requester account) : RequestJournal V c' log := by
  have hpast := lt_oldest_of_not_accepted (h.begun _ _ hregistration) hover
  have hget : ∀ x, c'.store.friendRequestRegistrationByAlias.get x =
      if x = requester then none else c.store.friendRequestRegistrationByAlias.get x := by
    intro x
    rw [hstore]
    exact StorageMap.get_remove _ _ _
  refine ⟨h.once.keep ?_ fun k hk => hk.mono hnow.ge, h.limited, ?_⟩
  · rintro k ⟨registration', hregistration', href⟩
    by_cases heq : V.aliasIn k.1 (friendRequestContext ⟨k.2.1, k.2.2⟩) = requester
    · rw [heq, hregistration] at hregistration'
      cases hregistration'
      refine .inr ?_
      rw [Lapsed, hnow]
      rw [href] at hpast
      exact hpast
    · refine .inl ⟨registration', ?_, href⟩
      rw [hget, if_neg heq, hregistration']
  · intro x registration' hx
    rw [hnow]
    rw [hget] at hx
    split at hx
    · cases hx
    · exact h.begun x registration' hx

/-- An action that is no request adds none. -/
theorem friendRequests_of_call {tx : Transaction T}
    (h : ∀ reference account, tx.call ≠ .setFriendRequestStatementAccountForSequence reference account) :
    friendRequests V c (.submit tx) c' log = log := by
  rw [friendRequests]
  split
  · rename_i hcall _
    exact absurd hcall (h _ _)
  · rfl

theorem RequestJournal.effect (h : RequestJournal V c log) (hslotted : Slotted c a) (hnow : c'.now = c.now)
    (heffect : Effect c a c'.store) : RequestJournal V c' (friendRequests V c a c' log) := by
  obtain ⟨s', now', members'⟩ := c'
  cases hnow
  cases heffect with
  | enrolled hcall hnew howner hvalid hqueued =>
    obtain ⟨queues, reservations, rfl⟩ := hqueued.eq
    have hlog : ∀ d, friendRequests V c a d log = log := by
      intro d
      rcases hcall with rfl | ⟨tx, rfl, hcall⟩
      · rfl
      · exact friendRequests_of_call (by rw [hcall]; exact fun _ _ => nofun)
    rw [hlog]
    exact h.of_eq le_rfl rfl
  | upgraded hcall halias hinfo hfull hfreed =>
    obtain ⟨queues, reservations, rfl⟩ := hfreed.eq
    rw [friendRequests_of_call (by rw [hcall]; exact fun _ _ => nofun)]
    exact h.of_eq le_rfl rfl
  | @touched _ _ _ _ _ _ demoted hcall haccount hinfo hcredibility =>
    rw [friendRequests_of_call (by rw [hcall]; exact fun _ _ => nofun)]
    cases demoted <;> exact h.of_eq le_rfl rfl
  | @requested _ _ _ _ _ account hcall hinfo hproof hperiod hseq _ hshown hfresh hunused =>
    obtain ⟨rfl, henrolled⟩ := hshown.sound V
    have hbind := congrArg (Option.bind · AsResourcesInfo.friendRequest?) hinfo
    rw [Option.bind_some, hproof] at hbind
    have hwithin := hslotted.1
    rw [withinSlots, hcall, hbind] at hwithin
    rw [friendRequests, hcall, hbind]
    refine h.requested ?_ account hperiod (of_decide_eq_true hwithin) henrolled hfresh ?_
    · rfl
    · rfl
  | requestCleared hcall halias hregistration haccount hexpired =>
    rw [friendRequests_of_call (by rw [hcall]; exact fun _ _ => nofun)]
    have hlate := hslotted.2
    rw [clearsLate, hcall] at hlate
    dsimp only at hlate
    rw [halias, Option.all_some, hregistration, Option.all_some, Bool.not_eq_true'] at hlate
    exact h.requestCleared rfl hregistration hlate rfl
  | slotSet hcall hinfo hperiod hseq hshown hrevoked =>
    rw [friendRequests_of_call (by rw [hcall]; exact fun _ _ => nofun)]
    refine h.of_eq le_rfl ?_
    rcases hrevoked with ⟨-, rfl⟩ | ⟨entry, -, -, rfl⟩ <;> rfl
  | slotsCleared hcall hclearable =>
    rw [friendRequests_of_call (by rw [hcall]; exact fun _ _ => nofun)]
    refine h.of_eq le_rfl ?_
    obtain ⟨entries, reverse, granted, heq⟩ := foldl_drainEntry_eq _ c.store
    dsimp only
    rw [heq]
  | demoted hcall | unreserved hcall | keyed hcall | timed hcall | storageClaimed hcall
  | storageCleared hcall | nothing hcall =>
    rw [friendRequests_of_call (by rw [hcall]; exact fun _ _ => nofun)]
    exact h.of_eq le_rfl rfl

theorem RequestJournal.exec (h : RequestJournal V c log) (hslotted : Slotted c a)
    (hexec : Resources.exec c a = .ok c') : RequestJournal V c' (friendRequests V c a c' log) := by
  rcases exec_effect hexec with ⟨hstore, hnow, hother⟩ | ⟨hnow, heffect⟩
  · have hlog : friendRequests V c a c' log = log := by
      cases a with
      | submit tx => exact absurd rfl (hother tx)
      | _ => rfl
    rw [hlog]
    exact h.of_eq hnow (congrArg Store.friendRequestRegistrationByAlias hstore)
  · exact h.effect hslotted hnow heffect

theorem run_requests {now : Nat} {w : T.memberService.World} {r : Chain T × List (SlotUse V.Member)}
    (h : Reaches (noting exec (friendRequests V)) (fun r a => Slotted r.1 a) (genesis now w, []) r) :
    RequestJournal V r.1 r.2 :=
  Reaches.noted (G := Slotted) (I := fun c log => RequestJournal V c log) h ⟨Once.nil _, nofun, nofun⟩
    fun _ _ _ _ hj hslotted hexec => hj.exec hslotted hexec

/-- Some of the requests of one member for one period, if all of them are below `n`. -/
theorem RequestJournal.count_le (h : RequestJournal V c log) (m : V.Member) (period : Nat) {n : Nat}
    {p : SlotUse V.Member → Bool} (hp : ∀ e, p e = true → e.member = m ∧ e.period = period)
    (hn : ∀ e ∈ log, p e = true → friendRequestSlots T e.collection ≤ n) : log.countP p ≤ n := by
  refine countP_le_of_slots SlotUse.seq (fun e he hpe => ?_) ?_
  · exact (h.limited e he).1.trans_le (hn e he hpe)
  · refine (List.pairwise_map.mp h.once.nodup).imp fun {e e'} hne hpe hpe' hseq => hne ?_
    obtain ⟨hm, hperiod⟩ := hp e hpe
    obtain ⟨hm', hperiod'⟩ := hp e' hpe'
    rw [SlotUse.key, SlotUse.key, hm, hm', hperiod, hperiod', hseq]

theorem friendRequestSlots_le (T : Config) (collection : MembershipCollection) :
    friendRequestSlots T collection ≤ T.friendRequestSlotsPerPeriod := by
  cases collection with
  | people => exact le_rfl
  | litePeople => exact T.liteFriendRequestSlotsPerPeriod_le

end Run

/-- In a run whose requests are below the slots of their collection, and which clears no record of a
period that is still accepted, a member registers at most as many requests for a period as its
collection has slots, and no more than a person's if it is in both; cleared records count. -/
theorem friend_requests_limited (V : IdealProver T.memberService) [DecidableEq V.Member] {now : Nat}
    {w : T.memberService.World} {r : Chain T × List (SlotUse V.Member)}
    (h : Reaches (noting exec (friendRequests V)) (fun r a => Slotted r.1 a) (genesis now w, []) r) :
    (∀ m period collection,
      r.2.countP (fun e => e.member = m ∧ e.period = period ∧ e.collection = collection) ≤
        friendRequestSlots T collection) ∧
    (∀ m period collection, (∀ other, V.Enrolled other.identifier m → other = collection) →
      r.2.countP (fun e => e.member = m ∧ e.period = period) ≤ friendRequestSlots T collection) ∧
    ∀ m period, r.2.countP (fun e => e.member = m ∧ e.period = period) ≤ T.friendRequestSlotsPerPeriod := by
  have hj := run_requests h
  refine ⟨fun m period collection => ?_, fun m period collection honly => ?_, fun m period => ?_⟩
  · refine hj.count_le m period (fun e hp => ?_) fun e _ hp => ?_
    · exact ⟨(of_decide_eq_true hp).1, (of_decide_eq_true hp).2.1⟩
    · exact (congrArg (friendRequestSlots T) (of_decide_eq_true hp).2.2).le
  · refine hj.count_le m period (fun e hp => of_decide_eq_true hp) fun e he hp => ?_
    have henrolled := (hj.limited e he).2
    rw [(of_decide_eq_true hp).1] at henrolled
    rw [honly e.collection henrolled]
  · exact hj.count_le m period (fun e hp => of_decide_eq_true hp) fun e _ _ => friendRequestSlots_le T _

/-! ### Sample runs -/

def sampleMember : Members.sampleIdeal.Member := (1 : Nat)

/-- The member's request for a slot of the first period. -/
def sampleRequest (seq account : Nat) : Action sampleConfig :=
  .submit (sampleTransaction (some (.registerFriendRequestWithProof (1, 0) 0))
    (.setFriendRequestStatementAccountForSequence ⟨0, seq⟩ account))

/-- A request, which is cleared once its period is over and past its grace. -/
def sampleRequests : List (Action sampleConfig) :=
  [sampleRequest 0 (7 : Nat), .elapse 200,
    .submit (sampleTransaction none (.clearExpiredFriendRequestSequence (7 : Nat) 0))]

theorem friend_requests_limited_sample :
    ∃ r, Reaches (noting exec (friendRequests Members.sampleIdeal)) (fun r a => Slotted r.1 a)
      (sampleGenesis, []) r ∧ r.2.length = 1 ∧
        ∀ m period, r.2.countP (fun e => e.member = m ∧ e.period = period) ≤ 1 := by
  obtain ⟨r, hreach, hlength⟩ := exists_reaches (noting exec (friendRequests Members.sampleIdeal))
    (fun r a => Slotted r.1 a) (sampleGenesis, []) sampleRequests (fun r => r.2.length = 1)
    (by decide +kernel)
  exact ⟨r, hreach, hlength, (friend_requests_limited (T := sampleConfig) Members.sampleIdeal hreach).2.2⟩

/-- With one slot, a member makes two requests in the period: for the slot, and for the one that the
number of slots stands for. -/
theorem friend_requests_exceeded :
    ¬∀ (T : Config) (V : IdealProver T.memberService) (_ : DecidableEq V.Member) (now : Nat)
      (w : T.memberService.World) (r : Chain T × List (SlotUse V.Member)),
      Reaches (noting exec (friendRequests V)) (fun _ _ => True) (genesis now w, []) r →
        ∀ m period, r.2.countP (fun e => e.member = m ∧ e.period = period) ≤
          T.friendRequestSlotsPerPeriod := by
  intro hlimited
  obtain ⟨r, hreach, hcount⟩ := exists_reaches (noting exec (friendRequests Members.sampleIdeal))
    (fun _ _ => True) (sampleGenesis, []) [sampleRequest 0 (7 : Nat), sampleRequest 1 (8 : Nat)]
    (fun r => r.2.countP (fun e => e.member = sampleMember ∧ e.period = 0) = 2) (by decide +kernel)
  have hle := hlimited sampleConfig Members.sampleIdeal inferInstance 0 (fun _ => [1, 2]) r hreach sampleMember 0
  rw [hcount] at hle
  exact absurd hle (by decide)

end Individuality.Resources
