import Individuality.Airdrop.Lifecycle

/-! Whole runs of the airdrop pallet.

The other users of the ledger do not touch the holds of the pallet (`Aside`). A run's
payments are noted for each event since it was scheduled: a claim takes the winner
away, and no winner is added once claiming has begun, so nobody is paid twice. -/
namespace Individuality.Airdrop
open Support
variable {T : Config} {L : LawfulFungibles T.fungibles} {s s' : Store T} {c c' : Chain T} {a : Action T}
  {id : EventId} {event : ActiveEvent T}

/-- Nobody else changes what the pallet holds on its pot. -/
def Aside (L : LawfulFungibles T.fungibles) (c : Chain T) : Action T → Prop
  | .elsewhere _ assets => ∀ asset,
    L.balanceOnHold assets asset T.airdropPotId = L.balanceOnHold c.store.assets asset T.airdropPotId
  | _ => True

/-! ### Calls -/

/-- Ahead of the dispatch the status of the event was checked. -/
theorem authorizeCall_authorized {now : Nat} {tx : Transaction T} (h : authorizeCall now s tx = .ok .authorized) :
    ∃ id event, tx.call.authorizedEvent? = some id ∧ s.events.get id = some event ∧
      authorizeStatus now event tx.call = .ok () := by
  unfold authorizeCall at h
  split at h
  · rename_i id _ hid
    cases hcheck : authorize now s tx.source tx.call id with
    | error e =>
      rw [hcheck] at h
      cases h
    | ok u =>
      simp only [authorize, bind_eq_ok, okOr_eq_ok] at hcheck
      obtain ⟨-, -, event, hevent, hstatus⟩ := hcheck
      exact ⟨id, event, hid, hevent, hstatus⟩
  · cases h
  · cases h
  · cases h

/-- Registration is started for scheduled events only. -/
theorem scheduled_of_authorized {now : Nat} {tx : Transaction T}
    (h : authorizeCall now s tx = .ok .authorized) (hcall : tx.call = .startRegistrationAuthorized id)
    (hevent : s.events.get id = some event) : event.status = .scheduled := by
  obtain ⟨id', event', hid, hevent', hstatus⟩ := authorizeCall_authorized h
  rw [hcall] at hid hstatus
  cases hid
  cases hevent.symm.trans hevent'
  unfold authorizeStatus at hstatus
  dsimp only at hstatus
  split at hstatus
  · assumption
  · cases hstatus

theorem Sound.submit (h : Sound L c.store) {tx : Transaction T} (hok : Airdrop.submit c tx = .ok s') :
    Sound L s' := by
  simp only [Airdrop.submit, bind_eq_ok, mapError_eq_ok] at hok
  obtain ⟨origin, horigin, hok⟩ := hok
  unfold dispatch at hok
  split at hok
  · exact h.doSchedule hok
  · exact h.doRemoveScheduled hok
  · exact h.enableAsset hok
  · exact h.disableAsset hok
  · rename_i id hcall
    simp only [startRegistrationAuthorized, bind_eq_ok, okOr_eq_ok, pure_eq_ok] at hok
    obtain ⟨event, hevent, rfl⟩ := hok
    exact h.startRegistration hevent (scheduled_of_authorized horigin hcall hevent)
  · exact h.closeRegistration hok
  · exact h.drawWinners hok
  · exact h.closeDrawing hok
  · exact h.closeClaiming hok
  · exact h.cleanUpRegistrations hok
  · exact h.cleanUpWinners hok
  · exact h.finalize hok
  · cases hok

theorem Sound.apply (h : Sound L c.store) (haside : Aside L c a) (hok : Airdrop.apply c a = .ok s') :
    Sound L s' := by
  cases a with
  | elapse now randomness =>
    simp only [Airdrop.apply, bind_eq_ok, pure_eq_ok] at hok
    obtain ⟨-, -, rfl⟩ := hok
    exact h
  | elsewhere members assets =>
    cases hok
    exact h.of_ledger _ haside
  | submit tx => exact h.submit hok
  | schedule source id info => exact h.schedule (mapError_eq_ok.mp hok)
  | removeScheduled id => exact h.doRemoveScheduled (mapError_eq_ok.mp hok)
  | cancel id =>
    cases hok
    exact h.doCancel id
  | participateWithAlias id participantOrigin proof ringIndex revision =>
    have hok := mapError_eq_ok.mp hok
    simp only [doParticipateWithAlias, bind_eq_ok] at hok
    obtain ⟨_, -, hok⟩ := hok
    exact h.registerSlot hok
  | participateWithAccount accountId id signature =>
    have hok := mapError_eq_ok.mp hok
    simp only [doParticipateWithAccount, bind_eq_ok] at hok
    obtain ⟨_, -, _, -, hok⟩ := hok
    exact h.registerSlot hok
  | claim id registrant beneficiary => exact h.doClaim (mapError_eq_ok.mp hok)

theorem exec_ok (hexec : exec c a = .ok c') : ∃ s', apply c a = .ok s' ∧ c'.store = s' := by
  simp only [exec, bind_eq_ok] at hexec
  obtain ⟨s', happly, hexec⟩ := hexec
  refine ⟨s', happly, ?_⟩
  split at hexec
  · cases hexec
    rfl
  · cases hexec
    rfl
  · cases hexec
    rfl

theorem sound_genesis (L : LawfulFungibles T.fungibles) {now : Nat} {w : T.memberService.World}
    {assets : T.fungibles.Ledger} (hheld : ∀ asset, L.balanceOnHold assets asset T.airdropPotId = 0) :
    Sound L (genesis now w assets).store :=
  ⟨nofun, nofun, nofun, fun _ _ => ⟨rfl, rfl, rfl⟩, fun _ _ => ⟨nofun, fun ⟨_, hnone, _⟩ => by cases hnone⟩, hheld⟩

/-! ### Payments -/

/-- No winner is added to the event any more. -/
def pastDraw : Status → Prop
  | .scheduled | .registering _ | .drawWinners .. => False
  | .claiming .. | .clearingRegistrations .. | .clearingWinners .. | .finalizing .. => True

/-- The events are as before or further on, and past the draw their winners are no more. -/
def Onward (s s' : Store T) : Prop :=
  ∀ id event', s'.events.get id = some event' → ∃ event, s.events.get id = some event ∧
    (pastDraw event.status → pastDraw event'.status ∧
      ∀ registrant, s.winners.get (id, registrant) = none → s'.winners.get (id, registrant) = none)

theorem Onward.of_eq (hevents : s'.events = s.events) (hwinners : s'.winners = s.winners) : Onward s s' := by
  intro id event' hevent'
  rw [hevents] at hevent'
  refine ⟨event', hevent', fun hpast => ⟨hpast, fun registrant hnone => ?_⟩⟩
  rw [hwinners]
  exact hnone

/-- One event changes its status, and the winners of the others stay. -/
theorem Onward.put (hevent : s.events.get id = some event) {status : Status}
    (hevents : s'.events = s.events.insert id { event with status := status })
    (hpast : pastDraw event.status → pastDraw status)
    (hwinners : ∀ id' registrant, id' ≠ id ∨ pastDraw event.status → s.winners.get (id', registrant) = none →
      s'.winners.get (id', registrant) = none) : Onward s s' := by
  intro id' event' hevent'
  rw [hevents, StorageMap.get_insert] at hevent'
  split at hevent'
  · rename_i hid
    cases hevent'
    rw [hid]
    exact ⟨event, hevent, fun h => ⟨hpast h, fun registrant hnone => hwinners id registrant (.inr h) hnone⟩⟩
  · rename_i hid
    exact ⟨event', hevent', fun h => ⟨h, fun registrant hnone => hwinners id' registrant (.inl hid) hnone⟩⟩

theorem Onward.drop (hevents : s'.events = s.events.remove id) (hwinners : s'.winners = s.winners) :
    Onward s s' := by
  intro id' event' hevent'
  rw [hevents] at hevent'
  refine ⟨event', StorageMap.get_of_get_remove hevent', fun hpast => ⟨hpast, fun registrant hnone => ?_⟩⟩
  rw [hwinners]
  exact hnone

theorem onward_refund (s : Store T) (event : ActiveEvent T) : Onward s (refundAndDropEvent s event) := by
  obtain ⟨assets, heq⟩ := releaseRemainingPrizes_eq s event.info.prize event.info.prize.maxWinners
  rw [refundAndDropEvent, heq]
  exact Onward.drop rfl rfl

theorem onward_doCancel (s : Store T) (id : EventId) : Onward s (doCancel s id) := by
  unfold doCancel
  split
  · exact Onward.of_eq rfl rfl
  · rename_i event hevent
    split
    · exact onward_refund s event
    · exact Onward.of_eq rfl rfl
    · exact Onward.of_eq rfl rfl
    · exact Onward.of_eq rfl rfl
    · obtain ⟨assets, heq⟩ := releaseRemainingPrizes_eq s event.info.prize event.info.prize.maxWinners
      rw [heq]
      exact Onward.put hevent rfl (fun _ => trivial) fun _ _ _ hnone => hnone
    · exact Onward.put hevent rfl (fun _ => trivial) fun _ _ _ hnone => hnone
    · exact Onward.put hevent rfl (fun _ => trivial) fun _ _ _ hnone => hnone

theorem onward_closeRegistration {randomness : Option Nat}
    (hok : closeRegistrationAuthorized randomness s id = .ok s') : Onward s s' := by
  simp only [closeRegistrationAuthorized, bind_eq_ok, okOr_eq_ok] at hok
  obtain ⟨event, hevent, hok⟩ := hok
  split at hok
  · rename_i total hstatus
    split at hok
    · cases hok
      exact onward_refund s event
    · split at hok
      · cases hok
        exact Onward.of_eq rfl rfl
      · obtain ⟨assets, heq⟩ := releaseRemainingPrizes_eq s event.info.prize
          (event.info.prize.maxWinners - effectiveWinners event.info.prize total)
        cases hok
        rw [releaseRemainingPrizes_of_pos, heq]
        refine Onward.put hevent rfl (fun hpast => ?_) fun _ _ _ hnone => hnone
        rw [hstatus] at hpast
        exact hpast
  · cases hok

theorem get_foldl_addWinner (s : Store T) (id : EventId) (drawn : List (EventId × Nat))
    (winners : StorageMap (EventId × Entry T) Nat) {id' : EventId} (hid : id' ≠ id) (registrant : Entry T) :
    (drawn.foldl (addWinner s id) winners).get (id', registrant) = winners.get (id', registrant) := by
  induction drawn generalizing winners with
  | nil => rfl
  | cons k drawn ih =>
    rw [List.foldl_cons, ih, addWinner]
    split
    · rw [StorageMap.get_insert, if_neg fun hkey => hid (Prod.mk.inj hkey).1]
    · rfl

theorem onward_drawWinners (hok : drawWinnersAuthorized s id = .ok s') : Onward s s' := by
  simp only [drawWinnersAuthorized, bind_eq_ok, okOr_eq_ok] at hok
  obtain ⟨event, hevent, hok⟩ := hok
  split at hok
  · rename_i hstatus
    cases hok
    refine Onward.put hevent rfl (fun hpast => ?_) fun id' registrant hother hnone => ?_
    · rw [hstatus] at hpast
      exact hpast.elim
    · rw [hstatus] at hother
      rw [get_foldl_addWinner s id _ _ (hother.resolve_right fun hpast => hpast)]
      exact hnone
  · cases hok

theorem onward_cleanUpWinners (hok : cleanUpWinnersAuthorized s id = .ok s') : Onward s s' := by
  have hfewer : ∀ k, s.winners.get k = none → (s.winners.clearPrefix winnerRank id T.clearLimit).1.get k = none := by
    intro k hnone
    cases hget : (s.winners.clearPrefix winnerRank id T.clearLimit).1.get k with
    | none => rfl
    | some slot => cases hnone.symm.trans (StorageMap.get_of_get_clearPrefix hget)
  simp only [cleanUpWinnersAuthorized, bind_eq_ok, okOr_eq_ok] at hok
  obtain ⟨event, hevent, hok⟩ := hok
  split at hok
  · split at hok
    · cases hok
      exact Onward.put hevent rfl (fun _ => trivial) fun _ _ _ hnone => hfewer _ hnone
    · cases hok
      exact Onward.put hevent rfl (fun _ => trivial) fun _ _ _ hnone => hfewer _ hnone
  · cases hok

theorem onward_registerSlot {slot : Nat} {entry : Entry T} (hok : registerSlot s id slot entry = .ok s') :
    Onward s s' := by
  simp only [registerSlot, bind_eq_ok, okOr_eq_ok] at hok
  obtain ⟨event, hevent, hok⟩ := hok
  split at hok
  · rename_i hstatus
    simp only [bind_eq_ok, ensure_eq_ok, pure_eq_ok] at hok
    obtain ⟨-, -, -, -, rfl⟩ := hok
    refine Onward.put hevent rfl (fun hpast => ?_) fun _ _ _ hnone => hnone
    rw [hstatus] at hpast
    exact hpast.elim
  · cases hok

theorem onward_doClaim {now : Nat} {registrant : Entry T} {beneficiary : T.fungibles.AccountId}
    (hok : doClaim now s id registrant beneficiary = .ok s') : Onward s s' := by
  simp only [doClaim, bind_eq_ok, okOr_eq_ok] at hok
  obtain ⟨event, hevent, hok⟩ := hok
  split at hok
  · simp only [bind_eq_ok, ensure_eq_ok, okOr_eq_ok, pure_eq_ok] at hok
    obtain ⟨-, -, -, -, _, -, _, -, assets, -, rfl⟩ := hok
    refine Onward.put hevent rfl (fun _ => trivial) fun id' registrant' _ hnone => ?_
    rw [StorageMap.get_remove, hnone, ite_self]
  · cases hok

theorem onward_finalize (hok : finalizeAuthorized s id = .ok s') : Onward s s' := by
  simp only [finalizeAuthorized, bind_eq_ok, okOr_eq_ok] at hok
  obtain ⟨event, hevent, hok⟩ := hok
  split at hok
  · rename_i effective claimed hstatus
    obtain ⟨assets, heq⟩ := releaseRemainingPrizes_eq s event.info.prize (effective - claimed)
    cases hok
    rw [releaseRemainingPrizes_of_pos, heq]
    exact Onward.drop rfl rfl
  · cases hok

/-- A checked call moves its event on. -/
theorem onward_authorized {randomness : Option Nat} {call : Call T} (hstart : ∀ id event,
      call = .startRegistrationAuthorized id → s.events.get id = some event → event.status = .scheduled)
    (hok : dispatch randomness s .authorized call = .ok s') : Onward s s' := by
  unfold dispatch at hok
  split at hok
  · contradiction
  · contradiction
  · contradiction
  · contradiction
  · rename_i id _
    simp only [startRegistrationAuthorized, bind_eq_ok, okOr_eq_ok, pure_eq_ok] at hok
    obtain ⟨event, hevent, rfl⟩ := hok
    refine Onward.put hevent rfl (fun hpast => ?_) fun _ _ _ hnone => hnone
    rw [hstart id event rfl hevent] at hpast
    exact hpast.elim
  · exact onward_closeRegistration hok
  · exact onward_drawWinners hok
  · simp only [closeDrawingAuthorized, bind_eq_ok, okOr_eq_ok] at hok
    obtain ⟨event, hevent, hok⟩ := hok
    split at hok
    · cases hok
      exact Onward.put hevent rfl (fun _ => trivial) fun _ _ _ hnone => hnone
    · cases hok
  · simp only [closeClaimingAuthorized, bind_eq_ok, okOr_eq_ok] at hok
    obtain ⟨event, hevent, hok⟩ := hok
    split at hok
    · cases hok
      exact Onward.put hevent rfl (fun _ => trivial) fun _ _ _ hnone => hnone
    · cases hok
  · simp only [cleanUpRegistrationsAuthorized, bind_eq_ok, okOr_eq_ok] at hok
    obtain ⟨event, hevent, hok⟩ := hok
    split at hok
    · split at hok
      · cases hok
        exact Onward.put hevent rfl (fun _ => trivial) fun _ _ _ hnone => hnone
      · cases hok
        exact Onward.put hevent rfl (fun _ => trivial) fun _ _ _ hnone => hnone
    · cases hok
  · exact onward_cleanUpWinners hok
  · exact onward_finalize hok
  · cases hok

/-- The event that an action schedules. -/
def Action.scheduled? : Action T → Option EventId
  | .schedule _ id _ => some id
  | .submit tx =>
    match tx.call with
    | .scheduleEvent id _ => some id
    | _ => none
  | _ => none

/-- The payments of the events, since each was scheduled. -/
def payments (_ : Chain T) (a : Action T) (_ : Chain T) (log : List (EventId × Entry T)) :
    List (EventId × Entry T) :=
  match a with
  | .claim id registrant _ => (id, registrant) :: log
  | _ =>
    match a.scheduled? with
    | some id => log.filter fun k => k.1 ≠ id
    | none => log

theorem onward_of_not_scheduled (hnone : a.scheduled? = none) (hok : apply c a = .ok s') : Onward c.store s' := by
  cases a with
  | elapse now randomness =>
    simp only [apply, bind_eq_ok, pure_eq_ok] at hok
    obtain ⟨-, -, rfl⟩ := hok
    exact Onward.of_eq rfl rfl
  | elsewhere members assets =>
    cases hok
    exact Onward.of_eq rfl rfl
  | submit tx =>
    simp only [apply, submit, bind_eq_ok, mapError_eq_ok] at hok
    obtain ⟨origin, horigin, hok⟩ := hok
    cases origin with
    | authorized =>
      exact onward_authorized (fun id event => scheduled_of_authorized horigin) hok
    | manager =>
      unfold dispatch at hok
      split at hok
      · rename_i hcall
        simp only [Action.scheduled?, hcall] at hnone
        cases hnone
      · simp only [doRemoveScheduled, bind_eq_ok, pure_eq_ok] at hok
        obtain ⟨event, -, -, -, rfl⟩ := hok
        exact onward_refund _ event
      · simp only [enableAsset, bind_eq_ok, pure_eq_ok] at hok
        obtain ⟨-, -, assets, -, rfl⟩ := hok
        exact Onward.of_eq rfl rfl
      · simp only [disableAsset, bind_eq_ok, pure_eq_ok] at hok
        obtain ⟨-, -, assets, -, rfl⟩ := hok
        exact Onward.of_eq rfl rfl
      all_goals contradiction
    | none => cases hok
    | other => cases hok
  | schedule source id info => cases hnone
  | removeScheduled id =>
    have hok := mapError_eq_ok.mp hok
    simp only [doRemoveScheduled, bind_eq_ok, pure_eq_ok] at hok
    obtain ⟨event, -, -, -, rfl⟩ := hok
    exact onward_refund _ event
  | cancel id =>
    cases hok
    exact onward_doCancel _ id
  | participateWithAlias id participantOrigin proof ringIndex revision =>
    have hok := mapError_eq_ok.mp hok
    simp only [doParticipateWithAlias, bind_eq_ok] at hok
    obtain ⟨_, -, hok⟩ := hok
    exact onward_registerSlot hok
  | participateWithAccount accountId id signature =>
    have hok := mapError_eq_ok.mp hok
    simp only [doParticipateWithAccount, bind_eq_ok] at hok
    obtain ⟨_, -, _, -, hok⟩ := hok
    exact onward_registerSlot hok
  | claim id registrant beneficiary => exact onward_doClaim (mapError_eq_ok.mp hok)

/-- What is kept of a run's payments. -/
structure Paid (s : Store T) (log : List (EventId × Entry T)) : Prop where
  nodup : log.Nodup
  taken : ∀ k ∈ log, ∀ event, s.events.get k.1 = some event → pastDraw event.status ∧ s.winners.get k = none

theorem Paid.onward {log : List (EventId × Entry T)} (h : Paid s log) (honward : Onward s s') : Paid s' log := by
  refine ⟨h.nodup, fun k hk event' hevent' => ?_⟩
  obtain ⟨event, hevent, hon⟩ := honward k.1 event' hevent'
  obtain ⟨hpast, hnone⟩ := h.taken k hk event hevent
  obtain ⟨hpast', hnone'⟩ := hon hpast
  exact ⟨hpast', hnone' k.2 hnone⟩

theorem Paid.scheduled {log : List (EventId × Entry T)} (h : Paid s log)
    (hother : ∀ id', id' ≠ id → s'.events.get id' = s.events.get id') (hwinners : s'.winners = s.winners) :
    Paid s' (log.filter fun k => k.1 ≠ id) := by
  refine ⟨h.nodup.filter _, fun k hk event hevent => ?_⟩
  obtain ⟨hk, hid⟩ := List.mem_filter.mp hk
  rw [hother k.1 (of_decide_eq_true hid)] at hevent
  rw [hwinners]
  exact h.taken k hk event hevent

theorem doSchedule_other {info : EventInfo T} (hok : doSchedule s id info = .ok s') :
    (∀ id', id' ≠ id → s'.events.get id' = s.events.get id') ∧ s'.winners = s.winners := by
  simp only [doSchedule, bind_eq_ok, pure_eq_ok] at hok
  obtain ⟨-, -, -, -, -, -, -, -, -, -, -, -, _, -, assets, -, rfl⟩ := hok
  exact ⟨fun id' hid => (StorageMap.get_insert _ _ _ _).trans (if_neg hid), rfl⟩

theorem scheduled_other (hid : a.scheduled? = some id) (hok : apply c a = .ok s') :
    (∀ id', id' ≠ id → s'.events.get id' = c.store.events.get id') ∧ s'.winners = c.store.winners := by
  cases a with
  | schedule source id info =>
    cases hid
    have hok := mapError_eq_ok.mp hok
    simp only [schedule, bind_eq_ok] at hok
    obtain ⟨_, -, assets, -, hok⟩ := hok
    obtain ⟨hevents, hwinners⟩ := doSchedule_other hok
    exact ⟨fun id' hid => hevents id' hid, hwinners⟩
  | submit tx =>
    simp only [Action.scheduled?] at hid
    split at hid
    · rename_i hcall
      cases hid
      simp only [apply, submit, bind_eq_ok, mapError_eq_ok, hcall] at hok
      obtain ⟨origin, -, hok⟩ := hok
      cases origin with
      | manager => exact doSchedule_other hok
      | authorized => cases hok
      | none => cases hok
      | other => cases hok
    · cases hid
  | _ => cases hid

theorem Paid.apply {log : List (EventId × Entry T)} (h : Paid c.store log) (L : LawfulFungibles T.fungibles)
    (hok : Airdrop.apply c a = .ok s') : Paid s' (payments c a c' log) := by
  cases hscheduled : a.scheduled? with
  | some id =>
    obtain ⟨hother, hwinners⟩ := scheduled_other hscheduled hok
    have hlog : payments c a c' log = log.filter fun k => k.1 ≠ id := by
      cases a with
      | claim => cases hscheduled
      | _ => simp only [payments, hscheduled]
    rw [hlog]
    exact h.scheduled hother hwinners
  | none =>
    have honward := h.onward (onward_of_not_scheduled hscheduled hok)
    cases a with
    | claim id registrant beneficiary =>
      obtain ⟨event, total, effective, claimed, hevent, hstatus, ⟨slot, hslot⟩, -, assets, rfl⟩ :=
        doClaim_ok L (mapError_eq_ok.mp hok)
      refine ⟨List.nodup_cons.mpr ⟨fun hmem => ?_, h.nodup⟩, fun k hk event' hevent' => ?_⟩
      · cases (h.taken _ hmem event hevent).2.symm.trans hslot
      · rcases List.mem_cons.mp hk with rfl | hk
        · cases ((StorageMap.get_insert _ _ _ _).trans (if_pos rfl)).symm.trans hevent'
          exact ⟨trivial, (StorageMap.get_remove _ _ _).trans (if_pos rfl)⟩
        · exact honward.taken k hk event' hevent'
    | _ =>
      simp only [payments, hscheduled]
      exact honward

/-! ### Runs -/

/-- What the accounts have of the assets, and what is held on them. -/
structure Balances where
  free : Nat → Nat → Nat
  held : Nat → Nat → Nat

namespace Balances

def setAt (f : Nat → Nat → Nat) (asset who amount : Nat) : Nat → Nat → Nat :=
  fun asset' who' => if asset' = asset ∧ who' = who then amount else f asset' who'

def transfer (l : Balances) (asset source dest amount : Nat) : Option Balances :=
  if amount ≤ l.free asset source then
    let free := setAt l.free asset source (l.free asset source - amount)
    some { l with free := setAt free asset dest (free asset dest + amount) }
  else none

def hold (l : Balances) (asset who amount : Nat) : Option Balances :=
  if amount ≤ l.free asset who then
    some ⟨setAt l.free asset who (l.free asset who - amount),
      setAt l.held asset who (l.held asset who + amount)⟩
  else none

def releaseExact (l : Balances) (asset who amount : Nat) : Balances :=
  ⟨setAt l.free asset who (l.free asset who + amount), setAt l.held asset who (l.held asset who - amount)⟩

def release (l : Balances) (asset who amount : Nat) : Precision → Option (Nat × Balances)
  | .exact => if amount ≤ l.held asset who then some (amount, l.releaseExact asset who amount) else none
  | .bestEffort =>
    let actual := min amount (l.held asset who)
    some (actual, l.releaseExact asset who actual)

theorem setAt_apply (f : Nat → Nat → Nat) (asset who amount asset' who' : Nat) :
    setAt f asset who amount asset' who' = if asset' = asset ∧ who' = who then amount else f asset' who' := rfl

theorem transfer_held {l l' : Balances} {asset source dest amount : Nat}
    (h : l.transfer asset source dest amount = some l') : l'.held = l.held := by
  obtain ⟨-, heq⟩ := Option.ite_none_right_eq_some.mp h
  cases heq
  rfl

theorem hold_held {l l' : Balances} {asset who amount : Nat} (h : l.hold asset who amount = some l')
    (asset' who' : Nat) :
    l'.held asset' who' = l.held asset' who' + if asset' = asset ∧ who' = who then amount else 0 := by
  obtain ⟨-, heq⟩ := Option.ite_none_right_eq_some.mp h
  cases heq
  refine (setAt_apply _ _ _ _ _ _).trans ?_
  split
  · rename_i hsame
    rw [hsame.1, hsame.2]
  · rfl

theorem releaseExact_held (l : Balances) (asset who amount asset' who' : Nat) :
    (l.releaseExact asset who amount).held asset' who' =
      l.held asset' who' - if asset' = asset ∧ who' = who then amount else 0 := by
  refine (setAt_apply _ _ _ _ _ _).trans ?_
  split
  · rename_i hsame
    rw [hsame.1, hsame.2]
  · rfl

theorem release_exact {l l' : Balances} {asset who amount released : Nat}
    (h : l.release asset who amount .exact = some (released, l')) : released = amount ∧ ∀ asset' who',
      l'.held asset' who' + (if asset' = asset ∧ who' = who then amount else 0) = l.held asset' who' := by
  obtain ⟨hle, heq⟩ := Option.ite_none_right_eq_some.mp h
  cases heq
  refine ⟨rfl, fun asset' who' => ?_⟩
  rw [releaseExact_held]
  split
  · rename_i hsame
    rw [hsame.1, hsame.2]
    exact Nat.sub_add_cancel hle
  · rfl

theorem release_bestEffort (l : Balances) (asset who amount : Nat) :
    ∃ l', l.release asset who amount .bestEffort = some (min amount (l.held asset who), l') ∧ ∀ asset' who',
      l'.held asset' who' = l.held asset' who' - if asset' = asset ∧ who' = who then amount else 0 := by
  refine ⟨_, rfl, fun asset' who' => ?_⟩
  rw [releaseExact_held]
  split
  · rename_i hsame
    rw [hsame.1, hsame.2]
    omega
  · rfl

end Balances

def sampleFungibles : Fungibles where
  Ledger := Balances
  AssetId := Nat
  AccountId := Nat
  assetDecEq := inferInstance
  accountDecEq := inferInstance
  minimumBalance _ _ := 1
  transfer := Balances.transfer
  hold := Balances.hold
  release := Balances.release

def sampleLedger : LawfulFungibles sampleFungibles where
  balanceOnHold := Balances.held
  transferred h asset who := congrFun (congrFun (Balances.transfer_held h) asset) who
  held := Balances.hold_held
  released := Balances.release_exact
  releasedBestEffort := Balances.release_bestEffort

/-- A signature is the entropy itself, and aliases are tickets of their members. -/
def sampleConfig : Config where
  memberService := Members.sampleProver
  fungibles := sampleFungibles
  Public := Nat
  VrfSignature := Nat
  accountIdToPublic := some
  verifyAndExtractEntropy _ _ signature := some signature
  contextForEvent id := id
  slotOf ringAlias := ringAlias.1
  encode _ := (0 : Nat)
  winnerKey
    | .ringAlias ringAlias => ringAlias.1
    | .account accountId => accountId
  airdropPotId := (0 : Nat)
  balanceMax := 1000
  clearLimit := 2
  drawLimit := 2
  drawLimit_pos := Nat.two_pos
  clearLimit_pos := Nat.two_pos

def sampleEvent (asset : Nat) : EventInfo sampleConfig where
  prize := ⟨asset, (10 : Nat), 2, ⟨500000, by decide⟩⟩
  registrationStarts := 10
  drawTime := 20
  endTime := 30

/-- A call that anyone may submit. -/
def sampleCall (call : Call sampleConfig) : Action sampleConfig := .submit ⟨.local, .none, call⟩

/-- Two events in two assets, of which one is drawn and claimed, and then cancelled. -/
def sampleActions : List (Action sampleConfig) :=
  [.submit ⟨.external, .manager, .enableAsset (1 : Nat) (7 : Nat)⟩,
    .submit ⟨.external, .manager, .enableAsset (2 : Nat) (7 : Nat)⟩,
    .schedule (7 : Nat) (eventId 1) (sampleEvent 1), .schedule (7 : Nat) (eventId 2) (sampleEvent 2),
    .elapse 10 none, sampleCall (.startRegistrationAuthorized (eventId 1)),
    .participateWithAlias (eventId 1) (.account (4 : Nat)) ((1 : Nat), (0 : Nat)) 0 0,
    .participateWithAccount (5 : Nat) (eventId 1) (6 : Nat),
    .elapse 20 (some 3), sampleCall (.closeRegistrationAuthorized (eventId 1)),
    sampleCall (.drawWinnersAuthorized (eventId 1)), sampleCall (.closeDrawingAuthorized (eventId 1)),
    .claim (eventId 1) (.account (5 : Nat)) (8 : Nat), .cancel (eventId 1)]
where
  eventId (n : UInt8) : EventId := Vector.replicate 32 n

def sampleGenesis : Chain sampleConfig := genesis 0 (fun _ => [1]) ⟨fun _ _ => 100, fun _ _ => 0⟩

end Individuality.Airdrop
