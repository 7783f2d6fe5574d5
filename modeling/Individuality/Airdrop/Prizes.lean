import Individuality.Airdrop.Calls

/-! Prizes are backed, and every event is on the agenda.

What an event still owes its winners is its prize for each outstanding slot
(`outstanding`). The hold of the pot in an asset is what the events in that asset owe
together; what is stored of an event fits its status (`Fits`), and nothing is stored
of an event that is gone. An action opens an event, moves it to another status or
drops it, and releases as many prizes as slots are given up (`Put`, `Dropped`). -/
namespace Individuality.Airdrop
open Support
variable {T : Config}

/-! ### What an event owes -/

/-- The slots that may still be paid. -/
def outstanding (prize : AirdropPrize T) : Status → Nat
  | .scheduled | .registering _ => prize.maxWinners
  | .drawWinners _ effective _ _ => effective
  | .claiming _ effective claimed | .clearingRegistrations _ effective claimed _
  | .clearingWinners _ effective claimed _ | .finalizing effective claimed => effective - claimed

/-- What an event owes in an asset. -/
def share (asset : T.fungibles.AssetId) (event : ActiveEvent T) : Nat :=
  if asset = event.info.prize.assetId then
    event.info.prize.assetAmount * outstanding event.info.prize event.status
  else 0

/-! ### What is stored of an event -/

namespace Store

def registrationCount (s : Store T) (id : EventId) : Nat := s.registrations.countOf fun k _ => k.1 = id

def winnerCount (s : Store T) (id : EventId) : Nat := s.winners.countOf fun k _ => k.1 = id

end Store

/-- The counters of a status, and what is stored of the event in it. -/
def Fits (prize : AirdropPrize T) (registrations winners : Nat) (entropy : Option Nat) : Status → Prop
  | .scheduled => registrations = 0 ∧ winners = 0 ∧ entropy = none
  | .registering total => registrations = total ∧ winners = 0 ∧ entropy = none
  | .drawWinners _ effective winnersAdded _ =>
    effective ≤ prize.maxWinners ∧ winners ≤ winnersAdded ∧ winnersAdded ≤ effective
  | .claiming _ effective claimed | .clearingRegistrations _ effective claimed _ =>
    effective ≤ prize.maxWinners ∧ claimed + winners ≤ effective
  | .clearingWinners _ effective claimed _ =>
    effective ≤ prize.maxWinners ∧ claimed + winners ≤ effective ∧ registrations = 0
  | .finalizing effective claimed =>
    effective ≤ prize.maxWinners ∧ claimed + winners ≤ effective ∧ registrations = 0 ∧ winners = 0

/-- What was checked of an event when it was scheduled. -/
structure Proper (info : EventInfo T) : Prop where
  maxWinners_pos : 0 < info.prize.maxWinners
  maxWinners_le : info.prize.maxWinners ≤ maxWinners
  fits : info.prize.assetAmount * info.prize.maxWinners ≤ T.balanceMax

structure Sound (L : LawfulFungibles T.fungibles) (s : Store T) : Prop where
  named : ∀ id event, s.events.get id = some event → event.id = id
  proper : ∀ id event, s.events.get id = some event → Proper event.info
  fits : ∀ id event, s.events.get id = some event →
    Fits event.info.prize (s.registrationCount id) (s.winnerCount id) (s.eventEntropy.get id) event.status
  gone : ∀ id, s.events.get id = none →
    s.registrationCount id = 0 ∧ s.winnerCount id = 0 ∧ s.eventEntropy.get id = none
  agenda : ∀ t id, s.actionSchedule.get (t, id) = some () ↔
    ∃ event, s.events.get id = some event ∧ t = nextActionScheduledAt event.info event.status
  backed : ∀ asset, L.balanceOnHold s.assets asset T.airdropPotId = s.events.sumOf (share asset)

section Steps
variable {L : LawfulFungibles T.fungibles} {s s' : Store T} {id : EventId} {event : ActiveEvent T}

/-- What is stored of the other events stays. -/
structure Elsewhere (s s' : Store T) (id : EventId) : Prop where
  registrations : ∀ id', id' ≠ id → s'.registrationCount id' = s.registrationCount id'
  winners : ∀ id', id' ≠ id → s'.winnerCount id' = s.winnerCount id'
  entropy : ∀ id', id' ≠ id → s'.eventEntropy.get id' = s.eventEntropy.get id'

/-- An event is written, with what is stored of it, its action and its hold. -/
structure Put (L : LawfulFungibles T.fungibles) (s s' : Store T) (id : EventId) (event : ActiveEvent T) :
    Prop where
  events : s'.events = s.events.insert id event
  named : event.id = id
  proper : Proper event.info
  elsewhere : Elsewhere s s' id
  fits : Fits event.info.prize (s'.registrationCount id) (s'.winnerCount id) (s'.eventEntropy.get id) event.status
  agenda : ∀ t id', s'.actionSchedule.get (t, id') = some () ↔
    if id' = id then t = nextActionScheduledAt event.info event.status
    else s.actionSchedule.get (t, id') = some ()
  backed : ∀ asset, L.balanceOnHold s'.assets asset T.airdropPotId + s.events.measureAt (share asset) id =
    L.balanceOnHold s.assets asset T.airdropPotId + share asset event

theorem Sound.put (h : Sound L s) (hput : Put L s s' id event) : Sound L s' := by
  have hget : ∀ id', s'.events.get id' = if id' = id then some event else s.events.get id' := by
    intro id'
    rw [hput.events]
    exact StorageMap.get_insert _ _ _ _
  -- an event of the result is the one that was written, or another one as it was
  have hfrom : ∀ id' event', s'.events.get id' = some event' →
      (id' = id ∧ event' = event) ∨ (id' ≠ id ∧ s.events.get id' = some event') := by
    intro id' event' hevent'
    rw [hget] at hevent'
    split at hevent'
    · rename_i hid
      exact .inl ⟨hid, (Option.some.inj hevent').symm⟩
    · rename_i hid
      exact .inr ⟨hid, hevent'⟩
  refine ⟨fun id' event' hevent' => ?_, fun id' event' hevent' => ?_, fun id' event' hevent' => ?_,
    fun id' hnone => ?_, fun t id' => ?_, fun asset => ?_⟩
  · rcases hfrom id' event' hevent' with ⟨rfl, rfl⟩ | ⟨-, hevent'⟩
    · exact hput.named
    · exact h.named id' event' hevent'
  · rcases hfrom id' event' hevent' with ⟨rfl, rfl⟩ | ⟨-, hevent'⟩
    · exact hput.proper
    · exact h.proper id' event' hevent'
  · rcases hfrom id' event' hevent' with ⟨rfl, rfl⟩ | ⟨hid, hevent'⟩
    · exact hput.fits
    · rw [hput.elsewhere.registrations id' hid, hput.elsewhere.winners id' hid, hput.elsewhere.entropy id' hid]
      exact h.fits id' event' hevent'
  · rw [hget] at hnone
    split at hnone
    · cases hnone
    · rename_i hid
      rw [hput.elsewhere.registrations id' hid, hput.elsewhere.winners id' hid, hput.elsewhere.entropy id' hid]
      exact h.gone id' hnone
  · rw [hput.agenda, hget]
    split
    · refine ⟨fun ht => ⟨event, rfl, ht⟩, ?_⟩
      rintro ⟨event', heq, ht⟩
      cases heq
      exact ht
    · exact h.agenda t id'
  · have hsum := s.events.sumOf_insert (share asset) id event
    have hbacked := hput.backed asset
    have hold := h.backed asset
    rw [hput.events]
    omega

/-- An event is dropped, with its action and its hold. -/
structure Dropped (L : LawfulFungibles T.fungibles) (s s' : Store T) (id : EventId) : Prop where
  events : s'.events = s.events.remove id
  elsewhere : Elsewhere s s' id
  gone : s'.registrationCount id = 0 ∧ s'.winnerCount id = 0 ∧ s'.eventEntropy.get id = none
  agenda : ∀ t id', s'.actionSchedule.get (t, id') = some () ↔
    id' ≠ id ∧ s.actionSchedule.get (t, id') = some ()
  backed : ∀ asset, L.balanceOnHold s'.assets asset T.airdropPotId + s.events.measureAt (share asset) id =
    L.balanceOnHold s.assets asset T.airdropPotId

theorem Sound.drop (h : Sound L s) (hdrop : Dropped L s s' id) : Sound L s' := by
  have hget : ∀ id', s'.events.get id' = if id' = id then none else s.events.get id' := by
    intro id'
    rw [hdrop.events]
    exact StorageMap.get_remove _ _ _
  have hfrom : ∀ id' event', s'.events.get id' = some event' → id' ≠ id ∧ s.events.get id' = some event' := by
    intro id' event' hevent'
    rw [hget] at hevent'
    split at hevent'
    · cases hevent'
    · rename_i hid
      exact ⟨hid, hevent'⟩
  refine ⟨fun id' event' hevent' => h.named id' event' (hfrom id' event' hevent').2,
    fun id' event' hevent' => h.proper id' event' (hfrom id' event' hevent').2, fun id' event' hevent' => ?_,
    fun id' hnone => ?_, fun t id' => ?_, fun asset => ?_⟩
  · obtain ⟨hid, hevent⟩ := hfrom id' event' hevent'
    rw [hdrop.elsewhere.registrations id' hid, hdrop.elsewhere.winners id' hid, hdrop.elsewhere.entropy id' hid]
    exact h.fits id' event' hevent
  · by_cases hid : id' = id
    · rw [hid]
      exact hdrop.gone
    · rw [hget, if_neg hid] at hnone
      rw [hdrop.elsewhere.registrations id' hid, hdrop.elsewhere.winners id' hid,
        hdrop.elsewhere.entropy id' hid]
      exact h.gone id' hnone
  · rw [hdrop.agenda, hget, h.agenda]
    split
    · rename_i hid
      refine ⟨fun hne => absurd hid hne.1, ?_⟩
      rintro ⟨_, hnone, _⟩
      cases hnone
    · rename_i hid
      exact ⟨fun hne => hne.2, fun hin => ⟨hid, hin⟩⟩
  · have hsum := s.events.sumOf_remove (share asset) id
    have hbacked := hdrop.backed asset
    have hold := h.backed asset
    rw [hdrop.events]
    omega

/-! ### Moves -/

/-- An event changes its status, and some slots are given up. -/
structure Moved (L : LawfulFungibles T.fungibles) (s s' : Store T) (id : EventId) (event : ActiveEvent T)
    (status : Status) (count : Nat) : Prop where
  events : s'.events = s.events.insert id { event with status := status }
  elsewhere : Elsewhere s s' id
  fits : Fits event.info.prize (s'.registrationCount id) (s'.winnerCount id) (s'.eventEntropy.get id) status
  schedule : s'.actionSchedule = (transition s id event status).actionSchedule
  released : outstanding event.info.prize status + count = outstanding event.info.prize event.status
  backed : ∀ asset, L.balanceOnHold s'.assets asset T.airdropPotId +
    (if asset = event.info.prize.assetId then event.info.prize.assetAmount * count else 0) =
      L.balanceOnHold s.assets asset T.airdropPotId

theorem measureAt_share (hevent : s.events.get id = some event) (asset : T.fungibles.AssetId) :
    s.events.measureAt (share asset) id = share asset event := by
  rw [StorageMap.measureAt, hevent]
  rfl

theorem Sound.moved (h : Sound L s) (hevent : s.events.get id = some event) (status : Status) (count : Nat)
    (hmoved : Moved L s s' id event status count) : Sound L s' := by
  have hid := h.named id event hevent
  have hagenda : ∀ t id', s.actionSchedule.get (t, id') = some () ↔
      if id' = id then t = nextActionScheduledAt event.info event.status
      else s.actionSchedule.get (t, id') = some () := by
    intro t id'
    split
    · rename_i heq
      rw [heq, h.agenda, hevent]
      refine ⟨?_, fun ht => ⟨event, rfl, ht⟩⟩
      rintro ⟨event', heq, ht⟩
      cases heq
      exact ht
    · exact Iff.rfl
  refine h.put ⟨hmoved.events, hid, h.proper id event hevent, hmoved.elsewhere, hmoved.fits, fun t id' => ?_,
    fun asset => ?_⟩
  · rw [hmoved.schedule, transition, hid]
    dsimp only
    by_cases hsame : nextActionScheduledAt event.info event.status = nextActionScheduledAt event.info status
    · rw [if_neg (not_not.mpr hsame), ← hsame]
      exact hagenda t id'
    · rw [if_pos hsame, StorageMap.get_insert, StorageMap.get_remove]
      by_cases heq : id' = id
      · rw [if_pos heq, heq]
        constructor
        · intro hget
          split at hget
          · rename_i hkey
            exact (Prod.mk.inj hkey).1
          · split at hget
            · cases hget
            · rename_i hne
              have ht := (hagenda t id).mp hget
              rw [if_pos rfl] at ht
              exact absurd (by rw [ht]) hne
        · intro ht
          rw [ht]
          exact if_pos rfl
      · rw [if_neg heq, if_neg (fun hkey => heq (Prod.mk.inj hkey).2),
          if_neg (fun hkey => heq (Prod.mk.inj hkey).2)]
  · have hbacked := hmoved.backed asset
    have hreleased := hmoved.released
    rw [measureAt_share hevent, share, share]
    dsimp only
    by_cases hasset : asset = event.info.prize.assetId
    · rw [if_pos hasset] at hbacked
      rw [if_pos hasset, if_pos hasset, ← hreleased, Nat.mul_add]
      omega
    · rw [if_neg hasset] at hbacked
      rw [if_neg hasset, if_neg hasset]
      omega

/-! ### Releases -/

/-- A release changes the ledger only. -/
theorem releaseRemainingPrizes_eq (s : Store T) (prize : AirdropPrize T) (count : Nat) :
    ∃ assets, releaseRemainingPrizes s prize count = { s with assets := assets } := by
  unfold releaseRemainingPrizes
  split
  · exact ⟨s.assets, rfl⟩
  · split
    · exact ⟨_, rfl⟩
    · exact ⟨s.assets, rfl⟩

/-- Releasing nothing does nothing, so that the check for it may be left out. -/
theorem releaseRemainingPrizes_of_pos (s : Store T) (prize : AirdropPrize T) (count : Nat) :
    (if count > 0 then releaseRemainingPrizes s prize count else s) = releaseRemainingPrizes s prize count := by
  split
  · rfl
  · rename_i hcount
    rw [releaseRemainingPrizes, if_pos (Nat.eq_zero_of_not_pos hcount)]

/-- An event's slots are released from its own share of the hold. -/
theorem Sound.released (h : Sound L s) (hevent : s.events.get id = some event) {count : Nat}
    (hcount : count ≤ outstanding event.info.prize event.status) (hmax : count ≤ event.info.prize.maxWinners)
    (asset : T.fungibles.AssetId) :
    L.balanceOnHold (releaseRemainingPrizes s event.info.prize count).assets asset T.airdropPotId +
      (if asset = event.info.prize.assetId then event.info.prize.assetAmount * count else 0) =
        L.balanceOnHold s.assets asset T.airdropPotId := by
  have hfits := (h.proper id event hevent).fits
  have hamount : event.info.prize.assetAmount * count ≤ T.balanceMax :=
    (Nat.mul_le_mul_left _ hmax).trans hfits
  have hmul : saturatingMul T event.info.prize.assetAmount count = event.info.prize.assetAmount * count :=
    Nat.min_eq_left hamount
  have hheld : event.info.prize.assetAmount * count ≤
      L.balanceOnHold s.assets event.info.prize.assetId T.airdropPotId := by
    have hshare := s.events.measureAt_le_sumOf (share event.info.prize.assetId) id
    rw [measureAt_share hevent, share, if_pos rfl] at hshare
    rw [h.backed]
    exact (Nat.mul_le_mul_left _ hcount).trans hshare
  unfold releaseRemainingPrizes
  split
  · rename_i hzero
    rw [hzero, Nat.mul_zero, ite_self, Nat.add_zero]
  · rw [hmul]
    obtain ⟨l', hrelease, hbalance⟩ := L.releasedBestEffort s.assets event.info.prize.assetId T.airdropPotId
      (event.info.prize.assetAmount * count)
    rw [hrelease]
    dsimp only
    rw [hbalance]
    by_cases hasset : asset = event.info.prize.assetId
    · rw [if_pos ⟨hasset, rfl⟩, if_pos hasset, hasset]
      omega
    · rw [if_neg fun hand => hasset hand.1, if_neg hasset]
      omega

/-- The slots of an event are at most its winners. -/
theorem Sound.outstanding_le (h : Sound L s) (hevent : s.events.get id = some event) :
    outstanding event.info.prize event.status ≤ event.info.prize.maxWinners := by
  have hfits := h.fits id event hevent
  cases hstatus : event.status with
  | scheduled => exact le_rfl
  | registering total => exact le_rfl
  | drawWinners total effective added key =>
    rw [hstatus] at hfits
    exact hfits.1
  | claiming total effective claimed =>
    rw [hstatus] at hfits
    exact (Nat.sub_le _ _).trans hfits.1
  | clearingRegistrations total effective claimed cleaned =>
    rw [hstatus] at hfits
    exact (Nat.sub_le _ _).trans hfits.1
  | clearingWinners total effective claimed cleaned =>
    rw [hstatus] at hfits
    exact (Nat.sub_le _ _).trans hfits.1
  | finalizing effective claimed =>
    rw [hstatus] at hfits
    exact (Nat.sub_le _ _).trans hfits.1

/-- An event with nothing stored of it but its entropy is dropped, and all that it owes is released. -/
theorem Sound.dropped (h : Sound L s) (hevent : s.events.get id = some event)
    (hregistrations : s.registrationCount id = 0) (hwinners : s.winnerCount id = 0)
    (count : Nat) {entropy : StorageMap EventId Nat}
    (hentropy : ∀ id', id' ≠ id → entropy.get id' = s.eventEntropy.get id')
    (hgone : entropy.get id = none) (hcount : count = outstanding event.info.prize event.status) :
    Sound L { releaseRemainingPrizes s event.info.prize count with
      actionSchedule := s.actionSchedule.remove (nextActionScheduledAt event.info event.status, id)
      eventEntropy := entropy
      events := s.events.remove id } := by
  have hreleased := h.released hevent hcount.le (hcount.le.trans (h.outstanding_le hevent))
  obtain ⟨assets, heq⟩ := releaseRemainingPrizes_eq s event.info.prize count
  rw [heq] at hreleased ⊢
  refine h.drop ⟨rfl, ⟨fun _ _ => rfl, fun _ _ => rfl, hentropy⟩, ⟨hregistrations, hwinners, hgone⟩,
    fun t id' => ?_, fun asset => ?_⟩
  · dsimp only
    rw [StorageMap.get_remove]
    by_cases hid : id' = id
    · rw [hid, h.agenda, hevent]
      refine ⟨fun hget => ?_, fun hne => absurd rfl hne.1⟩
      split at hget
      · cases hget
      · rename_i hne
        have hin := (h.agenda t id).mp hget
        obtain ⟨event', hevent', ht⟩ := hin
        cases hevent.symm.trans hevent'
        exact absurd (by rw [ht]) hne
    · rw [if_neg fun hkey => hid (Prod.mk.inj hkey).2]
      exact ⟨fun hget => ⟨hid, hget⟩, fun hand => hand.2⟩
  · rw [measureAt_share hevent, share, ← hcount]
    exact hreleased asset

end Steps

end Individuality.Airdrop
