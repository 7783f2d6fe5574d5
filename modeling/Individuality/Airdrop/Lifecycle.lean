import Individuality.Airdrop.Prizes

/-! The lifecycle of an event keeps the prizes backed.

Each call is one move of one event: what it stores fits the status that it moves to,
and it gives up as many slots as it releases prizes for. The calls that are checked
ahead of their dispatch rely on the check for the status. -/
namespace Individuality.Airdrop
open Support
variable {T : Config} {L : LawfulFungibles T.fungibles} {s s' : Store T} {id : EventId}
  {event : ActiveEvent T}

/-! ### Changes of the ledger -/

/-- The ledger changes, and the holds of the pot do not. -/
theorem Sound.of_ledger (h : Sound L s) {assets : T.fungibles.Ledger}
    (supportedAssets : StorageMap T.fungibles.AssetId Nat)
    (hheld : ∀ asset, L.balanceOnHold assets asset T.airdropPotId =
      L.balanceOnHold s.assets asset T.airdropPotId) :
    Sound L { s with assets := assets, supportedAssets := supportedAssets } :=
  ⟨h.named, h.proper, h.fits, h.gone, h.agenda, fun asset => (hheld asset).trans (h.backed asset)⟩

theorem Sound.enableAsset (h : Sound L s) {assetId : T.fungibles.AssetId} {source : T.fungibles.AccountId}
    (hok : Airdrop.enableAsset s assetId source = .ok s') : Sound L s' := by
  simp only [Airdrop.enableAsset, bind_eq_ok, okOr_eq_ok, pure_eq_ok] at hok
  obtain ⟨-, -, assets, htransfer, rfl⟩ := hok
  exact h.of_ledger _ fun asset => L.transferred htransfer asset _

theorem Sound.disableAsset (h : Sound L s) {assetId : T.fungibles.AssetId}
    {beneficiary : T.fungibles.AccountId} (hok : Airdrop.disableAsset s assetId beneficiary = .ok s') :
    Sound L s' := by
  simp only [Airdrop.disableAsset, bind_eq_ok, okOr_eq_ok, pure_eq_ok] at hok
  obtain ⟨funded, -, assets, htransfer, rfl⟩ := hok
  exact h.of_ledger _ fun asset => L.transferred htransfer asset _

/-! ### Scheduling -/

theorem Sound.doSchedule (h : Sound L s) {info : EventInfo T} (hok : Airdrop.doSchedule s id info = .ok s') :
    Sound L s' := by
  simp only [Airdrop.doSchedule, checkedMul, bind_eq_ok, ensure_eq_ok, okOr_eq_ok, pure_eq_ok,
    StorageMap.contains_eq_false] at hok
  obtain ⟨-, hpos, -, hle, -, -, -, -, -, -, -, hnew, amount, ⟨-, hfits, rfl⟩, assets, hhold, rfl⟩ := hok
  obtain ⟨hregistrations, hwinners, hentropy⟩ := h.gone id hnew
  refine h.put ⟨rfl, rfl, ⟨hpos, hle, hfits⟩, ?_,
    ⟨hregistrations, hwinners, hentropy⟩, fun t id' => ?_, fun asset => ?_⟩
  · exact ⟨fun _ _ => rfl, fun _ _ => rfl, fun _ _ => rfl⟩
  · dsimp only
    rw [StorageMap.get_insert]
    by_cases hid : id' = id
    · rw [if_pos hid, hid]
      constructor
      · intro hget
        split at hget
        · rename_i hkey
          exact (Prod.mk.inj hkey).1
        · obtain ⟨event, hevent, -⟩ := (h.agenda t id).mp hget
          cases hnew.symm.trans hevent
      · intro ht
        rw [ht]
        exact if_pos rfl
    · rw [if_neg hid, if_neg fun hkey => hid (Prod.mk.inj hkey).2]
  · have hmeasure : s.events.measureAt (share asset) id = 0 := by
      rw [StorageMap.measureAt, hnew]
      rfl
    rw [hmeasure, L.held hhold, share, outstanding, Nat.add_zero]
    simp only [and_true]

theorem Sound.schedule (h : Sound L s) {source : T.fungibles.AccountId} {info : EventInfo T}
    (hok : Airdrop.schedule s source id info = .ok s') : Sound L s' := by
  simp only [Airdrop.schedule, bind_eq_ok, okOr_eq_ok] at hok
  obtain ⟨amount, -, assets, htransfer, hok⟩ := hok
  exact (h.of_ledger s.supportedAssets fun asset => L.transferred htransfer asset _).doSchedule hok

/-- An event that has drawn no winners and has no registrations is refunded and dropped. -/
theorem Sound.refunded (h : Sound L s) (hevent : s.events.get id = some event)
    (hstatus : event.status = .scheduled ∨ event.status = .registering 0) :
    Sound L (refundAndDropEvent s event) := by
  have hid := h.named id event hevent
  have hstored : s.registrationCount id = 0 ∧ s.winnerCount id = 0 ∧ s.eventEntropy.get id = none ∧
      event.info.prize.maxWinners = outstanding event.info.prize event.status := by
    have hfits := h.fits id event hevent
    rcases hstatus with hstatus | hstatus
    · rw [hstatus] at hfits ⊢
      exact ⟨hfits.1, hfits.2.1, hfits.2.2, rfl⟩
    · rw [hstatus] at hfits ⊢
      exact ⟨hfits.1, hfits.2.1, hfits.2.2, rfl⟩
  obtain ⟨hregistrations, hwinners, hentropy, hcount⟩ := hstored
  have hdropped := h.dropped hevent hregistrations hwinners _ (fun _ _ => rfl) hentropy hcount
  obtain ⟨assets, heq⟩ := releaseRemainingPrizes_eq s event.info.prize event.info.prize.maxWinners
  rw [refundAndDropEvent, hid]
  rw [heq] at hdropped ⊢
  exact hdropped

theorem Sound.doRemoveScheduled (h : Sound L s) (hok : Airdrop.doRemoveScheduled s id = .ok s') : Sound L s' := by
  simp only [Airdrop.doRemoveScheduled, bind_eq_ok, okOr_eq_ok, ensure_eq_ok, pure_eq_ok] at hok
  obtain ⟨event, hevent, -, hstatus, rfl⟩ := hok
  exact h.refunded hevent (.inl hstatus)

/-! ### Transitions -/

/-- A move that gives up no slots. -/
theorem Sound.kept (h : Sound L s) (hevent : s.events.get id = some event) (status : Status)
    (hevents : s'.events = s.events.insert id { event with status := status }) (helsewhere : Elsewhere s s' id)
    (hfits : Fits event.info.prize (s'.registrationCount id) (s'.winnerCount id) (s'.eventEntropy.get id) status)
    (hschedule : s'.actionSchedule = (Airdrop.transition s id event status).actionSchedule)
    (houtstanding : outstanding event.info.prize status = outstanding event.info.prize event.status)
    (hassets : s'.assets = s.assets) : Sound L s' := by
  refine h.moved hevent status 0 ⟨hevents, helsewhere, hfits, hschedule, houtstanding, fun asset => ?_⟩
  rw [Nat.mul_zero, ite_self, hassets]
  rfl

/-- A status with the same time leaves the schedule alone. -/
theorem schedule_of_same {status : Status}
    (h : nextActionScheduledAt event.info event.status = nextActionScheduledAt event.info status)
    (hschedule : s'.actionSchedule = s.actionSchedule) :
    s'.actionSchedule = (Airdrop.transition s id event status).actionSchedule :=
  hschedule.trans (if_neg (not_not.mpr h)).symm

/-- A transition that gives up no slots. -/
theorem Sound.transition (h : Sound L s) (hevent : s.events.get id = some event) {status : Status}
    (hfits : Fits event.info.prize (s.registrationCount id) (s.winnerCount id) (s.eventEntropy.get id) status)
    (houtstanding : outstanding event.info.prize status = outstanding event.info.prize event.status) :
    Sound L (Airdrop.transition s id event status) :=
  h.kept hevent status rfl ⟨fun _ _ => rfl, fun _ _ => rfl, fun _ _ => rfl⟩ hfits rfl houtstanding rfl

/-- A transition that releases the prizes of the slots that it gives up. -/
theorem Sound.release_transition (h : Sound L s) (hevent : s.events.get id = some event) (status : Status)
    (count : Nat) (entropy : StorageMap EventId Nat)
    (hentropy : ∀ id', id' ≠ id → entropy.get id' = s.eventEntropy.get id')
    (hfits : Fits event.info.prize (s.registrationCount id) (s.winnerCount id) (entropy.get id) status)
    (houtstanding : outstanding event.info.prize status + count = outstanding event.info.prize event.status) :
    Sound L (Airdrop.transition { releaseRemainingPrizes s event.info.prize count with eventEntropy := entropy }
      id event status) := by
  have hcount : count ≤ outstanding event.info.prize event.status := by omega
  have hreleased := h.released hevent hcount (hcount.trans (h.outstanding_le hevent))
  obtain ⟨assets, heq⟩ := releaseRemainingPrizes_eq s event.info.prize count
  rw [heq] at hreleased ⊢
  exact h.moved hevent status count
    ⟨rfl, ⟨fun _ _ => rfl, fun _ _ => rfl, hentropy⟩, hfits, rfl, houtstanding, hreleased⟩

theorem Sound.doCancel (h : Sound L s) (id : EventId) : Sound L (Airdrop.doCancel s id) := by
  unfold Airdrop.doCancel
  split
  · exact h
  · rename_i event hevent
    have hfits := h.fits id event hevent
    split
    · rename_i hstatus
      exact h.refunded hevent (.inl hstatus)
    · exact h
    · exact h
    · exact h
    · rename_i total hstatus
      rw [hstatus] at hfits
      have hsound := h.release_transition hevent (.clearingRegistrations total 0 0 0)
        event.info.prize.maxWinners s.eventEntropy (fun _ _ => rfl) ⟨Nat.zero_le _, by rw [hfits.2.1]⟩
        (by rw [hstatus]; exact Nat.zero_add _)
      obtain ⟨assets, heq⟩ := releaseRemainingPrizes_eq s event.info.prize event.info.prize.maxWinners
      rw [heq] at hsound ⊢
      exact hsound
    · rename_i total effective added key hstatus
      rw [hstatus] at hfits
      refine h.transition hevent ⟨hfits.1, ?_⟩ (by rw [hstatus]; rfl)
      have hadded := hfits.2.1.trans hfits.2.2
      omega
    · rename_i total effective claimed hstatus
      rw [hstatus] at hfits
      exact h.transition hevent hfits (by rw [hstatus]; rfl)

theorem Sound.startRegistration (h : Sound L s) (hevent : s.events.get id = some event)
    (hstatus : event.status = .scheduled) : Sound L (Airdrop.transition s id event (.registering 0)) := by
  have hfits := h.fits id event hevent
  rw [hstatus] at hfits
  exact h.transition hevent hfits (by rw [hstatus]; rfl)

theorem effectiveWinners_le {prize : AirdropPrize T} (hpos : 0 < prize.maxWinners) (total : Nat) :
    effectiveWinners prize total ≤ prize.maxWinners := by
  rw [effectiveWinners]
  omega

theorem Sound.closeRegistration (h : Sound L s) {randomness : Option Nat}
    (hok : closeRegistrationAuthorized randomness s id = .ok s') : Sound L s' := by
  simp only [closeRegistrationAuthorized, bind_eq_ok, okOr_eq_ok] at hok
  obtain ⟨event, hevent, hok⟩ := hok
  have hfits := h.fits id event hevent
  split at hok
  · rename_i total hstatus
    rw [hstatus] at hfits
    split at hok
    · rename_i hzero
      cases hok
      exact h.refunded hevent (.inr (by rw [hstatus, hzero]))
    · split at hok
      · cases hok
        exact h
      · rename_i target
        have hle := effectiveWinners_le (h.proper id event hevent).maxWinners_pos total
        have hsound := h.release_transition hevent
          (.drawWinners total (effectiveWinners event.info.prize total) 0 target)
          (event.info.prize.maxWinners - effectiveWinners event.info.prize total)
          (s.eventEntropy.insert id target) (fun id' hid => (StorageMap.get_insert _ _ _ _).trans (if_neg hid))
          ⟨hle, hfits.2.1.le, Nat.zero_le _⟩ (by rw [hstatus]; exact Nat.add_sub_cancel' hle)
        obtain ⟨assets, heq⟩ := releaseRemainingPrizes_eq s event.info.prize
          (event.info.prize.maxWinners - effectiveWinners event.info.prize total)
        cases hok
        rw [releaseRemainingPrizes_of_pos, heq]
        rw [heq] at hsound
        exact hsound
  · cases hok

/-! ### The draw -/

theorem addWinner_other {winners : StorageMap (EventId × Entry T) Nat} {k : EventId × Nat} {id' : EventId}
    (hid : id' ≠ id) : ((addWinner s id winners k).countOf fun k _ => k.1 = id') =
      winners.countOf fun k _ => k.1 = id' := by
  unfold addWinner
  split
  · refine StorageMap.countOf_eq_of_get fun k' v hk' => ?_
    rw [StorageMap.get_insert, if_neg]
    intro heq
    rw [heq] at hk'
    exact hid (of_decide_eq_true hk').symm
  · rfl

theorem addWinner_le (s : Store T) (id : EventId) (winners : StorageMap (EventId × Entry T) Nat) (k : EventId × Nat) :
    ((addWinner s id winners k).countOf fun k _ => k.1 = id) ≤ (winners.countOf fun k _ => k.1 = id) + 1 := by
  unfold addWinner
  split
  · rename_i registration _
    have hinsert := winners.countOf_insert (fun k _ => k.1 = id) (id, registration) k.2
    rw [if_pos (decide_eq_true rfl)] at hinsert
    omega
  · exact Nat.le_succ _

theorem foldl_addWinner_other (drawn : List (EventId × Nat)) (winners : StorageMap (EventId × Entry T) Nat)
    {id' : EventId} (hid : id' ≠ id) : ((drawn.foldl (addWinner s id) winners).countOf fun k _ => k.1 = id') =
      winners.countOf fun k _ => k.1 = id' := by
  induction drawn generalizing winners with
  | nil => rfl
  | cons k drawn ih => exact (ih _).trans (addWinner_other hid)

/-- Each ticket that is drawn adds one winner at most. -/
theorem foldl_addWinner_le (s : Store T) (id : EventId) (drawn : List (EventId × Nat))
    (winners : StorageMap (EventId × Entry T) Nat) :
    ((drawn.foldl (addWinner s id) winners).countOf fun k _ => k.1 = id) ≤
      (winners.countOf fun k _ => k.1 = id) + drawn.length := by
  induction drawn generalizing winners with
  | nil => exact le_rfl
  | cons k drawn ih =>
    have hrest := ih (addWinner s id winners k)
    have hfirst := addWinner_le s id winners k
    rw [List.foldl_cons, List.length_cons]
    omega

theorem Sound.drawWinners (h : Sound L s) (hok : drawWinnersAuthorized s id = .ok s') : Sound L s' := by
  simp only [drawWinnersAuthorized, bind_eq_ok, okOr_eq_ok] at hok
  obtain ⟨event, hevent, hok⟩ := hok
  have hfits := h.fits id event hevent
  have hproper := h.proper id event hevent
  split at hok
  · rename_i total effective added key hstatus
    rw [hstatus] at hfits
    obtain ⟨heffective, hwinners, hadded⟩ := hfits
    have hlength := List.length_take_le (min (effective - added) T.drawLimit) (drawOrder s id key)
    generalize (drawOrder s id key).take (min (effective - added) T.drawLimit) = drawn at hok hlength
    have hmax : U32.saturatingAdd added drawn.length = added + drawn.length := by
      have hle := hproper.maxWinners_le
      rw [maxWinners] at hle
      exact U32.saturatingAdd_eq (by rw [U32.max]; omega)
    have hcount := foldl_addWinner_le s id drawn s.winners
    cases hok
    refine h.kept hevent (.drawWinners total effective (U32.saturatingAdd added drawn.length)
      ((drawn.getLast?.map Prod.snd).getD key)) rfl ?_ ⟨heffective, ?_, ?_⟩
      (schedule_of_same (by rw [hstatus]; rfl) rfl) (by rw [hstatus]; rfl) rfl
    · exact ⟨fun _ _ => rfl, fun id' hid => foldl_addWinner_other drawn s.winners hid, fun _ _ => rfl⟩
    · rw [hmax]
      exact hcount.trans (Nat.add_le_add_right hwinners _)
    · rw [hmax]
      omega
  · cases hok

theorem Sound.closeDrawing (h : Sound L s) (hok : closeDrawingAuthorized s id = .ok s') : Sound L s' := by
  simp only [closeDrawingAuthorized, bind_eq_ok, okOr_eq_ok] at hok
  obtain ⟨event, hevent, hok⟩ := hok
  have hfits := h.fits id event hevent
  split at hok
  · rename_i total effective added key hstatus
    rw [hstatus] at hfits
    cases hok
    refine h.transition hevent ⟨hfits.1, ?_⟩ (by rw [hstatus]; rfl)
    have hadded := hfits.2.1.trans hfits.2.2
    omega
  · cases hok

/-! ### The end of an event -/

theorem Sound.closeClaiming (h : Sound L s) (hok : closeClaimingAuthorized s id = .ok s') : Sound L s' := by
  simp only [closeClaimingAuthorized, bind_eq_ok, okOr_eq_ok] at hok
  obtain ⟨event, hevent, hok⟩ := hok
  have hfits := h.fits id event hevent
  split at hok
  · rename_i total effective claimed hstatus
    rw [hstatus] at hfits
    cases hok
    exact h.transition hevent hfits (by rw [hstatus]; rfl)
  · cases hok

theorem Sound.cleanUpRegistrations (h : Sound L s) (hok : cleanUpRegistrationsAuthorized s id = .ok s') :
    Sound L s' := by
  simp only [cleanUpRegistrationsAuthorized, bind_eq_ok, okOr_eq_ok] at hok
  obtain ⟨event, hevent, hok⟩ := hok
  have hfits := h.fits id event hevent
  have hothers := @StorageMap.countOf_clearPrefix_of_ne _ _ _ _ _ ticketKey s.registrations id T.clearLimit
  split at hok
  · rename_i total effective claimed cleaned hstatus
    rw [hstatus] at hfits
    split at hok
    · rename_i hlength
      have hnone := StorageMap.countOf_clearPrefix_eq_zero hlength
      cases hok
      exact h.kept hevent (.clearingWinners total effective claimed 0) rfl
        ⟨fun _ hid => hothers hid, fun _ _ => rfl, fun _ _ => rfl⟩ ⟨hfits.1, hfits.2, hnone⟩ rfl
        (by rw [hstatus]; rfl) rfl
    · cases hok
      exact h.kept hevent (.clearingRegistrations total effective claimed _) rfl
        ⟨fun _ hid => hothers hid, fun _ _ => rfl, fun _ _ => rfl⟩ hfits
        (schedule_of_same (by rw [hstatus]; rfl) rfl) (by rw [hstatus]; rfl) rfl
  · cases hok

theorem Sound.cleanUpWinners (h : Sound L s) (hok : cleanUpWinnersAuthorized s id = .ok s') : Sound L s' := by
  simp only [cleanUpWinnersAuthorized, bind_eq_ok, okOr_eq_ok] at hok
  obtain ⟨event, hevent, hok⟩ := hok
  have hfits := h.fits id event hevent
  have hothers := @StorageMap.countOf_clearPrefix_of_ne _ _ _ _ _ winnerRank s.winners id T.clearLimit
  have hfewer : ((s.winners.clearPrefix winnerRank id T.clearLimit).1.countOf fun k _ => k.1 = id) ≤
      s.winnerCount id := StorageMap.countOf_clearPrefix_le _
  split at hok
  · rename_i total effective claimed cleaned hstatus
    rw [hstatus] at hfits
    obtain ⟨heffective, hclaimed, hregistrations⟩ := hfits
    have hclaimed' := (Nat.add_le_add_left hfewer claimed).trans hclaimed
    split at hok
    · rename_i hlength
      have hnone := StorageMap.countOf_clearPrefix_eq_zero hlength
      cases hok
      exact h.kept hevent (.finalizing effective claimed) rfl
        ⟨fun _ _ => rfl, fun _ hid => hothers hid, fun _ _ => rfl⟩
        ⟨heffective, hclaimed', hregistrations, hnone⟩ rfl (by rw [hstatus]; rfl) rfl
    · cases hok
      exact h.kept hevent (.clearingWinners total effective claimed _) rfl
        ⟨fun _ _ => rfl, fun _ hid => hothers hid, fun _ _ => rfl⟩ ⟨heffective, hclaimed', hregistrations⟩
        (schedule_of_same (by rw [hstatus]; rfl) rfl) (by rw [hstatus]; rfl) rfl
  · cases hok

theorem Sound.finalize (h : Sound L s) (hok : finalizeAuthorized s id = .ok s') : Sound L s' := by
  simp only [finalizeAuthorized, bind_eq_ok, okOr_eq_ok] at hok
  obtain ⟨event, hevent, hok⟩ := hok
  have hfits := h.fits id event hevent
  split at hok
  · rename_i effective claimed hstatus
    rw [hstatus] at hfits
    have hdropped := h.dropped hevent hfits.2.2.1 hfits.2.2.2 (effective - claimed)
      (fun id' hid => (StorageMap.get_remove s.eventEntropy id id').trans (if_neg hid))
      ((StorageMap.get_remove _ _ _).trans (if_pos rfl)) (by rw [hstatus]; rfl)
    obtain ⟨assets, heq⟩ := releaseRemainingPrizes_eq s event.info.prize (effective - claimed)
    cases hok
    rw [releaseRemainingPrizes_of_pos, heq]
    rw [heq] at hdropped
    exact hdropped
  · cases hok

/-! ### Participants -/

theorem Sound.registerSlot (h : Sound L s) {slot : Nat} {entry : Entry T}
    (hok : Airdrop.registerSlot s id slot entry = .ok s') : Sound L s' := by
  simp only [Airdrop.registerSlot, bind_eq_ok, okOr_eq_ok] at hok
  obtain ⟨event, hevent, hok⟩ := hok
  have hfits := h.fits id event hevent
  split at hok
  · rename_i total hstatus
    rw [hstatus] at hfits
    simp only [bind_eq_ok, ensure_eq_ok, pure_eq_ok, StorageMap.contains_eq_false] at hok
    obtain ⟨-, hfree, -, -, rfl⟩ := hok
    have hinsert : ∀ id', ((s.registrations.insert (id, slot) entry).countOf fun k _ => k.1 = id') =
        s.registrationCount id' + if id = id' then 1 else 0 := by
      intro id'
      have hcount := s.registrations.countOf_insert (fun k _ => k.1 = id') (id, slot) entry
      rw [StorageMap.countAt, hfree] at hcount
      simp only [Option.any_none, Bool.false_eq_true, if_false, decide_eq_true_iff, Nat.add_zero] at hcount
      exact hcount
    refine h.kept hevent (.registering (total + 1)) rfl ?_ ⟨?_, hfits.2⟩
      (schedule_of_same (by rw [hstatus]; rfl) rfl) (by rw [hstatus]; rfl) rfl
    · exact ⟨fun id' hid => (hinsert id').trans (by rw [if_neg hid.symm]; rfl), fun _ _ => rfl, fun _ _ => rfl⟩
    · exact (hinsert id).trans (by rw [if_pos rfl, hfits.1])
  · cases hok

/-- What an accepted claim has found, and what it leaves. -/
structure Claimed (L : LawfulFungibles T.fungibles) (s s' : Store T) (id : EventId) (registrant : Entry T)
    (event : ActiveEvent T) (total effective claimed : Nat) : Prop where
  event_eq : s.events.get id = some event
  status_eq : event.status = .claiming total effective claimed
  winner : ∃ slot, s.winners.get (id, registrant) = some slot
  balance : ∀ asset, L.balanceOnHold s'.assets asset T.airdropPotId +
    (if asset = event.info.prize.assetId then event.info.prize.assetAmount else 0) =
      L.balanceOnHold s.assets asset T.airdropPotId
  store : ∃ assets, s' = { s with
    assets := assets
    winners := s.winners.remove (id, registrant)
    events := s.events.insert id
      { event with status := .claiming total effective (U32.saturatingAdd claimed 1) } }

theorem doClaim_ok (L : LawfulFungibles T.fungibles) {now : Nat} {registrant : Entry T}
    {beneficiary : T.fungibles.AccountId} (hok : doClaim now s id registrant beneficiary = .ok s') :
    ∃ event total effective claimed, Claimed L s s' id registrant event total effective claimed := by
  simp only [doClaim, bind_eq_ok, okOr_eq_ok] at hok
  obtain ⟨event, hevent, hok⟩ := hok
  split at hok
  · rename_i total effective claimed hstatus
    simp only [bind_eq_ok, ensure_eq_ok, okOr_eq_ok, pure_eq_ok] at hok
    obtain ⟨-, -, -, -, slot, hslot, ⟨released, l⟩, hrelease, assets, htransfer, rfl⟩ := hok
    obtain ⟨-, hbalance⟩ := L.released hrelease
    refine ⟨event, total, effective, claimed, hevent, hstatus, ⟨slot, hslot⟩, fun asset => ?_, ⟨assets, rfl⟩⟩
    have hreleased := hbalance asset T.airdropPotId
    rw [L.transferred htransfer]
    simp only [and_true] at hreleased
    exact hreleased
  · cases hok

theorem Sound.doClaim (h : Sound L s) {now : Nat} {registrant : Entry T} {beneficiary : T.fungibles.AccountId}
    (hok : Airdrop.doClaim now s id registrant beneficiary = .ok s') : Sound L s' := by
  obtain ⟨event, total, effective, claimed, hevent, hstatus, ⟨slot, hslot⟩, hbalance, assets, heq⟩ :=
    doClaim_ok L hok
  have hfits := h.fits id event hevent
  have hle := (h.proper id event hevent).maxWinners_le
  rw [hstatus] at hfits
  obtain ⟨heffective, hclaimed⟩ := hfits
  have hremove : ∀ id', ((s.winners.remove (id, registrant)).countOf fun k _ => k.1 = id') +
      (if id = id' then 1 else 0) = s.winnerCount id' := by
    intro id'
    have hcount := s.winners.countOf_remove (fun k _ => k.1 = id') (id, registrant)
    rw [StorageMap.countAt, hslot, Option.any_some] at hcount
    simp only [decide_eq_true_iff] at hcount
    exact hcount
  have hself := hremove id
  rw [if_pos rfl] at hself
  have hmax : U32.saturatingAdd claimed 1 = claimed + 1 := by
    rw [maxWinners] at hle
    exact U32.saturatingAdd_eq (by rw [U32.max]; omega)
  rw [heq] at hbalance ⊢
  refine h.moved hevent (.claiming total effective (U32.saturatingAdd claimed 1)) 1
    ⟨rfl, ⟨fun _ _ => rfl, fun id' hid => ?_, fun _ _ => rfl⟩, ⟨heffective, ?_⟩,
      (schedule_of_same (by rw [hstatus]; rfl) rfl), ?_, fun asset => ?_⟩
  · have hother := hremove id'
    rw [if_neg hid.symm] at hother
    exact hother
  · rw [hmax]
    show claimed + 1 + ((s.winners.remove (id, registrant)).countOf fun k _ => k.1 = id) ≤ effective
    omega
  · rw [hstatus, hmax]
    simp only [outstanding]
    omega
  · rw [Nat.mul_one]
    exact hbalance asset

end Individuality.Airdrop
