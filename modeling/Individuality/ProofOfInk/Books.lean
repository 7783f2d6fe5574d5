import Individuality.ProofOfInk.Profiles

/-! The books of proof of ink balance.

Each call keeps the books, as long as there are ids to reserve: six ways lead out of being
a candidate, and each of them takes off what the way in has put on. An id that is handed
out again, at the end of the ids, is the one thing that breaks them. -/
namespace Individuality.ProofOfInk
open Support
open MobRule (Judgement Truth)
variable {T : Config} {s s' t : Store T} {c c' : Chain T} {a : Action T} {env : Env T} {account : T.AccountId}
  {status : Candidate T} {cred : Credibility T} {selection : Selection T}

/-! ### Applications -/

/-- A candidate changes, but neither its allocation nor its design nor its id does. -/
theorem Books.of_referrals {new : Profile} (h : Books s) (hreferrals : Referrals s')
    (hprofile : ∀ b, s'.profile b = if b = account then new else s.profile b)
    (hselectedCount : s'.selectedCount = s.selectedCount) (hdesign : new.design = (s.profile account).design)
    (hreserved : new.reserved = (s.profile account).reserved) (howned : ∀ id, s'.ownedDesign id = s.ownedDesign id)
    (hknown : ∀ id, s'.people.contains id = true → s.people.contains id = true)
    (hdesigns : s'.committedDesigns = s.committedDesigns) (hcount : s'.allocationCount = s.allocationCount)
    (hregistry : s'.registry = s.registry) : Books s' where
  toReferrals := hreferrals
  counted := by rw [hcount, hselectedCount, h.counted]
  designs := by
    rw [hdesigns]
    refine h.designs.congr fun holder => ?_
    cases holder with
    | inl b =>
      show (s'.profile b).design = (s.profile b).design
      rw [hprofile]
      split
      · rename_i hb
        rw [hb, hdesign]
      · rfl
    | inr id => exact howned id
  distinct := h.distinct.congr fun b => by
    rw [hprofile]
    split
    · rename_i hb
      rw [hb, hreserved]
    · rfl
  reserved b id hid := by
    rw [hregistry]
    refine h.reserved b id ?_
    rw [hprofile] at hid
    split at hid
    · rename_i hb
      rw [hb, ← hreserved]
      exact hid
    · exact hid
  known id hid := by
    rw [hregistry]
    exact h.known id (hknown id hid)
  registry := by
    rw [hregistry]
    exact h.registry

theorem Books.applied (h : Books s) {deposit : T.Deposit} {world : T.World} (hnone : s.candidates.get account = none) :
    Books (putCandidate { s with world := world } account (newApplication env account (.deposit deposit))) :=
  have hnobody : s.profile account = (newApplication env account (.deposit deposit)).profile := profile_of_none hnone
  h.same (same_of_put hnobody rfl rfl rfl rfl rfl rfl rfl rfl)

theorem Books.invited (h : Books s) {inviter : T.AccountId} {ticket : T.Ticket}
    (hnone : s.candidates.get account = none) : Books (invite env s account inviter ticket) := by
  have hprofile : ∀ b, (invite env s account inviter ticket).profile b =
      if b = account then (newApplication env account (.invited ticket)).profile else s.profile b := profile_of_insert rfl
  have hcount : (invite env s account inviter ticket).selectedCount + (s.profile account).isSelected.toNat =
      s.selectedCount + false.toNat := selectedCount_insert (newApplication env account (.invited ticket)) rfl
  have hnobody := profile_of_none hnone
  rw [hnobody] at hcount
  have hreferrer : ∀ b, ((invite env s account inviter ticket).profile b).referrer = (s.profile b).referrer := by
    intro b
    rw [hprofile]
    split
    · rename_i hb
      rw [hb, hnobody]
      rfl
    · rfl
  refine h.of_referrals ⟨h.nodup, fun referrer b => ?_, h.room, ?_⟩ hprofile hcount (by rw [hnobody]; rfl)
    (by rw [hnobody]; rfl) (fun _ => rfl) (fun _ hid => hid) rfl rfl rfl
  · rw [hreferrer]
    exact h.referrals referrer b
  · refine h.references.inc (by rw [hnobody]; exact Bool.false_ne_true) ?_ fun b hb => by rw [hprofile, if_neg hb]
    rw [hprofile, if_pos rfl]
    rfl

/-- The tickets of a person who has one fewer. -/
theorem tickets_spent {referrer pos : Nat} {tickets : BoundedVec T.Ticket T.maxActiveReferrals}
    (hpos : pos < tickets.length)
    (htickets : s'.referralTickets = if (tickets.remove pos).toList = [] then s.referralTickets.remove referrer
      else s.referralTickets.insert referrer (tickets.remove pos)) (r : Nat) :
    s'.tickets r = if r = referrer then tickets.length - 1 else s.tickets r := by
  have hlength : (tickets.remove pos).length = tickets.length - 1 := by
    rw [BoundedVec.length, BoundedVec.toList_remove, List.length_eraseIdx]
    exact if_pos hpos
  rw [Store.tickets, htickets]
  split
  · rename_i hempty
    rw [StorageMap.get_remove]
    split
    · rw [← hlength, BoundedVec.length, hempty]
      rfl
    · rfl
  · rw [StorageMap.get_insert]
    split
    · exact hlength
    · rfl

theorem Books.referred (h : Books s) {referrer pos : Nat} {record : Person T}
    {active : BoundedVec T.AccountId T.maxActiveReferrals} {tickets : BoundedVec T.Ticket T.maxActiveReferrals}
    {referralTickets : StorageMap Nat (BoundedVec T.Ticket T.maxActiveReferrals)}
    (hnone : s.candidates.get account = none) (hrecord : s.people.get referrer = some record)
    (hpushed : record.activeReferrals.tryPush account = some active)
    (htickets : s.referralTickets.get referrer = some tickets) (hpos : pos < tickets.length)
    (hspent : referralTickets = if (tickets.remove pos).toList = [] then s.referralTickets.remove referrer
      else s.referralTickets.insert referrer (tickets.remove pos)) :
    Books (refer env s account referrer record active referralTickets) := by
  generalize hs' : refer env s account referrer record active referralTickets = s'
  have hprofile : ∀ b, s'.profile b =
      if b = account then (newApplication env account (.referred referrer)).profile else s.profile b :=
    profile_of_insert (by rw [← hs']; rfl)
  have hcount : s'.selectedCount + (s.profile account).isSelected.toNat = s.selectedCount + false.toNat :=
    selectedCount_insert (newApplication env account (.referred referrer)) (by rw [← hs']; rfl)
  have hnobody := profile_of_none hnone
  rw [hnobody] at hcount
  have hbefore : s.active referrer = record.activeReferrals.toList := by
    rw [Store.active, hrecord]
    rfl
  have hactive : ∀ r, s'.active r = if r = referrer then s.active referrer ++ [account] else s.active r := by
    intro r
    rw [Store.active, ← hs']
    show (((s.people.insert referrer _).get r).map fun person : Person T => person.activeReferrals.toList).getD [] = _
    rw [StorageMap.get_insert]
    split
    · rw [hbefore]
      exact BoundedVec.tryPush_eq_some.mp hpushed
    · rfl
  have hnew : account ∉ s.active referrer := by
    rw [h.referrals, hnobody]
    exact fun hnone => by cases hnone
  have howned : ∀ id, s'.ownedDesign id = s.ownedDesign id := by
    intro id
    rw [Store.ownedDesign, ← hs']
    show ((s.people.insert referrer _).get id).bind _ = _
    rw [StorageMap.get_insert]
    split
    · rename_i hid
      rw [hid, Store.ownedDesign, hrecord]
      rfl
    · rfl
  have hknown : ∀ id, s'.people.contains id = true → s.people.contains id = true := by
    intro id hid
    rw [← hs'] at hid
    have hid : (s.people.insert referrer _).contains id = true := hid
    rw [StorageMap.contains, StorageMap.get_insert] at hid
    split at hid
    · rename_i hid'
      rw [hid', StorageMap.contains, hrecord]
      rfl
    · exact hid
  have hleft : ∀ r, s'.tickets r = if r = referrer then tickets.length - 1 else s.tickets r :=
    tickets_spent hpos (by rw [← hs']; exact hspent)
  have hissued : s.tickets referrer = tickets.length := by
    rw [Store.tickets, htickets]
    rfl
  refine h.of_referrals ⟨fun r => ?_, fun r b => ?_, fun r => ?_, ?_⟩ hprofile hcount (by rw [hnobody]; rfl)
    (by rw [hnobody]; rfl) howned hknown (by rw [← hs']; rfl) (by rw [← hs']; rfl) (by rw [← hs']; rfl)
  · rw [hactive]
    split
    · exact (h.nodup referrer).append (List.nodup_singleton account) (List.disjoint_singleton.mpr hnew)
    · exact h.nodup r
  · rw [hactive, hprofile]
    by_cases hb : b = account
    · rw [if_pos hb, hb]
      have hself : (newApplication env account (Credibility.referred (T := T) referrer)).profile.referrer = some referrer := rfl
      rw [hself]
      split
      · rename_i hr
        rw [hr]
        exact ⟨fun _ => rfl, fun _ => List.mem_append_right _ (List.mem_singleton_self account)⟩
      · rename_i hr
        rw [h.referrals, hnobody]
        exact ⟨fun hnone => (by cases hnone), fun hsome => absurd (Option.some.inj hsome).symm hr⟩
    · rw [if_neg hb, ← h.referrals]
      split
      · rename_i hr
        rw [hr, List.mem_append, List.mem_singleton]
        exact or_iff_left hb
      · exact Iff.rfl
  · have hroom := h.room referrer
    rw [hactive, hleft]
    split
    · rw [List.length_append, List.length_singleton]
      omega
    · exact h.room r
  · have hsufficients : s'.sufficients = References.inc s.sufficients account := by
      rw [← hs']
      rfl
    rw [hsufficients]
    refine h.references.inc (by rw [hnobody]; exact Bool.false_ne_true) ?_ fun b hb => by rw [hprofile, if_neg hb]
    rw [hprofile, if_pos rfl]
    rfl

theorem Books.flaked (h : Books s) {entropy : Entropy} {entropySince : Nat}
    (hget : s.candidates.get account = some (.applied cred entropy entropySince)) :
    Books (dropCandidate (release s account cred) account) := by
  have hgo := letGo_release s account cred
  have hremoved : (dropCandidate (release s account cred) account).candidates = s.candidates.remove account := by
    show (release s account cred).candidates.remove account = _
    rw [hgo.candidates]
  have hprofile := profile_of_get hget
  have hcount := selectedCount_remove hremoved
  rw [hprofile] at hcount
  refine h.of_referrals (h.toReferrals.letGo hgo (by rw [hprofile]; rfl) (by rw [hprofile]; rfl)
    (profile_of_remove hremoved) rfl (Bool.and_false _).symm rfl rfl rfl) (profile_of_remove hremoved) hcount
    (by rw [hprofile]; rfl) (by rw [hprofile]; rfl) hgo.ownedDesign hgo.known hgo.committedDesigns hgo.allocationCount
    hgo.registry

/-! ### Ids -/

/-- An id that is reserved was not reserved before. -/
theorem reserveId_ok {registry registry' : People.Store T.people} {requireId : Option Nat} {id : Nat}
    (hb : People.Bindings registry) (hids : requireId = none → registry.nextPersonalId + 1 ≤ U64.max)
    (hok : reserveId registry requireId = .ok (id, registry')) :
    registry.reservedPersonalId.get id = none ∧ registry'.reservedPersonalId.get id = some () ∧
      People.Onward none registry registry' ∧ People.Bindings registry' := by
  cases requireId with
  | some required =>
    simp only [reserveId, bind_eq_ok, mapError_eq_ok, pure_eq_ok] at hok
    obtain ⟨renewed, hrenewed, heq⟩ := hok
    cases heq
    refine ⟨?_, ?_, People.onward_renewIdReservation hrenewed, hb.renewIdReservation hrenewed⟩
    · simp only [People.renewIdReservation, bind_eq_ok, ensure_eq_ok, not_or, Bool.not_eq_true,
        StorageMap.contains_eq_false] at hrenewed
      exact hrenewed.choose_spec.1.2.2
    · simp only [People.renewIdReservation, bind_eq_ok, pure_eq_ok] at hrenewed
      obtain ⟨-, -, rfl⟩ := hrenewed
      exact (StorageMap.get_insert _ _ _ _).trans (if_pos rfl)
  | none =>
    cases hok
    refine ⟨?_, (StorageMap.get_insert _ _ _ _).trans (if_pos rfl), People.onward_reserveNewId registry,
      hb.reserveNewId (hids rfl)⟩
    cases hget : registry.reservedPersonalId.get registry.nextPersonalId with
    | none => rfl
    | some u => exact absurd (hb.below_reserved _ hget) (Nat.lt_irrefl _)

/-! ### Commitments -/

/-- A candidate stays as credible as it was. -/
theorem Referrals.keep {new : Profile} (h : Referrals s)
    (hprofile : ∀ b, s'.profile b = if b = account then new else s.profile b)
    (hreferrer : new.referrer = (s.profile account).referrer)
    (hheld : new.isReferenced = (s.profile account).isReferenced) (hpeople : s'.people = s.people)
    (htickets : s'.referralTickets = s.referralTickets) (hsufficients : s'.sufficients = s.sufficients) : Referrals s' := by
  refine ⟨fun referrer => ?_, fun referrer b => ?_, fun referrer => ?_, ?_⟩
  · rw [active_congr hpeople]
    exact h.nodup referrer
  · rw [active_congr hpeople, hprofile, h.referrals]
    split
    · rename_i hb
      rw [hb, hreferrer]
    · exact Iff.rfl
  · rw [active_congr hpeople, tickets_congr htickets]
    exact h.room referrer
  · rw [hsufficients]
    refine h.references.congr fun b => ?_
    rw [hprofile]
    split
    · rename_i hb
      rw [hb, hheld]
    · exact Iff.rfl

theorem committedDesigns_markDesign (s : Store T) (design : InkSpec) (status : DesignStatus) :
    (markDesign s design status).committedDesigns = design.elective.elim s.committedDesigns
      fun key => s.committedDesigns.insert key status := by
  unfold markDesign
  cases design.elective <;> rfl

theorem committedDesigns_freeDesign (s : Store T) (design : InkSpec) :
    (freeDesign s design).committedDesigns = design.elective.elim s.committedDesigns
      fun key => s.committedDesigns.remove key := by
  unfold freeDesign
  cases design.elective <;> rfl

theorem Books.committed (h : Books s) {requireId : Option Nat} {entropy : Entropy} {entropySince : Nat}
    {registry : People.Store T.people} {world : T.World}
    (hids : requireId = none → s.registry.nextPersonalId + 1 ≤ U64.max)
    (hget : s.candidates.get account = some (.applied selection.cred entropy entropySince))
    (hroom : s.allocationCount < s.configuration.maximum)
    (hreserved : reserveId s.registry requireId = .ok (selection.reserved, registry))
    (hfree : ∀ key, selection.design.elective = some key → s.committedDesigns.get key = none) :
    Books (selected s account selection registry world) := by
  obtain ⟨hfreeId, hid, honward, hregistry⟩ := reserveId_ok h.registry hids hreserved
  generalize hs' : selected s account selection registry world = s'
  have hprofile : ∀ b, s'.profile b = if b = account then (Candidate.selected selection).profile else s.profile b :=
    profile_of_insert (by rw [← hs']; rfl)
  have hself : s'.profile account = (Candidate.selected selection).profile := (hprofile account).trans (if_pos rfl)
  have hother : ∀ b, b ≠ account → s'.profile b = s.profile b := fun b hb => (hprofile b).trans (if_neg hb)
  have hold := profile_of_get hget
  have hcount : s'.selectedCount + (s.profile account).isSelected.toNat = s.selectedCount + true.toNat :=
    selectedCount_insert (.selected selection) (by rw [← hs']; rfl)
  rw [hold] at hcount
  have howned : ∀ id, s'.ownedDesign id = s.ownedDesign id := ownedDesign_congr (by rw [← hs']; rfl)
  have hregistry' : s'.registry = registry := by
    rw [← hs']
    rfl
  refine {
    toReferrals := h.toReferrals.keep hprofile (by rw [hold]; rfl) (by rw [hold]; rfl) (by rw [← hs']; rfl)
      (by rw [← hs']; rfl) (by rw [← hs']; rfl)
    counted := ?_
    designs := ?_
    distinct := ?_
    reserved := fun b id hclaimed => ?_
    known := fun id hknown => ?_
    registry := hregistry' ▸ hregistry }
  · have hcounted := h.counted
    have hmax := s.configuration.maximum_le
    have hincreased : s'.allocationCount = s.allocationCount + 1 := by
      rw [← hs']
      exact U32.saturatingInc_eq (by omega)
    rw [hincreased, hcounted]
    exact hcount.symm
  · have hdesign : s'.designOf (.inl account) = selection.design.elective.map (·, .reserved) :=
      congrArg Profile.design hself
    have hnone : s.designOf (.inl account) = none := congrArg Profile.design hold
    cases hkey : selection.design.elective with
    | none =>
      have hsame : s'.committedDesigns = s.committedDesigns := by
        rw [← hs']
        refine (committedDesigns_markDesign s selection.design .reserved).trans ?_
        rw [hkey]
        rfl
      rw [hsame]
      refine h.designs.congr fun holder => ?_
      by_cases hholder : holder = .inl account
      · rw [hholder, hdesign, hnone, hkey]
        rfl
      · exact designOf_other hother howned holder hholder
    | some key =>
      have hmarked : s'.committedDesigns = s.committedDesigns.insert key .reserved := by
        rw [← hs']
        refine (committedDesigns_markDesign s selection.design .reserved).trans ?_
        rw [hkey]
        rfl
      rw [hmarked]
      exact h.designs.take hnone (by rw [hdesign, hkey]; rfl) (designOf_other hother howned) (hfree key hkey)
  · refine h.distinct.take (h := account) (k := selection.reserved) (by rw [hself]; rfl) (fun b hb => ?_)
      fun b hb => by rw [hother b hb]
    cases hfreeId.symm.trans (h.reserved b _ hb)
  · rw [hregistry']
    by_cases hb : b = account
    · rw [hb, hself] at hclaimed
      cases hclaimed
      exact hid
    · rw [hother b hb] at hclaimed
      exact honward.reserved id (fun hnone => by cases hnone) (h.reserved b id hclaimed)
  · rw [hregistry']
    refine honward.people id (h.known id ?_)
    rw [← hs'] at hknown
    exact hknown

/-! ### Exits -/

/-- A candidate who is dismissed, whatever is done with its credibility. -/
theorem Books.dismissed (h : Books s) {registry : People.Store T.people}
    (hget : s.candidates.get account = some (.selected selection)) (hgo : LetGo s t account selection.cred true)
    (hcancelled : People.cancelIdReservation s.registry selection.reserved = .ok registry) :
    Books (dismissed t account selection registry) := by
  generalize hs' : ProofOfInk.dismissed t account selection registry = s'
  have hremoved : s'.candidates = s.candidates.remove account := by
    rw [← hs', ← hgo.candidates]
    rfl
  have hprofile := profile_of_remove hremoved
  have hself : s'.profile account = .nobody := (hprofile account).trans (if_pos rfl)
  have hother : ∀ b, b ≠ account → s'.profile b = s.profile b := fun b hb => (hprofile b).trans (if_neg hb)
  have hold := profile_of_get hget
  have hcount := selectedCount_remove hremoved
  rw [hold] at hcount
  have howned : ∀ id, s'.ownedDesign id = s.ownedDesign id :=
    fun id => (ownedDesign_congr (s := t) (by rw [← hs']; rfl) id).trans (hgo.ownedDesign id)
  have hregistry' : s'.registry = registry := by
    rw [← hs']
    rfl
  have honward := People.onward_cancelIdReservation hcancelled
  refine {
    toReferrals := h.toReferrals.letGo hgo (by rw [hold]; rfl) (by rw [hold]; rfl) hprofile rfl
      (Bool.and_false _).symm (by rw [← hs']; rfl) (by rw [← hs']; rfl) (by rw [← hs']; rfl)
    counted := ?_
    designs := ?_
    distinct := h.distinct.release (h := account) (by rw [hself]; rfl) fun b hb => by rw [hother b hb]
    reserved := fun b id hclaimed => ?_
    known := fun id hknown => ?_
    registry := hregistry' ▸ h.registry.cancelIdReservation hcancelled }
  · have hless : s'.allocationCount = t.allocationCount - 1 := by
      rw [← hs']
      rfl
    rw [hless, hgo.allocationCount, h.counted, ← hcount]
    rfl
  · have hdesign : s.designOf (.inl account) = selection.design.elective.map (·, .reserved) :=
      congrArg Profile.design hold
    have hnone : s'.designOf (.inl account) = none := congrArg Profile.design hself
    cases hkey : selection.design.elective with
    | none =>
      have hsame : s'.committedDesigns = s.committedDesigns := by
        rw [← hs', ← hgo.committedDesigns]
        refine (committedDesigns_freeDesign t selection.design).trans ?_
        rw [hkey]
        rfl
      rw [hsame]
      refine h.designs.congr fun holder => ?_
      by_cases hholder : holder = .inl account
      · rw [hholder, hdesign, hnone, hkey]
        rfl
      · exact designOf_other hother howned holder hholder
    | some key =>
      have hfreed : s'.committedDesigns = s.committedDesigns.remove key := by
        rw [← hs', ← hgo.committedDesigns]
        refine (committedDesigns_freeDesign t selection.design).trans ?_
        rw [hkey]
        rfl
      rw [hfreed]
      exact h.designs.release (by rw [hdesign, hkey]; rfl) hnone (designOf_other hother howned)
  · rw [hregistry']
    have hb : b ≠ account := by
      rintro rfl
      rw [hself] at hclaimed
      cases hclaimed
    rw [hother b hb] at hclaimed
    refine honward.reserved id (fun heq => hb ?_) (h.reserved b id hclaimed)
    exact h.distinct b account id hclaimed ((congrArg Profile.reserved hold).trans heq)
  · rw [hregistry']
    refine honward.people id (h.known id (hgo.known id ?_))
    rw [← hs'] at hknown
    exact hknown

theorem Books.proven (h : Books s) (hget : s.candidates.get account = some (.selected selection)) :
    Books (putCandidate
      (markDesign (honour { s with allocationCount := s.allocationCount - 1 } account selection.cred)
        selection.design .committed) account
      (.proven selection.design selection.reserved selection.cred.isReferred selection.cred.isInvited)) := by
  have hgo := letGo_honour { s with allocationCount := s.allocationCount - 1 } account selection.cred
  revert hgo
  generalize honour { s with allocationCount := s.allocationCount - 1 } account selection.cred = t
  intro hgo
  generalize hs' : putCandidate (markDesign t selection.design .committed) account (.proven selection.design
    selection.reserved selection.cred.isReferred selection.cred.isInvited) = s'
  have hinserted : s'.candidates = s.candidates.insert account (.proven selection.design
      selection.reserved selection.cred.isReferred selection.cred.isInvited) := by
    rw [← hs']
    show t.candidates.insert account _ = _
    rw [hgo.candidates]
  have hprofile := profile_of_insert hinserted
  have hself := (hprofile account).trans (if_pos rfl)
  have hother : ∀ b, b ≠ account → s'.profile b = s.profile b := fun b hb => (hprofile b).trans (if_neg hb)
  have hold := profile_of_get hget
  have hcount := selectedCount_insert _ hinserted
  rw [hold] at hcount
  have howned : ∀ id, s'.ownedDesign id = s.ownedDesign id :=
    fun id => (ownedDesign_congr (s := t) (by rw [← hs']; rfl) id).trans (hgo.ownedDesign id)
  have hregistry' : s'.registry = s.registry := by
    rw [← hs']
    exact hgo.registry
  have hcommitted : t.committedDesigns = s.committedDesigns := hgo.committedDesigns
  have hreferrals : Referrals { s with allocationCount := s.allocationCount - 1 } :=
    ⟨h.nodup, h.referrals, h.room, h.references⟩
  have hreserved : ∀ b, (s'.profile b).reserved = (s.profile b).reserved := by
    intro b
    by_cases hb : b = account
    · rw [hb, hself, hold]
      rfl
    · rw [hother b hb]
  refine {
    toReferrals := hreferrals.letGo hgo ?_ ?_ hprofile rfl (Bool.and_true _).symm (by rw [← hs']; rfl)
      (by rw [← hs']; rfl) (by rw [← hs']; rfl)
    counted := ?_
    designs := ?_
    distinct := h.distinct.congr hreserved
    reserved := fun b id hclaimed => ?_
    known := fun id hknown => ?_
    registry := hregistry' ▸ h.registry }
  · exact congrArg Profile.referrer hold
  · exact congrArg Profile.isReferenced hold
  · have hless : s'.allocationCount = s.allocationCount - 1 := by
      rw [← hs']
      exact hgo.allocationCount
    rw [hless, h.counted]
    exact (Nat.sub_eq_of_eq_add hcount.symm)
  · have hbefore : s.designOf (.inl account) = selection.design.elective.map (·, .reserved) :=
      congrArg Profile.design hold
    have hafter : s'.designOf (.inl account) = selection.design.elective.map (·, .committed) :=
      congrArg Profile.design hself
    cases hkey : selection.design.elective with
    | none =>
      have hsame : s'.committedDesigns = s.committedDesigns := by
        rw [← hs', ← hcommitted]
        refine (committedDesigns_markDesign t selection.design .committed).trans ?_
        rw [hkey]
        rfl
      rw [hsame]
      refine h.designs.congr fun holder => ?_
      by_cases hholder : holder = .inl account
      · rw [hholder, hbefore, hafter, hkey]
        rfl
      · exact designOf_other hother howned holder hholder
    | some key =>
      have hmarked : s'.committedDesigns = s.committedDesigns.insert key .committed := by
        rw [← hs', ← hcommitted]
        refine (committedDesigns_markDesign t selection.design .committed).trans ?_
        rw [hkey]
        rfl
      rw [hmarked]
      exact h.designs.change (by rw [hbefore, hkey]; rfl) (by rw [hafter, hkey]; rfl) (designOf_other hother howned)
  · rw [hregistry']
    rw [hreserved] at hclaimed
    exact h.reserved b id hclaimed
  · rw [hregistry']
    refine h.known id (hgo.known id ?_)
    rw [← hs'] at hknown
    exact hknown

/-- A reserved id is no person's. -/
theorem Books.unknown (h : Books s) {id : Nat} (hid : (s.profile account).reserved = some id) : s.people.get id = none := by
  cases hget : s.people.get id with
  | none => rfl
  | some person =>
    obtain ⟨record, hrecord⟩ := StorageMap.contains_eq_true.mp (h.known id (StorageMap.contains_eq_true.mpr ⟨person, hget⟩))
    cases (h.registry.reserved id (h.reserved account id hid)).symm.trans hrecord

/-- A person is new under an id that has just been taken. -/
theorem Books.registered (h : Books s) {design : InkSpec} {id : Nat} {wasReferred wasInvited : Bool}
    (hreg : Registered s account design id wasReferred wasInvited s') : Books s' := by
  have hprofile := profile_of_remove hreg.candidates
  have hself := (hprofile account).trans (if_pos rfl)
  have hother : ∀ b, b ≠ account → s'.profile b = s.profile b := fun b hb => (hprofile b).trans (if_neg hb)
  have hold := profile_of_get hreg.proven
  have hcount := selectedCount_remove hreg.candidates
  rw [hold] at hcount
  obtain ⟨key, hrecognized⟩ := hreg.recognized
  have hreserved := h.reserved account id (congrArg Profile.reserved hold)
  have honward := People.onward_recognizePersonhood hrecognized
  have hunknown := h.unknown (congrArg Profile.reserved hold)
  have howned : ∀ id', s'.ownedDesign id' =
      if id' = id then design.elective.map (·, .committed) else s.ownedDesign id' := by
    intro id'
    rw [Store.ownedDesign, hreg.people, StorageMap.get_insert]
    split
    · rfl
    · rfl
  have hactive : ∀ referrer, s'.active referrer = s.active referrer := by
    intro referrer
    rw [Store.active, hreg.people, StorageMap.get_insert]
    split
    · rename_i hid
      rw [hid, Store.active, hunknown]
      rfl
    · rfl
  have hnobody : s.designOf (.inr id) = none := by
    show s.ownedDesign id = none
    rw [Store.ownedDesign, hunknown]
    rfl
  have holders : ∀ holder, holder ≠ .inl account → holder ≠ .inr id → s'.designOf holder = s.designOf holder := by
    intro holder hne hne'
    cases holder with
    | inl b => exact congrArg Profile.design (hother b fun hb => hne (congrArg Sum.inl hb))
    | inr id' => exact (howned id').trans (if_neg fun hid => hne' (congrArg Sum.inr hid))
  refine {
    nodup := fun referrer => hactive referrer ▸ h.nodup referrer
    referrals := fun referrer b => ?_
    room := fun referrer => ?_
    references := references_of_letGo true h.references hprofile (Bool.and_false _).symm ?_
    counted := ?_
    designs := ?_
    distinct := h.distinct.release (h := account) (by rw [hself]; rfl) fun b hb => by rw [hother b hb]
    reserved := fun b id' hclaimed => ?_
    known := fun id' hknown => ?_
    registry := h.registry.recognizePersonhood hrecognized }
  · rw [hactive, h.referrals]
    by_cases hb : b = account
    · rw [hb, hself, hold]
      exact Iff.rfl
    · rw [hother b hb]
  · rw [hactive, tickets_congr hreg.referralTickets]
    exact h.room referrer
  · rw [hreg.sufficients, hold]
    rfl
  · rw [hreg.allocationCount, h.counted]
    exact hcount.symm
  · rw [hreg.committedDesigns]
    have hbefore : s.designOf (.inl account) = design.elective.map (·, .committed) := congrArg Profile.design hold
    have hafter : s'.designOf (.inl account) = none := congrArg Profile.design hself
    have hperson : s'.designOf (.inr id) = design.elective.map (·, .committed) := (howned id).trans (if_pos rfl)
    cases hkey : design.elective with
    | none =>
      rw [hkey] at hbefore hperson
      refine h.designs.congr fun holder => ?_
      by_cases hholder : holder = .inl account
      · rw [hholder, hbefore, hafter]
        rfl
      · by_cases hholder' : holder = .inr id
        · rw [hholder', hperson]
          exact hnobody.symm
        · exact holders holder hholder hholder'
    | some key =>
      rw [hkey] at hbefore hperson
      exact h.designs.pass hbefore hafter hnobody hperson holders
  · have hb : b ≠ account := by
      rintro rfl
      rw [hself] at hclaimed
      cases hclaimed
    rw [hother b hb] at hclaimed
    refine honward.reserved id' (fun heq => hb ?_) (h.reserved b id' hclaimed)
    exact h.distinct b account id' hclaimed ((congrArg Profile.reserved hold).trans heq)
  · by_cases hid : id' = id
    · rw [hid]
      rcases People.recognizePersonhood_ok hrecognized with ⟨_, members, -, -, -, -, hs'⟩ | ⟨_, _, hkey, -⟩
      · rw [hs', StorageMap.contains_eq_true]
        exact ⟨_, (StorageMap.get_insert _ _ _ _).trans (if_pos rfl)⟩
      · cases hkey
    · refine honward.people id' (h.known id' ?_)
      rw [StorageMap.contains, hreg.people, StorageMap.get_insert, if_neg hid] at hknown
      exact hknown

/-! ### Tickets -/

/-- The tickets of one person are others, within the limit. -/
theorem Books.tickets (h : Books s) {referrer : Nat} {tickets : BoundedVec T.Ticket T.maxActiveReferrals}
    (hroom : (s.active referrer).length + tickets.length ≤ T.maxActiveReferrals) :
    Books { s with referralTickets := s.referralTickets.insert referrer tickets } where
  nodup := h.nodup
  referrals := h.referrals
  room r := by
    show (s.active r).length + (((s.referralTickets.insert referrer tickets).get r).map BoundedVec.length).getD 0 ≤ _
    rw [StorageMap.get_insert]
    split
    · rename_i hr
      rw [hr]
      exact hroom
    · exact h.room r
  references := h.references
  counted := h.counted
  designs := h.designs
  distinct := h.distinct
  reserved := h.reserved
  known := h.known
  registry := h.registry

/-- A record is written that has the same design and the same referrals. -/
theorem same_of_record {referrer : Nat} {record record' : Person T} (hframe : Frame s t)
    (hget : s.people.get referrer = some record) (hdesign : record'.design = record.design)
    (hactive : record'.activeReferrals = record.activeReferrals) :
    Same s { t with people := s.people.insert referrer record' } where
  profile := profile_congr hframe.candidates
  selectedCount := by
    show t.selectedCount = _
    rw [Store.selectedCount, Store.selectedCount, hframe.candidates]
  ownedDesign id := by
    show ((s.people.insert referrer record').get id).bind _ = _
    rw [StorageMap.get_insert]
    split
    · rename_i hid
      rw [hid, Store.ownedDesign, hget, Option.bind_some, Option.bind_some, hdesign]
    · rfl
  active r := by
    show (((s.people.insert referrer record').get r).map _).getD _ = _
    rw [StorageMap.get_insert]
    split
    · rename_i hr
      rw [hr, Store.active, hget, Option.map_some, Option.map_some, hactive]
    · rfl
  tickets := tickets_congr hframe.referralTickets
  known id hid := by
    have hid : (s.people.insert referrer record').contains id = true := hid
    rw [StorageMap.contains, StorageMap.get_insert] at hid
    split at hid
    · rename_i hid'
      rw [hid', StorageMap.contains, hget]
      rfl
    · exact hid
  committedDesigns := hframe.committedDesigns
  allocationCount := hframe.allocationCount
  registry := hframe.registry
  sufficients := hframe.sufficients

/-! ### Runs -/

/-- How many ids a call reserves that are new. -/
def Call.reserved : Call T → Nat
  | .commit _ none => 1
  | _ => 0

def Action.reserved : Action T → Nat
  | .submit tx => tx.call.reserved
  | .dispatch _ call => call.reserved
  | .people action => action.reserved
  | _ => 0

/-- There are ids left for those that an action reserves. -/
def LeavesIds (c : Chain T) (a : Action T) : Prop := c.store.registry.nextPersonalId + a.reserved ≤ U64.max

instance (c : Chain T) (a : Action T) : Decidable (LeavesIds c a) := inferInstanceAs (Decidable (_ ≤ _))

theorem reserved_of_asCall {call : Call T} (h : a.asCall = some call) : a.reserved = call.reserved := by
  cases a with
  | submit tx =>
    cases h
    rfl
  | dispatch origin call' =>
    cases h
    rfl
  | _ => cases h

namespace Books

/-- The people pallet is in another state, where the ids of candidates are reserved and nobody is forgotten. -/
theorem withRegistry (h : Books s) {registry : People.Store T.people}
    (hreserved : ∀ id ∈ s.reservedIds, registry.reservedPersonalId.get id = some ())
    (hknown : ∀ id, s.people.contains id = true → registry.people.contains id = true)
    (hregistry : People.Bindings registry) : Books { s with registry := registry } where
  nodup := h.nodup
  referrals := h.referrals
  room := h.room
  references := h.references
  counted := h.counted
  designs := h.designs
  distinct := h.distinct
  reserved account id hid := by
    refine hreserved id (mem_reservedIds.mpr ?_)
    have hid : (s.profile account).reserved = some id := hid
    cases hget : s.candidates.get account with
    | none =>
      rw [profile_of_none hget] at hid
      cases hid
    | some status =>
      rw [profile_of_get hget] at hid
      refine ⟨account, status, hget, ?_⟩
      cases status with
      | _ => exact hid
  known := hknown
  registry := hregistry

/-- The ids of candidates are reserved. -/
theorem reserved_of_mem (h : Books s) {id : Nat} (hid : id ∈ s.reservedIds) :
    s.registry.reservedPersonalId.get id = some () := by
  obtain ⟨account, status, hget, hstatus⟩ := mem_reservedIds.mp hid
  refine h.reserved account id ?_
  rw [profile_of_get hget]
  cases status with
  | _ => exact hstatus

/-- The people pallet moves on, and leaves the ids of candidates reserved. -/
theorem onward (h : Books s) {registry : People.Store T.people} {taken : Option Nat}
    (honward : People.Onward taken s.registry registry) (hspared : ∀ id ∈ taken, id ∉ s.reservedIds)
    (hregistry : People.Bindings registry) : Books { s with registry := registry } :=
  h.withRegistry (fun id hid => honward.reserved id (fun htaken => hspared id htaken hid) (h.reserved_of_mem hid))
    (fun id hid => honward.people id (h.known id hid)) hregistry

theorem prepared (h : Books s) (hprepared : Prepared s t) : Books t := by
  obtain ⟨nonces, rfl⟩ := hprepared
  have honward : People.Onward none s.registry { s.registry with nonces := nonces } := .of_eq rfl rfl
  exact h.onward honward nofun (h.registry.frame _ _ nonces)

theorem closeCase (h : Books s) (ticket : Nat) : Books (ProofOfInk.closeCase s ticket) :=
  h.same ⟨fun _ => rfl, rfl, fun _ => rfl, fun _ => rfl, fun _ => rfl, fun _ hid => hid, rfl, rfl, rfl, rfl⟩

theorem judged (h : Books s) {ticket : Nat} {judgement : Judgement} (hjudged : Judged s ticket account judgement s') :
    Books s' := by
  cases hjudged with
  | contempt hawaits _ hcancelled => exact h.dismissed hawaits.1 (letGo_forfeit_contemptuous s account _) hcancelled
  | exhausted hawaits _ _ hcancelled => exact h.dismissed hawaits.1 (letGo_forfeit_bad s account _) hcancelled
  | retried hawaits _ _ _ => exact h.same (same_of_put (profile_of_get hawaits.1) rfl rfl rfl rfl rfl rfl rfl rfl)
  | initDone hawaits _ _ => exact h.same (same_of_put (profile_of_get hawaits.1) rfl rfl rfl rfl rfl rfl rfl rfl)
  | proven hawaits _ _ => exact h.proven hawaits.1

theorem effect (h : Books s) {who : Option T.AccountId} {call : Call T} (hids : s.registry.nextPersonalId + call.reserved ≤ U64.max)
    (heffect : Effect env s who call s') : Books s' := by
  cases heffect with
  | applied hnone _ => exact h.applied hnone
  | referred hnone hrecord hpushed htickets hpos hspent => exact h.referred hnone hrecord hpushed htickets hpos hspent
  | invited hnone => exact h.invited hnone
  | rerolled hget => exact h.same (same_of_put (profile_of_get hget) rfl rfl rfl rfl rfl rfl rfl rfl)
  | @committed account choice requireId cred entropy entropySince id registry design allocation world len count hget
      hroom hreserved hfree _ _ =>
    have hcommitted := @Books.committed _ _ account ⟨env.now, cred, id, entropy, design, allocation, none, 0⟩ h
    refine hcommitted (fun hnew => ?_) hget hroom hreserved hfree
    rw [hnew] at hids
    exact hids
  | submitted hget _ _ => exact h.same (same_of_put (profile_of_get hget) rfl rfl rfl rfl rfl rfl rfl rfl)
  | allocated hget _ _ => exact h.same (same_of_put (profile_of_get hget) rfl rfl rfl rfl rfl rfl rfl rfl)
  | timedOut hget _ hcancelled => exact h.dismissed hget (letGo_forfeit_bad s _ _) hcancelled
  | flaked hget => exact h.flaked hget
  | registered hreg => exact h.registered hreg
  | @ticketSet _ referrer ticket record tickets hget hroom =>
    refine h.tickets ?_
    rw [Store.active, hget]
    exact hroom
  | @ticketCancelled _ referrer ticket tickets hget =>
    refine h.tickets (le_trans (Nat.add_le_add_left ?_ _) (h.room referrer))
    rw [Store.tickets, hget]
    exact List.length_filter_le _ _
  | rewarded hget hframe => exact h.same (same_of_record hframe hget rfl rfl)
  | frame hframe => exact h.same hframe.same

/-- Every action keeps the books. -/
theorem step (h : Books c.store) (hids : LeavesIds c a) (hstep : Step c a c') : Books c'.store := by
  cases hstep with
  | @call _ call t s' hcall hprepared heffect =>
    have ht := h.prepared hprepared
    rcases heffect with rfl | heffect
    · exact ht
    · refine ht.effect ?_ heffect
      obtain ⟨nonces, rfl⟩ := hprepared
      rw [LeavesIds, reserved_of_asCall hcall] at hids
      exact hids
  | @judged ticket judgement case s' _ hjudged =>
    rcases hjudged with rfl | hjudged
    · exact h.closeCase ticket
    · exact (h.closeCase ticket).judged hjudged
  | @people action d hspared hexec =>
    obtain ⟨registry, happlied, hstore⟩ := People.exec_ok hexec
    subst hstore
    have hleft : People.LeavesIds ⟨c.store.registry, c.env.people⟩ action := hids
    exact h.onward (People.onward_apply h.registry hleft happlied) hspared (h.registry.apply hleft happlied)
  | elsewhere =>
    exact h.same ⟨fun _ => rfl, rfl, fun _ => rfl, fun _ => rfl, fun _ => rfl, fun _ hid => hid, rfl, rfl, rfl, rfl⟩

theorem genesis (members : T.people.memberService.World) (world : T.World) (env : Env T) :
    Books (ProofOfInk.genesis members world env).store where
  nodup _ := List.nodup_nil
  referrals _ _ := ⟨nofun, nofun⟩
  room _ := Nat.zero_le _
  references _ := ⟨nofun, fun _ => rfl⟩
  counted := rfl
  designs := Owned.empty fun holder => by
    cases holder with
    | _ => rfl
  distinct _ _ _ h := nomatch h
  reserved _ _ h := nomatch h
  known _ h := nomatch h
  registry := People.bindings_genesis members env.people

end Books

theorem books_reached {members : T.people.memberService.World} {world : T.World} {G : Chain T → Action T → Prop}
    (hG : ∀ c a, G c a → LeavesIds c a) (h : Reaches exec G (genesis members world env) c) : Books c.store :=
  h.invariant (I := fun c => Books c.store) (Books.genesis members world env) fun t a _ ht ha hexec =>
    ht.step (hG t a ha) (exec_step hexec)

/-! ### What the books say -/

/-- A selected candidate holds the elective design. -/
def SelectedWith (s : Store T) (family design : Nat) (account : T.AccountId) : Prop :=
  ∃ selection, s.candidates.get account = some (.selected selection) ∧
    selection.design = .designedElective family design

/-- A proven candidate or a person holds the elective design. -/
def CommittedBy (s : Store T) (family design : Nat) : T.AccountId ⊕ Nat → Prop
  | .inl account => ∃ id wasReferred wasInvited,
    s.candidates.get account = some (.proven (.designedElective family design) id wasReferred wasInvited)
  | .inr id => ∃ person, s.people.get id = some person ∧ person.design = some (.designedElective family design)

/-- A candidate who has not proven itself yet was referred by the person. -/
def ReferredBy (s : Store T) (referrer : Nat) (account : T.AccountId) : Prop :=
  (∃ entropy since, s.candidates.get account = some (.applied (.referred referrer) entropy since)) ∨
    ∃ selection, s.candidates.get account = some (.selected selection) ∧ selection.cred = .referred referrer

theorem elective_eq_some {design : InkSpec} {family index : Nat} :
    design.elective = some (family, index) ↔ design = .designedElective family index := by
  cases design <;> simp [InkSpec.elective]

theorem designOf_reserved {holder : T.AccountId ⊕ Nat} {family design : Nat} :
    s.designOf holder = some ((family, design), .reserved) ↔
      ∃ account, holder = .inl account ∧ SelectedWith s family design account := by
  cases holder with
  | inr id =>
    constructor
    · intro h
      obtain ⟨person, -, h⟩ := Option.bind_eq_some_iff.mp h
      obtain ⟨_, -, h⟩ := Option.map_eq_some_iff.mp h
      cases h
    · rintro ⟨_, h, -⟩
      cases h
  | inl account =>
    have hdesign : s.designOf (.inl account) = (s.profile account).design := rfl
    rw [hdesign]
    cases hget : s.candidates.get account with
    | none =>
      rw [profile_of_none hget]
      refine ⟨nofun, ?_⟩
      rintro ⟨_, h, selection, hget', -⟩
      cases h
      cases hget.symm.trans hget'
    | some status =>
      rw [profile_of_get hget]
      constructor
      · intro h
        cases status with
        | applied => cases h
        | proven =>
          obtain ⟨_, -, h⟩ := Option.map_eq_some_iff.mp h
          cases h
        | selected selection =>
          obtain ⟨_, hkey, h⟩ := Option.map_eq_some_iff.mp h
          cases h
          exact ⟨account, rfl, selection, hget, elective_eq_some.mp hkey⟩
      · rintro ⟨_, h, selection, hget', hheld⟩
        cases h
        cases hget.symm.trans hget'
        exact Option.map_eq_some_iff.mpr ⟨_, elective_eq_some.mpr hheld, rfl⟩

theorem designOf_committed {holder : T.AccountId ⊕ Nat} {family design : Nat} :
    s.designOf holder = some ((family, design), .committed) ↔ CommittedBy s family design holder := by
  cases holder with
  | inr id =>
    constructor
    · intro h
      obtain ⟨person, hget, h⟩ := Option.bind_eq_some_iff.mp h
      obtain ⟨_, hkey, h⟩ := Option.map_eq_some_iff.mp h
      cases h
      obtain ⟨spec, hspec, hkey⟩ := Option.bind_eq_some_iff.mp hkey
      rw [elective_eq_some.mp hkey] at hspec
      exact ⟨person, hget, hspec⟩
    · rintro ⟨person, hget, hspec⟩
      refine Option.bind_eq_some_iff.mpr ⟨person, hget, ?_⟩
      rw [hspec]
      rfl
  | inl account =>
    have hdesign : s.designOf (.inl account) = (s.profile account).design := rfl
    rw [hdesign]
    cases hget : s.candidates.get account with
    | none =>
      rw [profile_of_none hget]
      refine ⟨nofun, ?_⟩
      rintro ⟨_, _, _, hget'⟩
      cases hget.symm.trans hget'
    | some status =>
      rw [profile_of_get hget]
      constructor
      · intro h
        cases status with
        | applied => cases h
        | selected =>
          obtain ⟨_, -, h⟩ := Option.map_eq_some_iff.mp h
          cases h
        | proven spec id wasReferred wasInvited =>
          obtain ⟨_, hkey, h⟩ := Option.map_eq_some_iff.mp h
          cases h
          rw [elective_eq_some.mp hkey] at hget
          exact ⟨id, wasReferred, wasInvited, hget⟩
      · rintro ⟨id, wasReferred, wasInvited, hget'⟩
        cases hget.symm.trans hget'
        rfl

theorem profile_referrer {referrer : Nat} :
    (s.profile account).referrer = some referrer ↔ ReferredBy s referrer account := by
  have hcred : ∀ cred : Credibility T, cred.referrer = some referrer ↔ cred = .referred referrer := by
    intro cred
    cases cred <;> simp [Credibility.referrer]
  cases hget : s.candidates.get account with
  | none =>
    rw [profile_of_none hget]
    refine ⟨nofun, ?_⟩
    rintro (⟨_, _, hget'⟩ | ⟨_, hget', -⟩)
    · cases hget.symm.trans hget'
    · cases hget.symm.trans hget'
  | some status =>
    rw [profile_of_get hget]
    cases status with
    | applied cred entropy since =>
      refine (hcred cred).trans ⟨fun h => .inl ⟨entropy, since, h ▸ hget⟩, ?_⟩
      rintro (⟨_, _, hget'⟩ | ⟨_, hget', -⟩)
      · cases hget.symm.trans hget'
        rfl
      · cases hget.symm.trans hget'
    | selected selection =>
      refine (hcred selection.cred).trans ⟨fun h => .inr ⟨selection, hget, h⟩, ?_⟩
      rintro (⟨_, _, hget'⟩ | ⟨_, hget', h⟩)
      · cases hget.symm.trans hget'
      · cases hget.symm.trans hget'
        exact h
    | proven =>
      refine ⟨nofun, ?_⟩
      rintro (⟨_, _, hget'⟩ | ⟨_, hget', -⟩)
      · cases hget.symm.trans hget'
      · cases hget.symm.trans hget'

theorem profile_reserved (s : Store T) (account : T.AccountId) :
    (s.profile account).reserved = (s.candidates.get account).bind Candidate.reserved := by
  cases hget : s.candidates.get account with
  | none =>
    rw [profile_of_none hget]
    rfl
  | some status =>
    rw [profile_of_get hget]
    cases status <;> rfl

theorem profile_isReferenced (s : Store T) (account : T.AccountId) : (s.profile account).isReferenced =
    (s.candidates.get account).any fun status => status.isReferred || status.isInvited := by
  cases hget : s.candidates.get account with
  | none =>
    rw [profile_of_none hget]
    rfl
  | some status =>
    rw [profile_of_get hget]
    cases status <;> rfl

/-- In every state reached while there are ids to reserve: as many candidates are selected as are counted;
a design is reserved exactly for one selected candidate, and committed exactly by one proven
candidate or person; the ids of candidates are theirs alone and reserved; a person's referrals are the
candidates it has referred, each once, and with its tickets within the limit; and an account has one
reference while it is a referred or invited candidate, and none otherwise. -/
theorem books_balance {members : T.people.memberService.World} {world : T.World}
    (h : Reaches exec LeavesIds (genesis members world env) c) :
    c.store.allocationCount = (c.store.candidates.countOf fun _ status => status.asSelected.isSome) ∧
    (∀ family design, c.store.committedDesigns.get (family, design) = some .reserved ↔
      ∃! account, SelectedWith c.store family design account) ∧
    (∀ family design, c.store.committedDesigns.get (family, design) = some .committed ↔
      ∃! holder, CommittedBy c.store family design holder) ∧
    (∀ account account' id, (c.store.candidates.get account).bind Candidate.reserved = some id →
      (c.store.candidates.get account').bind Candidate.reserved = some id → account = account') ∧
    (∀ account id, (c.store.candidates.get account).bind Candidate.reserved = some id →
      c.store.registry.reservedPersonalId.contains id = true) ∧
    (∀ referrer person, c.store.people.get referrer = some person → person.activeReferrals.toList.Nodup ∧
      (∀ account, account ∈ person.activeReferrals.toList ↔ ReferredBy c.store referrer account) ∧
      person.activeReferrals.length + c.store.tickets referrer ≤ T.maxActiveReferrals) ∧
    (∀ referrer account, ReferredBy c.store referrer account → c.store.people.contains referrer = true) ∧
    ∀ account, c.store.sufficients account =
      if (c.store.candidates.get account).any (fun status => status.isReferred || status.isInvited) = true then 1 else 0 := by
  have hb : Books c.store := books_reached (fun _ _ h => h) h
  refine ⟨?_, fun family design => ?_, fun family design => ?_, fun account account' id h₁ h₂ => ?_,
    fun account id hid => ?_, fun referrer person hget => ?_, fun referrer account hreferred => ?_, fun account => ?_⟩
  · rw [hb.counted]
    refine StorageMap.countOf_congr fun _ status _ => ?_
    cases status <;> rfl
  · rw [hb.designs.existsUnique]
    constructor
    · rintro ⟨holder, hholder, hunique⟩
      obtain ⟨account, rfl, hselected⟩ := designOf_reserved.mp hholder
      exact ⟨account, hselected, fun b hb => Sum.inl.inj (hunique (.inl b) (designOf_reserved.mpr ⟨b, rfl, hb⟩))⟩
    · rintro ⟨account, hselected, hunique⟩
      refine ⟨.inl account, designOf_reserved.mpr ⟨account, rfl, hselected⟩, fun holder hholder => ?_⟩
      obtain ⟨b, rfl, hb⟩ := designOf_reserved.mp hholder
      exact congrArg Sum.inl (hunique b hb)
  · rw [hb.designs.existsUnique]
    exact existsUnique_congr fun holder => designOf_committed
  · rw [← profile_reserved] at h₁ h₂
    exact hb.distinct account account' id h₁ h₂
  · rw [← profile_reserved] at hid
    exact StorageMap.contains_eq_true.mpr ⟨(), hb.reserved account id hid⟩
  · have hactive : c.store.active referrer = person.activeReferrals.toList := by
      rw [Store.active, hget]
      rfl
    have hnodup := hb.nodup referrer
    have hroom := hb.room referrer
    rw [hactive] at hnodup hroom
    refine ⟨hnodup, fun account => ?_, hroom⟩
    rw [← hactive, hb.referrals, profile_referrer]
  · have hmem := (hb.referrals referrer account).mpr (profile_referrer.mpr hreferred)
    cases hget : c.store.people.get referrer with
    | none =>
      rw [Store.active, hget] at hmem
      cases hmem
    | some person => exact StorageMap.contains_eq_true.mpr ⟨person, hget⟩
  · rw [← profile_isReferenced]
    split
    · rename_i hheld
      exact (hb.references account).1 hheld
    · rename_i hheld
      exact (hb.references account).2 hheld

/-! ### Sample runs -/

/-- The accounts that deposit are listed; storage and rewards always succeed. A signature is what it signs with. -/
def sampleConfig : Config where
  people := People.sampleConfig
  World := List Nat
  Deposit := Unit
  Ticket := Nat
  TicketSignature := Nat
  KeySignature := Nat
  EvidenceHash := Nat
  ticketDecEq := inferInstance
  newDeposit world who := some ((), @List.cons Nat who world)
  dropDeposit world _ who := if @List.elem Nat _ who world then some (@List.erase Nat _ world who) else none
  burnDeposit world _ who := @List.erase Nat _ world who
  allocateStorage world _ _ _ := some world
  refreshAllocation world _ := some world
  transfer world _ _ _ := some world
  verifyTicket signature _ ticket := Nat.beq signature ticket
  verifyOwnership signature _ key := Nat.beq signature key
  accountBytes _ := Vector.replicate 32 0
  inviteRank key := (key : Nat × Nat).1
  proofOfInkPotId := (0 : Nat)
  maxActiveReferrals := 3
  maxRetryAttempts := 1
  maxReimbursementValues := 2
  maxActiveReferrals_le := by decide

def sampleEnv : Env sampleConfig :=
  ⟨⟨0, fun _ => true, fun _ => true⟩, fun _ => Vector.replicate 32 0, true⟩

def sampleGenesis : Chain sampleConfig := genesis [] [] sampleEnv

/-- Without the fast track. -/
def sampleSlow : ConfigRecord :=
  { fasttrackCount := 0, maximum_le := maximum_le_max, timeout_le := timeout_le_max }

/-- A family of three designs, the first of which an account commits to with a deposit. -/
def sampleCommit (account : Nat) (design : Nat) : List (Action sampleConfig) :=
  [.dispatch .manager (.addDesignFamily 0 (.designed 3) (Vector.replicate 32 0)),
    .dispatch (.signed account) .apply,
    .dispatch (.signed account) (.commit (.designedElective 0 design) none)]

/-- The account becomes a person, with the key `key`. -/
def sampleRegister (account key ticket : Nat) : List (Action sampleConfig) :=
  [.dispatch (.signed account) (.submitEvidence (0 : Nat)), .judged ticket (.truth .true),
    .dispatch (.signed account) (.registerNonReferred key account key)]

/-- Person 0 has registered, and refers account 2, which commits to another design. -/
def sampleReferral : List (Action sampleConfig) :=
  sampleCommit 1 0 ++ sampleRegister 1 5 0 ++
    [.dispatch (.person 0) (.setReferralTicket (7 : Nat)),
      .submit ⟨.signed (2 : Nat), some (.asApplyWithSig 0), .applyWithSignature 0 (7 : Nat) (7 : Nat)⟩,
      .submit ⟨.signed (2 : Nat), some (.asReferred 1), .commit (.designedElective 0 1) none⟩]

theorem books_balance_sample : ∃ c, Reaches exec LeavesIds sampleGenesis c ∧
    c.store.committedDesigns.get (0, 0) = some .committed ∧ c.store.committedDesigns.get (0, 1) = some .reserved ∧
    c.store.allocationCount = c.store.candidates.countOf fun _ status => status.asSelected.isSome := by
  obtain ⟨c, hreach, hdesigns⟩ := exists_reaches exec LeavesIds sampleGenesis sampleReferral
    (fun c => c.store.committedDesigns.get (0, 0) = some .committed ∧
      c.store.committedDesigns.get (0, 1) = some .reserved) (by decide +kernel)
  exact ⟨c, hreach, hdesigns.1, hdesigns.2, (books_balance (T := sampleConfig) hreach).1⟩

/-- The chain before any candidate, with the people pallet in another state. -/
def sampleWith (registry : People.Store sampleConfig.people) : Chain sampleConfig :=
  { sampleGenesis with store := { sampleGenesis.store with registry := registry } }

/-- Others may have reserved any number of ids. -/
theorem exists_registry (n : Nat) (hn : n ≤ U64.max) : ∃ registry, registry.nextPersonalId = n ∧
    Reaches exec (fun _ _ => True) sampleGenesis (sampleWith registry) := by
  induction n with
  | zero => exact ⟨sampleGenesis.store.registry, rfl, Reaches.refl _⟩
  | succ n ih =>
    obtain ⟨registry, hnext, hreach⟩ := ih (Nat.le_of_succ_le hn)
    have hreserved : exec (sampleWith registry) (.people .reserveNewId) =
        .ok (sampleWith (People.reserveNewId registry).2) := rfl
    refine ⟨(People.reserveNewId registry).2, ?_, hreach.tail trivial hreserved⟩
    show U64.saturatingAdd registry.nextPersonalId 1 = n + 1
    rw [hnext]
    exact U64.saturatingAdd_eq hn

/-- Two accounts commit, each with a new id. -/
theorem exists_commitments (registry : People.Store sampleConfig.people) : ∃ c,
    Reaches exec (fun _ _ => True) (sampleWith registry) c ∧
    (c.store.candidates.get (1 : Nat)).bind Candidate.reserved = some registry.nextPersonalId ∧
    (c.store.candidates.get (2 : Nat)).bind Candidate.reserved = some (U64.saturatingAdd registry.nextPersonalId 1) := by
  have hrun : ∃ c, (sampleCommit 1 0 ++ sampleCommit 2 1).foldlM exec (sampleWith registry) = .ok c ∧
      (c.store.candidates.get (1 : Nat)).bind Candidate.reserved = some registry.nextPersonalId ∧
      (c.store.candidates.get (2 : Nat)).bind Candidate.reserved = some (U64.saturatingAdd registry.nextPersonalId 1) :=
    ⟨_, rfl, rfl, rfl⟩
  obtain ⟨c, hfold, hids⟩ := hrun
  exact ⟨c, Reaches.of_foldlM hfold fun _ _ _ => trivial, hids⟩

/-- At the end of the ids two selected candidates have the same one. -/
theorem books_unbalanced : ∃ c, Reaches exec (fun _ _ => True) sampleGenesis c ∧ ∃ id,
    (c.store.candidates.get (1 : Nat)).bind Candidate.reserved = some id ∧
    (c.store.candidates.get (2 : Nat)).bind Candidate.reserved = some id := by
  obtain ⟨registry, hnext, hspent⟩ := exists_registry U64.max le_rfl
  obtain ⟨c, hreach, hfirst, hsecond⟩ := exists_commitments registry
  rw [hnext] at hfirst hsecond
  exact ⟨c, hspent.trans hreach, U64.max, hfirst, hsecond⟩

end Individuality.ProofOfInk
