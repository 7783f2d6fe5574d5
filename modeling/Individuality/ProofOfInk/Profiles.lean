import Individuality.ProofOfInk.Effects
import Individuality.People.Reservations
import Individuality.Support.Ownership

/-! What a candidate of proof of ink counts for.

Its `Profile` is an allocation, a design, a reserved id, a place among the referrals of a
person, and a reference on its account. `Books` says that everything that is counted or
listed elsewhere agrees with the profiles. A write that changes no profile keeps it
(`Same`); `LetGo` says what the settling of a credibility does to the referrals. -/
namespace Individuality.ProofOfInk
open Support
open MobRule (Judgement Truth)
variable {T : Config} {s s' t : Store T} {c c' : Chain T} {a : Action T} {env : Env T} {account : T.AccountId}
  {status : Candidate T} {cred : Credibility T} {selection : Selection T}

/-! ### What a candidate counts for -/

structure Profile where
  isSelected : Bool
  design : Option ((Nat × Nat) × DesignStatus)
  reserved : Option Nat
  referrer : Option Nat
  isReferenced : Bool

/-- The profile of an account that is no candidate. -/
def Profile.nobody : Profile := ⟨false, none, none, none, false⟩

/-- A reference is put on the account. -/
def Credibility.isReferenced (cred : Credibility T) : Bool := cred.isReferred || cred.isInvited

def Credibility.referrer : Credibility T → Option Nat
  | .referred who => some who
  | _ => none

def Candidate.profile : Candidate T → Profile
  | .applied cred _ _ => ⟨false, none, none, cred.referrer, cred.isReferenced⟩
  | .selected selection => ⟨true, selection.design.elective.map (·, .reserved), some selection.reserved,
      selection.cred.referrer, selection.cred.isReferenced⟩
  | .proven design reserved wasReferred wasInvited =>
    ⟨false, design.elective.map (·, .committed), some reserved, none, wasReferred || wasInvited⟩

namespace Store

def profile (s : Store T) (account : T.AccountId) : Profile :=
  ((s.candidates.get account).map Candidate.profile).getD .nobody

def selectedCount (s : Store T) : Nat := s.candidates.countOf fun _ status => status.profile.isSelected

/-- The elective design of a person. -/
def ownedDesign (s : Store T) (id : Nat) : Option ((Nat × Nat) × DesignStatus) :=
  (s.people.get id).bind fun person => (person.design.bind InkSpec.elective).map (·, .committed)

/-- The elective design that a candidate or a person holds. -/
def designOf (s : Store T) : T.AccountId ⊕ Nat → Option ((Nat × Nat) × DesignStatus)
  | .inl account => (s.profile account).design
  | .inr id => s.ownedDesign id

/-- The accounts that a person has referred. -/
def active (s : Store T) (referrer : Nat) : List T.AccountId :=
  ((s.people.get referrer).map fun person => person.activeReferrals.toList).getD []

/-- How many referral tickets of a person are outstanding. -/
def tickets (s : Store T) (referrer : Nat) : Nat := ((s.referralTickets.get referrer).map BoundedVec.length).getD 0

end Store

/-- The accounts that are referred are listed, each once and within the limit, and referenced. -/
structure Referrals (s : Store T) : Prop where
  nodup : ∀ referrer, (s.active referrer).Nodup
  referrals : ∀ referrer account, account ∈ s.active referrer ↔ (s.profile account).referrer = some referrer
  room : ∀ referrer, (s.active referrer).length + s.tickets referrer ≤ T.maxActiveReferrals
  references : Counts s.sufficients fun account => (s.profile account).isReferenced = true

structure Books (s : Store T) : Prop extends Referrals s where
  counted : s.allocationCount = s.selectedCount
  designs : Owned s.committedDesigns s.designOf
  distinct : Exclusive fun account => (s.profile account).reserved
  reserved : ∀ account id, (s.profile account).reserved = some id → s.registry.reservedPersonalId.get id = some ()
  known : ∀ id, s.people.contains id = true → s.registry.people.contains id = true
  registry : People.Bindings s.registry

/-! ### Profiles after a write -/

theorem profile_of_get (hget : s.candidates.get account = some status) : s.profile account = status.profile := by
  rw [Store.profile, hget]
  rfl

theorem profile_of_none (hget : s.candidates.get account = none) : s.profile account = .nobody := by
  rw [Store.profile, hget]
  rfl

theorem profile_congr (h : s'.candidates = s.candidates) (b : T.AccountId) : s'.profile b = s.profile b := by
  rw [Store.profile, Store.profile, h]

theorem profile_of_insert (h : s'.candidates = s.candidates.insert account status) (b : T.AccountId) :
    s'.profile b = if b = account then status.profile else s.profile b := by
  rw [Store.profile, h, StorageMap.get_insert]
  split
  · rfl
  · rfl

theorem profile_of_remove (h : s'.candidates = s.candidates.remove account) (b : T.AccountId) :
    s'.profile b = if b = account then .nobody else s.profile b := by
  rw [Store.profile, h, StorageMap.get_remove]
  split
  · rfl
  · rfl

theorem countAt_eq (s : Store T) (account : T.AccountId) :
    s.candidates.countAt (fun _ status => status.profile.isSelected) account = (s.profile account).isSelected.toNat := by
  unfold StorageMap.countAt Store.profile
  cases s.candidates.get account with
  | none => rfl
  | some status =>
    cases hselected : status.profile.isSelected with
    | true => simp [hselected]
    | false => simp [hselected]

theorem selectedCount_insert (status : Candidate T) (h : s'.candidates = s.candidates.insert account status) :
    s'.selectedCount + (s.profile account).isSelected.toNat = s.selectedCount + status.profile.isSelected.toNat := by
  have hcount := s.candidates.countOf_insert (fun _ status => status.profile.isSelected) account status
  rw [countAt_eq] at hcount
  rw [Store.selectedCount, h, hcount, Store.selectedCount]
  cases status.profile.isSelected <;> rfl

theorem selectedCount_remove (h : s'.candidates = s.candidates.remove account) :
    s'.selectedCount + (s.profile account).isSelected.toNat = s.selectedCount := by
  have hcount := s.candidates.countOf_remove (fun _ status => status.profile.isSelected) account
  rw [countAt_eq] at hcount
  rw [Store.selectedCount, h, hcount, Store.selectedCount]

/-! ### Writes that change no profile -/

/-- What the books speak of is the same on both sides. -/
structure Same (s s' : Store T) : Prop where
  profile : ∀ account, s'.profile account = s.profile account
  selectedCount : s'.selectedCount = s.selectedCount
  ownedDesign : ∀ id, s'.ownedDesign id = s.ownedDesign id
  active : ∀ referrer, s'.active referrer = s.active referrer
  tickets : ∀ referrer, s'.tickets referrer = s.tickets referrer
  known : ∀ id, s'.people.contains id = true → s.people.contains id = true
  committedDesigns : s'.committedDesigns = s.committedDesigns
  allocationCount : s'.allocationCount = s.allocationCount
  registry : s'.registry = s.registry
  sufficients : s'.sufficients = s.sufficients

theorem designOf_congr (hprofile : ∀ account, s'.profile account = s.profile account)
    (howned : ∀ id, s'.ownedDesign id = s.ownedDesign id) (h : T.AccountId ⊕ Nat) : s'.designOf h = s.designOf h := by
  cases h with
  | inl account => exact congrArg Profile.design (hprofile account)
  | inr id => exact howned id

/-- Only the design of one candidate may be another one. -/
theorem designOf_other (hprofile : ∀ b, b ≠ account → s'.profile b = s.profile b)
    (howned : ∀ id, s'.ownedDesign id = s.ownedDesign id) (h : T.AccountId ⊕ Nat) (hne : h ≠ .inl account) :
    s'.designOf h = s.designOf h := by
  cases h with
  | inl b => exact congrArg Profile.design (hprofile b fun hb => hne (congrArg Sum.inl hb))
  | inr id => exact howned id

namespace Books

theorem same (h : Books s) (hsame : Same s s') : Books s' where
  counted := by rw [hsame.allocationCount, hsame.selectedCount, h.counted]
  designs := by
    rw [hsame.committedDesigns]
    exact h.designs.congr (designOf_congr hsame.profile hsame.ownedDesign)
  distinct := h.distinct.congr fun account => congrArg Profile.reserved (hsame.profile account)
  reserved account id hid := by
    rw [hsame.profile] at hid
    rw [hsame.registry]
    exact h.reserved account id hid
  nodup referrer := by
    rw [hsame.active]
    exact h.nodup referrer
  referrals referrer account := by
    rw [hsame.active, hsame.profile]
    exact h.referrals referrer account
  room referrer := by
    rw [hsame.active, hsame.tickets]
    exact h.room referrer
  references := by
    rw [hsame.sufficients]
    exact h.references.congr fun account => by rw [hsame.profile]
  known id hid := by
    rw [hsame.registry]
    exact h.known id (hsame.known id hid)
  registry := by
    rw [hsame.registry]
    exact h.registry

end Books

theorem ownedDesign_congr (h : s'.people = s.people) (id : Nat) : s'.ownedDesign id = s.ownedDesign id := by
  rw [Store.ownedDesign, Store.ownedDesign, h]

theorem active_congr (h : s'.people = s.people) (referrer : Nat) : s'.active referrer = s.active referrer := by
  rw [Store.active, Store.active, h]

theorem tickets_congr (h : s'.referralTickets = s.referralTickets) (referrer : Nat) :
    s'.tickets referrer = s.tickets referrer := by
  rw [Store.tickets, Store.tickets, h]

theorem Frame.same (h : Frame s s') : Same s s' where
  profile := profile_congr h.candidates
  selectedCount := by rw [Store.selectedCount, Store.selectedCount, h.candidates]
  ownedDesign := ownedDesign_congr h.people
  active := active_congr h.people
  tickets := tickets_congr h.referralTickets
  known id hid := h.people ▸ hid
  committedDesigns := h.committedDesigns
  allocationCount := h.allocationCount
  registry := h.registry
  sufficients := h.sufficients

/-- A candidate is written anew, with the same profile. -/
theorem same_of_put {status' : Candidate T} (hget : s.profile account = status.profile)
    (hcandidates : s'.candidates = s.candidates.insert account status') (hprofile : status'.profile = status.profile)
    (hpeople : s'.people = s.people) (htickets : s'.referralTickets = s.referralTickets)
    (hdesigns : s'.committedDesigns = s.committedDesigns) (hcount : s'.allocationCount = s.allocationCount)
    (hregistry : s'.registry = s.registry) (hsufficients : s'.sufficients = s.sufficients) : Same s s' where
  profile b := by
    rw [profile_of_insert hcandidates]
    split
    · rename_i hb
      rw [hb, hget, hprofile]
    · rfl
  selectedCount := by
    have h := selectedCount_insert _ hcandidates
    rw [hget, hprofile] at h
    exact Nat.add_right_cancel h
  ownedDesign := ownedDesign_congr hpeople
  active := active_congr hpeople
  tickets := tickets_congr htickets
  known id hid := hpeople ▸ hid
  committedDesigns := hdesigns
  allocationCount := hcount
  registry := hregistry
  sufficients := hsufficients

/-! ### Referrals that begin and end -/

/-- What is read of a person, once the record has been changed. -/
theorem ownedDesign_modify {who : Nat} {f : Person T → Person T} (h : s'.people = s.people.modify who f)
    (hf : ∀ person, (f person).design = person.design) (id : Nat) : s'.ownedDesign id = s.ownedDesign id := by
  rw [Store.ownedDesign, h, StorageMap.get_modify]
  split
  · rename_i hid
    rw [hid, Store.ownedDesign]
    cases s.people.get who with
    | none => rfl
    | some person => exact congrArg (fun design : Option InkSpec =>
        (design.bind InkSpec.elective).map fun key => (key, DesignStatus.committed)) (hf person)
  · rfl

theorem active_modify {who : Nat} {f : Person T → Person T} (h : s'.people = s.people.modify who f)
    (hf : ∀ person, (f person).activeReferrals = person.activeReferrals.retain fun x => x ≠ account) (referrer : Nat) :
    s'.active referrer =
      if referrer = who then (s.active referrer).filter fun x => x ≠ account else s.active referrer := by
  rw [Store.active, h, StorageMap.get_modify]
  split
  · rename_i hid
    rw [hid, Store.active]
    cases s.people.get who with
    | none => rfl
    | some person => exact congrArg BoundedVec.toList (hf person)
  · rfl

theorem contains_modify {who : Nat} {f : Person T → Person T} (h : s'.people = s.people.modify who f) (id : Nat)
    (hid : s'.people.contains id = true) : s.people.contains id = true := by
  rw [h, StorageMap.contains_modify] at hid
  exact hid

/-- The credibility of a candidate has been settled; `drops` says whether a reference is taken back. -/
structure LetGo (s s' : Store T) (account : T.AccountId) (cred : Credibility T) (drops : Bool) : Prop where
  candidates : s'.candidates = s.candidates
  ownedDesign : ∀ id, s'.ownedDesign id = s.ownedDesign id
  active : ∀ referrer, s'.active referrer =
    if cred.referrer = some referrer then (s.active referrer).filter fun x => x ≠ account else s.active referrer
  referralTickets : s'.referralTickets = s.referralTickets
  known : ∀ id, s'.people.contains id = true → s.people.contains id = true
  committedDesigns : s'.committedDesigns = s.committedDesigns
  allocationCount : s'.allocationCount = s.allocationCount
  registry : s'.registry = s.registry
  sufficients : s'.sufficients =
    if drops && cred.isReferenced then References.dec s.sufficients account else s.sufficients

/-- A referral that comes to its end. -/
theorem letGo_referred {who : Nat} {f : Person T → Person T} {drops : Bool} (hpeople : s'.people = s.people.modify who f)
    (hdesign : ∀ person, (f person).design = person.design)
    (hactive : ∀ person, (f person).activeReferrals = person.activeReferrals.retain fun x => x ≠ account)
    (hcandidates : s'.candidates = s.candidates) (htickets : s'.referralTickets = s.referralTickets)
    (hdesigns : s'.committedDesigns = s.committedDesigns) (hcount : s'.allocationCount = s.allocationCount)
    (hregistry : s'.registry = s.registry)
    (hsufficients : s'.sufficients = if drops then References.dec s.sufficients account else s.sufficients) :
    LetGo s s' account (.referred who) drops where
  candidates := hcandidates
  ownedDesign := ownedDesign_modify hpeople hdesign
  active referrer := by
    rw [active_modify hpeople hactive]
    by_cases heq : referrer = who
    · rw [if_pos heq, heq]
      exact (if_pos rfl).symm
    · rw [if_neg heq]
      exact (if_neg fun hsome => heq (Option.some.inj hsome).symm).symm
  referralTickets := htickets
  known := contains_modify hpeople
  committedDesigns := hdesigns
  allocationCount := hcount
  registry := hregistry
  sufficients := by
    rw [hsufficients]
    cases drops <;> rfl

theorem letGo_forfeit_bad (s : Store T) (account : T.AccountId) (cred : Credibility T) :
    LetGo s (forfeit referralBad s account cred) account cred true := by
  cases cred with
  | referred who => exact letGo_referred rfl (fun _ => rfl) (fun _ => rfl) rfl rfl rfl rfl rfl rfl
  | deposit ticket => exact ⟨rfl, fun _ => rfl, fun _ => rfl, rfl, fun _ h => h, rfl, rfl, rfl, rfl⟩
  | invited ticket => exact ⟨rfl, fun _ => rfl, fun _ => rfl, rfl, fun _ h => h, rfl, rfl, rfl, rfl⟩

theorem letGo_forfeit_contemptuous (s : Store T) (account : T.AccountId) (cred : Credibility T) :
    LetGo s (forfeit referralContemptuous s account cred) account cred true := by
  cases cred with
  | referred who => exact letGo_referred rfl (fun _ => rfl) (fun _ => rfl) rfl rfl rfl rfl rfl rfl
  | deposit ticket => exact ⟨rfl, fun _ => rfl, fun _ => rfl, rfl, fun _ h => h, rfl, rfl, rfl, rfl⟩
  | invited ticket => exact ⟨rfl, fun _ => rfl, fun _ => rfl, rfl, fun _ h => h, rfl, rfl, rfl, rfl⟩

theorem letGo_honour (s : Store T) (account : T.AccountId) (cred : Credibility T) :
    LetGo s (honour s account cred) account cred false := by
  cases cred with
  | referred who => exact letGo_referred rfl (fun _ => rfl) (fun _ => rfl) rfl rfl rfl rfl rfl rfl
  | deposit ticket => exact ⟨rfl, fun _ => rfl, fun _ => rfl, rfl, fun _ h => h, rfl, rfl, rfl, rfl⟩
  | invited ticket => exact ⟨rfl, fun _ => rfl, fun _ => rfl, rfl, fun _ h => h, rfl, rfl, rfl, rfl⟩

theorem letGo_release (s : Store T) (account : T.AccountId) (cred : Credibility T) :
    LetGo s (release s account cred) account cred true := by
  cases cred with
  | referred who => exact letGo_referred rfl (fun _ => rfl) (fun _ => rfl) rfl rfl rfl rfl rfl rfl
  | deposit ticket => exact ⟨rfl, fun _ => rfl, fun _ => rfl, rfl, fun _ h => h, rfl, rfl, rfl, rfl⟩
  | invited ticket => exact ⟨rfl, fun _ => rfl, fun _ => rfl, rfl, fun _ h => h, rfl, rfl, rfl, rfl⟩

/-- A candidate's reference is taken back or kept, as its new profile says. -/
theorem references_of_letGo {new : Profile} {refs : T.AccountId → Int} (drops : Bool)
    (h : Counts s.sufficients fun account => (s.profile account).isReferenced = true)
    (hprofile : ∀ b, s'.profile b = if b = account then new else s.profile b)
    (hnew : new.isReferenced = ((s.profile account).isReferenced && !drops))
    (hrefs : refs = if drops && (s.profile account).isReferenced then References.dec s.sufficients account else s.sufficients) :
    Counts refs fun account => (s'.profile account).isReferenced = true := by
  have hother : ∀ b, b ≠ account → ((s'.profile b).isReferenced = true ↔ (s.profile b).isReferenced = true) :=
    fun b hb => by rw [hprofile b, if_neg hb]
  have hself : s'.profile account = new := (hprofile account).trans (if_pos rfl)
  cases hheld : (s.profile account).isReferenced with
  | false =>
    rw [hrefs, hheld, Bool.and_false]
    refine h.congr fun b => ?_
    by_cases hb : b = account
    · rw [hb, hself, hnew, hheld, Bool.false_and]
    · exact hother b hb
  | true =>
    cases drops with
    | false =>
      rw [hrefs]
      refine h.congr fun b => ?_
      by_cases hb : b = account
      · rw [hb, hself, hnew, hheld]
        rfl
      · exact hother b hb
    | true =>
      rw [hrefs, hheld]
      refine h.dec hheld ?_ hother
      rw [hself, hnew, hheld]
      exact Bool.false_ne_true

/-- The referral of a candidate ends, if it is one. -/
theorem Referrals.letGo {new : Profile} {drops : Bool} (h : Referrals s) (hgo : LetGo s t account cred drops)
    (hreferrer : (s.profile account).referrer = cred.referrer)
    (hheld : (s.profile account).isReferenced = cred.isReferenced)
    (hprofile : ∀ b, s'.profile b = if b = account then new else s.profile b) (hnone : new.referrer = none)
    (hnew : new.isReferenced = (cred.isReferenced && !drops)) (hpeople : s'.people = t.people)
    (htickets : s'.referralTickets = t.referralTickets) (hsufficients : s'.sufficients = t.sufficients) : Referrals s' := by
  have hactive : ∀ referrer, s'.active referrer =
      if cred.referrer = some referrer then (s.active referrer).filter fun x => x ≠ account else s.active referrer :=
    fun referrer => (active_congr hpeople referrer).trans (hgo.active referrer)
  refine ⟨fun referrer => ?_, fun referrer b => ?_, fun referrer => ?_, ?_⟩
  · rw [hactive]
    split
    · exact (h.nodup referrer).filter _
    · exact h.nodup referrer
  · rw [hactive, hprofile]
    have hlisted := h.referrals referrer b
    by_cases hb : b = account
    · rw [if_pos hb, hnone]
      refine ⟨fun hmem => ?_, nofun⟩
      split at hmem
      · exact absurd hb (of_decide_eq_true (List.mem_filter.mp hmem).2)
      · rename_i hne
        rw [hlisted, hb, hreferrer] at hmem
        exact absurd hmem hne
    · rw [if_neg hb, ← hlisted]
      split
      · rw [List.mem_filter]
        exact and_iff_left (decide_eq_true hb)
      · exact Iff.rfl
  · have hlength : (s'.active referrer).length ≤ (s.active referrer).length := by
      rw [hactive]
      split
      · exact List.length_filter_le _ _
      · exact le_rfl
    have hroom := h.room referrer
    rw [tickets_congr (htickets.trans hgo.referralTickets)]
    omega
  · refine references_of_letGo drops h.references hprofile (by rw [hnew, hheld]) ?_
    rw [hsufficients, hgo.sufficients, hheld]

end Individuality.ProofOfInk
