import Individuality.Coinage.Ideal
import Individuality.Coinage.Progress
import Individuality.Members.Forward

/-! The registry of paid tokens is cleaned up.

The registry knows keys, not periods; which period a key was registered in last is noted beside
the state (`Journal`). Up to the deletion of its collection, the keys registered in a period are those that
wait in the collection's queue or are in a ring that has not been cleaned (`Live`), and afterwards there
are none (`Over`). Cleaning never asks about the queue: a key that waits when the current ring is
cleaned, or the collection deleted, stays in the registry for ever. -/
namespace Individuality.Coinage
open Support

/-- The period of each key's last registration. -/
abbrev Journal (T : Config) := T.Member → Option Period

namespace State
variable {T : Config} {s s' t : State T} {D : Period → Prop} {j j' : Journal T} {p : Period}

def journal (s : State T) : Action T → State T → Journal T → Journal T
  | .call (.payForToken _ member _), _, j => Function.update j member (some s.currentPeriod)
  | _, _, j => j

/-- Keys are registered before the current period expires; the current ring is cleaned, and a
collection deleted, once nobody waits; the last of all rings is not cleaned; merges move no
key; and the clock's seconds fit 32 bits. -/
def CleansOnboarded (s : State T) : Action T → Prop
  | .call .ensurePeriod => s.nowU32 < periodExpirationTime T s.currentPeriod
  | .call (.payForToken _ _ _) => s.nowU32 < periodExpirationTime T s.currentPeriod
  | .call (.cleanPaidRing period ringIndex) => ringIndex < U32.max ∧
    (ringIndex < (s.paidToken period).currentRingIndex ∨ (s.paidToken period).NobodyWaits)
  | .call (.deletePaidCollection period) => (s.paidToken period).NobodyWaits
  | .members id c => isPaidToken id = true → Members.MovesNoKey (s.members.store id) c
  | .advance seconds => s.now + seconds < 2 ^ 32
  | _ => True

/-- The registry has the key, from a registration in the period. -/
def Registered (s : State T) (j : Journal T) (k : T.Member) (p : Period) : Prop :=
  s.coinage.paidUnloadTokenMembers.contains k = true ∧ j k = some p

def Expired (s : State T) (p : Period) : Prop := periodExpirationTime T p ≤ s.nowU32

/-- A period whose collection has not been deleted. -/
structure Live (s : State T) (j : Journal T) (p : Period) : Prop where
  inOrder : Members.InOrder (s.paidToken p) 0
  conserved : Members.Conserved (s.paidToken p)
  unsuspended : ∀ k, (s.paidToken p).members.get k ≠ some .suspended
  created : s.coinage.paidTokenCollectionsCreated.contains p = true → (s.paidToken p).collections.isSome = true
  registered_iff : ∀ k, s.Registered j k p ↔ (s.paidToken p).Held (s.nextPaidRing p) k
  next_le : s.nextPaidRing p ≤ (s.paidToken p).currentRingIndex ∨
    ∀ k q u, (s.paidToken p).members.get k ≠ some (.onboarding q u)
  expired : s.nextPaidRing p ≠ 0 → s.Expired p

/-- A period whose collection is gone. -/
structure Over (s : State T) (j : Journal T) (p : Period) : Prop where
  expired : s.Expired p
  deleted : s.coinage.paidTokenCollectionsCreated.contains p = false
  unregistered : ∀ k, ¬ s.Registered j k p

/-- The periods of `D` are over, and each other one is, or is live. -/
structure Tracked (s : State T) (D : Period → Prop) (j : Journal T) : Prop where
  now_lt : s.now < 2 ^ 32
  created_lt : ∀ p, s.coinage.paidTokenCollectionsCreated.contains p = true → p < 2 ^ 32
  period : ∀ p, p < 2 ^ 32 → s.Over j p ∨ ¬ D p ∧ s.Live j p

/-- What leaves the paid tokens alone. -/
structure SamePaid (s s' : State T) : Prop where
  store : ∀ p, s'.paidToken p = s.paidToken p
  now_eq : s'.now = s.now
  members : s'.coinage.paidUnloadTokenMembers = s.coinage.paidUnloadTokenMembers
  created : s'.coinage.paidTokenCollectionsCreated = s.coinage.paidTokenCollectionsCreated
  next : s'.coinage.paidUnloadTokenNextRingToClean = s.coinage.paidUnloadTokenNextRingToClean

/-! ### Periods -/

theorem paidToken_injective {p p' : Period} (hp : p < 2 ^ 32) (hp' : p' < 2 ^ 32)
    (h : paidTokenCollectionIdentifier p = paidTokenCollectionIdentifier p') : p = p' := by
  have hbytes := padded_injective
    (by rw [List.length_append, length_ascii_headers.2, length_leBytes]; decide) (by simp) h
  exact leBytes_injective hp hp' (List.append_cancel_left hbytes)

theorem currentPeriod_lt (s : State T) : s.currentPeriod < 2 ^ 32 :=
  (Nat.div_le_self _ _).trans_lt (Nat.mod_lt _ (by decide))

theorem Expired.later (h : s.Expired p) (hle : s.now ≤ s'.now) (hlt : s'.now < 2 ^ 32) : s'.Expired p := by
  unfold Expired nowU32 at *
  rw [Nat.mod_eq_of_lt hlt]
  rw [Nat.mod_eq_of_lt (hle.trans_lt hlt)] at h
  exact h.trans hle

namespace Over

theorem of_same (h : s.Over j p) (hexpired : s.Expired p → s'.Expired p)
    (hcreated : s'.coinage.paidTokenCollectionsCreated.contains p = s.coinage.paidTokenCollectionsCreated.contains p)
    (hregistered : ∀ k, s'.Registered j' k p → s.Registered j k p) : s'.Over j' p where
  expired := hexpired h.expired
  deleted := hcreated.trans h.deleted
  unregistered k hk := h.unregistered k (hregistered k hk)

end Over

namespace Live

theorem of_same (h : s.Live j p) (hstore : s'.paidToken p = s.paidToken p) (hexpired : s.Expired p → s'.Expired p)
    (hcreated : s'.coinage.paidTokenCollectionsCreated.contains p = s.coinage.paidTokenCollectionsCreated.contains p)
    (hnext : s'.nextPaidRing p = s.nextPaidRing p) (hregistered : ∀ k, s'.Registered j' k p ↔ s.Registered j k p) :
    s'.Live j' p := by
  refine ⟨?_, ?_, ?_, ?_, fun k => ?_, ?_, ?_⟩
  · rw [hstore]
    exact h.inOrder
  · rw [hstore]
    exact h.conserved
  · rw [hstore]
    exact h.unsuspended
  · rw [hstore, hcreated]
    exact h.created
  · rw [hregistered, hstore, hnext]
    exact h.registered_iff k
  · rw [hstore, hnext]
    exact h.next_le
  · rw [hnext]
    exact fun hne => hexpired (h.expired hne)

end Live

theorem nextPaidRing_congr (h : s'.coinage.paidUnloadTokenNextRingToClean.get p =
    s.coinage.paidUnloadTokenNextRingToClean.get p) : s'.nextPaidRing p = s.nextPaidRing p := by
  rw [nextPaidRing, h]
  rfl

namespace Tracked

theorem genesis : (genesis T).Tracked (fun _ => False) fun _ => none where
  now_lt := Nat.two_pow_pos 32
  created_lt _ h := by cases h
  period p _ := .inr ⟨id, {
    inOrder := .empty
    conserved := .empty
    unsuspended := nofun
    created := nofun
    registered_iff := fun k => by
      constructor
      · rintro ⟨hk, -⟩
        cases hk
      · rintro ⟨_, hk, -⟩
        cases hk
    next_le := .inl le_rfl
    expired := fun h => absurd rfl h }⟩

/-- What leaves the paid tokens alone keeps track of them. -/
theorem of_samePaid (h : s.Tracked D j) (hs : SamePaid s s') : s'.Tracked D j := by
  have hlt : s'.now < 2 ^ 32 := hs.now_eq ▸ h.now_lt
  have hexpired : ∀ p, s.Expired p → s'.Expired p := fun p he => he.later hs.now_eq.ge hlt
  have hregistered : ∀ k p, s'.Registered j k p ↔ s.Registered j k p := fun k p => by
    unfold Registered
    rw [hs.members]
  refine ⟨hlt, ?_, fun p hp => ?_⟩
  · rw [hs.created]
    exact h.created_lt
  · have hcreated : s'.coinage.paidTokenCollectionsCreated.contains p = s.coinage.paidTokenCollectionsCreated.contains p := by
      rw [hs.created]
    rcases h.period p hp with hover | ⟨hnot, hlive⟩
    · exact .inl (hover.of_same (hexpired p) hcreated fun k hk => (hregistered k p).mp hk)
    · exact .inr ⟨hnot, hlive.of_same (hs.store p) (hexpired p) hcreated (nextPaidRing_congr (by rw [hs.next]))
        fun k => hregistered k p⟩

/-! ### One operation at a time -/

end Tracked

namespace SamePaid

theorem refl (s : State T) : SamePaid s s := ⟨fun _ => rfl, rfl, rfl, rfl, rfl⟩

theorem trans (h : SamePaid s t) (h' : SamePaid t s') : SamePaid s s' where
  store p := (h'.store p).trans (h.store p)
  now_eq := h'.now_eq.trans h.now_eq
  members := h'.members.trans h.members
  created := h'.created.trans h.created
  next := h'.next.trans h.next

/-- A call on the collection of a recycler. -/
theorem memberCall {value : CoinValue} {c : Members.Call T.members}
    (h : s.memberCall (recyclerCollectionIdentifier value) c = .ok s') : SamePaid s s' := by
  obtain ⟨-, henv, hother, hcoinage⟩ := memberCall_spec h
  refine ⟨fun p => hother _ (recycler_ne_paidToken value p).symm, ?_, ?_, ?_, ?_⟩
  · rw [now, henv]
    rfl
  · rw [hcoinage]
  · rw [hcoinage]
  · rw [hcoinage]

theorem ensureRecyclerExists {value : CoinValue} (h : s.ensureRecyclerExists value = .ok s') : SamePaid s s' := by
  unfold State.ensureRecyclerExists at h
  split at h
  · cases h
    exact .refl s
  · simp only [bind_eq_ok] at h
    obtain ⟨t, ht, h⟩ := h
    cases h
    exact (memberCall ht).trans ⟨fun _ => rfl, rfl, rfl, rfl, rfl⟩

theorem loadGroup {vouchers : List (CoinValue × T.Member)} {value : CoinValue}
    (h : State.loadGroup vouchers s value = .ok s') : SamePaid s s' := by
  simp only [State.loadGroup, bind_eq_ok, mapError_eq_ok] at h
  obtain ⟨t, ht, h⟩ := h
  have hadd := memberCall h
  exact (ensureRecyclerExists ht).trans ⟨hadd.store, hadd.now_eq, hadd.members, hadd.created, hadd.next⟩

theorem unloadAlias {value : CoinValue} {index : Nat} {pair : T.Alias × T.Alias}
    (h : State.unloadAlias value index s pair = .ok s') : SamePaid s s' := by
  simp only [State.unloadAlias, bind_eq_ok] at h
  obtain ⟨-, -, -, -, h⟩ := h
  cases h
  exact ⟨fun _ => rfl, rfl, rfl, rfl, rfl⟩

theorem cleanUnchecked {value : CoinValue} {out : State T × Nat × Nat} (h : s.cleanUnchecked value = .ok out) :
    SamePaid s out.1 := by
  simp only [State.cleanUnchecked, bind_eq_ok, okOr_eq_ok] at h
  obtain ⟨nextRing, -, status, -, t, ht, h⟩ := h
  cases h
  have hremove := memberCall ht
  exact ⟨hremove.store, hremove.now_eq, hremove.members, hremove.created, hremove.next⟩

end SamePaid

namespace Tracked

/-- A call of the members pallet: what it does for the period of its collection is enough. -/
theorem of_memberCall (h : s.Tracked D j) {id : Members.Identifier} {c : Members.Call T.members}
    (hs : s.memberCall id c = .ok s')
    (hlive : ∀ p, p < 2 ^ 32 → id = paidTokenCollectionIdentifier p → s.Live j p → s'.Live j p) : s'.Tracked D j := by
  obtain ⟨-, henv, hother, hcoinage⟩ := memberCall_spec hs
  have hnow : s'.now = s.now := by rw [now, henv]; rfl
  have hlt : s'.now < 2 ^ 32 := hnow ▸ h.now_lt
  refine ⟨hlt, by rw [hcoinage]; exact h.created_lt, fun p hp => ?_⟩
  have hcreated : s'.coinage.paidTokenCollectionsCreated.contains p = s.coinage.paidTokenCollectionsCreated.contains p := by
    rw [hcoinage]
  have hregistered : ∀ k, s'.Registered j k p ↔ s.Registered j k p := fun k => by
    unfold Registered
    rw [hcoinage]
  have hexpired : s.Expired p → s'.Expired p := fun he => he.later hnow.ge hlt
  rcases h.period p hp with hover | ⟨hnot, hold⟩
  · exact .inl (hover.of_same hexpired hcreated fun k hk => (hregistered k).mp hk)
  · by_cases hid : id = paidTokenCollectionIdentifier p
    · exact .inr ⟨hnot, hlive p hp hid hold⟩
    · exact .inr ⟨hnot, hold.of_same (hother _ (Ne.symm hid)) hexpired hcreated
        (nextPaidRing_congr (by rw [hcoinage])) hregistered⟩

/-- A call from outside on any collection. -/
theorem members (h : s.Tracked D j) {id : Members.Identifier} {c : Members.Call T.members}
    (hG : CleansOnboarded s (.members id c)) (hs : s.exec (.members id c) = .ok s') : s'.Tracked D j := by
  simp only [exec, bind_eq_ok, ensure_eq_ok] at hs
  obtain ⟨-, hopen, hs⟩ := hs
  refine h.of_memberCall hs fun p hp hid hlive => ?_
  subst hid
  have hpaid := isPaidToken_paidToken p
  replace hopen := hopen (.inr hpaid)
  have hmoves : Members.MovesNoKey (s.paidToken p) c := hG hpaid
  obtain ⟨hexec, henv, -, hcoinage⟩ := memberCall_spec hs
  have hexec : (s.paidToken p).exec s.members.env c = .ok (s'.paidToken p) := hexec
  have hforward := hlive.inOrder.forward hlive.conserved hopen hmoves hexec
  have hnext : s'.nextPaidRing p = s.nextPaidRing p := nextPaidRing_congr (by rw [hcoinage])
  refine ⟨(hlive.inOrder.step hopen hmoves hexec).1, hlive.inOrder.conserved hlive.conserved hopen hmoves hexec,
    hforward.unsuspended hlive.unsuspended, ?_, fun k => ?_, ?_, fun hne => ?_⟩
  · rw [hcoinage, hforward.collections_eq]
    exact hlive.created
  · rw [hnext, hforward.held_iff hlive.next_le, ← hlive.registered_iff]
    unfold Registered
    rw [hcoinage]
  · rw [hnext]
    refine hlive.next_le.imp (fun hle => hle.trans hforward.current_le) fun hnone k q u hk => ?_
    obtain ⟨q', hold⟩ := hforward.waiting hk
    exact hnone k q' u hold
  · rw [hnext] at hne
    exact (hlive.expired hne).later (by rw [now, now, henv]) (by rw [now, henv]; exact h.now_lt)

/-- The period that has not expired has a collection, or never had one. -/
theorem live_of_not_expired (h : s.Tracked D j) (hp : p < 2 ^ 32) (hcurrent : ¬ s.Expired p) : ¬ D p ∧ s.Live j p :=
  (h.period p hp).resolve_left fun hover => hcurrent hover.expired

/-- So is a period with a collection. -/
theorem live_of_created (h : s.Tracked D j) (hcreated : s.coinage.paidTokenCollectionsCreated.contains p = true) :
    p < 2 ^ 32 ∧ ¬ D p ∧ s.Live j p := by
  have hp := h.created_lt p hcreated
  refine ⟨hp, (h.period p hp).resolve_left fun hover => ?_⟩
  rw [hover.deleted] at hcreated
  cases hcreated

/-- The collection of a period that has not expired is created. -/
theorem createCollection (h : s.Tracked D j) (hp : p < 2 ^ 32) (hcurrent : ¬ s.Expired p) {owner : T.members.Location}
    {n : Nat} {size : Members.RingExponent} (hs : s.memberCall (paidTokenCollectionIdentifier p)
      (.createCollection owner n .appendOnly size none) = .ok s') :
    s'.Tracked D j ∧ (s'.paidToken p).collections.isSome = true := by
  obtain ⟨hexec, henv, -, hcoinage⟩ := memberCall_spec hs
  obtain ⟨-, hlive⟩ := h.live_of_not_expired hp hcurrent
  have hexec : (s.paidToken p).exec s.members.env (.createCollection owner n .appendOnly size none) =
    .ok (s'.paidToken p) := hexec
  obtain ⟨hinOrder, hconserved, hmembers, hindex, hsome⟩ := hlive.inOrder.create hlive.conserved hexec
  refine ⟨h.of_memberCall hs fun p' hp' hid _ => ?_, hsome⟩
  obtain rfl := paidToken_injective hp hp' hid
  have hnext : s'.nextPaidRing p = s.nextPaidRing p := nextPaidRing_congr (by rw [hcoinage])
  have hheld : ∀ k n, (s'.paidToken p).Held n k ↔ (s.paidToken p).Held n k := fun k n => by
    unfold Members.Store.Held
    rw [hmembers]
  refine ⟨hinOrder, hconserved, by rw [hmembers]; exact hlive.unsuspended, fun _ => hsome, fun k => ?_, ?_, fun hne => ?_⟩
  · rw [hheld, hnext, ← hlive.registered_iff]
    unfold Registered
    rw [hcoinage]
  · rw [hnext, hindex, hmembers]
    exact hlive.next_le
  · rw [hnext] at hne
    exact absurd (hlive.expired hne) hcurrent

theorem ensurePaidCollectionExists (h : s.Tracked D j) (hp : p < 2 ^ 32) (hcurrent : ¬ s.Expired p)
    {out : State T × Bool} (hs : s.ensurePaidCollectionExists p = .ok out) :
    out.1.Tracked D j ∧ out.1.members.env = s.members.env ∧
      out.1.coinage.paidUnloadTokenMembers = s.coinage.paidUnloadTokenMembers := by
  unfold State.ensurePaidCollectionExists at hs
  split at hs
  · cases hs
    exact ⟨h, rfl, rfl⟩
  · simp only [bind_eq_ok] at hs
    obtain ⟨t, ht, hs⟩ := hs
    cases hs
    obtain ⟨-, henv, -, hcoinage⟩ := memberCall_spec ht
    obtain ⟨htracked, hsome⟩ := h.createCollection hp hcurrent ht
    have hcreated : ∀ p', (t.coinage.paidTokenCollectionsCreated.insert p ()).contains p' =
        if p' = p then true else t.coinage.paidTokenCollectionsCreated.contains p' := fun p' => by
      unfold StorageMap.contains
      rw [StorageMap.get_insert]
      split <;> rfl
    refine ⟨⟨htracked.now_lt, fun p' hp' => ?_, fun p' hp' => ?_⟩, henv, by rw [hcoinage]⟩
    · change (t.coinage.paidTokenCollectionsCreated.insert p ()).contains p' = true at hp'
      rw [hcreated] at hp'
      split at hp'
      · next heq => exact heq ▸ hp
      · exact htracked.created_lt p' hp'
    · by_cases heq : p' = p
      · subst heq
        have hcurrent' : ¬ t.Expired p' := by
          unfold Expired nowU32 now
          rw [henv]
          exact hcurrent
        obtain ⟨hnot, hlive⟩ := htracked.live_of_not_expired hp' hcurrent'
        exact .inr ⟨hnot, hlive.inOrder, hlive.conserved, hlive.unsuspended, fun _ => hsome, hlive.registered_iff,
          hlive.next_le, hlive.expired⟩
      · have hsame : (t.coinage.paidTokenCollectionsCreated.insert p ()).contains p' =
            t.coinage.paidTokenCollectionsCreated.contains p' := (hcreated p').trans (if_neg heq)
        rcases htracked.period p' hp' with hover | ⟨hnot, hlive⟩
        · exact .inl (hover.of_same id hsame fun _ hk => hk)
        · exact .inr ⟨hnot, hlive.of_same rfl id hsame rfl fun _ => Iff.rfl⟩

/-- A key joins the queue of a period that has not expired, and the registry. -/
theorem register (h : s.Tracked D j) (hp : p < 2 ^ 32) (hcurrent : ¬ s.Expired p) {member : T.Member}
    (hfree : s.coinage.paidUnloadTokenMembers.contains member = false)
    (hs : s.memberCall (paidTokenCollectionIdentifier p) (.addMembers [member]) = .ok t)
    (hs' : s' = { t with coinage := { t.coinage with
      paidUnloadTokenMembers := t.coinage.paidUnloadTokenMembers.insert member () } }) :
    s'.Tracked D (Function.update j member (some p)) := by
  obtain ⟨hexec, henv, hother, hcoinage⟩ := memberCall_spec hs
  have hnow : s'.now = s.now := by rw [hs', now, henv]; rfl
  have hlt : s'.now < 2 ^ 32 := hnow ▸ h.now_lt
  have hexpired : ∀ p, s.Expired p → s'.Expired p := fun _ he => he.later hnow.ge hlt
  have hcreated : s'.coinage.paidTokenCollectionsCreated = s.coinage.paidTokenCollectionsCreated := by
    rw [hs', hcoinage]
  have hcontains : ∀ k, s'.coinage.paidUnloadTokenMembers.contains k =
      if k = member then true else s.coinage.paidUnloadTokenMembers.contains k := fun k => by
    rw [hs', hcoinage]
    unfold StorageMap.contains
    rw [StorageMap.get_insert]
    split <;> rfl
  have hnext : ∀ p, s'.nextPaidRing p = s.nextPaidRing p := fun p => nextPaidRing_congr (by rw [hs', hcoinage])
  have hold : ∀ k p', k ≠ member → (s'.Registered (Function.update j member (some p)) k p' ↔ s.Registered j k p') := by
    intro k p' hne
    unfold Registered
    rw [hcontains, if_neg hne, Function.update_of_ne hne]
  have hmember : ∀ p', s'.Registered (Function.update j member (some p)) member p' ↔ p' = p := by
    intro p'
    unfold Registered
    rw [hcontains, if_pos rfl, Function.update_self, Option.some.injEq]
    exact ⟨fun hk => hk.2.symm, fun hk => ⟨rfl, hk.symm⟩⟩
  have hnew : ∀ k p', p' ≠ p → (s'.Registered (Function.update j member (some p)) k p' ↔ s.Registered j k p') := by
    intro k p' hne
    by_cases hk : k = member
    · subst hk
      rw [hmember]
      refine ⟨fun he => absurd he hne, fun hr => ?_⟩
      rw [hr.1] at hfree
      cases hfree
    · exact hold k p' hk
  refine ⟨hlt, by rw [hcreated]; exact h.created_lt, fun p' hp' => ?_⟩
  by_cases heq : p' = p
  · subst heq
    obtain ⟨hnot, hlive⟩ := h.live_of_not_expired hp hcurrent
    have hstore : s'.paidToken p' = t.paidToken p' := by rw [hs']; rfl
    have hexec : (s.paidToken p').exec s.members.env (.addMembers [member]) = .ok (s'.paidToken p') := by
      rw [hstore]
      exact hexec
    obtain ⟨hinOrder, hconserved, -, hindex, hcollections, q, u, hrecord⟩ :=
      hlive.inOrder.addMember hlive.conserved hexec
    refine .inr ⟨hnot, hinOrder, hconserved, fun k => ?_, ?_, fun k => ?_, .inl ?_, fun hne => ?_⟩
    · rw [hrecord]
      split
      · intro heq
        cases heq
      · exact hlive.unsuspended k
    · rw [hcreated, hcollections]
      exact hlive.created
    · rw [hnext]
      by_cases hk : k = member
      · subst hk
        exact ⟨fun _ => ⟨_, (hrecord k).trans (if_pos rfl), fun _ _ _ heq => by cases heq⟩, fun _ => (hmember p').mpr rfl⟩
      · rw [hold k p' hk, hlive.registered_iff]
        unfold Members.Store.Held
        rw [hrecord, if_neg hk]
    · have hzero : s'.nextPaidRing p' = 0 := by
        by_contra hne
        exact hcurrent (hlive.expired (hnext p' ▸ hne))
      rw [hzero]
      exact Nat.zero_le _
    · rw [hnext] at hne
      exact absurd (hlive.expired hne) hcurrent
  · have hcreated' : s'.coinage.paidTokenCollectionsCreated.contains p' =
        s.coinage.paidTokenCollectionsCreated.contains p' := by rw [hcreated]
    rcases h.period p' hp' with hover | ⟨hnot, hlive⟩
    · exact .inl (hover.of_same (hexpired p') hcreated' fun k hk => (hnew k p' heq).mp hk)
    · have hstore : s'.paidToken p' = s.paidToken p' := by
        rw [hs']
        exact hother _ fun hid => heq (paidToken_injective hp' hp hid)
      exact .inr ⟨hnot, hlive.of_same hstore (hexpired p') hcreated' (hnext p') fun k => hnew k p' heq⟩

theorem addMember (h : s.Tracked D j) (hcurrent : ¬ s.Expired s.currentPeriod) {caller : T.AccountId} {member : T.Member}
    {proofOfOwnership : T.Signature} (hs : s.addMember caller member proofOfOwnership = .ok s') :
    s'.Tracked D (Function.update j member (some s.currentPeriod)) ∧
      ∀ k, s.coinage.paidUnloadTokenMembers.contains k = true → s'.coinage.paidUnloadTokenMembers.contains k = true := by
  simp only [State.addMember, bind_eq_ok, ensure_eq_ok] at hs
  obtain ⟨-, -, -, hfree, -, -, out, hout, u, hu, hs⟩ := hs
  cases hs
  have hp := s.currentPeriod_lt
  obtain ⟨htracked, henv, hmembers⟩ := h.ensurePaidCollectionExists hp hcurrent hout
  have hcurrent' : ¬ out.1.Expired s.currentPeriod := by
    unfold Expired nowU32 now
    rw [henv]
    exact hcurrent
  refine ⟨htracked.register hp hcurrent' (by rw [hmembers]; exact hfree) hu rfl, fun k hk => ?_⟩
  change ((u.coinage.paidUnloadTokenMembers.insert member ()).get k).isSome = true
  rw [StorageMap.get_insert]
  split
  · rfl
  · rw [(memberCall_spec hu).2.2.2, hmembers]
    exact hk

/-- A ring is cleaned: the registry forgets its members, whose period it is, and no other key. -/
theorem cleanRing (h : s.Tracked D j) {ringIndex : Nat} (hG : CleansOnboarded s (.call (.cleanPaidRing p ringIndex)))
    (hcan : s.ensureCanCleanRing p ringIndex = .ok ⟨⟩) :
    (s.cleanRingUnchecked p ringIndex).1.Tracked D j ∧
      ∀ k, k ∈ (s.paidToken p).ringMembers ringIndex → s.Registered j k p := by
  simp only [ensureCanCleanRing, bind_eq_ok, ensure_eq_ok] at hcan
  obtain ⟨-, hcreated, -, hexpired, -, rfl, -⟩ := hcan
  obtain ⟨hp, hnot, hlive⟩ := h.live_of_created hcreated
  obtain ⟨info, hinfo⟩ := Option.isSome_iff_exists.mp (hlive.created hcreated)
  have hheld := hlive.inOrder.held_succ hlive.conserved hinfo (s.nextPaidRing p)
  have hmembers : ∀ k, k ∈ (s.paidToken p).ringMembers (s.nextPaidRing p) → s.Registered j k p := fun k hk => by
    rw [hlive.registered_iff]
    obtain ⟨q, i, hrecord⟩ := (hlive.inOrder.mem_ringMembers_iff hlive.conserved hinfo _ k).mp hk
    refine ⟨_, hrecord, fun r q' i' heq => ?_⟩
    cases heq
    exact le_rfl
  refine ⟨?_, hmembers⟩
  generalize hs' : (s.cleanRingUnchecked p (s.nextPaidRing p)).1 = s'
  have hcontains : ∀ k, s'.coinage.paidUnloadTokenMembers.contains k = true ↔
      s.coinage.paidUnloadTokenMembers.contains k = true ∧ k ∉ (s.paidToken p).ringMembers (s.nextPaidRing p) := by
    intro k
    rw [← hs']
    unfold StorageMap.contains
    change ((s.coinage.paidUnloadTokenMembers.removeAll _).get k).isSome = true ↔ _
    rw [StorageMap.get_removeAll]
    split
    · next hk => exact ⟨fun hnone => (by cases hnone), fun hc => absurd hk hc.2⟩
    · next hk => exact ⟨fun hc => ⟨hc, hk⟩, And.left⟩
  have hregistered : ∀ k, s'.Registered j k p ↔
      s.Registered j k p ∧ k ∉ (s.paidToken p).ringMembers (s.nextPaidRing p) := fun k => by
    unfold Registered
    rw [hcontains, and_right_comm]
  have hnext : s'.nextPaidRing p = s.nextPaidRing p + 1 := by
    have hget : s'.coinage.paidUnloadTokenNextRingToClean.get p = some (U32.wrappingAdd (s.nextPaidRing p) 1) := by
      rw [← hs']
      exact (StorageMap.get_insert _ _ _ _).trans (if_pos rfl)
    rw [nextPaidRing, hget]
    exact U32.wrappingAdd_eq hG.1
  have hsame : s'.members = s.members ∧
      s'.coinage.paidTokenCollectionsCreated = s.coinage.paidTokenCollectionsCreated := by
    rw [← hs']
    exact ⟨rfl, rfl⟩
  have hnow : s'.now = s.now := by rw [now, hsame.1]; rfl
  have hlt : s'.now < 2 ^ 32 := hnow ▸ h.now_lt
  have hexpired' : ∀ p, s.Expired p → s'.Expired p := fun _ he => he.later hnow.ge hlt
  have hstore : ∀ p, s'.paidToken p = s.paidToken p := fun p => by
    unfold paidToken
    rw [hsame.1]
  refine ⟨hlt, by rw [hsame.2]; exact h.created_lt, fun p' hp' => ?_⟩
  by_cases heq : p' = p
  · subst heq
    refine .inr ⟨hnot, ?_, ?_, ?_, ?_, fun k => ?_, ?_, fun _ => hexpired' p' hexpired⟩
    · rw [hstore]
      exact hlive.inOrder
    · rw [hstore]
      exact hlive.conserved
    · rw [hstore]
      exact hlive.unsuspended
    · rw [hstore, hsame.2]
      exact hlive.created
    · rw [hregistered, hstore, hnext, hheld, hlive.registered_iff]
    · rw [hstore, hnext]
      refine hG.2.imp id fun hnobody k q u hk => ?_
      have hmem := (hlive.conserved.queue.mem_iff k q).mpr ⟨u, hk⟩
      rw [hnobody.queuePage q] at hmem
      cases hmem
  · -- The keys of the ring were registered in its period, so in no other one.
    have hother : ∀ k, s'.Registered j k p' ↔ s.Registered j k p' := fun k => by
      unfold Registered
      rw [hcontains]
      refine ⟨fun hk => ⟨hk.1.1, hk.2⟩, fun hk => ⟨⟨hk.1, fun hmem => heq ?_⟩, hk.2⟩⟩
      exact Option.some.inj (hk.2.symm.trans (hmembers k hmem).2)
    have hcreated' : s'.coinage.paidTokenCollectionsCreated.contains p' =
        s.coinage.paidTokenCollectionsCreated.contains p' := by rw [hsame.2]
    have hnext' : s'.nextPaidRing p' = s.nextPaidRing p' := nextPaidRing_congr (by
      rw [← hs']
      exact (StorageMap.get_insert _ _ _ _).trans (if_neg heq))
    rcases h.period p' hp' with hover | ⟨hnot, hlive'⟩
    · exact .inl (hover.of_same (hexpired' p') hcreated' fun k hk => (hother k).mp hk)
    · exact .inr ⟨hnot, hlive'.of_same (hstore p') (hexpired' p') hcreated' hnext' hother⟩

/-- The collection is deleted: the registry has no key of the period any more. -/
theorem deleteCollection (h : s.Tracked D j) (hG : CleansOnboarded s (.call (.deletePaidCollection p)))
    (hcan : s.ensureCanDeleteCollection p = .ok ⟨⟩) (hs : s.deleteCollectionUnchecked p = .ok s') :
    s'.Tracked D j ∧ s'.Over j p ∧ s'.coinage.paidUnloadTokenMembers = s.coinage.paidUnloadTokenMembers := by
  simp only [ensureCanDeleteCollection, bind_eq_ok, ensure_eq_ok] at hcan
  obtain ⟨-, hcreated, -, hexpired, hempty⟩ := hcan
  obtain ⟨hp, hnot, hlive⟩ := h.live_of_created hcreated
  obtain ⟨info, hinfo⟩ := Option.isSome_iff_exists.mp (hlive.created hcreated)
  have hzero : ((s.paidToken p).ringStatusAt (s.nextPaidRing p)).total = 0 := by
    rw [paidRingPopulated, Members.Store.ringStatus, hinfo, Option.isNone_some, if_neg Bool.false_ne_true,
      Option.any_some, decide_eq_false_iff_not] at hempty
    exact Nat.eq_zero_of_not_pos hempty
  have hnone : ∀ k, ¬ s.Registered j k p := fun k => by
    rw [hlive.registered_iff]
    exact hlive.inOrder.not_held hlive.conserved hinfo hzero hG hlive.unsuspended k
  simp only [deleteCollectionUnchecked, bind_eq_ok] at hs
  obtain ⟨t, ht, hs⟩ := hs
  obtain ⟨-, henv, hother, hcoinage⟩ := memberCall_spec ht
  have hs' := (Except.ok.inj hs).symm
  have hnow : s'.now = s.now := by rw [hs', now, henv]; rfl
  have hlt : s'.now < 2 ^ 32 := hnow ▸ h.now_lt
  have hexpired' : ∀ p, s.Expired p → s'.Expired p := fun _ he => he.later hnow.ge hlt
  have hregistry : s'.coinage.paidUnloadTokenMembers = s.coinage.paidUnloadTokenMembers := by
    rw [hs', hcoinage]
  have hregistered : ∀ k p, s'.Registered j k p ↔ s.Registered j k p := fun k p => by
    unfold Registered
    rw [hregistry]
  have hcontains : ∀ p', s'.coinage.paidTokenCollectionsCreated.contains p' =
      if p' = p then false else s.coinage.paidTokenCollectionsCreated.contains p' := fun p' => by
    rw [hs', hcoinage]
    unfold StorageMap.contains
    rw [StorageMap.get_remove]
    split <;> rfl
  have hover : s'.Over j p := by
    refine ⟨hexpired' p hexpired, ?_, fun k => ?_⟩
    · rw [hcontains, if_pos rfl]
    · rw [hregistered]
      exact hnone k
  refine ⟨⟨hlt, fun p' hp' => ?_, fun p' hp' => ?_⟩, hover, hregistry⟩
  · rw [hcontains] at hp'
    split at hp'
    · cases hp'
    · exact h.created_lt p' hp'
  · by_cases heq : p' = p
    · subst heq
      exact .inl hover
    · have hcreated' := hcontains p'
      rw [if_neg heq] at hcreated'
      rcases h.period p' hp' with hover' | ⟨hnot, hlive'⟩
      · exact .inl (hover'.of_same (hexpired' p') hcreated' fun k hk => (hregistered k p').mp hk)
      · have hstore : s'.paidToken p' = s.paidToken p' := by
          rw [hs']
          exact hother _ fun hid => heq (paidToken_injective hp' hp hid)
        refine .inr ⟨hnot, hlive'.of_same hstore (hexpired' p') hcreated' (nextPaidRing_congr ?_) fun k => hregistered k p'⟩
        rw [hs', hcoinage]
        exact (StorageMap.get_remove _ _ _).trans (if_neg heq)

/-! ### Runs -/

/-- Whether a call is one of the manager of paid tokens; consumed tokens and their dust do not count. -/
def concernsPaid : Call T → Bool
  | .ensurePeriod | .payForToken _ _ _ | .cleanPaidRing _ _ | .deletePaidCollection _ => true
  | _ => false

theorem samePaid {c : Call T} (hc : concernsPaid c = false) (hs : s.execCall c = .ok s') : SamePaid s s' := by
  have same : ∀ {u : State T}, u.members = s.members → u.coinage.paidUnloadTokenMembers = s.coinage.paidUnloadTokenMembers →
      u.coinage.paidTokenCollectionsCreated = s.coinage.paidTokenCollectionsCreated →
      u.coinage.paidUnloadTokenNextRingToClean = s.coinage.paidUnloadTokenNextRingToClean → SamePaid s u :=
    fun hmembers hregistry hcreated hnext => ⟨fun p => by unfold paidToken; rw [hmembers],
      by unfold now; rw [hmembers], hregistry, hcreated, hnext⟩
  cases c with
  | ensureRecycler => exact .ensureRecyclerExists hs
  | load =>
    simp only [execCall, load, bind_eq_ok, ensure_eq_ok, mapError_eq_ok] at hs
    obtain ⟨-, -, -, -, t, ht, u, hu, hs⟩ := hs
    cases hs
    have hadd := SamePaid.memberCall hu
    exact (SamePaid.ensureRecyclerExists ht).trans ⟨hadd.store, hadd.now_eq, hadd.members, hadd.created, hadd.next⟩
  | loadBatch =>
    simp only [execCall, loadBatchGrouped, bind_eq_ok] at hs
    obtain ⟨-, -, hs⟩ := hs
    exact foldlM_ok_induction (fun _ t => SamePaid s t) hs (.refl s)
      fun _ _ _ _ _ ht hstep => ht.trans (.loadGroup hstep)
  | unload =>
    simp only [execCall, unload, bind_eq_ok] at hs
    obtain ⟨-, -, -, -, results, -, -, -, hs⟩ := hs
    exact foldlM_ok_induction (fun _ t => SamePaid s t) hs (.refl s)
      fun _ _ _ _ _ ht hstep => ht.trans (.unloadAlias hstep)
  | premark =>
    simp only [execCall, bind_eq_ok] at hs
    obtain ⟨proven, -, hs⟩ := hs
    cases hs
    exact same rfl rfl rfl rfl
  | cleanRecycler =>
    simp only [execCall, bind_eq_ok] at hs
    obtain ⟨-, -, out, hout, hs⟩ := hs
    cases hs
    exact .cleanUnchecked hout
  | cleanRecyclerDust =>
    cases hs
    unfold State.cleanRecyclerDust
    split
    · exact .refl s
    · exact same rfl rfl rfl rfl
  | consumeToken =>
    cases hs
    exact same rfl rfl rfl rfl
  | cleanPaidTokenDust =>
    cases hs
    unfold State.cleanPaidTokenDust
    split
    · exact .refl s
    · exact same rfl rfl rfl rfl
  | coins =>
    cases hs
    exact same rfl rfl rfl rfl
  | ensurePeriod => cases hc
  | payForToken => cases hc
  | cleanPaidRing => cases hc
  | deletePaidCollection => cases hc

/-- One operation keeps track of the registry, and takes a key from it only as one of the period
that is cleaned. -/
theorem step (h : s.Tracked D j) {a : Action T} (hG : CleansOnboarded s a) (hs : s.exec a = .ok s') :
    s'.Tracked D (journal s a s' j) ∧ ∀ k, s.coinage.paidUnloadTokenMembers.contains k = true →
      s'.coinage.paidUnloadTokenMembers.contains k = false →
      ∃ period ringIndex, a = .call (.cleanPaidRing period ringIndex) ∧ j k = some period := by
  have kept : s'.coinage.paidUnloadTokenMembers = s.coinage.paidUnloadTokenMembers → ∀ k,
      s.coinage.paidUnloadTokenMembers.contains k = true → s'.coinage.paidUnloadTokenMembers.contains k = false →
      ∃ period ringIndex, a = .call (.cleanPaidRing period ringIndex) ∧ j k = some period := fun heq k hk hk' => by
    rw [heq, hk] at hk'
    cases hk'
  cases a with
  | members id c =>
    refine ⟨h.members hG hs, kept ?_⟩
    simp only [exec, bind_eq_ok] at hs
    obtain ⟨-, -, hs⟩ := hs
    rw [(memberCall_spec hs).2.2.2]
  | advance seconds =>
    simp only [exec, Members.State.exec, Except.mapError, ok_bind] at hs
    cases hs
    refine ⟨⟨hG, h.created_lt, fun p hp => ?_⟩, kept rfl⟩
    have hexpired : ∀ {u : State T}, u.now = s.now + seconds → s.Expired p → u.Expired p := fun hu he =>
      he.later (hu ▸ Nat.le_add_right _ _) (hu ▸ hG)
    rcases h.period p hp with hover | ⟨hnot, hlive⟩
    · exact .inl (hover.of_same (hexpired rfl) rfl fun _ hk => hk)
    · exact .inr ⟨hnot, hlive.of_same rfl (hexpired rfl) rfl rfl fun _ => Iff.rfl⟩
  | provideChunks chunks =>
    simp only [exec, Members.State.exec, Except.mapError, ok_bind] at hs
    cases hs
    exact ⟨h.of_samePaid ⟨fun _ => rfl, rfl, rfl, rfl, rfl⟩, kept rfl⟩
  | call c =>
    by_cases hc : concernsPaid c = true
    · cases c with
      | ensurePeriod =>
        simp only [exec, execCall, bind_eq_ok] at hs
        obtain ⟨out, hout, hs⟩ := hs
        cases hs
        obtain ⟨htracked, -, hregistry⟩ := h.ensurePaidCollectionExists s.currentPeriod_lt (Nat.not_le.mpr hG) hout
        exact ⟨htracked, kept hregistry⟩
      | payForToken caller member proofOfOwnership =>
        obtain ⟨htracked, hgrows⟩ := h.addMember (Nat.not_le.mpr hG) hs
        refine ⟨htracked, fun k hk hk' => ?_⟩
        rw [hgrows k hk] at hk'
        cases hk'
      | cleanPaidRing period ringIndex =>
        simp only [exec, execCall, bind_eq_ok, mapError_eq_ok] at hs
        obtain ⟨u, hcan, hs⟩ := hs
        cases hs
        obtain ⟨htracked, hmembers⟩ := h.cleanRing hG hcan
        refine ⟨htracked, fun k hk hk' => ⟨period, ringIndex, rfl, (hmembers k ?_).2⟩⟩
        by_contra hnot
        change ((s.coinage.paidUnloadTokenMembers.removeAll _).get k).isSome = false at hk'
        rw [StorageMap.get_removeAll, if_neg hnot] at hk'
        rw [StorageMap.contains, hk'] at hk
        cases hk
      | deletePaidCollection period =>
        simp only [exec, execCall, bind_eq_ok, mapError_eq_ok] at hs
        obtain ⟨u, hcan, hs⟩ := hs
        obtain ⟨htracked, -, hregistry⟩ := h.deleteCollection hG hcan hs
        exact ⟨htracked, kept hregistry⟩
      | _ => cases hc
    · have hsame := samePaid (Bool.eq_false_iff.mpr hc) hs
      have hjournal : journal s (.call c) s' j = j := by
        cases c with
        | payForToken => exact absurd rfl hc
        | _ => rfl
      rw [hjournal]
      exact ⟨h.of_samePaid hsame, kept hsame.members⟩

end Tracked

/-! ### The registry after the deletion of a collection -/

/-- The state with its journal, in a run that meets the condition. -/
abbrev Cleaning (w w' : State T × Journal T) : Prop :=
  Reaches (noting exec journal) (fun w a => CleansOnboarded w.1 a) w w'

theorem Tracked.run {w w' : State T × Journal T} (h : w.1.Tracked D w.2) (hrun : Cleaning w w') :
    w'.1.Tracked D w'.2 :=
  hrun.noted (I := fun s j => s.Tracked D j) h fun _ _ _ _ ht hG hs => (ht.step hG hs).1

/-- Once a period is over, it is from then on. -/
theorem Tracked.mark (h : s.Tracked D j) (hover : s.Over j p) : s.Tracked (fun p' => p' = p) j where
  now_lt := h.now_lt
  created_lt := h.created_lt
  period p' hp' := by
    by_cases heq : p' = p
    · exact .inl (heq ▸ hover)
    · exact (h.period p' hp').imp id fun hlive => ⟨heq, hlive.2⟩

/-- A key without an entry can be registered, where the current period has a collection whose last
page of the queue has room. -/
theorem Tracked.exists_addMember (h : s.Tracked D j) {k : T.Member} (hcurrent : ¬ s.Expired s.currentPeriod)
    (hcreated : s.coinage.paidTokenCollectionsCreated.contains s.currentPeriod = true)
    (hroom : ((s.paidToken s.currentPeriod).queuePage (s.paidToken s.currentPeriod).queuePageIndices.2).length <
      T.members.onboardingQueuePageSize) (hvalid : T.members.crypto.isMemberValid k = true)
    (hfree : s.coinage.paidUnloadTokenMembers.contains k = false) {caller : T.AccountId} {proof : T.Signature}
    (hproof : T.verifySignature proof caller k = true) : ∃ s', s.addMember caller k proof = .ok s' := by
  obtain ⟨-, hlive⟩ := h.live_of_not_expired s.currentPeriod_lt hcurrent
  have hzero : s.nextPaidRing s.currentPeriod = 0 := by
    by_contra hne
    exact hcurrent (hlive.expired hne)
  -- A record of the key would be held, since no ring of the period has been cleaned.
  have hnone : (s.paidToken s.currentPeriod).members.get k = none := by
    cases hk : (s.paidToken s.currentPeriod).members.get k with
    | none => rfl
    | some position =>
      have hregistered := (hlive.registered_iff k).mpr ⟨position, hk, fun r _ _ _ => hzero ▸ Nat.zero_le r⟩
      rw [hregistered.1] at hfree
      cases hfree
  obtain ⟨page, hpage, hadd⟩ := Members.Store.addMember_of_fresh s.members.env (s.paidToken s.currentPeriod) k hnone
    hvalid hroom
  obtain ⟨info, hinfo⟩ := Option.isSome_iff_exists.mp (hlive.created hcreated)
  have hexec : ∃ t, (s.paidToken s.currentPeriod).exec s.members.env (.addMembers [k]) = .ok t := by
    simp only [Members.Store.exec, Members.Store.addMembers, hinfo, okOr_some, ok_bind, List.foldlM_cons, hadd,
      List.foldlM_nil]
    exact ⟨_, rfl⟩
  obtain ⟨t, ht⟩ := hexec
  obtain ⟨u, hu, -⟩ := exists_memberCall ht (s.members.exists_register _ rfl)
  have hexists : s.ensurePaidCollectionExists s.currentPeriod = .ok (s, false) := if_pos hcreated
  simp only [State.addMember, ensure_pos hproof, ensure_pos hfree, ensure_pos hvalid, hexists, hu, ok_bind]
  exact ⟨_, rfl⟩

/-- In every run that cleans and deletes once everybody is onboarded: after the deletion of a period's
collection the registry never has a key again that was registered in it last; only the cleaning of a ring
takes keys from the registry, and only keys registered in its period; and a key that is not in it can
be registered. -/
theorem paid_cleanup_complete {w : State T × Journal T} (hrun : Cleaning (genesis T, fun _ => none) w) :
    (∀ period s', CleansOnboarded w.1 (.call (.deletePaidCollection period)) →
      w.1.exec (.call (.deletePaidCollection period)) = .ok s' → ∀ w', Cleaning (s', w.2) w' →
        ∀ k, w'.2 k = some period → w'.1.coinage.paidUnloadTokenMembers.contains k = false) ∧
    (∀ a s', CleansOnboarded w.1 a → w.1.exec a = .ok s' → ∀ k,
      w.1.coinage.paidUnloadTokenMembers.contains k = true → s'.coinage.paidUnloadTokenMembers.contains k = false →
        ∃ period ringIndex, a = .call (.cleanPaidRing period ringIndex) ∧ w.2 k = some period) ∧
    ∀ k, w.1.coinage.paidUnloadTokenMembers.contains k = false → ¬ w.1.Expired w.1.currentPeriod →
      w.1.coinage.paidTokenCollectionsCreated.contains w.1.currentPeriod = true →
      ((w.1.paidToken w.1.currentPeriod).queuePage (w.1.paidToken w.1.currentPeriod).queuePageIndices.2).length <
        T.members.onboardingQueuePageSize →
      T.members.crypto.isMemberValid k = true → ∀ caller proof, T.verifySignature proof caller k = true →
        ∃ s', w.1.addMember caller k proof = .ok s' := by
  have htracked : w.1.Tracked (fun _ => False) w.2 := Tracked.genesis.run hrun
  refine ⟨fun period s' hG hs w' hrun' k hk => ?_, fun a s' hG hs => (htracked.step hG hs).2,
    fun k hfree hcurrent hcreated hroom hvalid caller proof hproof =>
      htracked.exists_addMember hcurrent hcreated hroom hvalid hfree hproof⟩
  simp only [exec, execCall, bind_eq_ok, mapError_eq_ok] at hs
  obtain ⟨u, hcan, hs⟩ := hs
  obtain ⟨hdeleted, hover, -⟩ := htracked.deleteCollection hG hcan hs
  have hp := htracked.created_lt period (by
    simp only [ensureCanDeleteCollection, bind_eq_ok, ensure_eq_ok] at hcan
    obtain ⟨-, hcreated, -⟩ := hcan
    exact hcreated)
  have hlater := (hdeleted.mark hover).run (w := (s', w.2)) hrun'
  have hover' := (hlater.period period hp).resolve_right fun hlive => hlive.1 rfl
  rw [Bool.eq_false_iff]
  exact fun hc => hover'.unregistered k ⟨hc, hk⟩

/-! ### The sample -/

instance (s : State T) (a : Action T) : Decidable (CleansOnboarded s a) := by
  unfold CleansOnboarded
  split <;> infer_instance

/-- A key is registered in the first period, and 200 seconds go by. -/
def samplePaid (onboarding : List (Action sampleConfig)) : List (Action sampleConfig) :=
  [.call (.payForToken (1 : Nat) (7 : Nat) ())] ++ onboarding ++ [.advance 200]

/-- A key that was onboarded is cleaned with its ring. -/
theorem paid_cleanup_complete_one : ∃ (w : State sampleConfig × Journal sampleConfig) (s' : State sampleConfig),
    w.1.exec (.call (.deletePaidCollection 0)) = .ok s' ∧ w.2 (7 : Nat) = some 0 ∧
      s'.coinage.paidUnloadTokenMembers.contains (7 : Nat) = false := by
  obtain ⟨w, hrun, hjournal, hdelete, hG⟩ := exists_reaches (noting exec journal) (fun w a => CleansOnboarded w.1 a)
    (genesis sampleConfig, fun _ => none)
    (samplePaid [.members (paidTokenCollectionIdentifier 0) (.onboardMembers true)] ++ [.call (.cleanPaidRing 0 0)])
    (fun w => w.2 (7 : Nat) = some 0 ∧ (w.1.exec (.call (.deletePaidCollection 0))).toOption.isSome = true ∧
      CleansOnboarded w.1 (.call (.deletePaidCollection 0))) (by decide +kernel)
  obtain ⟨s', hs'⟩ := Option.isSome_iff_exists.mp hdelete
  rw [toOption_eq_some] at hs'
  exact ⟨w, s', hs', hjournal, (paid_cleanup_complete hrun).1 0 s' hG hs' (s', w.2) (.refl _) (7 : Nat) hjournal⟩

/-- A key that waits in the queue stays in the registry, and cannot be registered again. -/
theorem paid_cleanup_complete_fails : ∃ w : State sampleConfig × Journal sampleConfig,
    Reaches (noting exec journal) (fun _ _ => True) (genesis sampleConfig, fun _ => none) w ∧
      w.2 (7 : Nat) = some 0 ∧ w.1.coinage.paidTokenCollectionsCreated.contains 0 = false ∧
      w.1.coinage.paidUnloadTokenMembers.contains (7 : Nat) = true ∧
      w.1.addMember (1 : Nat) (7 : Nat) () = .error .memberKeyAlreadyUsed := by
  obtain ⟨w, hrun, hjournal, hdeleted, hregistered⟩ := exists_reaches (noting exec journal) (fun _ _ => True)
    (genesis sampleConfig, fun _ => none) (samplePaid [] ++ [.call (.deletePaidCollection 0)])
    (fun w => w.2 (7 : Nat) = some 0 ∧ w.1.coinage.paidTokenCollectionsCreated.contains 0 = false ∧
      w.1.coinage.paidUnloadTokenMembers.contains (7 : Nat) = true) (by decide +kernel)
  refine ⟨w, hrun, hjournal, hdeleted, hregistered, ?_⟩
  unfold State.addMember
  rw [ensure_pos (show sampleConfig.verifySignature () (1 : Nat) (7 : Nat) = true from rfl), ok_bind, ensure, if_neg]
  · rfl
  · rw [hregistered]
    exact Bool.noConfusion

end State
end Individuality.Coinage
