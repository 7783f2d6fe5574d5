import Individuality.People.Enrolled
import Individuality.ProofOfInk.Reservations
import Individuality.Reality.Calls

/-! The ids that the pallets hold.

The ids of candidates are reserved, and so are those that the dummy DIM has listed, which
are no candidate's, as long as it gives up only what it has listed (`Regular`): what the
one does leaves the ids of the other alone (`Kept`). Besides, only people are members of
the people collection. -/
namespace Individuality.Reality
open Support
variable {T : Config} {c c' : Chain T} {a : Action T} {ink : ProofOfInk.Store T.ink} {s s' : DummyDim.State T.toConfig}
  {id : Nat}

/-! ### Runs -/

def Registration.reserved : Registration T → Nat
  | .anew _ => 1
  | _ => 0

def Action.reserved : Action T → Nat
  | .proofOfInk a => a.reserved
  | .dummyDim _ call => call.reserved
  | .score registration => registration.reserved
  | _ => 0

/-- The id that the dummy DIM gives up. -/
def Action.givenUp : Action T → Option Nat
  | .dummyDim _ (.cancelIdReservation id) => some id
  | _ => none

/-- There are ids left for those that an action reserves, and the dummy DIM gives up none but its own. -/
def Regular (c : Chain T) (a : Action T) : Prop :=
  c.ink.store.registry.nextPersonalId + a.reserved ≤ U64.max ∧
    ∀ id ∈ a.givenUp, c.dummyDim.reservedIds.contains id = true

instance (c : Chain T) (a : Action T) : Decidable (Regular c a) := inferInstanceAs (Decidable (_ ∧ _))

/-! ### The dummy DIM and the score pallet -/

/-- The ids of candidates are reserved, and the dummy DIM has listed others. -/
structure Apart (ink : ProofOfInk.Store T.ink) (s : DummyDim.State T.toConfig) : Prop where
  bindings : People.Bindings s.2
  enrolled : People.Enrolled s.2
  reserved : ∀ id ∈ ink.reservedIds, s.2.reservedPersonalId.get id = some ()
  known : ∀ id, ink.people.contains id = true → s.2.people.contains id = true
  held : ∀ id, s.1.reservedIds.get id = some () → s.2.reservedPersonalId.get id = some () ∧ id ∉ ink.reservedIds

namespace Apart

/-- An id is taken that is no candidate's, and listed no more; what is listed anew is reserved. -/
theorem onward (h : Apart ink s) {taken : Option Nat} (honward : People.Onward taken s.2 s'.2)
    (hbindings : People.Bindings s'.2) (henrolled : People.Enrolled s'.2) (htaken : ∀ id ∈ taken, id ∉ ink.reservedIds)
    (hlisted : ∀ id, s'.1.reservedIds.get id = some () → s.1.reservedIds.get id = some () ∧ taken ≠ some id ∨
      s'.2.reservedPersonalId.get id = some () ∧ id ∉ ink.reservedIds) : Apart ink s' where
  bindings := hbindings
  enrolled := henrolled
  reserved id hid := honward.reserved id (fun heq => htaken id heq hid) (h.reserved id hid)
  known id hid := honward.people id (h.known id hid)
  held id hid := by
    rcases hlisted id hid with ⟨hold, hne⟩ | hnew
    · exact ⟨honward.reserved id hne (h.held id hold).1, (h.held id hold).2⟩
    · exact hnew

/-- An id that is not reserved is no candidate's. -/
theorem unreserved (h : Apart ink s) (hnone : s.2.reservedPersonalId.get id = none) : id ∉ ink.reservedIds :=
  fun hid => nomatch hnone.symm.trans (h.reserved id hid)

/-- The next id is not reserved. -/
theorem next_unreserved (h : Apart ink s) : s.2.reservedPersonalId.get s.2.nextPersonalId = none := by
  cases hget : s.2.reservedPersonalId.get s.2.nextPersonalId with
  | none => rfl
  | some u => exact absurd (h.bindings.below_reserved _ hget) (Nat.lt_irrefl _)

theorem reserveNewId (h : Apart ink s) (hnext : s.2.nextPersonalId + 1 ≤ U64.max) : Apart ink (DummyDim.reserveNewId s) := by
  have honward : People.Onward none s.2 (People.reserveNewId s.2).2 := People.onward_reserveNewId s.2
  refine h.onward honward (h.bindings.reserveNewId hnext) (h.enrolled.of_eq rfl rfl)
    (fun _ hnone => by cases hnone) fun id hid => ?_
  have hid : (s.1.reservedIds.insert s.2.nextPersonalId ()).get id = some () := hid
  rw [StorageMap.get_insert] at hid
  split at hid
  · rename_i heq
    refine .inr ⟨?_, heq ▸ h.unreserved h.next_unreserved⟩
    exact (StorageMap.get_insert _ _ _ _).trans (if_pos heq)
  · exact .inl ⟨hid, fun hnone => by cases hnone⟩

theorem reserveIds (h : Apart ink s) {count : Nat} (hleft : s.2.nextPersonalId + count ≤ U64.max) :
    Apart ink (DummyDim.reserveNewId^[count] s) := by
  induction count generalizing s with
  | zero => exact h
  | succ count ih =>
    have hnext : s.2.nextPersonalId + 1 ≤ U64.max := by omega
    refine ih (h.reserveNewId hnext) ?_
    show U64.saturatingAdd s.2.nextPersonalId 1 + count ≤ U64.max
    rw [U64.saturatingAdd_eq hnext]
    omega

theorem renewIdReservation (h : Apart ink s) (hok : DummyDim.renewIdReservation s id = .ok s') : Apart ink s' := by
  simp only [DummyDim.renewIdReservation, bind_eq_ok, mapError_eq_ok, pure_eq_ok] at hok
  obtain ⟨registry, hrenewed, rfl⟩ := hok
  have honward : People.Onward none s.2 registry := People.onward_renewIdReservation hrenewed
  have hbindings := h.bindings.renewIdReservation hrenewed
  simp only [People.renewIdReservation, bind_eq_ok, ensure_eq_ok, not_or, Bool.not_eq_true,
    StorageMap.contains_eq_false, pure_eq_ok] at hrenewed
  obtain ⟨-, ⟨-, -, hnone⟩, rfl⟩ := hrenewed
  refine h.onward honward hbindings (h.enrolled.of_eq rfl rfl) nofun fun id' hid => ?_
  have hid : (s.1.reservedIds.insert id ()).get id' = some () := hid
  rw [StorageMap.get_insert] at hid
  split at hid
  · rename_i heq
    exact .inr ⟨(StorageMap.get_insert _ _ _ _).trans (if_pos heq), heq ▸ h.unreserved hnone⟩
  · exact .inl ⟨hid, fun hnone => by cases hnone⟩

/-- An id that has been listed is taken off. -/
theorem unlist (h : Apart ink s) {registry : T.Registry} (hlisted : s.1.reservedIds.get id = some ())
    (honward : People.Onward (some id) s.2 registry) (hbindings : People.Bindings registry)
    (henrolled : People.Enrolled registry) (people : StorageMap Nat (DummyDim.Record T.toConfig)) :
    Apart ink (⟨s.1.reservedIds.remove id, people⟩, registry) := by
  refine h.onward honward hbindings henrolled (fun id' hid => ?_) fun id' hid => ?_
  · cases hid
    exact (h.held id hlisted).2
  · have hid : (s.1.reservedIds.remove id).get id' = some () := hid
    rw [StorageMap.get_remove] at hid
    split at hid
    · cases hid
    · rename_i hne
      exact .inl ⟨hid, fun heq => hne (Option.some.inj heq).symm⟩

theorem cancelIdReservation (h : Apart ink s) (hlisted : s.1.reservedIds.get id = some ())
    (hok : DummyDim.cancelIdReservation s id = .ok s') : Apart ink s' := by
  simp only [DummyDim.cancelIdReservation, bind_eq_ok, mapError_eq_ok, pure_eq_ok] at hok
  obtain ⟨registry, hcancelled, rfl⟩ := hok
  have honward := People.onward_cancelIdReservation hcancelled
  have hbindings := h.bindings.cancelIdReservation hcancelled
  obtain ⟨-, rfl⟩ := People.cancelIdReservation_ok hcancelled
  exact h.unlist hlisted honward hbindings (h.enrolled.of_eq rfl rfl) _

theorem recognizeOne (h : Apart ink s) {entry : Nat × T.Member} (hok : DummyDim.recognizeOne s entry = .ok s') :
    Apart ink s' := by
  simp only [DummyDim.recognizeOne, bind_eq_ok, ensure_eq_ok, mapError_eq_ok, pure_eq_ok, StorageMap.contains_eq_true] at hok
  obtain ⟨-, ⟨_, hlisted⟩, registry, hrecognized, rfl⟩ := hok
  exact h.unlist hlisted (People.onward_recognizePersonhood hrecognized) (h.bindings.recognizePersonhood hrecognized)
    (h.enrolled.recognizePersonhood h.bindings hrecognized) _

/-- Nothing is taken, or listed. -/
theorem moved (h : Apart ink s) (honward : People.Onward none s.2 s'.2) (hbindings : People.Bindings s'.2)
    (henrolled : People.Enrolled s'.2) (hlisted : s'.1.reservedIds = s.1.reservedIds) : Apart ink s' :=
  h.onward honward hbindings henrolled nofun fun _ hid => .inl ⟨hlisted ▸ hid, nofun⟩

theorem suspendPersonhood (h : Apart ink s) {ids : BoundedVec Nat T.maxPersonBatchSize}
    (hok : DummyDim.suspendPersonhood s ids = .ok s') : Apart ink s' := by
  simp only [DummyDim.suspendPersonhood, bind_eq_ok, pure_eq_ok] at hok
  obtain ⟨-, -, people, -, rfl⟩ := hok
  exact h.moved (People.onward_suspendPersonhood _) (h.bindings.suspendPersonhood _) (h.enrolled.suspendPersonhood _) rfl

theorem resumePersonhood (h : Apart ink s) (hok : DummyDim.resumePersonhood s id = .ok s') : Apart ink s' := by
  simp only [DummyDim.resumePersonhood, bind_eq_ok, mapError_eq_ok, pure_eq_ok] at hok
  obtain ⟨record, -, -, -, registry, hrecognized, rfl⟩ := hok
  exact h.moved (People.onward_recognizePersonhood hrecognized) (h.bindings.recognizePersonhood hrecognized)
    (h.enrolled.recognizePersonhood h.bindings hrecognized) rfl

/-- Others call the members pallet. -/
theorem tend (h : Apart ink s) {call : Members.Call T.ring.pallet} {rings : Members.Store T.ring.pallet}
    {clock : Members.Env T.ring.pallet} (htends : Members.tends call = true)
    (hok : s.2.rings.exec s.2.members.1 call = .ok rings) : Apart ink (s.1, { s.2 with members := (clock, rings) }) :=
  h.moved (.of_eq rfl rfl) (h.bindings.frame _ _ _)
    (h.enrolled.tend htends hok clock) rfl

theorem session (h : Apart ink s) {call : Members.Call T.ring.pallet} (htends : Members.tends call = true)
    (hok : DummyDim.session s call = .ok s') : Apart ink s' := by
  simp only [DummyDim.session, bind_eq_ok, mapError_eq_ok, pure_eq_ok] at hok
  obtain ⟨rings, hexec, rfl⟩ := hok
  exact h.tend htends hexec

theorem dummyDim (h : Apart ink s) {origin : DummyDim.Origin} {call : DummyDim.Call T.toConfig}
    (hleft : s.2.nextPersonalId + call.reserved ≤ U64.max)
    (hgiven : ∀ id, call = .cancelIdReservation id → s.1.reservedIds.contains id = true)
    (hok : DummyDim.dispatch s origin call = .ok s') : Apart ink s' := by
  cases origin with
  | other => cases hok
  | update =>
    cases call with
    | reserveIds count =>
      simp only [DummyDim.dispatch, DummyDim.reserveIds, bind_eq_ok, pure_eq_ok] at hok
      obtain ⟨-, -, rfl⟩ := hok
      exact h.reserveIds hleft
    | renewIdReservation id => exact h.renewIdReservation hok
    | cancelIdReservation id =>
      obtain ⟨_, hlisted⟩ := StorageMap.contains_eq_true.mp (hgiven id rfl)
      exact h.cancelIdReservation hlisted hok
    | recognizePersonhood idsAndKeys =>
      exact foldlM_ok_induction (fun _ t => Apart ink t) hok h fun _ _ _ _ _ ht hone => ht.recognizeOne hone
    | suspendPersonhood ids => exact h.suspendPersonhood hok
    | resumePersonhood id => exact h.resumePersonhood hok
    | startMutationSession => exact h.session rfl hok
    | endMutationSession => exact h.session rfl hok

/-- The score pallet recognizes a participant at once under the id that it has reserved. -/
theorem register (h : Apart ink s) {registration : Registration T} {registry : T.Registry}
    (hleft : s.2.nextPersonalId + registration.reserved ≤ U64.max)
    (hok : Reality.register s.2 registration = .ok registry) : Apart ink (s.1, registry) := by
  cases registration with
  | anew key =>
    have hrecognized : People.recognizePersonhood (People.reserveNewId s.2).2 s.2.nextPersonalId (some key) =
        .ok registry := hok
    have hbindings := h.bindings.reserveNewId hleft
    have honward : People.Onward none s.2 (People.reserveNewId s.2).2 := People.onward_reserveNewId s.2
    have hreserved : Apart ink (s.1, (People.reserveNewId s.2).2) := h.moved honward hbindings (h.enrolled.of_eq rfl rfl) rfl
    refine hreserved.onward (People.onward_recognizePersonhood hrecognized) (hbindings.recognizePersonhood hrecognized)
      (hreserved.enrolled.recognizePersonhood hbindings hrecognized) (fun id hid => ?_) fun id hid => ?_
    · cases hid
      exact h.unreserved h.next_unreserved
    · refine .inl ⟨hid, fun heq => ?_⟩
      cases heq
      exact nomatch h.next_unreserved.symm.trans (h.held _ hid).1
  | again id =>
    have hrecognized : People.recognizePersonhood s.2 id none = .ok registry := hok
    exact h.moved (People.onward_recognizePersonhood hrecognized) (h.bindings.recognizePersonhood hrecognized)
      (h.enrolled.recognizePersonhood h.bindings hrecognized) rfl
  | suspended ids =>
    cases hok
    exact h.moved (People.onward_suspendPersonhood _) (h.bindings.suspendPersonhood _) (h.enrolled.suspendPersonhood _) rfl

end Apart

/-! ### Every action -/

/-- The books of proof of ink balance, the ids of others are reserved, and the members are people. -/
structure Kept (c : Chain T) : Prop where
  books : ProofOfInk.Books c.ink.store
  held : ∀ id, c.dummyDim.reservedIds.get id = some () → ProofOfInk.Held c.ink.store id
  enrolled : People.Enrolled c.ink.store.registry

/-- What proof of ink asks of the people pallet adds people only. -/
theorem enrolled_of_use {registry : People.Store T.ink.people} (h : ProofOfInk.Use ink registry)
    (hb : People.Bindings ink.registry) (henrolled : People.Enrolled (R := T.ring) ink.registry) :
    People.Enrolled (R := T.ring) registry := by
  cases h with
  | same => exact henrolled
  | @reserved requireId _ _ hreserved =>
    cases requireId with
    | some required =>
      simp only [ProofOfInk.reserveId, People.renewIdReservation, bind_eq_ok, mapError_eq_ok, pure_eq_ok] at hreserved
      obtain ⟨renewed, ⟨-, -, rfl⟩, heq⟩ := hreserved
      cases heq
      exact henrolled.of_eq rfl rfl
    | none =>
      cases hreserved
      exact henrolled.of_eq rfl rfl
  | cancelled _ hcancelled =>
    obtain ⟨-, rfl⟩ := People.cancelIdReservation_ok hcancelled
    exact henrolled.of_eq rfl rfl
  | recognized _ hrecognized => exact henrolled.recognizePersonhood hb hrecognized

namespace Kept

theorem apart (h : Kept c) : Apart c.ink.store (c.dummyDim, c.ink.store.registry) :=
  ⟨h.books.registry, h.enrolled, fun _ hid => h.books.reserved_of_mem hid, h.books.known, h.held⟩

theorem of_apart (h : Kept c) {dummyDim : DummyDim.Store T.toConfig} {registry : T.Registry}
    (hapart : Apart c.ink.store (dummyDim, registry)) : Kept { c.withRegistry registry with dummyDim := dummyDim } :=
  ⟨h.books.withRegistry hapart.reserved hapart.known hapart.bindings, hapart.held, hapart.enrolled⟩

theorem proofOfInk (h : Kept c) {a : ProofOfInk.Action T.ink} (hown : isOwn a = true)
    (hids : ProofOfInk.LeavesIds c.ink a) {ink' : ProofOfInk.Chain T.ink} (hok : ProofOfInk.exec c.ink a = .ok ink') :
    Kept { c with ink := ink' } := by
  have hstep := ProofOfInk.exec_step hok
  have hspared : ∀ id action, a = .people action → action.taken ≠ some id := by
    intro id action heq
    rw [heq] at hown
    cases action with
    | submit | dispatch | cleanUpAlias => nofun
    | _ => cases hown
  refine ⟨h.books.step hids hstep, fun id hid => (h.held id hid).step h.books.registry hids (hspared id) hstep, ?_⟩
  cases hstep with
  | @call _ call t s' hcall hprepared heffect =>
    obtain ⟨nonces, rfl⟩ := hprepared
    have ht : People.Enrolled { c.ink.store.registry with nonces := nonces } := h.enrolled.of_eq rfl rfl
    rcases heffect with rfl | heffect
    · exact ht
    · exact enrolled_of_use heffect.use (h.books.registry.frame _ _ nonces) ht
  | @judged ticket judgement case s' _ hjudged =>
    rcases hjudged with rfl | hjudged
    · exact h.enrolled
    · exact enrolled_of_use hjudged.use h.books.registry h.enrolled
  | @people action d _ hexec =>
    obtain ⟨registry, happlied, hstore⟩ := People.exec_ok hexec
    subst hstore
    have hleft : People.LeavesIds ⟨c.ink.store.registry, c.ink.env.people⟩ action := hids
    exact People.Enrolled.apply h.enrolled h.books.registry hleft hown happlied
  | elsewhere => exact h.enrolled

theorem step (h : Kept c) (hregular : Regular c a) (hok : exec c a = .ok c') : Kept c' := by
  cases a with
  | proofOfInk a =>
    simp only [exec, bind_eq_ok, ensure_eq_ok, mapError_eq_ok, pure_eq_ok] at hok
    obtain ⟨-, hown, ink, hexec, rfl⟩ := hok
    exact h.proofOfInk hown hregular.1 hexec
  | dummyDim origin call =>
    simp only [exec, bind_eq_ok, mapError_eq_ok, pure_eq_ok] at hok
    obtain ⟨⟨dummyDim, registry⟩, hdispatched, rfl⟩ := hok
    refine h.of_apart (h.apart.dummyDim hregular.1 (fun id hcall => ?_) hdispatched)
    rw [hcall] at hregular
    exact hregular.2 id rfl
  | score registration =>
    simp only [exec, bind_eq_ok, mapError_eq_ok, pure_eq_ok] at hok
    obtain ⟨registry, hregistered, rfl⟩ := hok
    exact h.of_apart (h.apart.register hregular.1 hregistered)
  | members call =>
    simp only [exec, bind_eq_ok, ensure_eq_ok, mapError_eq_ok, pure_eq_ok] at hok
    obtain ⟨-, htends, rings, hexec, rfl⟩ := hok
    exact h.of_apart (h.apart.tend htends hexec)
  | clock clock =>
    cases hok
    have hregistry := h.books.registry.frame (clock, c.ink.store.registry.rings)
      c.ink.store.registry.peopleCollectionCreated c.ink.store.registry.nonces
    exact h.of_apart (h.apart.moved (.of_eq rfl rfl) hregistry (h.enrolled.of_eq rfl rfl) rfl)

theorem genesis (clock : Members.Env T.ring.pallet) (world : T.World) (env : ProofOfInk.Env T.ink) :
    Kept (Reality.genesis clock world env) :=
  ⟨ProofOfInk.Books.genesis (T := T.ink) (clock, Members.Store.empty T.ring.pallet) world env, nofun,
    People.Enrolled.genesis clock env.people⟩

end Kept

/-- In every run in which there are ids left and the dummy DIM gives up its own. -/
theorem kept_reached {clock : Members.Env T.ring.pallet} {world : T.World} {env : ProofOfInk.Env T.ink}
    (h : Reaches exec Regular (genesis clock world env) c) : Kept c :=
  h.invariant (Kept.genesis clock world env) fun _ _ _ hc hregular hok => hc.step hregular hok

end Individuality.Reality
