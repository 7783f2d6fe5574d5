import Individuality.Reality.Landing

/-! One person for an id, one id for a key, one place for a key in the rings: what the pallets that hand out
personal ids, the people pallet and the members pallet agree on. -/
namespace Individuality.Reality
open Support
variable {T : Config} {c : Chain T}

/-- Exactly one person has the key. -/
def IsOfOne (c : Chain T) (key : T.ring.pallet.Member) : Prop :=
  ∃! id, ∃ person, c.ink.store.registry.people.get id = some person ∧ person.key = key

/-- The members of the people collection are people. -/
theorem Kept.isOfOne (h : Kept c) {key : T.ring.pallet.Member}
    (hkey : (c.ink.store.registry.rings.members.get key).isSome = true) : IsOfOne c key := by
  obtain ⟨id, hid⟩ := StorageMap.contains_eq_true.mp (h.enrolled.known key hkey)
  have hmirror := h.books.registry.keys key
  simp only [Option.some.injEq] at hmirror
  exact ⟨id, (hmirror id).mp hid, fun id' hid' => Option.some.inj (((hmirror id').mpr hid').symm.trans hid)⟩

/-- In every state reached while there are ids to reserve and the dummy DIM gives up its own only: an id is reserved
for at most one candidate or for the dummy DIM, and is then no person's; and a key with any record in the people
collection, be it suspended or queued, is the key of exactly one person. -/
theorem one_person_per_key {clock : Members.Env T.ring.pallet} {world : T.World} {env : ProofOfInk.Env T.ink}
    (h : Reaches exec Regular (genesis clock world env) c) :
    (∀ account candidate id, c.ink.store.candidates.get account = some candidate → candidate.reserved = some id →
      c.ink.store.registry.people.get id = none ∧ c.dummyDim.reservedIds.get id = none ∧
      ∀ other candidate', c.ink.store.candidates.get other = some candidate' → candidate'.reserved = some id →
        other = account) ∧
    (∀ id, c.dummyDim.reservedIds.get id = some () → c.ink.store.registry.people.get id = none) ∧
    ∀ key, (c.ink.store.registry.rings.members.get key).isSome = true → IsOfOne c key := by
  have hkept := kept_reached h
  refine ⟨fun account candidate id hget hid => ⟨?_, ?_, fun other candidate' hget' hid' => ?_⟩, fun id hid => ?_,
    fun key hkey => hkept.isOfOne hkey⟩
  · exact hkept.books.registry.reserved id (hkept.books.reserved_of_mem (ProofOfInk.mem_of_candidate hget hid))
  · cases hlisted : c.dummyDim.reservedIds.get id with
    | none => rfl
    | some => exact absurd (ProofOfInk.mem_of_candidate hget hid) (hkept.held id hlisted).2
  · have hprofile : ∀ account candidate, c.ink.store.candidates.get account = some candidate →
        candidate.reserved = some id → (c.ink.store.profile account).reserved = some id := by
      intro account candidate hget hid
      rw [ProofOfInk.profile_of_get hget]
      cases candidate <;> exact hid
    exact hkept.books.distinct other account id (hprofile other candidate' hget' hid') (hprofile account candidate hget hid)
  · exact hkept.books.registry.reserved id (hkept.held id hid).1

/-- An id of the dummy DIM, one of a candidate, and a person with a key in the collection. -/
theorem one_person_per_key_sample : ∃ c : Chain sampleConfig, c.dummyDim.reservedIds.contains 0 = true ∧
    isProven c 2 = true ∧ c.ink.store.registry.people.get 0 = none ∧ IsOfOne c (5 : Nat) := by
  obtain ⟨c, hreach, hlisted, hproven, hkey⟩ := exists_reaches exec Regular sampleGenesis sampleMoves
    (fun c => c.dummyDim.reservedIds.contains 0 = true ∧ isProven c 2 = true ∧
      (c.ink.store.registry.rings.members.get (5 : Nat)).isSome = true) (by decide +kernel)
  obtain ⟨-, hdummy, hmembers⟩ := one_person_per_key hreach
  obtain ⟨u, hid⟩ := StorageMap.contains_eq_true.mp hlisted
  exact ⟨c, hlisted, hproven, hdummy 0 hid, hmembers (5 : Nat) hkey⟩

/-- In every such state, of the rings of the people collection: but for the slots that are to be cleaned, what a ring
stores are keys of one person each, in no other slot and not waiting; a key that waits is of one person and on one
page of the queue; and a root commits to keys that its ring stores. -/
theorem rings_hold_people {clock : Members.Env T.ring.pallet} {world : T.World} {env : ProofOfInk.Env T.ink}
    (h : Reaches exec Regular (genesis clock world env) c) :
    let rings := c.ink.store.registry.rings
    (∀ key r p i, (rings.page r p)[i]? = some key → (p = 0 ∧ i ∈ (rings.pendingAt r).toList) ∨
      IsOfOne c key ∧ (∀ q, key ∉ rings.queuePage q) ∧ ∀ r' p' i', (rings.page r' p')[i']? = some key →
        (p' = 0 ∧ i' ∈ (rings.pendingAt r').toList) ∨ (r', p', i') = (r, p, i)) ∧
    (∀ key q, key ∈ rings.queuePage q → IsOfOne c key ∧ ∀ q', key ∈ rings.queuePage q' → q' = q) ∧
    ∀ r root, rings.root.get r = some root → rings.RootWithin r root := by
  have hkept := kept_reached h
  have hflexible := hkept.enrolled.flexible
  have hlive : ∀ key r p i, (c.ink.store.registry.rings.page r p)[i]? = some key →
      ¬(p = 0 ∧ i ∈ (c.ink.store.registry.rings.pendingAt r).toList) →
      c.ink.store.registry.rings.members.get key = some (.included r p i) :=
    fun key r p i hslot hlive => hflexible.placed.places.live key r p i hslot (mt hflexible.dead_iff.mp hlive)
  refine ⟨fun key r p i hslot => or_iff_not_imp_left.mpr fun hdead => ?_, fun key q hq => ?_, hflexible.roots⟩
  · have hrecord := hlive key r p i hslot hdead
    refine ⟨hkept.isOfOne (hrecord ▸ rfl), fun q hq => ?_, fun r' p' i' hslot' => or_iff_not_imp_left.mpr fun hdead' => ?_⟩
    · obtain ⟨t, hwaits⟩ := (hflexible.queue.mem_iff key q).mp hq
      cases hwaits.symm.trans hrecord
    · cases (hlive key r' p' i' hslot' hdead').symm.trans hrecord
      rfl
  · obtain ⟨t, hwaits⟩ := (hflexible.queue.mem_iff key q).mp hq
    exact ⟨hkept.isOfOne (hwaits ▸ rfl), fun q' hq' => hflexible.queue.page_unique hq' hq⟩

/-- The key of the person is taken into a ring. -/
theorem rings_hold_people_sample : ∃ c : Chain sampleConfig,
    (c.ink.store.registry.rings.page 0 0)[0]? = some (5 : Nat) ∧ IsOfOne c (5 : Nat) := by
  obtain ⟨c, hreach, hslot, hpending⟩ := exists_reaches exec Regular sampleGenesis
    (sampleMoves ++ [.members (.onboardMembers false)])
    (fun c => (c.ink.store.registry.rings.page 0 0)[0]? = some (5 : Nat) ∧
      (c.ink.store.registry.rings.pendingAt 0).toList = []) (by decide +kernel)
  refine ⟨c, hslot, (((rings_hold_people hreach).1 (5 : Nat) 0 0 0 hslot).resolve_left fun hdead => ?_).1⟩
  rw [hpending] at hdead
  cases hdead.2

end Individuality.Reality
