import Individuality.Notifier.Effects
import Individuality.Notifier.Encoding

/-! Whether the messages fit the channel.

A call never puts more updates into a message than `max_updates_per_xcm` allows, and an
initialization of enough rings puts exactly that many. So the messages to a subscriber fit its channel
exactly when the longest initialization with that many updates does. -/
namespace Individuality.Notifier
open Support Replication
open Members (Identifier RingExponent)
variable {R : Type} {T : Config R}

/-- The calls whose messages carry updates. -/
def Call.CarriesUpdates : Call T → Prop
  | .requestReplay .. | .sendBatch .. | .sendInitPage .. => True
  | _ => False

/-- The messages that such calls send to a subscriber, in whatever state, through a channel that
takes messages of so many bytes. -/
def Sent (paraId : ParaId) (maxMessageSize : Nat) (message : Message T) : Prop :=
  ∃ (env : Env T) (s : Store T) (call : Call T) (out : Store T × Outbox T),
    env.channelInfo paraId = some maxMessageSize ∧ call.CarriesUpdates ∧ s.exec env call = .ok out ∧
      (paraId, message) ∈ out.2

/-! ### How many updates a message carries -/

/-- The number of updates for a limit: what the division yields, within the bound of a batch. -/
def updateCount (T : Config R) (maxMessageSize : Nat) : Nat :=
  min ((maxMessageSize - T.xcmOverhead) / T.updateMaxEncodedLen) T.maxUpdatesPerBatch

theorem maxUpdatesPerXcm_eq_some {env : Env T} {paraId : ParaId} {maxMessageSize count : Nat}
    (hchannel : env.channelInfo paraId = some maxMessageSize) :
    maxUpdatesPerXcm env paraId = some count ↔
      T.xcmOverhead + T.updateMaxEncodedLen ≤ maxMessageSize ∧ count = updateCount T maxMessageSize := by
  have hpos := T.updateMaxEncodedLen_pos
  have hzero : (maxMessageSize - T.xcmOverhead) / T.updateMaxEncodedLen = 0 ↔
      ¬ T.xcmOverhead + T.updateMaxEncodedLen ≤ maxMessageSize := by
    rw [Nat.div_eq_zero_iff]
    omega
  simp only [maxUpdatesPerXcm, hchannel, Option.bind_some]
  split
  · next h =>
    constructor
    · rintro ⟨⟩
    · exact fun hcount => absurd hcount.1 (hzero.mp h)
  · next h =>
    rw [Option.some.injEq, updateCount]
    constructor
    · exact fun hcount => ⟨not_not.mp (mt hzero.mpr h), hcount.symm⟩
    · exact fun hcount => hcount.2.symm

theorem pos_of_mem_collections {collections : Collections T} {collection : Identifier × RingExponent}
    (h : collection ∈ collections.toList) : 0 < T.maxCollectionsPerSubscriber :=
  (List.length_pos_of_mem h).trans_le collections.length_le

theorem mem_updateBatches {env : Env T} {identifier : Identifier} {indices : List Nat}
    {sequence sourceTime maxPerXcm : Nat} {message : Message T}
    (h : message ∈ updateBatches env identifier indices sequence sourceTime maxPerXcm) :
    message.updates.length ≤ maxPerXcm := by
  obtain ⟨chunk, hchunk, hmessage⟩ := List.mem_filterMap.mp h
  obtain ⟨updates, hupdates, rfl⟩ := Option.map_eq_some_iff.mp hmessage
  rw [BoundedVec.tryFrom_eq_some] at hupdates
  change updates.toList.length ≤ maxPerXcm
  rw [hupdates]
  exact length_le_of_mem_chunks hchunk

theorem mem_batchMessages {env : Env T} {s : Store T} {batch : BatchDistributionState}
    {info : SubscriberInfo T} {sequence maxPerXcm : Nat} {message : Message T}
    (h : message ∈ s.batchMessages env batch info sequence maxPerXcm) :
    0 < T.maxCollectionsPerSubscriber ∧ message.updates.length ≤ maxPerXcm := by
  obtain ⟨collection, hcollection, hmessage⟩ := List.mem_flatMap.mp h
  exact ⟨pos_of_mem_collections hcollection, mem_updateBatches hmessage⟩

/-- No message carries more updates than the subscriber's channel is taken to hold. -/
theorem Sent.length_updates_le {paraId : ParaId} {maxMessageSize : Nat} {message : Message T}
    (h : Sent paraId maxMessageSize message) :
    0 < T.maxCollectionsPerSubscriber ∧ T.xcmOverhead + T.updateMaxEncodedLen ≤ maxMessageSize ∧
      message.updates.length ≤ updateCount T maxMessageSize := by
  obtain ⟨env, s, call, ⟨s', sent⟩, hchannel, hcall, hexec, hmem⟩ := h
  suffices ∃ count, maxUpdatesPerXcm env paraId = some count ∧ 0 < T.maxCollectionsPerSubscriber ∧
      message.updates.length ≤ count by
    obtain ⟨count, hcount, hcollections, hlength⟩ := this
    obtain ⟨hroom, rfl⟩ := (maxUpdatesPerXcm_eq_some hchannel).mp hcount
    exact ⟨hcollections, hroom, hlength⟩
  cases call with
  | requestReplay dest identifier indices =>
    simp only [Store.exec, Store.requestReplay, bind_eq_ok, ensure_eq_ok, okOr_eq_ok] at hexec
    obtain ⟨-, -, info, -, -, ⟨collection, hcollection, -⟩, -, -, maxPerXcm, hmax, -, hfits, -, -,
      updates, hupdates, -, -, hout⟩ := hexec
    cases hout
    obtain ⟨rfl, rfl⟩ := Prod.mk.inj (List.mem_singleton.mp hmem)
    refine ⟨maxPerXcm, hmax, pos_of_mem_collections hcollection, ?_⟩
    rw [BoundedVec.tryFrom_eq_some] at hupdates
    change updates.toList.length ≤ maxPerXcm
    rw [hupdates, length_resolveUpdatesForIndices]
    exact hfits
  | sendBatch dest sequence =>
    simp only [Store.exec, Store.sendBatch, bind_eq_ok, okOr_eq_ok] at hexec
    obtain ⟨-, -, batch, -, info, -, hexec⟩ := hexec
    split at hexec
    · cases hexec
      exact absurd hmem List.not_mem_nil
    · next hmax =>
      obtain ⟨count, hcount⟩ : ∃ count, maxUpdatesPerXcm env dest = some count := by
        refine Option.ne_none_iff_exists'.mp fun hnone => hmax ?_
        rw [hnone, Option.getD_none]
      rw [hcount, Option.getD_some] at hexec
      have hsent : sent = ((s.batchMessages env batch info sequence count).filter (env.router dest)).map
          fun message => (dest, message) := by
        split at hexec
        · cases hexec
          rfl
        · cases hexec
          rfl
      rw [hsent] at hmem
      obtain ⟨m, hm, heq⟩ := List.mem_map.mp hmem
      obtain ⟨rfl, rfl⟩ := Prod.mk.inj heq
      exact ⟨count, hcount, mem_batchMessages (List.mem_filter.mp hm).1⟩
  | sendInitPage dest index after =>
    simp only [Store.exec, Store.sendInitPage, bind_eq_ok, okOr_eq_ok] at hexec
    obtain ⟨-, -, state, -, hexec⟩ := hexec
    split at hexec
    · cases hexec
      exact absurd hmem List.not_mem_nil
    · next maxPerXcm hmax =>
      split at hexec
      · cases hexec
        exact absurd hmem List.not_mem_nil
      · next hcollection =>
        split at hexec
        · cases hexec
          obtain ⟨rfl, rfl⟩ := Prod.mk.inj (List.mem_singleton.mp hmem)
          refine ⟨maxPerXcm, hmax, pos_of_mem_collections (List.mem_of_getElem? hcollection), ?_⟩
          refine (List.length_take_le' _ _).trans ?_
          rw [List.length_map]
          exact List.length_take_le _ _
        · cases hexec
          exact absurd hmem List.not_mem_nil
  | _ => exact hcall.elim

/-! ### An initialization that carries that many -/

/-- A collection of so many rings, all with one root. -/
theorem exists_roots (root : ProvidedRoot R) (count : Nat) :
    ∃ roots : StorageMap Nat (ProvidedRoot R), roots.keys.length = count ∧
      ∀ i r, roots.get i = some r → r = root := by
  suffices ∃ roots : StorageMap Nat (ProvidedRoot R), roots.keys.length = count ∧
      (∀ i r, roots.get i = some r → r = root) ∧ ∀ i, count ≤ i → roots.get i = none by
    obtain ⟨roots, hlength, hroots, -⟩ := this
    exact ⟨roots, hlength, hroots⟩
  induction count with
  | zero => exact ⟨∅, rfl, by rintro i r ⟨⟩, fun _ _ => rfl⟩
  | succ count ih =>
    obtain ⟨roots, hlength, hroots, hfree⟩ := ih
    refine ⟨roots.insert count root, ?_, fun i r h => ?_, fun i hi => ?_⟩
    · rw [StorageMap.keys_insert, StorageMap.remove_of_get_none (hfree count le_rfl), List.length_cons,
        hlength]
    · rw [StorageMap.get_insert] at h
      split at h
      · exact (Option.some.inj h).symm
      · exact hroots i r h
    · rw [StorageMap.get_insert, if_neg (by omega)]
      exact hfree i (by omega)

/-- The first page of a collection is as long as the limit allows. -/
theorem length_getRingRootsPaginated (P : RingRootsProvider R) (storageKey : Identifier → Nat → Nat)
    (identifier : Identifier) (limit : Nat) :
    (P.getRingRootsPaginated storageKey identifier none limit).length =
      min limit (P.roots identifier).keys.length := by
  have hperm := List.perm_insertionSort (fun i j => storageKey identifier i ≤ storageKey identifier j)
    (P.roots identifier).keys
  unfold RingRootsProvider.getRingRootsPaginated
  rw [List.length_take]
  congr 1
  simp only [Option.all_none, List.filter_true]
  rw [← hperm.length_eq, List.length_filterMap_eq_countP, List.countP_eq_length]
  intro i hi
  obtain ⟨root, hroot⟩ := Option.isSome_iff_exists.mp
    (((P.roots identifier).mem_keys i).mp (hperm.mem_iff.mp hi))
  rw [hroot]
  rfl

/-- Where a message takes an update at all, some initialization is as long as they get. -/
theorem exists_longest_sent {M : Nat} (E : Codec T) (paraId : ParaId)
    (hcollections : 0 < T.maxCollectionsPerSubscriber)
    (hroom : T.xcmOverhead + T.updateMaxEncodedLen ≤ M) :
    ∃ message : Message T, Sent paraId M message ∧
      ∀ palletIndex, (E.encodeMessage palletIndex message).length =
        E.messageLength (E.callLength (updateCount T M)) := by
  obtain ⟨root, hroot⟩ := E.exists_longest_update 0 0
  obtain ⟨roots, hlength, hroots⟩ := exists_roots ⟨root, 0⟩ (updateCount T M)
  let collections : Collections T := ⟨[(Vector.replicate 32 0, .r2e9)], hcollections⟩
  let env : Env T := ⟨0, 0, ⟨fun _ => roots, fun _ => 0⟩, fun _ => some M, fun _ _ => true⟩
  let s : Store T := (Store.genesis T).registerForInit env paraId collections 0
  let state : PendingInitState T := ⟨collections, 0, none, 0, 0, 0⟩
  let page := env.provider.getRingRootsPaginated T.storageKey (Vector.replicate 32 0) none
    (updateCount T M)
  have hstate : s.pendingInit.get paraId = some state := by
    change ((∅ : StorageMap ParaId (PendingInitState T)).insert paraId state).get paraId = _
    rw [StorageMap.get_insert, if_pos rfl]
  have hchannel : env.channelInfo paraId = some M := rfl
  have hmax : maxUpdatesPerXcm env paraId = some (updateCount T M) :=
    (maxUpdatesPerXcm_eq_some hchannel).mpr ⟨hroom, rfl⟩
  have hpage : page.length = updateCount T M := by
    rw [length_getRingRootsPaginated, Nat.min_eq_left hlength.ge]
  let next : Store T := s.advanceInitPagination paraId state (page.length = updateCount T M)
    (page.getLast?.map Prod.fst)
  refine ⟨.initializeRingRoots .r2e9 (initBatch env state (Vector.replicate 32 0) page), ?_, ?_⟩
  · refine ⟨env, s, .sendInitPage paraId 0 none, (next, [(paraId, _)]), rfl, trivial, ?_, List.mem_singleton.mpr rfl⟩
    simp only [Store.exec, bind_eq_ok]
    refine ⟨(), ?_, ?_⟩
    · simp only [Store.authorizeSendInitPage, bind_eq_ok, okOr_eq_ok, ensure_eq_ok]
      exact ⟨state, hstate, (), Nat.lt_irrefl 0, (), Nat.lt_irrefl 0, (), id, id⟩
    · simp only [Store.sendInitPage, bind_eq_ok, okOr_eq_ok]
      refine ⟨state, hstate, ?_⟩
      rw [hmax]
      rfl
  · intro palletIndex
    refine E.length_encodeMessage_eq palletIndex .r2e9 ?_ ?_
    · change ((page.map fun r => (⟨r.1, .built r.2.revision r.2.root⟩ : RingRootUpdate R)).take
        T.maxUpdatesPerBatch).length = _
      rw [List.length_take, List.length_map, hpage]
      exact Nat.min_eq_right (Nat.min_le_right _ _)
    · intro update hupdate
      obtain ⟨r, hr, rfl⟩ := List.mem_map.mp (List.mem_of_mem_take hupdate)
      obtain ⟨i, -, hi⟩ := List.mem_filterMap.mp (List.mem_of_mem_take hr)
      obtain ⟨provided, hprovided, rfl⟩ := Option.map_eq_some_iff.mp hi
      rw [hroots i provided hprovided, ← hroot]
      simp only [Encoders.encodeUpdate, List.length_append, length_leBytes]

/-! ### When the messages fit -/

/-- The bytes that the division leaves over are enough for what it leaves out: the prefixes that
grow with the updates, and the ring exponent. -/
def LeavesRoom (E : Codec T) (maxMessageSize : Nat) : Prop :=
  E.growth (updateCount T maxMessageSize) ≤
    maxMessageSize - T.xcmOverhead - updateCount T maxMessageSize * T.updateMaxEncodedLen

theorem leavesRoom_iff (E : Codec T) {maxMessageSize : Nat}
    (hroom : T.xcmOverhead + T.updateMaxEncodedLen ≤ maxMessageSize) :
    LeavesRoom E maxMessageSize ↔
      E.messageLength (E.callLength (updateCount T maxMessageSize)) ≤ maxMessageSize := by
  have hmul : updateCount T maxMessageSize * T.updateMaxEncodedLen ≤ maxMessageSize - T.xcmOverhead :=
    (Nat.mul_le_mul_right _ (Nat.min_le_left _ _)).trans (Nat.div_mul_le_self _ _)
  have hlength := E.messageLength_callLength T.maxUpdatesPerBatch (updateCount T maxMessageSize)
  rw [← E.xcmOverhead_eq, ← E.updateMaxEncodedLen_eq] at hlength
  rw [hlength, LeavesRoom]
  omega

/-- Messages fit the channel, whatever they carry, exactly when it takes none or the division leaves
enough room. -/
theorem messages_fit_iff (E : Codec T) (paraId : ParaId) (maxMessageSize : Nat) :
    (∀ message : Message T, Sent paraId maxMessageSize message →
      ∀ palletIndex, (E.encodeMessage palletIndex message).length ≤ maxMessageSize) ↔
    (0 < T.maxCollectionsPerSubscriber → T.xcmOverhead + T.updateMaxEncodedLen ≤ maxMessageSize →
      LeavesRoom E maxMessageSize) := by
  constructor
  · intro hfit hcollections hroom
    obtain ⟨message, hsent, hlength⟩ := exists_longest_sent E paraId hcollections hroom
    rw [leavesRoom_iff E hroom, ← hlength 0]
    exact hfit message hsent 0
  · intro hleaves message hsent palletIndex
    obtain ⟨hcollections, hroom, hlength⟩ := hsent.length_updates_le
    exact (E.length_encodeMessage_le palletIndex message hlength).trans
      ((leavesRoom_iff E hroom).mp (hleaves hcollections hroom))

/-- Roots of no bytes at all: an update takes nine, and a message without updates sixty-four. -/
def sampleEncoders : Encoders Unit where
  encodeRoot _ := []
  rootMaxEncodedLen := 0
  length_encodeRoot_le _ := Nat.le_refl 0
  exists_longest_root := ⟨(), rfl⟩
  -- The version, two instructions, `UnpaidExecution`, and `Transact` up to its call.
  beforeCall := [5, 8, 47, 0, 0, 6, 0, 0]
  afterCall := []

def encodedConfig : Config Unit :=
  { sampleConfig with
    xcmOverhead := 64
    updateMaxEncodedLen := 9
    updateMaxEncodedLen_pos := by decide }

def sampleCodec : Codec encodedConfig where
  toEncoders := sampleEncoders
  xcmOverhead_eq := by decide
  updateMaxEncodedLen_eq := rfl

/-- A channel for exactly one update on top of the overhead: the message is two bytes longer. -/
theorem messages_fit_fails : ∃ message : Message encodedConfig, Sent 1 73 message ∧
    73 < (sampleCodec.encodeMessage 0 message).length := by
  obtain ⟨message, hsent, hlength⟩ := exists_longest_sent (M := 73) sampleCodec 1 (by decide) (by decide)
  refine ⟨message, hsent, ?_⟩
  rw [hlength]
  decide

end Individuality.Notifier
