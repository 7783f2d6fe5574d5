import Individuality.Replication.Channel
import Individuality.Notifier.Effects
import Individuality.Subscriber.Effects

/-! Replay requests and what the notifier makes of them.

A subscriber asks for missing rings in chunks of `MaxUpdatesPerBatch`, while the
notifier takes at most what a message to the subscriber holds, only rings that exist,
and one request for a collection in each cooldown. -/
namespace Individuality.Replication
open Support
open Members (Identifier RingExponent)
variable {R : Type} {T : Notifier.Config R} {C : Subscriber.Config R}

/-! ### Arrivals -/

/-- What runs on the notifier's chain before a request arrives, and what the request finds. -/
structure Arrival (T : Notifier.Config R) where
  others : List (Notifier.Action T)
  env : Notifier.Env T

/-- The store after some calls, of which the refused ones change nothing. -/
def runAll (s : Notifier.Store T) (calls : List (Notifier.Action T)) : Notifier.Store T :=
  calls.foldl (fun s a => (s.execAction a).toOption.getD s) s

/-- The requests of one call arrive one after the other, and all are accepted. -/
def arrive (origin : ParaId) : Notifier.Store T → List (Arrival T × Subscriber.NotifierCall) →
    Option (Notifier.Store T × Notifier.Outbox T)
  | s, [] => some (s, [])
  | s, (arrival, message) :: rest => do
    let call ← NotifierCall.received T origin message
    let (s, sent) ← ((runAll s arrival.others).exec arrival.env call).toOption
    let (s, replies) ← arrive origin s rest
    some (s, sent ++ replies)

/-- Calls that end the subscription or replay the collection. -/
def Disturbs (paraId : ParaId) (identifier : Identifier) : Notifier.Call T → Prop
  | .unsubscribe p _ => p = paraId
  | .requestReplay p i _ => p = paraId ∧ i = identifier
  | _ => False

/-- The times of the arrivals are a cooldown apart, from the time of the last replay on. -/
def Spaced (cooldown : Nat) : Option Nat → List Nat → Prop
  | _, [] => True
  | last, time :: times => (∀ t ∈ last, t + cooldown ≤ time) ∧ Spaced cooldown (some time) times

theorem spaced_iff {cooldown : Nat} {last : Option Nat} {times : List Nat}
    (h : ∀ t ∈ last, ∀ time ∈ times, t + cooldown ≤ time) :
    Spaced cooldown last times ↔ times.IsChain fun t t' => t + cooldown ≤ t' := by
  have chain : ∀ (time : Nat) (times : List Nat), Spaced cooldown (some time) times ↔
      (time :: times).IsChain fun t t' => t + cooldown ≤ t' := by
    intro time times
    induction times generalizing time with
    | nil => simp [Spaced]
    | cons t rest ih =>
      rw [Spaced, List.isChain_cons_cons, ih]
      simp
  cases times with
  | nil => simp [Spaced]
  | cons time rest =>
    rw [Spaced, chain]
    exact and_iff_right fun t ht => h t ht time List.mem_cons_self

/-! ### One request -/

section Request
variable {s : Notifier.Store T} {env : Notifier.Env T} {paraId : ParaId} {identifier : Identifier}

/-- The subscriber has the collection. -/
def Subscribed (s : Notifier.Store T) (paraId : ParaId) (identifier : Identifier) : Prop :=
  ∃ info, s.subscribers.get paraId = some info ∧
    ∃ collection ∈ info.collections.toList, collection.1 = identifier

/-- A strictly increasing list is below a bound when its last element is. -/
theorem forall_lt_iff_getLast {l : List Nat} {n : Nat} (h : l.IsChain (· < ·)) :
    (∀ last ∈ l.getLast?, last < n) ↔ ∀ i ∈ l, i < n := by
  have hpairs : l.Pairwise (· < ·) := List.isChain_iff_pairwise.mp h
  rcases List.eq_nil_or_concat l with rfl | ⟨init, last, rfl⟩
  · simp
  rw [List.concat_eq_append] at hpairs ⊢
  simp only [List.getLast?_concat, Option.mem_def, Option.some.injEq, forall_eq']
  constructor
  · intro hlast i hi
    rcases List.mem_append.mp hi with hi | hi
    · exact ((List.pairwise_append.mp hpairs).2.2 i hi last List.mem_cons_self).trans hlast
    · rw [List.mem_singleton.mp hi]
      exact hlast
  · exact fun hall => hall last (by simp)

/-- When a request that is in order is accepted. -/
theorem exec_requestReplay_iff (s : Notifier.Store T) (env : Notifier.Env T)
    {indices : BoundedVec Nat T.maxUpdatesPerBatch}
    (hne : indices.toList ≠ []) (hsorted : indices.toList.IsChain (· < ·))
    (hsubscribed : Subscribed s paraId identifier)
    (hchannel : (Notifier.maxUpdatesPerXcm env paraId).isSome = true)
    (hrouter : ∀ message, env.router paraId message = true) :
    (∃ out, s.exec env (.requestReplay paraId identifier indices) = .ok out) ↔
      (indices.length ≤ (Notifier.maxUpdatesPerXcm env paraId).getD 0 ∧
        ∀ index ∈ indices.toList, index < env.provider.nextRingIndex identifier) ∧
      ∀ last ∈ s.lastReplayTime.get (paraId, identifier), T.replayCooldownSeconds ≤ env.now - last := by
  obtain ⟨info, hinfo, hcollection⟩ := hsubscribed
  obtain ⟨maxPerXcm, hmax⟩ := Option.isSome_iff_exists.mp hchannel
  rw [hmax, Option.getD_some, ← forall_lt_iff_getLast hsorted]
  simp only [Notifier.Store.exec, Notifier.Store.requestReplay, bind_eq_ok, ensure_eq_ok, okOr_eq_ok]
  constructor
  · rintro ⟨out, -, -, info', -, -, -, -, hlast, maxPerXcm', hmax', -, hfits, -, hcool, -⟩
    obtain rfl : maxPerXcm' = maxPerXcm := Option.some.inj (hmax'.symm.trans hmax)
    exact ⟨⟨hfits, hlast.2⟩, hcool⟩
  · rintro ⟨⟨hfits, hlast⟩, hcool⟩
    have hupdates : (Notifier.resolveUpdatesForIndices env identifier indices.toList).length ≤
        T.maxUpdatesPerBatch := by
      rw [Notifier.length_resolveUpdatesForIndices]
      exact indices.length_le
    obtain ⟨updates, hupdates, -⟩ := BoundedVec.exists_tryFrom hupdates
    exact ⟨_, ⟨⟩, hne, info, hinfo, ⟨⟩, hcollection, ⟨⟩, ⟨hsorted, hlast⟩, maxPerXcm, hmax, ⟨⟩, hfits, ⟨⟩,
      hcool, updates, hupdates, ⟨⟩, hrouter _, rfl⟩

end Request

/-! ### What else runs on the notifier -/

/-- Other calls neither end the subscription nor touch the time of the last replay. -/
theorem keeps_of_step {s : Notifier.Store T} {env : Notifier.Env T} {call : Notifier.Call T}
    {out : Notifier.Store T × Notifier.Outbox T} (h : Notifier.Store.Step env s call out)
    {paraId : ParaId} {identifier : Identifier} (hcall : ¬ Disturbs paraId identifier call) :
    (∀ info, s.subscribers.get paraId = some info → out.1.subscribers.get paraId = some info) ∧
      out.1.lastReplayTime.get (paraId, identifier) = s.lastReplayTime.get (paraId, identifier) := by
  cases h with
  | subscribe p collections palletIndex hnew =>
    refine ⟨fun info hinfo => ?_, rfl⟩
    have hne : paraId ≠ p := by
      rintro rfl
      rw [hnew] at hinfo
      cases hinfo
    exact (StorageMap.get_insert _ _ _ _).trans ((if_neg hne).trans hinfo)
  | unsubscribe p _ info =>
    have hne : paraId ≠ p := fun heq => hcall heq.symm
    rw [Notifier.Store.leaveBatch_eq]
    refine ⟨fun i hi => (StorageMap.get_remove _ _ _).trans ((if_neg hne).trans hi), ?_⟩
    refine (StorageMap.get_removeAll _ _ _).trans (if_neg fun hmem => ?_)
    obtain ⟨collection, -, heq⟩ := List.mem_map.mp hmem
    exact hne (congrArg Prod.fst heq).symm
  | requestReplay p i =>
    refine ⟨fun _ h => h, (StorageMap.get_insert _ _ _ _).trans (if_neg fun heq => hcall ?_)⟩
    exact ⟨(congrArg Prod.fst heq).symm, (congrArg Prod.snd heq).symm⟩
  | enqueueUpdates =>
    rcases eq_or_ne s.subscribers.size 0 with hzero | hpos
    · rw [Notifier.Store.enqueueUpdates_of_none env hzero, Notifier.Store.sentPages_eq]
      exact ⟨fun _ h => h, rfl⟩
    · rw [Notifier.Store.enqueueUpdates_of_pos env hpos, Notifier.Store.sentPages_eq]
      exact ⟨fun _ h => h, rfl⟩
  | served =>
    rw [Notifier.Store.markServed_eq]
    exact ⟨fun _ h => h, rfl⟩
  | unserved => exact ⟨fun _ h => h, rfl⟩
  | sendInitPage => exact ⟨fun _ h => h, rfl⟩
  | abandonStuckBatch => exact ⟨fun _ h => h, rfl⟩
  | onRingRootChange i r =>
    by_cases hnew : s.pendingUpdates.contains (s.pageState.writePage, i, r) = true
    · rw [Notifier.Store.onRingRootChange_of_noted hnew]
      exact ⟨fun _ h => h, rfl⟩
    · rw [Notifier.Store.onRingRootChange_of_new hnew]
      exact ⟨fun _ h => h, rfl⟩

theorem runAll_keeps {s : Notifier.Store T} {calls : List (Notifier.Action T)} {paraId : ParaId}
    {identifier : Identifier} (hcalls : ∀ a ∈ calls, ¬ Disturbs paraId identifier a.2) :
    (∀ info, s.subscribers.get paraId = some info →
      (runAll s calls).subscribers.get paraId = some info) ∧
      (runAll s calls).lastReplayTime.get (paraId, identifier) =
        s.lastReplayTime.get (paraId, identifier) := by
  induction calls generalizing s with
  | nil => exact ⟨fun _ h => h, rfl⟩
  | cons a rest ih =>
    have hrest := fun b hb => hcalls b (List.mem_cons_of_mem a hb)
    rw [runAll, List.foldl_cons]
    cases ha : s.execAction a with
    | error e => exact ih hrest
    | ok s' =>
      obtain ⟨sent, hstep⟩ := Notifier.Store.execAction_step ha
      obtain ⟨hinfo, htime⟩ := keeps_of_step hstep (hcalls a List.mem_cons_self)
      obtain ⟨hinfo', htime'⟩ := ih hrest (s := s')
      exact ⟨fun info h => hinfo' info (hinfo info h), htime'.trans htime⟩

/-! ### The requests of one call -/

/-- A request in order: what the chunks of a list of missing rings are. -/
structure InOrder (indices : List Nat) : Prop where
  ne_nil : indices ≠ []
  sorted : indices.IsChain (· < ·)
  length_le : indices.length ≤ T.maxUpdatesPerBatch

/-- The rings that a request names. -/
def ringRootIndices : Subscriber.NotifierCall → List Nat
  | .unsubscribe => []
  | .requestReplay _ _ indices => indices

/-- What a request asks for fits one message to the subscriber and exists. -/
def Fits (paraId : ParaId) (identifier : Identifier) (arrival : Arrival T) (indices : List Nat) : Prop :=
  indices.length ≤ (Notifier.maxUpdatesPerXcm arrival.env paraId).getD 0 ∧
    ∀ index ∈ indices, index < arrival.env.provider.nextRingIndex identifier

instance (paraId : ParaId) (identifier : Identifier) (arrival : Arrival T) (indices : List Nat) :
    Decidable (Fits paraId identifier arrival indices) := inferInstanceAs (Decidable (_ ∧ _))

/-- What the subscriber counts on: it is subscribed and reachable, and nobody else ends that or replays
the collection meanwhile. -/
structure Serves (s : Notifier.Store T) (arrivals : List (Arrival T)) (paraId : ParaId)
    (identifier : Identifier) : Prop where
  subscribed : Subscribed s paraId identifier
  channel : ∀ a ∈ arrivals, (Notifier.maxUpdatesPerXcm a.env paraId).isSome = true
  router : ∀ a ∈ arrivals, ∀ message, a.env.router paraId message = true
  undisturbed : ∀ a ∈ arrivals, ∀ b ∈ a.others, ¬ Disturbs paraId identifier b.2

/-- A request that arrives is decoded, and the ones after it find what it leaves. -/
theorem arrive_cons {origin paraId : ParaId} {identifier : Identifier} {s : Notifier.Store T}
    {arrival : Arrival T} {v : BoundedVec Nat T.maxUpdatesPerBatch}
    {rest : List (Arrival T × Subscriber.NotifierCall)}
    {out : Notifier.Store T × Notifier.Outbox T} :
    arrive origin s ((arrival, .requestReplay paraId identifier v.toList) :: rest) = some out ↔
      ∃ s' sent, (runAll s arrival.others).exec arrival.env (.requestReplay paraId identifier v) =
        .ok (s', sent) ∧
      ∃ s'' replies, arrive origin s' rest = some (s'', replies) ∧ out = (s'', sent ++ replies) := by
  have hreceived : NotifierCall.received T origin (.requestReplay paraId identifier v.toList) =
      some (.requestReplay paraId identifier v) := by
    rw [NotifierCall.received, BoundedVec.tryFrom_eq_some.mpr rfl]
    rfl
  rw [arrive, hreceived]
  show ((Notifier.Store.exec arrival.env (runAll s arrival.others)
    (.requestReplay paraId identifier v)).toOption.bind _) = some out ↔ _
  cases Notifier.Store.exec arrival.env (runAll s arrival.others) (.requestReplay paraId identifier v) with
  | error e => simp [Except.toOption]
  | ok result =>
    obtain ⟨s', sent⟩ := result
    simp only [Except.toOption, Option.bind_some, Except.ok.injEq, Prod.mk.injEq]
    show ((arrive origin s' rest).bind _) = some out ↔ _
    constructor
    · intro h
      obtain ⟨⟨s'', replies⟩, harrive, hout⟩ := Option.bind_eq_some_iff.mp h
      exact ⟨s', sent, ⟨rfl, rfl⟩, s'', replies, harrive, (Option.some.inj hout).symm⟩
    · rintro ⟨_, _, ⟨rfl, rfl⟩, s'', replies, harrive, rfl⟩
      rw [harrive]
      rfl

theorem arrive_isSome_iff (hcooldown : 0 < T.replayCooldownSeconds) (origin paraId : ParaId)
    (identifier : Identifier) (l : List (Arrival T × List Nat)) {s : Notifier.Store T}
    (hserves : Serves s (l.map Prod.fst) paraId identifier)
    (horder : ∀ x ∈ l, InOrder (T := T) x.2) :
    (∃ out, arrive origin s (l.map fun x => (x.1, .requestReplay paraId identifier x.2)) = some out) ↔
      (∀ x ∈ l, Fits paraId identifier x.1 x.2) ∧
      Spaced T.replayCooldownSeconds (s.lastReplayTime.get (paraId, identifier))
        (l.map fun x => x.1.env.now) := by
  induction l generalizing s with
  | nil => simp [arrive, Spaced]
  | cons x rest ih =>
    obtain ⟨arrival, indices⟩ := x
    have hfirst := horder _ List.mem_cons_self
    obtain ⟨v, -, rfl⟩ := BoundedVec.exists_tryFrom hfirst.length_le
    obtain ⟨hinfo, htime⟩ := runAll_keeps (s := s) (hserves.undisturbed arrival List.mem_cons_self)
    have hsubscribed : Subscribed (runAll s arrival.others) paraId identifier := by
      obtain ⟨info, hget, hcollection⟩ := hserves.subscribed
      exact ⟨info, hinfo info hget, hcollection⟩
    have haccepted := exec_requestReplay_iff (runAll s arrival.others) arrival.env
      hfirst.ne_nil hfirst.sorted hsubscribed
      (hserves.channel arrival List.mem_cons_self) (hserves.router arrival List.mem_cons_self)
    rw [htime] at haccepted
    have hcool : (∀ t ∈ s.lastReplayTime.get (paraId, identifier),
        T.replayCooldownSeconds ≤ arrival.env.now - t) ↔
        ∀ t ∈ s.lastReplayTime.get (paraId, identifier), t + T.replayCooldownSeconds ≤ arrival.env.now :=
      forall₂_congr fun t _ => by omega
    rw [hcool] at haccepted
    -- What the later requests find once this one is accepted.
    have hrest := ih (s := (runAll s arrival.others).replayedAt arrival.env paraId identifier)
      ⟨hsubscribed, fun a ha => hserves.channel a (List.mem_cons_of_mem _ ha),
        fun a ha => hserves.router a (List.mem_cons_of_mem _ ha),
        fun a ha => hserves.undisturbed a (List.mem_cons_of_mem _ ha)⟩
      fun x hx => horder x (List.mem_cons_of_mem _ hx)
    have hlast : ((runAll s arrival.others).replayedAt arrival.env paraId identifier).lastReplayTime.get
        (paraId, identifier) = some arrival.env.now :=
      (StorageMap.get_insert _ _ _ _).trans (if_pos rfl)
    rw [hlast] at hrest
    simp only [List.map_cons, List.forall_mem_cons, Spaced, arrive_cons]
    constructor
    · rintro ⟨-, s', sent, hexec, s'', replies, harrive, -⟩
      obtain ⟨hfit, hspaced⟩ := haccepted.mp ⟨_, hexec⟩
      have hs' : s' = (runAll s arrival.others).replayedAt arrival.env paraId identifier :=
        Notifier.Store.requestReplay_spec hexec
      rw [hs'] at harrive
      obtain ⟨hfits', hspaced'⟩ := hrest.mp ⟨_, harrive⟩
      exact ⟨⟨hfit, hfits'⟩, hspaced, hspaced'⟩
    · rintro ⟨⟨hfit, hfits'⟩, hspaced, hspaced'⟩
      obtain ⟨⟨s', sent⟩, hexec⟩ := haccepted.mpr ⟨hfit, hspaced⟩
      have hs' : s' = (runAll s arrival.others).replayedAt arrival.env paraId identifier :=
        Notifier.Store.requestReplay_spec hexec
      obtain ⟨⟨s'', replies⟩, harrive⟩ := hrest.mpr ⟨hfits', hspaced'⟩
      rw [← hs'] at harrive
      exact ⟨_, s', sent, hexec, s'', replies, harrive, rfl⟩

/-! ### The replies -/

/-- Missing rings are known, and only those of `asked` have been asked for. -/
structure Asked (S : Subscriber.Store C) (asked : List (Identifier × Nat)) : Prop where
  known : ∀ id r attempts, (S.collectionState id).missingIndices.get r = some attempts →
    r < (S.collectionState id).nextRingIndex
  attempts : ∀ id r attempts, (S.collectionState id).missingIndices.get r = some attempts →
    attempts = 0 ∨ (id, r) ∈ asked

/-- A batch answers for its rings. -/
theorem Asked.applyBatch {S : Subscriber.Store C} {asked rest : List (Identifier × Nat)}
    (h : Asked S asked) (now : Nat) (batch : Subscriber.Batch C)
    (hrest : ∀ x ∈ asked, x ∈ rest ∨ x.1 = batch.identifier ∧ x.2 ∈ Subscriber.ringIndices batch) :
    Asked (S.applyBatch now batch) rest := by
  constructor
  · intro id r attempts hget
    rcases S.missingIndices_applyBatch batch now id hget with ⟨hold, -⟩ | ⟨-, -, hlt⟩
    · exact (h.known id r attempts hold).trans_le (S.nextRingIndex_applyBatch batch now id)
    · exact hlt
  · intro id r attempts hget
    rcases S.missingIndices_applyBatch batch now id hget with ⟨hold, hnot⟩ | ⟨hzero, -⟩
    · refine (h.attempts id r attempts hold).imp_right fun hr => ?_
      exact (hrest _ hr).resolve_right hnot
    · exact .inl hzero

/-- The subscriber takes a message in; one that is refused changes nothing. -/
def deliver (S : Subscriber.Store C) (x : Subscriber.Env × (ParaId × Notifier.Message T)) :
    Subscriber.Store C :=
  ((x.2.2.received C).bind fun call => ((S.exec x.1 call).toOption.map Prod.fst)).getD S

/-- A batch that is not older than the last one is taken in. -/
theorem deliver_updateRingRoots (hbatch : T.maxUpdatesPerBatch ≤ C.maxUpdatesPerBatch)
    {S : Subscriber.Store C} {sequence : Nat} (hactive : S.subscription = .active sequence)
    (env : Subscriber.Env) (paraId : ParaId) (b : RingRootUpdatesBatch R T.maxUpdatesPerBatch)
    (hle : S.processingState.lastProcessedSequence ≤ b.sequence) :
    ∃ batch : Subscriber.Batch C, batch.identifier = b.identifier ∧ batch.sequence = b.sequence ∧
      batch.updates.toList = b.updates.toList ∧
      deliver (T := T) S (env, paraId, .updateRingRoots b) = S.applyBatch env.now batch := by
  obtain ⟨updates, hupdates, hlist⟩ := BoundedVec.exists_tryFrom (n := C.maxUpdatesPerBatch)
    (b.updates.length_le.trans hbatch)
  refine ⟨⟨b.identifier, b.sequence, b.sourceTime, updates, b.nextRingIndex⟩, rfl, rfl, hlist, ?_⟩
  have hreceived : SubscriberCall.received C (.updateRingRoots b) =
      some (.processRingUpdates ⟨b.identifier, b.sequence, b.sourceTime, updates, b.nextRingIndex⟩) := by
    rw [SubscriberCall.received, RingRootUpdatesBatch.decode, hupdates]
    rfl
  have hexec : S.exec env
      (.processRingUpdates ⟨b.identifier, b.sequence, b.sourceTime, updates, b.nextRingIndex⟩) =
      .ok (S.applyBatch env.now ⟨b.identifier, b.sequence, b.sourceTime, updates, b.nextRingIndex⟩,
        []) := by
    simp only [Subscriber.Store.exec, Subscriber.Store.processRingUpdates,
      Subscriber.Store.ensureSubscriptionActive, hactive, ok_bind]
    rw [if_neg (Nat.not_lt.mpr hle)]
    rfl
  rw [deliver, hreceived, Option.bind_some, hexec]
  rfl

/-- The reply to a request is about the rings it asks for. -/
theorem requestReplay_reply {s s' : Notifier.Store T} {env : Notifier.Env T} {paraId : ParaId}
    {identifier : Identifier} {indices : BoundedVec Nat T.maxUpdatesPerBatch} {sent : Notifier.Outbox T}
    (h : s.exec env (.requestReplay paraId identifier indices) = .ok (s', sent)) :
    ∃ b : RingRootUpdatesBatch R T.maxUpdatesPerBatch, sent = [(paraId, .updateRingRoots b)] ∧
      b.identifier = identifier ∧ b.sequence = s.sealedBatchSequence ∧
      b.updates.toList.map RingRootUpdate.ringIndex = indices.toList := by
  simp only [Notifier.Store.exec, Notifier.Store.requestReplay, bind_eq_ok, ensure_eq_ok,
    okOr_eq_ok] at h
  obtain ⟨-, -, info, -, -, -, -, -, maxPerXcm, -, -, -, -, -, updates, hupdates, -, -, h⟩ := h
  cases h
  refine ⟨_, rfl, rfl, rfl, ?_⟩
  rw [BoundedVec.tryFrom_eq_some.mp hupdates]
  exact Notifier.ringIndex_matchRoots _ _

theorem runAll_sequence {s : Notifier.Store T} (calls : List (Notifier.Action T))
    (hs : s.sealedBatchSequence ≤ U64.max) :
    s.sealedBatchSequence ≤ (runAll s calls).sealedBatchSequence ∧
      (runAll s calls).sealedBatchSequence ≤ U64.max := by
  induction calls generalizing s with
  | nil => exact ⟨le_refl s.sealedBatchSequence, hs⟩
  | cons a rest ih =>
    rw [runAll, List.foldl_cons]
    cases ha : s.execAction a with
    | error e => exact ih hs
    | ok s' =>
      obtain ⟨sent, hstep⟩ := Notifier.Store.execAction_step ha
      obtain ⟨hle, hmax⟩ := hstep.sequence_le hs
      obtain ⟨hle', hmax'⟩ := ih hmax
      exact ⟨le_trans hle hle', hmax'⟩

/-- The replies to accepted requests answer for all the rings asked for. -/
theorem Asked.answered (hbatch : T.maxUpdatesPerBatch = C.maxUpdatesPerBatch) {origin paraId : ParaId}
    {identifier : Identifier} (l : List (Arrival T × List Nat)) {s s' : Notifier.Store T}
    {S : Subscriber.Store C} {sequence : Nat} {replies : Notifier.Outbox T}
    {envs : List Subscriber.Env} (hl : ∀ x ∈ l, x.2.length ≤ T.maxUpdatesPerBatch)
    (hs : s.sealedBatchSequence ≤ U64.max) (hactive : S.subscription = .active sequence)
    (hseq : S.processingState.lastProcessedSequence ≤ s.sealedBatchSequence)
    (harrive : arrive origin s (l.map fun x => (x.1, .requestReplay paraId identifier x.2)) =
      some (s', replies)) (henvs : envs.length = replies.length)
    (h : Asked S ((l.flatMap Prod.snd).map fun r => (identifier, r))) :
    Asked ((envs.zip replies).foldl deliver S) [] := by
  induction l generalizing s S replies envs with
  | nil =>
    cases harrive
    rw [List.zip_nil_right]
    exact h
  | cons x rest ih =>
    obtain ⟨arrival, indices⟩ := x
    obtain ⟨v, -, rfl⟩ := BoundedVec.exists_tryFrom (hl _ List.mem_cons_self)
    rw [List.map_cons, arrive_cons] at harrive
    obtain ⟨s₁, sent, hexec, s₂, replies', harrive', heq⟩ := harrive
    obtain ⟨b, rfl, hid, hsequence, hindices⟩ := requestReplay_reply hexec
    obtain rfl : replies = [(paraId, .updateRingRoots b)] ++ replies' := congrArg Prod.snd heq
    obtain rfl : s' = s₂ := congrArg Prod.fst heq
    obtain ⟨env, envs', rfl⟩ : ∃ env envs', envs = env :: envs' := by
      cases envs with
      | nil => cases henvs
      | cons env envs' => exact ⟨env, envs', rfl⟩
    obtain ⟨hle, hmax⟩ := runAll_sequence arrival.others hs
    obtain ⟨batch, hbid, hbseq, hbupdates, hdeliver⟩ := deliver_updateRingRoots (T := T) (C := C)
      hbatch.le hactive env paraId b (by
        rw [hsequence]
        exact hseq.trans hle)
    have hs₁ : s₁ = (runAll s arrival.others).replayedAt arrival.env paraId identifier :=
      Notifier.Store.requestReplay_spec hexec
    show Asked ((envs'.zip replies').foldl deliver (deliver S (env, paraId, .updateRingRoots b))) []
    rw [hdeliver]
    refine ih (s := s₁) (fun x hx => hl x (List.mem_cons_of_mem _ hx)) (by rw [hs₁]; exact hmax)
      (by rw [Subscriber.Store.applyBatch_eq]; exact hactive) ?_ harrive' (Nat.succ.inj henvs) (h.applyBatch env.now batch ?_)
    · show batch.sequence ≤ s₁.sealedBatchSequence
      rw [hbseq, hsequence, hs₁]
      exact le_refl _
    · intro x hx
      rw [List.flatMap_cons, List.map_append, List.mem_append] at hx
      rcases hx with hx | hx
      · obtain ⟨r, hr, rfl⟩ := List.mem_map.mp hx
        refine .inr ⟨(hbid.trans hid).symm, ?_⟩
        rw [Subscriber.ringIndices, hbupdates, hindices]
        exact hr
      · exact .inl hx

/-! ### Runs of the subscriber -/

theorem Asked.of_same {S S' : Subscriber.Store C} {asked : List (Identifier × Nat)} (h : Asked S asked)
    (hstates : S'.ringCollectionStates = S.ringCollectionStates) : Asked S' asked := by
  obtain ⟨hknown, hattempts⟩ := h
  unfold Subscriber.Store.collectionState at hknown hattempts
  constructor
  · unfold Subscriber.Store.collectionState
    rwa [hstates]
  · unfold Subscriber.Store.collectionState
    rwa [hstates]

theorem Asked.clear {S : Subscriber.Store C} {asked : List (Identifier × Nat)} (h : Asked S asked) :
    Asked S.clearAllRingData asked := by
  -- A state is left as it was or is the default one, with nothing missing.
  have hstate : ∀ id, S.clearAllRingData.collectionState id = S.collectionState id ∨
      S.clearAllRingData.collectionState id = default := by
    intro id
    unfold Subscriber.Store.collectionState
    cases hget : S.clearAllRingData.ringCollectionStates.get id with
    | none => exact .inr rfl
    | some state =>
      refine .inl ?_
      rw [StorageMap.get_of_get_clear hget]
  constructor
  · intro id r attempts hget
    rcases hstate id with heq | heq
    · rw [heq] at hget ⊢
      exact h.known id r attempts hget
    · rw [heq] at hget
      cases hget
  · intro id r attempts hget
    rcases hstate id with heq | heq
    · rw [heq] at hget
      exact h.attempts id r attempts hget
    · rw [heq] at hget
      cases hget

/-- Calls other than replays ask for nothing. -/
theorem Asked.exec {S : Subscriber.Store C} {env : Subscriber.Env} {call : Subscriber.Call C}
    {out : Subscriber.Store C × List Subscriber.NotifierCall} (h : Asked S [])
    (hcall : ∀ id indices, call ≠ .replayMissingRoots id indices) (hexec : S.exec env call = .ok out) :
    Asked out.1 [] := by
  have hinit : ∀ {S : Subscriber.Store C} ringExponent roots, Asked S [] →
      Asked (S.storeInitial env ringExponent roots) [] := fun {S} _ roots h =>
    (h.applyBatch (S := S) env.now roots fun _ hx => .inl hx).of_same rfl
  cases call with
  | initializeRingRoots ringExponent roots =>
    simp only [Subscriber.Store.exec, Subscriber.Store.initializeRingRoots, bind_eq_ok] at hexec
    obtain ⟨S', hS', hexec⟩ := hexec
    cases hexec
    split at hS'
    · split at hS'
      · cases hS'
      · split at hS'
        · cases hS'
          exact hinit ringExponent roots h.clear
        · cases hS'
          exact hinit ringExponent roots h
    · cases hS'
      exact hinit ringExponent roots h
  | processRingUpdates batch =>
    simp only [Subscriber.Store.exec, Subscriber.Store.processRingUpdates, bind_eq_ok] at hexec
    obtain ⟨S', ⟨-, -, hS'⟩, hexec⟩ := hexec
    cases hexec
    split at hS'
    · cases hS'
      exact h
    · cases hS'
      exact h.applyBatch env.now batch fun _ hx => .inl hx
  | terminateSubscription fromNotifier =>
    simp only [Subscriber.Store.exec, Subscriber.Store.terminateSubscription] at hexec
    split at hexec
    · cases hexec
    · cases hexec
      exact h
    · cases hexec
      exact h.clear.of_same rfl
  | replayMissingRoots id indices => exact absurd rfl (hcall id indices)

/-- A move of the subscriber: a call that is no replay, or a replay whose requests are all taken by the
sender, accepted by the notifier and answered. -/
inductive Move (T : Notifier.Config R) : Subscriber.Store C → Subscriber.Store C → Prop
  | call {S : Subscriber.Store C} {env : Subscriber.Env} {call : Subscriber.Call C}
      {out : Subscriber.Store C × List Subscriber.NotifierCall}
      (hcall : ∀ id indices, call ≠ .replayMissingRoots id indices) (hexec : S.exec env call = .ok out) :
      Move T S out.1
  | replay {S S' : Subscriber.Store C} {env : Subscriber.Env} {identifier : Identifier}
      {indices : BoundedVec Nat C.maxMissingRootsPerCollection} {sent : List Subscriber.NotifierCall}
      {N N' : Notifier.Store T} {arrivals : List (Arrival T)} {replies : Notifier.Outbox T}
      {envs : List Subscriber.Env}
      (hexec : S.exec env (.replayMissingRoots identifier indices) = .ok (S', sent))
      (hsender : ∀ message, env.sender message = true) (hlength : arrivals.length = sent.length)
      (harrive : arrive C.selfParaId N (arrivals.zip sent) = some (N', replies))
      (hmax : N.sealedBatchSequence ≤ U64.max)
      (hseq : S.processingState.lastProcessedSequence ≤ N.sealedBatchSequence)
      (henvs : envs.length = replies.length) : Move T S ((envs.zip replies).foldl deliver S')

/-- The requests of a call, with the chunks they carry. -/
theorem sent_spec {S : Subscriber.Store C} {env : Subscriber.Env} {identifier : Identifier}
    {indices : BoundedVec Nat C.maxMissingRootsPerCollection}
    {out : Subscriber.Store C × List Subscriber.NotifierCall}
    (h : S.exec env (.replayMissingRoots identifier indices) = .ok out) :
    ∃ cs : List (List Nat), out.2 = cs.map (.requestReplay C.selfParaId identifier) ∧
      (∀ c ∈ cs, c ≠ [] ∧ c.IsChain (· < ·) ∧ c.length ≤ C.maxUpdatesPerBatch) ∧
      ((∀ message, env.sender message = true) →
        cs.flatten = S.askedFor identifier indices.toList) := by
  obtain ⟨-, -, hsent, -⟩ := Subscriber.Store.replayMissingRoots_spec S h
  rw [Subscriber.Store.replayRequests, List.takeWhile_map] at hsent
  refine ⟨_, hsent, fun c hc => ?_, fun hsender => ?_⟩
  · have hmem := (List.takeWhile_sublist _).subset hc
    obtain ⟨hne, hsub⟩ := mem_chunks C.maxUpdatesPerBatch_pos hmem
    have hsorted := ((Subscriber.Store.inOrder_sorted indices.toList).filter _).sublist hsub
    exact ⟨hne, List.isChain_iff_pairwise.mpr hsorted, length_le_of_mem_chunks hmem⟩
  · refine (congrArg List.flatten (List.takeWhile_eq_self_iff.mpr fun c _ => hsender _)).trans ?_
    exact flatten_chunks C.maxUpdatesPerBatch_pos _

/-- Nothing is asked for twice as long as every request is accepted and answered. -/
theorem Asked.move (hbatch : T.maxUpdatesPerBatch = C.maxUpdatesPerBatch) {S S' : Subscriber.Store C}
    (h : Asked S []) (hmove : Move T S S') : Asked S' [] := by
  cases hmove with
  | call hcall hexec => exact h.exec hcall hexec
  | @replay S' env identifier indices sent N N' arrivals replies envs hexec hsender hlength harrive hmax hseq
      henvs =>
    obtain ⟨⟨sequence, -, hactive⟩, hlast, -, hstates⟩ := Subscriber.Store.replayMissingRoots_spec S hexec
    obtain ⟨cs, hsent, hcs, hflatten⟩ := sent_spec hexec
    change sent = _ at hsent
    rw [hsent, List.length_map] at hlength
    rw [hsent, List.zip_map_right] at harrive
    refine Asked.answered hbatch (arrivals.zip cs) (fun x hx => ?_) hmax hactive
      (hlast.trans_le hseq) harrive henvs ?_
    · rw [hbatch]
      exact (hcs x.2 (List.of_mem_zip hx).2).2.2
    · have hasked : (arrivals.zip cs).flatMap Prod.snd = S.askedFor identifier indices.toList := by
        rw [List.flatMap_def, List.map_snd_zip hlength.ge, hflatten hsender]
      rw [hasked]
      constructor
      · intro id r attempts hget
        obtain ⟨hnext, hmissing⟩ := hstates id
        rw [hmissing] at hget
        rw [hnext]
        split at hget
        · obtain ⟨old, hold, -⟩ := Option.bind_eq_some_iff.mp hget
          exact h.known id r old hold
        · exact h.known id r attempts hget
      · intro id r attempts hget
        rw [(hstates id).2] at hget
        split at hget
        · rename_i hr
          refine .inr (List.mem_map.mpr ⟨r, ?_, by rw [hr.1]⟩)
          rw [Subscriber.Store.askedFor, List.mem_filter, Subscriber.Store.mem_inOrder, ← hr.1, hget]
          exact ⟨hr.2, rfl⟩
        · exact .inl ((h.attempts id r attempts hget).resolve_right List.not_mem_nil)

theorem asked_of_moves (hbatch : T.maxUpdatesPerBatch = C.maxUpdatesPerBatch) {S : Subscriber.Store C}
    (h : Relation.ReflTransGen (Move T) (Subscriber.Store.genesis C) S) : Asked S [] := by
  induction h with
  | refl => exact ⟨fun _ _ _ h => (nomatch h), fun _ _ _ h => (nomatch h)⟩
  | tail _ hmove ih => exact ih.move hbatch hmove

/-- Replay makes progress: the requests of a call are all accepted exactly when each fits a message and
names rings that exist, and they arrive a cooldown apart; and while that is so, no missing ring is
given up, where more than one attempt is allowed. -/
theorem replay_progress (hbatch : T.maxUpdatesPerBatch = C.maxUpdatesPerBatch)
    (hcooldown : T.replayCooldownSeconds = C.replayCooldownSeconds) :
    (∀ (S S' : Subscriber.Store C) (env : Subscriber.Env) (identifier : Identifier)
      (indices : BoundedVec Nat C.maxMissingRootsPerCollection) (sent : List Subscriber.NotifierCall),
      S.exec env (.replayMissingRoots identifier indices) = .ok (S', sent) →
      ∀ (N : Notifier.Store T) (arrivals : List (Arrival T)), arrivals.length = sent.length →
      Serves N arrivals C.selfParaId identifier →
      (∀ last ∈ N.lastReplayTime.get (C.selfParaId, identifier), ∀ a ∈ arrivals,
        last + T.replayCooldownSeconds ≤ a.env.now) →
      ((∃ out, arrive C.selfParaId N (arrivals.zip sent) = some out) ↔
        (∀ x ∈ arrivals.zip sent, Fits C.selfParaId identifier x.1 (ringRootIndices x.2)) ∧
          (arrivals.map fun a => a.env.now).IsChain fun t t' => t + T.replayCooldownSeconds ≤ t')) ∧
    (2 ≤ C.replayAbandonThreshold → ∀ S : Subscriber.Store C,
      Relation.ReflTransGen (Move T) (Subscriber.Store.genesis C) S →
      ∀ identifier indices, ∀ r ∈ indices,
        ((S.collectionState identifier).missingIndices.get r).isSome = true →
        r ∈ S.askedFor identifier indices) := by
  constructor
  · intro S S' env identifier indices sent hexec N arrivals hlength hserves hcold
    obtain ⟨cs, hsent, hcs, -⟩ := sent_spec hexec
    change sent = _ at hsent
    rw [hsent, List.length_map] at hlength
    have hfst : (arrivals.zip cs).map Prod.fst = arrivals := List.map_fst_zip hlength.le
    have haccept := arrive_isSome_iff (T := T) (hcooldown ▸ C.replayCooldownSeconds_pos)
      C.selfParaId C.selfParaId identifier (arrivals.zip cs) (s := N)
      (by rw [hfst]; exact hserves) fun x hx => by
        obtain ⟨hne, hsorted, hle⟩ := hcs x.2 (List.of_mem_zip hx).2
        exact ⟨hne, hsorted, hle.trans hbatch.ge⟩
    have htimes : (arrivals.zip cs).map (fun x => x.1.env.now) = arrivals.map fun a => a.env.now := by
      rw [← hfst, List.map_map, hfst]
      rfl
    rw [htimes, spaced_iff fun t ht time htime => by
      obtain ⟨a, ha, rfl⟩ := List.mem_map.mp htime
      exact hcold t ht a ha] at haccept
    rw [hsent, List.zip_map_right]
    refine haccept.trans (and_congr_left fun _ => ?_)
    simp only [List.forall_mem_map]
    rfl
  · intro hthreshold S hS identifier indices r hr hmissing
    have hasked := asked_of_moves hbatch hS
    obtain ⟨attempts, hget⟩ := Option.isSome_iff_exists.mp hmissing
    have hzero := (hasked.attempts identifier r attempts hget).resolve_right List.not_mem_nil
    rw [Subscriber.Store.askedFor, List.mem_filter, Subscriber.Store.mem_inOrder, hget, hzero,
      Option.bind_some, Subscriber.Store.attempted]
    refine ⟨hr, ?_⟩
    rw [if_neg (Nat.not_le.mpr (Nat.lt_of_lt_of_le (by decide) hthreshold))]
    rfl

/-! ### One request and two -/

/-- The notifier with the sample subscriber registered. -/
def sampleNotifier : Notifier.Store Notifier.sampleConfig :=
  (Notifier.Store.genesis _).registerForInit Notifier.sampleEnv 1 Notifier.sampleCollections 0

/-- An arrival at a notifier whose collections have four rings. -/
def sampleArrival : Arrival Notifier.sampleConfig :=
  ⟨[], { Notifier.sampleEnv with now := 100, provider := ⟨fun _ => ∅, fun _ => 4⟩ }⟩

theorem sampleArrival_serves (n : Nat) :
    Serves sampleNotifier (List.replicate n sampleArrival) 1 (Notifier.sampleId 0) := by
  have hall : ∀ a ∈ List.replicate n sampleArrival, a = sampleArrival :=
    fun a ha => List.eq_of_mem_replicate ha
  constructor
  · exact ⟨⟨Notifier.sampleCollections, 0, 0⟩, rfl, _, List.mem_cons_self, rfl⟩
  · intro a ha
    rw [hall a ha]
    rfl
  · intro a ha message
    rw [hall a ha]
    rfl
  · intro a ha b hb
    rw [hall a ha] at hb
    cases hb

/-- The sample subscriber's requests for its first rings. -/
theorem exists_sampleRequests (n : Nat) (indices : BoundedVec Nat 4)
    (sent : List Subscriber.NotifierCall)
    (hactive : (Subscriber.sampleMissing (Notifier.sampleId 0) n).exec Subscriber.sampleEnv
      (.replayMissingRoots (Notifier.sampleId 0) indices) =
        .ok ((Subscriber.sampleMissing (Notifier.sampleId 0) n).replayMissingRoots
          Subscriber.sampleEnv (Notifier.sampleId 0) indices.toList))
    (hsent : ((Subscriber.sampleMissing (Notifier.sampleId 0) n).replayMissingRoots
      Subscriber.sampleEnv (Notifier.sampleId 0) indices.toList).2 = sent) :
    ∃ S', (Subscriber.sampleMissing (Notifier.sampleId 0) n).exec Subscriber.sampleEnv
      (.replayMissingRoots (Notifier.sampleId 0) indices) = .ok (S', sent) :=
  ⟨_, by rw [hactive, ← hsent]⟩

/-- Two missing rings are one request, which is accepted. -/
theorem replay_progress_one : ∃ S',
    (Subscriber.sampleMissing (Notifier.sampleId 0) 2).exec Subscriber.sampleEnv
      (.replayMissingRoots (Notifier.sampleId 0) ⟨[0, 1], by decide⟩) =
        .ok (S', [.requestReplay 1 (Notifier.sampleId 0) [0, 1]]) ∧
    ∃ out, arrive 1 sampleNotifier
      [(sampleArrival, .requestReplay 1 (Notifier.sampleId 0) [0, 1])] = some out := by
  obtain ⟨S', hexec⟩ := exists_sampleRequests 2 ⟨[0, 1], by decide⟩
    [.requestReplay 1 (Notifier.sampleId 0) [0, 1]] rfl (by decide)
  refine ⟨S', hexec, ?_⟩
  exact ((replay_progress rfl rfl).1 _ _ _ _ _ _ hexec sampleNotifier [sampleArrival] rfl
    (sampleArrival_serves 1) (fun _ h => nomatch h)).mpr ⟨by decide, by decide⟩

/-- Three missing rings are two requests, of which the second meets the cooldown of the first. -/
theorem replay_progress_fails :
    (∃ S', (Subscriber.sampleMissing (Notifier.sampleId 0) 3).exec Subscriber.sampleEnv
      (.replayMissingRoots (Notifier.sampleId 0) ⟨[0, 1, 2], by decide⟩) =
        .ok (S', [.requestReplay 1 (Notifier.sampleId 0) [0, 1],
          .requestReplay 1 (Notifier.sampleId 0) [2]])) ∧
    Serves sampleNotifier [sampleArrival, sampleArrival] 1 (Notifier.sampleId 0) ∧
    sampleNotifier.lastReplayTime.get (1, Notifier.sampleId 0) = none ∧
    ¬ ∃ out, arrive 1 sampleNotifier
      [(sampleArrival, .requestReplay 1 (Notifier.sampleId 0) [0, 1]),
        (sampleArrival, .requestReplay 1 (Notifier.sampleId 0) [2])] = some out := by
  refine ⟨exists_sampleRequests _ _ _ rfl (by decide), sampleArrival_serves 2, rfl, ?_⟩
  rintro ⟨out, hout⟩
  have hnone : (arrive 1 sampleNotifier
      [(sampleArrival, .requestReplay 1 (Notifier.sampleId 0) [0, 1]),
        (sampleArrival, .requestReplay 1 (Notifier.sampleId 0) [2])]).isSome = false := by decide
  rw [hout] at hnone
  cases hnone

end Individuality.Replication
