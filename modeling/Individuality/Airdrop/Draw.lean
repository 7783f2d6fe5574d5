import Individuality.Airdrop.Payments
import Individuality.Support.Cyclic

/-! The draw walks the tickets cyclically.

The tickets of an event are drawn in batches, each from the last winner on. A batch looks
at the tickets after that one and then at all of them, which begins like a cyclic walk;
and a walk that goes on from its last element is the same walk (`Drawn`). So whatever
the batches, the winners are the first registrations of one walk from above the target
on (`draw_cyclic`). -/
namespace Individuality.Airdrop
open Support Support.Cyclic

variable {T : Config} {s s' : Store T} {id : EventId} {event : ActiveEvent T}

/-! ### Tickets -/

/-- The tickets of an event, in order. -/
def tickets (s : Store T) (id : EventId) : List (EventId × Nat) := s.registrations.prefixKeys ticketKey id

theorem mem_tickets {k : EventId × Nat} : k ∈ tickets s id ↔ (s.registrations.get k).isSome = true ∧ k.1 = id :=
  StorageMap.mem_prefixKeys

/-- No two tickets of an event are at the same place. -/
theorem pairwise_tickets (s : Store T) (id : EventId) :
    (tickets s id).Pairwise fun a b => ticketKey a < ticketKey b := by
  have hnodup : (tickets s id).Nodup :=
    ((List.perm_insertionSort _ _).nodup_iff.mpr s.registrations.nodup_keys).filter _
  have hsorted : (tickets s id).Pairwise fun a b => ticketKey a ≤ ticketKey b :=
    (StorageMap.pairwise_keysInOrder s.registrations).filter _
  refine (hnodup.imp₂ (fun _ _ hne hle => (⟨hne, hle⟩ : _ ∧ _)) hsorted).imp_of_mem ?_
  intro a b ha hb h
  refine lt_of_le_of_ne h.2 fun heq => h.1 (Prod.ext ?_ heq)
  exact (mem_tickets.mp ha).2.trans (mem_tickets.mp hb).2.symm

/-- The order in which the tickets of an event are to win. -/
def drawing (s : Store T) (id : EventId) (target : Nat) : List (EventId × Nat) := walk ticketKey target (tickets s id)

theorem length_drawing (s : Store T) (id : EventId) (target : Nat) : (drawing s id target).length = (tickets s id).length := length_walk

/-! ### Batches -/

/-- The draw after `drawn` winners: what is left is the rest of the walk. -/
structure Drawn (start s : Store T) (id : EventId) (event : ActiveEvent T) (target total effective drawn : Nat) :
    Prop where
  registrations : s.registrations = start.registrations
  winners : s.winners = ((drawing start id target).take drawn).foldl (addWinner start id) start.winners
  status : ∃ fromWinnerKey,
    s.events.get id = some { event with status := .drawWinners total effective drawn fromWinnerKey } ∧
      walk ticketKey fromWinnerKey (tickets start id) = (drawing start id target).rotate drawn

variable {start : Store T} {target total effective drawn : Nat}

theorem tickets_congr (h : s.registrations = start.registrations) : tickets s id = tickets start id := by
  rw [tickets, h, tickets]

theorem addWinner_congr (h : s.registrations = start.registrations) : addWinner s id = addWinner start id := by
  funext winners k
  rw [addWinner, addWinner, h]

/-- What a batch makes of the storage, given what it draws. -/
def batchOf (s : Store T) (id : EventId) (event : ActiveEvent T) (total effective drawn fromWinnerKey : Nat)
    (batch : List (EventId × Nat)) : Store T :=
  { s with
    winners := batch.foldl (addWinner s id) s.winners
    events := s.events.insert id { event with
      status := .drawWinners total effective (U32.saturatingAdd drawn batch.length)
        ((batch.getLast?.map Prod.snd).getD fromWinnerKey) } }

theorem drawWinners_eq {fromWinnerKey : Nat} (hevent : s.events.get id =
    some { event with status := .drawWinners total effective drawn fromWinnerKey }) :
    drawWinnersAuthorized s id = .ok (batchOf s id event total effective drawn fromWinnerKey
      ((drawOrder s id fromWinnerKey).take (min (effective - drawn) T.drawLimit))) := by
  rw [drawWinnersAuthorized, hevent]
  rfl

/-- A batch draws as many as are left and the limit allows, and the walk goes on. -/
theorem Drawn.batch (h : Drawn start s id event target total effective drawn) (hle : effective ≤ (tickets start id).length)
    (hdrawn : drawn ≤ effective) (hfits : effective ≤ U32.max) :
    ∃ s', drawWinnersAuthorized s id = .ok s' ∧
      Drawn start s' id event target total effective (min effective (drawn + T.drawLimit)) := by
  obtain ⟨fromWinnerKey, hevent, hwalk⟩ := h.status
  have hlength := length_drawing start id target
  obtain ⟨k, hk⟩ : ∃ k, k = min (effective - drawn) T.drawLimit := ⟨_, rfl⟩
  have hnext : min effective (drawn + T.drawLimit) = drawn + k := by omega
  have hbatch : (drawOrder s id fromWinnerKey).take k = ((drawing start id target).drop drawn).take k := by
    have horder : drawOrder s id fromWinnerKey =
        above ticketKey fromWinnerKey (tickets start id) ++ tickets start id := by
      rw [← tickets_congr h.registrations]
      rfl
    rw [horder, take_above_append (pairwise_tickets start id) (by omega), hwalk,
      List.rotate_eq_drop_append_take (by omega), List.take_append_of_le_length (by rw [List.length_drop]; omega)]
  have hcount : (((drawing start id target).drop drawn).take k).length = k := by
    rw [List.length_take, List.length_drop]
    omega
  have hsum : U32.saturatingAdd drawn k = drawn + k := by
    unfold U32.saturatingAdd
    omega
  refine ⟨_, drawWinners_eq hevent, ?_⟩
  · rw [hnext, ← hk, hbatch, batchOf, hcount, hsum]
    refine ⟨h.registrations, ?_, _, (StorageMap.get_insert _ _ _ _).trans (if_pos rfl), ?_⟩
    · dsimp only
      rw [addWinner_congr h.registrations, h.winners, ← List.foldl_append, ← List.take_add]
    · rcases Nat.eq_zero_or_pos k with hzero | hpos
      · rw [hzero, List.take_zero]
        exact hwalk
      · have hlast : (drawing start id target)[drawn + k - 1]? =
            (((drawing start id target).drop drawn).take k).getLast? := by
          rw [List.getLast?_eq_getElem?, hcount, List.getElem?_take, if_pos (by omega), List.getElem?_drop]
          congr 1
          omega
        obtain ⟨w, hw⟩ : ∃ w, (drawing start id target)[drawn + k - 1]? = some w :=
          ⟨_, List.getElem?_eq_getElem (by omega)⟩
        rw [← hlast, hw]
        have hfrom := walk_of_getElem? (pairwise_tickets start id) hw
        rwa [Nat.sub_add_cancel (by omega)] at hfrom

/-- The draw in batches, one call after the other. -/
def drawTimes (s : Store T) (id : EventId) : Nat → Except Error (Store T)
  | 0 => .ok s
  | calls + 1 => do
    let s ← drawTimes s id calls
    drawWinnersAuthorized s id

theorem Drawn.times (h : Drawn start start id event target total effective 0)
    (hle : effective ≤ (tickets start id).length) (hfits : effective ≤ U32.max) (calls : Nat) :
    ∃ s', drawTimes start id calls = .ok s' ∧
      Drawn start s' id event target total effective (min effective (calls * T.drawLimit)) := by
  induction calls with
  | zero =>
    rw [Nat.zero_mul, Nat.min_zero]
    exact ⟨start, rfl, h⟩
  | succ calls ih =>
    obtain ⟨s, htimes, hdrawn⟩ := ih
    obtain ⟨s', hdraw, hdrawn'⟩ := hdrawn.batch hle (Nat.min_le_left _ _) hfits
    have hnext : min effective (min effective (calls * T.drawLimit) + T.drawLimit) =
        min effective ((calls + 1) * T.drawLimit) := by
      rw [Nat.succ_mul]
      omega
    rw [hnext] at hdrawn'
    exact ⟨s', bind_eq_ok.mpr ⟨s, htimes, hdraw⟩, hdrawn'⟩

/-! ### Registrations -/

/-- Everyone registers, one after the other. -/
def registerAll (s : Store T) (id : EventId) (entries : List (Nat × Entry T)) : Except Error (Store T) :=
  entries.foldlM (fun s r => registerSlot s id r.1 r.2) s

/-- The registrations of an event are just these. -/
def Registered (s : Store T) (id : EventId) (entries : List (Nat × Entry T)) : Prop :=
  ∀ slot entry, s.registrations.get (id, slot) = some entry ↔ (slot, entry) ∈ entries

variable {entries : List (Nat × Entry T)}

theorem registerAll_spec {before : List (Nat × Entry T)}
    (hevent : s.events.get id = some { event with status := .registering before.length })
    (hbefore : Registered s id before) (hslots : ((before ++ entries).map Prod.fst).Nodup)
    (hcount : (before ++ entries).length ≤ U32.max) :
    ∃ s', registerAll s id entries = .ok s' ∧ s'.winners = s.winners ∧ Registered s' id (before ++ entries) ∧
      s'.events.get id = some { event with status := .registering (before ++ entries).length } := by
  induction entries generalizing s before with
  | nil =>
    rw [List.append_nil]
    exact ⟨s, rfl, rfl, hbefore, hevent⟩
  | cons r entries ih =>
    rw [List.append_cons] at hslots hcount ⊢
    have hfresh : s.registrations.get (id, r.1) = none := by
      refine Option.eq_none_iff_forall_ne_some.mpr fun entry hget => ?_
      have hmem : r.1 ∈ before.map Prod.fst := List.mem_map.mpr ⟨(r.1, entry), (hbefore r.1 entry).mp hget, rfl⟩
      rw [List.map_append, List.map_append] at hslots
      have hdisjoint := (List.nodup_append.mp (List.nodup_append.mp hslots).1).2.2
      exact hdisjoint r.1 hmem r.1 (List.mem_singleton_self _) rfl
    obtain ⟨t, ht⟩ : ∃ t : Store T, t = { s with
        registrations := s.registrations.insert (id, r.1) r.2
        events := s.events.insert id { event with status := .registering (before.length + 1) } } := ⟨_, rfl⟩
    have hregister : registerSlot s id r.1 r.2 = .ok t := by
      have hroom : before.length + 1 ≤ U32.max := by
        rw [List.length_append, List.length_append, List.length_singleton] at hcount
        omega
      rw [registerSlot, hevent]
      simp only [okOr_some, ok_bind, ensure_pos (StorageMap.contains_eq_false.mpr hfresh), ensure_pos hroom, ht]
      rfl
    have hnow : t.events.get id = some { event with status := .registering (before ++ [r]).length } := by
      rw [ht, List.length_append]
      exact (StorageMap.get_insert _ _ _ _).trans (if_pos rfl)
    have hregistered : Registered t id (before ++ [r]) := by
      intro slot entry
      rw [ht, List.mem_append, List.mem_singleton, ← hbefore slot entry]
      dsimp only
      rw [StorageMap.get_insert]
      split
      · rename_i hkey
        obtain rfl : slot = r.1 := (Prod.mk.inj hkey).2
        rw [hfresh, Option.some.injEq]
        constructor
        · rintro rfl
          exact .inr rfl
        · rintro (h | h)
          · cases h
          · exact (congrArg Prod.snd h).symm
      · rename_i hkey
        refine (or_iff_left fun h => hkey ?_).symm
        rw [← h]
    obtain ⟨s', hall, hwinners, hregistered', hevent'⟩ := ih hnow hregistered hslots hcount
    refine ⟨s', ?_, hwinners.trans (by rw [ht]), hregistered', hevent'⟩
    rw [registerAll, List.foldlM_cons, hregister]
    exact hall

/-- The registrations in the order of their slots. -/
def inOrder (entries : List (Nat × Entry T)) : List (Nat × Entry T) :=
  entries.insertionSort fun a b => a.1 ≤ b.1

theorem pairwise_inOrder (hslots : (entries.map Prod.fst).Nodup) :
    (inOrder entries).Pairwise fun a b => a.1 < b.1 := by
  have : Std.Total fun a b : Nat × Entry T => a.1 ≤ b.1 := ⟨fun a b => Nat.le_total _ _⟩
  have : IsTrans (Nat × Entry T) fun a b => a.1 ≤ b.1 := ⟨fun a b c => Nat.le_trans⟩
  have hsorted := List.pairwise_insertionSort (fun a b : Nat × Entry T => a.1 ≤ b.1) entries
  have hnodup : ((inOrder entries).map Prod.fst).Nodup :=
    ((List.perm_insertionSort _ _).map Prod.fst).nodup_iff.mpr hslots
  exact (List.pairwise_map.mp hnodup).imp₂ (fun _ _ hne hle => lt_of_le_of_ne hle hne) hsorted

/-- The tickets of an event are the slots of its registrations. -/
theorem tickets_eq (h : Registered s id entries) (hslots : (entries.map Prod.fst).Nodup) :
    tickets s id = (inOrder entries).map fun r => (id, r.1) := by
  have hirrefl : Std.Irrefl fun a b : EventId × Nat => ticketKey a < ticketKey b := ⟨fun a => lt_irrefl _⟩
  have hasymm : Std.Antisymm fun a b : EventId × Nat => ticketKey a < ticketKey b :=
    ⟨fun a b hab hba => absurd (hab.trans hba) (lt_irrefl _)⟩
  refine List.Pairwise.eq_of_mem_iff (pairwise_tickets s id)
    (List.pairwise_map.mpr (pairwise_inOrder hslots)) fun k => ?_
  rw [mem_tickets, List.mem_map]
  constructor
  · rintro ⟨hsome, hid⟩
    obtain ⟨entry, hget⟩ := Option.isSome_iff_exists.mp hsome
    have hkey : k = (id, k.2) := Prod.ext hid rfl
    rw [hkey] at hget
    exact ⟨(k.2, entry), (List.perm_insertionSort _ _).mem_iff.mpr ((h k.2 entry).mp hget), hkey.symm⟩
  · rintro ⟨r, hr, rfl⟩
    have hmem : (r.1, r.2) ∈ entries := (List.perm_insertionSort _ _).mem_iff.mp hr
    rw [(h r.1 r.2).mpr hmem]
    exact ⟨rfl, rfl⟩

/-- The registrations that the draw meets, in the order in which it meets them. -/
def meeting (entries : List (Nat × Entry T)) (target : Nat) : List (Nat × Entry T) :=
  walk Prod.fst target (inOrder entries)

theorem drawing_eq (h : Registered s id entries) (hslots : (entries.map Prod.fst).Nodup) (target : Nat) :
    drawing s id target = (meeting entries target).map fun r => (id, r.1) := by
  rw [drawing, tickets_eq h hslots, walk_map]
  rfl

/-- The winners with those that are added. -/
def withWinners (winners : StorageMap (EventId × Entry T) Nat) (id : EventId) (won : List (Nat × Entry T)) :
    StorageMap (EventId × Entry T) Nat :=
  won.foldl (fun winners r => winners.insert (id, r.2) r.1) winners

theorem foldl_addWinner_eq (h : Registered s id entries) {won : List (Nat × Entry T)}
    (hwon : ∀ r ∈ won, r ∈ entries) (winners : StorageMap (EventId × Entry T) Nat) :
    (won.map fun r => (id, r.1)).foldl (addWinner s id) winners = withWinners winners id won := by
  induction won generalizing winners with
  | nil => rfl
  | cons r won ih =>
    have hget : s.registrations.get (id, r.1) = some r.2 := (h r.1 r.2).mpr (hwon r List.mem_cons_self)
    have hadd : addWinner s id winners (id, r.1) = winners.insert (id, r.2) r.1 := by
      rw [addWinner, hget]
    rw [List.map_cons, List.foldl_cons, hadd]
    exact ih (fun r' hr' => hwon r' (List.mem_cons_of_mem r hr')) _

/-- Whoever won has its own slot, and nobody else has changed. -/
theorem get_withWinners (id : EventId) {won : List (Nat × Entry T)} (hnodup : (won.map Prod.snd).Nodup)
    (winners : StorageMap (EventId × Entry T) Nat) :
    (∀ r ∈ won, (withWinners winners id won).get (id, r.2) = some r.1) ∧
    ∀ k, (∀ r ∈ won, k ≠ (id, r.2)) → (withWinners winners id won).get k = winners.get k := by
  induction won generalizing winners with
  | nil => exact ⟨nofun, fun _ _ => rfl⟩
  | cons r won ih =>
    obtain ⟨hnot, hnodup⟩ := List.nodup_cons.mp hnodup
    obtain ⟨hwon, hothers⟩ := ih hnodup (winners.insert (id, r.2) r.1)
    refine ⟨fun r' hr' => ?_, fun k hk => ?_⟩
    · rcases List.mem_cons.mp hr' with rfl | hr'
      · refine (hothers _ fun r'' hr'' heq => hnot ?_).trans ((StorageMap.get_insert _ _ _ _).trans (if_pos rfl))
        rw [(Prod.mk.inj heq).2]
        exact List.mem_map_of_mem hr''
      · exact hwon r' hr'
    · refine (hothers k fun r' hr' => hk r' (List.mem_cons_of_mem r hr')).trans ?_
      exact (StorageMap.get_insert _ _ _ _).trans (if_neg (hk r List.mem_cons_self))

/-! ### The draw as a whole -/

theorem effectiveWinners_bounds (prize : AirdropPrize T) {participants : Nat} (h : 0 < participants) :
    1 ≤ effectiveWinners prize participants ∧ effectiveWinners prize participants ≤ participants := by
  have hcap : prize.winnerCap.mulFloor participants ≤ participants := by
    rw [Permill.mulFloor]
    refine Nat.div_le_of_le_mul ?_
    exact Nat.mul_le_mul_right participants prize.winnerCap.parts_le
  rw [effectiveWinners]
  omega

/-- Closing the registration of an event with participants starts the draw at the target. -/
theorem closeRegistration_ok {total : Nat} (hevent : s.events.get id = some { event with status := .registering total })
    (hpos : total ≠ 0) (target : Nat) :
    ∃ s', closeRegistrationAuthorized (some target) s id = .ok s' ∧ s'.registrations = s.registrations ∧
      s'.winners = s.winners ∧
      s'.events.get id = some { event with
        status := .drawWinners total (effectiveWinners event.info.prize total) 0 target } := by
  obtain ⟨assets, hassets⟩ := releaseRemainingPrizes_eq s event.info.prize
    (event.info.prize.maxWinners - effectiveWinners event.info.prize total)
  rw [closeRegistrationAuthorized, hevent]
  simp only [okOr_some, ok_bind, if_neg hpos, releaseRemainingPrizes_of_pos, hassets]
  exact ⟨_, rfl, rfl, rfl, (StorageMap.get_insert _ _ _ _).trans (if_pos rfl)⟩

/-- The storage once some of those that the draw meets have won, and the next batch can be filled. -/
structure Won (start s : Store T) (id : EventId) (event : ActiveEvent T) (participants effective : Nat)
    (won : List (Nat × Entry T)) : Prop where
  nodup : won.Nodup
  own : ∀ r ∈ won, s.winners.get (id, r.2) = some r.1
  others : ∀ k, (∀ r ∈ won, k ≠ (id, r.2)) → s.winners.get k = start.winners.get k
  status : ∃ fromWinnerKey,
    s.events.get id = some { event with status := .drawWinners participants effective won.length fromWinnerKey } ∧
    min (effective - won.length) T.drawLimit ≤ (drawOrder s id fromWinnerKey).length

/-- Whoever registers for an event, wherever the draw starts and however small its batches are: the winners
are the first registrations that a walk from above the target on meets, each with its own slot; they are
at least one and at most all; and no batch runs out of registrations. -/
theorem draw_cyclic (hevent : s.events.get id = some { event with status := .registering 0 })
    (hnone : ∀ slot, s.registrations.get (id, slot) = none) (hsome : entries ≠ [])
    (hslots : (entries.map Prod.fst).Nodup) (hentries : (entries.map Prod.snd).Nodup)
    (hcount : entries.length ≤ U32.max) (target : Nat) :
    ∃ s₁ s₂ effective, registerAll s id entries = .ok s₁ ∧ closeRegistrationAuthorized (some target) s₁ id = .ok s₂ ∧
      effective = effectiveWinners event.info.prize entries.length ∧ 1 ≤ effective ∧ effective ≤ entries.length ∧
      ∀ calls, ∃ s₃, drawTimes s₂ id calls = .ok s₃ ∧
        Won s s₃ id event entries.length effective
          ((meeting entries target).take (min effective (calls * T.drawLimit))) := by
  have hempty : Registered s id [] := fun slot entry => by
    rw [hnone slot]
    exact ⟨nofun, nofun⟩
  obtain ⟨s₁, hall, hwinners₁, hregistered₁, hevent₁⟩ := registerAll_spec hevent hempty hslots hcount
  rw [List.nil_append] at hregistered₁ hevent₁
  have hpos : 0 < entries.length := List.length_pos_iff.mpr hsome
  obtain ⟨s₂, hclose, hregistrations₂, hwinners₂, hevent₂⟩ := closeRegistration_ok hevent₁ hpos.ne' target
  obtain ⟨hone, hle⟩ := effectiveWinners_bounds event.info.prize hpos
  have hregistered₂ : Registered s₂ id entries := fun slot entry => by
    rw [hregistrations₂]
    exact hregistered₁ slot entry
  have hdrawing := drawing_eq hregistered₂ hslots target
  have hmeeting : (meeting entries target).length = entries.length := by
    rw [meeting, length_walk, inOrder, List.length_insertionSort]
  have htickets : (tickets s₂ id).length = entries.length := by
    rw [← length_drawing s₂ id target, hdrawing, List.length_map, hmeeting]
  have hstart : Drawn s₂ s₂ id event target entries.length (effectiveWinners event.info.prize entries.length) 0 :=
    ⟨rfl, rfl, target, hevent₂, (List.rotate_zero _).symm⟩
  refine ⟨s₁, s₂, _, hall, hclose, rfl, hone, hle, fun calls => ?_⟩
  obtain ⟨s₃, htimes, hdrawn⟩ := hstart.times (htickets ▸ hle) (hle.trans hcount) calls
  obtain ⟨won, hwon⟩ : ∃ won, won = (meeting entries target).take
      (min (effectiveWinners event.info.prize entries.length) (calls * T.drawLimit)) := ⟨_, rfl⟩
  have hlength : won.length = min (effectiveWinners event.info.prize entries.length) (calls * T.drawLimit) := by
    rw [hwon, List.length_take, hmeeting]
    omega
  have hmem : ∀ r ∈ won, r ∈ entries := fun r hr => by
    rw [hwon] at hr
    exact (List.perm_insertionSort _ _).mem_iff.mp (mem_walk.mp (List.mem_of_mem_take hr))
  have hwinners : s₃.winners = withWinners s.winners id won := by
    rw [hdrawn.winners, hdrawing, ← List.map_take, ← hwon, foldl_addWinner_eq hregistered₂ hmem, hwinners₂, hwinners₁]
  have hperm : (meeting entries target).Perm entries := (walk_perm target _).trans (List.perm_insertionSort _ _)
  have hdistinct : (won.map Prod.snd).Nodup := by
    rw [hwon, List.map_take]
    exact ((hperm.map Prod.snd).nodup_iff.mpr hentries).sublist (List.take_sublist _ _)
  obtain ⟨hown, hothers⟩ := get_withWinners id hdistinct s.winners
  obtain ⟨fromWinnerKey, hevent₃, -⟩ := hdrawn.status
  rw [← hwinners] at hown hothers
  refine ⟨s₃, htimes, ?_⟩
  rw [← hwon]
  refine ⟨hdistinct.of_map, hown, hothers, fromWinnerKey, hlength ▸ hevent₃, ?_⟩
  rw [drawOrder, List.length_append, ← tickets, tickets_congr hdrawn.registrations, htickets, hlength]
  omega

/-- The first sample event before anyone has registered. -/
def sampleRegistering : ActiveEvent sampleConfig := ⟨sampleActions.eventId 1, sampleEvent 1, .registering 0⟩

def sampleOpen : Store sampleConfig :=
  { sampleGenesis.store with events := StorageMap.empty.insert (sampleActions.eventId 1) sampleRegistering }

def sampleEntries : List (Nat × Entry sampleConfig) :=
  [(6, .account (5 : Nat)), (9, .account (4 : Nat)), (1, .account (7 : Nat)), (3, .account (8 : Nat))]

/-- Four people register, and the draw starts at one of their slots: of the two that win, the second is the
first one of all. -/
theorem draw_cyclic_sample : ∃ s s₁ s₂, registerAll sampleOpen (sampleActions.eventId 1) sampleEntries = .ok s₁ ∧
    closeRegistrationAuthorized (some 6) s₁ (sampleActions.eventId 1) = .ok s₂ ∧
    drawTimes s₂ (sampleActions.eventId 1) 1 = .ok s ∧
    s.winners.get (sampleActions.eventId 1, .account (4 : Nat)) = some 9 ∧
    s.winners.get (sampleActions.eventId 1, .account (7 : Nat)) = some 1 := by
  have hevent : sampleOpen.events.get (sampleActions.eventId 1) =
      some { sampleRegistering with status := .registering 0 } := rfl
  have hsome : sampleEntries ≠ [] := by decide
  obtain ⟨s₁, s₂, effective, hall, hclose, heffective, -, -, hdraws⟩ :=
    draw_cyclic hevent (fun _ => rfl) hsome (by decide) (by decide) (by decide) 6
  obtain ⟨s, htimes, hwon⟩ := hdraws 1
  have hmeeting : (meeting sampleEntries 6).take (min effective (1 * sampleConfig.drawLimit)) =
      [(9, .account (4 : Nat)), (1, .account (7 : Nat))] := by
    rw [heffective]
    rfl
  rw [hmeeting] at hwon
  exact ⟨s, s₁, s₂, hall, hclose, htimes, hwon.own _ List.mem_cons_self,
    hwon.own _ (List.mem_cons_of_mem _ List.mem_cons_self)⟩

end Individuality.Airdrop
