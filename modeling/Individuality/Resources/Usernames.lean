import Individuality.Resources.Effects
import Mathlib.Data.List.InsertIdx

/-! Usernames and reservations.

The owner of a username is the consumer whose record has it. A reservation is a place
in the queue for a username; the queues and the index of who waits where agree, and
each account waits in one queue at most (`Queues`). Lite usernames have a dot and
reserved ones have none, so that registering the one cannot take the other
(`Named`). A call that fails leaves the storage as it was. -/
namespace Individuality.Resources
open Support
variable {T : Config}

abbrev Queue (T : Config) := BoundedVec (ReservationQueueEntry T) T.maxReservationQueueLength

/-- Who waits in a queue, in order. -/
def waiting (queue : Queue T) : List T.AccountId := queue.toList.map ReservationQueueEntry.account

/-! ### Queues -/

/-- The queues and the index of reservations. -/
structure Queues (queues : StorageMap Username (Queue T)) (reservations : StorageMap T.AccountId Username) :
    Prop where
  nonempty : ∀ u queue, queues.get u = some queue → queue.toList ≠ []
  nodup : ∀ u queue, queues.get u = some queue → (waiting queue).Nodup
  valid : ∀ u queue, queues.get u = some queue → validateUsername T u true = true
  exact : ∀ who u, reservations.get who = some u ↔ ∃ queue, queues.get u = some queue ∧ who ∈ waiting queue

section Queues
variable {queues : StorageMap Username (Queue T)} {reservations : StorageMap T.AccountId Username}
  {queue queue' : Queue T} {username : Username} {account : T.AccountId}

/-- An account waits in one queue only. -/
theorem Queues.unique (h : Queues queues reservations) {u u' : Username} {who : T.AccountId}
    (hqueue : queues.get u = some queue) (hwho : who ∈ waiting queue) (hqueue' : queues.get u' = some queue')
    (hwho' : who ∈ waiting queue') : u = u' := by
  have hu := (h.exact who u).mpr ⟨queue, hqueue, hwho⟩
  have hu' := (h.exact who u').mpr ⟨queue', hqueue', hwho'⟩
  exact Option.some.inj (hu.symm.trans hu')

theorem Queues.enqueue (h : Queues queues reservations) (hnone : reservations.get account = none)
    (hvalid : validateUsername T username true = true) {now : Nat}
    (hqueue : queue.toList = ((queues.get username).getD BoundedVec.nil).toList ++ [⟨account, now⟩]) :
    Queues (queues.insert username queue) (reservations.insert account username) := by
  have hwaiting : waiting queue = waiting ((queues.get username).getD BoundedVec.nil) ++ [account] := by
    rw [waiting, hqueue, List.map_append]
    rfl
  have habsent : ∀ u q, queues.get u = some q → account ∉ waiting q := by
    intro u q hq hmem
    cases hnone.symm.trans ((h.exact account u).mpr ⟨q, hq, hmem⟩)
  have hold : (waiting ((queues.get username).getD BoundedVec.nil)).Nodup ∧
      account ∉ waiting ((queues.get username).getD BoundedVec.nil) := by
    cases hget : queues.get username with
    | none => exact ⟨List.nodup_nil, List.not_mem_nil⟩
    | some q => exact ⟨h.nodup _ _ hget, habsent _ _ hget⟩
  refine ⟨fun u q hq => ?_, fun u q hq => ?_, fun u q hq => ?_, fun who u => ?_⟩
  · rw [StorageMap.get_insert] at hq
    split at hq
    · cases hq
      rw [hqueue]
      exact List.append_ne_nil_of_right_ne_nil _ (List.cons_ne_nil _ _)
    · exact h.nonempty u q hq
  · rw [StorageMap.get_insert] at hq
    split at hq
    · cases hq
      rw [hwaiting]
      refine List.nodup_append.mpr ⟨hold.1, List.nodup_singleton _, fun who hwho other hother => ?_⟩
      rw [List.mem_singleton.mp hother]
      rintro rfl
      exact hold.2 hwho
    · exact h.nodup u q hq
  · rw [StorageMap.get_insert] at hq
    split at hq
    · rename_i hu
      rw [hu]
      exact hvalid
    · exact h.valid u q hq
  · rw [StorageMap.get_insert, StorageMap.get_insert]
    by_cases hwho : who = account
    · rw [if_pos hwho, hwho]
      constructor
      · intro heq
        cases heq
        exact ⟨queue, if_pos rfl, by rw [hwaiting]; exact List.mem_append_right _ (List.mem_singleton_self _)⟩
      · rintro ⟨q, hq, hmem⟩
        split at hq
        · rename_i hu
          rw [hu]
        · exact absurd hmem (habsent u q hq)
    · rw [if_neg hwho, h.exact]
      by_cases hu : u = username
      · rw [if_pos hu, hu]
        constructor
        · rintro ⟨q, hq, hmem⟩
          refine ⟨queue, rfl, ?_⟩
          rw [hwaiting, hq]
          exact List.mem_append_left _ hmem
        · rintro ⟨q, hq, hmem⟩
          cases hq
          rw [hwaiting, List.mem_append, List.mem_singleton] at hmem
          have hmem := hmem.resolve_right hwho
          cases hget : queues.get username with
          | none =>
            rw [hget] at hmem
            cases hmem
          | some q =>
            rw [hget] at hmem
            exact ⟨q, rfl, hmem⟩
      · rw [if_neg hu]

/-- Who waits in a queue that an entry has left. -/
theorem mem_waiting_remove {pos : Nat} {entry : ReservationQueueEntry T} (hnodup : (waiting queue).Nodup)
    (hentry : queue.toList[pos]? = some entry) {who : T.AccountId} :
    who ∈ waiting (queue.remove pos) ↔ who ∈ waiting queue ∧ who ≠ entry.account := by
  obtain ⟨hpos, hget⟩ := List.getElem?_eq_some_iff.mp hentry
  have hlen : pos < (waiting queue).length := by rw [waiting, List.length_map]; exact hpos
  have hat : (waiting queue)[pos] = entry.account := by simp only [waiting, List.getElem_map, hget]
  rw [waiting, BoundedVec.toList_remove, ← List.eraseIdx_map, ← waiting, ← hnodup.erase_getElem pos hlen,
    hnodup.mem_erase_iff, hat, and_comm]

theorem Queues.dequeue (h : Queues queues reservations) {pos : Nat} {entry : ReservationQueueEntry T}
    (hqueue : queues.get username = some queue) (hentry : queue.toList[pos]? = some entry) :
    Queues (if (queue.remove pos).toList.isEmpty = true then queues.remove username
      else queues.insert username (queue.remove pos)) (reservations.remove entry.account) := by
  have hmem := @mem_waiting_remove T queue pos entry (h.nodup _ _ hqueue) hentry
  have hleft : entry.account ∈ waiting queue :=
    List.mem_map_of_mem (List.mem_of_getElem? hentry)
  have hget : ∀ u, (if (queue.remove pos).toList.isEmpty = true then queues.remove username
      else queues.insert username (queue.remove pos)).get u = if u = username then
        if (queue.remove pos).toList.isEmpty = true then none else some (queue.remove pos)
      else queues.get u := by
    intro u
    split
    · exact StorageMap.get_remove _ _ _
    · exact StorageMap.get_insert _ _ _ _
  -- a queue of the result is another one, or what is left of this one
  have hfrom : ∀ u q, (if (queue.remove pos).toList.isEmpty = true then queues.remove username
      else queues.insert username (queue.remove pos)).get u = some q →
      (u ≠ username ∧ queues.get u = some q) ∨
        (u = username ∧ q = queue.remove pos ∧ (queue.remove pos).toList.isEmpty = false) := by
    intro u q hq
    rw [hget] at hq
    split at hq
    · rename_i hu
      split at hq
      · cases hq
      · rename_i hempty
        cases hq
        exact .inr ⟨hu, rfl, Bool.eq_false_iff.mpr hempty⟩
    · rename_i hu
      exact .inl ⟨hu, hq⟩
  refine ⟨fun u q hq => ?_, fun u q hq => ?_, fun u q hq => ?_, fun who u => ?_⟩
  · rcases hfrom u q hq with ⟨-, hq⟩ | ⟨-, rfl, hempty⟩
    · exact h.nonempty u q hq
    · exact fun hnil => by rw [hnil] at hempty; cases hempty
  · rcases hfrom u q hq with ⟨-, hq⟩ | ⟨-, rfl, -⟩
    · exact h.nodup u q hq
    · rw [waiting, BoundedVec.toList_remove, ← List.eraseIdx_map]
      exact (h.nodup _ _ hqueue).eraseIdx pos
  · rcases hfrom u q hq with ⟨-, hq⟩ | ⟨rfl, -, -⟩
    · exact h.valid u q hq
    · exact h.valid u queue hqueue
  · rw [StorageMap.get_remove]
    by_cases hwho : who = entry.account
    · rw [if_pos hwho]
      refine ⟨fun hnone => (by cases hnone), ?_⟩
      rintro ⟨q, hq, hin⟩
      rcases hfrom u q hq with ⟨hu, hq⟩ | ⟨-, rfl, -⟩
      · exact absurd (h.unique hq hin hqueue (hwho ▸ hleft)) hu
      · exact absurd hwho (hmem.mp hin).2
    · rw [if_neg hwho, h.exact]
      by_cases hu : u = username
      · rw [hget, if_pos hu, hu]
        constructor
        · rintro ⟨q, hq, hin⟩
          cases hqueue.symm.trans hq
          have hin' := hmem.mpr ⟨hin, hwho⟩
          refine ⟨queue.remove pos, if_neg ?_, hin'⟩
          intro hempty
          rw [waiting, List.isEmpty_iff.mp hempty] at hin'
          cases hin'
        · rintro ⟨q, hq, hin⟩
          split at hq
          · cases hq
          · cases hq
            exact ⟨queue, hqueue, (hmem.mp hin).1⟩
      · rw [hget, if_neg hu]

theorem Queues.consume (h : Queues queues reservations) (hqueue : queues.get username = some queue) :
    Queues (queues.remove username) (reservations.removeAll (waiting queue)) := by
  refine ⟨fun u q hq => h.nonempty u q (StorageMap.get_of_get_remove hq),
    fun u q hq => h.nodup u q (StorageMap.get_of_get_remove hq),
    fun u q hq => h.valid u q (StorageMap.get_of_get_remove hq), fun who u => ?_⟩
  rw [StorageMap.get_removeAll, StorageMap.get_remove]
  by_cases hwho : who ∈ waiting queue
  · rw [if_pos hwho]
    refine ⟨nofun, ?_⟩
    rintro ⟨q, hq, hin⟩
    split at hq
    · cases hq
    · rename_i hu
      exact absurd (h.unique hq hin hqueue hwho) hu
  · rw [if_neg hwho, h.exact]
    by_cases hu : u = username
    · rw [if_pos hu, hu]
      constructor
      · rintro ⟨q, hq, hin⟩
        cases hqueue.symm.trans hq
        exact absurd hin hwho
      · rintro ⟨q, hq, -⟩
        cases hq
    · rw [if_neg hu]

end Queues

/-! ### Names -/

/-- Who owns which username, and which alias has which account. -/
structure Registry (s : Store T) : Prop where
  owner : ∀ u who, s.usernameOwnerOf.get u = some who ↔
    ∃ info, s.consumers.get who = some info ∧ (info.liteUsername = u ∨ info.fullUsername = some u)
  person : ∀ x who, s.accountOfAlias.get x = some who ↔
    ∃ info lastUpdate demoted, s.consumers.get who = some info ∧ info.credibility = .person x lastUpdate demoted
  /-- A consumer that is no person yet is a lite person. -/
  lite : ∀ who info, s.consumers.get who = some info → info.fullUsername = none → info.credibility = .lite

structure Named (s : Store T) : Prop where
  registry : Registry s
  queues : Queues s.usernameReservationQueue s.reservationOf
  unowned : ∀ u queue, s.usernameReservationQueue.get u = some queue → s.usernameOwnerOf.get u = none
  unreserved : ∀ who info, s.consumers.get who = some info → info.fullUsername ≠ none →
    s.reservationOf.get who = none

section Steps
variable {s s' : Store T} {account : T.AccountId} {username : Username} {c c' : Chain T} {a : Action T}

theorem Registry.of_eq (h : Registry s) (howner : s'.usernameOwnerOf = s.usernameOwnerOf)
    (halias : s'.accountOfAlias = s.accountOfAlias) (hconsumers : s'.consumers = s.consumers) : Registry s' := by
  refine ⟨?_, ?_, ?_⟩
  · rw [howner, hconsumers]
    exact h.owner
  · rw [halias, hconsumers]
    exact h.person
  · rw [hconsumers]
    exact h.lite

theorem Named.of_eq (h : Named s) (howner : s'.usernameOwnerOf = s.usernameOwnerOf)
    (halias : s'.accountOfAlias = s.accountOfAlias) (hconsumers : s'.consumers = s.consumers)
    (hqueues : s'.usernameReservationQueue = s.usernameReservationQueue)
    (hreservations : s'.reservationOf = s.reservationOf) : Named s' := by
  refine ⟨h.registry.of_eq howner halias hconsumers, ?_, ?_, ?_⟩
  · rw [hqueues, hreservations]
    exact h.queues
  · rw [hqueues, howner]
    exact h.unowned
  · rw [hconsumers, hreservations]
    exact h.unreserved

/-- A record is written that keeps its names and its alias. -/
theorem Named.setInfo (h : Named s) {info info' : ConsumerInfo T} (hinfo : s.consumers.get account = some info)
    (hfull : info'.fullUsername = info.fullUsername) (hliteUsername : info'.liteUsername = info.liteUsername)
    (hcredibility : info.fullUsername = none → info'.credibility = info.credibility)
    (hperson : ∀ x, (∃ lastUpdate demoted, info'.credibility = .person x lastUpdate demoted) ↔
      ∃ lastUpdate demoted, info.credibility = .person x lastUpdate demoted) :
    Named (s.setInfo account info') := by
  have hget : ∀ who, (s.setInfo account info').consumers.get who =
      if who = account then some info' else s.consumers.get who := fun who => StorageMap.get_insert _ _ _ _
  refine ⟨⟨fun u who => ?_, fun x who => ?_, fun who i hi hnone => ?_⟩, h.queues, h.unowned,
    fun who i hi hsome => ?_⟩
  · refine (h.registry.owner u who).trans ?_
    rw [hget]
    by_cases hwho : who = account
    · simp only [hwho, if_true, hinfo, Option.some.injEq, exists_eq_left', hfull, hliteUsername]
    · rw [if_neg hwho]
  · refine (h.registry.person x who).trans ?_
    rw [hget]
    by_cases hwho : who = account
    · rw [if_pos hwho, hwho, hinfo]
      constructor
      · rintro ⟨i, lastUpdate, demoted, hi, hcred⟩
        cases hi
        obtain ⟨lastUpdate', demoted', hcred'⟩ := (hperson x).mpr ⟨_, _, hcred⟩
        exact ⟨info', lastUpdate', demoted', rfl, hcred'⟩
      · rintro ⟨i, lastUpdate, demoted, hi, hcred⟩
        cases hi
        obtain ⟨lastUpdate', demoted', hcred'⟩ := (hperson x).mp ⟨_, _, hcred⟩
        exact ⟨info, lastUpdate', demoted', rfl, hcred'⟩
    · rw [if_neg hwho]
  · rw [hget] at hi
    split at hi
    · cases hi
      rw [hfull] at hnone
      rw [hcredibility hnone]
      exact h.registry.lite account info hinfo hnone
    · exact h.registry.lite who i hi hnone
  · rw [hget] at hi
    split at hi
    · rename_i hwho
      cases hi
      rw [hfull] at hsome
      rw [hwho]
      exact h.unreserved account info hinfo hsome
    · exact h.unreserved who i hi hsome

/-- A lite consumer is enrolled under a username that nobody owns. -/
theorem Registry.enrol (h : Registry s) {key : Vector UInt8 65} (hnew : s.consumers.get account = none)
    (howner : s.usernameOwnerOf.get username = none) : Registry (s.enrol account key username) := by
  have hget : ∀ who, (s.enrol account key username).consumers.get who =
      if who = account then some ⟨key, none, username, .lite⟩ else s.consumers.get who :=
    fun who => StorageMap.get_insert _ _ _ _
  have hownerOf : ∀ u, (s.enrol account key username).usernameOwnerOf.get u =
      if u = username then some account else s.usernameOwnerOf.get u := fun u => StorageMap.get_insert _ _ _ _
  refine ⟨fun u who => ?_, fun x who => ?_, fun who i hi hnone => ?_⟩
  · rw [hownerOf, hget]
    by_cases hwho : who = account
    · rw [if_pos hwho, hwho]
      constructor
      · intro heq
        split at heq
        · rename_i hu
          exact ⟨_, rfl, .inl hu.symm⟩
        · obtain ⟨info, hinfo, -⟩ := (h.owner u account).mp heq
          cases hnew.symm.trans hinfo
      · rintro ⟨info, hinfo, hname⟩
        cases hinfo
        exact if_pos (hname.resolve_right fun hnone => by cases hnone).symm
    · rw [if_neg hwho, ← h.owner]
      split
      · rename_i hu
        rw [hu, howner]
        exact ⟨fun heq => absurd (Option.some.inj heq).symm hwho, fun hnone => by cases hnone⟩
      · exact Iff.rfl
  · refine (h.person x who).trans ?_
    rw [hget]
    by_cases hwho : who = account
    · rw [if_pos hwho, hwho]
      constructor
      · rintro ⟨info, _, _, hinfo, -⟩
        cases hnew.symm.trans hinfo
      · rintro ⟨info, _, _, hinfo, hcred⟩
        cases hinfo
        cases hcred
    · rw [if_neg hwho]
  · rw [hget] at hi
    split at hi
    · cases hi
      rfl
    · exact h.lite who i hi hnone

/-- A lite consumer becomes a person, under an alias that has no account and a username that nobody
owns. -/
theorem Registry.upgrade (h : Registry s) {now : Nat} {x : T.memberService.Alias} {info : ConsumerInfo T}
    (hinfo : s.consumers.get account = some info) (hfull : info.fullUsername = none)
    (halias : s.accountOfAlias.get x = none) (howner : s.usernameOwnerOf.get username = none) :
    Registry (s.upgrade now x account username info) := by
  have hget : ∀ who, (s.upgrade now x account username info).consumers.get who =
      if who = account then
        some { info with fullUsername := some username, credibility := .person x now false }
      else s.consumers.get who := fun who => StorageMap.get_insert _ _ _ _
  have hownerOf : ∀ u, (s.upgrade now x account username info).usernameOwnerOf.get u =
      if u = username then some account else s.usernameOwnerOf.get u := fun u => StorageMap.get_insert _ _ _ _
  have haccountOf : ∀ x', (s.upgrade now x account username info).accountOfAlias.get x' =
      if x' = x then some account else s.accountOfAlias.get x' := fun x' => StorageMap.get_insert _ _ _ _
  refine ⟨fun u who => ?_, fun x' who => ?_, fun who i hi hnone => ?_⟩
  · rw [hownerOf, hget]
    by_cases hwho : who = account
    · rw [if_pos hwho, hwho]
      by_cases hu : u = username
      · rw [if_pos hu, hu]
        exact ⟨fun _ => ⟨_, rfl, .inr rfl⟩, fun _ => rfl⟩
      · rw [if_neg hu, h.owner]
        constructor
        · rintro ⟨info', hinfo', hname⟩
          cases hinfo.symm.trans hinfo'
          rw [hfull] at hname
          exact ⟨_, rfl, .inl (hname.resolve_right fun hnone => by cases hnone)⟩
        · rintro ⟨info', hinfo', hname⟩
          cases hinfo'
          exact ⟨info, hinfo, .inl (hname.resolve_right fun heq => hu (Option.some.inj heq).symm)⟩
    · rw [if_neg hwho, ← h.owner]
      split
      · rename_i hu
        rw [hu, howner]
        exact ⟨fun heq => absurd (Option.some.inj heq).symm hwho, fun hnone => by cases hnone⟩
      · exact Iff.rfl
  · rw [haccountOf, hget]
    by_cases hwho : who = account
    · rw [if_pos hwho, hwho]
      by_cases hx : x' = x
      · rw [if_pos hx, hx]
        exact ⟨fun _ => ⟨_, _, _, rfl, rfl⟩, fun _ => rfl⟩
      · rw [if_neg hx, h.person]
        constructor
        · rintro ⟨info', _, _, hinfo', hcred⟩
          cases hinfo.symm.trans hinfo'
          cases (h.lite account info hinfo hfull).symm.trans hcred
        · rintro ⟨info', _, _, hinfo', hcred⟩
          cases hinfo'
          cases hcred
          exact absurd rfl hx
    · rw [if_neg hwho, ← h.person]
      split
      · rename_i hx
        rw [hx, halias]
        exact ⟨fun heq => absurd (Option.some.inj heq).symm hwho, fun hnone => by cases hnone⟩
      · exact Iff.rfl
  · rw [hget] at hi
    split at hi
    · cases hi
      cases hnone
    · exact h.lite who i hi hnone

theorem Named.queued (h : Named s) {now : Nat} {reserved : Option Username}
    (hqueued : Queued now s account username reserved s') (hnew : s.consumers.get account = none) :
    Named s' := by
  cases hqueued with
  | unreserved => exact h
  | reserved hne howner hnone hvalid hqueue =>
    refine ⟨h.registry.of_eq rfl rfl rfl, h.queues.enqueue hnone hvalid hqueue, fun u q hq => ?_,
      fun who info hinfo hsome => ?_⟩
    · rw [Store.enqueue, StorageMap.get_insert] at hq
      split at hq
      · rename_i hu
        rw [hu]
        exact howner
      · exact h.unowned u q hq
    · rw [Store.enqueue, StorageMap.get_insert, if_neg]
      · exact h.unreserved who info hinfo hsome
      · rintro rfl
        cases hnew.symm.trans hinfo

/-- A lite username has a dot, so that it is not reserved. -/
theorem Named.enrol (h : Named s) {key : Vector UInt8 65} (hnew : s.consumers.get account = none)
    (howner : s.usernameOwnerOf.get username = none) (hvalid : validateUsername T username false = true) :
    Named (s.enrol account key username) := by
  refine ⟨h.registry.enrol hnew howner, h.queues, fun u q hq => ?_, fun who info hinfo hsome => ?_⟩
  · refine (StorageMap.get_insert _ _ _ _).trans ((if_neg ?_).trans (h.unowned u q hq))
    exact validateUsername_ne T (h.queues.valid u q hq) hvalid
  · have hget := (StorageMap.get_insert s.consumers account who _).symm.trans hinfo
    split at hget
    · cases hget
      exact absurd rfl hsome
    · exact h.unreserved who info hget hsome

/-- Leaving a queue makes no other. -/
theorem queue_of_dequeue {reserved : Username} {queue q : Queue T} {pos : Nat} {entry : ReservationQueueEntry T}
    (hqueue : s.usernameReservationQueue.get reserved = some queue) {u : Username}
    (hq : (s.dequeue reserved queue pos entry).usernameReservationQueue.get u = some q) :
    ∃ q', s.usernameReservationQueue.get u = some q' := by
  by_cases hu : u = reserved
  · exact ⟨queue, hu ▸ hqueue⟩
  · refine ⟨q, ?_⟩
    rw [Store.dequeue] at hq
    dsimp only at hq
    split at hq
    · rwa [StorageMap.get_remove, if_neg hu] at hq
    · rwa [StorageMap.get_insert, if_neg hu] at hq

theorem Named.dequeue (h : Named s) {reserved : Username} {queue : Queue T} {pos : Nat}
    {entry : ReservationQueueEntry T} (hqueue : s.usernameReservationQueue.get reserved = some queue)
    (hentry : queue.toList[pos]? = some entry) : Named (s.dequeue reserved queue pos entry) := by
  refine ⟨h.registry.of_eq rfl rfl rfl, h.queues.dequeue hqueue hentry, fun u q hq => ?_,
    fun who info hinfo hsome => ?_⟩
  · obtain ⟨q', hq'⟩ := queue_of_dequeue hqueue hq
    exact h.unowned u q' hq'
  · rw [Store.dequeue, StorageMap.get_remove, h.unreserved who info hinfo hsome, ite_self]

theorem Named.freed (h : Named s) (hfreed : Freed s account username s') :
    Named s' ∧ s'.reservationOf.get account = none ∧ s'.usernameReservationQueue.get username = none ∧
      s'.usernameOwnerOf.get username = none := by
  cases hfreed with
  | standalone howner hqueue hvalid hnone => exact ⟨h, hnone, hqueue, howner⟩
  | @leaving reserved pos entry queue howner hqueue hvalid hres hleft hentry haccount =>
    refine ⟨h.dequeue hleft hentry, ?_, ?_, howner⟩
    · rw [Store.dequeue, haccount, StorageMap.get_remove, if_pos rfl]
    · cases hget : (s.dequeue reserved queue pos entry).usernameReservationQueue.get username with
      | none => rfl
      | some q =>
        obtain ⟨q', hq'⟩ := queue_of_dequeue hleft hget
        cases hqueue.symm.trans hq'
  | @reservation queue front hqueue hfront haccount =>
    have hmem : account ∈ waiting queue := by
      rw [← haccount]
      exact List.mem_map_of_mem (List.mem_of_mem_head? hfront)
    refine ⟨⟨h.registry.of_eq rfl rfl rfl, h.queues.consume hqueue,
      fun u q hq => h.unowned u q (StorageMap.get_of_get_remove hq), fun who info hinfo hsome => ?_⟩, ?_, ?_,
      h.unowned username queue hqueue⟩
    · rw [Store.consume, StorageMap.get_removeAll, h.unreserved who info hinfo hsome, ite_self]
    · rw [Store.consume, StorageMap.get_removeAll]
      exact if_pos hmem
    · rw [Store.consume, StorageMap.get_remove, if_pos rfl]

theorem Named.upgrade (h : Named s) {now : Nat} {x : T.memberService.Alias} {info : ConsumerInfo T}
    (hinfo : s.consumers.get account = some info) (hfull : info.fullUsername = none)
    (halias : s.accountOfAlias.get x = none) (hnone : s.reservationOf.get account = none)
    (hqueue : s.usernameReservationQueue.get username = none)
    (howner : s.usernameOwnerOf.get username = none) : Named (s.upgrade now x account username info) := by
  refine ⟨h.registry.upgrade hinfo hfull halias howner, h.queues, fun u q hq => ?_, fun who i hi hsome => ?_⟩
  · refine (StorageMap.get_insert _ _ _ _).trans ((if_neg ?_).trans (h.unowned u q hq))
    rintro rfl
    cases hqueue.symm.trans hq
  · have hget := (StorageMap.get_insert s.consumers account who _).symm.trans hi
    split at hget
    · rename_i hwho
      rw [hwho]
      exact hnone
    · exact h.unreserved who i hget hsome

theorem Named.effect (h : Named c.store) (heffect : Effect c a s') : Named s' := by
  cases heffect with
  | enrolled hcall hnew howner hvalid hqueued =>
    have hnamed := h.queued hqueued hnew
    obtain ⟨queues, reservations, rfl⟩ := hqueued.eq
    exact hnamed.enrol hnew howner hvalid
  | upgraded hcall halias hinfo hfull hfreed =>
    obtain ⟨hnamed, hnone, hqueue, howner⟩ := h.freed hfreed
    obtain ⟨queues, reservations, rfl⟩ := hfreed.eq
    exact hnamed.upgrade hinfo hfull halias hnone hqueue howner
  | @touched _ personAlias old account info lastUpdate demoted hcall haccount hinfo hcredibility =>
    -- the alias that the account is found under is the one that its credibility has
    have hold : old = personAlias := by
      obtain ⟨info', _, _, hinfo', hcred⟩ := (h.registry.person personAlias account).mp haccount
      cases hinfo.symm.trans hinfo'
      cases hcredibility.symm.trans hcred
      rfl
    have hset : Named (c.store.setInfo account { info with credibility := .person personAlias c.now false }) := by
      refine h.setInfo hinfo rfl rfl (fun hnone => ?_) fun x => ?_
      · cases hcredibility.symm.trans (h.registry.lite account info hinfo hnone)
      · rw [hcredibility, hold]
        constructor
        · rintro ⟨_, _, heq⟩
          cases heq
          exact ⟨_, _, rfl⟩
        · rintro ⟨_, _, heq⟩
          cases heq
          exact ⟨_, _, rfl⟩
    cases demoted with
    | false => exact hset
    | true => exact hset.of_eq rfl rfl rfl rfl rfl
  | @demoted _ account _ _ _ hcall hinfo hcredibility =>
    have hdecreased : Named (decreaseAllowanceBy c.store account (remainingAllowance T)) :=
      h.of_eq rfl rfl rfl rfl rfl
    refine hdecreased.setInfo hinfo rfl rfl (fun hnone => ?_) fun x => ?_
    · cases hcredibility.symm.trans (h.registry.lite _ _ hinfo hnone)
    · rw [hcredibility]
      constructor
      · rintro ⟨_, _, heq⟩
        cases heq
        exact ⟨_, _, rfl⟩
      · rintro ⟨_, _, heq⟩
        cases heq
        exact ⟨_, _, rfl⟩
  | unreserved hcall hqueue hentry => exact h.dequeue hqueue hentry
  | keyed hcall hinfo => exact h.setInfo hinfo rfl rfl (fun _ => rfl) fun _ => Iff.rfl
  | requested | requestCleared => exact h.of_eq rfl rfl rfl rfl rfl
  | slotSet hcall hinfo hperiod hseq hshown hrevoked =>
    rcases hrevoked with ⟨-, rfl⟩ | ⟨entry, -, -, rfl⟩ <;> exact h.of_eq rfl rfl rfl rfl rfl
  | slotsCleared hcall hclearable =>
    obtain ⟨entries, reverse, granted, heq⟩ := foldl_drainEntry_eq _ c.store
    rw [heq]
    exact h.of_eq rfl rfl rfl rfl rfl
  | timed | storageClaimed | storageCleared | nothing => exact h.of_eq rfl rfl rfl rfl rfl

theorem Named.exec (h : Named c.store) (hexec : Resources.exec c a = .ok c') : Named c'.store := by
  rcases exec_effect hexec with ⟨hstore, -, -⟩ | ⟨-, heffect⟩
  · rw [hstore]
    exact h
  · exact h.effect heffect

theorem named_default : Named (default : Store T) := by
  refine ⟨⟨fun _ _ => ?_, fun _ _ => ?_, nofun⟩, ⟨nofun, nofun, nofun, fun _ _ => ?_⟩, nofun, nofun⟩
  · exact ⟨nofun, fun ⟨_, hnone, _⟩ => by cases hnone⟩
  · exact ⟨nofun, fun ⟨_, _, _, hnone, _⟩ => by cases hnone⟩
  · exact ⟨nofun, fun ⟨_, hnone, _⟩ => by cases hnone⟩

/-- A call that fails leaves the storage as it was. -/
theorem dispatch_error {origin : Origin T} {now : Nat} {call : Call T} {e : Error}
    (h : dispatch origin now s call = (.error e, s')) : s' = s := by
  have hwrap : ∀ x : Except Error (Store T), dispatch.wrap s x = (.error e, s') → s' = s := by
    intro x hx
    unfold dispatch.wrap at hx
    split at hx
    · cases hx
    · cases hx
      rfl
  cases call with
  | registerPerson linked proof choice => exact withStorageLayer_error h
  | other => cases h
  | _ => exact hwrap _ h

end Steps

/-- In every state reached, a username is owned by the one consumer whose record has it and is not
reserved; queues are non-empty, without duplicates, and agree with the index of reservations; a
consumer with a full username has no reservation; an alias has the account whose credibility names
it. A call that fails changes nothing. -/
theorem usernames_consistent {now : Nat} {w : T.memberService.World} {c : Chain T}
    (h : Reaches exec (fun _ _ => True) (genesis now w) c) :
    (∀ u who, c.store.usernameOwnerOf.get u = some who ↔
      ∃ info, c.store.consumers.get who = some info ∧ (info.liteUsername = u ∨ info.fullUsername = some u)) ∧
    (∀ u, c.store.usernameOwnerOf.get u = none ∨ c.store.usernameReservationQueue.get u = none) ∧
    (∀ u queue, c.store.usernameReservationQueue.get u = some queue →
      queue.toList ≠ [] ∧ (waiting queue).Nodup) ∧
    (∀ who u, c.store.reservationOf.get who = some u ↔
      ∃ queue, c.store.usernameReservationQueue.get u = some queue ∧ who ∈ waiting queue) ∧
    (∀ who info, c.store.consumers.get who = some info → info.fullUsername ≠ none →
      c.store.reservationOf.get who = none) ∧
    (∀ x who, c.store.accountOfAlias.get x = some who ↔ ∃ info lastUpdate demoted,
      c.store.consumers.get who = some info ∧ info.credibility = .person x lastUpdate demoted) ∧
    ∀ origin call e s', dispatch origin c.now c.store call = (.error e, s') → s' = c.store := by
  have hn : Named c.store := h.invariant (I := fun c => Named c.store) named_default
    fun t a t' ht _ hexec => ht.exec hexec
  refine ⟨hn.registry.owner, fun u => ?_, fun u queue hqueue => ?_, hn.queues.exact, hn.unreserved,
    hn.registry.person, fun _ _ _ _ herror => dispatch_error herror⟩
  · cases hqueue : c.store.usernameReservationQueue.get u with
    | none => exact .inr rfl
    | some queue => exact .inl (hn.unowned u queue hqueue)
  · exact ⟨hn.queues.nonempty u queue hqueue, hn.queues.nodup u queue hqueue⟩

/-- Two lite persons wait for one username, and the first of them takes it. -/
def sampleNames : List (Action sampleConfig) :=
  [.registrar holder (Vector.replicate 65 0) (sampleUsername "a.12") (some (sampleUsername "b")),
    .registrar (8 : Nat) (Vector.replicate 65 0) (sampleUsername "c.12") (some (sampleUsername "b")),
    .submit ⟨.external, .person ((1 : Nat), Vector.replicate 32 0), none,
      .registerPerson holder (7 : Nat) (.reservation (sampleUsername "b")), (0 : Nat)⟩]
where
  holder : sampleConfig.AccountId := (7 : Nat)
  sampleUsername (s : String) : Username := (BoundedVec.tryFrom (ascii s)).getD BoundedVec.nil

theorem usernames_consistent_sample : ∃ c, Reaches exec (fun _ _ => True) sampleGenesis c ∧
    c.store.usernameOwnerOf.get (sampleNames.sampleUsername "b") = some sampleNames.holder ∧
      (∀ u, c.store.usernameOwnerOf.get u = none ∨ c.store.usernameReservationQueue.get u = none) := by
  obtain ⟨c, hreach, howner⟩ := exists_reaches exec (fun _ _ => True) sampleGenesis sampleNames
    (fun c => c.store.usernameOwnerOf.get (sampleNames.sampleUsername "b") = some sampleNames.holder) (by decide +kernel)
  obtain ⟨-, hdisjoint, -⟩ := usernames_consistent (T := sampleConfig) hreach
  exact ⟨c, hreach, howner, hdisjoint⟩

end Individuality.Resources
