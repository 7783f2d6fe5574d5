import Individuality.OriginRestriction.Usage

/-! The rate limit.

What an entity has used is a leaky bucket that drains at the recovery of its allowance. A
transaction fills it with its fee less its refund (`exec_transaction`), to the maximum or to
the fee of an excess, and `clean_usage` only removes a bucket that is empty. -/
namespace Individuality.OriginRestriction
open Support
variable {T : Config} {s s' : Store T} {tx : Transaction T} {cleaned : List T.Entity} {info : PostDispatchInfo T}
  {entity : T.Entity} {t : Nat}

/-! ### Recovery -/

theorem recover_now (a : Allowance) (used now : Nat) : recover a ⟨used, now⟩ now = used := by
  simp [recover, U32.saturatedFrom, U128.saturatingMul]

theorem recover_later (a : Allowance) (usage : Usage) (now n : Nat) :
    recover a usage now ≤ recover a usage (now + n) + a.recoveryPerBlock * n ∧
      recover a usage (now + n) ≤ recover a usage now := by
  have helapsed : U32.saturatedFrom (now - usage.atBlock) ≤ U32.saturatedFrom (now + n - usage.atBlock) ∧
      U32.saturatedFrom (now + n - usage.atBlock) ≤ U32.saturatedFrom (now - usage.atBlock) + n := by
    unfold U32.saturatedFrom
    omega
  have hmore := Nat.mul_le_mul_left a.recoveryPerBlock helapsed.1
  have hless := Nat.mul_le_mul_left a.recoveryPerBlock helapsed.2
  rw [Nat.mul_add] at hless
  unfold recover U128.saturatingMul
  omega

theorem usedAt_advance (s : Store T) (entity : T.Entity) (n : Nat) :
    usedNow s entity ≤ usedAt s entity (s.blockNumber + n) + (T.allowance entity).recoveryPerBlock * n := by
  unfold usedNow usedAt
  split
  · exact (recover_later _ _ _ _).1
  · exact Nat.zero_le _

theorem usedAt_of_usedNow (hzero : usedNow s entity = 0) (ht : s.blockNumber ≤ t) : usedAt s entity t = 0 := by
  obtain ⟨n, rfl⟩ := Nat.exists_eq_add_of_le ht
  unfold usedNow usedAt at hzero
  unfold usedAt
  split
  · rename_i usage hget
    rw [hget] at hzero
    exact Nat.eq_zero_of_le_zero (hzero ▸ (recover_later _ usage _ n).2)
  · rfl

/-! ### What the calls and the extension do -/

/-- The entities have used as much, from now on. -/
def Alike (s s' : Store T) : Prop :=
  s'.blockNumber = s.blockNumber ∧ ∀ entity t, s.blockNumber ≤ t → usedAt s' entity t = usedAt s entity t

theorem Alike.refl (s : Store T) : Alike s s := ⟨rfl, fun _ _ _ => rfl⟩

theorem Alike.symm (h : Alike s s') : Alike s' s :=
  ⟨h.1.symm, fun entity t ht => (h.2 entity t (h.1 ▸ ht)).symm⟩

theorem Alike.trans {s'' : Store T} (h : Alike s s') (h' : Alike s' s'') : Alike s s'' :=
  ⟨h'.1.trans h.1, fun entity t ht => (h'.2 entity t (h.1 ▸ ht)).trans (h.2 entity t ht)⟩

theorem Alike.usedNow (h : Alike s s') (entity : T.Entity) : usedNow s' entity = usedNow s entity := by
  rw [OriginRestriction.usedNow, h.1]
  exact h.2 entity _ le_rfl

/-- Only a usage that has recovered is cleaned. -/
theorem cleanUsage_ok {isNone : Bool} (hok : cleanUsage s isNone entity = .ok s') :
    usedNow s entity = 0 ∧ s' = { s with usages := s.usages.remove entity } := by
  simp only [cleanUsage, bind_eq_ok, ensure_eq_ok, okOr_eq_ok, pure_eq_ok] at hok
  obtain ⟨-, -, usage, hget, -, hzero, rfl⟩ := hok
  refine ⟨?_, rfl⟩
  rw [usedNow, usedAt, hget]
  exact hzero

theorem alike_cleanUsage {isNone : Bool} (hok : cleanUsage s isNone entity = .ok s') : Alike s s' := by
  obtain ⟨hzero, rfl⟩ := cleanUsage_ok hok
  refine ⟨rfl, fun e t ht => ?_⟩
  by_cases he : e = entity
  · subst he
    rw [usedAt_of_usedNow hzero ht, usedAt, StorageMap.get_remove, if_pos rfl]
  · unfold usedAt
    rw [StorageMap.get_remove, if_neg he]

theorem tryClean_eq (s : Store T) (entity : T.Entity) :
    tryClean s entity = s ∨ (usedNow s entity = 0 ∧ tryClean s entity = { s with usages := s.usages.remove entity }) := by
  unfold tryClean
  cases hok : cleanUsage s false entity with
  | error e => exact .inl rfl
  | ok s' => exact .inr (cleanUsage_ok hok)

theorem alike_tryClean (s : Store T) (entity : T.Entity) : Alike s (tryClean s entity) := by
  unfold tryClean
  cases hok : cleanUsage s false entity with
  | error e => exact Alike.refl s
  | ok s' => exact alike_cleanUsage hok

theorem alike_tryCleans (s : Store T) (cleaned : List T.Entity) : Alike s (cleaned.foldl tryClean s) := by
  induction cleaned generalizing s with
  | nil => exact Alike.refl s
  | cons e rest ih => exact (alike_tryClean s e).trans (ih _)

/-- A usage of this block is still there unless it is zero. -/
theorem get_tryCleans {used : Nat} (cleaned : List T.Entity)
    (h : s.usages.get entity = some ⟨used, s.blockNumber⟩ ∨ (s.usages.get entity = none ∧ used = 0)) :
    (cleaned.foldl tryClean s).usages.get entity = some ⟨used, s.blockNumber⟩ ∨
      ((cleaned.foldl tryClean s).usages.get entity = none ∧ used = 0) := by
  induction cleaned generalizing s with
  | nil => exact h
  | cons e rest ih =>
    rw [List.foldl_cons, ← (alike_tryClean s e).1]
    refine ih ?_
    rcases tryClean_eq s e with heq | ⟨hzero, heq⟩
    · rw [heq]
      exact h
    · rw [heq, StorageMap.get_remove]
      split
      · rename_i he
        refine .inr ⟨rfl, ?_⟩
        rcases h with hget | ⟨-, hused⟩
        · rw [← he, usedNow, usedAt, hget] at hzero
          exact (recover_now _ _ _).symm.trans hzero
        · exact hused
      · exact h

namespace RestrictOrigin

/-- The transaction is admitted, as far as the usage of its entity goes. -/
def Admits (s : Store T) (tx : Transaction T) (entity : T.Entity) : Prop :=
  U128.saturatingAdd (usedNow s entity) (extrinsicFee T tx.weight tx.len) ≤ (T.allowance entity).max ∨
    (usedNow s entity = 0 ∧ T.operationAllowedOneTimeExcess entity tx.call = true)

theorem validate_ok {val : Val T} (hentity : T.restrictedEntity tx.origin = some entity)
    (hok : validate s tx = .ok (s', val)) :
    Admits s tx entity ∧ val = .charge (extrinsicFee T tx.weight tx.len) entity ∧ s' = { s with
      usages := s.usages.insert entity
        ⟨U128.saturatingAdd (usedNow s entity) (extrinsicFee T tx.weight tx.len), s.blockNumber⟩ } := by
  rw [validate, hentity] at hok
  simp only [bind_eq_ok, ensure_eq_ok, pure_eq_ok] at hok
  obtain ⟨-, -, -, hadmits, heq⟩ := hok
  cases heq
  exact ⟨hadmits, rfl, rfl⟩

/-- A refund is taken off the usage of this block. -/
theorem postDispatch_charge {used : Nat} (fee len : Nat)
    (hentry : s.usages.get entity = some ⟨used, s.blockNumber⟩ ∨ (s.usages.get entity = none ∧ used = 0)) :
    (postDispatch s (.charge fee entity) info len).blockNumber = s.blockNumber ∧
    (∀ t, usedAt (postDispatch s (.charge fee entity) info len) entity t =
      recover (T.allowance entity) ⟨used - refund T fee info len, s.blockNumber⟩ t) ∧
    ∀ e t, e ≠ entity → usedAt (postDispatch s (.charge fee entity) info len) e t = usedAt s e t := by
  have hzero : ∀ t, recover (T.allowance entity) ⟨0, s.blockNumber⟩ t = 0 := fun t => Nat.zero_sub _
  rcases hentry with hget | ⟨hget, rfl⟩
  · simp only [postDispatch, hget]
    split
    · rename_i hused
      refine ⟨rfl, fun t => ?_, fun e t he => ?_⟩
      · rw [hused, hzero, usedAt, StorageMap.get_remove, if_pos rfl]
      · unfold usedAt
        rw [StorageMap.get_remove, if_neg he]
    · refine ⟨rfl, fun t => ?_, fun e t he => ?_⟩
      · rw [usedAt, StorageMap.get_insert, if_pos rfl]
      · unfold usedAt
        rw [StorageMap.get_insert, if_neg he]
  · simp only [postDispatch, hget]
    refine ⟨trivial, fun t => ?_, fun e t he => trivial⟩
    rw [Nat.zero_sub, hzero, usedAt, hget]

/-- The outcome depends on what the entity has used by now. -/
theorem validate_congr (h : ∀ entity, usedNow s' entity = usedNow s entity) (tx : Transaction T) :
    (validate s' tx).map Prod.snd = (validate s tx).map Prod.snd := by
  cases hentity : T.restrictedEntity tx.origin with
  | none => simp only [validate, hentity, Except.map]
  | some entity =>
    simp only [validate, hentity, h entity, ensure]
    split_ifs <;> rfl

end RestrictOrigin

/-- A transaction fills the bucket of its entity, and no other. -/
theorem exec_transaction (hentity : T.restrictedEntity tx.origin = some entity)
    (hok : exec s (.transaction tx cleaned info) = .ok s') :
    RestrictOrigin.Admits s tx entity ∧ s'.blockNumber = s.blockNumber ∧
    (∀ t, s.blockNumber ≤ t → usedAt s' entity t = recover (T.allowance entity)
      ⟨U128.saturatingAdd (usedNow s entity) (extrinsicFee T tx.weight tx.len) -
        RestrictOrigin.refund T (extrinsicFee T tx.weight tx.len) info tx.len, s.blockNumber⟩ t) ∧
    ∀ e t, e ≠ entity → s.blockNumber ≤ t → usedAt s' e t = usedAt s e t := by
  simp only [exec, bind_eq_ok, mapError_eq_ok, pure_eq_ok] at hok
  obtain ⟨⟨u, val⟩, hvalidate, rfl⟩ := hok
  obtain ⟨hadmits, rfl, hu⟩ := RestrictOrigin.validate_ok hentity hvalidate
  have hnow : (cleaned.foldl tryClean u).blockNumber = s.blockNumber := by
    rw [(alike_tryCleans u cleaned).1, hu]
  have hentry := @get_tryCleans _ u entity _ cleaned
    (.inl (by rw [hu]; exact (StorageMap.get_insert _ _ _ _).trans (if_pos rfl)))
  have hothers : ∀ e t, e ≠ entity → s.blockNumber ≤ t → usedAt (cleaned.foldl tryClean u) e t = usedAt s e t := by
    intro e t he ht
    rw [(alike_tryCleans u cleaned).2 e t (by rw [hu]; exact ht), hu]
    unfold usedAt
    rw [StorageMap.get_insert, if_neg he]
  obtain ⟨hblock, hcharged, hkept⟩ := RestrictOrigin.postDispatch_charge (s := cleaned.foldl tryClean u)
    (extrinsicFee T tx.weight tx.len) tx.len (by rw [(alike_tryCleans u cleaned).1]; exact hentry)
  refine ⟨hadmits, hblock.trans hnow, fun t _ => ?_, fun e t he ht => (hkept e t he).trans (hothers e t he ht)⟩
  rw [hcharged t, hnow]

/-- An unrestricted origin uses nothing. -/
theorem alike_transaction (hentity : T.restrictedEntity tx.origin = none)
    (hok : exec s (.transaction tx cleaned info) = .ok s') : Alike s s' := by
  simp only [exec, RestrictOrigin.validate, hentity, Except.mapError, ok_bind, pure_eq_ok] at hok
  rw [← hok]
  exact alike_tryCleans s cleaned

/-! ### Runs that a clean-up does not tell apart -/

/-- A refused action changes nothing. -/
def tryExec (s : Store T) (a : Action T) : Store T := ((exec s a).toOption).getD s

def run (s : Store T) (actions : List (Action T)) : Store T := actions.foldl tryExec s

theorem tryExec_ok {a : Action T} (hok : exec s a = .ok s') : tryExec s a = s' := by
  rw [tryExec, hok]
  rfl

theorem tryExec_error {a : Action T} {e : Refusal} (herror : exec s a = .error e) : tryExec s a = s := by
  rw [tryExec, herror]
  rfl

theorem alike_tryExec_cleanUsage (s : Store T) (isNone : Bool) (entity : T.Entity) :
    Alike s (tryExec s (.cleanUsage isNone entity)) := by
  cases hexec : exec s (.cleanUsage isNone entity) with
  | error e =>
    rw [tryExec_error hexec]
    exact Alike.refl s
  | ok s' =>
    rw [tryExec_ok hexec]
    simp only [exec, mapError_eq_ok] at hexec
    exact alike_cleanUsage hexec

theorem exists_exec_transaction : (∃ s', exec s (.transaction tx cleaned info) = .ok s') ↔
    ∃ val, (RestrictOrigin.validate s tx).map Prod.snd = .ok val := by
  cases hvalidate : RestrictOrigin.validate s tx with
  | error e => simp [exec, hvalidate, Except.mapError, Except.map, bind, Except.bind]
  | ok found => simp [exec, hvalidate, Except.mapError, Except.map]

/-- The same transaction is accepted of both, and charged with the same. -/
theorem Alike.transaction (h : Alike s s') (tx : Transaction T) (cleaned : List T.Entity) (info : PostDispatchInfo T) :
    Alike (tryExec s (.transaction tx cleaned info)) (tryExec s' (.transaction tx cleaned info)) := by
  have hsame : (∃ u, exec s (.transaction tx cleaned info) = .ok u) ↔
      ∃ u, exec s' (.transaction tx cleaned info) = .ok u := by
    rw [exists_exec_transaction, exists_exec_transaction, RestrictOrigin.validate_congr h.usedNow tx]
  cases hexec : exec s (.transaction tx cleaned info) with
  | error e =>
    cases hexec' : exec s' (.transaction tx cleaned info) with
    | error e' =>
      rw [tryExec_error hexec, tryExec_error hexec']
      exact h
    | ok u' =>
      obtain ⟨u, hu⟩ := hsame.mpr ⟨u', hexec'⟩
      cases hexec.symm.trans hu
  | ok u =>
    obtain ⟨u', hexec'⟩ := hsame.mp ⟨u, hexec⟩
    rw [tryExec_ok hexec, tryExec_ok hexec']
    cases hentity : T.restrictedEntity tx.origin with
    | none => exact (alike_transaction hentity hexec).symm.trans (h.trans (alike_transaction hentity hexec'))
    | some entity =>
      obtain ⟨-, hblock, hcharged, hothers⟩ := exec_transaction hentity hexec
      obtain ⟨-, hblock', hcharged', hothers'⟩ := exec_transaction hentity hexec'
      refine ⟨by rw [hblock', hblock, h.1], fun e t ht => ?_⟩
      rw [hblock] at ht
      by_cases he : e = entity
      · rw [he, hcharged t ht, hcharged' t (h.1 ▸ ht), h.usedNow, h.1]
      · rw [hothers e t he ht, hothers' e t he (h.1 ▸ ht), h.2 e t ht]

theorem Alike.tryExec (h : Alike s s') (a : Action T) :
    Alike (OriginRestriction.tryExec s a) (OriginRestriction.tryExec s' a) := by
  cases a with
  | transaction tx cleaned info => exact h.transaction tx cleaned info
  | cleanUsage isNone entity =>
    exact (alike_tryExec_cleanUsage s isNone entity).symm.trans (h.trans (alike_tryExec_cleanUsage s' isNone entity))
  | advance blocks =>
    refine ⟨congrArg (· + blocks) h.1, fun entity t ht => h.2 entity t ?_⟩
    exact (Nat.le_add_right _ _).trans ht

theorem Alike.run (h : Alike s s') (actions : List (Action T)) :
    Alike (OriginRestriction.run s actions) (OriginRestriction.run s' actions) := by
  induction actions generalizing s s' with
  | nil => exact h
  | cons a rest ih => exact ih (h.tryExec a)

/-! ### The rate limit -/

/-- What a transaction was charged with, and what of it it got back. -/
structure Charge (T : Config) where
  entity : T.Entity
  block : Nat
  fee : Nat
  refund : Nat

def noteCharge (s : Store T) (a : Action T) (_ : Store T) (charges : List (Charge T)) : List (Charge T) :=
  match a with
  | .transaction tx _ info =>
    match T.restrictedEntity tx.origin with
    | some entity =>
      ⟨entity, s.blockNumber, extrinsicFee T tx.weight tx.len,
        RestrictOrigin.refund T (extrinsicFee T tx.weight tx.len) info tx.len⟩ :: charges
    | none => charges
  | _ => charges

/-- The charges of an entity net of the refunds. -/
def netCharges (entity : T.Entity) (charges : List (Charge T)) : List (Nat × Nat) :=
  (charges.filter fun c => c.entity = entity).map fun c => (c.block, c.fee - c.refund)

theorem netCharges_charged (tx : Transaction T) (hentity : T.restrictedEntity tx.origin = some entity)
    (charges : List (Charge T)) :
    netCharges entity (noteCharge s (.transaction tx cleaned info) s' charges) =
      (s.blockNumber, extrinsicFee T tx.weight tx.len -
        RestrictOrigin.refund T (extrinsicFee T tx.weight tx.len) info tx.len) :: netCharges entity charges := by
  simp [noteCharge, netCharges, hentity]

theorem netCharges_sublist (a : Action T) (charges : List (Charge T)) :
    (netCharges entity charges).Sublist (netCharges entity (noteCharge s a s' charges)) := by
  refine List.Sublist.map _ (List.Sublist.filter _ ?_)
  unfold noteCharge
  split
  · split
    · exact List.sublist_cons_self _ _
    · exact List.Sublist.refl _
  · exact List.Sublist.refl _

/-- No call that the entity is allowed once in excess of its allowance costs more. -/
def ExcessAtMost (entity : T.Entity) (F : Nat) : Action T → Prop
  | .transaction tx _ _ => T.restrictedEntity tx.origin = some entity →
    T.operationAllowedOneTimeExcess entity tx.call = true → extrinsicFee T tx.weight tx.len ≤ F
  | _ => True

theorem refund_le (fee : Nat) (info : PostDispatchInfo T) (len : Nat) : RestrictOrigin.refund T fee info len ≤ fee := by
  unfold RestrictOrigin.refund
  split
  · exact le_rfl
  · exact Nat.sub_le _ _
  · exact Nat.zero_le _

theorem extrinsicFee_le (weight : T.Weight) (len : Nat) : extrinsicFee T weight len ≤ U128.max :=
  Nat.min_le_right _ _

/-- Below the largest balance nothing saturates. -/
theorem used_of_admits (hmax : (T.allowance entity).max < U128.max) (h : RestrictOrigin.Admits s tx entity) :
    U128.saturatingAdd (usedNow s entity) (extrinsicFee T tx.weight tx.len) =
      usedNow s entity + extrinsicFee T tx.weight tx.len := by
  refine U128.saturatingAdd_eq ?_
  rcases h with hused | ⟨hzero, -⟩
  · unfold U128.saturatingAdd at hused
    omega
  · rw [hzero, Nat.zero_add]
    exact extrinsicFee_le _ _

abbrev MeteredIn (entity : T.Entity) (F : Nat) (s : Store T) (charges : List (Charge T)) : Prop :=
  Metered (T.allowance entity).recoveryPerBlock (Nat.max (T.allowance entity).max F) (netCharges entity charges)
    s.blockNumber (usedNow s entity)

theorem MeteredIn.alike {F : Nat} {charges : List (Charge T)} (h : MeteredIn entity F s charges) (halike : Alike s s') :
    MeteredIn entity F s' charges := by
  unfold MeteredIn
  rw [halike.1, halike.usedNow]
  exact h

/-- What a transaction leaves used is what was used, and its fee less its refund. -/
theorem usedNow_transaction (hmax : (T.allowance entity).max < U128.max)
    (hentity : T.restrictedEntity tx.origin = some entity) (hok : exec s (.transaction tx cleaned info) = .ok s') :
    usedNow s' entity + RestrictOrigin.refund T (extrinsicFee T tx.weight tx.len) info tx.len =
      usedNow s entity + extrinsicFee T tx.weight tx.len := by
  obtain ⟨hadmits, hblock, hcharged, -⟩ := exec_transaction hentity hok
  have hrefund := refund_le (extrinsicFee T tx.weight tx.len) info tx.len
  have hused : usedNow s' entity = _ := (hblock ▸ hcharged _ le_rfl : usedAt s' entity s'.blockNumber = _)
  rw [hused, recover_now, used_of_admits hmax hadmits]
  omega

theorem MeteredIn.exec {F : Nat} {charges : List (Charge T)} {a : Action T}
    (hmax : (T.allowance entity).max < U128.max) (h : MeteredIn entity F s charges) (hexcess : ExcessAtMost entity F a)
    (hexec : exec s a = .ok s') : MeteredIn entity F s' (noteCharge s a s' charges) := by
  cases a with
  | transaction tx cleaned info =>
    cases hentity : T.restrictedEntity tx.origin with
    | none =>
      simp only [noteCharge, hentity]
      exact h.alike (alike_transaction hentity hexec)
    | some e =>
      obtain ⟨hadmits, hblock, -, hothers⟩ := exec_transaction hentity hexec
      simp only [noteCharge, hentity]
      by_cases he : e = entity
      · subst he
        have hused := usedNow_transaction hmax hentity hexec
        have hrefund := refund_le (extrinsicFee T tx.weight tx.len) info tx.len
        simp only [MeteredIn, netCharges, List.filter_cons, decide_true, if_true, List.map_cons, hblock]
        refine Metered.charge h (by omega) ?_
        rcases hadmits with hle | ⟨hzero, hallowed⟩
        · rw [used_of_admits hmax (.inl hle)] at hle
          exact le_max_of_le_left (by omega)
        · have hfee := hexcess hentity hallowed
          exact le_max_of_le_right (by omega)
      · simp only [MeteredIn, netCharges, List.filter_cons, he, decide_false, Bool.false_eq_true, if_false, hblock]
        have hused : usedNow s' entity = usedNow s entity := by
          rw [usedNow, hblock]
          exact hothers entity _ (Ne.symm he) le_rfl
        rw [hused]
        exact h
  | cleanUsage isNone e =>
    simp only [OriginRestriction.exec, mapError_eq_ok] at hexec
    exact h.alike (alike_cleanUsage hexec)
  | advance blocks =>
    cases hexec
    refine h.pass (Nat.le_add_right _ _) ?_
    rw [Nat.add_sub_cancel_left]
    exact usedAt_advance s entity blocks

/-- For an allowance below the largest balance, in every run: over every window of `n` blocks the fees that
an entity is charged net of refunds come to at most the maximum, or the largest fee of a call allowed
in excess, and `n` recoveries; a refund gives back no more than was charged, and takes off the usage all
that it gives back; and no later outcome of `validate` depends on a clean-up. -/
theorem usage_rate_limited {entity : T.Entity} {F blockNumber : Nat} {w : Store T × List (Charge T)}
    (hmax : (T.allowance entity).max < U128.max)
    (h : Reaches (noting exec noteCharge) (fun _ a => ExcessAtMost entity F a) (genesis T blockNumber, []) w) :
    (∀ start n, chargedWithin start n (netCharges entity w.2) ≤
      Nat.max (T.allowance entity).max F + n * (T.allowance entity).recoveryPerBlock) ∧
    (∀ tx cleaned info s', exec w.1 (.transaction tx cleaned info) = .ok s' → T.restrictedEntity tx.origin = some entity →
      RestrictOrigin.refund T (extrinsicFee T tx.weight tx.len) info tx.len ≤ extrinsicFee T tx.weight tx.len ∧
      usedNow s' entity + RestrictOrigin.refund T (extrinsicFee T tx.weight tx.len) info tx.len =
        usedNow w.1 entity + extrinsicFee T tx.weight tx.len) ∧
    ∀ isNone cleaned s', cleanUsage w.1 isNone cleaned = .ok s' → ∀ actions tx,
      (RestrictOrigin.validate (run s' actions) tx).map Prod.snd =
        (RestrictOrigin.validate (run w.1 actions) tx).map Prod.snd := by
  have hmetered : MeteredIn entity F w.1 w.2 := by
    refine Reaches.noted (I := MeteredIn entity F) (G := fun _ a => ExcessAtMost entity F a) h Metered.empty ?_
    exact fun s charges a s' hs hexcess hexec => MeteredIn.exec hmax hs hexcess hexec
  refine ⟨hmetered.window, fun tx cleaned info s' hexec hentity => ?_, fun isNone cleaned s' hok actions tx => ?_⟩
  · exact ⟨refund_le _ _ _, usedNow_transaction hmax hentity hexec⟩
  · exact RestrictOrigin.validate_congr ((alike_cleanUsage hok).run actions).usedNow tx

/-! ### Sample runs -/

/-- The origins are the entities, the weights are the fees, and a call says whether an excess is allowed.
The second entity has the largest allowance there is. -/
def sampleConfig : Config where
  Entity := Bool
  entityDecEq := inferInstance
  OriginCaller := Option Bool
  RuntimeCall := Bool
  Weight := Nat
  restrictedEntity := id
  allowance entity := if entity then ⟨U128.max, 1⟩ else ⟨10, 2⟩
  operationAllowedOneTimeExcess _ call := call
  weightToFee := id
  lengthToFee := id

def sampleTransaction (entity excess : Bool) (weight : Nat) : Action sampleConfig :=
  .transaction ⟨true, some entity, excess, weight, 0⟩ [entity] ⟨none, .yes⟩

instance (entity : Bool) (F : Nat) (a : Action sampleConfig) : Decidable (ExcessAtMost entity F a) := by
  cases a <;> unfold ExcessAtMost <;> infer_instance

/-- An excess, and what recovers of it in three blocks. -/
theorem usage_rate_limited_sample : ∃ w, Reaches (noting exec noteCharge) (fun _ a => ExcessAtMost (T := sampleConfig) false 15 a)
    (genesis sampleConfig 7, []) w ∧ chargedWithin 7 4 (netCharges false w.2) = 16 ∧
    chargedWithin 7 4 (netCharges false w.2) ≤ 15 + 4 * 2 := by
  obtain ⟨w, hreach, hcharged⟩ := exists_reaches (noting exec noteCharge)
    (fun _ a => ExcessAtMost (T := sampleConfig) false 15 a) (genesis sampleConfig 7, [])
    [sampleTransaction false true 15, .advance 3, sampleTransaction false false 1]
    (fun w => chargedWithin 7 4 (netCharges false w.2) = 16) (by decide +kernel)
  exact ⟨w, hreach, hcharged, (usage_rate_limited (T := sampleConfig) (by decide) hreach).1 7 4⟩

/-- With the largest allowance the usage saturates: two transactions of one block cost more than it. -/
theorem usage_rate_limited_fails : ∃ w, Reaches (noting exec noteCharge)
    (fun _ a => ExcessAtMost (T := sampleConfig) true 0 a) (genesis sampleConfig 7, []) w ∧
    ¬chargedWithin 7 1 (netCharges true w.2) ≤
      Nat.max (sampleConfig.allowance true).max 0 + 1 * (sampleConfig.allowance true).recoveryPerBlock :=
  exists_reaches (noting exec noteCharge) (fun _ a => ExcessAtMost (T := sampleConfig) true 0 a)
    (genesis sampleConfig 7, []) [sampleTransaction true false U128.max, sampleTransaction true false U128.max] _
    (by decide +kernel)

end Individuality.OriginRestriction
