import Individuality.PeopleLite.Rings
import Individuality.Support.Mirrors

/-! Lite people, and the accounts of their aliases.

The pallet counts a reference on whoever is a lite person or has an alias, and keeps the
two apart when an account is given to an alias (`Balanced`). An attestation does not look
at the aliases, so the runs considered are those that attest no account of an alias, and
whose allowances fit their type (`Call.KeepsApart`). `noteGrants` notes what a verifier
was granted since it was last cleared, and how many people it has attested since. -/
namespace Individuality.PeopleLite
open Support
variable {T : Config} {R : RingConfig} {s s' t : Store T} {c c' : Chain T} {a : Action T} {env : Env T}
  {who account verifier candidate : T.AccountId} {ca : T.Ca} {old revCa : T.RevCa} {key : T.Member}

/-! ### What is performed -/

/-- The call of an action that succeeds, with the storage that it finds and its origin. -/
def performed (c : Chain T) : Action T → Option (Store T × Origin T × Call T)
  | .submit tx =>
    match PeopleLiteAuth.validate c.env c.store tx with
    | .error _ => none
    | .ok (origin, val) =>
      match PeopleLiteAuth.prepare c.store val with
      | .error _ => none
      | .ok s => if (dispatch c.env s origin tx.call).isOk = true then some (s, origin, tx.call) else none
  | .dispatch origin call =>
    if (dispatch c.env c.store origin call).isOk = true then some (c.store, origin, call) else none
  | _ => none

/-- What the extension writes ahead of a call. -/
inductive Prepared (s : Store T) : Store T → Prop
  | nonces (nonces : T.AccountId → Nat) : Prepared s { s with nonces := nonces }
  | revised (nonces : T.AccountId → Nat) {who : T.AccountId} {old revCa : T.RevCa} :
    s.accountToAlias.get who = some old → revCa.ca = old.ca →
    Prepared s { s with accountToAlias := s.accountToAlias.insert who revCa, nonces := nonces }

/-- What an action does. -/
inductive Applied (c : Chain T) (a : Action T) (s' : Store T) : Prop
  | performed {t : Store T} {origin : Origin T} {call : Call T} : performed c a = some (t, origin, call) →
    (t = c.store ∨ Prepared c.store t) → Dispatch c.env t origin call s' → Applied c a s'
  | prepared : PeopleLite.performed c a = none → Prepared c.store s' → Applied c a s'
  | polled : a = .onPoll → s' = onPoll c.store → Applied c a s'
  | elsewhere {members registrar env} : a = .elsewhere members registrar env →
    s' = { c.store with members := members, registrar := registrar } → Applied c a s'

theorem prepared_of_validate {tx : Transaction T} {origin : Origin T} {val : PeopleLiteAuthVal T}
    (hvalidated : PeopleLiteAuth.validate env s tx = .ok (origin, val))
    (hprepared : PeopleLiteAuth.prepare s val = .ok t) : Prepared s t := by
  obtain ⟨nonces, rfl | ⟨who, old, revCa, -, hold, hca, rfl⟩⟩ := prepare_ok (validate_ok hvalidated) hprepared
  · exact .nonces nonces
  · exact .revised nonces hold hca

theorem apply_ok (happly : apply c a = .ok s') : Applied c a s' := by
  cases a with
  | submit tx =>
    have hok := mapError_eq_ok.mp happly
    simp only [submit, bind_eq_ok] at hok
    obtain ⟨⟨origin, val⟩, hvalidated, t, hprepared, hok⟩ := hok
    have ht := prepared_of_validate hvalidated hprepared
    have hperformed : performed c (.submit tx) =
        if (dispatch c.env t origin tx.call).isOk = true then some (t, origin, tx.call) else none := by
      simp only [performed, hvalidated, hprepared]
    split at hok
    · rename_i u pays hdispatched
      cases hok
      refine .performed (hperformed.trans (if_pos ?_)) (.inr ht) (dispatch_effect hdispatched)
      rw [hdispatched]
      rfl
    · rename_i e hfailed
      cases hok
      refine .prepared (hperformed.trans (if_neg ?_)) ht
      rw [hfailed]
      exact fun h => (by cases h)
  | dispatch origin call =>
    have hok := mapError_eq_ok.mp happly
    cases hdispatched : dispatch c.env c.store origin call with
    | error e =>
      rw [hdispatched] at hok
      cases hok
    | ok result =>
      rw [hdispatched] at hok
      cases hok
      refine .performed (if_pos ?_) (.inl rfl) (dispatch_effect hdispatched)
      rw [hdispatched]
      rfl
  | onPoll =>
    cases happly
    exact .polled rfl rfl
  | elsewhere members registrar env =>
    cases happly
    exact .elsewhere rfl rfl

/-! ### Grants -/

/-- What a verifier was granted since it was last cleared, and how many people it has attested. -/
structure Grants where
  granted : Nat
  attested : Nat

/-- Note what a call grants or spends that succeeds. -/
def recordIn : Origin T → Call T → (T.AccountId → Grants) → T.AccountId → Grants
  | _, .increaseAttestationAllowance account count, grants =>
    Function.update grants account { grants account with granted := (grants account).granted + count }
  | _, .clearAttestationAllowance account, grants => Function.update grants account ⟨0, 0⟩
  | .signed verifier, .attest .., grants =>
    Function.update grants verifier { grants verifier with attested := (grants verifier).attested + 1 }
  | .litePerson who, .dispatchAsSigner call, grants => recordIn (.signed who) call grants
  | _, _, grants => grants

def noteGrants (c : Chain T) (a : Action T) (_ : Chain T) (grants : T.AccountId → Grants) : T.AccountId → Grants :=
  match performed c a with
  | some (_, origin, call) => recordIn origin call grants
  | none => grants

/-- No account of an alias is attested, and no allowance saturates. -/
def Call.KeepsApart (s : Store T) : Call T → Prop
  | .attest candidate _ _ _ _ => s.accountToAlias.get candidate = none
  | .increaseAttestationAllowance account count => s.allowance account + count ≤ U32.max
  | .dispatchAsSigner call => call.KeepsApart s
  | _ => True

def KeepsApart (c : Chain T) (a : Action T) : Prop :=
  ∀ t origin call, performed c a = some (t, origin, call) → call.KeepsApart t

/-! ### The members -/

/-- Members that are added have records, and nobody loses one. -/
structure AppendOnly (M : MemberService) : Prop where
  added : ∀ {w w' key}, M.addMembers w [key] = some w' → M.memberStatus w' key = true ∧
    ∀ k, M.memberStatus w k = true → M.memberStatus w' k = true
  created : ∀ {w w'}, M.createCollection w = some w' → ∀ k, M.memberStatus w k = true → M.memberStatus w' k = true

theorem appendOnly (R : RingConfig) : AppendOnly R.lite.memberService where
  added hadded := by
    simp only [Option.map_eq_some_iff, toOption_eq_some] at hadded
    obtain ⟨rings, hok, rfl⟩ := hadded
    obtain ⟨-, hfold⟩ := Members.Store.addMembers_spec hok
    simp only [List.foldlM_cons, List.foldlM_nil, bind_pure] at hfold
    obtain ⟨hkeeps, hrecord, -⟩ := Members.Store.keeps_addMember hfold
    exact ⟨hrecord, hkeeps⟩
  created hcreated := by
    simp only [Option.map_eq_some_iff, toOption_eq_some] at hcreated
    obtain ⟨rings, hok, rfl⟩ := hcreated
    simp only [Members.Store.createCollection, bind_eq_ok, ensure_eq_ok] at hok
    obtain ⟨-, -, -, -, -, -, hok⟩ := hok
    cases hok
    exact fun _ hk => hk

/-! ### The balance -/

/-- The account is a lite person's, or an alias's. -/
def Store.InUse (s : Store T) (account : T.AccountId) : Prop :=
  (∃ info, s.litePeople.get account = some info) ∨ ∃ revCa, s.accountToAlias.get account = some revCa

structure Balanced (s : Store T) (grants : T.AccountId → Grants) : Prop where
  paired : Mirrors s.aliasToAccount s.accountToAlias fun revCa => some revCa.ca
  apart : ∀ account, s.litePeople.get account = none ∨ s.accountToAlias.get account = none
  distinct : ∀ account account' info info', s.litePeople.get account = some info →
    s.litePeople.get account' = some info' → info.ringVrfKey = info'.ringVrfKey → account = account'
  enrolled : ∀ account info, s.litePeople.get account = some info →
    T.memberService.memberStatus s.members info.ringVrfKey = true
  counted : Counts s.sufficients s.InUse
  granted : ∀ verifier, (grants verifier).granted = s.allowance verifier + (grants verifier).attested

namespace Balanced
variable {grants : T.AccountId → Grants}

theorem genesis {members : T.memberService.World} {registrar : T.Registrar} :
    Balanced (genesis members registrar env).store fun _ => ⟨0, 0⟩ where
  paired := Mirrors.empty
  apart _ := .inl rfl
  distinct _ _ _ _ h := by cases h
  enrolled _ _ h := by cases h
  counted _ := ⟨fun hused => hused.elim (fun ⟨_, h⟩ => by cases h) fun ⟨_, h⟩ => (by cases h), fun _ => rfl⟩
  granted _ := rfl

/-- What is not about people or aliases changes, and nobody loses a record. -/
theorem of_frame (h : Balanced s grants) (hlite : s'.litePeople = s.litePeople)
    (hindex : s'.aliasToAccount = s.aliasToAccount) (haliases : s'.accountToAlias = s.accountToAlias)
    (hallowance : s'.attestationAllowance = s.attestationAllowance) (hsufficients : s'.sufficients = s.sufficients)
    (hkeeps : ∀ k, T.memberService.memberStatus s.members k = true → T.memberService.memberStatus s'.members k = true) :
    Balanced s' grants := by
  refine ⟨?_, ?_, ?_, fun account info hget => ?_, ?_, ?_⟩
  · rw [hindex, haliases]
    exact h.paired
  · rw [hlite, haliases]
    exact h.apart
  · rw [hlite]
    exact h.distinct
  · rw [hlite] at hget
    exact hkeeps _ (h.enrolled account info hget)
  · rw [hsufficients]
    refine h.counted.congr fun account => ?_
    rw [Store.InUse, hlite, haliases]
    rfl
  · intro verifier
    rw [Store.allowance, hallowance]
    exact h.granted verifier

/-- The alias of an account is written anew. -/
theorem revised (h : Balanced s grants) (hold : s.accountToAlias.get who = some old) (hca : revCa.ca = old.ca) :
    Balanced { s with accountToAlias := s.accountToAlias.insert who revCa } grants := by
  refine ⟨h.paired.insert_same hold (congrArg some hca), fun account => ?_, h.distinct, h.enrolled, ?_, h.granted⟩
  · show _ ∨ (s.accountToAlias.insert who revCa).get account = none
    rw [StorageMap.get_insert]
    split
    · rename_i heq
      rw [heq]
      refine .inl ((h.apart who).resolve_right fun hnone => ?_)
      cases hold.symm.trans hnone
    · exact h.apart account
  · refine h.counted.congr fun account => or_congr_right ?_
    show (∃ r, (s.accountToAlias.insert who revCa).get account = some r) ↔ _
    rw [StorageMap.get_insert]
    split
    · rename_i heq
      rw [heq]
      exact ⟨fun _ => ⟨old, hold⟩, fun _ => ⟨revCa, rfl⟩⟩
    · exact Iff.rfl

theorem prepared (h : Balanced s grants) (ht : Prepared s t) : Balanced t grants := by
  cases ht with
  | nonces nonces => exact h.of_frame rfl rfl rfl rfl rfl fun _ hk => hk
  | revised nonces hold hca => exact (h.revised hold hca).of_frame rfl rfl rfl rfl rfl fun _ hk => hk

theorem unpair (h : Balanced s grants) (hget : s.aliasToAccount.get ca = some account) :
    Balanced (unpair s ca account) grants := by
  obtain ⟨revCa, hrevCa, hca⟩ := (h.paired ca account).mp hget
  refine ⟨h.paired.remove hrevCa hca, fun account' => ?_, h.distinct, h.enrolled, ?_, h.granted⟩
  · refine (h.apart account').imp_right fun hnone => ?_
    show (s.accountToAlias.remove account).get account' = none
    rw [StorageMap.get_remove, hnone, ite_self]
  · refine Counts.dec h.counted (.inr ⟨revCa, hrevCa⟩) ?_ fun account' hne => or_congr_right ?_
    · rintro (⟨info, hinfo⟩ | ⟨revCa', hget'⟩)
      · rcases h.apart account with hnone | hnone
        · cases hnone.symm.trans hinfo
        · cases hnone.symm.trans hrevCa
      · cases ((StorageMap.get_remove _ _ _).trans (if_pos rfl)).symm.trans hget'
    · show (∃ r, (s.accountToAlias.remove account).get account' = some r) ↔ _
      rw [StorageMap.get_remove, if_neg hne]

theorem pair (h : Balanced s grants) (hlite : s.litePeople.get account = none)
    (hfree : s.accountToAlias.get account = none) (hnone : s.aliasToAccount.get revCa.ca = none) :
    Balanced (pair s revCa account) grants := by
  refine ⟨h.paired.insert_named (fun _ hold => by cases hfree.symm.trans hold) rfl hnone, fun account' => ?_, h.distinct,
    h.enrolled, ?_, h.granted⟩
  · by_cases heq : account' = account
    · exact .inl (heq ▸ hlite)
    · refine (h.apart account').imp_right fun hnone' => ?_
      exact (StorageMap.get_insert _ _ _ _).trans ((if_neg heq).trans hnone')
  · refine Counts.inc h.counted ?_ (.inr ⟨revCa, (StorageMap.get_insert _ _ _ _).trans (if_pos rfl)⟩)
      fun account' hne => or_congr_right ?_
    · rintro (⟨info, hinfo⟩ | ⟨revCa', hget⟩)
      · cases hlite.symm.trans hinfo
      · cases hfree.symm.trans hget
    · show (∃ r, (s.accountToAlias.insert account revCa).get account' = some r) ↔ _
      rw [StorageMap.get_insert, if_neg hne]

theorem setAlias (h : Balanced s grants) (hlite : s.litePeople.get account = none) (hpaired : Paired s revCa account s') :
    Balanced s' grants := by
  cases hpaired with
  | again hget =>
    obtain ⟨old, hold, hca⟩ := (h.paired _ _).mp hget
    have hrevised := h.revised hold (Option.some.inj hca).symm
    refine ⟨hrevised.paired.congr fun ca => ?_, hrevised.apart, h.distinct, h.enrolled, hrevised.counted, h.granted⟩
    refine (StorageMap.get_insert _ _ _ _).trans ?_
    split
    · rename_i heq
      rw [heq]
      exact hget.symm
    · rfl
  | moved old hold hne hfree =>
    refine (h.unpair hold).pair hlite ?_ ((StorageMap.get_remove _ _ _).trans (if_pos rfl))
    exact (StorageMap.get_remove _ _ _).trans ((if_neg (Ne.symm hne)).trans hfree)
  | fresh hnone hfree => exact h.pair hlite hfree hnone

theorem increase (h : Balanced s grants) {count : Nat} (hfits : s.allowance account + count ≤ U32.max) :
    Balanced (increaseAttestationAllowance s account count)
      (recordIn .manager (.increaseAttestationAllowance account count) grants) := by
  refine ⟨h.paired, h.apart, h.distinct, h.enrolled, h.counted, fun verifier => ?_⟩
  have hgranted := h.granted verifier
  simp only [recordIn, increaseAttestationAllowance, Store.allowance, StorageMap.get_insert, Function.update_apply]
  split
  · rename_i heq
    rw [heq] at hgranted
    simp only [Option.getD_some]
    have hsum : U32.saturatingAdd ((s.attestationAllowance.get account).getD 0) count =
        (s.attestationAllowance.get account).getD 0 + count := U32.saturatingAdd_eq hfits
    rw [hsum, hgranted, Store.allowance]
    exact Nat.add_right_comm _ _ _
  · exact hgranted

theorem clear (h : Balanced s grants) : Balanced (clearAttestationAllowance s account)
    (recordIn .manager (.clearAttestationAllowance account) grants) := by
  refine ⟨h.paired, h.apart, h.distinct, h.enrolled, h.counted, fun verifier => ?_⟩
  simp only [recordIn, clearAttestationAllowance, Store.allowance, StorageMap.get_remove, Function.update_apply]
  split
  · rfl
  · exact h.granted verifier

/-- An attestation takes one from what its verifier may attest. -/
theorem allowance_spend (s : Store T) (verifier v : T.AccountId) :
    ((spend s verifier).get v).getD 0 = if v = verifier then s.allowance verifier - 1 else s.allowance v := by
  unfold spend
  split
  · rw [StorageMap.get_insert]
    split
    · rfl
    · rfl
  · rename_i hnone
    rw [StorageMap.get_remove]
    split
    · exact (Nat.eq_zero_of_not_pos hnone).symm
    · rfl

theorem enter {members : T.memberService.World} {registrar : T.Registrar} {consumerRegistration}
    (h : Balanced s grants) (hM : AppendOnly T.memberService)
    (hattested : Attested s verifier candidate key consumerRegistration members registrar)
    (hfree : s.accountToAlias.get candidate = none) :
    Balanced (enter s verifier candidate key members registrar)
      (Function.update grants verifier { grants verifier with attested := (grants verifier).attested + 1 }) := by
  obtain ⟨hstatus, hkeeps⟩ := hM.added hattested.added
  have hget : ∀ {account info}, (PeopleLite.enter s verifier candidate key members registrar).litePeople.get account =
      some info → (account = candidate ∧ info.ringVrfKey = key) ∨ s.litePeople.get account = some info := by
    intro account info hinfo
    have hinfo := (StorageMap.get_insert _ _ _ _).symm.trans hinfo
    split at hinfo
    · rename_i heq
      cases hinfo
      exact .inl ⟨heq, rfl⟩
    · exact .inr hinfo
  -- Whoever is enrolled already has another key.
  have hnew : ∀ {account info}, s.litePeople.get account = some info → info.ringVrfKey ≠ key := by
    intro account info hinfo heq
    have henrolled := h.enrolled account info hinfo
    rw [heq] at henrolled
    cases henrolled.symm.trans hattested.freshKey
  refine ⟨h.paired, fun account => ?_, fun account account' info info' hinfo hinfo' hkey => ?_, fun account info hinfo => ?_,
    ?_, fun v => ?_⟩
  · by_cases heq : account = candidate
    · exact .inr (heq ▸ hfree)
    · refine (h.apart account).imp_left fun hnone => ?_
      exact (StorageMap.get_insert _ _ _ _).trans ((if_neg heq).trans hnone)
  · rcases hget hinfo with ⟨heq, hk⟩ | hinfo <;> rcases hget hinfo' with ⟨heq', hk'⟩ | hinfo'
    · exact heq.trans heq'.symm
    · exact absurd (hkey.symm.trans hk) (hnew hinfo')
    · exact absurd (hkey.trans hk') (hnew hinfo)
    · exact h.distinct _ _ _ _ hinfo hinfo' hkey
  · rcases hget hinfo with ⟨-, hk⟩ | hinfo
    · rw [hk]
      exact hstatus
    · exact hkeeps _ (h.enrolled _ _ hinfo)
  · refine Counts.inc h.counted ?_ (.inl ⟨_, (StorageMap.get_insert _ _ _ _).trans (if_pos rfl)⟩)
      fun account hne => or_congr_left ?_
    · rintro (⟨info, hinfo⟩ | ⟨revCa, hrevCa⟩)
      · cases hattested.fresh.symm.trans hinfo
      · cases hfree.symm.trans hrevCa
    · show (∃ i, (s.litePeople.insert candidate _).get account = some i) ↔ _
      rw [StorageMap.get_insert, if_neg hne]
  · have hgranted := h.granted v
    have hspent : (PeopleLite.enter s verifier candidate key members registrar).allowance v =
        if v = verifier then s.allowance verifier - 1 else s.allowance v := allowance_spend s verifier v
    rw [hspent, Function.update_apply]
    split
    · rename_i heq
      rw [heq] at hgranted
      have hallowed := hattested.allowed
      show (grants verifier).granted = s.allowance verifier - 1 + ((grants verifier).attested + 1)
      omega
    · exact hgranted

theorem dispatched {origin : Origin T} {call : Call T} (h : Balanced s grants) (hM : AppendOnly T.memberService)
    (hapart : call.KeepsApart s) (hd : Dispatch env s origin call s') : Balanced s' (recordIn origin call grants) := by
  induction hd with
  | increase => exact h.increase hapart
  | clear => exact h.clear
  | attest hattested => exact h.enter hM hattested hapart
  | asSigner _ ih => exact ih hapart
  | setAlias _ hlite hpaired => exact h.setAlias hlite hpaired
  | unsetAlias hget => exact h.unpair hget
  | other =>
    unfold recordIn
    exact h

theorem apply (h : Balanced c.store grants) (c' : Chain T) (hM : AppendOnly T.memberService) (hapart : KeepsApart c a)
    (hown : a.isOwn = true) (happly : apply c a = .ok s') : Balanced s' (noteGrants c a c' grants) := by
  cases apply_ok happly with
  | @performed t origin call hperformed ht hd =>
    have hbalanced : Balanced t grants := by
      rcases ht with rfl | ht
      · exact h
      · exact h.prepared ht
    simp only [noteGrants, hperformed]
    exact hbalanced.dispatched hM (hapart _ _ _ hperformed) hd
  | prepared hperformed ht =>
    simp only [noteGrants, hperformed]
    exact h.prepared ht
  | polled ha hs' =>
    subst ha hs'
    show Balanced (onPoll c.store) grants
    unfold onPoll
    split
    · exact h
    · split
      · rename_i members hcreated
        exact h.of_frame rfl rfl rfl rfl rfl (hM.created hcreated)
      · exact h
  | elsewhere ha _ =>
    subst ha
    cases hown

end Balanced

/-! ### Runs -/

/-- Calls keep the collection, whose members are only added to. -/
theorem undeleted_dispatch {s s' : Store R.lite} {env : Env R.lite} {origin : Origin R.lite} {call : Call R.lite}
    (h : Members.Undeleted s.rings) (hd : Dispatch env s origin call s') : Members.Undeleted s'.rings := by
  induction hd with
  | increase => exact h
  | clear => exact h
  | attest hattested =>
    have hadded := hattested.added
    simp only [Option.map_eq_some_iff, toOption_eq_some] at hadded
    obtain ⟨rings, hok, rfl⟩ := hadded
    exact (h.addMember hok).1
  | asSigner _ ih => exact ih
  | setAlias _ _ hpaired => cases hpaired <;> exact h
  | unsetAlias _ => exact h
  | other => exact h

theorem undeleted_apply {c : Chain R.lite} {a : Action R.lite} {s' : Store R.lite} (h : Members.Undeleted c.store.rings)
    (hown : a.isOwn = true) (happly : apply c a = .ok s') : Members.Undeleted s'.rings := by
  have hprepared : ∀ {t : Store R.lite}, Prepared c.store t → Members.Undeleted t.rings := by
    intro t ht
    cases ht <;> exact h
  cases apply_ok happly with
  | performed _ ht hd => exact undeleted_dispatch (ht.elim (fun heq => heq ▸ h) hprepared) hd
  | prepared _ ht => exact hprepared ht
  | polled _ hs' =>
    rw [hs']
    unfold onPoll
    split
    · exact h
    · split
      · rename_i members hcreated
        simp only [Option.map_eq_some_iff, toOption_eq_some] at hcreated
        obtain ⟨rings, hok, rfl⟩ := hcreated
        exact (h.createCollection hok).1
      · exact h
  | elsewhere ha _ =>
    subst ha
    cases hown

def noteMove (c : Chain R.lite) (m : Move R) (c' : Chain R.lite) (grants : R.AccountId → Grants) : R.AccountId → Grants :=
  match m with
  | .lite a => noteGrants c a c' grants
  | _ => grants

/-- No account of an alias is attested, and no allowance saturates. -/
def Regular (c : Chain R.lite) : Move R → Prop
  | .lite a => KeepsApart c a
  | _ => True

theorem Balanced.move {c c' : Chain R.lite} {m : Move R} {grants : R.AccountId → Grants}
    (h : Members.Undeleted c.store.rings ∧ Balanced c.store grants) (hregular : Regular c m) (hok : move c m = .ok c') :
    Members.Undeleted c'.store.rings ∧ Balanced c'.store (noteMove c m c' grants) := by
  obtain ⟨hundeleted, hbalanced⟩ := h
  cases m with
  | lite a =>
    simp only [PeopleLite.move, bind_eq_ok, ensure_eq_ok] at hok
    obtain ⟨-, hown, hok⟩ := hok
    obtain ⟨s', happly, hstore⟩ := exec_ok hok
    rw [hstore]
    exact ⟨undeleted_apply hundeleted hown happly, hbalanced.apply c' (appendOnly R) hregular hown happly⟩
  | rings call =>
    simp only [PeopleLite.move, bind_eq_ok, ensure_eq_ok, mapError_eq_ok, pure_eq_ok] at hok
    obtain ⟨-, htends, rings, hok, rfl⟩ := hok
    obtain ⟨hundeleted', hkeeps⟩ := hundeleted.step htends hok
    exact ⟨hundeleted', hbalanced.of_frame rfl rfl rfl rfl rfl hkeeps⟩
  | outside clock registrar env =>
    cases hok
    exact ⟨hundeleted, hbalanced.of_frame rfl rfl rfl rfl rfl fun _ hk => hk⟩

/-- In every state that a run reaches in which no account of an alias is attested and no allowance saturates:
the two maps of aliases mirror each other, no account is a lite person's and an alias's, the keys of lite
people are distinct members of the collection, the pallet's references are on the accounts in use, and
what a verifier was granted since its last clearing is what it has left and has attested since. -/
theorem identities_balance {clock : Members.Env R.pallet} {registrar : R.Registrar} {env : Env R.lite}
    {w : Chain R.lite × (R.AccountId → Grants)}
    (h : Reaches (noting move noteMove) (fun w m => Regular w.1 m) (ringGenesis clock registrar env, fun _ => ⟨0, 0⟩) w) :
    (∀ ca account, w.1.store.aliasToAccount.get ca = some account ↔
      ∃ revCa, w.1.store.accountToAlias.get account = some revCa ∧ revCa.ca = ca) ∧
    (∀ account, ¬(w.1.store.litePeople.contains account = true ∧ w.1.store.accountToAlias.contains account = true)) ∧
    (∀ account account' info info', w.1.store.litePeople.get account = some info →
      w.1.store.litePeople.get account' = some info' → account ≠ account' → info.ringVrfKey ≠ info'.ringVrfKey) ∧
    (∀ account info, w.1.store.litePeople.get account = some info →
      (w.1.store.rings.members.get info.ringVrfKey).isSome = true) ∧
    (∀ account, w.1.store.sufficients account =
      if w.1.store.litePeople.contains account = true ∨ w.1.store.accountToAlias.contains account = true then 1 else 0) ∧
    ∀ verifier, (w.2 verifier).granted = w.1.store.allowance verifier + (w.2 verifier).attested := by
  obtain ⟨-, hbalanced⟩ := Reaches.noted
    (I := fun (c : Chain R.lite) (grants : R.AccountId → Grants) => Members.Undeleted c.store.rings ∧ Balanced c.store grants)
    h ⟨Members.Undeleted.empty, Balanced.genesis⟩ fun c grants m c' hc hregular hok => Balanced.move hc hregular hok
  refine ⟨fun ca account => ?_, fun account hboth => ?_, fun account account' info info' hinfo hinfo' hne hkey => ?_,
    hbalanced.enrolled, fun account => ?_, hbalanced.granted⟩
  · rw [hbalanced.paired]
    simp only [Option.some.injEq]
  · obtain ⟨hlite, halias⟩ := hboth
    rcases hbalanced.apart account with hnone | hnone
    · cases (StorageMap.contains_eq_false.mpr hnone).symm.trans hlite
    · cases (StorageMap.contains_eq_false.mpr hnone).symm.trans halias
  · exact hne (hbalanced.distinct account account' info info' hinfo hinfo' hkey)
  · have hused : (w.1.store.litePeople.contains account = true ∨ w.1.store.accountToAlias.contains account = true) ↔
        w.1.store.InUse account := or_congr StorageMap.contains_eq_true StorageMap.contains_eq_true
    split
    · rename_i huse
      exact (hbalanced.counted account).1 (hused.mp huse)
    · rename_i hfree
      exact (hbalanced.counted account).2 fun huse => hfree (hused.mpr huse)

/-! ### Sample runs -/

instance Call.decidableKeepsApart (s : Store T) : ∀ call : Call T, Decidable (call.KeepsApart s)
  | .attest candidate _ _ _ _ => inferInstanceAs (Decidable (s.accountToAlias.get candidate = none))
  | .increaseAttestationAllowance account count => inferInstanceAs (Decidable (s.allowance account + count ≤ U32.max))
  | .dispatchAsSigner call => Call.decidableKeepsApart s call
  | .clearAttestationAllowance _ | .setAliasAccount _ _ | .unsetAliasAccount | .other => isTrue trivial

def keepsApart (c : Chain T) (a : Action T) : Bool := (performed c a).all fun p => decide (p.2.2.KeepsApart p.1)

theorem keepsApart_iff : keepsApart c a = true ↔ KeepsApart c a := by
  unfold keepsApart KeepsApart
  cases performed c a with
  | none => exact ⟨fun _ _ _ _ h => (by cases h), fun _ => rfl⟩
  | some p =>
    refine ⟨fun h t origin call heq => ?_, fun h => decide_eq_true (h _ _ _ rfl)⟩
    cases heq
    exact of_decide_eq_true h

def sampleRegular (c : Chain R.lite) : Move R → Bool
  | .lite a => keepsApart c a
  | _ => true

theorem regular_of_sample {c : Chain R.lite} {m : Move R} (h : sampleRegular c m = true) : Regular c m := by
  cases m with
  | lite a => exact keepsApart_iff.mp h
  | rings call => trivial
  | outside clock registrar env => trivial

/-- A signature is its key, or its account. -/
def sampleRingConfig : RingConfig where
  pallet := Members.sampleConfig
  contextDecEq := inferInstanceAs (DecidableEq Nat)
  aliasDecEq := inferInstanceAs (DecidableEq (Nat × Nat))
  collectionOwner := (0 : Nat)
  liteOnboardingSize := 1
  liteRingExponent := .r2e9
  AccountId := Nat
  accountDecEq := inferInstance
  Signature := Nat
  AttestationSignature := Nat
  Registrar := Unit
  verifySignature signature _ key := Nat.beq signature key
  verifyAttestation signature _ account := Nat.beq signature account
  registerConsumer _ _ _ _ _ := some ()
  litePeopleAuthContext := (1 : Nat)
  attestMessage _ _ := (0 : Nat)
  signingPayload _ _ _ _ _ := (0 : Nat)
  reviseMessage message _ _ := message

def sampleChain : Chain sampleRingConfig.lite :=
  ringGenesis ⟨0, fun _ _ _ => none⟩ () ⟨0, fun _ => true⟩

/-- The verifier attests an account. -/
def sampleAttest (candidate key : Nat) : Move sampleRingConfig :=
  .lite (.submit ⟨.signed (9 : Nat), none, .attest candidate candidate key key none, (0 : Nat)⟩)

/-- A lite person is attested, and gives its alias an account. -/
def sampleMoves : List (Move sampleRingConfig) :=
  [.lite .onPoll, .lite (.submit ⟨.manager, none, .increaseAttestationAllowance (9 : Nat) 3, (0 : Nat)⟩),
    sampleAttest 1 5, .rings (.onboardMembers true), .rings (.buildRing 0 1),
    .lite (.submit ⟨.none, some (.asLiteAliasWithProof ((5 : Nat), (0 : Nat)) 0 (1 : Nat)), .setAliasAccount (8 : Nat) 0,
      (0 : Nat)⟩)]

theorem identities_balance_sample : ∃ w, Reaches (noting move noteMove) (fun w m => Regular w.1 m)
      (sampleChain, fun _ => ⟨0, 0⟩) w ∧
    (w.1.store.sufficients (1 : Nat) = 1 ∧ w.1.store.sufficients (8 : Nat) = 1) ∧
    (∃ ca, w.1.store.aliasToAccount.get ca = some (8 : Nat)) ∧
    (w.2 (9 : Nat)).granted = w.1.store.allowance (9 : Nat) + (w.2 (9 : Nat)).attested := by
  obtain ⟨w, hreach, hlite, halias⟩ := exists_reaches (noting move noteMove) (fun w m => sampleRegular w.1 m = true)
    (sampleChain, fun _ => ⟨0, 0⟩) sampleMoves
    (fun w => w.1.store.litePeople.contains (1 : Nat) = true ∧ w.1.store.accountToAlias.contains (8 : Nat) = true)
    (by decide +kernel)
  have hreach := hreach.mono fun w m hm => regular_of_sample hm
  obtain ⟨hpaired, -, -, -, hcounted, hgranted⟩ := identities_balance hreach
  obtain ⟨revCa, hrevCa⟩ := StorageMap.contains_eq_true.mp halias
  exact ⟨w, hreach, ⟨(hcounted (1 : Nat)).trans (if_pos (.inl hlite)), (hcounted (8 : Nat)).trans (if_pos (.inr halias))⟩,
    ⟨revCa.ca, (hpaired _ _).mpr ⟨revCa, hrevCa, rfl⟩⟩, hgranted (9 : Nat)⟩

/-- The account of an alias is attested: it is a lite person's and an alias's at once. -/
theorem identities_balance_fails : ∃ w, Reaches (noting move noteMove) (fun _ _ => True)
      (sampleChain, fun _ => ⟨0, 0⟩) w ∧
    w.1.store.litePeople.contains (8 : Nat) = true ∧ w.1.store.accountToAlias.contains (8 : Nat) = true :=
  exists_reaches (noting move noteMove) (fun _ _ => True) (sampleChain, fun _ => ⟨0, 0⟩)
    (sampleMoves ++ [sampleAttest 8 6])
    (fun w => w.1.store.litePeople.contains (8 : Nat) = true ∧ w.1.store.accountToAlias.contains (8 : Nat) = true)
    (by decide +kernel)

end Individuality.PeopleLite
