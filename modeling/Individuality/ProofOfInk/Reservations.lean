import Individuality.ProofOfInk.Books
import Individuality.ProofOfInk.Candidacies

/-! The ids that others have reserved.

Of the people pallet, proof of ink asks for a new id, or uses up an id of one of its
candidates (`Use`). So an id that somebody else has reserved stays reserved, and no
candidate gets it (`Held`). -/
namespace Individuality.ProofOfInk
open Support
open MobRule (Judgement)
variable {T : Config} {s s' : Store T} {c c' : Chain T} {a : Action T} {env : Env T} {account : T.AccountId}
  {who : Option T.AccountId} {call : Call T} {id : Nat}

/-! ### What is asked of the people pallet -/

inductive Use (s : Store T) : People.Store T.people → Prop
  | same : Use s s.registry
  | reserved {requireId : Option Nat} {id : Nat} {registry : People.Store T.people} :
    reserveId s.registry requireId = .ok (id, registry) → Use s registry
  | cancelled {id : Nat} {registry : People.Store T.people} : id ∈ s.reservedIds →
    People.cancelIdReservation s.registry id = .ok registry → Use s registry
  | recognized {id : Nat} {key : T.Member} {registry : People.Store T.people} : id ∈ s.reservedIds →
    People.recognizePersonhood s.registry id (some key) = .ok registry → Use s registry

theorem mem_of_candidate {status : Candidate T} (hget : s.candidates.get account = some status)
    (hid : status.reserved = some id) : id ∈ s.reservedIds := mem_reservedIds.mpr ⟨account, status, hget, hid⟩

theorem registry_release (s : Store T) (account : T.AccountId) (cred : Credibility T) :
    (release s account cred).registry = s.registry := by
  cases cred <;> rfl

theorem registry_honour (s : Store T) (account : T.AccountId) (cred : Credibility T) :
    (honour s account cred).registry = s.registry := by
  cases cred <;> rfl

theorem Effect.use (h : Effect env s who call s') : Use s s'.registry := by
  cases h with
  | applied _ _ => exact .same
  | referred _ _ _ _ _ _ => exact .same
  | invited _ => exact .same
  | rerolled _ => exact .same
  | committed _ _ hreserved _ _ _ => exact .reserved hreserved
  | submitted _ _ _ => exact .same
  | allocated _ _ _ => exact .same
  | timedOut hget _ hcancelled => exact .cancelled (mem_of_candidate hget rfl) hcancelled
  | @flaked account cred _ _ _ =>
    show Use s (release s account cred).registry
    rw [registry_release]
    exact .same
  | registered hreg =>
    obtain ⟨key, hrecognized⟩ := hreg.recognized
    exact .recognized (mem_of_candidate hreg.proven rfl) hrecognized
  | ticketSet _ _ => exact .same
  | ticketCancelled _ => exact .same
  | @rewarded _ _ _ _ t _ hframe =>
    show Use s t.registry
    rw [hframe.registry]
    exact .same
  | frame hframe =>
    rw [hframe.registry]
    exact .same

theorem Judged.use {ticket : Nat} {judgement : Judgement} (h : Judged s ticket account judgement s') :
    Use s s'.registry := by
  cases h with
  | contempt hawaits _ hcancelled => exact .cancelled (mem_of_candidate hawaits.1 rfl) hcancelled
  | exhausted hawaits _ _ hcancelled => exact .cancelled (mem_of_candidate hawaits.1 rfl) hcancelled
  | retried _ _ _ _ => exact .same
  | initDone _ _ _ => exact .same
  | @proven selection hawaits _ _ =>
    show Use s (honour { s with allocationCount := s.allocationCount - 1 } account selection.cred).registry
    rw [registry_honour]
    exact .same

/-! ### Ids that candidates get -/

theorem reservedIds_congr (h : s'.candidates = s.candidates) : s'.reservedIds = s.reservedIds := by
  rw [Store.reservedIds, Store.reservedIds, h]

variable (account) in
theorem reservedIds_insert {status : Candidate T} (h : s'.candidates = s.candidates.insert account status)
    (hid : id ∈ s'.reservedIds) : status.reserved = some id ∨ id ∈ s.reservedIds := by
  obtain ⟨b, status', hget, hstatus⟩ := mem_reservedIds.mp hid
  rw [h, StorageMap.get_insert] at hget
  split at hget
  · cases hget
    exact .inl hstatus
  · exact .inr (mem_of_candidate hget hstatus)

variable (account) in
theorem reservedIds_remove (h : s'.candidates = s.candidates.remove account) (hid : id ∈ s'.reservedIds) :
    id ∈ s.reservedIds := by
  obtain ⟨b, status, hget, hstatus⟩ := mem_reservedIds.mp hid
  rw [h] at hget
  exact mem_of_candidate (StorageMap.get_of_get_remove hget) hstatus

/-- A candidate keeps the id that it has. -/
theorem reservedIds_keep {old new : Candidate T} (hget : s.candidates.get account = some old)
    (h : s'.candidates = s.candidates.insert account new) (hreserved : new.reserved = old.reserved)
    (hid : id ∈ s'.reservedIds) : id ∈ s.reservedIds := by
  rcases reservedIds_insert account h hid with hnew | hid
  · exact mem_of_candidate hget (hreserved ▸ hnew)
  · exact hid

/-- A call gives an id to a candidate only if it reserves it. -/
theorem Effect.reservedIds (h : Effect env s who call s') (hid : id ∈ s'.reservedIds) :
    id ∈ s.reservedIds ∨ ∃ choice requireId, call = .commit choice requireId ∧
      reserveId s.registry requireId = .ok (id, s'.registry) := by
  cases h with
  | applied _ _ => exact .inl ((reservedIds_insert _ rfl hid).resolve_left nofun)
  | referred _ _ _ _ _ _ => exact .inl ((reservedIds_insert _ rfl hid).resolve_left nofun)
  | invited _ => exact .inl ((reservedIds_insert _ rfl hid).resolve_left nofun)
  | rerolled hget => exact .inl (reservedIds_keep hget rfl (by rfl) hid)
  | @committed account choice requireId cred entropy since id' registry design allocation world len count hget _
      hreserved _ _ _ =>
    rcases reservedIds_insert account rfl hid with hnew | hid
    · cases hnew
      exact .inr ⟨choice, requireId, rfl, hreserved⟩
    · exact .inl hid
  | submitted hget _ _ => exact .inl (reservedIds_keep hget rfl (by rfl) hid)
  | allocated hget _ _ => exact .inl (reservedIds_keep hget rfl (by rfl) hid)
  | @timedOut _ account selection registry hget _ hcancelled =>
    refine .inl ((reservedIds_congr (candidates_forfeit_bad s account selection.cred)) ▸ ?_)
    exact reservedIds_remove account rfl hid
  | @flaked account cred _ _ hget =>
    refine .inl ((reservedIds_congr (candidates_release s account cred)) ▸ ?_)
    exact reservedIds_remove account rfl hid
  | registered hreg => exact .inl (reservedIds_remove _ hreg.candidates hid)
  | ticketSet _ _ => exact .inl hid
  | ticketCancelled _ => exact .inl hid
  | @rewarded _ _ _ _ t _ hframe => exact .inl (reservedIds_congr hframe.candidates ▸ (hid : id ∈ t.reservedIds))
  | frame hframe => exact .inl (reservedIds_congr hframe.candidates ▸ hid)

theorem Judged.reservedIds {ticket : Nat} {judgement : Judgement} (h : Judged s ticket account judgement s')
    (hid : id ∈ s'.reservedIds) : id ∈ s.reservedIds := by
  cases h with
  | @contempt selection registry _ _ _ =>
    refine (reservedIds_congr (candidates_forfeit_contemptuous s account selection.cred)) ▸ ?_
    exact reservedIds_remove account rfl hid
  | @exhausted selection registry _ _ _ _ =>
    refine (reservedIds_congr (candidates_forfeit_bad s account selection.cred)) ▸ ?_
    exact reservedIds_remove account rfl hid
  | retried hawaits _ _ _ => exact reservedIds_keep hawaits.1 rfl (by rfl) hid
  | initDone hawaits _ _ => exact reservedIds_keep hawaits.1 rfl (by rfl) hid
  | @proven selection hawaits _ _ =>
    have hcandidates : (honour { s with allocationCount := s.allocationCount - 1 } account selection.cred).candidates =
        s.candidates := candidates_honour { s with allocationCount := s.allocationCount - 1 } account selection.cred
    rw [← reservedIds_congr hcandidates]
    have hget : (honour { s with allocationCount := s.allocationCount - 1 } account selection.cred).candidates.get
        account = some (.selected selection) := by
      rw [hcandidates]
      exact hawaits.1
    exact reservedIds_keep hget rfl (by rfl) hid

/-! ### Ids of others -/

/-- The id is reserved, and no candidate's. -/
def Held (s : Store T) (id : Nat) : Prop := s.registry.reservedPersonalId.get id = some () ∧ id ∉ s.reservedIds

theorem onward_reserveId {registry registry' : People.Store T.people} {requireId : Option Nat}
    (hok : reserveId registry requireId = .ok (id, registry')) : People.Onward none registry registry' := by
  cases requireId with
  | some required =>
    simp only [reserveId, bind_eq_ok, mapError_eq_ok, pure_eq_ok] at hok
    obtain ⟨renewed, hrenewed, heq⟩ := hok
    cases heq
    exact People.onward_renewIdReservation hrenewed
  | none =>
    cases hok
    exact People.onward_reserveNewId registry

theorem Use.held {registry : People.Store T.people} (h : Use s registry) (hheld : Held s id) :
    registry.reservedPersonalId.get id = some () := by
  cases h with
  | same => exact hheld.1
  | reserved hreserved => exact (onward_reserveId hreserved).reserved id nofun hheld.1
  | cancelled hmem hcancelled =>
    refine (People.onward_cancelIdReservation hcancelled).reserved id (fun heq => ?_) hheld.1
    exact hheld.2 (Option.some.inj heq ▸ hmem)
  | recognized hmem hrecognized =>
    refine (People.onward_recognizePersonhood hrecognized).reserved id (fun heq => ?_) hheld.1
    exact hheld.2 (Option.some.inj heq ▸ hmem)

namespace Held

theorem effect (hheld : Held s id) (hb : People.Bindings s.registry)
    (hids : s.registry.nextPersonalId + call.reserved ≤ U64.max) (h : Effect env s who call s') : Held s' id := by
  refine ⟨h.use.held hheld, fun hmem => ?_⟩
  rcases h.reservedIds hmem with hmem | ⟨choice, requireId, rfl, hreserved⟩
  · exact hheld.2 hmem
  · -- What is reserved anew was not reserved.
    obtain ⟨hnone, -⟩ := reserveId_ok hb (fun hnew => by rwa [hnew] at hids) hreserved
    cases hnone.symm.trans hheld.1

theorem judged (hheld : Held s id) {ticket : Nat} {judgement : Judgement} (h : Judged s ticket account judgement s') :
    Held s' id :=
  ⟨h.use.held hheld, fun hmem => hheld.2 (h.reservedIds hmem)⟩

theorem onward (hheld : Held s id) {registry : People.Store T.people} {taken : Option Nat} (htaken : taken ≠ some id)
    (h : People.Onward taken s.registry registry) : Held { s with registry := registry } id :=
  ⟨h.reserved id htaken hheld.1, hheld.2⟩

/-- Whatever proof of ink does, and the people pallet of its own. -/
theorem step (hheld : Held c.store id) (hb : People.Bindings c.store.registry) (hids : LeavesIds c a)
    (hspared : ∀ action, a = .people action → action.taken ≠ some id) (h : Step c a c') : Held c'.store id := by
  cases h with
  | @call _ call t s' hcall hprepared heffect =>
    rw [LeavesIds, reserved_of_asCall hcall] at hids
    obtain ⟨nonces, rfl⟩ := hprepared
    have ht : Held { c.store with registry := { c.store.registry with nonces := nonces } } id := hheld
    rcases heffect with rfl | heffect
    · exact ht
    · exact ht.effect (hb.frame _ _ nonces) hids heffect
  | @judged ticket judgement case s' _ hjudged =>
    have hclosed : Held (closeCase c.store ticket) id := hheld
    rcases hjudged with rfl | hjudged
    · exact hclosed
    · exact hclosed.judged hjudged
  | @people action d _ hexec =>
    obtain ⟨registry, happlied, hstore⟩ := People.exec_ok hexec
    subst hstore
    have hleft : People.LeavesIds ⟨c.store.registry, c.env.people⟩ action := hids
    exact hheld.onward (hspared action rfl) (People.onward_apply hb hleft happlied)
  | elsewhere => exact hheld

end Held
end Individuality.ProofOfInk
