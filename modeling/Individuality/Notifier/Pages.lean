import Individuality.Notifier.Effects
import Individuality.Support.Circular

/-! No change of a ring root is lost on its way into a batch.

Pages are sent in the order in which they are filled, so a page has a place in that
order, and its index is the place modulo `2 ^ 16`. `Ledger` notes the changes with
the places of their pages, and what was sealed at each place; `Kept` says that a
change is on its page until that page is sent, and in what was sealed from then on.
Nothing keeps the write page from coming round to the send page, so runs are taken in
which it does not (`KeepsApart`). -/
namespace Individuality.Notifier
open Support Replication
open Members (Identifier RingExponent)
variable {R : Type} {T : Config R}

/-- A page that was sent: how many subscribers there were, and what was sealed. -/
structure SentPage {R : Type} (T : Config R) where
  subscribers : Nat
  sealed : StorageMap Identifier (BoundedVec Nat T.maxUpdatesPerBatch)

/-- A change of a ring root: how many pages had been sent before it, and the place of its page
among the pages sent. -/
structure Change where
  identifier : Identifier
  ringIndex : Nat
  sentBefore : Nat
  place : Nat

structure Ledger {R : Type} (T : Config R) where
  sent : List (SentPage T)
  changes : List Change

/-- How many pages the write page is ahead of the send page. -/
def Store.ahead (s : Store T) : Nat := (s.pageState.writePage - s.pageState.sendPage).toNat

def noteLedger (s : Store T) (a : Action T) (s' : Store T) (l : Ledger T) : Ledger T :=
  match a.2 with
  | .enqueueUpdates _ => { l with sent := l.sent ++ [⟨s.subscribers.size, s'.sealedBatchIndices⟩] }
  | .onRingRootChange identifier ringIndex =>
    { l with changes := ⟨identifier, ringIndex, l.sent.length, l.sent.length + s'.ahead⟩ :: l.changes }
  | _ => l

/-- A page is opened only where it is not the one to be sent next, and has room for a key. -/
def KeepsApart (s : Store T) (a : Action T) : Prop :=
  match a.2 with
  | .onRingRootChange identifier ringIndex =>
    s.pendingUpdates.contains (s.pageState.writePage, identifier, ringIndex) = false →
    T.maxUpdatesPerBatch ≤ s.pageCount s.pageState.writePage →
    0 < T.maxUpdatesPerBatch ∧ s.pageState.writePage + 1#16 ≠ s.pageState.sendPage
  | _ => True

instance (s : Store T) (a : Action T) : Decidable (KeepsApart s a) := by
  obtain ⟨env, call⟩ := a
  apply Call.casesOn (motive := fun call => Decidable (KeepsApart s (env, call))) call <;> intros <;>
    dsimp only [KeepsApart] <;> infer_instance

/-- The pages of a store, and the counts of their keys. -/
structure Filed (s : Store T) : Prop where
  count_eq : ∀ page, s.pageCount page = (s.pageUpdates page).length
  count_le : ∀ page, s.pageCount page ≤ T.maxUpdatesPerBatch
  arc : ∀ page key, s.pendingUpdates.contains (page, key) = true →
    InArc s.pageState.sendPage s.pageState.writePage page

theorem Filed.of_same {s s' : Store T} (h : Filed s) (hstate : s'.pageState = s.pageState)
    (hpending : s'.pendingUpdates = s.pendingUpdates)
    (hcounts : s'.pageUpdatesCount = s.pageUpdatesCount) : Filed s' := by
  obtain ⟨h₁, h₂, h₃⟩ := h
  unfold Store.pageCount Store.pageUpdates at h₁
  unfold Store.pageCount at h₂
  constructor
  · unfold Store.pageCount Store.pageUpdates
    rwa [hcounts, hpending]
  · unfold Store.pageCount
    rwa [hcounts]
  · rwa [hpending, hstate]

structure Kept (s : Store T) (l : Ledger T) : Prop extends Filed s where
  sendPage_eq : s.pageState.sendPage = BitVec.ofNat 16 l.sent.length
  sentBefore_le : ∀ c ∈ l.changes, c.sentBefore ≤ c.place
  place_le : ∀ c ∈ l.changes, c.place ≤ l.sent.length + s.ahead
  pending : ∀ c ∈ l.changes, l.sent.length ≤ c.place →
    s.pendingUpdates.contains (BitVec.ofNat 16 c.place, c.identifier, c.ringIndex) = true
  sealed : ∀ c ∈ l.changes, ∀ page, l.sent[c.place]? = some page → page.subscribers ≠ 0 →
    ∃ indices, page.sealed.get c.identifier = some indices ∧ c.ringIndex ∈ indices.toList

theorem Kept.of_same {s s' : Store T} {l : Ledger T} (h : Kept s l)
    (hstate : s'.pageState = s.pageState) (hpending : s'.pendingUpdates = s.pendingUpdates)
    (hcounts : s'.pageUpdatesCount = s.pageUpdatesCount) : Kept s' l := by
  refine ⟨h.toFiled.of_same hstate hpending hcounts, ?_, h.sentBefore_le, ?_, ?_, h.sealed⟩
  · rw [hstate, h.sendPage_eq]
  · unfold Store.ahead
    rw [hstate]
    exact h.place_le
  · rw [hpending]
    exact h.pending

theorem Kept.genesis : Kept (Store.genesis T) ⟨[], []⟩ where
  count_eq := fun _ => rfl
  count_le := fun _ => Nat.zero_le _
  arc := fun _ _ h => nomatch h
  sendPage_eq := rfl
  sentBefore_le := fun _ h => (List.not_mem_nil h).elim
  place_le := fun _ h => (List.not_mem_nil h).elim
  pending := fun _ h => (List.not_mem_nil h).elim
  sealed := fun _ h => (List.not_mem_nil h).elim

/-! ### Noting a change -/

section Noting
variable {env : Env T} {s : Store T} {identifier : Identifier} {ringIndex : Nat}

/-- The page past the write page holds no key yet. -/
theorem Filed.pageUpdates_succ (h : Filed s)
    (hne : s.pageState.writePage + 1#16 ≠ s.pageState.sendPage) :
    s.pageUpdates (s.pageState.writePage + 1#16) = [] := by
  rw [List.eq_nil_iff_forall_not_mem]
  intro key hmem
  exact not_inArc_succ hne (h.arc _ key ((s.mem_pageUpdates _ key).mp hmem))

/-- The page on which a new key is noted is the write page or the empty one after it. -/
theorem Filed.notePage_spec (h : Filed s)
    (hG : T.maxUpdatesPerBatch ≤ s.pageCount s.pageState.writePage →
      0 < T.maxUpdatesPerBatch ∧ s.pageState.writePage + 1#16 ≠ s.pageState.sendPage) :
    s.pageCount s.notePage < T.maxUpdatesPerBatch ∧
      (s.notePage = s.pageState.writePage ∨ s.notePage = s.pageState.writePage + 1#16 ∧
        s.pageState.writePage + 1#16 ≠ s.pageState.sendPage) := by
  unfold Store.notePage
  split
  · rename_i hfull
    obtain ⟨hpos, hne⟩ := hG hfull
    rw [h.count_eq, h.pageUpdates_succ hne]
    exact ⟨hpos, .inr ⟨rfl, hne⟩⟩
  · rename_i hroom
    exact ⟨Nat.lt_of_not_le hroom, .inl rfl⟩

theorem Filed.not_contains_notePage (h : Filed s)
    (hnew : ¬ s.pendingUpdates.contains (s.pageState.writePage, identifier, ringIndex) = true)
    (hpage : s.notePage = s.pageState.writePage ∨ s.notePage = s.pageState.writePage + 1#16 ∧
      s.pageState.writePage + 1#16 ≠ s.pageState.sendPage) :
    s.pendingUpdates.get (s.notePage, identifier, ringIndex) = none := by
  rw [← Option.not_isSome_iff_eq_none]
  rcases hpage with hpage | ⟨hpage, hne⟩
  · rw [hpage]
    exact hnew
  · rw [hpage]
    intro hmem
    have := (s.mem_pageUpdates _ (identifier, ringIndex)).mpr hmem
    rw [h.pageUpdates_succ hne] at this
    cases this

theorem Filed.onRingRootChange (h : Filed s)
    (hG : KeepsApart s (env, .onRingRootChange identifier ringIndex)) :
    Filed (s.onRingRootChange identifier ringIndex) := by
  by_cases hnew : s.pendingUpdates.contains (s.pageState.writePage, identifier, ringIndex) = true
  · rw [Store.onRingRootChange_of_noted hnew]
    exact h
  obtain ⟨hroom, hpage⟩ := h.notePage_spec (hG (by simpa using hnew))
  have hfresh := h.not_contains_notePage hnew hpage
  have hsat : U32.saturatingAdd (s.pageCount s.notePage) 1 = s.pageCount s.notePage + 1 :=
    U32.saturatingAdd_eq (Nat.le_trans hroom T.maxUpdatesPerBatch_le)
  have hcount : ∀ page, (s.onRingRootChange identifier ringIndex).pageCount page =
      if page = s.notePage then s.pageCount s.notePage + 1 else s.pageCount page := by
    intro page
    rw [Store.onRingRootChange_of_new hnew, hsat]
    show ((s.pageUpdatesCount.insert s.notePage _).get page).getD 0 = _
    rw [StorageMap.get_insert]
    split
    · rfl
    · rfl
  constructor
  · intro page
    have hlength := s.pendingUpdates.countOf_insert (fun k _ => decide (k.1 = page))
      (s.notePage, identifier, ringIndex) ()
    simp only [StorageMap.countAt, hfresh, Option.any_none, Bool.false_eq_true, if_false,
      Nat.add_zero, decide_eq_true_eq, ← Store.length_pageUpdates] at hlength
    have hkeys : ((s.onRingRootChange identifier ringIndex).pageUpdates page).length =
        (s.pageUpdates page).length + if s.notePage = page then 1 else 0 := by
      rw [Store.length_pageUpdates, Store.onRingRootChange_of_new hnew]
      exact hlength
    rw [hcount, hkeys, ← h.count_eq]
    by_cases heq : page = s.notePage
    · rw [if_pos heq, if_pos heq.symm, heq]
    · rw [if_neg heq, if_neg (Ne.symm heq), Nat.add_zero]
  · intro page
    rw [hcount]
    split
    · exact hroom
    · exact h.count_le page
  · intro page key hmem
    rw [Store.onRingRootChange_of_new hnew] at hmem ⊢
    rw [StorageMap.contains, StorageMap.get_insert] at hmem
    show InArc s.pageState.sendPage s.notePage page
    split at hmem
    · rename_i heq
      obtain rfl : page = s.notePage := congrArg Prod.fst heq
      exact inArc_tail _ _
    · have hold := h.arc page key hmem
      rcases hpage with hpage | ⟨hpage, hne⟩
      · rw [hpage]
        exact hold
      · rw [hpage]
        exact hold.extend hne

/-- The write page never falls back. -/
theorem Filed.ahead_le (h : Filed s)
    (hG : KeepsApart s (env, .onRingRootChange identifier ringIndex)) :
    s.ahead ≤ (s.onRingRootChange identifier ringIndex).ahead := by
  by_cases hnew : s.pendingUpdates.contains (s.pageState.writePage, identifier, ringIndex) = true
  · rw [Store.onRingRootChange_of_noted hnew]
  obtain ⟨-, hpage⟩ := h.notePage_spec (hG (by simpa using hnew))
  rw [Store.onRingRootChange_of_new hnew]
  show _ ≤ (s.notePage - s.pageState.sendPage).toNat
  rcases hpage with hpage | ⟨hpage, hne⟩
  · rw [hpage]
    exact le_refl s.ahead
  · rw [hpage, toNat_add_one_sub hne]
    exact Nat.le_succ s.ahead

/-- A key that is noted is on the write page. -/
theorem contains_onRingRootChange (s : Store T) (identifier : Identifier) (ringIndex : Nat) :
    (s.onRingRootChange identifier ringIndex).pendingUpdates.contains
      ((s.onRingRootChange identifier ringIndex).pageState.writePage, identifier, ringIndex) = true := by
  by_cases hnew : s.pendingUpdates.contains (s.pageState.writePage, identifier, ringIndex) = true
  · rw [Store.onRingRootChange_of_noted hnew]
    exact hnew
  · rw [Store.onRingRootChange_of_new hnew]
    show ((s.pendingUpdates.insert (s.notePage, _) ()).get _).isSome = true
    rw [StorageMap.get_insert, if_pos rfl]
    rfl

theorem contains_of_contains {page : UpdatesPageIndex} {key : Identifier × Nat}
    (h : s.pendingUpdates.contains (page, key) = true) :
    (s.onRingRootChange identifier ringIndex).pendingUpdates.contains (page, key) = true := by
  by_cases hnew : s.pendingUpdates.contains (s.pageState.writePage, identifier, ringIndex) = true
  · rw [Store.onRingRootChange_of_noted hnew]
    exact h
  · rw [Store.onRingRootChange_of_new hnew]
    show ((s.pendingUpdates.insert (s.notePage, _) ()).get _).isSome = true
    rw [StorageMap.get_insert]
    split
    · rfl
    · exact h

theorem sendPage_onRingRootChange (s : Store T) (identifier : Identifier) (ringIndex : Nat) :
    (s.onRingRootChange identifier ringIndex).pageState.sendPage = s.pageState.sendPage := by
  by_cases hnew : s.pendingUpdates.contains (s.pageState.writePage, identifier, ringIndex) = true
  · rw [Store.onRingRootChange_of_noted hnew]
  · rw [Store.onRingRootChange_of_new hnew]

theorem Kept.onRingRootChange {l : Ledger T} (h : Kept s l)
    (hG : KeepsApart s (env, .onRingRootChange identifier ringIndex)) :
    Kept (s.onRingRootChange identifier ringIndex)
      (noteLedger s (env, .onRingRootChange identifier ringIndex)
        (s.onRingRootChange identifier ringIndex) l) := by
  have hsend : (s.onRingRootChange identifier ringIndex).pageState.sendPage =
      BitVec.ofNat 16 l.sent.length := by rw [sendPage_onRingRootChange, h.sendPage_eq]
  have hahead := h.ahead_le hG
  constructor
  · exact h.toFiled.onRingRootChange hG
  · exact hsend
  · intro c hc
    rcases List.mem_cons.mp hc with rfl | hc
    · exact Nat.le_add_right _ _
    · exact h.sentBefore_le c hc
  · intro c hc
    rcases List.mem_cons.mp hc with rfl | hc
    · exact le_refl _
    · exact (h.place_le c hc).trans (Nat.add_le_add_left hahead _)
  · intro c hc hplace
    rcases List.mem_cons.mp hc with rfl | hc
    · rw [Store.ahead, ofNat_add_sub hsend]
      exact contains_onRingRootChange s identifier ringIndex
    · exact contains_of_contains (h.pending c hc hplace)
  · intro c hc page hpage
    rcases List.mem_cons.mp hc with rfl | hc
    · -- The page of the new key is yet to be sent.
      exact absurd (List.getElem?_eq_some_iff.mp hpage).1 (Nat.not_lt.mpr (Nat.le_add_right _ _))
    · exact h.sealed c hc page hpage

end Noting

/-! ### Sending a page -/

section Sending
variable {env : Env T} {s : Store T} {l : Ledger T}

theorem Filed.get_sentPages (h : Filed s) (key : UpdatesPageIndex × Identifier × Nat) :
    (s.sentPages env).pendingUpdates.get key =
      if key.1 = s.pageState.sendPage then none else s.pendingUpdates.get key := by
  have hcount : s.pendingUpdates.countOf (fun k _ => decide (k.1 = s.pageState.sendPage)) ≤
      T.maxUpdatesPerBatch := by
    rw [← Store.length_pageUpdates, ← h.count_eq]
    exact h.count_le _
  unfold Store.sentPages
  rw [Store.sealWritePage_eq]
  show (s.pendingUpdates.clear _ _).get key = _
  rw [StorageMap.get_clear hcount]
  simp only [decide_eq_true_eq]

theorem sendPage_sentPages (env : Env T) (s : Store T) :
    (s.sentPages env).pageState.sendPage = s.pageState.sendPage + 1#16 := by
  unfold Store.sentPages Store.sealWritePage
  split
  · rfl
  · rfl

theorem writePage_sentPages (env : Env T) (s : Store T) :
    (s.sentPages env).pageState.writePage =
      if s.pageState.sendPage = s.pageState.writePage then s.pageState.writePage + 1#16
      else s.pageState.writePage := by
  unfold Store.sentPages Store.sealWritePage
  split
  · rfl
  · rfl

/-- The write page is one page less ahead, unless it was the page that was sent. -/
theorem ahead_sentPages (env : Env T) (s : Store T) : s.ahead ≤ (s.sentPages env).ahead + 1 ∧
    (s.pageState.sendPage = s.pageState.writePage → s.ahead = 0) := by
  unfold Store.ahead
  rw [sendPage_sentPages, writePage_sentPages]
  split
  · rename_i heq
    rw [heq, BitVec.sub_self]
    exact ⟨Nat.zero_le _, fun _ => rfl⟩
  · rename_i hne
    exact ⟨(toNat_sub_head (Ne.symm hne)).le, fun heq => absurd heq hne⟩

theorem Filed.sentPages (h : Filed s) (env : Env T) : Filed (s.sentPages env) := by
  have hcount : ∀ page, (s.sentPages env).pageCount page =
      if page = s.pageState.sendPage then 0 else s.pageCount page := by
    intro page
    unfold Store.sentPages
    rw [Store.sealWritePage_eq]
    show ((s.pageUpdatesCount.remove s.pageState.sendPage).get page).getD 0 = _
    rw [StorageMap.get_remove]
    split
    · rfl
    · rfl
  constructor
  · intro page
    rw [hcount]
    split
    · rename_i heq
      rw [eq_comm, List.length_eq_zero_iff, List.eq_nil_iff_forall_not_mem]
      intro key hmem
      rw [Store.mem_pageUpdates, StorageMap.contains, h.get_sentPages, if_pos heq] at hmem
      cases hmem
    · rename_i hne
      rw [h.count_eq, Store.length_pageUpdates, Store.length_pageUpdates]
      refine StorageMap.countOf_eq_of_get fun k v hk => ?_
      obtain rfl : k.1 = page := of_decide_eq_true hk
      rw [h.get_sentPages, if_neg hne]
  · intro page
    rw [hcount]
    split
    · exact Nat.zero_le _
    · exact h.count_le page
  · intro page key hmem
    rw [StorageMap.contains, h.get_sentPages] at hmem
    split at hmem
    · cases hmem
    · rename_i hne
      have hold := h.arc page key hmem
      rw [sendPage_sentPages, writePage_sentPages]
      split
      · rename_i heq
        rw [← heq] at hold
        exact absurd (inArc_self_iff.mp hold) hne
      · rename_i hsend
        exact hold.advance hsend hne

/-- What a change asks of the pages: it is on its page, unless that is the one sent now. -/
theorem Kept.place_cases (h : Kept s l) {c : Change} (hc : c ∈ l.changes) :
    c.place < l.sent.length ∨ c.place = l.sent.length ∨
      BitVec.ofNat 16 c.place ≠ s.pageState.sendPage ∧ l.sent.length + 1 ≤ c.place := by
  rcases Nat.lt_trichotomy c.place l.sent.length with hlt | heq | hgt
  · exact .inl hlt
  · exact .inr (.inl heq)
  · have hplace := h.place_le c hc
    have hturn : s.ahead < 2 ^ 16 := (s.pageState.writePage - s.pageState.sendPage).isLt
    rw [h.sendPage_eq]
    exact .inr (.inr ⟨ofNat_ne hgt (by omega), hgt⟩)

theorem Kept.enqueueUpdates (h : Kept s l) (env : Env T) (page : UpdatesPageIndex) :
    Kept (s.enqueueUpdates env)
      (noteLedger s (env, .enqueueUpdates page) (s.enqueueUpdates env) l) := by
  -- The pages are the same whether a batch is sealed or not.
  have hpages : (s.enqueueUpdates env).pageState = (s.sentPages env).pageState ∧
      (s.enqueueUpdates env).pendingUpdates = (s.sentPages env).pendingUpdates ∧
      (s.enqueueUpdates env).pageUpdatesCount = (s.sentPages env).pageUpdatesCount := by
    rcases eq_or_ne s.subscribers.size 0 with hzero | hpos
    · rw [Store.enqueueUpdates_of_none env hzero]
      exact ⟨rfl, rfl, rfl⟩
    · rw [Store.enqueueUpdates_of_pos env hpos]
      exact ⟨rfl, rfl, rfl⟩
  obtain ⟨hstate, hpending, hcounts⟩ := hpages
  have hfiled := h.toFiled.sentPages env
  have hahead : (s.enqueueUpdates env).ahead = (s.sentPages env).ahead := by
    rw [Store.ahead, hstate]
    rfl
  have hlength : (noteLedger s (env, .enqueueUpdates page) (s.enqueueUpdates env) l).sent.length =
      l.sent.length + 1 := List.length_append
  constructor
  · exact hfiled.of_same hstate hpending hcounts
  · rw [hstate, sendPage_sentPages, h.sendPage_eq, hlength, BitVec.ofNat_add]
  · exact h.sentBefore_le
  · intro c hc
    have hle := h.place_le c hc
    have hstep := ahead_sentPages env s
    rw [hlength, hahead]
    omega
  · intro c hc hplace
    rw [hlength] at hplace
    rcases h.place_cases hc with hlt | heq | ⟨hne, -⟩
    · omega
    · omega
    · rw [StorageMap.contains, hpending, h.get_sentPages, if_neg hne]
      exact h.pending c hc (Nat.le_of_succ_le hplace)
  · intro c hc sentPage hget hsubscribers
    rcases h.place_cases hc with hlt | heq | ⟨-, hgt⟩
    · refine h.sealed c hc sentPage ?_ hsubscribers
      rw [← hget]
      exact (List.getElem?_append_left hlt).symm
    · -- The change is on the page that is sent.
      have hnew : some ⟨s.subscribers.size, (s.enqueueUpdates env).sealedBatchIndices⟩ = some sentPage := by
        rw [← hget, heq]
        exact List.getElem?_concat_length.symm
      cases hnew
      have hmem := h.pending c hc heq.ge
      rw [heq, ← h.sendPage_eq, ← Store.mem_pageUpdates] at hmem
      have hle := h.count_le s.pageState.sendPage
      rw [h.count_eq] at hle
      obtain ⟨indices, hindices, hlist⟩ := Store.mem_sealed s.sealedBatchIndices hle hmem
      refine ⟨indices, ?_, ?_⟩
      · rw [Store.enqueueUpdates_of_pos env hsubscribers]
        exact hindices
      · rw [hlist]
        exact Store.mem_changedIndicesOf.mpr hmem
    · have hlt := (List.getElem?_eq_some_iff.mp hget).1
      rw [hlength] at hlt
      omega

end Sending

/-! ### Runs -/

theorem Kept.step {s s' : Store T} {l : Ledger T} {a : Action T} (h : Kept s l) (hG : KeepsApart s a)
    (ha : s.execAction a = .ok s') : Kept s' (noteLedger s a s' l) := by
  obtain ⟨env, call⟩ := a
  obtain ⟨sent, hstep⟩ := Store.execAction_step ha
  cases hstep with
  | subscribe => exact h.of_same rfl rfl rfl
  | unsubscribe paraId _ info =>
    rw [Store.leaveBatch_eq]
    exact h.of_same rfl rfl rfl
  | requestReplay => exact h.of_same rfl rfl rfl
  | enqueueUpdates => exact h.enqueueUpdates env _
  | served paraId batch =>
    rw [Store.markServed_eq]
    exact h.of_same rfl rfl rfl
  | unserved => exact h
  | sendInitPage => exact h.of_same rfl rfl rfl
  | abandonStuckBatch => exact h.of_same rfl rfl rfl
  | onRingRootChange => exact h.onRingRootChange hG

/-- A change of a ring root is on its page until that page is sent, and is then in the batch that the
page becomes; the counts of the pages are right, and the pages with keys lie on the arc from the
send page to the write page. -/
theorem no_change_lost (w : Store T × Ledger T)
    (h : Reaches (noting Store.execAction noteLedger) (fun w a => KeepsApart w.1 a)
      (Store.genesis T, ⟨[], []⟩) w) :
    (∀ page, w.1.pageCount page = (w.1.pageUpdates page).length ∧
      w.1.pageCount page ≤ T.maxUpdatesPerBatch) ∧
    (∀ page, w.1.pageUpdates page ≠ [] → InArc w.1.pageState.sendPage w.1.pageState.writePage page) ∧
    ∀ c ∈ w.2.changes, c.sentBefore ≤ c.place ∧
      (w.2.sent.length ≤ c.place →
        (c.identifier, c.ringIndex) ∈ w.1.pageUpdates (BitVec.ofNat 16 c.place)) ∧
      ∀ page, w.2.sent[c.place]? = some page → page.subscribers ≠ 0 →
        ∃ indices, page.sealed.get c.identifier = some indices ∧ c.ringIndex ∈ indices.toList := by
  have hkept : Kept w.1 w.2 := h.noted (I := Kept) .genesis fun s l a s' hs hG ha => hs.step hG ha
  refine ⟨fun page => ⟨hkept.count_eq page, hkept.count_le page⟩, fun page hne => ?_, fun c hc => ?_⟩
  · obtain ⟨key, hmem⟩ := List.exists_mem_of_ne_nil _ hne
    exact hkept.arc page key ((w.1.mem_pageUpdates page key).mp hmem)
  · refine ⟨hkept.sentBefore_le c hc, fun hplace => ?_, hkept.sealed c hc⟩
    exact (w.1.mem_pageUpdates _ _).mpr (hkept.pending c hc hplace)

/-- Three changes fill a page and open the next; the first page is sealed with the first two. -/
theorem no_change_lost_three : ∃ w : Store sampleConfig × Ledger sampleConfig,
    (w.2.changes.map Change.place = [1, 0, 0] ∧ w.2.sent.map SentPage.subscribers = [1]) ∧
    ∀ page, w.1.pageCount page = (w.1.pageUpdates page).length ∧ w.1.pageCount page ≤ 2 := by
  obtain ⟨w, hw, hplaces⟩ := exists_reaches (noting Store.execAction noteLedger)
    (fun w a => KeepsApart w.1 a) (Store.genesis sampleConfig, ⟨[], []⟩)
    [(sampleEnv, .subscribe 1 sampleCollections 0), (sampleEnv, .onRingRootChange (sampleId 0) 7),
      (sampleEnv, .onRingRootChange (sampleId 0) 8), (sampleEnv, .onRingRootChange (sampleId 0) 9),
      (sampleEnv, .enqueueUpdates 0)]
    (fun w => w.2.changes.map Change.place = [1, 0, 0] ∧
      w.2.sent.map SentPage.subscribers = [1]) (by decide)
  exact ⟨w, hplaces, (no_change_lost w hw).1⟩

/-! ### A page that comes round -/

/-- Changes of `2 * (k + 1)` rings without a page being sent: pages up to the `k`-th are full. -/
structure Flooded (k : Nat) (s : Store sampleConfig) : Prop where
  writePage : s.pageState.writePage = BitVec.ofNat 16 k
  full : ∀ page, page.toNat ≤ k → s.pageCount page = 2
  empty : ∀ page, k < page.toNat → s.pageCount page = 0
  fresh : ∀ page r, 2 * (k + 1) ≤ r → s.pendingUpdates.contains (page, sampleId 0, r) = false

/-- What a new key does to the counts and the keys. -/
theorem note_spec {s : Store sampleConfig} {r : Nat}
    (hnew : s.pendingUpdates.contains (s.pageState.writePage, sampleId 0, r) = false) :
    (s.onRingRootChange (sampleId 0) r).pageState.writePage = s.notePage ∧
    (∀ page, (s.onRingRootChange (sampleId 0) r).pageCount page =
      if page = s.notePage then U32.saturatingAdd (s.pageCount s.notePage) 1 else s.pageCount page) ∧
    ∀ page r', r' ≠ r → (s.onRingRootChange (sampleId 0) r).pendingUpdates.contains
      (page, sampleId 0, r') = s.pendingUpdates.contains (page, sampleId 0, r') := by
  rw [Store.onRingRootChange_of_new (by simp [hnew])]
  refine ⟨rfl, fun page => ?_, fun page r' hne => ?_⟩
  · show ((s.pageUpdatesCount.insert s.notePage _).get page).getD 0 = _
    rw [StorageMap.get_insert]
    split
    · rfl
    · rfl
  · show ((s.pendingUpdates.insert (s.notePage, _) ()).get _).isSome = _
    rw [StorageMap.get_insert, if_neg (by simp [hne])]
    rfl

/-- Two more changes fill the next page. -/
theorem Flooded.next {k : Nat} {s : Store sampleConfig} (h : Flooded k s) (hk : k + 1 < 2 ^ 16) :
    Flooded (k + 1) ((s.onRingRootChange (sampleId 0) (2 * (k + 1))).onRingRootChange (sampleId 0)
      (2 * (k + 1) + 1)) := by
  have hwrite : s.pageState.writePage.toNat = k := by
    rw [h.writePage, BitVec.toNat_ofNat, Nat.mod_eq_of_lt (Nat.lt_of_succ_lt hk)]
  have hnext : (BitVec.ofNat 16 (k + 1)).toNat = k + 1 := by
    rw [BitVec.toNat_ofNat, Nat.mod_eq_of_lt hk]
  have hpage : s.notePage = BitVec.ofNat 16 (k + 1) := by
    have hfull : sampleConfig.maxUpdatesPerBatch ≤ s.pageCount s.pageState.writePage :=
      (h.full _ hwrite.le).ge
    unfold Store.notePage
    rw [if_pos hfull, h.writePage, BitVec.ofNat_add]
  obtain ⟨hwrite₁, hcount₁, hkeys₁⟩ := note_spec (h.fresh s.pageState.writePage _ le_rfl)
  rw [hpage, h.empty _ (by omega)] at hcount₁
  rw [hpage] at hwrite₁
  generalize s.onRingRootChange (sampleId 0) (2 * (k + 1)) = t at hwrite₁ hcount₁ hkeys₁ ⊢
  have hpage₁ : t.notePage = BitVec.ofNat 16 (k + 1) := by
    unfold Store.notePage
    rw [hwrite₁, hcount₁, if_pos rfl]
    rfl
  obtain ⟨hwrite₂, hcount₂, hkeys₂⟩ := note_spec (s := t) (r := 2 * (k + 1) + 1) (by
    rw [hkeys₁ _ _ (by omega)]
    exact h.fresh _ _ (by omega))
  rw [hpage₁, hcount₁, if_pos rfl] at hcount₂
  rw [hpage₁] at hwrite₂
  constructor
  · exact hwrite₂
  · intro page hle
    rw [hcount₂]
    split
    · rfl
    · rename_i hne
      rw [hcount₁, if_neg hne]
      refine h.full page (Nat.le_of_lt_succ (lt_of_le_of_ne hle fun heq => hne ?_))
      exact BitVec.eq_of_toNat_eq (heq.trans hnext.symm)
  · intro page hlt
    have hne : page ≠ BitVec.ofNat 16 (k + 1) := by
      rintro rfl
      omega
    rw [hcount₂, if_neg hne, hcount₁, if_neg hne]
    exact h.empty page (Nat.lt_of_succ_lt hlt)
  · intro page r hr
    rw [hkeys₂ _ _ (by omega), hkeys₁ _ _ (by omega)]
    exact h.fresh page r (by omega)

theorem Flooded.start : Flooded 0 (((Store.genesis sampleConfig).onRingRootChange (sampleId 0)
    0).onRingRootChange (sampleId 0) 1) := by
  obtain ⟨hwrite₁, hcount₁, hkeys₁⟩ := note_spec (s := Store.genesis sampleConfig) (r := 0) rfl
  obtain ⟨hwrite₂, hcount₂, hkeys₂⟩ := note_spec
    (s := (Store.genesis sampleConfig).onRingRootChange (sampleId 0) 0) (r := 1) (hkeys₁ _ _ (by decide))
  have hpage : ((Store.genesis sampleConfig).onRingRootChange (sampleId 0) 0).notePage = 0#16 := rfl
  rw [hpage, hcount₁] at hcount₂
  constructor
  · exact hwrite₂
  · intro page hle
    obtain rfl : page = 0#16 := BitVec.eq_of_toNat_eq (Nat.le_zero.mp hle)
    exact hcount₂ 0#16
  · intro page hlt
    have hne : page ≠ 0#16 := by
      rintro rfl
      exact absurd hlt (Nat.lt_irrefl 0)
    rw [hcount₂, if_neg hne, hcount₁]
    exact if_neg hne
  · intro page r hr
    rw [hkeys₂ _ _ (by omega), hkeys₁ _ _ (by omega)]
    rfl

theorem exists_flooded {k : Nat} (hk : k < 2 ^ 16) : ∃ s : Store sampleConfig,
    Reaches Store.execAction (fun _ _ => True) (Store.genesis sampleConfig) s ∧ Flooded k s := by
  induction k with
  | zero =>
    refine ⟨_, ?_, Flooded.start⟩
    exact ((Reaches.refl _).tail (i := (sampleEnv, .onRingRootChange (sampleId 0) 0)) trivial rfl).tail
      (i := (sampleEnv, .onRingRootChange (sampleId 0) 1)) trivial rfl
  | succ k ih =>
    obtain ⟨s, hs, hflooded⟩ := ih (Nat.lt_of_succ_lt hk)
    refine ⟨_, ?_, hflooded.next hk⟩
    exact (hs.tail (i := (sampleEnv, .onRingRootChange (sampleId 0) (2 * (k + 1)))) trivial rfl).tail
      (i := (sampleEnv, .onRingRootChange (sampleId 0) (2 * (k + 1) + 1))) trivial rfl

/-- After `2 ^ 17` changes the write page comes round to the first page, which is full. -/
theorem no_change_lost_fails : ∃ s : Store sampleConfig,
    Reaches Store.execAction (fun _ _ => True) (Store.genesis sampleConfig) s ∧
      sampleConfig.maxUpdatesPerBatch < s.pageCount 0#16 := by
  obtain ⟨s, hs, h⟩ := exists_flooded (k := 2 ^ 16 - 1) (by decide)
  refine ⟨_, hs.tail (i := (sampleEnv, .onRingRootChange (sampleId 0) (2 ^ 17))) trivial rfl, ?_⟩
  have hfull : sampleConfig.maxUpdatesPerBatch ≤ s.pageCount s.pageState.writePage :=
    (h.full _ (Nat.le_of_lt_succ s.pageState.writePage.isLt)).ge
  have hpage : s.notePage = 0#16 := by
    unfold Store.notePage
    rw [if_pos hfull, h.writePage]
    rfl
  obtain ⟨-, hcount, -⟩ := note_spec (h.fresh s.pageState.writePage (2 ^ 17) (by decide))
  rw [hpage, h.full 0#16 (Nat.zero_le _)] at hcount
  rw [hcount, if_pos rfl]
  decide

end Individuality.Notifier
