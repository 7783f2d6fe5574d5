import Individuality.Game.Staging

/-! Retrieving: the second step of the shuffle.

While players are retrieved, each registered one is in each round either still
staged or at exactly one index below the round's bound (`Retrieving`). Retrieving a
player moves it from the one to the other and raises the bound of that round by one.
All rounds hold equally many staged players, so a turn finds one in every round or
in none, and once nobody is staged the indices are a bijection (`Shuffled`). -/
namespace Individuality.Game
open Support
variable {T : Config}

/-- Each registered player is staged or has an index below `bound`, in each round. The recognized
ones, `k` of them, have the first indices. -/
structure Retrieving (c : Core T) (note : T.PlayerId → Bool) (rounds : Nat) (bound : RoundIndex → Nat)
    (finished : Bool) : Prop where
  staged : ∀ b r h p, (c.staged b).get (r, h) = some p →
    r < rounds ∧ c.isRegistered p = true ∧ note p = b ∧ ∀ i, c.indexToPlayer.get (r, i) ≠ some p
  unique : ∀ b r h h' p, (c.staged b).get (r, h) = some p → (c.staged b).get (r, h') = some p → h = h'
  indexed : ∀ r i p, c.indexToPlayer.get (r, i) = some p → r < rounds ∧ i < bound r ∧
    ∃ indices, c.playerToIndex.get p = some indices ∧ indices.toList[r]? = some i
  index_some : ∀ r i, r < rounds → i < bound r → ∃ p, c.indexToPlayer.get (r, i) = some p
  indices : ∀ p indices, c.playerToIndex.get p = some indices →
    c.isRegistered p = true ∧ indices.length = rounds
  complete : ∀ p r, c.isRegistered p = true → r < rounds →
    (∃ h, (c.staged (note p)).get (r, h) = some p) ∨ ∃ i, c.indexToPlayer.get (r, i) = some p
  count : ∀ r, r < rounds → bound r + c.stagedCount true r + c.stagedCount false r = c.registeredCount
  first : ∃ k, (∀ r i p, c.indexToPlayer.get (r, i) = some p → (note p = true ↔ i < k)) ∧
    ∀ r, r < rounds →
      if finished then c.stagedCount true r = 0 ∧ k ≤ bound r else bound r + c.stagedCount true r = k

/-- The players' indices in each round are a bijection onto the indices below `n`; the recognized
players have the first ones. -/
structure Shuffled (c : Core T) (note : T.PlayerId → Bool) (rounds n : Nat) : Prop where
  index_isSome : ∀ r i, (c.indexToPlayer.get (r, i)).isSome = true ↔ r < rounds ∧ i < n
  inverse : ∀ r i p, c.indexToPlayer.get (r, i) = some p ↔
    ∃ indices, c.playerToIndex.get p = some indices ∧ indices.toList[r]? = some i
  registered : ∀ p, c.isRegistered p = true ↔
    ∃ indices, c.playerToIndex.get p = some indices ∧ indices.length = rounds
  indices : ∀ p, c.isRegistered p = false → c.playerToIndex.get p = none
  count : n = c.registeredCount
  first : ∃ k, k ≤ n ∧ ∀ r i p, c.indexToPlayer.get (r, i) = some p → (note p = true ↔ i < k)

namespace Core

theorem stagedCount_eq_zero {c : Core T} {b : Bool} {r : RoundIndex} :
    c.stagedCount b r = 0 ↔ ∀ h, (c.staged b).get (r, h) = none := by
  unfold stagedCount
  rw [StorageMap.countOf_eq_zero_iff]
  constructor
  · intro h k
    cases hget : (c.staged b).get (r, k) with
    | none => rfl
    | some p =>
      have := h (r, k) p hget
      rw [decide_eq_false_iff_not] at this
      exact absurd rfl this
  · rintro h ⟨r', k⟩ p hget
    rw [decide_eq_false_iff_not]
    rintro rfl
    rw [h] at hget
    cases hget

/-- A staged player taken out. -/
def unstage (c : Core T) (b : Bool) (key : RoundIndex × Nat) : Core T :=
  { c with staged := Function.update c.staged b ((c.staged b).remove key) }

/-- A player given an index in a round. -/
def assign (c : Core T) (r : RoundIndex) (i : PlayerIndex) (p : T.PlayerId)
    (indices : BoundedVec PlayerIndex T.maxRounds) : Core T :=
  { c with
    playerToIndex := c.playerToIndex.insert p (Store.setIndex indices r i)
    indexToPlayer := c.indexToPlayer.insert (r, i) p }

theorem get_unstage (c : Core T) (b b' : Bool) (key key' : RoundIndex × Nat) :
    ((c.unstage b key).staged b').get key' =
      if b' = b ∧ key' = key then none else (c.staged b').get key' := by
  unfold unstage
  by_cases hb : b' = b
  · subst hb
    simp only [Function.update_self, StorageMap.get_remove, true_and]
  · simp only [Function.update_of_ne hb, hb, false_and, if_false]

theorem stagedCount_unstage {c : Core T} {b : Bool} {r : RoundIndex} {h : Nat} {p : T.PlayerId}
    (hget : (c.staged b).get (r, h) = some p) (b' : Bool) (r' : RoundIndex) :
    (c.unstage b (r, h)).stagedCount b' r' + (if b' = b ∧ r' = r then 1 else 0) = c.stagedCount b' r' := by
  unfold stagedCount unstage
  by_cases hb : b' = b
  · subst hb
    have hremove := (c.staged b').countOf_remove (fun key _ => key.1 = r') (r, h)
    rw [StorageMap.countAt, hget] at hremove
    simp only [Function.update_self]
    rw [← hremove]
    by_cases hr : r' = r
    · simp [hr]
    · simp [hr, Ne.symm hr]
  · simp [hb]

end Core

namespace Retrieving
variable {c : Core T} {note : T.PlayerId → Bool} {rounds : Nat} {bound : RoundIndex → Nat}
  {finished : Bool}

/-- Retrieving starts once the walk is through with every registered player. -/
theorem start {pass : T.PlayerId → Bool} (h : Staging c pass note rounds)
    (hall : ∀ p, c.isRegistered p = true → pass p = true)
    (hindex : ∀ k, c.indexToPlayer.get k = none) (hplayer : ∀ p, c.playerToIndex.get p = none) :
    Retrieving c note rounds (fun _ => 0) false where
  staged b r k p hget := by
    obtain ⟨hr, hreg, -, hn, -⟩ := h.entry b r k p hget
    refine ⟨hr, hreg, hn, fun i hi => ?_⟩
    rw [hindex] at hi
    cases hi
  unique := h.unique
  indexed r i p hi := by
    rw [hindex] at hi
    cases hi
  index_some r i _ hi := absurd hi (Nat.not_lt_zero i)
  indices p indices hp := by
    rw [hplayer] at hp
    cases hp
  complete p r hreg hr := .inl (h.complete p r hreg (hall p hreg) hr)
  count r hr := by
    obtain ⟨total, htotal, hsum⟩ := h.count
    rw [htotal true r hr, htotal false r hr, Nat.zero_add, hsum, Core.countWhere_eq_registeredCount hall]
  first := by
    obtain ⟨total, htotal, hsum⟩ := h.count
    refine ⟨total true, fun r i p hi => ?_, fun r hr => ?_⟩
    · rw [hindex] at hi
      cases hi
    · rw [if_neg Bool.false_ne_true, htotal true r hr, Nat.zero_add]

/-- What the indices of a player become when it is assigned one. -/
theorem getElem?_setIndex {indices : BoundedVec PlayerIndex T.maxRounds} {r r' : RoundIndex}
    (i : PlayerIndex) (hr : r < indices.length) :
    (Store.setIndex indices r i).toList[r']? = if r' = r then some i else indices.toList[r']? := by
  show (indices.toList.set r i)[r']? = _
  rw [List.getElem?_set]
  by_cases h : r = r'
  · subst h
    rw [if_pos rfl, if_pos rfl]
    exact if_pos hr
  · rw [if_neg h, if_neg (Ne.symm h)]

/-- A staged player is given the next index of the round. -/
theorem assign {r : RoundIndex} {k : Nat} {p : T.PlayerId}
    {indices : BoundedVec PlayerIndex T.maxRounds} (h : Retrieving c note rounds bound finished)
    (hget : (c.staged (!finished)).get (r, k) = some p) (hlength : indices.length = rounds)
    (hindices : ∀ v, c.playerToIndex.get p = some v → indices = v) :
    Retrieving ((c.unstage (!finished) (r, k)).assign r (bound r) p indices) note rounds
      (fun r' => if r' = r then bound r + 1 else bound r') finished := by
  obtain ⟨hr, hreg, hnote, hnot⟩ := h.staged _ _ _ _ hget
  have hstaged : ∀ b r' k' p', (((c.unstage (!finished) (r, k)).assign r (bound r) p indices).staged
      b).get (r', k') = some p' → (c.staged b).get (r', k') = some p' ∧
        ¬ (b = !finished ∧ r' = r ∧ k' = k) := by
    intro b r' k' p' hget'
    have hget' : ((c.unstage (!finished) (r, k)).staged b).get (r', k') = some p' := hget'
    rw [Core.get_unstage] at hget'
    split at hget'
    · cases hget'
    · rename_i hkey
      exact ⟨hget', fun hsame => hkey ⟨hsame.1, by rw [hsame.2.1, hsame.2.2]⟩⟩
  have hindex : ∀ r' i, ((c.unstage (!finished) (r, k)).assign r (bound r) p indices).indexToPlayer.get
      (r', i) = if r' = r ∧ i = bound r then some p else c.indexToPlayer.get (r', i) := by
    intro r' i
    show (c.indexToPlayer.insert (r, bound r) p).get (r', i) = _
    rw [StorageMap.get_insert]
    exact if_congr Prod.ext_iff rfl rfl
  have hplayer : ∀ p', ((c.unstage (!finished) (r, k)).assign r (bound r) p indices).playerToIndex.get
      p' = if p' = p then some (Store.setIndex indices r (bound r)) else c.playerToIndex.get p' :=
    fun p' => StorageMap.get_insert c.playerToIndex p p' _
  have hcount := Core.stagedCount_unstage hget
  refine ⟨?_, ?_, ?_, ?_, ?_, ?_, ?_, ?_⟩
  · intro b r' k' p' hget'
    obtain ⟨hold, hkey⟩ := hstaged b r' k' p' hget'
    obtain ⟨hr', hreg', hnote', hnot'⟩ := h.staged b r' k' p' hold
    refine ⟨hr', hreg', hnote', fun i hi => ?_⟩
    rw [hindex] at hi
    split at hi
    · rename_i heq
      obtain ⟨rfl, -⟩ := heq
      cases hi
      have hb : b = !finished := hnote'.symm.trans hnote
      rw [hb] at hold
      exact hkey ⟨hb, rfl, h.unique _ _ _ _ _ hold hget⟩
    · exact hnot' i hi
  · intro b r' k' k'' p' hget' hget''
    exact h.unique b r' k' k'' p' (hstaged b r' k' p' hget').1 (hstaged b r' k'' p' hget'').1
  · intro r' i p' hi
    rw [hindex] at hi
    split at hi
    · rename_i heq
      obtain ⟨rfl, rfl⟩ := heq
      cases hi
      refine ⟨hr, by rw [if_pos rfl]; exact Nat.lt_succ_self _, _, (hplayer _).trans (if_pos rfl), ?_⟩
      rw [getElem?_setIndex _ (hlength ▸ hr), if_pos rfl]
    · obtain ⟨hr', hlt, v, hv, hvi⟩ := h.indexed r' i p' hi
      refine ⟨hr', ?_, ?_⟩
      · split
        · rename_i heq
          exact Nat.lt_succ_of_lt (heq ▸ hlt)
        · exact hlt
      · by_cases hp : p' = p
        · subst hp
          refine ⟨_, (hplayer _).trans (if_pos rfl), ?_⟩
          rw [getElem?_setIndex _ (hlength ▸ hr), if_neg, hindices v hv]
          · exact hvi
          · rintro rfl
            exact hnot i hi
        · exact ⟨v, (hplayer _).trans ((if_neg hp).trans hv), hvi⟩
  · intro r' i hr' hi
    by_cases heq : r' = r ∧ i = bound r
    · exact ⟨p, (hindex r' i).trans (if_pos heq)⟩
    · obtain ⟨p', hp'⟩ := h.index_some r' i hr' (by
        split at hi
        · rename_i hrr
          rw [hrr]
          exact lt_of_le_of_ne (Nat.le_of_lt_succ hi) fun hib => heq ⟨hrr, hib⟩
        · exact hi)
      exact ⟨p', (hindex r' i).trans ((if_neg heq).trans hp')⟩
  · intro p' v hv
    rw [hplayer] at hv
    split at hv
    · rename_i heq
      cases hv
      rw [heq]
      exact ⟨hreg, (List.length_set).trans hlength⟩
    · exact h.indices p' v hv
  · intro p' r' hreg' hr'
    rcases h.complete p' r' hreg' hr' with ⟨k', hk'⟩ | ⟨i, hi⟩
    · by_cases hkey : note p' = !finished ∧ (r', k') = (r, k)
      · obtain ⟨hb, heq⟩ := hkey
        cases heq
        rw [hb, hget] at hk'
        cases hk'
        exact .inr ⟨bound r, (hindex _ _).trans (if_pos ⟨rfl, rfl⟩)⟩
      · refine .inl ⟨k', ?_⟩
        show ((c.unstage (!finished) (r, k)).staged (note p')).get (r', k') = some p'
        rw [Core.get_unstage, if_neg hkey, hk']
    · refine .inr ⟨i, (hindex r' i).trans ((if_neg ?_).trans hi)⟩
      rintro ⟨rfl, rfl⟩
      exact absurd (h.indexed _ _ _ hi).2.1 (Nat.lt_irrefl _)
  · intro r' hr'
    have hold := h.count r' hr'
    have htrue := hcount true r'
    have hfalse := hcount false r'
    show _ + (c.unstage (!finished) (r, k)).stagedCount true r' +
      (c.unstage (!finished) (r, k)).stagedCount false r' = c.registeredCount
    by_cases heq : r' = r
    · subst heq
      cases finished <;> simp at htrue hfalse ⊢ <;> omega
    · simp only [heq, and_false, if_false] at htrue hfalse ⊢
      omega
  · obtain ⟨n, hn, hbounds⟩ := h.first
    have hr₀ := hbounds r hr
    have hbefore := hcount (!finished) r
    rw [if_pos ⟨rfl, rfl⟩] at hbefore
    refine ⟨n, fun r' i p' hi => ?_, fun r' hr' => ?_⟩
    · rw [hindex] at hi
      split at hi
      · rename_i heq
        cases hi
        rw [hnote, heq.2]
        cases finished with
        | true =>
          rw [if_pos rfl] at hr₀
          exact iff_of_false Bool.false_ne_true (Nat.not_lt_of_le hr₀.2)
        | false =>
          rw [if_neg Bool.false_ne_true] at hr₀
          refine iff_of_true rfl ?_
          simp only [Bool.not_false] at hbefore
          show (bound r : Nat) < n
          omega
      · exact hn r' i p' hi
    · have hr₁ := hbounds r' hr'
      have htrue := hcount true r'
      show if finished then (c.unstage (!finished) (r, k)).stagedCount true r' = 0 ∧ _ else
        _ + (c.unstage (!finished) (r, k)).stagedCount true r' = n
      cases finished with
      | true =>
        rw [if_pos rfl] at hr₁ ⊢
        simp only [Bool.not_true, Bool.true_eq_false, false_and, if_false, Nat.add_zero] at htrue ⊢
        refine ⟨htrue.trans hr₁.1, ?_⟩
        split
        · rename_i heq
          exact (heq ▸ hr₁.2).trans (Nat.le_succ _)
        · exact hr₁.2
      | false =>
        rw [if_neg Bool.false_ne_true] at hr₁ ⊢
        by_cases heq : r' = r
        · subst heq
          simp at htrue ⊢
          omega
        · simp only [heq, and_false, if_false, Nat.add_zero] at htrue ⊢
          omega

theorem congr {c' : Core T} {note' : T.PlayerId → Bool} {bound' : RoundIndex → Nat}
    (h : Retrieving c note rounds bound finished) (hstaged : c'.staged = c.staged)
    (hindex : c'.indexToPlayer = c.indexToPlayer) (hplayer : c'.playerToIndex = c.playerToIndex)
    (hreg : ∀ p, c'.isRegistered p = c.isRegistered p) (hnote : ∀ p, note' p = note p)
    (hbound : ∀ r, r < rounds → bound' r = bound r) :
    Retrieving c' note' rounds bound' finished := by
  have hcount : ∀ b r, c'.stagedCount b r = c.stagedCount b r := by
    intro b r
    unfold Core.stagedCount
    rw [hstaged]
  cases funext hnote
  refine ⟨?_, ?_, ?_, ?_, ?_, ?_, ?_, ?_⟩
  · simpa only [hstaged, hindex, hreg] using h.staged
  · simpa only [hstaged] using h.unique
  · intro r i p hi
    rw [hindex] at hi
    obtain ⟨hr, hlt, hp⟩ := h.indexed r i p hi
    rw [hbound r hr, hplayer]
    exact ⟨hr, hlt, hp⟩
  · intro r i hr hi
    rw [hbound r hr] at hi
    rw [hindex]
    exact h.index_some r i hr hi
  · simpa only [hplayer, hreg] using h.indices
  · simpa only [hstaged, hindex, hreg] using h.complete
  · intro r hr
    rw [hcount, hcount, hbound r hr, Core.registeredCount_congr hreg]
    exact h.count r hr
  · obtain ⟨k, hk, hbounds⟩ := h.first
    refine ⟨k, by simpa only [hindex] using hk, fun r hr => ?_⟩
    rw [hcount, hbound r hr]
    exact hbounds r hr

/-- Once the recognized players are all retrieved, the others follow. -/
theorem finish (h : Retrieving c note rounds bound false)
    (hnone : ∀ r, r < rounds → c.stagedCount true r = 0) :
    Retrieving c note rounds bound true := by
  refine { h with first := ?_ }
  obtain ⟨k, hk, hbounds⟩ := h.first
  refine ⟨k, hk, fun r hr => ?_⟩
  have := hbounds r hr
  rw [if_neg Bool.false_ne_true, hnone r hr] at this
  rw [if_pos rfl]
  exact ⟨hnone r hr, this.ge⟩

/-- Once nobody is staged, the indices are a bijection. -/
theorem shuffled {n : Nat} (h : Retrieving c note rounds (fun _ => n) true) (hrounds : 0 < rounds)
    (hnone : ∀ r, r < rounds → c.stagedCount false r = 0) :
    Shuffled c note rounds n ∧ ∀ b k, (c.staged b).get k = none := by
  obtain ⟨k, hk, hbounds⟩ := h.first
  have hzero : ∀ b r, r < rounds → c.stagedCount b r = 0 := by
    intro b r hr
    cases b with
    | false => exact hnone r hr
    | true =>
      have := hbounds r hr
      rw [if_pos rfl] at this
      exact this.1
  have hempty : ∀ b key, (c.staged b).get key = none := by
    rintro b ⟨r, key⟩
    cases hget : (c.staged b).get (r, key) with
    | none => rfl
    | some p =>
      have hr := (h.staged b r key p hget).1
      rw [Core.stagedCount_eq_zero.mp (hzero b r hr)] at hget
      cases hget
  have hindexed : ∀ p r, c.isRegistered p = true → r < rounds → ∃ i, c.indexToPlayer.get (r, i) = some p := by
    intro p r hreg hr
    rcases h.complete p r hreg hr with ⟨key, hkey⟩ | hi
    · rw [hempty] at hkey
      cases hkey
    · exact hi
  refine ⟨⟨?_, ?_, ?_, ?_, ?_, ?_⟩, hempty⟩
  · intro r i
    constructor
    · intro hsome
      obtain ⟨p, hp⟩ := Option.isSome_iff_exists.mp hsome
      obtain ⟨hr, hi, -⟩ := h.indexed r i p hp
      exact ⟨hr, hi⟩
    · rintro ⟨hr, hi⟩
      obtain ⟨p, hp⟩ := h.index_some r i hr hi
      rw [hp]
      rfl
  · intro r i p
    constructor
    · intro hi
      exact (h.indexed r i p hi).2.2
    · rintro ⟨indices, hp, hi⟩
      obtain ⟨hreg, hlength⟩ := h.indices p indices hp
      have hr : r < rounds := by
        rw [← hlength]
        exact (List.getElem?_eq_some_iff.mp hi).1
      obtain ⟨i', hi'⟩ := hindexed p r hreg hr
      obtain ⟨-, -, indices', hp', hi''⟩ := h.indexed r i' p hi'
      cases hp.symm.trans hp'
      cases hi.symm.trans hi''
      exact hi'
  · intro p
    constructor
    · intro hreg
      obtain ⟨i, hi⟩ := hindexed p 0 hreg hrounds
      obtain ⟨-, -, indices, hp, -⟩ := h.indexed 0 i p hi
      exact ⟨indices, hp, (h.indices p indices hp).2⟩
    · rintro ⟨indices, hp, -⟩
      exact (h.indices p indices hp).1
  · intro p hreg
    cases hp : c.playerToIndex.get p with
    | none => rfl
    | some indices =>
      rw [(h.indices p indices hp).1] at hreg
      cases hreg
  · have := h.count 0 hrounds
    rw [hzero true 0 hrounds, hzero false 0 hrounds] at this
    exact this
  · have := hbounds 0 hrounds
    rw [if_pos rfl] at this
    exact ⟨k, this.2, hk⟩

end Retrieving

/-! ### A turn -/

namespace Store
variable {s t : Store T} {note : T.PlayerId → Bool} {rounds : Nat} {bound : RoundIndex → Nat}
  {finished : Bool}

theorem firstStaged_spec {m : StorageMap (RoundIndex × Nat) T.PlayerId} {r : RoundIndex}
    {key : RoundIndex × Nat} {p : T.PlayerId} (h : firstStaged m r = some (key, p)) :
    key.1 = r ∧ m.get key = some p := by
  obtain ⟨key', hfind, hp⟩ := Option.bind_eq_some_iff.mp h
  obtain ⟨p', hp', heq⟩ := Option.map_eq_some_iff.mp hp
  cases heq
  have hr := List.find?_some hfind
  exact ⟨of_decide_eq_true hr, hp'⟩

theorem firstStaged_eq_none {m : StorageMap (RoundIndex × Nat) T.PlayerId} {r : RoundIndex}
    (h : firstStaged m r = none) (k : Nat) : m.get (r, k) = none := by
  unfold firstStaged at h
  cases hfind : (m.keysInOrder Prod.snd).find? fun key => key.1 = r with
  | none =>
    rw [List.find?_eq_none] at hfind
    cases hget : m.get (r, k) with
    | none => rfl
    | some p =>
      have hmem : (r, k) ∈ m.keysInOrder Prod.snd :=
        StorageMap.mem_keysInOrder.mpr (by rw [hget]; rfl)
      exact absurd (decide_eq_true rfl) (hfind _ hmem)
  | some key =>
    obtain ⟨p, hp⟩ := Option.isSome_iff_exists.mp
      (StorageMap.mem_keysInOrder.mp (List.mem_of_find?_eq_some hfind))
    rw [hfind, Option.bind_some, hp] at h
    cases h

theorem drainStaged_spec {r : RoundIndex} {p : T.PlayerId}
    (h : s.drainStaged finished r = some (t, p)) :
    ∃ k, (s.core.staged (!finished)).get (r, k) = some p ∧
      t.core = s.core.unstage (!finished) (r, k) ∧ t.score = s.score := by
  have hcore : ∀ u : Store T, ∀ b key, u.core.game = s.core.game → u.core.players = s.core.players →
      u.core.indexToPlayer = s.core.indexToPlayer → u.core.playerToIndex = s.core.playerToIndex →
      u.core.staged b = (s.core.staged b).remove key → u.core.staged (!b) = s.core.staged (!b) →
      u.core = s.core.unstage b key := by
    intro u b key hgame hplayers hitop hptoi hsame hother
    refine Core.ext hgame hplayers hitop hptoi (funext fun b' => ?_)
    refine Eq.trans ?_ (Function.update_apply _ _ _ _).symm
    split
    · rename_i heq
      rw [heq]
      exact hsame
    · rename_i hne
      rw [Bool.eq_not_of_ne hne]
      exact hother
  cases finished with
  | true =>
    obtain ⟨⟨⟨r', k⟩, p'⟩, hfirst, heq⟩ := Option.map_eq_some_iff.mp h
    obtain ⟨hr, hget⟩ := firstStaged_spec hfirst
    simp only at hr
    subst hr
    cases heq
    exact ⟨k, hget, hcore _ false (r', k) rfl rfl rfl rfl rfl rfl, rfl⟩
  | false =>
    obtain ⟨⟨⟨r', k⟩, p'⟩, hfirst, heq⟩ := Option.map_eq_some_iff.mp h
    obtain ⟨hr, hget⟩ := firstStaged_spec hfirst
    simp only at hr
    subst hr
    cases heq
    exact ⟨k, hget, hcore _ true (r', k) rfl rfl rfl rfl rfl rfl, rfl⟩

theorem drainStaged_eq_none {r : RoundIndex} (h : s.drainStaged finished r = none) :
    s.core.stagedCount (!finished) r = 0 := by
  rw [Core.stagedCount_eq_zero]
  cases finished with
  | true => exact firstStaged_eq_none (Option.map_eq_none_iff.mp h)
  | false => exact firstStaged_eq_none (Option.map_eq_none_iff.mp h)

theorem length_indicesOf {p : T.PlayerId} (hmax : rounds ≤ T.maxRounds)
    (h : ∀ indices, s.playerToIndex.get p = some indices → indices.length = rounds) :
    (s.indicesOf rounds p).length = rounds := by
  unfold indicesOf
  cases hp : s.playerToIndex.get p with
  | some indices => exact h indices hp
  | none =>
    obtain ⟨v, hv, hlist⟩ := BoundedVec.exists_tryFrom (l := List.replicate rounds 0)
      (n := T.maxRounds) (by rw [List.length_replicate]; exact hmax)
    rw [hv]
    show v.toList.length = rounds
    rw [hlist, List.length_replicate]

/-- One round of a retrieval. -/
theorem retrieve_round {r : RoundIndex} {p : T.PlayerId} (hmax : rounds ≤ T.maxRounds)
    (h : Retrieving s.core note rounds bound finished) (hdrain : s.drainStaged finished r = some (t, p)) :
    Retrieving (t.assignIndex rounds r (bound r) p).core note rounds
        (fun r' => if r' = r then bound r + 1 else bound r') finished ∧
      (t.assignIndex rounds r (bound r) p).players = s.players ∧
      (t.assignIndex rounds r (bound r) p).score = s.score := by
  obtain ⟨k, hget, hcore, hscore⟩ := drainStaged_spec hdrain
  have hplayers : t.players = s.players := congrArg Core.players hcore
  have hptoi : t.playerToIndex = s.playerToIndex := congrArg Core.playerToIndex hcore
  refine ⟨?_, hplayers, hscore⟩
  have hassign : (t.assignIndex rounds r (bound r) p).core =
      t.core.assign r (bound r) p (t.indicesOf rounds p) := rfl
  rw [hassign, hcore]
  refine h.assign hget (length_indicesOf hmax fun v hv => ?_) fun v hv => ?_
  · rw [hptoi] at hv
    exact (h.indices p v hv).2
  · have hv' : t.playerToIndex.get p = some v := by rw [hptoi]; exact hv
    unfold indicesOf
    rw [hv']
    rfl

/-- A retrieval finds a player in each round, or none in any. -/
theorem retrieveRounds_spec {j next : Nat} {all : Bool} (hmax : rounds ≤ T.maxRounds)
    (hrounds : 0 < rounds) (hj : j ≤ rounds)
    (h : Retrieving s.core note rounds (fun r => if r < j then next + 1 else next) finished)
    (hout : retrieveRounds finished rounds next s (List.range' j (rounds - j)) = (t, all)) :
    t.players = s.players ∧ t.score = s.score ∧
      (all = true → Retrieving t.core note rounds (fun _ => next + 1) finished) ∧
      (all = false → j = 0 ∧ t = s ∧ ∀ r, r < rounds → s.core.stagedCount (!finished) r = 0) := by
  obtain ⟨n, hn⟩ : ∃ n, rounds - j = n := ⟨_, rfl⟩
  rw [hn] at hout
  induction n generalizing j s with
  | zero =>
    cases hout
    refine ⟨rfl, rfl, fun _ => ?_, fun hall => Bool.noConfusion hall⟩
    refine h.congr rfl rfl rfl (fun _ => rfl) (fun _ => rfl) fun r hr => ?_
    have hlt : r < j := by omega
    exact (if_pos hlt).symm
  | succ n ih =>
    rw [List.range'_succ] at hout
    unfold retrieveRounds at hout
    split at hout
    · rename_i hdrain
      cases hout
      have hzero := drainStaged_eq_none hdrain
      obtain ⟨k, -, hbounds⟩ := h.first
      have hjlt : j < rounds := by omega
      have hkj := hbounds j hjlt
      have hcountj := h.count j hjlt
      rw [if_neg (Nat.lt_irrefl j)] at hkj hcountj
      have hk0 := hbounds 0 hrounds
      have hcount0 := h.count 0 hrounds
      have hj0 : j = 0 := by
        by_contra hne
        rw [if_pos (Nat.pos_of_ne_zero hne)] at hk0 hcount0
        cases finished <;> simp at hzero hkj hk0 <;> omega
      subst hj0
      refine ⟨rfl, rfl, fun hall => Bool.noConfusion hall, fun _ => ⟨rfl, rfl, fun r hr => ?_⟩⟩
      have hkr := hbounds r hr
      have hcountr := h.count r hr
      rw [if_neg (Nat.not_lt_zero r)] at hkr hcountr
      cases finished <;> simp at hzero hkj hkr ⊢ <;> omega
    · rename_i u p hdrain
      have hstep := retrieve_round hmax h hdrain
      rw [if_neg (Nat.lt_irrefl j)] at hstep
      obtain ⟨hret, hplayers, hscore⟩ := hstep
      have hret' : Retrieving (u.assignIndex rounds j next p).core note rounds
          (fun r => if r < j + 1 then next + 1 else next) finished := by
        refine hret.congr rfl rfl rfl (fun _ => rfl) (fun _ => rfl) fun r _ => ?_
        rcases Nat.lt_trichotomy r j with hlt | heq | hgt
        · rw [if_pos (Nat.lt_succ_of_lt hlt), if_neg hlt.ne, if_pos hlt]
        · rw [if_pos (heq ▸ Nat.lt_succ_self j), if_pos heq]
        · have hlt : ¬ r < j := hgt.le.not_gt
          have hsucc : ¬ r < j + 1 := by omega
          rw [if_neg hsucc, if_neg hgt.ne', if_neg hlt]
      obtain ⟨hplayers', hscore', htrue, hfalse⟩ := ih (by omega) hret' hout (by omega)
      refine ⟨hplayers'.trans hplayers, hscore'.trans hscore, htrue, fun hall => ?_⟩
      exact absurd (hfalse hall).1 (Nat.succ_ne_zero j)

/-- A turn of the retrieval: it goes on, or the shuffle is a bijection and nobody is staged. -/
theorem shuffleStepRetrieve_spec {next : Nat} {out : Option (Nat × Bool)} (hmax : rounds ≤ T.maxRounds)
    (hrounds : 0 < rounds) (hcount : s.core.registeredCount ≤ U32.max)
    (h : Retrieving s.core note rounds (fun _ => next) finished)
    (hout : s.shuffleStepRetrieve next finished rounds = (t, out)) :
    t.players = s.players ∧ t.score = s.score ∧
      (∀ next' finished', out = some (next', finished') →
        Retrieving t.core note rounds (fun _ => next') finished') ∧
      (out = none → Shuffled t.core note rounds next ∧ ∀ b k, (t.core.staged b).get k = none) := by
  unfold shuffleStepRetrieve at hout
  rw [List.range_eq_range'] at hout
  have h' : Retrieving s.core note rounds (fun r => if r < 0 then next + 1 else next) finished :=
    h.congr rfl rfl rfl (fun _ => rfl) (fun _ => rfl) fun r _ => if_neg (Nat.not_lt_zero r)
  split at hout
  · rename_i u hrec
    cases hout
    obtain ⟨hplayers, hscore, htrue, -⟩ := retrieveRounds_spec hmax hrounds (Nat.zero_le _) h' hrec
    refine ⟨hplayers, hscore, fun next' finished' heq => ?_, fun hnone => by cases hnone⟩
    have hret := htrue rfl
    have hreg : ∀ p, t.core.isRegistered p = s.core.isRegistered p := by
      intro p
      unfold Core.isRegistered
      rw [core_players, core_players, hplayers]
    have hle : next + 1 ≤ U32.max := by
      have := hret.count 0 hrounds
      rw [Core.registeredCount_congr hreg] at this
      omega
    rw [U32.saturatingAdd_eq hle] at heq
    cases heq
    exact hret
  · rename_i u hrec
    obtain ⟨hplayers, hscore, -, hfalse⟩ := retrieveRounds_spec hmax hrounds (Nat.zero_le _) h' hrec
    obtain ⟨-, rfl, hzero⟩ := hfalse rfl
    cases finished with
    | true =>
      cases hout
      exact ⟨rfl, rfl, fun _ _ hsome => (by cases hsome), fun _ => h.shuffled hrounds hzero⟩
    | false =>
      cases hout
      refine ⟨rfl, rfl, fun next' finished' heq => ?_, fun hnone => by cases hnone⟩
      cases heq
      exact h.finish hzero

end Store
end Individuality.Game
