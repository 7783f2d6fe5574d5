import Individuality.Coinage.Types
import Individuality.Members.Provers
import Individuality.Support.Prefixes
import Individuality.Support.Runs
import Individuality.Support.SingleUse

/-! The free unload tokens of people and lite people.

A member unloads for free with a proof in a context of the period and a counter below its
limit. The token consumed is on record until its period is over; none of that period is
accepted any more then, so that none is ever consumed twice (`Once`). -/
namespace Individuality.Coinage.FreeTokens
open Support
open Members (Context Identifier MembershipProver IdealProver)

/-- `World` is the rest of the chain. -/
structure Config where
  membershipProver : MembershipProver
  World : Type
  Call : Type
  members : World → membershipProver.World
  /-- What keeps a call from unloading with a fee paid ahead. -/
  validateUnloadCalls : World → Call → Except CustomInvalidity Unit
  paidUnloadTokenFeeInAsset : World → Option Nat
  unloadTokenTimePeriodPeopleLitePeople : Nat
  unloadTokenAllowancePerTimePeriodForPeople : Nat
  unloadTokenAllowancePerTimePeriodForLitePeople : Nat
  maxFreeUnloadTokensPerTimePeriod : Nat
  /-- Where a record stands in the storage. -/
  recordKey : Period × membershipProver.Alias → Nat

inductive FreeTokenKind
  | people
  | litePeople

def FreeTokenKind.identifier : FreeTokenKind → Identifier
  | people => Members.peopleIdentifier
  | litePeople => Members.peopleLiteIdentifier

inductive Invalidity
  | unloadCalls (e : CustomInvalidity)
  | cannotConvertNativeToAsset
  | invalidUnloadTokenPeriod
  | unloadTokenCounterOutOfRange
  | invalidUnloadTokenProof
  | unloadTokenAlreadyConsumed
  | transactionNotLocal
  | future
  | stale

def freeUnloadTokenGraceWindow : Nat := 3600
def cleanConsumedFreeTokenLimit : Nat := 10000

def freeUnloadTokenContext (period : Period) (counter : Nat) : Context :=
  padded 32 0 (ascii "pop:polkadot.net/coinftk" ++ leBytes 4 period ++ leBytes 4 counter)

variable (T : Config)

/-- The period of an hour ago, and the current one; the seconds are those of 32 bits. -/
def currentFreeUnloadTokenPeriods (now : Nat) : List Period :=
  [(now % 2 ^ 32 - freeUnloadTokenGraceWindow) / T.unloadTokenTimePeriodPeopleLitePeople,
    now % 2 ^ 32 / T.unloadTokenTimePeriodPeopleLitePeople]

structure Transaction where
  kind : FreeTokenKind
  proof : T.membershipProver.Proof
  ring : Nat
  period : Period
  counter : Nat
  call : T.Call
  message : T.membershipProver.Message

inductive Action
  | elapse (secs : Nat)
  | elsewhere (world : T.World)
  | unload (tx : Transaction T)
  | cleanConsumedFreeToken (isLocal : Bool) (period : Period)

structure Chain where
  now : Nat
  world : T.World
  consumedFreeUnloadTokens : StorageMap (Period × T.membershipProver.Alias) Unit

variable {T}

def freeUnloadTokenLimit (w : T.World) (kind : FreeTokenKind) : Except Invalidity Nat := do
  let fee ← okOr (T.paidUnloadTokenFeeInAsset w) .cannotConvertNativeToAsset
  let allowance := match kind with
    | .people => T.unloadTokenAllowancePerTimePeriodForPeople
    | .litePeople => T.unloadTokenAllowancePerTimePeriodForLitePeople
  -- Nothing is free where nothing is charged: a division by zero is zero.
  return min (U32.saturatedFrom (allowance / fee)) T.maxFreeUnloadTokensPerTimePeriod

variable (c : Chain T)

/-- The alias of the member whose token an unload consumes. -/
def validate (tx : Transaction T) : Except Invalidity T.membershipProver.Alias := do
  (T.validateUnloadCalls c.world tx.call).mapError .unloadCalls
  ensure (tx.period ∈ currentFreeUnloadTokenPeriods T c.now) .invalidUnloadTokenPeriod
  let limit ← freeUnloadTokenLimit c.world tx.kind
  ensure (tx.counter < limit) .unloadTokenCounterOutOfRange
  let found ← okOr (T.membershipProver.verifyMembership (T.members c.world) tx.kind.identifier tx.proof tx.ring
    (freeUnloadTokenContext tx.period tx.counter) tx.message) .invalidUnloadTokenProof
  ensure (c.consumedFreeUnloadTokens.contains (tx.period, found.ca.ringAlias) = false) .unloadTokenAlreadyConsumed
  return found.ca.ringAlias

def authorizeCleanConsumedFreeToken (isLocal : Bool) (period : Period) : Except Invalidity Unit := do
  ensure (isLocal = true) .transactionNotLocal
  ensure (((currentFreeUnloadTokenPeriods T c.now).any fun current => current ≤ period) = false) .future
  ensure ((c.consumedFreeUnloadTokens.prefixKeys T.recordKey period).isEmpty = false) .stale

def exec : Action T → Except Invalidity (Chain T)
  | .elapse secs => .ok { c with now := c.now + secs }
  | .elsewhere world => .ok { c with world := world }
  | .unload tx => do
    let token ← validate c tx
    return { c with consumedFreeUnloadTokens := c.consumedFreeUnloadTokens.insert (tx.period, token) () }
  | .cleanConsumedFreeToken isLocal period => do
    authorizeCleanConsumedFreeToken c isLocal period
    return { c with consumedFreeUnloadTokens :=
      (c.consumedFreeUnloadTokens.clearPrefix T.recordKey period cleanConsumedFreeTokenLimit).1 }

/-! ### The tokens of a run -/

section Run
variable {c} {c' : Chain T} {a : Action T} (V : IdealProver T.membershipProver)

/-- By its member, its period and its counter. -/
abbrev Token : Type := V.Member × Period × Nat

def Transaction.token (tx : Transaction T) : Token V := (V.prover tx.proof, tx.period, tx.counter)

def consumed (_ : Chain T) (a : Action T) (_ : Chain T) (log : List (Token V)) : List (Token V) :=
  match a with
  | .unload tx => tx.token V :: log
  | _ => log

def Recorded (c : Chain T) (k : Token V) : Prop :=
  c.consumedFreeUnloadTokens.contains (k.2.1, V.aliasIn k.1 (freeUnloadTokenContext k.2.1 k.2.2)) = true

/-- No token is accepted for the period any more. -/
def Over (c : Chain T) (k : Token V) : Prop :=
  k.2.1 < (c.now - freeUnloadTokenGraceWindow) / T.unloadTokenTimePeriodPeopleLitePeople

/-- What is kept of a run's tokens. -/
structure Journal (c : Chain T) (log : List (Token V)) : Prop where
  once : Once (Recorded V) (Over V) c log
  limited : ∀ k ∈ log, k.2.2 < T.maxFreeUnloadTokensPerTimePeriod

variable {V} {log : List (Token V)} {tx : Transaction T} {token : T.membershipProver.Alias}

theorem limit_le {w : T.World} {kind : FreeTokenKind} {n : Nat} (h : freeUnloadTokenLimit w kind = .ok n) :
    n ≤ T.maxFreeUnloadTokensPerTimePeriod := by
  simp only [freeUnloadTokenLimit, bind_eq_ok, pure_eq_ok] at h
  obtain ⟨-, -, rfl⟩ := h
  exact Nat.min_le_right _ _

/-- A token that is accepted is alive and not on record. -/
theorem validate_ok (V : IdealProver T.membershipProver) (hnow : c.now < 2 ^ 32) (hok : validate c tx = .ok token) :
    token = V.aliasIn (V.prover tx.proof) (freeUnloadTokenContext tx.period tx.counter) ∧
      ¬Recorded V c (tx.token V) ∧ ¬Over V c (tx.token V) ∧ tx.counter < T.maxFreeUnloadTokensPerTimePeriod := by
  simp only [FreeTokens.validate, bind_eq_ok, ensure_eq_ok, okOr_eq_ok, pure_eq_ok] at hok
  obtain ⟨-, -, -, hperiod, limit, hlimit, -, hcounter, found, hfound, -, hfresh, rfl⟩ := hok
  have halias := congrArg Members.ContextualAlias.ringAlias (V.sound_current hfound).1
  refine ⟨halias, ?_, ?_, hcounter.trans_le (limit_le hlimit)⟩
  · rw [halias] at hfresh
    exact Bool.eq_false_iff.mp hfresh
  · have hle : (c.now - freeUnloadTokenGraceWindow) / T.unloadTokenTimePeriodPeopleLitePeople ≤
        c.now / T.unloadTokenTimePeriodPeopleLitePeople := Nat.div_le_div_right (Nat.sub_le _ _)
    simp only [currentFreeUnloadTokenPeriods, Nat.mod_eq_of_lt hnow, List.mem_cons, List.not_mem_nil,
      or_false] at hperiod
    refine Nat.not_lt.mpr ?_
    rcases hperiod with hperiod | hperiod
    · exact hperiod.ge
    · exact hle.trans hperiod.ge

theorem now_le (hok : exec c a = .ok c') : c.now ≤ c'.now := by
  cases a <;> simp only [FreeTokens.exec, bind_eq_ok, pure_eq_ok, Except.ok.injEq] at hok <;> grind

theorem Journal.exec (h : c.now < 2 ^ 32 → Journal V c log) (hok : exec c a = .ok c') (hnow' : c'.now < 2 ^ 32) :
    Journal V c' (consumed V c a c' log) := by
  have hle : c.now ≤ c'.now := now_le hok
  have hnow := hle.trans_lt hnow'
  specialize h hnow
  cases a with
  | elapse now =>
    cases hok
    refine ⟨h.once.keep (fun k hk => .inl hk) fun k hk => ?_, h.limited⟩
    exact Nat.lt_of_lt_of_le hk (Nat.div_le_div_right (Nat.sub_le_sub_right hle _))
  | elsewhere world =>
    cases hok
    exact ⟨h.once.keep (fun k hk => .inl hk) fun k hk => hk, h.limited⟩
  | unload tx =>
    simp only [FreeTokens.exec, bind_eq_ok, pure_eq_ok] at hok
    obtain ⟨token, hok, rfl⟩ := hok
    obtain ⟨rfl, hfresh, halive, hcounter⟩ := validate_ok V hnow hok
    refine ⟨h.once.use hfresh halive ?_ (fun k hk => .inl ?_) fun k hk => hk, ?_⟩
    · exact congrArg Option.isSome ((StorageMap.get_insert _ _ _ ()).trans (if_pos rfl))
    · refine (congrArg Option.isSome (StorageMap.get_insert _ _ _ ())).trans ?_
      split
      · rfl
      · exact hk
    · exact List.forall_mem_cons.mpr ⟨hcounter, h.limited⟩
  | cleanConsumedFreeToken isLocal period =>
    simp only [FreeTokens.exec, authorizeCleanConsumedFreeToken, bind_eq_ok, ensure_eq_ok, pure_eq_ok] at hok
    obtain ⟨-, ⟨-, -, -, hover, -⟩, rfl⟩ := hok
    refine ⟨h.once.keep (fun k hk => ?_) fun k hk => hk, h.limited⟩
    by_cases hk' : k.2.1 = period
    · simp only [currentFreeUnloadTokenPeriods, Nat.mod_eq_of_lt hnow, List.any_cons, Bool.or_eq_false_iff,
        decide_eq_false_iff_not, Nat.not_le] at hover
      exact .inr (hk' ▸ hover.1)
    · refine .inl ?_
      let token := (k.2.1, V.aliasIn k.1 (freeUnloadTokenContext k.2.1 k.2.2))
      have hget : (c.consumedFreeUnloadTokens.clearPrefix T.recordKey period cleanConsumedFreeTokenLimit).1.get token =
          c.consumedFreeUnloadTokens.get token := StorageMap.get_clearPrefix_of_ne hk'
      exact (congrArg Option.isSome hget).trans hk

end Run

/-- In every run within 32 bits of seconds, no token is consumed twice, also after records were removed, and the next
that is accepted is a new one; a member's tokens of one period, of either kind, are at most the configured number. -/
theorem free_tokens_single_use (V : IdealProver T.membershipProver) [DecidableEq V.Member] {now : Nat}
    {world : T.World} {r : Chain T × List (Token V)}
    (h : Reaches (noting exec (consumed V)) (fun _ _ => True) (⟨now, world, ∅⟩, []) r) (hnow : r.1.now < 2 ^ 32) :
    r.2.Nodup ∧ (∀ tx token, validate r.1 tx = .ok token → tx.token V ∉ r.2) ∧
    ∀ m period, r.2.countP (fun k => k.1 = m ∧ k.2.1 = period) ≤ T.maxFreeUnloadTokensPerTimePeriod := by
  have hj : Journal V r.1 r.2 := Reaches.noted (G := fun _ _ => True)
    (I := fun c log => c.now < 2 ^ 32 → Journal V c log) h
    (fun _ => ⟨Once.nil _, fun k hk => absurd hk List.not_mem_nil⟩)
    (fun _ _ _ _ hj _ hok hnow => Journal.exec hj hok hnow) hnow
  refine ⟨hj.once.nodup, fun tx token hok => ?_, fun m period => ?_⟩
  · obtain ⟨-, hfresh, halive, -⟩ := validate_ok V hnow hok
    exact hj.once.notMem hfresh halive
  · refine countP_le_of_slots (fun k => k.2.2) (fun k hk _ => hj.limited k hk) (hj.once.nodup.imp ?_)
    intro k k' hne hk hk' hslot
    obtain ⟨hm, hp⟩ := of_decide_eq_true hk
    obtain ⟨hm', hp'⟩ := of_decide_eq_true hk'
    exact hne (Prod.ext (hm.trans hm'.symm) (Prod.ext (hp.trans hp'.symm) hslot))

/-- Days, with two tokens a day for a person. -/
def sampleTokens : Config where
  membershipProver := Members.sampleProver
  World := Identifier → List Nat
  Call := Unit
  members := id
  validateUnloadCalls _ _ := .ok ()
  paidUnloadTokenFeeInAsset _ := some 1
  unloadTokenTimePeriodPeopleLitePeople := 86400
  unloadTokenAllowancePerTimePeriodForPeople := 2
  unloadTokenAllowancePerTimePeriodForLitePeople := 1
  maxFreeUnloadTokensPerTimePeriod := 2
  recordKey k := k.1

def sampleUnload (period : Period) : Action sampleTokens :=
  .unload ⟨.people, ((1, 0) : Nat × Nat), 0, period, 0, (), (0 : Nat)⟩

/-- The record of the first token is removed before the second is consumed. -/
theorem free_tokens_single_use_sample : ∃ r : Chain sampleTokens × List (Token (T := sampleTokens) Members.sampleIdeal),
    r.2.length = 2 ∧ r.2.Nodup := by
  obtain ⟨r, hr, hlength, hnow⟩ := exists_reaches (noting exec (consumed (T := sampleTokens) Members.sampleIdeal)) (fun _ _ => True)
    (⟨0, fun _ => [1], ∅⟩, [])
    [sampleUnload 0, .elapse 172800, .cleanConsumedFreeToken true 0, sampleUnload 2]
    (fun r => r.2.length = 2 ∧ r.1.now < 2 ^ 32) (by decide +kernel)
  exact ⟨r, hlength, (free_tokens_single_use (T := sampleTokens) Members.sampleIdeal hr hnow).1⟩

end Individuality.Coinage.FreeTokens
