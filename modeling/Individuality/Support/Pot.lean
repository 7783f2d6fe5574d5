import Individuality.Support.BoundedVec

/-! A pot that rewards are paid from.

A pot has some of its balance on hold, for payouts that are promised and as credit
that is owed; the rest it can spend. A `Pot` cannot hold more than a balance can
count, so no sum over it overflows. `Currency` is what the ledger that keeps the pot
may refuse besides what the balances decide; whatever it allows moves exactly the
amounts the lemmas here say. -/
namespace Individuality.Support

universe u v

/-- A reason for placing a hold on funds. -/
inductive HoldReason
  | payout
  | credit
  deriving DecidableEq, Repr

/-- Whether an operation is to move the whole amount or what there is of it. -/
inductive Precision
  | exact
  | bestEffort
  deriving DecidableEq, Repr

/-- What the pot can spend, and what it has on hold for each reason. -/
structure Pot where
  free : Nat
  payout : Nat
  credit : Nat
  total_le : free + payout + credit ≤ U128.max

namespace Pot

def empty : Pot := ⟨0, 0, 0, Nat.zero_le _⟩

variable (p : Pot)

def onHold : HoldReason → Nat
  | .payout => p.payout
  | .credit => p.credit

def hold (reason : HoldReason) (amount : Nat) : Option Pot :=
  if h : amount ≤ p.free then
    match reason with
    | .payout => some ⟨p.free - amount, p.payout + amount, p.credit, by have := p.total_le; omega⟩
    | .credit => some ⟨p.free - amount, p.payout, p.credit + amount, by have := p.total_le; omega⟩
  else none

/-- Also what was released. -/
def release (reason : HoldReason) (amount : Nat) (precision : Precision) : Option (Pot × Nat) :=
  if precision = .exact ∧ p.onHold reason < amount then none
  else
    match reason with
    | .payout => some (⟨p.free + min amount p.payout, p.payout - min amount p.payout, p.credit,
        by have := p.total_le; omega⟩, min amount p.payout)
    | .credit => some (⟨p.free + min amount p.credit, p.payout, p.credit - min amount p.credit,
        by have := p.total_le; omega⟩, min amount p.credit)

/-- Take an amount out of what the pot can spend. -/
def spend (amount : Nat) : Option Pot :=
  if amount ≤ p.free then
    some ⟨p.free - amount, p.payout, p.credit, by have := p.total_le; omega⟩
  else none

variable {p} {q : Pot} {reason : HoldReason} {amount released : Nat} {precision : Precision}

theorem onHold_hold (h : p.hold reason amount = some q) :
    q.onHold reason = p.onHold reason + amount ∧
      ∀ other, other ≠ reason → q.onHold other = p.onHold other := by
  unfold hold at h
  split at h
  · cases reason <;> cases h
    · exact ⟨rfl, fun other hother => by cases other <;> first | rfl | exact absurd rfl hother⟩
    · exact ⟨rfl, fun other hother => by cases other <;> first | rfl | exact absurd rfl hother⟩
  · cases h

theorem onHold_release (h : p.release reason amount precision = some (q, released)) :
    released = min amount (p.onHold reason) ∧ (precision = .exact → released = amount) ∧
      q.onHold reason + released = p.onHold reason ∧
        ∀ other, other ≠ reason → q.onHold other = p.onHold other := by
  unfold release at h
  split at h
  · cases h
  · rename_i hexact
    have hall : precision = .exact → min amount (p.onHold reason) = amount := fun he =>
      Nat.min_eq_left (Nat.le_of_not_lt fun hlt => hexact ⟨he, hlt⟩)
    cases reason <;> cases h
    · refine ⟨rfl, hall, Nat.sub_add_cancel (Nat.min_le_right _ _), ?_⟩
      intro other hother
      cases other <;> first | rfl | exact absurd rfl hother
    · refine ⟨rfl, hall, Nat.sub_add_cancel (Nat.min_le_right _ _), ?_⟩
      intro other hother
      cases other <;> first | rfl | exact absurd rfl hother

theorem onHold_spend (h : p.spend amount = some q) (reason : HoldReason) :
    q.onHold reason = p.onHold reason := by
  unfold spend at h
  split at h
  · cases h
    cases reason <;> rfl
  · cases h

/-- What is put on hold was free. -/
theorem free_hold (h : p.hold reason amount = some q) : q.free + amount = p.free := by
  unfold hold at h
  split at h
  · rename_i hle
    cases reason <;> cases h <;> exact Nat.sub_add_cancel hle
  · cases h

/-- What is released is free. -/
theorem free_release (h : p.release reason amount precision = some (q, released)) :
    q.free = p.free + released := by
  unfold release at h
  split at h
  · cases h
  · cases reason <;> cases h <;> rfl

theorem free_spend (h : p.spend amount = some q) : q.free + amount = p.free := by
  unfold spend at h
  split at h
  · rename_i hle
    cases h
    exact Nat.sub_add_cancel hle
  · cases h

/-- All that the pot has. -/
def total (p : Pot) : Nat := p.free + (p.onHold .payout + p.onHold .credit)

theorem total_hold (h : p.hold reason amount = some q) : q.total = p.total := by
  have hfree := free_hold h
  obtain ⟨hheld, hothers⟩ := onHold_hold h
  unfold total
  cases reason
  · have hother := hothers .credit (by decide)
    omega
  · have hother := hothers .payout (by decide)
    omega

theorem total_release (h : p.release reason amount precision = some (q, released)) : q.total = p.total := by
  have hfree := free_release h
  obtain ⟨-, -, hheld, hothers⟩ := onHold_release h
  unfold total
  cases reason
  · have hother := hothers .credit (by decide)
    omega
  · have hother := hothers .payout (by decide)
    omega

theorem eq_of_onHold (hpayout : p.onHold .payout = q.onHold .payout) (hcredit : p.onHold .credit = q.onHold .credit)
    (htotal : p.total = q.total) : p = q := by
  unfold total at htotal
  have hfree : p.free = q.free := by omega
  obtain ⟨free, payout, credit, _⟩ := p
  obtain ⟨_, _, _, _⟩ := q
  cases hfree
  cases hpayout
  cases hcredit
  rfl

theorem onHold_le (p : Pot) : p.onHold .payout + p.onHold .credit ≤ U128.max := by
  have := p.total_le
  show p.payout + p.credit ≤ U128.max
  omega

end Pot

/-! ### The ledger -/

/-- What the ledger allows on the pot, and a transfer out of it to an account; `W` is the type of
the states of the ledger's other accounts. -/
structure Currency (A : Type u) (W : Type v) where
  pot : A
  canHold : W → Pot → HoldReason → Nat → Bool
  canRelease : W → Pot → HoldReason → Nat → Bool
  transfer : W → Pot → A → Nat → Option W

namespace Currency
variable {A : Type u} {W : Type v} [DecidableEq A] (c : Currency A W) (w : W) (p : Pot)

def hold (reason : HoldReason) (amount : Nat) : Option Pot :=
  if c.canHold w p reason amount then p.hold reason amount else none

def release (reason : HoldReason) (amount : Nat) (precision : Precision) : Option (Pot × Nat) :=
  if c.canRelease w p reason amount then p.release reason amount precision else none

/-- Pay an amount out of the pot. -/
def pay (destination : A) (amount : Nat) : Option (W × Pot) :=
  match c.transfer w p destination amount, p.spend amount with
  | some w, some q => some (w, if destination = c.pot then p else q)
  | _, _ => none

variable {c w p} {q : Pot} {reason : HoldReason} {amount released : Nat} {precision : Precision}

omit [DecidableEq A] in
theorem hold_of_eq_some (h : c.hold w p reason amount = some q) : p.hold reason amount = some q := by
  unfold hold at h
  split at h
  · exact h
  · cases h

omit [DecidableEq A] in
theorem release_of_eq_some (h : c.release w p reason amount precision = some (q, released)) :
    p.release reason amount precision = some (q, released) := by
  unfold release at h
  split at h
  · exact h
  · cases h

/-- A payment takes nothing from what is on hold. -/
theorem onHold_pay {destination : A} {w' : W} (h : c.pay w p destination amount = some (w', q))
    (reason : HoldReason) : q.onHold reason = p.onHold reason := by
  unfold pay at h
  split at h
  · rename_i world pot hworld hpot
    cases h
    split
    · rfl
    · exact Pot.onHold_spend hpot reason
  · cases h

/-- A payment takes its amount out of what the pot can spend, unless it is to the pot itself. -/
theorem free_pay {destination : A} {w' : W} (h : c.pay w p destination amount = some (w', q)) :
    q.free ≤ p.free ∧ p.free ≤ q.free + amount := by
  unfold pay at h
  split at h
  · rename_i world pot hworld hpot
    cases h
    have hfree := Pot.free_spend hpot
    split <;> omega
  · cases h

end Currency
end Individuality.Support
