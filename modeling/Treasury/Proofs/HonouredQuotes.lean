import Treasury.Proofs.AdapterQuotes
import Treasury.Proofs.LegOrder
import Treasury.Proofs.Listings
import Treasury.Proofs.Trusting

/-! Quotes are honoured. At every moment at which an adapter offers a pool that can pay, a deposit
and a withdrawal through it come to what was quoted. So a router that moves stable into the pool or
out of it measures what it was told to expect, and has no cause for distrust. -/
namespace Treasury

open Exec Chain

/-- The adapter at `x` offers the pool at `p` in a stable token. A pool that is a yield vault holds
at least a unit for each of its shares. -/
structure Chain.Fair (c : Chain) (t k x p : Address) : Prop where
  unit : c.kind? t = some .stable
  offers : c.Offers t k x p
  backed : c.kind? p = some .yieldVault → c.supply p ≤ c.balance t p

section Moments

variable {c c₁ c' : Chain} {t k x p q r caller owner spender giver : Address} {n m shares : Nat}

theorem Chain.Prices.of_approve (hMove : c.Moves q (.approve owner spender n) c') :
    c.Prices t p c' :=
  ⟨hMove.alike, hMove.supply p, hMove.balance_approve t p⟩

theorem Chain.Prices.trans (h : c.Prices t p c₁) (h' : c₁.Prices t p c') : c.Prices t p c' :=
  ⟨h.alike.trans h'.alike, h'.supply.trans h.supply, h'.held.trans h.held⟩

namespace Chain.TakesIn

/-- Allowances can be given before. -/
theorem after_approve (hMove : c.Moves q (.approve owner spender m) c₁)
    (h : c₁.TakesIn t p k giver n shares c') : c.TakesIn t p k giver n shares c' where
  alike := hMove.alike.trans h.alike
  stable b := by
    rw [h.stable, hMove.balance_approve]
  shares b := by
    rw [h.shares, hMove.balance_approve]
  supply b hb := (h.supply b hb).trans (hMove.supply b)

end Chain.TakesIn

namespace Chain.Fair

variable {back : Router.Callback} {locked : List Address} {minted : Strategy.Minted}
  {paid : Amount} {es : List (Address × Event)}

theorem ends_deposit (h : c.Fair t k x p) (hCaller : caller ≠ p)
    (hEnds : Ends (Strategy.deposit back locked x caller n) c minted c' es) :
    Strategy.previewDeposit x n c = .ok minted ∧ minted.pool = p ∧ n ≠ 0 ∧
      c.TakesIn t p k caller n minted.shares c' := by
  obtain ⟨v, rfl, hDone⟩ :=
    hEnds.after (Strategy.after_deposit_quoted (w := { chain := c }) h.offers h.unit hCaller)
  exact hDone

theorem ends_withdraw (h : c.Fair t k x p)
    (hEnds : Ends (Strategy.withdraw x caller n) c paid c' es) :
    Strategy.previewWithdraw x n c = .ok paid ∧ c.PaysOut t p caller n paid c' := by
  obtain ⟨v, rfl, hDone⟩ :=
    hEnds.after (Strategy.after_withdraw_quoted (w := { chain := c }) h.offers h.unit)
  exact hDone

end Chain.Fair

end Moments

/-- The router at `r` deals in the token at `t`, and its custody contract is at `k`. -/
structure Chain.Manages (c : Chain) (r t k : Address) : Prop where
  state : ∃ s, c.contract? r = some (.router s) ∧ s.stable = some t ∧ s.custody = some k

namespace Chain.Manages

variable {c c' : Chain} {r t k : Address}

theorem alike (h : c.Manages r t k) (hAlike : Alike c c') : c'.Manages r t k := by
  obtain ⟨s, hs, hLinks⟩ := h.state
  exact ⟨s, hAlike.router hs, hLinks⟩

end Chain.Manages

namespace Router

variable {back : Callback} [back.Adds] {f : Frame} {config : Pool.Config} {c c' : Chain}
  {t k : Address} {n got : Nat} {es : List (Address × Event)}

end Router

end Treasury
