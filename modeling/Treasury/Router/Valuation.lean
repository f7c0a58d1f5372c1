import Treasury.Custody.Valuation
import Treasury.Fee

/-! What the router manages: the value in custody, and the stable token that it holds itself. -/
namespace Treasury.Router

/-- The stable token that the router holds itself, which comes from fees. -/
def idleBalance (self : Address) : View Amount := do
  let s : State ← View.callee "idle_balance" self
  Token.balanceOf (← known s.stable) self

/-- All value that the router manages. -/
def totalManagedAssets (self : Address) : View Amount := do
  let s : State ← View.callee "total_managed_assets" self
  let value ← Custody.totalValue (← known s.custody)
  Amount.add value (← idleBalance self)

/-- The value that shares stand for: all managed value less the shortfall, and never below zero. -/
def tokenBacking (self : Address) : View Amount := do
  let s : State ← View.callee "token_backing" self
  let managed ← totalManagedAssets self
  pure (managed - s.shortfall)

/-- A withdrawal as net and fee, at the present fee. -/
def previewFee (self : Address) (gross : Amount) : View Fee.Split := do
  let s : State ← View.callee "preview_withdrawal_fee" self
  Fee.split gross s.withdrawalFee

end Treasury.Router
