import Treasury.Custody.Keeping
import Treasury.Router.Valuation
import Treasury.Strategy.Execution

/-! Moving value between the router and one pool. The router trusts no report of an adapter: it
measures what has really moved, and asks for at least what was quoted. Allowances that it gives for
a move are set back to zero afterwards. -/
namespace Treasury.Router

/-- Deposit the router's own stable into a pool. The result is how many shares the custody contract
has gained. -/
def depositIntoPool (back : Callback) (f : Frame) (config : Pool.Config) (amount : Amount) :
    Exec Amount := do
  let s : State ← View.load f.self
  let quote ← Strategy.previewDeposit config.adapter amount
  ensure (quote.pool = config.pool) .poolMismatch
  let custody ← known s.custody
  let heldBefore ← Custody.poolBalance custody config.pool
  let stable ← known s.stable
  Token.approve f.self stable config.adapter amount
  let minted ← Strategy.deposit back f.locked config.adapter f.self amount
  Token.approve f.self stable config.adapter 0
  ensure (minted.pool = config.pool) .poolMismatch
  let heldAfter ← Custody.poolBalance custody config.pool
  ensure (heldBefore ≤ heldAfter ∧ quote.shares ≤ heldAfter - heldBefore) .slippageExceeded
  ensure (minted.shares = heldAfter - heldBefore) .sharesMismatch
  pure (heldAfter - heldBefore)

/-- Turn shares of a pool into the router's own stable. The result is how much stable the router has
gained. -/
def withdrawShares (f : Frame) (config : Pool.Config) (shares : Amount) : Exec Amount := do
  let s : State ← View.load f.self
  let quote ← Strategy.previewWithdraw config.adapter shares
  let stable ← known s.stable
  let idleBefore ← Token.balanceOf stable f.self
  let custody ← known s.custody
  Custody.transferShares custody f.self config.pool shares f.self
  Token.approve f.self config.pool config.adapter shares
  let reported ← Strategy.withdraw config.adapter f.self shares
  Token.approve f.self config.pool config.adapter 0
  let idleAfter ← Token.balanceOf stable f.self
  let received := idleAfter - idleBefore
  ensure (reported = received) .amountMismatch
  ensure (quote ≤ received) .slippageExceeded
  pure received

/-- Turn enough shares of a pool into the router's own stable to gain at least `value`. -/
def withdrawValue (f : Frame) (config : Pool.Config) (value : Amount) : Exec Amount := do
  let shares ← Strategy.previewShares config.adapter value
  ensure (shares ≠ 0) .zeroAmount
  let received ← withdrawShares f config shares
  ensure (value ≤ received) .slippageExceeded
  pure received

/-- Take stable from an account that has allowed the router to. -/
def pullStable (f : Frame) (owner : Address) (amount : Amount) : Exec Unit := do
  let s : State ← View.load f.self
  Token.transferFrom f.self (← known s.stable) owner f.self amount

/-- Stop if the deposit cap does not leave room for this amount. -/
def requireWithinCap (f : Frame) (incoming : Amount) : View Unit := do
  let s : State ← View.load f.self
  if s.depositCap = 0 then
    pure ()
  else
    let after ← Amount.add (← totalManagedAssets f.self) incoming
    ensure (after ≤ s.depositCap) .depositCapExceeded

end Treasury.Router
