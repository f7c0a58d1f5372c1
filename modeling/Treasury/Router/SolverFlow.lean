import Treasury.Router.PoolCycle
import Treasury.Router.Survey
import Treasury.Share.Price

/-! Deposits and withdrawals of solvers, who name the pools and the amounts themselves. -/
namespace Treasury.Router

/-- A leg with the pool that it names. -/
structure Part where
  config : Pool.Config
  amount : Amount
deriving DecidableEq, Repr, Inhabited

/-- Stop unless a pool of this status may be used in a direction. -/
def Direction.require : Direction → Pool.Status → Result Unit
  | deposit, status => ensure (status.acceptsDeposits = true) .poolNotDepositEligible
  | withdrawal, status => ensure (status.servesWithdrawals = true) .poolNotWithdrawalEligible

/-- Find the pools that legs name. No amount may be zero, no pool may be named twice, and each has
to be registered and usable. -/
def resolve (registry : Pool.Registry) (direction : Direction) (seen : List Address) :
    List Pool.Leg → Result (List Part)
  | [] => pure []
  | leg :: rest => do
    ensure (leg.amount ≠ 0) .zeroAmount
    ensure (leg.pool ∉ seen) .duplicatePool
    let config ← registry.require leg.pool
    direction.require config.status
    let parts ← resolve registry direction (leg.pool :: seen) rest
    pure (⟨config, leg.amount⟩ :: parts)

/-- Find the pools that the legs of a call name. There has to be a leg. -/
def resolveAll (registry : Pool.Registry) (direction : Direction) (legs : List Pool.Leg) :
    Result (List Part) := do
  ensure (legs ≠ []) .emptyLegs
  resolve registry direction [] legs

/-- What a solver pays into one pool, and the shares that have to come of it. -/
structure Purchase where
  config : Pool.Config
  pay : Amount
  atLeast : Amount
deriving DecidableEq, Repr, Inhabited

/-- The purchases of a deposit that names stable amounts. -/
def purchasesOfAssets (parts : List Part) : List Purchase :=
  parts.map fun part => ⟨part.config, part.amount, 0⟩

/-- The purchases of a deposit that names pool shares: each pays what is quoted for minting them. -/
def purchasesOfShares (parts : List Part) : View (List Purchase) :=
  parts.mapM fun part => do
    pure ⟨part.config, ← Strategy.previewMint part.config.adapter part.amount, part.amount⟩

/-- Carry out one purchase. -/
def purchase (back : Callback) (f : Frame) (p : Purchase) : Exec Unit := do
  let minted ← depositIntoPool back f p.config p.pay
  ensure (p.atLeast ≤ minted) .slippageExceeded

/-- Take a solver's stable, carry out all purchases, and issue shares for the whole. -/
def solverDeposit (back : Callback) (f : Frame) (s : State) (purchases : List Purchase)
    (minShares : Amount) (receiver : Address) : Exec Amount := do
  let total ← Amount.sum (purchases.map Purchase.pay)
  ensure (total ≠ 0) .zeroAmount
  requireWithinCap f total
  let token ← known s.shareToken
  let shares ← ShareToken.previewDeposit token total
  ensure (shares ≠ 0) .zeroAmount
  ensure (minShares ≤ shares) .sharesBelowMinimum
  pullStable f f.caller total
  purchases.forM (purchase back f)
  ShareToken.mintFor token f.self receiver shares
  Exec.emit f.self (.solverDeposit f.caller receiver total shares purchases.length)
  pure shares

/-- A solver deposits stable, split over the legs. -/
def solverDepositByAssets (back : Callback) (f : Frame) (legs : List Pool.Leg)
    (minShares : Amount) (receiver : Address) : Exec Amount :=
  guarded f "solver_deposit_by_assets" fun f s => do
    s.requireRunning
    s.roles.requireRole Roles.solver f.caller
    let parts ← resolveAll s.registry .deposit legs
    solverDeposit back f s (purchasesOfAssets parts) minShares receiver

/-- A solver deposits enough stable to mint the pool shares of each leg. -/
def solverDepositByShares (back : Callback) (f : Frame) (legs : List Pool.Leg)
    (minShares : Amount) (receiver : Address) : Exec Amount :=
  guarded f "solver_deposit_by_shares" fun f s => do
    s.requireRunning
    s.roles.requireRole Roles.solver f.caller
    let parts ← resolveAll s.registry .deposit legs
    solverDeposit back f s (← purchasesOfShares parts) minShares receiver

/-- Pay the receiver of a solver's withdrawal, destroy the owner's shares, and keep the rest as a
fee. -/
def settleWithdrawal (f : Frame) (s : State) (token receiver owner : Address)
    (split : Fee.Split) (kept shares : Amount) (legs : Nat) : Exec Unit := do
  Token.transfer f.self (← known s.stable) receiver split.net
  ShareToken.burnFor token f.self f.caller owner shares
  Exec.update f.self fun s : State => s.collect kept
  Exec.emit f.self (.solverWithdraw f.caller receiver owner split.net split.fee shares legs)

/-- A solver withdraws stable amounts from the legs' pools at the cost of the owner's shares. -/
def solverWithdrawByAssets (f : Frame) (legs : List Pool.Leg) (maxShares : Amount)
    (receiver owner : Address) : Exec Amount :=
  guarded f "solver_withdraw_by_assets" fun f s => do
    s.requireRunning
    s.roles.requireRole Roles.solver f.caller
    let parts ← resolveAll s.registry .withdrawal legs
    let gross ← Amount.sum (parts.map Part.amount)
    let token ← known s.shareToken
    let shares ← ShareToken.previewWithdraw token gross
    ensure (shares ≤ maxShares) .sharesAboveMaximum
    let received ← parts.foldlM (fun received part => do
      Amount.add received (← withdrawValue f part.config part.amount)) 0
    let split ← Fee.split gross s.withdrawalFee
    let kept ← Amount.sub received split.net
    settleWithdrawal f s token receiver owner split kept shares legs.length
    pure split.net

/-- A solver withdraws pool shares from the legs' pools at the cost of the owner's shares. What the
pools pay above their quotes is added to the fee. -/
def solverWithdrawByShares (f : Frame) (legs : List Pool.Leg) (maxShares : Amount)
    (receiver owner : Address) : Exec Fee.Split :=
  guarded f "solver_withdraw_by_shares" fun f s => do
    s.requireRunning
    s.roles.requireRole Roles.solver f.caller
    let parts ← resolveAll s.registry .withdrawal legs
    let gross ← parts.foldlM (fun gross part => do
      Amount.add gross (← Strategy.previewWithdraw part.config.adapter part.amount)) 0
    ensure (gross ≠ 0) .zeroAmount
    let split ← Fee.split gross s.withdrawalFee
    let token ← known s.shareToken
    let shares ← ShareToken.previewWithdraw token gross
    ensure (shares ≤ maxShares) .sharesAboveMaximum
    let netByShares ← ShareToken.previewRedeem token shares
    ensure (Fee.reconciles split.net netByShares = true) .roundingMismatch
    let received ← parts.foldlM (fun received part => do
      Amount.add received (← withdrawShares f part.config part.amount)) 0
    let fee ← Amount.add split.fee (← Amount.sub received gross)
    settleWithdrawal f s token receiver owner ⟨split.net, fee⟩ fee shares legs.length
    pure ⟨split.net, fee⟩

end Treasury.Router
