import Treasury.Router.PoolCycle

/-! Moving value between pools. An operator names a pool to take from and a pool to give to; the
value that arrives may fall short of the value that left by no more than the dust tolerance. A move
below the dust tolerance is not made. -/
namespace Treasury.Router

/-- A pool to take from and a pool to give to. -/
structure Pair where
  giver : Pool.Config
  taker : Pool.Config
deriving DecidableEq, Repr, Inhabited

/-- Find the two pools of a move. -/
def pairOf (registry : Pool.Registry) (giver taker : Address) : Result Pair := do
  ensure (giver ≠ taker) .duplicatePool
  let giver ← registry.require giver
  let taker ← registry.require taker
  ensure (giver.status.servesWithdrawals = true) .poolNotWithdrawalEligible
  ensure (taker.status.acceptsDeposits = true) .poolNotDepositEligible
  pure ⟨giver, taker⟩

/-- Stop if too little value has arrived, or too few shares were minted. -/
def checkMove (s : State) (pulled deposited minted minResult : Amount) : Result Unit := do
  ensure (pulled - deposited ≤ s.dustTolerance) .rebalanceDrift
  ensure (minResult ≤ minted) .slippageExceeded

/-- Deposit what was pulled out of one pool into the other. -/
def redeposit (back : Callback) (f : Frame) (s : State) (pair : Pair)
    (pulled minResult : Amount) : Exec Amount := do
  let minted ← depositIntoPool back f pair.taker pulled
  let deposited ← Strategy.valueOf pair.taker.adapter pair.taker.pool minted
  checkMove s pulled deposited minted minResult
  Exec.emit f.self (.rebalanced pair.giver.pool pair.taker.pool pulled deposited minted)
  pure minted

/-- Move a number of shares of one pool to another. -/
def rebalanceByShares (back : Callback) (f : Frame) (giver taker : Address)
    (shares minResult : Amount) : Exec Amount :=
  guarded f "rebalance_by_shares" fun f s => do
    s.requireRunning
    s.roles.requireRoleOrAdmin Roles.operator f.caller
    let pair ← pairOf s.registry giver taker
    ensure (shares ≠ 0) .zeroAmount
    let value ← Strategy.previewWithdraw pair.giver.adapter shares
    if value < s.dustTolerance then
      pure 0
    else
      let pulled ← withdrawShares f pair.giver shares
      redeposit back f s pair pulled minResult

/-- Move stable worth `value` from one pool to another. -/
def rebalanceByValue (back : Callback) (f : Frame) (giver taker : Address)
    (value minResult : Amount) : Exec Amount :=
  guarded f "rebalance_by_value" fun f s => do
    s.requireRunning
    s.roles.requireRoleOrAdmin Roles.operator f.caller
    let pair ← pairOf s.registry giver taker
    ensure (value ≠ 0) .zeroAmount
    if value < s.dustTolerance then
      pure 0
    else
      let pulled ← withdrawValue f pair.giver value
      redeposit back f s pair pulled minResult

/-- How many shares of a pool may be released for a value: the quote for it, one less if the quote
is worth more, and no more than the custody contract holds. -/
def releasable (custody : Address) (config : Pool.Config) (value : Amount) : View Amount := do
  let quote ← Strategy.previewShares config.adapter value
  let fitting ← if quote = 0 then pure 0 else do
    let worth ← Strategy.valueOf config.adapter config.pool quote
    pure (if value < worth then quote - 1 else quote)
  pure (min fitting (← Custody.poolBalance custody config.pool))

/-- Deposit the operator's stable into one pool, and give the operator shares of the other that are
worth no more. -/
def rebalanceExternally (back : Callback) (f : Frame) (giver taker : Address)
    (amount minResult : Amount) : Exec Amount :=
  guarded f "rebalance_via_external_liquidity" fun f s => do
    s.requireRunning
    s.roles.requireRoleOrAdmin Roles.operator f.caller
    let pair ← pairOf s.registry giver taker
    ensure (amount ≠ 0) .zeroAmount
    if amount < s.dustTolerance then
      pure 0
    else
      pullStable f f.caller amount
      let minted ← depositIntoPool back f pair.taker amount
      let deposited ← Strategy.valueOf pair.taker.adapter taker minted
      checkMove s amount deposited minted minResult
      let custody ← known s.custody
      let released ← releasable custody pair.giver deposited
      if released ≠ 0 then
        Custody.transferShares custody f.self giver released f.caller
      Exec.emit f.self (.rebalanced giver taker amount deposited minted)
      pure minted

end Treasury.Router
