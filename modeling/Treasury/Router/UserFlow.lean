import Treasury.Router.PoolCycle
import Treasury.Router.Survey

/-! Deposits and withdrawals of users. The share token brings them to the router, which picks one
pool for each. -/
namespace Treasury.Router

/-- Stop unless the share token calls. -/
def requireShareToken (s : State) (caller : Address) : Result Unit :=
  ensure (s.shareToken = some caller) .unauthorizedToken

/-- Take a user's stable into the pool with the largest deficit. -/
def handleDeposit (back : Callback) (f : Frame) (initiator : Address) (assets shares : Amount)
    (receiver : Address) : Exec Unit :=
  guarded f "handle_deposit" fun f s => do
    s.requireRunning
    requireShareToken s f.caller
    ensure (assets ≠ 0 ∧ shares ≠ 0) .zeroAmount
    requireWithinCap f assets
    pullStable f initiator assets
    let pools ← snapshots s .deposit
    match (Pool.Ranking.depositPool pools).bind fun i => s.registry.toList[i]? with
    | none => refuse .poolNotDepositEligible
    | some config =>
      let poolShares ← depositIntoPool back f config assets
      Exec.emit f.self (.deposited initiator receiver config.pool assets poolShares)

/-- Pay a user out of the pool with the largest surplus that can cover the gross amount. What the
pool pays above the net amount is kept as a fee. -/
def handleWithdraw (f : Frame) (initiator receiver owner : Address) (gross expectedNet : Amount) :
    Exec Fee.Split :=
  guarded f "handle_withdraw" fun f s => do
    s.requireRunning
    requireShareToken s f.caller
    ensure (gross ≠ 0) .zeroAmount
    let split ← Fee.split gross s.withdrawalFee
    ensure (expectedNet ≤ split.net) .netBelowMinimum
    let pools ← snapshots s .withdrawal
    let i ← Pool.Ranking.withdrawalPool pools gross
    match s.registry.toList[i]? with
    | none => refuse .liquidityExhausted
    | some config =>
      let received ← withdrawValue f config gross
      Token.transfer f.self (← known s.stable) receiver split.net
      let kept ← Amount.sub received split.net
      Exec.update f.self fun s : State => s.collect kept
      Exec.emit f.self (.withdrawn initiator receiver owner config.pool gross split.net split.fee)
      pure split

end Treasury.Router
