import Treasury.Answer
import Treasury.Router.Governance
import Treasury.Router.Rebalance
import Treasury.Router.Reinvestment
import Treasury.Router.SolverFlow
import Treasury.Router.UserFlow

/-! Running a router's commands. A command may lead to a pool whose adapter calls a router back;
that call runs in the same way, one level deeper. Each level locks one more router, so as many
levels as there are contracts are enough. -/
namespace Treasury.Router

/-- Run a command, with `back` for the calls that come back to a router in the middle of it. -/
def run (back : Callback) (f : Frame) : Command → Exec Answer
  | .handleDeposit initiator assets shares receiver => do
    handleDeposit back f initiator assets shares receiver
    pure .unit
  | .handleWithdraw initiator receiver owner gross expectedNet => do
    let split ← handleWithdraw f initiator receiver owner gross expectedNet
    pure (.amounts split.net split.fee)
  | .solverDepositByAssets legs minShares receiver =>
    .amount <$> solverDepositByAssets back f legs minShares receiver
  | .solverDepositByShares legs minShares receiver =>
    .amount <$> solverDepositByShares back f legs minShares receiver
  | .solverWithdrawByAssets legs maxShares receiver owner =>
    .amount <$> solverWithdrawByAssets f legs maxShares receiver owner
  | .solverWithdrawByShares legs maxShares receiver owner => do
    let split ← solverWithdrawByShares f legs maxShares receiver owner
    pure (.amounts split.net split.fee)
  | .rebalanceByShares giver taker shares minResult =>
    .amount <$> rebalanceByShares back f giver taker shares minResult
  | .rebalanceByValue giver taker value minResult =>
    .amount <$> rebalanceByValue back f giver taker value minResult
  | .rebalanceExternally giver taker amount minResult =>
    .amount <$> rebalanceExternally back f giver taker amount minResult
  | .reinvestFees => do
    let done ← reinvestFees back f
    pure (.amounts done.reinvested done.incentive)
  | .recordShortfall delta => do recordShortfall f delta; pure .unit
  | .clearShortfall delta => do clearShortfall f delta; pure .unit
  | .registerAdapter pool adapter => do registerAdapter back f pool adapter; pure .unit
  | .removeAdapter pool => do removeAdapter f pool; pure .unit
  | .addPool pool target => do addPool f pool target; pure .unit
  | .updatePoolTarget pool target => do updatePoolTarget f pool target; pure .unit
  | .setPoolStatus pool status => do setPoolStatus f pool status; pure .unit
  | .removePool pool => do removePool f pool; pure .unit
  | .replacePoolTargets targets => do replacePoolTargets f targets; pure .unit
  | .setDepositCap cap => do setDepositCap f cap; pure .unit
  | .setDustTolerance tolerance => do setDustTolerance f tolerance; pure .unit
  | .setReinvestIncentive incentive => do setReinvestIncentive f incentive; pure .unit
  | .setWithdrawalFee fee => do setWithdrawalFee f fee; pure .unit
  | .setMaxPoolCount count => do setMaxPoolCount f count; pure .unit
  | .setDefaultPool pool => do setDefaultPool f pool; pure .unit
  | .setShareToken token => do setShareToken f token; pure .unit
  | .pause => do pause f; pure .unit
  | .unpause => do unpause f; pure .unit
  | .grantRole role account => do
    changeRoles f "grant_role" fun r => r.grant f.caller role account
    pure .unit
  | .revokeRole role account => do
    changeRoles f "revoke_role" fun r => r.revoke f.caller role account
    pure .unit
  | .renounceRole role => do
    changeRoles f "renounce_role" fun r => r.renounce f.caller role
    pure .unit

/-- A router call from inside a call, at most this many levels deep. -/
def nested : Nat → Callback
  | 0, _, _ => throw .callDepthExceeded
  | depth + 1, f, command => discard (run (nested depth) f command)

end Treasury.Router
