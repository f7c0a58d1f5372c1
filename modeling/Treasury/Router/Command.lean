import Treasury.Exec

/-! The calls that a router can get that may change its storage. All of them are guarded: none may
begin in a router in which one is running. -/
namespace Treasury.Router

/-- A call that may change a router's storage. -/
inductive Command where
  | handleDeposit (initiator : Address) (assets shares : Amount) (receiver : Address)
  | handleWithdraw (initiator receiver owner : Address) (gross expectedNet : Amount)
  | solverDepositByAssets (legs : List Pool.Leg) (minShares : Amount) (receiver : Address)
  | solverDepositByShares (legs : List Pool.Leg) (minShares : Amount) (receiver : Address)
  | solverWithdrawByAssets (legs : List Pool.Leg) (maxShares : Amount) (receiver owner : Address)
  | solverWithdrawByShares (legs : List Pool.Leg) (maxShares : Amount) (receiver owner : Address)
  | rebalanceByShares (giver taker : Address) (shares minResult : Amount)
  | rebalanceByValue (giver taker : Address) (value minResult : Amount)
  | rebalanceExternally (giver taker : Address) (amount minResult : Amount)
  | reinvestFees
  | recordShortfall (delta : Amount)
  | clearShortfall (delta : Amount)
  | registerAdapter (pool adapter : Address)
  | removeAdapter (pool : Address)
  | addPool (pool : Address) (target : Nat)
  | updatePoolTarget (pool : Address) (target : Nat)
  | setPoolStatus (pool : Address) (status : Pool.Status)
  | removePool (pool : Address)
  | replacePoolTargets (targets : List Pool.Target)
  | setDepositCap (cap : Amount)
  | setDustTolerance (tolerance : Amount)
  | setReinvestIncentive (incentive : Nat)
  | setWithdrawalFee (fee : Nat)
  | setMaxPoolCount (count : Nat)
  | setDefaultPool (pool : Option Address)
  | setShareToken (token : Address)
  | pause
  | unpause
  | grantRole (role : Nat) (account : Address)
  | revokeRole (role : Nat) (account : Address)
  | renounceRole (role : Nat)
deriving DecidableEq, Repr

/-- A router at work for a caller. -/
structure Frame where
  self : Address
  caller : Address
  /-- The routers in which a guarded call is running. -/
  locked : List Address
deriving DecidableEq, Repr

/-- How a contract calls a router from inside a call of a router. The answer is dropped. -/
abbrev Callback := Frame → Command → Exec Unit

/-- Run the body of a guarded entry point, with the router locked and its storage at hand. -/
def guarded {α : Type} (f : Frame) (entry : String) (body : Frame → State → Exec α) : Exec α :=
  Exec.entering f.caller f.self entry do
    let s : State ← View.callee entry f.self
    if f.self ∈ f.locked then
      throw .reentrantCall
    else
      body { f with locked := f.self :: f.locked } s

end Treasury.Router
