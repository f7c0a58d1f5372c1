import Treasury.Address
import Treasury.Amount
import Treasury.Pool.Status

/-! What contracts announce. Only the router and the custody contract announce anything. -/
namespace Treasury

/-- An announcement. -/
inductive Event where
  | poolAdded (pool adapter : Address) (target : Nat)
  | poolRemoved (pool : Address)
  | poolTargetUpdated (pool : Address) (previous new : Nat)
  | poolStatusChanged (pool : Address) (previous current : Pool.Status)
  | targetsReplaced (poolCount : Nat)
  | adapterRegistered (pool adapter : Address)
  | adapterRemoved (pool adapter : Address)
  | deposited (initiator receiver pool : Address) (assets poolShares : Amount)
  | withdrawn (initiator receiver owner pool : Address) (gross net fee : Amount)
  | solverDeposit (solver receiver : Address) (assets shares : Amount) (legs : Nat)
  | solverWithdraw (solver receiver owner : Address) (net fee shares : Amount) (legs : Nat)
  | rebalanced (giver taker : Address) (pulled deposited minted : Amount)
  | feesReinvested (keeper pool : Address) (reinvested incentive : Amount)
  | shortfallRecorded (delta shortfall : Amount)
  | shortfallCleared (delta shortfall : Amount)
  | parameterUpdated (name : String) (value : Amount)
  | defaultPoolUpdated (pool : Option Address)
  | pausedStateChanged (paused : Bool) (by_ : Address)
  | vaultRouterUpdated (previous : Option Address) (current : Address)
  | sharesTransferred (pool : Address) (amount : Amount) (recipient : Address)
deriving DecidableEq, Repr

end Treasury
