import Treasury.Pool.Registry
import Treasury.Roles
import Treasury.Scale

/-! The router's storage: the registered pools, the roles, the addresses of the other contracts, the
parameters, and what fees have gone where. -/
namespace Treasury.Router

/-- What has become of fees so far. -/
structure FeeStats where
  /-- Kept back from withdrawals, rounding included. -/
  collected : Amount := 0
  /-- Deposited again. -/
  reinvested : Amount := 0
  /-- Paid out for reinvesting. -/
  incentives : Amount := 0
deriving DecidableEq, Repr, Inhabited

/-- The router's parameters as reports show them. -/
structure Summary where
  dustTolerance : Amount
  maxPoolCount : Nat
  depositCap : Amount
  shortfall : Amount
  reinvestIncentive : Nat
  withdrawalFee : Nat
  defaultPool : Option Address
  paused : Bool
deriving DecidableEq, Repr, Inhabited

/-- The parameters with which a router starts. -/
structure Setup where
  admin : Address
  stable : Address
  custody : Address
  withdrawalFee : Nat
  dustTolerance : Amount
  depositCap : Amount
  reinvestIncentive : Nat
  maxPoolCount : Nat
deriving DecidableEq, Repr, Inhabited

/-- The storage of a router. -/
structure State where
  registry : Pool.Registry := {}
  roles : Roles := {}
  stable : Option Address := none
  custody : Option Address := none
  shareToken : Option Address := none
  /-- Differences of value below this do not matter. -/
  dustTolerance : Amount := 0
  maxPoolCount : Nat := 0
  /-- All managed value may not exceed this by a deposit. Zero means no limit. -/
  depositCap : Amount := 0
  /-- Value that shares have been issued for but that is not there. -/
  shortfall : Amount := 0
  /-- The keeper's part of reinvested fees, in units of `weightScale`. -/
  reinvestIncentive : Nat := 0
  /-- The part kept back from withdrawals, in units of `weightScale`. -/
  withdrawalFee : Nat := 0
  /-- The pool that reinvested fees go to. -/
  defaultPool : Option Address := none
  paused : Bool := false
  fees : FeeStats := {}

namespace State

/-- Set a router up. The limits on the parameters are checked first; a router that has had a first
admin cannot be set up again. -/
def construct (s : State) (p : Setup) : Result State := do
  ensure (p.withdrawalFee ≤ maxWithdrawalFee ∧ p.reinvestIncentive ≤ maxReinvestIncentive ∧
    p.dustTolerance ≤ maxDustTolerance ∧ p.maxPoolCount ≠ 0 ∧
    p.maxPoolCount ≤ hardMaxPoolCount) .invalidConfig
  let roles ← s.roles.found p.admin
  pure {
    registry := s.registry
    roles
    stable := some p.stable
    custody := some p.custody
    dustTolerance := p.dustTolerance
    maxPoolCount := p.maxPoolCount
    depositCap := p.depositCap
    reinvestIncentive := p.reinvestIncentive
    withdrawalFee := p.withdrawalFee }

/-- The parameters as reports show them. -/
def summary (s : State) : Summary where
  dustTolerance := s.dustTolerance
  maxPoolCount := s.maxPoolCount
  depositCap := s.depositCap
  shortfall := s.shortfall
  reinvestIncentive := s.reinvestIncentive
  withdrawalFee := s.withdrawalFee
  defaultPool := s.defaultPool
  paused := s.paused

/-- Stop while the router is paused. -/
def requireRunning (s : State) : Result Unit := ensure (s.paused = false) .paused

/-- Add to the fees kept back. -/
def collect (s : State) (amount : Amount) : Result State := do
  let collected ← Amount.add s.fees.collected amount
  pure { s with fees := { s.fees with collected } }

/-- Add to the fees reinvested and paid out. -/
def reinvest (s : State) (reinvested incentive : Amount) : Result State := do
  let reinvested ← Amount.add s.fees.reinvested reinvested
  let incentives ← Amount.add s.fees.incentives incentive
  pure { s with fees := { s.fees with reinvested, incentives } }

end State

end Treasury.Router
