/-! The fixed scales and limits of the treasury. -/
namespace Treasury

/-- The whole, for target weights, fees and incentives: one unit is a ten-thousandth of a percent.
-/
def weightScale : Nat := 1_000_000

/-- The whole, for allocation weights. -/
def allocationScale : Nat := 1_000_000_000_000_000_000

/-- The rate of one: a share of a fixed-rate pool that is worth one unit of the stable token. -/
def rateScale : Nat := 1_000_000_000_000_000_000

/-- The largest withdrawal fee, one percent. -/
def maxWithdrawalFee : Nat := 10_000

/-- The largest incentive for reinvesting fees, five percent. -/
def maxReinvestIncentive : Nat := 50_000

/-- The largest dust tolerance. -/
def maxDustTolerance : Nat := 1_000_000_000_000_000_000

/-- No registry may ever hold more pools than this. -/
def hardMaxPoolCount : Nat := 32

/-- The pool limit of a treasury that asks for no other. -/
def defaultMaxPoolCount : Nat := 16

/-- The dust tolerance of a treasury that asks for no other. -/
def defaultDustTolerance : Nat := 1_000

end Treasury
