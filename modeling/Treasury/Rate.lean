import Treasury.Amount
import Treasury.Scale

/-! Conversions between the stable token and the shares of a pool with a fixed rate. The rate says
how many units of the stable token a share is worth, times `rateScale`. Whoever pays in or takes out
at a rate gets the rounded-down side; the two quotes that ask for enough round up. -/
namespace Treasury.Rate

/-- Shares minted for a deposit. -/
def sharesForDeposit (amount rate : Amount) : Result Amount := Amount.mulDiv amount rateScale rate

/-- Stable paid for shares. -/
def assetsForShares (shares rate : Amount) : Result Amount := Amount.mulDiv shares rate rateScale

/-- The least deposit that mints at least these shares. -/
def assetsForMint (shares rate : Amount) : Result Amount := Amount.mulDivCeil shares rate rateScale

/-- The least number of shares that pays at least this amount. -/
def sharesForAmount (amount rate : Amount) : Result Amount :=
  Amount.mulDivCeil amount rateScale rate

end Treasury.Rate
