import Treasury.Amount
import Treasury.Scale

/-! Fees on withdrawals and incentives on reinvested fees. Rates are parts of `weightScale`, and
both round down, so a payer is never charged more than the rate says. -/
namespace Treasury.Fee

/-- A withdrawal after the fee has been split off. -/
structure Split where
  /-- What the receiver gets. -/
  net : Amount
  /-- What stays with the treasury. -/
  fee : Amount
deriving DecidableEq, Repr, Inhabited

/-- The part of `amount` that a rate takes. -/
def part (amount rate : Amount) : Result Amount := Amount.mulDiv amount rate weightScale

/-- The gross amount of a withdrawal as net and fee. -/
def split (gross rate : Amount) : Result Split := do
  let fee ← part gross rate
  let net ← Amount.sub gross fee
  pure ⟨net, fee⟩

/-- A net amount agrees with the net value of the shares burned for it if that value is the same or
larger by one unit of rounding. -/
def reconciles (net netByShares : Amount) : Bool := net ≤ netByShares && netByShares - net ≤ 1

end Treasury.Fee
