import Treasury.Answer
import Treasury.Yield.Vault

/-! Calls to yield vaults. -/
namespace Treasury.Yield

/-- A call that only yield vaults take. -/
inductive Command where
  | deposit (assets : Amount) (receiver : Address)
  | redeem (shares : Amount) (receiver owner : Address)
  | accrueYield (amount : Amount)
deriving DecidableEq, Repr

/-- Run a call to a yield vault. -/
def Command.run (self caller : Address) : Command → Exec Answer
  | deposit assets receiver => .amount <$> Yield.deposit self caller assets receiver
  | redeem shares receiver owner => .amount <$> Yield.redeem self caller shares receiver owner
  | accrueYield amount => do
    Yield.accrueYield self caller amount
    pure .unit

end Treasury.Yield
