import Treasury.Token.Ledger
import Treasury.Token.Published

/-! The stable token, in which everything is counted. It keeps a ledger, publishes each value that it
writes there as it writes it, and lets only minters create units. -/
namespace Treasury.Token

/-- The stable token's storage. -/
structure Stable where
  name : String := ""
  symbol : String := ""
  decimals : Nat := 18
  ledger : Ledger := {}
  /-- Chooses the minters. -/
  admin : Option Address := none
  /-- Who may create units. -/
  minters : Table Address Bool := .const false
  published : Published := {}

namespace Stable

/-- Set the token up. The admin is the first minter, and the supply is counted from zero. -/
def construct (t : Stable) (admin : Address) (name symbol : String) (decimals : Nat) : Stable :=
  { t with
    name, symbol, decimals
    ledger := { t.ledger with supply := 0 }
    admin := some admin
    minters := t.minters.write admin true
    published := { t.published with
      name := some name
      symbol := some symbol
      decimals := some decimals
      totalSupply := some 0 } }

/-- Set what an account owns, in the books and in what is published. -/
def setBalance (t : Stable) (account : Address) (amount : Amount) : Stable :=
  { t with
    ledger := { t.ledger with balances := t.ledger.balances.write account amount }
    published := t.published.setBalance account amount }

/-- Set the supply, in the books and in what is published. -/
def setSupply (t : Stable) (amount : Amount) : Stable :=
  { t with
    ledger := { t.ledger with supply := amount }
    published := { t.published with totalSupply := some amount } }

/-- Set an allowance of the caller's, in the books and in what is published. -/
def approve (t : Stable) (owner spender : Address) (amount : Amount) : Stable :=
  { t with
    ledger := t.ledger.approve owner spender amount
    published := t.published.setAllowance owner spender amount }

/-- Move an amount of the caller's. Giver and taker may be the same. -/
def transfer (t : Stable) (giver taker : Address) (amount : Amount) : Result Stable := do
  ensure (amount ≤ t.ledger.balanceOf giver) .insufficientBalance
  let paid := t.setBalance giver (t.ledger.balanceOf giver - amount)
  let balance ← Amount.add (paid.ledger.balanceOf taker) amount
  pure (paid.setBalance taker balance)

/-- Move an amount of the owner's on the strength of an allowance to the caller. -/
def transferFrom (t : Stable) (spender owner taker : Address) (amount : Amount) :
    Result Stable := do
  let allowed := t.ledger.allowance owner spender
  ensure (amount ≤ allowed) .insufficientAllowance
  let moved ← t.transfer owner taker amount
  pure (moved.approve owner spender (allowed - amount))

/-- A minter creates units. -/
def mint (t : Stable) (caller account : Address) (amount : Amount) : Result Stable := do
  ensure (t.minters.read caller = true) .unauthorized
  let balance ← Amount.add (t.ledger.balanceOf account) amount
  let credited := t.setBalance account balance
  let supply ← Amount.add credited.ledger.supply amount
  pure (credited.setSupply supply)

/-- The caller destroys units of its own. -/
def burn (t : Stable) (caller : Address) (amount : Amount) : Result Stable := do
  ensure (amount ≤ t.ledger.balanceOf caller) .insufficientBalance
  let debited := t.setBalance caller (t.ledger.balanceOf caller - amount)
  let supply ← Amount.sub debited.ledger.supply amount
  pure (debited.setSupply supply)

/-- The admin makes an account a minter, or no minter. -/
def setMinter (t : Stable) (caller account : Address) (allowed : Bool) : Result Stable := do
  ensure (t.admin = some caller) .unauthorized
  pure { t with minters := t.minters.write account allowed }

end Stable

end Treasury.Token
