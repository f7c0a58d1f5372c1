import Treasury.Address
import Treasury.Amount
import Treasury.Table

/-! The books of a token: balances, allowances and the supply. The contract that owns a ledger says
who calls; the ledger only keeps the books. -/
namespace Treasury.Token

/-- Balances, allowances and supply. -/
structure Ledger where
  /-- All units in existence. -/
  supply : Amount := 0
  /-- What each address owns. -/
  balances : Table Address Amount := .const 0
  /-- What an owner lets a spender move, by the pair of owner and spender. -/
  allowances : Table (Address × Address) Amount := .const 0

namespace Ledger

/-- What an address owns. -/
def balanceOf (l : Ledger) (account : Address) : Amount := l.balances.read account

/-- What `owner` lets `spender` move. -/
def allowance (l : Ledger) (owner spender : Address) : Amount := l.allowances.read (owner, spender)

/-- Take an amount out of a balance. -/
def debit (l : Ledger) (account : Address) (amount : Amount) : Result Ledger := do
  ensure (amount ≤ l.balanceOf account) .insufficientBalance
  pure { l with balances := l.balances.write account (l.balanceOf account - amount) }

/-- Put an amount into a balance. -/
def credit (l : Ledger) (account : Address) (amount : Amount) : Result Ledger := do
  let balance ← Amount.add (l.balanceOf account) amount
  pure { l with balances := l.balances.write account balance }

/-- Move an amount. Giver and taker may be the same. -/
def transfer (l : Ledger) (giver taker : Address) (amount : Amount) : Result Ledger := do
  (← l.debit giver amount).credit taker amount

/-- Set an allowance. -/
def approve (l : Ledger) (owner spender : Address) (amount : Amount) : Ledger :=
  { l with allowances := l.allowances.write (owner, spender) amount }

/-- Use up a part of an allowance. -/
def spendAllowance (l : Ledger) (owner spender : Address) (amount : Amount) : Result Ledger := do
  ensure (amount ≤ l.allowance owner spender) .insufficientAllowance
  pure (l.approve owner spender (l.allowance owner spender - amount))

/-- Move an amount of the owner's on the strength of an allowance. -/
def transferFrom (l : Ledger) (spender owner taker : Address) (amount : Amount) :
    Result Ledger := do
  (← l.spendAllowance owner spender amount).transfer owner taker amount

/-- Bring new units into existence. -/
def mint (l : Ledger) (account : Address) (amount : Amount) : Result Ledger := do
  let credited ← l.credit account amount
  let supply ← Amount.add l.supply amount
  pure { credited with supply }

/-- Take units out of existence. -/
def burn (l : Ledger) (account : Address) (amount : Amount) : Result Ledger := do
  let debited ← l.debit account amount
  let supply ← Amount.sub l.supply amount
  pure { debited with supply }

end Ledger

end Treasury.Token
