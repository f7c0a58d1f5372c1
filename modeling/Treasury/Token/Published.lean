import Treasury.Address
import Treasury.Amount
import Treasury.Table

/-! What wallets read of a token: two dictionaries by the text of keys, and four named values. An
entry that was never written is absent, which readers see. -/
namespace Treasury.Token

/-- The published copy of a token's books. -/
structure Published where
  /-- Balances by the key of the owner. -/
  balances : Table String (Option Amount) := .const none
  /-- Allowances by the key of owner and spender. -/
  allowances : Table String (Option Amount) := .const none
  name : Option String := none
  symbol : Option String := none
  decimals : Option Nat := none
  totalSupply : Option Amount := none

namespace Published

/-- Publish a balance. -/
def setBalance (m : Published) (owner : Address) (amount : Amount) : Published :=
  { m with balances := m.balances.write owner.keyText (some amount) }

/-- Publish an allowance. -/
def setAllowance (m : Published) (owner spender : Address) (amount : Amount) : Published :=
  { m with allowances := m.allowances.write (owner.pairKeyText spender) (some amount) }

/-- An entry of a dictionary. Dictionaries other than the two have no entries. -/
def entry? (m : Published) (dictionary key : String) : Option Amount :=
  if dictionary = "balances" then m.balances.read key
  else if dictionary = "allowances" then m.allowances.read key
  else none

end Published

end Treasury.Token
