import Treasury.Answer
import Treasury.Token.Interface

/-! Calls to tokens. Those that every token takes answer that they were carried out; the stable
token takes some more. A ledger that stands by itself takes calls of its own, in which the caller
says on whose behalf it acts. -/
namespace Treasury.Token

/-- A call to a token. -/
inductive Command where
  | transfer (taker : Address) (amount : Amount)
  | approve (spender : Address) (amount : Amount)
  | transferFrom (owner taker : Address) (amount : Amount)
deriving DecidableEq, Repr

/-- A call that only the stable token takes. -/
inductive Stable.Command where
  | mint (account : Address) (amount : Amount)
  | burn (amount : Amount)
  | addMinter (account : Address)
  | removeMinter (account : Address)
deriving DecidableEq, Repr

/-- A call to a ledger that stands by itself. It does as it is told by anyone. -/
inductive Ledger.Command where
  | transfer (giver taker : Address) (amount : Amount)
  | approve (owner spender : Address) (amount : Amount)
  | spendAllowance (owner spender : Address) (amount : Amount)
  | transferFrom (spender owner taker : Address) (amount : Amount)
  | mint (account : Address) (amount : Amount)
  | burn (account : Address) (amount : Amount)
deriving DecidableEq, Repr

/-- Run a call to a token. -/
def Command.run (self caller : Address) : Command → Exec Answer
  | transfer taker amount => do
    Token.transfer caller self taker amount
    pure (.flag true)
  | approve spender amount => do
    Token.approve caller self spender amount
    pure (.flag true)
  | transferFrom owner taker amount => do
    Token.transferFrom caller self owner taker amount
    pure (.flag true)

/-- Run a call to the stable token. -/
def Stable.Command.run (self caller : Address) : Stable.Command → Exec Unit
  | mint account amount =>
    Exec.entering caller self "mint" do
      let t : Stable ← View.callee "mint" self
      Exec.put self (.stable (← t.mint caller account amount))
      Exec.mark (.credited self account amount)
  | burn amount => Exec.amend caller self "burn" fun t : Stable => t.burn caller amount
  | addMinter account =>
    Exec.amend caller self "add_minter" fun t : Stable => t.setMinter caller account true
  | removeMinter account =>
    Exec.amend caller self "remove_minter" fun t : Stable => t.setMinter caller account false

/-- Run a call to a ledger. -/
def Ledger.Command.run (self caller : Address) : Ledger.Command → Exec Unit
  | transfer giver taker amount =>
    Exec.amend caller self "transfer" fun l : Ledger => l.transfer giver taker amount
  | approve owner spender amount =>
    Exec.amend caller self "approve" fun l : Ledger => pure (l.approve owner spender amount)
  | spendAllowance owner spender amount =>
    Exec.amend caller self "spend_allowance" fun l : Ledger => l.spendAllowance owner spender amount
  | transferFrom spender owner taker amount =>
    Exec.amend caller self "transfer_from" fun l : Ledger =>
      l.transferFrom spender owner taker amount
  | mint account amount => Exec.amend caller self "mint" fun l : Ledger => l.mint account amount
  | burn account amount => Exec.amend caller self "burn" fun l : Ledger => l.burn account amount

end Treasury.Token
