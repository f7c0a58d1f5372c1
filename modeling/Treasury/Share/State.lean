import Treasury.Token.Ledger

/-! The share token's storage. A share is a part of all value that the treasury manages. -/
namespace Treasury

/-- The storage of the share token. -/
structure ShareToken where
  name : String := ""
  symbol : String := ""
  decimals : Nat := 18
  /-- Chooses the router. -/
  admin : Option Address := none
  /-- The token in which shares are valued. -/
  stable : Option Address := none
  /-- The contract that moves value, and that may issue and destroy shares. -/
  router : Option Address := none
  ledger : Token.Ledger := {}

namespace ShareToken

/-- Set a share token up. No router is known. -/
def construct (t : ShareToken) (admin stable : Address) (name symbol : String) (decimals : Nat) :
    ShareToken :=
  { t with admin := some admin, stable := some stable, name, symbol, decimals, router := none }

/-- Stop unless the caller is the router. -/
def requireRouter (t : ShareToken) (caller : Address) : Result Unit :=
  ensure (t.router = some caller) .unauthorizedRouter

/-- The admin chooses the router. -/
def setRouter (t : ShareToken) (caller router : Address) : Result ShareToken := do
  ensure (t.admin = some caller) .unauthorized
  pure { t with router := some router }

/-- The router issues shares. -/
def issue (t : ShareToken) (caller receiver : Address) (shares : Amount) : Result ShareToken := do
  t.requireRouter caller
  ensure (shares ≠ 0) .zeroAmount
  pure { t with ledger := ← t.ledger.mint receiver shares }

/-- Destroy shares of the owner on behalf of the initiator, who needs an allowance unless it is the
owner. -/
def retire (t : ShareToken) (initiator owner : Address) (shares : Amount) : Result ShareToken := do
  let ledger ← if initiator = owner then pure t.ledger
    else t.ledger.spendAllowance owner initiator shares
  pure { t with ledger := ← ledger.burn owner shares }

/-- The router destroys shares of the owner on behalf of the initiator. -/
def retireFor (t : ShareToken) (caller initiator owner : Address) (shares : Amount) :
    Result ShareToken := do
  t.requireRouter caller
  ensure (shares ≠ 0) .zeroAmount
  t.retire initiator owner shares

end ShareToken

end Treasury
