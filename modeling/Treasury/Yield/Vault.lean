import Treasury.Token.Interface

/-! The entry points of a yield vault. While no shares are out, shares and assets trade one for one;
from then on a share is worth its part of what the vault holds. Quotes that ask for enough round up,
all else rounds down. -/
namespace Treasury.Yield

/-- The token that the vault holds. -/
def asset (self : Address) : View Address := do
  let v : Vault ← View.callee "asset" self
  known v.asset

/-- What the vault holds. -/
def totalAssets (self : Address) : View Amount := do
  let v : Vault ← View.callee "total_assets" self
  Token.balanceOf (← known v.asset) self

/-- Assets for shares, rounded as `round` does. -/
def assetsFor (round : Amount → Amount → Amount → Result Amount) (entry : String) (self : Address)
    (shares : Amount) : View Amount := do
  let v : Vault ← View.callee entry self
  if v.ledger.supply = 0 then
    pure shares
  else
    round shares (← totalAssets self) v.ledger.supply

/-- Shares for assets, rounded as `round` does. -/
def sharesFor (round : Amount → Amount → Amount → Result Amount) (entry : String) (self : Address)
    (assets : Amount) : View Amount := do
  let v : Vault ← View.callee entry self
  if v.ledger.supply = 0 then
    pure assets
  else
    round assets v.ledger.supply (← totalAssets self)

/-- What shares are worth. -/
def convertToAssets (self : Address) (shares : Amount) : View Amount :=
  assetsFor convert "convert_to_assets" self shares

/-- How many shares assets are worth. -/
def convertToShares (self : Address) (assets : Amount) : View Amount :=
  sharesFor convert "convert_to_shares" self assets

/-- Shares minted for a deposit. -/
def previewDeposit (self : Address) (assets : Amount) : View Amount :=
  sharesFor convert "preview_deposit" self assets

/-- Assets paid for shares. -/
def previewRedeem (self : Address) (shares : Amount) : View Amount :=
  assetsFor convert "preview_redeem" self shares

/-- Assets needed to mint exactly these shares. -/
def previewMint (self : Address) (shares : Amount) : View Amount :=
  assetsFor convertCeil "preview_mint" self shares

/-- Shares burned to take out exactly these assets. -/
def previewWithdraw (self : Address) (assets : Amount) : View Amount :=
  sharesFor convertCeil "preview_withdraw" self assets

/-- What `rateScale` shares are worth. -/
def exchangeRate (self : Address) : View Amount :=
  assetsFor convert "get_exchange_rate" self rateScale

/-- Take the caller's assets, and issue shares for them. -/
def deposit (self caller : Address) (assets : Amount) (receiver : Address) : Exec Amount :=
  Exec.entering caller self "deposit" do
    let v : Vault ← View.callee "deposit" self
    ensure (assets ≠ 0) .zeroAmount
    let shares ← previewDeposit self assets
    ensure (shares ≠ 0) .zeroAmount
    Token.transferFrom self (← known v.asset) caller self assets
    Exec.update self fun v : Vault => do pure { v with ledger := ← v.ledger.mint receiver shares }
    pure shares

/-- Burn shares of the owner, who has to allow it unless it is the caller, and pay what they are
worth. -/
def redeem (self caller : Address) (shares : Amount) (receiver owner : Address) : Exec Amount :=
  Exec.entering caller self "redeem" do
    let v : Vault ← View.callee "redeem" self
    ensure (shares ≠ 0) .zeroAmount
    let assets ← previewRedeem self shares
    Exec.update self fun v : Vault => do
      let ledger ← if caller = owner then pure v.ledger
        else v.ledger.spendAllowance owner caller shares
      pure { v with ledger := ← ledger.burn owner shares }
    Token.transfer self (← known v.asset) receiver assets
    pure assets

/-- Take the caller's assets without issuing shares for them. -/
def accrueYield (self caller : Address) (amount : Amount) : Exec Unit :=
  Exec.entering caller self "accrue_yield" do
    let v : Vault ← View.callee "accrue_yield" self
    ensure (amount ≠ 0) .zeroAmount
    Token.transferFrom self (← known v.asset) caller self amount

end Treasury.Yield
