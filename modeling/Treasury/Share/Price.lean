import Treasury.Router.Valuation

/-! What shares of the treasury are worth. Shares and value trade one for one while no shares are
out or nothing backs them; from then on a share is worth its part of the backing. Yield vaults have
entry points of the same names and answer in their own way. -/
namespace Treasury.ShareToken

/-- The value that all shares of a token stand for. Without a router there is none. -/
def backing (t : ShareToken) : View Amount :=
  match t.router with
  | some router => Router.tokenBacking router
  | none => pure 0

/-- What shares are worth, rounded down. Without any shares out it is one for one. -/
def worth (t : ShareToken) (shares : Amount) : View Amount := do
  if t.ledger.supply = 0 then
    pure shares
  else
    Amount.mulDiv shares (← t.backing) t.ledger.supply

/-- How many shares assets are worth, rounded down. Without any shares out, or any backing, it is
one for one. -/
def sharesFor (t : ShareToken) (assets : Amount) : View Amount := do
  let backing ← t.backing
  if t.ledger.supply = 0 ∨ backing = 0 then
    pure assets
  else
    Amount.mulDiv assets t.ledger.supply backing

/-- How many shares have to be given up for assets, rounded up. Without any shares out, or any
backing, it is one for one. -/
def sharesToTake (t : ShareToken) (assets : Amount) : View Amount := do
  let backing ← t.backing
  if t.ledger.supply = 0 ∨ backing = 0 then
    pure assets
  else
    Amount.mulDivCeil assets t.ledger.supply backing

/-- What shares pay after the withdrawal fee. -/
def netWorth (t : ShareToken) (shares : Amount) : View Amount := do
  let gross ← t.worth shares
  let split ← Router.previewFee (← known t.router) gross
  pure split.net

/-- The value behind all shares. -/
def totalAssets (self : Address) : View Amount := do
  match ← View.contract self with
  | .share t => t.backing
  | .yieldVault _ => Yield.totalAssets self
  | _ => throw (.noSuchMethod "total_assets")

/-- What shares are worth. -/
def convertToAssets (self : Address) (shares : Amount) : View Amount := do
  match ← View.contract self with
  | .share t => t.worth shares
  | .yieldVault _ => Yield.convertToAssets self shares
  | _ => throw (.noSuchMethod "convert_to_assets")

/-- How many shares assets are worth. -/
def convertToShares (self : Address) (assets : Amount) : View Amount := do
  match ← View.contract self with
  | .share t => t.sharesFor assets
  | .yieldVault _ => Yield.convertToShares self assets
  | _ => throw (.noSuchMethod "convert_to_shares")

/-- Shares issued for a deposit. -/
def previewDeposit (self : Address) (assets : Amount) : View Amount := do
  match ← View.contract self with
  | .share t => t.sharesFor assets
  | .yieldVault _ => Yield.previewDeposit self assets
  | _ => throw (.noSuchMethod "preview_deposit")

/-- Shares destroyed for a withdrawal. -/
def previewWithdraw (self : Address) (assets : Amount) : View Amount := do
  match ← View.contract self with
  | .share t => t.sharesToTake assets
  | .yieldVault _ => Yield.previewWithdraw self assets
  | _ => throw (.noSuchMethod "preview_withdraw")

/-- What shares pay. -/
def previewRedeem (self : Address) (shares : Amount) : View Amount := do
  match ← View.contract self with
  | .share t => t.netWorth shares
  | .yieldVault _ => Yield.previewRedeem self shares
  | _ => throw (.noSuchMethod "preview_redeem")

/-- The router issues shares. -/
def mintFor (self caller receiver : Address) (shares : Amount) : Exec Unit :=
  Exec.amend caller self "mint_for" fun t : ShareToken => t.issue caller receiver shares

/-- The router destroys shares of the owner on behalf of the initiator. -/
def burnFor (self caller initiator owner : Address) (shares : Amount) : Exec Unit :=
  Exec.amend caller self "burn_for" fun t : ShareToken => t.retireFor caller initiator owner shares

end Treasury.ShareToken
