import Treasury.Yield.Vault

/-! What pool adapters answer without doing anything: which pool they serve, whether they are well,
and what deposits, withdrawals and shares come to. A fixed-rate or synthetic adapter is its own
pool; a wrapped-vault adapter serves the pool of its vault. -/
namespace Treasury.Strategy

/-- Shares of a pool, as quoted or reported by an adapter. -/
structure Minted where
  pool : Address
  shares : Amount
deriving DecidableEq, Repr, Inhabited

/-- The pool that an adapter serves. -/
def poolId (adapter : Address) : View Address := do
  match ← View.contract adapter with
  | .fixedRate _ => pure adapter
  | .synthetic _ => pure adapter
  | .wrapped s => known s.vault
  | _ => throw (.noSuchMethod "pool_id")

/-- Whether an adapter's quotes can be relied on. -/
def isHealthy (adapter : Address) : View Bool := do
  match ← View.contract adapter with
  | .fixedRate s => pure (!s.paused)
  | .synthetic s => pure s.healthy
  | .wrapped s => pure (!s.paused)
  | _ => throw (.noSuchMethod "is_healthy")

/-- The shares that a deposit would mint. -/
def previewDeposit (adapter : Address) (amount : Amount) : View Minted := do
  match ← View.contract adapter with
  | .fixedRate s => pure ⟨adapter, ← Rate.sharesForDeposit amount s.rate⟩
  | .synthetic s => do
    s.requireHealthy
    pure ⟨adapter, ← Rate.sharesForDeposit amount s.rate⟩
  | .wrapped s => do
    let vault ← known s.vault
    pure ⟨vault, ← Yield.previewDeposit vault amount⟩
  | _ => throw (.noSuchMethod "preview_deposit_into_strategy")

/-- The stable that a withdrawal would pay. -/
def previewWithdraw (adapter : Address) (shares : Amount) : View Amount := do
  match ← View.contract adapter with
  | .fixedRate s => Rate.assetsForShares shares s.rate
  | .synthetic s => do
    s.requireHealthy
    Rate.assetsForShares shares s.rate
  | .wrapped s => do Yield.previewRedeem (← known s.vault) shares
  | _ => throw (.noSuchMethod "preview_withdraw_from_strategy")

/-- Shares whose withdrawal pays at least an amount. -/
def previewShares (adapter : Address) (amount : Amount) : View Amount := do
  match ← View.contract adapter with
  | .fixedRate s => Rate.sharesForAmount amount s.rate
  | .synthetic s => do
    s.requireHealthy
    s.quoteShares amount
  | .wrapped s => do Yield.previewWithdraw (← known s.vault) amount
  | _ => throw (.noSuchMethod "preview_shares_for_amount")

/-- A deposit that mints at least these shares. Yield vaults answer this too. -/
def previewMint (adapter : Address) (shares : Amount) : View Amount := do
  match ← View.contract adapter with
  | .fixedRate s => Rate.assetsForMint shares s.rate
  | .synthetic s => do
    s.requireHealthy
    Rate.assetsForMint shares s.rate
  | .wrapped s => do Yield.previewMint (← known s.vault) shares
  | _ => Yield.previewMint adapter shares

/-- What shares of a pool are worth. The pool has to be the adapter's. -/
def valueOf (adapter pool : Address) (shares : Amount) : View Amount := do
  match ← View.contract adapter with
  | .fixedRate s => do
    ensure (pool = adapter) .invalidPool
    Rate.assetsForShares shares s.rate
  | .synthetic s => do
    s.requireHealthy
    ensure (pool = adapter) .invalidPool
    Rate.assetsForShares shares s.rate
  | .wrapped s => do
    let vault ← known s.vault
    ensure (pool = vault) .invalidPool
    Yield.convertToAssets vault shares
  | _ => throw (.noSuchMethod "value_of")

end Treasury.Strategy
