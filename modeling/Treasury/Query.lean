import Treasury.Answer
import Treasury.Router.Survey
import Treasury.Share.Price

/-! Every question that a contract answers without changing anything. Contracts of several kinds may
answer the same question; the others have no such entry point. -/
namespace Treasury

/-- A question to a contract. -/
inductive Query where
  -- tokens
  | name
  | symbol
  | decimals
  | totalSupply
  | balanceOf (account : Address)
  | allowance (owner spender : Address)
  | isMinter (account : Address)
  /-- An entry of a published dictionary, read past the entry points. -/
  | published (dictionary key : String)
  /-- A published value by its name, read past the entry points. -/
  | publishedValue (name : String)
  -- tokens whose units are shares
  | asset
  | totalAssets
  | exchangeRate
  | convertToAssets (shares : Amount)
  | convertToShares (assets : Amount)
  | previewDeposit (assets : Amount)
  | previewWithdraw (assets : Amount)
  | previewRedeem (shares : Amount)
  | previewMint (shares : Amount)
  -- pool adapters
  | poolId
  | isHealthy
  | previewDepositInto (amount : Amount)
  | previewWithdrawFrom (shares : Amount)
  | previewSharesFor (amount : Amount)
  | valueOf (pool : Address) (shares : Amount)
  | rate
  | reportBonus
  -- whom a contract obeys
  | admin
  | router
  | hasRole (role : Nat) (account : Address)
  | callerHasRole (role : Nat)
  | memberCount (role : Nat)
  | requireRole (role : Nat)
  | requireAdmin
  | requireRoleOrAdmin (role : Nat)
  -- custody
  | totalValue
  | poolBalance (pool : Address)
  | poolValue (pool : Address)
  | adapter (pool : Address)
  | isSupported (pool : Address)
  | supportedPools
  | dustThresholds
  -- the router
  | summary
  | feeStats
  | pools
  | poolConfig (pool : Address)
  | poolCount
  | allocations
  | totalManagedAssets
  | tokenBacking
  | idleBalance
  | shortfall
  | previewWithdrawalFee (gross : Amount)
  | maxSinglePoolWithdrawal
  | depositEligiblePools
  | withdrawalEligiblePools
  | nextDepositPool
  | dustTolerance
  | maxPoolCount
  | depositCap
  | reinvestIncentive
  | withdrawalFee
  | defaultPool
  | shareToken
  | stableToken
  | custodyContract
  | isPaused
  -- a registry by itself
  | registrySize
  | registryIsEmpty
  | registryContains (pool : Address)
  | registryGet (pool : Address)
  | registryRequire (pool : Address)
  | registryAt (index : Nat)
  | registryIndex (pool : Address)
  | registryAll
  /-- A question at an entry point that no contract has. -/
  | unlisted (entry : String)
deriving DecidableEq, Repr

namespace Query

/-- Ask the stable token or the share token for what both have. -/
def described (entry : String) (self : Address) (onStable : Token.Stable → Answer)
    (onShare : ShareToken → Answer) : View Answer := do
  match ← View.contract self with
  | .stable t => pure (onStable t)
  | .share t => pure (onShare t)
  | _ => throw (.noSuchMethod entry)

/-- Read from the storage of a contract of one kind. -/
def field {σ : Type} [Storage σ] (entry : String) (self : Address) (read : σ → Answer) :
    View Answer := do
  pure (read (← View.callee entry self))

/-- Read from a router's storage. -/
def routerField (entry : String) (self : Address) (read : Router.State → Answer) : View Answer :=
  field entry self read

/-- Read from a registry. -/
def registryField (entry : String) (self : Address) (read : Pool.Registry → Answer) :
    View Answer :=
  field entry self read

/-- Ask a contract that keeps roles to stop unless a condition holds. -/
def rolesCheck (entry : String) (self : Address) (check : Roles → Result Unit) : View Answer := do
  check (← View.callee entry self)
  pure .unit

/-- A published value of a token. -/
def valueNamed (p : Token.Published) : String → Answer
  | "name" => .optional .text p.name
  | "symbol" => .optional .text p.symbol
  | "decimals" => .optional .count p.decimals
  | "total_supply" => .optional .amount p.totalSupply
  | _ => .absent

/-- What the contract at `self` answers to `caller`. -/
def ask (self caller : Address) : Query → View Answer
  | name => described "name" self (fun t => .text t.name) (fun t => .text t.name)
  | symbol => described "symbol" self (fun t => .text t.symbol) (fun t => .text t.symbol)
  | decimals =>
    described "decimals" self (fun t => .count t.decimals) (fun t => .count t.decimals)
  | totalSupply => .amount <$> Token.totalSupply self
  | balanceOf account => .amount <$> Token.balanceOf self account
  | allowance owner spender => .amount <$> Token.allowance self owner spender
  | isMinter account =>
    field "is_minter" self fun t : Token.Stable => .flag (t.minters.read account)
  | published dictionary key =>
    field "@dictionary" self fun t : Token.Stable =>
      .optional .amount (t.published.entry? dictionary key)
  | publishedValue entry =>
    field "@named" self fun t : Token.Stable => valueNamed t.published entry
  | asset => do
    match ← View.contract self with
    | .share t => pure (.optional .address t.stable)
    | _ => .address <$> Yield.asset self
  | totalAssets => .amount <$> ShareToken.totalAssets self
  | exchangeRate => .amount <$> Yield.exchangeRate self
  | convertToAssets shares => .amount <$> ShareToken.convertToAssets self shares
  | convertToShares assets => .amount <$> ShareToken.convertToShares self assets
  | previewDeposit assets => .amount <$> ShareToken.previewDeposit self assets
  | previewWithdraw assets => .amount <$> ShareToken.previewWithdraw self assets
  | previewRedeem shares => .amount <$> ShareToken.previewRedeem self shares
  | previewMint shares => .amount <$> Strategy.previewMint self shares
  | poolId => .address <$> Strategy.poolId self
  | isHealthy => .flag <$> Strategy.isHealthy self
  | previewDepositInto amount => do
    let quote ← Strategy.previewDeposit self amount
    pure (.list [.address quote.pool, .amount quote.shares])
  | previewWithdrawFrom shares => .amount <$> Strategy.previewWithdraw self shares
  | previewSharesFor amount => .amount <$> Strategy.previewShares self amount
  | valueOf pool shares => .amount <$> Strategy.valueOf self pool shares
  | rate => do
    match ← View.contract self with
    | .fixedRate s => pure (.amount s.rate)
    | .synthetic s => pure (.amount s.rate)
    | _ => throw (.noSuchMethod "get_rate")
  | reportBonus =>
    field "get_report_bonus" self fun s : Strategy.Synthetic => .amount s.reportBonus
  | admin => do
    match ← View.contract self with
    | .stable t => pure (.optional .address t.admin)
    | .yieldVault v => pure (.optional .address v.admin)
    | .custody c => pure (.optional .address c.admin)
    | _ => throw (.noSuchMethod "get_admin")
  | router => do
    match ← View.contract self with
    | .share t => pure (.optional .address t.router)
    | .custody c => pure (.optional .address c.router)
    | _ => throw (.noSuchMethod "get_router")
  | hasRole role account => do
    match ← View.contract self with
    | .roles r => pure (.flag (r.has role account))
    | .router s => pure (.flag (s.roles.has role account))
    | _ => throw (.noSuchMethod "has_role")
  | callerHasRole role =>
    field "caller_has_role" self fun r : Roles => .flag (r.has role caller)
  | memberCount role =>
    field "get_role_member_count" self fun r : Roles => .count (r.memberCount role)
  | requireRole role => rolesCheck "require_role" self fun r => r.requireRole role caller
  | requireAdmin => rolesCheck "require_admin" self fun r => r.requireAdmin caller
  | requireRoleOrAdmin role =>
    rolesCheck "require_role_or_admin" self fun r => r.requireRoleOrAdmin role caller
  | totalValue => .amount <$> Custody.totalValue self
  | poolBalance pool => .amount <$> Custody.poolBalance self pool
  | poolValue pool => .amount <$> Custody.poolValue self pool
  | adapter pool => .optional .address <$> Custody.boundAdapter self pool
  | isSupported pool => .flag <$> Custody.isSupported self pool
  | supportedPools =>
    field "supported_pools" self fun c : Custody => .listOf .address c.supported.toList
  | dustThresholds =>
    field "get_dust_thresholds" self fun c : Custody =>
      .list [.amount c.dustLimit, .count c.dustPart]
  | summary => routerField "get_state" self fun s => .summary s.summary
  | feeStats => routerField "get_fee_stats" self fun s => .fees s.fees
  | pools => routerField "get_pools" self fun s => .listOf .config s.registry.toList
  | poolConfig pool =>
    routerField "get_pool_config" self fun s => .optional .config (s.registry.get? pool)
  | poolCount => routerField "pool_count" self fun s => .count s.registry.size
  | allocations => .listOf .allocation <$> Router.allocations self
  | totalManagedAssets => .amount <$> Router.totalManagedAssets self
  | tokenBacking => .amount <$> Router.tokenBacking self
  | idleBalance => .amount <$> Router.idleBalance self
  | shortfall => routerField "get_shortfall" self fun s => .amount s.shortfall
  | previewWithdrawalFee gross => do
    let split ← Router.previewFee self gross
    pure (.amounts split.net split.fee)
  | maxSinglePoolWithdrawal => .amount <$> Router.maxSinglePoolWithdrawal self
  | depositEligiblePools => .listOf .address <$> Router.depositEligiblePools self
  | withdrawalEligiblePools => .listOf .address <$> Router.withdrawalEligiblePools self
  | nextDepositPool => .optional .address <$> Router.nextDepositPool self
  | dustTolerance => routerField "get_dust_tolerance" self fun s => .amount s.dustTolerance
  | maxPoolCount => routerField "get_max_pool_count" self fun s => .count s.maxPoolCount
  | depositCap => routerField "get_deposit_cap" self fun s => .amount s.depositCap
  | reinvestIncentive =>
    routerField "get_reinvest_incentive_bps" self fun s => .count s.reinvestIncentive
  | withdrawalFee => routerField "get_withdrawal_fee_bps" self fun s => .count s.withdrawalFee
  | defaultPool => routerField "get_default_pool" self fun s => .optional .address s.defaultPool
  | shareToken => routerField "get_share_token" self fun s => .optional .address s.shareToken
  | stableToken => routerField "get_stable_token" self fun s => .optional .address s.stable
  | custodyContract =>
    routerField "get_collateral_vault" self fun s => .optional .address s.custody
  | isPaused => routerField "is_paused" self fun s => .flag s.paused
  | registrySize => registryField "len" self fun r => .count r.size
  | registryIsEmpty => registryField "is_empty" self fun r => .flag (r.size = 0)
  | registryContains pool => registryField "contains" self fun r => .flag (r.contains pool)
  | registryGet pool => registryField "get" self fun r => .optional .config (r.get? pool)
  | registryRequire pool => do
    let r : Pool.Registry ← View.callee "require" self
    .config <$> r.require pool
  | registryAt index => do
    let r : Pool.Registry ← View.callee "at" self
    .config <$> r.at? index
  | registryIndex pool => registryField "index" self fun r => .optional .count (r.index? pool)
  | registryAll => registryField "all" self fun r => .listOf .config r.toList
  | unlisted entry => do
    let _ ← View.contract self
    throw (.noSuchMethod entry)

end Query

end Treasury
