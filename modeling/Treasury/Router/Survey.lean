import Treasury.Pool.Ranking
import Treasury.Pool.Weight
import Treasury.Router.Valuation

/-! How the router looks at its pools. A probe values one pool, or finds that the pool cannot be
relied on; a survey probes all registered pools and compares their values. A pool that failed its
probe counts as worth nothing. -/
namespace Treasury.Router

/-- What a pool is looked at for. -/
inductive Direction where
  | deposit
  | withdrawal
deriving DecidableEq, Repr

/-- Whether a pool of this status may be chosen. -/
def Direction.admits : Direction → Pool.Status → Bool
  | deposit, status => status.acceptsDeposits
  | withdrawal, status => status.servesWithdrawals

/-- What a pool's custodied shares are worth. There is no answer if the custody contract has bound
another adapter, or if the adapter is not well or serves another pool. -/
def probeValue (s : State) (config : Pool.Config) : View (Option Amount) := do
  let custody ← known s.custody
  let bound ← Custody.boundAdapter custody config.pool
  if bound ≠ some config.adapter then
    pure none
  else
    let healthy ← Strategy.isHealthy config.adapter
    if healthy = false then
      pure none
    else
      let reported ← Strategy.poolId config.adapter
      if reported ≠ config.pool then
        pure none
      else
        let balance ← Custody.poolBalance custody config.pool
        if balance = 0 then
          pure (some 0)
        else
          some <$> Strategy.valueOf config.adapter config.pool balance

/-- Whether a pool of this value passes in a direction. For a deposit, a quote for a small amount
has to mint shares of this pool. For a withdrawal, the pool has to be worth something. -/
def passes (s : State) (config : Pool.Config) (value : Amount) : Direction → View Bool
  | .deposit => do
    let quote ← Strategy.previewDeposit config.adapter (max s.dustTolerance 1)
    pure (quote.pool = config.pool ∧ quote.shares ≠ 0)
  | .withdrawal => pure (value ≠ 0)

/-- What a pool is worth, if it can be relied on in a direction. -/
def probe (s : State) (direction : Direction) (config : Pool.Config) : View (Option Amount) := do
  match ← probeValue s config with
  | none => pure none
  | some value => do pure (if ← passes s config value direction then some value else none)

/-- A registered pool as a survey found it. -/
structure Surveyed where
  config : Pool.Config
  /-- What the pool is worth, if the probe had an answer. -/
  value : Option Amount
  /-- The pool's part of all value found, in units of `weightScale`. -/
  weight : Nat
deriving DecidableEq, Repr, Inhabited

namespace Surveyed

/-- The pool as reports show it. -/
def allocation (p : Surveyed) : Pool.Allocation where
  pool := p.config.pool
  value := p.value.getD 0
  current := p.weight
  target := p.config.target
  status := p.config.status
  healthy := p.value.isSome

/-- The pool as a choice between pools sees it. -/
def snapshot (direction : Direction) (p : Surveyed) : Pool.Snapshot where
  pool := p.config.pool
  target := p.config.target
  current := p.weight
  available := p.value.getD 0
  eligible := direction.admits p.config.status && p.value.isSome

end Surveyed

/-- Probe all registered pools in order, and weigh what was found. -/
def survey (s : State) (probe : Pool.Config → View (Option Amount)) : View (List Surveyed) := do
  let configs := s.registry.toList
  let values ← configs.mapM probe
  let weights ← Pool.Weight.current (values.map fun value => value.getD 0)
  pure ((configs.zip (values.zip weights)).map fun (config, value, weight) =>
    { config, value, weight })

/-- All registered pools as a choice in one direction sees them. -/
def snapshots (s : State) (direction : Direction) : View (List Pool.Snapshot) := do
  pure ((← survey s (probe s direction)).map (Surveyed.snapshot direction))

/-- All registered pools as reports show them. -/
def allocations (self : Address) : View (List Pool.Allocation) := do
  let s : State ← View.callee "get_allocations" self
  pure ((← survey s (probeValue s)).map Surveyed.allocation)

/-- The pools among some snapshots that may be chosen. -/
def eligiblePools (pools : List Pool.Snapshot) : List Address :=
  (pools.filter fun pool => pool.eligible).map Pool.Snapshot.pool

/-- The pools that could take a deposit now. -/
def depositEligiblePools (self : Address) : View (List Address) := do
  let s : State ← View.callee "deposit_eligible_pools" self
  pure (eligiblePools (← snapshots s .deposit))

/-- The pools that could serve a withdrawal now. -/
def withdrawalEligiblePools (self : Address) : View (List Address) := do
  let s : State ← View.callee "withdrawal_eligible_pools" self
  pure (eligiblePools (← snapshots s .withdrawal))

/-- The pool that the next deposit would go to. -/
def nextDepositPool (self : Address) : View (Option Address) := do
  let s : State ← View.callee "select_deposit_pool_view" self
  let pools ← snapshots s .deposit
  pure ((Pool.Ranking.depositPool pools).bind fun i => pools[i]?.map Pool.Snapshot.pool)

/-- The most that one pool could pay out now. -/
def maxSinglePoolWithdrawal (self : Address) : View Amount := do
  let s : State ← View.callee "max_single_pool_withdrawal" self
  let pools ← snapshots s .withdrawal
  pure (((pools.filter fun pool => pool.eligible).map Pool.Snapshot.available).foldl max 0)

end Treasury.Router
