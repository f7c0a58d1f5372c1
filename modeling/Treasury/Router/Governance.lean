import Treasury.Custody.Keeping
import Treasury.Router.Command
import Treasury.Router.Valuation

/-! What admins decide: which pools there are and what they should hold, the parameters, the
shortfall, who may do what, and whether the router runs. -/
namespace Treasury.Router

/-- Replace the storage of the router at work. -/
def store (f : Frame) (s : State) : Exec Unit := Exec.put f.self (.router s)

/-- Stop unless an admin calls. -/
def requireAdmin (f : Frame) (s : State) : Result Unit := s.roles.requireAdmin f.caller

/-- Record that shares were issued for value that is not there. The shortfall may not exceed what is
managed. -/
def recordShortfall (f : Frame) (delta : Amount) : Exec Unit :=
  guarded f "record_shortfall" fun f s => do
    requireAdmin f s
    ensure (delta ≠ 0) .zeroAmount
    let shortfall ← Amount.add s.shortfall delta
    let managed ← totalManagedAssets f.self
    ensure (shortfall ≤ managed) .shortfallExceedsAssets
    store f { s with shortfall }
    Exec.emit f.self (.shortfallRecorded delta shortfall)

/-- Lower the shortfall, but not below zero. -/
def clearShortfall (f : Frame) (delta : Amount) : Exec Unit :=
  guarded f "clear_shortfall" fun f s => do
    requireAdmin f s
    ensure (delta ≠ 0) .zeroAmount
    store f { s with shortfall := s.shortfall - delta }
    Exec.emit f.self (.shortfallCleared delta (s.shortfall - delta))

/-- Have the custody contract bind an adapter to a pool, and keep the adapter of a registered pool
in step. A router in the place of the custody contract has an entry point of the same name. -/
def registerAdapter (back : Callback) (f : Frame) (pool adapter : Address) : Exec Unit :=
  guarded f "register_adapter" fun f s => do
    requireAdmin f s
    let custody ← known s.custody
    match ← View.contract custody with
    | .router _ => back ⟨custody, f.self, f.locked⟩ (.registerAdapter pool adapter)
    | _ => Custody.bindAdapter custody f.self pool adapter
    Exec.update f.self fun s : State =>
      match s.registry.get? pool with
      | none => pure s
      | some config => do pure { s with registry := ← s.registry.update { config with adapter } }
    Exec.emit f.self (.adapterRegistered pool adapter)

/-- Have the custody contract give a pool up. A registered pool has to be suspended with no target,
and what is left of it has to be dust. -/
def removeAdapter (f : Frame) (pool : Address) : Exec Unit :=
  guarded f "remove_adapter" fun f s => do
    requireAdmin f s
    match s.registry.get? pool with
    | none => pure ()
    | some config => ensure (config.status = .suspended ∧ config.target = 0) .poolNotWoundDown
    let custody ← known s.custody
    match ← Custody.boundAdapter custody pool with
    | none => refuse .adapterNotRegistered
    | some adapter =>
      if ← Custody.isSupported custody pool then
        Custody.unsupportPool custody f.self pool
      Custody.unbindAdapter custody f.self pool
      Exec.emit f.self (.adapterRemoved pool adapter)

/-- Register a pool to which an adapter is bound, and have its shares counted. It starts active. -/
def addPool (f : Frame) (pool : Address) (target : Nat) : Exec Unit :=
  guarded f "add_pool" fun f s => do
    requireAdmin f s
    ensure (target ≤ weightScale) .valueAboveMaximum
    ensure (s.registry.size < s.maxPoolCount) .maxPoolCountExceeded
    let custody ← known s.custody
    match ← Custody.boundAdapter custody pool with
    | none => refuse .adapterNotRegistered
    | some adapter =>
      let reported ← Strategy.poolId adapter
      ensure (reported = pool) .adapterPoolMismatch
      let registry ← s.registry.push { pool, adapter, target, status := .active }
      store f { s with registry }
      Custody.supportPool custody f.self pool
      Exec.emit f.self (.poolAdded pool adapter target)

/-- Change the target of a pool. Only an active pool may have one. -/
def updatePoolTarget (f : Frame) (pool : Address) (target : Nat) : Exec Unit :=
  guarded f "update_pool_target" fun f s => do
    requireAdmin f s
    ensure (target ≤ weightScale) .valueAboveMaximum
    let config ← s.registry.require pool
    ensure (target = 0 ∨ config.status.acceptsDeposits = true) .poolNotDepositEligible
    store f { s with registry := ← s.registry.update { config with target } }
    Exec.emit f.self (.poolTargetUpdated pool config.target target)

/-- Move a pool on in its life. A pool that is no longer active has no target and is not the default
pool. -/
def setPoolStatus (f : Frame) (pool : Address) (status : Pool.Status) : Exec Unit :=
  guarded f "set_pool_status" fun f s => do
    requireAdmin f s
    let config ← s.registry.require pool
    ensure (config.status.canBecome status = true) .invalidStatusTransition
    if status.acceptsDeposits then
      store f { s with registry := ← s.registry.update { config with status } }
    else
      let registry ← s.registry.update { config with status, target := 0 }
      if s.defaultPool = some pool then
        store f { s with registry, defaultPool := none }
        Exec.emit f.self (.defaultPoolUpdated none)
      else
        store f { s with registry }
    Exec.emit f.self (.poolStatusChanged pool config.status status)

/-- Take a suspended pool off the registry. The custody contract must have given it up. -/
def removePool (f : Frame) (pool : Address) : Exec Unit :=
  guarded f "remove_pool" fun f s => do
    requireAdmin f s
    let config ← s.registry.require pool
    ensure (config.status = .suspended) .poolNotWoundDown
    let bound ← Custody.boundAdapter (← known s.custody) pool
    ensure (bound = none) .adapterStillRegistered
    let (_, registry) ← s.registry.swapRemove pool
    store f { s with registry }
    Exec.emit f.self (.poolRemoved pool)

/-- Find the configs that a table of targets leads to. No pool may be listed twice, each has to be
registered, and only an active one may get a target. -/
def retarget (registry : Pool.Registry) (seen : List Address) :
    List Pool.Target → Result (List Pool.Config)
  | [] => pure []
  | t :: rest => do
    ensure (t.pool ∉ seen) .duplicatePool
    let config ← registry.require t.pool
    ensure (t.target = 0 ∨ config.status.acceptsDeposits = true) .poolNotDepositEligible
    let configs ← retarget registry (t.pool :: seen) rest
    pure ({ config with target := t.target } :: configs)

/-- Replace all targets at once. The table has to be as long as the registry, and the targets have
to make up the whole. -/
def replacePoolTargets (f : Frame) (targets : List Pool.Target) : Exec Unit :=
  guarded f "replace_pool_targets" fun f s => do
    requireAdmin f s
    ensure (targets.length = s.registry.size) .lengthMismatch
    let configs ← retarget s.registry [] targets
    ensure (Pool.Target.total targets = weightScale) .invalidTotalWeight
    let registry ← (configs.foldlM Pool.Registry.update s.registry : Result Pool.Registry)
    store f { s with registry }
    Exec.emit f.self (.targetsReplaced targets.length)

/-- Change a parameter, and say so. -/
def setParameter (f : Frame) (s : State) (name : String) (value : Amount) : Exec Unit := do
  store f s
  Exec.emit f.self (.parameterUpdated name value)

/-- Limit all managed value. Zero means no limit. -/
def setDepositCap (f : Frame) (cap : Amount) : Exec Unit :=
  guarded f "set_deposit_cap" fun f s => do
    requireAdmin f s
    setParameter f { s with depositCap := cap } "deposit_cap" cap

/-- Say which differences of value do not matter. -/
def setDustTolerance (f : Frame) (tolerance : Amount) : Exec Unit :=
  guarded f "set_dust_tolerance" fun f s => do
    requireAdmin f s
    ensure (tolerance ≤ maxDustTolerance) .valueAboveMaximum
    setParameter f { s with dustTolerance := tolerance } "dust_tolerance" tolerance

/-- Set the part that is paid out for reinvesting fees. -/
def setReinvestIncentive (f : Frame) (incentive : Nat) : Exec Unit :=
  guarded f "set_reinvest_incentive_bps" fun f s => do
    requireAdmin f s
    ensure (incentive ≤ maxReinvestIncentive) .valueAboveMaximum
    setParameter f { s with reinvestIncentive := incentive } "reinvest_incentive_bps" incentive

/-- Set the part that is kept back from withdrawals. -/
def setWithdrawalFee (f : Frame) (fee : Nat) : Exec Unit :=
  guarded f "set_withdrawal_fee_bps" fun f s => do
    requireAdmin f s
    ensure (fee ≤ maxWithdrawalFee) .valueAboveMaximum
    setParameter f { s with withdrawalFee := fee } "withdrawal_fee_bps" fee

/-- Limit the number of pools. The limit may not drop below the number of registered pools. -/
def setMaxPoolCount (f : Frame) (count : Nat) : Exec Unit :=
  guarded f "set_max_pool_count" fun f s => do
    requireAdmin f s
    ensure (count ≤ hardMaxPoolCount) .valueAboveMaximum
    ensure (count ≠ 0 ∧ s.registry.size ≤ count) .invalidConfig
    setParameter f { s with maxPoolCount := count } "max_pool_count" count

/-- Choose the pool that reinvested fees go to, or none. It has to be active, with its adapter bound
in the custody contract. -/
def setDefaultPool (f : Frame) (pool : Option Address) : Exec Unit :=
  guarded f "set_default_pool" fun f s => do
    requireAdmin f s
    match pool with
    | none => pure ()
    | some pool =>
      let config ← s.registry.require pool
      ensure (config.status.acceptsDeposits = true) .poolNotDepositEligible
      let bound ← Custody.boundAdapter (← known s.custody) pool
      ensure (bound = some config.adapter) .adapterNotRegistered
    store f { s with defaultPool := pool }
    Exec.emit f.self (.defaultPoolUpdated pool)

/-- Choose the share token. -/
def setShareToken (f : Frame) (token : Address) : Exec Unit :=
  guarded f "set_share_token" fun f s => do
    requireAdmin f s
    store f { s with shareToken := some token }

/-- Stop the flows. A pauser may do so too. -/
def pause (f : Frame) : Exec Unit :=
  guarded f "pause" fun f s => do
    s.roles.requireRoleOrAdmin Roles.pauser f.caller
    s.requireRunning
    store f { s with paused := true }
    Exec.emit f.self (.pausedStateChanged true f.caller)

/-- Let the flows go on. -/
def unpause (f : Frame) : Exec Unit :=
  guarded f "unpause" fun f s => do
    requireAdmin f s
    ensure (s.paused = true) .notPaused
    store f { s with paused := false }
    Exec.emit f.self (.pausedStateChanged false f.caller)

/-- Change the roles. -/
def changeRoles (f : Frame) (entry : String) (change : Roles → Result Roles) : Exec Unit :=
  guarded f entry fun f s => do
    store f { s with roles := ← change s.roles }

end Treasury.Router
