import Treasury.Custody.Valuation

/-! What the router may do with the custody contract: move shares out, bind adapters to pools, and
say which pools count as value. -/
namespace Treasury.Custody

/-- Give shares of a supported pool away. -/
def transferShares (self caller pool : Address) (amount : Amount) (recipient : Address) :
    Exec Unit :=
  Exec.entering caller self "transfer_shares" do
    let c : Custody ← View.callee "transfer_shares" self
    c.requireRouter caller
    ensure (c.supports pool = true) .poolNotSupported
    ensure (amount ≠ 0) .zeroAmount
    Token.transfer self pool recipient amount
    Exec.emit self (.sharesTransferred pool amount recipient)

/-- Bind an adapter to a pool without one. The adapter has to say that it serves the pool. -/
def bindAdapter (self caller pool adapter : Address) : Exec Unit :=
  Exec.entering caller self "register_adapter" do
    let c : Custody ← View.callee "register_adapter" self
    c.requireRouter caller
    ensure (c.adapter? pool = none) .adapterStillRegistered
    let reported ← Strategy.poolId adapter
    ensure (reported = pool) .adapterPoolMismatch
    Exec.update self fun c : Custody =>
      pure { c with adapters := c.adapters.write pool (some adapter) }

/-- Unbind a pool's adapter. -/
def unbindAdapter (self caller pool : Address) : Exec Unit :=
  Exec.amend caller self "remove_adapter" fun c : Custody => c.unbind caller pool

/-- Count a pool's shares as value from now on. -/
def supportPool (self caller pool : Address) : Exec Unit :=
  Exec.amend caller self "add_supported_pool" fun c : Custody => c.support caller pool

/-- Count a pool's shares as value no longer. What is left of them has to be dust. -/
def unsupportPool (self caller pool : Address) : Exec Unit :=
  Exec.entering caller self "remove_supported_pool" do
    let c : Custody ← View.callee "remove_supported_pool" self
    c.requireRouter caller
    ensure (c.supports pool = true) .poolNotSupported
    let residual ← held c self pool
    let negligible ← if residual = 0 then pure true else isDust c self residual
    ensure (negligible = true) .balanceAboveDust
    Exec.update self fun c : Custody => do
      pure { c with supported := ← c.supported.swapRemove pool }

/-- The admin chooses another router, and says so. -/
def changeRouter (self caller router : Address) : Exec Unit :=
  Exec.entering caller self "set_router" do
    let c : Custody ← View.callee "set_router" self
    Exec.put self (.custody (← c.setRouter caller router))
    Exec.emit self (.vaultRouterUpdated c.router router)

end Treasury.Custody
